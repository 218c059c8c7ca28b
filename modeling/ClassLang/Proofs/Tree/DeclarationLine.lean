import ClassLang.Proofs.Tree.Headline

/-! # The lines of declarations

What a declaration says beside its members can be told from its line: the words that stand there,
the arguments between brackets and the types behind a word that introduces them.
-/

namespace ClassLang

open Outline Scan

variable {ι κ : Type}

/-! ## Arguments -/

/-- How an argument is written among others. -/
def Argument.text (a : Argument ι) : String := a.type ++ " " ++ a.name

/-- An argument can be told from what follows it. -/
theorem Argument.tells {a : Argument ι} {b : Argument κ} (ha : (Node.argument a).Proper)
    (hb : (Node.argument b).Proper) :
    Tells (fun a => a.text.toList) (fun b => b.text.toList) (fun a b => Argument.same a b) a b := by
  intro rest rest' hrest hrest' heq
  simp only [text, String.toList_append, List.append_assoc] at heq
  obtain ⟨htype, hname⟩ := word_append_inj (isWord_of_isTypename ha.1) (isWord_of_isTypename hb.1)
    (stops_cons (by decide)) (stops_cons (by decide)) heq
  obtain ⟨hname, hmore⟩ := word_append_inj (isWord_of_isName ha.2) (isWord_of_isName hb.2)
    hrest hrest' (List.cons.inj hname).2
  simp [Argument.same, htype, hname, hmore]

theorem Argument.inline_cons (a : Argument ι) (arguments : List (Argument ι)) :
    (inline (a :: arguments)).toList =
      '(' :: (a.text.toList ++ (marked ',' [' '] (fun a => a.text.toList) arguments ++ [')'])) := by
  change ("(" ++ ", ".intercalate ((a :: arguments).map text) ++ ")").toList = _
  rw [String.toList_append, String.toList_append, intercalate_comma, List.append_assoc,
    List.append_assoc]
  rfl

theorem Argument.inline_nil : (inline ([] : List (Argument ι))).toList = ['(', ')'] := by
  simp [inline]

/-- Between brackets stand no arguments or a first one. -/
theorem Argument.inline_nil_ne {a : Argument κ} {arguments : List (Argument κ)}
    (ha : (Node.argument a).Proper) :
    (inline ([] : List (Argument ι))).toList ≠ (inline (a :: arguments)).toList := by
  intro heq
  rw [inline_nil, inline_cons] at heq
  simp only [text, String.toList_append, List.append_assoc] at heq
  have hempty : IsWord "" := List.all_eq_true.mp (by decide)
  obtain ⟨-, hblank⟩ := word_append_inj hempty (isWord_of_isTypename ha.1)
    (@stops_cons [] ')' (by decide)) (stops_cons (by decide)) (List.cons.inj heq).2
  exact absurd (List.cons.inj hblank).1 (by decide)

/-- The arguments of a method can be told from its line. -/
theorem Argument.inline_inj {arguments : List (Argument ι)} {arguments' : List (Argument κ)}
    (harguments : ∀ a ∈ arguments, (Node.argument a).Proper)
    (harguments' : ∀ a ∈ arguments', (Node.argument a).Proper)
    (heq : (inline arguments).toList = (inline arguments').toList) :
    sameMembers Argument.same arguments arguments' := by
  cases arguments with
  | nil =>
      cases arguments' with
      | nil => rfl
      | cons b bs => exact absurd heq (inline_nil_ne (harguments' b List.mem_cons_self))
  | cons a as =>
      cases arguments' with
      | nil => exact absurd heq.symm (inline_nil_ne (harguments a List.mem_cons_self))
      | cons b bs =>
          have hclose : Stops [')'] := stops_cons (by decide)
          rw [inline_cons, inline_cons] at heq
          apply sameMembers_iff.mpr
          exact separated_append_inj (by decide)
            (fun x hx y hy => Argument.tells (harguments x hx) (harguments' y hy))
            hclose hclose (by decide) (by decide) (List.cons.inj heq).2

theorem stops_inline (arguments : List (Argument ι)) :
    Stops (Argument.inline arguments).toList := by
  rw [Argument.inline, String.toList_append, String.toList_append, List.append_assoc]
  exact stops_cons (by decide)

/-! ## Types behind a word -/

theorem listed_cons (introduction name : String) (names : List String) :
    (listed introduction (name :: names)).toList =
      ' ' :: (introduction.toList ++
        ' ' :: (name.toList ++ marked ',' [' '] String.toList names)) := by
  have hlist := intercalate_comma name names id
  rw [List.map_id] at hlist
  rw [listed, List.isEmpty_cons, if_neg Bool.false_ne_true, String.toList_append, hlist]
  simp [toString_text]

theorem stops_listed (introduction : String) (names : List String) :
    Stops (listed introduction names).toList := by
  cases names with
  | nil => exact stops_nil
  | cons name names =>
      rw [listed_cons]
      exact stops_cons (by decide)

/-- Names behind a word that introduces them can be told from the line. -/
theorem listed_inj {introduction : String} {names names' : List String}
    (hnames : ∀ name ∈ names, IsWord name) (hnames' : ∀ name ∈ names', IsWord name)
    (heq : (listed introduction names).toList = (listed introduction names').toList) :
    names = names' := by
  cases names with
  | nil =>
      cases names' with
      | nil => rfl
      | cons name' names' =>
          rw [listed_cons] at heq
          cases heq
  | cons name names =>
      cases names' with
      | nil =>
          rw [listed_cons] at heq
          cases heq
      | cons name' names' =>
          rw [listed_cons, listed_cons] at heq
          have hbody := (List.cons.inj (List.append_cancel_left (List.cons.inj heq).2)).2
          rw [← List.append_nil (marked _ _ _ names),
            ← List.append_nil (marked _ _ _ names')] at hbody
          have hmembers := separated_append_inj (by decide)
            (fun x hx y hy => tells_word (hnames x hx) (hnames' y hy))
            stops_nil stops_nil (by decide) (by decide) hbody
          rwa [List.forall₂_eq_eq_eq] at hmembers

/-! ## Modifiers -/

theorem Access.word_inj {access access' : Access} (hword : access.word = access'.word) :
    access = access' := by
  cases access <;> cases access' <;> first | rfl | exact absurd hword (by decide)

/-- The modifiers of a member and its type can be told from what follows them. -/
theorem Access.modifiers_inj {access access' : Access} {isStatic isStatic' : Bool}
    {type type' text text' : String} (htype : IsTypename type) (htype' : IsTypename type')
    (htext : Stops text.toList) (htext' : Stops text'.toList)
    (heq : " " ++ (access.modifiers isStatic ++ (" " ++ (type ++ text))) =
      " " ++ (access'.modifiers isStatic' ++ (" " ++ (type' ++ text')))) :
    access = access' ∧ isStatic = isStatic' ∧ type = type' ∧ text = text' := by
  have hstops (isStatic : Bool) (text : String) :
      Stops ((if isStatic then " static" else "") ++ (" " ++ text)).toList := by
    cases isStatic with
    | false => exact stops_blank text
    | true =>
        rw [String.toList_append]
        exact stops_cons (by decide)
  -- a type is written otherwise than the modifier
  have hstatic {type text text' : String} (htype : IsTypename type)
      (htext : Stops text.toList) : " " ++ (type ++ text) ≠ " static" ++ (" " ++ text') := by
    intro heq
    have hword : IsWord "static" := List.all_eq_true.mp (by decide)
    rw [show " static" = " " ++ "static" from rfl, String.append_assoc] at heq
    obtain ⟨rfl, -⟩ := spaced_inj (isWord_of_isTypename htype) hword htext (stops_blank _) heq
    exact absurd htype (by decide)
  unfold modifiers at heq
  rw [String.append_assoc, String.append_assoc] at heq
  obtain ⟨haccess, hrest⟩ := spaced_inj (isWord_access access) (isWord_access access')
    (hstops _ _) (hstops _ _) heq
  have hflag : isStatic = isStatic' := by
    cases isStatic <;> cases isStatic'
    · rfl
    · exact absurd hrest (hstatic htype htext)
    · exact absurd hrest.symm (hstatic htype' htext')
    · rfl
  subst hflag
  obtain ⟨htypes, htexts⟩ := spaced_inj (isWord_of_isTypename htype) (isWord_of_isTypename htype')
    htext htext' ((String.append_right_inj _).mp hrest)
  exact ⟨word_inj haccess, rfl, htypes, htexts⟩

/-! ## Members -/

/-- The type and the name of a declaration in a method can be told from its line. -/
theorem Stmt.declared_of_remark {type type' name name' : String}
    (htype : type = "var" ∨ IsTypename type) (htype' : type' = "var" ∨ IsTypename type')
    (hremark : " " ++ type ++ " " ++ name = " " ++ type' ++ " " ++ name') :
    type = type' ∧ name = name' := by
  have hword {type : String} (htype : type = "var" ∨ IsTypename type) : IsWord type := by
    rcases htype with rfl | htype
    · exact List.all_eq_true.mp (by decide)
    · exact isWord_of_isTypename htype
  simp only [String.append_assoc] at hremark
  obtain ⟨htypes, hnames⟩ := spaced_inj (hword htype) (hword htype') (stops_blank _)
    (stops_blank _) hremark
  exact ⟨htypes, (String.append_right_inj " ").mp hnames⟩

theorem Argument.same_of_remark {decl : Argument ι} {other : Argument κ}
    (hdecl : (Node.argument decl).Proper) (hother : (Node.argument other).Proper)
    (hremark : (Node.argument decl).remark = (Node.argument other).remark) : decl.same other := by
  simp only [Node.remark, String.append_assoc] at hremark
  obtain ⟨htype, hname⟩ := spaced_inj (isWord_of_isTypename hdecl.1)
    (isWord_of_isTypename hother.1) (stops_blank _) (stops_blank _) hremark
  simp [same, htype, (String.append_right_inj " ").mp hname]

theorem Field.same_of_remark {decl : Field ι} {other : Field κ} (hdecl : (Node.field decl).Legible)
    (hother : (Node.field other).Legible)
    (hremark : (Node.field decl).remark = (Node.field other).remark)
    (hvalue : Option.Rel Expr.Alike decl.value other.value) : decl.same other := by
  simp only [Node.remark, String.append_assoc] at hremark
  obtain ⟨haccess, hstatic, htype, hname⟩ := Access.modifiers_inj hdecl.proper.1 hother.proper.1
    (stops_blank _) (stops_blank _) hremark
  simp [same, haccess, hstatic, htype, (String.append_right_inj " ").mp hname,
    Stmt.sameValue_iff.mpr hvalue]

/-- The name of a method and its arguments can be told from what follows its type. -/
theorem Argument.named_inj {name name' : String} {arguments : List (Argument ι)}
    {arguments' : List (Argument κ)} (hname : IsName name) (hname' : IsName name')
    (harguments : ∀ a ∈ arguments, (Node.argument a).Proper)
    (harguments' : ∀ a ∈ arguments', (Node.argument a).Proper)
    (heq : " " ++ (name ++ inline arguments) = " " ++ (name' ++ inline arguments')) :
    name = name' ∧ sameMembers same arguments arguments' := by
  obtain ⟨hnames, htexts⟩ := spaced_inj (isWord_of_isName hname) (isWord_of_isName hname')
    (stops_inline _) (stops_inline _) heq
  exact ⟨hnames, inline_inj harguments harguments' (congrArg String.toList htexts)⟩

theorem Node.Legible.arguments_stub {decl : MethodStub ι} (hdecl : (stub decl).Legible) :
    ∀ a ∈ decl.arguments, (argument a).Proper := by
  intro a hmem
  apply hdecl.arguments
  rw [children_stub]
  exact List.mem_map_of_mem hmem

theorem Node.Legible.arguments_method {decl : Method ι} (hdecl : (method decl).Legible) :
    ∀ a ∈ decl.arguments, (argument a).Proper := by
  intro a hmem
  apply hdecl.arguments
  rw [children_method]
  exact List.mem_append_left _ (List.mem_map_of_mem hmem)

theorem MethodStub.same_of_remark {decl : MethodStub ι} {other : MethodStub κ}
    (hdecl : (Node.stub decl).Legible) (hother : (Node.stub other).Legible)
    (hremark : (Node.stub decl).remark = (Node.stub other).remark) : decl.same other := by
  simp only [Node.remark, String.append_assoc] at hremark
  obtain ⟨haccess, hrest⟩ := spaced_inj (isWord_access _) (isWord_access _) (stops_blank _)
    (stops_blank _) hremark
  obtain ⟨htype, hrest⟩ := spaced_inj (isWord_of_isTypename hdecl.proper.2.1)
    (isWord_of_isTypename hother.proper.2.1) (stops_blank _) (stops_blank _) hrest
  obtain ⟨hname, hsame⟩ := Argument.named_inj hdecl.proper.2.2 hother.proper.2.2
    hdecl.arguments_stub hother.arguments_stub hrest
  simp [same, Access.word_inj haccess, htype, hname, hsame]

theorem Method.same_of_remark {decl : Method ι} {other : Method κ}
    (hdecl : (Node.method decl).Legible) (hother : (Node.method other).Legible)
    (hremark : (Node.method decl).remark = (Node.method other).remark)
    (hbody : decl.body.Alike other.body) : decl.same other := by
  simp only [Node.remark, String.append_assoc] at hremark
  obtain ⟨haccess, hstatic, htype, hrest⟩ := Access.modifiers_inj hdecl.proper.1 hother.proper.1
    (stops_blank _) (stops_blank _) hremark
  obtain ⟨hname, hsame⟩ := Argument.named_inj hdecl.proper.2.1 hother.proper.2.1
    hdecl.arguments_method hother.arguments_method hrest
  have hbody : decl.body.same other.body := hbody
  simp [same, haccess, hstatic, htype, hname, hsame, hbody]

theorem ClassDecl.same_of_remark {decl : ClassDecl ι} {other : ClassDecl κ}
    (hdecl : (Node.classDecl decl).Legible) (hother : (Node.classDecl other).Legible)
    (hremark : (Node.classDecl decl).remark = (Node.classDecl other).remark)
    (hfields : sameMembers Field.same decl.fields other.fields)
    (hmethods : sameMembers Method.same decl.methods other.methods) : decl.same other := by
  have hextends (text : String) : Stops (" extends " ++ text).toList := by
    rw [String.toList_append]
    exact stops_cons (by decide)
  have hblank : " extends " = " extends" ++ " " := rfl
  simp only [Node.remark, String.append_assoc] at hremark
  obtain ⟨haccess, hrest⟩ := spaced_inj (isWord_access _) (isWord_access _) (stops_blank _)
    (stops_blank _) hremark
  obtain ⟨hname, hrest⟩ := spaced_inj (isWord_of_isTypename hdecl.proper.1)
    (isWord_of_isTypename hother.proper.1) (hextends _) (hextends _) hrest
  rw [hblank, String.append_assoc, String.append_assoc, String.append_right_inj] at hrest
  obtain ⟨hbase, hrest⟩ := spaced_inj (isWord_of_isTypename hdecl.proper.2.1)
    (isWord_of_isTypename hother.proper.2.1) (stops_listed _ _) (stops_listed _ _) hrest
  have hinterfaces := listed_inj
    (fun type hmem => isWord_of_isTypename (hdecl.proper.2.2 type hmem))
    (fun type hmem => isWord_of_isTypename (hother.proper.2.2 type hmem))
    (congrArg String.toList hrest)
  simp [same, Access.word_inj haccess, hname, hbase, hinterfaces, hfields, hmethods]

theorem InterfaceDecl.same_of_remark {decl : InterfaceDecl ι} {other : InterfaceDecl κ}
    (hdecl : (Node.interfaceDecl decl).Legible) (hother : (Node.interfaceDecl other).Legible)
    (hremark : (Node.interfaceDecl decl).remark = (Node.interfaceDecl other).remark)
    (hstubs : sameMembers MethodStub.same decl.stubs other.stubs) : decl.same other := by
  simp only [Node.remark, String.append_assoc] at hremark
  obtain ⟨haccess, hrest⟩ := spaced_inj (isWord_access _) (isWord_access _) (stops_blank _)
    (stops_blank _) hremark
  obtain ⟨hname, hrest⟩ := spaced_inj (isWord_of_isTypename hdecl.proper.1)
    (isWord_of_isTypename hother.proper.1) (stops_listed _ _) (stops_listed _ _) hrest
  have hbases := listed_inj (fun type hmem => isWord_of_isTypename (hdecl.proper.2 type hmem))
    (fun type hmem => isWord_of_isTypename (hother.proper.2 type hmem))
    (congrArg String.toList hrest)
  simp [same, Access.word_inj haccess, hname, hbases, hstubs]

end ClassLang
