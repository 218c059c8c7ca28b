import ClassLang.Proofs.Reading.DeclarationSound
import ClassLang.Proofs.Reading.StatementComplete

/-! # Every declaration is read

A phrase of the grammar of declarations is read with what it stands for at
every sufficient nesting depth. No declaration depends on what follows it.
-/

namespace ClassLang.Level

open TokenStream ClassLang.Parser Syntax Filter

variable {digits : Option Nat} {depth : Nat} {enclosing : Option String}
  {stream middle next : TokenStream} {ts us vs ws : List Token}

/-! ## Parts of declarations -/

theorem complete_accessModifier :
    Complete accessModifier IsAccess fun token =>
      token.kind ≠ .keyword .public ∧ token.kind ≠ .keyword .private := by
  intro ts access haccess stream next hpasses ⟨hpublic, hprivate⟩
  rw [yields_accessModifier]
  cases haccess with
  | absent =>
      obtain rfl := Passes.nil_iff.mp hpasses
      exact .inl ⟨hpublic, hprivate, rfl, rfl⟩
  | «public» hword =>
      have hhands := Passes.singleton_iff.mp hpasses
      exact .inr ⟨_, hhands, .inl ⟨hword, rfl⟩⟩
  | «private» hword =>
      have hhands := Passes.singleton_iff.mp hpasses
      exact .inr ⟨_, hhands, .inr ⟨hword, rfl⟩⟩

theorem complete_staticModifier :
    Complete staticModifier IsStatic (·.kind ≠ .keyword .static) := by
  intro ts isStatic hstatic stream next hpasses hfollow
  rw [yields_staticModifier]
  cases hstatic with
  | absent =>
      obtain rfl := Passes.nil_iff.mp hpasses
      exact .inl ⟨hfollow, rfl, rfl⟩
  | present hword =>
      have hhands := Passes.singleton_iff.mp hpasses
      exact .inr ⟨_, hword, hhands, rfl⟩

theorem complete_baseType : Complete baseType IsBase (¬ IsWord "extends" ·) := by
  intro ts base hbase stream next hpasses hfollow
  rw [yields_baseType]
  cases hbase with
  | absent =>
      obtain rfl := Passes.nil_iff.mp hpasses
      exact .inl ⟨hfollow, rfl, rfl⟩
  | named hword htype =>
      obtain ⟨middle, hhands, hback⟩ := Passes.cons_iff.mp hpasses
      have hhands' := Passes.singleton_iff.mp hback
      exact .inr ⟨_, middle, hword, hhands, _, htype, rfl, hhands'⟩

theorem complete_expectTypename : Complete expectTypename IsType fun _ => True := by
  rintro _ _ ⟨htype⟩ stream next hpasses _
  have hhands := Passes.singleton_iff.mp hpasses
  exact yields_expectTypename.mpr ⟨_, htype, rfl, hhands⟩

theorem complete_typesAfter {text : String} :
    Complete ((bounded digits (depth + 1)).typesAfter enclosing text) (AreTypesAfter text)
      fun token => ¬ IsWord text token ∧ token.kind ≠ .symbol .comma := by
  intro ts names hnames stream next hpasses ⟨hword, hcomma⟩
  rw [yields_typesAfter]
  cases hnames with
  | absent =>
      obtain rfl := Passes.nil_iff.mp hpasses
      exact .inl ⟨hword, rfl, rfl⟩
  | listed hword' hlist =>
      obtain ⟨middle, hhands, hts⟩ := Passes.cons_iff.mp hpasses
      exact .inr ⟨_, middle, hword', hhands,
        complete_expectTypename.commaSeparated (fun _ _ => trivial) _ _ hlist _ _ hts
          ⟨trivial, hcomma⟩⟩

theorem complete_argument : Complete Level.argument IsArgument fun _ => True := by
  rintro _ _ ⟨htype, hname⟩ stream next hpasses _
  obtain ⟨middle, hhands, hback⟩ := Passes.cons_iff.mp hpasses
  have hhands' := Passes.singleton_iff.mp hback
  obtain rfl := hhands.buffered_eq
  exact yields_argument.mpr ⟨_, htype, middle, hhands, _, hname, hhands', rfl⟩

theorem complete_argumentList :
    Complete ((bounded digits (depth + 2)).read enclosing .argumentList)
      (Parenthesized IsArgument) fun _ => True := by
  refine Complete.parenthesizedList (fun _ => True) complete_argument (fun _ _ => trivial)
    (fun _ _ => trivial) ?_
  rintro _ _ ⟨htype, _⟩
  exact ⟨_, _, rfl, by simp [htype]⟩

/-! ## Members -/

theorem complete_methodStub :
    Complete ((bounded digits (depth + 3)).read enclosing .methodStub) IsStub fun _ => True := by
  intro tokens stub hstub stream next hpasses _
  cases hstub with
  | mk haccess htype hname harguments hsemicolon =>
      have htag := hpasses
      rw [List.append_assoc] at htag
      rw [← htag.headD_eq, bounded_succ_read]
      obtain ⟨s₄, hfront, hback⟩ := Passes.append_iff.mp hpasses
      have hhands₃ := Passes.singleton_iff.mp hback
      obtain ⟨s₁, hts, s₂, hhands₁, hback⟩ := Passes.append_cons_iff.mp hfront
      obtain ⟨s₃, hhands₂, hus⟩ := Passes.cons_iff.mp hback
      refine yields_methodStub.mpr ⟨.public, s₁, complete_accessModifier _ _ haccess _ _ hts ?_,
        by simp, _, htype, s₂, hhands₁, _, hname, s₃, hhands₂, _, s₄,
        complete_argumentList _ _ harguments _ _ hus trivial, ⟨_, hsemicolon, hhands₃⟩, rfl⟩
      simp [hhands₁.buffered_eq, htype]

/-- What comes before the type of a member. -/
theorem yields_modifiers {access : Access} {isStatic : Bool} {type : Token}
    (haccess : IsAccess ts access) (hstatic : IsStatic us isStatic) (htype : type.kind = .typename)
    (hpasses : stream.Passes (ts ++ us) next) (hnext : next.buffered = type) :
    ∃ middle, Yields accessModifier stream access middle ∧
      Yields staticModifier middle isStatic next := by
  obtain ⟨middle, hts, hus⟩ := Passes.append_iff.mp hpasses
  refine ⟨middle, complete_accessModifier _ _ haccess _ _ hts ?_,
    complete_staticModifier _ _ hstatic _ _ hus (by simp [hnext, htype])⟩
  cases hstatic with
  | absent =>
      obtain rfl := Passes.nil_iff.mp hus
      simp [hnext, htype]
  | present hword => simp [hus.buffered_eq, hword]

/-- Up to its name a member of either sort is read in the same way. -/
theorem yields_front {access : Access} {isStatic : Bool} {type name : Token}
    (haccess : IsAccess ts access) (hstatic : IsStatic us isStatic) (htype : type.kind = .typename)
    (hpasses : stream.Passes (ts ++ us ++ type :: name :: vs) next) :
    ∃ s₁ s₂ s₃ s₄, Yields accessModifier stream access s₁ ∧ Yields staticModifier s₁ isStatic s₂ ∧
      s₂.Hands type s₃ ∧ s₃.Hands name s₄ ∧ s₄.Passes vs next := by
  obtain ⟨s₂, hmodifiers, s₃, hhands, hback⟩ := Passes.append_cons_iff.mp hpasses
  obtain ⟨s₄, hhands', hvs⟩ := Passes.cons_iff.mp hback
  obtain ⟨s₁, haccess, hstatic⟩ :=
    yields_modifiers haccess hstatic htype hmodifiers hhands.buffered_eq
  exact ⟨s₁, s₂, s₃, s₄, haccess, hstatic, hhands, hhands', hvs⟩

theorem reads_field {access : Access} {isStatic : Bool} {type name semicolon : Token}
    {value : Option (Expr Token)} (haccess : IsAccess ts access) (hstatic : IsStatic us isStatic)
    (htype : type.kind = .typename) (hname : name.kind = .name)
    (hvalue : (bounded digits depth).ReadsFirstValue enclosing vs value)
    (hvalue' : IsFirstValue enclosing vs value) (hsemicolon : semicolon.kind = .symbol .semicolon) :
    (bounded digits (depth + 1)).Reads enclosing .member
      (ts ++ us ++ type :: name :: vs ++ [semicolon])
      (.field ⟨(ts ++ us).headD type, access, isStatic, type.payload, name.payload, value⟩)
      fun _ => True := by
  intro stream next hpasses _
  have htag := hpasses
  rw [List.append_assoc] at htag
  rw [← htag.headD_eq, bounded_succ_read]
  obtain ⟨s₅, hfront, hback⟩ := Passes.append_iff.mp hpasses
  have hhands₃ := Passes.singleton_iff.mp hback
  obtain ⟨s₁, s₂, s₃, s₄, haccess, hstatic, hhands₁, hhands₂, hvs⟩ :=
    yields_front haccess hstatic htype hfront
  refine yields_member.mpr ⟨access, s₁, haccess, isStatic, s₂, hstatic, type, htype, s₃, hhands₁,
    name, hname, s₄, hhands₂, ?_⟩
  have hended := hhands₃.buffered_eq ▸ hsemicolon
  rw [if_neg]
  · exact ⟨value, s₅, hvalue _ _ hvs (hhands₃.tightness_lt_of_mark hsemicolon (by decide)),
      ⟨semicolon, hsemicolon, hhands₃⟩, rfl⟩
  -- What follows the name of a field is an equals sign or the semicolon.
  · cases hvalue' with
    | absent =>
        obtain rfl := Passes.nil_iff.mp hvs
        simp [hended]
    | present hequals => simp [hvs.buffered_eq, hequals]

theorem reads_method {access : Access} {isStatic : Bool} {type name : Token}
    {arguments : List (Argument Token)} {body : Stmt Token} (haccess : IsAccess ts access)
    (hstatic : IsStatic us isStatic) (htype : type.kind = .typename) (hname : name.kind = .name)
    (harguments : Parenthesized IsArgument vs arguments)
    (hbody : (bounded digits (depth + 2)).CoversStmt enclosing ws (.block body)) :
    (bounded digits (depth + 3)).Reads enclosing .member (ts ++ us ++ type :: name :: vs ++ ws)
      (.method ⟨(ts ++ us).headD type, access, isStatic, type.payload, name.payload, arguments,
        body⟩) fun _ => True := by
  intro stream next hpasses _
  have htag := hpasses
  rw [List.append_assoc] at htag
  rw [← htag.headD_eq, bounded_succ_read]
  obtain ⟨s₅, hfront, hws⟩ := Passes.append_iff.mp hpasses
  obtain ⟨s₁, s₂, s₃, s₄, haccess, hstatic, hhands₁, hhands₂, hvs⟩ :=
    yields_front haccess hstatic htype hfront
  refine yields_member.mpr ⟨access, s₁, haccess, isStatic, s₂, hstatic, type, htype, s₃, hhands₁,
    name, hname, s₄, hhands₂, ?_⟩
  rw [if_pos]
  · exact ⟨arguments, s₅, complete_argumentList _ _ harguments _ _ hvs trivial, body,
      hbody _ _ hws trivial, rfl⟩
  · cases harguments with
    | empty hopening => rwa [hvs.buffered_eq]
    | items hopening => rwa [hvs.buffered_eq]

theorem readsMember_of_fits {member : Member Token} (hmember : IsMember enclosing ts member)
    (hfits : ∀ token ∈ ts, token.Fits digits) :
    ∀ᶠ depth in atTop, (bounded digits depth).Reads enclosing .member ts member fun _ => True := by
  cases member with
  | field field =>
      cases hmember with
      | mk haccess hstatic htype hname hvalue hsemicolon =>
          simp only [List.forall_mem_append, List.forall_mem_cons] at hfits
          refine eventually_of_further 1 ?_
          filter_upwards [readsFirstValue_of_fits hvalue hfits.1.2.2.2] with depth hread
          exact reads_field haccess hstatic htype hname hread hvalue hsemicolon
  | method method =>
      cases hmember with
      | mk haccess hstatic htype hname harguments hbody =>
          simp only [List.forall_mem_append, List.forall_mem_cons] at hfits
          refine eventually_of_further 3 ?_
          filter_upwards [eventually_further (coversStmt_of_derives hbody hfits.2) 2]
            with depth hread
          exact reads_method haccess hstatic htype hname harguments hread

/-- A row of items is read if each of them is. -/
theorem sequence_of_fits {α : Type} {item : List Token → α → Prop}
    {read : Nat → List Token → α → Prop} {values : List α}
    (hread : ∀ ts value, item ts value → (∀ token ∈ ts, token.Fits digits) →
      ∀ᶠ depth in atTop, read depth ts value)
    (hvalues : Sequence item ts values) (hfits : ∀ token ∈ ts, token.Fits digits) :
    ∀ᶠ depth in atTop, Sequence (fun ts value => item ts value ∧ read depth ts value) ts values := by
  induction hvalues with
  | nil => exact .of_forall fun _ => .nil
  | cons hitem _ ih =>
      obtain ⟨hfirst, hrest⟩ := List.forall_mem_append.mp hfits
      filter_upwards [hread _ _ hitem hfirst, ih hrest] with depth hvalue hvalues
      exact .cons ⟨hitem, hvalue⟩ hvalues

/-! ## Classes and interfaces -/

theorem reads_class {token word name opening closing : Token} {access : Access} {base : String}
    {interfaces : List String} {members : List (Member Token)} (hword : word.kind = .keyword .class)
    (hname : name.kind = .typename) (hbase : IsBase us base)
    (hinterfaces : AreTypesAfter "implements" vs interfaces)
    (hopening : opening.kind = .symbol .braceOpen)
    (hmembers : Sequence (fun ts member => IsMember (some name.payload) ts member ∧
      (bounded digits (depth + 1)).Reads (some name.payload) .member ts member fun _ => True)
      ws members)
    (hclosing : closing.kind = .symbol .braceClose) :
    (bounded digits (depth + 2)).Reads enclosing (.classDeclaration token access)
      (word :: name :: us ++ vs ++ opening :: ws ++ [closing])
      ⟨token, access, name.payload, base, interfaces, members.filterMap (·.field?),
        members.filterMap (·.method?)⟩ fun _ => True := by
  intro stream next hpasses _
  rw [List.append_assoc] at hpasses
  obtain ⟨s₄, hfront, s₅, hhands₃, hws⟩ := Passes.append_cons_iff.mp hpasses
  obtain ⟨s₃, hfront, hvs⟩ := Passes.append_iff.mp hfront
  obtain ⟨s₁, hhands₁, hback⟩ := Passes.cons_iff.mp hfront
  obtain ⟨s₂, hhands₂, hus⟩ := Passes.cons_iff.mp hback
  have hopened : s₄.buffered.kind = .symbol .braceOpen := by rwa [hhands₃.buffered_eq]
  have hfollow : ¬ IsWord "extends" s₃.buffered := by
    rintro ⟨hkind, hdata⟩
    cases hinterfaces with
    | absent =>
        obtain rfl := Passes.nil_iff.mp hvs
        simp [hopened] at hkind
    | listed hword' =>
        rw [hvs.buffered_eq, hword'.2] at hdata
        simp at hdata
  rw [bounded_succ_read]
  refine yields_classDeclaration.mpr ⟨word, s₁, ⟨hword, hhands₁⟩, name, hname, s₂, hhands₂, base,
    s₃, complete_baseType _ _ hbase _ _ hus hfollow, interfaces, s₄,
    complete_typesAfter _ _ hinterfaces _ _ hvs ?_, opening, hopening, s₅, hhands₃, members, ?_,
    rfl⟩
  · exact ⟨fun ⟨hkind, _⟩ => by simp [hopened] at hkind, by simp [hopened]⟩
  · refine Complete.manyUntil (fun _ => True) (by simp) ?_ ?_ (fun _ _ => trivial) _ _
      ⟨ws, closing, rfl, hclosing, hmembers⟩ _ _ hws trivial
    · exact fun ts member ⟨_, hread⟩ stream next hts hfollow => hread _ _ hts hfollow
    · intro ts member ⟨hmember, _⟩
      obtain ⟨first, rest, rfl, hkind⟩ := hmember.head
      exact ⟨first, rest, rfl, by rintro hclose; simp [hclose] at hkind, trivial⟩

theorem reads_interface {token word name opening closing : Token} {access : Access}
    {bases : List String} {stubs : List (MethodStub Token)}
    (hword : word.kind = .keyword .interface) (hname : name.kind = .typename)
    (hbases : AreTypesAfter "extends" us bases) (hopening : opening.kind = .symbol .braceOpen)
    (hstubs : Sequence IsStub vs stubs) (hclosing : closing.kind = .symbol .braceClose) :
    (bounded digits (depth + 4)).Reads enclosing (.interfaceDeclaration token access)
      (word :: name :: us ++ opening :: vs ++ [closing])
      ⟨token, access, name.payload, bases, stubs⟩ fun _ => True := by
  intro stream next hpasses _
  rw [List.append_assoc] at hpasses
  obtain ⟨s₃, hfront, s₄, hhands₃, hvs⟩ := Passes.append_cons_iff.mp hpasses
  obtain ⟨s₁, hhands₁, hback⟩ := Passes.cons_iff.mp hfront
  obtain ⟨s₂, hhands₂, hus⟩ := Passes.cons_iff.mp hback
  have hopened : s₃.buffered.kind = .symbol .braceOpen := by rwa [hhands₃.buffered_eq]
  rw [bounded_succ_read]
  refine yields_interfaceDeclaration.mpr ⟨word, s₁, ⟨hword, hhands₁⟩, name, hname, s₂, hhands₂,
    bases, s₃, complete_typesAfter _ _ hbases _ _ hus ?_, opening, hopening, s₄, hhands₃, stubs,
    ?_, rfl⟩
  · exact ⟨fun ⟨hkind, _⟩ => by simp [hopened] at hkind, by simp [hopened]⟩
  · refine Complete.manyUntil (fun _ => True) (by simp) complete_methodStub ?_ (fun _ _ => trivial)
      _ _ ⟨vs, closing, rfl, hclosing, hstubs⟩ _ _ hvs trivial
    intro ts stub hstub
    obtain ⟨first, rest, rfl, hkind⟩ := hstub.head
    exact ⟨first, rest, rfl, by rintro hclose; simp [hclose] at hkind, trivial⟩

/-! ## Programs -/

/-- The level reads a class or an interface with its access, whatever follows. -/
def ReadsTopLevel (level : Level) (enclosing : Option String) (tokens : List Token)
    (decl : TopLevel Token) : Prop :=
  ∀ stream next, stream.Passes tokens next → Yields (level.topLevel enclosing) stream decl next

/-- The word for a class or an interface is shown once its access has been read. -/
theorem yields_access {access : Access} {word : Token}
    (hword : word.kind = .keyword .class ∨ word.kind = .keyword .interface)
    (haccess : IsAccess ts access) (hpasses : stream.Passes (ts ++ word :: us) next) :
    ∃ middle, Yields accessModifier stream access middle ∧ middle.buffered.kind = word.kind ∧
      middle.Passes (word :: us) next := by
  obtain ⟨middle, hts, hback⟩ := Passes.append_iff.mp hpasses
  have hshown := congrArg Token.kind hback.buffered_eq
  refine ⟨middle, complete_accessModifier _ _ haccess _ _ hts ?_, hshown, hback⟩
  rcases hword with hword | hword <;> simp [hshown, hword]

theorem readsTopLevel_class {word name opening closing : Token} {access : Access} {base : String}
    {interfaces : List String} {members : List (Member Token)}
    (haccess : IsAccess ts access) (hword : word.kind = .keyword .class)
    (hname : name.kind = .typename) (hbase : IsBase us base)
    (hinterfaces : AreTypesAfter "implements" vs interfaces)
    (hopening : opening.kind = .symbol .braceOpen)
    (hmembers : Sequence (fun ts member => IsMember (some name.payload) ts member ∧
      (bounded digits (depth + 1)).Reads (some name.payload) .member ts member fun _ => True)
      ws members)
    (hclosing : closing.kind = .symbol .braceClose) :
    (bounded digits (depth + 2)).ReadsTopLevel enclosing
      (ts ++ word :: name :: us ++ vs ++ opening :: ws ++ [closing])
      (.classDecl ⟨ts.headD word, access, name.payload, base, interfaces,
        members.filterMap (·.field?), members.filterMap (·.method?)⟩) := by
  intro stream next hpasses
  simp only [List.append_assoc, List.cons_append] at hpasses
  rw [← hpasses.headD_eq]
  obtain ⟨middle, haccess, hshown, hback⟩ := yields_access (.inl hword) haccess hpasses
  refine yields_topLevel.mpr ⟨_, middle, haccess, ?_⟩
  rw [if_pos (hshown.trans hword)]
  refine ⟨_, reads_class hword hname hbase hinterfaces hopening hmembers hclosing _ _ ?_ trivial,
    rfl⟩
  simpa using hback

theorem readsClass_of_fits {decl : ClassDecl Token} (hclass : IsClass ts decl)
    (hfits : ∀ token ∈ ts, token.Fits digits) :
    ∀ᶠ depth in atTop, (bounded digits depth).ReadsTopLevel enclosing ts (.classDecl decl) := by
  cases hclass with
  | mk haccess hword hname hbase hinterfaces hopening hmembers hclosing =>
      obtain ⟨members, hsequence, rfl, rfl⟩ := areMembers_iff.mp hmembers
      simp only [List.cons_append, List.append_assoc, List.forall_mem_append,
        List.forall_mem_cons] at hfits
      refine eventually_of_further 2 ?_
      filter_upwards [eventually_further (sequence_of_fits (fun _ _ => readsMember_of_fits)
        hsequence hfits.2.2.2.2.2.2.1) 1] with depth hread
      exact readsTopLevel_class haccess hword hname hbase hinterfaces hopening hread hclosing

theorem readsInterface_of_fits {decl : InterfaceDecl Token} (hinterface : IsInterface ts decl) :
    ∀ᶠ depth in atTop, (bounded digits depth).ReadsTopLevel enclosing ts (.interfaceDecl decl) := by
  cases hinterface with
  | mk haccess hword hname hbases hopening hstubs hclosing =>
      refine eventually_of_further 4 (.of_forall fun depth stream next hpasses => ?_)
      simp only [List.append_assoc, List.cons_append] at hpasses
      rw [← hpasses.headD_eq]
      obtain ⟨middle, haccess, hshown, hback⟩ := yields_access (.inr hword) haccess hpasses
      refine yields_topLevel.mpr ⟨_, middle, haccess, ?_⟩
      rw [if_neg (by simp [hshown, hword])]
      refine ⟨hshown.trans hword, _,
        reads_interface hword hname hbases hopening hstubs hclosing _ _ ?_ trivial, rfl⟩
      simpa using hback

theorem readsTopLevel_of_fits {decl : TopLevel Token} (hdecl : IsTopLevel ts decl)
    (hfits : ∀ token ∈ ts, token.Fits digits) :
    ∀ᶠ depth in atTop, (bounded digits depth).ReadsTopLevel enclosing ts decl := by
  cases decl with
  | classDecl node => exact readsClass_of_fits hdecl hfits
  | interfaceDecl node => exact readsInterface_of_fits hdecl

theorem yields_declarations {level : Level} {decls : List (TopLevel Token)}
    (hdecls : Sequence (fun ts decl => IsTopLevel ts decl ∧
      level.ReadsTopLevel enclosing ts decl) ts decls)
    (hpasses : stream.Passes ts next) (hend : next.atEnd) :
    Yields (many do if ← isAt .endOfText then return none else some <$> level.topLevel enclosing)
      stream decls next := by
  induction hdecls generalizing stream with
  | nil =>
      obtain rfl := Passes.nil_iff.mp hpasses
      refine yields_many_stop (yields_topLevelStep.mpr ?_)
      rw [if_pos hend]
      exact ⟨rfl, rfl⟩
  | cons hdecl _ ih =>
      obtain ⟨middle, hts, hrest⟩ := Passes.append_iff.mp hpasses
      obtain ⟨token, rest, rfl, _⟩ := hdecl.1.head
      obtain ⟨_, hhands, _⟩ := Passes.cons_iff.mp hts
      refine yields_many_next (yields_topLevelStep.mpr ?_) (hts.remaining_lt (by simp)) (ih hrest)
      rw [if_neg (by simp [hhands.1])]
      exact ⟨_, hdecl.2 _ _ hts, rfl⟩

/-- A program is read one rule deeper than its declarations. -/
theorem reads_module {decls : List (TopLevel Token)} {last : Token}
    (hdecls : Sequence (fun ts decl => IsTopLevel ts decl ∧
      (bounded digits depth).ReadsTopLevel enclosing ts decl) ts decls)
    (hpasses : stream.Passes ts next) (hend : next.atEnd) (hlast : next.buffered = last) :
    Yields ((bounded digits (depth + 1)).read enclosing .module) stream
      ⟨ts.headD last, decls.filterMap (·.classDecl?), decls.filterMap (·.interfaceDecl?)⟩ next := by
  rw [← hlast, ← hpasses.headD_buffered]
  exact yields_module.mpr ⟨decls, yields_declarations hdecls hpasses hend, rfl⟩

/-- A program is read at every sufficient depth. -/
theorem readsProgram_of_fits {program : Program Token} {last : Token}
    (hprogram : IsProgram ts last program) (hfits : ∀ token ∈ ts, token.Fits digits) :
    ∀ᶠ depth in atTop, ∀ stream next, stream.Passes ts next → next.atEnd → next.buffered = last →
      Yields ((bounded digits depth).read enclosing .module) stream program next := by
  cases hprogram with
  | mk hdecls =>
      obtain ⟨decls, hsequence, rfl, rfl⟩ := areDeclarations_iff.mp hdecls
      refine eventually_of_further 1 ?_
      filter_upwards [sequence_of_fits (fun _ _ => readsTopLevel_of_fits) hsequence hfits]
        with depth hread
      exact fun stream next hpasses hend hlast => reads_module hread hpasses hend hlast

end ClassLang.Level
