import ClassLang.Proofs.Reading.DeclarationRules
import ClassLang.Proofs.Reading.StatementSound
import ClassLang.Proofs.Syntax.Declaration

/-! # What is read as a declaration is one

The rules of declarations read phrases of the grammar. They do not recur, so
what each of them needs of the level further in is known beforehand.
-/

namespace ClassLang.Level

open TokenStream ClassLang.Parser Syntax

variable {digits : Option Nat} {depth : Nat} {enclosing : Option String}
  {stream next : TokenStream}

/-! ## Parts of declarations -/

theorem sound_accessModifier : Sound accessModifier IsAccess := by
  intro stream access next hyields
  obtain ⟨_, _, rfl, rfl⟩ | ⟨word, hhands, ⟨hkind, rfl⟩ | ⟨hkind, rfl⟩⟩ :=
    yields_accessModifier.mp hyields
  · exact ⟨[], .nil _, .absent⟩
  · exact ⟨[word], .single hhands, .public hkind⟩
  · exact ⟨[word], .single hhands, .private hkind⟩

theorem sound_staticModifier : Sound staticModifier IsStatic := by
  intro stream isStatic next hyields
  obtain ⟨_, rfl, rfl⟩ | ⟨word, hkind, hhands, rfl⟩ := yields_staticModifier.mp hyields
  · exact ⟨[], .nil _, .absent⟩
  · exact ⟨[word], .single hhands, .present hkind⟩

theorem sound_baseType : Sound baseType IsBase := by
  intro stream base next hyields
  obtain ⟨_, rfl, rfl⟩ | ⟨word, middle, hword, hhands, type, htype, rfl, hhands'⟩ :=
    yields_baseType.mp hyields
  · exact ⟨[], .nil _, .absent⟩
  · exact ⟨[word, type], .cons hhands (.single hhands'), .named hword htype⟩

theorem sound_expectTypename : Sound expectTypename IsType := by
  intro stream name next hyields
  obtain ⟨token, hkind, rfl, hhands⟩ := yields_expectTypename.mp hyields
  exact ⟨[token], .single hhands, .mk hkind⟩

theorem sound_argument : Sound Level.argument IsArgument := by
  intro stream argument next hyields
  obtain ⟨type, htype, middle, hhands, name, hname, hhands', rfl⟩ := yields_argument.mp hyields
  obtain rfl := hhands.buffered_eq
  exact ⟨[_, name], .cons hhands (.single hhands'), .mk htype hname⟩

/-- A rule reads such phrases, at whatever depth. -/
def SoundRule {α : Type} (digits : Option Nat) (enclosing : Option String) (rule : Rule α)
    (phrase : List Token → α → Prop) : Prop :=
  ∀ depth, Sound ((bounded digits depth).read enclosing rule) phrase

/-- A rule is sound if it is at every depth that allows any nesting. -/
theorem SoundRule.of_apply {α : Type} {rule : Rule α} {phrase : List Token → α → Prop}
    (hsound : ∀ depth, Sound ((bounded digits depth).apply enclosing rule) phrase) :
    SoundRule digits enclosing rule phrase := by
  intro depth
  cases depth with
  | zero =>
      intro stream value next hyields
      simp [Yields, bounded_zero_read] at hyields
  | succ depth => exact hsound depth

theorem sound_typeList : SoundRule digits enclosing .typeList (CommaSeparated IsType) :=
  .of_apply fun _ => sound_expectTypename.commaSeparated

theorem sound_argumentRule : SoundRule digits enclosing .argument IsArgument :=
  .of_apply fun _ => sound_argument

theorem sound_argumentList : SoundRule digits enclosing .argumentList (Parenthesized IsArgument) :=
  .of_apply fun depth => (sound_argumentRule depth).parenthesizedList

theorem sound_typesAfter {text : String} :
    Sound ((bounded digits depth).typesAfter enclosing text) (AreTypesAfter text) := by
  intro stream names next hyields
  obtain ⟨_, rfl, rfl⟩ | ⟨word, middle, hword, hhands, hnames⟩ := yields_typesAfter.mp hyields
  · exact ⟨[], .nil _, .absent⟩
  · obtain ⟨ts, hts, hlist⟩ := sound_typeList depth _ _ _ hnames
    exact ⟨word :: ts, .cons hhands hts, .listed hword hlist⟩

/-! ## Members -/

theorem sound_methodStub : SoundRule digits enclosing .methodStub IsStub := by
  refine .of_apply fun depth stream stub next hyields => ?_
  obtain ⟨access, s₁, haccess, hpublic, type, htype, s₂, hhands₁, name, hname, s₃, hhands₂,
    arguments, s₄, harguments, ⟨semicolon, hsemicolon, hhands₃⟩, rfl⟩ :=
    yields_methodStub.mp hyields
  obtain ⟨ts, hts, haccess⟩ := sound_accessModifier _ _ _ haccess
  obtain ⟨us, hus, harguments⟩ := sound_argumentList depth _ _ _ harguments
  obtain rfl : access = .public := by cases access <;> simp_all
  have hpasses := (hts.append (.cons hhands₁ (.cons hhands₂ hus))).append (.single hhands₃)
  refine ⟨_, hpasses, ?_⟩
  rw [List.append_assoc] at hpasses
  rw [hpasses.headD_eq]
  exact .mk haccess htype hname harguments hsemicolon

theorem sound_member : SoundRule digits enclosing .member (IsMember enclosing) := by
  refine .of_apply fun depth stream member next hyields => ?_
  obtain ⟨access, s₁, haccess, isStatic, s₂, hstatic, type, htype, s₃, hhands₁, name, hname, s₄,
    hhands₂, hrest⟩ := yields_member.mp hyields
  obtain ⟨ts, hts, haccess⟩ := sound_accessModifier _ _ _ haccess
  obtain ⟨us, hus, hstatic⟩ := sound_staticModifier _ _ _ hstatic
  have hfront := hts.append hus
  split at hrest
  next =>
    obtain ⟨arguments, s₅, harguments, body, hbody, rfl⟩ := hrest
    obtain ⟨vs, hvs, harguments⟩ := sound_argumentList depth _ _ _ harguments
    obtain ⟨ws, hws, hbody⟩ := (bounded_soundStatements digits depth enclosing).block _ _ _ hbody
    have hpasses := (hfront.append (.cons hhands₁ (.cons hhands₂ hvs))).append hws
    refine ⟨_, hpasses, ?_⟩
    rw [List.append_assoc] at hpasses
    rw [hpasses.headD_eq]
    exact IsMethod.mk haccess hstatic htype hname harguments hbody
  next =>
    obtain ⟨value, s₅, hvalue, ⟨semicolon, hsemicolon, hhands₃⟩, rfl⟩ := hrest
    obtain ⟨vs, hvs, hvalue⟩ :=
      (bounded_soundExpressions digits depth enclosing).read_firstValue _ _ _ hvalue
    have hpasses := (hfront.append (.cons hhands₁ (.cons hhands₂ hvs))).append (.single hhands₃)
    refine ⟨_, hpasses, ?_⟩
    rw [List.append_assoc] at hpasses
    rw [hpasses.headD_eq]
    exact Syntax.IsField.mk haccess hstatic htype hname hvalue hsemicolon

/-! ## Classes and interfaces -/

theorem sound_classDeclaration {token : Token} {access : Access} :
    SoundRule digits enclosing (.classDeclaration token access) fun ts decl =>
      ∃ word rest, ts = word :: rest ∧
        ∀ us, IsAccess us access → token = us.headD word → IsClass (us ++ ts) decl := by
  refine .of_apply fun depth stream decl next hyields => ?_
  obtain ⟨word, s₁, ⟨hword, hhands₁⟩, name, hname, s₂, hhands₂, base, s₃, hbase, interfaces, s₄,
    hinterfaces, opening, hopening, s₅, hhands₃, members, hmembers, rfl⟩ :=
    yields_classDeclaration.mp hyields
  obtain ⟨us, hus, hbase⟩ := sound_baseType _ _ _ hbase
  obtain ⟨vs, hvs, hinterfaces⟩ := sound_typesAfter _ _ _ hinterfaces
  have hstart : Starts (IsMember (some name.payload)) fun _ => True := by
    intro ts member hmember
    obtain ⟨token, rest, heq, _⟩ := hmember.head
    exact ⟨token, rest, heq, trivial⟩
  obtain ⟨_, hpasses, ws, closing, rfl, hclosing, hsequence⟩ :=
    (sound_member depth).manyUntil (by simp) hstart _ _ _ hmembers
  refine ⟨word :: name :: us ++ vs ++ opening :: (ws ++ [closing]), ?_, word, _, rfl,
    fun ts haccess htag => ?_⟩
  · exact ((Passes.cons hhands₁ (.cons hhands₂ hus)).append hvs).append (.cons hhands₃ hpasses)
  · subst htag
    have hmembers := areMembers_iff.mpr ⟨members, hsequence, rfl, rfl⟩
    simpa using IsClass.mk haccess hword hname hbase hinterfaces hopening hmembers hclosing

theorem sound_interfaceDeclaration {token : Token} {access : Access} :
    SoundRule digits enclosing (.interfaceDeclaration token access) fun ts decl =>
      ∃ word rest, ts = word :: rest ∧
        ∀ us, IsAccess us access → token = us.headD word → IsInterface (us ++ ts) decl := by
  refine .of_apply fun depth stream decl next hyields => ?_
  obtain ⟨word, s₁, ⟨hword, hhands₁⟩, name, hname, s₂, hhands₂, bases, s₃, hbases, opening,
    hopening, s₄, hhands₃, stubs, hstubs, rfl⟩ := yields_interfaceDeclaration.mp hyields
  obtain ⟨us, hus, hbases⟩ := sound_typesAfter _ _ _ hbases
  have hstart : Starts IsStub fun _ => True := by
    intro ts stub hstub
    obtain ⟨token, rest, heq, _⟩ := hstub.head
    exact ⟨token, rest, heq, trivial⟩
  obtain ⟨_, hpasses, vs, closing, rfl, hclosing, hsequence⟩ :=
    (sound_methodStub depth).manyUntil (by simp) hstart _ _ _ hstubs
  refine ⟨word :: name :: us ++ opening :: (vs ++ [closing]), ?_, word, _, rfl,
    fun ts haccess htag => ?_⟩
  · exact (Passes.cons hhands₁ (.cons hhands₂ hus)).append (.cons hhands₃ hpasses)
  · subst htag
    simpa using IsInterface.mk haccess hword hname hbases hopening hsequence hclosing

theorem sound_topLevel : Sound ((bounded digits depth).topLevel enclosing) IsTopLevel := by
  intro stream decl next hyields
  obtain ⟨access, middle, haccess, hrest⟩ := yields_topLevel.mp hyields
  obtain ⟨ts, hts, haccess⟩ := sound_accessModifier _ _ _ haccess
  split at hrest
  next =>
    obtain ⟨node, hnode, rfl⟩ := hrest
    obtain ⟨_, hus, word, rest, rfl, hclass⟩ := sound_classDeclaration depth _ _ _ hnode
    exact ⟨_, hts.append hus, hclass ts haccess (hts.append hus).headD_eq⟩
  next =>
    obtain ⟨_, node, hnode, rfl⟩ := hrest
    obtain ⟨_, hus, word, rest, rfl, hinterface⟩ := sound_interfaceDeclaration depth _ _ _ hnode
    exact ⟨_, hts.append hus, hinterface ts haccess (hts.append hus).headD_eq⟩

/-! ## Programs -/

theorem yields_topLevelStep {taken : Option (TopLevel Token)} {level : Level} :
    Yields (do if ← isAt .endOfText then return none else some <$> level.topLevel enclosing)
        stream taken next ↔
      if stream.atEnd then taken = none ∧ next = stream
      else ∃ decl, Yields (level.topLevel enclosing) stream decl next ∧ taken = some decl := by
  simp [atEnd]

theorem sound_module {program : Program Token}
    (hyields : Yields ((bounded digits depth).read enclosing .module) stream program next) :
    next.atEnd ∧ ∃ ts, stream.Passes ts next ∧ IsProgram ts next.buffered program := by
  cases depth with
  | zero => simp [Yields, bounded_zero_read] at hyields
  | succ depth =>
      obtain ⟨decls, hdecls, rfl⟩ := yields_module.mp hyields
      have hall : next.atEnd ∧ ∃ ts, stream.Passes ts next ∧ Sequence IsTopLevel ts decls := by
        refine hdecls.many_induction
          (motive := fun stream decls next =>
            next.atEnd ∧ ∃ ts, stream.Passes ts next ∧ Sequence IsTopLevel ts decls) ?_ ?_ ?_
        · intro stream decl next hstep
          have hcases := yields_topLevelStep.mp hstep
          split at hcases
          next => simp at hcases
          next =>
            obtain ⟨decl', hdecl, _⟩ := hcases
            obtain ⟨ts, hts, htop⟩ := sound_topLevel _ _ _ hdecl
            obtain ⟨token, rest, rfl, _⟩ := htop.head
            exact hts.remaining_lt (by simp)
        · intro stream next hstep
          have hcases := yields_topLevelStep.mp hstep
          split at hcases
          next hend =>
            obtain ⟨_, rfl⟩ := hcases
            exact ⟨hend, [], .nil _, .nil⟩
          next => simp at hcases
        · rintro stream decl middle decls next hstep ⟨hend, us, hus, hsequence⟩
          have hcases := yields_topLevelStep.mp hstep
          split at hcases
          next => simp at hcases
          next =>
            obtain ⟨decl', hdecl, hsome⟩ := hcases
            obtain rfl := Option.some.inj hsome
            obtain ⟨ts, hts, htop⟩ := sound_topLevel _ _ _ hdecl
            exact ⟨hend, ts ++ us, hts.append hus, .cons htop hsequence⟩
      obtain ⟨hend, ts, hts, hsequence⟩ := hall
      refine ⟨hend, ts, hts, ?_⟩
      rw [hts.headD_buffered]
      exact .mk (areDeclarations_iff.mpr ⟨decls, hsequence, rfl, rfl⟩)

end ClassLang.Level
