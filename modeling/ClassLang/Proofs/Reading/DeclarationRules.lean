import ClassLang.Grammar.Declaration
import ClassLang.Proofs.Reading.Outcome

/-! # What the rules of declarations yield

One law for each rule of declarations, in the form of those for statements.
-/

namespace ClassLang.Level

open TokenStream ClassLang.Parser

variable {level : Level} {enclosing : Option String} {stream next : TokenStream}

theorem yields_accessModifier {access : Access} :
    Yields accessModifier stream access next ↔
      (stream.buffered.kind ≠ .keyword .public ∧ stream.buffered.kind ≠ .keyword .private ∧
          access = .public ∧ next = stream) ∨
        ∃ word, stream.Hands word next ∧
          (word.kind = .keyword .public ∧ access = .public ∨
            word.kind = .keyword .private ∧ access = .private) := by
  rw [accessModifier, yields_takeAny?_bind (by simp)]
  simp only [List.mem_cons, List.not_mem_nil, or_false, not_or, yields_pure, and_assoc]
  refine or_congr Iff.rfl ⟨?_, ?_⟩
  · rintro ⟨word, middle, hkind, hhands, hrest⟩
    split at hrest
    next hprivate =>
      obtain ⟨rfl, rfl⟩ := hrest
      exact ⟨word, hhands, .inr ⟨hprivate, rfl⟩⟩
    next hpublic =>
      obtain ⟨rfl, rfl⟩ := hrest
      exact ⟨word, hhands, .inl ⟨hkind.resolve_right hpublic, rfl⟩⟩
  · rintro ⟨word, hhands, ⟨hkind, rfl⟩ | ⟨hkind, rfl⟩⟩
    · exact ⟨word, next, .inl hkind, hhands, by simp [hkind]⟩
    · exact ⟨word, next, .inr hkind, hhands, by simp [hkind]⟩

theorem yields_staticModifier {isStatic : Bool} :
    Yields staticModifier stream isStatic next ↔
      (stream.buffered.kind ≠ .keyword .static ∧ isStatic = false ∧ next = stream) ∨
        ∃ word, word.kind = .keyword .static ∧ stream.Hands word next ∧ isStatic = true := by
  simp only [staticModifier, yields_map,
    yields_take? (show Kind.keyword .static ≠ .endOfText by simp)]
  constructor
  · rintro ⟨_, ⟨rfl, rfl, hnot⟩ | ⟨word, rfl, hkind, hhands⟩, rfl⟩
    · exact .inl ⟨hnot, rfl, rfl⟩
    · exact .inr ⟨word, hkind, hhands, rfl⟩
  · rintro (⟨hnot, rfl, rfl⟩ | ⟨word, hkind, hhands, rfl⟩)
    · exact ⟨none, .inl ⟨rfl, rfl, hnot⟩, rfl⟩
    · exact ⟨some word, .inr ⟨word, rfl, hkind, hhands⟩, rfl⟩

theorem yields_baseType {base : String} :
    Yields baseType stream base next ↔
      (¬ (stream.buffered.kind = .name ∧ stream.buffered.data = some "extends") ∧
          base = "Object" ∧ next = stream) ∨
        ∃ word middle, (word.kind = .name ∧ word.data = some "extends") ∧
          stream.Hands word middle ∧
            ∃ type, type.kind = .typename ∧ base = type.payload ∧ middle.Hands type next := by
  simp [baseType, yields_takeWord?_bind]

theorem yields_typesAfter {text : String} {names : List String} :
    Yields (level.typesAfter enclosing text) stream names next ↔
      (¬ (stream.buffered.kind = .name ∧ stream.buffered.data = some text) ∧
          names = [] ∧ next = stream) ∨
        ∃ word middle, (word.kind = .name ∧ word.data = some text) ∧
          stream.Hands word middle ∧ Yields (level.read enclosing .typeList) middle names next := by
  simp [typesAfter, yields_takeWord?_bind]

theorem yields_argument {argument : Argument Token} :
    Yields Level.argument stream argument next ↔
      ∃ type, type.kind = .typename ∧ ∃ middle, stream.Hands type middle ∧
        ∃ name, name.kind = .name ∧ middle.Hands name next ∧
          argument = ⟨stream.buffered, type.payload, name.payload⟩ := by
  rw [Level.argument, yields_peek_bind, yields_expectTypename_bind]
  constructor
  · rintro ⟨type, middle, htype, hhands, hrest⟩
    obtain ⟨name, _, hname, hhands', hpure⟩ := yields_expectName_bind.mp hrest
    obtain ⟨rfl, rfl⟩ := yields_pure.mp hpure
    exact ⟨type, htype, middle, hhands, name, hname, hhands', rfl⟩
  · rintro ⟨type, htype, middle, hhands, name, hname, hhands', rfl⟩
    exact ⟨type, middle, htype, hhands, yields_expectName_bind.mpr
      ⟨name, next, hname, hhands', yields_pure.mpr ⟨rfl, rfl⟩⟩⟩

theorem yields_methodStub {stub : MethodStub Token} :
    Yields (level.methodStub enclosing) stream stub next ↔
      ∃ access s₁, Yields accessModifier stream access s₁ ∧ access ≠ .private ∧
        ∃ type, type.kind = .typename ∧ ∃ s₂, s₁.Hands type s₂ ∧
        ∃ name, name.kind = .name ∧ ∃ s₃, s₂.Hands name s₃ ∧
        ∃ arguments s₄, Yields (level.read enclosing .argumentList) s₃ arguments s₄ ∧
          (∃ semicolon, semicolon.kind = .symbol .semicolon ∧ s₄.Hands semicolon next) ∧
            stub = ⟨stream.buffered, access, type.payload, name.payload, arguments⟩ := by
  simp [methodStub]

theorem yields_member {member : Member Token} :
    Yields (level.member enclosing) stream member next ↔
      ∃ access s₁, Yields accessModifier stream access s₁ ∧
        ∃ isStatic s₂, Yields staticModifier s₁ isStatic s₂ ∧
        ∃ type, type.kind = .typename ∧ ∃ s₃, s₂.Hands type s₃ ∧
        ∃ name, name.kind = .name ∧ ∃ s₄, s₃.Hands name s₄ ∧
          if s₄.buffered.kind = .symbol .parenOpen then
            ∃ arguments s₅, Yields (level.read enclosing .argumentList) s₄ arguments s₅ ∧
              ∃ body, Yields (level.read enclosing .block) s₅ body next ∧
                member = .method ⟨stream.buffered, access, isStatic, type.payload, name.payload,
                  arguments, body⟩
          else
            ∃ value s₅, Yields (level.firstValue enclosing) s₄ value s₅ ∧
              (∃ semicolon, semicolon.kind = .symbol .semicolon ∧ s₅.Hands semicolon next) ∧
                member = .field ⟨stream.buffered, access, isStatic, type.payload, name.payload,
                  value⟩ := by
  simp [Level.member]

theorem yields_classDeclaration {token : Token} {access : Access} {decl : ClassDecl Token} :
    Yields (level.classDeclaration enclosing token access) stream decl next ↔
      ∃ word s₁, (word.kind = .keyword .class ∧ stream.Hands word s₁) ∧
        ∃ name, name.kind = .typename ∧ ∃ s₂, s₁.Hands name s₂ ∧
        ∃ base s₃, Yields baseType s₂ base s₃ ∧
        ∃ interfaces s₄, Yields (level.typesAfter enclosing "implements") s₃ interfaces s₄ ∧
        ∃ opening, opening.kind = .symbol .braceOpen ∧ ∃ s₅, s₄.Hands opening s₅ ∧
        ∃ members, Yields (manyUntil (.symbol .braceClose)
            (level.read (some name.payload) .member)) s₅ members next ∧
          decl = ⟨token, access, name.payload, base, interfaces, members.filterMap (·.field?),
            members.filterMap (·.method?)⟩ := by
  simp [classDeclaration, yields_expect]

theorem yields_interfaceDeclaration {token : Token} {access : Access}
    {decl : InterfaceDecl Token} :
    Yields (level.interfaceDeclaration enclosing token access) stream decl next ↔
      ∃ word s₁, (word.kind = .keyword .interface ∧ stream.Hands word s₁) ∧
        ∃ name, name.kind = .typename ∧ ∃ s₂, s₁.Hands name s₂ ∧
        ∃ bases s₃, Yields (level.typesAfter enclosing "extends") s₂ bases s₃ ∧
        ∃ opening, opening.kind = .symbol .braceOpen ∧ ∃ s₄, s₃.Hands opening s₄ ∧
        ∃ stubs, Yields (manyUntil (.symbol .braceClose) (level.read enclosing .methodStub)) s₄
            stubs next ∧
          decl = ⟨token, access, name.payload, bases, stubs⟩ := by
  simp [interfaceDeclaration, yields_expect]

theorem yields_topLevel {decl : TopLevel Token} :
    Yields (level.topLevel enclosing) stream decl next ↔
      ∃ access middle, Yields accessModifier stream access middle ∧
        if middle.buffered.kind = .keyword .class then
          ∃ node, Yields (level.read enclosing (.classDeclaration stream.buffered access)) middle
            node next ∧ decl = .classDecl node
        else
          middle.buffered.kind = .keyword .interface ∧
            ∃ node, Yields (level.read enclosing (.interfaceDeclaration stream.buffered access))
              middle node next ∧ decl = .interfaceDecl node := by
  simp [topLevel]

theorem yields_module {program : Program Token} :
    Yields (level.module enclosing) stream program next ↔
      ∃ decls, Yields (many do
            if ← isAt .endOfText then return none else some <$> level.topLevel enclosing)
          stream decls next ∧
        program = ⟨stream.buffered, decls.filterMap (·.classDecl?),
          decls.filterMap (·.interfaceDecl?)⟩ := by
  simp [module]

end ClassLang.Level
