import ClassLang.Grammar.Rule
import ClassLang.Proofs.Syntax.Statement

/-! # The grammar of declarations

Which sequences of tokens are classes, interfaces and their members, and which
texts are programs. What may be missing has its default here: the access
public, the base `Object`, no interfaces. Fields and methods, and likewise
classes and interfaces, are told apart and each keep their order.
-/

namespace ClassLang.Syntax

/-- An access, public if nothing is written. -/
inductive IsAccess : List Token → Access → Prop
  | absent : IsAccess [] .public
  | «public» {word} : word.kind = .keyword .public → IsAccess [word] .public
  | «private» {word} : word.kind = .keyword .private → IsAccess [word] .private

/-- The word `static`, or nothing. -/
inductive IsStatic : List Token → Bool → Prop
  | absent : IsStatic [] false
  | present {word} : word.kind = .keyword .static → IsStatic [word] true

/-- A contextual word, which elsewhere is a name. -/
def IsWord (text : String) (token : Token) : Prop := token.kind = .name ∧ token.data = some text

/-- The name of a type. -/
inductive IsType : List Token → String → Prop
  | mk {token} : token.kind = .typename → IsType [token] token.payload

/-- The base of a class, `Object` if none is named. -/
inductive IsBase : List Token → String → Prop
  | absent : IsBase [] "Object"
  | named {word type} : IsWord "extends" word → type.kind = .typename →
      IsBase [word, type] type.payload

/-- The names of types after a word, or nothing. -/
inductive AreTypesAfter (text : String) : List Token → List String → Prop
  | absent : AreTypesAfter text [] []
  | listed {word ts names} : IsWord text word → CommaSeparated IsType ts names →
      AreTypesAfter text (word :: ts) names

/-- A typed argument of a method. -/
inductive IsArgument : List Token → Argument Token → Prop
  | mk {type name} : type.kind = .typename → name.kind = .name →
      IsArgument [type, name] ⟨type, type.payload, name.payload⟩

/-- A method that an interface asks for. It is public, said or unsaid. -/
inductive IsStub : List Token → MethodStub Token → Prop
  -- MethodStub := Access? TYPENAME NAME ArgumentList ";"
  | mk {ts type name arguments us semicolon} : IsAccess ts .public → type.kind = .typename →
      name.kind = .name → Parenthesized IsArgument us arguments →
      semicolon.kind = .symbol .semicolon →
      IsStub (ts ++ type :: name :: us ++ [semicolon])
        ⟨ts.headD type, .public, type.payload, name.payload, arguments⟩

/-- A field of a class. -/
inductive IsField (enclosing : Option String) : List Token → Field Token → Prop
  -- Field := Access? "static"? TYPENAME NAME ("=" Expression)? ";"
  | mk {ts access us isStatic type name vs value semicolon} : IsAccess ts access →
      IsStatic us isStatic → type.kind = .typename → name.kind = .name →
      IsFirstValue enclosing vs value → semicolon.kind = .symbol .semicolon →
      IsField enclosing (ts ++ us ++ type :: name :: vs ++ [semicolon])
        ⟨(ts ++ us).headD type, access, isStatic, type.payload, name.payload, value⟩

/-- A method of a class. -/
inductive IsMethod (enclosing : Option String) : List Token → Method Token → Prop
  -- Method := Access? "static"? TYPENAME NAME ArgumentList Block
  | mk {ts access us isStatic type name vs arguments ws body} : IsAccess ts access →
      IsStatic us isStatic → type.kind = .typename → name.kind = .name →
      Parenthesized IsArgument vs arguments → IsBlock enclosing ws body →
      IsMethod enclosing (ts ++ us ++ type :: name :: vs ++ ws)
        ⟨(ts ++ us).headD type, access, isStatic, type.payload, name.payload, arguments, body⟩

/-- A field or a method of a class. -/
def IsMember (enclosing : Option String) (tokens : List Token) : Member Token → Prop
  | .field field => IsField enclosing tokens field
  | .method method => IsMethod enclosing tokens method

/-- The members of a class: its fields and its methods, in any mixture. -/
inductive AreMembers (enclosing : Option String) :
    List Token → List (Field Token) → List (Method Token) → Prop
  | nil : AreMembers enclosing [] [] []
  | field {ts field us fields methods} : IsField enclosing ts field →
      AreMembers enclosing us fields methods →
      AreMembers enclosing (ts ++ us) (field :: fields) methods
  | method {ts method us fields methods} : IsMethod enclosing ts method →
      AreMembers enclosing us fields methods →
      AreMembers enclosing (ts ++ us) fields (method :: methods)

/-- A class. Calls in it that name no owner are calls on it. -/
inductive IsClass : List Token → ClassDecl Token → Prop
  -- Class := Access? "class" TYPENAME ("extends" TYPENAME)?
  --   ("implements" TYPENAME ("," TYPENAME)*)? "{" Member* "}"
  | mk {ts access word name us base vs interfaces opening ws fields methods closing} :
      IsAccess ts access → word.kind = .keyword .class → name.kind = .typename →
      IsBase us base → AreTypesAfter "implements" vs interfaces →
      opening.kind = .symbol .braceOpen → AreMembers (some name.payload) ws fields methods →
      closing.kind = .symbol .braceClose →
      IsClass (ts ++ word :: name :: us ++ vs ++ opening :: ws ++ [closing])
        ⟨ts.headD word, access, name.payload, base, interfaces, fields, methods⟩

/-- An interface. -/
inductive IsInterface : List Token → InterfaceDecl Token → Prop
  -- Interface := Access? "interface" TYPENAME ("extends" TYPENAME ("," TYPENAME)*)?
  --   "{" MethodStub* "}"
  | mk {ts access word name us bases opening vs stubs closing} :
      IsAccess ts access → word.kind = .keyword .interface → name.kind = .typename →
      AreTypesAfter "extends" us bases → opening.kind = .symbol .braceOpen →
      Sequence IsStub vs stubs → closing.kind = .symbol .braceClose →
      IsInterface (ts ++ word :: name :: us ++ opening :: vs ++ [closing])
        ⟨ts.headD word, access, name.payload, bases, stubs⟩

/-- A class or an interface. -/
def IsTopLevel (tokens : List Token) : TopLevel Token → Prop
  | .classDecl decl => IsClass tokens decl
  | .interfaceDecl decl => IsInterface tokens decl

/-- Classes and interfaces in any mixture. -/
inductive AreDeclarations : List Token → List (ClassDecl Token) → List (InterfaceDecl Token) → Prop
  | nil : AreDeclarations [] [] []
  | classDecl {ts decl us classes interfaces} : IsClass ts decl →
      AreDeclarations us classes interfaces →
      AreDeclarations (ts ++ us) (decl :: classes) interfaces
  | interfaceDecl {ts decl us classes interfaces} : IsInterface ts decl →
      AreDeclarations us classes interfaces →
      AreDeclarations (ts ++ us) classes (decl :: interfaces)

/-- A program, given with the token that ends the text. It is tagged with the first token, which
for an empty text is this one. -/
inductive IsProgram : List Token → Token → Program Token → Prop
  | mk {ts last classes interfaces} : AreDeclarations ts classes interfaces →
      IsProgram ts last ⟨ts.headD last, classes, interfaces⟩

/-! ## First tokens -/

theorem IsStub.head {ts : List Token} {stub : MethodStub Token} (hstub : IsStub ts stub) :
    ∃ token rest, ts = token :: rest ∧ token.kind ∈ [.keyword .public, .typename] := by
  cases hstub with
  | mk haccess htype =>
      cases haccess with
      | absent => exact ⟨_, _, rfl, by simp [htype]⟩
      | «public» hword => exact ⟨_, _, rfl, by simp [hword]⟩

theorem IsMember.head {enclosing : Option String} {ts : List Token} {member : Member Token}
    (hmember : IsMember enclosing ts member) :
    ∃ token rest, ts = token :: rest ∧
      token.kind ∈ [.keyword .public, .keyword .private, .keyword .static, .typename] := by
  cases member with
  | field field | method method =>
      cases hmember with
      | mk haccess hstatic htype =>
          cases haccess with
          | «public» hword | «private» hword => exact ⟨_, _, rfl, by simp [hword]⟩
          | absent =>
              cases hstatic with
              | absent => exact ⟨_, _, rfl, by simp [htype]⟩
              | present hword => exact ⟨_, _, rfl, by simp [hword]⟩

theorem IsTopLevel.head {ts : List Token} {decl : TopLevel Token} (hdecl : IsTopLevel ts decl) :
    ∃ token rest, ts = token :: rest ∧
      token.kind ∈ [.keyword .public, .keyword .private, .keyword .class, .keyword .interface] := by
  cases decl with
  | classDecl node | interfaceDecl node =>
      cases hdecl with
      | mk haccess hkind =>
          cases haccess with
          | absent => exact ⟨_, _, rfl, by simp [hkind]⟩
          | «public» hword | «private» hword => exact ⟨_, _, rfl, by simp [hword]⟩

/-! ## Rows -/

/-- Members in a row are fields and methods, each in their order. -/
theorem areMembers_iff {enclosing : Option String} {ts : List Token}
    {fields : List (Field Token)} {methods : List (Method Token)} :
    AreMembers enclosing ts fields methods ↔
      ∃ members, Sequence (IsMember enclosing) ts members ∧
        members.filterMap (·.field?) = fields ∧ members.filterMap (·.method?) = methods := by
  constructor
  · intro hmembers
    induction hmembers with
    | nil => exact ⟨[], .nil, rfl, rfl⟩
    | @field _ field _ _ _ hfield _ ih =>
        obtain ⟨members, hsequence, rfl, rfl⟩ := ih
        exact ⟨.field field :: members, .cons hfield hsequence, rfl, rfl⟩
    | @method _ method _ _ _ hmethod _ ih =>
        obtain ⟨members, hsequence, rfl, rfl⟩ := ih
        exact ⟨.method method :: members, .cons hmethod hsequence, rfl, rfl⟩
  · rintro ⟨members, hsequence, rfl, rfl⟩
    induction hsequence with
    | nil => exact .nil
    | @cons _ member _ _ hmember _ ih =>
        cases member with
        | field field => exact .field hmember ih
        | method method => exact .method hmember ih

/-- Declarations in a row are classes and interfaces, each in their order. -/
theorem areDeclarations_iff {ts : List Token} {classes : List (ClassDecl Token)}
    {interfaces : List (InterfaceDecl Token)} :
    AreDeclarations ts classes interfaces ↔
      ∃ decls, Sequence IsTopLevel ts decls ∧ decls.filterMap (·.classDecl?) = classes ∧
        decls.filterMap (·.interfaceDecl?) = interfaces := by
  constructor
  · intro hdecls
    induction hdecls with
    | nil => exact ⟨[], .nil, rfl, rfl⟩
    | @classDecl _ decl _ _ _ hdecl _ ih =>
        obtain ⟨decls, hsequence, rfl, rfl⟩ := ih
        exact ⟨.classDecl decl :: decls, .cons hdecl hsequence, rfl, rfl⟩
    | @interfaceDecl _ decl _ _ _ hdecl _ ih =>
        obtain ⟨decls, hsequence, rfl, rfl⟩ := ih
        exact ⟨.interfaceDecl decl :: decls, .cons hdecl hsequence, rfl, rfl⟩
  · rintro ⟨decls, hsequence, rfl, rfl⟩
    induction hsequence with
    | nil => exact .nil
    | @cons _ decl _ _ hdecl _ ih =>
        cases decl with
        | classDecl node => exact .classDecl hdecl ih
        | interfaceDecl node => exact .interfaceDecl hdecl ih

end ClassLang.Syntax
