import ClassLang.Proofs.Rendering.Statement
import ClassLang.Proofs.Syntax.Declaration

/-! # Writing declarations

Classes come before interfaces and fields before methods. Every access is
written, and so is the base of every class. What is written for a program is
one in the grammar, of the same shape.
-/

namespace ClassLang

open Scan Syntax

variable {ι : Type}

/-- The keyword for an access. -/
def Access.keyword : Access → Keyword
  | .public => .public
  | .private => .private

/-- The word `static`, where it belongs. -/
def lexemesOfStatic (isStatic : Bool) : List Lexeme :=
  if isStatic then [.ofKeyword .static] else []

/-- Names of types after a word, or nothing where there are none. -/
def lexemesOfTypes (word : String) : List String → List Lexeme
  | [] => []
  | types => .ofName word :: commas (types.map fun type => [.ofTypename type])

/-- The lexemes of an argument. -/
def Argument.lexemes (argument : Argument ι) : List Lexeme :=
  [.ofTypename argument.type, .ofName argument.name]

/-- The lexemes of a stub. -/
def MethodStub.lexemes (stub : MethodStub ι) : List Lexeme :=
  .ofKeyword stub.access.keyword :: .ofTypename stub.returnType :: .ofName stub.name ::
    inParentheses (stub.arguments.map (·.lexemes)) ++ [.ofSymbol .semicolon]

section Lexemes

variable (write : Decimal.Binary64 → String)

/-- The lexemes of a field. -/
def Field.lexemes (field : Field ι) : List Lexeme :=
  .ofKeyword field.access.keyword :: lexemesOfStatic field.isStatic ++
    .ofTypename field.type :: .ofName field.name :: Stmt.lexemesOfFirst write field.value ++
    [.ofSymbol .semicolon]

/-- The lexemes of a method. -/
def Method.lexemes (method : Method ι) : List Lexeme :=
  .ofKeyword method.access.keyword :: lexemesOfStatic method.isStatic ++
    .ofTypename method.returnType :: .ofName method.name ::
      inParentheses (method.arguments.map (·.lexemes)) ++ method.body.lexemes write

/-- The lexemes of a class. -/
def ClassDecl.lexemes (decl : ClassDecl ι) : List Lexeme :=
  .ofKeyword decl.access.keyword :: .ofKeyword .class :: .ofTypename decl.name ::
    .ofName "extends" :: .ofTypename decl.base :: lexemesOfTypes "implements" decl.interfaces ++
    .ofSymbol .braceOpen :: decl.fields.flatMap (·.lexemes write) ++
    decl.methods.flatMap (·.lexemes write) ++ [.ofSymbol .braceClose]

/-- The lexemes of an interface. -/
def InterfaceDecl.lexemes (decl : InterfaceDecl ι) : List Lexeme :=
  .ofKeyword decl.access.keyword :: .ofKeyword .interface :: .ofTypename decl.name ::
    lexemesOfTypes "extends" decl.bases ++
    .ofSymbol .braceOpen :: decl.stubs.flatMap (·.lexemes) ++ [.ofSymbol .braceClose]

/-- The lexemes of a program, where `write` spells floating point values. -/
def Program.lexemes (program : Program ι) : List Lexeme :=
  program.classes.flatMap (·.lexemes write) ++ program.interfaces.flatMap (·.lexemes)

/-- A program as a text. -/
def Program.text (program : Program ι) : List Char := spaced (program.lexemes write)

/-- The type and the name are spelled as such. -/
structure Argument.WellFormed (argument : Argument ι) : Prop where
  type : IsTypename argument.type
  name : IsName argument.name

/-- A stub that can be written: none is private. -/
structure MethodStub.WellFormed (stub : MethodStub ι) : Prop where
  access : stub.access = .public
  returnType : IsTypename stub.returnType
  name : IsName stub.name
  arguments : ∀ argument ∈ stub.arguments, argument.WellFormed

/-- A field that can be written. -/
structure Field.WellFormed (field : Field ι) : Prop where
  type : IsTypename field.type
  name : IsName field.name
  value : ∀ expression ∈ field.value, expression.WellFormed write

/-- A method that can be written: its body is a block. -/
structure Method.WellFormed (method : Method ι) : Prop where
  returnType : IsTypename method.returnType
  name : IsName method.name
  arguments : ∀ argument ∈ method.arguments, argument.WellFormed
  body : method.body.WellFormed write
  isBlock : method.body.isBlock

/-- A class that can be written. -/
structure ClassDecl.WellFormed (decl : ClassDecl ι) : Prop where
  name : IsTypename decl.name
  base : IsTypename decl.base
  interfaces : ∀ type ∈ decl.interfaces, IsTypename type
  fields : ∀ field ∈ decl.fields, field.WellFormed write
  methods : ∀ method ∈ decl.methods, method.WellFormed write

/-- An interface that can be written. -/
structure InterfaceDecl.WellFormed (decl : InterfaceDecl ι) : Prop where
  name : IsTypename decl.name
  bases : ∀ type ∈ decl.bases, IsTypename type
  stubs : ∀ stub ∈ decl.stubs, stub.WellFormed

/-- A program that can be written. -/
structure Program.WellFormed (program : Program ι) : Prop where
  classes : ∀ decl ∈ program.classes, decl.WellFormed write
  interfaces : ∀ decl ∈ program.interfaces, decl.WellFormed

end Lexemes

variable {write : Decimal.Binary64 → String}

/-! ## Lexemes that can be read -/

theorem readable_static (isStatic : Bool) : Readable (lexemesOfStatic isStatic) := by
  cases isStatic <;> simp [lexemesOfStatic]

theorem readable_types {word : String} {types : List String} (hword : IsName word)
    (htypes : ∀ type ∈ types, IsTypename type) : Readable (lexemesOfTypes word types) := by
  unfold lexemesOfTypes
  split
  next => exact readable_nil
  next =>
    rw [readable_cons, readable_commas, List.forall_mem_map]
    refine ⟨readable_ofName hword, fun type hmem => ?_⟩
    exact readable_cons.mpr ⟨readable_ofTypename (htypes type hmem), readable_nil⟩

theorem readable_flatMap {α : Type} {values : List α} {lexemes : α → List Lexeme}
    (hvalues : ∀ value ∈ values, Readable (lexemes value)) : Readable (values.flatMap lexemes) := by
  intro lexeme hlexeme
  obtain ⟨value, hmem, hlexeme⟩ := List.mem_flatMap.mp hlexeme
  exact hvalues value hmem lexeme hlexeme

theorem readable_arguments {arguments : List (Argument ι)}
    (harguments : ∀ argument ∈ arguments, argument.WellFormed) :
    Readable (inParentheses (arguments.map (·.lexemes))) := by
  rw [readable_inParentheses, List.forall_mem_map]
  intro argument hmem
  obtain ⟨htype, hname⟩ := harguments argument hmem
  simp [Argument.lexemes, readable_ofTypename htype, readable_ofName hname]

theorem MethodStub.WellFormed.readable {stub : MethodStub ι} (hstub : stub.WellFormed) :
    Readable stub.lexemes := by
  obtain ⟨_, htype, hname, harguments⟩ := hstub
  simp [-readable_inParentheses, MethodStub.lexemes, readable_ofTypename htype,
    readable_ofName hname, readable_arguments harguments]

theorem Field.WellFormed.readable {field : Field ι} (hfield : field.WellFormed write) :
    Readable (field.lexemes write) := by
  obtain ⟨htype, hname, hvalue⟩ := hfield
  simp [Field.lexemes, readable_static, readable_ofTypename htype, readable_ofName hname,
    Stmt.readable_first hvalue]

theorem Method.WellFormed.readable {method : Method ι} (hmethod : method.WellFormed write) :
    Readable (method.lexemes write) := by
  obtain ⟨htype, hname, harguments, hbody, _⟩ := hmethod
  simp [-readable_inParentheses, Method.lexemes, readable_static, readable_ofTypename htype,
    readable_ofName hname, readable_arguments harguments, hbody.readable]

theorem ClassDecl.WellFormed.readable {decl : ClassDecl ι} (hdecl : decl.WellFormed write) :
    Readable (decl.lexemes write) := by
  obtain ⟨hname, hbase, hinterfaces, hfields, hmethods⟩ := hdecl
  have hextends : IsName "extends" := by decide
  have himplements : IsName "implements" := by decide
  have hmembers := readable_flatMap fun field hmem => (hfields field hmem).readable
  have hmethods := readable_flatMap fun method hmem => (hmethods method hmem).readable
  simp [ClassDecl.lexemes, readable_ofTypename hname, readable_ofName hextends,
    readable_ofTypename hbase, readable_types himplements hinterfaces, hmembers, hmethods]

theorem InterfaceDecl.WellFormed.readable {decl : InterfaceDecl ι} (hdecl : decl.WellFormed) :
    Readable decl.lexemes := by
  obtain ⟨hname, hbases, hstubs⟩ := hdecl
  have hextends : IsName "extends" := by decide
  have hstubs := readable_flatMap fun stub hmem => (hstubs stub hmem).readable
  simp [InterfaceDecl.lexemes, readable_ofTypename hname, readable_types hextends hbases, hstubs]

/-- Every lexeme of a program can be read. -/
theorem Program.WellFormed.readable {program : Program ι} (hprogram : program.WellFormed write) :
    Readable (program.lexemes write) := by
  obtain ⟨hclasses, hinterfaces⟩ := hprogram
  rw [Program.lexemes, readable_append]
  exact ⟨readable_flatMap fun decl hmem => (hclasses decl hmem).readable,
    readable_flatMap fun decl hmem => (hinterfaces decl hmem).readable⟩

/-! ## The grammar of what is written -/

variable {tokens : List Token}

theorem isAccess_of_shows {access : Access} {token : Token}
    (hkind : token.kind = .keyword access.keyword) : IsAccess [token] access := by
  cases access with
  | «public» => exact .public hkind
  | «private» => exact .private hkind

theorem isStatic_of_shows {isStatic : Bool} (hshows : Shows (lexemesOfStatic isStatic) tokens) :
    IsStatic tokens isStatic := by
  cases isStatic with
  | false =>
      obtain rfl := shows_nil_iff.mp hshows
      exact .absent
  | true =>
      obtain ⟨token, rfl, hkind, _⟩ := shows_singleton_iff.mp hshows
      exact .present hkind

theorem eq_of_sameMembers {α : Type} [DecidableEq α] {first second : List α}
    (hsame : sameMembers (· == ·) first second) : first = second := by
  induction first generalizing second with
  | nil =>
      cases second with
      | nil => rfl
      | cons => simp [sameMembers] at hsame
  | cons value values ih =>
      cases second with
      | nil => simp [sameMembers] at hsame
      | cons other others =>
          simp only [sameMembers, Bool.and_eq_true, beq_iff_eq] at hsame
          rw [hsame.1, ih hsame.2]

theorem areTypesAfter_of_shows {word : String} {types : List String}
    (hshows : Shows (lexemesOfTypes word types) tokens) : AreTypesAfter word tokens types := by
  cases types with
  | nil =>
      obtain rfl := shows_nil_iff.mp hshows
      exact .absent
  | cons type types =>
      obtain ⟨token, ts, rfl, hword, hts⟩ := shows_cons_iff.mp hshows
      have htype : ∀ type : String, Represents IsType (· == ·) [.ofTypename type] type := by
        intro type tokens hshows
        obtain ⟨token, rfl, hkind, hdata⟩ := shows_singleton_iff.mp hshows
        exact ⟨_, .mk hkind, by simp [Expr.payload_of_data hdata]⟩
      obtain ⟨names, hnames, hsame⟩ :=
        represents_commas (List.cons_ne_nil type types) (fun type _ => htype type) ts hts
      obtain rfl := eq_of_sameMembers hsame
      exact .listed hword hnames

theorem Argument.represents (argument : Argument ι) :
    Represents IsArgument Argument.same argument.lexemes argument := by
  intro tokens hshows
  obtain ⟨type, _, rfl, ⟨htype, hdata₁⟩, hrest⟩ := shows_cons_iff.mp hshows
  obtain ⟨name, rfl, hname, hdata₂⟩ := shows_singleton_iff.mp hrest
  exact ⟨_, .mk htype hname,
    by simp [Argument.same, Expr.payload_of_data hdata₁, Expr.payload_of_data hdata₂]⟩

theorem MethodStub.WellFormed.represents {stub : MethodStub ι} (hstub : stub.WellFormed) :
    Represents IsStub MethodStub.same stub.lexemes stub := by
  intro tokens hshows
  obtain ⟨front, _, rfl, hfront, hsemicolon⟩ := shows_append_iff.mp hshows
  obtain ⟨semicolon, rfl, hsemicolon, _⟩ := shows_singleton_iff.mp hsemicolon
  obtain ⟨access, _, rfl, ⟨haccess, _⟩, hrest⟩ := shows_cons_iff.mp hfront
  obtain ⟨type, _, rfl, ⟨htype, hdata₁⟩, hrest⟩ := shows_cons_iff.mp hrest
  obtain ⟨name, us, rfl, ⟨hname, hdata₂⟩, hus⟩ := shows_cons_iff.mp hrest
  obtain ⟨arguments, harguments, hsame⟩ :=
    represents_inParentheses (fun argument _ => argument.represents) us hus
  have hpublic : IsAccess [access] .public := hstub.access ▸ isAccess_of_shows haccess
  exact ⟨_, .mk hpublic htype hname harguments hsemicolon, by
    simp [MethodStub.same, hstub.access, Expr.payload_of_data hdata₁, Expr.payload_of_data hdata₂,
      hsame]⟩

theorem Field.WellFormed.represents {field : Field ι} (hfield : field.WellFormed write)
    (enclosing : Option String) :
    Represents (IsField enclosing) Field.same (field.lexemes write) field := by
  intro tokens hshows
  obtain ⟨_, _, rfl, hfront₁, hsemicolon⟩ := shows_append_iff.mp hshows
  obtain ⟨semicolon, rfl, hsemicolon, _⟩ := shows_singleton_iff.mp hsemicolon
  obtain ⟨_, _, rfl, hfront₂, hback⟩ := shows_append_iff.mp hfront₁
  obtain ⟨access, us, rfl, ⟨haccess, _⟩, hstatic⟩ := shows_cons_iff.mp hfront₂
  obtain ⟨type, _, rfl, ⟨htype, hdata₁⟩, hrest⟩ := shows_cons_iff.mp hback
  obtain ⟨name, vs, rfl, ⟨hname, hdata₂⟩, hvs⟩ := shows_cons_iff.mp hrest
  obtain ⟨value, hvalue, hsame⟩ := Stmt.represents_first hfield.value vs hvs
  exact ⟨_, .mk (isAccess_of_shows haccess) (isStatic_of_shows hstatic) htype hname hvalue
    hsemicolon, by
      simp [Field.same, Expr.payload_of_data hdata₁, Expr.payload_of_data hdata₂, hsame]⟩

theorem Method.WellFormed.represents {method : Method ι} (hmethod : method.WellFormed write)
    (enclosing : Option String) :
    Represents (IsMethod enclosing) Method.same (method.lexemes write) method := by
  intro tokens hshows
  obtain ⟨_, ws, rfl, hfront₁, hws⟩ := shows_append_iff.mp hshows
  obtain ⟨_, _, rfl, hfront₂, hback⟩ := shows_append_iff.mp hfront₁
  obtain ⟨access, us, rfl, ⟨haccess, _⟩, hstatic⟩ := shows_cons_iff.mp hfront₂
  obtain ⟨type, _, rfl, ⟨htype, hdata₁⟩, hrest⟩ := shows_cons_iff.mp hback
  obtain ⟨name, vs, rfl, ⟨hname, hdata₂⟩, hvs⟩ := shows_cons_iff.mp hrest
  obtain ⟨arguments, harguments, hsame₁⟩ :=
    represents_inParentheses (fun argument _ => argument.represents) vs hvs
  obtain ⟨body, hbody, hsame₂⟩ :=
    (hmethod.body.represented enclosing).isBlock hmethod.isBlock ws hws
  exact ⟨_, .mk (isAccess_of_shows haccess) (isStatic_of_shows hstatic) htype hname harguments
    hbody, by
      simp [Method.same, Expr.payload_of_data hdata₁, Expr.payload_of_data hdata₂, hsame₁, hsame₂]⟩

/-- Fields and then methods are members. -/
theorem areMembers_of_sequences {enclosing : Option String} {ts us : List Token}
    {fields : List (Field Token)} {methods : List (Method Token)}
    (hfields : Sequence (IsField enclosing) ts fields)
    (hmethods : Sequence (IsMethod enclosing) us methods) :
    AreMembers enclosing (ts ++ us) fields methods := by
  have honly : AreMembers enclosing us [] methods := by
    induction hmethods with
    | nil => exact .nil
    | cons hmethod _ ih => exact .method hmethod ih
  induction hfields with
  | nil => exact honly
  | cons hfield _ ih =>
      rw [List.append_assoc]
      exact .field hfield ih

theorem ClassDecl.WellFormed.represents {decl : ClassDecl ι} (hdecl : decl.WellFormed write) :
    Represents IsClass ClassDecl.same (decl.lexemes write) decl := by
  intro tokens hshows
  obtain ⟨_, _, rfl, hfront₁, hclosing⟩ := shows_append_iff.mp hshows
  obtain ⟨closing, rfl, hclosing, _⟩ := shows_singleton_iff.mp hclosing
  obtain ⟨_, ms, rfl, hfront₂, hms⟩ := shows_append_iff.mp hfront₁
  obtain ⟨_, _, rfl, hfront₃, hback⟩ := shows_append_iff.mp hfront₂
  obtain ⟨opening, fs, rfl, ⟨hopening, _⟩, hfs⟩ := shows_cons_iff.mp hback
  obtain ⟨access, _, rfl, ⟨haccess, _⟩, hrest⟩ := shows_cons_iff.mp hfront₃
  obtain ⟨word, _, rfl, ⟨hword, _⟩, hrest⟩ := shows_cons_iff.mp hrest
  obtain ⟨name, _, rfl, ⟨hname, hdata₁⟩, hrest⟩ := shows_cons_iff.mp hrest
  obtain ⟨link, _, rfl, hextends, hrest⟩ := shows_cons_iff.mp hrest
  obtain ⟨base, vs, rfl, ⟨hbase, hdata₂⟩, hvs⟩ := shows_cons_iff.mp hrest
  obtain ⟨fields, hfields, hsame₁⟩ := represents_sequence
    (fun field hmem => (hdecl.fields field hmem).represents (some name.payload)) fs hfs
  obtain ⟨methods, hmethods, hsame₂⟩ := represents_sequence
    (fun method hmem => (hdecl.methods method hmem).represents (some name.payload)) ms hms
  have hclass := IsClass.mk (isAccess_of_shows haccess) hword hname (.named hextends hbase)
    (areTypesAfter_of_shows hvs) hopening (areMembers_of_sequences hfields hmethods) hclosing
  simp only [List.append_assoc, List.cons_append, List.nil_append] at hclass ⊢
  exact ⟨_, hclass, by
    simp [ClassDecl.same, Expr.payload_of_data hdata₁, Expr.payload_of_data hdata₂, hsame₁,
      hsame₂]⟩

theorem InterfaceDecl.WellFormed.represents {decl : InterfaceDecl ι} (hdecl : decl.WellFormed) :
    Represents IsInterface InterfaceDecl.same decl.lexemes decl := by
  intro tokens hshows
  obtain ⟨_, _, rfl, hfront₁, hclosing⟩ := shows_append_iff.mp hshows
  obtain ⟨closing, rfl, hclosing, _⟩ := shows_singleton_iff.mp hclosing
  obtain ⟨_, _, rfl, hfront₂, hback⟩ := shows_append_iff.mp hfront₁
  obtain ⟨opening, vs, rfl, ⟨hopening, _⟩, hvs⟩ := shows_cons_iff.mp hback
  obtain ⟨access, _, rfl, ⟨haccess, _⟩, hrest⟩ := shows_cons_iff.mp hfront₂
  obtain ⟨word, _, rfl, ⟨hword, _⟩, hrest⟩ := shows_cons_iff.mp hrest
  obtain ⟨name, us, rfl, ⟨hname, hdata⟩, hus⟩ := shows_cons_iff.mp hrest
  obtain ⟨stubs, hstubs, hsame⟩ :=
    represents_sequence (fun stub hmem => (hdecl.stubs stub hmem).represents) vs hvs
  exact ⟨_, .mk (isAccess_of_shows haccess) hword hname (areTypesAfter_of_shows hus) hopening
    hstubs hclosing, by simp [InterfaceDecl.same, Expr.payload_of_data hdata, hsame]⟩

/-- Classes and then interfaces are declarations. -/
theorem areDeclarations_of_sequences {ts us : List Token} {classes : List (ClassDecl Token)}
    {interfaces : List (InterfaceDecl Token)} (hclasses : Sequence IsClass ts classes)
    (hinterfaces : Sequence IsInterface us interfaces) :
    AreDeclarations (ts ++ us) classes interfaces := by
  have honly : AreDeclarations us [] interfaces := by
    induction hinterfaces with
    | nil => exact .nil
    | cons hinterface _ ih => exact .interfaceDecl hinterface ih
  induction hclasses with
  | nil => exact honly
  | cons hclass _ ih =>
      rw [List.append_assoc]
      exact .classDecl hclass ih

/-- What is written for a program is one in the grammar, of the same shape. -/
theorem Program.WellFormed.represents {program : Program ι} (hprogram : program.WellFormed write)
    (last : Token) :
    Represents (fun ts tree => IsProgram ts last tree) Program.same (program.lexemes write)
      program := by
  intro tokens hshows
  obtain ⟨ts, us, rfl, hts, hus⟩ := shows_append_iff.mp hshows
  obtain ⟨classes, hclasses, hsame₁⟩ :=
    represents_sequence (fun decl hmem => (hprogram.classes decl hmem).represents) ts hts
  obtain ⟨interfaces, hinterfaces, hsame₂⟩ :=
    represents_sequence (fun decl hmem => (hprogram.interfaces decl hmem).represents) us hus
  exact ⟨_, .mk (areDeclarations_of_sequences hclasses hinterfaces),
    by simp [Program.same, hsame₁, hsame₂]⟩

end ClassLang
