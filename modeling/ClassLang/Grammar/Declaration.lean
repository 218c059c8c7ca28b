import ClassLang.Grammar.Statement

/-! # The rules of declarations

Classes, interfaces and their members. What says nothing of its access is
public; a class that names no base has the base `Object`. The calls in the body
of a class that name no owner are calls on that class.
-/

namespace ClassLang.Level

open ClassLang.Parser

variable (level : Level) (enclosing : Option String)

/-- An access, public unless another is written. -/
def accessModifier : Parser Access := do
  match ← takeAny? [.keyword .public, .keyword .private] with
  | some token => return if token.kind = .keyword .private then .private else .public
  | none => return .public

/-- Whether the word `static` is there. -/
def staticModifier : Parser Bool := Option.isSome <$> take? (.keyword .static)

/-- The base of a class, `Object` unless another is named. -/
def baseType : Parser String := do
  if (← takeWord? "extends").isSome then expectTypename else return "Object"

/-- Names of types after a word, or none if the word is not there. -/
def typesAfter (word : String) : Parser (List String) := do
  if (← takeWord? word).isSome then level.read enclosing .typeList else return []

/-- A typed name. -/
def argument : Parser (Argument Token) := do
  let token ← peek
  let type ← expectTypename
  let name ← expectName
  return ⟨token, type, name⟩

/-- A method without a body; an interface cannot ask for a private one. -/
def methodStub : Parser (MethodStub Token) := do
  let token ← peek
  let access ← accessModifier
  if access = .private then refuse .privateInterfaceMethod token
  else
    let returnType ← expectTypename
    let name ← expectName
    let arguments ← level.read enclosing .argumentList
    let _ ← expectSymbol .semicolon
    return ⟨token, access, returnType, name, arguments⟩

/-- A member is a method if an opening parenthesis follows its name, else a field. -/
def member : Parser (Member Token) := do
  let token ← peek
  let access ← accessModifier
  let isStatic ← staticModifier
  let type ← expectTypename
  let name ← expectName
  if ← isAt (.symbol .parenOpen) then
    let arguments ← level.read enclosing .argumentList
    let body ← level.read enclosing .block
    return .method ⟨token, access, isStatic, type, name, arguments, body⟩
  else
    let value ← level.firstValue enclosing
    let _ ← expectSymbol .semicolon
    return .field ⟨token, access, isStatic, type, name, value⟩

/-- A class: its name, its base, its interfaces and its members. -/
def classDeclaration (token : Token) (access : Access) : Parser (ClassDecl Token) := do
  let _ ← expect (.keyword .class)
  let name ← expectTypename
  let base ← baseType
  let interfaces ← level.typesAfter enclosing "implements"
  let _ ← expectSymbol .braceOpen
  let members ← manyUntil (.symbol .braceClose) (level.read (some name) .member)
  return ⟨token, access, name, base, interfaces, members.filterMap (·.field?),
    members.filterMap (·.method?)⟩

/-- An interface: its name, its bases and its stubs. -/
def interfaceDeclaration (token : Token) (access : Access) : Parser (InterfaceDecl Token) := do
  let _ ← expect (.keyword .interface)
  let name ← expectTypename
  let bases ← level.typesAfter enclosing "extends"
  let _ ← expectSymbol .braceOpen
  let stubs ← manyUntil (.symbol .braceClose) (level.read enclosing .methodStub)
  return ⟨token, access, name, bases, stubs⟩

/-- A class or an interface with its access. -/
def topLevel : Parser (TopLevel Token) := do
  let token ← peek
  let access ← accessModifier
  if ← isAt (.keyword .class) then
    .classDecl <$> level.read enclosing (.classDeclaration token access)
  else if ← isAt (.keyword .interface) then
    .interfaceDecl <$> level.read enclosing (.interfaceDeclaration token access)
  else refuse .expectedDeclaration (← peek)

/-- Classes and interfaces up to the end of the text. -/
def module : Parser (Program Token) := do
  let start ← peek
  let declarations ← many do
    if ← isAt .endOfText then return none else some <$> level.topLevel enclosing
  return ⟨start, declarations.filterMap (·.classDecl?), declarations.filterMap (·.interfaceDecl?)⟩

end ClassLang.Level
