import ClassLang.Proofs.Decimal.Written
import ClassLang.Proofs.Reading.Proper
import ClassLang.Proofs.Text.Quoted
import ClassLang.Proofs.Tree.Lines
import ClassLang.Proofs.Tree.Words

/-! # The line of a node

A node is written as a line that begins with its sort, and what stands behind the sort is all that
the node says beside its children. Where names are words and values are those of literals, both
can be told from the line.
-/

namespace ClassLang

open Outline Scan

variable {ι κ : Type}

/-! ## Lines -/

/-- What stands behind the sort of an expression. -/
def Expr.remark : Expr ι → String
  | this _ | null _ => ""
  | bool _ value => if value then " true" else " false"
  | int _ value => " " ++ toString value
  | float _ value => " " ++ toString value
  | string _ value => " " ++ String.ofList (Text.quoted value.toList)
  | name _ n | assign _ n _ | get _ _ n | set _ _ n _ | call _ _ n _ => " " ++ n
  | operator _ op _ => " " ++ op.spelling
  | getStatic _ type n | setStatic _ type n _ => " " ++ type ++ "." ++ n
  | callStatic _ type n _ => " " ++ type.getD "None" ++ "." ++ n
  | new _ type _ => " " ++ type

/-- What stands behind the sort of a statement. -/
def Stmt.remark : Stmt ι → String
  | declaration _ type name _ => " " ++ type ++ " " ++ name
  | _ => ""

/-- What stands behind the sort of a node. -/
def Node.remark : Node ι → String
  | expr tree => tree.remark
  | stmt tree => tree.remark
  | argument a => " " ++ a.type ++ " " ++ a.name
  | field a => " " ++ a.access.modifiers a.isStatic ++ " " ++ a.type ++ " " ++ a.name
  | stub a =>
      " " ++ a.access.word ++ " " ++ a.returnType ++ " " ++ a.name ++ Argument.inline a.arguments
  | method a =>
      " " ++ a.access.modifiers a.isStatic ++ " " ++ a.returnType ++ " " ++ a.name ++
        Argument.inline a.arguments
  | classDecl a =>
      " " ++ a.access.word ++ " " ++ a.name ++ " extends " ++ a.base ++
        listed "implements" a.interfaces
  | interfaceDecl a => " " ++ a.access.word ++ " " ++ a.name ++ listed "extends" a.bases
  | program _ => ""

/-- The line of a node. -/
def Node.headline (node : Node ι) : String := node.sort ++ node.remark

/-- The sorts of expressions. -/
def Expr.sorts : List String :=
  ["This", "Null", "Bool", "Int", "Float", "String", "Name", "Operator", "Assign", "GetAttribute",
   "SetAttribute", "GetStaticAttribute", "SetStaticAttribute", "MethodCall", "StaticMethodCall",
   "New"]

/-- The sorts of statements. -/
def Stmt.sorts : List String :=
  ["Block", "If", "For", "While", "Break", "Continue", "Declaration", "Return",
   "ExpressionStatement"]

/-- The sorts of nodes, for each constructor of nodes its own. -/
def Node.sorts : List (List String) :=
  [Expr.sorts, Stmt.sorts, ["Argument"], ["Field"], ["MethodStub"], ["Method"], ["Class"],
   ["Interface"], ["Program"]]

theorem Node.sort_mem (node : Node ι) : node.sort ∈ sorts.flatten := by
  cases node with
  | expr tree => cases tree <;> simp [sort, Expr.sort, sorts, Expr.sorts]
  | stmt tree => cases tree <;> simp [sort, Stmt.sort, sorts, Stmt.sorts]
  | _ => simp [sort, sorts]

/-- Nodes of one sort have one constructor. -/
theorem Node.ctorIdx_eq_of_sort {node : Node ι} {other : Node κ} (hsort : node.sort = other.sort) :
    node.ctorIdx = other.ctorIdx := by
  have hindex {κ : Type} (node : Node κ) :
      sorts.findIdx (·.contains node.sort) = node.ctorIdx := by
    cases node with
    | expr tree => cases tree <;> rfl
    | stmt tree => cases tree <;> rfl
    | _ => rfl
  rw [← hindex, hsort, hindex]

theorem Node.isWord_sort (node : Node ι) : IsWord node.sort := by
  have hsorts : ∀ sort ∈ sorts.flatten, sort.toList.all Lexeme.isWordChar := by decide
  exact List.all_eq_true.mp (hsorts _ node.sort_mem)

theorem Node.stops_remark (node : Node ι) : Stops node.remark.toList := by
  cases node with
  | expr tree =>
      cases tree with
      | bool tag value =>
          rw [remark, Expr.remark]
          cases value <;> exact stops_of_head (by decide)
      | this | null => exact stops_nil
      | _ =>
        simp only [remark, Expr.remark, String.toList_append]
        exact stops_cons (by decide)
  | stmt tree =>
      cases tree with
      | declaration =>
        simp only [remark, Stmt.remark, String.toList_append]
        exact stops_cons (by decide)
      | _ => exact stops_nil
  | program => exact stops_nil
  | _ =>
    simp only [remark, String.toList_append]
    exact stops_cons (by decide)

/-- A line opens with the sort of its node. -/
theorem Node.opening_headline (node : Node ι) : opening node.headline = node.sort :=
  opening_append node.isWord_sort node.stops_remark

/-- The sort and what stands behind it can be told from the line. -/
theorem Node.headline_inj {node : Node ι} {other : Node κ}
    (hline : node.headline = other.headline) :
    node.sort = other.sort ∧ node.remark = other.remark := by
  have hsort : node.sort = other.sort := by rw [← opening_headline, hline, opening_headline]
  rw [headline, headline, hsort] at hline
  exact ⟨hsort, (String.append_right_inj _).mp hline⟩

/-! ## Legible nodes -/

/-- What a node says is written in words and numbers. -/
structure Node.Legible (node : Node ι) : Prop where
  proper : node.Proper
  /-- The arguments of a method stand in its line. -/
  arguments : ∀ decl, argument decl ∈ node.children → (argument decl).Proper
  /-- A static call is made on some type. -/
  owned : ∀ tag type name arguments,
    node = .expr (.callStatic tag type name arguments) → type ≠ none
  /-- A number is one that rounding gives. -/
  rounded : ∀ tag number, node = .expr (.float tag number) → number.IsValue

theorem Operator.spelling_inj {operator operator' : Operator}
    (hspelling : operator.spelling = operator'.spelling) : operator = operator' := by
  have hsymbols : ∀ symbol ∈ Symbol.longestFirst, ∀ symbol' ∈ Symbol.longestFirst,
      symbol.spelling = symbol'.spelling → symbol = symbol' := by decide
  have hchoice : ∀ symbol ∈ Symbol.longestFirst, symbol.spelling ≠ "?:" := by decide
  cases operator with
  | conditional =>
      cases operator' with
      | conditional => rfl
      | symbol symbol' => exact absurd hspelling.symm (hchoice symbol' symbol'.mem_longestFirst)
  | symbol symbol =>
      cases operator' with
      | conditional => exact absurd hspelling (hchoice symbol symbol.mem_longestFirst)
      | symbol symbol' =>
          rw [hsymbols symbol symbol.mem_longestFirst symbol' symbol'.mem_longestFirst hspelling]

/-- A member can be told from the type that it is named behind. -/
theorem member_inj {type type' member member' : String} (htype : IsWord type)
    (htype' : IsWord type')
    (heq : " " ++ type ++ "." ++ member = " " ++ type' ++ "." ++ member') :
    type = type' ∧ member = member' := by
  have hpoint (text : String) : Stops ("." ++ text).toList := by
    rw [String.toList_append]
    exact stops_cons (by decide)
  simp only [String.append_assoc] at heq
  obtain ⟨htypes, hmembers⟩ := spaced_inj htype htype' (hpoint _) (hpoint _) heq
  exact ⟨htypes, (String.append_right_inj ".").mp hmembers⟩

/-- The data of an expression can be told from its line. -/
theorem Expr.alike_of_remark {tree : Expr ι} {other : Expr κ} (htree : (Node.expr tree).Legible)
    (hother : (Node.expr other).Legible) (hsort : tree.sort = other.sort)
    (hremark : tree.remark = other.remark)
    (hparts : List.Forall₂ Alike tree.parts other.parts) : tree.Alike other := by
  cases tree with
  | this tag =>
    cases other with
    | this => rfl
    | _ => simp [sort] at hsort
  | null tag =>
    cases other with
    | null => rfl
    | _ => simp [sort] at hsort
  | bool tag value =>
    cases other with
    | bool tag' value' => cases value <;> cases value' <;> simp_all [remark, Alike, same]
    | _ => simp [sort] at hsort
  | int tag value =>
    cases other with
    | int tag' value' =>
        have htext := (String.append_right_inj " ").mp hremark
        have heq : value = value' := by
          rw [← Decimal.digitsValue_toString value, htext, Decimal.digitsValue_toString]
        simp [Alike, same, heq]
    | _ => simp [sort] at hsort
  | float tag value =>
    cases other with
    | float tag' value' =>
        have htext := (String.append_right_inj " ").mp hremark
        have heq := Decimal.Binary64.eq_of_toString_eq (htree.rounded _ _ rfl)
          (hother.rounded _ _ rfl) htext
        simp [Alike, same, heq]
    | _ => simp [sort] at hsort
  | string tag value =>
    cases other with
    | string tag' value' =>
        have htext := String.ofList_injective ((String.append_right_inj " ").mp hremark)
        have heq := String.toList_inj.mp (Text.quoted_injective htext)
        simp [Alike, same, heq]
    | _ => simp [sort] at hsort
  | name tag n =>
    cases other with
    | name tag' n' => simpa [remark, Alike, same] using hremark
    | _ => simp [sort] at hsort
  | operator tag op operands =>
    cases other with
    | operator tag' op' operands' =>
        have hspelling := Operator.spelling_inj ((String.append_right_inj " ").mp hremark)
        simpa [Alike, same, hspelling, parts, sameAll_iff] using hparts
    | _ => simp [sort] at hsort
  | assign tag n value =>
    cases other with
    | assign tag' n' value' =>
        have hname := (String.append_right_inj " ").mp hremark
        simpa [Alike, same, hname, parts] using hparts
    | _ => simp [sort] at hsort
  | get tag owner n =>
    cases other with
    | get tag' owner' n' =>
        have hname := (String.append_right_inj " ").mp hremark
        simpa [Alike, same, hname, parts] using hparts
    | _ => simp [sort] at hsort
  | set tag owner n value =>
    cases other with
    | set tag' owner' n' value' =>
        have hname := (String.append_right_inj " ").mp hremark
        simpa [Alike, same, hname, parts] using hparts
    | _ => simp [sort] at hsort
  | getStatic tag type n =>
    cases other with
    | getStatic tag' type' n' =>
        obtain ⟨htype, hname⟩ := member_inj (isWord_of_isTypename htree.proper.1)
          (isWord_of_isTypename hother.proper.1) hremark
        simp [Alike, same, htype, hname]
    | _ => simp [sort] at hsort
  | setStatic tag type n value =>
    cases other with
    | setStatic tag' type' n' value' =>
        obtain ⟨htype, hname⟩ := member_inj (isWord_of_isTypename htree.proper.1)
          (isWord_of_isTypename hother.proper.1) hremark
        simpa [Alike, same, htype, hname, parts] using hparts
    | _ => simp [sort] at hsort
  | call tag owner n arguments =>
    cases other with
    | call tag' owner' n' arguments' =>
        have hname := (String.append_right_inj " ").mp hremark
        simpa [Alike, same, hname, parts, sameAll_iff] using hparts
    | _ => simp [sort] at hsort
  | callStatic tag type n arguments =>
    cases other with
    | callStatic tag' type' n' arguments' =>
        obtain ⟨owner, rfl⟩ := Option.ne_none_iff_exists'.mp (htree.owned _ _ _ _ rfl)
        obtain ⟨owner', rfl⟩ := Option.ne_none_iff_exists'.mp (hother.owned _ _ _ _ rfl)
        obtain ⟨htype, hname⟩ := member_inj (isWord_of_isTypename (htree.proper.1 _ rfl))
          (isWord_of_isTypename (hother.proper.1 _ rfl)) hremark
        simpa [Alike, same, htype, hname, parts, sameAll_iff] using hparts
    | _ => simp [sort] at hsort
  | new tag type arguments =>
    cases other with
    | new tag' type' arguments' =>
        have htype := (String.append_right_inj " ").mp hremark
        simpa [Alike, same, htype, parts, sameAll_iff] using hparts
    | _ => simp [sort] at hsort

end ClassLang
