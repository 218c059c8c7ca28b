import ClassLang.Grammar.Expression
import Mathlib.Data.List.Forall2

/-! # Trees of the same shape

Trees are alike if they differ in nothing but their tags. Lists and optional trees are alike if
their members are, one by one, and nodes that are made of alike trees are alike.
-/

namespace ClassLang

variable {ι κ : Type}

theorem sameMembers_iff {α β : Type} {same : α → β → Bool} {first : List α} {second : List β} :
    sameMembers same first second ↔ List.Forall₂ (fun a b => same a b) first second := by
  induction first generalizing second with
  | nil => cases second <;> simp [sameMembers]
  | cons value values ih => cases second <;> simp [sameMembers, ih]

namespace Expr

/-- Two expressions have the same shape. -/
abbrev Alike (first : Expr ι) (second : Expr κ) : Prop := first.same second

theorem sameAll_eq_sameMembers (first : List (Expr ι)) (second : List (Expr κ)) :
    sameAll first second = sameMembers same first second := by
  induction first generalizing second with
  | nil => cases second <;> rfl
  | cons expression rest ih => cases second <;> simp [sameAll, sameMembers, ih]

theorem sameAll_iff {first : List (Expr ι)} {second : List (Expr κ)} :
    sameAll first second ↔ List.Forall₂ Alike first second := by
  rw [sameAll_eq_sameMembers, sameMembers_iff]

mutual

theorem same_refl : (tree : Expr ι) → tree.Alike tree
  | this _ | null _ | bool _ _ | int _ _ | float _ _ | string _ _ | name _ _ | getStatic _ _ _ => by
      simp [Alike, same]
  | operator _ _ operands => by simpa [Alike, same] using sameAll_refl operands
  | assign _ _ value | setStatic _ _ _ value => by simpa [Alike, same] using same_refl value
  | get _ owner _ => by simpa [Alike, same] using same_refl owner
  | set _ owner _ value => by simpa [Alike, same] using ⟨same_refl owner, same_refl value⟩
  | call _ owner _ arguments => by
      simpa [Alike, same] using ⟨same_refl owner, sameAll_refl arguments⟩
  | callStatic _ _ _ arguments | new _ _ arguments => by
      simpa [Alike, same] using sameAll_refl arguments

theorem sameAll_refl : (trees : List (Expr ι)) → sameAll trees trees
  | [] => rfl
  | tree :: trees => by simpa [sameAll] using ⟨same_refl tree, sameAll_refl trees⟩

end

/-- Alike values are assigned to alike targets, and what is no target has none that is alike. -/
theorem Alike.assigned? {target target' value value' : Expr ι} (htarget : target.Alike target')
    (operator : Symbol) (hvalue : value.Alike value') :
    Option.Rel Alike (target.assigned? operator value) (target'.assigned? operator value') := by
  unfold Alike same at htarget
  -- one case for each pair of constructors that can be alike, the last for all others
  split at htarget
  case h_17 => cases htarget
  all_goals by_cases hassign : operator = .assign
  all_goals simp_all [Expr.assigned?, Alike, same, sameAll]

end Expr

namespace Stmt

/-- Two statements have the same shape. -/
abbrev Alike (first : Stmt ι) (second : Stmt κ) : Prop := first.same second

theorem sameAll_eq_sameMembers (first : List (Stmt ι)) (second : List (Stmt κ)) :
    sameAll first second = sameMembers same first second := by
  induction first generalizing second with
  | nil => cases second <;> rfl
  | cons statement rest ih => cases second <;> simp [sameAll, sameMembers, ih]

theorem sameAll_iff {first : List (Stmt ι)} {second : List (Stmt κ)} :
    sameAll first second ↔ List.Forall₂ Alike first second := by
  rw [sameAll_eq_sameMembers, sameMembers_iff]

theorem sameValue_iff {first : Option (Expr ι)} {second : Option (Expr κ)} :
    sameValue first second ↔ Option.Rel Expr.Alike first second := by
  cases first <;> cases second <;> simp [sameValue]

theorem sameOption_iff {first : Option (Stmt ι)} {second : Option (Stmt κ)} :
    sameOption first second ↔ Option.Rel Alike first second := by
  cases first <;> cases second <;> simp [sameOption]

theorem sameValue_refl (value : Option (Expr ι)) : sameValue value value := by
  cases value with
  | none => rfl
  | some value => exact value.same_refl

mutual

theorem same_refl : (tree : Stmt ι) → tree.Alike tree
  | block _ statements => by simpa [Alike, same] using sameAll_refl statements
  | ifElse _ condition body other => by
      simpa [Alike, same, and_assoc] using
        ⟨condition.same_refl, same_refl body, sameOption_refl other⟩
  | forLoop _ first condition step body => by
      simpa [Alike, same, and_assoc] using
        ⟨sameOption_refl first, sameValue_refl condition, sameValue_refl step, same_refl body⟩
  | whileLoop _ condition body => by
      simpa [Alike, same] using ⟨condition.same_refl, same_refl body⟩
  | breakLoop _ | continueLoop _ => rfl
  | declaration _ _ _ value | returnValue _ value => by
      simpa [Alike, same] using sameValue_refl value
  | expression _ value => value.same_refl

theorem sameOption_refl : (tree : Option (Stmt ι)) → sameOption tree tree
  | none => rfl
  | some tree => same_refl tree

theorem sameAll_refl : (trees : List (Stmt ι)) → sameAll trees trees
  | [] => rfl
  | tree :: trees => by simpa [sameAll] using ⟨same_refl tree, sameAll_refl trees⟩

end

end Stmt

/-! ## Declarations -/

theorem sameMembers_refl {α : Type} {same : α → α → Bool} (hrefl : ∀ member, same member member)
    (members : List α) : sameMembers same members members :=
  sameMembers_iff.mpr (List.forall₂_same.mpr fun member _ => hrefl member)

theorem Argument.same_refl (argument : Argument ι) : argument.same argument := by
  simp [Argument.same]

theorem Field.same_refl (field : Field ι) : field.same field := by
  simpa [Field.same] using Stmt.sameValue_refl field.value

theorem MethodStub.same_refl (stub : MethodStub ι) : stub.same stub := by
  simpa [MethodStub.same] using sameMembers_refl Argument.same_refl stub.arguments

theorem Method.same_refl (method : Method ι) : method.same method := by
  simpa [Method.same] using
    ⟨sameMembers_refl Argument.same_refl method.arguments, method.body.same_refl⟩

theorem ClassDecl.same_refl (decl : ClassDecl ι) : decl.same decl := by
  simpa [ClassDecl.same] using
    ⟨sameMembers_refl Field.same_refl decl.fields, sameMembers_refl Method.same_refl decl.methods⟩

theorem InterfaceDecl.same_refl (decl : InterfaceDecl ι) : decl.same decl := by
  simpa [InterfaceDecl.same] using sameMembers_refl MethodStub.same_refl decl.stubs

theorem Program.same_refl (program : Program ι) : program.same program := by
  simpa [Program.same] using ⟨sameMembers_refl ClassDecl.same_refl program.classes,
    sameMembers_refl InterfaceDecl.same_refl program.interfaces⟩

end ClassLang
