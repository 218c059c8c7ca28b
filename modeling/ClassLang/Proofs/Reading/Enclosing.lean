import ClassLang.Proofs.Reading.Agreement
import ClassLang.Proofs.Syntax.Phrase

/-! # The types that static calls are made on

A call that names a type is made on it, and one that names none is made on the class in which it
stands, however deep. Outside any class there is none to make it on.
-/

namespace ClassLang

open Syntax

/-- The type of a call in the enclosing class is told by the token with which the call is tagged:
it is the enclosing class if this is the name of the method, or else the type that it names. -/
def IsOwner (enclosing : Option String) (tag : Token) (type : Option String) : Prop :=
  tag.kind = .name ∧ type = enclosing ∨ tag.kind = .typename ∧ type = some tag.payload

variable {enclosing : Option String} {ts : List Token} {tag : Token} {type : Option String}
  {name : String} {arguments : List (Expr Token)}

/-- The root of an expression, if it is a static call, has its owner. -/
def Expr.HasOwner (enclosing : Option String) : Expr Token → Prop
  | .callStatic tag type _ _ => IsOwner enclosing tag type
  | _ => True

theorem Syntax.Derives.hasOwner {phrase : Phrase} (hderives : Derives enclosing phrase ts) :
    phrase.Holds (Expr.HasOwner enclosing) := by
  induction hderives with
  | ofConditional _ ih | ofBinary _ ih | ofTighter _ ih | ofUnary _ ih | ofSuffixed _ ih
  | ofMember _ ih | ofPrimary _ ih | parenthesized _ _ _ ih => exact ih
  | staticCall htype => exact .inr ⟨htype, rfl⟩
  | ownCall hname => exact .inl ⟨hname, rfl⟩
  | _ => trivial

theorem Syntax.HasPhrase.isOwner
    (hphrase : HasPhrase enclosing ts (.expr (.callStatic tag type name arguments))) :
    IsOwner enclosing tag type := by
  obtain ⟨us, -, hphrase⟩ := hphrase
  exact Derives.hasOwner hphrase.isExpression

theorem Syntax.HasPhrase.enclosing_eq {decl : ClassDecl Token}
    (hphrase : HasPhrase enclosing ts (.classDecl decl)) : enclosing = some decl.name := by
  obtain ⟨us, -, hphrase⟩ := hphrase
  cases hphrase with
  | classDecl _ henclosing => exact henclosing

/-- A call has a type if the enclosing class is known. -/
theorem IsOwner.ne_none {className : String} (howner : IsOwner (some className) tag type) :
    type ≠ none := by
  rcases howner with ⟨-, rfl⟩ | ⟨-, rfl⟩ <;> simp

/-- Outside any class it is the calls that begin with a name that have no type. -/
theorem IsOwner.kind_eq_name_iff (howner : IsOwner none tag type) :
    tag.kind = .name ↔ type = none := by
  rcases howner with ⟨hkind, rfl⟩ | ⟨hkind, rfl⟩ <;> simp [hkind]

/-- Every static call of a class that is read is made on this class or on the type that it names,
and so every one of a program has a type. In an expression by itself only calls that name a type
have one. -/
theorem read_owners (source : Source) :
    (∀ program, Program.read source = .ok program →
      (∀ decl, (Node.classDecl decl).Within (.program program) →
        ∀ tag type name arguments,
          (Node.expr (.callStatic tag type name arguments)).Within (.classDecl decl) →
            IsOwner (some decl.name) tag type) ∧
      ∀ tag type name arguments,
        (Node.expr (.callStatic tag type name arguments)).Within (.program program) →
          type ≠ none) ∧
    ∀ tree, Expr.read source = .ok tree → ∀ tag type name arguments,
      (Node.expr (.callStatic tag type name arguments)).Within (.expr tree) →
        IsOwner none tag type ∧ (tag.kind = .name ↔ type = none) := by
  refine ⟨fun program hread => ?_, fun tree hread tag type name arguments hcall => ?_⟩
  · obtain ⟨front, last, -, hprogram⟩ := Program.isProgram_of_read hread
    refine ⟨fun decl hdecl tag type name arguments hcall => ?_,
      fun tag type name arguments hcall => ?_⟩
    · obtain heq | ⟨around, -, -, hphrase⟩ := hprogram.hasPhrase hdecl
      · cases heq
      · rw [hphrase.enclosing_eq] at hphrase
        exact (hphrase.within hcall).isOwner
    · obtain heq | ⟨around, -, -, hphrase⟩ := hprogram.hasPhrase hcall
      · cases heq
      · exact hphrase.isOwner.ne_none
  · obtain ⟨front, last, -, hexpression⟩ := Expr.isExpression_of_read hread
    have howner := ((IsPhrase.expr hexpression).hasPhrase.within hcall).isOwner
    exact ⟨howner, howner.kind_eq_name_iff⟩

/-- A field's first value is a call on the class of the field, which is not the only one. -/
theorem read_owners_of_first_value :
    let source := Source.ofString "main" "class Ab { int a = f(Cd.g()); } class Cd { }"
    ∃ program decl tag type name arguments, Program.read source = .ok program ∧
      (Node.classDecl decl).Within (.program program) ∧
      (Node.expr (.callStatic tag type name arguments)).Within (.classDecl decl) ∧
      IsOwner (some decl.name) tag type := by
  intro source
  have hsource : ∃ program ∈ (Program.read source).toOption, ∃ decl ∈ program.classes,
      ∃ field ∈ decl.fields, ∃ value ∈ field.value, value.sort = "StaticMethodCall" := by
    decide +kernel
  obtain ⟨program, hprogram, decl, hdecl, field, hfield, value, hvalue, hsort⟩ := hsource
  have hread : Program.read source = .ok program := Parser.eq_ok_of_mem_toOption hprogram
  have hclass : (Node.classDecl decl).Within (.program program) :=
    .of_mem (by simp [Node.children_program, hdecl])
  have hcall : (Node.expr value).Within (.classDecl decl) := by
    have hmember : Node.field field ∈ (Node.classDecl decl).children := by
      simp [Node.children_classDecl, hfield]
    exact .child hmember (.of_mem (by simp [Node.children_field, Option.mem_def.mp hvalue]))
  cases value with
  | callStatic tag type name arguments =>
      exact ⟨program, decl, tag, type, name, arguments, hread, hclass, hcall,
        ((read_owners source).1 program hread).1 decl hclass tag type name arguments hcall⟩
  | _ => simp [Expr.sort] at hsort

end ClassLang
