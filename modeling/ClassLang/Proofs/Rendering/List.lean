import ClassLang.Tree.Declaration
import ClassLang.Proofs.Rendering.Text
import ClassLang.Proofs.Syntax.List

/-! # Writing lists

Items are written one after the other, with commas between, or in parentheses
with commas between. If the lexemes of each item represent it, then so do the
lexemes of the list.
-/

namespace ClassLang

open Scan Syntax

/-- Lexemes of items with commas between. -/
def commas : List (List Lexeme) → List Lexeme
  | [] => []
  | [item] => item
  | item :: items => item ++ .ofSymbol .comma :: commas items

/-- Lexemes of items in parentheses, with commas between. -/
def inParentheses (items : List (List Lexeme)) : List Lexeme :=
  .ofSymbol .parenOpen :: commas items ++ [.ofSymbol .parenClose]

/-- Whatever tokens show the lexemes, they are a phrase of the grammar, and what it stands for is
the same as the value. -/
def Represents {α β : Type} (phrase : List Token → α → Prop) (same : α → β → Bool)
    (lexemes : List Lexeme) (value : β) : Prop :=
  ∀ tokens, Shows lexemes tokens → ∃ tree, phrase tokens tree ∧ same tree value

section Readable

variable {items : List (List Lexeme)}

@[simp] theorem readable_commas : Readable (commas items) ↔ ∀ item ∈ items, Readable item := by
  fun_induction commas items with
  | case1 => simp
  | case2 => simp
  | case3 item items _ ih => simp [ih]

@[simp] theorem readable_inParentheses :
    Readable (inParentheses items) ↔ ∀ item ∈ items, Readable item := by
  simp [inParentheses]

end Readable

section Represents

variable {α β : Type} {phrase : List Token → α → Prop} {same : α → β → Bool}
  {lexemes : β → List Lexeme} {values : List β}

theorem represents_sequence
    (hvalues : ∀ value ∈ values, Represents phrase same (lexemes value) value) :
    Represents (Sequence phrase) (sameMembers same) (values.flatMap lexemes) values := by
  induction values with
  | nil =>
      intro tokens hshows
      obtain rfl := shows_nil_iff.mp hshows
      exact ⟨[], .nil, rfl⟩
  | cons value values ih =>
      obtain ⟨hvalue, hvalues⟩ := List.forall_mem_cons.mp hvalues
      intro tokens hshows
      obtain ⟨front, back, rfl, hfront, hback⟩ := shows_append_iff.mp hshows
      obtain ⟨tree, htree, hsame⟩ := hvalue front hfront
      obtain ⟨trees, htrees, hsames⟩ := ih hvalues back hback
      exact ⟨tree :: trees, .cons htree htrees, by simp [sameMembers, hsame, hsames]⟩

theorem represents_commas (hne : values ≠ [])
    (hvalues : ∀ value ∈ values, Represents phrase same (lexemes value) value) :
    Represents (CommaSeparated phrase) (sameMembers same) (commas (values.map lexemes)) values := by
  induction values with
  | nil => contradiction
  | cons value values ih =>
      obtain ⟨hvalue, hvalues⟩ := List.forall_mem_cons.mp hvalues
      intro tokens hshows
      cases values with
      | nil =>
          obtain ⟨tree, htree, hsame⟩ := hvalue tokens hshows
          exact ⟨[tree], .single htree, by simp [sameMembers, hsame]⟩
      | cons next rest =>
          obtain ⟨front, _, rfl, hfront, hback⟩ := shows_append_iff.mp hshows
          obtain ⟨comma, back, rfl, ⟨hcomma, _⟩, hback⟩ := shows_cons_iff.mp hback
          obtain ⟨tree, htree, hsame⟩ := hvalue front hfront
          obtain ⟨trees, htrees, hsames⟩ := ih (List.cons_ne_nil _ _) hvalues back hback
          exact ⟨tree :: trees, .more htree hcomma htrees, by simp [sameMembers, hsame, hsames]⟩

theorem represents_inParentheses
    (hvalues : ∀ value ∈ values, Represents phrase same (lexemes value) value) :
    Represents (Parenthesized phrase) (sameMembers same) (inParentheses (values.map lexemes))
      values := by
  intro tokens hshows
  obtain ⟨opening, _, rfl, ⟨hopening, _⟩, hrest⟩ := shows_cons_iff.mp hshows
  obtain ⟨inner, _, rfl, hinner, hrest⟩ := shows_append_iff.mp hrest
  obtain ⟨closing, _, rfl, ⟨hclosing, _⟩, hnil⟩ := shows_cons_iff.mp hrest
  obtain rfl := shows_nil_iff.mp hnil
  cases values with
  | nil =>
      obtain rfl := shows_nil_iff.mp hinner
      exact ⟨[], .empty hopening hclosing, rfl⟩
  | cons value values =>
      obtain ⟨trees, htrees, hsame⟩ := represents_commas (List.cons_ne_nil _ _) hvalues inner hinner
      exact ⟨trees, .items hopening htrees hclosing, hsame⟩

end Represents

end ClassLang
