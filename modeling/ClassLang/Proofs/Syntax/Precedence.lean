import ClassLang.Proofs.Syntax.Expression
import Mathlib.Data.List.Induction
import Mathlib.Logic.ExistsUnique

/-! # Groupings by precedence

How operands that stand in a row with binary operators between them are grouped. Precedence and the
rule that equal operators group to the left decide it: there is one grouping of a row in which every
operator is the rightmost of the loosest in its span.
-/

namespace ClassLang

/-- How tightly a binary operator binds. A symbol that is none binds least of all. -/
def Symbol.rank (symbol : Symbol) : Nat := symbol.precedence?.getD 0

theorem Symbol.rank_of_precedence? {symbol : Symbol} {precedence : Nat}
    (hprecedence : symbol.precedence? = some precedence) : symbol.rank = precedence := by
  rw [rank, hprecedence, Option.getD_some]

namespace Syntax

/-- Operands grouped by the binary operators between them. -/
inductive Grouping where
  | operand (tree : Expr Token)
  | join (left : Grouping) (operator : Symbol) (right : Grouping)

namespace Grouping

/-- The operand that is written first. -/
def first : Grouping → Expr Token
  | operand tree => tree
  | join left _ _ => left.first

/-- The operators as they are written from left to right, each with the operand behind it. -/
def rest : Grouping → List (Symbol × Expr Token)
  | operand _ => []
  | join left operator right => left.rest ++ (operator, right.first) :: right.rest

/-- The tree of the grouping. An operator takes over the tag of its left operand. -/
def tree : Grouping → Expr Token
  | operand tree => tree
  | join left operator right =>
      .operator left.tree.tag (.symbol operator) [left.tree, right.tree]

/-- Every operator is the rightmost of the loosest in its span: none on its left binds looser, and
all on its right bind tighter. -/
def Ranked : Grouping → Prop
  | operand _ => True
  | join left operator right =>
      (∀ step ∈ left.rest, operator.rank ≤ step.1.rank) ∧
        (∀ step ∈ right.rest, operator.rank < step.1.rank) ∧ left.Ranked ∧ right.Ranked

/-- The grouping is of the operands and operators in this row, and it is the one that precedence
decides on. -/
structure Groups (grouping : Grouping) (first : Expr Token) (rest : List (Symbol × Expr Token)) :
    Prop where
  first_eq : grouping.first = first
  rest_eq : grouping.rest = rest
  ranked : grouping.Ranked

/-- Put an operator and an operand behind a grouping. What binds looser than the operator stays
around it, and the rest becomes its left operand. -/
def extend : Grouping → Symbol → Expr Token → Grouping
  | operand tree, operator, next => join (operand tree) operator (operand next)
  | join left root right, operator, next =>
      if root.rank < operator.rank then join left root (right.extend operator next)
      else join (join left root right) operator (operand next)

variable {grouping other : Grouping} {operator : Symbol} {next : Expr Token}

theorem first_extend : (grouping.extend operator next).first = grouping.first := by
  induction grouping with
  | operand => rfl
  | join => unfold extend; split <;> rfl

theorem rest_extend :
    (grouping.extend operator next).rest = grouping.rest ++ [(operator, next)] := by
  induction grouping with
  | operand => rfl
  | join left root right _ ih =>
      unfold extend
      split
      next => simp [rest, ih, first_extend]
      next => simp [rest, first]

theorem Ranked.extend (hranked : grouping.Ranked) : (grouping.extend operator next).Ranked := by
  induction grouping with
  | operand => simp [Grouping.extend, Ranked, rest]
  | join left root right _ ih =>
      obtain ⟨hleft, hright, hranked_left, hranked_right⟩ := hranked
      unfold Grouping.extend
      split
      next hlooser =>
        refine ⟨hleft, ?_, hranked_left, ih hranked_right⟩
        intro step hstep
        rw [rest_extend] at hstep
        rcases List.mem_append.mp hstep with hold | hnew
        · exact hright step hold
        · exact List.mem_singleton.mp hnew ▸ hlooser
      next htighter =>
        have hroot : operator.rank ≤ root.rank := Nat.not_lt.mp htighter
        refine ⟨?_, by simp [rest], ⟨hleft, hright, hranked_left, hranked_right⟩, trivial⟩
        intro step hstep
        rcases List.mem_append.mp hstep with hbefore | hbehind
        · exact Nat.le_trans hroot (hleft step hbefore)
        · rcases List.mem_cons.mp hbehind with rfl | hbehind
          · exact hroot
          · exact Nat.le_trans hroot (Nat.le_of_lt (hright step hbehind))

/-- Every row is grouped, one operator after the other. -/
theorem exists_groups (first : Expr Token) (rest : List (Symbol × Expr Token)) :
    ∃ grouping : Grouping, grouping.Groups first rest := by
  induction rest using List.reverseRecOn with
  | nil => exact ⟨operand first, rfl, rfl, trivial⟩
  | append_singleton rest step ih =>
      obtain ⟨grouping, rfl, rfl, hranked⟩ := ih
      exact ⟨grouping.extend step.1 step.2, first_extend, rest_extend, hranked.extend⟩

/-- Of two places where a row is divided, the one further to the right is not at a looser
operator. -/
theorem not_divided_before {α : Type} {rank : α → Nat} {front between back : List α} {x y : α}
    (hx : ∀ z ∈ between ++ y :: back, rank x < rank z)
    (hy : ∀ z ∈ front ++ x :: between, rank y ≤ rank z) : False := by
  have hlt := hx y (List.mem_append_right _ List.mem_cons_self)
  have hle := hy x (List.mem_append_right _ List.mem_cons_self)
  omega

/-- A row is divided in one way at the rightmost of the loosest operators. -/
theorem divide_unique {α : Type} (rank : α → Nat) {front back front' back' : List α} {x y : α}
    (heq : front ++ x :: back = front' ++ y :: back')
    (hfront : ∀ z ∈ front, rank x ≤ rank z) (hback : ∀ z ∈ back, rank x < rank z)
    (hfront' : ∀ z ∈ front', rank y ≤ rank z) (hback' : ∀ z ∈ back', rank y < rank z) :
    front = front' ∧ x = y ∧ back = back' := by
  rcases List.append_eq_append_iff.mp heq with ⟨between, rfl, hmiddle⟩ | ⟨between, rfl, hmiddle⟩
  · cases between with
    | nil => simpa using hmiddle
    | cons z between =>
        obtain ⟨rfl, rfl⟩ : x = z ∧ back = between ++ y :: back' := by simpa using hmiddle
        exact (not_divided_before hback hfront').elim
  · cases between with
    | nil => simpa [eq_comm] using hmiddle
    | cons z between =>
        obtain ⟨rfl, rfl⟩ : y = z ∧ back' = between ++ x :: back := by simpa using hmiddle
        exact (not_divided_before hback' hfront).elim

/-- Precedence leaves no choice. -/
theorem Ranked.unique (hranked : grouping.Ranked) (hother : other.Ranked)
    (hfirst : grouping.first = other.first) (hrest : grouping.rest = other.rest) :
    grouping = other := by
  induction grouping generalizing other with
  | operand tree =>
      cases other with
      | operand => exact congrArg operand hfirst
      | join => simp [rest] at hrest
  | join left root right ihleft ihright =>
      cases other with
      | operand => simp [rest] at hrest
      | join left' root' right' =>
          obtain ⟨hleft, hright, hranked_left, hranked_right⟩ := hranked
          obtain ⟨hleft', hright', hranked_left', hranked_right'⟩ := hother
          obtain ⟨hbefore, hroot, hbehind⟩ := divide_unique (fun step => step.1.rank) hrest
            hleft hright hleft' hright'
          obtain ⟨rfl, hnext⟩ := Prod.mk.inj hroot
          rw [ihleft hranked_left hranked_left' hfirst hbefore,
            ihright hranked_right hranked_right' hnext hbehind]

/-- Every row has one grouping. -/
theorem existsUnique_groups (first : Expr Token) (rest : List (Symbol × Expr Token)) :
    ∃! grouping : Grouping, grouping.Groups first rest := by
  obtain ⟨grouping, hgroups⟩ := exists_groups first rest
  refine ⟨grouping, hgroups, fun other hother => ?_⟩
  exact hother.ranked.unique hgroups.ranked (hother.first_eq.trans hgroups.first_eq.symm)
    (hother.rest_eq.trans hgroups.rest_eq.symm)

end Grouping

end Syntax

end ClassLang
