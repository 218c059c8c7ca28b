import ClassLang.Proofs.Syntax.Expression

/-! # Chains

A chain is an expression in which nothing is nested: operands of a single token each, with members,
calls without arguments and operators after them, and binary operators between them. However the
operators are mixed, a chain divides into tiers, one for each precedence, and there are no more
tiers than precedences.
-/

namespace ClassLang

/-- What a chain consists of: operands, and the steps that lead on from them. -/
inductive Link where
  | operand (token : Token)
  /-- A field of what stands before. -/
  | field (dot : Token) (name : String)
  /-- A call of a method of what stands before. -/
  | call (dot : Token) (name : String)
  /-- An operator after what stands before. -/
  | trailing (operator : Symbol)
  /-- An operator between what stands before and what stands behind. -/
  | between (operator : Symbol)
deriving DecidableEq, Repr

/-- The links of a tree in the order in which they are written. What is no step of a chain counts
as an operand. -/
def Expr.links : Expr Token → List Link
  | get dot owner n => owner.links ++ [.field dot n]
  | call dot owner n _ => owner.links ++ [.call dot n]
  | operator _ (.symbol symbol) [operand] => operand.links ++ [.trailing symbol]
  | operator _ (.symbol symbol) [left, right] => left.links ++ .between symbol :: right.links
  | tree => [.operand tree.tag]

namespace Syntax

/-- The tokens are an operand with members after it. -/
inductive IsAccessed (operand : Token → Prop) : List Token → List Link → Prop
  | operand {token} : operand token → IsAccessed operand [token] [.operand token]
  | field {ts links dot name} : IsAccessed operand ts links → dot.kind = .symbol .dot →
      name.kind = .name →
      IsAccessed operand (ts ++ [dot, name]) (links ++ [.field dot name.payload])
  | call {ts links dot name opening closing} : IsAccessed operand ts links →
      dot.kind = .symbol .dot → name.kind = .name → opening.kind = .symbol .parenOpen →
      closing.kind = .symbol .parenClose →
      IsAccessed operand (ts ++ [dot, name, opening, closing]) (links ++ [.call dot name.payload])

/-- The tokens are an operand with members and operators after it. -/
inductive IsSuffixed (operand : Token → Prop) : List Token → List Link → Prop
  | ofAccessed {ts links} : IsAccessed operand ts links → IsSuffixed operand ts links
  | trailing {ts links operator symbol} : IsSuffixed operand ts links →
      operator.kind = .symbol symbol → symbol ∈ Symbol.trailing →
      IsSuffixed operand (ts ++ [operator]) (links ++ [.trailing symbol])

/-- The tokens are a chain with these links. -/
inductive IsChain (operand : Token → Prop) : List Token → List Link → Prop
  | ofSuffixed {ts links} : IsSuffixed operand ts links → IsChain operand ts links
  | join {ts links operator symbol precedence us more} : IsChain operand ts links →
      operator.kind = .symbol symbol → symbol ∈ binaryOperators precedence →
      IsSuffixed operand us more →
      IsChain operand (ts ++ operator :: us) (links ++ .between symbol :: more)

/-- The tokens are a chain whose operators have at least the precedence. Between those of just this
precedence stand chains of the next tier. -/
inductive IsTier (operand : Token → Prop) : (precedence : Nat) → List Token → List Link → Prop
  | ofSuffixed {ts links} : IsSuffixed operand ts links → IsTier operand 7 ts links
  | ofTighter {precedence ts links} : IsTier operand (precedence + 1) ts links →
      IsTier operand precedence ts links
  | join {precedence ts links operator symbol us more} : IsTier operand precedence ts links →
      operator.kind = .symbol symbol → symbol ∈ binaryOperators precedence →
      IsTier operand (precedence + 1) us more →
      IsTier operand precedence (ts ++ operator :: us) (links ++ .between symbol :: more)

variable {operand : Token → Prop} {ts us : List Token} {links more : List Link}
  {precedence least : Nat}

theorem IsTier.looser (hle : least ≤ precedence) (htier : IsTier operand precedence ts links) :
    IsTier operand least ts links := by
  induction hle with
  | refl => exact htier
  | step _ ih => exact ih htier.ofTighter

/-- An operator of sufficient precedence and an operand behind a tier make up such a tier again. -/
theorem IsTier.append {operator : Token} {symbol : Symbol} (htier : IsTier operand least ts links)
    (hkind : operator.kind = .symbol symbol) (hmem : symbol ∈ binaryOperators precedence)
    (hle : least ≤ precedence) (hoperand : IsSuffixed operand us more) :
    IsTier operand least (ts ++ operator :: us) (links ++ .between symbol :: more) := by
  have hbound := le_of_mem_binaryOperators hmem
  induction htier with
  | ofSuffixed _ => omega
  | ofTighter htighter ih =>
      rcases Nat.eq_or_lt_of_le hle with rfl | hlt
      · exact .join htighter.ofTighter hkind hmem (looser (by omega) (.ofSuffixed hoperand))
      · exact .ofTighter (ih hlt)
  | join hleft hkind' hmem' hright ih ihright =>
      rcases Nat.eq_or_lt_of_le hle with rfl | hlt
      · exact .join (.join hleft hkind' hmem' hright) hkind hmem
          (looser (by omega) (.ofSuffixed hoperand))
      · -- the operator binds tighter, so it belongs to the right operand
        simpa using hleft.join hkind' hmem' (ihright hlt)

/-- Every chain is of the loosest tier. -/
theorem IsChain.isTier (hchain : IsChain operand ts links) : IsTier operand 1 ts links := by
  induction hchain with
  | ofSuffixed hsuffixed => exact IsTier.looser (by decide) (.ofSuffixed hsuffixed)
  | join _ hkind hmem hoperand ih =>
      exact ih.append hkind hmem (le_of_mem_binaryOperators hmem).1 hoperand

end Syntax

end ClassLang
