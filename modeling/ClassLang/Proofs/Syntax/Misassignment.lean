import ClassLang.Proofs.Syntax.Expression

/-! # Expressions with faulty assignments

What would be an expression if any operand could be assigned to, and which of its assignments are
at fault. An expression without faults is an expression of the grammar.
-/

namespace ClassLang.Syntax

/-- An assignment to something that cannot be assigned to. -/
structure Fault where
  operator : Token
  /-- No other assignment in the value that is assigned is at fault. -/
  innermost : Bool
deriving DecidableEq, Repr

/-- The tokens are the phrase, but for the faults, which are listed in the order of the text. An
assignment at fault has the tree of a compound assignment, so that it is no target itself. -/
inductive DerivesBut (enclosing : Option String) : Phrase → List Token → List Fault → Prop
  | faultless {phrase ts} : Derives enclosing phrase ts → DerivesBut enclosing phrase ts []
  | misassign {target value ts operator symbol us before behind} : ¬ IsTarget target →
      DerivesBut enclosing (.conditional target) ts before → operator.kind = .symbol symbol →
      symbol ∈ Symbol.assignments → DerivesBut enclosing (.assignment value) us behind →
      DerivesBut enclosing (.assignment (.operator target.tag (.symbol symbol) [target, value]))
        (ts ++ operator :: us) (before ++ ⟨operator, behind.isEmpty⟩ :: behind)
  -- All other productions are those of the grammar.
  | ofConditional {tree ts faults} : DerivesBut enclosing (.conditional tree) ts faults →
      DerivesBut enclosing (.assignment tree) ts faults
  | assignName {tag name value ts operator us before behind} :
      DerivesBut enclosing (.conditional (.name tag name)) ts before →
      operator.kind = .symbol .assign → DerivesBut enclosing (.assignment value) us behind →
      DerivesBut enclosing (.assignment (.assign tag name value)) (ts ++ operator :: us)
        (before ++ behind)
  | assignField {tag owner name value ts operator us before behind} :
      DerivesBut enclosing (.conditional (.get tag owner name)) ts before →
      operator.kind = .symbol .assign → DerivesBut enclosing (.assignment value) us behind →
      DerivesBut enclosing (.assignment (.set tag owner name value)) (ts ++ operator :: us)
        (before ++ behind)
  | assignStatic {tag type name value ts operator us before behind} :
      DerivesBut enclosing (.conditional (.getStatic tag type name)) ts before →
      operator.kind = .symbol .assign → DerivesBut enclosing (.assignment value) us behind →
      DerivesBut enclosing (.assignment (.setStatic tag type name value)) (ts ++ operator :: us)
        (before ++ behind)
  | assignCompound {target value ts operator symbol us before behind} : IsTarget target →
      DerivesBut enclosing (.conditional target) ts before → operator.kind = .symbol symbol →
      symbol ∈ compoundAssignments → DerivesBut enclosing (.assignment value) us behind →
      DerivesBut enclosing (.assignment (.operator target.tag (.symbol symbol) [target, value]))
        (ts ++ operator :: us) (before ++ behind)
  | ofBinary {tree ts faults} : DerivesBut enclosing (.binary 1 tree) ts faults →
      DerivesBut enclosing (.conditional tree) ts faults
  | choice {condition holds fails ts question us colon vs before between behind} :
      DerivesBut enclosing (.binary 1 condition) ts before → question.kind = .symbol .question →
      DerivesBut enclosing (.assignment holds) us between → colon.kind = .symbol .colon →
      DerivesBut enclosing (.conditional fails) vs behind →
      DerivesBut enclosing
        (.conditional (.operator condition.tag .conditional [condition, holds, fails]))
        (ts ++ question :: us ++ colon :: vs) (before ++ between ++ behind)
  | ofTighter {precedence tree ts faults} :
      DerivesBut enclosing (.binary (precedence + 1) tree) ts faults →
      DerivesBut enclosing (.binary precedence tree) ts faults
  | join {precedence left right ts operator symbol us before behind} :
      DerivesBut enclosing (.binary precedence left) ts before → operator.kind = .symbol symbol →
      symbol ∈ binaryOperators precedence →
      DerivesBut enclosing (.binary (precedence + 1) right) us behind →
      DerivesBut enclosing (.binary precedence (.operator left.tag (.symbol symbol) [left, right]))
        (ts ++ operator :: us) (before ++ behind)
  | ofUnary {tree ts faults} : DerivesBut enclosing (.unary tree) ts faults →
      DerivesBut enclosing (.binary 7 tree) ts faults
  | leading {operand operator symbol ts faults} :
      operator.kind = .symbol symbol → symbol ∈ [Symbol.not, .minus] →
      DerivesBut enclosing (.unary operand) ts faults →
      DerivesBut enclosing (.unary (.operator operator (.symbol symbol) [operand]))
        (operator :: ts) faults
  | ofSuffixed {tree ts faults} : DerivesBut enclosing (.suffixed tree) ts faults →
      DerivesBut enclosing (.unary tree) ts faults
  | trailing {operand ts operator symbol faults} :
      DerivesBut enclosing (.suffixed operand) ts faults → operator.kind = .symbol symbol →
      symbol ∈ [Symbol.increment, .decrement] →
      DerivesBut enclosing (.suffixed (.operator operand.tag (.symbol symbol) [operand]))
        (ts ++ [operator]) faults
  | ofMember {tree ts faults} : DerivesBut enclosing (.member tree) ts faults →
      DerivesBut enclosing (.suffixed tree) ts faults
  | field {owner ts dot name faults} :
      DerivesBut enclosing (.member owner) ts faults → dot.kind = .symbol .dot →
      name.kind = .name →
      DerivesBut enclosing (.member (.get dot owner name.payload)) (ts ++ [dot, name]) faults
  | call {owner ts dot name arguments us before behind} :
      DerivesBut enclosing (.member owner) ts before → dot.kind = .symbol .dot →
      name.kind = .name → DerivesBut enclosing (.arguments arguments) us behind →
      DerivesBut enclosing (.member (.call dot owner name.payload arguments))
        (ts ++ dot :: name :: us) (before ++ behind)
  | ofPrimary {tree ts faults} : DerivesBut enclosing (.primary tree) ts faults →
      DerivesBut enclosing (.member tree) ts faults
  | parenthesized {opening tree ts closing faults} : opening.kind = .symbol .parenOpen →
      DerivesBut enclosing (.assignment tree) ts faults → closing.kind = .symbol .parenClose →
      DerivesBut enclosing (.primary tree) (opening :: ts ++ [closing]) faults
  | staticCall {type dot name arguments ts faults} : type.kind = .typename →
      dot.kind = .symbol .dot → name.kind = .name →
      DerivesBut enclosing (.arguments arguments) ts faults →
      DerivesBut enclosing
        (.primary (.callStatic type (some type.payload) name.payload arguments))
        (type :: dot :: name :: ts) faults
  | new {word type arguments ts faults} : word.kind = .name → word.data = some "new" →
      type.kind = .typename → DerivesBut enclosing (.arguments arguments) ts faults →
      DerivesBut enclosing (.primary (.new word type.payload arguments)) (word :: type :: ts) faults
  | ownCall {name arguments ts faults} : name.kind = .name →
      DerivesBut enclosing (.arguments arguments) ts faults →
      DerivesBut enclosing (.primary (.callStatic name enclosing name.payload arguments))
        (name :: ts) faults
  | someArguments {opening trees ts closing faults} : opening.kind = .symbol .parenOpen →
      DerivesBut enclosing (.list trees) ts faults → closing.kind = .symbol .parenClose →
      DerivesBut enclosing (.arguments trees) (opening :: ts ++ [closing]) faults
  | single {tree ts faults} : DerivesBut enclosing (.assignment tree) ts faults →
      DerivesBut enclosing (.list [tree]) ts faults
  | more {tree ts comma trees us before behind} :
      DerivesBut enclosing (.assignment tree) ts before → comma.kind = .symbol .comma →
      DerivesBut enclosing (.list trees) us behind →
      DerivesBut enclosing (.list (tree :: trees)) (ts ++ comma :: us) (before ++ behind)

/-- The first of the faults in whose values there is no other. -/
def firstInnermost? (faults : List Fault) : Option Fault := faults.find? (·.innermost)

namespace DerivesBut

variable {enclosing : Option String} {phrase : Phrase} {ts : List Token}
  {faults before behind : List Fault} {fault : Fault}

/-- Without faults the tokens are the phrase. -/
theorem derives (hbut : DerivesBut enclosing phrase ts faults) (hnil : faults = []) :
    Derives enclosing phrase ts := by
  induction hbut with
  | faultless hderives => exact hderives
  | misassign => simp at hnil
  | ofConditional _ ih => exact .ofConditional (ih hnil)
  | ofBinary _ ih => exact .ofBinary (ih hnil)
  | ofTighter _ ih => exact .ofTighter (ih hnil)
  | ofUnary _ ih => exact .ofUnary (ih hnil)
  | ofSuffixed _ ih => exact .ofSuffixed (ih hnil)
  | ofMember _ ih => exact .ofMember (ih hnil)
  | ofPrimary _ ih => exact .ofPrimary (ih hnil)
  | assignName _ hkind _ ihtarget ihvalue =>
      obtain ⟨hbefore, hbehind⟩ := List.append_eq_nil_iff.mp hnil
      exact .assignName (ihtarget hbefore) hkind (ihvalue hbehind)
  | assignField _ hkind _ ihtarget ihvalue =>
      obtain ⟨hbefore, hbehind⟩ := List.append_eq_nil_iff.mp hnil
      exact .assignField (ihtarget hbefore) hkind (ihvalue hbehind)
  | assignStatic _ hkind _ ihtarget ihvalue =>
      obtain ⟨hbefore, hbehind⟩ := List.append_eq_nil_iff.mp hnil
      exact .assignStatic (ihtarget hbefore) hkind (ihvalue hbehind)
  | assignCompound hlegal _ hkind hmem _ ihtarget ihvalue =>
      obtain ⟨hbefore, hbehind⟩ := List.append_eq_nil_iff.mp hnil
      exact .assignCompound hlegal (ihtarget hbefore) hkind hmem (ihvalue hbehind)
  | choice _ hquestion _ hcolon _ ihcondition ihholds ihfails =>
      obtain ⟨hfront, hbehind⟩ := List.append_eq_nil_iff.mp hnil
      obtain ⟨hbefore, hbetween⟩ := List.append_eq_nil_iff.mp hfront
      exact .choice (ihcondition hbefore) hquestion (ihholds hbetween) hcolon (ihfails hbehind)
  | join _ hkind hmem _ ihleft ihright =>
      obtain ⟨hbefore, hbehind⟩ := List.append_eq_nil_iff.mp hnil
      exact .join (ihleft hbefore) hkind hmem (ihright hbehind)
  | leading hkind hmem _ ih => exact .leading hkind hmem (ih hnil)
  | trailing _ hkind hmem ih => exact .trailing (ih hnil) hkind hmem
  | field _ hdot hname ih => exact .field (ih hnil) hdot hname
  | call _ hdot hname _ ihowner iharguments =>
      obtain ⟨hbefore, hbehind⟩ := List.append_eq_nil_iff.mp hnil
      exact .call (ihowner hbefore) hdot hname (iharguments hbehind)
  | parenthesized hopening _ hclosing ih => exact .parenthesized hopening (ih hnil) hclosing
  | staticCall htype hdot hname _ ih => exact .staticCall htype hdot hname (ih hnil)
  | new hword hnew htype _ ih => exact .new hword hnew htype (ih hnil)
  | ownCall hname _ ih => exact .ownCall hname (ih hnil)
  | someArguments hopening _ hclosing ih => exact .someArguments hopening (ih hnil) hclosing
  | single _ ih => exact .single (ih hnil)
  | more _ hcomma _ ihfirst ihrest =>
      obtain ⟨hbefore, hbehind⟩ := List.append_eq_nil_iff.mp hnil
      exact .more (ihfirst hbefore) hcomma (ihrest hbehind)

/-- A primary expression can stand wherever a choice can. -/
theorem ofPrimary_conditional {tree : Expr Token}
    (hbut : DerivesBut enclosing (.primary tree) ts faults) :
    DerivesBut enclosing (.conditional tree) ts faults :=
  hbut.ofPrimary.ofMember.ofSuffixed.ofUnary.ofTighter.ofTighter.ofTighter.ofTighter.ofTighter
    |>.ofTighter.ofBinary

/-- A number stands wherever a choice can. -/
theorem number {token : Token} (hint : token.kind = .int) :
    DerivesBut enclosing
      (.conditional (.int token (Decimal.digitsValue token.payload.toList))) [token] [] :=
  .ofPrimary_conditional (.faultless (.int hint))

/-- It is a fault to assign to a number. -/
theorem misassignNumber {token operator : Token} {symbol : Symbol} {value : Expr Token}
    (hint : token.kind = .int) (hkind : operator.kind = .symbol symbol)
    (hmem : symbol ∈ Symbol.assignments)
    (hvalue : DerivesBut enclosing (.assignment value) ts behind) :
    DerivesBut enclosing
      (.assignment (.operator token (.symbol symbol)
        [.int token (Decimal.digitsValue token.payload.toList), value]))
      (token :: operator :: ts) (⟨operator, behind.isEmpty⟩ :: behind) := by
  have hillegal : ¬ IsTarget (Expr.int token (Decimal.digitsValue token.payload.toList)) := nofun
  exact .misassign hillegal (number hint) hkind hmem hvalue

/-- The phrases without faults are those of the grammar. -/
theorem nil_iff : DerivesBut enclosing phrase ts [] ↔ Derives enclosing phrase ts :=
  ⟨fun hbut => hbut.derives rfl, .faultless⟩

/-- A phrase is not empty, and its first token tells which sort of phrase it can be. -/
theorem head (hbut : DerivesBut enclosing phrase ts faults) :
    ∃ token rest, ts = token :: rest ∧ token.kind ∈ phrase.starts := by
  induction hbut with
  | faultless hderives => exact hderives.head
  | ofConditional _ ih | ofBinary _ ih | ofTighter _ ih | ofUnary _ ih | ofMember _ ih
  | ofPrimary _ ih | single _ ih => exact ih
  | ofSuffixed _ ih =>
      obtain ⟨token, rest, rfl, hkind⟩ := ih
      exact ⟨token, rest, rfl, List.mem_cons_of_mem _ (List.mem_cons_of_mem _ hkind)⟩
  | misassign _ _ _ _ _ ih | assignName _ _ _ ih | assignField _ _ _ ih | assignStatic _ _ _ ih
  | assignCompound _ _ _ _ _ ih | choice _ _ _ _ _ ih | join _ _ _ _ ih | trailing _ _ _ ih
  | field _ _ _ ih | call _ _ _ _ ih | more _ _ _ ih =>
      obtain ⟨token, rest, rfl, hkind⟩ := ih
      exact ⟨token, _, rfl, hkind⟩
  | leading hkind hmem =>
      simp only [List.mem_cons, List.not_mem_nil, or_false] at hmem
      rcases hmem with rfl | rfl <;>
        exact ⟨_, _, rfl, by simp [hkind, Phrase.starts, expressionStarts]⟩
  | parenthesized hkind | staticCall hkind | new hkind | ownCall hkind | someArguments hkind =>
      exact ⟨_, _, rfl, by simp [hkind, Phrase.starts, operandStarts]⟩

/-- The operators at fault stand in the text in the order in which they are listed. -/
theorem sublist (hbut : DerivesBut enclosing phrase ts faults) :
    (faults.map (·.operator)).Sublist ts := by
  induction hbut with
  | faultless => exact List.nil_sublist _
  | ofConditional _ ih | ofBinary _ ih | ofTighter _ ih | ofUnary _ ih | ofSuffixed _ ih
  | ofMember _ ih | ofPrimary _ ih | single _ ih => exact ih
  | misassign _ _ _ _ _ ihtarget ihvalue =>
      rw [List.map_append, List.map_cons]
      exact ihtarget.append (ihvalue.cons_cons _)
  | assignName _ _ _ ihfront ihback | assignField _ _ _ ihfront ihback
  | assignStatic _ _ _ ihfront ihback | assignCompound _ _ _ _ _ ihfront ihback
  | join _ _ _ _ ihfront ihback | more _ _ _ ihfront ihback =>
      rw [List.map_append]
      exact ihfront.append (ihback.cons _)
  | call _ _ _ _ ihfront ihback =>
      rw [List.map_append]
      exact ihfront.append ((ihback.cons _).cons _)
  | choice _ _ _ _ _ ihcondition ihholds ihfails =>
      rw [List.map_append, List.map_append]
      exact (ihcondition.append (ihholds.cons _)).append (ihfails.cons _)
  | trailing _ _ _ ih | field _ _ _ ih => exact ih.trans (List.sublist_append_left _ _)
  | parenthesized _ _ _ ih | someArguments _ _ _ ih =>
      exact (ih.cons _).trans (List.sublist_append_left _ _)
  | leading _ _ _ ih | ownCall _ _ ih => exact ih.cons _
  | new _ _ _ _ ih => exact (ih.cons _).cons _
  | staticCall _ _ _ _ ih => exact ((ih.cons _).cons _).cons _

/-- Where there are faults, there is one in whose value there is no other. -/
theorem firstInnermost?_eq_none (hbut : DerivesBut enclosing phrase ts faults)
    (hnone : firstInnermost? faults = none) : faults = [] := by
  induction hbut with
  | faultless => rfl
  | ofConditional _ ih | ofBinary _ ih | ofTighter _ ih | ofUnary _ ih | ofSuffixed _ ih
  | ofMember _ ih | ofPrimary _ ih | single _ ih | leading _ _ _ ih | trailing _ _ _ ih
  | field _ _ _ ih | parenthesized _ _ _ ih | staticCall _ _ _ _ ih | new _ _ _ _ ih
  | ownCall _ _ ih | someArguments _ _ _ ih => exact ih hnone
  | @misassign _ _ _ operator _ _ _ behind _ _ _ _ _ _ ihvalue =>
      -- if no fault in the value is innermost, there is none, and then the operator's own is
      have hall := List.find?_eq_none.mp hnone
      have hbehind : behind = [] :=
        ihvalue (List.find?_eq_none.mpr fun fault hmem => hall fault (by simp [hmem]))
      exact absurd (by simp [hbehind]) (hall ⟨operator, behind.isEmpty⟩ (by simp))
  | assignName _ _ _ ihfront ihback | assignField _ _ _ ihfront ihback
  | assignStatic _ _ _ ihfront ihback | assignCompound _ _ _ _ _ ihfront ihback
  | join _ _ _ _ ihfront ihback | more _ _ _ ihfront ihback | call _ _ _ _ ihfront ihback =>
      rw [firstInnermost?, List.find?_append, Option.or_eq_none_iff] at hnone
      exact List.append_eq_nil_iff.mpr ⟨ihfront hnone.1, ihback hnone.2⟩
  | choice _ _ _ _ _ ihcondition ihholds ihfails =>
      rw [firstInnermost?, List.find?_append, List.find?_append, Option.or_eq_none_iff,
        Option.or_eq_none_iff] at hnone
      rw [ihcondition hnone.1.1, ihholds hnone.1.2, ihfails hnone.2]
      rfl

/-- The first innermost fault is in the first part, or the first part has no fault. -/
theorem firstInnermost?_append (hbut : DerivesBut enclosing phrase ts before)
    (hfirst : firstInnermost? (before ++ behind) = some fault) :
    firstInnermost? before = some fault ∨
      before = [] ∧ Derives enclosing phrase ts ∧ firstInnermost? behind = some fault := by
  rw [firstInnermost?, List.find?_append] at hfirst
  cases hbefore : before.find? (·.innermost) with
  | some found =>
      rw [hbefore, Option.some_or] at hfirst
      exact .inl (hbefore.trans hfirst)
  | none =>
      rw [hbefore, Option.none_or] at hfirst
      have hnil := hbut.firstInnermost?_eq_none hbefore
      exact .inr ⟨hnil, hbut.derives hnil, hfirst⟩

end DerivesBut

end ClassLang.Syntax
