import Mathlib.Order.Filter.AtTopBot.Basic
import ClassLang.Proofs.Reading.ExpressionSound

/-! # Every expression is read

A phrase of the grammar is read with its tree wherever the token after it
cannot belong to it, at every sufficient nesting depth. Where the grammar
recurses on the left the rules have a loop, and there the statement is that
reading on from the tree of the phrase is reading from its beginning.
-/

namespace ClassLang

open TokenStream ClassLang.Parser Syntax Filter

/-- How tightly a token holds on to the operand before it, none holding tighter than what opens
a list of arguments. -/
def Token.tightness (token : Token) : Nat :=
  match token.kind with
  | .typename | .symbol .parenOpen => 12
  | .symbol .dot => 11
  | .symbol .increment | .symbol .decrement => 10
  | .symbol .question => 2
  | .symbol symbol =>
      match symbol.precedence? with
      | some precedence => precedence + 2
      | none => if symbol ∈ Symbol.assignments then 1 else 0
  | _ => 0

/-- An integer token has no more digits than allowed. -/
def Token.Fits (digits : Option Nat) (token : Token) : Prop :=
  token.kind = .int → digits.any (· < token.payload.toList.length) = false

namespace Token

variable {token : Token}

theorem tightness_of_binary? {symbol : Symbol} {precedence : Nat}
    (hbinary : token.binary? = some (symbol, precedence)) :
    token.tightness = precedence + 2 := by
  obtain ⟨hkind, hmem⟩ := binary?_eq_some_iff.mp hbinary
  rw [mem_binaryOperators_iff] at hmem
  unfold tightness
  cases symbol <;> simp_all [Symbol.precedence?]

/-- An assignment operator does not belong to the operand before it. -/
theorem tightness_lt_of_assignment {symbol : Symbol} (hkind : token.kind = .symbol symbol)
    (hmem : symbol ∈ Symbol.assignments) : token.tightness < 2 := by
  rw [tightness, hkind]
  cases symbol <;> simp_all [Symbol.assignments, Symbol.precedence?]

/-- Every expression ends at these marks. -/
theorem tightness_lt_of_mark {symbol : Symbol} (hkind : token.kind = .symbol symbol)
    (hmem : symbol ∈ [Symbol.semicolon, .comma, .colon, .parenClose]) : token.tightness < 1 := by
  rw [tightness, hkind]
  cases symbol <;> simp_all [Symbol.assignments, Symbol.precedence?]

theorem not_assignment (htight : token.tightness < 1) :
    ∀ operator ∈ Symbol.assignments, token.kind ≠ .symbol operator := by
  intro operator hmem hkind
  unfold tightness at htight
  cases operator <;> simp_all [Symbol.assignments, Symbol.precedence?]

theorem not_trailing (htight : token.tightness < 10) :
    ∀ operator ∈ Symbol.trailing, token.kind ≠ .symbol operator := by
  intro operator hmem hkind
  unfold tightness at htight
  cases operator <;> simp_all [Symbol.trailing]

theorem kind_ne_of_tightness {kind : Kind} {bound : Nat} (htight : token.tightness < bound)
    (hkind : bound ≤ (⟨kind, none, 0, 0⟩ : Token).tightness) : token.kind ≠ kind := by
  rintro rfl
  exact absurd htight (Nat.not_lt.mpr hkind)

end Token

namespace TokenStream.Hands

/-! ## What is shown before a token is handed out -/

variable {stream next : TokenStream} {token : Token} {symbol : Symbol}

theorem tightness_lt_of_assignment (hhands : stream.Hands token next)
    (hkind : token.kind = .symbol symbol) (hmem : symbol ∈ Symbol.assignments) :
    stream.buffered.tightness < 2 := by
  rw [hhands.buffered_eq]
  exact Token.tightness_lt_of_assignment hkind hmem

theorem tightness_lt_of_mark (hhands : stream.Hands token next)
    (hkind : token.kind = .symbol symbol)
    (hmem : symbol ∈ [Symbol.semicolon, .comma, .colon, .parenClose]) :
    stream.buffered.tightness < 1 := by
  rw [hhands.buffered_eq]
  exact Token.tightness_lt_of_mark hkind hmem

theorem binary?_buffered {precedence : Nat} (hhands : stream.Hands token next)
    (hkind : token.kind = .symbol symbol) (hmem : symbol ∈ binaryOperators precedence) :
    stream.buffered.binary? = some (symbol, precedence) := by
  rw [hhands.buffered_eq]
  exact Token.binary?_eq_some_iff.mpr ⟨hkind, hmem⟩

end TokenStream.Hands

/-- What holds at all sufficient depths holds a few levels further out. -/
theorem eventually_further {p : Nat → Prop} (hp : ∀ᶠ depth in atTop, p depth) (levels : Nat) :
    ∀ᶠ depth in atTop, p (depth + levels) :=
  (tendsto_add_atTop_nat levels).eventually hp

theorem eventually_of_further {p : Nat → Prop} (levels : Nat)
    (hp : ∀ᶠ depth in atTop, p (depth + levels)) : ∀ᶠ depth in atTop, p depth := by
  rw [← map_add_atTop_eq_nat levels, eventually_map]
  exact hp

namespace Level

/-- By the rule the level reads the value from these tokens wherever the token after them may
follow. -/
def Reads {α : Type} (level : Level) (enclosing : Option String) (rule : Rule α)
    (tokens : List Token) (value : α) (follow : Token → Prop) : Prop :=
  ∀ stream next, stream.Passes tokens next → follow next.buffered →
    Yields (level.read enclosing rule) stream value next

/-- By the rule the level reads from the beginning of these tokens just as it reads on from the
tree after them. -/
def Resumes (level : Level) (enclosing : Option String)
    (rule : Option (Expr Token) → Rule (Expr Token)) (tokens : List Token) (tree : Expr Token)
    (bound : Nat) : Prop :=
  ∀ stream middle, stream.Passes tokens middle → middle.buffered.tightness < bound →
    level.read enclosing (rule none) stream = level.read enclosing (rule (some tree)) middle

theorem Resumes.yields {level : Level} {enclosing : Option String}
    {rule : Option (Expr Token) → Rule (Expr Token)} {tokens : List Token}
    {tree result : Expr Token} {bound : Nat} {stream middle next : TokenStream}
    (hresumes : level.Resumes enclosing rule tokens tree bound)
    (hpasses : stream.Passes tokens middle) (htight : middle.buffered.tightness < bound)
    (hrest : Yields (level.read enclosing (rule (some tree))) middle result next) :
    Yields (level.read enclosing (rule none)) stream result next :=
  (hresumes _ _ hpasses htight).trans hrest

/-- The level reads the phrase from the tokens. -/
def Covers (level : Level) (enclosing : Option String) (tokens : List Token) : Phrase → Prop
  | .assignment tree => level.Reads enclosing (.assignment none) tokens tree (·.tightness < 1)
  | .conditional tree => level.Reads enclosing (.conditional none) tokens tree (·.tightness < 2)
  | .binary precedence tree =>
      ∀ least ≤ precedence, level.Resumes enclosing (.binary least) tokens tree (precedence + 3)
  | .unary tree => level.Reads enclosing .unary tokens tree (·.tightness < 10)
  | .suffixed tree => level.Resumes enclosing .suffixed tokens tree 11
  | .member tree => level.Resumes enclosing .suffixed tokens tree 12
  | .primary tree => level.Reads enclosing .primary tokens tree (·.tightness < 12)
  | .arguments trees => level.Reads enclosing .expressionList tokens trees fun _ => True
  | .list trees =>
      CommaSeparated (fun ts tree => Derives enclosing (.assignment tree) ts ∧
        level.Reads enclosing (.assignment none) ts tree (·.tightness < 1)) tokens trees

variable {digits : Option Nat} {depth : Nat} {enclosing : Option String}
  {stream middle next : TokenStream} {tree : Expr Token} {ts us vs : List Token}

/-! ## Where loops stop -/

theorem noOperator_of_tightness {least : Nat} (htight : stream.buffered.tightness < least + 2) :
    NoOperator least stream := by
  intro operator precedence hbinary
  rw [Token.tightness_of_binary? hbinary] at htight
  omega

/-- No operator follows that could be joined to the tree. -/
theorem yields_binary_stop {least : Nat} (hleast : 1 ≤ least)
    (htight : stream.buffered.tightness < least + 2) :
    Yields ((bounded digits (depth + 1)).read enclosing (.binary least (some tree))) stream tree
      stream := by
  rw [bounded_succ_read]
  refine yields_binary_some.mpr (yields_iterate_stop ?_)
  have hlooser := (noOperator_iff hleast).mp (noOperator_of_tightness htight)
  exact yields_joinBinary.mpr (.inl ⟨hlooser, rfl, rfl⟩)

/-- No point follows the tree. -/
theorem yields_memberAccess_stop (htight : stream.buffered.tightness < 11) :
    Yields ((bounded digits (depth + 1)).read enclosing (.memberAccess tree)) stream tree
      stream := by
  rw [bounded_succ_read]
  refine yields_iterate_stop (yields_accessMember.mpr (.inl ⟨?_, rfl, rfl⟩))
  exact Token.kind_ne_of_tightness htight (by decide)

/-- Where no point follows the tree, only operators after it are read. -/
theorem suffixed_some_apply (htight : stream.buffered.tightness < 11) :
    (bounded digits (depth + 2)).read enclosing (.suffixed (some tree)) stream =
      iterate applyTrailing tree stream := by
  rw [bounded_succ_read, apply, suffixed_some]
  exact bind_of_yields (yields_memberAccess_stop htight)

/-- Neither a member nor an operator follows the tree. -/
theorem yields_suffixed_stop (htight : stream.buffered.tightness < 10) :
    Yields ((bounded digits (depth + 2)).read enclosing (.suffixed (some tree))) stream tree
      stream := by
  refine (suffixed_some_apply (by omega)).trans (yields_iterate_stop ?_)
  exact yields_applyTrailing.mpr (.inl ⟨Token.not_trailing htight, rfl, rfl⟩)

/-! ## One production after the other -/

namespace Covers

theorem ofConditional
    (htree : (bounded digits depth).Covers enclosing ts (.conditional tree)) :
    (bounded digits (depth + 1)).Covers enclosing ts (.assignment tree) := by
  intro stream next hpasses htight
  rw [bounded_succ_read]
  refine yields_assignment.mpr ⟨tree, next, htree _ _ hpasses (by omega), .inl ?_⟩
  exact ⟨Token.not_assignment htight, rfl, rfl⟩

/-- All the forms of assignment. -/
theorem assigned {target value : Expr Token} {operator : Token} {symbol : Symbol}
    (htarget : (bounded digits depth).Covers enclosing ts (.conditional target))
    (hkind : operator.kind = .symbol symbol) (hmem : symbol ∈ Symbol.assignments)
    (hvalue : (bounded digits depth).Covers enclosing us (.assignment value))
    (hassigned : target.assigned? symbol value = some tree) :
    (bounded digits (depth + 1)).Covers enclosing (ts ++ operator :: us) (.assignment tree) := by
  intro stream next hpasses htight
  obtain ⟨middle, hts, after, hhands, hus⟩ := Passes.append_cons_iff.mp hpasses
  have hfollow := hhands.tightness_lt_of_assignment hkind hmem
  rw [bounded_succ_read]
  refine yields_assignment.mpr ⟨target, middle, htarget _ _ hts hfollow, .inr ?_⟩
  exact ⟨operator, symbol, hkind, hmem, after, hhands, value, hvalue _ _ hus htight, hassigned⟩

theorem ofBinary (htree : (bounded digits (depth + 1)).Covers enclosing ts (.binary 1 tree)) :
    (bounded digits (depth + 2)).Covers enclosing ts (.conditional tree) := by
  intro stream next hpasses htight
  rw [bounded_succ_read]
  have hbinary :=
    (htree 1 le_rfl).yields hpasses (by omega) (yields_binary_stop le_rfl (by omega))
  refine yields_conditional.mpr ⟨tree, next, hbinary, .inl ⟨?_, rfl, rfl⟩⟩
  exact Token.kind_ne_of_tightness htight (by decide)

theorem choice {condition holds fails : Expr Token} {question colon : Token}
    (hcondition : (bounded digits (depth + 1)).Covers enclosing ts (.binary 1 condition))
    (hquestion : question.kind = .symbol .question)
    (hholds : (bounded digits depth).Covers enclosing us (.assignment holds))
    (hcolon : colon.kind = .symbol .colon)
    (hfails : (bounded digits (depth + 1)).Covers enclosing vs (.conditional fails)) :
    (bounded digits (depth + 2)).Covers enclosing (ts ++ question :: us ++ colon :: vs)
      (.conditional (.operator condition.tag .conditional [condition, holds, fails])) := by
  intro stream next hpasses htight
  obtain ⟨s₂, hfront, hback⟩ := Passes.append_iff.mp hpasses
  obtain ⟨middle, hts, s₁, hhands, hus⟩ := Passes.append_cons_iff.mp hfront
  obtain ⟨s₃, hhands', hvs⟩ := Passes.cons_iff.mp hback
  have hfollow : middle.buffered.tightness = 2 := by
    rw [hhands.buffered_eq, Token.tightness, hquestion]
  have hfollow' := hhands'.tightness_lt_of_mark hcolon (by decide)
  rw [bounded_succ_read]
  refine yields_conditional.mpr ⟨condition, middle, ?_, .inr ⟨question, hquestion, s₁, hhands,
    holds, s₂, ?_, colon, hcolon, s₃, hhands', fails, hfails _ _ hvs htight, rfl⟩⟩
  · exact (hcondition 1 le_rfl).yields hts (by omega) (yields_binary_stop le_rfl (by omega))
  · exact hholds _ _ hus (by omega)

theorem ofTighter {level : Level} {precedence : Nat}
    (htree : level.Covers enclosing ts (.binary (precedence + 1) tree)) :
    level.Covers enclosing ts (.binary precedence tree) := by
  intro least hleast stream next hpasses htight
  exact htree least (by omega) stream next hpasses (by omega)

theorem ofUnary (htree : (bounded digits depth).Covers enclosing ts (.unary tree)) :
    (bounded digits (depth + 1)).Covers enclosing ts (.binary 7 tree) := by
  intro least hleast stream middle hpasses htight
  exact bind_of_yields (htree _ _ hpasses htight)

theorem join {left right : Expr Token} {operator : Token} {symbol : Symbol} {precedence : Nat}
    (hleft : (bounded digits (depth + 2)).Covers enclosing ts (.binary precedence left))
    (hkind : operator.kind = .symbol symbol) (hmem : symbol ∈ binaryOperators precedence)
    (hright : (bounded digits (depth + 1)).Covers enclosing us (.binary (precedence + 1) right)) :
    (bounded digits (depth + 2)).Covers enclosing (ts ++ operator :: us)
      (.binary precedence (.operator left.tag (.symbol symbol) [left, right])) := by
  intro least hleast stream last hpasses htight
  obtain ⟨middle, hts, after, hhands, hus⟩ := Passes.append_cons_iff.mp hpasses
  have hbinary := hhands.binary?_buffered hkind hmem
  have hfollow := Token.tightness_of_binary? hbinary
  refine (hleft least hleast _ _ hts (by omega)).trans ?_
  have hoperand := (hright (precedence + 1) le_rfl).yields hus (by omega)
    (yields_binary_stop (by omega) (by omega))
  refine iterate_of_yields (yields_joinBinary.mpr (.inr ?_)) ?_
  · exact ⟨symbol, precedence, hbinary, hleast, after, hhands.buffered_eq ▸ hhands, right,
      hoperand, rfl⟩
  · exact Nat.lt_of_le_of_lt hus.remaining_le hhands.remaining_lt

theorem leading {operand : Expr Token} {operator : Token} {symbol : Symbol}
    (hkind : operator.kind = .symbol symbol) (hmem : symbol ∈ [Symbol.not, .minus])
    (hoperand : (bounded digits depth).Covers enclosing ts (.unary operand)) :
    (bounded digits (depth + 1)).Covers enclosing (operator :: ts)
      (.unary (.operator operator (.symbol symbol) [operand])) := by
  intro stream next hpasses htight
  obtain ⟨middle, hhands, hts⟩ := Passes.cons_iff.mp hpasses
  rw [bounded_succ_read]
  exact yields_unary.mpr (.inr ⟨operator, symbol, hkind, hmem, middle, hhands, operand,
    hoperand _ _ hts htight, rfl⟩)

theorem ofSuffixed (hstart : ∃ token rest, ts = token :: rest ∧ token.kind ∈ operandStarts)
    (htree : (bounded digits (depth + 2)).Covers enclosing ts (.suffixed tree)) :
    (bounded digits (depth + 3)).Covers enclosing ts (.unary tree) := by
  intro stream next hpasses htight
  obtain ⟨token, rest, rfl, hoperand⟩ := hstart
  have hsuffixed := htree.yields hpasses (by omega) (yields_suffixed_stop htight)
  rw [bounded_succ_read]
  refine yields_unary.mpr (.inl ⟨?_, hsuffixed⟩)
  rw [hpasses.buffered_eq]
  intro operator hmem hkind
  rw [hkind] at hoperand
  cases operator <;> simp [Symbol.leading, operandStarts] at hmem hoperand

theorem trailing {operand : Expr Token} {operator : Token} {symbol : Symbol}
    (hoperand : (bounded digits (depth + 2)).Covers enclosing ts (.suffixed operand))
    (hkind : operator.kind = .symbol symbol) (hmem : symbol ∈ [Symbol.increment, .decrement]) :
    (bounded digits (depth + 2)).Covers enclosing (ts ++ [operator])
      (.suffixed (.operator operand.tag (.symbol symbol) [operand])) := by
  intro stream last hpasses htight
  obtain ⟨middle, hts, hback⟩ := Passes.append_iff.mp hpasses
  have hhands := Passes.singleton_iff.mp hback
  have hfollow : middle.buffered.tightness = 10 := by
    rw [hhands.buffered_eq, Token.tightness, hkind]
    cases symbol <;> simp_all
  rw [hoperand _ _ hts (by omega), suffixed_some_apply (by omega), suffixed_some_apply htight]
  refine iterate_of_yields ?_ hhands.remaining_lt
  exact yields_applyTrailing.mpr (.inr ⟨operator, symbol, hkind, hmem, hhands, rfl⟩)

theorem ofMember {level : Level} (htree : level.Covers enclosing ts (.member tree)) :
    level.Covers enclosing ts (.suffixed tree) := by
  intro stream middle hpasses htight
  exact htree stream middle hpasses (by omega)

/-- A member that the rules read from an owner belongs to the phrase. -/
theorem accessed {owner : Expr Token} {dot : Token}
    (howner : (bounded digits (depth + 2)).Covers enclosing ts (.member owner))
    (hdot : dot.kind = .symbol .dot)
    (haccess : ∀ stream next, stream.Passes (dot :: us) next → next.buffered.tightness < 12 →
      Yields ((bounded digits depth).accessMember enclosing owner) stream (some tree) next) :
    (bounded digits (depth + 2)).Covers enclosing (ts ++ dot :: us) (.member tree) := by
  intro stream last hpasses htight
  obtain ⟨middle, hts, hback⟩ := Passes.append_iff.mp hpasses
  have hfollow : middle.buffered.tightness = 11 := by
    rw [hback.buffered_eq, Token.tightness, hdot]
  have hmembers : (bounded digits (depth + 1)).read enclosing (.memberAccess owner) middle =
      (bounded digits (depth + 1)).read enclosing (.memberAccess tree) last :=
    iterate_of_yields (haccess _ _ hback htight) (hback.remaining_lt (by simp))
  rw [howner _ _ hts (by omega), bounded_succ_read, apply, suffixed_some]
  exact bind_congr_of_eq hmembers

theorem field {owner : Expr Token} {dot name : Token}
    (howner : (bounded digits (depth + 2)).Covers enclosing ts (.member owner))
    (hdot : dot.kind = .symbol .dot) (hname : name.kind = .name) :
    (bounded digits (depth + 2)).Covers enclosing (ts ++ [dot, name])
      (.member (.get dot owner name.payload)) := by
  refine howner.accessed hdot fun stream next hpasses htight => ?_
  obtain ⟨s₁, hhands, hback⟩ := Passes.cons_iff.mp hpasses
  have hhands' := Passes.singleton_iff.mp hback
  refine yields_accessMember.mpr (.inr ⟨dot, hdot, s₁, hhands, name, hname, next, hhands', ?_⟩)
  rw [if_neg (Token.kind_ne_of_tightness htight (by decide))]
  exact ⟨rfl, rfl⟩

/-- Arguments begin with a parenthesis, so they are looked for. -/
theorem shows_parenOpen {trees : List (Expr Token)} {stream next : TokenStream}
    (harguments : Derives enclosing (.arguments trees) us) (hus : stream.Passes us next) :
    stream.buffered.kind = .symbol .parenOpen := by
  cases harguments with
  | noArguments hopening => rwa [hus.buffered_eq]
  | someArguments hopening => rwa [hus.buffered_eq]

theorem call {owner : Expr Token} {dot name : Token} {arguments : List (Expr Token)}
    (howner : (bounded digits (depth + 2)).Covers enclosing ts (.member owner))
    (hdot : dot.kind = .symbol .dot) (hname : name.kind = .name)
    (hderives : Derives enclosing (.arguments arguments) us)
    (harguments : (bounded digits depth).Covers enclosing us (.arguments arguments)) :
    (bounded digits (depth + 2)).Covers enclosing (ts ++ dot :: name :: us)
      (.member (.call dot owner name.payload arguments)) := by
  refine howner.accessed hdot fun stream next hpasses htight => ?_
  obtain ⟨s₁, hhands, hback⟩ := Passes.cons_iff.mp hpasses
  obtain ⟨s₂, hhands', hus⟩ := Passes.cons_iff.mp hback
  refine yields_accessMember.mpr (.inr ⟨dot, hdot, s₁, hhands, name, hname, s₂, hhands', ?_⟩)
  rw [if_pos (shows_parenOpen hderives hus)]
  exact ⟨arguments, harguments _ _ hus trivial, rfl⟩

theorem ofPrimary (htree : (bounded digits depth).Covers enclosing ts (.primary tree)) :
    (bounded digits (depth + 1)).Covers enclosing ts (.member tree) := by
  intro stream middle hpasses htight
  exact bind_of_yields (htree _ _ hpasses htight)

/-- A primary expression of a single token. -/
theorem literal {token : Token}
    (hread : ∀ stream next, stream.buffered = token → stream.Hands token next →
      Yields ((bounded digits depth).primary enclosing) stream tree next) :
    (bounded digits (depth + 1)).Covers enclosing [token] (.primary tree) := by
  intro stream next hpasses _
  have hhands := Passes.singleton_iff.mp hpasses
  exact hread stream next hhands.buffered_eq hhands

theorem parenthesized {opening closing : Token} (hopening : opening.kind = .symbol .parenOpen)
    (htree : (bounded digits depth).Covers enclosing ts (.assignment tree))
    (hclosing : closing.kind = .symbol .parenClose) :
    (bounded digits (depth + 2)).Covers enclosing (opening :: ts ++ [closing])
      (.primary tree) := by
  intro stream next hpasses _
  obtain ⟨middle, hhands, hback⟩ := Passes.cons_iff.mp hpasses
  obtain ⟨inner, hts, hrest⟩ := Passes.append_iff.mp hback
  have hhands' := Passes.singleton_iff.mp hrest
  have hfollow := hhands'.tightness_lt_of_mark hclosing (by decide)
  obtain rfl := hhands.buffered_eq
  rw [bounded_succ_read]
  refine yields_primary.mpr ⟨middle, hhands, ?_⟩
  simp only [hopening]
  exact ⟨inner, htree _ _ hts (by omega), closing, hclosing, hhands'⟩

/-- A member of a type is read after the name of the type. -/
theorem ofStaticMember {type dot name : Token} (htype : type.kind = .typename)
    (hdot : dot.kind = .symbol .dot) (hname : name.kind = .name)
    (hmember : ∀ middle next, middle.Passes ts next → next.buffered.tightness < 12 →
      if middle.buffered.kind = .symbol .parenOpen then
        ∃ arguments, Yields ((bounded digits depth).read enclosing .expressionList) middle
          arguments next ∧ tree = .callStatic type (some type.payload) name.payload arguments
      else tree = .getStatic type type.payload name.payload ∧ next = middle) :
    (bounded digits (depth + 2)).Covers enclosing (type :: dot :: name :: ts) (.primary tree) := by
  intro stream next hpasses htight
  obtain ⟨s₁, hhands₁, hback⟩ := Passes.cons_iff.mp hpasses
  obtain ⟨s₂, hhands₂, hback⟩ := Passes.cons_iff.mp hback
  obtain ⟨s₃, hhands₃, hts⟩ := Passes.cons_iff.mp hback
  obtain rfl := hhands₁.buffered_eq
  rw [bounded_succ_read]
  refine yields_primary.mpr ⟨s₁, hhands₁, ?_⟩
  simp only [htype]
  rw [bounded_succ_read]
  exact yields_staticMember.mpr ⟨dot, hdot, s₂, hhands₂, name, hname, s₃, hhands₃,
    hmember _ _ hts htight⟩

theorem staticField {type dot name : Token} (htype : type.kind = .typename)
    (hdot : dot.kind = .symbol .dot) (hname : name.kind = .name) :
    (bounded digits (depth + 2)).Covers enclosing [type, dot, name]
      (.primary (.getStatic type type.payload name.payload)) := by
  refine ofStaticMember htype hdot hname fun middle next hpasses htight => ?_
  obtain rfl := Passes.nil_iff.mp hpasses
  rw [if_neg (Token.kind_ne_of_tightness htight (by decide))]
  exact ⟨rfl, rfl⟩

theorem staticCall {type dot name : Token} {arguments : List (Expr Token)}
    (htype : type.kind = .typename) (hdot : dot.kind = .symbol .dot) (hname : name.kind = .name)
    (hderives : Derives enclosing (.arguments arguments) ts)
    (harguments : (bounded digits depth).Covers enclosing ts (.arguments arguments)) :
    (bounded digits (depth + 2)).Covers enclosing (type :: dot :: name :: ts)
      (.primary (.callStatic type (some type.payload) name.payload arguments)) := by
  refine ofStaticMember htype hdot hname fun middle next hpasses _ => ?_
  rw [if_pos (shows_parenOpen hderives hpasses)]
  exact ⟨arguments, harguments _ _ hpasses trivial, rfl⟩

/-- What begins with a name is read after the name. -/
theorem ofNamed {name : Token} (hname : name.kind = .name)
    (hnamed : ∀ middle next, middle.Passes ts next → next.buffered.tightness < 12 →
      Yields ((bounded digits depth).named enclosing name) middle tree next) :
    (bounded digits (depth + 1)).Covers enclosing (name :: ts) (.primary tree) := by
  intro stream next hpasses htight
  obtain ⟨middle, hhands, hts⟩ := Passes.cons_iff.mp hpasses
  obtain rfl := hhands.buffered_eq
  rw [bounded_succ_read]
  refine yields_primary.mpr ⟨middle, hhands, ?_⟩
  simp only [hname]
  exact hnamed _ _ hts htight

theorem new {word type : Token} {arguments : List (Expr Token)} (hword : word.kind = .name)
    (hnew : word.data = some "new") (htype : type.kind = .typename)
    (harguments : (bounded digits depth).Covers enclosing ts (.arguments arguments)) :
    (bounded digits (depth + 1)).Covers enclosing (word :: type :: ts)
      (.primary (.new word type.payload arguments)) := by
  refine ofNamed hword fun middle next hpasses _ => ?_
  obtain ⟨after, hhands, hts⟩ := Passes.cons_iff.mp hpasses
  rw [yields_named, if_pos ⟨hnew, hhands.buffered_eq ▸ htype⟩]
  exact ⟨type, htype, after, hhands, arguments, harguments _ _ hts trivial, rfl⟩

theorem ownCall {name : Token} {arguments : List (Expr Token)} (hname : name.kind = .name)
    (hderives : Derives enclosing (.arguments arguments) ts)
    (harguments : (bounded digits depth).Covers enclosing ts (.arguments arguments)) :
    (bounded digits (depth + 1)).Covers enclosing (name :: ts)
      (.primary (.callStatic name enclosing name.payload arguments)) := by
  refine ofNamed hname fun middle next hpasses _ => ?_
  have hopening := shows_parenOpen hderives hpasses
  rw [yields_named, if_neg (by simp [hopening]), yields_callOrName, if_pos hopening]
  exact ⟨arguments, harguments _ _ hpasses trivial, rfl⟩

theorem name {token : Token} (hname : token.kind = .name) :
    (bounded digits (depth + 1)).Covers enclosing [token] (.primary (.name token token.payload)) := by
  refine ofNamed hname fun middle next hpasses htight => ?_
  obtain rfl := Passes.nil_iff.mp hpasses
  have htypename : next.buffered.kind ≠ .typename :=
    Token.kind_ne_of_tightness htight (by decide)
  rw [yields_named, if_neg (by simp [htypename]), yields_callOrName,
    if_neg (Token.kind_ne_of_tightness htight (by decide))]
  exact ⟨rfl, rfl⟩

theorem arguments {trees : List (Expr Token)}
    (htrees : Parenthesized (fun ts tree => Derives enclosing (.assignment tree) ts ∧
      (bounded digits depth).Reads enclosing (.assignment none) ts tree (·.tightness < 1)) ts trees) :
    (bounded digits (depth + 2)).Covers enclosing ts (.arguments trees) := by
  intro stream next hpasses _
  rw [bounded_succ_read]
  refine Complete.parenthesizedList (·.tightness < 1) ?_ ?_ ?_ ?_ _ _
    htrees _ _ hpasses trivial
  · exact fun us tree ⟨_, htree⟩ stream next hus htight => htree _ _ hus htight
  · exact fun token hkind => Token.tightness_lt_of_mark hkind (by decide)
  · exact fun token hkind => Token.tightness_lt_of_mark hkind (by decide)
  · intro us tree ⟨hderives, _⟩
    obtain ⟨token, rest, rfl, hstart⟩ := hderives.head
    refine ⟨token, rest, rfl, fun hkind => ?_⟩
    simp [hkind, Phrase.starts, expressionStarts, operandStarts] at hstart

end Covers

/-- Every phrase is read at every sufficient depth. -/
theorem covers_of_derives {phrase : Phrase} (hderives : Derives enclosing phrase ts)
    (hfits : ∀ token ∈ ts, token.Fits digits) :
    ∀ᶠ depth in atTop, (bounded digits depth).Covers enclosing ts phrase := by
  induction hderives
  -- The tokens of a phrase fit if those of its parts do.
  any_goals
    simp only [List.cons_append, List.append_assoc, List.forall_mem_append, List.forall_mem_cons]
      at hfits
  case ofConditional ih =>
    refine eventually_of_further 1 ?_
    filter_upwards [ih hfits] with depth htree
    exact htree.ofConditional
  case assignName hkind _ ihtarget ihvalue | assignField hkind _ ihtarget ihvalue
    | assignStatic hkind _ ihtarget ihvalue =>
    refine eventually_of_further 1 ?_
    filter_upwards [ihtarget hfits.1, ihvalue hfits.2.2] with depth htarget hvalue
    exact htarget.assigned hkind (by decide) hvalue rfl
  case assignCompound hlegal _ hkind hmem _ ihtarget ihvalue =>
    refine eventually_of_further 1 ?_
    filter_upwards [ihtarget hfits.1, ihvalue hfits.2.2] with depth htarget hvalue
    exact htarget.assigned hkind (List.mem_cons_of_mem _ hmem) hvalue
      (hlegal.assigned?_compound hmem)
  case ofBinary ih =>
    refine eventually_of_further 2 ?_
    filter_upwards [eventually_further (ih hfits) 1] with depth htree
    exact htree.ofBinary
  case choice hquestion _ hcolon _ ihcondition ihholds ihfails =>
    refine eventually_of_further 2 ?_
    filter_upwards [eventually_further (ihcondition hfits.1) 1, ihholds hfits.2.2.1,
      eventually_further (ihfails hfits.2.2.2.2) 1] with depth hcondition hholds hfails
    simpa using hcondition.choice hquestion hholds hcolon hfails
  case ofTighter ih =>
    filter_upwards [ih hfits] with depth htree
    exact htree.ofTighter
  case join hkind hmem _ ihleft ihright =>
    refine eventually_of_further 2 ?_
    filter_upwards [eventually_further (ihleft hfits.1) 2, eventually_further (ihright hfits.2.2) 1]
      with depth hleft hright
    exact hleft.join hkind hmem hright
  case ofUnary ih =>
    refine eventually_of_further 1 ?_
    filter_upwards [ih hfits] with depth htree
    exact htree.ofUnary
  case leading hkind hmem _ ih =>
    refine eventually_of_further 1 ?_
    filter_upwards [ih hfits.2] with depth hoperand
    exact .leading hkind hmem hoperand
  case ofSuffixed hderives ih =>
    refine eventually_of_further 3 ?_
    filter_upwards [eventually_further (ih hfits) 2] with depth htree
    exact htree.ofSuffixed hderives.head
  case trailing hkind hmem ih =>
    refine eventually_of_further 2 ?_
    filter_upwards [eventually_further (ih hfits.1) 2] with depth hoperand
    exact hoperand.trailing hkind hmem
  case ofMember ih =>
    filter_upwards [ih hfits] with depth htree
    exact htree.ofMember
  case field hdot hname ih =>
    refine eventually_of_further 2 ?_
    filter_upwards [eventually_further (ih hfits.1) 2] with depth howner
    exact howner.field hdot hname
  case call hdot hname harguments ihowner iharguments =>
    refine eventually_of_further 2 ?_
    filter_upwards [eventually_further (ihowner hfits.1) 2, iharguments hfits.2.2.2]
      with depth howner hread
    exact howner.call hdot hname harguments hread
  case ofPrimary ih =>
    refine eventually_of_further 1 ?_
    filter_upwards [ih hfits] with depth htree
    exact htree.ofPrimary
  case this hkind | true hkind | false hkind | null hkind | float hkind | string hkind =>
    refine eventually_of_further 1 (.of_forall fun depth => ?_)
    refine .literal fun stream next hshown hhands => ?_
    exact yields_primary.mpr ⟨next, hshown ▸ hhands, by simp [hshown, hkind]⟩
  case int hkind =>
    refine eventually_of_further 1 (.of_forall fun depth => ?_)
    refine .literal fun stream next hshown hhands => yields_primary.mpr ⟨next, hshown ▸ hhands, ?_⟩
    simp only [hshown, hkind]
    refine yields_integer.mpr ⟨?_, rfl, rfl⟩
    rw [integerDigits_bounded]
    exact hfits.1 hkind
  case parenthesized hopening _ hclosing ih =>
    refine eventually_of_further 2 ?_
    filter_upwards [ih hfits.2.1] with depth htree
    exact .parenthesized hopening htree hclosing
  case staticField htype hdot hname =>
    exact eventually_of_further 2 (.of_forall fun depth => .staticField htype hdot hname)
  case staticCall htype hdot hname harguments ih =>
    refine eventually_of_further 2 ?_
    filter_upwards [ih hfits.2.2.2] with depth hread
    exact .staticCall htype hdot hname harguments hread
  case new hword hnew htype _ ih =>
    refine eventually_of_further 1 ?_
    filter_upwards [ih hfits.2.2] with depth hread
    exact .new hword hnew htype hread
  case ownCall hname harguments ih =>
    refine eventually_of_further 1 ?_
    filter_upwards [ih hfits.2] with depth hread
    exact .ownCall hname harguments hread
  case name hname =>
    exact eventually_of_further 1 (.of_forall fun depth => .name hname)
  case noArguments hopening hclosing =>
    exact eventually_of_further 2 (.of_forall fun depth => .arguments (.empty hopening hclosing))
  case someArguments hopening _ hclosing ih =>
    refine eventually_of_further 2 ?_
    filter_upwards [ih hfits.2.1] with depth htrees
    exact .arguments (.items hopening htrees hclosing)
  case single hderives ih =>
    filter_upwards [ih hfits] with depth htree
    exact .single ⟨hderives, htree⟩
  case more hderives hcomma _ ihfirst ihrest =>
    filter_upwards [ihfirst hfits.1, ihrest hfits.2.2] with depth hfirst hrest
    exact .more ⟨hderives, hfirst⟩ hcomma hrest

end Level

end ClassLang
