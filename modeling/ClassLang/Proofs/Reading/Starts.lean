import ClassLang.Proofs.Reading.Agreement
import ClassLang.Proofs.Stream.Munch
import ClassLang.Proofs.Syntax.Phrase

/-! # Where nodes start

A node is tagged with the token it starts at, and then no node in it is tagged with one before.
Members of objects are the exception: they are tagged with their point, which stands behind the
owner, and so is what takes over its tag from a first operand that is such a member. Parentheses
around an operand belong to no node.
-/

namespace ClassLang

open Syntax

/-- The expression is a member of an object, or its first operand begins with one. -/
inductive Expr.BeginsWithMember {ι : Type} : Expr ι → Prop
  | get {tag owner name} : BeginsWithMember (.get tag owner name)
  | set {tag owner name value} : BeginsWithMember (.set tag owner name value)
  | call {tag owner name arguments} : BeginsWithMember (.call tag owner name arguments)
  | choice {tag first rest} : BeginsWithMember first →
      BeginsWithMember (.operator tag .conditional (first :: rest))
  | between {tag symbol first second rest} : BeginsWithMember first →
      BeginsWithMember (.operator tag (.symbol symbol) (first :: second :: rest))
  | trailing {tag symbol operand} : symbol ∈ [Symbol.increment, .decrement] →
      BeginsWithMember operand → BeginsWithMember (.operator tag (.symbol symbol) [operand])

/-- The node is an expression that begins with a member of an object. -/
def Node.BeginsWithMember {ι : Type} : Node ι → Prop
  | .expr tree => tree.BeginsWithMember
  | _ => False

/-- The first of its tokens that belongs to the node. -/
def Node.first? (ts : List Token) : Node Token → Option Token
  | .expr _ => ts.find? (·.kind ≠ .symbol .parenOpen)
  | _ => ts.head?

variable {enclosing : Option String} {ts : List Token} {node : Node Token}

/-- Where an expression starts: at a token with which a node in it is tagged. The expression itself
is tagged with it, unless it begins with a member, when it is tagged with a point behind. -/
structure Expr.Starts (ts : List Token) (tree : Expr Token) (first : Token) : Prop where
  find? : ts.find? (·.kind ≠ .symbol .parenOpen) = some first
  ne_dot : first.kind ≠ .symbol .dot
  tag_mem : tree.tag ∈ ts
  tag_eq : ¬ tree.BeginsWithMember → tree.tag = first
  tag_dot : tree.BeginsWithMember → tree.tag.kind = .symbol .dot
  within : ∃ node : Node Token, node.Within (.expr tree) ∧ node.tag = first

namespace Expr

variable {tree part : Expr Token} {token : Token} {us : List Token}

theorem Starts.of_tag (htag : tree.tag = token)
    (hkind : token.kind ∉ [.symbol .parenOpen, .symbol .dot])
    (hmember : ¬ tree.BeginsWithMember) : tree.Starts (token :: us) token where
  find? := by simp_all
  ne_dot := by simp_all
  tag_mem := htag ▸ List.mem_cons_self
  tag_eq _ := htag
  tag_dot hbegins := absurd hbegins hmember
  within := ⟨_, .refl, htag⟩

/-- What takes over the tag of its first operand starts where this one does. -/
theorem Starts.append (hpart : part.Starts ts token) (htag : tree.tag = part.tag)
    (hmember : tree.BeginsWithMember ↔ part.BeginsWithMember)
    (hwithin : ∃ node : Node Token, node.Within (.expr tree) ∧ node.tag = token) :
    tree.Starts (ts ++ us) token where
  find? := by rw [List.find?_append, hpart.find?, Option.some_or]
  ne_dot := hpart.ne_dot
  tag_mem := htag ▸ List.mem_append_left us hpart.tag_mem
  tag_eq hbegins := htag.trans (hpart.tag_eq (hmember.not.mp hbegins))
  tag_dot hbegins := htag ▸ hpart.tag_dot (hmember.mp hbegins)
  within := hwithin

theorem Starts.of_first (hpart : part.Starts ts token) (hmem : part ∈ tree.parts)
    (htag : tree.tag = part.tag) (hmember : tree.BeginsWithMember ↔ part.BeginsWithMember) :
    tree.Starts (ts ++ us) token := by
  obtain ⟨node, hwithin, hnode⟩ := hpart.within
  exact hpart.append htag hmember ⟨node, hwithin.of_mem_parts hmem, hnode⟩

/-- A member of an object starts where the object does. -/
theorem Starts.of_owner {dot : Token} (hpart : part.Starts ts token) (hmem : part ∈ tree.parts)
    (htag : tree.tag = dot) (hdot : dot.kind = .symbol .dot) (hmember : tree.BeginsWithMember) :
    tree.Starts (ts ++ dot :: us) token where
  find? := by rw [List.find?_append, hpart.find?, Option.some_or]
  ne_dot := hpart.ne_dot
  tag_mem := by simp [htag]
  tag_eq hbegins := absurd hmember hbegins
  tag_dot _ := htag ▸ hdot
  within := by
    obtain ⟨node, hwithin, hnode⟩ := hpart.within
    exact ⟨node, hwithin.of_mem_parts hmem, hnode⟩

/-- Parentheses change nothing about where an expression starts. -/
theorem Starts.parenthesized {opening : Token} (hopening : opening.kind = .symbol .parenOpen)
    (hstarts : tree.Starts ts token) : tree.Starts (opening :: ts ++ us) token where
  find? := by
    rw [List.cons_append, List.find?_cons_of_neg (by simp [hopening]), List.find?_append,
      hstarts.find?, Option.some_or]
  ne_dot := hstarts.ne_dot
  tag_mem := by simp [hstarts.tag_mem]
  tag_eq := hstarts.tag_eq
  tag_dot := hstarts.tag_dot
  within := hstarts.within

end Expr

/-- Every expression starts at some token. -/
theorem Syntax.Derives.starts {phrase : Phrase} (hderives : Derives enclosing phrase ts) :
    phrase.Holds fun tree => ∃ first, tree.Starts ts first := by
  induction hderives with
  | ofConditional _ ih | ofBinary _ ih | ofTighter _ ih | ofUnary _ ih | ofSuffixed _ ih
  | ofMember _ ih | ofPrimary _ ih => exact ih
  | this hkind | true hkind | false hkind | null hkind | int hkind | float hkind | string hkind
  | name hkind | staticField hkind | staticCall hkind | new hkind | ownCall hkind =>
      exact ⟨_, .of_tag rfl (by simp [hkind]) (by rintro ⟨⟩)⟩
  | leading hkind hsymbol =>
      simp only [List.mem_cons, List.not_mem_nil, or_false] at hsymbol
      refine ⟨_, .of_tag rfl ?_ ?_⟩
      · rcases hsymbol with rfl | rfl <;> simp [hkind]
      · rintro (_ | _ | _ | _ | _ | ⟨htrailing, _⟩)
        rcases hsymbol with rfl | rfl <;> simp at htrailing
  | assignName _ _ _ ih | assignStatic _ _ _ ih =>
      obtain ⟨first, hstarts⟩ := ih
      have htag := hstarts.tag_eq (by rintro ⟨⟩)
      exact ⟨first, hstarts.append rfl (iff_of_false (by rintro ⟨⟩) (by rintro ⟨⟩))
        ⟨_, .refl, htag⟩⟩
  | assignField _ _ _ ih =>
      obtain ⟨first, hstarts⟩ := ih
      refine ⟨first, hstarts.append rfl (iff_of_true .set .get) ?_⟩
      -- what starts the target is not the target, whose token is a point, but in the owner
      obtain ⟨node, hnode, rfl⟩ := hstarts.within
      cases hnode with
      | refl => exact absurd (hstarts.tag_dot .get) hstarts.ne_dot
      | child hchild hwithin =>
          obtain rfl := List.mem_singleton.mp hchild
          exact ⟨node, hwithin.of_mem_parts List.mem_cons_self, rfl⟩
  | assignCompound _ _ _ _ _ ih | join _ _ _ _ ih =>
      obtain ⟨first, hstarts⟩ := ih
      refine ⟨first, hstarts.of_first List.mem_cons_self rfl ⟨?_, .between⟩⟩
      rintro ⟨⟩
      assumption
  | choice _ _ _ _ _ ih =>
      obtain ⟨first, hstarts⟩ := ih
      rw [List.append_assoc]
      refine ⟨first, hstarts.of_first List.mem_cons_self rfl ⟨?_, .choice⟩⟩
      rintro ⟨⟩
      assumption
  | trailing _ _ hsymbol ih =>
      obtain ⟨first, hstarts⟩ := ih
      refine ⟨first, hstarts.of_first List.mem_cons_self rfl ⟨?_, .trailing hsymbol⟩⟩
      rintro ⟨⟩
      assumption
  | field _ hdot _ ih =>
      obtain ⟨first, hstarts⟩ := ih
      exact ⟨first, hstarts.of_owner List.mem_cons_self rfl hdot .get⟩
  | call _ hdot _ _ ih =>
      obtain ⟨first, hstarts⟩ := ih
      exact ⟨first, hstarts.of_owner List.mem_cons_self rfl hdot .call⟩
  | parenthesized hopening _ _ ih =>
      obtain ⟨first, hstarts⟩ := ih
      exact ⟨first, hstarts.parenthesized hopening⟩
  | noArguments | someArguments | single | more => trivial

/-! ## Statements and declarations -/

theorem head?_append_cons {α : Type} {front back : List α} {value : α} :
    (front ++ value :: back).head? = some (front.headD value) := by
  cases front <;> rfl

theorem Syntax.IsSimple.head?_eq {tree : Stmt Token} (hsimple : IsSimple enclosing ts tree) :
    ts.head? = some tree.tag := by
  cases hsimple <;> rfl

theorem Syntax.DerivesStmt.head?_eq {tree : Stmt Token}
    (hstatement : DerivesStmt enclosing (.statement tree) ts) : ts.head? = some tree.tag := by
  cases hstatement with
  | ofBlock hblock =>
      cases hblock
      rfl
  | ofChoice hchoice => cases hchoice <;> rfl
  | ofSimple hsimple => rw [List.head?_append, hsimple.head?_eq, Option.some_or]
  | whileLoop | forLoop | returnValue | breakLoop | continueLoop => rfl

/-- A node that is no expression is tagged with the first of its tokens. -/
theorem Syntax.IsPhrase.head?_eq (hphrase : IsPhrase enclosing ts node)
    (hexpr : ∀ tree, node ≠ .expr tree) : ts.head? = some node.tag := by
  cases hphrase with
  | expr => exact absurd rfl (hexpr _)
  | stmt hstatement => exact hstatement.head?_eq
  | simple hsimple => exact hsimple.head?_eq
  | argument hargument =>
      cases hargument
      rfl
  -- what may stand before the first token that must be there is the tag instead, if it is there
  | field hdecl | method hdecl =>
      cases hdecl
      rw [List.append_assoc]
      exact head?_append_cons
  | stub hdecl | classDecl hdecl | interfaceDecl hdecl =>
      cases hdecl
      simp only [List.append_assoc, List.cons_append]
      exact head?_append_cons

/-! ## The order of tags -/

theorem eq_or_pos_lt_of_find? {p : Token → Bool} {first token : Token}
    (hsorted : ts.Pairwise (·.pos < ·.pos)) (hfind : ts.find? p = some first) (hmem : token ∈ ts)
    (htoken : p token) : token = first ∨ first.pos < token.pos := by
  obtain ⟨-, before, after, rfl, hbefore⟩ := List.find?_eq_some_iff_append.mp hfind
  rcases List.mem_append.mp hmem with hmem | hmem
  · simpa [htoken] using hbefore token hmem
  · rcases List.mem_cons.mp hmem with rfl | hmem
    · exact .inl rfl
    · exact .inr ((List.pairwise_cons.mp (List.pairwise_append.mp hsorted).2.1).1 token hmem)

namespace Syntax

/-- A node is tagged with one of its tokens. -/
theorem IsPhrase.tag_mem (hphrase : IsPhrase enclosing ts node) : node.tag ∈ ts := by
  cases node with
  | expr tree =>
      obtain ⟨first, hstarts⟩ := Derives.starts hphrase.isExpression
      exact hstarts.tag_mem
  | _ => exact List.mem_of_mem_head? (hphrase.head?_eq (by rintro _ ⟨⟩))

theorem HasPhrase.tag_mem (hphrase : HasPhrase enclosing ts node) : node.tag ∈ ts := by
  obtain ⟨us, hstretch, hphrase⟩ := hphrase
  exact hstretch.subset hphrase.tag_mem

end Syntax

/-- No expression is tagged with a parenthesis. -/
theorem Expr.Starts.tag_ne_paren {tree : Expr Token} {first : Token}
    (hstarts : tree.Starts ts first) : tree.tag.kind ≠ .symbol .parenOpen := by
  by_cases hbegins : tree.BeginsWithMember
  · rw [hstarts.tag_dot hbegins]
    decide
  · rw [hstarts.tag_eq hbegins]
    simpa using List.find?_some hstarts.find?

/-- A node is tagged with the first of its tokens, and no node in it is tagged with one before,
unless it begins with a member of an object. Then it is tagged with a point, and neither holds. -/
structure Node.StartsUnlessMember (ts : List Token) (node : Node Token) : Prop where
  first : node.first? ts = some node.tag ↔ ¬ node.BeginsWithMember
  foremost : (∀ other : Node Token, other.Within node → node.tag.pos ≤ other.tag.pos) ↔
    ¬ node.BeginsWithMember
  point : node.BeginsWithMember → node.tag.kind = .symbol .dot

theorem Expr.Starts.startsUnlessMember {tree : Expr Token} {first : Token}
    (hsorted : ts.Pairwise (·.pos < ·.pos)) (hexpression : IsExpression enclosing ts tree)
    (hstarts : tree.Starts ts first) : (Node.expr tree).StartsUnlessMember ts where
  first := by
    simp only [Node.first?, hstarts.find?, Option.some.injEq]
    constructor
    · rintro rfl hbegins
      exact hstarts.ne_dot (hstarts.tag_dot hbegins)
    · intro hbegins
      exact (hstarts.tag_eq hbegins).symm
  foremost := by
    constructor
    · intro hforemost hbegins
      obtain ⟨node, hnode, rfl⟩ := hstarts.within
      have hle := hforemost node hnode
      rcases eq_or_pos_lt_of_find? hsorted hstarts.find? hstarts.tag_mem
        (by simp [hstarts.tag_ne_paren]) with heq | hlt
      · exact hstarts.ne_dot (heq ▸ hstarts.tag_dot hbegins)
      · exact absurd hlt (Nat.not_lt_of_le hle)
    · intro hbegins other hother
      have hphrase := (IsPhrase.expr hexpression).hasPhrase.within hother
      obtain ⟨part, rfl⟩ := hother.exists_expr
      obtain ⟨us, hstretch, hphrase⟩ := hphrase
      obtain ⟨_, hpart⟩ := Derives.starts hphrase.isExpression
      change tree.tag.pos ≤ part.tag.pos
      rw [hstarts.tag_eq hbegins]
      rcases eq_or_pos_lt_of_find? hsorted hstarts.find? (hstretch.subset hpart.tag_mem)
        (by simp [hpart.tag_ne_paren]) with heq | hlt
      · rw [heq]
      · exact Nat.le_of_lt hlt
  point := hstarts.tag_dot

/-- What is tagged with the first of its tokens, and with none but its tokens further in, starts
there. -/
theorem Node.startsUnlessMember_of_head? (hexpr : ∀ tree, node ≠ .expr tree)
    (hsorted : ts.Pairwise (·.pos < ·.pos)) (hhead : ts.head? = some node.tag)
    (htags : ∀ other : Node Token, other.Within node → other.tag ∈ ts) :
    node.StartsUnlessMember ts := by
  have hbegins : ¬ node.BeginsWithMember := by
    cases node <;> simp_all [Node.BeginsWithMember]
  have hfirst : node.first? ts = ts.head? := by
    cases node <;> simp_all [Node.first?]
  refine ⟨iff_of_true (hfirst.trans hhead) hbegins, iff_of_true (fun other hother => ?_) hbegins,
    fun hmember => absurd hmember hbegins⟩
  obtain ⟨rest, rfl⟩ := List.head?_eq_some_iff.mp hhead
  rcases List.mem_cons.mp (htags other hother) with heq | hmem
  · rw [heq]
  · exact Nat.le_of_lt ((List.pairwise_cons.mp hsorted).1 _ hmem)

theorem Syntax.IsPhrase.startsUnlessMember (hsorted : ts.Pairwise (·.pos < ·.pos))
    (hphrase : IsPhrase enclosing ts node) : node.StartsUnlessMember ts := by
  have htags (other : Node Token) (hother : other.Within node) : other.tag ∈ ts :=
    (hphrase.hasPhrase.within hother).tag_mem
  cases node with
  | expr tree =>
      obtain ⟨first, hstarts⟩ := Derives.starts hphrase.isExpression
      exact hstarts.startsUnlessMember hsorted hphrase.isExpression
  | _ =>
      have hhead := hphrase.head?_eq (by rintro _ ⟨⟩)
      exact Node.startsUnlessMember_of_head? (by rintro _ ⟨⟩) hsorted hhead htags

/-! ## Whole texts -/

/-- The node stands for the tokens. To a program the end of the text belongs as well. -/
def Node.StandsFor (ts : List Token) : Node Token → Prop
  | .program tree => ∃ front last, ts = front ++ [last] ∧ IsProgram front last tree
  | node => ∃ enclosing, IsPhrase enclosing ts node

/-- The tokens in a row have a stretch that the node stands for, and in which it starts. -/
def Node.StartsAmong (tokens : List Token) (node : Node Token) : Prop :=
  ∃ ts, ts <:+: tokens ∧ node.StandsFor ts ∧ node.StartsUnlessMember ts

theorem Syntax.HasPhrase.startsAmong {tokens : List Token} (hstretch : ts <:+: tokens)
    (hsorted : tokens.Pairwise (·.pos < ·.pos)) (hphrase : HasPhrase enclosing ts node) :
    node.StartsAmong tokens := by
  obtain ⟨us, hus, hphrase⟩ := hphrase
  have hstarts := hphrase.startsUnlessMember (hsorted.sublist (hus.trans hstretch).sublist)
  refine ⟨us, hus.trans hstretch, ?_, hstarts⟩
  cases node with
  | program => cases hphrase
  | _ => exact ⟨enclosing, hphrase⟩

theorem Syntax.IsProgram.startsAmong {last : Token} {program : Program Token}
    (hsorted : (ts ++ [last]).Pairwise (·.pos < ·.pos)) (hprogram : IsProgram ts last program)
    (hnode : node.Within (.program program)) : node.StartsAmong (ts ++ [last]) := by
  have hfront : ts <:+: ts ++ [last] := (List.prefix_append ts [last]).isInfix
  obtain rfl | ⟨_, _, _, hphrase⟩ := hprogram.hasPhrase hnode
  · refine ⟨ts ++ [last], List.infix_rfl, ⟨ts, last, rfl, hprogram⟩, ?_⟩
    have hhead : (ts ++ [last]).head? = some program.tag := by
      cases hprogram
      exact head?_append_cons
    refine Node.startsUnlessMember_of_head? (by rintro _ ⟨⟩) hsorted hhead fun other hother => ?_
    obtain rfl | ⟨_, _, _, hphrase⟩ := hprogram.hasPhrase hother
    · exact List.mem_of_mem_head? hhead
    · exact hfront.subset hphrase.tag_mem
  · exact hphrase.startsAmong hfront hsorted

/-- Every node that is read starts at the token with which it is tagged, exactly if it does not
begin with a member of an object. -/
theorem read_starts (source : Source) :
    (∀ program, Program.read source = .ok program →
      ∃ tokens, TokenStream.tokens source = .ok tokens ∧
        ∀ node : Node Token, node.Within (.program program) → node.StartsAmong tokens) ∧
    ∀ tree, Expr.read source = .ok tree →
      ∃ tokens, TokenStream.tokens source = .ok tokens ∧
        ∀ node : Node Token, node.Within (.expr tree) → node.StartsAmong tokens := by
  constructor
  · intro program hread
    obtain ⟨front, last, htokens, hprogram⟩ := Program.isProgram_of_read hread
    exact ⟨_, htokens, fun node hnode =>
      hprogram.startsAmong (TokenStream.pairwise_of_tokens htokens) hnode⟩
  · intro tree hread
    obtain ⟨front, last, htokens, hexpression⟩ := Expr.isExpression_of_read hread
    exact ⟨_, htokens, fun node hnode =>
      ((IsPhrase.expr hexpression).hasPhrase.within hnode).startsAmong
        (List.prefix_append front [last]).isInfix (TokenStream.pairwise_of_tokens htokens)⟩

/-- The nodes of a sum, of which one operand is in parentheses and the other a member. -/
theorem read_starts_sum :
    let source := Source.ofString "<expression>" "(a) + b.c"
    let tokens : List Token :=
      [⟨.symbol .parenOpen, none, 0, 1⟩, ⟨.name, some "a", 1, 2⟩, ⟨.symbol .parenClose, none, 2, 3⟩,
        ⟨.symbol .plus, none, 4, 5⟩, ⟨.name, some "b", 6, 7⟩, ⟨.symbol .dot, none, 7, 8⟩,
        ⟨.name, some "c", 8, 9⟩, .endOfText 9]
    ∃ tree, Expr.read source = .ok tree ∧
      ∀ node : Node Token, node.Within (.expr tree) → node.StartsAmong tokens := by
  intro source tokens
  have hread : (Expr.read source).isOk = true := by decide +kernel
  have htokens : TokenStream.tokens source = .ok tokens := by decide +kernel
  cases hresult : Expr.read source with
  | error failure => simp [hresult, Except.isOk, Except.toBool] at hread
  | ok tree =>
      obtain ⟨tokens', htokens', hstarts⟩ := (read_starts source).2 tree hresult
      obtain rfl := Except.ok.inj (htokens.symm.trans htokens')
      exact ⟨tree, rfl, hstarts⟩

/-- The member of an object is tagged with the point, and the object in it with a token before. -/
theorem member_starts_behind_owner :
    let source := Source.ofString "<expression>" "a.b"
    ¬ ∀ tree, Expr.read source = .ok tree → ∀ node other : Node Token,
      node.Within (.expr tree) → other.Within node → node.tag.pos ≤ other.tag.pos := by
  intro source hforemost
  have htags : ∃ tree ∈ (Expr.read source).toOption,
      tree.tag = ⟨.symbol .dot, none, 1, 2⟩ ∧ ∃ part ∈ tree.parts, part.tag.pos = 0 := by
    decide +kernel
  obtain ⟨tree, htree, htag, part, hpart, hpos⟩ := htags
  have hle := hforemost tree (Parser.eq_ok_of_mem_toOption htree) (.expr tree) (.expr part) .refl
    (Node.Within.refl.of_mem_parts hpart)
  change tree.tag.pos ≤ part.tag.pos at hle
  rw [htag, hpos] at hle
  exact absurd hle (by decide)

end ClassLang
