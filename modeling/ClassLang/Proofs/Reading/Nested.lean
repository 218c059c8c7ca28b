import ClassLang.Proofs.Reading.Chain
import ClassLang.Proofs.Rendering.Text
import ClassLang.Proofs.Tree.Levels
import ClassLang.Proofs.Tree.Within

/-! # Nested loops

One loop in the other, with nothing else in them. With every loop two more rules nest in reading,
and the tree has two more levels. So the limit on the nesting of rules lets trees pass that have
more than nine hundred levels.
-/

namespace ClassLang

open Scan Syntax TokenStream ClassLang.Parser

/-- Loops in each other, or nothing if there are none. -/
def nestedLoops : (loops : Nat) → List Lexeme
  | 0 => []
  | loops + 1 =>
      [.ofKeyword .while, .ofSymbol .parenOpen, .ofKeyword .true, .ofSymbol .parenClose,
        .ofSymbol .braceOpen] ++ (nestedLoops loops ++ [.ofSymbol .braceClose])

/-- A class with one method, and loops in it. -/
def loopClass (loops : Nat) : List Lexeme :=
  [.ofKeyword .class, .ofTypename "Ab", .ofSymbol .braceOpen, .ofTypename "void", .ofName "f",
      .ofSymbol .parenOpen, .ofSymbol .parenClose, .ofSymbol .braceOpen] ++
    (nestedLoops loops ++ [.ofSymbol .braceClose, .ofSymbol .braceClose])

theorem readable_nestedLoops (loops : Nat) : Readable (nestedLoops loops) := by
  induction loops with
  | zero => simp [nestedLoops]
  | succ loops ih => simp [nestedLoops, ih]

theorem readable_loopClass (loops : Nat) : Readable (loopClass loops) := by
  have htype : (Lexeme.ofTypename "Ab").Readable := readable_ofTypename (by decide)
  have hvoid : (Lexeme.ofTypename "void").Readable := readable_ofTypename (by decide)
  have hname : (Lexeme.ofName "f").Readable := readable_ofName (by decide)
  simp [loopClass, readable_nestedLoops, htype, hvoid, hname]

namespace Level

variable {digits : Option Nat} {enclosing : Option String} {tokens : List Token}

/-- The word `true` alone is an expression, which nests seven rules. -/
theorem readsExpression_true {token : Token} (hkind : token.kind = .keyword .true) (depth : Nat) :
    (bounded digits (depth + 7)).ReadsExpression enclosing [token] (.bool token true) := by
  have hprimary : Derives enclosing (.primary (.bool token true)) [token] := .true hkind
  have hunary : Derives enclosing (.unary (.bool token true)) [token] :=
    hprimary.ofPrimary.ofMember.ofSuffixed
  have hstart : token.kind ∈ operandStarts := hkind ▸ by decide
  have hcovers : (bounded digits (depth + 1)).Covers enclosing [token]
      (.primary (.bool token true)) :=
    covers_single hprimary (fun hint => by simp [hkind] at hint) depth
  have htightest : (bounded digits (depth + 4)).Covers enclosing [token]
      (.binary 7 (.bool token true)) :=
    (hcovers.ofPrimary.ofMember.ofSuffixed ⟨token, [], rfl, hstart⟩).ofUnary
  -- there are no operators of any of the six precedences
  have hloosest : (bounded digits (depth + 4)).Covers enclosing [token]
      (.binary 1 (.bool token true)) :=
    htightest.ofTighter.ofTighter.ofTighter.ofTighter.ofTighter.ofTighter
  refine ⟨(hunary.ofUnary.looser (by decide)).ofBinary.ofConditional, ?_⟩
  intro stream next hpasses htight
  rw [bounded_succ_read]
  exact hloosest.ofBinary.ofConditional stream next hpasses htight

/-- Every loop nests two more rules and is two more levels down. -/
theorem covers_nestedLoops {loops : Nat} (hshows : Shows (nestedLoops loops) tokens) :
    ∃ trees : List (Stmt Token), DerivesStmt enclosing (.sequence trees) tokens ∧
      (∀ opening, (Node.stmt (.block opening trees)).Descends (2 * loops)) ∧
      ∀ depth, (bounded digits (depth + 2 * loops + 7)).CoversStmt enclosing tokens
        (.sequence trees) := by
  induction loops generalizing tokens with
  | zero =>
      obtain rfl := shows_nil_iff.mp hshows
      exact ⟨[], .nil, fun _ => .stay, fun _ => .nil⟩
  | succ loops ih =>
      obtain ⟨front, _, rfl, hfront, hback⟩ := shows_append_iff.mp hshows
      obtain ⟨word, _, rfl, ⟨hword, _⟩, hfront⟩ := shows_cons_iff.mp hfront
      obtain ⟨opening, _, rfl, ⟨hopening, _⟩, hfront⟩ := shows_cons_iff.mp hfront
      obtain ⟨test, _, rfl, ⟨htest, _⟩, hfront⟩ := shows_cons_iff.mp hfront
      obtain ⟨closing, _, rfl, ⟨hclosing, _⟩, hfront⟩ := shows_cons_iff.mp hfront
      obtain ⟨left, rfl, hleft, _⟩ := shows_singleton_iff.mp hfront
      obtain ⟨ts, _, rfl, hts, hright⟩ := shows_append_iff.mp hback
      obtain ⟨right, rfl, hright, _⟩ := shows_singleton_iff.mp hright
      obtain ⟨trees, hderives, hdescends, hcovers⟩ := ih hts
      have hcondition := @readsExpression_true digits enclosing test htest
      have hloop : DerivesStmt enclosing (.statement (.whileLoop word _ (.block left trees)))
          (word :: opening :: [test] ++ closing :: (left :: ts ++ [right])) :=
        .whileLoop hword hopening (hcondition 0).1 hclosing (.block hleft hderives hright)
      refine ⟨[.whileLoop word (.bool test true) (.block left trees)], ?_, fun tag => ?_,
        fun depth => ?_⟩
      · simpa using hloop.cons .nil
      · have hinner : (Node.stmt (.whileLoop word (.bool test true) (.block left trees))).Descends
            (2 * loops + 1) := .down (by simp [Node.children_stmt]) (hdescends left)
        exact .down (by simp [Node.children_stmt]) hinner
      · have hread : (bounded digits (depth + 2 * loops + 9)).CoversStmt enclosing
            (word :: opening :: [test] ++ closing :: (left :: ts ++ [right]))
            (.statement (.whileLoop word (.bool test true) (.block left trees))) :=
          .whileLoop hword hopening (hcondition _) hclosing (.block hleft (hcovers depth) hright)
        have hsequence : (bounded digits (depth + 2 * loops + 9)).CoversStmt enclosing _
            (.sequence [.whileLoop word (.bool test true) (.block left trees)]) :=
          .cons ⟨hloop, hread⟩ .nil
        have hdepth : depth + 2 * (loops + 1) + 7 = depth + 2 * loops + 9 := by omega
        rw [hdepth]
        simpa using hsequence

/-- A class of nested loops nests three more rules, and the loops stand two levels down. -/
theorem reads_loopClass {loops : Nat} (hshows : Shows (loopClass loops) tokens) :
    ∃ decl, IsTopLevel tokens (.classDecl decl) ∧
      (Node.classDecl decl).Descends (2 * loops + 2) ∧
      ∀ depth, (bounded digits (depth + 2 * loops + 10)).ReadsTopLevel enclosing tokens
        (.classDecl decl) := by
  obtain ⟨front, back, rfl, hfront, hback⟩ := shows_append_iff.mp hshows
  obtain ⟨ts, closers, rfl, hts, hclosers⟩ := shows_append_iff.mp hback
  obtain ⟨word, _, rfl, ⟨hword, _⟩, hfront⟩ := shows_cons_iff.mp hfront
  obtain ⟨name, _, rfl, ⟨hname, _⟩, hfront⟩ := shows_cons_iff.mp hfront
  obtain ⟨opening, _, rfl, ⟨hopening, _⟩, hfront⟩ := shows_cons_iff.mp hfront
  obtain ⟨type, _, rfl, ⟨htype, _⟩, hfront⟩ := shows_cons_iff.mp hfront
  obtain ⟨method, _, rfl, ⟨hmethod, _⟩, hfront⟩ := shows_cons_iff.mp hfront
  obtain ⟨left, _, rfl, ⟨hleft, _⟩, hfront⟩ := shows_cons_iff.mp hfront
  obtain ⟨right, _, rfl, ⟨hright, _⟩, hfront⟩ := shows_cons_iff.mp hfront
  obtain ⟨begins, rfl, hbegins, _⟩ := shows_singleton_iff.mp hfront
  obtain ⟨ends, _, rfl, ⟨hends, _⟩, hclosers⟩ := shows_cons_iff.mp hclosers
  obtain ⟨closing, rfl, hclosing, _⟩ := shows_singleton_iff.mp hclosers
  obtain ⟨trees, hderives, hdescends, hcovers⟩ :=
    @covers_nestedLoops digits (some name.payload) ts loops hts
  have hbody : IsBlock (some name.payload) (begins :: ts ++ [ends]) (.block begins trees) :=
    .block hbegins hderives hends
  have hcoversBody (depth : Nat) : (bounded digits (depth + 2 * loops + 8)).CoversStmt
      (some name.payload) (begins :: ts ++ [ends]) (.block (.block begins trees)) :=
    .block hbegins (hcovers depth) hends
  have hmember : IsMember (some name.payload)
      ([] ++ [] ++ type :: method :: [left, right] ++ (begins :: ts ++ [ends])) (.method _) :=
    IsMethod.mk .absent .absent htype hmethod (.empty hleft hright) hbody
  have hclass : IsTopLevel _ (.classDecl _) :=
    IsClass.mk .absent hword hname .absent .absent hopening
      (areMembers_iff.mpr ⟨[_], .cons hmember .nil, rfl, rfl⟩) hclosing
  refine ⟨_, by simpa using hclass,
    .ofMethod (List.mem_singleton_self _) (.ofBody (hdescends begins)), fun depth => ?_⟩
  have hread : (bounded digits (depth + 2 * loops + 9)).Reads (some name.payload) .member
      ([] ++ [] ++ type :: method :: [left, right] ++ (begins :: ts ++ [ends])) (.method _)
      fun _ => True :=
    reads_method .absent .absent htype hmethod (.empty hleft hright) (hcoversBody depth)
  have hreads : (bounded digits (depth + 2 * loops + 10)).ReadsTopLevel enclosing _ (.classDecl _) :=
    readsTopLevel_class .absent hword hname .absent .absent hopening
      (.cons ⟨hmember, hread⟩ .nil) hclosing
  simpa using hreads

end Level

namespace Program

/-- A class of nested loops is read with all levels of the loops, unless rules nest deeper in it
than they may. -/
theorem readWithin_loopClass {loops limit : Nat} (hlimit : 2 * loops + 11 ≤ limit) (uri : String) :
    ∃ program, Program.readWithin limit ⟨uri, spaced (loopClass loops)⟩ = .ok program ∧
      (Node.program program).Descends (2 * loops + 3) := by
  obtain ⟨tokens, last, htokens, hshows⟩ := tokens_spaced (readable_loopClass loops) uri
  obtain ⟨start, final, front, hstart, hfront, hfinal, heq⟩ := tokens_eq_ok_iff.mp htokens
  obtain ⟨rfl, hlast⟩ := List.append_inj' heq rfl
  obtain ⟨decl, hdecl, hdescends, hreads⟩ := Level.reads_loopClass hshows
  obtain ⟨depth, rfl⟩ := Nat.exists_eq_add_of_le' hlimit
  let level := Level.bounded (some Failure.integerDigits) (depth + 2 * loops + 10)
  have hdecls : Sequence (fun ts decl => IsTopLevel ts decl ∧ level.ReadsTopLevel none ts decl)
      (tokens ++ []) [.classDecl decl] := .cons ⟨hdecl, hreads depth⟩ .nil
  rw [List.append_nil] at hdecls
  refine ⟨_, run_eq_ok_iff.mpr ⟨start, final, hstart,
    Level.reads_module hdecls hfront hfinal rfl⟩, .down ?_ hdescends⟩
  rw [Node.children_program]
  exact List.mem_append_left _ (List.mem_singleton_self _)

end Program

end ClassLang

