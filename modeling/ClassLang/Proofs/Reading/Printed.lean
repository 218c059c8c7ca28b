import ClassLang.Proofs.Reading.Enclosing
import ClassLang.Proofs.Reading.Nested
import ClassLang.Proofs.Tree.Blocks
import ClassLang.Proofs.Tree.Printed

/-! # Printing what is read

All nodes that are read are legible: names and types are words, every static call in a class has a
type to be made on, and every number is rounded from a literal. So what a text is read as is told
by how it is printed, and the lines that are printed are those of its nodes. But reading lets deeper
trees pass than printing does: a tree of 490 levels is read and then not printed.
-/

namespace ClassLang

open Syntax Scan ClassLang.Parser

variable {ts : List Token} {node : Node Token}

/-- The root of an expression, if it is a number with a point, is one that rounding gives. -/
def Expr.Rounded : Expr Token → Prop
  | .float _ value => value.IsValue
  | _ => True

namespace Syntax

theorem Derives.rounded {enclosing : Option String} {phrase : Phrase}
    (hderives : Derives enclosing phrase ts) : phrase.Holds Expr.Rounded := by
  induction hderives with
  | ofConditional _ ih | ofBinary _ ih | ofTighter _ ih | ofUnary _ ih | ofSuffixed _ ih
  | ofMember _ ih | ofPrimary _ ih | parenthesized _ _ _ ih => exact ih
  | float => exact Decimal.Binary64.isValue_ofLiteral _
  | _ => trivial

/-- What stands for a phrase in a class or an interface is legible. -/
theorem HasPhrase.legible {around : String} (haround : IsTypename around)
    (hphrase : HasPhrase (some around) ts node) (hnames : ∀ token ∈ ts, token.CarriesNames) :
    node.Legible := by
  have henclosing : ∀ name ∈ some around, IsTypename name := by
    rintro _ ⟨⟩
    exact haround
  constructor
  · exact hphrase.proper henclosing hnames
  · intro decl hmem
    exact (hphrase.within (.of_mem hmem)).proper henclosing hnames
  · rintro tag type name arguments rfl
    exact hphrase.isOwner.ne_none
  · rintro tag number rfl
    obtain ⟨us, -, hphrase⟩ := hphrase
    exact Derives.rounded hphrase.isExpression

end Syntax

theorem Program.legibleAll_of_read {source : Source} {program : Program Token}
    (hread : Program.read source = .ok program) : (Node.program program).LegibleAll := by
  obtain ⟨front, last, htokens, hprogram⟩ := Program.isProgram_of_read hread
  have hnames (token : Token) (hmem : token ∈ front) : token.CarriesNames :=
    TokenStream.carriesNames_of_tokens htokens (List.mem_append_left _ hmem)
  intro node hnode
  obtain rfl | ⟨around, haround, hkind, hphrase⟩ := hprogram.hasPhrase hnode
  · constructor
    · trivial
    · intro decl hmem
      simp [Node.children_program] at hmem
    · rintro _ _ _ _ ⟨⟩
    · rintro _ _ ⟨⟩
  · exact hphrase.legible ((hnames around haround).typename hkind) hnames

/-- Nested loops are read that are too deep to be printed. -/
theorem Program.read_tooDeep_of_loops {loops : Nat} (hdeep : 243 ≤ loops)
    (hlimit : 2 * loops + 11 ≤ nestingLimit) (uri : String) :
    ∃ program, Program.read ⟨uri, spaced (loopClass loops)⟩ = .ok program ∧
      (Node.program program).print = .error .nestingTooDeep := by
  obtain ⟨program, hread, hdescends⟩ := Program.readWithin_loopClass hlimit uri
  exact ⟨program, hread, Node.print_of_descends (hdescends.mono (by omega))⟩

/-- **Programs that are read are printed alike if and only if they are the same up to their
tokens**, unless they are too deep to be printed. -/
theorem Program.print_eq_iff_same {source source' : Source} {program program' : Program Token}
    (hread : Program.read source = .ok program) (hread' : Program.read source' = .ok program') :
    ((Node.program program).Descends 489 →
        (Node.program program).print = .error .nestingTooDeep) ∧
      (¬ (Node.program program).Descends 489 → ¬ (Node.program program').Descends 489 →
        ∃ text text', (Node.program program).print = .ok text ∧
          (Node.program program').print = .ok text' ∧
          (text = text' ↔ program.same program')) := by
  refine ⟨Node.print_of_descends, fun hshallow hshallow' => ?_⟩
  exact ⟨_, _, Node.print_of_not_descends hshallow, Node.print_of_not_descends hshallow',
    Node.text_eq_iff (Program.legibleAll_of_read hread) (Program.legibleAll_of_read hread')⟩

/-- Literals are printed as what they stand for, however they are written, and a line feed otherwise
than a backslash and a letter. -/
theorem Program.print_eq_iff_same_literals :
    let source (number text : String) := Source.ofString "main"
      ("class Ab \x7b float a = " ++ number ++ "; void f() \x7b if (b) \x7b \x7d else \x7b b = " ++
        text ++ "; \x7d \x7d \x7d")
    ∃ first second third text text', Program.read (source ".5" "'\\n\"'") = .ok first ∧
      Program.read (source "0.50" "\"\\n\\\"\"") = .ok second ∧
      Program.read (source ".5" "'\\\\n\"'") = .ok third ∧
      (Node.program first).print = .ok text ∧ (Node.program second).print = .ok text ∧
      (Node.program third).print = .ok text' ∧ text ≠ text' := by
  intro source
  have hsame : ∃ first ∈ (Program.read (source ".5" "'\\n\"'")).toOption,
      ∃ second ∈ (Program.read (source "0.50" "\"\\n\\\"\"")).toOption,
      ∃ third ∈ (Program.read (source ".5" "'\\\\n\"'")).toOption,
        first.same second ∧ ¬ first.same third ∧ ∀ program ∈ [first, second, third],
          (Node.program program).nestsWithin (Node.callLimit - 1) := by
    decide +kernel
  obtain ⟨first, hfirst, second, hsecond, third, hthird, hsame, hdifferent, hnests⟩ := hsame
  have hshallow : ∀ program ∈ [first, second, third], ¬ (Node.program program).Descends 489 :=
    fun program hmem => Node.not_descends_of_nestsWithin (hnests program hmem)
  have hfirst := eq_ok_of_mem_toOption hfirst
  have hsecond := eq_ok_of_mem_toOption hsecond
  have hthird := eq_ok_of_mem_toOption hthird
  obtain ⟨text, _, hprint, hprint', hiff⟩ := (print_eq_iff_same hfirst hsecond).2
    (hshallow first (by simp)) (hshallow second (by simp))
  obtain rfl := hiff.mpr hsame
  obtain ⟨_, text', hagain, hprint'', hiff'⟩ := (print_eq_iff_same hfirst hthird).2
    (hshallow first (by simp)) (hshallow third (by simp))
  obtain rfl := Except.ok.inj (hprint.symm.trans hagain)
  exact ⟨first, second, third, text, text', hfirst, hsecond, hthird, hprint, hprint', hprint'',
    mt hiff'.mp hdifferent⟩

/-- A class of 260 nested loops is read, but there is no text that it is printed as, which would be
the same for the program and for itself. -/
theorem Program.not_printed_of_loops :
    ∃ program, Program.read ⟨"main", spaced (loopClass 260)⟩ = .ok program ∧
      program.same program ∧ ∀ text, (Node.program program).print ≠ .ok text := by
  obtain ⟨program, hread, hprint⟩ := Program.read_tooDeep_of_loops (by decide : 243 ≤ 260)
    (by decide : 2 * 260 + 11 ≤ nestingLimit) "main"
  refine ⟨program, hread, program.same_refl, fun text htext => ?_⟩
  cases hprint.symm.trans htext

/-! ## The shape of what is printed -/

/-- A tree that is not too deep is printed, and so are all its nodes, in lines that have the shape
of the tree. -/
structure Node.PrintsUnlessDeep (root : Node Token) : Prop where
  deep : root.Descends 489 → root.print = .error .nestingTooDeep
  print_eq : ¬ root.Descends 489 → ∀ node ∈ root.nodes, node.print = .ok node.text
  shape : root.PrintsShape

theorem Node.ProperAll.printsUnlessDeep {root : Node Token} (hroot : root.ProperAll)
    (hargument : root.isArgument = false) : root.PrintsUnlessDeep where
  deep := print_of_descends
  print_eq hshallow _ hmem := print_of_mem_nodes hshallow hmem
  shape := hroot.printsShape hargument

/-- **What is read is printed in one line for each node, block in block**, but for arguments, which
stand in the lines of their methods, and with a line for each `else` and for each clause that a
`for` lacks, unless it is too deep to be printed. -/
theorem read_printsShape (source : Source) :
    (∀ program, Program.read source = .ok program → (Node.program program).PrintsUnlessDeep) ∧
      ∀ tree, Expr.read source = .ok tree → (Node.expr tree).PrintsUnlessDeep := by
  constructor
  · intro program hread
    have hproper : (Node.program program).ProperAll := fun _ => Program.proper_of_read hread
    exact hproper.printsUnlessDeep rfl
  · intro tree hread
    have hproper : (Node.expr tree).ProperAll := fun _ => Expr.proper_of_read hread
    exact hproper.printsUnlessDeep rfl

/-- A class of 260 nested loops has a line for each of its nodes, but is not printed in lines at
all. -/
theorem Program.no_lines_of_loops :
    ∃ program, Program.read ⟨"main", spaced (loopClass 260)⟩ = .ok program ∧
      ¬ ∃ text, (Node.program program).print = .ok text ∧
        (text.toList.splitOn '\n').length = (Node.program program).lineCount := by
  obtain ⟨program, hread, hprint⟩ := Program.read_tooDeep_of_loops (by decide : 243 ≤ 260)
    (by decide : 2 * 260 + 11 ≤ nestingLimit) "main"
  refine ⟨program, hread, ?_⟩
  rintro ⟨text, htext, -⟩
  cases hprint.symm.trans htext

/-- The interface comes first, and the line feeds in the literal end no lines. -/
theorem read_printsShape_literal :
    let source := Source.ofString "main"
      ("class Ab \x7b void f(int a, int b) \x7b if (a) \x7b for (;;) \x7b \x7d \x7d else \x7b " ++
        "b = 'x\n\\ny'; \x7d \x7d \x7d interface Ii \x7b int g(int c); \x7d")
    let lines := [
      "Program",
      "  Interface public Ii",
      "    MethodStub public int g(int c)",
      "  Class public Ab extends Object",
      "    Method public void f(int a, int b)",
      "      Block",
      "        If",
      "          Name a",
      "          Block",
      "            For",
      "              Empty",
      "              Empty",
      "              Empty",
      "              Block",
      "        Else",
      "          Block",
      "            ExpressionStatement",
      "              Assign b",
      "                String 'x\\n\\ny'"]
    ∃ program, Program.read source = .ok program ∧
      (Node.program program).print = .ok (Node.program program).text ∧
      (Node.program program).PrintsShape ∧ (Node.program program).lines = lines := by
  intro source lines
  have houtline : ∃ program ∈ (Program.read source).toOption,
      (Node.program program).outline = lines ∧
        (Node.program program).nestsWithin (Node.callLimit - 1) := by
    decide +kernel
  obtain ⟨program, hprogram, houtline, hnests⟩ := houtline
  have hread : Program.read source = .ok program := eq_ok_of_mem_toOption hprogram
  have hproper : (Node.program program).ProperAll := fun _ => Program.proper_of_read hread
  have hprints := (read_printsShape source).1 program hread
  have hprint := hprints.print_eq (Node.not_descends_of_nestsWithin hnests) _
    (Node.mem_nodes.mpr .refl)
  exact ⟨program, hread, hprint, hprints.shape, hproper.lines_eq_outline.trans houtline⟩

end ClassLang
