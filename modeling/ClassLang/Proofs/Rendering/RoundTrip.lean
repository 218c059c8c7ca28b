import ClassLang.Proofs.Reading.ProgramGrammar
import ClassLang.Proofs.Rendering.Declaration

/-! # Reading what is written

A program that is written as a text is read back from it, up to its tags. The
only thing in the way is a nesting deeper than allowed, and every program is
read back when enough is allowed.
-/

namespace ClassLang

open Scan Syntax TokenStream Filter ClassLang.Parser

namespace Program

variable {ι : Type} {write : Decimal.Binary64 → String} {program : Program ι}

/-- No integer among the tokens of readable lexemes has too many digits. -/
theorem fits_of_shows {lexemes : List Lexeme} {tokens : List Token} (hreadable : Readable lexemes)
    (hshows : Shows lexemes tokens) :
    ∀ token ∈ tokens, token.Fits (some Failure.integerDigits) := by
  intro token hmem hint
  have hpair : (token.kind, token.data) ∈ lexemes.map fun lexeme => (lexeme.kind, lexeme.data) :=
    hshows ▸ List.mem_map_of_mem hmem
  obtain ⟨lexeme, hlexeme, heq⟩ := List.mem_map.mp hpair
  obtain ⟨hkind, hdata⟩ := Prod.mk.inj heq
  have hdigits := (hreadable lexeme hlexeme).2 (hkind.trans hint)
  rw [hdata] at hdigits
  exact decide_eq_false (Nat.not_lt.mpr hdigits)

/-- The text of a program has the tokens of a program of the same shape, and no other limit than
that on nesting keeps it from being read. -/
theorem exists_isProgram_text (hprogram : program.WellFormed write) (uri : String) :
    ∃ tokens last tree, TokenStream.tokens ⟨uri, program.text write⟩ = .ok (tokens ++ [last]) ∧
      IsProgram tokens last tree ∧ tree.same program ∧
      ∀ token ∈ tokens, token.Fits (some Failure.integerDigits) := by
  obtain ⟨tokens, last, htokens, hshows⟩ := tokens_spaced hprogram.readable uri
  obtain ⟨tree, htree, hsame⟩ := hprogram.represents last tokens hshows
  exact ⟨tokens, last, tree, htokens, htree, hsame, fits_of_shows hprogram.readable hshows⟩

/-- What is read at some depth is read exactly from a certain depth on. Below it the nesting is
what fails. -/
theorem exists_least_depth {source : Source} {tree : Program Token} {enough : Nat}
    (hread : Program.readWithin enough source = .ok tree) :
    ∃ depth, (∀ limit, depth ≤ limit → Program.readWithin limit source = .ok tree) ∧
      ∀ limit < depth, ∃ failure, Program.readWithin limit source = .error failure ∧
        failure.IsNesting := by
  classical
  have hexists : ∃ depth, Program.readWithin depth source = .ok tree := ⟨enough, hread⟩
  refine ⟨Nat.find hexists, fun limit hle => ?_, fun limit hlt => ?_⟩
  · rcases readWithin_deeper hle source with ⟨failure, herror, -⟩ | heq
    · simp [Nat.find_spec hexists] at herror
    · exact heq.symm.trans (Nat.find_spec hexists)
  · rcases readWithin_deeper (Nat.le_of_lt hlt) source with hnesting | heq
    · exact hnesting
    · exact absurd (heq.trans (Nat.find_spec hexists)) (Nat.find_min hexists hlt)

/-- A program that is written as a text is read back in its shape wherever rules may nest to the
depth that it asks for. Below this depth the nesting is what fails. -/
theorem read_text (hprogram : program.WellFormed write) (uri : String) :
    ∃ tree depth, tree.same program ∧
      (∀ limit, depth ≤ limit → Program.readWithin limit ⟨uri, program.text write⟩ = .ok tree) ∧
      ∀ limit < depth, ∃ failure,
        Program.readWithin limit ⟨uri, program.text write⟩ = .error failure ∧
          failure.IsNesting := by
  obtain ⟨tokens, last, tree, htokens, htree, hsame, hfits⟩ := exists_isProgram_text hprogram uri
  obtain ⟨enough, start, final, hstart, hyields⟩ :=
    (eventually_readWithin htokens htree hfits).exists
  obtain ⟨depth, hfrom, hbelow⟩ :=
    exists_least_depth (run_eq_ok_iff.mpr ⟨start, final, hstart, hyields⟩)
  exact ⟨tree, depth, hsame, hfrom, hbelow⟩

/-- A class and an interface are read back, with the parentheses, the escape and the floating point
literal that are written for the class. -/
theorem read_text_of_product :
    let write : Decimal.Binary64 → String := fun _ => "2.5"
    let product : Expr Unit := .operator () (.symbol .star)
      [.operator () (.symbol .plus) [.name () "n", .int () 1], .float () (.ofLiteral "2.5".toList)]
    let body : Stmt Unit := .block ()
      [.declaration () "var" "x" (some product),
        .returnValue () (some (.callStatic () (some "Ab") "f" [.name () "x"]))]
    let decl : ClassDecl Unit :=
      ⟨(), .private, "Ab", "Object", ["Cd"],
        [⟨(), .public, true, "String", "s", some (.string () "\\n")⟩],
        [⟨(), .public, false, "float", "f", [⟨(), "int", "n"⟩], body⟩]⟩
    let program : Program Unit := ⟨(), [decl], [⟨(), .public, "Cd", [], []⟩]⟩
    program.WellFormed write ∧
      ∃ tree, Program.read ⟨"main", program.text write⟩ = .ok tree ∧ tree.same program := by
  intro write product body decl program
  have hproduct : product.WellFormed write :=
    .binary rfl (.binary rfl (.name (by decide)) (.int (by decide)))
      (.float ⟨['2'], ['5'], by decide⟩ rfl)
  have hcall : (Expr.callStatic () (some "Ab") "f" [.name () "x"]).WellFormed write :=
    .callStatic (by decide) (by decide) (List.forall_mem_singleton.mpr (.name (by decide)))
  have hbody : body.WellFormed write := by
    refine .block (List.forall_mem_cons.mpr ⟨.simple (.declaration (.inl rfl) (by decide) ?_),
      List.forall_mem_singleton.mpr (.returnValue ?_)⟩)
    · rintro _ ⟨⟩
      exact hproduct
    · rintro _ ⟨⟩
      exact hcall
  have hdecl : decl.WellFormed write := by
    refine ⟨by decide, by decide, by decide,
      List.forall_mem_singleton.mpr ⟨by decide, by decide, ?_⟩,
      List.forall_mem_singleton.mpr ⟨by decide, by decide, ?_, hbody, rfl⟩⟩
    · rintro _ ⟨⟩
      exact .string
    · exact List.forall_mem_singleton.mpr ⟨by decide, by decide⟩
  have hprogram : program.WellFormed write :=
    ⟨List.forall_mem_singleton.mpr hdecl,
      List.forall_mem_singleton.mpr ⟨by decide, by decide, List.forall_mem_nil _⟩⟩
  obtain ⟨tree, depth, hsame, hfrom, hbelow⟩ := read_text hprogram "main"
  have hread : (Program.read ⟨"main", program.text write⟩).isOk = true := by decide +kernel
  rcases Nat.lt_or_ge nestingLimit depth with hlt | hle
  · obtain ⟨failure, herror, -⟩ := hbelow _ hlt
    simp [Program.read, herror, Except.isOk, Except.toBool] at hread
  · exact ⟨hprogram, tree, hfrom _ hle, hsame⟩

end Program

end ClassLang
