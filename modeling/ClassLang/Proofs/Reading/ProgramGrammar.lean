import ClassLang.Proofs.Reading.DeclarationComplete

/-! # Reading a whole program

A text is read as a program if and only if its tokens are one in the grammar of
classes and interfaces, the limits aside, and what is read is that program.
-/

namespace ClassLang

open TokenStream ClassLang.Parser Syntax Filter

namespace Program

variable {source : Source} {tokens : List Token} {last : Token} {program : Program Token}

/-- The program that is read is one of the grammar, of all the tokens of the text. -/
theorem isProgram_of_readWithin {depth : Nat}
    (htokens : TokenStream.tokens source = .ok (tokens ++ [last]))
    (hread : Program.readWithin depth source = .ok program) : IsProgram tokens last program := by
  obtain ⟨start, final, front, hstart, hfront, hfinal, heq⟩ := tokens_eq_ok_iff.mp htokens
  obtain ⟨rfl, hlast⟩ := List.append_inj' heq rfl
  obtain rfl := List.singleton_inj.mp hlast
  obtain ⟨start', after, hstart', hyields⟩ := run_eq_ok_iff.mp hread
  obtain rfl := Except.ok.inj (hstart.symm.trans hstart')
  obtain ⟨hend, ts, hts, hprogram⟩ := Level.sound_module hyields
  obtain ⟨rfl, rfl⟩ := hts.to_end_unique hend hfront hfinal
  exact hprogram

/-- At every sufficient depth a program of the grammar is read from its tokens. -/
theorem eventually_readWithin (htokens : TokenStream.tokens source = .ok (tokens ++ [last]))
    (hprogram : IsProgram tokens last program) {digits : Option Nat}
    (hfits : ∀ token ∈ tokens, token.Fits digits) :
    ∀ᶠ depth in atTop, ∃ start final, ofSource source = .ok start ∧
      Yields ((Level.bounded digits depth).read none .module) start program final := by
  obtain ⟨start, final, front, hstart, hfront, hfinal, heq⟩ := tokens_eq_ok_iff.mp htokens
  obtain ⟨rfl, hlast⟩ := List.append_inj' heq rfl
  obtain rfl := List.singleton_inj.mp hlast
  filter_upwards [Level.readsProgram_of_fits hprogram hfits] with depth hread
  exact ⟨start, final, hstart, hread _ _ hfront hfinal rfl⟩

/-- An answer other than that rules nest too deep is the answer at every greater depth. -/
theorem readWithin_deeper {depth deeper : Nat} (hle : depth ≤ deeper) (source : Source) :
    (∃ failure, Program.readWithin depth source = .error failure ∧ failure.IsNesting) ∨
      Program.readWithin depth source = Program.readWithin deeper source :=
  ((Level.bounded_approximates hle).read none .module).run source

/-- A program of the grammar is read at every depth at which no limit is met. -/
theorem readWithin_of_isProgram {depth : Nat}
    (htokens : TokenStream.tokens source = .ok (tokens ++ [last]))
    (hlimit : ∀ failure, Program.readWithin depth source = .error failure → ¬ failure.IsLimit)
    (hprogram : IsProgram tokens last program) : Program.readWithin depth source = .ok program := by
  obtain ⟨deeper, ⟨start, final, hstart, hyields⟩, hle⟩ :=
    ((eventually_readWithin htokens hprogram Derives.fits_none).and
      (eventually_ge_atTop depth)).exists
  have happrox : Approximates Failure.IsLimit ((Level.ofDepth depth).read none .module)
      ((Level.bounded none deeper).read none .module) :=
    ((Level.bounded_approximates_none (some Failure.integerDigits) depth).read none _).trans
      (((Level.bounded_approximates hle).read none _).mono fun _ => Or.inl)
  rcases happrox.run source with ⟨failure, herror, hexcused⟩ | heq
  · exact absurd hexcused (hlimit failure herror)
  · exact heq.trans (run_eq_ok_iff.mpr ⟨start, final, hstart, hyields⟩)

/-- Where no limit is met, a text is read as a program exactly if its tokens are this program in
the grammar. -/
theorem read_iff_isProgram (htokens : TokenStream.tokens source = .ok (tokens ++ [last]))
    (hlimit : ∀ failure, Program.read source = .error failure → ¬ failure.IsLimit)
    (program : Program Token) :
    Program.read source = .ok program ↔ IsProgram tokens last program :=
  ⟨isProgram_of_readWithin htokens, readWithin_of_isProgram htokens hlimit⟩

/-- A class with a field and an interface are read, and as nothing but what their tokens are. -/
theorem read_class_and_interface :
    let source := Source.ofString "main" "class Ab { int a; } interface Cd { }"
    let tokens : List Token :=
      [⟨.keyword .class, none, 0, 5⟩, ⟨.typename, some "Ab", 6, 8⟩,
        ⟨.symbol .braceOpen, none, 9, 10⟩, ⟨.typename, some "int", 11, 14⟩,
        ⟨.name, some "a", 15, 16⟩, ⟨.symbol .semicolon, none, 16, 17⟩,
        ⟨.symbol .braceClose, none, 18, 19⟩, ⟨.keyword .interface, none, 20, 29⟩,
        ⟨.typename, some "Cd", 30, 32⟩, ⟨.symbol .braceOpen, none, 33, 34⟩,
        ⟨.symbol .braceClose, none, 35, 36⟩]
    (Program.read source).isOk = true ∧
      ∀ program, Program.read source = .ok program ↔
        IsProgram tokens (.endOfText 36) program := by
  intro source tokens
  have hread : (Program.read source).isOk = true := by decide +kernel
  refine ⟨hread, read_iff_isProgram (by decide +kernel) fun failure herror => ?_⟩
  simp [herror, Except.isOk, Except.toBool] at hread

end Program

end ClassLang
