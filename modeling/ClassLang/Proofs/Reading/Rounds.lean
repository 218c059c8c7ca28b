import ClassLang.Proofs.Reading.Outcome

/-! # Repetitions, round by round

A repetition breaks off after a round that takes no token, so that it ends in any case. If no round
goes on without taking one, it never breaks off: what comes of the repetition is what comes of its
rounds one after the other, and no more of them go on than there are tokens left.
-/

namespace ClassLang.Parser

open TokenStream

variable {α : Type} {round : α → Parser (Option α)} {value : α} {stream : TokenStream}
  {count : Nat} {outcome : EStateM.Result Failure TokenStream α}

/-- So many rounds go on, each with what the one before has made of the value, and then a round
yields nothing to go on with or fails, which is the outcome. Nothing else ends the rounds. -/
inductive Rounds (round : α → Parser (Option α)) :
    α → TokenStream → Nat → EStateM.Result Failure TokenStream α → Prop
  | stops {value stream next} : round value stream = .ok none next →
      Rounds round value stream 0 (.ok value next)
  | fails {value stream failure next} : round value stream = .error failure next →
      Rounds round value stream 0 (.error failure next)
  | goesOn {value stream extended middle count outcome} :
      round value stream = .ok (some extended) middle →
      Rounds round extended middle count outcome → Rounds round value stream (count + 1) outcome

/-- A round that goes on leaves fewer tokens, whatever it starts from. -/
def Shortens (round : α → Parser (Option α)) : Prop :=
  ∀ value stream extended next, round value stream = .ok (some extended) next →
    next.remaining < stream.remaining

namespace Rounds

theorem unique {count' : Nat} {outcome' : EStateM.Result Failure TokenStream α}
    (hrounds : Rounds round value stream count outcome)
    (hrounds' : Rounds round value stream count' outcome') :
    count' = count ∧ outcome' = outcome := by
  induction hrounds generalizing count' with
  | stops hround =>
      cases hrounds' with
      | stops hround' =>
          obtain ⟨_, rfl⟩ := EStateM.Result.ok.inj (hround.symm.trans hround')
          exact ⟨rfl, rfl⟩
      | fails hround' | goesOn hround' => cases hround.symm.trans hround'
  | fails hround =>
      cases hrounds' with
      | fails hround' =>
          obtain ⟨rfl, rfl⟩ := EStateM.Result.error.inj (hround.symm.trans hround')
          exact ⟨rfl, rfl⟩
      | stops hround' | goesOn hround' => cases hround.symm.trans hround'
  | goesOn hround _ ih =>
      cases hrounds' with
      | goesOn hround' hrest =>
          obtain ⟨hsome, rfl⟩ := EStateM.Result.ok.inj (hround.symm.trans hround')
          obtain rfl := Option.some.inj hsome
          obtain ⟨rfl, rfl⟩ := ih hrest
          exact ⟨rfl, rfl⟩
      | stops hround' | fails hround' => cases hround.symm.trans hround'

theorem count_le (hshortens : Shortens round)
    (hrounds : Rounds round value stream count outcome) : count ≤ stream.remaining := by
  induction hrounds with
  | stops | fails => exact Nat.zero_le _
  | goesOn hround _ ih =>
      have hlt := hshortens _ _ _ _ hround
      omega

end Rounds

/-- What comes of an iteration comes of its rounds. -/
theorem rounds_iterate (hshortens : Shortens round) (value : α) (stream : TokenStream) :
    ∃ count, Rounds round value stream count (iterate round value stream) := by
  fun_induction iterate round value stream with
  | case1 value stream failure next hround => exact ⟨0, .fails hround⟩
  | case2 value stream next hround => exact ⟨0, .stops hround⟩
  | case3 value stream extended next hround _ ih =>
      obtain ⟨count, hrounds⟩ := ih
      exact ⟨count + 1, .goesOn hround hrounds⟩
  | case4 value stream extended next hround hstuck =>
      exact absurd (hshortens _ _ _ _ hround) hstuck

/-- There is one course of the rounds. It is that of the iteration, and no more rounds go on than
there are tokens left. -/
theorem rounds_iff (hshortens : Shortens round) (value : α) (stream : TokenStream) :
    ∃ count ≤ stream.remaining, ∀ count' outcome,
      Rounds round value stream count' outcome ↔
        count' = count ∧ outcome = iterate round value stream := by
  obtain ⟨count, hrounds⟩ := rounds_iterate hshortens value stream
  refine ⟨count, hrounds.count_le hshortens, fun count' outcome => ⟨hrounds.unique, ?_⟩⟩
  rintro ⟨rfl, rfl⟩
  exact hrounds

/-! ## Collecting values -/

section Collect

variable {step : Parser (Option α)}

/-- A round that puts what the step yields behind the values of the rounds before. -/
def collect (step : Parser (Option α)) (values : List α) : Parser (Option (List α)) :=
  Option.map (values ++ [·]) <$> step

theorem collect_eq_some {values extended : List α} {next : TokenStream}
    (hround : collect step values stream = .ok (some extended) next) :
    ∃ value, step stream = .ok (some value) next := by
  rw [collect, map_apply] at hround
  cases hstep : step stream with
  | error failure last => simp [hstep] at hround
  | ok taken last =>
      rw [hstep] at hround
      obtain ⟨hsome, rfl⟩ := EStateM.Result.ok.inj hround
      obtain ⟨value, rfl, -⟩ := Option.map_eq_some_iff.mp hsome
      exact ⟨value, rfl⟩

theorem iterate_collect (values : List α) (stream : TokenStream) :
    iterate (collect step) values stream = ((values ++ ·) <$> many step) stream := by
  rw [map_apply]
  fun_induction many step stream generalizing values with
  | case1 stream failure next hstep =>
      rw [iterate, collect, map_apply, hstep]
  | case2 stream next hstep =>
      rw [iterate, collect, map_apply, hstep]
      simp
  | case3 stream value next hstep hprogress failure last hrest ih =>
      rw [iterate, collect, map_apply, hstep]
      simp [hprogress, ih, hrest]
  | case4 stream value next hstep hprogress rest last hrest ih =>
      rw [iterate, collect, map_apply, hstep]
      simp [hprogress, ih, hrest]
  | case5 stream value next hstep hstuck =>
      rw [iterate, collect, map_apply, hstep]
      simp [hstuck]

/-- To read many values is to collect them round by round. -/
theorem many_eq_iterate (step : Parser (Option α)) : many step = iterate (collect step) [] := by
  funext stream
  rw [iterate_collect, map_apply]
  cases many step stream <;> rfl

end Collect

end ClassLang.Parser
