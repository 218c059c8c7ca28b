import ClassLang.Proofs.Stream.Turn

/-! # What holds in every session

A session with a token stream may make any calls in any order, and go on after calls that fail.
Still the scan goes forward, and the tokens that are handed out are in order. Where the text can be
tokenized, nothing fails, and the session hands out the tokens of the text one after the other.
-/

namespace ClassLang.TokenStream

variable {source : Source} {start stream last : TokenStream} {limit : Nat}
  {calls : List Call} {turn : Turn} {earlier later : List Turn} {tokens : List Token}

/-! ## Any text -/

/-- The streams of a session, the one that it begins with included. -/
def states (start : TokenStream) (turns : List Turn) : List TokenStream :=
  start :: turns.map (·.after)

/-- What holds of a session whether its calls fail or not. -/
structure Orderly (source : Source) (start : TokenStream) (turns : List Turn) : Prop where
  /-- The scan never goes back. -/
  forward : (states start turns).Pairwise (·.offset ≤ ·.offset)
  /-- The scan stays in the text, and the buffered token stands before it. -/
  within : ∀ stream ∈ states start turns,
    stream.buffered.stop ≤ stream.offset ∧ stream.offset ≤ source.length
  /-- A call that fails may have passed over tokens if it was to hand out all of them. It leaves
  the token buffered that comes next. -/
  failure : ∀ turn ∈ turns, ∀ error, turn.result = .error error →
    ∃ passed reached, turn.before.Passes passed reached ∧
      turn.after.buffered = reached.buffered ∧ (turn.call ≠ .tokenize → passed = [])
  /-- No token is handed out twice, and none too late. -/
  increasing : (beforeEnd (handed turns)).Pairwise (·.pos < ·.pos)
  /-- At the end of the text no call fails or changes anything, now and for ever after. -/
  atEnd : ∀ earlier turn later, turns = earlier ++ turn :: later → turn.before.atEnd →
    ∀ next ∈ turn :: later,
      next.result = .ok [turn.before.buffered] ∧ next.after = turn.before

@[simp] theorem turn_call (stream : TokenStream) (call : Call) :
    (stream.turn call).call = call := by
  unfold TokenStream.turn
  cases call <;> dsimp only <;> split <;> rfl

@[simp] theorem turn_before (stream : TokenStream) (call : Call) :
    (stream.turn call).before = stream := by
  unfold TokenStream.turn
  cases call <;> dsimp only <;> split <;> rfl

theorem turn_of_atEnd (hend : stream.atEnd) (call : Call) :
    stream.turn call = ⟨call, stream, .ok [stream.buffered], stream⟩ := by
  cases call with
  | peek => rfl
  | advance => simp [TokenStream.turn, advance, hend]
  | tokenize =>
      have htokenize : tokenize stream = .ok [stream.buffered] stream :=
        tokenize_eq_ok_iff.mpr ⟨[], .nil _, hend, rfl⟩
      simp [TokenStream.turn, htokenize]

theorem handed_cons (turn : Turn) (turns : List Turn) :
    handed (turn :: turns) = turn.handed ++ handed turns :=
  List.flatMap_cons

/-- All streams of a session are in order, and none has been scanned less far than the first. -/
theorem inOrder_states (horder : start.InOrder limit) (calls : List Call) :
    (∀ stream ∈ states start (start.session calls),
      stream.InOrder limit ∧ start.offset ≤ stream.offset) ∧
      (states start (start.session calls)).Pairwise (·.offset ≤ ·.offset) := by
  induction calls generalizing start with
  | nil =>
      refine ⟨fun stream hmem => ?_, List.pairwise_singleton _ _⟩
      obtain rfl := List.mem_singleton.mp hmem
      exact ⟨horder, Nat.le_refl _⟩
  | cons call calls ih =>
      obtain ⟨hle, hnext, -⟩ := (leads_turn start call).inOrder horder
      obtain ⟨hstates, hforward⟩ := ih hnext
      have hbehind : ∀ stream ∈ states (start.turn call).after
          ((start.turn call).after.session calls), start.offset ≤ stream.offset :=
        fun stream hmem => Nat.le_trans hle (hstates stream hmem).2
      refine ⟨List.forall_mem_cons.mpr ⟨⟨horder, Nat.le_refl _⟩, fun stream hmem => ?_⟩,
        List.pairwise_cons.mpr ⟨hbehind, hforward⟩⟩
      exact ⟨(hstates stream hmem).1, hbehind stream hmem⟩

/-- A session hands out nothing but tokens ahead, one after the other. -/
theorem handed_sublist (horder : start.InOrder limit) :
    (beforeEnd (handed (start.session calls))).Sublist start.ahead := by
  induction calls generalizing start with
  | nil => exact List.nil_sublist _
  | cons call calls ih =>
      obtain ⟨-, hnext, passed, hahead, hpassed⟩ := (leads_turn start call).inOrder horder
      rw [session, handed_cons, beforeEnd_append, hahead]
      refine List.Sublist.append ?_ (ih hnext)
      rwa [Turn.handed, turn_call]

/-- The stream that calls lead to. -/
def leaves (start : TokenStream) : List Call → TokenStream
  | [] => start
  | call :: calls => leaves (start.turn call).after calls

/-- Before each turn of a session stands a session, and another one behind it. -/
theorem session_split (hsession : start.session calls = earlier ++ turn :: later) :
    ∃ front call back, earlier = start.session front ∧ turn = (start.leaves front).turn call ∧
      later = turn.after.session back := by
  induction calls generalizing start earlier with
  | nil => cases earlier <;> cases hsession
  | cons call calls ih =>
      cases earlier with
      | nil =>
          obtain ⟨rfl, rfl⟩ := List.cons.inj hsession
          exact ⟨[], call, calls, rfl, rfl, rfl⟩
      | cons first earlier =>
          obtain ⟨rfl, hrest⟩ := List.cons.inj hsession
          obtain ⟨front, next, back, rfl, hturn, hlater⟩ := ih hrest
          exact ⟨call :: front, next, back, rfl, hturn, hlater⟩

theorem session_of_atEnd (hend : stream.atEnd) :
    ∀ turn ∈ stream.session calls, turn.result = .ok [stream.buffered] ∧ turn.after = stream := by
  induction calls with
  | nil => simp [session]
  | cons call calls ih =>
      rw [session, turn_of_atEnd hend]
      exact List.forall_mem_cons.mpr ⟨⟨rfl, rfl⟩, ih⟩

/-- A call fails where a scan on the way does. -/
theorem Leads.of_error {call : Call} {error : LexicalError} {next : TokenStream}
    (hleads : stream.Leads call (.error error) next) :
    ∃ passed reached, stream.Passes passed reached ∧ next.buffered = reached.buffered ∧
      (call ≠ .tokenize → passed = []) := by
  cases hleads with
  | failure hpasses hnone hfails => exact ⟨_, _, hpasses, hfails.buffered_eq, hnone⟩

theorem inOrder_of_ofSource (hstart : ofSource source = .ok start) :
    start.InOrder source.length ∧ start.ahead.Pairwise (·.pos < ·.pos) := by
  have hordered := Upcoming.ordered_ofText 0 source.text
  rw [Nat.zero_add] at hordered
  obtain ⟨-, horder, hahead⟩ := inOrder_of_scan hordered (ofSource_eq_ok_iff.mp hstart)
  exact ⟨horder, hahead ▸ hordered.pairwise.1⟩

theorem orderly_session (hstart : ofSource source = .ok start) (calls : List Call) :
    Orderly source start (start.session calls) := by
  obtain ⟨horder, hpairwise⟩ := inOrder_of_ofSource hstart
  obtain ⟨hstates, hforward⟩ := inOrder_states horder calls
  refine ⟨hforward, fun stream hmem => ?within, fun turn hmem error herror => ?failure,
    ?increasing, fun earlier turn later hsession hend => ?atEnd⟩
  case within =>
    have hstream := (hstates stream hmem).1
    exact ⟨hstream.stop_le, hstream.upcoming.place_le⟩
  case failure =>
    obtain ⟨earlier, later, hsession⟩ := List.append_of_mem hmem
    obtain ⟨front, call, back, -, rfl, -⟩ := session_split hsession
    have hleads := leads_turn (start.leaves front) call
    rw [herror] at hleads
    rw [turn_before, turn_call]
    exact hleads.of_error
  case increasing =>
    exact hpairwise.sublist (handed_sublist horder)
  case atEnd =>
    obtain ⟨front, call, back, -, rfl, rfl⟩ := session_split hsession
    rw [turn_before] at hend ⊢
    rw [turn_of_atEnd hend]
    exact List.forall_mem_cons.mpr ⟨⟨rfl, rfl⟩, session_of_atEnd hend⟩

/-! ## A text that can be tokenized -/

/-- The tokens up to the first end of a text, which is among them. -/
def untilEnd : List Token → List Token
  | [] => []
  | token :: tokens =>
      if token.kind = .endOfText then [token] else token :: untilEnd tokens

/-- What holds in addition where a text consists of `tokens`. -/
structure Delivers (tokens : List Token) (turns : List Turn) : Prop where
  /-- No call fails. -/
  succeeds : ∀ turn ∈ turns, ∃ shown, turn.result = .ok shown
  /-- The tokens are handed out from the first on. -/
  inSequence : untilEnd (handed turns) <+: tokens
  /-- To hand out all tokens that are left is to hand out just those. -/
  completes : ∀ earlier turn later, turns = earlier ++ turn :: later → turn.call = .tokenize →
    ∃ rest, turn.result = .ok rest ∧ beforeEnd (handed earlier) ++ rest = tokens
  /-- After the end of the text each call returns this end and nothing else. -/
  ended : ∀ earlier turn later, turns = earlier ++ turn :: later →
    ∀ final ∈ handed earlier, final.kind = .endOfText → turn.result = .ok [final]

/-- How far a session has come that has handed out the tokens `given`. -/
inductive Progress (tokens : List Token) : List Token → TokenStream → Prop
  /-- The end of the text has not been handed out. -/
  | underway {given left : List Token} {stream last : TokenStream} :
      (∀ token ∈ given, token.kind ≠ .endOfText) → stream.Passes left last → last.atEnd →
      tokens = given ++ left ++ [last.buffered] → Progress tokens given stream
  /-- All tokens have been handed out, and the end of the text may have been again and again. -/
  | complete {given : List Token} {last : TokenStream} (repeats : Nat) :
      (∀ token ∈ given, token.kind ≠ .endOfText) → last.atEnd →
      tokens = given ++ [last.buffered] →
      Progress tokens (given ++ .replicate (repeats + 1) last.buffered) last

variable {given : List Token}

theorem beforeEnd_eq_self (hgiven : ∀ token ∈ given, token.kind ≠ .endOfText) :
    beforeEnd given = given :=
  List.filter_eq_self.mpr fun token hmem => decide_eq_true (hgiven token hmem)

theorem beforeEnd_replicate (hend : last.atEnd) (count : Nat) :
    beforeEnd (.replicate count last.buffered) = [] := by
  have hkind : last.buffered.kind = .endOfText := of_decide_eq_true hend
  simp [beforeEnd, hkind]

theorem untilEnd_append (hgiven : ∀ token ∈ given, token.kind ≠ .endOfText) (back : List Token) :
    untilEnd (given ++ back) = given ++ untilEnd back := by
  induction given with
  | nil => rfl
  | cons token given ih =>
      obtain ⟨htoken, hrest⟩ := List.forall_mem_cons.mp hgiven
      rw [List.cons_append, untilEnd, if_neg htoken, ih hrest, List.cons_append]

/-- The end of the text completes what has been given. -/
theorem Progress.again (hprogress : Progress tokens given last) (hend : last.atEnd) :
    beforeEnd given ++ [last.buffered] = tokens ∧
      Progress tokens (given ++ [last.buffered]) last := by
  cases hprogress with
  | underway hgiven hpasses hlast htokens =>
      obtain ⟨rfl, rfl⟩ := hpasses.to_end_unique hlast (.nil _) hend
      rw [List.append_nil] at htokens
      rw [beforeEnd_eq_self hgiven]
      exact ⟨htokens.symm, .complete 0 hgiven hend htokens⟩
  | @complete given _ repeats hgiven _ htokens =>
      rw [beforeEnd_append, beforeEnd_eq_self hgiven, beforeEnd_replicate hend, List.append_nil,
        List.append_assoc, ← List.replicate_succ']
      exact ⟨htokens.symm, .complete (repeats + 1) hgiven hend htokens⟩

/-- Every call succeeds and goes on where the one before has stopped. -/
theorem Progress.step (hprogress : Progress tokens given stream) (call : Call) :
    ∃ shown, (stream.turn call).result = .ok shown ∧
      Progress tokens (given ++ call.handed (.ok shown)) (stream.turn call).after ∧
      (call = .tokenize → beforeEnd given ++ shown = tokens) := by
  by_cases hend : stream.atEnd
  · obtain ⟨htokens, hagain⟩ := hprogress.again hend
    rw [turn_of_atEnd hend]
    refine ⟨_, rfl, ?_, fun _ => htokens⟩
    cases call with
    | peek => rwa [Call.handed, List.append_nil]
    | advance | tokenize => exact hagain
  · cases hprogress with
    | complete _ _ hlast _ => exact absurd hlast hend
    | @underway _ left _ last hgiven hpasses hlast htokens =>
        cases call with
        | peek =>
            refine ⟨_, rfl, ?_, Call.noConfusion⟩
            rw [Call.handed, List.append_nil]
            exact .underway hgiven hpasses hlast htokens
        | advance =>
            cases hpasses with
            | nil => exact absurd hlast hend
            | @cons _ middle _ token left hhands hrest =>
                have hturn : stream.turn .advance = ⟨.advance, stream, .ok [token], middle⟩ := by
                  simp only [TokenStream.turn, hhands.2]
                rw [hturn]
                refine ⟨_, rfl, .underway ?_ hrest hlast ?_, Call.noConfusion⟩
                · exact List.forall_mem_append.mpr
                    ⟨hgiven, List.forall_mem_singleton.mpr hhands.kind_ne⟩
                · simpa [Call.handed] using htokens
        | tokenize =>
            have htokenize : tokenize stream = .ok (left ++ [last.buffered]) last :=
              tokenize_eq_ok_iff.mpr ⟨left, hpasses, hlast, rfl⟩
            have hturn : stream.turn .tokenize =
                ⟨.tokenize, stream, .ok (left ++ [last.buffered]), last⟩ := by
              simp only [TokenStream.turn, htokenize]
            rw [hturn, beforeEnd_eq_self hgiven]
            refine ⟨_, rfl, ?_, fun _ => by rw [htokens, List.append_assoc]⟩
            change Progress tokens (given ++ (left ++ [last.buffered])) last
            rw [← List.append_assoc]
            exact .complete 0 (List.forall_mem_append.mpr ⟨hgiven, hpasses.kind_ne⟩) hlast htokens

theorem Progress.run (hprogress : Progress tokens given start) (calls : List Call) :
    Progress tokens (given ++ handed (start.session calls)) (start.leaves calls) := by
  induction calls generalizing start given with
  | nil => rwa [TokenStream.session, handed, List.flatMap_nil, List.append_nil]
  | cons call calls ih =>
      obtain ⟨shown, hresult, hnext, -⟩ := hprogress.step call
      rw [TokenStream.session, handed_cons, ← List.append_assoc, Turn.handed, turn_call, hresult]
      exact ih hnext

/-- What has been given up to the end of the text are the first tokens. -/
theorem Progress.begins (hprogress : Progress tokens given stream) :
    untilEnd given <+: tokens := by
  cases hprogress with
  | underway hgiven _ _ htokens =>
      have huntil := untilEnd_append hgiven []
      rw [List.append_nil, untilEnd, List.append_nil] at huntil
      rw [huntil, htokens, List.append_assoc]
      exact List.prefix_append _ _
  | complete repeats hgiven hend htokens =>
      have hkind := of_decide_eq_true hend
      have huntil := untilEnd_append hgiven (List.replicate (repeats + 1) stream.buffered)
      rw [List.replicate_succ, untilEnd, if_pos hkind] at huntil
      rw [htokens]
      exact huntil ▸ List.prefix_rfl

/-- Where the end of the text has been given, it is all there is. -/
theorem Progress.eq_buffered {final : Token} (hprogress : Progress tokens given stream)
    (hmem : final ∈ given) (hfinal : final.kind = .endOfText) :
    stream.atEnd ∧ final = stream.buffered := by
  cases hprogress with
  | underway hgiven => exact absurd hfinal (hgiven final hmem)
  | complete repeats hgiven hend =>
      rcases List.mem_append.mp hmem with hgiven' | hrepeated
      · exact absurd hfinal (hgiven final hgiven')
      · exact ⟨hend, List.eq_of_mem_replicate hrepeated⟩

theorem progress_of_tokens (htokens : TokenStream.tokens source = .ok tokens)
    (hstart : ofSource source = .ok start) : Progress tokens [] start := by
  obtain ⟨start', last, front, hstart', hpasses, hlast, rfl⟩ := tokens_eq_ok_iff.mp htokens
  obtain rfl := Except.ok.inj (hstart.symm.trans hstart')
  exact .underway (by simp) hpasses hlast rfl

theorem delivers_session (htokens : TokenStream.tokens source = .ok tokens)
    (hstart : ofSource source = .ok start) (calls : List Call) :
    Delivers tokens (start.session calls) := by
  have hprogress := progress_of_tokens htokens hstart
  refine ⟨fun turn hmem => ?succeeds, (hprogress.run calls).begins,
    fun earlier turn later hsession hcall => ?completes,
    fun earlier turn later hsession final hmem hfinal => ?ended⟩
  case succeeds =>
    obtain ⟨earlier, later, hsession⟩ := List.append_of_mem hmem
    obtain ⟨front, call, -, -, rfl, -⟩ := session_split hsession
    obtain ⟨shown, hresult, -⟩ := (hprogress.run front).step call
    exact ⟨shown, hresult⟩
  case completes =>
    obtain ⟨front, call, -, rfl, rfl, -⟩ := session_split hsession
    rw [turn_call] at hcall
    obtain ⟨shown, hresult, -, hrest⟩ := (hprogress.run front).step call
    exact ⟨shown, hresult, hrest hcall⟩
  case ended =>
    obtain ⟨front, call, -, rfl, rfl, -⟩ := session_split hsession
    obtain ⟨hend, rfl⟩ := (hprogress.run front).eq_buffered hmem hfinal
    rw [turn_of_atEnd hend]

/-- **Every session is orderly, and where the text can be tokenized it delivers its tokens.** -/
theorem sessions_orderly_and_faithful (hstart : ofSource source = .ok start)
    (calls : List Call) :
    Orderly source start (start.session calls) ∧
      ∀ tokens, TokenStream.tokens source = .ok tokens →
        Delivers tokens (start.session calls) :=
  ⟨orderly_session hstart calls, fun _ htokens => delivers_session htokens hstart calls⟩

theorem sessions_orderly_and_faithful_escape :
    let broken := Source.ofString "broken" "a '\\q' b"
    let whole := Source.ofString "whole" "a /**/ b"
    let calls : List Call := [.peek, .tokenize, .advance, .tokenize, .advance, .peek, .tokenize]
    ∃ start other,
      ofSource broken = .ok start ∧ Orderly broken start (start.session calls) ∧
      ofSource whole = .ok other ∧
      Delivers [⟨.name, some "a", 0, 1⟩, ⟨.name, some "b", 7, 8⟩, .endOfText 8]
        (other.session calls) := by
  intro broken whole calls
  have hbroken : ofSource broken = .ok
      ⟨⟨.name, some "a", 0, 1⟩, 1, .ofText 1 " '\\q' b".toList⟩ := by decide +kernel
  have hwhole : ofSource whole = .ok
      ⟨⟨.name, some "a", 0, 1⟩, 1, .ofText 1 " /**/ b".toList⟩ := by decide +kernel
  have htokens : TokenStream.tokens whole = .ok
      [⟨.name, some "a", 0, 1⟩, ⟨.name, some "b", 7, 8⟩, .endOfText 8] := by decide +kernel
  exact ⟨_, _, hbroken, (sessions_orderly_and_faithful hbroken calls).1, hwhole,
    (sessions_orderly_and_faithful hwhole calls).2 _ htokens⟩

end ClassLang.TokenStream
