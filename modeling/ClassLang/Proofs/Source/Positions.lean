import ClassLang.Proofs.Source.Lines

/-! # Offsets and positions

Every offset of a text has one position, every position in the text is that of one offset, and the
offsets come in the order of their positions: line by line, and on each line from left to right. So
the offset can be counted out from the position and the lines of the text.
-/

namespace ClassLang

/-- The first position is on an earlier line, or further left on the same one. -/
def Position.Before (first second : Position) : Prop :=
  first.line < second.line ∨ first.line = second.line ∧ first.column < second.column

namespace Source

variable {source : Source} {offset later line : Nat} {content : List Char}

/-- The lines of a text are what line feeds separate. -/
theorem splitLines_eq_splitOn (text : List Char) : splitLines text = text.splitOn '\n' := by
  induction text with
  | nil => rfl
  | cons c rest ih =>
      rw [List.splitOn_cons_eq_if_modifyHead, ← ih, splitLines]
      obtain ⟨more, hsplit, -⟩ := exists_splitLines_eq rest
      by_cases hc : c = '\n'
      · rw [if_pos hc, if_pos (beq_iff_eq.mpr hc)]
      · rw [if_neg hc, if_neg (mt beq_iff_eq.mp hc), hsplit]
        rfl

/-! ## The order of positions -/

/-- The lines do not come down again. -/
theorem position_line_mono (hle : offset ≤ later) :
    (source.position offset).line ≤ (source.position later).line :=
  Nat.succ_le_succ ((List.take_sublist_take_left hle).count_le '\n')

/-- The position of a later offset comes later. -/
theorem position_before (hlt : offset < later) (hlater : later ≤ source.length) :
    (source.position offset).Before (source.position later) := by
  rcases Nat.lt_or_eq_of_le (source.position_line_mono (Nat.le_of_lt hlt)) with hbelow | heq
  · exact .inl hbelow
  · -- on one line both columns count from the same start
    have hfirst := lineStart_add_column (Nat.le_trans (Nat.le_of_lt hlt) hlater)
    have hsecond := lineStart_add_column hlater
    rw [heq] at hfirst
    exact .inr ⟨heq, by omega⟩

/-! ## Offsets of positions -/

/-- A line ends within the text. -/
theorem lineText_le (hoffset : offset ≤ source.length)
    (hcolumn : (source.position offset).column = 1) :
    offset + (source.lineText offset).length ≤ source.length := by
  have hbefore : (afterLastNewline (source.text.take offset)).length = 0 :=
    Nat.succ.inj hcolumn
  have hbehind : (beforeNewline (source.text.drop offset)).length ≤ source.length - offset := by
    rw [length, ← List.length_drop]
    exact (List.takeWhile_sublist _).length_le
  rw [lineText, List.length_append, hbefore]
  omega

/-- At every column of a line, and right behind the line, there is an offset. -/
theorem exists_position_eq_column (hline : 1 ≤ line)
    (hcontent : source.lines[line - 1]? = some content) {column : Nat} (hone : 1 ≤ column)
    (hcolumn : column ≤ content.length + 1) :
    ∃ offset ≤ source.length, source.position offset = ⟨line, column⟩ := by
  have hcount : line ≤ source.lineCount := by
    have hlt := (List.getElem?_eq_some_iff.mp hcontent).1
    rw [length_lines] at hlt
    omega
  obtain ⟨start, hstart, hposition⟩ := exists_position_eq hline hcount
  have htext := lines_getElem?_start hposition
  obtain rfl := Option.some.inj (htext.symm.trans hcontent)
  have hend := lineText_le hstart (congrArg Position.column hposition)
  have hoffset : start + (column - 1) ≤ source.length := by omega
  refine ⟨start + (column - 1), hoffset, ?_⟩
  have hseen := position_cases hstart hposition hoffset
  unfold Position.SeenFrom at hseen
  generalize source.position (start + (column - 1)) = position at hseen ⊢
  cases position with
  | mk row place =>
      dsimp only at hseen
      obtain ⟨rfl, rfl⟩ : row = line ∧ place = column := by omega
      rfl

/-- Different offsets have different positions. -/
theorem position_injective (hoffset : offset ≤ source.length) (hlater : later ≤ source.length)
    (heq : source.position offset = source.position later) : offset = later := by
  have hfirst := lineStart_add_column hoffset
  have hsecond := lineStart_add_column hlater
  rw [heq] at hfirst
  omega

/-! ## Places in the text -/

theorem checkOffset_of_le {offset : Int} (hstart : 0 ≤ offset) (hstop : offset ≤ source.length) :
    source.checkOffset offset = .ok offset.toNat :=
  if_neg (by omega)

theorem checkOffset_of_outside {offset : Int} (houtside : offset < 0 ∨ source.length < offset) :
    source.checkOffset offset = .error (.offset offset source.uri) :=
  if_pos houtside

/-- An offset within the text has a position. -/
theorem positionAt_of_le {offset : Int} (hstart : 0 ≤ offset) (hstop : offset ≤ source.length) :
    source.positionAt offset = .ok (source.position offset.toNat) := by
  rw [positionAt, checkOffset_of_le hstart hstop]
  rfl

/-- Only the places in the text have positions. -/
theorem positionAt_eq_ok_iff {offset : Int} {position : Position} :
    source.positionAt offset = .ok position ↔
      ∃ place ≤ source.length, offset = place ∧ source.position place = position := by
  constructor
  · intro hposition
    by_cases hinside : 0 ≤ offset ∧ offset ≤ source.length
    · rw [positionAt_of_le hinside.1 hinside.2] at hposition
      exact ⟨offset.toNat, by omega, by omega, Except.ok.inj hposition⟩
    · rw [positionAt, checkOffset_of_outside (by omega)] at hposition
      cases hposition
  · rintro ⟨place, hplace, rfl, rfl⟩
    exact positionAt_of_le (Int.natCast_nonneg place) (Int.ofNat_le.mpr hplace)

/-- **Offsets and positions correspond one to one.** An offset in the text is on a line that there
is, at a column that this line has, and is counted out from the lines before it and the column. The
positions come in the order of the offsets, and each line and column that there is belongs to one
offset. Any other offset is refused. -/
theorem positions_correspond (source : Source) :
    source.lines = source.text.splitOn '\n' ∧ source.lines.length = source.lineCount ∧
    (∀ offset : Int, 0 ≤ offset → offset ≤ source.length → ∃ position content,
      source.positionAt offset = .ok position ∧ source.lineTextAt offset = .ok content ∧
      1 ≤ position.line ∧ position.line ≤ source.lineCount ∧
      source.lines[position.line - 1]? = some content ∧
      1 ≤ position.column ∧ position.column ≤ content.length + 1 ∧
      offset = (((source.lines.take (position.line - 1)).map (·.length + 1)).sum +
        (position.column - 1) : Nat)) ∧
    (∀ (offset later : Int) (position next : Position), offset < later →
      source.positionAt offset = .ok position → source.positionAt later = .ok next →
      position.Before next) ∧
    (∀ (position : Position) (content : List Char),
      1 ≤ position.line → source.lines[position.line - 1]? = some content →
      1 ≤ position.column → position.column ≤ content.length + 1 →
      ∃! offset, source.positionAt offset = .ok position) ∧
    ∀ offset : Int, offset < 0 ∨ source.length < offset →
      source.positionAt offset = .error (.offset offset source.uri) ∧
      source.lineTextAt offset = .error (.offset offset source.uri) := by
  refine ⟨splitLines_eq_splitOn source.text, source.length_lines, ?inside, ?order, ?unique,
    ?outside⟩
  case inside =>
    intro offset hstart hstop
    have hcolumn := source.one_le_position_column offset.toNat
    have hle : offset.toNat ≤ source.length := by omega
    have hsum := lineStart_add_column hle
    refine ⟨_, _, positionAt_of_le hstart hstop, ?_, source.one_le_position_line _,
      source.position_line_le _, source.lines_getElem?_position _, hcolumn,
      source.position_column_le _, ?_⟩
    · rw [lineTextAt, checkOffset_of_le hstart hstop]
      rfl
    · unfold lineStart at hsum
      omega
  case order =>
    intro offset later position next hlt hposition hnext
    obtain ⟨place, -, rfl, rfl⟩ := positionAt_eq_ok_iff.mp hposition
    obtain ⟨laterPlace, hlater, rfl, rfl⟩ := positionAt_eq_ok_iff.mp hnext
    exact position_before (Int.ofNat_lt.mp hlt) hlater
  case unique =>
    intro position content hline hcontent hone hcolumn
    obtain ⟨place, hplace, hposition⟩ := exists_position_eq_column hline hcontent hone hcolumn
    refine ⟨place, positionAt_eq_ok_iff.mpr ⟨place, hplace, rfl, hposition⟩, fun other hother => ?_⟩
    obtain ⟨otherPlace, hle, rfl, heq⟩ := positionAt_eq_ok_iff.mp hother
    rw [position_injective hle hplace (heq.trans hposition.symm)]
  case outside =>
    intro offset houtside
    rw [positionAt, lineTextAt, checkOffset_of_outside houtside]
    exact ⟨rfl, rfl⟩

/-- On an empty line between others there is one column, and behind the last line feed an empty last
line. -/
theorem positions_correspond_empty_lines :
    let source := Source.ofString "demo" "ab\n\nc\n"
    source.length = 6 ∧
      (∃ position content, source.positionAt 3 = .ok position ∧
        source.lineTextAt 3 = .ok content ∧ source.lines[position.line - 1]? = some content) ∧
      (∃! offset, source.positionAt offset = .ok ⟨1, 3⟩) ∧
      (∃! offset, source.positionAt offset = .ok ⟨4, 1⟩) ∧
      (⟨1, 3⟩ : Position).Before ⟨4, 1⟩ ∧
      source.positionAt 7 = .error (.offset 7 "demo") := by
  intro source
  obtain ⟨-, -, hinside, horder, hunique, houtside⟩ := positions_correspond source
  obtain ⟨position, content, hposition, hcontent, -, -, hline, -⟩ :=
    hinside 3 (by decide) (by decide)
  have hfirst : source.positionAt 2 = .ok ⟨1, 3⟩ := by decide
  have hlast : source.positionAt 6 = .ok ⟨4, 1⟩ := by decide
  exact ⟨by decide, ⟨position, content, hposition, hcontent, hline⟩,
    hunique ⟨1, 3⟩ ['a', 'b'] (by decide) (by decide) (by decide) (by decide),
    hunique ⟨4, 1⟩ [] (by decide) (by decide) (by decide) (by decide),
    horder 2 6 _ _ (by decide) hfirst hlast, (houtside 7 (by decide)).1⟩

end Source

end ClassLang
