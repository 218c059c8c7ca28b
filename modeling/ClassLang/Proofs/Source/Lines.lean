import Mathlib.Algebra.Order.BigOperators.Group.List
import Mathlib.Algebra.Order.Ring.Nat
import Mathlib.Data.List.TakeDrop
import Mathlib.Data.List.TakeWhile
import Mathlib.Order.Monotone.Basic
import ClassLang.Source.Basic

/-! # Lines and positions

The lines of a source come from one pass over its text, the position of an offset from the line
feeds before it. They agree: the line that a position names is the one that holds the offset, and
the starts of the lines tell which offsets stand before, on and behind each of them.
-/

namespace ClassLang

/-- How the position of an offset is seen from a line of some width: before the line, on the line,
with its column counted from the start, or behind the line. -/
def Position.SeenFrom (position : Position) (line start width offset : Nat) :
    Prop :=
  position.line < line ∧ offset < start ∨
    position.line = line ∧ start ≤ offset ∧ offset ≤ start + width ∧
      start + position.column = offset + 1 ∨
    line < position.line ∧ start + width < offset

namespace Source

/-! ## A text in two parts -/

section Parts

variable {text : List Char}

theorem afterLastNewline_of_not_mem (hmem : '\n' ∉ text) : afterLastNewline text = text := by
  have hall : ∀ c ∈ text.reverse, (c != '\n') = true := fun c hc =>
    bne_iff_ne.mpr fun heq => hmem (heq ▸ List.mem_reverse.mp hc)
  rw [afterLastNewline, List.takeWhile_eq_self_iff.mpr hall, List.reverse_reverse]

/-- What stands before a line feed does not matter. -/
theorem afterLastNewline_cons_of_mem (c : Char) (hmem : '\n' ∈ text) :
    afterLastNewline (c :: text) = afterLastNewline text := by
  have hshort : (text.reverse.takeWhile (· != '\n')).length ≠ text.reverse.length := by
    intro hlength
    have hwhole := (List.takeWhile_prefix (· != '\n')).eq_of_length hlength
    have hall := List.takeWhile_eq_self_iff.mp hwhole '\n' (List.mem_reverse.mpr hmem)
    simp at hall
  rw [afterLastNewline, List.reverse_cons, List.takeWhile_append, if_neg hshort, afterLastNewline]

theorem afterLastNewline_newline_cons :
    afterLastNewline ('\n' :: text) = afterLastNewline text := by
  by_cases hmem : '\n' ∈ text
  · exact afterLastNewline_cons_of_mem '\n' hmem
  · have hall : ∀ c ∈ text.reverse, (c != '\n') = true := fun c hc =>
      bne_iff_ne.mpr fun heq => hmem (heq ▸ List.mem_reverse.mp hc)
    rw [afterLastNewline, List.reverse_cons, List.takeWhile_append_of_pos hall,
      List.takeWhile_cons_of_neg (by decide), List.append_nil, List.reverse_reverse,
      afterLastNewline_of_not_mem hmem]

/-- The first line of a text, and as many more as there are line feeds. -/
theorem exists_splitLines_eq (text : List Char) :
    ∃ more, splitLines text = beforeNewline text :: more ∧ more.length = text.count '\n' := by
  induction text with
  | nil => exact ⟨[], rfl, rfl⟩
  | cons c rest ih =>
      obtain ⟨more, hsplit, hlength⟩ := ih
      unfold splitLines
      split
      case isTrue hc =>
        refine ⟨splitLines rest, by simp [beforeNewline, hc], ?_⟩
        rw [hsplit, List.length_cons, hlength, hc, List.count_cons_self]
      case isFalse hc =>
        refine ⟨more, by simp [hsplit, beforeNewline, hc], ?_⟩
        rw [hlength, List.count_cons_of_ne hc]

/-- The lines of a text in two parts: those that end in the first part, the one in which it goes
over into the second, and those that begin in the second part. -/
theorem exists_splitLines_append (before rest : List Char) :
    ∃ front back, splitLines (before ++ rest) =
        front ++ (afterLastNewline before ++ beforeNewline rest) :: back ∧
      front.length = before.count '\n' ∧
      before.length = (front.map (·.length + 1)).sum + (afterLastNewline before).length := by
  induction before with
  | nil =>
      obtain ⟨more, hsplit, -⟩ := exists_splitLines_eq rest
      exact ⟨[], more, hsplit, rfl, rfl⟩
  | cons c before ih =>
      obtain ⟨front, back, hsplit, hlength, hsum⟩ := ih
      rw [List.cons_append]
      unfold splitLines
      split
      case isTrue hc =>
        subst hc
        refine ⟨[] :: front, back, by rw [hsplit, afterLastNewline_newline_cons]; rfl, ?_, ?_⟩
        · rw [List.length_cons, hlength, List.count_cons_self]
        · rw [afterLastNewline_newline_cons, List.map_cons, List.sum_cons, List.length_cons, hsum,
            List.length_nil]
          omega
      case isFalse hc =>
        rw [hsplit]
        cases front with
        | nil =>
            -- no line has ended yet, and the first one grows
            have hmem : '\n' ∉ before := List.count_eq_zero.mp hlength.symm
            have hmem' : '\n' ∉ c :: before := by
              rw [List.mem_cons, not_or]
              exact ⟨Ne.symm hc, hmem⟩
            refine ⟨[], back, ?_, ?_, ?_⟩
            · rw [afterLastNewline_of_not_mem hmem, afterLastNewline_of_not_mem hmem']
              rfl
            · exact (List.count_eq_zero.mpr hmem').symm
            · rw [afterLastNewline_of_not_mem hmem', List.map_nil, List.sum_nil, Nat.zero_add]
        | cons line front =>
            have hmem : '\n' ∈ before := by
              rw [← List.count_pos_iff, ← hlength]
              exact Nat.succ_pos _
            refine ⟨(c :: line) :: front, back, ?_, ?_, ?_⟩
            · rw [afterLastNewline_cons_of_mem c hmem]
              rfl
            · rw [List.count_cons_of_ne hc, ← hlength]
              rfl
            · rw [afterLastNewline_cons_of_mem c hmem, List.length_cons, hsum]
              simp only [List.map_cons, List.sum_cons, List.length_cons]
              omega

/-- Every line of a text begins somewhere in it. -/
theorem exists_append_of_le_count {text : List Char} {ended : Nat} (hle : ended ≤ text.count '\n') :
    ∃ before rest, text = before ++ rest ∧ before.count '\n' = ended ∧
      afterLastNewline before = [] := by
  induction text generalizing ended with
  | nil => exact ⟨[], [], rfl, (Nat.le_zero.mp hle).symm, rfl⟩
  | cons c text ih =>
      cases ended with
      | zero => exact ⟨[], c :: text, rfl, rfl, rfl⟩
      | succ ended =>
          by_cases hc : c = '\n'
          · subst hc
            rw [List.count_cons_self] at hle
            obtain ⟨before, rest, rfl, hcount, hafter⟩ := ih (Nat.le_of_succ_le_succ hle)
            refine ⟨'\n' :: before, rest, rfl, ?_, ?_⟩
            · rw [List.count_cons_self, hcount]
            · rw [afterLastNewline_newline_cons, hafter]
          · rw [List.count_cons_of_ne hc] at hle
            obtain ⟨before, rest, rfl, hcount, hafter⟩ := ih hle
            have hmem : '\n' ∈ before := by
              rw [← List.count_pos_iff, hcount]
              exact Nat.succ_pos _
            refine ⟨c :: before, rest, rfl, ?_, ?_⟩
            · rw [List.count_cons_of_ne hc, hcount]
            · rw [afterLastNewline_cons_of_mem c hmem, hafter]

end Parts

/-! ## The lines of a source -/

section Lines

variable (source : Source) (offset : Nat)

theorem length_lines : source.lines.length = source.lineCount := by
  obtain ⟨more, hsplit, hlength⟩ := exists_splitLines_eq source.text
  rw [lines, hsplit, List.length_cons, hlength, lineCount]

/-- How many characters, line feeds among them, stand before a line. -/
def lineStart (line : Nat) : Nat := ((source.lines.take (line - 1)).map (·.length + 1)).sum

theorem one_le_position_line : 1 ≤ (source.position offset).line := Nat.le_add_left 1 _

theorem one_le_position_column : 1 ≤ (source.position offset).column := Nat.le_add_left 1 _

theorem position_line_le : (source.position offset).line ≤ source.lineCount :=
  Nat.succ_le_succ ((List.take_sublist offset source.text).count_le '\n')

theorem position_column_le :
    (source.position offset).column ≤ (source.lineText offset).length + 1 := by
  rw [lineText, List.length_append]
  exact Nat.succ_le_succ (Nat.le_add_right _ _)

/-- The line that holds an offset is the one that its position names. -/
theorem lines_getElem?_position :
    source.lines[(source.position offset).line - 1]? = some (source.lineText offset) := by
  obtain ⟨front, back, hsplit, hlength, -⟩ :=
    exists_splitLines_append (source.text.take offset) (source.text.drop offset)
  rw [List.take_append_drop] at hsplit
  rw [lines, hsplit, position, Nat.add_sub_cancel, ← hlength,
    List.getElem?_append_right (Nat.le_refl _), Nat.sub_self]
  rfl

variable {source offset} {line : Nat}

/-- A position counts from the start of its line. -/
theorem lineStart_add_column (hle : offset ≤ source.length) :
    source.lineStart (source.position offset).line + (source.position offset).column =
      offset + 1 := by
  obtain ⟨front, back, hsplit, hlength, hsum⟩ :=
    exists_splitLines_append (source.text.take offset) (source.text.drop offset)
  rw [List.take_append_drop] at hsplit
  rw [List.length_take_of_le hle] at hsum
  have hstart : source.lineStart (source.position offset).line =
      (front.map (·.length + 1)).sum := by
    rw [lineStart, lines, hsplit, position, Nat.add_sub_cancel, ← hlength, List.take_left]
  rw [hstart, position]
  dsimp only
  omega

theorem lineStart_succ {content : List Char} (hline : 1 ≤ line)
    (hcontent : source.lines[line - 1]? = some content) :
    source.lineStart (line + 1) = source.lineStart line + content.length + 1 := by
  have htake : source.lines.take (line + 1 - 1) = source.lines.take (line - 1) ++ [content] := by
    rw [show line + 1 - 1 = line - 1 + 1 by omega, List.take_add_one, hcontent]
    rfl
  rw [lineStart, htake, List.map_append, List.sum_append, lineStart, Nat.add_assoc]
  rfl

theorem lineStart_mono : Monotone source.lineStart := by
  intro line later hle
  have hsublist : (source.lines.take (line - 1)).Sublist (source.lines.take (later - 1)) :=
    List.take_sublist_take_left (Nat.sub_le_sub_right hle 1)
  exact (hsublist.map _).sum_le_sum fun _ _ => Nat.zero_le _

/-- Every line has a start. -/
theorem exists_position_eq (hline : 1 ≤ line) (hle : line ≤ source.lineCount) :
    ∃ start ≤ source.length, source.position start = ⟨line, 1⟩ := by
  have hended : line - 1 ≤ source.text.count '\n' := by
    rw [lineCount] at hle
    omega
  obtain ⟨before, rest, htext, hcount, hafter⟩ := exists_append_of_le_count hended
  refine ⟨before.length, ?_, ?_⟩
  · rw [length, htext, List.length_append]
    exact Nat.le_add_right _ _
  · rw [position, htext, List.take_left, hcount, hafter, Nat.sub_add_cancel hline]
    rfl

end Lines

/-! ## Before, on and behind a line -/

section Line

variable {source : Source} {start line offset : Nat} (hstart : start ≤ source.length)
  (hposition : source.position start = ⟨line, 1⟩)

include hposition

theorem lines_getElem?_start : source.lines[line - 1]? = some (source.lineText start) := by
  have hline := source.lines_getElem?_position start
  rwa [hposition] at hline

/-- Offsets with the same line are on the same line. -/
theorem lineText_eq (heq : (source.position offset).line = line) :
    source.lineText offset = source.lineText start := by
  have hline := source.lines_getElem?_position offset
  rw [heq, lines_getElem?_start hposition] at hline
  exact (Option.some.inj hline).symm

include hstart

/-- An offset stands before a line, on it or behind it. On it the column is counted from the
start. -/
theorem position_cases (hle : offset ≤ source.length) :
    (source.position offset).SeenFrom line start (source.lineText start).length offset := by
  have hbegin := lineStart_add_column hstart
  have hline := source.one_le_position_line start
  rw [hposition] at hbegin hline
  have hend := lineStart_succ hline (lines_getElem?_start hposition)
  have hsum := lineStart_add_column hle
  have hone := source.one_le_position_column offset
  have hcolumn := source.position_column_le offset
  rcases Nat.lt_trichotomy (source.position offset).line line with hbefore | heq | hbehind
  · have hnext := lineStart_succ (source.one_le_position_line offset)
      (source.lines_getElem?_position offset)
    have hmono := source.lineStart_mono (Nat.succ_le_of_lt hbefore)
    refine .inl ⟨hbefore, ?_⟩
    dsimp only [Nat.succ_eq_add_one] at *
    omega
  · rw [heq] at hsum
    rw [lineText_eq hposition heq] at hcolumn
    dsimp only at *
    exact .inr (.inl ⟨heq, by omega, by omega, by omega⟩)
  · have hmono := source.lineStart_mono (Nat.succ_le_of_lt hbehind)
    dsimp only [Nat.succ_eq_add_one] at *
    exact .inr (.inr ⟨hbehind, by omega⟩)

end Line

end Source

end ClassLang
