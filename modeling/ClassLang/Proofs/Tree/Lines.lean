import ClassLang.Tree.Outline

/-! # Lines and what is below them

What is below a line is further in than the line, so where it ends can be told from the lines. The
lines can be told from the text that they make up if none of them holds a line feed.
-/

namespace ClassLang

namespace Outline

variable {first second rest rest' : List String}

/-! ## Indentation -/

/-- The line is not indented. -/
def IsFlush (line : String) : Prop := ∀ other, line ≠ indent other

/-- What follows is not further in. -/
def Returns (lines : List String) : Prop := ∀ line ∈ lines.head?, IsFlush line

theorem indent_injective {line other : String} (heq : indent line = indent other) : line = other :=
  (String.append_right_inj "  ").mp heq

/-- Where what is below a line ends can be told from the indentation. -/
theorem below_append_inj (hrest : Returns rest) (hrest' : Returns rest')
    (heq : below first ++ rest = below second ++ rest') : first = second ∧ rest = rest' := by
  induction first generalizing second with
  | nil =>
      cases second with
      | nil => exact ⟨rfl, heq⟩
      | cons other second =>
          have hrest : rest = indent other :: (below second ++ rest') := heq
          subst hrest
          exact absurd rfl (hrest _ rfl other)
  | cons line first ih =>
      cases second with
      | nil =>
          have hrest' : rest' = indent line :: (below first ++ rest) := heq.symm
          subst hrest'
          exact absurd rfl (hrest' _ rfl line)
      | cons other second =>
          obtain ⟨hline, hlines⟩ := List.cons.inj heq
          obtain ⟨rfl, rfl⟩ := ih hlines
          exact ⟨by rw [indent_injective hline], rfl⟩

/-! ## One text -/

/-- The line holds no line feed. -/
def IsSingle (line : String) : Prop := '\n' ∉ line.toList

instance (line : String) : Decidable (IsSingle line) := inferInstanceAs (Decidable (¬ _))

@[simp]
theorem isSingle_append {front back : String} :
    IsSingle (front ++ back) ↔ IsSingle front ∧ IsSingle back := by
  rw [IsSingle, String.toList_append, List.mem_append, not_or]
  rfl

theorem isSingle_intercalate {separator : String} {parts : List String}
    (hseparator : IsSingle separator) (hparts : ∀ part ∈ parts, IsSingle part) :
    IsSingle (separator.intercalate parts) := by
  induction parts with
  | nil => exact List.not_mem_nil
  | cons part parts ih =>
      obtain ⟨hpart, hparts⟩ := List.forall_mem_cons.mp hparts
      cases parts with
      | nil => exact hpart
      | cons second parts =>
          rw [String.intercalate_cons_cons]
          exact isSingle_append.mpr ⟨isSingle_append.mpr ⟨hpart, hseparator⟩, ih hparts⟩

theorem isSingle_below {lines : List String} (hsingle : ∀ line ∈ lines, IsSingle line) :
    ∀ line ∈ below lines, IsSingle line := by
  intro line hmem
  obtain ⟨inner, hinner, rfl⟩ := List.mem_map.mp hmem
  exact isSingle_append.mpr ⟨by decide, hsingle inner hinner⟩

/-- The text that lines make up is cut into these lines. -/
theorem splitOn_intercalate_newline {lines : List String} (hlines : ∀ line ∈ lines, IsSingle line)
    (hne : lines ≠ []) :
    ("\n".intercalate lines).toList.splitOn '\n' = lines.map String.toList := by
  rw [String.toList_intercalate]
  refine List.splitOn_intercalate '\n' (fun line hmem => ?_) (by simpa using hne)
  obtain ⟨inner, hinner, rfl⟩ := List.mem_map.mp hmem
  exact hlines inner hinner

/-- Lines can be told from the text that they make up. -/
theorem intercalate_newline_inj (hfirst : ∀ line ∈ first, IsSingle line)
    (hsecond : ∀ line ∈ second, IsSingle line) (hne : first ≠ []) (hne' : second ≠ [])
    (heq : "\n".intercalate first = "\n".intercalate second) : first = second := by
  have hmap : first.map String.toList = second.map String.toList := by
    rw [← splitOn_intercalate_newline hfirst hne, heq, splitOn_intercalate_newline hsecond hne']
  exact (List.map_inj_right fun _ _ => String.toList_inj.mp).mp hmap

end Outline

end ClassLang
