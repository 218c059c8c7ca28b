import ClassLang.Proofs.Tree.Alike

/-! # Printed trees

The text of an outline tells the lines, the lines tell where what is below each of them ends, and
each line tells what its node says. So legible trees are printed alike if and only if they are
alike.
-/

namespace ClassLang

open Outline

variable {ι κ : Type}

/-! ## Where an outline ends -/

/-- What follows is neither further in nor what is done otherwise. -/
def Outline.Ends (lines : List String) : Prop :=
  ∀ line ∈ lines.head?, IsFlush line ∧ line ≠ "Else"

variable {rest rest' : List String}

theorem Outline.Ends.returns (hends : Ends rest) : Returns rest :=
  fun line hline => (hends line hline).1

theorem Outline.opening_indent (line : String) : opening (indent line) = "" := by
  apply String.toList_inj.mp
  rw [opening, indent, String.toList_append, String.toList_ofList]
  exact List.takeWhile_cons_of_neg (by decide)

/-- A line that opens with a word is not indented. -/
theorem Outline.isFlush_of_opening {line : String} (hopening : opening line ≠ "") :
    IsFlush line := by
  rintro other rfl
  exact hopening (opening_indent other)

namespace Node

variable {node : Node ι} {other : Node κ}

/-- A line that opens with no sort is the line of no node. -/
theorem headline_ne {line : String} (hline : opening line ∉ sorts.flatten) (node : Node ι) :
    node.headline ≠ line := by
  rintro rfl
  rw [opening_headline] at hline
  exact hline node.sort_mem

theorem isFlush_headline (node : Node ι) : IsFlush node.headline := by
  intro other
  apply headline_ne
  rw [opening_indent]
  decide

theorem ends_outline (node : Node ι) (rest : List String) : Ends (node.outline ++ rest) := by
  rw [outline_eq]
  rintro _ ⟨⟩
  exact ⟨node.isFlush_headline, node.headline_ne (by decide)⟩

/-- The outlines of children end where those of others begin. -/
theorem ends_flatMap (places : List (Option (Node ι))) :
    Ends (places.flatMap (orEmpty outline)) := by
  cases places with
  | nil => rintro _ ⟨⟩
  | cons place places =>
      cases place with
      | none =>
          rintro _ ⟨⟩
          exact ⟨isFlush_of_opening (by decide), by decide⟩
      | some child => exact child.ends_outline _

/-! ## Trees from outlines -/

/-- A legible tree is told from the others by its outline, whatever follows. -/
def Told (κ : Type) (node : Node ι) : Prop :=
  ∀ (other : Node κ) (rest rest' : List String), other.LegibleAll → Ends rest → Ends rest' →
    node.outline ++ rest = other.outline ++ rest' → node.Alike other ∧ rest = rest'

/-- An outline alone tells the tree. -/
theorem Told.alike (htold : node.Told κ) (hother : other.LegibleAll)
    (heq : node.outline = other.outline) : node.Alike other := by
  have hends : Ends [] := by rintro _ ⟨⟩
  exact (htold other [] [] hother hends hends (by rw [heq])).1

/-- What stands in one place can be told from its lines, if a child in it can. -/
theorem alike_of_place {place : Option (Node ι)} {place' : Option (Node κ)}
    (htold : ∀ child ∈ place, child.Told κ) (hlegible : ∀ child ∈ place', child.LegibleAll)
    (hrest : Ends rest) (hrest' : Ends rest')
    (heq : orEmpty outline place ++ rest = orEmpty outline place' ++ rest') :
    Option.Rel Alike place place' ∧ rest = rest' := by
  have hempty {κ : Type} {child : Node κ} {lines lines' : List String} :
      child.outline ++ lines ≠ "Empty" :: lines' := by
    intro heq
    rw [outline_eq] at heq
    exact child.headline_ne (by decide) (List.cons.inj heq).1
  cases place with
  | none =>
      cases place' with
      | none => exact ⟨.none, (List.cons.inj heq).2⟩
      | some child' => exact absurd heq.symm hempty
  | some child =>
      cases place' with
      | none => exact absurd heq hempty
      | some child' =>
          obtain ⟨halike, hends⟩ :=
            htold child rfl child' rest rest' (hlegible child' rfl) hrest hrest' heq
          exact ⟨.some halike, hends⟩

theorem orEmpty_ne_nil (place : Option (Node ι)) : orEmpty outline place ≠ [] := by
  cases place with
  | none => exact List.cons_ne_nil _ _
  | some child => exact child.outline_ne_nil

/-- What stands in several places can be told from the lines of all. -/
theorem alike_of_places {places : List (Option (Node ι))} {places' : List (Option (Node κ))}
    (htold : ∀ child, some child ∈ places → child.Told κ)
    (hlegible : ∀ child, some child ∈ places' → child.LegibleAll)
    (heq : places.flatMap (orEmpty outline) = places'.flatMap (orEmpty outline)) :
    List.Forall₂ (Option.Rel Alike) places places' := by
  induction places generalizing places' with
  | nil =>
      cases places' with
      | nil => exact .nil
      | cons place' places' =>
          exact absurd (List.append_eq_nil_iff.mp heq.symm).1 (orEmpty_ne_nil place')
  | cons place places ih =>
      cases places' with
      | nil => exact absurd (List.append_eq_nil_iff.mp heq).1 (orEmpty_ne_nil place)
      | cons place' places' =>
          obtain ⟨hplace, hrest⟩ := alike_of_place
            (fun child hmem => htold child (List.mem_cons.mpr (.inl hmem.symm)))
            (fun child hmem => hlegible child (List.mem_cons.mpr (.inl hmem.symm)))
            (ends_flatMap places) (ends_flatMap places') heq
          exact .cons hplace (ih (fun child hmem => htold child (.tail _ hmem))
            (fun child hmem => hlegible child (.tail _ hmem)) hrest)

theorem returns_elseLines {place : Option (Node ι)} (hrest : Returns rest) :
    Returns (elseLines place ++ rest) := by
  cases place with
  | none => exact hrest
  | some other =>
      rintro _ ⟨⟩
      exact isFlush_of_opening (by decide)

/-- What is done otherwise can be told from its lines. -/
theorem alike_of_elseLines {place : Option (Node ι)} {place' : Option (Node κ)}
    (htold : ∀ child ∈ place, child.Told κ) (hlegible : ∀ child ∈ place', child.LegibleAll)
    (hrest : Ends rest) (hrest' : Ends rest')
    (heq : elseLines place ++ rest = elseLines place' ++ rest') :
    Option.Rel Alike place place' ∧ rest = rest' := by
  cases place with
  | none =>
      cases place' with
      | none => exact ⟨.none, heq⟩
      | some child' =>
          have hrest : rest = _ := heq
          subst hrest
          exact absurd rfl (hrest _ rfl).2
  | some child =>
      cases place' with
      | none =>
          have hrest : rest' = _ := heq.symm
          subst hrest
          exact absurd rfl (hrest' _ rfl).2
      | some child' =>
          obtain ⟨hlines, hends⟩ :=
            below_append_inj hrest.returns hrest'.returns (List.cons.inj heq).2
          exact ⟨.some ((htold child rfl).alike (hlegible child' rfl) hlines), hends⟩

/-- Every legible tree is told by its outline. -/
theorem LegibleAll.told (hnode : node.LegibleAll) : node.Told κ := by
  induction node using induction_on_lines with
  | step node hinner hotherwise =>
      intro other rest rest' hother hrest hrest' heq
      rw [outline_eq node, outline_eq other, List.cons_append, List.cons_append, List.append_assoc,
        List.append_assoc] at heq
      obtain ⟨hline, hlines⟩ := List.cons.inj heq
      -- neither what is done otherwise nor what follows is further in than the line
      obtain ⟨hbelow, hbeside⟩ := below_append_inj (returns_elseLines hrest.returns)
        (returns_elseLines hrest'.returns) hlines
      have hplaces := alike_of_places
        (fun child hmem => hinner child hmem (hnode.of_mem_inner hmem))
        (fun child hmem => hother.of_mem_inner hmem) hbelow
      obtain ⟨hotherwise, hends⟩ := alike_of_elseLines
        (fun child hmem => hotherwise child hmem (hnode.of_mem_otherwise hmem))
        (fun child hmem => hother.of_mem_otherwise hmem) hrest hrest' hbeside
      exact ⟨.of_line hnode.root hother.root hline ⟨hplaces, hotherwise⟩, hends⟩

/-! ## Outlines from trees -/

/-- What is alike in several places has the same lines. -/
theorem flatMap_eq_of_places {places : List (Option (Node ι))} {places' : List (Option (Node κ))}
    (hlines : ∀ child, some child ∈ places → ∀ other : Node κ, child.Alike other →
      child.outline = other.outline)
    (hplaces : List.Forall₂ (Option.Rel Alike) places places') :
    places.flatMap (orEmpty outline) = places'.flatMap (orEmpty outline) := by
  induction hplaces with
  | nil => rfl
  | cons hplace _ ih =>
      rw [List.flatMap_cons, List.flatMap_cons, ih fun child hmem => hlines child (.tail _ hmem)]
      cases hplace with
      | none => rfl
      | some halike =>
          rw [orEmpty, orEmpty, Option.elim_some, Option.elim_some,
            hlines _ List.mem_cons_self _ halike]

theorem elseLines_eq {place : Option (Node ι)} {place' : Option (Node κ)}
    (hlines : ∀ child ∈ place, ∀ other : Node κ, child.Alike other →
      child.outline = other.outline)
    (hplace : Option.Rel Alike place place') : elseLines place = elseLines place' := by
  cases hplace with
  | none => rfl
  | @some child child' halike =>
      change "Else" :: below child.outline = "Else" :: below child'.outline
      rw [hlines child rfl child' halike]

/-- Alike trees have the same outline. -/
theorem Alike.outline_eq (halike : node.Alike other) : node.outline = other.outline := by
  induction node using induction_on_lines generalizing other with
  | step node hinner hotherwise =>
      obtain ⟨hline, hplaces, hbeside⟩ := halike.line
      rw [Node.outline_eq node, Node.outline_eq other, hline,
        flatMap_eq_of_places (fun child hmem other => hinner child hmem) hplaces,
        elseLines_eq (fun child hmem other => hotherwise child hmem) hbeside]

/-- Legible trees have the same text if and only if they are alike. -/
theorem text_eq_iff (hnode : node.LegibleAll) (hother : other.LegibleAll) :
    node.text = other.text ↔ node.Alike other := by
  constructor
  · intro htext
    exact hnode.told.alike hother (intercalate_newline_inj
      hnode.properAll.isSingle_of_mem_outline hother.properAll.isSingle_of_mem_outline
      node.outline_ne_nil other.outline_ne_nil htext)
  · intro halike
    rw [text, text, halike.outline_eq]

end Node

end ClassLang
