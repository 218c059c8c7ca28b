import ClassLang.Proofs.Rendering.Lexeme
import ClassLang.Tree.Outline
import Mathlib.Data.List.Forall2

/-! # Words in a line

A word ends where a character stands that is in no word. So the words of a line can be told from
the line, and with them whatever is written in words between such characters.
-/

namespace ClassLang

open Scan

namespace Outline

variable {α β : Type} {word word' : String} {rest rest' : List Char}

/-- No word goes on here. -/
def Stops (text : List Char) : Prop := ∀ c ∈ text.head?, Lexeme.isWordChar c = false

/-- All characters may stand in words. -/
def IsWord (word : String) : Prop := ∀ c ∈ word.toList, Lexeme.isWordChar c

theorem stops_nil : Stops [] := by
  rintro _ ⟨⟩

theorem stops_cons {c : Char} (hc : Lexeme.isWordChar c = false) : Stops (c :: rest) := by
  rintro _ ⟨⟩
  exact hc

/-- At the head of a text stands what is in no word. -/
theorem stops_of_head {text : List Char} (hhead : text.head?.all (!Lexeme.isWordChar ·)) :
    Stops text := by
  intro c hc
  rw [Option.mem_def.mp hc] at hhead
  simpa using hhead

theorem isWord_of_isName (hname : IsName word) : IsWord word := List.all_eq_true.mp hname.1.1

theorem isWord_of_isTypename (htype : IsTypename word) : IsWord word :=
  List.all_eq_true.mp htype.1.1

theorem isWord_access (access : Access) : IsWord access.word := by
  cases access <;> exact List.all_eq_true.mp (by decide)

theorem takeWhile_word (hword : IsWord word) (hrest : Stops rest) :
    (word.toList ++ rest).takeWhile Lexeme.isWordChar = word.toList := by
  have hstop : rest.takeWhile Lexeme.isWordChar = [] := by
    cases rest with
    | nil => rfl
    | cons c rest => exact List.takeWhile_cons_of_neg (by simp [hrest c rfl])
  rw [List.takeWhile_append_of_pos hword, hstop, List.append_nil]

/-- A word can be told from what follows it. -/
theorem word_append_inj (hword : IsWord word) (hword' : IsWord word') (hrest : Stops rest)
    (hrest' : Stops rest') (heq : word.toList ++ rest = word'.toList ++ rest') :
    word = word' ∧ rest = rest' := by
  have hchars := congrArg (List.takeWhile Lexeme.isWordChar) heq
  rw [takeWhile_word hword hrest, takeWhile_word hword' hrest'] at hchars
  rw [hchars] at heq
  exact ⟨String.toList_inj.mp hchars, List.append_cancel_left heq⟩

theorem toString_text (text : String) : toString text = text := rfl

theorem stops_blank (text : String) : Stops (" " ++ text).toList := by
  rw [String.toList_append]
  exact stops_cons (by decide)

/-- A word behind a blank can be told from what follows it. -/
theorem spaced_inj {text text' : String} (hword : IsWord word) (hword' : IsWord word')
    (htext : Stops text.toList) (htext' : Stops text'.toList)
    (heq : " " ++ (word ++ text) = " " ++ (word' ++ text')) : word = word' ∧ text = text' := by
  have hchars := congrArg String.toList ((String.append_right_inj " ").mp heq)
  rw [String.toList_append, String.toList_append] at hchars
  obtain ⟨hwords, htexts⟩ := word_append_inj hword hword' htext htext' hchars
  exact ⟨hwords, String.toList_inj.mp htexts⟩

/-- The word that a line opens with. -/
def opening (line : String) : String := String.ofList (line.toList.takeWhile Lexeme.isWordChar)

theorem opening_append {remark : String} (hword : IsWord word) (hremark : Stops remark.toList) :
    opening (word ++ remark) = word := by
  rw [opening, String.toList_append, takeWhile_word hword hremark, String.ofList_toList]

/-! ## Several things in a line -/

/-- What is written of either thing can be told from what follows it, and the things from it. -/
def Tells (write : α → List Char) (write' : β → List Char) (alike : α → β → Prop) (a : α) (b : β) :
    Prop :=
  ∀ rest rest', Stops rest → Stops rest' → write a ++ rest = write' b ++ rest' →
    alike a b ∧ rest = rest'

theorem tells_word (hword : IsWord word) (hword' : IsWord word') :
    Tells String.toList String.toList Eq word word' :=
  fun _ _ hrest hrest' heq => word_append_inj hword hword' hrest hrest' heq

/-- The things one after the other, each behind the same mark and blanks. -/
def marked (mark : Char) (blanks : List Char) (write : α → List Char) (things : List α) :
    List Char :=
  things.flatMap fun thing => mark :: (blanks ++ write thing)

variable {mark : Char} {blanks : List Char} {write : α → List Char} {write' : β → List Char}
  {alike : α → β → Prop} {first : List α} {second : List β}

theorem stops_marked (hmark : Lexeme.isWordChar mark = false) (hrest : Stops rest) :
    Stops (marked mark blanks write first ++ rest) := by
  cases first with
  | nil => exact hrest
  | cons thing first => exact stops_cons hmark

/-- Things behind marks can be told from the line. -/
theorem marked_append_inj (hmark : Lexeme.isWordChar mark = false)
    (htells : ∀ a ∈ first, ∀ b ∈ second, Tells write write' alike a b)
    (hrest : Stops rest) (hrest' : Stops rest') (hend : rest.head? ≠ some mark)
    (hend' : rest'.head? ≠ some mark)
    (heq : marked mark blanks write first ++ rest = marked mark blanks write' second ++ rest') :
    List.Forall₂ alike first second ∧ rest = rest' := by
  induction first generalizing second with
  | nil =>
      cases second with
      | nil => exact ⟨.nil, heq⟩
      | cons b second =>
          have hrest : rest = _ := heq
          exact absurd (congrArg List.head? hrest) hend
  | cons a first ih =>
      cases second with
      | nil =>
          have hrest' : rest' = _ := heq.symm
          exact absurd (congrArg List.head? hrest') hend'
      | cons b second =>
          unfold marked at heq
          rw [List.flatMap_cons, List.flatMap_cons, List.cons_append, List.cons_append,
            List.cons_append, List.cons_append, List.append_assoc, List.append_assoc,
            List.append_assoc, List.append_assoc] at heq
          have hbody := List.append_cancel_left (List.cons.inj heq).2
          obtain ⟨halike, hmore⟩ := htells a List.mem_cons_self b List.mem_cons_self _ _
            (stops_marked hmark hrest) (stops_marked hmark hrest') hbody
          obtain ⟨hmembers, hends⟩ := ih
            (fun a ha b hb => htells a (.tail _ ha) b (.tail _ hb)) hmore
          exact ⟨.cons halike hmembers, hends⟩

/-- The same for a first thing and things behind marks. -/
theorem separated_append_inj {a : α} {b : β} (hmark : Lexeme.isWordChar mark = false)
    (htells : ∀ x ∈ a :: first, ∀ y ∈ b :: second, Tells write write' alike x y)
    (hrest : Stops rest) (hrest' : Stops rest') (hend : rest.head? ≠ some mark)
    (hend' : rest'.head? ≠ some mark)
    (heq : write a ++ (marked mark blanks write first ++ rest) =
      write' b ++ (marked mark blanks write' second ++ rest')) :
    List.Forall₂ alike (a :: first) (b :: second) := by
  obtain ⟨halike, hmore⟩ := htells a List.mem_cons_self b List.mem_cons_self _ _
    (stops_marked hmark hrest) (stops_marked hmark hrest') heq
  obtain ⟨hmembers, -⟩ := marked_append_inj hmark
    (fun x hx y hy => htells x (.tail _ hx) y (.tail _ hy)) hrest hrest' hend hend' hmore
  exact .cons halike hmembers

/-- Things between commas are a first one and things behind commas. -/
theorem intercalate_comma (thing : α) (things : List α) (write : α → String) :
    (", ".intercalate ((thing :: things).map write)).toList =
      (write thing).toList ++ marked ',' [' '] (fun thing => (write thing).toList) things := by
  induction things generalizing thing with
  | nil => simp [marked]
  | cons second things ih =>
      rw [List.map_cons, List.map_cons, String.intercalate_cons_cons, String.toList_append,
        String.toList_append, ← List.map_cons, ih]
      simp [marked]

end Outline

end ClassLang
