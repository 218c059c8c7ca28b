/-! # Layout

What may stand between two tokens: blanks, comments that run to the end of the
line, and comments between `/*` and the first `*/`. Layout is skipped, and the
only thing that can go wrong with it is a comment that is never closed.
-/

namespace ClassLang.Scan

/-- The blanks that separate tokens. -/
def isLayoutBlank (c : Char) : Bool := c == ' ' || c == '\r' || c == '\n' || c == '\t'

/-- Split a text after its first `*/`. -/
def splitCommentEnd : List Char → Option (List Char × List Char)
  | [] => none
  | '*' :: '/' :: rest => some (['*', '/'], rest)
  | c :: rest => (splitCommentEnd rest).map fun (body, after) => (c :: body, after)

theorem append_of_splitCommentEnd {text body rest : List Char}
    (hsplit : splitCommentEnd text = some (body, rest)) : body ++ rest = text := by
  fun_induction splitCommentEnd text generalizing body with
  | case1 => simp at hsplit
  | case2 after => grind
  | case3 c after _ ih =>
      obtain ⟨⟨inner, tail⟩, hinner, heq⟩ := Option.map_eq_some_iff.mp hsplit
      grind

/-- A text split at the end of the layout it begins with. -/
inductive Layout where
  /-- The layout is `skipped`; the `rest` begins with no layout. -/
  | clear (skipped rest : List Char)
  /-- After the layout `skipped` a `comment` begins that takes up the rest of the text. -/
  | openComment (skipped comment : List Char)
deriving DecidableEq, Repr

namespace Layout

/-- Put more layout in front. -/
def after (front : List Char) : Layout → Layout
  | clear skipped rest => clear (front ++ skipped) rest
  | openComment skipped comment => openComment (front ++ skipped) comment

/-- The text that was split. -/
def text : Layout → List Char
  | clear skipped rest => skipped ++ rest
  | openComment skipped comment => skipped ++ comment

@[simp] theorem text_after (front : List Char) (layout : Layout) :
    (layout.after front).text = front ++ layout.text := by
  cases layout <;> simp [after, text]

/-- Split a text at the end of the layout it begins with. -/
def split (text : List Char) : Layout :=
  match text with
  | '/' :: '/' :: rest =>
      let comment := rest.takeWhile (· != '\n')
      (split (rest.dropWhile (· != '\n'))).after ('/' :: '/' :: comment)
  | '/' :: '*' :: rest =>
      match _hclose : splitCommentEnd rest with
      | some (comment, more) => (split more).after ('/' :: '*' :: comment)
      | none => openComment [] ('/' :: '*' :: rest)
  | c :: rest =>
      if isLayoutBlank c then (split rest).after [c] else clear [] (c :: rest)
  | [] => clear [] []
termination_by text.length
decreasing_by
  · have := (List.dropWhile_suffix (l := rest) (· != '\n')).length_le
    grind
  · have := congrArg List.length (append_of_splitCommentEnd _hclose)
    grind
  · grind

/-- Splitting loses nothing. -/
@[simp] theorem text_split (text : List Char) : (split text).text = text := by
  fun_induction split text with
  | case1 rest comment ih => simp [ih, comment]
  | case2 rest comment more hclose ih => simp [ih, append_of_splitCommentEnd hclose]
  | case3 => simp [Layout.text]
  | case4 _ _ _ _ _ ih => simp [ih]
  | case5 => simp [Layout.text]
  | case6 => simp [Layout.text]

end Layout

end ClassLang.Scan
