/-!
# Texts and their lines

A text is a list of characters. Its lines are cut after each line feed; a line is looked at raw,
with its terminator, or as the text before it. The raw lines of a text give the text back, and
text that ends in a line feed splits off without touching the lines after it.
-/

namespace Literate

/-- A text, one character at a time. -/
abbrev Text := List Char

/-- Cuts a list after each element that satisfies `p`. The last piece may lack one. -/
def cutAfter {α : Type} (p : α → Bool) : List α → List (List α)
  | [] => []
  | a :: rest =>
    if p a then [a] :: cutAfter p rest
    else match cutAfter p rest with
      | [] => [[a]]
      | piece :: pieces => (a :: piece) :: pieces

/-- Cutting loses nothing: the pieces side by side are the list. -/
@[simp] theorem flatten_cutAfter {α : Type} (p : α → Bool) (l : List α) :
    (cutAfter p l).flatten = l := by
  induction l with
  | nil => rfl
  | cons a rest ih =>
    by_cases h : p a = true
    · simp [cutAfter, h, ih]
    · cases hr : cutAfter p rest with
      | nil => simp [cutAfter, h, hr] at ih ⊢; exact ih
      | cons piece pieces => simp [cutAfter, h, hr] at ih ⊢; exact ih

private theorem cutAfter_ne_nil {α : Type} {p : α → Bool} {l : List α} (h : l ≠ []) :
    cutAfter p l ≠ [] := by
  intro hr
  apply h
  simpa [hr] using (flatten_cutAfter p l).symm

/-- A list that ends in a cut is cut without regard to what follows it. -/
theorem cutAfter_append_of_cut {α : Type} {p : α → Bool} {a : α} (h : p a = true)
    (s t : List α) : cutAfter p (s ++ a :: t) = cutAfter p (s ++ [a]) ++ cutAfter p t := by
  induction s with
  | nil => simp [cutAfter, h]
  | cons b rest ih =>
    by_cases hb : p b = true
    · simp [cutAfter, hb, ih]
    · have hne : cutAfter p (rest ++ [a]) ≠ [] := cutAfter_ne_nil (by simp)
      cases hr : cutAfter p (rest ++ [a]) with
      | nil => exact absurd hr hne
      | cons piece pieces => simp [cutAfter, hb, hr, ih]

namespace Text

/-- Removes one final `c`, if the text ends in it. -/
def chop (c : Char) (t : Text) : Text :=
  if t.getLast? = some c then t.dropLast else t

/-- The lines of a text, each with the line feed that ends it. The last one may lack it. -/
def rawLines (t : Text) : List Text :=
  cutAfter (· = '\n') t

/-- A raw line without its terminator, a line feed or a carriage return and a line feed. A
carriage return at the end of an unterminated line is part of the line. -/
def unterminated (raw : Text) : Text :=
  if raw.getLast? = some '\n' then chop '\r' raw.dropLast else raw

/-- The lines of a text without their terminators. -/
def lines (t : Text) : List Text :=
  t.rawLines.map unterminated

/-- Texts one after another with a line feed between each two. -/
def unlines (ls : List Text) : Text :=
  List.intercalate ['\n'] ls

/-- Drops characters from the end as long as they satisfy `p`. -/
def dropEndWhile (p : Char → Bool) (t : Text) : Text :=
  (t.reverse.dropWhile p).reverse

/-- The text after a given beginning, or `none` if it begins otherwise. -/
def after? (start t : Text) : Option Text :=
  start.isPrefixOf? t

/-- The text before a given end, or `none` if it ends otherwise. -/
def before? (stop t : Text) : Option Text :=
  (stop.reverse.isPrefixOf? t.reverse).map List.reverse

/-- The number of bytes of a text in UTF-8. -/
def byteCount : Text → Nat
  | [] => 0
  | c :: rest => c.utf8Size + byteCount rest

@[simp] theorem rawLines_nil : rawLines [] = [] := rfl

/-- Raw lines side by side are the text. -/
@[simp] theorem flatten_rawLines (t : Text) : t.rawLines.flatten = t :=
  flatten_cutAfter _ t

@[simp] theorem byteCount_nil : byteCount [] = 0 := rfl

@[simp] theorem byteCount_cons (c : Char) (t : Text) :
    byteCount (c :: t) = c.utf8Size + byteCount t := rfl

@[simp] theorem byteCount_append (s t : Text) :
    byteCount (s ++ t) = byteCount s + byteCount t := by
  induction s with
  | nil => simp
  | cons c rest ih => simp [ih, Nat.add_assoc]

end Text

end Literate
