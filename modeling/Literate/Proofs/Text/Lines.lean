import Mathlib.Data.List.Basic
import Mathlib.Data.List.Induction
import Literate.Text.Basic

/-!
# Cutting and joining lines

The pieces of a cut text can be put together in runs and cut again: every run of pieces gives
itself back. Lines that hold no line feed, each ended by one, are the lines of the text they make.
-/

namespace Literate

/-- The pieces of a cut, joined up to any of them, are cut in the same places. -/
theorem cutAfter_flatten {α : Type} {p : α → Bool} {l : List α} {a b : List (List α)}
    (h : cutAfter p l = a ++ b) :
    cutAfter p a.flatten = a ∧ cutAfter p b.flatten = b := by
  induction l generalizing a b with
  | nil =>
    obtain ⟨rfl, rfl⟩ := List.append_eq_nil_iff.mp h.symm
    exact ⟨rfl, rfl⟩
  | cons c rest ih =>
    cases a with
    | nil =>
      rw [List.nil_append] at h
      refine ⟨rfl, ?_⟩
      rw [← h, flatten_cutAfter]
    | cons piece a =>
      by_cases hc : p c = true
      · simp only [cutAfter, hc, ↓reduceIte, List.cons_append, List.cons.injEq] at h
        obtain ⟨rfl, h⟩ := h
        obtain ⟨ha, hb⟩ := ih h
        refine ⟨?_, hb⟩
        simp [cutAfter, hc, ha]
      · cases hrest : cutAfter p rest with
        | nil =>
          simp only [cutAfter, hc, Bool.false_eq_true, ↓reduceIte, hrest, List.cons_append,
            List.cons.injEq] at h
          obtain ⟨rfl, h⟩ := h
          obtain ⟨rfl, rfl⟩ := List.append_eq_nil_iff.mp h.symm
          exact ⟨by simp [cutAfter, hc], rfl⟩
        | cons first others =>
          simp only [cutAfter, hc, Bool.false_eq_true, ↓reduceIte, hrest, List.cons_append,
            List.cons.injEq] at h
          obtain ⟨rfl, rfl⟩ := h
          obtain ⟨ha, hb⟩ := ih (a := first :: a) hrest
          refine ⟨?_, hb⟩
          rw [List.flatten_cons] at ha
          simp [cutAfter, hc, ha]

section

variable {α : Type} [DecidableEq α] {a : α} {l : List α}

/-- A list without an element to cut after is one piece. -/
theorem cutAfter_of_notMem (hne : l ≠ []) (h : a ∉ l) : cutAfter (· = a) l = [l] := by
  induction l with
  | nil => exact absurd rfl hne
  | cons b l ih =>
    obtain ⟨hb, hl⟩ := not_or.mp (mt List.mem_cons.mpr h)
    have hcut : decide (b = a) = false := decide_eq_false (Ne.symm hb)
    cases l with
    | nil => simp [cutAfter, hcut]
    | cons c l =>
      rw [cutAfter, ih (by simp) hl, hcut]
      rfl

/-- The first piece of a list ends where the element that is cut after first occurs. -/
theorem cutAfter_cons_of_notMem (h : a ∉ l) (rest : List α) :
    cutAfter (· = a) (l ++ a :: rest) = (l ++ [a]) :: cutAfter (· = a) rest := by
  induction l with
  | nil => simp [cutAfter]
  | cons b l ih =>
    obtain ⟨hb, hl⟩ := not_or.mp (mt List.mem_cons.mpr h)
    have hcut : decide (b = a) = false := decide_eq_false (Ne.symm hb)
    simp [cutAfter, hcut, ih hl]

/-- A list that is empty or ends in a cut is cut without regard to what follows it. -/
theorem cutAfter_append (h : l = [] ∨ l.getLast? = some a) (more : List α) :
    cutAfter (· = a) (l ++ more) = cutAfter (· = a) l ++ cutAfter (· = a) more := by
  rcases h with rfl | h
  · rfl
  · obtain ⟨init, rfl⟩ := List.getLast?_eq_some_iff.mp h
    rw [List.append_assoc, List.singleton_append]
    exact cutAfter_append_of_cut (p := (· = a)) (decide_eq_true rfl) init more

end

/-- A piece of a cut has no cut before its last element. -/
theorem exists_of_mem_cutAfter {α : Type} {p : α → Bool} {l piece : List α}
    (h : piece ∈ cutAfter p l) :
    ∃ front last, piece = front ++ [last] ∧ ∀ a ∈ front, p a = false := by
  induction l generalizing piece with
  | nil => simp [cutAfter] at h
  | cons c rest ih =>
    by_cases hc : p c = true
    · simp only [cutAfter, hc, ↓reduceIte, List.mem_cons] at h
      rcases h with rfl | h
      · exact ⟨[], c, rfl, by simp⟩
      · exact ih h
    · cases hrest : cutAfter p rest with
      | nil =>
        simp only [cutAfter, hc, Bool.false_eq_true, ↓reduceIte, hrest, List.mem_singleton] at h
        exact ⟨[], c, h, by simp⟩
      | cons first others =>
        simp only [cutAfter, hc, Bool.false_eq_true, ↓reduceIte, hrest, List.mem_cons] at h
        rcases h with rfl | h
        · obtain ⟨front, last, hfirst, hfront⟩ := ih (hrest ▸ List.mem_cons_self)
          refine ⟨c :: front, last, by rw [hfirst, List.cons_append], ?_⟩
          exact List.forall_mem_cons.mpr ⟨by simpa using hc, hfront⟩
        · exact ih (hrest ▸ List.mem_cons_of_mem _ h)

namespace Text

/-- A text begins with another exactly if the rest can be put after that. -/
theorem after?_eq_some {start t rest : Text} : after? start t = some rest ↔ t = start ++ rest :=
  List.isPrefixOf?_eq_some_iff_append_eq.trans eq_comm

/-- What stands after the beginning of a text is the rest of it. -/
theorem after?_append (start rest : Text) : after? start (start ++ rest) = some rest :=
  after?_eq_some.mpr rfl

/-- A text is split where a predicate first fails. -/
theorem takeWhile_dropWhile_append {p : Char → Bool} {a b : Text} (ha : ∀ c ∈ a, p c = true)
    (hb : ∀ c ∈ b.head?, p c = false) :
    (a ++ b).takeWhile p = a ∧ (a ++ b).dropWhile p = b := by
  rw [List.takeWhile_append_of_pos ha, List.dropWhile_append_of_pos ha]
  cases b with
  | nil => simp
  | cons c b =>
    have hc : p c = false := hb c rfl
    simp [hc]

/-- A text that does not end in a character is not chopped. -/
theorem chop_of_getLast?_ne {c : Char} {t : Text} (h : t.getLast? ≠ some c) : t.chop c = t :=
  if_neg h

/-- Chopping a text adds nothing to it. -/
theorem chop_subset (c : Char) (t : Text) : t.chop c ⊆ t := by
  unfold chop
  split
  · exact List.dropLast_subset t
  · exact List.Subset.refl t

/-- A text is chopped where it ends, whatever stands before it that does not hold the character. -/
theorem chop_append {c : Char} {start : Text} (h : c ∉ start) (t : Text) :
    (start ++ t).chop c = start ++ t.chop c := by
  cases t using List.reverseRecOn with
  | nil =>
    have hlast : start.getLast? ≠ some c := fun hmem => h (List.mem_of_getLast? hmem)
    rw [List.append_nil, chop_of_getLast?_ne hlast]
    exact (List.append_nil start).symm
  | append_singleton init d =>
    rw [← List.append_assoc, chop, chop, List.getLast?_concat, List.getLast?_concat,
      List.dropLast_concat, List.dropLast_concat]
    split
    · rfl
    · rw [List.append_assoc]

/-- A line holds no line feed. -/
theorem newline_notMem_of_mem_lines {t l : Text} (h : l ∈ t.lines) : '\n' ∉ l := by
  obtain ⟨raw, hraw, rfl⟩ := List.mem_map.mp h
  obtain ⟨front, last, rfl, hfront⟩ := exists_of_mem_cutAfter hraw
  have hfeed : '\n' ∉ front := fun hmem => by simpa using hfront _ hmem
  rw [unterminated, List.getLast?_concat, List.dropLast_concat]
  split
  · exact fun hmem => hfeed (chop_subset _ _ hmem)
  · next hlast => simpa [hfeed, eq_comm] using hlast

/-- A text that is ended by a line feed. -/
def ended (t : Text) : Text := t ++ ['\n']

@[simp] theorem unterminated_ended (t : Text) : unterminated t.ended = t.chop '\r' := by
  simp [unterminated, ended]

/-- A text that is empty or ends in a line feed is cut without regard to what follows it. -/
theorem rawLines_append {t : Text} (h : t = [] ∨ t.getLast? = some '\n') (more : Text) :
    rawLines (t ++ more) = rawLines t ++ rawLines more :=
  cutAfter_append h more

/-- Lines that end go before all the lines of what follows. -/
theorem lines_append {t : Text} (h : t = [] ∨ t.getLast? = some '\n') (more : Text) :
    lines (t ++ more) = lines t ++ lines more := by
  rw [lines, rawLines_append h, List.map_append, lines, lines]

/-- A text without a line feed is one line, if there is any. -/
theorem rawLines_of_newline_notMem {line : Text} (hne : line ≠ []) (h : '\n' ∉ line) :
    rawLines line = [line] :=
  cutAfter_of_notMem hne h

/-- A line is cut from the text after the line feed that ends it. -/
theorem rawLines_ended_append {line : Text} (h : '\n' ∉ line) (rest : Text) :
    rawLines (line.ended ++ rest) = line.ended :: rawLines rest := by
  have hcut := cutAfter_cons_of_notMem h rest
  simpa [ended, rawLines] using hcut

/-- A line that ends is the first line, without its carriage return. -/
theorem lines_ended_append {line : Text} (h : '\n' ∉ line) (rest : Text) :
    lines (line.ended ++ rest) = line.chop '\r' :: lines rest := by
  rw [lines, rawLines_ended_append h, List.map_cons, unterminated_ended, lines]

/-- Texts without a line feed, each ended by one, are the raw lines of what they make. -/
theorem rawLines_flatMap_ended {ls : List Text} (h : ∀ l ∈ ls, '\n' ∉ l) (rest : Text) :
    rawLines (ls.flatMap ended ++ rest) = ls.map ended ++ rawLines rest := by
  induction ls with
  | nil => rfl
  | cons l ls ih =>
    have ih := ih fun l hl => h l (List.mem_cons_of_mem _ hl)
    rw [List.flatMap_cons, List.append_assoc, rawLines_ended_append (h l List.mem_cons_self), ih,
      List.map_cons, List.cons_append]

/-- The first line of a text of lines stands before the others, with a line feed between. -/
theorem unlines_cons {t : Text} {ts : List Text} (h : ts ≠ []) :
    unlines (t :: ts) = t ++ '\n' :: unlines ts := by
  rw [unlines, List.intercalate_cons_of_ne_nil h, List.append_assoc]
  rfl

/-- A further line comes after a line feed. -/
theorem unlines_concat {ts : List Text} (h : ts ≠ []) (t : Text) :
    unlines (ts ++ [t]) = unlines ts ++ '\n' :: t := by
  induction ts with
  | nil => exact absurd rfl h
  | cons s ts ih =>
    cases ts with
    | nil => rw [List.singleton_append, unlines_cons (by simp)]; simp [unlines]
    | cons s' ts =>
      have ih := ih (by simp)
      rw [List.cons_append, unlines_cons (by simp), unlines_cons (by simp), ih, List.append_assoc,
        List.cons_append]

/-- Lines before a last one are each ended by a line feed. -/
theorem unlines_append_singleton (init : List Text) (last : Text) :
    unlines (init ++ [last]) = init.flatMap ended ++ last := by
  induction init with
  | nil => simp [unlines]
  | cons t ts ih =>
    rw [List.cons_append, unlines_cons (by simp), ih]
    simp [ended]

/-- Lines that are not empty do not make an empty text. -/
theorem unlines_ne_nil {ts : List Text} (h : ts ≠ []) (hts : ∀ t ∈ ts, t ≠ []) :
    unlines ts ≠ [] := by
  cases ts with
  | nil => exact absurd rfl h
  | cons t ts =>
    have ht : t ≠ [] := hts t List.mem_cons_self
    cases ts with
    | nil => simpa [unlines] using ht
    | cons t' ts => rw [unlines_cons (by simp)]; simp

end Text

end Literate
