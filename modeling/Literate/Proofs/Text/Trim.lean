import Mathlib.Data.List.TakeWhile
import Literate.Text.Blank

/-!
# Trimming

Trimming drops nothing but blanks, and blanks at the end of a text make no difference to it.
-/

namespace Literate.Text

private theorem mem_trimStart_or_isBlank {c : Char} {t : Text} (h : c ∈ t) :
    c ∈ t.trimStart ∨ isBlank c = true := by
  induction t with
  | nil => simp at h
  | cons d t ih =>
    rw [trimStart, List.dropWhile_cons]
    cases hd : isBlank d with
    | false => exact .inl (by simpa using h)
    | true =>
      rcases List.mem_cons.mp h with rfl | h
      · exact .inr hd
      · exact ih h

private theorem mem_trimEnd_or_isBlank {c : Char} {t : Text} (h : c ∈ t) :
    c ∈ t.trimEnd ∨ isBlank c = true := by
  rcases mem_trimStart_or_isBlank (List.mem_reverse.mpr h) with h | h
  · exact .inl (List.mem_reverse.mpr h)
  · exact .inr h

/-- A character of a text is in the trimmed text or a blank. -/
theorem mem_trim_or_isBlank {c : Char} {t : Text} (h : c ∈ t) :
    c ∈ t.trim ∨ isBlank c = true := by
  rcases mem_trimStart_or_isBlank h with h | h
  · exact mem_trimEnd_or_isBlank h
  · exact .inr h

/-- Blanks at the start of a text are trimmed. -/
theorem trimStart_append_blanks {start : Text} (h : ∀ c ∈ start, isBlank c = true) (t : Text) :
    (start ++ t).trimStart = t.trimStart :=
  List.dropWhile_append_of_pos h

/-- Blanks at the end of a text are trimmed. -/
theorem trimEnd_append_blanks {more : Text} (h : ∀ c ∈ more, isBlank c = true) (t : Text) :
    (t ++ more).trimEnd = t.trimEnd := by
  rw [trimEnd, trimEnd, dropEndWhile, dropEndWhile, List.reverse_append,
    List.dropWhile_append_of_pos fun c hc => h c (List.mem_reverse.mp hc)]

/-- A blank at the end of a text is trimmed. -/
theorem trimEnd_append_blank {c : Char} (hc : isBlank c = true) (t : Text) :
    trimEnd (t ++ [c]) = t.trimEnd :=
  trimEnd_append_blanks (List.forall_mem_singleton.mpr hc) t

/-- A blank at the end of a text is trimmed. -/
theorem trim_append_blank {c : Char} (hc : isBlank c = true) (t : Text) :
    trim (t ++ [c]) = t.trim := by
  rw [trim, trim, trimStart, List.dropWhile_append]
  split
  · next h => simp [trimStart, List.isEmpty_iff.mp h, hc]
  · exact trimEnd_append_blank hc _

/-- A blank that is chopped from a text would be trimmed from its end as well. -/
theorem trimEnd_chop {c : Char} (hc : isBlank c = true) (t : Text) :
    (t.chop c).trimEnd = t.trimEnd := by
  unfold chop
  split
  · next h =>
    obtain ⟨init, rfl⟩ := List.getLast?_eq_some_iff.mp h
    rw [List.dropLast_concat, trimEnd_append_blank hc]
  · rfl

/-- A blank that is chopped from a text would be trimmed as well. -/
theorem trim_chop {c : Char} (hc : isBlank c = true) (t : Text) : (t.chop c).trim = t.trim := by
  unfold chop
  split
  · next h =>
    obtain ⟨init, rfl⟩ := List.getLast?_eq_some_iff.mp h
    rw [List.dropLast_concat, trim_append_blank hc]
  · rfl

end Literate.Text
