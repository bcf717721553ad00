import Mathlib.Data.List.DropRight
import Mathlib.Data.List.GetD
import Literate.Proofs.Document.Verdicts

/-!
# What a comparison tells apart

The normal lines of a text have no blanks at their ends, and the last of them is not empty. So they
are told by what stands in each place, with an empty line where there is none, and a normalized text
is told by its normal lines. Two texts are normalized alike exactly if they agree line by line up to
the blanks at line ends, and normalizing a second time changes nothing.
-/

namespace Literate

section Trailing

variable {α : Type} {d : α} {a b : List α}

/-- What stands in a place of a list stays where values are dropped from its end that count as
missing. -/
theorem getD_rdropWhile [DecidableEq α] (d : α) (l : List α) (k : Nat) :
    (l.rdropWhile (· = d)).getD k d = l.getD k d := by
  induction l using List.reverseRecOn with
  | nil => rfl
  | append_singleton l x ih =>
    by_cases hx : x = d
    · rw [List.rdropWhile_concat_pos (· = d) l x (decide_eq_true hx), ih]
      by_cases hk : k < l.length
      · exact (List.getD_append l [x] d k hk).symm
      · have hle : l.length ≤ k := Nat.le_of_not_lt hk
        rw [List.getD_eq_default l d hle, List.getD_append_right l [x] d k hle, hx]
        cases k - l.length <;> rfl
    · rw [List.rdropWhile_concat_neg (· = d) l x (by simpa using hx)]

/-- A list is no longer than another with the same values, if its last value does not count as
missing. -/
theorem length_le_of_getD (ha : a.getLast? ≠ some d) (h : ∀ k, a.getD k d = b.getD k d) :
    a.length ≤ b.length := by
  by_contra hlt
  have hlast : a.length - 1 < a.length := by omega
  have hvalue := h (a.length - 1)
  rw [List.getD_eq_default b d (by omega), List.getD_eq_getElem a d hlast] at hvalue
  apply ha
  rw [List.getLast?_eq_getElem?, List.getElem?_eq_getElem hlast, hvalue]

/-- Lists whose last values do not count as missing are told by the values in their places. -/
theorem eq_of_getD (ha : a.getLast? ≠ some d) (hb : b.getLast? ≠ some d)
    (h : ∀ k, a.getD k d = b.getD k d) : a = b := by
  have hlength : a.length = b.length :=
    Nat.le_antisymm (length_le_of_getD ha h) (length_le_of_getD hb fun k => (h k).symm)
  apply List.ext_getElem hlength
  intro k hka hkb
  have hk := h k
  rwa [List.getD_eq_getElem a d hka, List.getD_eq_getElem b d hkb] at hk

end Trailing

/-- The line of a text in a place that is counted from zero, which is empty where the text has no
such line. -/
def Text.line (t : Text) (k : Nat) : Text :=
  t.lines.getD k []

@[simp] theorem Text.trimEnd_trimEnd (t : Text) : t.trimEnd.trimEnd = t.trimEnd :=
  List.rdropWhile_idempotent isBlank t

namespace Verdict

variable {s t : Text}

private theorem normalLines_eq_rdropWhile (ls : List Text) :
    normalLines ls = (ls.map Text.trimEnd).rdropWhile (· = []) := rfl

/-- The normal lines have no blanks at their ends. -/
theorem trimEnd_of_mem_normalLines {ls : List Text} {l : Text} (h : l ∈ normalLines ls) :
    l.trimEnd = l := by
  have hmem : l ∈ ls.map Text.trimEnd := (List.rdropWhile_prefix _ _).subset h
  obtain ⟨raw, -, rfl⟩ := List.mem_map.mp hmem
  exact Text.trimEnd_trimEnd raw

/-- No normal line holds a line feed. -/
theorem newline_notMem_of_mem_normalLines {l : Text} (h : l ∈ normalLines t.lines) : '\n' ∉ l := by
  have hmem : l ∈ t.lines.map Text.trimEnd := (List.rdropWhile_prefix _ _).subset h
  obtain ⟨line, hline, rfl⟩ := List.mem_map.mp hmem
  have hfront : line.trimEnd <+: line := List.rdropWhile_prefix Text.isBlank line
  exact fun hfeed => Text.newline_notMem_of_mem_lines hline (hfront.subset hfeed)

/-- The last of the normal lines is not empty. -/
theorem getLast?_normalLines (ls : List Text) : (normalLines ls).getLast? ≠ some [] := by
  intro h
  obtain ⟨hne, hlast⟩ := List.mem_getLast?_eq_getLast h
  exact List.rdropWhile_last_not (· = []) (ls.map Text.trimEnd) hne (decide_eq_true hlast.symm)

/-- A normal line is the line in its place, without the blanks at its end. -/
theorem getD_normalLines (ls : List Text) (k : Nat) :
    (normalLines ls).getD k [] = (ls.getD k []).trimEnd := by
  rw [normalLines_eq_rdropWhile, getD_rdropWhile, List.getD_eq_getElem?_getD,
    List.getD_eq_getElem?_getD, List.getElem?_map]
  cases ls[k]? <;> rfl

/-- Lines have the same normal lines exactly if they agree up to the blanks at their ends. -/
theorem normalLines_eq_iff {a b : List Text} :
    normalLines a = normalLines b ↔ ∀ k, (a.getD k []).trimEnd = (b.getD k []).trimEnd := by
  constructor
  · intro h k
    rw [← getD_normalLines, ← getD_normalLines, h]
  · intro h
    apply eq_of_getD (getLast?_normalLines a) (getLast?_normalLines b)
    intro k
    rw [getD_normalLines, getD_normalLines, h]

@[simp] theorem normalLines_normalLines (ls : List Text) :
    normalLines (normalLines ls) = normalLines ls := by
  have htrimmed : (normalLines ls).map Text.trimEnd = normalLines ls :=
    (List.map_congr_left fun l hl => trimEnd_of_mem_normalLines hl).trans (List.map_id' _)
  rw [normalLines_eq_rdropWhile, htrimmed]
  exact List.rdropWhile_idempotent _ _

/-- The normal lines of a text are read back from the normalized text. -/
theorem normalLines_lines_normalize (t : Text) :
    normalLines (normalize t).lines = normalLines t.lines := by
  rw [normalize_eq, normalLines_lines_unlines fun l hl => newline_notMem_of_mem_normalLines hl,
    normalLines_normalLines]

/-- Texts are normalized alike exactly if they have the same normal lines. -/
theorem normalize_eq_iff :
    normalize s = normalize t ↔ normalLines s.lines = normalLines t.lines := by
  constructor
  · intro h
    rw [← normalLines_lines_normalize s, h, normalLines_lines_normalize]
  · intro h
    rw [normalize_eq, normalize_eq, h]

/-- Normalizing twice is normalizing once. -/
theorem normalize_normalize (t : Text) : normalize (normalize t) = normalize t :=
  normalize_eq_iff.mpr (normalLines_lines_normalize t)

/-- A verdict is the expected one exactly if each of its lines is the line that is expected in its
place, up to the blanks at the ends of both, where a line that is missing counts as an empty one.
What is compared is a normal form: normalizing it again does not change it. -/
theorem accepts_iff_line :
    (∀ (verdict : Text) (expected : List Text), accepts verdict expected = true ↔
      ∀ k, (verdict.line k).trimEnd = ((Text.unlines expected).line k).trimEnd) ∧
    ∀ t : Text, normalize (normalize t) = normalize t := by
  refine ⟨fun verdict expected => ?_, normalize_normalize⟩
  rw [accepts, decide_eq_true_iff, normalize_eq_iff]
  exact normalLines_eq_iff

end Verdict

end Literate
