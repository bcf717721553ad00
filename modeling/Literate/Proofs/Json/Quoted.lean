import Literate.Json.Parser

/-!
# Quoted texts are read back

A text that has been quoted is read up to its closing quotation mark, whatever it holds, and stands
for itself again. The characters of a text are looked at one at a time: each is written as itself,
with a backslash before one character, or as an escaped unit.
-/

namespace Literate.Quoted

/-- How a character is written: as itself, as a backslash and one character that stands for it, or,
for a control character, as the escape of its number. -/
theorem escapeChar_cases (c : Char) :
    (escapeChar c = [c] ∧ c ≠ '"' ∧ c ≠ '\\' ∧ 0x20 ≤ c.toNat) ∨
    (∃ e, escapeChar c = ['\\', e] ∧ escaped? e = some c) ∨
    (c.toNat < 0x20 ∧ escapeChar c =
      ['\\', 'u', '0', '0', Nat.digitChar (c.toNat / 16), Nat.digitChar (c.toNat % 16)]) := by
  unfold escapeChar
  split
  · next h => exact .inr (.inl ⟨'"', rfl, by rw [h]; rfl⟩)
  split
  · next h => exact .inr (.inl ⟨'\\', rfl, by rw [h]; rfl⟩)
  split
  · next h => exact .inr (.inl ⟨'b', rfl, by rw [h]; rfl⟩)
  split
  · next h => exact .inr (.inl ⟨'f', rfl, by rw [h]; rfl⟩)
  split
  · next h => exact .inr (.inl ⟨'n', rfl, by rw [h]; rfl⟩)
  split
  · next h => exact .inr (.inl ⟨'r', rfl, by rw [h]; rfl⟩)
  split
  · next h => exact .inr (.inl ⟨'t', rfl, by rw [h]; rfl⟩)
  split
  · next h => exact .inr (.inr ⟨h, rfl⟩)
  · next hquote hslash _ _ _ _ _ h => exact .inl ⟨rfl, hquote, hslash, Nat.le_of_not_lt h⟩

/-- What stands after a backslash for one character begins no escaped unit, and ends no line. -/
theorem ne_of_escaped? {e c : Char} (h : escaped? e = some c) : e ≠ 'u' ∧ e ≠ '\n' := by
  constructor
  · rintro rfl
    cases h
  · rintro rfl
    cases h

@[simp] theorem escape_nil : escape [] = [] := rfl

@[simp] theorem escape_cons (c : Char) (t : Text) :
    escape (c :: t) = escapeChar c ++ escape t := rfl

private theorem hexValue?_digitChar {n : Nat} (h : n < 16) :
    hexValue? (Nat.digitChar n) = some n := by
  revert n
  decide

private theorem digitChar_ne_newline {n : Nat} (h : n < 16) : Nat.digitChar n ≠ '\n' := by
  revert n
  decide

/-- The two digits of the number of a control character denote it. -/
theorem unit?_digitChar {n : Nat} (h : n < 0x20) :
    unit? '0' '0' (Nat.digitChar (n / 16)) (Nat.digitChar (n % 16)) = some n := by
  revert n
  decide

private theorem newline_notMem_escapeChar (c : Char) : '\n' ∉ escapeChar c := by
  rcases escapeChar_cases c with ⟨he, -, -, hc⟩ | ⟨e, he, hc⟩ | ⟨hc, he⟩
  · rw [he, List.mem_singleton]
    rintro rfl
    exact absurd hc (by decide)
  · have hne := (ne_of_escaped? hc).2
    rw [he]
    simp [hne.symm]
  · have hhigh := digitChar_ne_newline (show c.toNat / 16 < 16 by omega)
    have hlow := digitChar_ne_newline (show c.toNat % 16 < 16 by omega)
    rw [he]
    simp [hhigh.symm, hlow.symm]

/-- No line feed stands in a quoted text. -/
theorem newline_notMem_escape (t : Text) : '\n' ∉ escape t := by
  intro h
  obtain ⟨c, -, hc⟩ := List.mem_flatMap.mp h
  exact newline_notMem_escapeChar c hc

/-- A part that is no half of a pair stands for one character. -/
theorem ofParts?_unit_cons {u : Nat} (h : u < 0x20) (ps : List Part) :
    ofParts? (.unit u :: ps) = (ofParts? ps).map (Char.ofNat u :: ·) := by
  have hhigh : isHigh u = false := by
    simp only [isHigh, Bool.and_eq_false_imp, decide_eq_true_eq, decide_eq_false_iff_not]
    omega
  have hlow : isLow u = false := by
    simp only [isLow, Bool.and_eq_false_imp, decide_eq_true_eq, decide_eq_false_iff_not]
    omega
  cases ps with
  | nil => simp [ofParts?, hhigh, hlow]
  | cons p ps => cases p <;> simp [ofParts?, hhigh, hlow]

/-- The first character of a quoted text stands for itself. -/
theorem unescape?_escapeChar_append (c : Char) (rest : Text) :
    unescape? (escapeChar c ++ rest) = (unescape? rest).map (c :: ·) := by
  unfold unescape?
  rcases escapeChar_cases c with ⟨he, -, hslash, -⟩ | ⟨e, he, hc⟩ | ⟨hc, he⟩
  · have hparts : parts? (c :: rest) = (parts? rest).map (Part.char c :: ·) := by
      rw [parts?.eq_4 c rest (fun _ _ _ _ _ h => absurd h hslash) fun _ _ h => absurd h hslash]
      cases parts? rest <;> simp [hslash]
    rw [he, List.singleton_append, hparts]
    cases parts? rest <;> simp [ofParts?]
  · have hparts : parts? ('\\' :: e :: rest) = (parts? rest).map (Part.char c :: ·) := by
      rw [parts?.eq_3 e rest fun _ _ _ _ _ h => absurd h (ne_of_escaped? hc).1, hc]
      cases parts? rest <;> rfl
    rw [he, List.cons_append, List.singleton_append, hparts]
    cases parts? rest <;> simp [ofParts?]
  · rw [he]
    simp only [List.cons_append, List.nil_append, parts?, unit?_digitChar hc]
    cases parts? rest <;> simp [ofParts?_unit_cons hc]

/-- A quoted text stands for itself. -/
@[simp] theorem unescape?_escape (t : Text) : unescape? (escape t) = some t := by
  induction t with
  | nil => rfl
  | cons c t ih => rw [escape_cons, unescape?_escapeChar_append, ih, Option.map_some]

end Literate.Quoted

namespace Literate.Json

open Quoted

/-- A character that ends no string and needs no escape is read as itself. -/
theorem readString?_cons {c : Char} (hquote : c ≠ '"') (hslash : c ≠ '\\') (hc : 0x20 ≤ c.toNat)
    (rest : Text) : readString? (c :: rest) = (readString? rest).map fun r => (c :: r.1, r.2) := by
  have hplain : ¬(c.toNat < 0x20 ∨ c = '\\') := by
    rintro (h | h)
    · omega
    · exact hslash h
  rw [readString?.eq_4 c rest hquote fun _ _ h => absurd h hslash, if_neg hplain]

private theorem readString?_digitChar_cons {n : Nat} (h : n < 16) (rest : Text) :
    readString? (Nat.digitChar n :: rest) =
      (readString? rest).map fun r => (Nat.digitChar n :: r.1, r.2) := by
  have hplain : ∀ n < 16, Nat.digitChar n ≠ '"' ∧ Nat.digitChar n ≠ '\\' ∧
      0x20 ≤ (Nat.digitChar n).toNat := by decide
  obtain ⟨hquote, hslash, hc⟩ := hplain n h
  exact readString?_cons hquote hslash hc rest

private theorem readString?_escapeChar_append (c : Char) (rest : Text) :
    readString? (escapeChar c ++ rest) =
      (readString? rest).map fun r => (escapeChar c ++ r.1, r.2) := by
  rcases escapeChar_cases c with ⟨he, hquote, hslash, hc⟩ | ⟨e, he, hc⟩ | ⟨hc, he⟩
  · rw [he]
    exact readString?_cons hquote hslash hc rest
  · rw [he, List.cons_append, List.singleton_append, readString?, if_pos (.inl (by simp [hc]))]
    rfl
  · have hhigh : c.toNat / 16 < 16 := by omega
    have hlow : c.toNat % 16 < 16 := by omega
    have hzero (rest : Text) : readString? ('0' :: rest) =
        (readString? rest).map fun r => ('0' :: r.1, r.2) :=
      readString?_cons (by decide) (by decide) (by decide) rest
    have hunit : startsWithUnit ('0' :: '0' :: Nat.digitChar (c.toNat / 16) ::
        Nat.digitChar (c.toNat % 16) :: rest) = true := by
      have hdigit : (hexValue? '0').isSome = true := by decide
      simp [startsWithUnit, hexValue?_digitChar hhigh, hexValue?_digitChar hlow, hdigit]
    rw [he]
    simp only [List.cons_append, List.nil_append]
    rw [readString?, if_pos (.inr ⟨rfl, hunit⟩), hzero, hzero, readString?_digitChar_cons hhigh,
      readString?_digitChar_cons hlow]
    simp only [Option.map_map]
    rfl

/-- A quoted text is read up to its closing quotation mark. -/
theorem readString?_escape (t rest : Text) :
    readString? (escape t ++ '"' :: rest) = some (escape t, rest) := by
  induction t with
  | nil => rfl
  | cons c t ih => rw [escape_cons, List.append_assoc, readString?_escapeChar_append, ih]; rfl

end Literate.Json
