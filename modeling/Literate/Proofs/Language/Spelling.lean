import Mathlib.Data.List.Forall2
import Literate.Proofs.Language.ReadBack

/-!
# Written tokens are read back

Names, integers, string literals and symbols are written so that each ends where a separator begins.
A separator is made of spaces, tabs and line ends, and a comment may follow them, with the end of
its line. Tokens that are written with a separator between each two are read back, whatever the
separators are: reading a token stops before a separator, and reading goes on behind it.
-/

namespace Literate.Token

variable {c : Char} {token : Token} {tokens : List Token} {t rest sep x : Text} {texts : List Text}

/-! ## How tokens are written -/

/-- A part of an identifier: letters, digits and underscores of ASCII, of which the first is no
digit. -/
def IsPart (x : Text) : Prop :=
  ∃ c rest, x = c :: rest ∧ (c.isAlpha = true ∨ c = '_') ∧
    ∀ d ∈ rest, d.isAlphanum = true ∨ d = '_'

/-- An identifier: parts with two colons between each two. -/
inductive IsIdentifier : Text → Prop
  | part {x : Text} (h : IsPart x) : IsIdentifier x
  | qualified {part x : Text} (h : IsPart part) (hx : IsIdentifier x) :
      IsIdentifier (part ++ ':' :: ':' :: x)

/-- A character in a string literal, behind a backslash if it cannot stand there itself. -/
def escaped (c : Char) : Text :=
  if c = '"' then ['\\', '"']
  else if c = '\\' then ['\\', '\\']
  else if c = '\n' then ['\\', 'n']
  else [c]

/-- The string literal that stands for a text. -/
def literal (t : Text) : Text :=
  '"' :: (t.flatMap escaped ++ ['"'])

/-- How a token is written. Doubles are left out. -/
inductive Spells : Token → Text → Prop
  | name {x : Text} (h : IsIdentifier x) : Spells (.name x) x
  | int {n : Nat} (h : n < Nat.pow 2 63) : Spells (.int (Int64.ofNat n)) (Decimal.ofNat n)
  | str (t : Text) : Spells (.str t) (literal t)
  | sym (s : Symbol) : Spells (.sym s) s.text

/-- What separates two tokens: some spaces, tabs and line ends, behind which a comment may stand
with the line feed that ends it. -/
inductive Separates : Text → Prop
  | gaps {w : Text} (hne : w ≠ []) (hw : w ⊆ [' ', '\t', '\r', '\n']) : Separates w
  | comment {w words : Text} (hne : w ≠ []) (hw : w ⊆ [' ', '\t', '\r', '\n'])
      (hwords : '\n' ∉ words) : Separates (w ++ '/' :: '/' :: (words ++ ['\n']))

/-- Texts one after another with a separator between each two. -/
inductive Spaced : List Text → Text → Prop
  | nil : Spaced [] []
  | single (t : Text) : Spaced [t] t
  | cons (t : Text) {next sep rest : Text} {texts : List Text} (hsep : Separates sep)
      (hrest : Spaced (next :: texts) rest) : Spaced (t :: next :: texts) (t ++ (sep ++ rest))

/-! ## A token ends before a separator -/

/-- A name goes on with all characters that go on names. -/
theorem readName_append_of_forall {part : Text} (h : ∀ d ∈ part, isNameChar d = true) (t : Text) :
    readName (part ++ t) = (part ++ (readName t).1, (readName t).2) := by
  induction part with
  | nil => rfl
  | cons d part ih =>
    have ih := ih fun e he => h e (List.mem_cons_of_mem d he)
    rw [List.cons_append, readName_cons_of_isNameChar (h d List.mem_cons_self), ih]
    rfl

/-- The characters of a part begin and go on a name. -/
theorem IsPart.exists_cons (h : IsPart x) :
    ∃ c rest, x = c :: rest ∧ isNameStart c = true ∧ ∀ d ∈ rest, isNameChar d = true := by
  obtain ⟨c, rest, rfl, hc, hrest⟩ := h
  exact ⟨c, rest, rfl, by simpa [isNameStart] using hc, by simpa [isNameChar] using hrest⟩

/-- An identifier is a name of the lexer. -/
theorem IsIdentifier.isName (h : IsIdentifier x) : IsName x := by
  induction h with
  | part h =>
    obtain ⟨c, rest, rfl, hc, hrest⟩ := h.exists_cons
    have hread := readName_append_of_forall hrest []
    rw [List.append_nil] at hread
    refine ⟨hc, ?_⟩
    rw [hread, readName]
    simp
  | @qualified part x h hx ih =>
    obtain ⟨c, rest, rfl, hc, hrest⟩ := h.exists_cons
    cases x with
    | nil => cases ih
    | cons d x =>
      obtain ⟨hd, hread⟩ := ih
      have hall : readName (rest ++ ':' :: ':' :: d :: x) = (rest ++ ':' :: ':' :: d :: x, []) := by
        rw [readName_append_of_forall hrest, readName, if_pos hd, hread]
      exact ⟨hc, hall⟩

/-- An escaped character is read as the character itself. -/
theorem readString?_escaped_append (c : Char) (t : Text) :
    readString? (escaped c ++ t) = (readString? t).map fun r => (c :: r.1, r.2) := by
  by_cases hquote : c = '"'
  · subst hquote
    rfl
  by_cases hbackslash : c = '\\'
  · subst hbackslash
    rfl
  by_cases hfeed : c = '\n'
  · subst hfeed
    rfl
  rw [escaped, if_neg hquote, if_neg hbackslash, if_neg hfeed, List.singleton_append,
    readString?.eq_4 c t hquote fun _ _ hc => absurd hc hbackslash,
    if_neg (not_or_intro hfeed hbackslash)]

/-- The end of a string literal is found behind its characters, whatever follows it. -/
theorem readString?_literal (t rest : Text) :
    readString? (t.flatMap escaped ++ '"' :: rest) = some (t, rest) := by
  induction t with
  | nil => rfl
  | cons c t ih =>
    rw [List.flatMap_cons, List.append_assoc, readString?_escaped_append, ih]
    rfl

/-- A symbol alone is read as itself. -/
theorem exists_cons_of_symbol (s : Symbol) :
    ∃ c a, s.text = c :: a ∧ next? c a = some (some (.sym s), []) ∧ c ≠ '"' ∧
      ¬(c = '/' ∧ a.head? = some '/') := by
  cases s <;> exact ⟨_, _, rfl, rfl, by decide, by decide⟩

/-- A token that is read from a text to its end is read from it before a text that does not go on
it. -/
theorem scan_append_of_next? {a : Text} (hnext : next? c a = some (some token, []))
    (hquote : c ≠ '"') (hcomment : ¬(c = '/' ∧ a.head? = some '/')) (hrest : Delimited rest) :
    scan (c :: a ++ rest) = (scan rest).map (token :: ·) := by
  have hread := hrest.next?_append hquote hcomment
  rw [hnext] at hread
  exact scan_token hread

/-- What is written for a token is read as this token before a text that does not go on it. -/
theorem Spells.scan_append (h : Spells token t) (hrest : Delimited rest) :
    scan (t ++ rest) = (scan rest).map (token :: ·) := by
  cases h with
  | name h =>
    obtain ⟨c, a, rfl, hnext, hslash, hquote⟩ := h.isName.exists_cons
    exact scan_append_of_next? hnext hquote (fun hc => hslash hc.1) hrest
  | @int n h =>
    obtain ⟨c, a, hdigits⟩ := List.exists_cons_of_ne_nil (Decimal.ofNat_ne_nil n)
    have hc : c.isDigit = true := Decimal.isDigit_of_mem_ofNat (hdigits ▸ List.mem_cons_self)
    have hnumber := readNumber?_ofNat n hrest
    rw [hdigits, if_pos h] at hnumber
    rw [hdigits]
    apply scan_token
    rw [next?_of_isDigit hc]
    exact congrArg (Option.map _) hnumber
  | str t =>
    have hread := readString?_literal t rest
    have hnext : next? '"' (t.flatMap escaped ++ '"' :: rest) = some (some (.str t), rest) :=
      congrArg (Option.map _) hread
    rw [literal, List.cons_append, List.append_assoc]
    exact scan_token hnext
  | sym s =>
    obtain ⟨c, a, htext, hnext, hquote, hcomment⟩ := exists_cons_of_symbol s
    rw [htext]
    exact scan_append_of_next? hnext hquote hcomment hrest

/-! ## Reading goes on behind a separator -/

private theorem isGap_of_mem (hc : c ∈ [' ', '\t', '\r', '\n']) : isGap c = true := by
  simpa [isGap, or_assoc] using hc

private theorem next?_of_isGap (hc : isGap c = true) (rest : Text) :
    next? c rest = some (none, rest) :=
  if_pos hc

private theorem scan_gaps_append {w : Text} (hw : w ⊆ [' ', '\t', '\r', '\n']) (rest : Text) :
    scan (w ++ rest) = scan rest := by
  induction w with
  | nil => rfl
  | cons c w ih =>
    obtain ⟨hc, hw⟩ := List.cons_subset.mp hw
    rw [List.cons_append, scan_gap (next?_of_isGap (isGap_of_mem hc) _), ih hw]

/-- A comment runs to the end of its line. -/
theorem scan_comment_append {words : Text} (h : '\n' ∉ words) (rest : Text) :
    scan ('/' :: '/' :: (words ++ '\n' :: rest)) = scan rest := by
  have hwords : ∀ c ∈ '/' :: words, decide (c ≠ '\n') = true := by
    intro c hc
    refine decide_eq_true ?_
    rintro rfl
    exact h (by simpa using hc)
  obtain ⟨-, hdrop⟩ := Text.takeWhile_dropWhile_append hwords
    (b := '\n' :: rest) (by rintro c ⟨⟩; rfl)
  have hnext : next? '/' ('/' :: (words ++ '\n' :: rest)) = some (none, '\n' :: rest) :=
    congrArg (fun after => some (none, after)) hdrop
  rw [scan_gap hnext, scan_gap (next?_of_isGap rfl rest)]

/-- What separates tokens is not read as one. -/
theorem Separates.scan_append (h : Separates sep) (rest : Text) :
    scan (sep ++ rest) = scan rest := by
  cases h with
  | gaps hne hw => exact scan_gaps_append hw rest
  | comment hne hw hwords =>
    rw [List.append_assoc, scan_gaps_append hw, List.cons_append, List.cons_append,
      List.append_assoc]
    exact scan_comment_append hwords rest

private theorem delimited_gaps_append {w : Text} (hne : w ≠ []) (hw : w ⊆ [' ', '\t', '\r', '\n'])
    (rest : Text) : Delimited (w ++ rest) := by
  obtain ⟨c, w, rfl⟩ := List.exists_cons_of_ne_nil hne
  rintro d ⟨⟩
  exact delimits_of_isGap (isGap_of_mem (hw List.mem_cons_self))

/-- A separator goes on no token before it. -/
theorem Separates.delimited_append (h : Separates sep) (rest : Text) : Delimited (sep ++ rest) := by
  cases h with
  | gaps hne hw => exact delimited_gaps_append hne hw rest
  | comment hne hw hwords =>
    rw [List.append_assoc]
    exact delimited_gaps_append hne hw _

/-! ## Token by token -/

/-- Written tokens with separators between them are read back. -/
theorem Spaced.scan_eq (h : Spaced texts t) (hspell : List.Forall₂ Spells tokens texts) :
    scan t = .ok tokens := by
  induction h generalizing tokens with
  | nil =>
    cases hspell
    exact scan.eq_1
  | single t =>
    obtain ⟨token, rest, htoken, hrest, rfl⟩ := List.forall₂_cons_right_iff.mp hspell
    cases hrest
    have hscan := htoken.scan_append delimited_nil
    rw [List.append_nil, scan.eq_1] at hscan
    exact hscan
  | cons t hsep hrest ih =>
    obtain ⟨token, later, htoken, hlater, rfl⟩ := List.forall₂_cons_right_iff.mp hspell
    rw [htoken.scan_append (hsep.delimited_append _), hsep.scan_append, ih hlater]
    rfl

/-- Single spaces are separators. -/
theorem spaced_intercalate (texts : List Text) : Spaced texts (List.intercalate [' '] texts) := by
  have hspace : Separates [' '] := .gaps (by simp) (by simp)
  induction texts with
  | nil => exact .nil
  | cons t texts ih =>
    cases texts with
    | nil => simpa using Spaced.single t
    | cons next texts =>
      rw [List.intercalate_cons_of_ne_nil (List.cons_ne_nil next texts), List.append_assoc]
      exact .cons t hspace ih

/-- Reading undoes writing. Tokens that are written with single spaces between them are read back,
and so they are with any other separators in the place of the spaces. -/
theorem scan_spelled (h : List.Forall₂ Spells tokens texts) :
    scan (List.intercalate [' '] texts) = .ok tokens ∧
      ∀ t, Spaced texts t → scan t = .ok tokens :=
  ⟨(spaced_intercalate texts).scan_eq h, fun _ ht => ht.scan_eq h⟩

/-- Separators that stand before a string literal and behind a slash, with comments that hold a
quote and nothing. -/
theorem scan_spelled_comment :
    let texts := ["std::cout".toList, "<<".toList, literal "\"//\n".toList, "/".toList,
      Decimal.ofNat 9223372036854775807]
    let tokens := [.name "std::cout".toList, .sym .shl, .str "\"//\n".toList, .sym .slash,
      .int (Int64.ofNat 9223372036854775807)]
    let quoted := ['\r', '\n'] ++ '/' :: '/' :: (['"'] ++ ['\n'])
    let empty := ['\t'] ++ '/' :: '/' :: ([] ++ ['\n'])
    List.Forall₂ Spells tokens texts ∧ scan (List.intercalate [' '] texts) = .ok tokens ∧
      scan ("std::cout".toList ++ (['\t'] ++ ("<<".toList ++ (quoted ++
        (literal "\"//\n".toList ++ ([' '] ++ ("/".toList ++ (empty ++
          Decimal.ofNat 9223372036854775807)))))))) = .ok tokens := by
  intro texts tokens quoted empty
  have hstd : IsPart "std".toList := ⟨'s', ['t', 'd'], rfl, .inl rfl, by simp⟩
  have hcout : IsPart "cout".toList := ⟨'c', ['o', 'u', 't'], rfl, .inl rfl, by simp⟩
  have hspell : List.Forall₂ Spells tokens texts :=
    .cons (.name (.qualified hstd (.part hcout))) (.cons (.sym .shl) (.cons (.str _)
      (.cons (.sym .slash) (.cons (.int (by decide)) .nil))))
  have hquoted : Separates quoted := .comment (by simp) (by simp) (by simp)
  have hempty : Separates empty := .comment (by simp) (by simp) (by simp)
  have htab : Separates ['\t'] := .gaps (by simp) (by simp)
  have hspace : Separates [' '] := .gaps (by simp) (by simp)
  have hall := scan_spelled hspell
  exact ⟨hspell, hall.1, hall.2 _
    (.cons _ htab (.cons _ hquoted (.cons _ hspace (.cons _ hempty (.single _)))))⟩

end Literate.Token
