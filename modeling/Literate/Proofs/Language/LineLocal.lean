import Mathlib.Data.List.TakeWhile
import Literate.Language.Lexer
import Literate.Proofs.Result

/-!
# Tokens stay on their line

No reader of the lexer looks past a line feed: what it reads from a text, it reads from the text
with a further line after it, and it leaves that line untouched. So the tokens of two texts with a
line feed between them are the tokens of the first and then those of the second.

A closing parenthesis and a semicolon delimit tokens as well, but for string literals that are
closed behind them and for comments. A text without comments can be put in parentheses. A comment
can be put behind any text that is cut into tokens, and changes none of them.
-/

namespace Literate.Token

/-! ## Characters that end a token -/

/-- A character that ends whatever token stands before it, but for a string literal or a comment. -/
structure Delimits (d : Char) : Prop where
  digit : d.isDigit = false
  nameStart : isNameStart d = false
  nameChar : isNameChar d = false
  mark : d ∉ ['.', '+', '-', '/', ':']
  symbol : ∀ s : Symbol, d ∉ s.text.tail

/-- What separates tokens ends the one before it. -/
theorem delimits_of_isGap {c : Char} (h : isGap c = true) : Delimits c := by
  simp only [isGap, Bool.or_eq_true, decide_eq_true_eq] at h
  rcases h with ((rfl | rfl) | rfl) | rfl <;>
    exact ⟨by decide, by decide, by decide, by decide, fun s => by cases s <;> decide⟩

private theorem delimits_newline : Delimits '\n' :=
  delimits_of_isGap rfl

/-- A closing parenthesis ends the token before it. -/
theorem delimits_rparen : Delimits ')' :=
  ⟨by decide, by decide, by decide, by decide, fun s => by cases s <;> decide⟩

private theorem delimits_semi : Delimits ';' :=
  ⟨by decide, by decide, by decide, by decide, fun s => by cases s <;> decide⟩

/-- A text that closes no string literal, even if a backslash stands before it. -/
structure ClosesNoString (t : Text) : Prop where
  plain : readString? t = none
  escaped : readString? ('\\' :: t) = none

private theorem closesNoString_newline (b : Text) : ClosesNoString ('\n' :: b) :=
  ⟨rfl, rfl⟩

private theorem readString?_of_notMem {t : Text} (h : '"' ∉ t) : readString? t = none := by
  fun_induction readString? t <;> simp_all

/-- A text without a quote closes no string literal. -/
theorem closesNoString_of_notMem {t : Text} (h : '"' ∉ t) : ClosesNoString t :=
  ⟨readString?_of_notMem h, readString?_of_notMem (by simpa using h)⟩

/-- A reader that takes the same from a text whether or not more follows it. -/
def StopsBefore {α : Type} (more : Text) (read : Text → Option (α × Text)) : Prop :=
  ∀ a : Text, read (a ++ more) = (read a).map fun r => (r.1, r.2 ++ more)

section

variable {d : Char}

/-- A run of characters other than the delimiter ends before it. -/
theorem takeWhile_append_delimiter {p : Char → Bool} (hp : p d = false) (a b : Text) :
    (a ++ d :: b).takeWhile p = a.takeWhile p := by
  induction a with
  | nil => simp [hp]
  | cons c rest ih =>
    simp only [List.cons_append, List.takeWhile_cons, ih]

/-- What follows a run of characters other than the delimiter keeps what follows the delimiter. -/
theorem dropWhile_append_delimiter {p : Char → Bool} (hp : p d = false) (a b : Text) :
    (a ++ d :: b).dropWhile p = a.dropWhile p ++ d :: b := by
  induction a with
  | nil => simp [hp]
  | cons c rest ih =>
    simp only [List.cons_append, List.dropWhile_cons, ih]
    split <;> rfl

/-- Whether a text begins with another character does not depend on what follows the delimiter. -/
theorem head?_append_delimiter {c : Char} (hc : c ≠ d) (a b : Text) :
    (a ++ d :: b).head? = some c ↔ a.head? = some c := by
  cases a with
  | nil => simpa using fun h : d = c => hc h.symm
  | cons x rest => simp

end

namespace Delimits

variable {d : Char}

private theorem ne {c : Char} (hd : Delimits d) (hc : c ∈ ['.', '+', '-', '/', ':']) : c ≠ d := by
  rintro rfl
  exact hd.mark hc

/-- A sign stands before the delimiter or not at all. -/
theorem dropSign_append (hd : Delimits d) (a b : Text) :
    dropSign (a ++ d :: b) = dropSign a ++ d :: b := by
  have hplus : d ≠ '+' := (hd.ne (by simp)).symm
  have hminus : d ≠ '-' := (hd.ne (by simp)).symm
  cases a with
  | nil => simp [dropSign, hplus, hminus]
  | cons c rest =>
    by_cases hp : c = '+'
    · subst hp; rfl
    · by_cases hm : c = '-'
      · subst hm; rfl
      · simp [dropSign, hp, hm]

/-- The digits that are counted end before the delimiter. -/
theorem signedValue_append (hd : Delimits d) (a b : Text) :
    signedValue (a ++ d :: b) = signedValue a := by
  simp only [signedValue, hd.dropSign_append, takeWhile_append_delimiter hd.digit,
    head?_append_delimiter (hd.ne (c := '-') (by simp))]

/-- An exponent does not go on behind the delimiter. -/
theorem stopsBefore_readExponent? (hd : Delimits d) (b : Text) :
    StopsBefore (d :: b) readExponent? := by
  intro a
  cases a with
  | nil =>
    have he : ¬(d = 'e' ∨ d = 'E') := by
      have := hd.nameChar
      rintro (rfl | rfl) <;> revert this <;> decide
    simp [readExponent?, he]
  | cons c rest =>
    simp only [List.cons_append, readExponent?, hd.dropSign_append,
      takeWhile_append_delimiter hd.digit, dropWhile_append_delimiter hd.digit,
      hd.signedValue_append]
    split <;> rfl

end Delimits

/-- A number with a point is a double, with its exponent if it has one. -/
theorem readNumber?_of_point {input rest : Text} (h : input.dropWhile Char.isDigit = '.' :: rest) :
    readNumber? input =
      some (match readExponent? (rest.dropWhile Char.isDigit) with
        | some (e, after) =>
          (.double (.ofScientific
            (Decimal.value (input.takeWhile Char.isDigit ++ rest.takeWhile Char.isDigit))
            (e - (rest.takeWhile Char.isDigit).length)), after)
        | none =>
          (.double (.ofScientific
            (Decimal.value (input.takeWhile Char.isDigit ++ rest.takeWhile Char.isDigit))
            (-(rest.takeWhile Char.isDigit).length)), rest.dropWhile Char.isDigit)) := by
  unfold readNumber?
  simp only [h]
  cases readExponent? (rest.dropWhile Char.isDigit) <;> rfl

/-- A number without a point is an integer in range, or a double with an exponent. -/
theorem readNumber?_of_no_point {input : Text}
    (h : (input.dropWhile Char.isDigit).head? ≠ some '.') :
    readNumber? input =
      match readExponent? (input.dropWhile Char.isDigit) with
      | some (e, after) =>
        some (.double (.ofScientific (Decimal.value (input.takeWhile Char.isDigit)) e), after)
      | none =>
        if Decimal.value (input.takeWhile Char.isDigit) < Nat.pow 2 63 then
          some (.int (Int64.ofNat (Decimal.value (input.takeWhile Char.isDigit))),
            input.dropWhile Char.isDigit)
        else none := by
  unfold readNumber?
  split
  · next rest hr => simp [hr] at h
  · rfl

/-- A name takes every character that goes on a name. -/
theorem readName_cons_of_isNameChar {c : Char} (hc : isNameChar c = true) (rest : Text) :
    readName (c :: rest) = (c :: (readName rest).1, (readName rest).2) := by
  have hne : c ≠ ':' := by rintro rfl; revert hc; decide
  rw [readName.eq_2 c rest fun _ _ h => absurd h hne, if_pos hc]

/-- A word that does not hold the delimiter stands before it or nowhere. -/
theorem isPrefixOf_append_delimiter {d : Char} {t : Text} (ht : d ∉ t) (a b : Text) :
    t.isPrefixOf (a ++ d :: b) = t.isPrefixOf a := by
  induction t generalizing a with
  | nil => simp
  | cons c t ih =>
    rw [List.mem_cons, not_or] at ht
    cases a with
    | nil => simp [List.isPrefixOf, Ne.symm ht.1]
    | cons x a => simp [List.isPrefixOf, ih ht.2]

/-- A string literal is closed before a text that closes none, or not at all. -/
theorem stopsBefore_readString? {more : Text} (hmore : ClosesNoString more) :
    StopsBefore more readString? := by
  intro a
  fun_induction readString? a with
  | case1 => exact hmore.plain
  | case2 rest => rfl
  | case3 => simp [readString?]
  | case4 c rest hc ih =>
    simp only [List.cons_append, readString?, if_neg hc, ih, Option.map_map]
    rfl
  | case5 c rest _ hne hc =>
    rcases hc with rfl | rfl
    · rfl
    · cases rest with
      | nil => exact hmore.escaped
      | cons d rest => exact absurd rfl (hne d rest rfl)
  | case6 c rest hquote hne hc ih =>
    rw [List.cons_append, readString?.eq_4, if_neg hc, ih, Option.map_map, Option.map_map]
    · rfl
    · exact hquote
    · rintro d after rfl
      exact absurd (Or.inr rfl) hc

namespace Delimits

variable {d : Char}

/-- Neither the point, the fraction nor the exponent of a number is looked for behind the
delimiter. -/
theorem stopsBefore_readNumber? (hd : Delimits d) (b : Text) :
    StopsBefore (d :: b) readNumber? := by
  intro a
  have hpoint : '.' ≠ d := hd.ne (by simp)
  have hdrop := dropWhile_append_delimiter hd.digit a b
  by_cases hhead : (a.dropWhile Char.isDigit).head? = some '.'
  · obtain ⟨rest, hrest⟩ := List.head?_eq_some_iff.mp hhead
    have hrest' : (a ++ d :: b).dropWhile Char.isDigit = '.' :: (rest ++ d :: b) := by
      rw [hdrop, hrest]
      rfl
    rw [readNumber?_of_point hrest, readNumber?_of_point hrest']
    simp only [takeWhile_append_delimiter hd.digit, dropWhile_append_delimiter hd.digit,
      hd.stopsBefore_readExponent? b (rest.dropWhile Char.isDigit)]
    cases readExponent? (rest.dropWhile Char.isDigit) <;> rfl
  · rw [readNumber?_of_no_point hhead, readNumber?_of_no_point
      (by rwa [hdrop, ne_eq, head?_append_delimiter hpoint]), hdrop, hd.stopsBefore_readExponent?,
      takeWhile_append_delimiter hd.digit]
    cases readExponent? (a.dropWhile Char.isDigit) with
    | some r => rfl
    | none => simp only [Option.map_none]; split <;> rfl

/-- A name goes on no further than the delimiter. -/
theorem readName_append (hd : Delimits d) (a b : Text) :
    readName (a ++ d :: b) = ((readName a).1, (readName a).2 ++ d :: b) := by
  have hcolon : d ≠ ':' := (hd.ne (by simp)).symm
  fun_induction readName a with
  | case1 c rest hc ih => simp [readName, hc, ih]
  | case2 c rest hc => simp [readName, hc]
  | case3 c rest _ hc ih => rw [List.cons_append, readName_cons_of_isNameChar hc, ih]
  | case4 c rest hne hc =>
    -- Two colons before the delimiter are not followed by the beginning of a name.
    by_cases hcolons : c = ':' ∧ rest = [':']
    · obtain ⟨rfl, rfl⟩ := hcolons
      simp [readName, hd.nameStart]
    · rw [List.cons_append, readName.eq_2, if_neg hc]
      rintro x after rfl hx
      rcases rest with _ | ⟨y, _ | ⟨z, rest⟩⟩
      · simp_all
      · simp_all
      · simp at hx
        exact hne z rest rfl (by simp [hx.1])
  | case5 =>
    rw [List.nil_append, readName.eq_2 _ _ fun _ _ h => absurd h hcolon, hd.nameChar]
    rfl

/-- A symbol has begun before the delimiter and ends before it. -/
theorem readSymbol?_append (hd : Delimits d) (c : Char) (a b : Text) :
    readSymbol? (c :: (a ++ d :: b)) =
      (readSymbol? (c :: a)).map fun r => (r.1, r.2 ++ d :: b) := by
  have hprefix (s : Symbol) :
      s.text.isPrefixOf (c :: (a ++ d :: b)) = s.text.isPrefixOf (c :: a) := by
    have hs := hd.symbol s
    cases htext : s.text with
    | nil => rfl
    | cons x t =>
      rw [htext, List.tail_cons] at hs
      simp only [List.isPrefixOf, isPrefixOf_append_delimiter hs]
  simp only [readSymbol?, hprefix, Option.map_map]
  cases hs : Symbol.all.find? fun s => s.text.isPrefixOf (c :: a) with
  | none => rfl
  | some s =>
    have hpre : s.text.isPrefixOf (c :: a) = true :=
      List.find?_some (p := fun s : Symbol => s.text.isPrefixOf (c :: a)) hs
    have hlen : s.text.length ≤ (c :: a).length :=
      (List.isPrefixOf_iff_prefix.mp hpre).length_le
    have hdrop : (c :: (a ++ d :: b)).drop s.text.length =
        (c :: a).drop s.text.length ++ d :: b := by
      rw [← List.cons_append, List.drop_append_of_le_length hlen]
    simp [hdrop]

/-- The token that a text begins with, and where it ends, do not depend on what follows the
delimiter. Only a comment goes on to the end of its line, and a string literal to its end. -/
theorem next?_append (hd : Delimits d) {b : Text} {c : Char} {a : Text}
    (hb : c = '"' → ClosesNoString (d :: b)) (hc : d = '\n' ∨ ¬(c = '/' ∧ a.head? = some '/')) :
    next? c (a ++ d :: b) = (next? c a).map fun r => (r.1, r.2 ++ d :: b) := by
  have hslash : '/' ≠ d := hd.ne (by simp)
  have hnum := hd.stopsBefore_readNumber? b (c :: a)
  rw [List.cons_append] at hnum
  unfold next?
  simp only [head?_append_delimiter hslash, hd.readName_append, hnum, hd.readSymbol?_append]
  split
  · rfl
  split
  · next hcomment =>
    obtain rfl := hc.resolve_right (not_not_intro hcomment)
    rw [dropWhile_append_delimiter (p := fun c => decide (c ≠ '\n')) rfl]
    rfl
  split
  · rfl
  split
  · simp only [Option.map_map]
    rfl
  split
  · next hquote =>
    rw [stopsBefore_readString? (hb hquote) a]
    simp only [Option.map_map]
    rfl
  · simp only [Option.map_map]
    rfl

end Delimits

/-- A text that goes on no token which stands before it: it is empty or begins with a delimiter. -/
def Delimited (t : Text) : Prop :=
  ∀ d ∈ t.head?, Delimits d

/-- The empty text goes on no token. -/
theorem delimited_nil : Delimited [] := by
  intro d hd
  cases hd

/-- A text that goes on no token begins with no exponent of a number. -/
theorem Delimited.readExponent?_eq_none {t : Text} (h : Delimited t) : readExponent? t = none := by
  cases t with
  | nil => rfl
  | cons d t => exact (h d rfl).stopsBefore_readExponent? t []

/-- A token that is no string literal ends before a text that does not go on it. -/
theorem Delimited.next?_append {c : Char} {a rest : Text} (h : Delimited rest) (hquote : c ≠ '"')
    (hcomment : ¬(c = '/' ∧ a.head? = some '/')) :
    next? c (a ++ rest) = (next? c a).map fun r => (r.1, r.2 ++ rest) := by
  cases rest with
  | nil => simp
  | cons d rest =>
    exact (h d rfl).next?_append (fun hc => absurd hc hquote) (.inr hcomment)

/-! ## Line by line -/

/-- Reading goes token by token. -/
theorem scan_cons (c : Char) (rest : Text) :
    scan (c :: rest) =
      match next? c rest with
      | none => .error ⟨c⟩
      | some r => (scan r.2).map fun tokens => r.1.toList ++ tokens := by
  rw [scan]
  cases next? c rest <;> rfl

/-- What is read from a text is read from it before a line feed, whatever stands behind that. -/
theorem next?_append_newline (c : Char) (a b : Text) :
    next? c (a ++ '\n' :: b) = (next? c a).map fun r => (r.1, r.2 ++ '\n' :: b) :=
  delimits_newline.next?_append (fun _ => closesNoString_newline b) (.inl rfl)

/-- Two texts with a line feed between them are read one after the other: the first error wins, and
otherwise the tokens stand side by side. -/
theorem scan_append_newline (a b : Text) :
    scan (a ++ '\n' :: b) = (scan a).bind fun xs => (scan b).map fun ys => xs ++ ys := by
  fun_induction scan a with
  | case1 =>
    rw [List.nil_append, scan_cons, next?, if_pos (by decide)]
    rfl
  | case2 c rest h =>
    rw [List.cons_append, scan_cons, next?_append_newline, h]
    rfl
  | case3 c rest r h ih =>
    rw [List.cons_append, scan_cons, next?_append_newline, h, Option.map_some]
    simp only [ih]
    cases scan r.2 with
    | error e => rfl
    | ok xs =>
      cases scan b with
      | error e => rfl
      | ok ys => simp [Except.bind, Except.map, List.append_assoc]

/-! ## A comment behind a text -/

/-- A string literal that is closed is the same whatever follows it. -/
theorem readString?_append {t : Text} {r : Text × Text} (h : readString? t = some r)
    (more : Text) : readString? (t ++ more) = some (r.1, r.2 ++ more) := by
  fun_induction readString? t generalizing r with
  | case1 => cases h
  | case2 rest => cases h; rfl
  | case3 => cases h
  | case4 c rest hc ih =>
    obtain ⟨s, hs, rfl⟩ := Option.map_eq_some_iff.mp h
    rw [List.cons_append, List.cons_append, readString?, if_neg hc, ih hs]
    rfl
  | case5 => cases h
  | case6 c rest hquote hne hc ih =>
    obtain ⟨s, hs, rfl⟩ := Option.map_eq_some_iff.mp h
    rw [List.cons_append, readString?.eq_4 c _ hquote fun _ _ h => absurd (.inr h) hc, if_neg hc,
      ih hs]
    rfl

/-- What is read from a text that is no comment is read from it before a text that goes on no
token. -/
theorem Delimited.next?_append_of_eq_some {c : Char} {a rest : Text} {r : Option Token × Text}
    (hrest : Delimited rest) (hcomment : ¬(c = '/' ∧ a.head? = some '/'))
    (h : next? c a = some r) : next? c (a ++ rest) = some (r.1, r.2 ++ rest) := by
  by_cases hquote : c = '"'
  · subst hquote
    obtain ⟨s, hs, rfl⟩ := Option.map_eq_some_iff.mp (show (readString? a).map _ = some r from h)
    exact congrArg (Option.map _) (readString?_append hs rest)
  · rw [hrest.next?_append hquote hcomment, h]
    rfl

/-- A text without line feeds has no other line. -/
theorem dropWhile_eq_nil_of_notMem {t : Text} (h : '\n' ∉ t) : t.dropWhile (· ≠ '\n') = [] := by
  rw [List.dropWhile_eq_nil_iff]
  rintro c hc
  refine decide_eq_true ?_
  rintro rfl
  exact h hc

/-- A comment goes on to the end of its line. -/
theorem next?_of_comment {rest : Text} (h : rest.head? = some '/') :
    next? '/' rest = some (none, rest.dropWhile (· ≠ '\n')) := by
  rw [next?, if_neg (by decide), if_pos ⟨rfl, h⟩]

/-- A comment behind a text, with a space between the two, changes none of its tokens. If the text
ends in a comment, that one goes on. -/
theorem scan_append_comment {l words : Text} {tokens : List Token} (h : scan l = .ok tokens)
    (hwords : '\n' ∉ words) : scan (l ++ ' ' :: '/' :: '/' :: words) = .ok tokens := by
  have hrest : Delimited (' ' :: '/' :: '/' :: words) := by
    rintro d ⟨⟩
    exact delimits_of_isGap rfl
  have hline : '\n' ∉ ' ' :: '/' :: '/' :: words := by simp [hwords]
  fun_induction scan l generalizing tokens with
  | case1 =>
    have hgap : next? ' ' ('/' :: '/' :: words) = some (none, '/' :: '/' :: words) := rfl
    have hcomment : next? '/' ('/' :: words) = some (none, []) := by
      rw [next?_of_comment rfl, dropWhile_eq_nil_of_notMem]
      simp [hwords]
    rw [List.nil_append, scan_cons, hgap]
    simp only [scan_cons, hcomment, scan.eq_1]
    exact h
  | case2 c rest hnone => cases h
  | case3 c rest r hnext ih =>
    obtain ⟨later, hlater, rfl⟩ := map_eq_ok.mp h
    by_cases hcomment : c = '/' ∧ rest.head? = some '/'
    · obtain ⟨rfl, hslash⟩ := hcomment
      have hslash' : (rest ++ ' ' :: '/' :: '/' :: words).head? = some '/' := by
        rw [List.head?_append, hslash]
        rfl
      obtain rfl : (none, rest.dropWhile (· ≠ '\n')) = r :=
        Option.some.inj ((next?_of_comment hslash).symm.trans hnext)
      rw [List.cons_append, scan_cons, next?_of_comment hslash']
      by_cases hempty : rest.dropWhile (· ≠ '\n') = []
      · have hdrop : (rest ++ ' ' :: '/' :: '/' :: words).dropWhile (· ≠ '\n') = [] := by
          rw [List.dropWhile_append, hempty]
          exact dropWhile_eq_nil_of_notMem hline
        rw [hempty] at hlater
        simp only [hdrop, hlater]
        rfl
      · have hdrop : (rest ++ ' ' :: '/' :: '/' :: words).dropWhile (· ≠ '\n') =
            rest.dropWhile (· ≠ '\n') ++ ' ' :: '/' :: '/' :: words := by
          rw [List.dropWhile_append, if_neg (by simpa using hempty)]
        simp only [hdrop, ih hlater]
        rfl
    · have hnext' := hrest.next?_append_of_eq_some hcomment hnext
      rw [List.cons_append, scan_cons, hnext']
      simp only [ih hlater]
      rfl

/-! ## Texts without comments -/

/-- A text that is cut into tokens and gaps, and none of the gaps is a comment. -/
inductive Uncommented : Text → Prop
  | nil : Uncommented []
  | cons {c : Char} {rest : Text} {r : Option Token × Text}
    (hc : ¬(c = '/' ∧ rest.head? = some '/')) (h : next? c rest = some r)
    (hrest : Uncommented r.2) : Uncommented (c :: rest)

namespace Uncommented

variable {d : Char} {a b : Text}

/-- The tokens of a text without comments do not change if a delimiter follows. -/
theorem scan_append (ha : Uncommented a) (hd : Delimits d) (hb : ClosesNoString (d :: b)) :
    scan (a ++ d :: b) = (scan a).bind fun xs => (scan (d :: b)).map fun ys => xs ++ ys := by
  induction ha with
  | nil =>
    rw [List.nil_append, scan]
    cases scan (d :: b) <;> rfl
  | @cons c rest r hc h hrest ih =>
    have hnext := hd.next?_append (fun _ => hb) (.inr hc)
    rw [List.cons_append, scan_cons, hnext, h, Option.map_some, scan_cons, h]
    simp only [ih]
    cases scan r.2 with
    | error e => rfl
    | ok xs =>
      cases scan (d :: b) with
      | error e => rfl
      | ok ys => simp [Except.bind, Except.map, List.append_assoc]

/-- What stands before a delimiter in a text without comments is one itself. -/
theorem of_append (h : Uncommented (a ++ d :: b)) (hd : Delimits d) (hb : ClosesNoString (d :: b)) :
    Uncommented a := by
  generalize ht : a ++ d :: b = t at h
  induction h generalizing a with
  | nil => simp at ht
  | @cons c rest r hc h hrest ih =>
    cases a with
    | nil => exact .nil
    | cons x a =>
      rw [List.cons_append] at ht
      obtain ⟨rfl, rfl⟩ := List.cons.inj ht
      have hslash : '/' ≠ d := hd.ne (by simp)
      rw [head?_append_delimiter hslash] at hc
      rw [hd.next?_append (fun _ => hb) (.inr hc)] at h
      obtain ⟨s, hs, rfl⟩ := Option.map_eq_some_iff.mp h
      exact .cons hc hs (ih rfl)

/-- A text without comments has tokens. -/
theorem exists_scan (h : Uncommented a) : ∃ tokens, scan a = .ok tokens := by
  induction h with
  | nil => exact ⟨[], by rw [scan]⟩
  | cons hc h hrest ih =>
    obtain ⟨tokens, htokens⟩ := ih
    rw [scan_cons, h]
    exact ⟨_, congrArg (Except.map _) htokens⟩

/-- A semicolon at the end of a text without comments is a token. -/
theorem exists_of_getLast? (h : Uncommented a) (hlast : a.getLast? = some ';') :
    ∃ tokens, scan a = .ok (tokens ++ [.sym .semi]) := by
  obtain ⟨before, rfl⟩ := List.getLast?_eq_some_iff.mp hlast
  have hclose : ClosesNoString [';'] := closesNoString_of_notMem (by decide)
  have hbefore := h.of_append delimits_semi hclose
  obtain ⟨tokens, htokens⟩ := hbefore.exists_scan
  have hsemi : scan [';'] = .ok [.sym .semi] := by
    have hnext : next? ';' [] = some (some (.sym .semi), []) := rfl
    rw [scan_cons, hnext]
    dsimp only
    rw [scan.eq_1]
    rfl
  refine ⟨tokens, ?_⟩
  rw [hbefore.scan_append delimits_semi hclose, htokens, hsemi]
  rfl

end Uncommented

end Literate.Token
