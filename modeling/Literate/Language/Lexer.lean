import Literate.Language.Token

/-!
# Reading tokens

A block is cut into tokens from left to right, each the longest that can begin where the one
before ended. Spaces, tabs and line ends separate tokens, and a comment runs from two slashes to
the end of its line. No token reaches into another line.
-/

namespace Literate

/-- A character that no token begins with, or that begins a literal which is not completed. -/
structure LexError where
  found : Char
  deriving DecidableEq, Repr

def LexError.message (e : LexError) : Text :=
  "error: unexpected character '".toList ++ [e.found] ++ "'".toList

namespace Token

/-- The characters that separate tokens. -/
def isGap (c : Char) : Bool :=
  c = ' ' || c = '\t' || c = '\r' || c = '\n'

/-- A character that begins a name. -/
def isNameStart (c : Char) : Bool :=
  c.isAlpha || c = '_'

/-- A character that goes on a name. -/
def isNameChar (c : Char) : Bool :=
  c.isAlphanum || c = '_'

/-- The rest of a name that has begun, and what follows it. Two colons belong to the name where
another part follows them. -/
def readName : Text → Text × Text
  | ':' :: ':' :: c :: rest =>
    if isNameStart c then (':' :: ':' :: c :: (readName rest).1, (readName rest).2)
    else ([], ':' :: ':' :: c :: rest)
  | c :: rest =>
    if isNameChar c then (c :: (readName rest).1, (readName rest).2) else ([], c :: rest)
  | [] => ([], [])

/-- What follows a sign, if there is one. -/
def dropSign : Text → Text
  | '+' :: rest | '-' :: rest => rest
  | rest => rest

/-- The number that a sign and digits denote. -/
def signedValue (t : Text) : Int :=
  let size := Decimal.value ((dropSign t).takeWhile Char.isDigit)
  if t.head? = some '-' then -size else size

/-- An exponent, signed or not, and what follows it. -/
def readExponent? : Text → Option (Int × Text)
  | c :: rest =>
    if (c = 'e' ∨ c = 'E') ∧ (dropSign rest).takeWhile Char.isDigit ≠ [] then
      some (signedValue rest, (dropSign rest).dropWhile Char.isDigit)
    else none
  | [] => none

/-- The number literal at the beginning of an input that begins with a digit: one with a point or
an exponent is a double, and any other an integer, which has to be less than `2 ^ 63`. -/
def readNumber? (input : Text) : Option (Token × Text) :=
  let whole := input.takeWhile Char.isDigit
  match input.dropWhile Char.isDigit with
  | '.' :: rest =>
    let fraction := rest.takeWhile Char.isDigit
    let digits := Decimal.value (whole ++ fraction)
    match readExponent? (rest.dropWhile Char.isDigit) with
    | some (e, rest) => some (.double (.ofScientific digits (e - fraction.length)), rest)
    | none => some (.double (.ofScientific digits (-fraction.length)), rest.dropWhile Char.isDigit)
  | rest =>
    match readExponent? rest with
    | some (e, rest) => some (.double (.ofScientific (Decimal.value whole) e), rest)
    | none =>
      let n := Decimal.value whole
      if n < Nat.pow 2 63 then some (.int (Int64.ofNat n), rest) else none

/-- What an escaped character stands for. -/
def unescape (c : Char) : Char :=
  if c = 'n' then '\n' else if c = 't' then '\t' else c

/-- The rest of a string literal after its opening quote, and what follows its closing quote. It
ends on the line it began on. -/
def readString? : Text → Option (Text × Text)
  | [] => none
  | '"' :: rest => some ([], rest)
  | '\\' :: c :: rest =>
    if c = '\n' then none else (readString? rest).map fun r => (unescape c :: r.1, r.2)
  | c :: rest =>
    if c = '\n' ∨ c = '\\' then none else (readString? rest).map fun r => (c :: r.1, r.2)

/-- The symbol that an input begins with, and what follows it. -/
def readSymbol? (input : Text) : Option (Token × Text) :=
  (Symbol.all.find? fun s => s.text.isPrefixOf input).map fun s =>
    (.sym s, input.drop s.text.length)

/-- The token that a nonempty input begins with, or none for a gap or a comment, and what follows
it. -/
def next? (c : Char) (rest : Text) : Option (Option Token × Text) :=
  if isGap c then some (none, rest)
  else if c = '/' ∧ rest.head? = some '/' then some (none, rest.dropWhile (· ≠ '\n'))
  else if isNameStart c then some (some (.name (c :: (readName rest).1)), (readName rest).2)
  else if c.isDigit then (readNumber? (c :: rest)).map fun r => (some r.1, r.2)
  else if c = '"' then (readString? rest).map fun r => (some (.str r.1), r.2)
  else (readSymbol? (c :: rest)).map fun r => (some r.1, r.2)

private theorem length_readName_le (t : Text) : (readName t).2.length ≤ t.length := by
  fun_induction readName t <;> simp_all only [List.length_cons, Nat.le_refl] <;> omega

private theorem length_dropWhile_le (p : Char → Bool) (t : Text) :
    (t.dropWhile p).length ≤ t.length :=
  (List.dropWhile_sublist p).length_le

private theorem length_dropSign_le (t : Text) : (dropSign t).length ≤ t.length := by
  unfold dropSign
  split <;> simp

private theorem length_readExponent?_le {t : Text} {r : Int × Text} (h : readExponent? t = some r) :
    r.2.length ≤ t.length := by
  unfold readExponent? at h
  split at h
  · next c rest =>
    split at h
    · obtain rfl := Option.some.inj h
      have h1 := length_dropWhile_le Char.isDigit (dropSign rest)
      have h2 := length_dropSign_le rest
      simp only [List.length_cons]
      omega
    · simp at h
  · simp at h

private theorem length_readString?_le {t : Text} {r : Text × Text} (h : readString? t = some r) :
    r.2.length ≤ t.length := by
  fun_induction readString? t generalizing r with
  | case1 => simp at h
  | case2 rest => simp at h; simp [← h]
  | case3 => simp at h
  | case4 c rest hc ih =>
    obtain ⟨s, hs, rfl⟩ := Option.map_eq_some_iff.1 h
    have := ih hs
    simp; omega
  | case5 => simp at h
  | case6 c rest _ _ hc ih =>
    obtain ⟨s, hs, rfl⟩ := Option.map_eq_some_iff.1 h
    have := ih hs
    simp; omega

private theorem length_readNumber?_lt {c : Char} {rest : Text} {r : Token × Text}
    (hc : c.isDigit = true)
    (h : readNumber? (c :: rest) = some r) : r.2.length ≤ rest.length := by
  have hle := length_dropWhile_le Char.isDigit rest
  unfold readNumber? at h
  simp only [List.dropWhile_cons, hc, if_true] at h
  split at h
  · next after heq =>
    rw [heq] at hle
    have hd := length_dropWhile_le Char.isDigit after
    split at h
    · next e r' he =>
      have := length_readExponent?_le he
      obtain rfl := Option.some.inj h
      simp at *; omega
    · obtain rfl := Option.some.inj h
      simp at *; omega
  · split at h
    · next e r' he =>
      have := length_readExponent?_le he
      obtain rfl := Option.some.inj h
      simp at *; omega
    · split at h
      · obtain rfl := Option.some.inj h
        exact hle
      · simp at h

/-- Reading a token or a gap uses at least the first character. -/
theorem length_next?_le {c : Char} {rest : Text} {r : Option Token × Text}
    (h : next? c rest = some r) : r.2.length ≤ rest.length := by
  unfold next? at h
  split at h
  · obtain rfl := Option.some.inj h; simp
  split at h
  · obtain rfl := Option.some.inj h; exact length_dropWhile_le _ _
  split at h
  · obtain rfl := Option.some.inj h; exact length_readName_le _
  split at h
  · next hd =>
    obtain ⟨s, hs, rfl⟩ := Option.map_eq_some_iff.1 h
    exact length_readNumber?_lt hd hs
  split at h
  · obtain ⟨s, hs, rfl⟩ := Option.map_eq_some_iff.1 h
    exact length_readString?_le hs
  · obtain ⟨s, hs, rfl⟩ := Option.map_eq_some_iff.1 h
    unfold readSymbol? at hs
    obtain ⟨y, _, rfl⟩ := Option.map_eq_some_iff.1 hs
    cases y <;> simp [Symbol.text]

/-- The tokens of a block. -/
def scan : Text → Except LexError (List Token)
  | [] => .ok []
  | c :: rest =>
    match _h : next? c rest with
    | none => .error ⟨c⟩
    | some r => (scan r.2).map fun tokens => r.1.toList ++ tokens
termination_by input => input.length
decreasing_by
  have := length_next?_le _h
  simp only [List.length_cons]
  omega

end Token

end Literate
