import Literate.Text.Basic

/-!
# Quoted texts

A text is quoted with escapes for quotation marks, backslashes and control characters, and every
other character stands for itself. Reading also knows the escape of a slash and of a character by
its UTF-16 units, of which the two halves of a pair have to come together.
-/

namespace Literate.Quoted

/-- How a character is written inside quotation marks. -/
def escapeChar (c : Char) : Text :=
  if c = '"' then ['\\', '"']
  else if c = '\\' then ['\\', '\\']
  else if c = '\x08' then ['\\', 'b']
  else if c = '\x0c' then ['\\', 'f']
  else if c = '\n' then ['\\', 'n']
  else if c = '\r' then ['\\', 'r']
  else if c = '\t' then ['\\', 't']
  else if c.toNat < 0x20 then
    ['\\', 'u', '0', '0', Nat.digitChar (c.toNat / 16), Nat.digitChar (c.toNat % 16)]
  else [c]

/-- The body of a quoted text. -/
def escape (t : Text) : Text :=
  t.flatMap escapeChar

/-- A text in quotation marks. -/
def quote (t : Text) : Text :=
  '"' :: escape t ++ ['"']

/-- The value of a hexadecimal digit in either case. -/
def hexValue? (c : Char) : Option Nat :=
  if '0' ≤ c ∧ c ≤ '9' then some (c.toNat - '0'.toNat)
  else if 'a' ≤ c ∧ c ≤ 'f' then some (c.toNat - 'a'.toNat + 10)
  else if 'A' ≤ c ∧ c ≤ 'F' then some (c.toNat - 'A'.toNat + 10)
  else none

/-- The number that four hexadecimal digits denote. -/
def unit? (a b c d : Char) : Option Nat := do
  let a ← hexValue? a
  let b ← hexValue? b
  let c ← hexValue? c
  let d ← hexValue? d
  return ((a * 16 + b) * 16 + c) * 16 + d

/-- One part of the body of a quoted text: a character, or an escaped UTF-16 unit. -/
inductive Part
  | char (c : Char)
  | unit (u : Nat)
  deriving DecidableEq, Repr

/-- The character that a backslash and the given one stand for. -/
def escaped? (c : Char) : Option Char :=
  if c = '"' ∨ c = '\\' ∨ c = '/' then some c
  else if c = 'b' then some '\x08'
  else if c = 'f' then some '\x0c'
  else if c = 'n' then some '\n'
  else if c = 'r' then some '\r'
  else if c = 't' then some '\t'
  else none

/-- The parts of the body of a quoted text. -/
def parts? : Text → Option (List Part)
  | [] => some []
  | '\\' :: 'u' :: a :: b :: c :: d :: rest => do
    let u ← unit? a b c d
    let others ← parts? rest
    return .unit u :: others
  | '\\' :: c :: rest => do
    let c ← escaped? c
    let others ← parts? rest
    return .char c :: others
  | c :: rest => do
    let others ← parts? rest
    if c = '\\' then none else return .char c :: others

/-- Whether a unit is the first half of a pair. -/
def isHigh (u : Nat) : Bool := 0xD800 ≤ u && u ≤ 0xDBFF

/-- Whether a unit is the second half of a pair. -/
def isLow (u : Nat) : Bool := 0xDC00 ≤ u && u ≤ 0xDFFF

/-- The text of some parts, if every half of a pair stands by the other. -/
def ofParts? : List Part → Option Text
  | [] => some []
  | .char c :: rest => (ofParts? rest).map (c :: ·)
  | .unit u :: .unit v :: rest =>
    if isHigh u then
      if isLow v then
        (ofParts? rest).map (Char.ofNat (0x10000 + (u - 0xD800) * 0x400 + (v - 0xDC00)) :: ·)
      else none
    else if isLow u then none
    else (ofParts? (.unit v :: rest)).map (Char.ofNat u :: ·)
  | .unit u :: rest =>
    if isHigh u ∨ isLow u then none else (ofParts? rest).map (Char.ofNat u :: ·)

/-- The text that the body of a quoted text stands for. -/
def unescape? (body : Text) : Option Text :=
  (parts? body).bind ofParts?

end Literate.Quoted
