import Literate.Json.Basic

/-!
# Reading JSON

A JSON text is one value with white space around it and between its parts. Values nest no deeper
than their text allows, which bounds the descent.
-/

namespace Literate.Json

/-- White space between the parts of a value. -/
def isSpace (c : Char) : Bool :=
  c = ' ' || c = '\n' || c = '\r' || c = '\t'

def skipSpace (t : Text) : Text :=
  t.dropWhile isSpace

/-- Whether a text begins with four hexadecimal digits. -/
def startsWithUnit (t : Text) : Bool :=
  (t.take 4).length = 4 && (t.take 4).all fun c => (Quoted.hexValue? c).isSome

/-- The body of a string after its opening quotation mark, and what follows the closing one. The
body holds no control characters, and its escapes are complete. -/
def readString? : Text → Option (Text × Text)
  | [] => none
  | '"' :: rest => some ([], rest)
  | '\\' :: c :: rest =>
    if (Quoted.escaped? c).isSome ∨ (c = 'u' ∧ startsWithUnit rest) then
      (readString? rest).map fun r => ('\\' :: c :: r.1, r.2)
    else none
  | c :: rest =>
    if c.toNat < 0x20 ∨ c = '\\' then none
    else (readString? rest).map fun r => (c :: r.1, r.2)

/-- At least one digit, and what follows the digits. -/
def readDigits? (t : Text) : Option (Text × Text) :=
  match t.takeWhile Char.isDigit with
  | [] => none
  | digits => some (digits, t.dropWhile Char.isDigit)

/-- The whole part of a number, which has no zero before other digits. -/
def readWhole? : Text → Option (Text × Text)
  | '0' :: rest => if rest.head?.any Char.isDigit then none else some (['0'], rest)
  | t => readDigits? t

/-- The fraction of a number, or nothing. -/
def readFraction? : Text → Option (Text × Text)
  | '.' :: rest => (readDigits? rest).map fun r => ('.' :: r.1, r.2)
  | t => some ([], t)

/-- A sign before the digits of an exponent, or nothing. -/
def readSign : Text → Text × Text
  | '+' :: rest => (['+'], rest)
  | '-' :: rest => (['-'], rest)
  | t => ([], t)

/-- The exponent of a number, or nothing. -/
def readExponent? : Text → Option (Text × Text)
  | c :: rest =>
    if c = 'e' ∨ c = 'E' then
      (readDigits? (readSign rest).2).map fun r => (c :: (readSign rest).1 ++ r.1, r.2)
    else some ([], c :: rest)
  | [] => some ([], [])

/-- The text of a number without its sign, and what follows it. -/
def readUnsigned? (t : Text) : Option (Text × Text) := do
  let (whole, rest) ← readWhole? t
  let (fraction, rest) ← readFraction? rest
  let (exponent, rest) ← readExponent? rest
  return (whole ++ fraction ++ exponent, rest)

/-- The text of a number, and what follows it. -/
def readNumber? : Text → Option (Text × Text)
  | '-' :: rest => (readUnsigned? rest).map fun r => ('-' :: r.1, r.2)
  | t => readUnsigned? t

/-- One of the three words of JSON, and what follows it. -/
def readWord? (t : Text) : Option (Json × Text) :=
  match Text.after? "null".toList t with
  | some rest => some (null, rest)
  | none =>
    match Text.after? "true".toList t with
    | some rest => some (bool true, rest)
    | none => (Text.after? "false".toList t).map fun rest => (bool false, rest)

/-- A key and the colon after it. -/
def readKey? (t : Text) : Option (Text × Text) :=
  match skipSpace t with
  | '"' :: rest =>
    match readString? rest with
    | some (key, rest) =>
      match skipSpace rest with
      | ':' :: rest => some (key, rest)
      | _ => none
    | none => none
  | _ => none

mutual

/-- A value, and what follows it. -/
def readValue? : Nat → Text → Option (Json × Text)
  | 0, _ => none
  | depth + 1, t =>
    match skipSpace t with
    | '"' :: rest => (readString? rest).map fun r => (string r.1, r.2)
    | '[' :: rest =>
      match skipSpace rest with
      | ']' :: rest => some (array [], rest)
      | rest => (readElements? depth rest).map fun r => (array r.1, r.2)
    | '{' :: rest =>
      match skipSpace rest with
      | '}' :: rest => some (object [], rest)
      | rest => (readMembers? depth rest).map fun r => (object r.1, r.2)
    | rest =>
      match readWord? rest with
      | some r => some r
      | none => (readNumber? rest).map fun r => (number r.1, r.2)

/-- The elements of an array up to its closing bracket. -/
def readElements? : Nat → Text → Option (List Json × Text)
  | 0, _ => none
  | depth + 1, t => do
    let (v, rest) ← readValue? depth t
    match skipSpace rest with
    | ',' :: rest =>
      let (vs, rest) ← readElements? depth rest
      return (v :: vs, rest)
    | ']' :: rest => return ([v], rest)
    | _ => none

/-- The members of an object up to its closing bracket. -/
def readMembers? : Nat → Text → Option (List (Text × Json) × Text)
  | 0, _ => none
  | depth + 1, t => do
    let (key, rest) ← readKey? t
    let (v, rest) ← readValue? depth rest
    match skipSpace rest with
    | ',' :: rest =>
      let (others, rest) ← readMembers? depth rest
      return ((key, v) :: others, rest)
    | '}' :: rest => return ([(key, v)], rest)
    | _ => none

end

/-- The value that a text holds, if it is one JSON value. -/
def parse? (t : Text) : Option Json :=
  match readValue? (2 * t.length + 2) t with
  | some (v, rest) => if skipSpace rest = [] then some v else none
  | none => none

/-- The values of an object by key, if the value is one and every key is a text. -/
def members? : Json → Option (List (Text × Json))
  | object ms => ms.mapM fun m => (Quoted.unescape? m.1).map (·, m.2)
  | _ => none

/-- The values of a record's fields in order, none for each that is missing. A record is an object
in which no field occurs twice, whatever else it holds, or an array of all the fields. -/
def record? (fields : List Text) : Json → Option (List (Option Json))
  | array vs => if vs.length = fields.length then some (vs.map some) else none
  | v => do
    let ms ← v.members?
    if fields.all fun f => ms.countP (·.1 = f) ≤ 1 then
      return fields.map fun f => (ms.find? (·.1 = f)).map (·.2)
    else none

end Literate.Json
