import Literate.Number.Decimal

/-!
# Lines and zones of a document

A document is a text; a zone is a run of its lines that holds code. Lines are numbered from one,
and places in a document are counted in bytes. The lines of a document cover it, each beginning
where the one before ends.
-/

namespace Literate

/-- One line of a document: its number, where it begins, and its text with the terminator. -/
structure Line where
  number : Nat
  start : Nat
  raw : Text
  deriving DecidableEq, Repr

namespace Line

/-- The place just after a line and its terminator. -/
def stop (l : Line) : Nat :=
  l.start + l.raw.byteCount

/-- The text of a line without a line feed and a carriage return before it. A carriage return at
the end of an unterminated line is dropped as well. -/
def text (l : Line) : Text :=
  (l.raw.chop '\n').chop '\r'

/-- Numbers and places raw lines one after another. -/
def place (number start : Nat) : List Text → List Line
  | [] => []
  | raw :: rest => ⟨number, start, raw⟩ :: place (number + 1) (start + raw.byteCount) rest

/-- The lines of a document. -/
def ofDocument (document : Text) : List Line :=
  place 1 0 document.rawLines

/-- Placing lines leaves their texts as they are. -/
theorem map_raw_place (number start : Nat) (raws : List Text) :
    (place number start raws).map raw = raws := by
  induction raws generalizing number start with
  | nil => rfl
  | cons r rest ih => simp [place, ih]

/-- Lines placed side by side are the document. -/
theorem flatMap_raw_ofDocument (document : Text) :
    (ofDocument document).flatMap raw = document := by
  rw [List.flatMap_def, ofDocument, map_raw_place, Text.flatten_rawLines]

/-- Lines that stand behind others go on from their number and their bytes. -/
theorem place_append (number start : Nat) (a b : List Text) :
    place number start (a ++ b) =
      place number start a ++ place (number + a.length) (start + Text.byteCount a.flatten) b := by
  induction a generalizing number start with
  | nil => simp [place]
  | cons r rest ih =>
    simp [place, ih, Nat.add_assoc, Nat.add_comm 1 rest.length]

end Line

/-- A region of a document that holds code. -/
structure Zone where
  /-- What opened the zone: a fence, or the sign of a comment. -/
  marker : Text
  /-- The content, exactly as it stands in the document. -/
  text : Text
  start : Nat
  stop : Nat
  /-- The number of the first line of the content. -/
  line : Nat
  deriving DecidableEq, Repr

/-- The zone of the lines that follow its opening line. -/
def Zone.after (opener : Line) (marker : Text) (content : List Line) : Zone :=
  let text : Text := content.flatMap Line.raw
  { marker, text, start := opener.stop, stop := opener.stop + text.byteCount,
    line := opener.number + 1 }

/-- What is wrong with one place of a document. The rest of the document is not affected. -/
inductive ExtractError
  | unterminatedFence (line : Nat) (marker : Text)
  | orphanExpectation (line : Nat) (text : Text)
  deriving DecidableEq, Repr

namespace ExtractError

/-- The number of the line that an error points at. -/
def line : ExtractError → Nat
  | unterminatedFence line _ | orphanExpectation line _ => line

/-- A number of a line in a message. -/
def place (line : Nat) : Text :=
  "line ".toList ++ Decimal.ofNat line ++ ": ".toList

def message : ExtractError → Text
  | unterminatedFence line marker =>
    place line ++ "`".toList ++ marker ++
      "` fence is never closed by a matching `".toList ++ marker ++ "`".toList
  | orphanExpectation line text =>
    place line ++ "expected output `".toList ++ text ++ "` does not follow any snippet".toList

end ExtractError

/-- The zones of a document in order, and the fences that are never closed. -/
structure Scan where
  zones : List Zone := []
  errors : List ExtractError := []
  deriving DecidableEq, Repr

end Literate
