import Literate.Document.Comment
import Literate.Document.Example
import Literate.Document.Fence

/-!
# Examples of a document

A document is Markdown, whose zones are fenced blocks, or a header, whose zones are comment
blocks. Its examples are those of its zones in order. A zone or fence that is at fault is reported
and does not hide the others.
-/

namespace Literate

/-- How the zones of a document are delimited. -/
inductive Delimiters
  | fences (languages : List Text)
  | comments (sigil : Text)
  deriving DecidableEq, Repr

namespace Delimiters

/-- The zones of a document, and the fences that are never closed. -/
def scan (d : Delimiters) (document : Text) : Scan :=
  match d with
  | fences languages => Fence.scan languages none (Line.ofDocument document)
  | comments sigil => { zones := Comment.scan sigil none (Line.ofDocument document) }

/-- The delimiters for a reader. -/
def describe : Delimiters → Text
  | fences languages => Fence.describe languages
  | comments sigil => Comment.describe sigil

end Delimiters

/-- The kinds of documents that hold examples. -/
inductive DocumentKind
  | markdown
  | header
  deriving DecidableEq, Repr

/-- The delimiters of zones in a kind of documents. -/
def DocumentKind.delimiters : DocumentKind → Delimiters
  | markdown => .fences ["c".toList, "c++".toList, "cpp".toList]
  | header => .comments Example.sigil

/-- The examples of a document, and what is wrong with it. -/
structure Extraction where
  examples : List Example := []
  errors : List ExtractError := []
  deriving DecidableEq, Repr

namespace Extraction

/-- The examples of zones in order, and the errors of those that have none. -/
def ofZones : List Zone → Extraction
  | [] => {}
  | z :: rest =>
    let later := ofZones rest
    match Example.ofZone z with
    | .ok examples => { later with examples := examples ++ later.examples }
    | .error e => { later with errors := e :: later.errors }

/-- The examples of a document, and its errors by line. -/
def ofDocument (kind : DocumentKind) (document : Text) : Extraction :=
  let scan := kind.delimiters.scan document
  let found := ofZones scan.zones
  { found with errors := (scan.errors ++ found.errors).mergeSort (·.line ≤ ·.line) }

end Extraction

end Literate
