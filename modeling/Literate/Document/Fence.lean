import Literate.Document.Zone
import Literate.Text.Blank
import Literate.Text.Word

/-!
# Fenced blocks

A fence is a run of three or more backquotes or tildes after spaces. One that is followed by the
tag of a known language opens a zone; the next line that holds nothing but a run of exactly the
same length closes it. A fence that no later line closes is an error and hides nothing after it.
Fences of other languages are passed over, since they may hold one of a known language.
-/

namespace Literate

/-- A run of one fence character. -/
structure Fence where
  mark : Char
  length : Nat
  deriving DecidableEq, Repr

namespace Fence

/-- How a fence is written. -/
def text (f : Fence) : Text :=
  List.replicate f.length f.mark

/-- A backquote or a tilde. -/
def isMark (c : Char) : Bool :=
  c = '\x60' || c = '~'

/-- The spaces that may stand before a fence dropped. -/
def unindented (line : Text) : Text :=
  line.dropWhile (· = ' ')

/-- The fence that a line opens with, and what follows it. -/
def ofLine? (line : Text) : Option (Fence × Text) :=
  match unindented line with
  | [] => none
  | c :: rest =>
    let run := (rest.takeWhile (· = c)).length + 1
    if isMark c ∧ 3 ≤ run then some (⟨c, run⟩, rest.dropWhile (· = c)) else none

/-- Whether a line holds a run of exactly this fence and nothing else but blanks. -/
def closedBy (f : Fence) (line : Text) : Bool :=
  ((unindented line).takeWhile (· = f.mark)).length = f.length &&
    ((unindented line).dropWhile (· = f.mark)).all Text.isBlank

/-- Whether the text after a fence begins, after spaces, with a whole word of these. -/
def accepts (languages : List Text) (info : Text) : Bool :=
  languages.any fun language =>
    match Text.after? language (unindented info) with
    | some [] => true
    | some (c :: _) => !Text.isWord c
    | none => false

/-- The fence with which a line opens a zone of a known language. -/
def opener? (languages : List Text) (line : Text) : Option Fence :=
  match ofLine? line with
  | some (f, info) => if accepts languages info then some f else none
  | none => none

/-- The zones and errors of some lines, the first of which lie inside a zone until `inside` is
closed, if it is given. -/
def scan (languages : List Text) : Option Fence → List Line → Scan
  | _, [] => {}
  | some f, l :: rest =>
    if f.closedBy l.text then scan languages none rest else scan languages (some f) rest
  | none, l :: rest =>
    match opener? languages l.text with
    | none => scan languages none rest
    | some f =>
      if rest.any fun l => f.closedBy l.text then
        let content := rest.takeWhile fun l => !f.closedBy l.text
        let later := scan languages (some f) rest
        { later with zones := Zone.after l f.text content :: later.zones }
      else
        let later := scan languages none rest
        { later with errors := .unterminatedFence l.number f.text :: later.errors }

/-- The delimiters of zones in these languages, for a reader. -/
def describe (languages : List Text) : Text :=
  List.intercalate " or ".toList
    (languages.map fun language => "```".toList ++ language ++ " ... ```".toList)

end Fence

end Literate
