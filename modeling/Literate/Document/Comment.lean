import Literate.Document.Zone

/-!
# Code in comments

A comment block opens after a line that holds nothing but spaces and a sign. It takes every
following line that begins with the same spaces and sign and five spaces more.
-/

namespace Literate.Comment

/-- The spaces before the sign of a line that holds nothing else, or only one space more. -/
def opener? (sigil line : Text) : Option Text :=
  match Text.after? sigil (line.dropWhile (· = ' ')) with
  | some [] | some [' '] => some (line.takeWhile (· = ' '))
  | _ => none

/-- What begins every line of a block: the spaces of its opening line, the sign and five
spaces. -/
def margin (sigil indent : Text) : Text :=
  indent ++ sigil ++ List.replicate 5 ' '

/-- Whether a line goes on a block that was opened with some spaces. -/
def continues (sigil indent line : Text) : Bool :=
  (margin sigil indent).isPrefixOf line

/-- The zones of some lines, the first of which belong to a zone as long as they go on the one
opened with the spaces `inside`, if these are given. The line that ends a zone may open the
next. -/
def scan (sigil : Text) : Option Text → List Line → List Zone
  | _, [] => []
  | inside, l :: rest =>
    if inside.any fun indent => continues sigil indent l.text then scan sigil inside rest
    else match opener? sigil l.text with
      | none => scan sigil none rest
      | some indent =>
        match rest.takeWhile fun l => continues sigil indent l.text with
        | [] => scan sigil none rest
        | content => Zone.after l sigil content :: scan sigil (some indent) rest

/-- The delimiters of zones under a sign, for a reader. -/
def describe (sigil : Text) : Text :=
  sigil ++ '\n' :: sigil ++ "     ...".toList

end Literate.Comment
