import Literate.Document.Extraction

/-!
# Paths

A path is a text whose components are separated by slashes. The kind of a document shows in the
extension of its file name.
-/

namespace Literate

namespace Path

/-- The components of a path, empty ones and dots included. -/
def components (path : Text) : List Text :=
  path.splitOn '/'

/-- The last component of a path that is a name. -/
def fileName? (path : Text) : Option Text :=
  match ((components path).filter fun c => c ≠ [] && c ≠ ['.']).getLast? with
  | some name => if name = ['.', '.'] then none else some name
  | none => none

/-- What follows the last dot of a file name, unless that is its only one and its first
character. -/
def extension? (name : Text) : Option Text :=
  let stem := name.reverse.dropWhile (· ≠ '.')
  if stem.length ≤ 1 then none else some (name.drop stem.length)

/-- A path seen from a current directory as a path from the root. -/
def absolute (current path : Text) : Text :=
  if path.head? = some '/' then path else current ++ '/' :: path

/-- The path of a file below a directory. -/
def join (directory : Text) (below : List Text) : Text :=
  let below : Text := List.intercalate ['/'] below
  if directory.getLast? = some '/' then directory ++ below else directory ++ '/' :: below

end Path

namespace DocumentKind

/-- The kind of documents with an extension. -/
def ofExtension? (extension : Text) : Option DocumentKind :=
  if ["md".toList, "markdown".toList].contains extension then some markdown
  else if ["hpp".toList, "hh".toList, "hxx".toList, "h".toList].contains extension then
    some header
  else none

/-- The kind of the document at a path. -/
def ofPath? (path : Text) : Option DocumentKind :=
  ((Path.fileName? path).bind Path.extension?).bind ofExtension?

end DocumentKind

end Literate
