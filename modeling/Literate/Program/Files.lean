import Literate.Program.Path
import Literate.Text.Utf8

/-!
# Files

A tree of files and directories, and what reading finds in it. A path is walked component by
component, from the root or from the current directory. Names and paths have a greatest length in
bytes.
-/

namespace Literate

/-- Why a path cannot be read. -/
inductive FileError
  | notFound
  | denied
  | notDirectory
  | isDirectory
  | nameTooLong
  | badEncoding
  deriving DecidableEq, Repr

def FileError.message : FileError → Text
  | notFound => "No such file or directory (os error 2)".toList
  | denied => "Permission denied (os error 13)".toList
  | notDirectory => "Not a directory (os error 20)".toList
  | isDirectory => "Is a directory (os error 21)".toList
  | nameTooLong => "File name too long (os error 36)".toList
  | badEncoding => "stream did not contain valid UTF-8".toList

/-- A file, or a directory with its entries by name. -/
inductive Files
  | file (content : Except FileError Bytes)
  | directory (entries : List (Text × Files))

namespace Files

instance : Inhabited Files := ⟨directory []⟩

/-- The entries with one of them changed, or added if there is none of that name. -/
def alter (name : Text) (change : Option Files → Files) :
    List (Text × Files) → List (Text × Files)
  | [] => [(name, change none)]
  | (n, f) :: rest =>
    if n = name then (n, change (some f)) :: rest else (n, f) :: alter name change rest

/-- Puts something at the end of some components, and directories on the way to it. -/
def insert (node : Files) : List Text → Option Files → Files
  | [], _ => node
  | name :: rest, found =>
    let entries := match found with
      | some (directory entries) => entries
      | _ => []
    directory (alter name (insert node rest) entries)

/-- Puts something at a path. Where there is a directory for one already, it stays. -/
def put (files : Files) (path : Text) (node : Files) : Files :=
  insert node ((Path.components path).filter fun c => c ≠ [] && c ≠ ['.']) (some files)

/-- The most bytes that the name of an entry has. -/
def maxName : Nat := 255

/-- The most bytes that a path has. -/
def maxPath : Nat := 4095

/-- Walks components down from a directory, and up again to those above it. Above the root is the
root. -/
def walk (above : List Files) (here : Files) : List Text → Except FileError Files
  | [] => .ok here
  | name :: rest =>
    match here with
    | file _ => .error .notDirectory
    | directory entries =>
      if name = [] ∨ name = ['.'] then walk above here rest
      else if name = ['.', '.'] then
        match above with
        | [] => walk [] here rest
        | parent :: above => walk above parent rest
      else if maxName < name.byteCount then .error .nameTooLong
      else match entries.find? (·.1 = name) with
        | none => .error .notFound
        | some (_, f) => walk (here :: above) f rest

/-- What is found at a path, in the tree of a root and from a current directory. -/
def find (root : Files) (current path : Text) : Except FileError Files :=
  if path = [] then .error .notFound
  else if maxPath < path.byteCount then .error .nameTooLong
  else walk [] root (Path.components (Path.absolute current path))

mutual

/-- The files of a tree, by their components, with what reading them gives. -/
def contents : Files → List (List Text × Except FileError Bytes)
  | file content => [([], content)]
  | directory entries => contentsOf entries

/-- The files of some entries, by their components. -/
def contentsOf : List (Text × Files) → List (List Text × Except FileError Bytes)
  | [] => []
  | (name, f) :: rest => (contents f).map (fun c => (name :: c.1, c.2)) ++ contentsOf rest

end

end Files

/-- A file that may be a document: its path, and what reading it gives. -/
structure Source where
  path : Text
  content : Except FileError Bytes

namespace Source

/-- The kind of a document, which shows in its path. -/
def kind? (s : Source) : Option DocumentKind :=
  DocumentKind.ofPath? s.path

/-- The text of a document. -/
def text (s : Source) : Except FileError Text := do
  match (← s.content).toText? with
  | some t => .ok t
  | none => .error .badEncoding

/-- The file found at a path. A directory cannot be read. -/
def ofFound (path : Text) : Except FileError Files → Source
  | .error e => ⟨path, .error e⟩
  | .ok (.file content) => ⟨path, content⟩
  | .ok (.directory _) => ⟨path, .error .isDirectory⟩

/-- The documents of what is found at a path: the file itself, and all files of a known kind in a
directory, sorted by components. -/
def documents (root : Text) : Files → List Source
  | .file content => [⟨root, content⟩]
  | .directory entries =>
    let found := (Files.contentsOf entries).filter fun c =>
      (DocumentKind.ofPath? (c.1.getLastD [])).isSome
    (found.mergeSort fun a b => (compare a.1 b.1).isLE).map fun c => ⟨Path.join root c.1, c.2⟩

end Source

end Literate
