import Literate.Program.Commands

/-!
# The program

Reads what the command line and the environment ask for, hands it to the library, and writes what
comes of it. A tree of files is read before the command that asks for it is carried out.
-/

namespace Literate.Program

/-- The text of a name or path. -/
def ofName (name : String) : Text := name.toList

/-- Why reading failed. -/
def errorOf : IO.Error → FileError
  | .noFileOrDirectory .. => .notFound
  | .permissionDenied .. => .denied
  | .inappropriateType .. => .notDirectory
  | .invalidArgument _ code _ => if code = 36 then .nameTooLong else .notFound
  | _ => .notFound

/-- Reads what is found at a path from some directory. -/
partial def readFiles (directory : IO.FS.DirEntry) : IO Files := do
  if ← directory.path.isDir then
    let entries ← directory.path.readDir
    return .directory (← entries.toList.mapM fun e => return (ofName e.fileName, ← readFiles e))
  else
    try
      let content ← IO.FS.readBinFile directory.path
      return .file (.ok content.toList)
    catch e => return .file (.error (errorOf e))

/-- Reads what is found at a path from the current directory. -/
def find (path : Text) : IO (Except FileError Files) := do
  let name := String.ofList path
  let here ← IO.currentDir
  if path.isEmpty then return .error .notFound
  try
    let _ ← (here / name).metadata
    return .ok (← readFiles ⟨here, name⟩)
  catch e => return .error (errorOf e)

/-- The paths that a command reads. -/
def pathsOf : Command → List Text
  | .test o => o.roots ++ o.worker.toList.map Settings.programPath
  | .extract file _ => [file]
  | .help | .version => []

/-- The variables of the environment that the program looks at. -/
def variableNames : List Text :=
  [Settings.workerVariable, Settings.graceVariable, "NO_COLOR".toList, "FORCE_COLOR".toList]

/-- Pairs some keys with their values. -/
def tabulate {α : Type} (read : Text → IO α) (keys : List Text) : IO (List (Text × α)) :=
  keys.mapM fun key => return (key, ← read key)

/-- The program: its exit status, after it has written its texts. -/
def perform (arguments : List Text) : IO UInt32 := do
  let values ← tabulate (fun name => IO.getEnv (String.ofList name)) variableNames
  let env (name : Text) : Option Text := ((values.lookup name).join).map String.toList
  let paths := match Arguments.read arguments with
    | .ok command => pathsOf command ++
      (env Settings.workerVariable).toList.map Settings.programPath
    | .error _ => []
  let found ← tabulate find paths
  let exit := run ⟨fun path => (found.lookup path).getD (.error .notFound), env⟩ arguments
  (← IO.getStdout).putStr (String.ofList exit.stdout)
  (← IO.getStderr).putStr (String.ofList exit.stderr)
  return exit.status.toUInt32

end Literate.Program

def main (arguments : List String) : IO UInt32 :=
  Literate.Program.perform (arguments.map String.toList)
