import Literate.Program.Arguments
import Literate.Program.Layout
import Literate.Program.Record

/-!
# Commands

What the program does with a command line, some files and an environment: the texts it writes and
the status it exits with. Testing runs every example of the documents named, each document with a
worker of its own; extracting shows what is found in one document.
-/

namespace Literate

/-- What a run of the program leaves. -/
structure Exit where
  status : Nat := 0
  stdout : Text := []
  stderr : Text := []
  deriving DecidableEq, Repr

/-- What a run of the program depends on. -/
structure World where
  /-- What is found at a path. -/
  find : Text → Except FileError Files
  /-- The values of the variables of the environment. -/
  env : Text → Option Text

namespace World

/-- Whether reports have colours. -/
def colours (w : World) : Bool :=
  Style.wanted w.env

/-- Ends the program with a message, after what it has written. -/
def fail (w : World) (stdout message : Text) : Exit :=
  { status := 1, stdout,
    stderr := Lines.text [Layout.errorLabel w.colours ++ ": ".toList ++ message] }

end World

namespace Program

/-- The settings of a test run. -/
def settings (w : World) (o : TestOptions) : Settings :=
  let base := Settings.ofEnvironment w.env
  { base with
    worker := (o.worker.map WorkerProgram.named).getD base.worker
    arguments := (o.precision.map fun n => ["--precision".toList, Decimal.ofNat n]).getD [] }

/-- Starts the worker of one document. -/
def launch (w : World) (o : TestOptions) : Except SessionError (Pipe Interpreter) :=
  (settings w o).launch w.find (o.precision.getD 6)

/-- The documents at some paths, or the first path at which there is nothing. -/
def documents (w : World) : List Text → Except Text (List Source)
  | [] => .ok []
  | root :: rest =>
    match w.find root with
    | .error _ => .error root
    | .ok found => (documents w rest).map (Source.documents root found ++ ·)

/-- The report on a document that has been read, or none if there is nothing in it. -/
def reportOn {τ : Type} [Transport τ] (launch : Except SessionError τ) (path : Text)
    (found : Extraction) : Except SessionError (Option DocumentReport) :=
  let problems := found.errors.map Problem.ofError
  match found.examples with
  | [] => .ok (if problems = [] then none else some ⟨path, [], problems⟩)
  | examples => do
    let channel ← launch
    let outcomes := (Session.mk channel true).outcomes examples
    .ok (some ⟨path, List.zipWith ExampleReport.of examples outcomes, problems⟩)

/-- The report on a document that cannot be read. -/
def unreadable (path : Text) (e : FileError) : DocumentReport :=
  ⟨path, [], [⟨none, "reading ".toList ++ path ++ ": ".toList ++ e.message⟩]⟩

/-- The report on a document, or none if it is of no known kind or there is nothing in it. -/
def testDocument {τ : Type} [Transport τ] (launch : Except SessionError τ) (s : Source) :
    Except SessionError (Option DocumentReport) :=
  match s.kind?, s.text with
  | none, _ => .ok none
  | some _, .error e => .ok (some (unreadable s.path e))
  | some kind, .ok text => reportOn launch s.path (Extraction.ofDocument kind text)

/-- The reports on documents in order, up to the first with a failure if that is asked for, and
up to one for which no worker can be started. -/
def reports (test : Source → Except SessionError (Option DocumentReport)) (failFast : Bool) :
    List Source → List DocumentReport × Option SessionError
  | [] => ([], none)
  | s :: rest =>
    match test s with
    | .error e => ([], some e)
    | .ok none => reports test failFast rest
    | .ok (some d) =>
      if failFast ∧ 0 < d.failures then ([d], none)
      else
        let later := reports test failFast rest
        (d :: later.1, later.2)

/-- The report of a whole run as text. -/
def runText (w : World) (format : Format) (ds : List DocumentReport) : Text :=
  let s := Summary.ofDocuments ds
  match format with
  | .human => Lines.text (Layout.summary w.colours s ds)
  | .json => (Record.run ds s).layout 0 ++ ['\n']

/-- The reports on documents as they are shown one by one, before that of the whole run. -/
def shownText (w : World) (format : Format) (ds : List DocumentReport) : Text :=
  match format with
  | .human => Lines.text (ds.flatMap (Layout.document w.colours))
  | .json => []

/-- Tests documents, each with a worker of its own, whatever program the workers run. -/
def testWith {τ : Type} [Transport τ] (launch : Source → Except SessionError τ) (w : World)
    (o : TestOptions) : Exit :=
  match documents w o.roots with
  | .error root => w.fail [] ("path not found: ".toList ++ Layout.path w.colours root)
  | .ok sources =>
    let (ds, error) := reports (fun s => testDocument (launch s) s) o.failFast sources
    match error with
    | some e => w.fail (shownText w o.format ds) e.message
    | none =>
      { status := if (Summary.ofDocuments ds).success then 0 else 1
        stdout := shownText w o.format ds ++ runText w o.format ds }

/-- Tests documents. -/
def test (w : World) (o : TestOptions) : Exit :=
  testWith (fun _ => launch w o) w o

/-- Shows the zones and examples of a document. -/
def extract (w : World) (file : Text) (format : Format) : Exit :=
  let source := Source.ofFound file (w.find file)
  match source.kind?, source.text with
  | none, _ =>
    w.fail [] (Layout.path w.colours file ++ ": not a Markdown or header document".toList)
  | some _, .error e =>
    w.fail [] ("reading ".toList ++ Layout.path w.colours file ++ ": ".toList ++ e.message)
  | some kind, .ok text =>
    let zones := (kind.delimiters.scan text).zones
    let found := Extraction.ofDocument kind text
    { stdout := match format with
        | .human => Lines.text (Layout.extraction w.colours file kind.delimiters zones found)
        | .json => (Record.extraction file kind.delimiters zones found).layout 0 ++ ['\n'] }

/-- How the program is used. -/
def usage : Lines :=
  ["Run the code examples in your documentation".toList, [],
    "Usage: litrun [-v] test [--worker <PATH>] [--precision <N>] [--format <FORMAT>]".toList,
    "                   [--fail-fast] [PATHS]...".toList,
    "       litrun [-v] extract [--format <FORMAT>] <FILE>".toList]

/-- Carries a command out. -/
def carryOut (w : World) : Command → Exit
  | .test o => test w o
  | .extract file format => extract w file format
  | .help => { stdout := Lines.text usage }
  | .version => { stdout := Lines.text ["litrun 0.1.0".toList] }

/-- What the program does with a command line. One that is not understood is a usage error. -/
def run (w : World) (arguments : List Text) : Exit :=
  match Arguments.read arguments with
  | .ok command => carryOut w command
  | .error _ => { status := 2, stderr := Lines.text usage }

end Program

end Literate
