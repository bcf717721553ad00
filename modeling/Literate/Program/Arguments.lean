import Literate.Program.Settings

/-!
# Command lines

A command line names a command, its options and its paths. An option has a long name, after two
dashes, and may have a short one; its value follows it or stands after an equals sign. Two dashes
alone end the options. Arguments are taken in order, and the first that is wrong, or that asks for
help or for the version, decides.
-/

namespace Literate

/-- How a report is written. -/
inductive Format
  | human
  | json
  deriving DecidableEq, Repr

/-- What a test run is to do. -/
structure TestOptions where
  paths : List Text := []
  worker : Option Text := none
  precision : Option Nat := none
  format : Format := .human
  failFast : Bool := false
  deriving DecidableEq, Repr

/-- The paths to be tested. Where none is named, the current directory is. -/
def TestOptions.roots (o : TestOptions) : List Text :=
  if o.paths = [] then [['.']] else o.paths

/-- What a command line asks for. -/
inductive Command
  | test (options : TestOptions)
  | extract (file : Text) (format : Format)
  | help
  | version
  deriving DecidableEq, Repr

/-- A command line that is not understood. -/
inductive UsageError
  | unknownArgument
  | missingValue
  | badValue
  | repeated
  | missingArgument
  deriving DecidableEq, Repr

/-- An option of a command. -/
inductive CommandOption
  | verbose
  | help
  | version
  | worker
  | precision
  | format
  | failFast
  deriving DecidableEq, Repr

/-- The format of a name. -/
def Format.ofName? (t : Text) : Option Format :=
  if t = "human".toList then some .human
  else if t = "json".toList then some .json
  else none

namespace CommandOption

/-- The name after two dashes. -/
def long : CommandOption → Text
  | verbose => "verbose".toList
  | help => "help".toList
  | version => "version".toList
  | worker => "worker".toList
  | precision => "precision".toList
  | format => "format".toList
  | failFast => "fail-fast".toList

/-- The name after one dash. -/
def short? : CommandOption → Option Char
  | verbose => some 'v'
  | help => some 'h'
  | version => some 'V'
  | _ => none

/-- Whether the option has a value. None with a short name has one. -/
def takesValue : CommandOption → Bool
  | worker | precision | format => true
  | _ => false

/-- Whether the option can have a value. One that takes none has the empty one. -/
def accepts : CommandOption → Text → Bool
  | worker, value => value ≠ []
  | precision, value => (Settings.readBelow? UInt64.size value).isSome
  | format, value => (Format.ofName? value).isSome
  | _, value => value = []

end CommandOption

namespace Arguments

/-- One part of a command line: an option with its value, another argument, or what is none of
the options known. -/
inductive Part
  | option (o : CommandOption) (value : Text)
  | plain (argument : Text)
  | wrong (error : UsageError)
  deriving DecidableEq, Repr

/-- Whether an argument is an option, and not a value or a path. A dash alone is none. -/
def isOption (a : Text) : Bool :=
  a.head? = some '-' && 1 < a.length

/-- The option of a short name. -/
def shortOption (known : List CommandOption) (c : Char) : Part :=
  match known.find? fun o => o.short? = some c with
  | some o => .option o []
  | none => .wrong .unknownArgument

/-- The parts of some arguments, in their order. -/
def parts (known : List CommandOption) : List Text → List Part
  | [] => []
  | ['-', '-'] :: rest => rest.map .plain
  | ('-' :: '-' :: written) :: rest =>
    let name := written.takeWhile (· ≠ '=')
    match known.find? (·.long = name), Text.after? (name ++ ['=']) written with
    | none, _ => [.wrong .unknownArgument]
    | some o, some value =>
      if o.takesValue then .option o value :: parts known rest else [.wrong .badValue]
    | some o, none =>
      if o.takesValue then
        match rest with
        | [] => [.wrong .missingValue]
        | value :: rest =>
          if isOption value then [.wrong .missingValue] else .option o value :: parts known rest
      else .option o [] :: parts known rest
  | a :: rest =>
    if isOption a then a.tail.map (shortOption known) ++ parts known rest
    else .plain a :: parts known rest

/-- The options and paths that the parts taken so far give. -/
structure Given where
  options : List (CommandOption × Text) := []
  paths : List Text := []
  deriving DecidableEq, Repr

/-- Why no further parts are taken. -/
inductive Stop
  | wrong (error : UsageError)
  | help
  | version
  deriving DecidableEq, Repr

/-- What a command line asks for whose arguments are not all taken. -/
def Stop.result : Stop → Except UsageError Command
  | wrong e => .error e
  | help => .ok .help
  | version => .ok .version

namespace Given

/-- The value of an option, if it is given. -/
def value? (g : Given) (o : CommandOption) : Option Text :=
  g.options.lookup o

/-- The format asked for. -/
def format (g : Given) : Format :=
  ((g.value? .format).bind Format.ofName?).getD .human

/-- Takes one part. An option is given once at most, and its value is one that it accepts; a path
is not empty, and there may be a limit to their number. -/
def take (limit : Option Nat) (g : Given) : Part → Except Stop Given
  | .wrong e => .error (.wrong e)
  | .option .help _ => .error .help
  | .option .version _ => .error .version
  | .option o value =>
    if (g.value? o).isSome then .error (.wrong .repeated)
    else if o.accepts value then .ok { g with options := g.options ++ [(o, value)] }
    else .error (.wrong .badValue)
  | .plain path =>
    if limit.any (· ≤ g.paths.length) then .error (.wrong .unknownArgument)
    else if path = [] then .error (.wrong .badValue)
    else .ok { g with paths := g.paths ++ [path] }

/-- Takes parts in order, up to one that stops it. -/
def takeAll (limit : Option Nat) (g : Given) : List Part → Except Stop Given
  | [] => .ok g
  | p :: rest => (g.take limit p).bind (takeAll limit · rest)

end Given

/-- The options of every command. -/
def common : List CommandOption := [.verbose, .help]

/-- A command made of what its arguments give, where nothing stops it. -/
def commandOf (known : List CommandOption) (limit : Option Nat) (arguments : List Text)
    (make : Given → Except UsageError Command) : Except UsageError Command :=
  match ({} : Given).takeAll limit (parts known arguments) with
  | .error stop => stop.result
  | .ok given => make given

/-- A test command. -/
def test (arguments : List Text) : Except UsageError Command :=
  commandOf ([.worker, .precision, .format, .failFast] ++ common) none arguments fun given =>
    .ok <| .test
      { paths := given.paths
        worker := given.value? .worker
        precision := (given.value? .precision).bind (Settings.readBelow? UInt64.size)
        format := given.format
        failFast := (given.value? .failFast).isSome }

/-- An extract command. -/
def extract (arguments : List Text) : Except UsageError Command :=
  commandOf (.format :: common) (some 1) arguments fun given =>
    match given.paths.head? with
    | none => .error .missingArgument
    | some file => .ok (.extract file given.format)

/-- A help command, which may name one command. -/
def help : List Text → Except UsageError Command
  | [] => .ok .help
  | [topic] =>
    if ["test".toList, "extract".toList, "help".toList].contains topic then .ok .help
    else .error .unknownArgument
  | _ => .error .unknownArgument

/-- The command of a name, with the arguments after it. -/
def command (name : Text) (arguments : List Text) : Except UsageError Command :=
  if name = "test".toList then test arguments
  else if name = "extract".toList then extract arguments
  else if name = "help".toList then help arguments
  else .error .unknownArgument

/-- What some arguments ask for after the options given, which stand before the name of a
command. -/
def beforeCommand (given : Given) : List Text → Except UsageError Command
  | [] => .error .missingArgument
  | a :: rest =>
    if a = ['-', '-'] then .error .missingArgument
    else if isOption a then
      match given.takeAll none (parts (.version :: common) [a]) with
      | .error stop => stop.result
      | .ok given => beforeCommand given rest
    else command a rest

/-- What a command line asks for. -/
def read (arguments : List Text) : Except UsageError Command :=
  beforeCommand {} arguments

end Arguments

end Literate
