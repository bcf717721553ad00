import Literate.Language.Lexer
import Literate.Language.Parser
import Literate.Language.Run

/-!
# Running blocks

A block is a text. It is cut into tokens, read as statements and checked for its names; only then
does it run. A block that is rejected before it runs writes nothing and changes nothing.
-/

namespace Literate

/-- Why a block is rejected before any of it runs. -/
inductive BlockError
  | lex (e : LexError)
  | parse (e : ParseError)
  | resolve (e : ResolveError)
  deriving DecidableEq, Repr

def BlockError.message : BlockError → Text
  | lex e => e.message
  | parse e => e.message
  | resolve e => e.message

/-- The statements of a block. -/
def Statement.ofText (block : Text) : Except BlockError (List Statement) :=
  match Token.scan block with
  | .error e => .error (.lex e)
  | .ok tokens =>
    match readAll tokens with
    | .error e => .error (.parse e)
    | .ok statements => .ok statements

namespace Interpreter

/-- The statements of a block whose names can be resolved in a state. -/
def check (state : Interpreter) (block : Text) : Except BlockError (List Statement) :=
  match Statement.ofText block with
  | .error e => .error e
  | .ok statements =>
    match Statement.resolveAll state.store.declares statements with
    | .error e => .error (.resolve e)
    | .ok _ => .ok statements

/-- What comes of a block. -/
inductive Execution
  /-- Nothing has run. -/
  | rejected (e : BlockError)
  /-- The block ran to its end, or up to where it stopped. -/
  | ran (m : Machine) (stop : Option Interrupt)

/-- Runs a block. -/
def run (state : Interpreter) (block : Text) : Execution :=
  match state.check block with
  | .error e => .rejected e
  | .ok statements =>
    let r := Statement.runAll ⟨state, {}⟩ statements
    .ran r.1 r.2

end Interpreter

end Literate
