import Literate.Language.Block
import Literate.Language.Header

/-!
# The interpreter as an engine

The interpreter of the statement language runs blocks and takes include directives, which change
nothing.
-/

namespace Literate

namespace Interpreter

/-- Takes an include directive. -/
def define (source : Text) (state : Interpreter) : Answer × Interpreter :=
  match Header.ofDefinition source with
  | .ok _ => (.done {}, state)
  | .error e => (.raised (.other e.message) {}, state)

/-- The answer of an execution and the state it leaves, or how it ends the process. -/
def Execution.answer (state : Interpreter) : Execution → Except Ending (Answer × Interpreter)
  | .rejected e => .ok (.raised (.other e.message) {}, state)
  | .ran m none => .ok (.done m.output, m.state)
  | .ran m (some (.error e)) => .ok (.raised e.raised m.output, m.state)
  | .ran _ (some (.ended ending)) => .error ending

/-- Runs a block and answers. -/
def execute (block : Text) (state : Interpreter) : Except Ending (Answer × Interpreter) :=
  (state.run block).answer state

end Interpreter

instance : Engine Interpreter where
  define source state := .ok (state.define source)
  execute block state := state.execute block
  mode state := state.mode
  setMode mode state := { state with mode := mode }

end Literate
