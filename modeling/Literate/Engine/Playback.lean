import Literate.Engine.Basic

/-!
# An engine that plays answers back

A playback engine gives the answers of a script one after another, whatever it is asked, and then
empty ones. It notes every call with its text and the mode it was made in.
-/

namespace Literate

/-- One call of an engine. -/
structure Call where
  /-- Whether the call runs a block, and does not take a definition. -/
  executes : Bool
  source : Text
  mode : FaultMode
  deriving DecidableEq, Repr

/-- A script of answers, and the calls made so far, the latest last. -/
structure Playback where
  script : List Answer
  calls : List Call := []
  mode : FaultMode := .fatal
  deriving Repr

/-- Answers a call with the next answer of the script. -/
def Playback.answer (executes : Bool) (source : Text) (p : Playback) : Answer × Playback :=
  (p.script.headD (.done {}),
    { p with script := p.script.tail, calls := p.calls ++ [⟨executes, source, p.mode⟩] })

instance : Engine Playback where
  define source p := .ok (p.answer false source)
  execute block p := .ok (p.answer true block)
  mode p := p.mode
  setMode mode p := { p with mode := mode }

end Literate
