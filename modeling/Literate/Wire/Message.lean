import Literate.Json.Parser
import Literate.Request
import Literate.Response
import Literate.Text.Blank
import Literate.Text.Utf8

/-!
# Messages on a channel

Requests and responses cross a channel as frames: one JSON object a line. A frame that does not
hold a message is an error that leaves the frames after it as they are.
-/

namespace Literate

/-- What goes wrong on a channel: it cannot be read or written, a frame holds no message, or the
other side is gone. -/
inductive ChannelError
  | io (reason : Text)
  | malformed
  | closed
  deriving DecidableEq, Repr

def ChannelError.message : ChannelError → Text
  | io reason => "channel i/o failed: ".toList ++ reason
  | malformed => "malformed message".toList
  | closed => "channel closed by peer".toList

/-- What crosses a channel, as a JSON value. -/
class Message (α : Type) where
  toJson : α → Json
  ofJson? : Json → Option α

instance : Message Request where
  toJson r := .object [Json.member "code" (.ofText r.code)]
  ofJson? v :=
    match v.record? ["code".toList] with
    | some [some code] => code.text?.map Request.mk
    | _ => none

namespace FaultKind

/-- The name of a kind of faults on a channel. -/
def name : FaultKind → Text
  | value => "ValueFault".toList
  | generic => "GenericFault".toList

/-- The kind of a name. -/
def ofName? (name : Text) : Option FaultKind :=
  if name = value.name then some value
  else if name = generic.name then some generic
  else none

/-- The kind that a value names, as a string or as the key of a null value. -/
def ofJson? (v : Json) : Option FaultKind :=
  match v.members? with
  | some [(key, .null)] => ofName? key
  | _ => v.text?.bind ofName?

end FaultKind

instance : Message Fault where
  toJson f :=
    .object [Json.member "kind" (.ofText f.kind.name), Json.member "message" (.ofText f.message)]
  ofJson? v :=
    match v.record? ["kind".toList, "message".toList] with
    | some [some kind, some message] => do
      let kind ← FaultKind.ofJson? kind
      let message ← message.text?
      return ⟨kind, message⟩
    | _ => none

namespace Response

/-- The fault of a response, which may be null. -/
def faultOfJson? : Json → Option (Option Fault)
  | .null => some none
  | v => (Message.ofJson? v).map some

end Response

instance : Message Response where
  toJson r :=
    .object [Json.member "stdout" (.ofText r.stdout), Json.member "stderr" (.ofText r.stderr),
      Json.member "fault" ((r.fault.map Message.toJson).getD .null)]
  ofJson? v :=
    match v.record? ["stdout".toList, "stderr".toList, "fault".toList] with
    | some [some stdout, some stderr, fault] => do
      let stdout ← stdout.text?
      let stderr ← stderr.text?
      let fault ← Response.faultOfJson? (fault.getD .null)
      return ⟨stdout, stderr, fault⟩
    | _ => none

namespace Frame

/-- The frame of a message, with the line feed that ends it. -/
def write {α : Type} [Message α] (a : α) : Bytes :=
  Text.toBytes ((Message.toJson a).write ++ ['\n'])

/-- The frames of messages one after another. -/
def writeAll {α : Type} [Message α] (as : List α) : Bytes :=
  as.flatMap write

/-- Cuts bytes into frames, each with the line feed that ends it. The last one may lack it. -/
def split (data : Bytes) : List Bytes :=
  cutAfter (· = 0x0A) data

/-- The message that a frame holds. Blanks at its end are not part of it. -/
def read {α : Type} [Message α] (frame : Bytes) : Except ChannelError α :=
  match frame.toText? with
  | none => .error (.io "stream did not contain valid UTF-8".toList)
  | some t =>
    match (Json.parse? t.trimEnd).bind Message.ofJson? with
    | none => .error .malformed
    | some a => .ok a

/-- What comes of reading message after message to the end of the data. -/
def readAll {α : Type} [Message α] (data : Bytes) : List (Except ChannelError α) :=
  (split data).map read

/-- Frames side by side are the data. -/
@[simp] theorem flatten_split (data : Bytes) : (split data).flatten = data :=
  flatten_cutAfter _ data

/-- A frame that is ended does not depend on the data after it. -/
theorem readAll_append {α : Type} [Message α] (a b : Bytes) :
    readAll (α := α) (a ++ 0x0A :: b) = readAll (a ++ [0x0A]) ++ readAll b := by
  unfold readAll split
  rw [cutAfter_append_of_cut (by decide), List.map_append]

/-- Reads one message: what comes of the first frame of some data, and the data after it, or none at
the end of the data. -/
def next? {α : Type} [Message α] (data : Bytes) : Option (Except ChannelError α × Bytes) :=
  match split data with
  | [] => none
  | frame :: rest => some (read frame, rest.flatten)

/-- What comes of reading one message where the peer has sent some data and no more: the message
or what is wrong, and the data after it. -/
def receive {α : Type} [Message α] (data : Bytes) : Except ChannelError α × Bytes :=
  match split data with
  | [] => (.error .closed, [])
  | frame :: rest => (read frame, rest.flatten)

/-- A peer that has sent no more has closed the channel. -/
theorem receive_eq {α : Type} [Message α] (data : Bytes) :
    receive (α := α) data = (next? data).getD (.error .closed, []) := by
  unfold receive next?
  cases split data <;> rfl

end Frame

end Literate
