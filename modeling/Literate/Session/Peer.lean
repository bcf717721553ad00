import Literate.Session.Basic

/-!
# A peer that plays replies back

A scripted peer gives the replies of a list in order, whatever is sent, and is found closed when
they are used up. It keeps a log of everything that is done to it.
-/

namespace Literate

/-- What a scripted peer does next: its data is read, or reading or writing fails. -/
inductive Reply
  | data (bytes : Bytes)
  | receiveFails (reason : Text)
  | sendFails (reason : Text)
  deriving DecidableEq, Repr

/-- What is done to a peer. -/
inductive PeerEvent
  | send (request : Request) (outcome : Except ChannelError Unit)
  | receive (outcome : Except ChannelError Response)
  | shutdown

/-- The replies to come, and what has been done so far, the latest last. -/
structure Peer where
  replies : List Reply
  log : List PeerEvent := []

namespace PeerEvent

/-- The request that an event brings to the peer. -/
def arrived? : PeerEvent → Option Request
  | send request (.ok _) => some request
  | _ => none

/-- Whether an event lets the peer go. -/
def isShutdown : PeerEvent → Bool
  | shutdown => true
  | _ => false

end PeerEvent

namespace Peer

/-- The outcome of sending, and the replies after it. -/
def sendOutcome : List Reply → Except ChannelError Unit × List Reply
  | .sendFails reason :: rest => (.error (.io reason), rest)
  | replies => (.ok (), replies)

/-- The outcome of receiving, and the replies after it. -/
def receiveOutcome : List Reply → Except ChannelError Response × List Reply
  | [] => (.error .closed, [])
  | .data bytes :: rest => ((Frame.receive bytes).1, rest)
  | .receiveFails reason :: rest | .sendFails reason :: rest => (.error (.io reason), rest)

instance : Transport Peer where
  send request p :=
    let r := sendOutcome p.replies
    (r.1, ⟨r.2, p.log ++ [.send request r.1]⟩)
  receive p :=
    let r := receiveOutcome p.replies
    (r.1, ⟨r.2, p.log ++ [.receive r.1]⟩)
  shutdown p := { p with log := p.log ++ [.shutdown] }

/-- The requests that arrived. -/
def requests (p : Peer) : List Request :=
  p.log.filterMap PeerEvent.arrived?

/-- How often the peer was let go. -/
def shutdowns (p : Peer) : Nat :=
  p.log.countP PeerEvent.isShutdown

end Peer

end Literate
