import Stepwise.Transport.Address
import Stepwise.Transport.Routine

/-!
# Networks

A `Network` is a message server as its users see it: numbered connections, durable queues, and
requests that may fail.  For each kind of request it holds what will happen to the next ones, and
it keeps a log of what was done.
-/

namespace Stepwise

open Stepwise.Text (Body)

/-- The kinds of request that may fail. -/
inductive Hazard where
  | connect
  | channel
  | declare
  | publish
  | close
  | callback
  deriving DecidableEq, Repr

/-- The cause that the server gives for a failed request. -/
def Hazard.cause : Hazard → String
  | connect => "connection refused"
  | channel => "channel refused"
  | declare => "declare failed"
  | publish => "connection reset by peer"
  | close => "close failed"
  | callback => "connection closed"

/-- How a message is handed to the server. -/
structure Publication where
  exchange : String
  routingKey : String
  body : Body
  contentType : String
  deliveryMode : Nat

/-- A message for a queue goes through the nameless exchange and survives a restart of the
server. -/
def Publication.persistent (m : Message) : Publication :=
  ⟨"", m.queue, m.body, "application/json", 2⟩

/-- Something that was done over a connection. -/
inductive NetworkEvent where
  | connected (connection : Nat) (address : Address)
  | declared (connection : Nat) (queue : String) (durable : Bool)
  | limited (connection : Nat) (unsettled : Int)
  | consuming (connection : Nat) (queue : String) (automatic : Bool)
  | published (connection : Nat) (p : Publication)
  | acked (connection tag : Nat)
  | rejected (connection tag : Nat) (requeue : Bool)
  | closed (connection : Nat)

/-- A message server. -/
structure Network where
  /-- The number of connections that were opened. -/
  opened : Nat
  /-- The connections that are open. -/
  live : List Nat
  /-- What happens to the next requests of a kind: `true` stands for a failure.  Requests beyond
  the list succeed. -/
  due : Hazard → List Bool
  /-- The messages that wait in the queues, oldest first. -/
  waiting : List Message
  /-- What was done, in order. -/
  log : List NetworkEvent

namespace Network

/-- A server without connections. -/
def fresh : Network := ⟨0, [], fun _ => [], [], []⟩

/-- Adds to the log. -/
def note (e : NetworkEvent) (n : Network) : Network :=
  { n with log := n.log ++ [e] }

/-- Whether the next request of a kind fails; the answer is used up. -/
def meets (h : Hazard) (n : Network) : Bool × Network :=
  match n.due h with
  | [] => (false, n)
  | fails :: rest => (fails, { n with due := fun k => if k = h then rest else n.due k })

/-- Lets the next requests of a kind fail, so many times. -/
def trouble (h : Hazard) (times : Nat) (n : Network) : Network :=
  { n with due := fun k => if k = h then List.replicate times true else n.due k }

/-- Opens a connection. -/
def connect (address : Address) (n : Network) : Except String Nat × Network :=
  match n.meets .connect with
  | (true, n) => (.error Hazard.connect.cause, n)
  | (false, n) =>
    let c := n.opened + 1
    (.ok c, ({ n with opened := c, live := n.live ++ [c] }).note (.connected c address))

/-- Opens a channel of a connection. -/
def openChannel (n : Network) : Except String Unit × Network :=
  match n.meets .channel with
  | (true, n) => (.error Hazard.channel.cause, n)
  | (false, n) => (.ok (), n)

/-- Declares a durable queue. -/
def declare (c : Nat) (queue : String) (n : Network) : Except String Unit × Network :=
  match n.meets .declare with
  | (true, n) => (.error Hazard.declare.cause, n)
  | (false, n) => (.ok (), n.note (.declared c queue true))

/-- Hands a message to the server. -/
def publish (c : Nat) (m : Message) (n : Network) : Except String Unit × Network :=
  match n.meets .publish with
  | (true, n) => (.error Hazard.publish.cause, n)
  | (false, n) =>
    (.ok (), ({ n with waiting := n.waiting ++ [m] }).note (.published c (.persistent m)))

/-- Consumes a queue with settlements by hand, and with a limit on what is unsettled. -/
def consume (c : Nat) (queue : String) (limit : Int) (n : Network) : Network :=
  (n.note (.limited c limit)).note (.consuming c queue false)

/-- Closes a connection that is open.  It is closed also when the server reports a failure. -/
def close (c : Nat) (n : Network) : Network :=
  if n.live.contains c then
    let n := (n.meets .close).2
    ({ n with live := n.live.filter (· != c) }).note (.closed c)
  else n

/-- Settles a delivery. -/
def settle (c tag : Nat) (s : Settlement) (n : Network) : Network :=
  match s with
  | .ack => n.note (.acked c tag)
  | .reject => n.note (.rejected c tag false)
  | .requeue => n.note (.rejected c tag true)

/-- Takes the oldest message out of a queue. -/
def take? (queue : String) (n : Network) : Option (Message × Network) :=
  match n.waiting.find? (·.queue == queue) with
  | none => none
  | some m => some (m, { n with waiting := n.waiting.eraseP (·.queue == queue) })

end Network

end Stepwise
