import Stepwise.Transport.Routine

/-!
# Broker

A broker keeps messages in queues until a consumer takes them.  Every message counts as unsettled
from its publish to its settlement; one that is rejected, or whose handler stops with a fault
before it says anything, is kept among the dead letters.

Each change of the broker is a function of its own (`count`, `put`, `take?`, `discount`, `bury`):
these are the sections that may be interleaved.  `perform` runs a routine over a broker at a
stretch, and `serve?` lets one consumer take one message.
-/

namespace Stepwise

open Stepwise.Text (Body)

/-- A consumer of a queue.  A stopped one takes no more messages. -/
structure Consumer (η : Type) where
  queue : String
  handler : η
  stopped : Bool

/-- The state of a broker. -/
structure Broker (η : Type) where
  /-- The messages that wait, oldest first. -/
  waiting : List (String × List Body)
  /-- The number of messages of a queue that are not settled. -/
  unsettled : List (String × Nat)
  dead : List Message
  /-- The consumers, in the order of their subscriptions. -/
  consumers : List (Consumer η)
  closed : Bool

namespace Broker

variable {σ η α : Type}

/-- No queues. -/
def empty : Broker η := ⟨[], [], [], [], false⟩

/-- Changes what is stored under a key, or adds it. -/
def alter {β : Type} (key : String) (f : β → β) (otherwise : β) :
    List (String × β) → List (String × β)
  | [] => [(key, f otherwise)]
  | (k, v) :: rest => if k == key then (k, f v) :: rest else (k, v) :: alter key f otherwise rest

/-! ## Sections -/

/-- Makes sure that a queue exists. -/
def declare (queue : String) (b : Broker η) : Broker η :=
  { b with waiting := alter queue id [] b.waiting }

/-- Counts one more unsettled message. -/
def count (queue : String) (b : Broker η) : Broker η :=
  { b with unsettled := alter queue (· + 1) 0 b.unsettled }

/-- Counts one unsettled message less, unless there is none. -/
def discount (queue : String) (b : Broker η) : Broker η :=
  { b with unsettled := alter queue (· - 1) 0 b.unsettled }

/-- Puts a message at the end of its queue. -/
def put (m : Message) (b : Broker η) : Broker η :=
  { b with waiting := alter m.queue (· ++ [m.body]) [] b.waiting }

/-- Takes the oldest message out of a queue. -/
def take? (queue : String) (b : Broker η) : Option (Message × Broker η) :=
  match b.waiting.lookup queue with
  | some (body :: _) =>
    some (⟨queue, body⟩, { b with waiting := alter queue (·.drop 1) [] b.waiting })
  | _ => none

/-- Keeps a message among the dead letters. -/
def bury (m : Message) (b : Broker η) : Broker η :=
  { b with dead := b.dead ++ [m] }

/-- Adds a consumer. -/
def join (queue : String) (handler : η) (b : Broker η) : Broker η :=
  { b with consumers := b.consumers ++ [⟨queue, handler, false⟩] }

/-- Stops the last consumer of a list that consumes a queue. -/
def stopLast (queue : String) : List (Consumer η) → List (Consumer η)
  | [] => []
  | c :: rest =>
    if c.queue == queue && !rest.any (·.queue == queue) then { c with stopped := true } :: rest
    else c :: stopLast queue rest

/-- Stops the latest consumer of a queue. -/
def cancel (queue : String) (b : Broker η) : Broker η :=
  { b with consumers := stopLast queue b.consumers }

/-- Refuses everything from now on and stops all consumers. -/
def close (b : Broker η) : Broker η :=
  { b with closed := true, consumers := b.consumers.map ({ · with stopped := true }) }

/-! ## Reading -/

/-- The number of messages that wait in a queue. -/
def depth (b : Broker η) (queue : String) : Nat :=
  ((b.waiting.lookup queue).getD []).length

/-- The number of messages of a queue that are not settled. -/
def unsettledCount (b : Broker η) (queue : String) : Nat :=
  (b.unsettled.lookup queue).getD 0

/-- Whether every message is settled. -/
def isSettled (b : Broker η) : Bool :=
  b.unsettled.all (·.2 == 0)

/-! ## Deliveries -/

/-- A message in the hands of a consumer. -/
structure Delivery where
  message : Message
  settled : Bool

/-- Settles a delivery; only the first settlement counts. -/
def settle (s : Settlement) (d : Delivery) (b : Broker η) : Delivery × Broker η :=
  if d.settled then (d, b) else
  let queue := d.message.queue
  ({ d with settled := true }, match s with
    | .ack => b.discount queue
    | .reject => (b.bury d.message).discount queue
    | .requeue => ((b.count queue).put d.message).discount queue)

/-- The state of the components and of the broker between them. -/
structure Site (σ η : Type) where
  state : σ
  broker : Broker η

/-- The end of a routine. -/
structure Performed (σ η α : Type) where
  result : Except Fault α
  site : Site σ η
  delivery : Option Delivery

/-- Runs a routine, with a delivery in hand if it is a handler's. -/
def perform (clock : Int) :
    Routine σ η α → Site σ η → Option Delivery → Performed σ η α
  | .done a, site, d => ⟨.ok a, site, d⟩
  | .raise fault, site, d => ⟨.error fault, site, d⟩
  | .critical update next, site, d =>
    perform clock (next site.state) { site with state := update site.state } d
  | .clock next, site, d => perform clock (next clock) site d
  | .publish m next, site, d =>
    if site.broker.closed then
      perform clock (next (.error (.refused (.closed "broker" .publish m.queue)))) site d
    else
      perform clock (next (.ok ())) { site with broker := (site.broker.count m.queue).put m } d
  | .subscribe queue handler next, site, d =>
    if site.broker.closed then
      perform clock (next (.error (.refused (.closed "broker" .subscribe queue)))) site d
    else
      perform clock (next (.ok ())) { site with broker := site.broker.join queue handler } d
  | .cancel queue next, site, d =>
    perform clock next { site with broker := site.broker.cancel queue } d
  | .close next, site, d => perform clock next { site with broker := site.broker.close } d
  | .settle s next, site, d =>
    match d with
    | none => perform clock next site d
    | some d =>
      perform clock next { site with broker := (settle s d site.broker).2 }
        (some (settle s d site.broker).1)

/-- A delivery that was made: whether its handler had settled it, and how the handler ended. -/
structure Handed where
  message : Message
  settled : Bool
  result : Except Fault Unit

/-- Lets a handler work on a message that was taken.  A fault rejects the message, if it is not
settled yet. -/
def deliver (behave : η → Body → Routine σ η Unit) (clock : Int) (handler : η) (m : Message)
    (site : Site σ η) : Handed × Site σ η :=
  let p := perform clock (behave handler m.body) site (some ⟨m, false⟩)
  let d := p.delivery.getD ⟨m, false⟩
  (⟨m, d.settled, p.result⟩, match p.result with
    | .ok () => p.site
    | .error _ => { p.site with broker := (settle .reject d p.site.broker).2 })

/-- The first consumer of a list that has something to take. -/
def ready? (b : Broker η) : List (Consumer η) → Option (η × Message × Broker η)
  | [] => none
  | c :: rest =>
    if c.stopped then ready? b rest else
    match b.take? c.queue with
    | some (m, b) => some (c.handler, m, b)
    | none => ready? b rest

/-- Lets a consumer take a message and work on it; nothing if no consumer has anything to take. -/
def serve? (behave : η → Body → Routine σ η Unit) (clock : Int) (site : Site σ η) :
    Option (Handed × Site σ η) :=
  match ready? site.broker site.broker.consumers with
  | none => none
  | some (handler, m, b) => some (deliver behave clock handler m { site with broker := b })

/-- Lets the consumers work until there is nothing left to take, in at most so many deliveries. -/
def drain (behave : η → Body → Routine σ η Unit) (clock : Int) :
    Nat → Site σ η → Option (List Handed × Site σ η)
  | fuel, site =>
    match serve? behave clock site with
    | none => some ([], site)
    | some (handed, site) =>
      match fuel with
      | 0 => none
      | fuel + 1 => (drain behave clock fuel site).map fun (more, site) => (handed :: more, site)

end Broker

end Stepwise
