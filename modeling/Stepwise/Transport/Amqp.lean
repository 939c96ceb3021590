import Stepwise.Transport.Network

/-!
# Transport over a message server

A `Link` is the transport of one process.  It publishes over a connection of its own, which it
opens when it needs one and replaces after a failure, and each of its consumers has another
connection.

* `Link.publish` makes two attempts, the second on a fresh connection.
* `Link.close` closes the connections of the consumers and then that of the publisher.
* `perform` runs a routine over the links of several processes on one network, and `serve?` lets
  one consumer take one message.
-/

namespace Stepwise

open Stepwise.Text (Body)

/-- The connection that a link publishes over. -/
structure Publisher where
  connection : Nat
  channelOpen : Bool
  deriving DecidableEq, Repr

/-- A consumer of a queue with a connection of its own. -/
structure LinkConsumer (η : Type) where
  connection : Nat
  queue : String
  handler : η
  /-- The number of deliveries so far, which is the tag of the last one. -/
  delivered : Nat
  stopped : Bool

/-- The transport of a process. -/
structure Link (η : Type) where
  address : Address
  prefetch : Int
  publisher : Option Publisher
  /-- The consumers, in the order of their subscriptions. -/
  consumers : List (LinkConsumer η)
  closed : Bool

namespace Link

variable {η : Type}

/-- A link that has not opened any connection yet. -/
def idle (address : Address) (prefetch : Int) : Link η :=
  ⟨address, max 1 prefetch, none, [], false⟩

/-! ## The publisher -/

/-- Drops the publisher, and closes its connection if that is still open. -/
def reset (l : Link η) (n : Network) : Link η × Network :=
  match l.publisher with
  | none => (l, n)
  | some p => ({ l with publisher := none }, n.close p.connection)

/-- Opens a connection for the publisher and a channel on it. -/
def openPublisher (l : Link η) (n : Network) : Except String Nat × Link η × Network :=
  match n.connect l.address with
  | (.error cause, n) => (.error cause, l, n)
  | (.ok c, n) =>
    match n.openChannel with
    | (.error cause, n) => (.error cause, { l with publisher := some ⟨c, false⟩ }, n)
    | (.ok (), n) => (.ok c, { l with publisher := some ⟨c, true⟩ }, n)

/-- The connection to publish over: the one in use, or a fresh one. -/
def publisherConnection (l : Link η) (n : Network) : Except String Nat × Link η × Network :=
  match l.publisher with
  | some ⟨c, true⟩ => (.ok c, l, n)
  | _ =>
    let (l, n) := l.reset n
    l.openPublisher n

/-- One attempt to publish; after a failure the publisher is dropped. -/
def attempt (m : Message) (l : Link η) (n : Network) : Except String Unit × Link η × Network :=
  match l.publisherConnection n with
  | (.error cause, l, n) => (.error cause, l.reset n)
  | (.ok c, l, n) =>
    match n.publish c m with
    | (.error cause, n) => (.error cause, l.reset n)
    | (.ok (), n) => (.ok (), l, n)

/-- Publishes in at most two attempts. -/
def publish (m : Message) (l : Link η) (n : Network) : Except Refusal Unit × Link η × Network :=
  if l.closed then (.error (.closed "transport" .publish m.queue), l, n) else
  match l.attempt m n with
  | (.ok (), l, n) => (.ok (), l, n)
  | (.error _, l, n) =>
    match l.attempt m n with
    | (.ok (), l, n) => (.ok (), l, n)
    | (.error cause, l, n) => (.error (.failed .publish m.queue cause), l, n)

/-- Declares a queue.  A closed link opens a connection for it all the same. -/
def declare (queue : String) (l : Link η) (n : Network) :
    Except Refusal Unit × Link η × Network :=
  match l.publisherConnection n with
  | (.error cause, l, n) => (.error (.failed .declare queue cause), l.reset n)
  | (.ok c, l, n) =>
    match n.declare c queue with
    | (.error cause, n) => (.error (.failed .declare queue cause), l.reset n)
    | (.ok (), n) => (.ok (), l, n)

/-- Declares queues one after another, up to the first failure. -/
def declareAll : List String → Link η → Network → Except Refusal Unit × Link η × Network
  | [], l, n => (.ok (), l, n)
  | queue :: rest, l, n =>
    match l.declare queue n with
    | (.error refusal, l, n) => (.error refusal, l, n)
    | (.ok (), l, n) => declareAll rest l n

/-! ## Consumers -/

/-- Starts to consume a queue over a new connection.  When that fails the connection stays open,
and nobody knows it any more. -/
def consume (queue : String) (prefetch : Int) (address : Address) (n : Network) :
    Except String Nat × Network :=
  match n.connect address with
  | (.error cause, n) => (.error cause, n)
  | (.ok c, n) =>
    match n.openChannel with
    | (.error cause, n) => (.error cause, n)
    | (.ok (), n) =>
      match n.declare c queue with
      | (.error cause, n) => (.error cause, n)
      | (.ok (), n) => (.ok c, n.consume c queue prefetch)

/-- Subscribes a handler to a queue. -/
def subscribe (queue : String) (handler : η) (l : Link η) (n : Network) :
    Except Refusal Unit × Link η × Network :=
  if l.closed then (.error (.closed "transport" .subscribe queue), l, n) else
  match consume queue l.prefetch l.address n with
  | (.error cause, n) => (.error (.failed .consume queue cause), l, n)
  | (.ok c, n) =>
    (.ok (), { l with consumers := l.consumers ++ [⟨c, queue, handler, 0, false⟩] }, n)

/-- Stops the consumers that a condition holds for.  Each closes its connection, but a consumer
that is at work (`busy`) does so only after its work. -/
def stopWhere (condition : LinkConsumer η → Bool) (busy : Option Nat) (l : Link η) (n : Network) :
    Link η × Network :=
  let stopping := l.consumers.filter condition
  ({ l with consumers := l.consumers.map fun c =>
      if condition c then { c with stopped := true } else c },
    stopping.foldl (fun n c => if busy = some c.connection then n else n.close c.connection) n)

/-- The connection of the latest consumer of a queue. -/
def latest? (queue : String) (l : Link η) : Option Nat :=
  (l.consumers.reverse.find? (·.queue == queue)).map (·.connection)

/-- Stops the latest consumer of a queue. -/
def cancel (queue : String) (busy : Option Nat) (l : Link η) (n : Network) : Link η × Network :=
  match l.latest? queue with
  | none => (l, n)
  | some c => l.stopWhere (·.connection == c) busy n

/-- Stops the latest consumer of a queue because its connection is lost. -/
def lose (queue : String) (l : Link η) (n : Network) : Link η × Network :=
  l.cancel queue none n

/-- Stops everything. -/
def close (busy : Option Nat) (l : Link η) (n : Network) : Link η × Network :=
  let (l, n) := ({ l with closed := true }).stopWhere (fun c => !c.stopped) busy n
  l.reset n

end Link

/-- Connects a link and declares queues.  When that fails the link is closed. -/
def Link.connect {η : Type} (address : Address) (prefetch : Int) (queues : List String)
    (n : Network) : Except Refusal (Link η) × Network :=
  match Link.declareAll queues (Link.idle address prefetch) n with
  | (.ok (), l, n) => (.ok l, n)
  | (.error refusal, l, n) => (.error refusal, (l.close none n).2)

namespace Amqp

variable {σ η α : Type}

/-- A message in the hands of a consumer. -/
structure Delivery where
  message : Message
  /-- The connection of the consumer. -/
  connection : Nat
  tag : Nat
  settled : Bool

/-- Settles a delivery at its consumer; only the first settlement counts. -/
def settle (s : Settlement) (d : Delivery) (n : Network) : Delivery × Network :=
  if d.settled then (d, n)
  else ({ d with settled := true }, n.settle d.connection d.tag s)

/-- Settles a delivery from elsewhere.  The consumer is asked to do it; when that fails, or its
connection is closed, the delivery counts as settled all the same. -/
def settleFrom (s : Settlement) (d : Delivery) (n : Network) : Delivery × Network :=
  if d.settled then (d, n) else
  let d := { d with settled := true }
  match n.meets .callback with
  | (true, n) => (d, n)
  | (false, n) =>
    if n.live.contains d.connection then (d, n.settle d.connection d.tag s) else (d, n)

/-- The components, the links of their processes, and the network. -/
structure Site (σ η : Type) where
  state : σ
  links : List (Link η)
  network : Network

/-- Runs an operation on a link of a site; without such a link nothing happens. -/
def Site.onLink {β : Type} (k : Nat) (otherwise : β)
    (f : Link η → Network → β × Link η × Network) (site : Site σ η) : β × Site σ η :=
  match site.links[k]? with
  | none => (otherwise, site)
  | some l =>
    let (r, l, n) := f l site.network
    (r, { site with links := site.links.set k l, network := n })

/-- The end of a routine. -/
structure Performed (σ η α : Type) where
  result : Except Fault α
  site : Site σ η
  delivery : Option Delivery

/-- The answer of a transport as a routine sees it. -/
def answered : Except Refusal Unit → Except Fault Unit
  | .ok () => .ok ()
  | .error refusal => .error (.refused refusal)

/-- Runs a routine of the process with link `k`, with a delivery in hand if it is a handler's. -/
def perform (k : Nat) (clock : Int) :
    Routine σ η α → Site σ η → Option Delivery → Performed σ η α
  | .done a, site, d => ⟨.ok a, site, d⟩
  | .raise fault, site, d => ⟨.error fault, site, d⟩
  | .critical update next, site, d =>
    perform k clock (next site.state) { site with state := update site.state } d
  | .clock next, site, d => perform k clock (next clock) site d
  | .publish m next, site, d =>
    let r := site.onLink k (.ok ()) (Link.publish m)
    perform k clock (next (answered r.1)) r.2 d
  | .subscribe queue handler next, site, d =>
    let r := site.onLink k (.ok ()) (Link.subscribe queue handler)
    perform k clock (next (answered r.1)) r.2 d
  | .cancel queue next, site, d =>
    let r := site.onLink k () fun l n => ((), l.cancel queue (d.map (·.connection)) n)
    perform k clock next r.2 d
  | .close next, site, d =>
    let r := site.onLink k () fun l n => ((), l.close (d.map (·.connection)) n)
    perform k clock next r.2 d
  | .settle s next, site, d =>
    match d with
    | none => perform k clock next site none
    | some d =>
      perform k clock next { site with network := (settle s d site.network).2 }
        (some (settle s d site.network).1)

/-! ## Consumers at work -/

/-- A consumer that has taken a message. -/
structure Taken (η : Type) where
  /-- The link of the consumer. -/
  process : Nat
  handler : η
  delivery : Delivery

/-- Lets the first consumer of a link that has a message waiting take it. -/
def takeFrom? (process : Nat) (n : Network) :
    List (LinkConsumer η) → Option (Taken η × List (LinkConsumer η) × Network)
  | [] => none
  | c :: rest =>
    match if c.stopped then none else n.take? c.queue with
    | some (m, n) =>
      let c := { c with delivered := c.delivered + 1 }
      some (⟨process, c.handler, ⟨m, c.connection, c.delivered, false⟩⟩, c :: rest, n)
    | none => (takeFrom? process n rest).map fun (t, rest, n) => (t, c :: rest, n)

/-- Lets the first consumer of some links that has a message waiting take it; `process` is the
number of the first link. -/
def takeAny? (process : Nat) (n : Network) :
    List (Link η) → Option (Taken η × List (Link η) × Network)
  | [] => none
  | l :: rest =>
    match takeFrom? process n l.consumers with
    | some (t, consumers, n) => some (t, { l with consumers } :: rest, n)
    | none => (takeAny? (process + 1) n rest).map fun (t, rest, n) => (t, l :: rest, n)

/-- Lets a consumer take a message. -/
def take? (site : Site σ η) : Option (Taken η × Site σ η) :=
  (takeAny? 0 site.network site.links).map fun (t, links, network) =>
    (t, { site with links, network })

/-- Runs the handler of a message that was taken. -/
def deliver (behave : η → Body → Routine σ η Unit) (clock : Int) (t : Taken η)
    (site : Site σ η) : Performed σ η Unit :=
  perform t.process clock (behave t.handler t.delivery.message.body) site (some t.delivery)

/-- What a consumer does after its handler: a fault rejects the delivery, if it is not settled
yet, and a consumer that was stopped meanwhile closes its connection. -/
def conclude (t : Taken η) (p : Performed σ η Unit) : Site σ η :=
  let site := match p.result with
    | .ok () => p.site
    | .error _ =>
      { p.site with network := (settle .reject (p.delivery.getD t.delivery) p.site.network).2 }
  let stopped := match site.links[t.process]? with
    | none => false
    | some l => l.consumers.any fun c => c.connection == t.delivery.connection && c.stopped
  if stopped then { site with network := site.network.close t.delivery.connection } else site

/-- Lets the consumers work until there is nothing left to take, in at most so many deliveries. -/
def drain (behave : η → Body → Routine σ η Unit) (clock : Int) :
    Nat → Site σ η → Option (Site σ η)
  | fuel, site =>
    match take? site with
    | none => some site
    | some (t, site) =>
      match fuel with
      | 0 => none
      | fuel + 1 => drain behave clock fuel (conclude t (deliver behave clock t site))

end Amqp

end Stepwise
