import Stepwise.Transport.Routine

/-!
# Direct transport

A direct transport hands a message to the handler of its queue within the call that publishes it.
A handler that publishes does not nest: its messages join a backlog and are handed over when the
handler has returned, so the outermost publish comes back when the backlog is empty.

* `handle` runs a handler: publishes join the backlog, settlements mark the delivery.
* `drain` hands over the backlog, oldest first, until it is empty or a handler stops with a fault,
  which throws the rest away.
* `call` runs a routine from outside: each of its publishes drains the backlog.

Handlers may publish without end, so `drain` and `call` count the deliveries they are still allowed
to make; `none` says that there were not enough.
-/

namespace Stepwise

open Stepwise.Text (Body)

/-- The state of a direct transport: at most one handler per queue. -/
structure Direct (η : Type) where
  handlers : List (String × η)
  closed : Bool
  /-- The accepted messages that were not handed over yet, oldest first. -/
  backlog : List Message

/-- What a handler has said about a delivery. -/
structure Mark where
  acked : Bool
  requeued : Bool
  deriving DecidableEq, Repr, Inhabited

/-- Nothing said. -/
def Mark.none : Mark := ⟨false, false⟩

/-- The mark after one more settlement.  There is nowhere to put a message back to, so a request
for it is only noted, and the last one counts. -/
def Mark.settle (m : Mark) : Settlement → Mark
  | .ack => { m with acked := true }
  | .reject => { m with requeued := false }
  | .requeue => { m with requeued := true }

namespace Direct

variable {σ η α : Type}

/-- No handlers. -/
def empty : Direct η := ⟨[], false, []⟩

/-- Why a message to a queue is refused. -/
def refusal? (t : Direct η) (queue : String) : Option Refusal :=
  if t.closed then some (.closed "transport" .publish queue)
  else if t.handlers.any (·.1 == queue) then none
  else some (.noSubscriber queue)

/-- Makes a handler the handler of a queue. -/
def subscribe (queue : String) (handler : η) (t : Direct η) : Direct η :=
  { t with handlers := (queue, handler) :: t.handlers.filter (·.1 != queue) }

/-- Takes the handler of a queue away. -/
def cancel (queue : String) (t : Direct η) : Direct η :=
  { t with handlers := t.handlers.filter (·.1 != queue) }

/-- Refuses all messages from now on. -/
def close (t : Direct η) : Direct η :=
  { t with handlers := [], closed := true }

/-- Puts an accepted message into the backlog. -/
def enqueue (m : Message) (t : Direct η) : Direct η :=
  { t with backlog := t.backlog ++ [m] }

/-- The state of the components and of the transport between them. -/
structure Site (σ η : Type) where
  state : σ
  transport : Direct η

/-- The end of a handler. -/
structure Handled (σ η α : Type) where
  result : Except Fault α
  site : Site σ η
  mark : Mark

/-- A delivery that was made, and how its handler ended. -/
structure Handed where
  message : Message
  mark : Mark
  result : Except Fault Unit

/-- Runs a handler on a delivery. -/
def handle (clock : Int) : Routine σ η α → Site σ η → Mark → Handled σ η α
  | .done a, site, mark => ⟨.ok a, site, mark⟩
  | .raise fault, site, mark => ⟨.error fault, site, mark⟩
  | .critical update next, site, mark =>
    handle clock (next site.state) { site with state := update site.state } mark
  | .clock next, site, mark => handle clock (next clock) site mark
  | .publish m next, site, mark =>
    match site.transport.refusal? m.queue with
    | some refusal => handle clock (next (.error (.refused refusal))) site mark
    | none =>
      handle clock (next (.ok ())) { site with transport := site.transport.enqueue m } mark
  | .subscribe queue handler next, site, mark =>
    handle clock (next (.ok ()))
      { site with transport := site.transport.subscribe queue handler } mark
  | .cancel queue next, site, mark =>
    handle clock next { site with transport := site.transport.cancel queue } mark
  | .close next, site, mark =>
    handle clock next { site with transport := site.transport.close } mark
  | .settle s next, site, mark => handle clock next site (mark.settle s)

/-- The end of a routine that was run from outside. -/
structure Called (σ η α : Type) where
  result : Except Fault α
  site : Site σ η
  /-- The deliveries that were made meanwhile, in order. -/
  handed : List Handed

/-- Puts a delivery in front. -/
def Called.after (first : List Handed) (c : Called σ η α) : Called σ η α :=
  { c with handed := first ++ c.handed }

/-- Hands over the backlog. -/
def drain (behave : η → Body → Routine σ η Unit) (clock : Int) :
    Nat → Site σ η → Option (Called σ η Unit)
  | fuel, ⟨state, transport⟩ =>
    match transport.backlog with
    | [] => some ⟨.ok (), ⟨state, transport⟩, []⟩
    | m :: rest =>
      match fuel with
      | 0 => none
      | fuel + 1 =>
        let site : Site σ η := ⟨state, { transport with backlog := rest }⟩
        match transport.handlers.lookup m.queue with
        | none => drain behave clock fuel site
        | some handler =>
          let h := handle clock (behave handler m.body) site .none
          match h.result with
          | .ok () => (drain behave clock fuel h.site).map (·.after [⟨m, h.mark, .ok ()⟩])
          | .error fault =>
            some ⟨.error fault,
              { h.site with transport := { h.site.transport with backlog := [] } },
              [⟨m, h.mark, .error fault⟩]⟩

/-- Runs a routine from outside any handler. -/
def call (behave : η → Body → Routine σ η Unit) (clock : Int) (fuel : Nat) :
    Routine σ η α → Site σ η → Option (Called σ η α)
  | .done a, site => some ⟨.ok a, site, []⟩
  | .raise fault, site => some ⟨.error fault, site, []⟩
  | .critical update next, site =>
    call behave clock fuel (next site.state) { site with state := update site.state }
  | .clock next, site => call behave clock fuel (next clock) site
  | .publish m next, site =>
    match site.transport.refusal? m.queue with
    | some refusal => call behave clock fuel (next (.error (.refused refusal))) site
    | none =>
      match drain behave clock fuel { site with transport := site.transport.enqueue m } with
      | none => none
      | some c => (call behave clock fuel (next c.result) c.site).map (·.after c.handed)
  | .subscribe queue handler next, site =>
    call behave clock fuel (next (.ok ()))
      { site with transport := site.transport.subscribe queue handler }
  | .cancel queue next, site =>
    call behave clock fuel next { site with transport := site.transport.cancel queue }
  | .close next, site => call behave clock fuel next { site with transport := site.transport.close }
  | .settle _ next, site => call behave clock fuel next site

end Direct

end Stepwise
