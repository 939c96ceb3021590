import Stepwise.Transport.Fault
import Stepwise.Wire.Message

/-!
# Routines

A `Routine` is what a component does when it is called: critical sections on its own state, looks
at the clock, and requests to the transport, in an order that may depend on their answers.  Each
constructor but the two endings is one atomic action, so the same routine can be run at a stretch
over any transport, or action by action between the actions of other routines.

`σ` is the state that the sections work on, and `η` names the handlers of subscriptions.
-/

namespace Stepwise

/-- What a handler says about a delivery: done, rejected for good, or to be delivered again. -/
inductive Settlement where
  | ack
  | reject
  | requeue
  deriving DecidableEq, Repr

/-- A computation of a component with the actions it performs. -/
inductive Routine (σ η α : Type) where
  | done (a : α)
  | raise (fault : Fault)
  /-- Replaces the state and goes on with the state as it was. -/
  | critical (update : σ → σ) (next : σ → Routine σ η α)
  /-- Goes on with the milliseconds on the clock. -/
  | clock (next : Int → Routine σ η α)
  | publish (m : Message) (next : Except Fault Unit → Routine σ η α)
  | subscribe (queue : String) (handler : η) (next : Except Fault Unit → Routine σ η α)
  /-- Ends the latest subscription of a queue. -/
  | cancel (queue : String) (next : Routine σ η α)
  | close (next : Routine σ η α)
  /-- Settles the delivery in hand. -/
  | settle (s : Settlement) (next : Routine σ η α)

namespace Routine

variable {σ τ η α β : Type}

/-- Runs a routine and then the one that its result chooses; a fault skips the second. -/
def bind : Routine σ η α → (α → Routine σ η β) → Routine σ η β
  | done a, f => f a
  | raise fault, _ => raise fault
  | critical update next, f => critical update fun s => (next s).bind f
  | clock next, f => clock fun t => (next t).bind f
  | publish m next, f => publish m fun r => (next r).bind f
  | subscribe queue handler next, f => subscribe queue handler fun r => (next r).bind f
  | cancel queue next, f => cancel queue (next.bind f)
  | close next, f => close (next.bind f)
  | settle s next, f => settle s (next.bind f)

instance : Monad (Routine σ η) where
  pure := done
  bind := bind

/-- Turns a fault into a result. -/
def attempt : Routine σ η α → Routine σ η (Except Fault α)
  | done a => done (.ok a)
  | raise fault => done (.error fault)
  | critical update next => critical update fun s => (next s).attempt
  | clock next => clock fun t => (next t).attempt
  | publish m next => publish m fun r => (next r).attempt
  | subscribe queue handler next => subscribe queue handler fun r => (next r).attempt
  | cancel queue next => cancel queue next.attempt
  | close next => close next.attempt
  | settle s next => settle s next.attempt

/-- Goes on with a result or stops with its fault. -/
def ofExcept : Except Fault α → Routine σ η α
  | .ok a => done a
  | .error fault => raise fault

/-- Runs a second routine after a first, whether the first stops with a fault or not. -/
def thenAlways (first : Routine σ η α) (second : Routine σ η Unit) : Routine σ η α :=
  first.attempt.bind fun r => second.bind fun _ => ofExcept r

/-- One critical section with a result. -/
def atomically (f : σ → α × σ) : Routine σ η α :=
  critical (fun s => (f s).2) fun s => done (f s).1

/-- The milliseconds on the clock. -/
def now : Routine σ η Int := clock done

/-- Hands a message to the transport; a refusal is a result. -/
def tryPublish (m : Message) : Routine σ η (Except Fault Unit) := publish m done

/-- Settles the delivery in hand, and that is all. -/
def settled (s : Settlement) : Routine σ η Unit := settle s (done ())

/-- Subscribes a handler; a refusal stops the routine. -/
def listen (queue : String) (handler : η) : Routine σ η Unit :=
  subscribe queue handler ofExcept

/-- A routine on a part of a larger state. -/
def within (part : τ → σ) (replace : σ → τ → τ) : Routine σ η α → Routine τ η α
  | done a => done a
  | raise fault => raise fault
  | critical update next =>
    critical (fun t => replace (update (part t)) t) fun t => (next (part t)).within part replace
  | clock next => clock fun t => (next t).within part replace
  | publish m next => publish m fun r => (next r).within part replace
  | subscribe queue handler next =>
    subscribe queue handler fun r => (next r).within part replace
  | cancel queue next => cancel queue (next.within part replace)
  | close next => close (next.within part replace)
  | settle s next => settle s (next.within part replace)

end Routine

end Stepwise
