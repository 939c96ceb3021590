import Stepwise.Transport.Routine

/-!
# Traces

`Routine.run` runs a routine at a stretch over a transport that only keeps a record: the clock
stands still, the messages to some queues are refused, and everything else is accepted.  The `Run`
that comes out holds the result, the state afterwards and what the routine did, in order.
-/

namespace Stepwise

/-- What holds while a routine runs. -/
structure Conditions where
  /-- The milliseconds on the clock. -/
  clock : Int
  /-- The queues whose messages are refused. -/
  refusing : List String
  deriving Inhabited

/-- Something that a routine did to its surroundings. -/
inductive Effect (η : Type) where
  | published (m : Message)
  | refused (m : Message)
  | subscribed (queue : String) (handler : η)
  | cancelled (queue : String)
  | closed
  | settled (s : Settlement)

/-- The outcome of a routine. -/
structure Run (σ η α : Type) where
  result : Except Fault α
  state : σ
  effects : List (Effect η)

namespace Run

variable {σ η α : Type}

/-- Puts an effect in front. -/
def after (e : Effect η) (r : Run σ η α) : Run σ η α :=
  { r with effects := e :: r.effects }

/-- The messages that were accepted, in order. -/
def published (r : Run σ η α) : List Message :=
  r.effects.filterMap fun
    | .published m => some m
    | _ => none

/-- What was said about the delivery in hand, in order. -/
def settlements (r : Run σ η α) : List Settlement :=
  r.effects.filterMap fun
    | .settled s => some s
    | _ => none

/-- Subscriptions after the run, the latest last: each has a queue and a handler. -/
def subscriptions (before : List (String × η)) (r : Run σ η α) : List (String × η) :=
  r.effects.foldl (fun subs e => match e with
    | .subscribed queue handler => subs ++ [(queue, handler)]
    | .cancelled queue => (subs.reverse.eraseP (·.1 == queue)).reverse
    | .closed => []
    | _ => subs) before

end Run

/-- The refusal of a transport that cannot be reached. -/
def unavailable : Fault := .refused (.unavailable "broker unavailable")

/-- Runs a routine at a stretch. -/
def Routine.run {σ η α : Type} (c : Conditions) : Routine σ η α → σ → Run σ η α
  | done a, s => ⟨.ok a, s, []⟩
  | raise fault, s => ⟨.error fault, s, []⟩
  | critical update next, s => (next s).run c (update s)
  | clock next, s => (next c.clock).run c s
  | publish m next, s =>
    if c.refusing.contains m.queue then ((next (.error unavailable)).run c s).after (.refused m)
    else ((next (.ok ())).run c s).after (.published m)
  | subscribe queue handler next, s =>
    ((next (.ok ())).run c s).after (.subscribed queue handler)
  | cancel queue next, s => (next.run c s).after (.cancelled queue)
  | close next, s => (next.run c s).after .closed
  | settle x next, s => (next.run c s).after (.settled x)

end Stepwise
