import Stepwise.Proofs.Service.Clients

/-!
# Phases of a client's tasks

A task of a client is at each moment in a `Phase`: it has not begun, it holds the id of an
expression that it will register, it is inside its publish, and so on.  `Phase.Leaves` says which
routine is left in a phase, so that every action of a task is a step from one phase to the next
(`Phase.step`): `Phase.update` is what it does to the client, and `Phase.event?` the event that it
stands for.  `chronicle` follows the phases along a run and writes the events down.
-/

namespace Stepwise

open Stepwise.Text (Body)

theorem Routine.bind_assoc {σ η α β γ : Type} (r : Routine σ η α) (f : α → Routine σ η β)
    (g : β → Routine σ η γ) : (r.bind f).bind g = r.bind fun a => (f a).bind g := by
  induction r with
  | done a | raise fault => rfl
  | critical update next ih => exact congrArg (critical update) (funext ih)
  | clock next ih => exact congrArg clock (funext ih)
  | publish m next ih => exact congrArg (publish m) (funext ih)
  | subscribe queue handler next ih => exact congrArg (subscribe queue handler) (funext ih)
  | cancel queue next ih => exact congrArg (cancel queue) ih
  | close next ih => exact congrArg close ih
  | settle how next ih => exact congrArg (settle how) ih

namespace Client

variable {κ η : Type} {settings : Settings} {me : η}

/-- Something that happens to a client, in the words of its tickets. -/
inductive Event where
  /-- An id is issued. -/
  | issues (id : String)
  /-- A send starts to wait under its id; the response will have this place. -/
  | registers (id : String) (place : Nat)
  /-- The publish of a send has returned, and so does the send. -/
  | returns (t : Ticket)
  /-- The publish of a send was refused, and the send does not wait any more. -/
  | withdraws (id : String)
  /-- A response that can be decoded arrives. -/
  | arrives (r : ExpressionResponse)
  /-- A response is put in a place. -/
  | resolves (place : Nat) (r : ExpressionResponse)
  /-- A delivery is settled. -/
  | settles (how : Settlement)
  /-- A wait runs out of time. -/
  | expires (id : String)

/-- Where a task is. -/
inductive Phase where
  | fresh (task : Task)
  /-- A send that has its id. -/
  | registering (id expression : String) (deadlineMs : Int) (waits : Bool)
  /-- A send inside its publish; `waits` if the task goes on with a wait. -/
  | publishing (t : Ticket) (expression : String) (waits : Bool)
  /-- A send whose publish was refused. -/
  | withdrawing (id : String)
  /-- A wait that has found no response. -/
  | expiring (t : Ticket)
  /-- A delivery that has taken the place of its response. -/
  | resolving (place : Nat) (r : ExpressionResponse)
  | settling (how : Settlement)
  /-- A start that has subscribed. -/
  | noting
  /-- A stop that has found a subscription. -/
  | cancelling
  | ended
  | raised

/-! ## What is left of a task -/

/-- The rest of a send that has its id. -/
def sendAs (settings : Settings) (expression : String) (deadlineMs : Int) (id : String) :
    Routine Client η Ticket := do
  let place ← Routine.atomically (register id)
  let request : ExpressionRequest := ⟨id, expression, deadlineMs⟩
  match ← Routine.tryPublish ⟨settings.requestQueue, request.body⟩ with
  | .ok () => pure ⟨id, deadlineMs, place⟩
  | .error fault =>
    let _ ← Routine.atomically (unregister id)
    .raise fault

/-- The rest of a send that waits under its id. -/
def sendFor (settings : Settings) (expression : String) (t : Ticket) :
    Routine Client η Ticket := do
  let request : ExpressionRequest := ⟨t.expressionId, expression, t.deadlineMs⟩
  match ← Routine.tryPublish ⟨settings.requestQueue, request.body⟩ with
  | .ok () => pure t
  | .error fault =>
    let _ ← Routine.atomically (unregister t.expressionId)
    .raise fault

/-- What a task does with the ticket of its send. -/
def conclude (settings : Settings) (me : η) (waits : Bool) (t : Ticket) : Routine Client η Unit :=
  if waits then (Task.wait t).routine settings me else pure ()

namespace Phase

/-- The routine that is left in a phase. -/
def Leaves (settings : Settings) (me : η) : Phase → Routine Client η Unit → Prop
  | fresh task, r => r = task.routine settings me
  | registering id expression deadlineMs waits, r =>
    r = (sendAs settings expression deadlineMs id).bind (conclude settings me waits)
  | publishing t expression waits, r =>
    r = (sendFor settings expression t).bind (conclude settings me waits)
  | withdrawing id, r =>
    ∃ fault, r = (Routine.atomically (unregister id)).bind fun _ => .raise fault
  | expiring t, r => r = (Routine.atomically (unregister t.expressionId)).bind fun _ => pure ()
  | resolving place response, r =>
    r = (Routine.atomically (resolve place response)).bind fun
      | .error fault => .raise fault
      | .ok () => .settled .ack
  | settling how, r => r = .settled how
  | noting, r => r = Routine.atomically fun c => ((), { c with listening := true })
  | cancelling, r => r = .cancel settings.responseQueue (.done ())
  | ended, r => r = .done ()
  | raised, r => ∃ fault, r = .raise fault

/-- What the next action of a task does to the client. -/
def update : Phase → Client → Client
  | fresh (.send _ _), c | fresh (.evaluate _ _), c => c.nextId.2
  | fresh .stop, c => { c with listening := false }
  | fresh (.deliver body), c =>
    match ExpressionResponse.decode body with
    | .error _ => c
    | .ok r => (c.unregister r.expressionId).2
  | registering id _ _ _, c => (c.register id).2
  | withdrawing id, c => (c.unregister id).2
  | expiring t, c => (c.unregister t.expressionId).2
  | resolving place r, c => (c.resolve place r).2
  | noting, c => { c with listening := true }
  | _, c => c

/-- The phase after the next action, which finds a client and has an effect. -/
def next (settings : Settings) : Phase → Client → Option (Effect η) → Phase
  | fresh (.send expression deadlineMs), c, _ =>
    registering c.nextId.1 expression (deadlineMs.getD settings.defaultDeadlineMs) false
  | fresh (.evaluate expression deadlineMs), c, _ =>
    registering c.nextId.1 expression (deadlineMs.getD settings.defaultDeadlineMs) true
  | fresh (.wait t), c, _ =>
    match c.response? t with
    | some _ => ended
    | none =>
      if longestWait < t.deadlineMs + settings.clientGraceMs then raised else expiring t
  | fresh (.deliver body), c, _ =>
    match ExpressionResponse.decode body with
    | .error _ => ended
    | .ok r =>
      match (c.unregister r.expressionId).1 with
      | none => settling .ack
      | some place => resolving place r
  | fresh .start, _, some _ => noting
  | fresh .start, _, none => raised
  | fresh .stop, c, _ => if c.listening then cancelling else ended
  | registering id expression deadlineMs waits, c, _ =>
    publishing ⟨id, deadlineMs, (c.register id).1⟩ expression waits
  | publishing t _ waits, _, some (.published _) => if waits then fresh (.wait t) else ended
  | publishing t _ _, _, _ => withdrawing t.expressionId
  | resolving place r, c, _ =>
    match (c.resolve place r).1 with
    | .ok () => settling .ack
    | .error _ => raised
  | withdrawing _, _, _ => raised
  | _, _, _ => ended

/-- The event that the next action stands for. -/
def event? : Phase → Client → Option (Effect η) → Option Event
  | fresh (.send _ _), c, _ | fresh (.evaluate _ _), c, _ => some (.issues c.nextId.1)
  | fresh (.deliver body), _, _ =>
    match ExpressionResponse.decode body with
    | .error _ => some (.settles .reject)
    | .ok r => some (.arrives r)
  | registering id _ _ _, c, _ => some (.registers id (c.register id).1)
  | publishing t _ _, _, some (.published _) => some (.returns t)
  | withdrawing id, _, _ => some (.withdraws id)
  | expiring t, _, _ => some (.expires t.expressionId)
  | resolving place r, _, _ => some (.resolves place r)
  | settling how, _, _ => some (.settles how)
  | _, _, _ => none

/-- Each action of a task is a step from its phase to the next one. -/
theorem step {p : Phase} {r r' : Routine Client η Unit} {c d : Client} {e : Option (Effect η)}
    (left : p.Leaves settings me r) (acts : r.Acts c e r' d) :
    (p.next settings c e).Leaves settings me r' ∧ d = p.update c ∧
      ∀ how, e = some (.settled how) ↔ p.event? c e = some (.settles how) := by
  cases p with
  | fresh task =>
    cases left
    cases task with
    | start =>
      cases acts with
      | subscribe => exact ⟨rfl, rfl, by simp [event?]⟩
      | notSubscribed queue handler next s refusal => exact ⟨⟨_, rfl⟩, rfl, by simp [event?]⟩
    | stop =>
      cases acts with
      | critical update next =>
        refine ⟨?_, rfl, by simp [event?]⟩
        rw [next]
        change Leaves settings me _ ((if c.listening then
          Routine.cancel settings.responseQueue (.done ()) else pure ()))
        cases c.listening <;> rfl
    | send expression deadlineMs =>
      cases acts with
      | critical update next => exact ⟨rfl, rfl, by simp [event?]⟩
    | evaluate expression deadlineMs =>
      cases acts with
      | critical update next =>
        exact ⟨Routine.bind_assoc (sendAs settings expression _ _) _ _, rfl, by simp [event?]⟩
    | wait t =>
      change ((wait settings t).bind fun _ => pure ()).Acts c e r' d at acts
      rw [wait] at acts
      split at acts
      · cases acts
      · cases acts with
        | critical update next =>
          refine ⟨?_, rfl, by simp [event?]⟩
          rw [next]
          change Leaves settings me _ (Routine.bind (match c.response? t with
            | some r => pure r
            | none =>
              if longestWait < t.deadlineMs + settings.clientGraceMs then .raise .outOfRange else
              Routine.bind (Routine.atomically (unregister t.expressionId)) fun _ =>
                pure _) _)
          cases c.response? t with
          | some r => rfl
          | none =>
            simp only
            split
            · exact ⟨_, rfl⟩
            · rfl
    | deliver body =>
      change (onDelivery body).Acts c e r' d at acts
      rw [onDelivery] at acts
      rw [next, update, event?]
      cases decoded : ExpressionResponse.decode body with
      | error issues =>
        rw [decoded] at acts
        cases acts with
        | settle how next => exact ⟨rfl, rfl, by simp⟩
      | ok response =>
        rw [decoded] at acts
        cases acts with
        | critical update next =>
          refine ⟨?_, rfl, by simp⟩
          change Leaves settings me
            (match (c.unregister response.expressionId).1 with
              | none => settling .ack
              | some place => resolving place response)
            (match (c.unregister response.expressionId).1 with
              | none => .settled .ack
              | some place => (Routine.atomically (resolve place response)).bind _)
          cases (c.unregister response.expressionId).1 with
          | none => rfl
          | some place => rfl
  | registering id expression deadlineMs waits =>
    cases left
    cases acts with
    | critical update next => exact ⟨rfl, rfl, by simp [event?]⟩
  | publishing t expression waits =>
    cases left
    cases acts with
    | publish m next s answer =>
      cases answer with
      | ok _ =>
        refine ⟨?_, rfl, by simp [event?, Except.isOk, Except.toBool, Effect.handed]⟩
        cases waits <;> rfl
      | error refusal =>
        exact ⟨⟨_, rfl⟩, rfl, by simp [event?, Except.isOk, Except.toBool, Effect.handed]⟩
  | withdrawing id =>
    obtain ⟨fault, rfl⟩ := left
    cases acts with
    | critical update next => exact ⟨⟨fault, rfl⟩, rfl, by simp [event?]⟩
  | expiring t =>
    cases left
    cases acts with
    | critical update next => exact ⟨rfl, rfl, by simp [event?]⟩
  | resolving place response =>
    cases left
    cases acts with
    | critical update next =>
      refine ⟨?_, rfl, by simp [event?]⟩
      rw [next]
      change Leaves settings me _ (match (c.resolve place response).1 with
        | .error fault => .raise fault
        | .ok () => .settled .ack)
      cases (c.resolve place response).1 with
      | ok _ => rfl
      | error fault => exact ⟨fault, rfl⟩
  | settling how =>
    cases left
    cases acts with
    | settle how next => exact ⟨rfl, rfl, by simp [event?]⟩
  | noting =>
    cases left
    cases acts with
    | critical update next => exact ⟨rfl, rfl, by simp [event?]⟩
  | cancelling =>
    cases left
    cases acts with
    | cancel queue next => exact ⟨rfl, rfl, by simp [event?]⟩
  | ended =>
    cases left
    cases acts
  | raised =>
    obtain ⟨fault, rfl⟩ := left
    cases acts

end Phase

/-! ## Along a run -/

/-- The phases of some tasks, and the events so far, each with the task that it is of. -/
structure Chronicle (κ : Type) where
  phases : κ → Phase
  log : List (κ × Event)

variable [DecidableEq κ]

/-- One tick more. -/
def Chronicle.record (settings : Settings) (h : Chronicle κ) (tick : Tick κ Client η) :
    Chronicle κ where
  phases := Function.update h.phases tick.thread
    ((h.phases tick.thread).next settings tick.before tick.effect)
  log := h.log ++
    (((h.phases tick.thread).event? tick.before tick.effect).map (tick.thread, ·)).toList

/-- Tasks that have not begun, of a client that has sent nothing. -/
def Task.alone (settings : Settings) (me : η) (name : String) (tasks : κ → Task) :
    Pool κ Client η Unit where
  threads k := (tasks k).routine settings me
  state := .named name

end Client

end Stepwise
