import Stepwise.Expr.Plan
import Stepwise.Service.Budget
import Stepwise.Settings
import Stepwise.Transport.Routine

/-!
# The scheduler

The scheduler takes expressions, sends their steps one at a time to the queues of the operations,
and answers each expression once: with the value of its last step, or with the first failure.

Its state has a table from the ids of pending expressions to their entries.  An id is reserved
while its expression is compiled, and stays taken until the answer.  Every change of the state is a
critical section with a name of its own (`reserve`, `enter`, `prepareNext`, `accept`, …); the
routines `submit`, `onResult` and `fail` string them together with what is published.
-/

namespace Stepwise

open Stepwise.Text (Body)

/-- The progress of an accepted expression. -/
structure Entry where
  expressionId : String
  steps : List Step
  /-- The end of the budget, in seconds on the clock. -/
  deadlineAt : Float
  /-- The accepted result of each step, by its id. -/
  results : List (Int × Float)
  inFlight : Option Int
  answered : Bool
  deriving Inhabited

/-- The state of the scheduler.  An entry keeps its place for good; the table tells which entry an
id stands for now. -/
structure Scheduler where
  entries : Array Entry
  table : List (String × Nat)
  reserved : List String
  /-- The number of requests that came without an id. -/
  nameless : Nat
  deriving Inhabited

/-- Makes the plan of an expression. -/
abbrev Compiler := String → Except CompileFault Plan

namespace Scheduler

/-- Nothing pending. -/
def empty : Scheduler := ⟨#[], [], [], 0⟩

/-- The number of pending expressions. -/
def pendingCount (s : Scheduler) : Nat := s.table.length

/-- Whether an id is taken by an expression without an answer. -/
def isPending (s : Scheduler) (id : String) : Bool :=
  s.table.any (·.1 == id) || s.reserved.contains id

/-- The entry that an id stands for. -/
def find? (s : Scheduler) (id : String) : Option Nat :=
  s.table.lookup id

/-- The id of the n-th request without one. -/
def namelessId (n : Nat) : String :=
  let ds := Nat.toDigits 10 n
  "00000000-0000-4000-8000-" ++ String.ofList (List.replicate (12 - ds.length) '0' ++ ds)

/-! ## Critical sections -/

/-- Takes an id, unless it is taken already. -/
def reserve (id : String) (s : Scheduler) : Bool × Scheduler :=
  if s.isPending id then (false, s) else (true, { s with reserved := id :: s.reserved })

/-- Ends the reservation of an id. -/
def release (id : String) (s : Scheduler) : Unit × Scheduler :=
  ((), { s with reserved := s.reserved.filter (· != id) })

/-- Puts an entry into the table and gives its place. -/
def enter (e : Entry) (s : Scheduler) : Nat × Scheduler :=
  (s.entries.size, { s with
    entries := s.entries.push e
    table := (e.expressionId, s.entries.size) :: s.table.filter (·.1 != e.expressionId) })

/-- Takes an id out of the table. -/
def remove (id : String) (s : Scheduler) : Unit × Scheduler :=
  ((), { s with table := s.table.filter (·.1 != id) })

/-- The number that an operand stands for, or the step it waits for. -/
def resolve (results : List (Int × Float)) : Operand → Except Int Float
  | .value x => .ok x
  | .result step =>
    match results.lookup step with
    | some x => .ok x
    | none => .error step

/-- Both operands of a step; of two that wait, the left one is named. -/
def operands (results : List (Int × Float)) (step : Step) : Except Fault (Float × Float) :=
  match resolve results step.left with
  | .error missing => .error (.unresolved step.id missing)
  | .ok a =>
    match resolve results step.right with
    | .error missing => .error (.unresolved step.id missing)
    | .ok b => .ok (a, b)

/-- Puts the next step of an entry in flight and makes its request. -/
def nextRequest (now : Int) (e : Entry) : Except Fault StepRequest × Entry :=
  match e.steps[e.results.length]? with
  | none => (.error .outOfRange, e)
  | some step =>
    match operands e.results step with
    | .error fault => (.error fault, e)
    | .ok (a, b) =>
      let e := { e with inFlight := some step.id }
      match Budget.remaining? now e.deadlineAt, Timestamp.onClock? now with
      | some budget, some issued =>
        (.ok ⟨e.expressionId, step.id, step.operation, a, b, budget, issued⟩, e)
      | _, _ => (.error .outOfRange, e)

/-- Applies a function to the entry at a place. -/
def onEntry {α : Type} (place : Nat) (otherwise : α) (f : Entry → α × Entry) (s : Scheduler) :
    α × Scheduler :=
  match s.entries[place]? with
  | none => (otherwise, s)
  | some e => ((f e).1, { s with entries := s.entries.setIfInBounds place (f e).2 })

/-- Prepares the next step of the entry at a place. -/
def prepareNext (now : Int) (place : Nat) : Scheduler → Except Fault StepRequest × Scheduler :=
  onEntry place (.error .outOfRange) (nextRequest now)

/-- What has to be done after a result. -/
inductive Reaction where
  | nothing
  | answer (response : ExpressionResponse)
  | send (request : StepRequest)
  | stop (fault : Fault)
  deriving Inhabited

/-- Stores a result under its step, in place of an older one. -/
def store (results : List (Int × Float)) (step : Int) (x : Float) : List (Int × Float) :=
  if results.any (·.1 == step) then results.map fun r => if r.1 == step then (step, x) else r
  else results ++ [(step, x)]

/-- Advances an entry by the answer to one of its steps.  Only the step in flight counts. -/
def advance (now : Int) (r : StepResponse) (e : Entry) : Reaction × Entry :=
  if e.answered || e.inFlight != some r.stepId then (.nothing, e) else
  let e := { e with inFlight := none }
  match r.outcome with
  | .failed f => (.answer ⟨e.expressionId, .failed f⟩, { e with answered := true })
  | .value x =>
    let e := { e with results := store e.results r.stepId x }
    if e.results.length == e.steps.length then
      (.answer ⟨e.expressionId, .value x⟩, { e with answered := true })
    else
      match nextRequest now e with
      | (.ok request, e) => (.send request, e)
      | (.error (.unresolved step missing), e) =>
        (.answer (.failure e.expressionId .internalError (Fault.unresolved step missing).message),
          { e with answered := true })
      | (.error fault, e) => (.stop fault, e)

/-- Accepts the answer to a step of the entry at a place. -/
def accept (now : Int) (r : StepResponse) (place : Nat) : Scheduler → Reaction × Scheduler :=
  onEntry place .nothing (advance now r)

/-- Marks an entry as answered; tells whether it was not. -/
def abandon (place : Nat) : Scheduler → Bool × Scheduler :=
  onEntry place false fun e =>
    if e.answered then (false, e) else (true, { e with answered := true, inFlight := none })

/-- Decodes a request; one without an id gets the next nameless one. -/
def decodeRequest (body : Body) (s : Scheduler) : Checked ExpressionRequest × Scheduler :=
  let (checked, nameless) := ExpressionRequest.decode body (namelessId (s.nameless + 1))
  (checked, if nameless then { s with nameless := s.nameless + 1 } else s)

/-! ## Routines -/

variable {η : Type}

/-- What a routine of the scheduler is. -/
abbrev Action (η α : Type) := Routine Scheduler η α

/-- Publishes a response.  There is nobody to tell when that is refused. -/
def emit (settings : Settings) (r : ExpressionResponse) : Action η Unit := do
  match ← Routine.tryPublish ⟨settings.responseQueue, r.body⟩ with
  | .ok () => pure ()
  | .error (.refused _) => pure ()
  | .error fault => .raise fault

/-- Takes an answered expression out of the table and publishes its response. -/
def finish (settings : Settings) (id : String) (r : ExpressionResponse) : Action η Unit := do
  Routine.atomically (remove id)
  emit settings r

/-- Ends a pending expression with a failure; tells whether this call did. -/
def fail (settings : Settings) (id : String) (code : ErrorCode) (message : String) :
    Action η Bool := do
  match ← Routine.atomically fun s => (s.find? id, s) with
  | none => pure false
  | some place =>
    if ← Routine.atomically (abandon place) then
      finish settings id (.failure id code message)
      pure true
    else pure false

/-- Publishes a step to the queue of its operation. -/
def publishStep (settings : Settings) (r : StepRequest) : Action η Unit := do
  match settings.queueOf? r.operation with
  | none =>
    let _ ← fail settings r.expressionId .unknownOperation
      ("unknown operation: " ++ r.operation.name)
  | some queue =>
    match ← Routine.tryPublish ⟨queue, r.body⟩ with
    | .ok () => pure ()
    | .error (.refused refusal) =>
      let _ ← fail settings r.expressionId .publishError ("publish failed: " ++ refusal.message)
    | .error fault => .raise fault

/-- Compiles a request.  A plan with steps gets an entry; anything else is answered here. -/
def compile (settings : Settings) (compiler : Compiler) (r : ExpressionRequest) :
    Action η (Option Nat) := do
  match compiler r.expression with
  | .error fault =>
    emit settings (.failure r.expressionId .parseError ("parse error: " ++ fault.message))
    pure none
  | .ok plan =>
    if plan.steps.isEmpty then
      match plan.literal with
      | some x =>
        emit settings ⟨r.expressionId, .value x⟩
        pure none
      | none => .raise (.invalid [⟨[], .valueError⟩])
    else
      match Budget.deadline? (← Routine.now) r.deadlineMs with
      | none => .raise .outOfRange
      | some deadlineAt =>
        let place ← Routine.atomically
          (enter ⟨r.expressionId, plan.steps, deadlineAt, [], none, false⟩)
        pure (some place)

/-- Takes an expression, unless its id is pending, and publishes its first step. -/
def submit (settings : Settings) (compiler : Compiler) (r : ExpressionRequest) :
    Action η Unit := do
  if ← Routine.atomically (reserve r.expressionId) then
    match ← (compile settings compiler r).thenAlways
        (Routine.atomically (release r.expressionId)) with
    | none => pure ()
    | some place =>
      let now ← Routine.now
      match ← Routine.atomically (prepareNext now place) with
      | .error fault => .raise fault
      | .ok request => publishStep settings request

/-- Takes the answer to a step. -/
def onResult (settings : Settings) (r : StepResponse) : Action η Unit := do
  match ← Routine.atomically fun s => (s.find? r.expressionId, s) with
  | none => pure ()
  | some place =>
    let now ← Routine.now
    match ← Routine.atomically (accept now r place) with
    | .nothing => pure ()
    | .answer response => finish settings r.expressionId response
    | .send request => publishStep settings request
    | .stop fault => .raise fault

/-- The number of issues of a message, in words. -/
def countOf (issues : List Issue) (model : String) : String :=
  toString issues.length ++ " validation error" ++ (if issues.length == 1 then "" else "s") ++
    " for " ++ model

/-- Takes the body of a request.  One that cannot be decoded is answered if it shows an id. -/
def handleRequest (settings : Settings) (compiler : Compiler) (body : Body) : Action η Unit := do
  match ← Routine.atomically (decodeRequest body) with
  | .ok request => submit settings compiler request
  | .error issues =>
    match glanceId? body with
    | none => pure ()
    | some (.unpaired _) => .raise .unwritable
    | some (.text id) =>
      if ← Routine.atomically fun s => (s.isPending id, s) then pure ()
      else emit settings (.failure id .serializationError
        ("malformed request: " ++ countOf issues "ExpressionRequest"))

/-- Takes the body of a step's answer.  One that cannot be decoded fails its expression. -/
def handleResult (settings : Settings) (body : Body) : Action η Unit := do
  match StepResponse.decode body with
  | .ok response => onResult settings response
  | .error issues =>
    match glanceId? body with
    | some (.text id) =>
      let _ ← fail settings id .serializationError
        ("malformed result: " ++ countOf issues "OperationResponse")
    | _ => pure ()

/-- What the scheduler does with a delivery of a request. -/
def onRequestDelivery (settings : Settings) (compiler : Compiler) (body : Body) : Action η Unit :=
  (handleRequest settings compiler body).thenAlways (.settled .ack)

/-- What the scheduler does with a delivery of a step's answer. -/
def onResultDelivery (settings : Settings) (body : Body) : Action η Unit :=
  (handleResult settings body).thenAlways (.settled .ack)

/-- Listens for results and for requests. -/
def start {σ : Type} (settings : Settings) (results requests : η) : Routine σ η Unit := do
  Routine.listen settings.resultsQueue results
  Routine.listen settings.requestQueue requests

end Scheduler

end Stepwise
