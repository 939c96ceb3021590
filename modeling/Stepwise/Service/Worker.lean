import Stepwise.Arithmetic
import Stepwise.Settings
import Stepwise.Transport.Routine

/-!
# Workers

A worker executes the steps of one operation.  It keeps no state: the answer to a step depends on
the request and the clock alone.
-/

namespace Stepwise.Worker

open Stepwise.Text (Body)

/-- Whether the budget of a step has run out: it was none, or the clock is past its end. -/
def isExpired (now : Timestamp) (r : StepRequest) : Except Fault Bool :=
  if r.deadlineMs ≤ 0 then .ok true else
  match r.issuedAt.advance? r.deadlineMs with
  | none => .error .outOfRange
  | some limit =>
    match now.instant?, limit.instant? with
    | some now, some limit => .ok (limit < now)
    | _, _ => .error .mixedTimes

/-- The result of a step at a worker. -/
def perform (own : Operation) (now : Timestamp) (r : StepRequest) :
    Except Fault (Except StepFault Float) :=
  if r.operation ≠ own then .ok (.error (.wrongWorker own r.operation)) else
  match isExpired now r with
  | .error fault => .error fault
  | .ok true => .ok (.error (.deadlineExceeded r.deadlineMs r.stepId))
  | .ok false => .ok (r.operation.execute r.left r.right)

/-- The answer to a step. -/
def answer (own : Operation) (now : Timestamp) (r : StepRequest) : Except Fault StepResponse :=
  (perform own now r).map fun result =>
    ⟨r.expressionId, r.stepId, match result with
      | .ok x => .value x
      | .error fault => .failed fault.failure⟩

/-- What a worker does with a delivery: the answer goes to the queue of the results. -/
def onDelivery {σ η : Type} (settings : Settings) (own : Operation) (body : Body) :
    Routine σ η Unit := do
  match Timestamp.onClock? (← Routine.now) with
  | none => .raise .outOfRange
  | some now =>
    match StepRequest.decode body now with
    | .error _ => .settled .reject
    | .ok request =>
      match answer own now request with
      | .error fault => .raise fault
      | .ok response =>
        match ← Routine.tryPublish ⟨settings.resultsQueue, response.body⟩ with
        | .ok () => .settled .ack
        | .error (.refused _) => .settled .requeue
        | .error fault => .raise fault

end Stepwise.Worker
