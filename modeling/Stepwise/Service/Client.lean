import Stepwise.Service.Budget
import Stepwise.Settings
import Stepwise.Transport.Routine

/-!
# Clients

A client sends expressions under ids of its own and matches the responses to them.  A ticket stands
for an expression that was sent; it is resolved by the first response with its id that arrives
while the client still waits.
-/

namespace Stepwise

open Stepwise.Text (Body)

/-- An expression that was sent. -/
structure Ticket where
  expressionId : String
  deadlineMs : Int
  /-- The place of the response among those of the client. -/
  place : Nat
  deriving DecidableEq, Repr, Inhabited

/-- The state of a client. -/
structure Client where
  clientId : String
  issued : Nat
  /-- The ids that wait for a response, and where it goes. -/
  waiting : List (String × Nat)
  responses : Array (Option ExpressionResponse)
  /-- Whether the client listens for responses. -/
  listening : Bool
  deriving Inhabited

namespace Client

/-- A client that has sent nothing. -/
def named (clientId : String) : Client := ⟨clientId, 0, [], #[], false⟩

/-- The n-th id that a client issues. -/
def idOf (clientId : String) (n : Nat) : String :=
  clientId ++ "_expr_" ++ toString n

/-! ## Critical sections -/

/-- Issues an id. -/
def nextId (c : Client) : String × Client :=
  (idOf c.clientId (c.issued + 1), { c with issued := c.issued + 1 })

/-- Starts to wait for a response. -/
def register (id : String) (c : Client) : Nat × Client :=
  (c.responses.size, { c with
    waiting := (id, c.responses.size) :: c.waiting.filter (·.1 != id)
    responses := c.responses.push none })

/-- Stops to wait for a response, and tells where it would have gone. -/
def unregister (id : String) (c : Client) : Option Nat × Client :=
  (c.waiting.lookup id, { c with waiting := c.waiting.filter (·.1 != id) })

/-- Resolves a ticket, which must not have been resolved before. -/
def resolve (place : Nat) (r : ExpressionResponse) (c : Client) : Except Fault Unit × Client :=
  match c.responses[place]? with
  | some none => (.ok (), { c with responses := c.responses.setIfInBounds place (some r) })
  | _ => (.error .alreadyAnswered, c)

/-- The response of a ticket, if it has come. -/
def response? (t : Ticket) (c : Client) : Option ExpressionResponse :=
  (c.responses[t.place]?).join

/-- The number of ids that wait. -/
def waitingCount (c : Client) : Nat := c.waiting.length

/-! ## Routines -/

variable {η : Type}

/-- Sends an expression.  When that is refused, nothing waits for it. -/
def send (settings : Settings) (expression : String) (deadlineMs : Option Int) :
    Routine Client η Ticket := do
  let id ← Routine.atomically nextId
  let deadline := deadlineMs.getD settings.defaultDeadlineMs
  let place ← Routine.atomically (register id)
  let request : ExpressionRequest := ⟨id, expression, deadline⟩
  match ← Routine.tryPublish ⟨settings.requestQueue, request.body⟩ with
  | .ok () => pure ⟨id, deadline, place⟩
  | .error fault =>
    let _ ← Routine.atomically (unregister id)
    .raise fault

/-- The longest wait in milliseconds: the nanoseconds have to fit into 63 bits. -/
def longestWait : Int := 9223372036854

/-- The response of a ticket after its time: what has come, or else that nothing came. -/
def wait (settings : Settings) (t : Ticket) : Routine Client η ExpressionResponse := do
  let time := t.deadlineMs + settings.clientGraceMs
  if (Decimal.ofInt? time).isNone then .raise .outOfRange else
  match ← Routine.atomically fun c => (c.response? t, c) with
  | some r => pure r
  | none =>
    if longestWait < time then .raise .outOfRange else
    let _ ← Routine.atomically (unregister t.expressionId)
    pure (.failure t.expressionId .deadlineExceeded
      ("no response within " ++ toString t.deadlineMs ++ " ms"))

/-- Sends an expression and waits for its response. -/
def evaluate (settings : Settings) (expression : String) (deadlineMs : Option Int) :
    Routine Client η ExpressionResponse := do
  wait settings (← send settings expression deadlineMs)

/-- What a client does with a delivery of a response. -/
def onDelivery (body : Body) : Routine Client η Unit := do
  match ExpressionResponse.decode body with
  | .error _ => .settled .reject
  | .ok r =>
    match ← Routine.atomically (unregister r.expressionId) with
    | none => .settled .ack
    | some place =>
      match ← Routine.atomically (resolve place r) with
      | .error fault => .raise fault
      | .ok () => .settled .ack

/-- Listens for responses. -/
def start (settings : Settings) (responses : η) : Routine Client η Unit := do
  Routine.listen settings.responseQueue responses
  Routine.atomically fun c => ((), { c with listening := true })

/-- Ends the listening, if there was any. -/
def stop (settings : Settings) : Routine Client η Unit := do
  if ← Routine.atomically fun c => (c.listening, { c with listening := false }) then
    .cancel settings.responseQueue (.done ())

end Client

end Stepwise
