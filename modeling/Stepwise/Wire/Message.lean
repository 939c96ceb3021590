import Stepwise.Expr.Operation
import Stepwise.Json.Printer
import Stepwise.Text.Encoding
import Stepwise.Wire.Timestamp

/-!
# Messages

The four messages that the components exchange, and the text of each.  A response carries either a
number or a failure, never both and never neither.
-/

namespace Stepwise

open Stepwise.Text (Body)

/-- The version of the messages. -/
def messageVersion : String := "1.0.0"

/-- The kinds of failure that an expression or a step can end with. -/
inductive ErrorCode where
  | parseError
  | unknownOperation
  | invalidOperation
  | executionError
  | divByZero
  | deadlineExceeded
  | serializationError
  | publishError
  | internalError
  deriving DecidableEq, Repr, Inhabited

namespace ErrorCode

/-- Every code. -/
def all : List ErrorCode :=
  [parseError, unknownOperation, invalidOperation, executionError, divByZero, deadlineExceeded,
    serializationError, publishError, internalError]

/-- The name of a code in messages. -/
def name : ErrorCode → String
  | parseError => "PARSE_ERROR"
  | unknownOperation => "UNKNOWN_OPERATION"
  | invalidOperation => "INVALID_OPERATION"
  | executionError => "EXECUTION_ERROR"
  | divByZero => "DIV_BY_ZERO"
  | deadlineExceeded => "DEADLINE_EXCEEDED"
  | serializationError => "SERIALIZATION_ERROR"
  | publishError => "PUBLISH_ERROR"
  | internalError => "INTERNAL_ERROR"

/-- The code with a name. -/
def ofName? (s : String) : Option ErrorCode :=
  all.find? (·.name == s)

theorem ofName?_name (code : ErrorCode) : ofName? code.name = some code := by
  cases code <;> decide

end ErrorCode

/-- Why something could not be computed. -/
structure Failure where
  code : ErrorCode
  message : String
  deriving DecidableEq, Repr, Inhabited

/-- How a computation ended. -/
inductive Outcome where
  | value (x : Float)
  | failed (failure : Failure)
  deriving DecidableEq, Inhabited

/-- Asks for the value of an expression. -/
structure ExpressionRequest where
  expressionId : String
  expression : String
  deadlineMs : Int
  deriving DecidableEq, Repr, Inhabited

/-- The answer to an expression request. -/
structure ExpressionResponse where
  expressionId : String
  outcome : Outcome
  deriving Inhabited

/-- Asks for one step of an expression. -/
structure StepRequest where
  expressionId : String
  stepId : Int
  operation : Operation
  left : Float
  right : Float
  deadlineMs : Int
  issuedAt : Timestamp
  deriving Inhabited

/-- The answer to a step request. -/
structure StepResponse where
  expressionId : String
  stepId : Int
  outcome : Outcome
  deriving Inhabited

/-- A body on its way to a queue. -/
structure Message where
  queue : String
  body : Body
  deriving Inhabited

/-! ## Text -/

/-- The entries of an outcome: the absent one is null. -/
def Outcome.entries : Outcome → List (String × Json)
  | value x => [("result", .float x), ("error", .null)]
  | failed f => [("result", .null),
      ("error", .object [("code", .text f.code.name), ("message", .text f.message)])]

/-- The text of an expression request. -/
def ExpressionRequest.render (r : ExpressionRequest) : String :=
  Json.render Decimal.wire (.object [("expression_id", .text r.expressionId),
    ("expression", .text r.expression), ("deadline_ms", .int r.deadlineMs)])

/-- The Json form of an expression response. -/
def ExpressionResponse.toJson (r : ExpressionResponse) : Json :=
  .object (("expression_id", .text r.expressionId) :: r.outcome.entries)

/-- The text of an expression response. -/
def ExpressionResponse.render (r : ExpressionResponse) : String :=
  Json.render Decimal.wire r.toJson

/-- The text of a step request. -/
def StepRequest.render (r : StepRequest) : String :=
  Json.render Decimal.wire (.object [("expression_id", .text r.expressionId),
    ("step_id", .int r.stepId), ("operation", .text r.operation.name),
    ("operands", .array [.float r.left, .float r.right]), ("deadline_ms", .int r.deadlineMs),
    ("issued_at", .text r.issuedAt.render)])

/-- The text of a step response. -/
def StepResponse.render (r : StepResponse) : String :=
  Json.render Decimal.wire
    (.object (("expression_id", .text r.expressionId) :: ("step_id", .int r.stepId) ::
      r.outcome.entries))

/-- The bytes of an expression request. -/
def ExpressionRequest.body (r : ExpressionRequest) : Body := Text.encode r.render

/-- The bytes of an expression response. -/
def ExpressionResponse.body (r : ExpressionResponse) : Body := Text.encode r.render

/-- The bytes of a step request. -/
def StepRequest.body (r : StepRequest) : Body := Text.encode r.render

/-- The bytes of a step response. -/
def StepResponse.body (r : StepResponse) : Body := Text.encode r.render

/-- The answer that an expression failed. -/
def ExpressionResponse.failure (id : String) (code : ErrorCode) (message : String) :
    ExpressionResponse :=
  ⟨id, .failed ⟨code, message⟩⟩

/-- An expression id starts with the id of the client that issued it, up to this mark. -/
def idMark : List Char := "_expr_".toList

/-- What stands before the first mark in a text, if the mark occurs. -/
def beforeMark? : List Char → Option (List Char)
  | [] => none
  | c :: rest =>
    if idMark.isPrefixOf (c :: rest) then some [] else (beforeMark? rest).map (c :: ·)

/-- The client that an expression id names. -/
def clientOf (expressionId : String) : String :=
  match beforeMark? expressionId.toList with
  | some (c :: cs) => String.ofList (c :: cs)
  | _ => "UNKNOWN"

end Stepwise
