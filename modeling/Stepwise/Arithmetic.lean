import Stepwise.Decimal.Layout
import Stepwise.Wire.Message

/-!
# Arithmetic of one step

`execute` applies an operation to two floats.  A step never yields an infinity or a NaN: a zero
divisor and a result that is no finite number are faults.
-/

namespace Stepwise

/-- Why a step has no result. -/
inductive StepFault where
  | divisionByZero
  | overflow (operation : Operation) (left right : Float)
  | wrongWorker (own asked : Operation)
  | deadlineExceeded (deadlineMs stepId : Int)
  | unknownOperation (name : String)
  deriving Inhabited

namespace StepFault

/-- The code that a fault carries to the expression's response. -/
def code : StepFault → ErrorCode
  | divisionByZero => .divByZero
  | overflow _ _ _ => .executionError
  | wrongWorker _ _ | unknownOperation _ => .invalidOperation
  | deadlineExceeded _ _ => .deadlineExceeded

/-- The text of a fault. -/
def message : StepFault → String
  | divisionByZero => "division by zero"
  | overflow op a b =>
    op.name ++ "(" ++ Decimal.text a ++ ", " ++ Decimal.text b ++ ") overflowed"
  | wrongWorker own asked => "worker " ++ own.name ++ " cannot execute " ++ asked.name
  | deadlineExceeded deadline step =>
    "deadline of " ++ toString deadline ++ " ms exceeded before step " ++ toString step
  | unknownOperation name => "unknown operation: " ++ name

/-- The failure that answers a step. -/
def failure (f : StepFault) : Failure := ⟨f.code, f.message⟩

end StepFault

namespace Operation

/-- The float that an operation yields, division by zero apart. -/
def apply : Operation → Float → Float → Float
  | add, a, b => a + b
  | subtract, a, b => a - b
  | multiply, a, b => a * b
  | divide, a, b => a / b

/-- The result of an operation. -/
def execute (op : Operation) (a b : Float) : Except StepFault Float :=
  if op = divide && b == 0 then .error .divisionByZero
  else
    let x := op.apply a b
    if Decimal.isFinite x then .ok x else .error (.overflow op a b)

/-- The result of the operation with a name. -/
def executeNamed (name : String) (a b : Float) : Except StepFault Float :=
  match ofName? name with
  | some op => op.execute a b
  | none => .error (.unknownOperation name)

end Operation

end Stepwise
