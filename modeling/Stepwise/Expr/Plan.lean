import Stepwise.Decimal.Reader
import Stepwise.Expr.Postfix
import Stepwise.Json.Value

/-!
# Plans

A plan is an expression cut into steps of one operation each.  An operand of a step is a number or
the result of an earlier step; the steps are numbered in the order of the operators in postfix, so
every reference points backwards.  `compile` makes the plan of a text.
-/

namespace Stepwise

/-- A number, or the result of the step with an id. -/
inductive Operand where
  | value (x : Float)
  | result (step : Int)
  deriving Inhabited

/-- One operation on two operands. -/
structure Step where
  id : Int
  operation : Operation
  left : Operand
  right : Operand
  deriving Inhabited

/-- The steps whose results an operand needs. -/
def Operand.dependencies : Operand → List Int
  | value _ => []
  | result step => [step]

/-- The steps whose results a step needs, the left operand's first. -/
def Step.dependencies (s : Step) : List Int :=
  s.left.dependencies ++ s.right.dependencies

/-- An expression ready to be executed.  The literal is the value of an expression without
operators. -/
structure Plan where
  text : String
  postfixTokens : List Token
  steps : List Step
  literal : Option Float
  deriving Inhabited

namespace Plan

/-- The texts of the postfix tokens, one blank between two. -/
def postfixText (p : Plan) : String :=
  " ".intercalate (p.postfixTokens.map (·.text))

/-- The number that a token writes, which has to be finite. -/
def number (text : String) : Except CompileFault Float :=
  match Decimal.ofText? text.toList with
  | none => .error (.notANumber text)
  | some x => if Decimal.isFinite x then .ok x else .error (.outOfRange text)

/-- Runs postfix tokens on a stack of operands, appending a step for each operator. -/
def run (steps : List Step) (stack : List Operand) :
    List Token → Except CompileFault (List Step × List Operand)
  | [] => .ok (steps, stack)
  | t :: rest =>
    if t.kind == .number then
      match number t.text with
      | .error fault => .error fault
      | .ok x => run steps (.value x :: stack) rest
    else
      match stack with
      | right :: left :: below =>
        match Operation.ofSymbol? t.text with
        | none => .error (.unknownOperator t.text)
        | some op =>
          let id : Int := steps.length
          run (steps ++ [⟨id, op, left, right⟩]) (.result id :: below) rest
      | _ => .error (.missingOperand t.text)

/-- The steps of postfix tokens, and the operand that is the value of the whole. -/
def ofPostfix (tokens : List Token) : Except CompileFault (List Step × Operand) :=
  match run [] [] tokens with
  | .error fault => .error fault
  | .ok (_, []) => .error .empty
  | .ok (steps, [final]) => .ok (steps, final)
  | .ok (_, stack) => .error (.leftOver stack.length)

/-- The plan of an expression. -/
def compile (text : String) : Except CompileFault Plan :=
  match Token.tokenize text with
  | .error fault => .error (.strayCharacter fault)
  | .ok [] => .error .empty
  | .ok tokens =>
    match Token.toPostfix tokens with
    | .error fault => .error fault
    | .ok postfixTokens =>
      match ofPostfix postfixTokens with
      | .error fault => .error fault
      | .ok (steps, .value x) => .ok ⟨text, postfixTokens, steps, some x⟩
      | .ok (steps, .result _) => .ok ⟨text, postfixTokens, steps, none⟩

/-! ## A plan as a document -/

/-- A token as a Json object. -/
def tokenJson (t : Token) : Json :=
  .object [("kind", .text t.kind.name), ("text", .text t.text)]

/-- An operand as Json: a float, or an object that names the step. -/
def operandJson : Operand → Json
  | .value x => .float x
  | .result step => .object [("step_id", .int step)]

/-- A step as a Json object. -/
def stepJson (s : Step) : Json :=
  .object [("step_id", .int s.id), ("operation", .text s.operation.name),
    ("operands", .array [operandJson s.left, operandJson s.right])]

/-- A plan as a Json object. -/
def toJson (p : Plan) : Json :=
  .object [("expression_text", .text p.text), ("postfix", .array (p.postfixTokens.map tokenJson)),
    ("steps", .array (p.steps.map stepJson)),
    ("literal", match p.literal with | some x => .float x | none => .null)]

end Plan

end Stepwise
