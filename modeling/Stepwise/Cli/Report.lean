import Stepwise.Cli.Table
import Stepwise.Expr.Plan
import Stepwise.Text.Quoted
import Stepwise.Wire.Message

/-!
# Reports

What the commands show: tables of keys and values, the steps of a plan, and one line for the
response to an expression.
-/

namespace Stepwise.Cli

/-! ## Values in words -/

mutual

/-- A value inside another one. -/
def quoted : Json → String
  | .null => "None"
  | .bool b => if b then "True" else "False"
  | .int n => toString n
  | .float x => Decimal.text x
  | .text s => Text.quote s
  | .unpaired units => "'" ++ String.join (units.map Json.renderUnit) ++ "'"
  | .array items => "[" ++ ", ".intercalate (quotedItems items) ++ "]"
  | .object entries => "\x7b" ++ ", ".intercalate (quotedEntries entries) ++ "\x7d"

/-- The items of an array. -/
def quotedItems : List Json → List String
  | [] => []
  | v :: rest => quoted v :: quotedItems rest

/-- The entries of an object. -/
def quotedEntries : List (String × Json) → List String
  | [] => []
  | (key, v) :: rest => (Text.quote key ++ ": " ++ quoted v) :: quotedEntries rest

end

/-- Keeps one entry per key: its first place, its last value. -/
def distinctKeys (entries : List (String × Json)) : List (String × Json) :=
  entries.foldl (fun kept e =>
    if kept.any (·.1 == e.1) then kept.map fun k => if k.1 == e.1 then e else k
    else kept ++ [e]) []

/-- A value on its own: a text stands for itself. -/
def inWords : Json → String
  | .text s => s
  | .object entries => quoted (.object (distinctKeys entries))
  | v => quoted v

/-! ## Tables -/

/-- A table of keys and values. -/
def keyTable (title : String) (rows : List (String × String)) : Table where
  title := title
  columns := [⟨"Key", true⟩, ⟨"Value", false⟩]
  rows := rows.map fun (k, v) => [k, v]
  headed := false
  edges := false

/-- An operand in a table. -/
def operandText : Operand → String
  | .value x => Decimal.figure x
  | .result step => "ref step" ++ toString step

/-- What a step waits for, in a table. -/
def dependencyText (s : Step) : String :=
  if s.dependencies.isEmpty then "-"
  else ", ".intercalate (s.dependencies.map fun d => "step" ++ toString d)

/-- The steps of a plan. -/
def stepTable (steps : List Step) : Table where
  title := "Steps [" ++ toString steps.length ++ "]"
  columns := [⟨"ID", true⟩, ⟨"Operation", true⟩, ⟨"A", false⟩, ⟨"B", false⟩, ⟨"Depends on", true⟩]
  rows := steps.map fun s =>
    ["step" ++ toString s.id, s.operation.name, operandText s.left, operandText s.right,
      dependencyText s]
  headed := true
  edges := true

/-- An expression and its plan in a table. -/
def planTable (expression : String) (tokens : List Token) (plan : Plan) : Table :=
  keyTable "Expression" [
    ("infix", expression),
    ("tokens", " ".intercalate (tokens.map fun t => t.text ++ ":" ++ t.kind.name)),
    ("postfix", plan.postfixText),
    ("steps", toString plan.steps.length)]

/-! ## Responses -/

/-- The response to an expression with the milliseconds that it took, as a text with markup. -/
def responseLine (r : ExpressionResponse) (elapsedMs : Float) : String :=
  let suffix := "  (" ++ Decimal.fixed 1 elapsedMs ++ " ms)"
  match r.outcome with
  | .value x => "[green]= " ++ Decimal.figure x ++ "[/green]" ++ suffix
  | .failed f => "[red]error " ++ f.code.name ++ ":[/red] " ++ f.message ++ suffix

/-- Whether an expression has a value. -/
def isValue (r : ExpressionResponse) : Bool :=
  match r.outcome with
  | .value _ => true
  | .failed _ => false

end Stepwise.Cli
