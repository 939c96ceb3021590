/-!
# Operations

The four binary operations, each with the name it has in messages and the symbol it has in
expressions.
-/

namespace Stepwise

/-- A binary operation of arithmetic. -/
inductive Operation where
  | add
  | subtract
  | multiply
  | divide
  deriving DecidableEq, Repr, Inhabited

namespace Operation

/-- Every operation, in the order in which they are listed. -/
def all : List Operation := [.add, .subtract, .multiply, .divide]

/-- The name of an operation in messages. -/
def name : Operation → String
  | add => "add"
  | subtract => "subtract"
  | multiply => "multiply"
  | divide => "divide"

/-- The symbol of an operation in expressions. -/
def symbol : Operation → String
  | add => "+"
  | subtract => "-"
  | multiply => "*"
  | divide => "/"

/-- The operation with a name. -/
def ofName? (s : String) : Option Operation :=
  all.find? (·.name == s)

/-- The operation with a symbol. -/
def ofSymbol? (s : String) : Option Operation :=
  all.find? (·.symbol == s)

/-- Products and quotients bind tighter than sums and differences. -/
def precedence : Operation → Nat
  | add | subtract => 1
  | multiply | divide => 2

theorem ofName?_name (op : Operation) : ofName? op.name = some op := by
  cases op <;> decide

theorem ofSymbol?_symbol (op : Operation) : ofSymbol? op.symbol = some op := by
  cases op <;> decide

end Operation

end Stepwise
