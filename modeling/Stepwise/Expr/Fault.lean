import Stepwise.Expr.Token
import Stepwise.Text.Quoted

/-!
# Faults of expressions

The reasons for which an expression has no plan, and the text of each.
-/

namespace Stepwise

/-- Why a token list or an expression cannot be compiled.  The last two arise only for token lists
that no tokenizer produced. -/
inductive CompileFault where
  | empty
  | strayCharacter (fault : StrayCharacter)
  | unbalanced
  | missingOperand (operator : String)
  | outOfRange (number : String)
  | leftOver (values : Nat)
  | unknownOperator (text : String)
  | notANumber (text : String)
  deriving DecidableEq, Repr

/-- The text of a fault. -/
def CompileFault.message : CompileFault → String
  | empty => "empty expression"
  | strayCharacter f =>
    "invalid character " ++ Text.quote f.char.toString ++ " at position " ++ toString f.position
  | unbalanced => "unbalanced parentheses"
  | missingOperand op => "operator " ++ Text.quote op ++ " is missing an operand"
  | outOfRange n => "number out of range: " ++ String.ofList (n.toList.take 20) ++ "..."
  | leftOver n => toString n ++ " values left without an operator"
  | unknownOperator t => "unknown operator: " ++ t
  | notANumber t => "not a number: " ++ t

end Stepwise
