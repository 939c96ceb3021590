import Stepwise.Expr.Fault
import Stepwise.Expr.Operation

/-!
# Postfix order

`toPostfix` brings tokens from infix to postfix order with a stack of waiting operators and open
parentheses.  An operator first sends out the waiting operators that bind at least as tightly, so
operators of one precedence associate to the left.  It checks nothing but the balance of the
parentheses.
-/

namespace Stepwise.Token

/-- How tightly the operator of a token binds. -/
def precedence? (t : Token) : Option Nat :=
  (Operation.ofSymbol? t.text).map (·.precedence)

/-- Whether a waiting token leaves the stack before an operator of a precedence enters it. -/
def yields (precedence : Nat) (waiting : Token) : Bool :=
  waiting.kind == .operator && decide (precedence ≤ waiting.precedence?.getD 0)

/-- Sends out what waits above the last open parenthesis, which is dropped. -/
def closeParen : List Token → Except CompileFault (List Token × List Token)
  | [] => .error .unbalanced
  | t :: stack =>
    if t.kind == .leftParen then .ok ([], stack)
    else (closeParen stack).map fun r => (t :: r.1, r.2)

/-- Sends out everything that waits, the top first. -/
def flush : List Token → Except CompileFault (List Token)
  | [] => .ok []
  | t :: stack =>
    if t.kind == .leftParen then .error .unbalanced
    else (flush stack).map (t :: ·)

/-- The postfix order of tokens that come after the ones waiting on the stack. -/
def reorder (stack : List Token) : List Token → Except CompileFault (List Token)
  | [] => flush stack
  | t :: rest =>
    match t.kind with
    | .number => (reorder stack rest).map (t :: ·)
    | .operator =>
      match t.precedence? with
      | none => .error (.unknownOperator t.text)
      | some p =>
        (reorder (t :: stack.dropWhile (yields p)) rest).map (stack.takeWhile (yields p) ++ ·)
    | .leftParen => reorder (t :: stack) rest
    | .rightParen =>
      match closeParen stack with
      | .error fault => .error fault
      | .ok (out, stack) => (reorder stack rest).map (out ++ ·)

/-- The postfix order of the tokens of an infix expression. -/
def toPostfix (tokens : List Token) : Except CompileFault (List Token) :=
  reorder [] tokens

end Stepwise.Token
