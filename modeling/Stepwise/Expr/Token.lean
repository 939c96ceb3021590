import Stepwise.Text.Blank
import Stepwise.Text.Digit

/-!
# Tokens

`tokenize` splits the blank-free text of an expression.  At each position it takes the longest
number, which is digits with at most one point and at least one digit, and else one of the
operators and parentheses.
-/

namespace Stepwise

open Stepwise.Text

/-- What a token is. -/
inductive TokenKind where
  | number
  | operator
  | leftParen
  | rightParen
  deriving DecidableEq, Repr, Inhabited

/-- The name of a kind of token. -/
def TokenKind.name : TokenKind → String
  | number => "number"
  | operator => "operator"
  | leftParen => "left_paren"
  | rightParen => "right_paren"

/-- The kind with a name. -/
def TokenKind.ofName? (s : String) : Option TokenKind :=
  [TokenKind.number, .operator, .leftParen, .rightParen].find? (·.name == s)

/-- A piece of an expression. -/
structure Token where
  kind : TokenKind
  text : String
  deriving DecidableEq, Repr, Inhabited

/-- A character that starts no token, and its position in the blank-free text. -/
structure StrayCharacter where
  char : Char
  position : Nat
  deriving DecidableEq, Repr

namespace Token

/-- The kind of a token of one character. -/
def singleKind? (c : Char) : Option TokenKind :=
  if c == '+' || c == '-' || c == '*' || c == '/' then some .operator
  else if c == '(' then some .leftParen
  else if c == ')' then some .rightParen
  else none

/-- The longest number at the head of a text, and what follows it. -/
def splitNumber (cs : List Char) : List Char × List Char :=
  match cs.takeWhile isDigit, cs.dropWhile isDigit with
  | [], '.' :: rest =>
    match rest.takeWhile isDigit with
    | [] => ([], cs)
    | fraction => ('.' :: fraction, rest.dropWhile isDigit)
  | [], _ => ([], cs)
  | whole, '.' :: rest => (whole ++ '.' :: rest.takeWhile isDigit, rest.dropWhile isDigit)
  | whole, rest => (whole, rest)

theorem splitNumber_append (cs : List Char) :
    (splitNumber cs).1 ++ (splitNumber cs).2 = cs := by
  have whole := List.takeWhile_append_dropWhile (p := isDigit) (l := cs)
  unfold splitNumber
  split
  · rename_i rest h1 h2
    have fraction := List.takeWhile_append_dropWhile (p := isDigit) (l := rest)
    rw [h1, h2] at whole
    split
    · rfl
    · rename_i ds _ _
      rw [← whole]
      simp only [List.nil_append, List.cons_append, List.cons.injEq, true_and]
      exact fraction
  · rfl
  · rename_i rest h1 _
    have fraction := List.takeWhile_append_dropWhile (p := isDigit) (l := rest)
    rw [h1] at whole
    simp only [List.append_assoc, List.cons_append, fraction]
    exact whole
  · exact whole

/-- The tokens of a text whose head stands at a position. -/
def scan (position : Nat) (cs : List Char) : Except StrayCharacter (List Token) :=
  match cs with
  | [] => .ok []
  | c :: rest =>
    match h : splitNumber (c :: rest) with
    | ([], _) =>
      match singleKind? c with
      | none => .error ⟨c, position⟩
      | some kind => (scan (position + 1) rest).map (⟨kind, c.toString⟩ :: ·)
    | (d :: number, after) =>
      (scan (position + number.length + 1) after).map
        (⟨.number, String.ofList (d :: number)⟩ :: ·)
termination_by cs.length
decreasing_by
  · simp
  · have := congrArg List.length (splitNumber_append (c :: rest))
    rw [h] at this
    simp only [List.length_append, List.length_cons] at this ⊢
    omega

/-- The tokens of an expression. -/
def tokenize (text : String) : Except StrayCharacter (List Token) :=
  scan 0 (withoutBlanks text)

end Token

end Stepwise
