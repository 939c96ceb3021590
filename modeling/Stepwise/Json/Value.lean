/-!
# Json values

A value as it stands in a text: integers of any size and floats are told apart, an object keeps
its entries in order with repeated keys, and a text with unpaired surrogates, which no `String`
holds, has a constructor of its own.
-/

namespace Stepwise

/-- A Json value. -/
inductive Json where
  | null
  | bool (b : Bool)
  | int (n : Int)
  | float (x : Float)
  | text (s : String)
  | unpaired (units : List Nat)
  | array (items : List Json)
  | object (entries : List (String × Json))
  deriving Inhabited

namespace Json

/-- The value of the last entry with a key. -/
def lookup (key : String) (entries : List (String × Json)) : Option Json :=
  entries.foldl (fun found entry => if entry.1 == key then some entry.2 else found) none

/-- The value under a key of an object. -/
def get? (key : String) : Json → Option Json
  | .object entries => lookup key entries
  | _ => none

end Json

end Stepwise
