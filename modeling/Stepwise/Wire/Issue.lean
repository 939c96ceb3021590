/-!
# Issues of a message

What is wrong with a message that cannot be decoded: a list of issues, each with the place in the
message where it was found.
-/

namespace Stepwise

/-- A step on the way to a part of a message. -/
inductive Place where
  | field (name : String)
  | index (n : Nat)
  deriving DecidableEq, Repr

/-- What is wrong at a place. -/
inductive IssueKind where
  | jsonInvalid
  | modelType
  | attributesType
  | missing
  | stringType
  | stringUnicode
  | intType
  | intFromFloat
  | intParsing
  | intParsingSize
  | finiteNumber
  | floatType
  | floatParsing
  | enumMember
  | tupleType
  | tooLong
  | datetimeType
  | datetimeParsing
  | greaterThan
  | valueError
  deriving DecidableEq, Repr

/-- The name of a kind of issue in reports. -/
def IssueKind.name : IssueKind → String
  | jsonInvalid => "json_invalid"
  | modelType => "model_type"
  | attributesType => "model_attributes_type"
  | missing => "missing"
  | stringType => "string_type"
  | stringUnicode => "string_unicode"
  | intType => "int_type"
  | intFromFloat => "int_from_float"
  | intParsing => "int_parsing"
  | intParsingSize => "int_parsing_size"
  | finiteNumber => "finite_number"
  | floatType => "float_type"
  | floatParsing => "float_parsing"
  | enumMember => "enum"
  | tupleType => "tuple_type"
  | tooLong => "too_long"
  | datetimeType => "datetime_type"
  | datetimeParsing => "datetime_parsing"
  | greaterThan => "greater_than"
  | valueError => "value_error"

/-- An issue and where it stands. -/
structure Issue where
  location : List Place
  kind : IssueKind
  deriving DecidableEq, Repr

/-- A value, or the issues that stand against it. -/
abbrev Checked (α : Type) := Except (List Issue) α

namespace Checked

/-- One issue at a place. -/
def fail {α : Type} (location : List Place) (kind : IssueKind) : Checked α :=
  .error [⟨location, kind⟩]

/-- Two checks side by side: the issues of both are reported, in order. -/
def both {α β : Type} (a : Checked α) (b : Checked β) : Checked (α × β) :=
  match a, b with
  | .ok x, .ok y => .ok (x, y)
  | .ok _, .error issues => .error issues
  | .error issues, .ok _ => .error issues
  | .error first, .error second => .error (first ++ second)

/-- The issues of a check seen from outside a part. -/
def within {α : Type} (place : Place) (a : Checked α) : Checked α :=
  a.mapError fun issues => issues.map fun i => { i with location := place :: i.location }

end Checked

end Stepwise
