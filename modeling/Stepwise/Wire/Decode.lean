import Stepwise.Json.Reader
import Stepwise.Wire.Issue
import Stepwise.Wire.Message

/-!
# Decoding messages

A body is decoded in two stages: its text is read as Json, and the fields are taken from the object
one after the other.  Fields are read generously (a number may come as a text, a truth value as a
number), unknown fields are ignored, and all issues of a message are reported together.
-/

namespace Stepwise

open Stepwise.Text (Body)

namespace Fields

/-- A text. -/
def text : Json → Except IssueKind String
  | .text s => .ok s
  | .unpaired _ => .error .stringUnicode
  | _ => .error .stringType

/-- An integer. -/
def int : Json → Except IssueKind Int
  | .int n => .ok n
  | .bool b => .ok (if b then 1 else 0)
  | .float x =>
    match Decimal.truncate? x with
    | none => .error .finiteNumber
    | some n =>
      if !Decimal.isInteger x then .error .intFromFloat
      else if n.natAbs < Nat.pow 2 63 then .ok n
      else .error .intParsingSize
  | .text s =>
    let cs := Text.trim Text.isSpace s.toList
    if 4300 < cs.length then .error .intParsingSize else
    match Decimal.intOfField? cs with
    | some n => .ok n
    | none => .error .intParsing
  | _ => .error .intType

/-- A float. -/
def float : Json → Except IssueKind Float
  | .float x => .ok x
  | .int n => .ok (Decimal.ofInt n)
  | .bool b => .ok (Decimal.ofInt (if b then 1 else 0))
  | .text s =>
    match Decimal.ofField? s.toList with
    | some x => .ok x
    | none => .error .floatParsing
  | _ => .error .floatType

/-- A name out of a fixed set. -/
def member {α : Type} (ofName? : String → Option α) : Json → Except IssueKind α
  | .text s =>
    match ofName? s with
    | some a => .ok a
    | none => .error .enumMember
  | _ => .error .enumMember

/-- A timestamp. -/
def timestamp : Json → Except IssueKind Timestamp
  | .text s => (Timestamp.ofText? s).elim (.error .datetimeParsing) .ok
  | .int n =>
    if -(Nat.pow 2 63) ≤ n && n < Nat.pow 2 63 then
      (Timestamp.ofUnix? n 0).elim (.error .datetimeParsing) .ok
    else .error .datetimeType
  | .float x => (Timestamp.ofUnixFloat? x).elim (.error .datetimeParsing) .ok
  | _ => .error .datetimeType

/-- An issue of a field becomes an issue at its name. -/
def located {α : Type} (name : String) (r : Except IssueKind α) : Checked α :=
  r.mapError fun kind => [⟨[.field name], kind⟩]

/-- A field that has to be there. -/
def required {α : Type} (entries : List (String × Json)) (name : String)
    (read : Json → Except IssueKind α) : Checked α :=
  match Json.lookup name entries with
  | some v => located name (read v)
  | none => Checked.fail [.field name] .missing

/-- A field that may be missing. -/
def optional {α : Type} (entries : List (String × Json)) (name : String)
    (read : Json → Except IssueKind α) : Checked (Option α) :=
  match Json.lookup name entries with
  | some v => (located name (read v)).map some
  | none => .ok none

/-- Two floats. -/
def operands (entries : List (String × Json)) : Checked (Float × Float) :=
  match Json.lookup "operands" entries with
  | none => Checked.fail [.field "operands"] .missing
  | some (.array items) =>
    let item (n : Nat) : Checked Float :=
      match items[n]? with
      | some v => (float v).mapError fun kind => [⟨[.index n], kind⟩]
      | none => Checked.fail [.index n] .missing
    Checked.within (.field "operands")
      (if 2 < items.length then Checked.fail [] .tooLong else Checked.both (item 0) (item 1))
  | some _ => Checked.fail [.field "operands"] .tupleType

/-- A number under `result`; null counts as absent. -/
def result (entries : List (String × Json)) : Checked (Option Float) :=
  match Json.lookup "result" entries with
  | none | some .null => .ok none
  | some v => (located "result" (float v)).map some

/-- A failure under `error`; null counts as absent. -/
def failure (entries : List (String × Json)) : Checked (Option Failure) :=
  match Json.lookup "error" entries with
  | none | some .null => .ok none
  | some (.object fields) =>
    Checked.within (.field "error")
      ((Checked.both (required fields "code" (member ErrorCode.ofName?))
        (required fields "message" text)).map fun p => some ⟨p.1, p.2⟩)
  | some _ => Checked.fail [.field "error"] .modelType

/-- Exactly one of a number and a failure makes an outcome. -/
def outcome : Option Float → Option Failure → Checked Outcome
  | some x, none => .ok (.value x)
  | none, some f => .ok (.failed f)
  | _, _ => Checked.fail [] .valueError

end Fields

/-! ## The messages -/

open Fields

/-- The entries of a body that is an object. -/
def entriesOf (body : Body) : Checked (List (String × Json)) :=
  match (Text.decode? body).map (Json.read Json.wire) with
  | some (.ok (.object entries)) => .ok entries
  | some (.ok _) => Checked.fail [] .modelType
  | _ => Checked.fail [] .jsonInvalid

/-- The deadline of a request that names none. -/
def standardDeadlineMs : Int := 30000

/-- A decoded expression request that may lack an id, or the issues of the body.  The flag tells
whether the body had an object without an id. -/
def ExpressionRequest.decode (body : Body) (freshId : String) :
    Checked ExpressionRequest × Bool :=
  match entriesOf body with
  | .error issues => (.error issues, false)
  | .ok entries =>
    let id := optional entries "expression_id" text
    let checked := Checked.both id
      (Checked.both (required entries "expression" text) (optional entries "deadline_ms" int))
    (checked.map fun (id, expression, deadline) =>
      ⟨id.getD freshId, expression, deadline.getD standardDeadlineMs⟩,
      (Json.lookup "expression_id" entries).isNone)

/-- The expression response in the entries of an object. -/
def ExpressionResponse.ofEntries (entries : List (String × Json)) : Checked ExpressionResponse :=
  match Checked.both (required entries "expression_id" text)
      (Checked.both (result entries) (Fields.failure entries)) with
  | .error issues => .error issues
  | .ok (id, x, f) => (Fields.outcome x f).map fun o => ⟨id, o⟩

/-- The expression response in a body. -/
def ExpressionResponse.decode (body : Body) : Checked ExpressionResponse :=
  match entriesOf body with
  | .error issues => .error issues
  | .ok entries => ofEntries entries

/-- The expression response in a Json value. -/
def ExpressionResponse.ofJson : Json → Checked ExpressionResponse
  | .object entries => ofEntries entries
  | _ => Checked.fail [] .modelType

/-- The step request in a body; one without a time was issued now. -/
def StepRequest.decode (body : Body) (now : Timestamp) : Checked StepRequest :=
  match entriesOf body with
  | .error issues => .error issues
  | .ok entries =>
    (Checked.both (required entries "expression_id" text)
      (Checked.both (required entries "step_id" int)
        (Checked.both (required entries "operation" (member Operation.ofName?))
          (Checked.both (operands entries)
            (Checked.both (required entries "deadline_ms" int)
              (optional entries "issued_at" timestamp)))))).map
      fun (id, step, operation, (left, right), deadline, issued) =>
        ⟨id, step, operation, left, right, deadline, issued.getD now⟩

/-- The step response in a body. -/
def StepResponse.decode (body : Body) : Checked StepResponse :=
  match entriesOf body with
  | .error issues => .error issues
  | .ok entries =>
    match Checked.both (required entries "expression_id" text)
        (Checked.both (required entries "step_id" int)
          (Checked.both (result entries) (Fields.failure entries))) with
    | .error issues => .error issues
    | .ok (id, step, x, f) => (Fields.outcome x f).map fun o => ⟨id, step, o⟩

/-! ## A glance at the id -/

/-- An expression id as a damaged message may hold it. -/
inductive GlancedId where
  | text (id : String)
  | unpaired (units : List Nat)
  deriving DecidableEq, Repr

/-- The expression id of a body that is a Json object in any encoding, whatever else is wrong with
it. -/
def glanceId? (body : Body) : Option GlancedId :=
  match (Text.decodeAny? body).map (Json.read Json.lenient) with
  | some (.ok v) =>
    match v.get? "expression_id" with
    | some (.text s) => some (.text s)
    | some (.unpaired units) => some (.unpaired units)
    | _ => none
  | _ => none

end Stepwise
