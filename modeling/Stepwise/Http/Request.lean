import Stepwise.Json.Reader
import Stepwise.Text.Blank
import Stepwise.Wire.Decode

/-!
# Requests over Http

What the service is asked: the route of a request, and the fields of its body.
-/

namespace Stepwise.Http

open Stepwise.Text (Body)

/-- A request.  A request without a body has an empty one. -/
structure Request where
  method : String
  path : String
  /-- The media type of the body, if it is named.  An empty name is no name. -/
  contentType : Option String
  body : Body

/-- What the service can do. -/
inductive Route where
  | evaluate
  | compile
  | health
  deriving DecidableEq, Repr

namespace Route

/-- The path of a route. -/
def path : Route → String
  | evaluate => "/evaluate"
  | compile => "/compile"
  | health => "/health"

/-- The one method that a route answers. -/
def method : Route → String
  | evaluate | compile => "POST"
  | health => "GET"

/-- The route at a path.  One slash more at the end leads to the same route. -/
def ofPath? (path : String) : Option Route :=
  [evaluate, compile, health].find? fun r => r.path == path || r.path ++ "/" == path

end Route

/-- The path of a target: what stands before the query. -/
def pathOf (target : String) : String :=
  String.ofList (target.toList.takeWhile fun c => c != '?' && c != '#')

/-- Whether a media type is that of Json: a subtype of `application` that is `json` or ends in
`+json`. -/
def isJsonType (contentType : String) : Bool :=
  let media := Text.trim Text.isSpace
    ((contentType.toList.takeWhile (· != ';')).map Char.toLower)
  let kind := media.takeWhile (· != '/')
  let subtype := (media.dropWhile (· != '/')).drop 1
  kind == "application".toList && !subtype.contains '/' &&
    (subtype == "json".toList || "+json".toList.reverse.isPrefixOf subtype.reverse)

/-- Why the body of a request cannot be used. -/
inductive BodyFault where
  /-- The bytes are no text. -/
  | unreadable
  | issues (is : List Issue)

/-- The fields in the body of a request. -/
def Request.fields (r : Request) : Except BodyFault (List (String × Json)) :=
  if r.body.isEmpty then .error (.issues [⟨[.field "body"], .missing⟩]) else
  if r.contentType.any fun t => !t.isEmpty && !isJsonType t then
    .error (.issues [⟨[.field "body"], .attributesType⟩])
  else
    match Text.decodeAny? r.body with
    | none => .error .unreadable
    | some text =>
      match Json.read Json.lenient text with
      | .error position => .error (.issues [⟨[.field "body", .index position], .jsonInvalid⟩])
      | .ok (.object entries) => .ok entries
      | .ok _ => .error (.issues [⟨[.field "body"], .attributesType⟩])

/-- Asks for the value of an expression. -/
structure EvaluateRequest where
  expression : String
  deadlineMs : Option Int
  deriving DecidableEq, Repr

/-- A time that has to be positive; null counts as absent. -/
def positive : Json → Except IssueKind (Option Int)
  | .null => .ok none
  | v =>
    match Fields.int v with
    | .error kind => .error kind
    | .ok n => if 0 < n then .ok (some n) else .error .greaterThan

/-- An evaluation from the fields of a body. -/
def EvaluateRequest.ofFields (entries : List (String × Json)) : Checked EvaluateRequest :=
  Checked.within (.field "body")
    ((Checked.both (Fields.required entries "expression" Fields.text)
      (Fields.optional entries "deadline_ms" positive)).map
        fun (expression, deadline) => ⟨expression, deadline.join⟩)

/-- The expression to compile from the fields of a body. -/
def expressionOf (entries : List (String × Json)) : Checked String :=
  Checked.within (.field "body") (Fields.required entries "expression" Fields.text)

end Stepwise.Http
