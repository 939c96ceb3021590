import Stepwise.Http.Request
import Stepwise.Service.Installation

/-!
# The service over Http

`answer` is what the service does with a request: it evaluates an expression on an installation
over a broker, shows the plan of an expression, or tells how the installation is doing.
-/

namespace Stepwise.Http

/-- What a response says. -/
inductive Content where
  | value (j : Json)
  | detail (text : String)
  | issues (is : List Issue)

/-- A response. -/
structure Response where
  status : Nat
  content : Content

/-- The status of a response to an expression that failed. -/
def statusOf : ErrorCode → Nat
  | .parseError => 400
  | .deadlineExceeded => 504
  | .internalError => 500
  | _ => 422

/-- The response to an evaluation. -/
def ofResponse (r : ExpressionResponse) : Response :=
  match r.outcome with
  | .value _ => ⟨200, .value r.toJson⟩
  | .failed f => ⟨statusOf f.code, .value r.toJson⟩

/-- An operand as people read it. -/
def operandView : Operand → Json
  | .value x => .float x
  | .result step => .text ("ref step" ++ toString step)

/-- A step as people read it. -/
def stepView (s : Step) : Json :=
  .object [("step_id", .int s.id), ("operation", .text s.operation.name),
    ("operands", .array [operandView s.left, operandView s.right]),
    ("depends_on", .array (s.dependencies.map .int))]

/-- The response to a compilation. -/
def compiled (expression : String) : Response :=
  match Plan.compile expression with
  | .error fault => ⟨400, .detail ("Parse error: " ++ fault.message)⟩
  | .ok plan =>
    ⟨200, .value (.object [("expression", .text expression), ("postfix", .text plan.postfixText),
      ("steps", .array (plan.steps.map stepView)), ("literal", plan.literal.elim .null .float)])⟩

/-- How an installation is doing. -/
def healthOf (settings : Settings) (i : Installation) : Response :=
  ⟨200, .value (.object [("status", .text "ok"),
    ("pending_expressions", .int i.scheduler.pendingCount),
    ("waiting_clients", .int i.client.waitingCount), ("version", .text settings.appVersion),
    ("contracts_version", .text messageVersion)])⟩

/-- The response to a request whose body cannot be used. -/
def refused : BodyFault → Response
  | .unreadable => ⟨400, .detail "There was an error parsing the body"⟩
  | .issues is => ⟨422, .issues is⟩

/-- The response to a request, and the installation afterwards.  No response means that a fault
stopped the service. -/
def answer (settings : Settings) (clock : Int) (r : Request) (site : Installation.Queued.Site) :
    Option (Except Fault Response × Installation.Queued.Site) :=
  match Route.ofPath? (pathOf r.path) with
  | none => some (.ok ⟨404, .detail "Not Found"⟩, site)
  | some route =>
    if route.method ≠ r.method then some (.ok ⟨405, .detail "Method Not Allowed"⟩, site) else
    match route with
    | .health => some (.ok (healthOf settings site.state), site)
    | .compile =>
      match r.fields with
      | .error fault => some (.ok (refused fault), site)
      | .ok entries =>
        match expressionOf entries with
        | .error is => some (.ok (refused (.issues is)), site)
        | .ok expression => some (.ok (compiled expression), site)
    | .evaluate =>
      match r.fields with
      | .error fault => some (.ok (refused fault), site)
      | .ok entries =>
        match EvaluateRequest.ofFields entries with
        | .error is => some (.ok (refused (.issues is)), site)
        | .ok e =>
          (Installation.Queued.evaluate settings clock e.expression e.deadlineMs site).map
            fun (response, site) => (response.map ofResponse, site)

end Stepwise.Http
