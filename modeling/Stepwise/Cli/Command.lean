import Stepwise.Cli.Arguments
import Stepwise.Expr.Operation

/-!
# Commands

The commands of the command line and their options.
-/

namespace Stepwise.Cli

/-- How expressions are evaluated. -/
structure EngineChoice where
  deadlineMs : Option Int
  synchronous : Bool
  amqp : Bool
  deriving DecidableEq, Repr

/-- The name of the transport that is chosen. -/
def EngineChoice.transport (c : EngineChoice) : String :=
  if c.amqp then "amqp" else if c.synchronous then "loopback" else "broker"

/-- A command with its options. -/
inductive Command where
  | compile (expression : Option String)
  | evaluate (expression : Option String) (choice : EngineChoice) (url : Option String)
  | converse (choice : EngineChoice)
  | benchmark (expression : Option String) (count window : Int) (choice : EngineChoice)
  | schedule
  /-- Work on one operation, or on all of them. -/
  | work (operation : Option Operation)
  | health (url : Option String)
  deriving DecidableEq, Repr

namespace Command

/-- The option with an expression. -/
def expressionOption : OptionSpec := ⟨"expr", some 'e', .text⟩

/-- The option with the address of a service. -/
def urlOption : OptionSpec := ⟨"url", none, .text⟩

/-- The options that choose an engine. -/
def engineOptions : List OptionSpec :=
  [⟨"deadline-ms", none, .integer⟩, ⟨"sync", none, .flag⟩, ⟨"amqp", none, .flag⟩]

/-- The choice of an engine among the values of options. -/
def engineChoice (values : List (String × OptionValue)) : EngineChoice :=
  ⟨Arguments.integer? values "deadline-ms", Arguments.isOn values "sync",
    Arguments.isOn values "amqp"⟩

/-- The names of what a worker may work on. -/
def workNames : List String := Operation.all.map (·.name) ++ ["all"]

/-- The command with a name. -/
def parseAs (name : String) (arguments : List String) : Except Rejection Command :=
  match name with
  | "compile" =>
    (Arguments.parse [expressionOption] arguments).map fun vs =>
      .compile (Arguments.text? vs "expr")
  | "eval" =>
    (Arguments.parse (expressionOption :: urlOption :: engineOptions) arguments).map fun vs =>
      .evaluate (Arguments.text? vs "expr") (engineChoice vs) (Arguments.text? vs "url")
  | "repl" =>
    (Arguments.parse engineOptions arguments).map fun vs => .converse (engineChoice vs)
  | "bench" =>
    (Arguments.parse (expressionOption :: ⟨"count", some 'n', .integer⟩ ::
      ⟨"concurrency", some 'c', .integer⟩ :: engineOptions) arguments).map fun vs =>
        .benchmark (some ((Arguments.text? vs "expr").getD "((4+3)*2)/5"))
          ((Arguments.integer? vs "count").getD 200)
          ((Arguments.integer? vs "concurrency").getD 10) (engineChoice vs)
  | "dispatcher" => (Arguments.parse [] arguments).map fun _ => .schedule
  | "worker" => do
    let vs ← Arguments.parse [⟨"operation", some 'o', .choice workNames⟩] arguments
    match Arguments.text? vs "operation" with
    | none => .error .usage
    | some s => .ok (.work (Operation.ofName? s))
  | "health" =>
    (Arguments.parse [urlOption] arguments).map fun vs => .health (Arguments.text? vs "url")
  | _ => .error .usage

/-- The command that arguments ask for.  An option that is unknown does not keep a wish for help
from being heard, but it keeps a command from being carried out. -/
def parse : List String → Except Rejection Command
  | [] => .error .usage
  | "--" :: _ => .error .usage
  | name :: rest =>
    match Arguments.role [Arguments.helpOption] name with
    | .ok (.value name) => parseAs name rest
    | .ok (.option (some _) none) => .error .help
    | .ok (.help attached) =>
      .error (if Arguments.isCluster [Arguments.helpOption] false attached then .help else .usage)
    | .ok (.option none _) =>
      match parse rest with
      | .error .help => .error .help
      | _ => .error .usage
    | _ => .error .usage

end Command

end Stepwise.Cli
