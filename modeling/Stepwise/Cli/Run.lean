import Stepwise.Cli.Benchmark
import Stepwise.Cli.Command
import Stepwise.Cli.Host

/-!
# Running commands

`run` carries out a command on a host.  It prints what the command has to say and tells how the
command ends.
-/

namespace Stepwise.Cli

open Stepwise (Installation)

variable {m : Type → Type} [Monad m]

/-- Prints an explanation and ends with a failure. -/
def refuse (h : Host m) (text : String) : m Ending := do
  h.err (text ++ "\n")
  return .exited 1

/-- Prints a text with markup. -/
def print (h : Host m) (text : String) : m (Except Escape Unit) :=
  match printed? text with
  | some s => do
    h.out s
    return .ok ()
  | none => return .error .mismatchedMarkup

/-- Prints a table. -/
def printTable (h : Host m) (t : Table) : m (Except Escape Unit) :=
  match t.render? with
  | some s => do
    h.out s
    return .ok ()
  | none => return .error .mismatchedMarkup

/-- The ending after something was printed. -/
def endWith (ending : Ending) : Except Escape Unit → Ending
  | .ok () => ending
  | .error e => .failed e

/-- Goes on with an expression: the given one, or the input. -/
def withExpression (h : Host m) (given : Option String) (next : String → m Ending) : m Ending := do
  let text ← match given with
    | some s =>
      if s.isEmpty then h.readAll else pure s
    | none => h.readAll
  let text := match given with
    | some s => if s.isEmpty then stripped text else text
    | none => stripped text
  if text.isEmpty then refuse h "Błąd: podaj wyrażenie przez --expr lub stdin" else next text
where
  /-- A text without the blanks around it. -/
  stripped (s : String) : String := String.ofList (Text.trim Text.isSpace s.toList)

/-- The milliseconds between two times in seconds. -/
def elapsedMs (first last : Float) : Float := (last - first) * Decimal.ofInt 1000

/-! ## Plans -/

/-- Shows the plan of an expression. -/
def compile (h : Host m) (expression : String) : m Ending := do
  match Plan.compile expression, Token.tokenize expression with
  | .error fault, _ => refuse h ("Błąd parsowania: " ++ fault.message)
  | .ok plan, tokens =>
    match ← printTable h (planTable expression (tokens.toOption.getD []) plan) with
    | .error e => return .failed e
    | .ok () =>
      if !plan.steps.isEmpty then
        return endWith .returned (← printTable h (stepTable plan.steps))
      else
        h.out ("Literał: " ++ plan.literal.elim "" Decimal.figure ++ "\n")
        return .returned

/-! ## Values -/

/-- A URL without the slashes at its end. -/
def baseOf (url : String) : String :=
  String.ofList (url.toList.reverse.dropWhile (· == '/')).reverse

/-- What a service is asked for the value of an expression, unless the deadline is out of range. -/
def evaluationCall? (url expression : String) (deadlineMs : Option Int) : Option Call :=
  let deadline := match deadlineMs with
    | none | some 0 => 30000
    | some n => n
  (Decimal.ofInt? deadline).map fun ms =>
    { method := "POST"
      url := baseOf url ++ "/evaluate"
      json := some (.object (("expression", .text expression) ::
        (deadlineMs.elim [] fun n => [("deadline_ms", .int n)])))
      timeout := ms / Decimal.ofInt 1000 + Decimal.ofInt 5 }

/-- The text of a status that tells of a failure. -/
def failedStatus? (status : Nat) : Option String :=
  if 400 ≤ status then some ("HTTP " ++ toString status) else none

/-- The response in the answer of a service: otherwise the cause of a failed call, or what is
wrong with the answer. -/
def responseOf (status : Nat) (text : String) :
    Except (String ⊕ Escape) ExpressionResponse :=
  let found : Except Escape ExpressionResponse :=
    match Json.read Json.lenient text with
    | .error _ => .error .notJson
    | .ok j => (ExpressionResponse.ofJson j).mapError .invalid
  match found, failedStatus? status with
  | .ok r, _ => .ok r
  | .error _, some cause => .error (.inl cause)
  | .error e, none => .error (.inr e)

/-- Prints a response and ends with the code that goes with it. -/
def conclude (h : Host m) (r : ExpressionResponse) (elapsed : Float) : m Ending := do
  return endWith (.exited (if isValue r then 0 else 2)) (← print h (responseLine r elapsed))

/-- Has an expression evaluated by a service. -/
def evaluateRemotely (h : Host m) (url expression : String) (deadlineMs : Option Int) :
    m Ending := do
  let first ← h.seconds
  match evaluationCall? url expression deadlineMs with
  | none => return .failed (.fault .outOfRange)
  | some call =>
    let unreachable (cause : String) : m Ending :=
      refuse h ("Błąd połączenia z API: " ++ cause)
    match ← h.call call with
    | .unreachable cause => unreachable cause
    | .answered status text =>
      match responseOf status text with
      | .error (.inl cause) => unreachable cause
      | .error (.inr e) => return .failed e
      | .ok r => conclude h r (elapsedMs first (← h.seconds))

/-- Opens an engine, unless the message server cannot be reached. -/
def withEngine (h : Host m) (settings : Settings) (choice : EngineChoice)
    (next : Installation.Engine → m Ending) : m Ending := do
  let id ← h.clientId
  if choice.amqp then
    match ← h.reach settings with
    | .error refusal => refuse h ("Błąd połączenia z RabbitMQ: " ++ refusal.message)
    | .ok () => next (.opened settings false id)
  else next (.opened settings choice.synchronous id)

/-- Evaluates an expression and goes on with the response and the time it took. -/
def measured (h : Host m) (settings : Settings) (choice : EngineChoice) (expression : String)
    (engine : Installation.Engine)
    (next : ExpressionResponse → Float → Installation.Engine → m Ending) : m Ending := do
  let first ← h.seconds
  match engine.evaluate settings (← h.now) expression choice.deadlineMs with
  | none => return .failed .endless
  | some (.error fault, _) => return .failed (.fault fault)
  | some (.ok r, engine) => next r (elapsedMs first (← h.seconds)) engine

/-- Evaluates one expression. -/
def evaluate (h : Host m) (settings : Settings) (choice : EngineChoice) (expression : String) :
    m Ending :=
  withEngine h settings choice fun engine =>
    measured h settings choice expression engine fun r elapsed _ => conclude h r elapsed

/-! ## Conversations -/

/-- The words that end a conversation. -/
def farewells : List String := ["exit", "quit", "sair"]

/-- Reads expressions line by line, at most so many, and answers each. -/
def converseWith (h : Host m) (settings : Settings) (choice : EngineChoice) :
    Nat → Installation.Engine → m Ending
  | 0, _ => return .returned
  | lines + 1, engine => do
    h.out "> "
    match ← h.readLine with
    | none => return .returned
    | some line =>
      let cs := Text.trim Text.isSpace line.toList
      if cs.isEmpty then converseWith h settings choice lines engine
      else if farewells.contains (String.ofList (cs.map Char.toLower)) then return .returned
      else
        measured h settings choice (String.ofList cs) engine fun r elapsed engine => do
          match ← print h (responseLine r elapsed) with
          | .error e => return .failed e
          | .ok () => converseWith h settings choice lines engine

/-- Holds a conversation. -/
def converse (h : Host m) (settings : Settings) (choice : EngineChoice) (lines : Nat) :
    m Ending :=
  withEngine h settings choice fun engine => do
    h.out ("[" ++ engine.installation.client.clientId ++
      "] Wpisz wyrażenie (lub 'exit' aby zakończyć).\n")
    h.out "Przykłady: ((4+3)*2)/5, 10+20*3, (15-5)/2\n"
    converseWith h settings choice lines engine

/-! ## Benchmarks -/

/-- A benchmark under way. -/
structure Progress where
  engine : Installation.Engine
  errors : Nat
  /-- The latencies so far, the last one first. -/
  latencies : List Float

/-- Sends a window of expressions; gives the tickets and the times at which they were sent. -/
def sendWindow (h : Host m) (settings : Settings) (expression : String)
    (deadlineMs : Option Int) :
    Nat → Installation.Engine → m (Except Escape (List (Float × Ticket) × Installation.Engine))
  | 0, engine => return .ok ([], engine)
  | n + 1, engine => do
    let first ← h.seconds
    match engine.send settings (← h.now) expression deadlineMs with
    | none => return .error .endless
    | some (.error fault, _) => return .error (.fault fault)
    | some (.ok t, engine) =>
      match ← sendWindow h settings expression deadlineMs n engine with
      | .error e => return .error e
      | .ok (ts, engine) => return .ok ((first, t) :: ts, engine)

/-- Waits for the tickets of a window. -/
def waitWindow (h : Host m) (settings : Settings) :
    List (Float × Ticket) → Progress → m (Except Escape Progress)
  | [], p => return .ok p
  | (first, t) :: rest, p => do
    match p.engine.wait settings (← h.now) t with
    | none => return .error .endless
    | some (.error fault, _) => return .error (.fault fault)
    | some (.ok r, engine) =>
      let last ← h.seconds
      waitWindow h settings rest
        ⟨engine, if isValue r then p.errors else p.errors + 1,
          elapsedMs first last :: p.latencies⟩

/-- Works through the windows. -/
def runWindows (h : Host m) (settings : Settings) (expression : String)
    (deadlineMs : Option Int) : List Nat → Progress → m (Except Escape Progress)
  | [], p => return .ok p
  | n :: rest, p => do
    match ← sendWindow h settings expression deadlineMs n p.engine with
    | .error e => return .error e
    | .ok (tickets, engine) =>
      match ← waitWindow h settings tickets { p with engine } with
      | .error e => return .error e
      | .ok p => runWindows h settings expression deadlineMs rest p

/-- Measures how long an expression takes. -/
def benchmark (h : Host m) (settings : Settings) (choice : EngineChoice) (expression : String)
    (count window : Int) : m Ending :=
  withEngine h settings choice fun engine => do
    let first ← h.seconds
    match Benchmark.windows? count window with
    | none => return .failed .endless
    | some sizes =>
      match ← runWindows h settings expression choice.deadlineMs sizes ⟨engine, 0, []⟩ with
      | .error e => return .failed e
      | .ok p =>
        let last ← h.seconds
        let result : Benchmark.Result :=
          { expression, count
            transport := choice.transport
            errors := p.errors
            total := last - first
            latencies := p.latencies.reverse }
        return endWith .returned (← printTable h result.table)

/-! ## Components -/

/-- Runs a component until it is interrupted. -/
def serve (h : Host m) (settings : Settings) (greeting : Except Fault String)
    (start : Routine Installation Role Unit) : m Ending := do
  match ← h.reach settings with
  | .error refusal => refuse h ("Błąd połączenia z RabbitMQ: " ++ refusal.message)
  | .ok () =>
    match greeting with
    | .error fault => return .failed (.fault fault)
    | .ok text =>
      h.out (text ++ ". Ctrl+C kończy.\n")
      h.serve ⟨start, settings⟩
      h.out "Zatrzymywanie...\n"
      return .returned

/-- Runs a scheduler. -/
def schedule (h : Host m) (settings : Settings) : m Ending :=
  serve h settings
    (.ok ("Dispatcher: " ++ settings.requestQueue ++ " → operacje → " ++ settings.responseQueue))
    (Scheduler.start settings .results .requests)

/-- The queues of operations, unless one has none. -/
def queuesOf (settings : Settings) :
    List Operation → Except Fault (List (Operation × String))
  | [] => .ok []
  | op :: rest =>
    match settings.queueOf? op with
    | none => .error (.unmapped op.name)
    | some queue => (queuesOf settings rest).map ((op, queue) :: ·)

/-- Runs workers. -/
def work (h : Host m) (settings : Settings) (operations : List Operation) : m Ending :=
  let queues := queuesOf settings operations
  serve h settings (queues.map fun qs => "Workery: " ++ ", ".intercalate (qs.map (·.2)))
    (Installation.startWorkers (queues.toOption.getD []))

/-! ## Health -/

/-- The values of a service's report that are shown. -/
def healthTable (url : String) (entries : List (String × Json)) : Table :=
  let shown (key : String) : String := inWords ((Json.lookup key entries).getD .null)
  keyTable "Health" [("status", shown "status"), ("api", url),
    ("pending", shown "pending_expressions"), ("version", shown "version")]

/-- Asks a service how it is doing. -/
def health (h : Host m) (settings : Settings) (url : Option String) : m Ending := do
  let base := baseOf (match url with
    | some s => if s.isEmpty then settings.apiUrl else s
    | none => settings.apiUrl)
  let unreachable (cause : String) : m Ending := do
    h.err "status:  error\n"
    h.err ("api:     " ++ cause ++ "\n")
    return .exited 1
  match ← h.call ⟨"GET", base ++ "/health", none, Decimal.ofInt 5⟩ with
  | .unreachable cause => unreachable cause
  | .answered status text =>
    match failedStatus? status with
    | some cause => unreachable cause
    | none =>
      match Json.read Json.lenient text with
      | .error _ => return .failed .notJson
      | .ok (.object entries) =>
        return endWith .returned (← printTable h (healthTable base entries))
      | .ok _ => return .failed .notAnObject

/-! ## All commands -/

/-- Carries out a command; a conversation has at most so many lines. -/
def run (h : Host m) (settings : Settings) (lines : Nat) : Command → m Ending
  | .compile expression => withExpression h expression (compile h)
  | .evaluate expression choice url =>
    withExpression h expression fun text =>
      match url with
      | some u =>
        if u.isEmpty then evaluate h settings choice text
        else evaluateRemotely h u text choice.deadlineMs
      | none => evaluate h settings choice text
  | .converse choice => converse h settings choice lines
  | .benchmark expression count window choice =>
    withExpression h expression fun text => benchmark h settings choice text count window
  | .schedule => schedule h settings
  | .work operation => work h settings (operation.elim Operation.all ([·]))
  | .health url => health h settings url

/-- Carries out the command that arguments ask for. -/
def runArguments (h : Host m) (settings : Settings) (lines : Nat) (arguments : List String) :
    m Ending :=
  match Command.parse arguments with
  | .error .help => return .exited 0
  | .error .usage => return .exited 2
  | .ok command => run h settings lines command

end Stepwise.Cli
