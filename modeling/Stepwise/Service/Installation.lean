import Stepwise.Service.Client
import Stepwise.Service.Scheduler
import Stepwise.Service.Worker
import Stepwise.Transport.Amqp
import Stepwise.Transport.Broker
import Stepwise.Transport.Direct

/-!
# Installations

An installation is a client, a scheduler and one worker for each operation that has a queue.
`behave` says what each of them does with a delivery, and `connect` subscribes them all.

* `Synchronous`: over a direct transport a response is there when the send returns.
* `Queued`: over a broker the consumers work between the calls of the client.
* `Networked`: the scheduler, the workers and the client are processes of their own, each with a
  link to one message server.
-/

namespace Stepwise

open Stepwise.Text (Body)

/-- Who listens to a queue. -/
inductive Role where
  | responses
  | operation (op : Operation)
  | results
  | requests
  deriving DecidableEq, Repr

/-- The state of the components. -/
structure Installation where
  client : Client
  scheduler : Scheduler
  deriving Inhabited

namespace Installation

/-- Nothing sent and nothing pending. -/
def fresh (clientId : String) : Installation := ⟨.named clientId, .empty⟩

variable {η α : Type}

/-- A routine of the client. -/
def ofClient : Routine Client η α → Routine Installation η α :=
  Routine.within client fun c i => { i with client := c }

/-- A routine of the scheduler. -/
def ofScheduler : Routine Scheduler η α → Routine Installation η α :=
  Routine.within scheduler fun s i => { i with scheduler := s }

/-- What a component does with a delivery. -/
def behave (settings : Settings) : Role → Body → Routine Installation Role Unit
  | .responses, body => ofClient (Client.onDelivery body)
  | .operation op, body => Worker.onDelivery settings op body
  | .results, body => ofScheduler (Scheduler.onResultDelivery settings body)
  | .requests, body => ofScheduler (Scheduler.onRequestDelivery settings Plan.compile body)

/-- Subscribes the workers, in the order of their queues. -/
def startWorkers : List (Operation × String) → Routine Installation Role Unit
  | [] => .done ()
  | (op, queue) :: rest =>
    (Routine.listen queue (.operation op)).bind fun _ => startWorkers rest

/-- Subscribes all components: everybody listens before anything is published. -/
def connect (settings : Settings) : Routine Installation Role Unit := do
  ofClient (Client.start settings .responses)
  startWorkers settings.operationQueues
  Scheduler.start settings .results .requests

/-- Enough deliveries for an expression with a text of some length: its request, two for each of
its steps, and its response. -/
def deliveries (length : Nat) : Nat := 2 * length + 8

/-! ## Over a direct transport -/

namespace Synchronous

/-- An installation over a direct transport. -/
abbrev Site := Direct.Site Installation Role

/-- Runs a routine of the client, with so many deliveries at each of its publishes. -/
def call (settings : Settings) (clock : Int) (fuel : Nat)
    (r : Routine Client Role α) (site : Site) : Option (Except Fault α × Site) :=
  (Direct.call (behave settings) clock fuel (ofClient r) site).map fun c => (c.result, c.site)

/-- An installation that is ready for the first expression. -/
def opened (settings : Settings) (clientId : String) : Site :=
  match Direct.call (behave settings) 0 0 (connect settings) ⟨fresh clientId, .empty⟩ with
  | some c => c.site
  | none => ⟨fresh clientId, .empty⟩

/-- Sends an expression. -/
def send (settings : Settings) (clock : Int) (text : String) (deadlineMs : Option Int)
    (site : Site) : Option (Except Fault Ticket × Site) :=
  call settings clock (deliveries text.length) (Client.send settings text deadlineMs) site

/-- Waits for the response of a ticket. -/
def wait (settings : Settings) (clock : Int) (t : Ticket) (site : Site) :
    Option (Except Fault ExpressionResponse × Site) :=
  call settings clock 0 (Client.wait settings t) site

/-- Sends an expression and waits for its response. -/
def evaluate (settings : Settings) (clock : Int) (text : String) (deadlineMs : Option Int)
    (site : Site) : Option (Except Fault ExpressionResponse × Site) :=
  call settings clock (deliveries text.length) (Client.evaluate settings text deadlineMs) site

end Synchronous

/-! ## Over a broker -/

namespace Queued

/-- An installation over a broker. -/
abbrev Site := Broker.Site Installation Role

/-- Runs a routine of the client, and lets the consumers work afterwards. -/
def call (settings : Settings) (clock : Int) (fuel : Nat)
    (r : Routine Client Role α) (site : Site) : Option (Except Fault α × Site) :=
  let p := Broker.perform clock (ofClient r) site none
  (Broker.drain (behave settings) clock fuel p.site).map fun (_, site) => (p.result, site)

/-- An installation that is ready for the first expression. -/
def opened (settings : Settings) (clientId : String) : Site :=
  let broker := settings.allQueues.foldl (fun b q => b.declare q) .empty
  (Broker.perform 0 (connect settings) ⟨fresh clientId, broker⟩ none).site

/-- Sends an expression. -/
def send (settings : Settings) (clock : Int) (text : String) (deadlineMs : Option Int)
    (site : Site) : Option (Except Fault Ticket × Site) :=
  call settings clock (deliveries text.length) (Client.send settings text deadlineMs) site

/-- Waits for the response of a ticket. -/
def wait (settings : Settings) (clock : Int) (t : Ticket) (site : Site) :
    Option (Except Fault ExpressionResponse × Site) :=
  call settings clock 0 (Client.wait settings t) site

/-- Sends an expression and waits for its response. -/
def evaluate (settings : Settings) (clock : Int) (text : String) (deadlineMs : Option Int)
    (site : Site) : Option (Except Fault ExpressionResponse × Site) :=
  match send settings clock text deadlineMs site with
  | none => none
  | some (.error fault, site) => some (.error fault, site)
  | some (.ok t, site) => wait settings clock t site

end Queued

/-! ## Over a message server -/

namespace Networked

/-- An installation of three processes on one network. -/
abbrev Site := Amqp.Site Installation Role

/-- The number of the link of the scheduler. -/
def schedulerLink : Nat := 0

/-- The number of the link of the workers. -/
def workersLink : Nat := 1

/-- The number of the link of the client. -/
def clientLink : Nat := 2

/-- An installation that is ready for the first expression. -/
def opened (settings : Settings) (clientId : String) : Except Fault Site :=
  let address := Address.ofUrl settings.amqpUrl
  let idle : Link Role := .idle address settings.amqpPrefetch
  match Link.connect address settings.amqpPrefetch settings.allQueues .fresh with
  | (.error refusal, _) => .error (.refused refusal)
  | (.ok client, network) =>
    let site : Site := ⟨fresh clientId, [idle, idle, client], network⟩
    let p := Amqp.perform schedulerLink 0 (Scheduler.start settings .results .requests) site none
    let q := Amqp.perform workersLink 0 (startWorkers settings.operationQueues) p.site none
    let r := Amqp.perform clientLink 0 (ofClient (Client.start settings .responses)) q.site none
    p.result.bind fun _ => q.result.bind fun _ => r.result.map fun _ => r.site

/-- Evaluates an expression. -/
def evaluate (settings : Settings) (clock : Int) (text : String) (deadlineMs : Option Int)
    (site : Site) : Option (Except Fault ExpressionResponse × Site) :=
  let p := Amqp.perform clientLink clock (ofClient (Client.send settings text deadlineMs)) site none
  match p.result with
  | .error fault => some (.error fault, p.site)
  | .ok t =>
    (Amqp.drain (behave settings) clock (deliveries text.length) p.site).map fun site =>
      let w := Amqp.perform clientLink clock (ofClient (Client.wait settings t)) site none
      (w.result, w.site)

end Networked

/-! ## In one process -/

/-- An installation in one process, over either transport. -/
inductive Engine where
  | direct (site : Synchronous.Site)
  | queued (site : Queued.Site)

namespace Engine

/-- An engine that is ready for the first expression. -/
def opened (settings : Settings) (synchronous : Bool) (clientId : String) : Engine :=
  if synchronous then .direct (Synchronous.opened settings clientId)
  else .queued (Queued.opened settings clientId)

/-- The components of an engine. -/
def installation : Engine → Installation
  | direct site => site.state
  | queued site => site.state

/-- Sends an expression. -/
def send (settings : Settings) (clock : Int) (text : String) (deadlineMs : Option Int) :
    Engine → Option (Except Fault Ticket × Engine)
  | direct site =>
    (Synchronous.send settings clock text deadlineMs site).map fun (r, s) => (r, .direct s)
  | queued site =>
    (Queued.send settings clock text deadlineMs site).map fun (r, s) => (r, .queued s)

/-- Waits for the response of a ticket. -/
def wait (settings : Settings) (clock : Int) (t : Ticket) :
    Engine → Option (Except Fault ExpressionResponse × Engine)
  | direct site => (Synchronous.wait settings clock t site).map fun (r, s) => (r, .direct s)
  | queued site => (Queued.wait settings clock t site).map fun (r, s) => (r, .queued s)

/-- Sends an expression and waits for its response. -/
def evaluate (settings : Settings) (clock : Int) (text : String) (deadlineMs : Option Int) :
    Engine → Option (Except Fault ExpressionResponse × Engine)
  | direct site =>
    (Synchronous.evaluate settings clock text deadlineMs site).map fun (r, s) => (r, .direct s)
  | queued site =>
    (Queued.evaluate settings clock text deadlineMs site).map fun (r, s) => (r, .queued s)

end Engine

end Installation

end Stepwise
