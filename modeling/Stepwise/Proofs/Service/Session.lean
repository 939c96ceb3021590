import Stepwise.Proofs.Expr.Acceptance
import Stepwise.Proofs.Service.Punctual
import Stepwise.Proofs.Transport.Subscriptions
import Stepwise.Service.Installation

/-!
# Sessions over a direct transport

An installation over a direct transport answers one expression after another.  A request is followed
from delivery to delivery: each step of its expression costs one delivery to a worker and one of the
result, and whatever ends the expression costs the delivery of the response (`drains_request`).
Between two evaluations nobody has anything left to do (`Ready`), so a session of any length gives
each expression what it comes to (`answers_of_session`).
-/

namespace Stepwise

open Stepwise.Text (Body)

/-! ## Wiring -/

namespace Installation

variable {settings : Settings}

/-- One transport has the workers of the queues that another one lacks. -/
structure Staffed (workers : List (Operation × String)) (t t' : Direct Role) : Prop where
  closed : t'.closed = t.closed
  backlog : t'.backlog = t.backlog
  others : ∀ queue ∉ workers.map (·.2), t'.handlers.lookup queue = t.handlers.lookup queue
  own : ∀ p ∈ workers, t'.handlers.lookup p.2 = some (.operation p.1)

theorem Staffed.cons {op : Operation} {queue : String} {workers : List (Operation × String)}
    {t t' : Direct Role} (fresh : queue ∉ workers.map (·.2))
    (h : Staffed workers (t.subscribe queue (.operation op)) t') :
    Staffed ((op, queue) :: workers) t t' := by
  refine ⟨h.closed, h.backlog, fun other hother => ?_, fun p hp => ?_⟩
  · rw [List.map_cons, List.mem_cons, not_or] at hother
    rw [h.others other hother.2, Direct.lookup_subscribe, if_neg hother.1]
  · rcases List.mem_cons.1 hp with rfl | hp
    · rw [h.others queue fresh, Direct.lookup_subscribe, if_pos rfl]
    · exact h.own p hp

theorem call_startWorkers {α : Type} (behave : Role → Body → Routine Installation Role Unit)
    (clock : Int) (fuel : Nat) {workers : List (Operation × String)}
    (distinct : (workers.map (·.2)).Nodup) (next : Routine Installation Role α)
    (i : Installation) (t : Direct Role) :
    ∃ t', Staffed workers t t' ∧
      Direct.call behave clock fuel ((startWorkers workers).bind fun _ => next) ⟨i, t⟩ =
        Direct.call behave clock fuel next ⟨i, t'⟩ := by
  induction workers generalizing t with
  | nil => exact ⟨t, ⟨rfl, rfl, fun _ _ => rfl, fun _ hp => (List.not_mem_nil hp).elim⟩, rfl⟩
  | cons worker workers ih =>
    obtain ⟨op, queue⟩ := worker
    obtain ⟨fresh, distinct⟩ := List.nodup_cons.1 distinct
    obtain ⟨t', staffed, hcall⟩ := ih distinct (t.subscribe queue (.operation op))
    exact ⟨t', staffed.cons fresh, hcall⟩

/-- Everybody listens, and nothing waits to be handed over. -/
structure Wired (settings : Settings) (t : Direct Role) : Prop where
  open_ : t.closed = false
  empty : t.backlog = []
  requests : t.handlers.lookup settings.requestQueue = some .requests
  responses : t.handlers.lookup settings.responseQueue = some .responses
  results : t.handlers.lookup settings.resultsQueue = some .results
  workers : ∀ {op queue}, settings.queueOf? op = some queue →
    t.handlers.lookup queue = some (.operation op)

/-- After all subscriptions everybody listens if no two queues have one name. -/
theorem Staffed.wired {t : Direct Role} (distinct : settings.allQueues.Nodup)
    (h : Staffed settings.operationQueues
      (Direct.empty.subscribe settings.responseQueue .responses) t) :
    Wired settings
      ((t.subscribe settings.resultsQueue .results).subscribe settings.requestQueue .requests) := by
  simp only [Settings.allQueues, List.nodup_cons, List.mem_cons, List.mem_append,
    List.not_mem_nil, not_or, or_false] at distinct
  obtain ⟨⟨requestResponse, requestWorker, requestResult⟩, ⟨responseWorker, responseResult⟩,
    rest⟩ := distinct
  refine ⟨h.closed, h.backlog, ?_, ?_, ?_, fun {op queue} hqueue => ?_⟩
  · rw [Direct.lookup_subscribe, if_pos rfl]
  · rw [Direct.lookup_subscribe, if_neg (Ne.symm requestResponse), Direct.lookup_subscribe,
      if_neg responseResult, h.others _ responseWorker, Direct.lookup_subscribe, if_pos rfl]
  · rw [Direct.lookup_subscribe, if_neg (Ne.symm requestResult), Direct.lookup_subscribe,
      if_pos rfl]
  · obtain ⟨front, back, heq, -⟩ := List.lookup_eq_some_iff.1 hqueue
    have worker : (op, queue) ∈ settings.operationQueues := by simp [heq]
    have mem : queue ∈ settings.operationQueues.map (·.2) := List.mem_map_of_mem worker
    have notRequest : queue ≠ settings.requestQueue := by
      rintro rfl
      exact requestWorker mem
    have notResult : queue ≠ settings.resultsQueue := by
      rintro rfl
      exact (List.nodup_append.1 rest).2.2 _ mem _ (List.mem_singleton.2 rfl) rfl
    rw [Direct.lookup_subscribe, if_neg notRequest, Direct.lookup_subscribe, if_neg notResult]
    exact h.own _ worker

/-- An installation with distinct queues is wired when it is opened. -/
theorem exists_opened (distinct : settings.allQueues.Nodup) (clientId : String) :
    ∃ t, Wired settings t ∧ Synchronous.opened settings clientId =
      ⟨⟨{ Client.named clientId with listening := true }, .empty⟩, t⟩ := by
  have workers : (settings.operationQueues.map (·.2)).Nodup := by
    have := (List.nodup_cons.1 (List.nodup_cons.1 distinct).2).2
    exact (List.nodup_append.1 this).1
  obtain ⟨t, staffed, hcall⟩ := call_startWorkers (behave settings) 0 0 workers
    (Scheduler.start settings .results .requests)
    ⟨{ Client.named clientId with listening := true }, .empty⟩
    (Direct.empty.subscribe settings.responseQueue .responses)
  refine ⟨_, staffed.wired distinct, ?_⟩
  -- The client subscribes before the workers, the scheduler after them; only theirs is a recursion.
  have connected : Direct.call (behave settings) 0 0 (connect settings)
      ⟨fresh clientId, .empty⟩ = Direct.call (behave settings) 0 0
        (Scheduler.start settings .results .requests)
        ⟨⟨{ Client.named clientId with listening := true }, .empty⟩, t⟩ := hcall
  rw [Synchronous.opened, connected]
  rfl

/-! ## Deliveries -/

section Deliveries

variable {η α : Type} {c : Conditions} {i : Installation}

theorem run_ofClient {r : Routine Client η α} {x : Except Fault α} {u : Client}
    {es : List (Effect η)} (h : r.run c i.client = ⟨x, u, es⟩) :
    (ofClient r).run c i = ⟨x, { i with client := u }, es⟩ := by
  rw [ofClient, Routine.run_within client (fun u i => { i with client := u }) (fun _ _ => rfl)
    (fun _ _ _ => rfl) (fun _ => rfl), h]

theorem run_ofScheduler {r : Routine Scheduler η α} {x : Except Fault α} {u : Scheduler}
    {es : List (Effect η)} (h : r.run c i.scheduler = ⟨x, u, es⟩) :
    (ofScheduler r).run c i = ⟨x, { i with scheduler := u }, es⟩ := by
  rw [ofScheduler, Routine.run_within scheduler (fun u i => { i with scheduler := u })
    (fun _ _ => rfl) (fun _ _ _ => rfl) (fun _ => rfl), h]

end Deliveries

open Direct (Drains)

/-! Requests and results lead to one message each, and so does a step.  A response leads to none. -/

variable {t : Direct Role} {i : Installation} {clock : Int} {n : Nat} {site : Synchronous.Site}
  {body : Body} {m : Message}

theorem Wired.deliver_request (wired : Wired settings t) {u : Scheduler}
    (handled : (Scheduler.onRequestDelivery settings Plan.compile body :
      Scheduler.Action Role Unit).run ⟨clock, []⟩ i.scheduler =
        ⟨.ok (), u, [.published m, .settled .ack]⟩)
    (taken : t.refusal? m.queue = none)
    (rest : Drains (behave settings) clock n ⟨{ i with scheduler := u }, t.enqueue m⟩ site) :
    Drains (behave settings) clock (n + 1) ⟨i, t.enqueue ⟨settings.requestQueue, body⟩⟩ site :=
  .forward wired.requests wired.empty (run_ofScheduler handled) taken rest

theorem Wired.deliver_result (wired : Wired settings t) {u : Scheduler}
    (handled : (Scheduler.onResultDelivery settings body : Scheduler.Action Role Unit).run
      ⟨clock, []⟩ i.scheduler = ⟨.ok (), u, [.published m, .settled .ack]⟩)
    (taken : t.refusal? m.queue = none)
    (rest : Drains (behave settings) clock n ⟨{ i with scheduler := u }, t.enqueue m⟩ site) :
    Drains (behave settings) clock (n + 1) ⟨i, t.enqueue ⟨settings.resultsQueue, body⟩⟩ site :=
  .forward wired.results wired.empty (run_ofScheduler handled) taken rest

theorem Wired.deliver_step (wired : Wired settings t) {op : Operation} {queue : String}
    (hqueue : settings.queueOf? op = some queue) {result : Body}
    (handled : (Worker.onDelivery settings op body : Routine Installation Role Unit).run
      ⟨clock, []⟩ i = ⟨.ok (), i, [.published ⟨settings.resultsQueue, result⟩, .settled .ack]⟩)
    (rest : Drains (behave settings) clock n
      ⟨i, t.enqueue ⟨settings.resultsQueue, result⟩⟩ site) :
    Drains (behave settings) clock (n + 1) ⟨i, t.enqueue ⟨queue, body⟩⟩ site :=
  .forward (wired.workers hqueue) wired.empty handled
    (Direct.refusal?_eq_none wired.open_ wired.results) rest

theorem Wired.deliver_response (wired : Wired settings t) {u : Client}
    (handled : (Client.onDelivery body : Routine Client Role Unit).run ⟨clock, []⟩ i.client =
      ⟨.ok (), u, [.settled .ack]⟩) :
    Drains (behave settings) clock 1 ⟨i, t.enqueue ⟨settings.responseQueue, body⟩⟩
      ⟨{ i with client := u }, t⟩ :=
  .absorb wired.responses wired.empty (run_ofClient handled)

/-! ## From a request to its response -/

variable {errand : Errand} {xs : List Float} {place : Nat}

theorem isFinite_outcome (op : Operation) (a b : Float) : (op.outcome a b).IsFinite :=
  Outcome.isFinite_of_value fun _ h => isFinite_of_outcome h

/-- What ends an expression is what it comes to. -/
theorem reference_of_last (evaluated : Evaluated errand.steps xs) {o : Outcome}
    (next : outcomeAt? errand.steps xs.length = some o)
    (last : ∀ x, o = .value x → xs.length + 1 = errand.steps.length) :
    reference errand.text = some o := by
  cases o with
  | failed f => exact reference_of_error evaluated next
  | value x =>
    refine reference_of_all (evaluated.concat next) ?_ (by simp [valueOf?])
    rw [List.length_append, List.length_singleton]
    exact last x rfl

/-- A step is delivered to its worker, and its result to the scheduler. -/
theorem drains_of_result (wired : Wired settings t) (inTime : errand.InTime) {q : StepRequest}
    {queue : String} (hqueue : settings.queueOf? q.operation = some queue)
    (demands : errand.Demands xs q) (evaluated : Evaluated errand.steps xs)
    (short : Json.ShortInt xs.length) {u : Scheduler}
    (result : (Scheduler.onResult settings
      ⟨errand.id, xs.length, q.operation.outcome q.left q.right⟩ : Scheduler.Action Role Unit).run
        ⟨errand.clock, []⟩ i.scheduler = ⟨.ok (), u, [.published m]⟩)
    (taken : t.refusal? m.queue = none)
    (rest : Drains (behave settings) errand.clock n ⟨{ i with scheduler := u }, t.enqueue m⟩ site) :
    Drains (behave settings) errand.clock (n + 2) ⟨i, t.enqueue ⟨queue, q.body⟩⟩ site := by
  have handled := Scheduler.run_onResultDelivery (isFinite_outcome _ _ _) short result
  exact wired.deliver_step hqueue (Worker.run_onDelivery inTime demands evaluated short i)
    (wired.deliver_result handled taken rest)

/-- A step is delivered, and so is whatever follows from it, up to the response.  The induction is
on the steps that are left. -/
theorem drains_step (wired : Wired settings t) (mapped : ∀ op, (settings.queueOf? op).isSome)
    (inTime : errand.InTime) (short : ∀ k : Nat, k < errand.steps.length → Json.ShortInt k)
    {q : StepRequest} {queue : String} (hqueue : settings.queueOf? q.operation = some queue)
    (demands : errand.Demands xs q) (evaluated : Evaluated errand.steps xs)
    (pursues : i.scheduler.Pursues errand xs) (expects : i.client.Expects errand.id place) :
    ∃ o s, reference errand.text = some o ∧ s.Idle ∧
      Drains (behave settings) errand.clock (2 * (errand.steps.length - xs.length) + 1)
        ⟨i, t.enqueue ⟨queue, q.body⟩⟩ ⟨⟨i.client.served place ⟨errand.id, o⟩, s⟩, t⟩ := by
  obtain ⟨left, hleft⟩ : ∃ left, left = errand.steps.length - xs.length := ⟨_, rfl⟩
  induction left generalizing i xs q queue with
  | zero =>
    have := pursues.more
    omega
  | succ left ih =>
    have more := pursues.more
    have next := outcomeAt?_of_asks evaluated demands.asks
    -- A failure ends the expression at any step, a value only at the last one.
    by_cases last : ∀ x, q.operation.outcome q.left q.right = .value x →
        xs.length + 1 = errand.steps.length
    · obtain ⟨s, idle, result⟩ := Scheduler.run_onResult_end settings pursues last
      have answered := wired.deliver_response (i := { i with scheduler := s })
        (Client.run_onDelivery (r := ⟨errand.id, q.operation.outcome q.left q.right⟩) expects
          (isFinite_outcome _ _ _) ⟨errand.clock, []⟩)
      have drains := drains_of_result wired inTime hqueue demands evaluated (short _ more) result
        (Direct.refusal?_eq_none wired.open_ wired.responses) answered
      exact ⟨_, s, reference_of_last evaluated next last, idle, drains.mono (by omega)⟩
    · push Not at last
      obtain ⟨x, hx, notLast⟩ := last
      obtain ⟨s, q', queue', hqueue', pursues', demands', result⟩ :=
        Scheduler.run_onResult_next inTime mapped pursues x (by omega)
      have length : (xs ++ [x]).length = xs.length + 1 := List.length_append
      obtain ⟨o, s', ho, idle, rest⟩ := ih (i := { i with scheduler := s }) hqueue' demands'
        (evaluated.concat (hx ▸ next)) pursues' expects (by omega)
      have drains := drains_of_result wired inTime hqueue demands evaluated (short _ more)
        (hx ▸ result) (Direct.refusal?_eq_none wired.open_ (wired.workers hqueue')) rest
      exact ⟨o, s', ho, idle, drains.mono (by omega)⟩

/-- An expression, and when and with which deadline it is evaluated. -/
structure Job where
  clock : Int
  text : String
  deadlineMs : Option Int

namespace Job

/-- The deadline, or what holds where none is given. -/
def deadline (settings : Settings) (job : Job) : Int :=
  job.deadlineMs.getD settings.defaultDeadlineMs

/-- The steps of the expression. -/
def steps (job : Job) : List Step := stepsOf (Plan.compile job.text)

/-- If there are steps, some time is left for each of them and its end is a date of the calendar.
The deadline and the numbers of the steps have no more digits than a reader takes. -/
structure Timely (settings : Settings) (job : Job) : Prop where
  budget : job.steps ≠ [] → ∃ deadlineAt left issued,
    Budget.deadline? job.clock (job.deadline settings) = some deadlineAt ∧
      Budget.remaining? job.clock deadlineAt = some left ∧ 0 < left ∧
      Timestamp.onClock? job.clock = some issued ∧ (issued.advance? left).isSome
  deadline : Json.ShortInt (job.deadline settings)
  numbers : ∀ k : Nat, k < job.steps.length → Json.ShortInt k

/-- The request for the expression under an id. -/
def request (settings : Settings) (id : String) (job : Job) : ExpressionRequest :=
  ⟨id, job.text, job.deadline settings⟩

theorem length_steps_le (job : Job) : job.steps.length ≤ job.text.length := by
  rw [steps]
  cases hc : Plan.compile job.text with
  | error fault => exact Nat.zero_le _
  | ok plan => exact Stepwise.length_steps_le hc

end Job

variable {job : Job} {id : String}

/-- A request is delivered, and so is whatever follows from it, up to the response: with `n` steps
these are `2 * n + 2` deliveries. -/
theorem drains_request (wired : Wired settings t) (mapped : ∀ op, (settings.queueOf? op).isSome)
    (timely : job.Timely settings) (idle : i.scheduler.Idle) (expects : i.client.Expects id place) :
    ∃ o s, reference job.text = some o ∧ s.Idle ∧
      Drains (behave settings) job.clock (2 * job.steps.length + 2)
        ⟨i, t.enqueue ⟨settings.requestQueue, (job.request settings id).body⟩⟩
        ⟨⟨i.client.served place ⟨id, o⟩, s⟩, t⟩ := by
  by_cases none : job.steps = []
  -- A literal, or no expression at all: the response is published while the request is handled.
  · obtain ⟨o, ho, submitted⟩ := Scheduler.run_submit_answer (r := job.request settings id)
      settings idle none job.clock
    have handled := Scheduler.run_onRequestDelivery (r := job.request settings id)
      timely.deadline submitted
    have finite : o.IsFinite :=
      Outcome.isFinite_of_value fun x hx => isFinite_of_reference (hx ▸ ho)
    have answered := wired.deliver_response (i := i)
      (Client.run_onDelivery (r := ⟨id, o⟩) expects finite ⟨job.clock, []⟩)
    have drains := wired.deliver_request handled
      (Direct.refusal?_eq_none wired.open_ wired.responses) answered
    exact ⟨o, i.scheduler, ho, idle, drains.mono (by omega)⟩
  · obtain ⟨deadlineAt, left, issued, deadline, remaining, positive, date, limit⟩ :=
      timely.budget none
    have inTime : Errand.InTime ⟨id, job.text, job.clock, deadlineAt, left, issued⟩ :=
      ⟨remaining, positive, date, limit⟩
    obtain ⟨s, q, queue, hqueue, pursues, demands, submitted⟩ :=
      Scheduler.run_submit_steps inTime mapped idle none deadline
    have handled := Scheduler.run_onRequestDelivery (r := job.request settings id)
      timely.deadline submitted
    obtain ⟨o, s', ho, idle', rest⟩ := drains_step (i := { i with scheduler := s }) wired mapped
      inTime timely.numbers hqueue demands (evaluated_nil _) pursues expects
    have drains := wired.deliver_request handled
      (Direct.refusal?_eq_none wired.open_ (wired.workers hqueue)) rest
    exact ⟨o, s', ho, idle', drains⟩

/-! ## Evaluating -/

/-- What a wait comes to when the response is there: its time must be one of the floats. -/
theorem call_wait {fuel : Nat} {ticket : Ticket} {r : ExpressionResponse}
    (answered : i.client.response? ticket = some r) :
    (Direct.call (behave settings) clock fuel (ofClient (Client.wait settings ticket)) ⟨i, t⟩).map
        (fun c => (c.result, c.site)) =
      some (if (Decimal.ofInt? (ticket.deadlineMs + settings.clientGraceMs)).isSome then .ok r
        else .error .outOfRange, ⟨i, t⟩) := by
  rw [Client.wait]
  cases (Decimal.ofInt? (ticket.deadlineMs + settings.clientGraceMs)) with
  | none => rfl
  | some time =>
    rw [if_neg (by simp), ofClient, Routine.within_atomically_bind, Direct.call_atomically_bind]
    simp only [answered]
    rfl

/-- Everybody listens and nobody has anything left to do, after so many expressions. -/
structure Ready (settings : Settings) (clientId : String) (issued : Nat)
    (site : Synchronous.Site) : Prop where
  wired : Wired settings site.transport
  idle : site.state.scheduler.Idle
  clientId : site.state.client.clientId = clientId
  issued : site.state.client.issued = issued
  waiting : site.state.client.waiting = []

theorem ready_opened (distinct : settings.allQueues.Nodup) (clientId : String) :
    Ready settings clientId 0 (Synchronous.opened settings clientId) := by
  obtain ⟨t, wired, opened⟩ := exists_opened distinct clientId
  rw [opened]
  exact ⟨wired, ⟨rfl, rfl⟩, rfl, rfl, rfl⟩

/-- What a job comes to whose expression comes to an outcome: its response, unless the time to wait
for it is beyond the floats. -/
def Job.answer (settings : Settings) (job : Job) (r : ExpressionResponse) :
    Except Fault ExpressionResponse :=
  if (Decimal.ofInt? (job.deadline settings + settings.clientGraceMs)).isSome then .ok r
  else .error .outOfRange

/-- The ticket of the expression that a client sends next. -/
def Job.ticket (settings : Settings) (job : Job) (c : Client) : Ticket :=
  ⟨Client.idOf c.clientId (c.issued + 1), job.deadline settings, c.responses.size⟩

/-- A client that waits for the response of a ticket. -/
def sent (ticket : Ticket) (c : Client) : Client :=
  (Client.register ticket.expressionId (Client.nextId c).2).2

/-- What a client makes of the transport's answer to the request for a ticket. -/
def sending (ticket : Ticket) : Except Fault Unit → Routine Client η Ticket
  | .ok () => pure ticket
  | .error fault => do
    let _ ← Routine.atomically (Client.unregister ticket.expressionId)
    .raise fault

/-- An evaluation whose request is delivered, with all that follows, and whose response is there. -/
theorem evaluate_of_drains {i' : Installation} {t' : Direct Role} {r : ExpressionResponse}
    (taken : t.refusal? settings.requestQueue = none)
    (drains : Drains (behave settings) job.clock n
      ⟨{ i with client := sent (job.ticket settings i.client) i.client }, t.enqueue
        ⟨settings.requestQueue,
          (job.request settings (job.ticket settings i.client).expressionId).body⟩⟩ ⟨i', t'⟩)
    (enough : n ≤ deliveries job.text.length)
    (answered : i'.client.response? (job.ticket settings i.client) = some r) :
    Synchronous.evaluate settings job.clock job.text job.deadlineMs ⟨i, t⟩ =
      some (job.answer settings r, ⟨i', t'⟩) := by
  have published := Direct.call_publish
    (fun x => ofClient (sending (job.ticket settings i.client) x >>= Client.wait settings))
    taken drains enough
  rw [Synchronous.evaluate, Synchronous.call]
  exact published.trans (call_wait answered)

theorem expects_sent {c : Client} (waiting : c.waiting = []) (ticket : Ticket) :
    (sent ticket c).Expects ticket.expressionId c.responses.size :=
  ⟨by simp [sent, Client.register, Client.nextId, waiting], Array.getElem?_push_size⟩

theorem response?_served {c : Client} {ticket : Ticket}
    (expects : c.Expects ticket.expressionId ticket.place) (r : ExpressionResponse) :
    (c.served ticket.place r).response? ticket = some r := by
  obtain ⟨hlt, -⟩ := Array.getElem?_eq_some_iff.1 expects.unresolved
  rw [Client.response?, Client.served, Array.getElem?_setIfInBounds_self_of_lt hlt]
  rfl

/-- An evaluation between others. -/
theorem evaluate_of_ready {clientId : String} {site : Synchronous.Site}
    (mapped : ∀ op, (settings.queueOf? op).isSome) (timely : job.Timely settings)
    (ready : Ready settings clientId n site) :
    ∃ o site', reference job.text = some o ∧ Ready settings clientId (n + 1) site' ∧
      Synchronous.evaluate settings job.clock job.text job.deadlineMs site =
        some (job.answer settings ⟨Client.idOf clientId (n + 1), o⟩, site') := by
  obtain ⟨⟨client, scheduler⟩, t⟩ := site
  obtain ⟨wired, idle, rfl, rfl, waiting⟩ := ready
  have expects := expects_sent waiting (job.ticket settings client)
  obtain ⟨o, s, ho, idle', drains⟩ := drains_request wired mapped timely
    (i := ⟨sent (job.ticket settings client) client, scheduler⟩) idle expects
  have few := job.length_steps_le
  have evaluated := evaluate_of_drains (i := ⟨client, scheduler⟩)
    (Direct.refusal?_eq_none wired.open_ wired.requests) drains
    (by rw [deliveries]; omega) (response?_served expects _)
  refine ⟨o, _, ho, ?_, evaluated⟩
  exact ⟨wired, idle', rfl, rfl, rfl⟩

/-! ## Sessions -/

/-- Evaluates jobs one after another: each answer, and the site after it. -/
def session (settings : Settings) :
    List Job → Synchronous.Site → Option (List (Except Fault ExpressionResponse × Synchronous.Site))
  | [], _ => some []
  | job :: rest, site =>
    match Synchronous.evaluate settings job.clock job.text job.deadlineMs site with
    | none => none
    | some (answer, site) => (session settings rest site).map ((answer, site) :: ·)

/-- The answers to jobs in order, from the one after so many on. -/
theorem session_of_ready {clientId : String} {jobs : List Job} {site : Synchronous.Site}
    (mapped : ∀ op, (settings.queueOf? op).isSome) (timely : ∀ job ∈ jobs, job.Timely settings)
    (ready : Ready settings clientId n site) :
    ∃ answers, session settings jobs site = some answers ∧ answers.length = jobs.length ∧
      ∀ k job answer after, jobs[k]? = some job → answers[k]? = some (answer, after) →
        (∃ o, reference job.text = some o ∧
          answer = job.answer settings ⟨Client.idOf clientId (n + k + 1), o⟩) ∧
        Ready settings clientId (n + k + 1) after := by
  induction jobs generalizing n site with
  | nil => exact ⟨[], rfl, rfl, fun _ _ _ _ hjob => nomatch hjob⟩
  | cons job jobs ih =>
    obtain ⟨o, site', ho, ready', evaluated⟩ :=
      evaluate_of_ready mapped (timely job List.mem_cons_self) ready
    obtain ⟨answers, hsession, length, rest⟩ :=
      ih (fun job hjob => timely job (List.mem_cons_of_mem _ hjob)) ready'
    have whole : session settings (job :: jobs) site =
        some ((job.answer settings ⟨Client.idOf clientId (n + 1), o⟩, site') :: answers) := by
      rw [session, evaluated]
      simp only [hsession, Option.map_some]
    refine ⟨_, whole, congrArg (· + 1) length, fun k job' answer after hjob hanswer => ?_⟩
    cases k with
    | zero =>
      cases hjob
      cases hanswer
      exact ⟨⟨o, ho, rfl⟩, ready'⟩
    | succ k =>
      have shift : n + (k + 1) + 1 = n + 1 + k + 1 := by omega
      rw [shift]
      exact rest k job' answer after hjob hanswer

variable {clientId : String} {jobs : List Job}

/-- A session of an installation over a direct transport always comes to its end.  Its n-th answer
has the n-th id of the client and is what the expression comes to, unless the deadline and the grace
period of the client together are beyond the floats; then the wait stops with a fault, although the
response is there.  After each answer nothing is pending and nothing waits. -/
theorem answers_of_session (distinct : settings.allQueues.Nodup)
    (mapped : ∀ op, (settings.queueOf? op).isSome) (timely : ∀ job ∈ jobs, job.Timely settings)
    (clientId : String) :
    ∃ answers, session settings jobs (Synchronous.opened settings clientId) = some answers ∧
      answers.length = jobs.length ∧
      ∀ (n : Nat) (job : Job) answer (site : Synchronous.Site),
        jobs[n]? = some job → answers[n]? = some (answer, site) →
        (∃ o, reference job.text = some o ∧
          answer = if (Decimal.ofInt? (job.deadline settings + settings.clientGraceMs)).isSome then
              .ok ⟨Client.idOf clientId (n + 1), o⟩
            else .error .outOfRange) ∧
        site.state.scheduler.pendingCount = 0 ∧ site.state.client.waitingCount = 0 := by
  obtain ⟨answers, hsession, length, each⟩ :=
    session_of_ready mapped timely (ready_opened distinct clientId)
  refine ⟨answers, hsession, length, fun n job answer site hjob hanswer => ?_⟩
  obtain ⟨answered, ready⟩ := each n job answer site hjob hanswer
  rw [Nat.zero_add] at answered ready
  refine ⟨answered, ?_, ?_⟩
  · rw [Scheduler.pendingCount, ready.idle.table]
    rfl
  · rw [Client.waitingCount, ready.waiting]
    rfl

theorem isSome_queueOf?_of_standard {s : Settings}
    (h : s.operationQueues = Settings.standard.operationQueues) (op : Operation) :
    (s.queueOf? op).isSome := by
  rw [Settings.queueOf?, h]
  cases op <;> decide +kernel

/-- A second from zero on is enough for a text with a billion characters or less. -/
theorem timely_second (settings : Settings) {text : String} (few : text.length ≤ 10 ^ 9) :
    (⟨0, text, some 1000⟩ : Job).Timely settings := by
  have end_ : Budget.deadline? 0 1000 = some 1 := by decide +kernel
  have left : Budget.remaining? 0 1 = some 1000 := by decide +kernel
  have issued : Timestamp.onClock? 0 = some ⟨2024, 1, 1, 0, 0, 0, 0, some 0⟩ := by decide +kernel
  have limit : (Timestamp.advance? ⟨2024, 1, 1, 0, 0, 0, 0, some 0⟩ 1000).isSome := by
    decide +kernel
  refine ⟨fun _ => ⟨1, 1000, _, end_, left, by decide, issued, limit⟩, ?_, fun k hk => ?_⟩
  · exact Json.shortInt_of_lt (k := 4) (by decide) (by decide)
      (by decide : (1000 : Int).natAbs < 10 ^ 4)
  · refine Json.shortInt_of_lt (k := 9) (by decide) (by decide) ?_
    exact (hk.trans_le (Job.length_steps_le _)).trans_le few

/-- A sum, and an expression that lacks an operand. -/
theorem answers_of_sum_and_slip :
    let jobs : List Job := [⟨0, "1+2", some 1000⟩, ⟨0, "2*", some 1000⟩]
    Settings.standard.allQueues.Nodup ∧ (∀ op, (Settings.standard.queueOf? op).isSome) ∧
      (∀ job ∈ jobs, job.Timely .standard) ∧
      ∃ first second, session .standard jobs (Synchronous.opened .standard "C1") = some
        [(.ok ⟨"C1_expr_1", .value 3⟩, first), (.ok (.failure "C1_expr_2" .parseError
          "parse error: operator '*' is missing an operand"), second)] := by
  intro jobs
  have distinct : Settings.standard.allQueues.Nodup := by decide +kernel
  have mapped := isSome_queueOf?_of_standard (s := .standard) rfl
  have timely : ∀ job ∈ jobs, job.Timely .standard := by
    intro job hjob
    rcases List.mem_pair.1 hjob with rfl | rfl
    · exact timely_second _ (by decide)
    · exact timely_second _ (by decide)
  refine ⟨distinct, mapped, timely, ?_⟩
  obtain ⟨answers, hsession, length, each⟩ := answers_of_session distinct mapped timely "C1"
  have sum : reference "1+2" = some (.value 3) := by decide +kernel
  have slip : reference "2*" = some (.failed ⟨.parseError,
    "parse error: operator '*' is missing an operand"⟩) := by decide +kernel
  have time : (Decimal.ofInt? (1000 + Settings.standard.clientGraceMs)).isSome := by decide +kernel
  have ids : Client.idOf "C1" 1 = "C1_expr_1" ∧ Client.idOf "C1" 2 = "C1_expr_2" := by
    decide +kernel
  obtain ⟨⟨first, s⟩, ⟨second, s'⟩, rfl⟩ := List.length_eq_two.1 length
  obtain ⟨⟨o, ho, hfirst⟩, -⟩ := each 0 _ first s rfl rfl
  obtain ⟨⟨o', ho', hsecond⟩, -⟩ := each 1 _ second s' rfl rfl
  obtain rfl := Option.some.inj (sum.symm.trans ho)
  obtain rfl := Option.some.inj (slip.symm.trans ho')
  refine ⟨s, s', hsession.trans ?_⟩
  rw [hfirst.trans (if_pos time), hsecond.trans (if_pos time), ← ids.1, ← ids.2]
  rfl

/-- The grace period that a client adds to a deadline can be beyond the floats: then the evaluation
of a sum stops with a fault, although the installation is the standard one otherwise and there is
enough time. -/
theorem huge_grace_loses_answer :
    let settings := { Settings.standard with clientGraceMs := 10 ^ 400 }
    let job : Job := ⟨0, "1+2", some 1000⟩
    settings.allQueues.Nodup ∧ (∀ op, (settings.queueOf? op).isSome) ∧ job.Timely settings ∧
      reference job.text = some (.value 3) ∧ ∃ site,
        session settings [job] (Synchronous.opened settings "C1") =
          some [(.error .outOfRange, site)] := by
  intro settings job
  have distinct : settings.allQueues.Nodup := by decide +kernel
  have mapped := isSome_queueOf?_of_standard (s := settings) rfl
  have timely : job.Timely settings := timely_second _ (by decide)
  obtain ⟨o, site, -, -, evaluated⟩ :=
    evaluate_of_ready mapped timely (ready_opened distinct "C1")
  refine ⟨distinct, mapped, timely, by decide +kernel, site, ?_⟩
  have beyond : Decimal.ofInt? (job.deadline settings + settings.clientGraceMs) = none := by
    decide +kernel
  rw [session, evaluated, Job.answer, beyond]
  rfl

end Installation

end Stepwise
