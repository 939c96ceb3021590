import Stepwise.Proofs.Service.Budget
import Stepwise.Proofs.Service.Terms
import Stepwise.Proofs.Service.Worker

/-!
# Deadlines

Calls on the scheduler and deliveries to workers go on side by side, each with a clock that stands
still until it is over, and a message may be delivered at any time and any number of times.  A step
is sent with what is left of its expression's budget, and its time runs from the moment it is sent:
`executed_by_deadline` says that nevertheless no worker executes it after the deadline of the
expression, and that a worker which gets it later answers without executing it.
-/

namespace Stepwise

open Stepwise.Text (Body)

/-! ## Workers -/

/-- The answer of a worker is a failure or a finite number. -/
theorem Worker.isFinite_of_answer {own : Operation} {now : Timestamp} {r : StepRequest}
    {response : StepResponse} (h : answer own now r = .ok response) :
    response.outcome.IsFinite := by
  obtain ⟨result, performed, rfl⟩ := exists_of_map_ok h
  cases result with
  | error fault => trivial
  | ok x =>
    unfold perform at performed
    split at performed
    · cases performed
    · split at performed
      · cases performed
      · cases performed
      · have value : r.operation.outcome r.left r.right = .value x := by
          rw [Operation.outcome, Except.ok.inj performed]
        exact isFinite_of_outcome value

/-- The faults of an operation are its own. -/
theorem Operation.execute_ne {op : Operation} {a b : Float} {fault : StepFault}
    (h : op.execute a b = .error fault) :
    (∀ own asked, fault ≠ .wrongWorker own asked) ∧
      ∀ deadline step, fault ≠ .deadlineExceeded deadline step := by
  unfold Operation.execute at h
  split at h
  · cases h
    exact ⟨nofun, nofun⟩
  · dsimp only at h
    split at h
    · cases h
    · cases h
      exact ⟨nofun, nofun⟩

namespace Worker

variable {own : Operation} {settings : Settings} {body : Body} {q : StepRequest}

/-- At a time a worker executes the step of a delivery: it can read the request, and what it makes
of it is what the operation yields. -/
def Executes (own : Operation) (now : Int) (body : Body) : Prop :=
  ∃ stamp request, Timestamp.onClock? now = some stamp ∧
    StepRequest.decode body stamp = .ok request ∧
    perform own stamp request = .ok (request.operation.execute request.left request.right)

/-- A delivery is answered with a failure that the operation has no part in, and settled. -/
def TurnsAway {η : Type} (settings : Settings) (own : Operation) (q : StepRequest)
    (es : List (Effect η)) : Prop :=
  ∃ message accepted, es =
    [.handed accepted ⟨settings.resultsQueue, (⟨q.expressionId, q.stepId,
      .failed ⟨if q.operation = own then .deadlineExceeded else .invalidOperation, message⟩⟩ :
        StepResponse).body⟩, .settled (if accepted then .ack else .requeue)]

/-- A worker executes what is its own and in time. -/
theorem perform_eq_execute_iff {now : Timestamp} :
    perform own now q = .ok (q.operation.execute q.left q.right) ↔
      q.operation = own ∧ isExpired now q = .ok false := by
  constructor
  · intro performed
    unfold perform at performed
    split at performed
    · exact absurd rfl ((Operation.execute_ne (Except.ok.inj performed).symm).1 _ _)
    · next mine =>
      split at performed
      · cases performed
      · exact absurd rfl ((Operation.execute_ne (Except.ok.inj performed).symm).2 _ _)
      · next inTime => exact ⟨not_not.1 mine, inTime⟩
  · rintro ⟨mine, inTime⟩
    rw [perform, if_neg (not_not_intro mine), inTime]

/-- The times of a step that is sent at one time and delivered at another. -/
theorem isExpired_spec {sent delivered : Int} {stamp : Timestamp}
    (issued : Timestamp.onClock? sent = some q.issuedAt)
    (now : Timestamp.onClock? delivered = some stamp) :
    (isExpired stamp q = .ok false → 0 < q.deadlineMs ∧ delivered ≤ sent + q.deadlineMs) ∧
      (q.deadlineMs ≤ 0 ∨ sent + q.deadlineMs < delivered → isExpired stamp q = .ok true) := by
  obtain ⟨calendar, sentAt, utc⟩ := Timestamp.advance?_spec issued
  obtain ⟨calendar', deliveredAt, utc'⟩ := Timestamp.advance?_spec now
  unfold isExpired
  by_cases none : q.deadlineMs ≤ 0
  · rw [if_pos none]
    exact ⟨nofun, fun _ => rfl⟩
  · rw [if_neg none]
    cases limit : q.issuedAt.advance? q.deadlineMs with
    | none =>
      refine ⟨nofun, fun late => ?_⟩
      obtain ⟨v, exists_⟩ := Timestamp.exists_advance? calendar calendar'
        (by omega : 0 ≤ q.deadlineMs) (by omega)
      rw [limit] at exists_
      cases exists_
    | some limit =>
      obtain ⟨-, limitAt, utc''⟩ := Timestamp.advance?_spec limit
      simp only [Timestamp.instant?, utc', utc'', utc, Option.map_some]
      refine ⟨fun inTime => ?_, fun late => ?_⟩
      · have := of_decide_eq_false (Except.ok.inj inTime)
        omega
      · rw [decide_eq_true]
        omega

/-- On a clock that stands still a worker answers what it can read and what it does not execute. -/
theorem turnsAway_of_late {σ η : Type} {s t : σ} {x : Except Fault Unit} {es : List (Effect η)}
    {now : Int} {stamp : Timestamp} (clock : Timestamp.onClock? now = some stamp)
    (decoded : StepRequest.decode body stamp = .ok q) (late : isExpired stamp q = .ok true)
    (yields : ((onDelivery settings own body).still now).Yields s x t es) :
    x = .ok () ∧ TurnsAway settings own q es := by
  obtain ⟨fault, answered, code⟩ : ∃ fault : StepFault,
      answer own stamp q = .ok ⟨q.expressionId, q.stepId, .failed fault.failure⟩ ∧
        fault.code = if q.operation = own then .deadlineExceeded else .invalidOperation := by
    unfold answer perform
    by_cases mine : q.operation = own
    · rw [if_neg (not_not_intro mine), late, if_pos mine]
      exact ⟨_, rfl, rfl⟩
    · rw [if_pos mine, if_neg mine]
      exact ⟨_, rfl, rfl⟩
  obtain ⟨_, rfl, yields⟩ := Routine.yieldsAt_now_bind.1 (Routine.yields_still_iff.1 yields)
  simp only [clock, decoded, answered] at yields
  unfold TurnsAway
  rw [← code]
  rcases Routine.yields_tryPublish_bind.1 yields.yields with
    ⟨rest, rfl, more, rfl, ended, -, rfl⟩ | ⟨refusal, rest, rfl, more, rfl, ended, -, rfl⟩
  · exact ⟨ended, fault.message, true, rfl⟩
  · exact ⟨ended, fault.message, false, rfl⟩

/-- What cannot be read is rejected. -/
theorem rejects_of_unread {σ η : Type} {s t : σ} {x : Except Fault Unit} {es : List (Effect η)}
    {now : Int} {stamp : Timestamp} {issues : List Issue}
    (clock : Timestamp.onClock? now = some stamp)
    (unread : StepRequest.decode body stamp = .error issues)
    (yields : ((onDelivery settings own body).still now).Yields s x t es) :
    x = .ok () ∧ es = [.settled .reject] := by
  obtain ⟨_, rfl, yields⟩ := Routine.yieldsAt_now_bind.1 (Routine.yields_still_iff.1 yields)
  simp only [clock, unread] at yields
  obtain ⟨rest, rfl, ended, -, rfl⟩ := yields
  exact ⟨ended, rfl⟩

/-- A worker hands over nothing but answers, and the numbers in them are finite. -/
theorem heeds_onDelivery {σ η : Type} {inv : σ → Prop} {rules : Rules σ} {shows : Int → Prop}
    {ready : Message → Prop} (answers : ∀ response : StepResponse, response.outcome.IsFinite →
      ready ⟨settings.resultsQueue, response.body⟩) :
    (onDelivery settings own body : Routine σ η Unit).Heeds inv rules shows ready := by
  refine Routine.heeds_now_bind.2 fun now _ => ?_
  split
  · trivial
  · split
    · trivial
    · split
      · trivial
      · next response answered =>
        have ready := answers response (isFinite_of_answer answered)
        refine (Routine.heeds_tryPublish ready).bind fun taken => ?_
        split <;> trivial

end Worker

/-! ## One step -/

namespace StepRequest

variable {q : StepRequest} {queue : String}

/-- A request with finite numbers is received as it was sent, at any time, or never. -/
theorem received_or_unread (finite : (Sending.request queue q).IsFinite)
    (dated : (Sending.request queue q).IsDated) :
    (∀ now, decode q.body now = .ok q) ∨
      ¬ Json.ShortInt q.stepId ∧ ∀ now, ∃ issues, decode q.body now = .error issues := by
  by_cases short : Json.ShortInt q.stepId
  · exact Or.inl ((Sending.received_iff dated).2 ⟨finite, short⟩)
  · refine Or.inr ⟨short, fun now => ?_⟩
    cases decoded : decode q.body now with
    | error issues => exact ⟨issues, rfl⟩
    | ok q' => exact absurd (eq_of_decode_body finite.1 finite.2 decoded).1 short

/-- A request that is sent at a time leaves its receiver no more than the time up to a deadline. -/
structure Due (q : StepRequest) (sent deadline : Int) : Prop where
  issued : Timestamp.onClock? sent = some q.issuedAt
  budget : q.deadlineMs ≤ max 0 (deadline - sent)

variable {own : Operation} {sent deadline now : Int}

/-- No worker executes a step after its deadline. -/
theorem Due.le_of_executes (due : q.Due sent deadline) (finite : (Sending.request queue q).IsFinite)
    (dated : (Sending.request queue q).IsDated) (executes : Worker.Executes own now q.body) :
    now ≤ deadline := by
  obtain ⟨stamp, request, clock, decoded, performed⟩ := executes
  obtain rfl : request = q := by
    rcases received_or_unread finite dated with received | ⟨-, unread⟩
    · exact Except.ok.inj (decoded.symm.trans (received stamp))
    · obtain ⟨issues, failed⟩ := unread stamp
      cases decoded.symm.trans failed
  have inTime := (Worker.perform_eq_execute_iff.1 performed).2
  have times := (Worker.isExpired_spec due.issued clock).1 inTime
  have budget := due.budget
  omega

/-- After its deadline a worker answers a step without executing it. -/
theorem Due.turnsAway (due : q.Due sent deadline) (finite : (Sending.request queue q).IsFinite)
    (dated : (Sending.request queue q).IsDated) (late : deadline < now)
    (clock : (Timestamp.onClock? now).isSome) {settings : Settings} {σ η : Type} {s t : σ}
    {x : Except Fault Unit} {es : List (Effect η)}
    (yields : ((Worker.onDelivery settings own q.body).still now).Yields s x t es) :
    x = .ok () ∧ (Worker.TurnsAway settings own q es ∨
      ¬ Json.ShortInt q.stepId ∧ es = [.settled .reject]) := by
  obtain ⟨stamp, clock⟩ := Option.isSome_iff_exists.1 clock
  rcases received_or_unread finite dated with received | ⟨long, unread⟩
  · have budget := due.budget
    have expired := (Worker.isExpired_spec due.issued clock).2 (by omega)
    obtain ⟨ended, away⟩ := Worker.turnsAway_of_late clock (received stamp) expired yields
    exact ⟨ended, Or.inl away⟩
  · obtain ⟨issues, failed⟩ := unread stamp
    obtain ⟨ended, rejected⟩ := Worker.rejects_of_unread clock failed yields
    exact ⟨ended, Or.inr ⟨long, rejected⟩⟩

end StepRequest

/-! ## Runs -/

/-- What goes on in the service: a call on the scheduler, or a delivery to a worker. -/
inductive Duty where
  | call (call : Scheduler.Call)
  | delivery (own : Operation) (body : Body)

namespace Duty

/-- What a duty does. -/
def routine (settings : Settings) : Duty → Routine Scheduler Unit Unit
  | call c => c.routine settings
  | delivery own body => Worker.onDelivery settings own body

/-- Duties that share a scheduler with nothing pending.  Each has a clock of its own, which stands
still until it is over. -/
def pool {ι : Type} (settings : Settings) (duties : ι → Duty) (clock : ι → Int) :
    Pool ι Scheduler Unit Unit :=
  ⟨fun i => ((duties i).routine settings).still (clock i), .empty⟩

/-- The duty is a call that submits an expression. -/
def Submits (duty : Duty) (r : ExpressionRequest) : Prop :=
  ∃ c s, duty = call c ∧ c.demand s = .expression r

end Duty

open Scheduler

variable {ι : Type} {settings : Settings} {duties : ι → Duty} {clock : ι → Int}
  {run : List (Tick ι Scheduler Unit)} {p : Pool ι Scheduler Unit Unit}

/-- The results that calls bring in during a run are what workers publish in it. -/
def Supplied (settings : Settings) (duties : ι → Duty) (run : List (Tick ι Scheduler Unit)) :
    Prop :=
  ∀ tick ∈ run, ∀ c s r, duties tick.thread = .call c → c.demand s = .result r →
    ∃ supply ∈ run, ∃ own body answer, duties supply.thread = .delivery own body ∧
      supply.published? = some ⟨settings.resultsQueue, answer⟩ ∧ StepResponse.decode answer = .ok r

/-- In a run an expression is accepted at one time, and at another a step of it is asked for: of the
entry that was entered when it was accepted. -/
def StepOf (duties : ι → Duty) (clock : ι → Int) (run : List (Tick ι Scheduler Unit))
    (r : ExpressionRequest) (accepted : Int) (q : StepRequest) (asked : Int) : Prop :=
  ∃ accepting ∈ run, ∃ asking ∈ run, ∃ place,
    (duties accepting.thread).Submits r ∧ clock accepting.thread = accepted ∧
    Admits accepted r place accepting.before accepting.after ∧
    clock asking.thread = asked ∧ Dispatches asked place q asking.before asking.after

theorem Supplied.isFinite [DecidableEq ι] (supplied : Supplied settings duties run)
    (h : Interleaves (Duty.pool settings duties clock) run p) {tick : Tick ι Scheduler Unit}
    (acts : tick ∈ run) {c : Call} {s : Scheduler} {r : StepResponse}
    (call : duties tick.thread = .call c) (demand : c.demand s = .result r) :
    r.outcome.IsFinite := by
  obtain ⟨supply, mem, own, body, answer, delivery, published, decoded⟩ :=
    supplied tick acts c s r call demand
  have performs := h.performs supply.thread
  unfold Duty.pool at performs
  simp only [delivery, Duty.routine] at performs
  have heeds : ((Worker.onDelivery settings own body : Routine Scheduler Unit Unit).still
      (clock supply.thread)).Heeds (fun _ => True) ⟨fun _ _ => True, fun _ _ _ => False⟩
      (fun _ => True) fun m => ∃ response : StepResponse, response.outcome.IsFinite ∧
        m = ⟨settings.resultsQueue, response.body⟩ :=
    (Worker.heeds_onDelivery fun response finite => ⟨response, finite, rfl⟩).still
  obtain ⟨-, -, handed⟩ := heeds.performs performs (fun _ _ => trivial) supply
    (List.mem_filter.2 ⟨mem, by simp⟩)
  rcases handed true _ (Tick.effect_of_published? published) with
    ⟨response, finite, same⟩ | ⟨made, there, readies⟩
  · obtain ⟨-, rfl⟩ := Message.mk.inj same
    exact StepResponse.eq_of_decode_body finite decoded ▸ finite
  · exact readies.elim

/-- If the duty is a call, then the message is a response. -/
def Duty.Responds (settings : Settings) (duty : Duty) (m : Message) : Prop :=
  ∀ c, duty = call c → ∃ response : ExpressionResponse,
    m = ⟨settings.responseQueue, response.body⟩

/-- A duty that brings in finite results keeps to its rules, and a call hands over nothing but
responses that no section has made ready. -/
theorem Duty.heeds {duty : Duty} {now : Int}
    (finite : ∀ c s r, duty = call c → c.demand s = .result r → r.outcome.IsFinite) :
    (duty.routine settings).Heeds AllFinite (rules settings duty.Submits now) (· = now)
      (duty.Responds settings) := by
  cases duty with
  | call c =>
    refine heeds_call (permits_terms settings (call c).Submits now) (fun r _ _ => ⟨r, rfl⟩) ?_ ?_
    · exact fun s r demand => ⟨c, s, rfl, demand⟩
    · exact fun s r demand => finite c s r rfl demand
  | delivery own body =>
    refine Worker.heeds_onDelivery fun response _ c call => ?_
    cases call

/-- What is there at the end of a run was accepted in it. -/
theorem exists_admits [DecidableEq ι] (h : Interleaves (Duty.pool settings duties clock) run p)
    (conforms : ∀ tick ∈ run, tick.after = tick.before ∨
      Conforms (duties tick.thread).Submits (clock tick.thread) tick.before tick.after)
    {place : Nat} (there : p.state.entries[place]? ≠ none) :
    ∃ tick ∈ run, ∃ r, (duties tick.thread).Submits r ∧
      Admits (clock tick.thread) r place tick.before tick.after := by
  induction h with
  | start => exact absurd rfl there
  | @act run q i e r t before acts ih =>
    have earlier : q.state.entries[place]? ≠ none → _ :=
      ih fun tick mem => conforms tick (List.mem_append_left _ mem)
    have last := conforms ⟨i, q.state, t, e⟩ (List.mem_append_right _ List.mem_cons_self)
    by_cases old : q.state.entries[place]? = none
    · rcases last with same | conforms
      · obtain rfl : t = q.state := same
        exact absurd old there
      · obtain ⟨r, submits, admits⟩ := conforms.admits place old there
        exact ⟨_, List.mem_append_right _ List.mem_cons_self, r, submits, admits⟩
    · obtain ⟨tick, mem, found⟩ := earlier old
      exact ⟨tick, List.mem_append_left _ mem, found⟩

/-- What a run tells of its steps: each goes by the terms of the submission whose step it is. -/
theorem StepOf.spec {r : ExpressionRequest} {q : StepRequest} {accepted asked : Int}
    (step : StepOf duties clock run r accepted q asked)
    (finite : ∀ tick ∈ run, tick.after.AllFinite)
    (last : ∀ tick ∈ run, tick.before.TermsLast p.state ∧ tick.after.TermsLast p.state) :
    q.expressionId = r.expressionId ∧
      (∃ deadlineAt, Budget.deadline? accepted r.deadlineMs = some deadlineAt ∧
        Budget.remaining? asked deadlineAt = some q.deadlineMs) ∧
      Timestamp.onClock? asked = some q.issuedAt ∧
      ∀ queue, (Sending.request queue q).IsFinite ∧ (Sending.request queue q).IsDated := by
  obtain ⟨accepting, mem, asking, mem', place, -, rfl, ⟨plan, deadlineAt, -, deadline, entered⟩,
    rfl, dispatches⟩ := step
  obtain ⟨e, e₁, e', here, id, same, made, left⟩ := dispatches.exists_entry
  have request := congrArg Prod.fst made
  obtain ⟨inFlight, frame⟩ := nextRequest_frame (clock asking.thread) e₁
  obtain rfl := (congrArg Prod.snd made).symm.trans frame
  obtain ⟨literals, results⟩ := finite asking mem' _ (Array.mem_of_getElem? left)
  obtain ⟨qid, -, -, -, -, budget, issued⟩ := eq_of_nextRequest request
  -- Both entries are the one that stands at the place at the end of the run.
  have new : accepting.after.entries[place]? =
      some ⟨r.expressionId, plan.steps, deadlineAt, [], none, false⟩ := by
    obtain ⟨rfl, after⟩ := Prod.mk.inj entered
    rw [← after]
    exact Array.getElem?_push_size
  obtain ⟨_, there, id', same'⟩ := (last accepting mem).2 place _ new
  obtain ⟨_, there', id'', same''⟩ := (last asking mem').1 place e here
  obtain rfl := Option.some.inj (there.symm.trans there')
  refine ⟨?_, ⟨deadlineAt, deadline, ?_⟩, issued, fun queue => ⟨?_, ?_⟩⟩
  · exact qid.trans (id.trans (id''.symm.trans id'))
  · rw [← budget, same, ← same'', same']
  · exact isFinite_of_nextRequest request literals results
  · exact isDated_of_nextRequest request

/-- Calls on the scheduler and deliveries to workers, interleaved in any way, each on a clock that
stands still.  What a call hands over is a response, or the request for a step of a submission that
was accepted in the run.  Whatever becomes of that request, and whenever and how often it is
delivered: a worker executes the step no later than the deadline of the submission, as long as the
floats are less than a millisecond off; and a worker that gets it later answers that the deadline is
exceeded, or that the operation is not its own.  (A step with a number that no reader takes is
rejected.) -/
theorem executed_by_deadline [DecidableEq ι]
    (h : Interleaves (Duty.pool settings duties clock) run p)
    (supplied : Supplied settings duties run) :
    (∀ tick ∈ run, ∀ c, duties tick.thread = .call c → ∀ accepted m,
      tick.effect = some (.handed accepted m) →
        (∃ response : ExpressionResponse, m = ⟨settings.responseQueue, response.body⟩) ∨
        ∃ r start q, StepOf duties clock run r start q (clock tick.thread) ∧
          settings.queueOf? q.operation = some m.queue ∧ m.body = q.body) ∧
    ∀ r start q asked, StepOf duties clock run r start q asked →
      q.expressionId = r.expressionId ∧
      (Budget.Precise start r.deadlineMs asked →
        (∀ own now, Worker.Executes own now q.body → now ≤ start + r.deadlineMs) ∧
        ∀ own now, start + r.deadlineMs < now → (Timestamp.onClock? now).isSome →
          ∀ x (es : List (Effect Unit)),
            ((Worker.onDelivery settings own q.body).still now).Yields () x () es →
              x = .ok () ∧ (Worker.TurnsAway settings own q es ∨
                ¬ Json.ShortInt q.stepId ∧ es = [.settled .reject])) := by
  have heeds : ∀ tick ∈ run, ((duties tick.thread).routine settings).Heeds AllFinite
      (rules settings (duties tick.thread).Submits (clock tick.thread)) (· = clock tick.thread)
      ((duties tick.thread).Responds settings) := fun tick acts =>
    Duty.heeds fun c s r call demand => supplied.isFinite h acts call demand
  have start : (Duty.pool settings duties clock).state.AllFinite := nofun
  have ticks := h.heeds (fun i => rules settings (duties i).Submits (clock i))
    (fun i => (duties i).Responds settings) start fun tick acts => (heeds tick acts).still
  have conforms : ∀ tick ∈ run, tick.after = tick.before ∨
      Conforms (duties tick.thread).Submits (clock tick.thread) tick.before tick.after :=
    fun tick mem => (ticks tick mem).2.1
  have lasts := h.lasts termsLast_self (fun _ _ _ => TermsLast.trans) fun tick mem => by
    rcases conforms tick mem with idle | conforms
    · exact idle ▸ termsLast_self _
    · exact conforms.lasts
  refine ⟨fun tick mem c call accepted m handed => ?_, fun r start q asked step => ?_⟩
  · rcases (ticks tick mem).2.2 accepted m handed with response | ⟨asking, mem', same, place, q,
      queue, dispatches, mapped, rfl⟩
    · exact Or.inl (response c call)
    · obtain ⟨e, -, -, here, -⟩ := dispatches.exists_entry
      obtain ⟨e', there, -⟩ := (lasts asking mem').1 place e here
      have stays : p.state.entries[place]? ≠ none := by
        rw [there]
        nofun
      obtain ⟨accepting, mem'', r, submits, admits⟩ := exists_admits h conforms stays
      exact Or.inr ⟨r, _, q, ⟨accepting, mem'', asking, mem', place, submits, rfl, admits,
        congrArg clock same, dispatches⟩, mapped, rfl⟩
  · obtain ⟨id, ⟨deadlineAt, deadline, remaining⟩, issued, sound⟩ :=
      step.spec (fun tick mem => (ticks tick mem).1) lasts
    obtain ⟨finite, dated⟩ := sound ""
    refine ⟨id, fun precise => ?_⟩
    have due : q.Due asked (start + r.deadlineMs) :=
      ⟨issued, Budget.le_of_remaining? precise deadline remaining⟩
    exact ⟨fun own now executes => due.le_of_executes finite dated executes,
      fun own now late onClock x es yields => due.turnsAway finite dated late onClock yields⟩

/-! ### A sum with a budget of a second -/

/-- The sum is submitted, its step is delivered, and the result is taken. -/
def sumDuties : Fin 3 → Duty :=
  ![.call (.submit ⟨"a", "1+2", 1000⟩), .delivery .add sumStep.body, .call (.result sumOutcome)]

/-- The times of these. -/
def sumClock : Fin 3 → Int := ![0, 400, 500]

theorem Duty.submits_sum {i : Fin 3} {r : ExpressionRequest} (h : (sumDuties i).Submits r) :
    sumClock i = 0 ∧ r = ⟨"a", "1+2", 1000⟩ := by
  obtain ⟨c, s, duty, demand⟩ := h
  fin_cases i <;> cases duty <;> cases demand
  exact ⟨rfl, rfl⟩

theorem executes_sumStep : Worker.Executes .add 400 sumStep.body :=
  ⟨⟨2024, 1, 1, 0, 0, 0, 400000, some 0⟩, sumStep, rfl, decode_sumStep _,
    Worker.perform_eq_execute_iff.2 ⟨rfl, rfl⟩⟩

theorem executed_by_deadline_of_sum :
    let pool := Duty.pool .standard sumDuties sumClock
    let played := pool.play ⟨0, []⟩ [0, 0, 0, 0, 0, 1, 1, 2, 2, 2, 2]
    Interleaves pool played.1 played.2 ∧ Supplied .standard sumDuties played.1 ∧
      Worker.Executes .add 400 sumStep.body ∧
      ∃ q, StepOf sumDuties sumClock played.1 ⟨"a", "1+2", 1000⟩ 0 q 0 ∧ q.body = sumStep.body ∧
        Budget.Precise 0 1000 0 ∧
        (∀ own now, Worker.Executes own now q.body → now ≤ 0 + 1000) ∧
        ∀ x (es : List (Effect Unit)),
          ((Worker.onDelivery .standard .add q.body).still 1001).Yields () x () es →
            x = .ok () ∧ (Worker.TurnsAway .standard .add q es ∨
              ¬ Json.ShortInt q.stepId ∧ es = [.settled .reject]) := by
  intro pool played
  have interleaves : Interleaves pool ([] ++ played.1) played.2 := Interleaves.start.play ⟨0, []⟩ _
  rw [List.nil_append] at interleaves
  have asked : (played.1[4]?.bind fun t => t.published?.map fun m =>
      (t.thread, m.queue, m.body)) = some (0, "operations.add", sumStep.body) := by decide +kernel
  have answered : (played.1[5]?.bind fun t => t.published?.map fun m =>
      (t.thread, m.queue, m.body)) = some (1, Settings.standard.resultsQueue, sumOutcome.body) := by
    decide +kernel
  have supplied : Supplied .standard sumDuties played.1 := by
    intro taking mem c s r duty demand
    obtain ⟨tick, there, shows⟩ := Option.bind_eq_some_iff.1 answered
    obtain ⟨⟨queue, body⟩, published, shows⟩ := Option.map_eq_some_iff.1 shows
    obtain ⟨thread, rfl, rfl⟩ : tick.thread = 1 ∧ queue = _ ∧ body = _ := by
      simpa only [Prod.mk.injEq] using shows
    have finite : sumOutcome.outcome.IsFinite := by
      show Decimal.isFinite 3 = true
      decide +kernel
    have decoded : StepResponse.decode sumOutcome.body = .ok sumOutcome :=
      StepResponse.decode_body finite
        (Json.shortInt_of_lt (k := 4) (by decide) (by decide) (by decide))
    generalize taking.thread = i at duty
    fin_cases i <;> cases duty <;> cases demand
    exact ⟨tick, List.mem_of_getElem? there, .add, sumStep.body, _, by rw [thread]; rfl, published,
      decoded⟩
  obtain ⟨requests, deadlines⟩ := executed_by_deadline interleaves supplied
  obtain ⟨tick, there, shows⟩ := Option.bind_eq_some_iff.1 asked
  obtain ⟨⟨queue, body⟩, published, shows⟩ := Option.map_eq_some_iff.1 shows
  obtain ⟨thread, rfl, rfl⟩ : tick.thread = 0 ∧ queue = _ ∧ body = _ := by
    simpa only [Prod.mk.injEq] using shows
  rcases requests tick (List.mem_of_getElem? there) (.submit ⟨"a", "1+2", 1000⟩)
      (by rw [thread]; rfl) true _ (Tick.effect_of_published? published) with
    ⟨response, same⟩ | ⟨r, start, q, step, -, body⟩
  · exact absurd (Message.mk.inj same).1 (by decide)
  · obtain ⟨accepting, -, -, -, -, submits, rfl, -⟩ := id step
    obtain ⟨start, rfl⟩ := Duty.submits_sum submits
    have asked : sumClock tick.thread = 0 := by rw [thread]; rfl
    rw [start, asked] at step
    obtain ⟨inTime, late⟩ := (deadlines _ _ q _ step).2 Budget.precise_second
    exact ⟨interleaves, supplied, executes_sumStep, q, step, body.symm, Budget.precise_second,
      inTime, late .add 1001 (by decide) rfl⟩

end Stepwise
