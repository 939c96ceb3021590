import Stepwise.Proofs.Service.Intake
import Stepwise.Proofs.Service.Worker
import Stepwise.Proofs.Transport.Delivery
import Stepwise.Service.Client

/-!
# In time

While the clock stands still, and as long as some time is left and the calendar shows its end, no
step is late.  Then what a component does with a delivery is determined: a worker answers with the
outcome of its operation (`Worker.run_onDelivery`), the scheduler goes on to the next step or ends
the expression (`Scheduler.run_submit`, `Scheduler.run_onResult`), and a client takes the response
(`Client.run_onDelivery`).
-/

namespace Stepwise

open Stepwise.Text (Body)

/-- An expression under an id, and what the clock tells of its deadline. -/
structure Errand where
  id : String
  text : String
  clock : Int
  deadlineAt : Float
  /-- The milliseconds that are left. -/
  left : Int
  issued : Timestamp

namespace Errand

/-- The steps of the expression. -/
def steps (errand : Errand) : List Step := stepsOf (Plan.compile errand.text)

/-- Some time is left, and its end is a date of the calendar. -/
structure InTime (errand : Errand) : Prop where
  remaining : Budget.remaining? errand.clock errand.deadlineAt = some errand.left
  positive : 0 < errand.left
  date : Timestamp.onClock? errand.clock = some errand.issued
  limit : (errand.issued.advance? errand.left).isSome

/-- A request for the step after the first ones, with all the time that is left. -/
structure Demands (errand : Errand) (xs : List Float) (q : StepRequest) : Prop where
  asks : Asks errand.id errand.steps xs q
  deadline : q.deadlineMs = errand.left
  issued : q.issuedAt = errand.issued

variable {errand : Errand}

theorem InTime.onCalendar (inTime : errand.InTime) :
    errand.issued.OnCalendar ∧ errand.issued.offset = some 0 := by
  obtain ⟨calendar, -, offset⟩ := Timestamp.advance?_spec inTime.date
  exact ⟨calendar, offset⟩

/-- The end of the time that is left is on the calendar, so there are few digits in it. -/
theorem InTime.shortInt (inTime : errand.InTime) : Json.ShortInt errand.left := by
  obtain ⟨limit, hlimit⟩ := Option.isSome_iff_exists.1 inTime.limit
  obtain ⟨calendar, later, -⟩ := Timestamp.advance?_spec hlimit
  have ends := calendar.localMicros_bounds
  have starts := inTime.onCalendar.1.localMicros_bounds
  refine Json.shortInt_of_lt (k := 19) (by decide) (by decide) ?_
  omega

theorem InTime.not_expired (inTime : errand.InTime) {q : StepRequest}
    (deadline : q.deadlineMs = errand.left) (issued : q.issuedAt = errand.issued) :
    Worker.isExpired errand.issued q = .ok false := by
  obtain ⟨limit, hlimit⟩ := Option.isSome_iff_exists.1 inTime.limit
  obtain ⟨-, later, offset⟩ := Timestamp.advance?_spec hlimit
  have positive := inTime.positive
  have utc := inTime.onCalendar.2
  rw [Worker.isExpired, deadline, issued, hlimit, if_neg (by omega)]
  simp only [Timestamp.instant?, offset, utc, Option.map_some]
  rw [decide_eq_false (by omega)]

end Errand

variable {σ η : Type} {settings : Settings} {errand : Errand}

/-! ## Workers -/

/-- A worker answers a step in time with the outcome of its operation. -/
theorem Worker.run_onDelivery (inTime : errand.InTime) {xs : List Float} {q : StepRequest}
    (demands : errand.Demands xs q) (evaluated : Evaluated errand.steps xs)
    (short : Json.ShortInt xs.length) (s : σ) :
    (onDelivery settings q.operation q.body : Routine σ η Unit).run ⟨errand.clock, []⟩ s =
      ⟨.ok (), s, [.published ⟨settings.resultsQueue,
        (⟨errand.id, xs.length, q.operation.outcome q.left q.right⟩ : StepResponse).body⟩,
        .settled .ack]⟩ := by
  obtain ⟨asks, deadline, issued⟩ := demands
  obtain ⟨calendar, utc⟩ := inTime.onCalendar
  obtain ⟨left, right⟩ := finite_of_asks evaluated asks
  obtain ⟨-, -, hid, hstep, -⟩ := asks
  have decoded : StepRequest.decode q.body errand.issued = .ok q := by
    refine StepRequest.decode_body left right (hstep ▸ short) (deadline ▸ inTime.shortInt)
      (issued ▸ calendar) ?_ _
    rw [issued, utc]
    rintro _ ⟨⟩
    decide
  have answered : answer q.operation errand.issued q =
      .ok ⟨errand.id, xs.length, q.operation.outcome q.left q.right⟩ := by
    rw [answer, perform, if_neg (not_not_intro rfl), inTime.not_expired deadline issued, hid, hstep]
    unfold Operation.outcome
    cases q.operation.execute q.left q.right <;> rfl
  rw [onDelivery, Routine.run_now_bind, inTime.date]
  simp only [decoded, answered]
  rfl

/-! ## The scheduler -/

namespace Scheduler

/-- Nothing is pending. -/
structure Idle (s : Scheduler) : Prop where
  table : s.table = []
  reserved : s.reserved = []

/-- Nothing is pending but the expression of an errand, which waits for the result of the step after
the first ones. -/
def Pursues (s : Scheduler) (errand : Errand) (xs : List Float) : Prop :=
  s.reserved = [] ∧ ∃ place e, s.table = [(errand.id, place)] ∧ s.entries[place]? = some e ∧
    e.expressionId = errand.id ∧ e.steps = errand.steps ∧ e.deadlineAt = errand.deadlineAt ∧
    e.Awaits xs

variable {r : ExpressionRequest} {s : Scheduler} {xs : List Float}

theorem Pursues.more (h : s.Pursues errand xs) : xs.length < errand.steps.length := by
  obtain ⟨-, _, e, -, -, -, steps, -, awaits⟩ := h
  exact steps ▸ awaits.more

/-- There is a request for the next step as long as the clock can tell what is left, even if that is
nothing, and which date it is. -/
theorem nextRequest_of_remaining {now left : Int} {issued : Timestamp} {e : Entry}
    (remaining : Budget.remaining? now e.deadlineAt = some left)
    (date : Timestamp.onClock? now = some issued) (results : e.results = recorded xs)
    (ordered : Ordered e.steps) (more : xs.length < e.steps.length) :
    ∃ q, nextRequest now e = (.ok q, { e with inFlight := some (xs.length : Int) }) ∧
      Asks e.expressionId e.steps xs q ∧ q.deadlineMs = left ∧ q.issuedAt = issued := by
  obtain ⟨hentry, ⟨-, off⟩ | ⟨q, hq, asks⟩⟩ := nextRequest_spec results ordered more now
  · rw [OffClock, remaining, date] at off
    rcases off with off | off <;> cases off
  · obtain ⟨-, -, -, -, -, budget, clock⟩ := eq_of_nextRequest hq
    exact ⟨q, Prod.ext hq hentry, asks, Option.some.inj (budget.symm.trans remaining),
      Option.some.inj (clock.symm.trans date)⟩

/-- In time there is a request for the next step. -/
theorem exists_nextRequest (inTime : errand.InTime) {e : Entry} (id : e.expressionId = errand.id)
    (steps : e.steps = errand.steps) (deadline : e.deadlineAt = errand.deadlineAt)
    (results : e.results = recorded xs) (ordered : Ordered e.steps)
    (more : xs.length < e.steps.length) :
    ∃ q, nextRequest errand.clock e = (.ok q, { e with inFlight := some (xs.length : Int) }) ∧
      errand.Demands xs q := by
  have remaining : Budget.remaining? errand.clock e.deadlineAt = some errand.left := by
    rw [deadline, inTime.remaining]
  obtain ⟨q, hq, asks, left, issued⟩ :=
    nextRequest_of_remaining remaining inTime.date results ordered more
  exact ⟨q, hq, id ▸ steps ▸ asks, left, issued⟩

theorem run_publishStep (mapped : ∀ op, (settings.queueOf? op).isSome) (q : StepRequest)
    (c : Conditions) (accepting : c.refusing = []) (s : Scheduler) :
    ∃ queue, settings.queueOf? q.operation = some queue ∧
      (publishStep settings q : Action η Unit).run c s =
        ⟨.ok (), s, [.published ⟨queue, q.body⟩]⟩ := by
  obtain ⟨queue, hq⟩ := Option.isSome_iff_exists.1 (mapped q.operation)
  refine ⟨queue, hq, ?_⟩
  rw [publishStep, hq]
  obtain ⟨clock, refusing⟩ := c
  subst accepting
  rfl

/-! ### Submissions -/

/-- An expression without steps is answered while it is compiled. -/
theorem run_compile_answer (none : stepsOf (Plan.compile r.expression) = []) (clock : Int)
    (s : Scheduler) :
    ∃ o, reference r.expression = some o ∧
      (compile settings Plan.compile r : Action η (Option Nat)).run ⟨clock, []⟩ s =
        ⟨.ok .none, s, [.published ⟨settings.responseQueue,
          (⟨r.expressionId, o⟩ : ExpressionResponse).body⟩]⟩ := by
  rw [compile, reference]
  cases hc : Plan.compile r.expression with
  | error fault => exact ⟨_, rfl, rfl⟩
  | ok plan =>
    rw [hc] at none
    change plan.steps = [] at none
    obtain ⟨x, hx⟩ := Option.isSome_iff_exists.1 ((ordered_of_compile hc).2 none)
    refine ⟨.value x, ?_, ?_⟩
    · simp [none, evaluate, valueOf?, hx]
    · simp only [none, hx]
      rfl

/-- An expression with steps gets an entry. -/
theorem run_compile_steps {plan : Plan} {clock : Int} {deadlineAt : Float}
    (hc : Plan.compile r.expression = .ok plan) (steps : plan.steps ≠ [])
    (deadline : Budget.deadline? clock r.deadlineMs = some deadlineAt) (s : Scheduler) :
    (compile settings Plan.compile r : Action η (Option Nat)).run ⟨clock, []⟩ s =
      ⟨.ok (some s.entries.size),
        (enter ⟨r.expressionId, plan.steps, deadlineAt, [], none, false⟩ s).2, []⟩ := by
  rw [compile, hc]
  simp only [List.isEmpty_iff, steps, if_false]
  rw [Routine.run_now_bind, deadline]
  rfl

theorem reserve_of_idle (idle : s.Idle) (id : String) :
    reserve id s = (true, { s with reserved := [id] }) := by
  rw [reserve, isPending, idle.table, idle.reserved]
  rfl

/-- What a submission does when its expression is compiled and the id is released. -/
def proceed (settings : Settings) : Option Nat → Action η Unit
  | none => pure ()
  | some place => do
    let now ← Routine.now
    match ← Routine.atomically (prepareNext now place) with
    | .error fault => .raise fault
    | .ok request => publishStep settings request

/-- A submission to a scheduler with nothing pending. -/
theorem run_submit (idle : s.Idle) {c : Conditions} {place? : Option Nat} {t u : Scheduler}
    {x : Except Fault Unit} {es fs : List (Effect η)}
    (compiled : (compile settings Plan.compile r).run c { s with reserved := [r.expressionId] } =
      ⟨.ok place?, t, es⟩)
    (rest : (proceed settings place?).run c (release r.expressionId t).2 = ⟨x, u, fs⟩) :
    (submit settings Plan.compile r).run c s = ⟨x, u, es ++ fs⟩ := by
  change (if (reserve r.expressionId s).1 = true then
      ((compile settings Plan.compile r).thenAlways
        (Routine.atomically (release r.expressionId))).bind (proceed settings)
    else pure ()).run c (reserve r.expressionId s).2 = _
  rw [reserve_of_idle idle, if_pos rfl]
  have released : (Routine.atomically (release r.expressionId)).run c t =
    (⟨.ok (), (release r.expressionId t).2, []⟩ : Run Scheduler η Unit) := rfl
  have done := Routine.run_bind (Routine.run_thenAlways compiled released) rest
  rw [List.append_nil] at done
  exact done

theorem run_submit_answer (settings : Settings) (idle : s.Idle)
    (none : stepsOf (Plan.compile r.expression) = []) (clock : Int) :
    ∃ o, reference r.expression = some o ∧
      (submit settings Plan.compile r : Action η Unit).run ⟨clock, []⟩ s =
        ⟨.ok (), s, [.published ⟨settings.responseQueue,
          (⟨r.expressionId, o⟩ : ExpressionResponse).body⟩]⟩ := by
  obtain ⟨o, ho, compiled⟩ := run_compile_answer none clock { s with reserved := [r.expressionId] }
  refine ⟨o, ho, run_submit idle compiled ?_⟩
  have same : { s with reserved := [] } = s := by rw [← idle.reserved]
  have released : (release r.expressionId { s with reserved := [r.expressionId] }).2 = s := by
    rw [← same]
    simp [release]
  rw [released]
  rfl

/-- In time the next step of an entry is published. -/
theorem run_proceed (inTime : errand.InTime) (mapped : ∀ op, (settings.queueOf? op).isSome)
    {place : Nat} {e : Entry} (he : s.entries[place]? = some e) (id : e.expressionId = errand.id)
    (steps : e.steps = errand.steps) (deadline : e.deadlineAt = errand.deadlineAt)
    (results : e.results = recorded xs) (ordered : Ordered e.steps)
    (more : xs.length < e.steps.length) :
    ∃ q queue, settings.queueOf? q.operation = some queue ∧ errand.Demands xs q ∧
      (proceed settings (some place) : Action η Unit).run ⟨errand.clock, []⟩ s =
        ⟨.ok (), { s with
          entries := s.entries.setIfInBounds place { e with inFlight := some (xs.length : Int) } },
          [.published ⟨queue, q.body⟩]⟩ := by
  obtain ⟨q, hq, demands⟩ := exists_nextRequest inTime id steps deadline results ordered more
  obtain ⟨queue, hqueue, published⟩ := run_publishStep mapped q ⟨errand.clock, []⟩ rfl
    { s with
      entries := s.entries.setIfInBounds place { e with inFlight := some (xs.length : Int) } }
  refine ⟨q, queue, hqueue, demands, ?_⟩
  have prepared := onEntry_eq he (.error .outOfRange) (nextRequest errand.clock)
  change prepareNext errand.clock place s = _ at prepared
  rw [hq] at prepared
  rw [proceed, Routine.run_now_bind, Routine.run_atomically_bind, prepared]
  exact published

/-- An expression with steps becomes pending, and its first step is published. -/
theorem run_submit_steps (inTime : errand.InTime) (mapped : ∀ op, (settings.queueOf? op).isSome)
    (idle : s.Idle) (steps : errand.steps ≠ []) {deadlineMs : Int}
    (deadline : Budget.deadline? errand.clock deadlineMs = some errand.deadlineAt) :
    ∃ t q queue, settings.queueOf? q.operation = some queue ∧ t.Pursues errand [] ∧
      errand.Demands [] q ∧
      (submit settings Plan.compile ⟨errand.id, errand.text, deadlineMs⟩ : Action η Unit).run
        ⟨errand.clock, []⟩ s = ⟨.ok (), t, [.published ⟨queue, q.body⟩]⟩ := by
  obtain ⟨plan, hc, steps⟩ := exists_plan steps
  have same : plan.steps = errand.steps := by rw [Errand.steps, hc]; rfl
  obtain ⟨e, he⟩ : ∃ e : Entry, e = ⟨errand.id, plan.steps, errand.deadlineAt, [], none, false⟩ :=
    ⟨_, rfl⟩
  have compiled : (compile settings Plan.compile ⟨errand.id, errand.text, deadlineMs⟩ :
      Action η (Option Nat)).run ⟨errand.clock, []⟩ { s with reserved := [errand.id] } =
        ⟨.ok (some s.entries.size), (enter e { s with reserved := [errand.id] }).2, []⟩ := by
    rw [he]
    exact run_compile_steps (r := ⟨errand.id, errand.text, deadlineMs⟩) hc steps deadline _
  have entered : (release errand.id (enter e { s with reserved := [errand.id] }).2).2 =
      { s with
        entries := s.entries.push e, table := [(errand.id, s.entries.size)], reserved := [] } := by
    simp [release, enter, idle.table, he]
  have results : e.results = recorded [] := by rw [he]; rfl
  obtain ⟨q, queue, hqueue, demands, published⟩ := run_proceed inTime mapped
    (s := { s with
      entries := s.entries.push e, table := [(errand.id, s.entries.size)], reserved := [] })
    Array.getElem?_push_size (by rw [he]) (by rw [he, same]) (by rw [he]) results
    (he ▸ (ordered_of_compile hc).1) (he ▸ List.length_pos_iff.2 steps)
  rw [← entered] at published
  refine ⟨_, q, queue, hqueue, ⟨?_, s.entries.size, { e with inFlight := some 0 }, ?_⟩, demands,
    run_submit idle compiled published⟩
  · rw [entered]
  · rw [entered]
    refine ⟨rfl, by simp, by rw [he], by rw [he, same], by rw [he], ?_⟩
    subst he
    exact ⟨rfl, rfl, rfl, List.length_pos_iff.2 steps, (ordered_of_compile hc).1⟩

/-! ### Results -/

/-- The answer to the step that an entry waits for is looked up by its id. -/
theorem run_onResult {id : String} {place : Nat} {e : Entry} (table : s.table = [(id, place)])
    (he : s.entries[place]? = some e) (step : Int) (o : Outcome) (c : Conditions) :
    (onResult settings ⟨id, step, o⟩ : Action η Unit).run c s =
      (match (advance c.clock ⟨id, step, o⟩ e).1 with
        | .nothing => pure ()
        | .answer response => finish settings id response
        | .send request => publishStep settings request
        | .stop fault => .raise fault : Action η Unit).run c
          { s with entries :=
              s.entries.setIfInBounds place (advance c.clock ⟨id, step, o⟩ e).2 } := by
  have found : s.find? id = some place := by simp [find?, table]
  have accepted := onEntry_eq he .nothing (advance c.clock ⟨id, step, o⟩)
  change accept c.clock ⟨id, step, o⟩ place s = _ at accepted
  change (match s.find? id with
    | none => pure ()
    | some place => _ : Action η Unit).run c s = _
  rw [found]
  change (match (accept c.clock ⟨id, step, o⟩ place s).1 with
    | .nothing => pure ()
    | .answer response => finish settings id response
    | .send request => publishStep settings request
    | .stop fault => .raise fault : Action η Unit).run c
      (accept c.clock ⟨id, step, o⟩ place s).2 = _
  rw [accepted]

/-- The outcome of the last step, or a failure, ends the expression. -/
theorem run_onResult_end (settings : Settings) (pursues : s.Pursues errand xs) {o : Outcome}
    (last : ∀ x, o = .value x → xs.length + 1 = errand.steps.length) :
    ∃ t, t.Idle ∧
      (onResult settings ⟨errand.id, xs.length, o⟩ : Action η Unit).run ⟨errand.clock, []⟩ s =
        ⟨.ok (), t, [.published ⟨settings.responseQueue,
          (⟨errand.id, o⟩ : ExpressionResponse).body⟩]⟩ := by
  obtain ⟨reserved, place, e, table, he, hid, steps, -, awaits⟩ := pursues
  have answered : (advance errand.clock ⟨errand.id, xs.length, o⟩ e).1 = .answer ⟨errand.id, o⟩ := by
    rw [← hid]
    obtain ⟨-, ⟨hne, -⟩ | ⟨-, f, hf, hadv⟩ | ⟨-, x, hx, ⟨-, hadv⟩ | ⟨more, hsteps, -⟩⟩⟩ :=
      advance_spec awaits errand.clock ⟨e.expressionId, xs.length, o⟩
    · exact (hne rfl).elim
    · cases hf
      exact hadv
    · cases hx
      exact hadv
    -- To wait for one more step the entry would need more steps than it has.
    · have := more.more
      rw [hsteps, steps, List.length_append, List.length_singleton, last x hx] at this
      exact (Nat.lt_irrefl _ this).elim
  obtain ⟨e', he'⟩ : ∃ e', e' = (advance errand.clock ⟨errand.id, xs.length, o⟩ e).2 := ⟨_, rfl⟩
  refine ⟨(remove errand.id { s with entries := s.entries.setIfInBounds place e' }).2,
    ⟨by simp [remove, table], reserved⟩, (run_onResult table he _ o ⟨errand.clock, []⟩).trans ?_⟩
  rw [answered, he']
  rfl

/-- In time the result of a step that is not the last leads to the next one. -/
theorem exists_advance (inTime : errand.InTime) {e : Entry} (id : e.expressionId = errand.id)
    (steps : e.steps = errand.steps) (deadline : e.deadlineAt = errand.deadlineAt)
    (awaits : e.Awaits xs) (x : Float) (more : xs.length + 1 < errand.steps.length) :
    ∃ q, errand.Demands (xs ++ [x]) q ∧
      (advance errand.clock ⟨errand.id, xs.length, .value x⟩ e).1 = .send q ∧
      (advance errand.clock ⟨errand.id, xs.length, .value x⟩ e).2 =
        { e with inFlight := some ((xs ++ [x]).length : Int), results := recorded (xs ++ [x]) } := by
  obtain ⟨results, inFlight, open_, -, ordered⟩ := awaits
  obtain ⟨q, hq, demands⟩ := exists_nextRequest inTime
    (e := { e with inFlight := none, results := recorded (xs ++ [x]) }) id steps deadline rfl
    ordered (by rw [steps, List.length_append, List.length_singleton]; exact more)
  have unfinished : ¬ (xs.length + 1 = e.steps.length) := by rw [steps]; omega
  refine ⟨q, demands, ?_⟩
  rw [advance, if_neg (by simp [inFlight, open_])]
  simp [results, store_recorded, unfinished, hq]

theorem run_onResult_next (inTime : errand.InTime)
    (mapped : ∀ op, (settings.queueOf? op).isSome) (pursues : s.Pursues errand xs) (x : Float)
    (more : xs.length + 1 < errand.steps.length) :
    ∃ t q queue, settings.queueOf? q.operation = some queue ∧ t.Pursues errand (xs ++ [x]) ∧
      errand.Demands (xs ++ [x]) q ∧
      (onResult settings ⟨errand.id, xs.length, .value x⟩ : Action η Unit).run
        ⟨errand.clock, []⟩ s = ⟨.ok (), t, [.published ⟨queue, q.body⟩]⟩ := by
  obtain ⟨reserved, place, e, table, he, hid, steps, deadline, awaits⟩ := pursues
  obtain ⟨q, demands, reaction, entry⟩ := exists_advance inTime hid steps deadline awaits x more
  obtain ⟨hlt, -⟩ := Array.getElem?_eq_some_iff.1 he
  obtain ⟨t, ht⟩ : ∃ t, t = { s with
    entries := s.entries.setIfInBounds place
      (advance errand.clock ⟨errand.id, xs.length, .value x⟩ e).2 } := ⟨_, rfl⟩
  obtain ⟨queue, hqueue, published⟩ := run_publishStep mapped q ⟨errand.clock, []⟩ rfl t
  refine ⟨t, q, queue, hqueue, ?_, demands, ?_⟩
  · rw [ht]
    refine ⟨reserved, place, _, table, Array.getElem?_setIfInBounds_self_of_lt hlt, ?_⟩
    rw [entry]
    refine ⟨hid, steps, deadline, rfl, rfl, awaits.open_, ?_, awaits.ordered⟩
    rw [List.length_append, List.length_singleton]
    exact steps ▸ more
  · rw [run_onResult table he]
    simp only [reaction, ← ht]
    exact published

/-! ### Deliveries -/

variable {c : Conditions} {t : Scheduler} {es : List (Effect η)}

theorem run_onRequestDelivery (short : Json.ShortInt r.deadlineMs)
    (h : (submit settings Plan.compile r).run c s = ⟨.ok (), t, es⟩) :
    (onRequestDelivery settings Plan.compile r.body).run c s =
      ⟨.ok (), t, es ++ [.settled .ack]⟩ := by
  have handled : (handleRequest settings Plan.compile r.body).run c s = ⟨.ok (), t, es⟩ := by
    have decoded := decodeRequest_body short s
    generalize r.body = body at decoded ⊢
    rw [handleRequest, Routine.run_atomically_bind, decoded]
    exact h
  exact Routine.run_thenAlways handled rfl

theorem run_onResultDelivery {r : StepResponse} (finite : r.outcome.IsFinite)
    (short : Json.ShortInt r.stepId)
    (h : (onResult settings r).run c s = ⟨.ok (), t, es⟩) :
    (onResultDelivery settings r.body).run c s = ⟨.ok (), t, es ++ [.settled .ack]⟩ := by
  have handled : (handleResult settings r.body).run c s = ⟨.ok (), t, es⟩ := by
    rw [handleResult, StepResponse.decode_body finite short]
    exact h
  exact Routine.run_thenAlways handled rfl

end Scheduler

/-! ## Clients -/

/-- A client waits for the response under one id and for nothing else. -/
structure Client.Expects (c : Client) (id : String) (place : Nat) : Prop where
  waiting : c.waiting = [(id, place)]
  unresolved : c.responses[place]? = some none

/-- A client that has got the response it waited for. -/
def Client.served (c : Client) (place : Nat) (r : ExpressionResponse) : Client :=
  { c with waiting := [], responses := c.responses.setIfInBounds place (some r) }

theorem Client.run_onDelivery {c : Client} {place : Nat} {r : ExpressionResponse}
    (expects : c.Expects r.expressionId place) (finite : r.outcome.IsFinite) (k : Conditions) :
    (onDelivery r.body : Routine Client η Unit).run k c =
      ⟨.ok (), c.served place r, [.settled .ack]⟩ := by
  obtain ⟨waiting, unresolved⟩ := expects
  rw [onDelivery, ExpressionResponse.decode_body finite]
  have unregistered : unregister r.expressionId c = (some place, { c with waiting := [] }) := by
    simp [unregister, waiting]
  have resolved : resolve place r { c with waiting := [] } = (.ok (), c.served place r) := by
    simp [resolve, unresolved, served]
  rw [Routine.run_atomically_bind, unregistered]
  simp only
  rw [Routine.run_atomically_bind, resolved]
  rfl

end Stepwise
