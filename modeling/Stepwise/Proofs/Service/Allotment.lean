import Stepwise.Proofs.Service.Budget
import Stepwise.Proofs.Service.Course

/-!
# The budget of a first step

An expression with steps is taken and its first step is published at once, with the milliseconds
that are left of the deadline (`Scheduler.run_submit_of_free`).  They are above zero and within the
deadline exactly when the floats say so before they are cut off, and that they do for every deadline
from two milliseconds to thousands of years (`Scheduler.allots_iff`).  Of a single millisecond
nothing may be left (`Scheduler.millisecond_is_lost`).
-/

namespace Stepwise

/-- The clock of the service shows at most eight thousand years. -/
theorem Timestamp.abs_le_of_onClock? {now : Int} {issued : Timestamp}
    (date : onClock? now = some issued) : |now| ≤ 2 ^ 48 := by
  obtain ⟨calendar, later, -⟩ := advance?_spec date
  obtain ⟨first, last⟩ := calendar.days_bounds
  have start : (⟨2024, 1, 1, 0, 0, 0, 0, some 0⟩ : Timestamp).localMicros = 1704067200000000 := by
    decide +kernel
  rw [start] at later
  unfold microsPerDay at first last
  exact abs_le.2 ⟨by omega, by omega⟩

namespace Scheduler

variable {settings : Settings} {r : ExpressionRequest} {s : Scheduler} {now : Int}
  {issued : Timestamp} {v : ℚ} {η : Type}

/-- A submission with a free id and steps, while the clock stands still. -/
theorem run_submit_of_free {compiler : Compiler} {plan : Plan}
    (free : s.isPending r.expressionId = false) (hc : compiler r.expression = .ok plan)
    (steps : plan.steps ≠ []) (c : Conditions) :
    (submit settings compiler r : Action η Unit).run c s =
      match Budget.deadline? c.clock r.deadlineMs with
      | none => ⟨.error .outOfRange, (release r.expressionId (reserve r.expressionId s).2).2, []⟩
      | some deadlineAt =>
        let admitted := establish r plan.steps deadlineAt s
        let prepared := prepareNext c.clock admitted.1 admitted.2
        match prepared.1 with
        | .error fault => ⟨.error fault, prepared.2, []⟩
        | .ok q => (publishStep settings q).run c prepared.2 := by
  have some : plan.steps.isEmpty = false := by simpa using steps
  rw [run_submit_eq free, run_compile_of_steps hc some]
  cases Budget.deadline? c.clock r.deadlineMs with
  | none => rfl
  | some deadlineAt =>
    obtain ⟨admitted, h⟩ : ∃ admitted, admitted = establish r plan.steps deadlineAt s := ⟨_, rfl⟩
    have rest : (proceed settings (.some admitted.1) : Action η Unit).run c admitted.2 =
        match (prepareNext c.clock admitted.1 admitted.2).1 with
        | .error fault => ⟨.error fault, (prepareNext c.clock admitted.1 admitted.2).2, []⟩
        | .ok q =>
          (publishStep settings q).run c (prepareNext c.clock admitted.1 admitted.2).2 := by
      rw [proceed, Routine.run_now_bind, Routine.run_atomically_bind]
      cases (prepareNext c.clock admitted.1 admitted.2).1 <;> rfl
    rw [h] at rest
    exact rest

/-- While the clock stands still, a submission publishes one message, which is received as the
request for a step. -/
def Publishes (settings : Settings) (r : ExpressionRequest) (s : Scheduler) (now : Int)
    (q : StepRequest) : Prop :=
  ∃ queue body, settings.queueOf? q.operation = some queue ∧
    ((submit settings Plan.compile r : Action Unit Unit).run ⟨now, []⟩ s).effects =
      [.published ⟨queue, body⟩] ∧
    ∀ received, StepRequest.decode body received = .ok q

/-- While the clock stands still, the first step of an expression is published with at least so many
milliseconds, and with no more than the expression has. -/
def Allots (settings : Settings) (r : ExpressionRequest) (s : Scheduler) (now least : Int) : Prop :=
  ∃ q, Publishes settings r s now q ∧
    Asks r.expressionId (stepsOf (Plan.compile r.expression)) [] q ∧
    least ≤ q.deadlineMs ∧ q.deadlineMs ≤ r.deadlineMs

/-- There is one request at most that a submission publishes. -/
theorem Publishes.unique {q q' : StepRequest} (h : Publishes settings r s now q)
    (h' : Publishes settings r s now q') : q = q' := by
  obtain ⟨queue, body, -, effects, received⟩ := h
  obtain ⟨queue', body', -, effects', received'⟩ := h'
  obtain ⟨⟨rfl, rfl⟩⟩ := effects.symm.trans effects'
  exact Except.ok.inj ((received default).symm.trans (received' default))

/-- What is left of a budget has at most as many digits as a float. -/
theorem shortInt_of_fresh {budgetMs : Int}
    (fresh : Budget.fresh? now budgetMs = some v) : Json.ShortInt (max 0 ⌊v⌋) := by
  obtain ⟨deadlineAt, -, value⟩ := Option.bind_eq_some_iff.1 fresh
  have bound := abs_lt.1 (Decimal.abs_lt_of_value? value)
  obtain ⟨k, hk⟩ : ∃ k : ℕ, k = 1024 := ⟨_, rfl⟩
  have below : max 0 ⌊v⌋ < 2 ^ k := by
    refine max_lt (by positivity) (Int.floor_lt.2 ?_)
    rw [hk]
    exact_mod_cast bound.2
  have power : (2 : ℤ) ^ k ≤ 10 ^ k := pow_le_pow_left₀ zero_le_two (by decide) k
  refine Json.shortInt_of_lt (k := k) (by omega) (by omega) ?_
  zify
  rw [abs_of_nonneg (le_max_left _ _)]
  exact below.trans_le power

/-- A request for the first step of an expression is received as it was sent. -/
theorem decode_first {text id : String} {q : StepRequest}
    (asks : Asks id (stepsOf (Plan.compile text)) [] q) (short : Json.ShortInt q.deadlineMs)
    (date : Timestamp.onClock? now = some q.issuedAt) (received : Timestamp) :
    StepRequest.decode q.body received = .ok q := by
  obtain ⟨finite, finite'⟩ := finite_of_asks (evaluated_nil _) asks
  obtain ⟨calendar, -, utc⟩ := Timestamp.advance?_spec date
  have step : Json.ShortInt q.stepId := by
    obtain ⟨-, -, -, first, -⟩ := asks
    rw [first]
    exact Json.shortInt_of_lt one_pos (by decide) (by decide)
  refine StepRequest.decode_body finite finite' step short calendar ?_ received
  rw [utc]
  rintro _ ⟨⟩
  decide

/-- What is published first carries what is left of the budget as it begins. -/
theorem publishes_of_fresh (mapped : ∀ op, (settings.queueOf? op).isSome)
    (free : s.isPending r.expressionId = false) (steps : stepsOf (Plan.compile r.expression) ≠ [])
    (date : Timestamp.onClock? now = some issued)
    (fresh : Budget.fresh? now r.deadlineMs = some v) :
    ∃ q, Publishes settings r s now q ∧
      Asks r.expressionId (stepsOf (Plan.compile r.expression)) [] q ∧
      q.deadlineMs = max 0 ⌊v⌋ := by
  obtain ⟨plan, hc, some⟩ := exists_plan steps
  obtain ⟨deadlineAt, deadline, value⟩ := Option.bind_eq_some_iff.1 fresh
  obtain ⟨e, he⟩ : ∃ e : Entry, e = ⟨r.expressionId, plan.steps, deadlineAt, [], none, false⟩ :=
    ⟨_, rfl⟩
  have remaining : Budget.remaining? now e.deadlineAt = .some (max 0 ⌊v⌋) := by
    rw [he, Budget.remaining?_eq, value]
    rfl
  have results : e.results = recorded [] := by rw [he]; rfl
  obtain ⟨q, hq, asks, left, issuedAt⟩ := nextRequest_of_remaining remaining date results
    (he ▸ (ordered_of_compile hc).1) (he ▸ List.length_pos_iff.2 some)
  have asks : Asks r.expressionId (stepsOf (Plan.compile r.expression)) [] q := by
    rw [he] at asks
    rw [hc]
    exact asks
  have prepared := prepareNext_establish r plan.steps deadlineAt s now
  rw [← he, hq] at prepared
  obtain ⟨queue, hqueue, published⟩ := @run_publishStep Unit settings mapped q ⟨now, []⟩ rfl
    (prepareNext now (establish r plan.steps deadlineAt s).1
      (establish r plan.steps deadlineAt s).2).2
  refine ⟨q, ⟨queue, q.body, hqueue, ?_, decode_first asks (left ▸ shortInt_of_fresh fresh)
    (issuedAt ▸ date)⟩, asks, left⟩
  rw [run_submit_of_free free hc some, deadline]
  simp only [prepared, published]

/-- Nothing is published when the floats cannot say what is left. -/
theorem effects_eq_nil_of_stale (free : s.isPending r.expressionId = false)
    (steps : stepsOf (Plan.compile r.expression) ≠ [])
    (stale : Budget.fresh? now r.deadlineMs = none) :
    ((submit settings Plan.compile r : Action Unit Unit).run ⟨now, []⟩ s).effects = [] := by
  obtain ⟨plan, hc, some⟩ := exists_plan steps
  rw [run_submit_of_free free hc some]
  cases deadline : Budget.deadline? now r.deadlineMs with
  | none => rfl
  | some deadlineAt =>
    have unknown : Budget.remaining? now deadlineAt = none := by
      rw [Budget.fresh?, deadline] at stale
      rw [Budget.remaining?_eq, show Decimal.value? _ = none from stale]
      rfl
    obtain ⟨fault, stops⟩ := exists_nextRequest_error
      (e := ⟨r.expressionId, plan.steps, deadlineAt, [], none, false⟩) (.inl unknown)
    rw [← prepareNext_establish r plan.steps deadlineAt s now] at stops
    simp only [stops]

/-- A first step gets some of the budget, and no more than there is, exactly when the floats have
between a millisecond and one more than the budget left as it begins.  It gets all of it, or all but
a millisecond, unless the budget is one of thousands of years. -/
theorem allots_iff (mapped : ∀ op, (settings.queueOf? op).isSome)
    (free : s.isPending r.expressionId = false) (steps : stepsOf (Plan.compile r.expression) ≠ [])
    (date : Timestamp.onClock? now = some issued) (positive : 0 < r.deadlineMs) :
    (Allots settings r s now 1 ↔
      ∃ v, Budget.fresh? now r.deadlineMs = some v ∧ 1 ≤ v ∧ v < r.deadlineMs + 1) ∧
    (r.deadlineMs ≤ 2 ^ 49 → Allots settings r s now (r.deadlineMs - 1)) := by
  have allots : ∀ {v : ℚ} {least : Int}, Budget.fresh? now r.deadlineMs = some v →
      least ≤ max 0 ⌊v⌋ → v < r.deadlineMs + 1 → Allots settings r s now least := by
    intro v least fresh enough few
    obtain ⟨q, publishes, asks, left⟩ := publishes_of_fresh mapped free steps date fresh
    refine ⟨q, publishes, asks, left ▸ enough, left ▸ max_le positive.le ?_⟩
    exact Int.lt_add_one_iff.1 (Int.floor_lt.2 (by exact_mod_cast few))
  refine ⟨⟨?_, ?_⟩, fun moderate => ?_⟩
  · rintro ⟨q, publishes, -, some, few⟩
    cases fresh : Budget.fresh? now r.deadlineMs with
    | none =>
      obtain ⟨queue, body, -, effects, -⟩ := publishes
      cases effects.symm.trans (effects_eq_nil_of_stale free steps fresh)
    | some v =>
      obtain ⟨q', publishes', -, left⟩ := publishes_of_fresh mapped free steps date fresh
      obtain rfl := publishes.unique publishes'
      rw [left] at some few
      have whole : 1 ≤ ⌊v⌋ := by omega
      have bounded : ⌊v⌋ < r.deadlineMs + 1 := by omega
      refine ⟨v, rfl, ?_, ?_⟩
      · exact_mod_cast Int.le_floor.1 whole
      · exact_mod_cast Int.floor_lt.1 bounded
  · rintro ⟨v, fresh, enough, few⟩
    refine allots fresh (le_max_of_le_right (Int.le_floor.2 ?_)) few
    exact_mod_cast enough
  · have clock := Timestamp.abs_le_of_onClock? date
    obtain ⟨v, fresh, near⟩ := Budget.exists_fresh (show 2 * |now| + |r.deadlineMs| ≤ 2 ^ 50 by
      rw [abs_of_pos positive]
      omega)
    obtain ⟨low, high⟩ := abs_lt.1 near
    refine allots fresh (le_max_of_le_right (Int.le_floor.2 ?_)) (by linarith)
    push_cast
    linarith

theorem isSome_queueOf?_standard (op : Operation) : (Settings.standard.queueOf? op).isSome := by
  cases op <;> rfl

/-- Of a deadline of two milliseconds, one is left at least. -/
theorem allots_two :
    let r : ExpressionRequest := ⟨"a", "1+2", 2⟩
    let issued : Timestamp := ⟨2024, 1, 1, 0, 0, 1, 0, some 0⟩
    (∀ op, (Settings.standard.queueOf? op).isSome) ∧ empty.isPending r.expressionId = false ∧
      stepsOf (Plan.compile r.expression) ≠ [] ∧ Timestamp.onClock? 1000 = some issued ∧
      0 < r.deadlineMs ∧ Allots .standard r .empty 1000 1 := by
  intro r issued
  have free : empty.isPending r.expressionId = false := rfl
  have steps : stepsOf (Plan.compile r.expression) ≠ [] := by decide +kernel
  have date : Timestamp.onClock? 1000 = some issued := by decide +kernel
  have allotted := allots_iff isSome_queueOf?_standard free steps date (by decide)
  exact ⟨isSome_queueOf?_standard, free, steps, date, by decide, allotted.2 (by decide)⟩

/-- A deadline of one millisecond that starts when the clock is at a second is published as a
deadline of nothing. -/
theorem millisecond_is_lost :
    let r : ExpressionRequest := ⟨"a", "1+2", 1⟩
    0 < r.deadlineMs ∧ (Decimal.ofInt? r.deadlineMs).isSome ∧
      empty.isPending r.expressionId = false ∧
      (∃ q, Publishes .standard r .empty 1000 q ∧ q.stepId = 0 ∧ q.deadlineMs = 0) ∧
      ¬ Allots .standard r .empty 1000 1 := by
  intro r
  have steps : stepsOf (Plan.compile r.expression) ≠ [] := by decide +kernel
  have date : Timestamp.onClock? 1000 = some ⟨2024, 1, 1, 0, 0, 1, 0, some 0⟩ := by decide +kernel
  have nothing : (Budget.deadline? 1000 r.deadlineMs).bind (Budget.remaining? 1000) = some 0 := by
    decide +kernel
  obtain ⟨deadlineAt, deadline, nothing⟩ := Option.bind_eq_some_iff.1 nothing
  rw [Budget.remaining?_eq, Option.map_eq_some_iff] at nothing
  obtain ⟨v, value, nothing⟩ := nothing
  have fresh : Budget.fresh? 1000 r.deadlineMs = some v := by
    rw [Budget.fresh?, deadline]
    exact value
  have free : empty.isPending r.expressionId = false := rfl
  obtain ⟨q, publishes, asks, left⟩ :=
    publishes_of_fresh isSome_queueOf?_standard free steps date fresh
  rw [nothing] at left
  obtain ⟨-, -, -, first, -⟩ := id asks
  refine ⟨by decide, by decide +kernel, free, ⟨q, publishes, first, left⟩, ?_⟩
  rintro ⟨q', publishes', -, some, -⟩
  obtain rfl := publishes.unique publishes'
  omega

end Scheduler

end Stepwise
