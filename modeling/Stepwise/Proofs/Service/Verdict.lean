import Stepwise.Proofs.Service.Redelivery
import Stepwise.Proofs.Wire.Calendar

/-!
# Which requests a worker answers

`Worker.Verdict` says what the answer to a request has to be: the checks come in a fixed order, and
the first that fails decides.  `Worker.answers_iff` says that every answer is a verdict, and which
requests are answered: a worker computes the end of a step's budget as a date, so it fails on its
own requests whose budget ends outside the calendar or starts at a local time.
-/

namespace Stepwise

/-! ## The end of a budget -/

namespace Timestamp

/-- Microseconds of the years 1 to 9999. -/
def InCalendar (micros : Int) : Prop :=
  dayNumber 1 1 1 * microsPerDay ≤ micros ∧ micros < (dayNumber 9999 12 31 + 1) * microsPerDay

instance (micros : Int) : Decidable (InCalendar micros) :=
  inferInstanceAs (Decidable (_ ∧ _))

theorem inCalendar_iff {micros : Int} : InCalendar micros ↔
    -719162 ≤ micros / microsPerDay ∧ micros / microsPerDay ≤ 2932896 := by
  have first : dayNumber 1 1 1 = -719162 := by decide
  have last : dayNumber 9999 12 31 = 2932896 := by decide
  rw [InCalendar, first, last, microsPerDay]
  omega

/-- A number of microseconds is shown by a timestamp in the years 1 to 9999, and in no others. -/
theorem isSome_ofLocalMicros?_iff {micros : Int} {offset : Option Int} :
    (ofLocalMicros? micros offset).isSome ↔ InCalendar micros := by
  rw [inCalendar_iff, Option.isSome_iff_exists]
  constructor
  · rintro ⟨t, shown⟩
    obtain ⟨calendar, at_, -⟩ := ofLocalMicros?_spec shown
    exact at_ ▸ calendar.days_bounds
  · rintro ⟨first, last⟩
    obtain ⟨⟨y, month, day⟩, hdate⟩ : ∃ date, dateOf (micros / microsPerDay) = date := ⟨_, rfl⟩
    have years := year_of_dateOf hdate first last
    unfold ofLocalMicros?
    simp only [hdate, years, decide_true, Bool.and_self, if_true]
    exact ⟨_, rfl⟩

end Timestamp

namespace StepRequest

/-- The budget of a request ends at a date of the calendar, in a zone. -/
def Ends (q : StepRequest) : Prop :=
  q.issuedAt.offset.isSome ∧
    Timestamp.InCalendar (q.issuedAt.localMicros + q.deadlineMs * 1000)

/-- At an instant a request comes too late: it has no budget, or the budget is over. -/
def Late (q : StepRequest) (instant : Int) : Prop :=
  q.deadlineMs ≤ 0 ∨
    ∃ issued, q.issuedAt.instant? = some issued ∧ issued + q.deadlineMs * 1000 < instant

end StepRequest

namespace Worker

variable {own : Operation} {now : Timestamp} {instant : Int} {q : StepRequest}

/-- Of a budget that is none or that ends at a date it can be told whether the request comes too
late. -/
theorem exists_isExpired (clock : now.instant? = some instant)
    (ends : 0 < q.deadlineMs → q.Ends) :
    ∃ late, isExpired now q = .ok late ∧ (late = true ↔ q.Late instant) := by
  unfold isExpired
  by_cases spent : q.deadlineMs ≤ 0
  · rw [if_pos spent]
    exact ⟨true, rfl, fun _ => Or.inl spent, fun _ => rfl⟩
  rw [if_neg spent]
  obtain ⟨zone, within⟩ := ends (by omega)
  obtain ⟨minutes, offset⟩ := Option.isSome_iff_exists.1 zone
  obtain ⟨limit, advanced⟩ : ∃ limit, q.issuedAt.advance? q.deadlineMs = some limit :=
    Option.isSome_iff_exists.1 (Timestamp.isSome_ofLocalMicros?_iff.2 within)
  obtain ⟨-, at_, same⟩ := Timestamp.advance?_spec advanced
  have issued : q.issuedAt.instant? = some (q.issuedAt.localMicros - minutes * 60000000) := by
    rw [Timestamp.instant?, offset, Option.map_some]
  have passes : limit.instant? =
      some (q.issuedAt.localMicros - minutes * 60000000 + q.deadlineMs * 1000) := by
    rw [Timestamp.instant?, same, offset, Option.map_some, at_]
    congr 1
    omega
  -- the end has the offset of the start, so the clock can be compared with it
  simp only [advanced, clock, passes]
  refine ⟨_, rfl, ?_⟩
  rw [decide_eq_true_eq, StepRequest.Late, issued]
  constructor
  · exact fun later => Or.inr ⟨_, rfl, later⟩
  · rintro (none | ⟨_, ⟨⟩, later⟩)
    · exact absurd none spent
    · exact later

/-- Of a budget that ends at no date, or at a local one, it cannot. -/
theorem isExpired_raises (clock : now.instant? = some instant) (budget : 0 < q.deadlineMs)
    (endless : ¬ q.Ends) : ∃ fault, isExpired now q = .error fault := by
  unfold isExpired
  rw [if_neg (by omega)]
  -- either there is no such date, or it has no offset and cannot be compared with the clock
  cases advanced : q.issuedAt.advance? q.deadlineMs with
  | none => exact ⟨_, rfl⟩
  | some limit =>
    have within := Timestamp.isSome_ofLocalMicros?_iff.1 (Option.isSome_of_eq_some advanced)
    have zoneless : q.issuedAt.offset = none :=
      Option.not_isSome_iff_eq_none.1 fun zone => endless ⟨zone, within⟩
    have nowhere : limit.instant? = none := by
      rw [Timestamp.instant?, (Timestamp.advance?_spec advanced).2.2, zoneless, Option.map_none]
    simp only [clock, nowhere]
    exact ⟨_, rfl⟩

/-! ## Verdicts -/

/-- What becomes of a request at a worker at an instant: the operation is not the worker's own, or
the request comes too late, or the divisor is zero, or the result is no finite number, or else it is
the result. -/
inductive Verdict (own : Operation) (instant : Int) (q : StepRequest) : Outcome → Prop
  | foreign (other : q.operation ≠ own) :
    Verdict own instant q (.failed ⟨.invalidOperation,
      "worker " ++ own.name ++ " cannot execute " ++ q.operation.name⟩)
  | late (mine : q.operation = own) (late : q.Late instant) :
    Verdict own instant q (.failed ⟨.deadlineExceeded, "deadline of " ++ toString q.deadlineMs ++
      " ms exceeded before step " ++ toString q.stepId⟩)
  | zeroDivisor (mine : q.operation = own) (inTime : ¬ q.Late instant)
      (divides : q.operation = .divide) (zero : q.right == 0) :
    Verdict own instant q (.failed ⟨.divByZero, "division by zero"⟩)
  | overflow (mine : q.operation = own) (inTime : ¬ q.Late instant)
      (divisor : q.operation = .divide → (q.right == 0) = false)
      (infinite : Decimal.isFinite (q.operation.apply q.left q.right) = false) :
    Verdict own instant q (.failed ⟨.executionError, q.operation.name ++ "(" ++
      Decimal.text q.left ++ ", " ++ Decimal.text q.right ++ ") overflowed"⟩)
  | value (mine : q.operation = own) (inTime : ¬ q.Late instant)
      (divisor : q.operation = .divide → (q.right == 0) = false)
      (finite : Decimal.isFinite (q.operation.apply q.left q.right)) :
    Verdict own instant q (.value (q.operation.apply q.left q.right))

/-- The outcome of a step that a worker executes is a verdict. -/
theorem verdict_of_execute (mine : q.operation = own) (inTime : ¬ q.Late instant) :
    Verdict own instant q (q.operation.outcome q.left q.right) := by
  unfold Operation.outcome Operation.execute
  by_cases zero : (q.operation = .divide && q.right == 0) = true
  · rw [if_pos zero]
    rw [Bool.and_eq_true, decide_eq_true_eq] at zero
    exact .zeroDivisor mine inTime zero.1 zero.2
  · rw [if_neg zero]
    have divisor : q.operation = .divide → (q.right == 0) = false := by
      simpa only [Bool.and_eq_true, decide_eq_true_eq, not_and, Bool.not_eq_true] using zero
    by_cases finite : Decimal.isFinite (q.operation.apply q.left q.right) = true
    · simp only [if_pos finite]
      exact .value mine inTime divisor finite
    · simp only [if_neg finite]
      exact .overflow mine inTime divisor (Bool.not_eq_true _ ▸ finite)

/-- A verdict is a failure or a finite number. -/
theorem Verdict.isFinite {o : Outcome} (h : Verdict own instant q o) : o.IsFinite := by
  cases h with
  | value mine inTime divisor finite => exact finite
  | foreign | late | zeroDivisor | overflow => trivial

/-- A request has one verdict. -/
theorem Verdict.unique {o o' : Outcome} (h : Verdict own instant q o)
    (h' : Verdict own instant q o') : o = o' := by
  cases h with
  | foreign other =>
    cases h' with
    | foreign => rfl
    | late mine | zeroDivisor mine | overflow mine | value mine => exact absurd mine other
  | late mine late =>
    cases h' with
    | foreign other => exact absurd mine other
    | late => rfl
    | zeroDivisor _ inTime | overflow _ inTime | value _ inTime => exact absurd late inTime
  | zeroDivisor mine inTime divides zero =>
    cases h' with
    | foreign other => exact absurd mine other
    | late _ late => exact absurd late inTime
    | zeroDivisor => rfl
    | overflow _ _ divisor | value _ _ divisor => cases zero.symm.trans (divisor divides)
  | overflow mine inTime divisor infinite =>
    cases h' with
    | foreign other => exact absurd mine other
    | late _ late => exact absurd late inTime
    | zeroDivisor _ _ divides zero => cases zero.symm.trans (divisor divides)
    | overflow => rfl
    | value _ _ _ finite => cases infinite.symm.trans finite
  | value mine inTime divisor finite =>
    cases h' with
    | foreign other => exact absurd mine other
    | late _ late => exact absurd late inTime
    | zeroDivisor _ _ divides zero => cases zero.symm.trans (divisor divides)
    | overflow _ _ _ infinite => cases infinite.symm.trans finite
    | value => rfl

/-- What a worker can do to a request it answers with the verdict. -/
theorem exists_answer (clock : now.instant? = some instant)
    (ends : q.operation = own → 0 < q.deadlineMs → q.Ends) :
    ∃ o, answer own now q = .ok ⟨q.expressionId, q.stepId, o⟩ ∧ Verdict own instant q o := by
  unfold answer perform
  by_cases mine : q.operation = own
  · rw [if_neg (not_not_intro mine)]
    obtain ⟨late, told, iff⟩ := exists_isExpired clock (ends mine)
    rw [told]
    cases late with
    | true => exact ⟨_, rfl, .late mine (iff.1 rfl)⟩
    | false =>
      refine ⟨_, rfl, ?_⟩
      have verdict := verdict_of_execute mine fun late => nomatch iff.2 late
      unfold Operation.outcome at verdict
      exact verdict
  · rw [if_pos mine]
    exact ⟨_, rfl, .foreign mine⟩

/-- A worker answers every request, unless it is one of its own with a budget that does not end at a
date; and the answer is the verdict on the request, under its numbers. -/
theorem answers_iff (clock : now.instant? = some instant) :
    ((∃ response, answer own now q = .ok response) ↔
      (q.operation = own → 0 < q.deadlineMs → q.Ends)) ∧
    ∀ response, answer own now q = .ok response →
      response.expressionId = q.expressionId ∧ response.stepId = q.stepId ∧
        response.outcome.IsFinite ∧ Verdict own instant q response.outcome := by
  have ends : (∃ response, answer own now q = .ok response) →
      q.operation = own → 0 < q.deadlineMs → q.Ends := by
    rintro ⟨response, answered⟩ mine budget
    by_contra endless
    obtain ⟨fault, raised⟩ := isExpired_raises clock budget endless
    rw [answer, perform, if_neg (not_not_intro mine), raised] at answered
    cases answered
  refine ⟨⟨ends, fun ends => ?_⟩, fun response answered => ?_⟩
  · obtain ⟨o, answered, -⟩ := exists_answer clock ends
    exact ⟨_, answered⟩
  · obtain ⟨o, answered', verdict⟩ := exists_answer clock (ends ⟨response, answered⟩)
    obtain rfl := Except.ok.inj (answered.symm.trans answered')
    exact ⟨rfl, rfl, verdict.isFinite, verdict⟩

/-! ### A request for a sum, in time and with a budget of thirty thousand years -/

theorem answers_sumStep :
    sumStep.issuedAt.instant? = some 1704067200000000 ∧
    (∃ response, answer .add sumStep.issuedAt sumStep = .ok response) ∧
    Verdict .add 1704067200000000 sumStep (.value 3) := by
  have clock : sumStep.issuedAt.instant? = some 1704067200000000 := by decide
  obtain ⟨answered, verdict⟩ := @answers_iff .add sumStep.issuedAt _ sumStep clock
  exact ⟨clock, answered.2 fun _ _ => ⟨rfl, by decide⟩, (verdict _ answer_sumStep).2.2.2⟩

/-- The request for the sum, with a budget and a date of its own. -/
def sumAt (deadlineMs : Int) (issuedAt : Timestamp) : StepRequest :=
  { sumStep with deadlineMs, issuedAt }

theorem decode_sumAt {deadlineMs : Int} {issuedAt : Timestamp} (short : Json.ShortInt deadlineMs)
    (calendar : issuedAt.OnCalendar) (zone : ∀ minutes ∈ issuedAt.offset, minutes.natAbs < 1440)
    (now : Timestamp) :
    StepRequest.decode (sumAt deadlineMs issuedAt).body now = .ok (sumAt deadlineMs issuedAt) :=
  StepRequest.decode_body (r := sumAt deadlineMs issuedAt)
    (by decide +kernel : Decimal.isFinite 1 = true) (by decide +kernel : Decimal.isFinite 2 = true)
    (by decide : (Nat.toDigits 10 0).length ≤ 4300) short calendar zone now

/-- A worker can read the request for a sum with a budget of a million million seconds, and one that
was sent at a local time.  It answers neither. -/
theorem readable_sums_unanswered :
    let start := sumStep.issuedAt
    let long := sumAt (10 ^ 15) start
    let zoneless := sumAt 1000 { start with offset := none }
    Timestamp.onClock? 0 = some start ∧
      (StepRequest.decode long.body start = .ok long ∧
        answer .add start long = .error .outOfRange) ∧
      StepRequest.decode zoneless.body start = .ok zoneless ∧
        answer .add start zoneless = .error .mixedTimes := by
  refine ⟨onClock?_zero, ⟨decode_sumAt ?_ ?_ ?_ _, rfl⟩, decode_sumAt ?_ ?_ ?_ _, rfl⟩
  · exact (by decide : (Nat.toDigits 10 (10 ^ 15)).length ≤ 4300)
  · exact ⟨by decide, by decide, by decide, by decide, by decide, by decide, by decide⟩
  · decide
  · exact (by decide : (Nat.toDigits 10 1000).length ≤ 4300)
  · exact ⟨by decide, by decide, by decide, by decide, by decide, by decide, by decide⟩
  · exact nofun

end Worker

end Stepwise
