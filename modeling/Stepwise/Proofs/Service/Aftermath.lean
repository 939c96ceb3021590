import Stepwise.Proofs.Service.Concurrency
import Stepwise.Proofs.Service.Terms

/-!
# Steps after the answer

A step is put in flight in one section and handed over after it, and between the two another call
may answer the expression.  So a step can come after the answer (`step_after_answer`).  But it was
under way by then: the call that hands it over has dispatched it before, and from the moment an
entry is marked as answered no result leads to another step of it (`dispatched_of_handed`).
-/

namespace Stepwise

namespace Scheduler

variable {η : Type} {settings : Settings} {compiler : Compiler} {s t : Scheduler}

/-- The rules for calls on any compiler: apart from responses, they hand over the requests of the
steps that they put in flight. -/
def dispatchRules (settings : Settings) : Rules Scheduler where
  step _ _ := True
  readies s t m := ∃ now place q queue, Dispatches now place q s t ∧
    settings.queueOf? q.operation = some queue ∧ m = ⟨queue, q.body⟩

theorem permits_dispatches (settings : Settings) (compiler : Compiler) :
    Permits settings compiler (fun _ => True) (dispatchRules settings) (fun _ => True)
      (fun _ => True) fun _ => True where
  aside _ _ := ⟨trivial, trivial⟩
  enter _ _ _ _ _ := ⟨trivial, trivial⟩
  abandon _ := ⟨trivial, trivial⟩
  prepare {_ place now} _ _ := ⟨trivial, trivial, fun q queue made mapped =>
    ⟨now, place, q, queue, Or.inl (Prod.ext made rfl), mapped, rfl⟩⟩
  accept {_ place now r} _ _ _ := ⟨trivial, trivial, fun q queue made mapped =>
    ⟨now, place, q, queue, Or.inr ⟨r, Prod.ext made rfl⟩, mapped, rfl⟩⟩

theorem Task.heeds_dispatchRules (task : Task) :
    (task.routine settings compiler : Action η Unit).Heeds (fun _ => True) (dispatchRules settings)
      (fun _ => True) fun m => ∃ r : ExpressionResponse, m = ⟨settings.responseQueue, r.body⟩ := by
  have permits := permits_dispatches settings compiler
  cases task with
  | submit r => exact heeds_submit permits (fun r => ⟨r, rfl⟩) trivial
  | result r => exact heeds_onResult permits (fun r => ⟨r, rfl⟩) trivial
  | fail id code message =>
    exact (heeds_fail permits (fun r => ⟨r, rfl⟩) id code message).bind fun _ =>
      Routine.heeds_pure _

/-- A result leads to a step only if the entry has no answer, and the entry gets none by that. -/
theorem open_of_accept {now : Int} {r : StepResponse} {place : Nat} {q : StepRequest}
    (h : accept now r place s = (.send q, t)) :
    (∃ e, s.entries[place]? = some e ∧ e.answered = false) ∧
      ∃ e, t.entries[place]? = some e ∧ e.answered = false := by
  cases here : s.entries[place]? with
  | none =>
    rw [accept, onEntry, here] at h
    cases h
  | some e =>
    rw [accept, onEntry_eq here] at h
    obtain ⟨sends, rfl⟩ := Prod.mk.inj h
    have waits : e.answered = false := by
      cases answered : e.answered with
      | false => rfl
      | true =>
        rw [advance, answered, Bool.true_or, if_pos rfl] at sends
        cases sends
    refine ⟨⟨e, rfl, waits⟩, (advance now r e).2, ?_, ?_⟩
    · exact Array.getElem?_setIfInBounds_self_of_lt (Array.getElem?_eq_some_iff.1 here).1
    · rcases advance_cases now r e with ⟨answer, reaction, -⟩ | ⟨-, kept⟩
      · cases reaction.symm.trans sends
      · exact (congrArg Prod.snd kept).trans waits

end Scheduler

open Scheduler

variable {ι η : Type} [DecidableEq ι] {settings : Settings} {compiler : Compiler}
variable {tasks : ι → Task} {run : List (Tick ι Scheduler η)} {p : Pool ι Scheduler η Unit}

/-- A result leads to another step of an entry before the entry is marked as answered, or never. -/
theorem lt_of_accept_of_marks (h : Interleaves (Task.pool settings compiler tasks) run p) {k : Nat}
    {made : Tick ι Scheduler η} (there : run[k]? = some made) {now : Int} {r : StepResponse}
    {place : Nat} {q : StepRequest}
    (accepts : accept now r place made.before = (.send q, made.after)) {a : Nat} {j : ι}
    {id : String} (marks : Sees settings run a j (.marks id place)) : k < a := by
  obtain ⟨⟨e, before, open_⟩, e', after, still⟩ := open_of_accept accepts
  obtain ⟨mark, marking, thread, shown⟩ := marks
  by_contra late
  rcases Nat.lt_or_eq_of_le (Nat.le_of_not_lt late) with earlier | rfl
  · -- the run up to the dispatch has the mark in it, and a marked entry stays marked
    obtain ⟨q', -, upTo, state, -⟩ := h.exists_acts there
    obtain ⟨phases, -, -, -, linked⟩ := exists_phases upTo
    have seen : Sees settings (run.take k) a j (.marks id place) :=
      ⟨mark, (List.getElem?_take_of_lt earlier).trans marking, thread, shown⟩
    exact linked.answered_of_marks seen (state ▸ before) open_
  · obtain rfl := Option.some.inj (there.symm.trans marking)
    obtain ⟨-, f, -, -, -, after', marked⟩ := shown
    obtain rfl := Option.some.inj (after.symm.trans after')
    cases still.symm.trans marked

/-- Any number of calls, with any compiler, interleaved in any way.  What a call hands over is a
response, or the request of a step which the same call has put in flight at an earlier tick: a first
step, or one that follows a result and was put in flight before the entry was marked as answered. -/
theorem dispatched_of_handed (h : Interleaves (Task.pool settings compiler tasks) run p) {n : Nat}
    {tick : Tick ι Scheduler η} (there : run[n]? = some tick) {accepted : Bool} {m : Message}
    (handed : tick.effect = some (.handed accepted m)) :
    (∃ r : ExpressionResponse, m = ⟨settings.responseQueue, r.body⟩) ∨
      ∃ k made now place q queue, k < n ∧ run[k]? = some made ∧ made.thread = tick.thread ∧
        settings.queueOf? q.operation = some queue ∧ m = ⟨queue, q.body⟩ ∧
        (prepareNext now place made.before = (.ok q, made.after) ∨
          (∃ r, accept now r place made.before = (.send q, made.after)) ∧
            ∀ a j id, Sees settings run a j (.marks id place) → k < a) := by
  have heeds : ∀ i, ((Task.pool settings compiler tasks).threads i : Action η Unit).Heeds
      (fun _ => True) (dispatchRules settings) (fun _ => True) fun m =>
        ∃ r : ExpressionResponse, m = ⟨settings.responseQueue, r.body⟩ :=
    fun i => (tasks i).heeds_dispatchRules
  rcases h.ready_of_handed (fun _ => dispatchRules settings) _ heeds trivial there handed with
    response | ⟨made, mem, own, now, place, q, queue, dispatches, mapped, hm⟩
  · exact Or.inl response
  · obtain ⟨k, hk⟩ := List.mem_iff_getElem?.1 mem
    have below : k < n := by
      have := (List.getElem?_eq_some_iff.1 hk).1
      rw [List.length_take] at this
      omega
    rw [List.getElem?_take_of_lt below] at hk
    refine Or.inr ⟨k, made, now, place, q, queue, below, hk, own, mapped, hm, ?_⟩
    refine dispatches.imp_right ?_
    rintro ⟨r, accepts⟩
    exact ⟨⟨r, accepts⟩, fun a j id => lt_of_accept_of_marks h hk accepts⟩

/-- A submission and a failure of its id, interleaved: the failure answers the submission, and the
first step, which the submission has not put in flight by then, comes after the answer. -/
theorem step_after_answer :
    let tasks : Fin 2 → Task :=
      ![.submit ⟨"a", "1+2", 1000⟩, .fail "a" .deadlineExceeded "late"]
    let pool : Pool (Fin 2) Scheduler Unit Unit := Task.pool .standard Plan.compile tasks
    let played := pool.play ⟨0, []⟩ [0, 0, 0, 0, 1, 1, 1, 1, 0, 0, 0]
    let first : StepRequest := ⟨"a", 0, .add, 1, 2, 1000, ⟨2024, 1, 1, 0, 0, 0, 0, some 0⟩⟩
    Interleaves pool played.1 played.2 ∧ Answers .standard played.1 7 0 ∧
      ∃ tick, played.1[10]? = some tick ∧ tick.thread = 0 ∧
        tick.effect = some (.published ⟨"operations.add", first.body⟩) := by
  intro tasks pool played first
  have run : Interleaves pool ([] ++ played.1) played.2 := Interleaves.start.play ⟨0, []⟩ _
  rw [List.nil_append] at run
  obtain ⟨t, there, thread, effect⟩ : ∃ t, played.1[7]? = some t ∧ t.thread = 1 ∧
      t.effect = some (.published ⟨Settings.standard.responseQueue,
        (ExpressionResponse.failure "a" .deadlineExceeded "late").body⟩) :=
    exists_tick_of_published (by decide +kernel)
  have responds : Sees .standard played.1 7 1 (.responds "a") :=
    ⟨t, there, thread, true, _, effect, _, rfl, rfl⟩
  obtain ⟨-, owner, -⟩ := responses_of_interleaving run
  obtain ⟨i, r, -, submits, -, -, -, answers⟩ := owner 1 7 "a" responds
  have other : tasks 1 ≠ .submit r := nofun
  have whose : i = 0 := by
    by_contra ne
    rw [Fin.eq_one_of_ne_zero i ne] at submits
    exact other submits
  rw [whose] at answers
  exact ⟨run, answers, exists_tick_of_published (by decide +kernel)⟩

end Stepwise
