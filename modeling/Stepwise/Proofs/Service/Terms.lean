import Stepwise.Proofs.Service.Legible

/-!
# The terms of a submission

A submission is accepted by the section that enters it into the table (`Admits`), and there its
deadline is fixed for good: the entry keeps its place, its id and its deadline whatever happens
(`TermsLast`).  A step is dispatched by the section that puts it in flight (`Dispatches`), with what
is left of that deadline.  `permits_terms` says that these are the only ways in which calls enter
expressions and come to requests, and that the numbers in the entries stay finite as long as the
results that come in are.
-/

namespace Stepwise

open Stepwise.Text (Body)

/-- The numbers in the steps and the results of an entry are finite. -/
structure Entry.IsFinite (e : Entry) : Prop where
  literals : Scheduler.FiniteLiterals e.steps
  results : ∀ p ∈ e.results, Decimal.isFinite p.2 = true

namespace Scheduler

/-- The numbers in all entries are finite. -/
def AllFinite (s : Scheduler) : Prop := ∀ e ∈ s.entries, e.IsFinite

/-- Each entry keeps its place, its id and its deadline. -/
def TermsLast (s t : Scheduler) : Prop :=
  ∀ (place : Nat) (e : Entry), s.entries[place]? = some e → ∃ e', t.entries[place]? = some e' ∧
    e'.expressionId = e.expressionId ∧ e'.deadlineAt = e.deadlineAt

/-- A section accepts an expression: it enters it with its steps and with a deadline, which counts
from now on. -/
def Admits (now : Int) (r : ExpressionRequest) (place : Nat) (s t : Scheduler) : Prop :=
  ∃ plan deadlineAt, Plan.compile r.expression = .ok plan ∧
    Budget.deadline? now r.deadlineMs = some deadlineAt ∧
    enter ⟨r.expressionId, plan.steps, deadlineAt, [], none, false⟩ s = (place, t)

/-- A section puts a step of the entry at a place in flight and makes its request: that of the first
step, or of the next one after a result. -/
def Dispatches (now : Int) (place : Nat) (q : StepRequest) (s t : Scheduler) : Prop :=
  prepareNext now place s = (.ok q, t) ∨ ∃ r, accept now r place s = (.send q, t)

/-- What a section of a call may do to the entries: they last, and one that is new is that of an
expression which the call demands. -/
structure Conforms (demands : ExpressionRequest → Prop) (now : Int) (s t : Scheduler) : Prop where
  lasts : s.TermsLast t
  admits : ∀ place, s.entries[place]? = none → t.entries[place]? ≠ none →
    ∃ r, demands r ∧ Admits now r place s t

/-- The rules for a call: it enters nothing but what it demands, and the requests that it may hand
over are those of steps that it puts in flight. -/
def rules (settings : Settings) (demands : ExpressionRequest → Prop) (now : Int) :
    Rules Scheduler where
  step := Conforms demands now
  readies s t m := ∃ place q queue, Dispatches now place q s t ∧
    settings.queueOf? q.operation = some queue ∧ m = ⟨queue, q.body⟩

variable {s t u : Scheduler} {demands : ExpressionRequest → Prop} {now : Int}

/-! ## Sections -/

theorem termsLast_self (s : Scheduler) : s.TermsLast s := fun _ e there => ⟨e, there, rfl, rfl⟩

theorem TermsLast.trans (h : s.TermsLast t) (h' : t.TermsLast u) : s.TermsLast u := by
  intro place e there
  obtain ⟨e', there', id, deadline⟩ := h place e there
  obtain ⟨e'', there'', id', deadline'⟩ := h' place e' there'
  exact ⟨e'', there'', id'.trans id, deadline'.trans deadline⟩

theorem conforms_of_entries (h : t.entries = s.entries) : Conforms demands now s t := by
  refine ⟨fun _ e there => ⟨e, h ▸ there, rfl, rfl⟩, fun place free taken => ?_⟩
  rw [h] at taken
  exact absurd free taken

/-- What a section does to an entry: it keeps the terms, and the numbers stay finite. -/
def KeepsTerms {α : Type} (f : Entry → α × Entry) : Prop :=
  ∀ e, (f e).2.expressionId = e.expressionId ∧ (f e).2.deadlineAt = e.deadlineAt ∧
    (e.IsFinite → (f e).2.IsFinite)

theorem KeepsTerms.onEntry {α : Type} {f : Entry → α × Entry} (kept : KeepsTerms f) (place : Nat)
    (otherwise : α) (finite : s.AllFinite) :
    (onEntry place otherwise f s).2.AllFinite ∧
      Conforms demands now s (onEntry place otherwise f s).2 := by
  unfold Scheduler.onEntry
  split
  · exact ⟨finite, conforms_of_entries rfl⟩
  · next e here =>
    obtain ⟨id, deadline, stays⟩ := kept e
    refine ⟨?_, ?_, ?_⟩
    · intro e' mem
      rcases Array.mem_or_eq_of_mem_setIfInBounds mem with old | rfl
      · exact finite e' old
      · exact stays (finite e (Array.mem_of_getElem? here))
    · intro other e' there
      rw [Array.getElem?_setIfInBounds]
      split
      · next same =>
        subst same
        obtain rfl := Option.some.inj (here.symm.trans there)
        rw [if_pos (Array.getElem?_eq_some_iff.1 here).1]
        exact ⟨_, rfl, id, deadline⟩
      · exact ⟨e', there, rfl, rfl⟩
    · intro other free taken
      rw [Array.getElem?_eq_none_iff] at free
      exact absurd (Array.getElem?_eq_none (by simpa using free)) taken

theorem conforms_enter {r : ExpressionRequest} {plan : Plan} {deadlineAt : Float}
    (demanded : demands r) (compiled : Plan.compile r.expression = .ok plan)
    (deadline : Budget.deadline? now r.deadlineMs = some deadlineAt) :
    Conforms demands now s
      (enter ⟨r.expressionId, plan.steps, deadlineAt, [], none, false⟩ s).2 := by
  refine ⟨?_, ?_⟩
  · intro place e there
    have below := (Array.getElem?_eq_some_iff.1 there).1
    refine ⟨e, ?_, rfl, rfl⟩
    rw [enter, Array.getElem?_push, if_neg (Nat.ne_of_lt below), there]
  · intro place free taken
    rw [enter, Array.getElem?_push] at taken
    by_cases last : place = s.entries.size
    · exact ⟨r, demanded, plan, deadlineAt, compiled, deadline, Prod.ext last.symm rfl⟩
    · rw [if_neg last] at taken
      exact absurd free taken

theorem allFinite_enter {e : Entry} (finite : s.AllFinite) (new : e.IsFinite) :
    (enter e s).2.AllFinite := by
  intro e' mem
  rcases Array.mem_push.1 mem with old | rfl
  · exact finite e' old
  · exact new

theorem keepsTerms_nextRequest (now : Int) : KeepsTerms (nextRequest now) := by
  intro e
  obtain ⟨inFlight, frame⟩ := nextRequest_frame now e
  rw [frame]
  exact ⟨rfl, rfl, fun finite => ⟨finite.literals, finite.results⟩⟩

/-- A request is made for an entry that has the step in flight from then on. -/
theorem exists_nextRequest_of_advance {r : StepResponse} {e : Entry} {q : StepRequest}
    (h : (advance now r e).1 = .send q) : ∃ e₁ : Entry, e₁.expressionId = e.expressionId ∧
      e₁.deadlineAt = e.deadlineAt ∧ nextRequest now e₁ = (.ok q, (advance now r e).2) := by
  unfold advance at h ⊢
  split at h
  · cases h
  · next waits =>
    rw [if_neg waits]
    simp only at h ⊢
    split at h
    · cases h
    · next x outcome =>
      split at h
      · cases h
      · next unfinished =>
        simp only [if_neg unfinished]
        split at h
        · next made =>
          cases h
          exact ⟨{ e with inFlight := none, results := store e.results r.stepId x }, rfl, rfl, made⟩
        · cases h
        · cases h

/-- The request is made of the entry at the place, which may have got a result before, and goes by
its terms. -/
theorem Dispatches.exists_entry {place : Nat} {q : StepRequest} (h : Dispatches now place q s t) :
    ∃ e e₁ e' : Entry, s.entries[place]? = some e ∧ e₁.expressionId = e.expressionId ∧
      e₁.deadlineAt = e.deadlineAt ∧ nextRequest now e₁ = (.ok q, e') ∧
      t.entries[place]? = some e' := by
  have stored : ∀ {e : Entry} (e' : Entry), s.entries[place]? = some e →
      (s.entries.setIfInBounds place e')[place]? = some e' := fun e' here =>
    Array.getElem?_setIfInBounds_self_of_lt (Array.getElem?_eq_some_iff.1 here).1
  rcases h with made | ⟨r, made⟩
  · unfold prepareNext onEntry at made
    split at made
    · cases made
    · next e here =>
      obtain ⟨request, rfl⟩ := Prod.mk.inj made
      exact ⟨e, e, _, here, rfl, rfl, Prod.ext request rfl, stored _ here⟩
  · unfold accept onEntry at made
    split at made
    · cases made
    · next e here =>
      obtain ⟨request, rfl⟩ := Prod.mk.inj made
      obtain ⟨e₁, id, deadline, next⟩ := exists_nextRequest_of_advance request
      exact ⟨e, e₁, _, here, id, deadline, next, stored _ here⟩

/-- A result is stored, or nothing is. -/
theorem mem_results_of_advance {r : StepResponse} {e : Entry} {p : Int × Float}
    (h : p ∈ (advance now r e).2.results) : p ∈ e.results ∨ r.outcome = .value p.2 := by
  unfold advance at h
  split at h
  · exact Or.inl h
  · simp only at h
    split at h
    · exact Or.inl h
    · next x outcome =>
      have stored : p ∈ store e.results r.stepId x → p ∈ e.results ∨ r.outcome = .value p.2 := by
        intro mem
        refine (mem_store mem).imp_right ?_
        rintro rfl
        exact outcome
      split at h
      · exact stored h
      · obtain ⟨inFlight, frame⟩ := nextRequest_frame now
          { e with inFlight := none, results := store e.results r.stepId x }
        split at h
        all_goals
          next made =>
          have same := (congrArg Prod.snd made).symm.trans frame
          simp only at same
          rw [same] at h
          exact stored h

theorem keepsTerms_advance (now : Int) {r : StepResponse} (finite : r.outcome.IsFinite) :
    KeepsTerms (advance now r) := by
  intro e
  obtain ⟨⟨_, _, _, frame⟩, -⟩ := advance_frame now r e
  refine ⟨by rw [frame], by rw [frame], fun whole => ⟨?_, ?_⟩⟩
  · rw [frame]
    exact whole.literals
  · intro p mem
    rcases mem_results_of_advance mem with old | new
    · exact whole.results p old
    · rw [new] at finite
      exact finite

theorem keepsTerms_abandon : KeepsTerms fun e : Entry =>
    if e.answered then (false, e) else (true, { e with answered := true, inFlight := none }) := by
  intro e
  dsimp only
  split
  · exact ⟨rfl, rfl, fun finite => finite⟩
  · exact ⟨rfl, rfl, fun finite => ⟨finite.literals, finite.results⟩⟩

/-- A call that brings in finite results enters no expression but what it demands, and comes to no
request but those of the steps that it puts in flight. -/
theorem permits_terms (settings : Settings) (demands : ExpressionRequest → Prop) (now : Int) :
    Permits settings Plan.compile AllFinite (rules settings demands now) (· = now) demands
      fun r => r.outcome.IsFinite where
  aside finite same := by
    refine ⟨fun e mem => ?_, conforms_of_entries same⟩
    rw [same] at mem
    exact finite e mem
  enter finite demanded shown compiled deadline := by
    subst shown
    exact ⟨allFinite_enter finite ⟨(isFinite_of_compile compiled).1, nofun⟩,
      conforms_enter demanded compiled deadline⟩
  abandon finite := keepsTerms_abandon.onEntry _ _ finite
  prepare {s place now'} finite shown := by
    subst shown
    obtain ⟨stays, conforms⟩ := (keepsTerms_nextRequest now').onEntry place _ finite
    exact ⟨stays, conforms, fun q queue made mapped =>
      ⟨place, q, queue, Or.inl (Prod.ext made rfl), mapped, rfl⟩⟩
  accept {s place now' r} finite taken shown := by
    subst shown
    obtain ⟨stays, conforms⟩ := (keepsTerms_advance now' taken).onEntry place _ finite
    exact ⟨stays, conforms, fun q queue made mapped =>
      ⟨place, q, queue, Or.inr ⟨r, Prod.ext made rfl⟩, mapped, rfl⟩⟩

end Scheduler

end Stepwise
