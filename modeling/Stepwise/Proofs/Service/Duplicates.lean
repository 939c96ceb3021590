import Stepwise.Proofs.Service.Stalls

/-!
# Results that come again

A response for a step may come any number of times, each time with another result or a failure.
Once a result of the step has been accepted, or the expression has been answered, such a response is
ignored, whatever step is in flight by then: `duplicates_change_nothing` says that a run with more
of them, put in wherever, is the run without.
-/

namespace Stepwise

open Stepwise.Text (Body)
open Scheduler

/-! ## Lists with further elements -/

/-- A list with further elements of some kind, put in anywhere. -/
inductive Padded {α : Type} (extra : α → Prop) : List α → List α → Prop where
  | nil : Padded extra [] []
  | keep (a : α) {as bs : List α} (rest : Padded extra as bs) : Padded extra (a :: as) (a :: bs)
  | insert {b : α} (here : extra b) {as bs : List α} (rest : Padded extra as bs) :
      Padded extra as (b :: bs)

/-! ## Steps that are over -/

variable {settings : Settings} {id : String} {plan : Except CompileFault Plan} {a b : Stage}
  {es : List Event}

/-- In the story of an expression a step is over: a result of it or of a later step has been
accepted, or the expression has been answered. -/
def Event.IsOver (es : List Event) (step : Int) : Prop :=
  responses es ≠ [] ∨ ∃ k o, took k o ∈ es ∧ step ≤ k

theorem Event.IsOver.append {step : Int} (h : IsOver es step) (fs : List Event) :
    IsOver (es ++ fs) step := by
  rcases h with answered | ⟨k, o, mem, le⟩
  · rw [IsOver, responses_append]
    exact Or.inl (List.append_ne_nil_of_left_ne_nil answered _)
  · exact Or.inr ⟨k, o, List.mem_append_left _ mem, le⟩

/-- No result is lost. -/
theorem Moves.length_le (h : Moves settings id plan a es b) :
    a.results.length ≤ b.results.length := by
  induction h with
  | refl => exact le_rfl
  | concat _ move ih =>
    refine ih.trans ?_
    cases move with
    | take x =>
      rw [Stage.results, Stage.results, List.length_append]
      exact Nat.le_add_right _ _
    | _ => exact le_rfl

/-- An expression that has failed waits for nothing. -/
theorem Moves.not_waiting_of_failed {xs ys : List Float} {f : Failure} :
    ¬ Moves settings id plan (.failed xs f) es (.waiting ys) := by
  have stays : ∀ {b}, Moves settings id plan (.failed xs f) es b →
      b = .failed xs f ∨ b.IsEnded := by
    intro b h
    induction h with
    | refl => exact Or.inl rfl
    | concat _ move ih =>
      rcases ih with rfl | ended
      · cases move with
        | fail => exact Or.inr trivial
      · exact (not_move_of_isEnded ended move).elim
  intro h
  rcases stays h with same | ended
  · cases same
  · exact ended

/-- An expression waits for a step after all those with accepted results. -/
theorem Moves.lt_of_isOver {xs : List Float} {step : Int}
    (h : Moves settings id plan (.ready []) es (.waiting xs)) (isOver : Event.IsOver es step) :
    step < xs.length := by
  rcases isOver with answered | ⟨k, o, mem, le⟩
  · exact absurd (h.responses_eq_nil fun ended => ended) answered
  · -- the result was taken in the middle of the story, and from there on no result is lost
    obtain ⟨front, back, rfl⟩ := List.append_of_mem mem
    obtain ⟨c, d, -, move, after⟩ := h.cut
    cases move with
    | take x =>
      have grown := after.length_le
      rw [Stage.results, Stage.results, List.length_append, List.length_singleton] at grown
      omega
    | takeFailure => exact after.not_waiting_of_failed.elim

namespace Scheduler

variable {s v : Scheduler} {p : StepResponse}

theorem ignores_of_none (sound : s.Sound) (none : s.entryOf? p.expressionId = none) :
    Ignores settings s p := by
  intro x t es yields
  rw [onResult, Routine.yields_atomically_bind, sound.tidy.find?_eq_none.2 none] at yields
  exact yields

/-- The response for a step that is over is ignored. -/
theorem ignores_of_isOver (sound : s.Sound)
    (moves : Moves settings p.expressionId plan (.ready []) es a)
    (stands : s.Stands p.expressionId (stepsOf plan) a) (isOver : Event.IsOver es p.stepId) :
    Ignores settings s p := by
  cases a with
  | ready xs | stuck xs | failed xs f => exact stands.elim
  | ended xs => exact ignores_of_none sound stands
  | waiting xs =>
    obtain ⟨e, here, -, awaits⟩ := stands
    have lt := moves.lt_of_isOver isOver
    exact (ignores_iff sound here awaits).2 (by omega)

/-! ## Runs with duplicates -/

/-- A call brings in a response, as it is or as a message. -/
def Call.Brings (p : StepResponse) : Call → Prop
  | result q => q = p
  | resultBody body => StepResponse.decode body = .ok p
  | _ => False

theorem Call.Brings.routine {call : Call} (brings : call.Brings p) {η : Type} :
    (call.routine settings : Action η Unit) = onResult settings p := by
  cases call with
  | result q =>
    obtain rfl : q = p := brings
    rfl
  | resultBody body =>
    change StepResponse.decode body = .ok p at brings
    rw [Call.routine, handleResult, brings]
  | _ => exact brings.elim

/-- A call brings in a response for a step of an expression that is over. -/
def Call.Repeats (id : String) (es : List Event) (call : Call) : Prop :=
  ∃ p, call.Brings p ∧ p.expressionId = id ∧ Event.IsOver es p.stepId

/-- A scheduler between calls, to which the story of an expression has led that goes on from some
events. -/
structure Past (settings : Settings) (id : String) (plan : Except CompileFault Plan)
    (es : List Event) (s : Scheduler) : Prop where
  sound : s.Sound
  story : ∃ more stage, Moves settings id plan (.ready []) (es ++ more) stage ∧
    s.Stands id (stepsOf plan) stage

/-- A turn that does not accept an expression of the id goes on with the story. -/
theorem Past.turn {turn : Turn Unit} (past : Past settings id plan es turn.before)
    (yields : (turn.call.routine settings).Yields turn.before (.ok ()) v turn.effects)
    (other : ∀ r, turn.Accepts r → r.expressionId ≠ id) : Past settings id plan es v := by
  obtain ⟨sound, more, stage, moves, stands⟩ := past
  obtain ⟨sound', goes⟩ := goes_of_call sound yields
  obtain ⟨fs, stage', -, moves', stands'⟩ := moves_of_goes goes stands other
  exact ⟨sound', more ++ fs, stage', by rw [← List.append_assoc]; exact moves.append moves',
    stands'⟩

theorem Past.ignores (past : Past settings id plan es s) (own : p.expressionId = id)
    (isOver : Event.IsOver es p.stepId) : Ignores settings s p := by
  subst own
  obtain ⟨sound, more, stage, moves, stands⟩ := past
  exact ignores_of_isOver sound moves stands (isOver.append more)

end Scheduler

variable {s u : Scheduler} {rest turns : List (Turn Unit)}

/-- A run with duplicates is the run without: they have no effects and leave each state alone. -/
theorem Runs.of_padded (padded : Padded (·.call.Repeats id es) rest turns)
    (past : Past settings id plan es s)
    (other : ∀ t ∈ rest, ∀ r, t.Accepts r → r.expressionId ≠ id) (h : Runs settings s turns u) :
    Runs settings s rest u ∧ turns.flatMap (·.effects) = rest.flatMap (·.effects) := by
  -- a kept turn goes on with the story and an inserted one is ignored, so `Past` holds throughout
  induction padded generalizing s with
  | nil => exact ⟨h, rfl⟩
  | keep turn _ ih =>
    rw [List.forall_mem_cons] at other
    cases h with
    | cons yields after =>
      obtain ⟨runs, effects⟩ := ih (past.turn yields other.1) other.2 after
      refine ⟨.cons yields runs, ?_⟩
      rw [List.flatMap_cons, List.flatMap_cons, effects]
  | insert here _ ih =>
    cases h with
    | cons yields after =>
      obtain ⟨p, brings, own, isOver⟩ := here
      rw [brings.routine] at yields
      obtain ⟨-, rfl, quiet⟩ := past.ignores own isOver _ _ _ yields
      obtain ⟨runs, effects⟩ := ih past other after
      refine ⟨runs, ?_⟩
      rw [List.flatMap_cons, effects, quiet, List.nil_append]

/-- Wherever duplicates are put into the calls of a run, there is such a run. -/
theorem Runs.exists_padded {calls : List Call} (h : Runs settings s rest u)
    (padded : Padded (Call.Repeats id es) (rest.map (·.call)) calls)
    (past : Past settings id plan es s)
    (other : ∀ t ∈ rest, ∀ r, t.Accepts r → r.expressionId ≠ id) :
    ∃ turns, turns.map (·.call) = calls ∧ Padded (·.call.Repeats id es) rest turns ∧
      Runs settings s turns u := by
  generalize these : rest.map (·.call) = kept at padded
  induction padded generalizing s rest with
  | nil =>
    obtain rfl := List.map_eq_nil_iff.1 these
    exact ⟨[], rfl, .nil, h⟩
  | keep call _ ih =>
    obtain ⟨turn, rest, rfl, rfl, rfl⟩ := List.map_eq_cons_iff.1 these
    rw [List.forall_mem_cons] at other
    cases h with
    | cons yields after =>
      obtain ⟨turns, calls, padded, runs⟩ := ih after (past.turn yields other.1) other.2 rfl
      exact ⟨_ :: turns, congrArg _ calls, .keep _ padded, .cons yields runs⟩
  | @insert call here _ _ _ ih =>
    obtain ⟨turns, calls, padded, runs⟩ := ih h past other these
    have ⟨p, brings, own, isOver⟩ := here
    have yields := Routine.yields_run ⟨0, []⟩ (onResult settings p : Scheduler.Action Unit Unit) s
    obtain ⟨ok, same, quiet⟩ := past.ignores own isOver _ _ _ yields
    rw [ok, same, quiet, ← brings.routine] at yields
    refine ⟨⟨s, call, []⟩ :: turns, congrArg _ calls, .insert ?_ padded, .cons yields runs⟩
    exact here

/-- A run that has accepted an expression, whose id is not used again.  Responses for steps of it
that are over are ignored from then on, in whatever surroundings; and put into the rest of the run,
in any number and anywhere, they leave it as it was: a run with them is the run without, turn by
turn, with the same messages and the same states, and whatever goes without them goes with them. -/
theorem duplicates_change_nothing {before own : List (Turn Unit)} {turn : Turn Unit}
    {r : ExpressionRequest} (h : Runs settings .empty (before ++ turn :: own) s)
    (accepts : turn.Accepts r)
    (once : ∀ t ∈ own, ∀ r', t.Accepts r' → r'.expressionId ≠ r.expressionId) :
    ∃ es, Tells settings r.expressionId (turn :: own) es ∧ ∀ (rest : List (Turn Unit)) u,
      (∀ t ∈ rest, ∀ r', t.Accepts r' → r'.expressionId ≠ r.expressionId) →
      (Runs settings s rest u → ∀ p, p.expressionId = r.expressionId →
        Event.IsOver es p.stepId → Ignores settings u p) ∧
      (∀ turns, Padded (·.call.Repeats r.expressionId es) rest turns →
        Runs settings s turns u →
          Runs settings s rest u ∧ turns.flatMap (·.effects) = rest.flatMap (·.effects)) ∧
      (Runs settings s rest u → ∀ calls,
        Padded (Call.Repeats r.expressionId es) (rest.map (·.call)) calls →
          ∃ turns, turns.map (·.call) = calls ∧
            Padded (·.call.Repeats r.expressionId es) rest turns ∧
            Runs settings s turns u) := by
  obtain ⟨v, prior, yields, since⟩ := h.cut
  have sound₀ := prior.sound sound_empty
  obtain ⟨sound₁, goes⟩ := goes_of_call sound₀ yields
  obtain ⟨es, stage₁, tells, moves, stands₁⟩ := moves_of_accepts sound₀ goes accepts
  obtain ⟨fs, stage₂, tells', moves', stands₂⟩ := moves_of_runs since sound₁ stands₁ once
  have story := moves.append moves'
  have past : Past settings r.expressionId (Plan.compile r.expression) (es ++ fs) s :=
    ⟨since.sound sound₁, [], stage₂, by rw [List.append_nil]; exact story, stands₂⟩
  refine ⟨es ++ fs, .cons tells tells', fun rest u other => ⟨?_, ?_, ?_⟩⟩
  · intro runs p same isOver
    obtain ⟨gs, stage₃, -, moves'', stands₃⟩ := moves_of_runs runs past.sound stands₂ other
    have after : Past settings r.expressionId (Plan.compile r.expression) (es ++ fs) u :=
      ⟨runs.sound past.sound, gs, stage₃, story.append moves'', stands₃⟩
    exact after.ignores same isOver
  · exact fun turns padded runs => runs.of_padded padded past other
  · exact fun runs calls padded => runs.exists_padded padded past other

/-! ### A product that fails after it has been computed -/

theorem Scheduler.took_mem_taken {r : StepResponse} (taken : (s.taken r).isEmpty = false) :
    Event.took r.stepId r.outcome ∈ s.taken r := by
  unfold Scheduler.taken at taken ⊢
  split
  · next e here =>
    rw [here] at taken
    dsimp only at taken
    split
    · exact List.mem_singleton_self _
    · next refused =>
      rw [if_neg refused] at taken
      cases taken
  · next none =>
    rw [none] at taken
    cases taken

theorem duplicates_change_nothing_of_product :
    let front : List Call := [.submit ⟨"a", "1+2*3", 1000⟩, .result ⟨"a", 0, .value 6⟩]
    let last : Call := .result ⟨"a", 1, .value 7⟩
    let s := afterCalls .standard .empty front
    let u := afterCalls .standard s [last]
    Runs .standard .empty (turnsFrom .standard .empty front) s ∧
      ∃ turns : List (Turn Unit), turns.map (·.call) =
          [.result ⟨"a", 0, .failed ⟨.divByZero, "division by zero"⟩⟩, last,
            .result ⟨"a", 0, .value 5⟩] ∧
        Runs .standard s turns u ∧
        turns.flatMap (·.effects) = (last.trial .standard s).effects := by
  intro front last s u
  have runs : Runs .standard .empty ([] ++ turnsFrom .standard .empty front) s :=
    runs_turnsFrom (by decide +kernel)
  have since : Runs .standard s (turnsFrom .standard s [last]) u :=
    runs_turnsFrom (by decide +kernel)
  have once : ∀ t ∈ (turnsFrom .standard .empty front).tail, ∀ r', t.Accepts r' →
      r'.expressionId ≠ "a" := by
    intro t mem r' accepts
    rw [List.mem_singleton.1 mem] at accepts
    exact nomatch accepts.1
  have other : ∀ t ∈ turnsFrom .standard s [last], ∀ r', t.Accepts r' → r'.expressionId ≠ "a" := by
    intro t mem r' accepts
    rw [List.mem_singleton.1 mem] at accepts
    exact nomatch accepts.1
  obtain ⟨es, tells, changes⟩ := duplicates_change_nothing runs ⟨rfl, rfl⟩ once
  obtain ⟨-, same, goes⟩ := changes _ u other
  have isOver : Event.IsOver es 0 := by
    cases tells with
    | cons _ tells =>
      cases tells with
      | cons told _ =>
        rcases told with ⟨-, sends, -, rfl⟩ | ⟨foreign, -⟩
        · have took := Scheduler.took_mem_taken (s := afterCalls .standard .empty (front.take 1))
            (r := ⟨"a", 0, .value 6⟩) (by decide +kernel)
          refine Or.inr ⟨0, .value 6, ?_, le_rfl⟩
          exact List.mem_append_right _ (List.mem_append_left _ (List.mem_append_left _ took))
        · exact absurd rfl foreign
  have repeats : ∀ o, (Call.result ⟨"a", 0, o⟩).Repeats "a" es := fun o => ⟨_, rfl, rfl, isOver⟩
  obtain ⟨turns, calls, padded, through⟩ := goes since _
    (.insert (repeats _) (.keep _ (.insert (repeats _) .nil)))
  refine ⟨runs, turns, calls, through, ?_⟩
  rw [(same turns padded through).2]
  exact List.append_nil _

end Stepwise
