import Mathlib.Data.List.Induction
import Stepwise.Proofs.Service.Reuse

/-!
# Expressions do not stall

Whatever goes wrong on the way, between two calls a pending expression waits for a request that the
transport has accepted, and one that is over has had its response.  A story comes to rest nowhere
else (`Stage.Rests`), so a step that cannot be sent leads to the failure of its expression before
the call is over: `settles_of_run`.
-/

namespace Stepwise

open Scheduler

variable {η : Type} {settings : Settings} {id : String} {plan : Except CompileFault Plan}

/-! ## Where a story rests -/

/-- Between calls a story waits for a result, or is over. -/
def Stage.Rests : Stage → Prop
  | waiting _ | ended _ => True
  | _ => False

theorem Scheduler.Stands.rests {s : Scheduler} {steps : List Step} {stage : Stage}
    (h : s.Stands id steps stage) : stage.Rests := by
  cases stage with
  | waiting xs | ended xs => trivial
  | ready xs | stuck xs | failed xs f => exact h

variable {a b : Stage} {front back : List Event} {xs : List Float}

/-- A stretch of a story can be cut between two of its events. -/
theorem Moves.split (h : Moves settings id plan a (front ++ back) b) :
    ∃ c, Moves settings id plan a front c ∧ Moves settings id plan c back b := by
  cases back with
  | nil =>
    rw [List.append_nil] at h
    exact ⟨b, h, .refl b⟩
  | cons e back =>
    obtain ⟨c, d, before, move, after⟩ := h.cut
    exact ⟨c, before, .cons move after⟩

/-- A story that has not come to rest goes on. -/
theorem Moves.exists_move {es : List Event} (h : Moves settings id plan a es b) (rests : b.Rests)
    (restless : ¬ a.Rests) :
    ∃ e rest c, es = e :: rest ∧ Move settings id plan a e c ∧ Moves settings id plan c rest b := by
  cases es with
  | nil =>
    rw [h.eq_of_nil] at rests
    exact (restless rests).elim
  | cons e rest =>
    obtain ⟨c, d, before, move, after⟩ := @Moves.cut _ _ _ _ _ [] _ _ h
    rw [before.eq_of_nil] at move
    exact ⟨e, rest, d, rfl, move, after⟩

/-- A story waits only right after the request for the step has been accepted. -/
theorem Moves.exists_request {es : List Event}
    (h : Moves settings id plan (.ready []) es (.waiting xs)) :
    ∃ front queue q, es = front ++ [.sent (.request queue q) true] ∧
      settings.queueOf? q.operation = some queue ∧ Asks id (stepsOf plan) xs q := by
  cases h with
  | concat before move =>
    cases move with
    | send asks mapped => exact ⟨_, _, _, rfl, mapped, asks⟩

/-- A request that is refused is followed by the failure of its expression, and by nothing else. -/
theorem Moves.of_refused {queue : String} {q : StepRequest}
    (h : Moves settings id plan a (.sent (.request queue q) false :: back) b) (rests : b.Rests) :
    b.IsEnded ∧ ∃ (refusal : Refusal) (accepted : Bool),
      back = [.sent (.response (.failure id .publishError
        ("publish failed: " ++ refusal.message))) accepted] := by
  obtain ⟨c, d, before, move, after⟩ := @Moves.cut _ _ _ _ _ [] _ _ h
  cases move with
  | refuse asks mapped =>
    obtain ⟨e, rest, c, rfl, move, after⟩ := after.exists_move rests fun h => h
    cases move with
    | unpublished refusal accepted =>
      obtain ⟨rfl, rfl⟩ := after.eq_nil_of_isEnded trivial
      exact ⟨trivial, refusal, accepted, rfl⟩

/-- An expression that is ready for a step without a queue fails at once. -/
theorem Moves.of_unmapped {step : Step} (h : Moves settings id plan (.ready xs) back b)
    (rests : b.Rests) (here : (stepsOf plan)[xs.length]? = some step)
    (unmapped : settings.queueOf? step.operation = none) :
    b.IsEnded ∧ ∃ accepted : Bool, back = [.sent (.response (.failure id .unknownOperation
      ("unknown operation: " ++ step.operation.name))) accepted] := by
  obtain ⟨e, rest, c, rfl, move, after⟩ := h.exists_move rests fun h => h
  have own : ∀ q, Asks id (stepsOf plan) xs q → q.operation = step.operation := by
    rintro q ⟨step', here', -, -, operation, -⟩
    rw [operation, Option.some.inj (here'.symm.trans here)]
  cases move with
  | send asks mapped | refuse asks mapped =>
    rw [own _ asks, unmapped] at mapped
    cases mapped
  | succeed all =>
    rw [List.getElem?_eq_none (Nat.le_of_eq all.symm)] at here
    cases here
  | unparsed parse =>
    rw [parse] at here
    cases here
  | unmapped asks none accepted =>
    obtain ⟨rfl, rfl⟩ := after.eq_nil_of_isEnded trivial
    rw [own _ asks]
    exact ⟨trivial, accepted, rfl⟩

/-! ## What a story has come to between calls -/

/-- The expression of an accepted request, with the events about it so far, in a state between
calls.  If it is pending, the last event is that the transport accepts the request of the step in
flight; otherwise there has been one response.  A request that is refused, or a step whose
operation has no queue, is followed by one failure, and the expression is over. -/
structure Settles (settings : Settings) (id : String) (plan : Except CompileFault Plan)
    (es : List Event) (s : Scheduler) : Prop where
  waits : s.isPending id = true → ∃ e front queue q, s.entryOf? id = some e ∧
    e.inFlight = some q.stepId ∧ q.expressionId = id ∧ settings.queueOf? q.operation = some queue ∧
    es = front ++ [.sent (.request queue q) true]
  answered : s.isPending id = false → ∃ r, Event.responses es = [r] ∧ r.expressionId = id
  refused : ∀ front queue q back, es = front ++ .sent (.request queue q) false :: back →
    s.isPending id = false ∧ ∃ (refusal : Refusal) (accepted : Bool),
      back = [.sent (.response (.failure id .publishError
        ("publish failed: " ++ refusal.message))) accepted]
  unmapped : ∀ front back xs step, es = front ++ back →
    (front = [] ∨ ∃ before i x, front = before ++ [.took i (.value x)]) →
    Event.results front = recorded xs → (stepsOf plan)[xs.length]? = some step →
    settings.queueOf? step.operation = none →
    s.isPending id = false ∧ ∃ accepted : Bool,
      back = [.sent (.response (.failure id .unknownOperation
        ("unknown operation: " ++ step.operation.name))) accepted]

theorem Scheduler.Stands.isPending_eq_false {s : Scheduler} {steps : List Step} {stage : Stage}
    (stands : s.Stands id steps stage) (sound : s.Sound) (ended : stage.IsEnded) :
    s.isPending id = false :=
  sound.isPending_eq_false.2 (stands.entryOf?_eq_none ended)

/-- A story is ready for a step at its beginning and after each result. -/
theorem stage_of_results (h : Moves settings id plan (.ready []) front a)
    (fresh : front = [] ∨ ∃ before i x, front = before ++ [.took i (.value x)])
    (results : Event.results front = recorded xs) : a = .ready xs := by
  have same : a.results = xs := by
    have := congrArg (List.map (·.2)) ((results_of_moves h).symm.trans results)
    rwa [map_snd_recorded, map_snd_recorded] at this
  rcases fresh with rfl | ⟨before, i, x, rfl⟩
  · rw [← same, h.eq_of_nil]
    rfl
  · obtain ⟨c, d, -, move, after⟩ := h.cut
    rw [after.eq_of_nil] at same ⊢
    cases move with
    | take x =>
      rw [← same]
      rfl

theorem settles_of_moves {s : Scheduler} {es : List Event} {stage : Stage} (sound : s.Sound)
    (moves : Moves settings id plan (.ready []) es stage)
    (stands : s.Stands id (stepsOf plan) stage) : Settles settings id plan es s := by
  constructor
  · intro pending
    cases stage with
    | waiting xs =>
      obtain ⟨e, he, -, awaits⟩ := stands
      obtain ⟨front, queue, q, rfl, mapped, step, -, hid, hstep, -⟩ := moves.exists_request
      exact ⟨e, front, queue, q, he, hstep.symm ▸ awaits.inFlight, hid, mapped, rfl⟩
    | ended xs =>
      rw [stands.isPending_eq_false sound trivial] at pending
      cases pending
    | ready xs | stuck xs | failed xs f => exact stands.elim
  · intro free
    have answered := (pending_of_stands sound moves stands).1.1 free
    rcases moves.responses (fun ended => ended) with ⟨none, -⟩ | ⟨r, one, hid, -⟩
    · exact (answered none).elim
    · exact ⟨r, one, hid⟩
  · rintro front queue q back rfl
    obtain ⟨c, -, after⟩ := moves.split
    obtain ⟨ended, fails⟩ := after.of_refused stands.rests
    exact ⟨stands.isPending_eq_false sound ended, fails⟩
  · rintro front back xs step rfl fresh results here unmapped
    obtain ⟨c, before, after⟩ := moves.split
    rw [stage_of_results before fresh results] at after
    obtain ⟨ended, fails⟩ := after.of_unmapped stands.rests here unmapped
    exact ⟨stands.isPending_eq_false sound ended, fails⟩

/-! ## Runs -/

variable {s u : Scheduler} {run : List (Turn η)}

/-- A turn that accepts no expression of an id does not give the id an entry. -/
theorem entryOf?_eq_none_of_turn {v : Scheduler} {turn : Turn η} (sound : turn.before.Sound)
    (yields : (turn.call.routine settings).Yields turn.before (.ok ()) v turn.effects)
    (other : ∀ r, turn.Accepts r → r.expressionId ≠ id) (free : turn.before.entryOf? id = none) :
    v.entryOf? id = none := by
  have finished : turn.before.Stands id (stepsOf (.error .empty)) (.ended []) := free
  obtain ⟨es, stage, -, moves, stands⟩ := moves_of_goes (goes_of_call sound yields).2 finished other
  exact stands.entryOf?_eq_none ((moves.eq_nil_of_isEnded trivial).2 ▸ trivial)

/-- An entry goes back to the latest turn that has accepted an expression of its id. -/
theorem exists_accepts_of_entry {e : Entry} (h : Runs settings .empty run s)
    (he : s.entryOf? id = some e) :
    ∃ before turn own r, run = before ++ turn :: own ∧ turn.Accepts r ∧ r.expressionId = id ∧
      ∀ t ∈ own, ∀ r', t.Accepts r' → r'.expressionId ≠ id := by
  induction run using List.reverseRecOn generalizing s e with
  | nil =>
    cases h
    cases he
  | append_singleton run turn ih =>
    obtain ⟨v, before, yields, after⟩ := h.cut
    cases after
    by_cases own : ∃ r, turn.Accepts r ∧ r.expressionId = id
    · obtain ⟨r, accepts, hid⟩ := own
      exact ⟨run, turn, [], r, rfl, accepts, hid, nofun⟩
    · push Not at own
      cases hb : turn.before.entryOf? id with
      | none =>
        rw [entryOf?_eq_none_of_turn (before.sound sound_empty) yields own hb] at he
        cases he
      | some e' =>
        obtain ⟨front, first, since, r, rfl, accepts, hid, other⟩ := ih before hb
        refine ⟨front, first, since ++ [turn], r, by simp, accepts, hid, fun t ht => ?_⟩
        rcases List.mem_append.1 ht with ht | ht
        · exact other t ht
        · rw [List.mem_singleton.1 ht]
          exact own

/-- An expression settles in the run up to any state before the next one of its id is accepted. -/
theorem settles_of_story {before own : List (Turn η)} {turn : Turn η} {r : ExpressionRequest}
    (h : Runs settings .empty (before ++ turn :: own) s) (accepts : turn.Accepts r)
    (other : ∀ t ∈ own, ∀ r', t.Accepts r' → r'.expressionId ≠ r.expressionId) :
    ∃ es, Tells settings r.expressionId (turn :: own) es ∧
      Settles settings r.expressionId (Plan.compile r.expression) es s := by
  obtain ⟨v, prior, yields, since⟩ := h.cut
  have sound₀ := prior.sound sound_empty
  obtain ⟨sound₁, goes⟩ := goes_of_call sound₀ yields
  obtain ⟨es, stage₁, tells, moves, stands₁⟩ := moves_of_accepts sound₀ goes accepts
  obtain ⟨fs, stage₂, tells', moves', stands₂⟩ := moves_of_runs since sound₁ stands₁ other
  exact ⟨es ++ fs, .cons tells tells',
    settles_of_moves (since.sound sound₁) (moves.append moves') stands₂⟩

/-- A run that starts with nothing pending, whatever the clocks show, whatever is refused and
whichever operations have a queue.  After it no id is reserved; each pending id goes back to a turn
that has accepted its expression, which settles; and so does each expression that has been accepted,
in every state between calls up to the next expression of its id. -/
theorem settles_of_run (h : Runs settings .empty run s) :
    s.reserved = [] ∧
    (∀ id place, (id, place) ∈ s.table → ∃ before turn own r es, run = before ++ turn :: own ∧
      turn.Accepts r ∧ r.expressionId = id ∧
      (∀ t ∈ own, ∀ r', t.Accepts r' → r'.expressionId ≠ id) ∧
      Tells settings id (turn :: own) es ∧ Settles settings id (Plan.compile r.expression) es s) ∧
    ∀ before turn own rest r, run = before ++ turn :: (own ++ rest) → turn.Accepts r →
      (∀ t ∈ own, ∀ r', t.Accepts r' → r'.expressionId ≠ r.expressionId) →
      ∃ v es, Runs settings .empty (before ++ turn :: own) v ∧ Runs settings v rest s ∧
        Tells settings r.expressionId (turn :: own) es ∧
        Settles settings r.expressionId (Plan.compile r.expression) es v := by
  have sound := h.sound sound_empty
  refine ⟨sound.reserved, fun id place mem => ?_, ?_⟩
  · obtain ⟨e, -, he, -⟩ := sound.tidy.exists_entryOf? (sound.tidy.find?_of_mem mem)
    obtain ⟨before, turn, own, r, rfl, accepts, rfl, other⟩ := exists_accepts_of_entry h he
    obtain ⟨es, tells, settles⟩ := settles_of_story h accepts other
    exact ⟨before, turn, own, r, es, rfl, accepts, rfl, other, tells, settles⟩
  · rintro before turn own rest r rfl accepts other
    have cut : before ++ turn :: (own ++ rest) = (before ++ turn :: own) ++ rest := by simp
    rw [cut] at h
    obtain ⟨v, story, after⟩ := h.split
    obtain ⟨es, tells, settles⟩ := settles_of_story story accepts other
    exact ⟨v, es, story, after, tells, settles⟩

/-- The run that submits `1+2*3`, and in which the sum is refused once the product is known. -/
theorem settles_of_refused_sum :
    let r : ExpressionRequest := ⟨"a", "1+2*3", 1000⟩
    let answer : Call := .result ⟨"a", 0, .value 6⟩
    let submitted := (Call.submit r).trial .standard .empty
    let answered := (answer.routine .standard : Scheduler.Action Unit Unit).run
      ⟨0, ["operations.add"]⟩ submitted.state
    let run : List (Turn Unit) := [⟨.empty, .submit r, submitted.effects⟩,
      ⟨submitted.state, answer, answered.effects⟩]
    Runs .standard .empty run answered.state ∧ answered.state.isPending "a" = false ∧
      ∃ es, Tells .standard "a" run es ∧
        Settles .standard "a" (Plan.compile "1+2*3") es answered.state := by
  intro r answer submitted answered run
  have runs : Runs .standard .empty run answered.state :=
    .cons (Routine.yields_of_isOk ⟨0, []⟩ (by decide +kernel))
      (.cons (Routine.yields_of_isOk ⟨0, ["operations.add"]⟩ (by decide +kernel)) (.nil _))
  have other : ∀ t ∈ ([⟨submitted.state, answer, answered.effects⟩] : List (Turn Unit)),
      ∀ r', t.Accepts r' → r'.expressionId ≠ "a" := by
    intro t ht r' accepts
    rw [List.mem_singleton.1 ht] at accepts
    exact nomatch accepts.1
  obtain ⟨v, es, -, rest, tells, settles⟩ := (settles_of_run runs).2.2 []
    ⟨.empty, .submit r, submitted.effects⟩ [_] [] r rfl ⟨rfl, rfl⟩ other
  cases rest
  exact ⟨runs, by decide +kernel, es, tells, settles⟩

end Stepwise
