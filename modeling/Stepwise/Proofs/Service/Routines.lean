import Stepwise.Proofs.Service.Table
import Stepwise.Proofs.Transport.Outcome

/-!
# The routines of the scheduler

One lemma for each routine says what it does to the entry of its id and which messages it hands
over, in any surroundings, as moves in the story of the expression.
-/

namespace Stepwise

variable {η : Type} {settings : Settings} {id : String} {steps : List Step}
variable {plan : Except CompileFault Plan}

/-- The message of a sending. -/
def Sending.message (settings : Settings) : Sending → Message
  | request queue r => ⟨queue, r.body⟩
  | response r => ⟨settings.responseQueue, r.body⟩

/-- What the surroundings see of a sending. -/
def Sending.effect (settings : Settings) (what : Sending) (accepted : Bool) : Effect η :=
  .handed accepted (what.message settings)

/-- The effects of a list of sendings, each with whether it is accepted. -/
def effectsOf (settings : Settings) (sends : List (Sending × Bool)) : List (Effect η) :=
  sends.map fun p => p.1.effect settings p.2

/-- The events that a list of sendings is. -/
def eventsOf (sends : List (Sending × Bool)) : List Event :=
  sends.map fun p => .sent p.1 p.2

namespace Scheduler

/-- The id has an entry that waits for the result of a step, or, once all is over, none. -/
def Stands (s : Scheduler) (id : String) (steps : List Step) : Stage → Prop
  | .waiting xs => ∃ e, s.entryOf? id = some e ∧ e.steps = steps ∧ e.Awaits xs
  | .ended _ => s.entryOf? id = none
  | _ => False

theorem Stands.of_entryOf? {s t : Scheduler} {id : String} {steps : List Step} {stage : Stage}
    (h : s.Stands id steps stage) (same : t.entryOf? id = s.entryOf? id) :
    t.Stands id steps stage := by
  cases stage with
  | waiting xs =>
    obtain ⟨e, he, rest⟩ := h
    exact ⟨e, same.trans he, rest⟩
  | ended xs => exact same.trans h
  | ready xs | stuck xs | failed xs f => exact h

theorem Stands.entryOf?_eq_none {s : Scheduler} {id : String} {steps : List Step} {stage : Stage}
    (h : s.Stands id steps stage) (ended : stage.IsEnded) : s.entryOf? id = none := by
  cases stage with
  | ended xs => exact h
  | _ => exact ended.elim

/-! ## Entries -/

theorem resolve_eq (results : List (Int × Float)) (o : Operand) :
    resolve results o = match o.find? (fun x => x) results with
      | some x => .ok x
      | none => .error (o.dependencies.headD 0) := by
  cases o with
  | value x => rfl
  | result step =>
    rw [resolve, Operand.find?]
    cases results.lookup step <;> rfl

/-- The clock cannot say what is left until a deadline, or which date it is. -/
def OffClock (now : Int) (deadlineAt : Float) : Prop :=
  Budget.remaining? now deadlineAt = none ∨ Timestamp.onClock? now = none

/-- Preparing a step puts it in flight at most. -/
theorem nextRequest_frame (now : Int) (e : Entry) :
    ∃ inFlight, (nextRequest now e).2 = { e with inFlight := inFlight } := by
  rw [nextRequest]
  split
  · exact ⟨_, rfl⟩
  · split
    · exact ⟨_, rfl⟩
    · simp only
      split <;> exact ⟨_, rfl⟩

/-- The request for a step, once it can be made. -/
theorem eq_of_nextRequest {now : Int} {e : Entry} {q : StepRequest}
    (h : (nextRequest now e).1 = .ok q) :
    q.expressionId = e.expressionId ∧ ∃ step ∈ e.steps,
      resolve e.results step.left = .ok q.left ∧ resolve e.results step.right = .ok q.right ∧
      Budget.remaining? now e.deadlineAt = some q.deadlineMs ∧
      Timestamp.onClock? now = some q.issuedAt := by
  rw [nextRequest] at h
  split at h
  · cases h
  · next step hstep =>
    split at h
    · cases h
    · next a b both =>
      simp only at h
      split at h
      · next budget issued =>
        cases h
        rw [operands] at both
        split at both
        · cases both
        · next left =>
          split at both
          · cases both
          · next right =>
            cases both
            exact ⟨rfl, step, List.mem_of_getElem? hstep, left, right, budget, issued⟩
      · cases h

/-- Preparing the step after the recorded ones makes its request or runs out of range. -/
theorem nextRequest_spec {e : Entry} {xs : List Float} (results : e.results = recorded xs)
    (ordered : Ordered e.steps) (more : xs.length < e.steps.length) (now : Int) :
    (nextRequest now e).2 = { e with inFlight := some (xs.length : Int) } ∧
      (((nextRequest now e).1 = .error .outOfRange ∧ OffClock now e.deadlineAt) ∨
        ∃ r, (nextRequest now e).1 = .ok r ∧ Asks e.expressionId e.steps xs r) := by
  obtain ⟨hid, earlier⟩ := ordered _ _ (List.getElem?_eq_getElem more)
  obtain ⟨a, ha⟩ := exists_find?_recorded fun d hd => earlier d (List.mem_append_left _ hd)
  obtain ⟨b, hb⟩ := exists_find?_recorded fun d hd => earlier d (List.mem_append_right _ hd)
  have both : operands (recorded xs) e.steps[xs.length] = .ok (a, b) := by
    rw [operands, resolve_eq, resolve_eq, ha, hb]
  have next : e.steps[e.results.length]? = some e.steps[xs.length] := by
    rw [results, length_recorded, List.getElem?_eq_getElem more]
  rw [nextRequest, next]
  simp only [results, both, hid]
  cases budget : Budget.remaining? now e.deadlineAt with
  | none => exact ⟨rfl, Or.inl ⟨rfl, Or.inl budget⟩⟩
  | some left =>
    cases issued : Timestamp.onClock? now with
    | none => exact ⟨rfl, Or.inl ⟨rfl, Or.inr issued⟩⟩
    | some stamp =>
      exact ⟨rfl, Or.inr ⟨_, rfl, _, List.getElem?_eq_getElem more, rfl, rfl, rfl, ha, hb⟩⟩

theorem store_recorded (xs : List Float) (x : Float) :
    store (recorded xs) (xs.length : Int) x = recorded (xs ++ [x]) := by
  rw [store, if_neg, recorded_concat]
  rw [Bool.not_eq_true, List.any_eq_false]
  intro p hp
  have : p.1 ∈ (recorded xs).map (·.1) := List.mem_map_of_mem hp
  rw [map_fst_recorded] at this
  obtain ⟨k, hk, hp⟩ := List.mem_map.1 this
  have := List.mem_range.1 hk
  rw [beq_iff_eq, ← hp, Int.ofNat_eq_natCast]
  omega

/-- The answer to a step keeps what an entry was made with, and what comes of it is about the same
expression. -/
theorem advance_frame (now : Int) (r : StepResponse) (e : Entry) :
    (∃ results inFlight answered, (advance now r e).2 =
        ⟨e.expressionId, e.steps, e.deadlineAt, results, inFlight, answered⟩) ∧
      (∀ answer, (advance now r e).1 = .answer answer → answer.expressionId = e.expressionId) ∧
      ∀ q, (advance now r e).1 = .send q → q.expressionId = e.expressionId := by
  rw [advance]
  split
  · exact ⟨⟨_, _, _, rfl⟩, nofun, nofun⟩
  · simp only
    split
    · refine ⟨⟨_, _, _, rfl⟩, ?_, nofun⟩
      rintro _ ⟨⟩
      rfl
    · next x _ =>
      split
      · refine ⟨⟨_, _, _, rfl⟩, ?_, nofun⟩
        rintro _ ⟨⟩
        rfl
      · obtain ⟨inFlight, frame⟩ := nextRequest_frame now
          { e with inFlight := none, results := store e.results r.stepId x }
        split
        · next q e' made =>
          rw [made] at frame
          refine ⟨⟨_, _, _, frame⟩, nofun, ?_⟩
          rintro _ ⟨⟩
          exact (eq_of_nextRequest (congrArg Prod.fst made)).1
        · next step missing e' made =>
          rw [made] at frame
          obtain rfl : e' = _ := frame
          refine ⟨⟨_, _, _, rfl⟩, ?_, nofun⟩
          rintro _ ⟨⟩
          rfl
        · next fault e' _ made =>
          rw [made] at frame
          exact ⟨⟨_, _, _, frame⟩, nofun, nofun⟩

/-- What the answer to a step makes of an entry that waits for one. -/
theorem advance_spec {e : Entry} {xs : List Float} (awaits : e.Awaits xs) (now : Int)
    (r : StepResponse) :
    (advance now r e).2.expressionId = e.expressionId ∧
      ((r.stepId ≠ xs.length ∧ advance now r e = (.nothing, e)) ∨
        (r.stepId = xs.length ∧ ∃ f, r.outcome = .failed f ∧
          (advance now r e).1 = .answer ⟨e.expressionId, .failed f⟩) ∨
        (r.stepId = xs.length ∧ ∃ x, r.outcome = .value x ∧
          ((xs.length + 1 = e.steps.length ∧
              (advance now r e).1 = .answer ⟨e.expressionId, .value x⟩) ∨
            ((advance now r e).2.Awaits (xs ++ [x]) ∧ (advance now r e).2.steps = e.steps ∧
              ((advance now r e).1 = .stop .outOfRange ∨
                ∃ request, (advance now r e).1 = .send request ∧
                  Asks e.expressionId e.steps (xs ++ [x]) request))))) := by
  obtain ⟨id, steps, deadlineAt, results, inFlight, answered⟩ := e
  obtain ⟨rfl, rfl, rfl, more, ordered⟩ := awaits
  change xs.length < steps.length at more
  rw [advance]
  by_cases hr : r.stepId = xs.length
  · rw [if_neg (by simp [hr])]
    simp only
    cases ho : r.outcome with
    | failed f => exact ⟨rfl, Or.inr (Or.inl ⟨hr, f, rfl, rfl⟩)⟩
    | value x =>
      simp only [hr, store_recorded]
      by_cases hlast : xs.length + 1 = steps.length
      · rw [if_pos (by simp [hlast])]
        exact ⟨rfl, Or.inr (Or.inr ⟨trivial, x, rfl, Or.inl ⟨hlast, rfl⟩⟩)⟩
      · rw [if_neg (by simp [hlast])]
        have more' : (xs ++ [x]).length < steps.length := by
          rw [List.length_append, List.length_singleton]
          omega
        obtain ⟨hentry, hreq⟩ := nextRequest_spec
          (e := ⟨id, steps, deadlineAt, recorded (xs ++ [x]), none, false⟩) rfl ordered more' now
        generalize nextRequest now _ = next at hentry hreq ⊢
        obtain ⟨request, entry⟩ := next
        simp only at hentry hreq
        subst hentry
        rcases hreq with ⟨rfl, -⟩ | ⟨req, rfl, asks⟩
        · refine ⟨rfl, Or.inr (Or.inr ⟨trivial, x, rfl, Or.inr ⟨?_, rfl, Or.inl rfl⟩⟩)⟩
          exact ⟨rfl, rfl, rfl, more', ordered⟩
        · refine ⟨rfl, Or.inr (Or.inr ⟨trivial, x, rfl, Or.inr ⟨?_, rfl, Or.inr ⟨req, rfl, asks⟩⟩⟩)⟩
          exact ⟨rfl, rfl, rfl, more', ordered⟩
  · rw [if_pos (by simp [Ne.symm hr])]
    exact ⟨rfl, Or.inl ⟨hr, rfl⟩⟩

/-! ## Routines that end an expression -/

variable {s t : Scheduler} {es : List (Effect η)}

theorem emit_spec {r : ExpressionResponse} {x : Except Fault Unit}
    (h : (emit settings r).Yields s x t es) :
    x = .ok () ∧ t = s ∧ ∃ accepted, es = effectsOf settings [(.response r, accepted)] := by
  rw [emit, Routine.yields_tryPublish_bind] at h
  rcases h with ⟨rest, rfl, hx, ht, rfl⟩ | ⟨refusal, rest, rfl, hx, ht, rfl⟩
  · exact ⟨hx, ht, true, rfl⟩
  · exact ⟨hx, ht, false, rfl⟩

theorem finish_spec (tidy : s.Tidy) {r : ExpressionResponse} {x : Except Fault Unit}
    (h : (finish settings id r).Yields s x t es) :
    x = .ok () ∧ Becomes s id none t ∧
      ∃ accepted, es = effectsOf settings [(.response r, accepted)] := by
  rw [finish, Routine.yields_atomically_bind] at h
  obtain ⟨hx, rfl, hes⟩ := emit_spec h
  exact ⟨hx, tidy.becomes_remove id, hes⟩

/-- A failure ends a pending expression and leaves any other id alone. -/
theorem fail_spec (tidy : s.Tidy) {code : ErrorCode} {message : String} {x : Except Fault Bool}
    (h : (fail settings id code message).Yields s x t es) :
    ∃ b, x = .ok b ∧
      ((s.entryOf? id = none ∧ t = s ∧ es = []) ∨
        ∃ e, s.entryOf? id = some e ∧
          ((e.answered = true ∧ Becomes s id (some e) t ∧ es = []) ∨
            (e.answered = false ∧ Becomes s id none t ∧ ∃ accepted,
              es = effectsOf settings [(.response (.failure id code message), accepted)]))) := by
  rw [fail, Routine.yields_atomically_bind] at h
  simp only at h
  cases hf : s.find? id with
  | none =>
    rw [hf] at h
    obtain ⟨hx, rfl, rfl⟩ := h
    exact ⟨false, hx, Or.inl ⟨tidy.find?_eq_none.1 hf, rfl, rfl⟩⟩
  | some place =>
    rw [hf] at h
    simp only [Routine.yields_atomically_bind] at h
    obtain ⟨e, -, he, hid⟩ := tidy.exists_entryOf? hf
    obtain ⟨hb, becomes⟩ := tidy.becomes_onEntry hf he false
      (f := fun e => if e.answered then (false, e)
        else (true, { e with answered := true, inFlight := none })) (by split <;> rfl)
    change (abandon place s).1 = _ at hb
    change Becomes s id _ (abandon place s).2 at becomes
    rw [hb] at h
    cases ha : e.answered with
    | true =>
      rw [ha] at h becomes
      obtain ⟨hx, rfl, rfl⟩ := h
      exact ⟨false, hx, Or.inr ⟨e, he, Or.inl ⟨ha, becomes, rfl⟩⟩⟩
    | false =>
      rw [ha] at h becomes
      rcases Routine.Yields.of_bind_pure h with ⟨a, hx, ends⟩ | ⟨fault, -, h⟩
      · obtain ⟨-, removed, accepted, rfl⟩ := finish_spec becomes.tidy ends
        exact ⟨true, hx, Or.inr ⟨e, he, Or.inr ⟨ha, becomes.trans removed, accepted, rfl⟩⟩⟩
      · cases (finish_spec becomes.tidy h).1

/-- A pending expression fails. -/
theorem fail_open_spec (tidy : s.Tidy) {e : Entry} (he : s.entryOf? id = some e)
    (open_ : e.answered = false) {code : ErrorCode} {message : String} {x : Except Fault Unit}
    (h : (fail settings id code message >>= fun _ => pure ()).Yields s x t es) :
    x = .ok () ∧ Becomes s id none t ∧ ∃ accepted,
      es = effectsOf settings [(.response (.failure id code message), accepted)] := by
  rcases Routine.Yields.of_bind_pure h with ⟨a, hx, fails⟩ | ⟨fault, -, h⟩
  · obtain ⟨b, -, ⟨hn, -, -⟩ | ⟨e', he', ⟨ha, -, -⟩ | ⟨-, becomes, hes⟩⟩⟩ := fail_spec tidy fails
    · rw [he] at hn
      cases hn
    · rw [he] at he'
      cases he'
      rw [open_] at ha
      cases ha
    · exact ⟨hx, becomes, hes⟩
  · obtain ⟨b, hb, -⟩ := fail_spec tidy h
    cases hb

/-- A failure does nothing for an id without an entry. -/
theorem fail_none_spec (tidy : s.Tidy) (he : s.entryOf? id = none) {code : ErrorCode}
    {message : String} {x : Except Fault Unit}
    (h : (fail settings id code message >>= fun _ => pure ()).Yields s x t es) :
    x = .ok () ∧ t = s ∧ es = [] := by
  rcases Routine.Yields.of_bind_pure h with ⟨a, hx, fails⟩ | ⟨fault, -, h⟩
  · obtain ⟨b, -, ⟨-, rfl, rfl⟩ | ⟨e, he', -⟩⟩ := fail_spec tidy fails
    · exact ⟨hx, rfl, rfl⟩
    · rw [he] at he'
      cases he'
  · obtain ⟨b, hb, -⟩ := fail_spec tidy h
    cases hb

/-! ## Routines that go on with an expression -/

/-- From a state to another an expression has gone on from a stage by the events that came in and
the messages in the effects, and other ids are as they were. -/
def Proceeds (settings : Settings) (id : String) (plan : Except CompileFault Plan) (stage : Stage)
    (incoming : List Event) (s t : Scheduler) (es : List (Effect η)) : Prop :=
  ∃ sends stage', es = effectsOf settings sends ∧
    Moves settings id plan stage (incoming ++ eventsOf sends) stage' ∧
    Becomes s id (t.entryOf? id) t ∧ t.Stands id (stepsOf plan) stage'

theorem Proceeds.of_becomes {stage : Stage} {incoming : List Event} {u : Scheduler}
    {e? : Option Entry} (h : Proceeds settings id plan stage incoming u t es)
    (before : Becomes s id e? u) : Proceeds settings id plan stage incoming s t es := by
  obtain ⟨sends, stage', hes, moves, becomes, stands⟩ := h
  exact ⟨sends, stage', hes, moves, before.trans becomes, stands⟩

theorem Proceeds.of_sameEntries {stage : Stage} {incoming : List Event} {s' t' : Scheduler}
    (h : Proceeds settings id plan stage incoming s t es) (before : SameEntries s s')
    (after : SameEntries t t') (reserved : t'.reserved = s'.reserved) :
    Proceeds settings id plan stage incoming s' t' es := by
  obtain ⟨sends, stage', hes, moves, becomes, stands⟩ := h
  refine ⟨sends, stage', hes, moves, ?_, stands.of_entryOf? (after.entryOf? id)⟩
  rw [after.entryOf?]
  exact becomes.of_sameEntries before after reserved

/-- An expression comes to its end with the last of some messages. -/
theorem proceeds_of_ended {stage : Stage} {incoming : List Event} {sends : List (Sending × Bool)}
    {xs : List Float} (becomes : Becomes s id none t)
    (moves : Moves settings id plan stage (incoming ++ eventsOf sends) (.ended xs)) :
    Proceeds settings id plan stage incoming s t (effectsOf settings sends : List (Effect η)) :=
  ⟨sends, .ended xs, rfl, moves, becomes.own.symm ▸ becomes, becomes.own⟩

/-- The request of a step is sent, or the expression fails. -/
theorem publishStep_spec (tidy : s.Tidy) {r : StepRequest} {e : Entry} {xs : List Float}
    (he : s.entryOf? id = some e) (hsteps : e.steps = stepsOf plan) (awaits : e.Awaits xs)
    (asks : Asks id (stepsOf plan) xs r) {x : Except Fault Unit}
    (h : (publishStep settings r).Yields s x t es) :
    x = .ok () ∧ Proceeds settings id plan (.ready xs) [] s t es := by
  have hid : r.expressionId = id := by
    obtain ⟨step, -, hid, -⟩ := asks
    exact hid
  rw [publishStep, hid] at h
  cases hq : settings.queueOf? r.operation with
  | none =>
    rw [hq] at h
    obtain ⟨hx, becomes, accepted, rfl⟩ := fail_open_spec tidy he awaits.open_ h
    exact ⟨hx, proceeds_of_ended becomes (.single (.unmapped asks hq accepted))⟩
  | some queue =>
    rw [hq] at h
    simp only [Routine.yields_tryPublish_bind] at h
    rcases h with ⟨rest, rfl, hx, rfl, rfl⟩ | ⟨refusal, rest, rfl, h⟩
    · refine ⟨hx, [(.request queue r, true)], .waiting xs, rfl, .single (.send asks hq),
        tidy.becomes_self _, e, he, hsteps, awaits⟩
    · obtain ⟨hx, becomes, accepted, rfl⟩ := fail_open_spec tidy he awaits.open_ h
      have moves : Moves settings id plan (.ready xs)
          ([] ++ eventsOf [(.request queue r, false), (.response _, accepted)]) (.ended xs) :=
        .cons (.refuse asks hq) (.single (.unpublished refusal accepted))
      exact ⟨hx, proceeds_of_ended becomes moves⟩

/-- A response that ends an expression before a routine returns. -/
theorem proceeds_of_emit {α : Type} {stage : Stage} {r : ExpressionResponse} {a b : α}
    {xs : List Float} (stays : Becomes s id none s)
    (move : ∀ accepted, Move settings id plan stage (.sent (.response r) accepted) (.ended xs))
    (h : (emit settings r >>= fun _ => pure a).Yields s (.ok b) t es) :
    b = a ∧ Proceeds settings id plan stage [] s t es := by
  rcases Routine.Yields.of_bind_pure h with ⟨a, hx, sent⟩ | ⟨fault, hx, -⟩
  · obtain ⟨-, rfl, accepted, rfl⟩ := emit_spec sent
    exact ⟨Except.ok.inj hx, proceeds_of_ended stays (.single (move accepted))⟩
  · cases hx

/-- Compiling an expression whose id is free ends it, or gives it an entry without results. -/
theorem compile_spec (tidy : s.Tidy) {r : ExpressionRequest}
    (free : s.entryOf? r.expressionId = none) {place? : Option Nat}
    (h : (compile settings Plan.compile r).Yields s (.ok place?) t es) :
    (place? = none →
      Proceeds settings r.expressionId (Plan.compile r.expression) (.ready []) [] s t es) ∧
    ∀ place, place? = some place → es = [] ∧ stepsOf (Plan.compile r.expression) ≠ [] ∧
      Ordered (stepsOf (Plan.compile r.expression)) ∧ t.find? r.expressionId = some place ∧
      ∃ now deadlineAt, Budget.deadline? now r.deadlineMs = some deadlineAt ∧
        Becomes s r.expressionId (some ⟨r.expressionId,
          stepsOf (Plan.compile r.expression), deadlineAt, [], none, false⟩) t := by
  have stays : Becomes s r.expressionId none s := free ▸ tidy.becomes_self r.expressionId
  rw [compile] at h
  cases hc : Plan.compile r.expression with
  | error fault =>
    rw [hc] at h
    obtain ⟨rfl, proceeds⟩ := proceeds_of_emit stays (.unparsed rfl) h
    exact ⟨fun _ => proceeds, nofun⟩
  | ok plan =>
    obtain ⟨ordered, hliteral⟩ := ordered_of_compile hc
    rw [hc] at h
    by_cases hsteps : plan.steps = []
    · simp only [hsteps, List.isEmpty_nil, if_true] at h
      obtain ⟨x, hx⟩ := Option.isSome_iff_exists.1 (hliteral hsteps)
      rw [hx] at h
      have all : ([] : List Float).length = (stepsOf (.ok plan)).length := by
        rw [stepsOf, hsteps]
        rfl
      obtain ⟨rfl, proceeds⟩ := proceeds_of_emit stays (.succeed all hx) h
      exact ⟨fun _ => proceeds, nofun⟩
    · simp only [List.isEmpty_iff, hsteps, if_false, Routine.yields_now_bind] at h
      obtain ⟨now, h⟩ := h
      cases hd : Budget.deadline? now r.deadlineMs with
      | none =>
        rw [hd] at h
        cases h.1
      | some deadlineAt =>
        rw [hd] at h
        obtain ⟨hp, rfl, rfl⟩ := h
        cases hp
        obtain ⟨becomes, found⟩ :=
          tidy.becomes_enter ⟨r.expressionId, plan.steps, deadlineAt, [], none, false⟩
        refine ⟨nofun, ?_⟩
        rintro place ⟨⟩
        exact ⟨rfl, hsteps, ordered, found, now, deadlineAt, hd, becomes⟩

/-- A plan with steps gets an entry, or the compilation stops. -/
theorem not_yields_none_of_steps {r : ExpressionRequest}
    (hsteps : stepsOf (Plan.compile r.expression) ≠ []) :
    ¬ (compile settings Plan.compile r).Yields s (.ok none) t es := by
  intro h
  rw [compile] at h
  cases hc : Plan.compile r.expression with
  | error reason =>
    rw [hc] at hsteps
    exact hsteps rfl
  | ok plan =>
    rw [hc] at h hsteps
    change plan.steps ≠ [] at hsteps
    simp only [List.isEmpty_iff, hsteps, if_false, Routine.yields_now_bind] at h
    obtain ⟨now, h⟩ := h
    cases hd : Budget.deadline? now r.deadlineMs with
    | none =>
      rw [hd] at h
      cases h.1
    | some deadlineAt =>
      rw [hd] at h
      cases h.1

/-- Compiling an expression stops only over a deadline that is beyond the floats. -/
theorem compile_raises {r : ExpressionRequest} {fault : Fault}
    (h : (compile settings Plan.compile r).Yields s (.error fault) t es) :
    fault = .outOfRange ∧ t = s ∧ es = [] ∧ stepsOf (Plan.compile r.expression) ≠ [] ∧
      Decimal.ofInt? r.deadlineMs = none := by
  have answered : ∀ {answer : ExpressionResponse} {place? : Option Nat},
      ¬ (emit settings answer >>= fun _ => pure place?).Yields s (.error fault) t es := by
    intro answer place? sent
    rcases Routine.Yields.of_bind_pure sent with ⟨a, hx, -⟩ | ⟨fault', -, sent⟩
    · cases hx
    · cases (emit_spec sent).1
  rw [compile] at h
  cases hc : Plan.compile r.expression with
  | error reason =>
    rw [hc] at h
    exact (answered h).elim
  | ok plan =>
    rw [hc] at h
    by_cases hsteps : plan.steps = []
    · obtain ⟨x, hx⟩ := Option.isSome_iff_exists.1 ((ordered_of_compile hc).2 hsteps)
      simp only [hsteps, List.isEmpty_nil, if_true, hx] at h
      exact (answered h).elim
    · simp only [List.isEmpty_iff, hsteps, if_false, Routine.yields_now_bind] at h
      obtain ⟨now, h⟩ := h
      cases hd : Budget.deadline? now r.deadlineMs with
      | none =>
        rw [hd] at h
        obtain ⟨hf, rfl, rfl⟩ := h
        exact ⟨Except.error.inj hf, rfl, rfl, hsteps, Option.map_eq_none_iff.1 hd⟩
      | some deadlineAt =>
        rw [hd] at h
        cases h.1

/-- Preparing the next step of an entry that has the results of its first steps. -/
theorem prepareNext_spec (tidy : s.Tidy) {place : Nat} {e : Entry}
    {xs : List Float} (found : s.find? id = some place) (he : s.entryOf? id = some e)
    (results : e.results = recorded xs) (open_ : e.answered = false) (ordered : Ordered e.steps)
    (more : xs.length < e.steps.length) (now : Int) :
    (((prepareNext now place s).1 = .error .outOfRange ∧ OffClock now e.deadlineAt) ∨
        ∃ r, (prepareNext now place s).1 = .ok r ∧ Asks id e.steps xs r) ∧
      ∃ e', Becomes s id (some e') (prepareNext now place s).2 ∧ e'.steps = e.steps ∧
        e'.Awaits xs := by
  obtain ⟨hentry, hreq⟩ := nextRequest_spec results ordered more now
  obtain ⟨hfst, becomes⟩ := tidy.becomes_onEntry found he (.error .outOfRange)
    (f := nextRequest now) (by rw [hentry])
  rw [hentry] at becomes
  refine ⟨?_, _, becomes, rfl, ⟨results, rfl, open_, more, ordered⟩⟩
  rw [prepareNext, hfst, ← tidy.expressionId he]
  exact hreq

end Scheduler

end Stepwise
