import Stepwise.Proofs.Service.Independence
import Stepwise.Proofs.Service.Intake

/-!
# Steps that refer to no result

A compiler may give any steps, and so the step whose turn it is may refer to one that has no result:
to itself, to a later one, or to none.  `ends_cleanly_iff` says what becomes of the expression then.
Met after a result, the step ends it with an internal error.  Met when the expression is submitted,
as its first step, it makes the call raise: nothing is handed over, and the id stays taken.
-/

namespace Stepwise

open Stepwise.Text (Body)

variable {η α : Type} {settings : Settings} {compiler : Compiler} {id : String}

namespace Scheduler

variable {s t : Scheduler} {es : List (Effect η)}

/-! ## What calls leave alone -/

theorem Becomes.entry {e? : Option Entry} (h : Becomes s id e? t) :
    Becomes s id (t.entryOf? id) t :=
  h.own.symm ▸ h

/-- A failure changes the entry of its id at most. -/
theorem becomes_of_fail (tidy : s.Tidy) {code : ErrorCode} {message : String}
    {x : Except Fault Bool} (h : (fail settings id code message).Yields s x t es) :
    Becomes s id (t.entryOf? id) t := by
  obtain ⟨b, -, ⟨-, rfl, -⟩ | ⟨e, -, ⟨-, becomes, -⟩ | ⟨-, becomes, -⟩⟩⟩ := fail_spec tidy h
  · exact tidy.becomes_self id
  · exact becomes.entry
  · exact becomes.entry

theorem becomes_of_fail_bind (tidy : s.Tidy) {code : ErrorCode} {message : String}
    {x : Except Fault Unit}
    (h : (fail settings id code message >>= fun _ => pure ()).Yields s x t es) :
    Becomes s id (t.entryOf? id) t := by
  rcases h.of_bind_pure with ⟨_, -, fails⟩ | ⟨_, -, fails⟩
  · exact becomes_of_fail tidy fails
  · exact becomes_of_fail tidy fails

theorem becomes_of_publishStep (tidy : s.Tidy) {q : StepRequest} {x : Except Fault Unit}
    (h : (publishStep settings q).Yields s x t es) :
    Becomes s q.expressionId (t.entryOf? q.expressionId) t := by
  rw [publishStep] at h
  cases hq : settings.queueOf? q.operation with
  | none =>
    rw [hq] at h
    exact becomes_of_fail_bind tidy h
  | some queue =>
    rw [hq] at h
    rcases Routine.yields_tryPublish_bind.1 h with ⟨_, -, -, rfl, -⟩ | ⟨_, _, -, fails⟩
    · exact tidy.becomes_self _
    · exact becomes_of_fail_bind tidy fails

/-- A result for an id with an entry advances the entry, and the reaction tells what follows. -/
theorem exists_reaction_of_onResult (tidy : s.Tidy) {r : StepResponse} {e : Entry}
    {x : Except Fault Unit} (here : s.entryOf? r.expressionId = some e)
    (h : (onResult settings r).Yields s x t es) :
    ∃ now u, Becomes s r.expressionId (some (advance now r e).2) u ∧
      (match (advance now r e).1 with
        | .nothing => pure ()
        | .answer response => finish settings r.expressionId response
        | .send q => publishStep settings q
        | .stop fault => .raise fault : Action η Unit).Yields u x t es := by
  obtain ⟨place, found, -⟩ := Option.bind_eq_some_iff.1 here
  rw [onResult, Routine.yields_atomically_bind, found] at h
  simp only [Routine.yields_now_bind, Routine.yields_atomically_bind] at h
  obtain ⟨now, h⟩ := h
  obtain ⟨⟨_, _, _, frame⟩, -, -⟩ := advance_frame now r e
  obtain ⟨reaction, becomes⟩ :=
    tidy.becomes_onEntry found here .nothing (f := advance now r) (by rw [frame])
  rw [accept, reaction] at h
  exact ⟨now, _, becomes, h⟩

theorem becomes_of_onResult (tidy : s.Tidy) {r : StepResponse} {x : Except Fault Unit}
    (h : (onResult settings r).Yields s x t es) :
    Becomes s r.expressionId (t.entryOf? r.expressionId) t := by
  cases here : s.entryOf? r.expressionId with
  | none =>
    rw [onResult, Routine.yields_atomically_bind, tidy.find?_eq_none.2 here] at h
    obtain ⟨-, rfl, -⟩ := h
    exact tidy.becomes_self _
  | some e =>
    obtain ⟨now, u, becomes, rest⟩ := exists_reaction_of_onResult tidy here h
    obtain ⟨-, -, sends⟩ := advance_frame now r e
    cases ha : (advance now r e).1 with
    | nothing | stop fault =>
      rw [ha] at rest
      obtain ⟨-, rfl, -⟩ := rest
      exact becomes.entry
    | answer response =>
      rw [ha] at rest
      obtain ⟨-, removed, -⟩ := finish_spec becomes.tidy rest
      exact (becomes.trans removed).entry
    | send q =>
      rw [ha] at rest
      have sent := becomes_of_publishStep becomes.tidy rest
      rw [(sends q ha).trans (tidy.expressionId here)] at sent
      exact becomes.trans sent

/-- Compiling may give the id an entry, whose place is the result. -/
theorem becomes_of_compile (tidy : s.Tidy) {r : ExpressionRequest} {x : Except Fault (Option Nat)}
    (h : (compile settings compiler r).Yields s x t es) :
    Becomes s r.expressionId (t.entryOf? r.expressionId) t ∧
      ∀ place, x = .ok (some place) → t.find? r.expressionId = some place := by
  have answered : ∀ {answer : ExpressionResponse},
      (emit settings answer >>= fun _ => pure none).Yields s x t es →
        Becomes s r.expressionId (t.entryOf? r.expressionId) t ∧
          ∀ place, x = .ok (some place) → t.find? r.expressionId = some place := by
    intro answer sent
    rcases sent.of_bind_pure with ⟨_, rfl, emitted⟩ | ⟨_, -, emitted⟩
    · obtain ⟨-, rfl, -⟩ := emit_spec emitted
      refine ⟨tidy.becomes_self _, fun place found => ?_⟩
      cases found
    · cases (emit_spec emitted).1
  rw [compile] at h
  cases hc : compiler r.expression with
  | error fault =>
    rw [hc] at h
    exact answered h
  | ok plan =>
    rw [hc] at h
    by_cases hsteps : plan.steps.isEmpty = true
    · simp only [hsteps, if_true] at h
      cases hl : plan.literal with
      | some x =>
        rw [hl] at h
        exact answered h
      | none =>
        rw [hl] at h
        obtain ⟨rfl, rfl, -⟩ := h
        refine ⟨tidy.becomes_self _, fun place found => ?_⟩
        cases found
    · simp only [hsteps, Bool.false_eq_true, if_false, Routine.yields_now_bind] at h
      obtain ⟨now, h⟩ := h
      cases hd : Budget.deadline? now r.deadlineMs with
      | none =>
        rw [hd] at h
        obtain ⟨rfl, rfl, -⟩ := h
        refine ⟨tidy.becomes_self _, fun place found => ?_⟩
        cases found
      | some deadlineAt =>
        rw [hd] at h
        obtain ⟨rfl, rfl, -⟩ := h
        obtain ⟨becomes, found⟩ :=
          tidy.becomes_enter ⟨r.expressionId, plan.steps, deadlineAt, [], none, false⟩
        refine ⟨becomes.entry, ?_⟩
        intro place same
        cases same
        exact found

theorem becomes_of_submit (rested : s.Rested) {r : ExpressionRequest} {x : Except Fault Unit}
    (h : (submit settings compiler r).Yields s x t es) :
    Becomes s r.expressionId (t.entryOf? r.expressionId) t := by
  rw [submit, Routine.yields_atomically_bind] at h
  by_cases busy : s.isPending r.expressionId = true
  · rw [reserve, if_pos busy] at h
    obtain ⟨-, rfl, -⟩ := h
    exact rested.tidy.becomes_self _
  have taken : (reserve r.expressionId s).1 = true := by rw [reserve, if_neg busy]
  have tidy := (sameEntries_reserve r.expressionId s).tidy rested.tidy
  rw [taken, if_pos rfl] at h
  -- the reservation ends with the compilation, so from then on the entry is all there is of the id
  rcases h.of_bind with ⟨place?, v, es₁, es₂, first, rest, -⟩ | ⟨fault, -, first⟩
  · obtain ⟨u, compiled, rfl⟩ := first.of_thenAlways_atomically
    obtain ⟨becomes, places⟩ := becomes_of_compile tidy compiled
    have released := becomes_of_release rested.unreserved becomes
    cases place? with
    | none =>
      obtain ⟨-, rfl, -⟩ := rest
      exact released.entry
    | some place =>
      obtain ⟨later, rest⟩ := Routine.yields_now_bind.1 rest
      rw [Routine.yields_atomically_bind] at rest
      have found : (release r.expressionId u).2.find? r.expressionId = some place :=
        places place rfl
      obtain ⟨e, -, he, hid⟩ := released.tidy.exists_entryOf? found
      obtain ⟨inFlight, frame⟩ := nextRequest_frame later e
      obtain ⟨made, prepared⟩ := released.tidy.becomes_onEntry found he (.error .outOfRange)
        (f := nextRequest later) (by rw [frame])
      rw [prepareNext, made] at rest
      cases hq : (nextRequest later e).1 with
      | error fault =>
        rw [hq] at rest
        obtain ⟨-, rfl, -⟩ := rest
        exact (released.trans prepared).entry
      | ok q =>
        rw [hq] at rest
        have sent := becomes_of_publishStep prepared.tidy rest
        rw [(eq_of_nextRequest hq).1.trans hid] at sent
        exact released.trans (prepared.trans sent)
  · obtain ⟨u, compiled, rfl⟩ := first.of_thenAlways_atomically
    exact (becomes_of_release rested.unreserved (becomes_of_compile tidy compiled).1).entry

theorem Rested.becomes (rested : s.Rested) {e? : Option Entry} (h : Becomes s id e? t) :
    t.Rested :=
  ⟨h.tidy, h.reserved.trans rested.unreserved⟩

theorem Rested.decodeRequest (rested : s.Rested) (body : Body) :
    (decodeRequest body s).2.Rested := by
  obtain ⟨same, reserved⟩ := decodeRequest_frame body s
  exact ⟨same.tidy rested.tidy, reserved.trans rested.unreserved⟩

/-- A scheduler rests between calls, whatever the compiler gives and whichever of them raise. -/
theorem rested_of_call (rested : s.Rested) {call : Call} {x : Except Fault Unit}
    (h : (call.action settings compiler).Yields s x t es) : t.Rested := by
  cases call with
  | submit r => exact rested.becomes (becomes_of_submit rested h)
  | result r => exact rested.becomes (becomes_of_onResult rested.tidy h)
  | fail id code message => exact rested.becomes (becomes_of_fail_bind rested.tidy h)
  | requestBody body =>
    rw [Call.action, handleRequest, Routine.yields_atomically_bind] at h
    have rested := rested.decodeRequest body
    cases hd : (Scheduler.decodeRequest body s).1 with
    | ok r =>
      rw [hd] at h
      exact rested.becomes (becomes_of_submit rested h)
    | error issues =>
      rw [hd] at h
      simp only at h
      split at h
      · obtain ⟨-, rfl, -⟩ := h
        exact rested
      · obtain ⟨-, rfl, -⟩ := h
        exact rested
      · rw [Routine.yields_atomically_bind] at h
        split at h
        · obtain ⟨-, rfl, -⟩ := h
          exact rested
        · obtain ⟨-, rfl, -⟩ := emit_spec h
          exact rested
  | resultBody body =>
    rw [Call.action, handleResult] at h
    split at h
    · exact rested.becomes (becomes_of_onResult rested.tidy h)
    · split at h
      · exact rested.becomes (becomes_of_fail_bind rested.tidy h)
      · obtain ⟨-, rfl, -⟩ := h
        exact rested

/-- The states between calls, some of which may have raised, with any compiler. -/
inductive ReachableWith (settings : Settings) (compiler : Compiler) : Scheduler → Prop where
  | empty : ReachableWith settings compiler .empty
  | call {s t : Scheduler} {call : Call} {x : Except Fault Unit} {es : List (Effect Unit)}
      (reachable : ReachableWith settings compiler s)
      (yields : (call.action settings compiler).Yields s x t es) :
      ReachableWith settings compiler t

theorem ReachableWith.rested (h : ReachableWith settings compiler s) : s.Rested := by
  induction h with
  | empty => exact rested_empty
  | call _ yields ih => exact rested_of_call ih yields

/-! ## Steps that refer to no result -/

/-- The next step of a list, on top of some results, refers to a step without one.  Of two such
operands the left one is named. -/
def Unresolved (steps : List Step) (results : List (Int × Float)) (step missing : Int) : Prop :=
  ∃ s, steps[results.length]? = some s ∧ s.id = step ∧
    s.dependencies.find? (fun d => (results.lookup d).isNone) = some missing

/-- A demand turns to the next step of an expression: to the first step of one that it begins, or to
the step after a result that it brings in, unless that was the last. -/
inductive TurnsTo (compiler : Compiler) (s : Scheduler) :
    Demand → String → List Step → List (Int × Float) → Prop where
  | first {r : ExpressionRequest} {plan : Plan} (free : s.isPending r.expressionId = false)
      (compiled : compiler r.expression = .ok plan) (nonempty : plan.steps ≠ [])
      (deadline : (Decimal.ofInt? r.deadlineMs).isSome) :
      TurnsTo compiler s (.expression r) r.expressionId plan.steps []
  | later {r : StepResponse} {e : Entry} {x : Float} (here : s.entryOf? r.expressionId = some e)
      (open_ : e.answered = false) (inFlight : e.inFlight = some r.stepId)
      (value : r.outcome = .value x)
      (more : (store e.results r.stepId x).length ≠ e.steps.length) :
      TurnsTo compiler s (.result r) r.expressionId e.steps (store e.results r.stepId x)

/-- The response to an expression whose step refers to another without a result. -/
def unresolved (id : String) (step missing : Int) : ExpressionResponse :=
  .failure id .internalError
    ("step " ++ toString step ++ " depends on unresolved step " ++ toString missing)

/-- The call returns, all that it hands over is the response, and the id is free again. -/
structure EndsCleanly (settings : Settings) (id : String) (step missing : Int)
    (x : Except Fault Unit) (t : Scheduler) (es : List (Effect η)) : Prop where
  returns : x = .ok ()
  answered : ∃ accepted,
    es = effectsOf settings [(.response (unresolved id step missing), accepted)]
  free : t.isPending id = false

/-- The call raises without having handed over anything, and the id stays taken by an entry that
waits for no step. -/
structure Strands (id : String) (step missing : Int) (x : Except Fault Unit) (t : Scheduler)
    (es : List (Effect η)) : Prop where
  raises : x = .error (.unresolved step missing)
  quiet : es = []
  taken : t.isPending id = true
  waits : ∃ e, t.entryOf? id = some e ∧ e.answered = false ∧ e.inFlight = none

variable {steps : List Step} {results : List (Int × Float)} {step missing : Int}

/-- An operand waits for the step among its dependencies that has no result. -/
theorem resolve_eq_error_iff {o : Operand} : resolve results o = .error missing ↔
    o.dependencies.find? (fun d => (results.lookup d).isNone) = some missing := by
  cases o with
  | value a => simp [resolve, Operand.dependencies]
  | result d =>
    rw [resolve, Operand.dependencies, List.find?_cons]
    cases results.lookup d with
    | none => simp
    | some a => simp

theorem operands_of_unresolved {s : Step}
    (h : s.dependencies.find? (fun d => (results.lookup d).isNone) = some missing) :
    operands results s = .error (.unresolved s.id missing) := by
  rw [Step.dependencies, List.find?_append] at h
  rw [operands]
  cases left : resolve results s.left with
  | error d =>
    rw [resolve_eq_error_iff.1 left, Option.some_or] at h
    rw [Option.some.inj h]
  | ok a =>
    have first : s.left.dependencies.find? (fun d => (results.lookup d).isNone) = none := by
      refine Option.eq_none_iff_forall_ne_some.2 fun d found => ?_
      rw [resolve_eq_error_iff.2 found] at left
      cases left
    rw [first, Option.none_or] at h
    rw [resolve_eq_error_iff.2 h]

/-- Nothing becomes of an entry whose next step refers to no result. -/
theorem nextRequest_of_unresolved {e : Entry} (now : Int)
    (h : Unresolved e.steps e.results step missing) :
    nextRequest now e = (.error (.unresolved step missing), e) := by
  obtain ⟨s, next, rfl, find⟩ := h
  rw [nextRequest, next]
  simp only [operands_of_unresolved find]

/-- After a result the expression is answered. -/
theorem advance_of_unresolved {e : Entry} {r : StepResponse} {x : Float} (now : Int)
    (open_ : e.answered = false) (inFlight : e.inFlight = some r.stepId)
    (value : r.outcome = .value x) (more : (store e.results r.stepId x).length ≠ e.steps.length)
    (h : Unresolved e.steps (store e.results r.stepId x) step missing) :
    (advance now r e).1 = .answer (unresolved e.expressionId step missing) := by
  rw [advance, open_, inFlight, value]
  simp only [bne_self_eq_false, Bool.or_false, Bool.false_eq_true, if_false, beq_iff_eq, more]
  rw [nextRequest_of_unresolved now h]
  rfl

/-- Met after a result, a step that refers to no result ends its expression. -/
theorem endsCleanly_of_onResult (rested : s.Rested) {r : StepResponse} {e : Entry} {y : Float}
    {x : Except Fault Unit} (here : s.entryOf? r.expressionId = some e)
    (open_ : e.answered = false) (inFlight : e.inFlight = some r.stepId)
    (value : r.outcome = .value y) (more : (store e.results r.stepId y).length ≠ e.steps.length)
    (unresolved : Unresolved e.steps (store e.results r.stepId y) step missing)
    (h : (onResult settings r).Yields s x t es) :
    EndsCleanly settings r.expressionId step missing x t es := by
  obtain ⟨now, u, becomes, rest⟩ := exists_reaction_of_onResult rested.tidy here h
  rw [advance_of_unresolved now open_ inFlight value more unresolved,
    rested.tidy.expressionId here] at rest
  obtain ⟨returns, removed, accepted, rfl⟩ := finish_spec becomes.tidy rest
  have ended := becomes.trans removed
  refine ⟨returns, ⟨accepted, rfl⟩, ended.tidy.isPending_eq_false.2 ⟨ended.own, ?_⟩⟩
  rw [ended.reserved, rested.unreserved]
  exact List.not_mem_nil

/-- Between calls an expression gets its entry in one go. -/
theorem becomes_establish (rested : s.Rested) (r : ExpressionRequest) (steps : List Step)
    (deadlineAt : Float) :
    Becomes s r.expressionId (some ⟨r.expressionId, steps, deadlineAt, [], none, false⟩)
        (establish r steps deadlineAt s).2 ∧
      (establish r steps deadlineAt s).2.find? r.expressionId =
        some (establish r steps deadlineAt s).1 := by
  have tidy := (sameEntries_reserve r.expressionId s).tidy rested.tidy
  obtain ⟨becomes, found⟩ :=
    tidy.becomes_enter ⟨r.expressionId, steps, deadlineAt, [], none, false⟩
  exact ⟨becomes_of_release rested.unreserved becomes, found⟩

/-- Met when its expression is submitted, it strands the expression. -/
theorem strands_of_submit (rested : s.Rested) {r : ExpressionRequest} {plan : Plan}
    {x : Except Fault Unit} (free : s.isPending r.expressionId = false)
    (compiled : compiler r.expression = .ok plan) (nonempty : plan.steps ≠ [])
    (deadline : (Decimal.ofInt? r.deadlineMs).isSome)
    (unresolved : Unresolved plan.steps [] step missing)
    (h : (submit settings compiler r).Yields s x t es) :
    Strands r.expressionId step missing x t es := by
  obtain ⟨now, -, h⟩ := (yieldsAt_submit free compiled nonempty).1 h.yieldsAt
  cases hd : Budget.deadline? now r.deadlineMs with
  | none =>
    rw [Option.map_eq_none_iff.1 hd] at deadline
    cases deadline
  | some deadlineAt =>
    rw [hd] at h
    obtain ⟨later, -, h⟩ := h
    obtain ⟨entered, found⟩ := becomes_establish rested r plan.steps deadlineAt
    have stays : nextRequest later ⟨r.expressionId, plan.steps, deadlineAt, [], none, false⟩ = _ :=
      nextRequest_of_unresolved later unresolved
    obtain ⟨made, prepared⟩ := entered.tidy.becomes_onEntry found entered.own (.error .outOfRange)
      (f := nextRequest later) (by rw [stays])
    rw [stays] at made prepared
    change (prepareNext later _ _).1 = _ at made
    change Becomes _ _ _ (prepareNext later _ _).2 at prepared
    simp only [made] at h
    obtain ⟨raises, rfl, quiet⟩ := h
    refine ⟨raises, quiet, ?_, _, prepared.own, rfl, rfl⟩
    rw [← Bool.not_eq_false, prepared.tidy.isPending_eq_false, prepared.own]
    nofun

theorem store_ne_nil (results : List (Int × Float)) (step : Int) (x : Float) :
    store results step x ≠ [] := by
  rw [store]
  split
  · next stored =>
    rintro nil
    rw [List.map_eq_nil_iff.1 nil] at stored
    cases stored
  · exact List.append_ne_nil_of_right_ne_nil _ (List.cons_ne_nil _ _)

theorem isPending_of_sameEntries (same : SameEntries s t) (reserved : t.reserved = s.reserved) :
    t.isPending id = s.isPending id := by
  rw [isPending, isPending, same.table, reserved]

variable {call : Call} {x : Except Fault Unit}

/-- A call that asks for an expression submits it, once the request is read. -/
theorem yields_submit_of_demand {r : ExpressionRequest} (demand : call.demand s = .expression r)
    (h : (call.action settings compiler).Yields s x t es) :
    ∃ u, SameEntries s u ∧ u.reserved = s.reserved ∧
      (submit settings compiler r).Yields u x t es := by
  cases call with
  | submit r' =>
    cases demand
    exact ⟨s, ⟨rfl, rfl⟩, rfl, h⟩
  | requestBody body =>
    rw [Call.action, handleRequest, Routine.yields_atomically_bind] at h
    obtain ⟨same, reserved⟩ := decodeRequest_frame body s
    rw [Call.demand] at demand
    cases hd : (decodeRequest body s).1 with
    | ok r' =>
      rw [hd] at demand h
      cases demand
      exact ⟨_, same, reserved, h⟩
    | error issues =>
      rw [hd] at demand
      cases demand
  | resultBody body =>
    rw [Call.demand] at demand
    split at demand
    · cases demand
    · split at demand <;> cases demand
  | result | fail => cases demand

/-- A call that brings in a result takes it. -/
theorem yields_onResult_of_demand {r : StepResponse} (demand : call.demand s = .result r)
    (h : (call.action settings compiler).Yields s x t es) :
    (onResult settings r).Yields s x t es := by
  cases call with
  | result r' =>
    cases demand
    exact h
  | resultBody body =>
    rw [Call.demand] at demand
    rw [Call.action, handleResult] at h
    split at demand
    · next decoded =>
      cases demand
      rw [decoded] at h
      exact h
    · split at demand <;> cases demand
  | requestBody body =>
    rw [Call.demand] at demand
    split at demand <;> cases demand
  | submit | fail => cases demand

end Scheduler

open Scheduler

variable {s t : Scheduler} {es : List (Effect Unit)} {steps : List Step}
  {results : List (Int × Float)} {step missing : Int}

/-- Calls on the scheduler one after the other, with any compiler, and one that turns to a step that
refers to no result.  The expression ends cleanly, unless the step is the first of its expression;
and then the call raises and the expression is stranded. -/
theorem ends_cleanly_iff (reachable : ReachableWith settings compiler s) {call : Call}
    {x : Except Fault Unit} (turns : TurnsTo compiler s (call.demand s) id steps results)
    (waits : Unresolved steps results step missing)
    (yields : (call.action settings compiler).Yields s x t es) :
    (EndsCleanly settings id step missing x t es ↔ results ≠ []) ∧
      (results = [] → Strands id step missing x t es) := by
  have rested := reachable.rested
  generalize asks : call.demand s = demand at turns
  cases turns with
  | first free compiled nonempty deadline =>
    obtain ⟨u, same, reserved, yields⟩ := yields_submit_of_demand asks yields
    rw [← isPending_of_sameEntries same reserved] at free
    have rested : u.Rested := ⟨same.tidy rested.tidy, reserved.trans rested.unreserved⟩
    have strands := strands_of_submit rested free compiled nonempty deadline waits yields
    -- there are no results yet, so what has to be shown is that this is no clean end
    refine ⟨⟨fun clean => ?_, fun ne => absurd rfl ne⟩, fun _ => strands⟩
    cases strands.raises.symm.trans clean.returns
  | later here open_ inFlight value more =>
    have yields := yields_onResult_of_demand asks yields
    have clean := endsCleanly_of_onResult rested here open_ inFlight value more waits yields
    exact ⟨⟨fun _ => store_ne_nil _ _ _, fun _ => clean⟩,
      fun nil => absurd nil (store_ne_nil _ _ _)⟩

/-! ### A reference to a step that does not exist -/

/-- Makes a plan of given steps of any text. -/
def planned (steps : List Step) : Compiler := fun text => .ok ⟨text, [], steps, none⟩

theorem ends_cleanly_after_sum :
    let compiler := planned [⟨0, .add, .value 1, .value 2⟩, ⟨1, .add, .result 5, .value 1⟩]
    let sum := (Call.submit ⟨"a", "x", 30000⟩).perform .standard compiler ⟨0, []⟩ .empty
    let result := Call.result ⟨"a", 0, .value 3⟩
    let next := result.perform .standard compiler ⟨0, []⟩ sum.state
    ReachableWith .standard compiler sum.state ∧
      ∃ steps results, TurnsTo compiler sum.state (result.demand sum.state) "a" steps results ∧
        Unresolved steps results 1 5 ∧
        EndsCleanly .standard "a" 1 5 next.result next.state next.effects := by
  intro compiler sum result next
  have reachable : ReachableWith .standard compiler sum.state :=
    .call .empty (Routine.yields_run ⟨0, []⟩ _ _)
  have waits : (sum.state.entryOf? "a").any (fun e => !e.answered && e.inFlight == some 0 &&
      e.results.isEmpty && e.steps.map (fun s => (s.id, s.dependencies)) == [(0, []), (1, [5])]) =
      true := by decide +kernel
  obtain ⟨e, here, shape⟩ := (Option.any_eq_true _ _).1 waits
  simp only [Bool.and_eq_true, Bool.not_eq_true', beq_iff_eq, List.isEmpty_iff] at shape
  obtain ⟨⟨⟨open_, inFlight⟩, none⟩, steps⟩ := shape
  have two : e.steps.length = 2 := by
    have := congrArg List.length steps
    rwa [List.length_map] at this
  have stored : store e.results 0 3 = [(0, 3)] := by
    rw [none]
    rfl
  have turns : TurnsTo compiler sum.state (result.demand sum.state) "a" e.steps [(0, 3)] := by
    rw [← stored]
    exact .later here open_ inFlight rfl (by rw [two, stored]; decide)
  have waits : Unresolved e.steps [(0, 3)] 1 5 := by
    have second := congrArg (·[1]?) steps
    rw [List.getElem?_map] at second
    obtain ⟨s, there, shape⟩ := Option.map_eq_some_iff.1 second
    obtain ⟨id, dependencies⟩ := Prod.mk.inj shape
    exact ⟨s, there, id, by rw [dependencies]; rfl⟩
  refine ⟨reachable, e.steps, _, turns, waits, ?_⟩
  exact (ends_cleanly_iff reachable turns waits (Routine.yields_run ⟨0, []⟩ _ _)).1.2
    (List.cons_ne_nil _ _)

/-- A step that refers to no result, as the first of its expression. -/
theorem unresolved_first_step_strands :
    let steps : List Step := [⟨0, .add, .result 5, .value 1⟩]
    let submit := Call.submit ⟨"a", "x", 30000⟩
    let out := submit.perform .standard (planned steps) ⟨0, []⟩ .empty
    TurnsTo (planned steps) .empty (submit.demand .empty) "a" steps [] ∧
      Unresolved steps [] 0 5 ∧
      Strands "a" 0 5 out.result out.state out.effects ∧
      ¬ EndsCleanly .standard "a" 0 5 out.result out.state out.effects := by
  intro steps submit out
  have deadline : (Decimal.ofInt? 30000).isSome := by decide +kernel
  have free : isPending empty "a" = false := rfl
  have compiled : planned steps "x" = .ok ⟨"x", [], steps, none⟩ := rfl
  have nonempty : steps ≠ [] := List.cons_ne_nil _ _
  have waits : Unresolved steps [] 0 5 := ⟨_, rfl, rfl, rfl⟩
  have yields : (submit.action .standard (planned steps)).Yields .empty out.result out.state
      out.effects := Routine.yields_run ⟨0, []⟩ _ _
  have strands : Strands "a" 0 5 out.result out.state out.effects :=
    strands_of_submit (r := ⟨"a", "x", 30000⟩) rested_empty free compiled nonempty deadline waits
      yields
  have turns : TurnsTo (planned steps) empty (.expression ⟨"a", "x", 30000⟩) "a" steps [] :=
    .first (r := ⟨"a", "x", 30000⟩) free compiled nonempty deadline
  have dirty : ¬ EndsCleanly .standard "a" 0 5 out.result out.state out.effects := by
    intro clean
    have raises := strands.raises
    rw [clean.returns] at raises
    cases raises
  exact ⟨turns, waits, strands, dirty⟩

end Stepwise
