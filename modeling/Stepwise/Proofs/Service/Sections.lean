import Stepwise.Proofs.Service.Calls
import Stepwise.Proofs.Transport.Rules

/-!
# The sections of calls

Calls work on the scheduler in a few kinds of sections: they look at the table and change it, enter
an entry, abandon one, prepare its next step, or accept a result for it.  `Permits` says that rules
and an invariant suit each of these; then every call heeds the rules (`heeds_call`).
-/

namespace Stepwise

open Stepwise.Text (Body)

namespace Scheduler

/-- Each kind of section keeps the invariant and the rules, if the call demands only certain
expressions and brings in only certain results; and the request for a step that a section puts in
flight may be handed over. -/
structure Permits (settings : Settings) (compiler : Compiler) (inv : Scheduler → Prop)
    (rules : Rules Scheduler) (shows : Int → Prop) (demands : ExpressionRequest → Prop)
    (takes : StepResponse → Prop) : Prop where
  aside : ∀ {s t}, inv s → t.entries = s.entries → inv t ∧ rules.step s t
  enter : ∀ {s r plan now deadlineAt}, inv s → demands r → shows now →
    compiler r.expression = .ok plan → Budget.deadline? now r.deadlineMs = some deadlineAt →
    let t := (enter ⟨r.expressionId, plan.steps, deadlineAt, [], none, false⟩ s).2
    inv t ∧ rules.step s t
  abandon : ∀ {s place}, inv s → inv (abandon place s).2 ∧ rules.step s (abandon place s).2
  prepare : ∀ {s place now}, inv s → shows now →
    let t := (prepareNext now place s).2
    inv t ∧ rules.step s t ∧ ∀ q queue, (prepareNext now place s).1 = .ok q →
      settings.queueOf? q.operation = some queue → rules.readies s t ⟨queue, q.body⟩
  accept : ∀ {s place now r}, inv s → takes r → shows now →
    let t := (accept now r place s).2
    inv t ∧ rules.step s t ∧ ∀ q queue, (accept now r place s).1 = .send q →
      settings.queueOf? q.operation = some queue → rules.readies s t ⟨queue, q.body⟩

variable {settings : Settings} {compiler : Compiler} {inv : Scheduler → Prop}
  {rules : Rules Scheduler} {shows : Int → Prop} {demands : ExpressionRequest → Prop}
  {takes : StepResponse → Prop} {ready : Message → Prop} {η : Type}

theorem heeds_emit {r : ExpressionResponse} (response : ready ⟨settings.responseQueue, r.body⟩) :
    (emit settings r : Action η Unit).Heeds inv rules shows ready := by
  refine (Routine.heeds_tryPublish response).bind fun answer => ?_
  split <;> trivial

section Routines

variable (permits : Permits settings compiler inv rules shows demands takes)

include permits

/-- A section that leaves the entries alone, and what follows it. -/
theorem heeds_aside {α β : Type} {f : Scheduler → α × Scheduler} {next : α → Action η β}
    (aside : ∀ s, (f s).2.entries = s.entries)
    (rest : ∀ s, (next (f s).1).Heeds inv rules shows ready) :
    (Routine.atomically f >>= next).Heeds inv rules shows ready := by
  refine Routine.heeds_atomically_bind.2 fun s hs => ?_
  obtain ⟨keeps, does⟩ := permits.aside hs (aside s)
  exact ⟨keeps, does, (rest s).mono fun m => Or.inl⟩

variable (responses : ∀ r : ExpressionResponse, ready ⟨settings.responseQueue, r.body⟩)

include responses

theorem heeds_finish (id : String) (r : ExpressionResponse) :
    (finish settings id r : Action η Unit).Heeds inv rules shows ready :=
  heeds_aside permits (fun _ => rfl) fun _ => heeds_emit (responses r)

theorem heeds_fail (id : String) (code : ErrorCode) (message : String) :
    (fail settings id code message : Action η Bool).Heeds inv rules shows ready := by
  refine heeds_aside permits (fun _ => rfl) fun s => ?_
  dsimp only
  split
  · exact Routine.heeds_pure _
  · refine Routine.heeds_atomically_bind.2 fun s hs => ?_
    obtain ⟨keeps, does⟩ := permits.abandon hs
    refine ⟨keeps, does, Routine.Heeds.mono ?_ fun m => Or.inl⟩
    split
    · exact (heeds_finish permits responses _ _).bind fun _ => Routine.heeds_pure _
    · exact Routine.heeds_pure _

theorem heeds_publishStep {q : StepRequest}
    (here : ∀ queue, settings.queueOf? q.operation = some queue → ready ⟨queue, q.body⟩) :
    (publishStep settings q : Action η Unit).Heeds inv rules shows ready := by
  unfold publishStep
  split
  · exact (heeds_fail permits responses _ _ _).bind fun _ => Routine.heeds_pure _
  · next queue mapped =>
    refine (Routine.heeds_tryPublish (here queue mapped)).bind fun answer => ?_
    split
    · exact Routine.heeds_pure _
    · exact (heeds_fail permits responses _ _ _).bind fun _ => Routine.heeds_pure _
    · trivial

theorem heeds_compile {r : ExpressionRequest} (demanded : demands r) :
    (compile settings compiler r : Action η (Option Nat)).Heeds inv rules shows ready := by
  unfold compile
  split
  · exact (heeds_emit (responses _)).bind fun _ => Routine.heeds_pure _
  · next plan compiled =>
    split
    · split
      · exact (heeds_emit (responses _)).bind fun _ => Routine.heeds_pure _
      · trivial
    · refine Routine.heeds_now_bind.2 fun now shown => ?_
      split
      · trivial
      · next deadlineAt deadline =>
        refine Routine.Heeds.bind ?_ fun place => Routine.heeds_pure _
        exact Routine.heeds_atomically fun s hs =>
          permits.enter hs demanded shown compiled deadline

theorem heeds_submit {r : ExpressionRequest} (demanded : demands r) :
    (submit settings compiler r : Action η Unit).Heeds inv rules shows ready := by
  refine heeds_aside permits (fun s => ?_) fun s => ?_
  · unfold reserve
    split <;> rfl
  · split
    · have released : (Routine.atomically (release r.expressionId) : Action η Unit).Heeds inv rules
          shows ready := Routine.heeds_atomically fun s hs => permits.aside hs rfl
      refine ((heeds_compile permits responses demanded).thenAlways released).bind fun place? => ?_
      split
      · exact Routine.heeds_pure _
      · refine Routine.heeds_now_bind.2 fun now shown => ?_
        refine Routine.heeds_atomically_bind.2 fun s hs => ?_
        obtain ⟨keeps, does, readies⟩ := permits.prepare hs shown
        refine ⟨keeps, does, ?_⟩
        split
        · trivial
        · next q made =>
          exact heeds_publishStep permits (fun r => Or.inl (responses r)) fun queue mapped =>
            Or.inr (readies q queue made mapped)
    · exact Routine.heeds_pure _

theorem heeds_onResult {r : StepResponse} (taken : takes r) :
    (onResult settings r : Action η Unit).Heeds inv rules shows ready := by
  refine heeds_aside permits (fun _ => rfl) fun s => ?_
  dsimp only
  split
  · exact Routine.heeds_pure _
  · refine Routine.heeds_now_bind.2 fun now shown => ?_
    refine Routine.heeds_atomically_bind.2 fun s hs => ?_
    obtain ⟨keeps, does, readies⟩ := permits.accept hs taken shown
    refine ⟨keeps, does, ?_⟩
    split
    · exact Routine.heeds_pure _
    · exact heeds_finish permits (fun r => Or.inl (responses r)) _ _
    · next q made =>
      exact heeds_publishStep permits (fun r => Or.inl (responses r)) fun queue mapped =>
        Or.inr (readies q queue made mapped)
    · trivial

end Routines

/-- A call heeds rules that permit its sections.  Responses may be handed over at any time. -/
theorem heeds_call (permits : Permits settings Plan.compile inv rules shows demands takes)
    (responses : ∀ r : ExpressionResponse, ready ⟨settings.responseQueue, r.body⟩) {call : Call}
    (demanded : ∀ s r, call.demand s = .expression r → demands r)
    (taken : ∀ s r, call.demand s = .result r → takes r) :
    (call.routine settings : Action η Unit).Heeds inv rules shows ready := by
  cases call with
  | submit r => exact heeds_submit permits responses (demanded .empty r rfl)
  | result r => exact heeds_onResult permits responses (taken .empty r rfl)
  | fail id code message =>
    exact (heeds_fail permits responses id code message).bind fun _ => Routine.heeds_pure _
  | requestBody body =>
    refine heeds_aside permits (fun s => (decodeRequest_frame body s).1.entries) fun s => ?_
    have demanded := demanded s
    rw [Call.demand] at demanded
    split
    · next r decoded =>
      rw [decoded] at demanded
      exact heeds_submit permits responses (demanded r rfl)
    · split
      · exact Routine.heeds_pure _
      · trivial
      · refine heeds_aside permits (fun _ => rfl) fun s => ?_
        split
        · exact Routine.heeds_pure _
        · exact heeds_emit (responses _)
  | resultBody body =>
    have taken := taken .empty
    rw [Call.demand] at taken
    rw [Call.routine, handleResult]
    split
    · next r decoded =>
      rw [decoded] at taken
      exact heeds_onResult permits responses (taken r rfl)
    · split
      · exact (heeds_fail permits responses _ _ _).bind fun _ => Routine.heeds_pure _
      · exact Routine.heeds_pure _

end Scheduler

end Stepwise
