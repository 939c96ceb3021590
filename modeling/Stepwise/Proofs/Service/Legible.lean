import Stepwise.Proofs.Decimal.Bits
import Stepwise.Proofs.Service.Intake
import Stepwise.Proofs.Service.Reference
import Stepwise.Proofs.Service.Reuse
import Stepwise.Proofs.Service.Sections
import Stepwise.Proofs.Wire.Legible

/-!
# What the scheduler sends can be read

`Hands` lists everything that a demand can make the scheduler hand over, with where its numbers
come from.  `received_iff_of_call` says which of it is received as it was built: the messages whose
numbers are finite, and these are all as long as the results that the scheduler has accepted for the
expression are finite.
-/

namespace Stepwise

open Stepwise.Text (Body)

/-! ## Messages that are received -/

namespace Sending

/-- The numbers in a message are finite. -/
def IsFinite : Sending → Prop
  | request _ q => Decimal.isFinite q.left = true ∧ Decimal.isFinite q.right = true
  | response r => r.outcome.IsFinite

/-- A reader takes the number of a step. -/
def IsShort : Sending → Prop
  | request _ q => Json.ShortInt q.stepId
  | response _ => True

/-- A reader takes the deadline of a step, and its date is one of the calendar. -/
def IsDated : Sending → Prop
  | request _ q => Json.ShortInt q.deadlineMs ∧ q.issuedAt.OnCalendar ∧ q.issuedAt.offset = some 0
  | response _ => True

/-- The receiver of a message decodes just what was built, whatever its clock shows. -/
def Received : Sending → Prop
  | request _ q => ∀ now, StepRequest.decode q.body now = .ok q
  | response r => ExpressionResponse.decode r.body = .ok r

theorem received_iff {what : Sending} (dated : what.IsDated) :
    what.Received ↔ what.IsFinite ∧ what.IsShort := by
  cases what with
  | response r => exact ExpressionResponse.decode_body_iff.trans (and_iff_left trivial).symm
  | request queue q =>
    obtain ⟨deadline, issued, utc⟩ := dated
    have zone : ∀ minutes ∈ q.issuedAt.offset, minutes.natAbs < 1440 := by
      rw [utc]
      simp
    have each := StepRequest.decode_body_iff deadline issued zone
    exact ⟨fun h => (each default).1 (h default), fun h now => (each now).2 h⟩

end Sending

/-- What is left of a deadline is an integer that a reader takes. -/
theorem Budget.shortInt_of_remaining? {now left : Int} {deadlineAt : Float}
    (h : remaining? now deadlineAt = some left) : Json.ShortInt left := by
  obtain ⟨n, hn, rfl⟩ := Option.map_eq_some_iff.1 h
  rw [Decimal.truncate?] at hn
  split at hn
  · next negative m e parts =>
    obtain ⟨canonical, -⟩ := Decimal.eq_ofMagnitude parts
    have small := canonical.small
    have high := canonical.high
    have size : (if 0 ≤ e then m * Nat.pow 2 e.toNat else m / Nat.pow 2 (-e).toNat) < 10 ^ 309 := by
      split
      · calc m * 2 ^ e.toNat < 2 ^ 53 * 2 ^ 971 :=
              Nat.mul_lt_mul_of_lt_of_le small (Nat.pow_le_pow_right (by decide) (by omega))
                (by positivity)
          _ < 10 ^ 309 := by decide +kernel
      · exact (Nat.div_le_self _ _).trans_lt (small.trans (by decide +kernel))
    refine Json.shortInt_of_lt (k := 309) (by decide) (by decide) ?_
    cases hn
    generalize (if 0 ≤ e then m * Nat.pow 2 e.toNat else m / Nat.pow 2 (-e).toNat) = n at size
    generalize 10 ^ 309 = bound at size
    split <;> omega
  · cases hn

namespace Scheduler

variable {settings : Settings} {s t : Scheduler} {es : List (Effect Unit)}

/-! ## What a demand can make the scheduler hand over -/

/-- What is handed over on a demand: a failure, the literal of an expression, the request for the
first step, or, once a result is accepted, the request for the next step or the result itself. -/
inductive Hands (settings : Settings) (s : Scheduler) : Demand → Sending → Prop where
  | failure {d : Demand} (id : String) (f : Failure) :
      Hands settings s d (.response ⟨id, .failed f⟩)
  | literal {r : ExpressionRequest} {plan : Plan} {x : Float}
      (compiled : Plan.compile r.expression = .ok plan) (literal : plan.literal = some x) :
      Hands settings s (.expression r) (.response ⟨r.expressionId, .value x⟩)
  | first {r : ExpressionRequest} {plan : Plan} {deadlineAt : Float} {now : Int} {q : StepRequest}
      {queue : String} (compiled : Plan.compile r.expression = .ok plan)
      (prepared : (nextRequest now ⟨r.expressionId, plan.steps, deadlineAt, [], none, false⟩).1 =
        .ok q)
      (mapped : settings.queueOf? q.operation = some queue) :
      Hands settings s (.expression r) (.request queue q)
  | next {r : StepResponse} {e : Entry} {x : Float} {now : Int} {q : StepRequest} {queue : String}
      (pending : s.entryOf? r.expressionId = some e)
      (accepted : s.taken r = [.took r.stepId (.value x)])
      (prepared : (nextRequest now
        { e with inFlight := none, results := store e.results r.stepId x }).1 = .ok q)
      (mapped : settings.queueOf? q.operation = some queue) :
      Hands settings s (.result r) (.request queue q)
  | last {r : StepResponse} {x : Float} (accepted : s.taken r = [.took r.stepId (.value x)]) :
      Hands settings s (.result r) (.response ⟨r.expressionId, .value x⟩)

/-- The effects are those of handing over messages of one kind. -/
def Conveys (settings : Settings) (kind : Sending → Prop) (es : List (Effect Unit)) : Prop :=
  ∃ sends, es = effectsOf settings sends ∧ ∀ p ∈ sends, kind p.1

theorem conveys_nil {kind : Sending → Prop} : Conveys settings kind [] :=
  ⟨[], rfl, nofun⟩

theorem Conveys.cons {kind : Sending → Prop} {what : Sending} {accepted : Bool}
    (here : kind what) (rest : Conveys settings kind es) :
    Conveys settings kind (what.effect settings accepted :: es) := by
  obtain ⟨sends, rfl, each⟩ := rest
  exact ⟨(what, accepted) :: sends, rfl, List.forall_mem_cons.2 ⟨here, each⟩⟩

theorem Conveys.mono {kind kind' : Sending → Prop} (h : Conveys settings kind es)
    (sub : ∀ what, kind what → kind' what) : Conveys settings kind' es := by
  obtain ⟨sends, rfl, each⟩ := h
  exact ⟨sends, rfl, fun p hp => sub p.1 (each p hp)⟩

section Kinds

variable {kind : Sending → Prop} {α : Type}

theorem conveys_of_emit {r : ExpressionResponse} {x : Except Fault Unit} (here : kind (.response r))
    (h : (emit settings r).Yields s x t es) : Conveys settings kind es := by
  obtain ⟨-, -, accepted, rfl⟩ := emit_spec h
  exact conveys_nil.cons here

theorem conveys_of_bind_pure {r : Action Unit α} {β : Type} {b : β} {x : Except Fault β}
    (first : ∀ y, r.Yields s y t es → Conveys settings kind es)
    (h : (r >>= fun _ => pure b).Yields s x t es) : Conveys settings kind es := by
  rcases h.of_bind_pure with ⟨a, -, h⟩ | ⟨fault, -, h⟩
  · exact first _ h
  · exact first _ h

variable (failures : ∀ id f, kind (.response ⟨id, .failed f⟩))

include failures

theorem conveys_of_fail {id : String} {code : ErrorCode} {message : String} {x : Except Fault Bool}
    (h : (fail settings id code message).Yields s x t es) : Conveys settings kind es := by
  rw [fail, Routine.yields_atomically_bind] at h
  simp only at h
  cases hf : s.find? id with
  | none =>
    rw [hf] at h
    obtain ⟨-, -, rfl⟩ := h
    exact conveys_nil
  | some place =>
    rw [hf] at h
    simp only [Routine.yields_atomically_bind] at h
    split at h
    · refine conveys_of_bind_pure (fun y ends => ?_) h
      rw [finish, Routine.yields_atomically_bind] at ends
      exact conveys_of_emit (failures id ⟨code, message⟩) ends
    · obtain ⟨-, -, rfl⟩ := h
      exact conveys_nil

theorem conveys_of_publishStep {q : StepRequest} {x : Except Fault Unit}
    (here : ∀ queue, settings.queueOf? q.operation = some queue → kind (.request queue q))
    (h : (publishStep settings q).Yields s x t es) : Conveys settings kind es := by
  rw [publishStep] at h
  cases hq : settings.queueOf? q.operation with
  | none =>
    rw [hq] at h
    exact conveys_of_bind_pure (fun y => conveys_of_fail failures) h
  | some queue =>
    rw [hq] at h
    simp only [Routine.yields_tryPublish_bind] at h
    rcases h with ⟨rest, rfl, -, -, rfl⟩ | ⟨refusal, rest, rfl, h⟩
    · exact conveys_nil.cons (here queue hq)
    · exact (conveys_of_bind_pure (fun y => conveys_of_fail failures) h).cons (here queue hq)

end Kinds

/-- Messages of an expression without steps. -/
theorem hands_of_moves {r : ExpressionRequest} {sends : List (Sending × Bool)} {stage : Stage}
    (none : stepsOf (Plan.compile r.expression) = [])
    (moves : Moves settings r.expressionId (Plan.compile r.expression) (.ready []) (eventsOf sends)
      stage) : ∀ p ∈ sends, Hands settings s (.expression r) p.1 := by
  rintro ⟨what, accepted⟩ hp
  obtain ⟨front, back, hcut⟩ := List.append_of_mem (List.mem_map_of_mem
    (f := fun p => Event.sent p.1 p.2) hp)
  change eventsOf sends = _ at hcut
  rw [hcut] at moves
  obtain ⟨a, b, -, move, -⟩ := moves.cut
  cases move with
  | send asks | refuse asks =>
    obtain ⟨step, here, -⟩ := asks
    rw [none] at here
    cases here
  | @succeed xs x all value =>
    rw [none] at all
    rw [List.length_eq_zero_iff.1 all] at value
    cases hc : Plan.compile r.expression with
    | error fault =>
      rw [hc] at value
      cases value
    | ok plan =>
      rw [hc] at value
      exact .literal hc value
  | unparsed | unmapped | unpublished | fail => exact .failure _ _

/-- What is handed over on the demand for an expression. -/
theorem conveys_of_submit {r : ExpressionRequest} {x : Except Fault Unit} (sound : s.Sound)
    (h : (submit settings Plan.compile r).Yields s x t es) :
    Conveys settings (Hands settings s (.expression r)) es := by
  rcases submit_cases sound h with ⟨-, -, -, rfl⟩ | ⟨free, ⟨-, -, proceeds⟩ | ⟨-, rfl, -⟩⟩
  · exact conveys_nil
  · by_cases hsteps : stepsOf (Plan.compile r.expression) = []
    · obtain ⟨sends, stage, rfl, moves, -⟩ := proceeds
      exact ⟨sends, rfl, hands_of_moves hsteps moves⟩
    · obtain ⟨plan, hc, hsteps⟩ := exists_plan hsteps
      obtain ⟨now, -, h⟩ := (yieldsAt_submit free hc hsteps).1 h.yieldsAt
      cases hd : Budget.deadline? now r.deadlineMs with
      | none =>
        rw [hd] at h
        obtain ⟨-, -, rfl⟩ := h
        exact conveys_nil
      | some deadlineAt =>
        rw [hd] at h
        obtain ⟨later, -, h⟩ := h
        have prepared := prepareNext_establish r plan.steps deadlineAt s later
        simp only at h
        cases hq : (prepareNext later (establish r plan.steps deadlineAt s).1
            (establish r plan.steps deadlineAt s).2).1 with
        | error fault =>
          rw [hq] at h
          obtain ⟨-, -, rfl⟩ := h
          exact conveys_nil
        | ok q =>
          rw [hq] at h
          exact conveys_of_publishStep .failure
            (fun queue mapped => .first hc (prepared.symm.trans hq) mapped) h.yields
  · exact conveys_nil

/-- What an entry asks for when the answer to a step is taken. -/
theorem hands_of_advance {r : StepResponse} {e : Entry} (he : s.entryOf? r.expressionId = some e)
    (own : e.expressionId = r.expressionId) (now : Int) :
    (∀ answer, (advance now r e).1 = .answer answer →
        Hands settings s (.result r) (.response answer)) ∧
      ∀ q queue, (advance now r e).1 = .send q → settings.queueOf? q.operation = some queue →
        Hands settings s (.result r) (.request queue q) := by
  rw [advance]
  split
  · exact ⟨by simp, by simp⟩
  · next waits =>
    have accepts : (!e.answered && e.inFlight == some r.stepId) = true := by
      simpa [not_or] using waits
    have taken : s.taken r = [.took r.stepId r.outcome] := by
      rw [Scheduler.taken, he]
      exact if_pos accepts
    simp only
    cases ho : r.outcome with
    | failed f =>
      refine ⟨?_, by simp⟩
      rintro _ ⟨⟩
      exact .failure _ f
    | value x =>
      rw [ho] at taken
      simp only
      split
      · refine ⟨?_, by simp⟩
        rintro _ ⟨⟩
        rw [own]
        exact .last taken
      · split
        · next q e' made =>
          refine ⟨by simp, ?_⟩
          rintro _ queue ⟨⟩ mapped
          exact .next he taken (congrArg Prod.fst made) mapped
        · refine ⟨?_, by simp⟩
          rintro _ ⟨⟩
          exact .failure _ _
        · exact ⟨by simp, by simp⟩

/-- What is handed over on the demand that the answer to a step be taken. -/
theorem conveys_of_onResult {r : StepResponse} {x : Except Fault Unit} (sound : s.Sound)
    (h : (onResult settings r).Yields s x t es) :
    Conveys settings (Hands settings s (.result r)) es := by
  rw [onResult, Routine.yields_atomically_bind] at h
  simp only at h
  cases hf : s.find? r.expressionId with
  | none =>
    rw [hf] at h
    obtain ⟨-, -, rfl⟩ := h
    exact conveys_nil
  | some place =>
    rw [hf] at h
    simp only [Routine.yields_now_bind, Routine.yields_atomically_bind] at h
    obtain ⟨now, h⟩ := h
    obtain ⟨e, here, he, hid⟩ := sound.tidy.exists_entryOf? hf
    obtain ⟨answers, sends⟩ := @hands_of_advance settings _ _ _ he hid now
    rw [accept, onEntry_eq here] at h
    simp only at h
    cases ha : (advance now r e).1 with
    | nothing | stop fault =>
      rw [ha] at h
      obtain ⟨-, -, rfl⟩ := h
      exact conveys_nil
    | answer response =>
      rw [ha] at h
      simp only [finish, Routine.yields_atomically_bind] at h
      exact conveys_of_emit (answers response ha) h
    | send q =>
      rw [ha] at h
      exact conveys_of_publishStep .failure (fun queue => sends q queue ha) h

theorem conveys_of_requestBody (sound : s.Sound) {body : Body} {x : Except Fault Unit}
    (h : (handleRequest settings Plan.compile body).Yields s x t es) :
    Conveys settings (Hands settings s (Call.demand s (.requestBody body))) es := by
  rw [handleRequest, Routine.yields_atomically_bind] at h
  rw [Call.demand]
  obtain ⟨same, reserved⟩ := decodeRequest_frame body s
  generalize decodeRequest body s = decoded at h same reserved ⊢
  obtain ⟨checked, s'⟩ := decoded
  cases checked with
  | ok r =>
    refine (conveys_of_submit (sound.of_sameEntries same reserved) h).mono fun what hands => ?_
    cases hands with
    | failure id f => exact .failure id f
    | literal compiled literal => exact .literal compiled literal
    | first compiled prepared mapped => exact .first compiled prepared mapped
  | error issues =>
    simp only at h ⊢
    rcases hg : glanceId? body with _ | (id | units)
    · rw [hg] at h
      obtain ⟨-, -, rfl⟩ := h
      exact conveys_nil
    · rw [hg] at h
      simp only [Routine.yields_atomically_bind] at h
      split at h
      · obtain ⟨-, -, rfl⟩ := h
        exact conveys_nil
      · exact conveys_of_emit (.failure id _) h
    · rw [hg] at h
      obtain ⟨-, -, rfl⟩ := h
      exact conveys_nil

theorem conveys_of_resultBody (sound : s.Sound) {body : Body} {x : Except Fault Unit}
    (h : (handleResult settings body).Yields s x t es) :
    Conveys settings (Hands settings s (Call.demand s (.resultBody body))) es := by
  rw [handleResult] at h
  rw [Call.demand]
  cases hd : StepResponse.decode body with
  | ok r =>
    rw [hd] at h
    exact conveys_of_onResult sound h
  | error issues =>
    rw [hd] at h
    simp only at h ⊢
    rcases hg : glanceId? body with _ | (id | units)
    · rw [hg] at h
      obtain ⟨-, -, rfl⟩ := h
      exact conveys_nil
    · rw [hg] at h
      exact conveys_of_bind_pure (fun y => conveys_of_fail .failure) h
    · rw [hg] at h
      obtain ⟨-, -, rfl⟩ := h
      exact conveys_nil

/-- What is handed over in a call. -/
theorem conveys_of_call (sound : s.Sound) {call : Call} {x : Except Fault Unit}
    (h : (call.routine settings).Yields s x t es) :
    Conveys settings (Hands settings s (call.demand s)) es := by
  cases call with
  | submit r => exact conveys_of_submit sound h
  | result r => exact conveys_of_onResult sound h
  | fail id code message =>
    exact conveys_of_bind_pure (fun y => conveys_of_fail .failure) h
  | requestBody body => exact conveys_of_requestBody sound h
  | resultBody body => exact conveys_of_resultBody sound h

/-! ## Where the numbers come from -/

/-- The numbers in the operands of steps are finite. -/
def FiniteLiterals (steps : List Step) : Prop :=
  ∀ step ∈ steps, step.left.IsFinite ∧ step.right.IsFinite

/-- Each entry that there has ever been has steps with a property. -/
def Every (P : List Step → Prop) (s : Scheduler) : Prop :=
  ∀ e ∈ s.entries, P e.steps

section Every

variable {P : List Step → Prop} {compiler : Compiler}

theorem Every.onEntry {α : Type} {place : Nat} {otherwise : α} {f : Entry → α × Entry}
    (h : s.Every P) (kept : ∀ e, (f e).2.steps = e.steps) :
    (Scheduler.onEntry place otherwise f s).2.Every P := by
  rw [Scheduler.onEntry]
  split
  · exact h
  · next e he =>
    intro e' he'
    rcases Array.mem_or_eq_of_mem_setIfInBounds he' with old | rfl
    · exact h e' old
    · rw [kept]
      exact h e (Array.mem_of_getElem? he)

theorem Every.enter {e : Entry} (h : s.Every P) (new : P e.steps) :
    (Scheduler.enter e s).2.Every P := by
  intro e' he'
  rcases Array.mem_push.1 he' with old | rfl
  · exact h e' old
  · exact new

/-- Entries get the steps of plans, and keep them. -/
theorem permits_every (planned : ∀ text plan, compiler text = .ok plan → P plan.steps) :
    Permits settings compiler (Every P) ⟨fun _ _ => True, fun _ _ _ => True⟩ (fun _ => True)
      (fun _ => True) fun _ => True where
  aside h same := by
    refine ⟨fun e mem => ?_, trivial⟩
    rw [same] at mem
    exact h e mem
  enter h _ _ compiled _ := ⟨h.enter (planned _ _ compiled), trivial⟩
  abandon h := by
    refine ⟨h.onEntry fun e => ?_, trivial⟩
    split <;> rfl
  prepare {s place now} h _ := by
    refine ⟨h.onEntry fun e => ?_, trivial, fun _ _ _ _ => trivial⟩
    obtain ⟨_, frame⟩ := nextRequest_frame now e
    rw [frame]
  accept {s place now r} h _ _ := by
    refine ⟨h.onEntry fun e => ?_, trivial, fun _ _ _ _ => trivial⟩
    obtain ⟨⟨_, _, _, frame⟩, -⟩ := advance_frame now r e
    rw [frame]

theorem maintains_call (planned : ∀ text plan, Plan.compile text = .ok plan → P plan.steps)
    (call : Call) : (call.routine settings : Action Unit Unit).Maintains (Every P) := by
  have heeds : (call.routine settings : Action Unit Unit).Heeds _ _ _ fun _ => True :=
    heeds_call (permits_every planned) (fun _ => trivial) (fun _ _ _ => trivial)
      fun _ _ _ => trivial
  exact heeds.guarantees fun _ _ _ => trivial

end Every

theorem Reachable.finiteLiterals (h : Reachable settings s) : s.Every FiniteLiterals := by
  induction h with
  | empty => exact nofun
  | call _ yields ih =>
    exact (maintains_call (fun _ _ hc => (isFinite_of_compile hc).1) _).yields ih yields

theorem isFinite_of_resolve {results : List (Int × Float)} {o : Operand} {x : Float}
    (literal : o.IsFinite) (finite : ∀ p ∈ results, Decimal.isFinite p.2 = true)
    (h : resolve results o = .ok x) : Decimal.isFinite x = true := by
  cases o with
  | value y =>
    cases h
    exact literal
  | result step =>
    rw [resolve] at h
    split at h
    · next y found =>
      cases h
      obtain ⟨l₁, l₂, rfl, -⟩ := List.lookup_eq_some_iff.1 found
      exact finite (step, x) (List.mem_append_right _ List.mem_cons_self)
    · cases h

theorem mem_store {results : List (Int × Float)} {step : Int} {x : Float} {p : Int × Float}
    (h : p ∈ store results step x) : p ∈ results ∨ p = (step, x) := by
  rw [store] at h
  split at h
  · obtain ⟨q, hq, rfl⟩ := List.mem_map.1 h
    split
    · exact Or.inr rfl
    · exact Or.inl hq
  · rcases List.mem_append.1 h with old | new
    · exact Or.inl old
    · exact Or.inr (List.mem_singleton.1 new)

/-- The request for a step has a deadline and a date that a reader takes. -/
theorem isDated_of_nextRequest {now : Int} {e : Entry} {q : StepRequest} {queue : String}
    (h : (nextRequest now e).1 = .ok q) : (Sending.request queue q).IsDated := by
  obtain ⟨-, -, -, -, -, budget, issued⟩ := eq_of_nextRequest h
  obtain ⟨calendar, -, offset⟩ := Timestamp.advance?_spec issued
  exact ⟨Budget.shortInt_of_remaining? budget, calendar, offset⟩

theorem isFinite_of_nextRequest {now : Int} {e : Entry} {q : StepRequest} {queue : String}
    (h : (nextRequest now e).1 = .ok q) (literals : FiniteLiterals e.steps)
    (finite : ∀ p ∈ e.results, Decimal.isFinite p.2 = true) :
    (Sending.request queue q).IsFinite := by
  obtain ⟨-, step, mem, left, right, -⟩ := eq_of_nextRequest h
  exact ⟨isFinite_of_resolve (literals step mem).1 finite left,
    isFinite_of_resolve (literals step mem).2 finite right⟩

/-- The results that a demand can put into a message: those of the expression's steps so far, and
the one that it brings in if it is accepted. -/
def Demand.results (s : Scheduler) : Demand → List (Int × Float)
  | .result r => ((s.entryOf? r.expressionId).elim [] Entry.results) ++ Event.results (s.taken r)
  | _ => []

theorem Hands.isDated {d : Demand} {what : Sending} (h : Hands settings s d what) :
    what.IsDated := by
  cases h with
  | failure | literal | last => trivial
  | first _ prepared | next _ _ prepared => exact isDated_of_nextRequest prepared

/-- Only a result that is no finite number puts one into a message. -/
theorem Hands.isFinite {d : Demand} {what : Sending} (h : Hands settings s d what)
    (literals : s.Every FiniteLiterals)
    (finite : ∀ p ∈ d.results s, Decimal.isFinite p.2 = true) : what.IsFinite := by
  cases h with
  | failure => trivial
  | literal compiled literal => exact (isFinite_of_compile compiled).2 _ literal
  | first compiled prepared =>
    exact isFinite_of_nextRequest prepared (isFinite_of_compile compiled).1 (List.forall_mem_nil _)
  | next pending accepted prepared =>
    obtain ⟨place, -, here⟩ := Option.bind_eq_some_iff.1 pending
    have own := literals _ (Array.mem_of_getElem? here)
    refine isFinite_of_nextRequest prepared own fun p hp => ?_
    rw [Demand.results, pending, accepted] at finite
    rcases mem_store hp with old | rfl
    · exact finite p (List.mem_append_left _ old)
    · exact finite _ (List.mem_append_right _ (List.mem_singleton_self _))
  | last accepted =>
    rw [Demand.results, accepted] at finite
    exact finite (_, _) (List.mem_append_right _ (List.mem_singleton_self _))

end Scheduler

open Scheduler

variable {settings : Settings} {s t : Scheduler} {es : List (Effect Unit)}

/-- Whatever has gone before, each message that is handed over in a call comes from what the call
demands.  Its receiver decodes just what was built if the numbers in it are finite and its step has
a number that a reader takes, and only then; and the numbers are finite if the results of the
expression are, the one that comes in with the call included. -/
theorem received_iff_of_call (reachable : Reachable settings s) {call : Call}
    {x : Except Fault Unit} (yields : (call.routine settings).Yields s x t es) :
    ∃ sends, es = effectsOf settings sends ∧ ∀ p ∈ sends,
      Hands settings s (call.demand s) p.1 ∧ (p.1.Received ↔ p.1.IsFinite ∧ p.1.IsShort) ∧
        ((∀ result ∈ (call.demand s).results s, Decimal.isFinite result.2 = true) →
          p.1.IsFinite) := by
  obtain ⟨sends, rfl, each⟩ := conveys_of_call reachable.sound yields
  exact ⟨sends, rfl, fun p hp => ⟨each p hp, Sending.received_iff (each p hp).isDated,
    (each p hp).isFinite reachable.finiteLiterals⟩⟩

/-- On the call that submits the sum to an empty scheduler. -/
theorem received_iff_of_one_plus_two :
    let call : Call := .submit ⟨"a", "1+2", 1000⟩
    let out := call.trial .standard .empty
    Reachable .standard .empty ∧
      (call.routine .standard).Yields .empty (.ok ()) out.state out.effects ∧
      ∃ sends, out.effects = effectsOf .standard sends ∧ ∀ p ∈ sends,
        Hands .standard .empty (call.demand .empty) p.1 ∧
          (p.1.Received ↔ p.1.IsFinite ∧ p.1.IsShort) ∧
          ((∀ result ∈ (call.demand .empty).results .empty, Decimal.isFinite result.2 = true) →
            p.1.IsFinite) := by
  intro call out
  have yields : (call.routine .standard).Yields .empty (.ok ()) out.state out.effects :=
    Routine.yields_of_isOk ⟨0, []⟩ (by decide +kernel)
  exact ⟨.empty, yields, received_iff_of_call .empty yields⟩

/-- The answer to the sum when its step has a result that is no number. -/
def nanResponse : ExpressionResponse := ⟨"a", .value (0 / 0)⟩

/-- A result that is no number is accepted for the sum, and ends it with an answer that nobody can
read. -/
theorem nan_is_not_received :
    let submitted := (Call.submit ⟨"a", "1+2", 1000⟩).trial .standard .empty
    let call : Call := .result ⟨"a", 0, .value (0 / 0)⟩
    let out := call.trial .standard submitted.state
    Reachable .standard submitted.state ∧
      (call.routine .standard).Yields submitted.state (.ok ()) out.state out.effects ∧
      out.published.map (·.body) = [nanResponse.body] ∧ out.state.isPending "a" = false ∧
      ¬ (Sending.response nanResponse).Received ∧
      ∀ r, ExpressionResponse.decode nanResponse.body ≠ .ok r := by
  intro submitted call out
  have unread : (ExpressionResponse.decode nanResponse.body).isOk = false := by decide +kernel
  have fails : ∀ r, ExpressionResponse.decode nanResponse.body ≠ .ok r := by
    intro r h
    rw [h] at unread
    cases unread
  have reachable : Reachable .standard submitted.state :=
    .call .empty (Routine.yields_run ⟨0, []⟩ ((Call.submit ⟨"a", "1+2", 1000⟩).routine _) .empty)
  exact ⟨reachable, Routine.yields_of_isOk ⟨0, []⟩ (by decide +kernel), by decide +kernel,
    by decide +kernel, fails nanResponse, fails⟩

end Stepwise
