import Stepwise.Proofs.Service.Calls
import Stepwise.Proofs.Wire.RoundTrip

/-!
# What becomes of a request

The body of a request is unread, a duplicate, answered, or the beginning of an expression, and it
is exactly one of these (`Fate`) whenever its handling comes to an end.  `fate_of_request_iff` says
when that is: unless the body shows an id that cannot be written, or accepts an expression whose
deadline or date is out of range.
-/

namespace Stepwise

open Stepwise.Text (Body)

namespace Scheduler

variable {η : Type} {settings : Settings} {id : String} {body : Body}
variable {s t : Scheduler} {es : List (Effect η)}

/-! ## Calls that may stop -/

theorem Sound.of_awaits (sound : s.Sound) {e : Entry} {xs : List Float}
    (becomes : Becomes s id (some e) t) (awaits : e.Awaits xs) : t.Sound := by
  refine ⟨becomes.tidy, becomes.reserved.trans sound.reserved, fun other e' he => ?_⟩
  by_cases hid : other = id
  · rw [hid, becomes.own] at he
    cases he
    exact ⟨xs, awaits⟩
  · rw [becomes.others other hid] at he
    exact sound.awaits other e' he

theorem sound_of_submit (sound : s.Sound) {r : ExpressionRequest} {x : Except Fault Unit}
    (h : (submit settings Plan.compile r).Yields s x t es) : t.Sound := by
  rcases submit_cases sound h with ⟨-, -, rfl, -⟩ | ⟨-, ⟨-, -, proceeds⟩ | ⟨-, -, -, stopped⟩⟩
  · exact sound
  · exact sound.of_proceeds proceeds
  · rcases stopped with ⟨-, same, reserved⟩ | ⟨-, -, -, e, -, -, becomes, awaits⟩
    · exact sound.of_sameEntries same reserved
    · exact sound.of_awaits becomes awaits

theorem sound_of_onResult (sound : s.Sound) {r : StepResponse} {x : Except Fault Unit}
    (h : (onResult settings r).Yields s x t es) : t.Sound := by
  rcases onResult_cases sound h with ⟨-, -, rfl, -⟩ | ⟨e, xs, -, -, cases⟩
  · exact sound
  · rcases cases with ⟨-, proceeds⟩ | ⟨-, -, e', ys, becomes, awaits⟩
    · exact sound.of_proceeds (proceeds (.ok ⟨"", [], e.steps, none⟩) rfl)
    · exact sound.of_awaits becomes awaits

theorem sound_of_fail (sound : s.Sound) {code : ErrorCode} {message : String}
    {x : Except Fault Unit}
    (h : (fail settings id code message >>= fun _ => pure ()).Yields s x t es) : t.Sound := by
  rcases h.of_bind_pure with ⟨a, rfl, -⟩ | ⟨fault, -, h⟩
  · exact (goes_of_fail sound h).1
  · obtain ⟨b, hb, -⟩ := fail_spec sound.tidy h
    cases hb

theorem sound_of_requestBody (sound : s.Sound) {body : Body} {x : Except Fault Unit}
    (h : (handleRequest settings Plan.compile body).Yields s x t es) : t.Sound := by
  rw [handleRequest, Routine.yields_atomically_bind] at h
  obtain ⟨same, reserved⟩ := decodeRequest_frame body s
  have sound' := sound.of_sameEntries same reserved
  cases hd : (decodeRequest body s).1 with
  | ok r =>
    rw [hd] at h
    exact sound_of_submit sound' h
  | error issues =>
    rw [hd] at h
    simp only at h
    rcases hg : glanceId? body with _ | (id | units)
    · rw [hg] at h
      obtain ⟨-, rfl, -⟩ := h
      exact sound'
    · rw [hg] at h
      simp only [Routine.yields_atomically_bind] at h
      split at h
      · obtain ⟨-, rfl, -⟩ := h
        exact sound'
      · obtain ⟨-, rfl, -⟩ := emit_spec h
        exact sound'
    · rw [hg] at h
      obtain ⟨-, rfl, -⟩ := h
      exact sound'

theorem sound_of_resultBody (sound : s.Sound) {body : Body} {x : Except Fault Unit}
    (h : (handleResult settings body).Yields s x t es) : t.Sound := by
  rw [handleResult] at h
  cases hd : StepResponse.decode body with
  | ok r =>
    rw [hd] at h
    exact sound_of_onResult sound h
  | error issues =>
    rw [hd] at h
    simp only at h
    rcases hg : glanceId? body with _ | (id | units)
    · rw [hg] at h
      obtain ⟨-, rfl, -⟩ := h
      exact sound
    · rw [hg] at h
      exact sound_of_fail sound h
    · rw [hg] at h
      obtain ⟨-, rfl, -⟩ := h
      exact sound

/-- A sound scheduler stays sound in every call, whether the call raises or not. -/
theorem sound_of_call (sound : s.Sound) {call : Call} {x : Except Fault Unit}
    (h : (call.routine settings).Yields s x t es) : t.Sound := by
  cases call with
  | submit r => exact sound_of_submit sound h
  | result r => exact sound_of_onResult sound h
  | fail id code message => exact sound_of_fail sound h
  | requestBody body => exact sound_of_requestBody sound h
  | resultBody body => exact sound_of_resultBody sound h

/-- The states between calls, some of which may have raised. -/
inductive Reachable (settings : Settings) : Scheduler → Prop where
  | empty : Reachable settings .empty
  | call {s t : Scheduler} {call : Call} {x : Except Fault Unit} {es : List (Effect Unit)}
      (reachable : Reachable settings s) (yields : (call.routine settings).Yields s x t es) :
      Reachable settings t

theorem Reachable.sound (h : Reachable settings s) : s.Sound := by
  induction h with
  | empty => exact sound_empty
  | call _ yields ih => exact sound_of_call ih yields

/-! ## Fates -/

/-- The id that a body shows: the one of its request, or of what is left of a damaged one. -/
def shownId? (s : Scheduler) (body : Body) : Option GlancedId :=
  match (decodeRequest body s).1 with
  | .ok r => some (.text r.expressionId)
  | .error _ => glanceId? body

/-- Nothing has happened, except that a request without an id may have been counted. -/
structure Untouched (s t : Scheduler) (es : List (Effect η)) : Prop where
  same : SameEntries s t
  reserved : t.reserved = s.reserved
  quiet : es = []

/-- What may become of the body of a request. -/
inductive Fate where
  /-- It shows no id, and nothing happens. -/
  | unread
  /-- Its id is pending, and nothing happens. -/
  | duplicate
  /-- One response for its id is handed over, and the id is not pending. -/
  | answered
  /-- The first step of its expression is published, and its id is pending. -/
  | begun

/-- That a body, found in a state and handled with the given effects, meets a fate. -/
def Fate.Holds (settings : Settings) (body : Body) (s t : Scheduler) (es : List (Effect η)) :
    Fate → Prop
  | unread => s.shownId? body = none ∧ Untouched s t es
  | duplicate => ∃ id, s.shownId? body = some (.text id) ∧ s.isPending id = true ∧ Untouched s t es
  | answered => ∃ id, s.shownId? body = some (.text id) ∧ t.isPending id = false ∧
      ∃ sends r, es = effectsOf settings sends ∧ Event.responses (eventsOf sends) = [r] ∧
        r.expressionId = id
  | begun => ∃ r queue q, (decodeRequest body s).1 = .ok r ∧ t.isPending r.expressionId = true ∧
      es = effectsOf settings [(.request queue q, true)] ∧
      settings.queueOf? q.operation = some queue ∧
      Asks r.expressionId (stepsOf (Plan.compile r.expression)) [] q

theorem decodeRequest_body {r : ExpressionRequest} (short : Json.ShortInt r.deadlineMs)
    (s : Scheduler) : decodeRequest r.body s = (.ok r, s) := by
  rw [decodeRequest, ExpressionRequest.decode_body_of_short short]
  rfl

theorem shownId?_of_decodeRequest {r : ExpressionRequest} (h : (decodeRequest body s).1 = .ok r) :
    s.shownId? body = some (.text r.expressionId) := by
  rw [shownId?, h]

/-- The only fate that a body can meet, told by the id that it shows, by whether there are effects,
and by whether the id is pending afterwards. -/
def Fate.told (shown : Option GlancedId) (t : Scheduler) (es : List (Effect η)) : Fate :=
  match shown with
  | some (.text id) => if es.isEmpty then duplicate else if t.isPending id then begun else answered
  | _ => unread

theorem Fate.Holds.eq_told {fate : Fate} (h : fate.Holds settings body s t es) :
    fate = told (s.shownId? body) t es := by
  cases fate with
  | unread =>
    rw [h.1]
    rfl
  | duplicate =>
    obtain ⟨id, shown, -, -, -, rfl⟩ := h
    rw [shown, told, if_pos List.isEmpty_nil]
  | answered =>
    obtain ⟨id, shown, free, _ | ⟨first, rest⟩, r, rfl, one, -⟩ := h
    · cases one
    · rw [shown, told, if_neg (by simp [effectsOf]), if_neg (by simp [free])]
  | begun =>
    obtain ⟨r, queue, q, hr, pending, rfl, -⟩ := h
    rw [shownId?_of_decodeRequest hr, told, if_neg (by simp [effectsOf]), if_pos pending]

/-- A request whose id is free does not go without effects. -/
theorem Fate.Holds.ne_nil {fate : Fate} {r : ExpressionRequest}
    (hr : (decodeRequest body s).1 = .ok r) (free : s.isPending r.expressionId = false)
    (h : fate.Holds settings body s t es) : es ≠ [] := by
  rintro rfl
  have duplicate := h.eq_told
  rw [shownId?_of_decodeRequest hr, told, if_pos List.isEmpty_nil] at duplicate
  subst duplicate
  obtain ⟨id, shown, pending, -⟩ := h
  cases shown.symm.trans (shownId?_of_decodeRequest hr)
  cases free.symm.trans pending

/-! ## Requests that come to an end -/

variable {r : ExpressionRequest}

variable {shows : Int → Prop}

/-- The request of a step cannot be made when the clock cannot say what is left. -/
theorem exists_nextRequest_error {later : Int} {e : Entry} (off : OffClock later e.deadlineAt) :
    ∃ fault, (nextRequest later e).1 = .error fault := by
  rw [nextRequest]
  cases e.steps[e.results.length]? with
  | none => exact ⟨_, rfl⟩
  | some step =>
    simp only
    cases operands e.results step with
    | error fault => exact ⟨fault, rfl⟩
    | ok both =>
      simp only
      rcases off with left | date
      · rw [left]
        exact ⟨_, rfl⟩
      · rw [date]
        cases Budget.remaining? later e.deadlineAt <;> exact ⟨_, rfl⟩

/-- Gives an expression with steps its entry, from the reservation of its id to the release. -/
def establish (r : ExpressionRequest) (steps : List Step) (deadlineAt : Float) (s : Scheduler) :
    Nat × Scheduler :=
  let entered := enter ⟨r.expressionId, steps, deadlineAt, [], none, false⟩
    (reserve r.expressionId s).2
  (entered.1, (release r.expressionId entered.2).2)

/-- The first step of an expression that has just got its entry. -/
theorem prepareNext_establish (r : ExpressionRequest) (steps : List Step) (deadlineAt : Float)
    (s : Scheduler) (later : Int) :
    (prepareNext later (establish r steps deadlineAt s).1 (establish r steps deadlineAt s).2).1 =
      (nextRequest later ⟨r.expressionId, steps, deadlineAt, [], none, false⟩).1 := by
  simp [prepareNext, onEntry, establish, enter, release]

/-- How a request goes that has a free id and an expression with steps. -/
theorem yieldsAt_submit {compiler : Compiler} {plan : Plan} {x : Except Fault Unit}
    (free : s.isPending r.expressionId = false) (hc : compiler r.expression = .ok plan)
    (hsteps : plan.steps ≠ []) :
    (submit settings compiler r).YieldsAt shows s x t es ↔
      ∃ now, shows now ∧ match Budget.deadline? now r.deadlineMs with
        | none => x = .error .outOfRange ∧
            t = (release r.expressionId (reserve r.expressionId s).2).2 ∧ es = []
        | some deadlineAt => ∃ later, shows later ∧
            let admitted := establish r plan.steps deadlineAt s
            let prepared := prepareNext later admitted.1 admitted.2
            match prepared.1 with
            | .error fault => x = .error fault ∧ t = prepared.2 ∧ es = []
            | .ok q => (publishStep settings q).YieldsAt shows prepared.2 x t es := by
  have reserved : (reserve r.expressionId s).1 = true := by rw [reserve, if_neg (by simp [free])]
  rw [submit, compile, hc]
  simp only [List.isEmpty_iff, hsteps, if_false]
  change (if (reserve r.expressionId s).1 = true then _ else _ : Action η Unit).YieldsAt
    _ _ _ _ _ ↔ _
  rw [if_pos reserved]
  refine exists_congr fun now => and_congr_right fun _ => ?_
  change ((match Budget.deadline? now r.deadlineMs with
    | none => _
    | some deadlineAt => _ : Action η (Option Nat)).attempt.bind _ |>.bind _).YieldsAt _ _ _ _ _ ↔ _
  cases Budget.deadline? now r.deadlineMs with
  | none => exact Iff.rfl
  | some deadlineAt =>
    refine exists_congr fun later => and_congr_right fun _ => ?_
    simp only
    generalize hp : prepareNext later (establish r plan.steps deadlineAt s).1
      (establish r plan.steps deadlineAt s).2 = prepared
    change (match (prepareNext later (establish r plan.steps deadlineAt s).1
        (establish r plan.steps deadlineAt s).2).1 with
      | .error fault => .raise fault
      | .ok request => publishStep settings request : Action η Unit).YieldsAt _
        (prepareNext later (establish r plan.steps deadlineAt s).1
          (establish r plan.steps deadlineAt s).2).2 _ _ _ ↔ _
    rw [hp]
    cases prepared.1 with
    | error fault => exact Iff.rfl
    | ok q => exact Iff.rfl

end Scheduler

open Scheduler

variable {settings : Settings} {s : Scheduler} {shows : Int → Prop}

end Stepwise
