import Stepwise.Proofs.Service.Routines

/-!
# Calls

A scheduler that is `Sound` stays so in every call that does not raise, and each call either leaves
the expression it is about alone or is the next stretch of its story.
-/

namespace Stepwise

open Stepwise.Text (Body)

variable {η : Type} {settings : Settings} {id : String} {plan : Except CompileFault Plan}

namespace Scheduler

variable {s t : Scheduler} {es : List (Effect η)}

/-- Between calls nothing is reserved, and each entry waits for the result of a step. -/
structure Sound (s : Scheduler) : Prop where
  tidy : s.Tidy
  reserved : s.reserved = []
  awaits : ∀ id e, s.entryOf? id = some e → ∃ xs, e.Awaits xs

theorem Sound.isPending_eq_false (sound : s.Sound) :
    s.isPending id = false ↔ s.entryOf? id = none := by
  rw [sound.tidy.isPending_eq_false, sound.reserved]
  simp

theorem Sound.of_sameEntries (sound : s.Sound) (same : SameEntries s t)
    (reserved : t.reserved = s.reserved) : t.Sound := by
  refine ⟨same.tidy sound.tidy, reserved.trans sound.reserved, fun id e he => ?_⟩
  rw [same.entryOf?] at he
  exact sound.awaits id e he

theorem sound_empty : empty.Sound := by
  refine ⟨⟨by simp [empty], ?_⟩, rfl, ?_⟩
  · intro id place h
    simp [empty] at h
  · intro id e h
    simp [empty, entryOf?, find?] at h

theorem Sound.of_proceeds (sound : s.Sound) {stage : Stage} {incoming : List Event}
    (h : Proceeds settings id plan stage incoming s t es) : t.Sound := by
  obtain ⟨sends, stage', -, -, becomes, stands⟩ := h
  refine ⟨becomes.tidy, becomes.reserved.trans sound.reserved, fun other e he => ?_⟩
  by_cases hid : other = id
  · rw [hid] at he
    cases stage' with
    | waiting xs =>
      obtain ⟨e', he', -, awaits⟩ := stands
      rw [he] at he'
      cases he'
      exact ⟨xs, awaits⟩
    | ended xs =>
      change t.entryOf? id = none at stands
      rw [he] at stands
      cases stands
    | ready xs | stuck xs | failed xs f => exact stands.elim
  · rw [becomes.others other hid] at he
    exact sound.awaits other e he

/-! ## Expressions and results -/

/-- What a request comes to.  It is ignored while its id is pending; otherwise it begins an
expression's story, or stops over a number that is out of range, before the expression has an entry
or after. -/
theorem submit_cases (sound : s.Sound) {r : ExpressionRequest} {x : Except Fault Unit}
    (h : (submit settings Plan.compile r).Yields s x t es) :
    (s.isPending r.expressionId = true ∧ x = .ok () ∧ t = s ∧ es = []) ∨
      (s.isPending r.expressionId = false ∧
        ((x = .ok () ∧
            (stepsOf (Plan.compile r.expression) ≠ [] → Decimal.ofInt? r.deadlineMs ≠ none) ∧
            Proceeds settings r.expressionId (Plan.compile r.expression) (.ready []) [] s t es) ∨
          (x = .error .outOfRange ∧ es = [] ∧ stepsOf (Plan.compile r.expression) ≠ [] ∧
            ((Decimal.ofInt? r.deadlineMs = none ∧ SameEntries s t ∧ t.reserved = s.reserved) ∨
              ∃ now later deadlineAt e, Budget.deadline? now r.deadlineMs = some deadlineAt ∧
                OffClock later deadlineAt ∧ Becomes s r.expressionId (some e) t ∧
                e.Awaits [])))) := by
  rw [submit, Routine.yields_atomically_bind] at h
  by_cases hp : s.isPending r.expressionId = true
  · rw [reserve, if_pos hp] at h
    obtain ⟨hx, rfl, rfl⟩ := h
    exact Or.inl ⟨hp, hx, rfl, rfl⟩
  · rw [reserve, if_neg hp] at h
    rw [Bool.not_eq_true] at hp
    refine Or.inr ⟨hp, ?_⟩
    have free := sound.isPending_eq_false.1 hp
    have tidy : Tidy { s with reserved := r.expressionId :: s.reserved } :=
      ⟨sound.tidy.keys, sound.tidy.own⟩
    have freed : ∀ {u : Scheduler}, u.reserved = r.expressionId :: s.reserved →
        (release r.expressionId u).2.reserved = s.reserved := by
      intro u reserved
      rw [release, reserved, sound.reserved]
      simp
    rcases h.of_bind with ⟨place?, v, es₁, es₂, h₁, h₂, rfl⟩ | ⟨fault, rfl, h₁⟩
    · obtain ⟨u, compiled, rfl⟩ := h₁.of_thenAlways_atomically
      obtain ⟨ended, entered⟩ := compile_spec tidy free compiled
      cases place? with
      | none =>
        obtain ⟨hx, rfl, rfl⟩ := h₂
        have proceeds := ended rfl
        obtain ⟨-, -, -, -, becomes, -⟩ := id proceeds
        rw [List.append_nil]
        refine Or.inl ⟨hx, fun hsteps => ?_, proceeds.of_sameEntries ⟨rfl, rfl⟩ ⟨rfl, rfl⟩
          (freed becomes.reserved)⟩
        exact (not_yields_none_of_steps hsteps compiled).elim
      | some place =>
        obtain ⟨rfl, hsteps, ordered, found, now, deadlineAt, hd, becomes⟩ := entered place rfl
        have entered : Becomes s r.expressionId _ (release r.expressionId u).2 :=
          becomes.of_sameEntries ⟨rfl, rfl⟩ ⟨rfl, rfl⟩ (freed becomes.reserved)
        rw [Routine.yields_now_bind] at h₂
        obtain ⟨later, h₂⟩ := h₂
        rw [Routine.yields_atomically_bind] at h₂
        have more : ([] : List Float).length < (stepsOf (Plan.compile r.expression)).length :=
          List.length_pos_iff.2 hsteps
        obtain ⟨hreq, e, prepared, hsteps', awaits⟩ := prepareNext_spec entered.tidy found
          entered.own rfl rfl ordered more later
        rcases hreq with ⟨hreq, off⟩ | ⟨request, hreq, asks⟩
        · rw [hreq] at h₂
          obtain ⟨hx, rfl, rfl⟩ := h₂
          exact Or.inr ⟨hx, rfl, hsteps, Or.inr ⟨now, later, deadlineAt, e, hd, off,
            entered.trans prepared, awaits⟩⟩
        · rw [hreq] at h₂
          obtain ⟨hx, proceeds⟩ :=
            publishStep_spec prepared.tidy prepared.own hsteps' awaits asks h₂
          refine Or.inl ⟨hx, fun _ none => ?_, (proceeds.of_becomes prepared).of_becomes entered⟩
          rw [Budget.deadline?, none] at hd
          cases hd
    · obtain ⟨u, compiled, rfl⟩ := h₁.of_thenAlways_atomically
      obtain ⟨rfl, rfl, rfl, hsteps, none⟩ := compile_raises compiled
      exact Or.inr ⟨rfl, rfl, hsteps, Or.inl ⟨none, ⟨rfl, rfl⟩, freed rfl⟩⟩

/-- A request is ignored while its id is pending, and otherwise begins an expression's story. -/
theorem submit_spec (sound : s.Sound) {r : ExpressionRequest}
    (h : (submit settings Plan.compile r).Yields s (.ok ()) t es) :
    (s.isPending r.expressionId = true ∧ t = s ∧ es = []) ∨
      (s.isPending r.expressionId = false ∧
        Proceeds settings r.expressionId (Plan.compile r.expression) (.ready []) [] s t es) := by
  rcases submit_cases sound h with ⟨busy, -, same⟩ | ⟨free, ⟨-, -, proceeds⟩ | ⟨stopped, -⟩⟩
  · exact Or.inl ⟨busy, same⟩
  · exact Or.inr ⟨free, proceeds⟩
  · cases stopped

/-- The outcome in a step's answer is accepted if the scheduler waits for it. -/
def taken (s : Scheduler) (r : StepResponse) : List Event :=
  match s.entryOf? r.expressionId with
  | some e => if !e.answered && e.inFlight == some r.stepId then [.took r.stepId r.outcome] else []
  | none => []

/-- A failure from outside is accepted while the expression is pending. -/
def aborted (s : Scheduler) (id : String) (f : Failure) : List Event :=
  match s.entryOf? id with
  | some e => if e.answered then [] else [.aborted f]
  | none => []

theorem taken_of_awaits {r : StepResponse} {e : Entry} {xs : List Float}
    (he : s.entryOf? r.expressionId = some e) (awaits : e.Awaits xs) :
    s.taken r = if r.stepId = xs.length then [.took r.stepId r.outcome] else [] := by
  rw [taken, he]
  simp only [awaits.open_, awaits.inFlight, Bool.not_false, Bool.true_and, beq_iff_eq,
    Option.some.injEq]
  by_cases h : r.stepId = xs.length
  · rw [if_pos h, if_pos h.symm]
  · rw [if_neg h, if_neg (Ne.symm h)]

/-- What the answer to a step comes to.  It does nothing, goes on with the story of its expression,
or stops over a number that is out of range, the next step being in flight already. -/
theorem onResult_cases (sound : s.Sound) {r : StepResponse} {x : Except Fault Unit}
    (h : (onResult settings r).Yields s x t es) :
    (s.entryOf? r.expressionId = none ∧ x = .ok () ∧ t = s ∧ es = []) ∨
      ∃ e xs, s.entryOf? r.expressionId = some e ∧ e.Awaits xs ∧
        ((x = .ok () ∧ ∀ plan, stepsOf plan = e.steps →
            Proceeds settings r.expressionId plan (.waiting xs) (s.taken r) s t es) ∨
          (x = .error .outOfRange ∧ es = [] ∧
            ∃ e' ys, Becomes s r.expressionId (some e') t ∧ e'.Awaits ys)) := by
  rw [onResult, Routine.yields_atomically_bind] at h
  simp only at h
  cases hf : s.find? r.expressionId with
  | none =>
    rw [hf] at h
    obtain ⟨hx, rfl, rfl⟩ := h
    exact Or.inl ⟨sound.tidy.find?_eq_none.1 hf, hx, rfl, rfl⟩
  | some place =>
    rw [hf] at h
    simp only [Routine.yields_now_bind, Routine.yields_atomically_bind] at h
    obtain ⟨now, h⟩ := h
    obtain ⟨e, -, he, hid⟩ := sound.tidy.exists_entryOf? hf
    obtain ⟨xs, awaits⟩ := sound.awaits _ e he
    obtain ⟨kept, cases⟩ := advance_spec awaits now r
    obtain ⟨hreaction, becomes⟩ :=
      sound.tidy.becomes_onEntry hf he .nothing (f := advance now r) kept
    change (accept now r place s).1 = _ at hreaction
    change Becomes s _ _ (accept now r place s).2 at becomes
    rw [hreaction] at h
    refine Or.inr ⟨e, xs, he, awaits, ?_⟩
    rw [hid] at cases
    rw [taken_of_awaits he awaits]
    rcases cases with ⟨hne, stale⟩ | ⟨heq, f, failed, answer⟩ | ⟨heq, x, value, cases⟩
    · rw [stale] at h becomes
      obtain ⟨hx, rfl, rfl⟩ := h
      rw [if_neg hne]
      exact Or.inl ⟨hx, fun plan hplan => ⟨[], .waiting xs, rfl, .refl _,
        becomes.own.symm ▸ becomes, e, becomes.own, hplan.symm, awaits⟩⟩
    · rw [answer] at h
      rw [if_pos heq, heq, failed]
      obtain ⟨hx, removed, accepted, rfl⟩ := finish_spec becomes.tidy h
      exact Or.inl ⟨hx, fun plan _ => proceeds_of_ended (becomes.trans removed)
        (.cons (.takeFailure f) (.single (.fail accepted)))⟩
    · rw [if_pos heq, heq, value]
      rcases cases with ⟨hlast, answer⟩ | ⟨awaits', hsteps, stop | ⟨request, send, asks⟩⟩
      · rw [answer] at h
        obtain ⟨hx, removed, accepted, rfl⟩ := finish_spec becomes.tidy h
        refine Or.inl ⟨hx, fun plan hplan => ?_⟩
        have all : (xs ++ [x]).length = (stepsOf plan).length := by
          rw [List.length_append, List.length_singleton, hlast, hplan]
        have last : valueOf? (literalOf plan) (xs ++ [x]) = some x := by
          rw [valueOf?, List.getLast?_concat, Option.some_or]
        exact proceeds_of_ended (becomes.trans removed)
          (.cons (.take x) (.single (.succeed all last accepted)))
      · rw [stop] at h
        obtain ⟨hx, rfl, rfl⟩ := h
        exact Or.inr ⟨hx, rfl, _, _, becomes, awaits'⟩
      · rw [send] at h
        have sent : ∀ plan, stepsOf plan = e.steps → _ ∧ _ := fun plan hplan =>
          publishStep_spec becomes.tidy becomes.own (hsteps.trans hplan.symm) awaits'
            (hplan ▸ asks) h
        obtain ⟨hx, -⟩ := sent (.ok ⟨"", [], e.steps, none⟩) rfl
        refine Or.inl ⟨hx, fun plan hplan => ?_⟩
        obtain ⟨-, sends, stage, hes, moves, becomes', stands⟩ := sent plan hplan
        exact ⟨sends, stage, hes, .cons (.take x) moves, becomes.trans becomes', stands⟩

/-- The answer to a step goes on with the story of its expression, or does nothing. -/
theorem onResult_spec (sound : s.Sound) {r : StepResponse}
    (h : (onResult settings r).Yields s (.ok ()) t es) :
    (s.entryOf? r.expressionId = none ∧ t = s ∧ es = []) ∨
      ∃ e xs, s.entryOf? r.expressionId = some e ∧ e.Awaits xs ∧
        ∀ plan, stepsOf plan = e.steps →
          Proceeds settings r.expressionId plan (.waiting xs) (s.taken r) s t es := by
  rcases onResult_cases sound h with ⟨none, -, same⟩ | ⟨e, xs, he, awaits, ⟨-, proceeds⟩ | ⟨hx, -⟩⟩
  · exact Or.inl ⟨none, same⟩
  · exact Or.inr ⟨e, xs, he, awaits, proceeds⟩
  · cases hx

/-! ## Calls -/

/-- A call on the scheduler. -/
inductive Call where
  | submit (r : ExpressionRequest)
  | result (r : StepResponse)
  | requestBody (body : Body)
  | resultBody (body : Body)
  | fail (id : String) (code : ErrorCode) (message : String)

/-- What a call does. -/
def Call.routine (settings : Settings) : Call → Action η Unit
  | submit r => Scheduler.submit settings Plan.compile r
  | result r => onResult settings r
  | requestBody body => handleRequest settings Plan.compile body
  | resultBody body => handleResult settings body
  | fail id code message => Scheduler.fail settings id code message >>= fun _ => pure ()

/-- What a call asks for once its body is read.  A body that cannot be decoded asks for the failure
of the expression that it names, if it comes as an answer to a step, and for nothing otherwise. -/
inductive Demand where
  | expression (r : ExpressionRequest)
  | result (r : StepResponse)
  | failure (id : String) (f : Failure)
  | nothing

/-- What a call asks a scheduler for. -/
def Call.demand (s : Scheduler) : Call → Demand
  | submit r => .expression r
  | result r => .result r
  | requestBody body =>
    match (decodeRequest body s).1 with
    | .ok r => .expression r
    | .error _ => .nothing
  | resultBody body =>
    match StepResponse.decode body with
    | .ok r => .result r
    | .error issues =>
      match glanceId? body with
      | some (.text id) => .failure id
          ⟨.serializationError, "malformed result: " ++ countOf issues "OperationResponse"⟩
      | _ => .nothing
  | fail id code message => .failure id ⟨code, message⟩

namespace Demand

/-- The id that a demand is about. -/
def about? : Demand → Option String
  | expression r => some r.expressionId
  | result r => some r.expressionId
  | failure id _ => some id
  | nothing => none

/-- The events that a demand brings in: the outcome of a step or a failure, if it is accepted. -/
def incoming (s : Scheduler) : Demand → List Event
  | result r => s.taken r
  | failure id f => s.aborted id f
  | _ => []

end Demand

/-- The effects of a call that asks for nothing: none, or the failure of a request that could not be
read, under an id that is not pending. -/
def Rejects (settings : Settings) (s : Scheduler) (es : List (Effect η)) : Prop :=
  es = [] ∨ ∃ id issues accepted, s.isPending id = false ∧
    es = effectsOf settings [(.response (.failure id .serializationError
      ("malformed request: " ++ countOf issues "ExpressionRequest")), accepted)]

/-- What comes of a demand: nothing, the beginning of an expression, or more of it. -/
inductive Goes (settings : Settings) (s t : Scheduler) (es : List (Effect η)) : Demand → Prop where
  | unread (rejects : Rejects settings s es) (same : ∀ other, t.entryOf? other = s.entryOf? other) :
      Goes settings s t es .nothing
  | ignored {d : Demand} {id : String} (about : d.about? = some id) (idle : d.incoming s = [])
      (busy : ∀ r, d = .expression r → s.isPending r.expressionId = true) (quiet : es = [])
      (same : ∀ other, t.entryOf? other = s.entryOf? other) :
      Goes settings s t es d
  | begins {r : ExpressionRequest} (free : s.isPending r.expressionId = false)
      (proceeds :
        Proceeds settings r.expressionId (Plan.compile r.expression) (.ready []) [] s t es) :
      Goes settings s t es (.expression r)
  | continues {d : Demand} {id : String} {e : Entry} {xs : List Float} (about : d.about? = some id)
      (pending : s.entryOf? id = some e) (awaits : e.Awaits xs)
      (proceeds : ∀ plan, stepsOf plan = e.steps →
        Proceeds settings id plan (.waiting xs) (d.incoming s) s t es) :
      Goes settings s t es d

theorem goes_of_submit (sound : s.Sound) {r : ExpressionRequest}
    (h : (submit settings Plan.compile r).Yields s (.ok ()) t es) :
    t.Sound ∧ Goes settings s t es (.expression r) := by
  rcases submit_spec sound h with ⟨busy, rfl, rfl⟩ | ⟨free, proceeds⟩
  · exact ⟨sound, .ignored rfl rfl (fun _ h => Demand.expression.inj h ▸ busy) rfl fun _ => rfl⟩
  · exact ⟨sound.of_proceeds proceeds, .begins free proceeds⟩

theorem goes_of_result (sound : s.Sound) {r : StepResponse}
    (h : (onResult settings r).Yields s (.ok ()) t es) :
    t.Sound ∧ Goes settings s t es (.result r) := by
  rcases onResult_spec sound h with ⟨hn, rfl, rfl⟩ | ⟨e, xs, he, awaits, proceeds⟩
  · refine ⟨sound, .ignored rfl ?_ nofun rfl fun _ => rfl⟩
    rw [Demand.incoming, taken, hn]
  · have plan : ∃ plan, stepsOf plan = e.steps := ⟨.ok ⟨"", [], e.steps, none⟩, rfl⟩
    obtain ⟨plan, hplan⟩ := plan
    exact ⟨sound.of_proceeds (proceeds plan hplan), .continues rfl he awaits proceeds⟩

theorem goes_of_fail (sound : s.Sound) {code : ErrorCode} {message : String}
    (h : (fail settings id code message >>= fun _ => pure ()).Yields s (.ok ()) t es) :
    t.Sound ∧ Goes settings s t es (.failure id ⟨code, message⟩) := by
  cases he : s.entryOf? id with
  | none =>
    obtain ⟨-, rfl, rfl⟩ := fail_none_spec sound.tidy he h
    refine ⟨sound, .ignored rfl ?_ nofun rfl fun _ => rfl⟩
    rw [Demand.incoming, aborted, he]
  | some e =>
    obtain ⟨xs, awaits⟩ := sound.awaits id e he
    obtain ⟨-, becomes, accepted, rfl⟩ := fail_open_spec sound.tidy he awaits.open_ h
    have incoming : s.aborted id ⟨code, message⟩ = [.aborted ⟨code, message⟩] := by
      rw [aborted, he]
      simp [awaits.open_]
    have proceeds : ∀ plan, Proceeds settings id plan (.waiting xs) (s.aborted id ⟨code, message⟩)
        s t (effectsOf settings [(.response (.failure id code message), accepted)] :
          List (Effect η)) := by
      intro plan
      rw [incoming]
      exact proceeds_of_ended becomes (.cons (.abort _) (.single (.fail accepted)))
    exact ⟨sound.of_proceeds (proceeds (.error .empty)), .continues rfl he awaits fun plan _ =>
      proceeds plan⟩

/-- Decoding may count a request without an id, and that is all it changes. -/
theorem decodeRequest_frame (body : Body) (s : Scheduler) :
    SameEntries s (decodeRequest body s).2 ∧ (decodeRequest body s).2.reserved = s.reserved := by
  rw [decodeRequest]
  simp only
  split <;> exact ⟨⟨rfl, rfl⟩, rfl⟩

theorem isPending_decodeRequest (body : Body) (s : Scheduler) (id : String) :
    (decodeRequest body s).2.isPending id = s.isPending id := by
  obtain ⟨same, reserved⟩ := decodeRequest_frame body s
  rw [isPending, isPending, same.table, reserved]

theorem goes_of_requestBody (sound : s.Sound) {body : Body}
    (h : (handleRequest settings Plan.compile body).Yields s (.ok ()) t es) :
    t.Sound ∧ Goes settings s t es (Call.demand s (.requestBody body)) := by
  rw [handleRequest, Routine.yields_atomically_bind] at h
  rw [Call.demand]
  obtain ⟨same, reserved⟩ := decodeRequest_frame body s
  have pending := isPending_decodeRequest body s
  generalize decodeRequest body s = decoded at h same reserved pending ⊢
  obtain ⟨checked, s'⟩ := decoded
  have sound' : s'.Sound := sound.of_sameEntries same reserved
  cases checked with
  | ok r =>
    rcases submit_spec sound' h with ⟨busy, rfl, rfl⟩ | ⟨free, proceeds⟩
    · rw [pending] at busy
      exact ⟨sound', .ignored rfl rfl (fun _ h => Demand.expression.inj h ▸ busy) rfl
        same.entryOf?⟩
    · have sound'' := sound'.of_proceeds proceeds
      rw [pending] at free
      refine ⟨sound'', .begins free ?_⟩
      exact proceeds.of_sameEntries ⟨same.table.symm, same.entries.symm⟩ ⟨rfl, rfl⟩
        (sound''.reserved.trans sound.reserved.symm)
  | error issues =>
    simp only at h ⊢
    rcases hg : glanceId? body with _ | (id | units)
    · rw [hg] at h
      obtain ⟨-, rfl, rfl⟩ := h
      exact ⟨sound', .unread (Or.inl rfl) same.entryOf?⟩
    · rw [hg] at h
      simp only [Routine.yields_atomically_bind] at h
      split at h
      · obtain ⟨-, rfl, rfl⟩ := h
        exact ⟨sound', .unread (Or.inl rfl) same.entryOf?⟩
      · next free =>
        obtain ⟨-, rfl, accepted, rfl⟩ := emit_spec h
        rw [pending, Bool.not_eq_true] at free
        exact ⟨sound', .unread (Or.inr ⟨id, issues, accepted, free, rfl⟩) same.entryOf?⟩
    · rw [hg] at h
      cases h.1

theorem goes_of_resultBody (sound : s.Sound) {body : Body}
    (h : (handleResult settings body).Yields s (.ok ()) t es) :
    t.Sound ∧ Goes settings s t es (Call.demand s (.resultBody body)) := by
  rw [handleResult] at h
  rw [Call.demand]
  cases hd : StepResponse.decode body with
  | ok r =>
    rw [hd] at h
    exact goes_of_result sound h
  | error issues =>
    rw [hd] at h
    simp only at h ⊢
    rcases hg : glanceId? body with _ | (id | units)
    · rw [hg] at h
      obtain ⟨-, rfl, rfl⟩ := h
      exact ⟨sound, .unread (Or.inl rfl) fun _ => rfl⟩
    · rw [hg] at h
      exact goes_of_fail sound h
    · rw [hg] at h
      obtain ⟨-, rfl, rfl⟩ := h
      exact ⟨sound, .unread (Or.inl rfl) fun _ => rfl⟩

/-- A sound scheduler stays sound in a call that does not raise, and the call goes as it may. -/
theorem goes_of_call (sound : s.Sound) {call : Call}
    (h : (call.routine settings).Yields s (.ok ()) t es) :
    t.Sound ∧ Goes settings s t es (call.demand s) := by
  cases call with
  | submit r => exact goes_of_submit sound h
  | result r => exact goes_of_result sound h
  | requestBody body => exact goes_of_requestBody sound h
  | resultBody body => exact goes_of_resultBody sound h
  | fail id code message => exact goes_of_fail sound h

end Scheduler

end Stepwise
