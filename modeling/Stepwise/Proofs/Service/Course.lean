import Stepwise.Proofs.Service.Calls
import Stepwise.Proofs.Service.Punctual

/-!
# What a call makes of an entry

Under given conditions a call is a function of the entry of the id that it is about: the `Course` of
the call has the entry afterwards and the messages that are handed over.  `obeys_of_call` says that
the scheduler does just this, and leaves everything else alone.  The compiler may be any.
-/

namespace Stepwise

open Stepwise.Text (Body)

/-- The id that a message is about. -/
def Sending.expressionId : Sending → String
  | request _ q => q.expressionId
  | response r => r.expressionId

/-- Whether the messages to a queue are accepted. -/
def Conditions.takes (c : Conditions) (queue : String) : Bool := !c.refusing.contains queue

namespace Scheduler

/-- What comes of a call: the entry of its id, and the messages with whether they are accepted. -/
structure Course where
  entry : Option Entry
  sends : List (Sending × Bool)

variable (settings : Settings) (compiler : Compiler) (c : Conditions)

/-- A message with what the transport says to it. -/
def hand (what : Sending) : Sending × Bool :=
  (what, c.takes (what.message settings).queue)

/-! ## Courses -/

namespace Course

/-- Nothing is handed over. -/
def quiet (e? : Option Entry) : Course := ⟨e?, []⟩

/-- The expression is over with a response. -/
def ends (r : ExpressionResponse) : Course := ⟨none, [hand settings c (.response r)]⟩

/-- The failure of what is pending. -/
def failing (id : String) (f : Failure) : Option Entry → Course
  | none => quiet none
  | some e => if e.answered then quiet (some e) else ends settings c ⟨id, .failed f⟩

/-- The request of a step goes to its queue, or the expression fails. -/
def publishing (q : StepRequest) (e : Entry) : Course :=
  match settings.queueOf? q.operation with
  | none => failing settings c q.expressionId
      ⟨.unknownOperation, "unknown operation: " ++ q.operation.name⟩ (some e)
  | some queue =>
    if c.takes queue then ⟨some e, [(.request queue q, true)]⟩ else
    let rest := failing settings c q.expressionId
      ⟨.publishError, "publish failed: broker unavailable"⟩ (some e)
    ⟨rest.entry, (.request queue q, false) :: rest.sends⟩

/-- A new entry sends its first step. -/
def entering (e : Entry) : Course :=
  match nextRequest c.clock e with
  | (.error _, e) => quiet (some e)
  | (.ok q, e) => publishing settings c q e

/-- An expression is taken if its id is free. -/
def submitting (r : ExpressionRequest) : Option Entry → Course
  | some e => quiet (some e)
  | none =>
    match compiler r.expression with
    | .error fault =>
      ends settings c (.failure r.expressionId .parseError ("parse error: " ++ fault.message))
    | .ok plan =>
      if plan.steps.isEmpty then
        match plan.literal with
        | some x => ends settings c ⟨r.expressionId, .value x⟩
        | none => quiet none
      else
        match Budget.deadline? c.clock r.deadlineMs with
        | none => quiet none
        | some deadlineAt =>
          entering settings c ⟨r.expressionId, plan.steps, deadlineAt, [], none, false⟩

/-- A pending expression takes the answer to a step. -/
def resulting (r : StepResponse) : Option Entry → Course
  | none => quiet none
  | some e =>
    match advance c.clock r e with
    | (.answer response, _) => ends settings c response
    | (.send q, e) => publishing settings c q e
    | (.nothing, e) | (.stop _, e) => quiet (some e)

/-- The answer to a request that cannot be read. -/
def rejecting (id : String) (issues : List Issue) : Option Entry → Course
  | some e => quiet (some e)
  | none => ends settings c (.failure id .serializationError
      ("malformed request: " ++ countOf issues "ExpressionRequest"))

end Course

/-- The id that a body which cannot be decoded still shows. -/
def shown? (body : Body) : Option String :=
  match glanceId? body with
  | some (.text id) => some id
  | _ => none

theorem shown?_eq_some {body : Body} {id : String} :
    shown? body = some id ↔ glanceId? body = some (.text id) := by
  rw [shown?]
  split
  · next own hg => simp [hg]
  · next hg => exact ⟨nofun, fun shown => (hg id shown).elim⟩

/-- The course of a call on the entry of its id; a call about no id keeps quiet. -/
def Call.course (e? : Option Entry) : Call → Course
  | submit r => .submitting settings compiler c r e?
  | result r => .resulting settings c r e?
  | fail id code message => .failing settings c id ⟨code, message⟩ e?
  | requestBody body =>
    match (ExpressionRequest.decode body "").1 with
    | .ok r => .submitting settings compiler c r e?
    | .error issues =>
      match shown? body with
      | some id => .rejecting settings c id issues e?
      | none => .quiet e?
  | resultBody body =>
    match StepResponse.decode body with
    | .ok r => .resulting settings c r e?
    | .error issues =>
      match shown? body with
      | some id => .failing settings c id
          ⟨.serializationError, "malformed result: " ++ countOf issues "OperationResponse"⟩ e?
      | none => .quiet e?

/-- The id that a call is about. -/
def Call.subject? : Call → Option String
  | submit r => some r.expressionId
  | result r => some r.expressionId
  | fail id _ _ => some id
  | requestBody body =>
    match (ExpressionRequest.decode body "").1 with
    | .ok r => some r.expressionId
    | .error _ => shown? body
  | resultBody body =>
    match StepResponse.decode body with
    | .ok r => some r.expressionId
    | .error _ => shown? body

/-- A call that does not leave it to the scheduler to find an id: not the body of a request that is
an object without one. -/
def Call.Explicit : Call → Prop
  | requestBody body => (ExpressionRequest.decode body "").2 = false
  | _ => True

/-- What a call does with expressions for any compiler. -/
def Call.action {η : Type} : Call → Action η Unit
  | submit r => Scheduler.submit settings compiler r
  | result r => onResult settings r
  | requestBody body => handleRequest settings compiler body
  | resultBody body => handleResult settings body
  | fail id code message => Scheduler.fail settings id code message >>= fun _ => pure ()

theorem Call.action_compile {η : Type} (call : Call) :
    (call.action settings Plan.compile : Action η Unit) = call.routine settings := by
  cases call <;> rfl

variable {settings compiler c}
variable {η α β : Type} {id : String} {s t : Scheduler} {e? : Option Entry}

/-- From a state a run has taken its course for an id, and left all other ids alone. -/
structure Obeys (settings : Settings) (id : String) (course : Course) (s : Scheduler)
    (out : Run Scheduler η α) : Prop where
  effects : out.effects = effectsOf settings course.sends
  becomes : Becomes s id course.entry out.state

theorem Obeys.of_becomes {course : Course} {out : Run Scheduler η α}
    (h : Obeys settings id course t out) (before : Becomes s id e? t) :
    Obeys settings id course s out :=
  ⟨h.effects, before.trans h.becomes⟩

theorem obeys_quiet {x : Except Fault α} (becomes : Becomes s id e? t) :
    Obeys settings id (.quiet e?) s (⟨x, t, []⟩ : Run Scheduler η α) :=
  ⟨rfl, becomes⟩

theorem Obeys.bind_pure {course : Course} {r : Action η α} {b : β}
    (h : Obeys settings id course s (r.run c t)) :
    Obeys settings id course s ((r >>= fun _ => pure b).run c t) := by
  obtain ⟨state, effects⟩ := Routine.run_bind_pure (c := c) r b t
  exact ⟨effects.trans h.effects, (congrArg (Becomes s id course.entry) state).mpr h.becomes⟩

/-! ## Routines take their courses -/

/-- A message is handed over, and the rest of a routine depends on the transport. -/
theorem run_tryPublish_bind (m : Message) (next : Except Fault Unit → Action η α) :
    (Routine.tryPublish m >>= next).run c s =
      ((next (if c.takes m.queue then .ok () else .error unavailable)).run c s).after
        (.handed (c.takes m.queue) m) := by
  change (Routine.publish m next).run c s = _
  rw [Routine.run, Conditions.takes]
  by_cases h : c.refusing.contains m.queue = true
  · simp only [h, if_true, Bool.not_true, Bool.false_eq_true, if_false]
    rfl
  · simp only [h, Bool.not_false, if_true]
    rfl

theorem run_emit (r : ExpressionResponse) :
    (emit settings r : Action η Unit).run c s =
      ⟨.ok (), s, effectsOf settings [hand settings c (.response r)]⟩ := by
  rw [emit, run_tryPublish_bind]
  change _ = (⟨.ok (), s, [.handed (c.takes settings.responseQueue) _]⟩ : Run Scheduler η Unit)
  cases c.takes settings.responseQueue <;> rfl

theorem obeys_of_finish (tidy : s.Tidy) (r : ExpressionResponse) :
    Obeys settings id (.ends settings c r) s ((finish settings id r : Action η Unit).run c s) := by
  change Obeys settings id _ s ((emit settings r).run c (remove id s).2)
  rw [run_emit]
  exact ⟨rfl, tidy.becomes_remove id⟩

theorem obeys_of_fail (tidy : s.Tidy) (code : ErrorCode) (message : String) :
    Obeys settings id (.failing settings c id ⟨code, message⟩ (s.entryOf? id)) s
      ((fail settings id code message : Action η Bool).run c s) := by
  rw [fail, Routine.run_atomically_bind]
  cases hf : s.find? id with
  | none =>
    have none := tidy.find?_eq_none.1 hf
    rw [none]
    exact obeys_quiet (none ▸ tidy.becomes_self id)
  | some place =>
    obtain ⟨e, here, he, hid⟩ := tidy.exists_entryOf? hf
    obtain ⟨-, becomes⟩ := tidy.becomes_onEntry hf he false
      (f := fun e => if e.answered then (false, e)
        else (true, { e with answered := true, inFlight := none })) (by split <;> rfl)
    rw [he, Course.failing]
    change Obeys settings id _ s ((if (abandon place s).1 = true then _ else _ :
      Action η Bool).run c (abandon place s).2)
    change Becomes s id _ (abandon place s).2 at becomes
    have told : (abandon place s).1 = !e.answered := by
      rw [abandon, onEntry_eq here]
      cases e.answered <;> rfl
    rw [told]
    cases ha : e.answered with
    | true =>
      rw [ha] at becomes
      exact obeys_quiet becomes
    | false => exact ((obeys_of_finish becomes.tidy _).of_becomes becomes).bind_pure

theorem obeys_of_publishStep (tidy : s.Tidy) {q : StepRequest} {e : Entry}
    (he : s.entryOf? q.expressionId = some e) :
    Obeys settings q.expressionId (.publishing settings c q e) s
      ((publishStep settings q : Action η Unit).run c s) := by
  rw [publishStep, Course.publishing]
  cases hq : settings.queueOf? q.operation with
  | none =>
    rw [← he]
    exact (obeys_of_fail tidy _ _).bind_pure
  | some queue =>
    simp only [run_tryPublish_bind]
    cases c.takes queue with
    | true => exact ⟨rfl, he ▸ tidy.becomes_self _⟩
    | false =>
      have fails : Obeys settings q.expressionId _ s ((fail settings q.expressionId .publishError
        "publish failed: broker unavailable" >>= fun _ => pure () : Action η Unit).run c s) :=
          (obeys_of_fail tidy _ _).bind_pure
      rw [he] at fails
      exact ⟨congrArg (List.cons _) fails.effects, fails.becomes⟩

theorem obeys_of_onResult (tidy : s.Tidy) (r : StepResponse) :
    Obeys settings r.expressionId (.resulting settings c r (s.entryOf? r.expressionId)) s
      ((onResult settings r : Action η Unit).run c s) := by
  rw [onResult, Routine.run_atomically_bind]
  cases hf : s.find? r.expressionId with
  | none =>
    have none := tidy.find?_eq_none.1 hf
    rw [none]
    exact obeys_quiet (none ▸ tidy.becomes_self _)
  | some place =>
    obtain ⟨e, -, he, hid⟩ := tidy.exists_entryOf? hf
    obtain ⟨⟨_, _, _, frame⟩, answers, sends⟩ := advance_frame c.clock r e
    obtain ⟨hreaction, becomes⟩ := tidy.becomes_onEntry hf he .nothing (f := advance c.clock r)
      (by rw [frame])
    change (accept c.clock r place s).1 = _ at hreaction
    change Becomes s _ _ (accept c.clock r place s).2 at becomes
    rw [he, Course.resulting]
    simp only [Routine.run_now_bind, Routine.run_atomically_bind]
    rw [hreaction]
    cases ha : advance c.clock r e with
    | mk reaction e' =>
      rw [ha] at becomes sends
      cases reaction with
      | nothing | stop fault => exact obeys_quiet becomes
      | answer response => exact (obeys_of_finish becomes.tidy response).of_becomes becomes
      | send q =>
        have hq : q.expressionId = r.expressionId := (sends q rfl).trans hid
        have sent : Obeys settings q.expressionId (.publishing settings c q e') _
            ((publishStep settings q : Action η Unit).run c (accept c.clock r place s).2) :=
          obeys_of_publishStep becomes.tidy (hq ▸ becomes.own)
        rw [hq] at sent
        exact sent.of_becomes becomes

/-! ## Requests -/

variable {r : ExpressionRequest}

/-- A request whose id is free, from the end of its compilation. -/
theorem run_submit_eq (free : s.isPending r.expressionId = false) :
    (submit settings compiler r : Action η Unit).run c s =
      let out := (compile settings compiler r : Action η (Option Nat)).run c
        (reserve r.expressionId s).2
      let t := (release r.expressionId out.state).2
      match out.result with
      | .ok place? =>
        let rest := (proceed settings place?).run c t
        ⟨rest.result, rest.state, out.effects ++ rest.effects⟩
      | .error fault => ⟨.error fault, t, out.effects⟩ := by
  have reserved : (reserve r.expressionId s).1 = true := by rw [reserve, if_neg (by simp [free])]
  change (if (reserve r.expressionId s).1 = true then
      ((compile settings compiler r).thenAlways
        (Routine.atomically (release r.expressionId))).bind (proceed settings)
    else pure ()).run c (reserve r.expressionId s).2 = _
  rw [if_pos reserved, Routine.run_bind_eq, Routine.run_thenAlways_atomically]
  obtain ⟨x, u, es⟩ := (compile settings compiler r : Action η (Option Nat)).run c
    (reserve r.expressionId s).2
  cases x <;> rfl

theorem sameEntries_reserve (id : String) (s : Scheduler) : SameEntries s (reserve id s).2 := by
  rw [reserve]
  split <;> exact ⟨rfl, rfl⟩

/-- From its reservation to its release nothing but the entry of an id has changed. -/
theorem becomes_of_release (unreserved : s.reserved = []) {u : Scheduler}
    (becomes : Becomes (reserve id s).2 id e? u) : Becomes s id e? (release id u).2 := by
  obtain ⟨table, entries⟩ := sameEntries_reserve id s
  refine becomes.of_sameEntries ⟨table.symm, entries.symm⟩ ⟨rfl, rfl⟩ ?_
  rw [release, becomes.reserved, reserve, unreserved]
  split
  · simp [unreserved]
  · simp

theorem run_emit_bind_pure (r : ExpressionResponse) (a : α) :
    (emit settings r >>= fun _ => pure a : Action η α).run c s =
      ⟨.ok a, s, effectsOf settings [hand settings c (.response r)]⟩ := by
  change ((emit settings r).bind _).run c s = _
  rw [Routine.run_bind_eq, run_emit]
  rfl

/-- An expression with steps gets its entry, unless its deadline is beyond the floats. -/
theorem run_compile_of_steps {plan : Plan} (hc : compiler r.expression = .ok plan)
    (steps : plan.steps.isEmpty = false) :
    (compile settings compiler r : Action η (Option Nat)).run c s =
      match Budget.deadline? c.clock r.deadlineMs with
      | none => ⟨.error .outOfRange, s, []⟩
      | some deadlineAt =>
        let entered := enter ⟨r.expressionId, plan.steps, deadlineAt, [], none, false⟩ s
        ⟨.ok (some entered.1), entered.2, []⟩ := by
  rw [compile, hc]
  simp only [steps, Bool.false_eq_true, if_false]
  rw [Routine.run_now_bind]
  cases Budget.deadline? c.clock r.deadlineMs <;> rfl

/-- A new entry is in the table once its id is released, and sends its first step. -/
theorem obeys_of_enter (tidy : s.Tidy) (unreserved : s.reserved = []) (e : Entry)
    (hid : e.expressionId = id) :
    Obeys settings id (.entering settings c e) s
      ((proceed settings (some (enter e (reserve id s).2).1) : Action η Unit).run c
        (release id (enter e (reserve id s).2).2).2) := by
  subst hid
  obtain ⟨becomes, found⟩ := ((sameEntries_reserve e.expressionId s).tidy tidy).becomes_enter e
  have entered := becomes_of_release unreserved becomes
  generalize enter e (reserve e.expressionId s).2 = entering at found entered
  obtain ⟨place, u⟩ := entering
  generalize ht : (release e.expressionId u).2 = t at entered
  have found : t.find? e.expressionId = some place := by rw [← ht]; exact found
  obtain ⟨inFlight, frame⟩ := nextRequest_frame c.clock e
  obtain ⟨hreq, prepared⟩ := entered.tidy.becomes_onEntry found entered.own (.error .outOfRange)
    (f := nextRequest c.clock) (by rw [frame])
  change (prepareNext c.clock place t).1 = _ at hreq
  change Becomes t _ _ (prepareNext c.clock place t).2 at prepared
  rw [proceed, Routine.run_now_bind, Routine.run_atomically_bind]
  rw [hreq, Course.entering]
  cases hn : nextRequest c.clock e with
  | mk made e' =>
    rw [hn] at prepared
    cases made with
    | error fault => exact obeys_quiet (entered.trans prepared)
    | ok q =>
      have hq : q.expressionId = e.expressionId := (eq_of_nextRequest (congrArg Prod.fst hn)).1
      have sent : Obeys settings q.expressionId (.publishing settings c q e') _
          ((publishStep settings q : Action η Unit).run c (prepareNext c.clock place t).2) :=
        obeys_of_publishStep prepared.tidy (hq ▸ prepared.own)
      rw [hq] at sent
      exact (sent.of_becomes prepared).of_becomes entered

theorem obeys_of_submit (tidy : s.Tidy) (unreserved : s.reserved = []) :
    Obeys settings r.expressionId
      (.submitting settings compiler c r (s.entryOf? r.expressionId)) s
      ((submit settings compiler r : Action η Unit).run c s) := by
  have busy : s.isPending r.expressionId = false ↔ _ := tidy.isPending_eq_false
  rw [unreserved] at busy
  cases he : s.entryOf? r.expressionId with
  | some e =>
    have pending : s.isPending r.expressionId = true := by
      rw [← Bool.not_eq_false, busy, he]
      nofun
    have kept : reserve r.expressionId s = (false, s) := if_pos pending
    change Obeys settings _ _ s ((if (reserve r.expressionId s).1 = true then _ else _ :
      Action η Unit).run c (reserve r.expressionId s).2)
    rw [kept]
    exact obeys_quiet (he ▸ tidy.becomes_self _)
  | none =>
    have free : s.isPending r.expressionId = false := busy.2 ⟨he, List.not_mem_nil⟩
    have tidy' := (sameEntries_reserve r.expressionId s).tidy tidy
    have stays : Becomes s r.expressionId none
        (release r.expressionId (reserve r.expressionId s).2).2 := by
      have same := (sameEntries_reserve r.expressionId s).entryOf? r.expressionId
      exact becomes_of_release unreserved (he ▸ same ▸ tidy'.becomes_self _)
    rw [run_submit_eq free, Course.submitting]
    cases hc : compiler r.expression with
    | error fault =>
      simp only [compile, hc, run_emit_bind_pure]
      exact ⟨List.append_nil _, stays⟩
    | ok plan =>
      cases steps : plan.steps.isEmpty with
      | true =>
        simp only [compile, hc, steps, if_true]
        cases plan.literal with
        | some x =>
          simp only [run_emit_bind_pure]
          exact ⟨List.append_nil _, stays⟩
        | none => exact obeys_quiet stays
      | false =>
        rw [run_compile_of_steps hc steps]
        cases Budget.deadline? c.clock r.deadlineMs with
        | none =>
          simp only [steps, Bool.false_eq_true, if_false]
          exact obeys_quiet stays
        | some deadlineAt =>
          simp only [steps, Bool.false_eq_true, if_false]
          exact obeys_of_enter tidy unreserved _ rfl

/-! ## Calls take their courses -/

/-- The id that a request would get makes no difference if it has one, or cannot be read. -/
theorem decode_of_explicit {body : Body} (explicit : (ExpressionRequest.decode body "").2 = false)
    (freshId : String) :
    ExpressionRequest.decode body freshId = ((ExpressionRequest.decode body "").1, false) := by
  rw [ExpressionRequest.decode] at explicit ⊢
  rw [ExpressionRequest.decode]
  cases read : entriesOf body with
  | error issues => rfl
  | ok entries =>
    rw [read] at explicit
    change (Json.lookup "expression_id" entries).isNone = false at explicit
    obtain ⟨v, hv⟩ := Option.isSome_iff_exists.1 (Option.isNone_eq_false_iff.1 explicit)
    have found : Fields.optional entries "expression_id" Fields.text =
        (Fields.located "expression_id" (Fields.text v)).map some := by rw [Fields.optional, hv]
    simp only [found, hv, Option.isNone_some]
    generalize Checked.both (Fields.required entries "expression" Fields.text) _ = rest
    cases Fields.located "expression_id" (Fields.text v) <;> cases rest <;> rfl

theorem decodeRequest_of_explicit {body : Body}
    (explicit : (ExpressionRequest.decode body "").2 = false) (s : Scheduler) :
    decodeRequest body s = ((ExpressionRequest.decode body "").1, s) := by
  rw [decodeRequest, decode_of_explicit explicit]
  rfl

variable {call : Call}

theorem obeys_of_requestBody (tidy : s.Tidy) (unreserved : s.reserved = []) {body : Body}
    (explicit : (Call.requestBody body).Explicit)
    (about : (Call.requestBody body).subject? = some id) :
    Obeys settings id ((Call.requestBody body).course settings compiler c (s.entryOf? id)) s
      ((handleRequest settings compiler body : Action η Unit).run c s) := by
  rw [Call.subject?] at about
  rw [Call.course, handleRequest, Routine.run_atomically_bind, decodeRequest_of_explicit explicit]
  cases hd : (ExpressionRequest.decode body "").1 with
  | ok r =>
    rw [hd] at about
    cases about
    exact obeys_of_submit tidy unreserved
  | error issues =>
    simp only [hd] at about ⊢
    rw [about, shown?_eq_some.1 about]
    have busy : s.isPending id = false ↔ _ := tidy.isPending_eq_false
    have stays := tidy.becomes_self id
    rw [unreserved] at busy
    change Obeys settings id _ s ((if s.isPending id = true then _ else _ :
      Action η Unit).run c s)
    cases he : s.entryOf? id with
    | some e =>
      have pending : s.isPending id = true := by
        rw [← Bool.not_eq_false, busy, he]
        simp
      rw [he] at stays
      rw [if_pos pending]
      exact obeys_quiet stays
    | none =>
      rw [he] at stays
      rw [if_neg (by simp [busy.2 ⟨he, List.not_mem_nil⟩]), run_emit]
      exact ⟨rfl, stays⟩

theorem obeys_of_resultBody (tidy : s.Tidy) {body : Body}
    (about : (Call.resultBody body).subject? = some id) :
    Obeys settings id ((Call.resultBody body).course settings compiler c (s.entryOf? id)) s
      ((handleResult settings body : Action η Unit).run c s) := by
  rw [Call.subject?] at about
  rw [handleResult, Call.course]
  cases hd : StepResponse.decode body with
  | ok r =>
    rw [hd] at about
    cases about
    exact obeys_of_onResult tidy r
  | error issues =>
    simp only [hd] at about ⊢
    rw [about, shown?_eq_some.1 about]
    exact (obeys_of_fail tidy _ _).bind_pure

/-- A call does what its course on the entry of its id says, and nothing else, if the scheduler is
between calls. -/
theorem obeys_of_call (tidy : s.Tidy) (unreserved : s.reserved = []) (explicit : call.Explicit)
    (about : call.subject? = some id) :
    Obeys settings id (call.course settings compiler c (s.entryOf? id)) s
      ((call.action settings compiler : Action η Unit).run c s) := by
  cases call with
  | submit r =>
    cases about
    exact obeys_of_submit tidy unreserved
  | result r =>
    cases about
    exact obeys_of_onResult tidy r
  | fail own code message =>
    cases about
    exact (obeys_of_fail tidy code message).bind_pure
  | requestBody body => exact obeys_of_requestBody tidy unreserved explicit about
  | resultBody body => exact obeys_of_resultBody tidy about

/-- A call about no id does nothing. -/
theorem quiet_of_call (explicit : call.Explicit) (about : call.subject? = none) :
    ((call.action settings compiler : Action η Unit).run c s).state = s ∧
      ((call.action settings compiler : Action η Unit).run c s).effects = [] := by
  cases call with
  | submit r | result r | fail own code message => cases about
  | requestBody body =>
    rw [Call.subject?] at about
    rw [Call.action, handleRequest, Routine.run_atomically_bind,
      decodeRequest_of_explicit explicit]
    cases hd : (ExpressionRequest.decode body "").1 with
    | ok r =>
      rw [hd] at about
      cases about
    | error issues =>
      simp only [hd, shown?] at about ⊢
      rcases hg : glanceId? body with _ | (own | units)
      · exact ⟨rfl, rfl⟩
      · rw [hg] at about
        cases about
      · exact ⟨rfl, rfl⟩
  | resultBody body =>
    rw [Call.subject?] at about
    rw [Call.action, handleResult]
    cases hd : StepResponse.decode body with
    | ok r =>
      rw [hd] at about
      cases about
    | error issues =>
      simp only [hd, shown?] at about ⊢
      rcases hg : glanceId? body with _ | (own | units)
      · exact ⟨rfl, rfl⟩
      · rw [hg] at about
        cases about
      · exact ⟨rfl, rfl⟩

/-! ## Courses are about their ids -/

/-- All messages of a course are about an id. -/
def Course.IsAbout (id : String) (course : Course) : Prop :=
  ∀ p ∈ course.sends, p.1.expressionId = id

namespace Course

theorem isAbout_quiet (id : String) (e? : Option Entry) : (quiet e?).IsAbout id := nofun

theorem isAbout_ends {r : ExpressionResponse} (own : r.expressionId = id) :
    (ends settings c r).IsAbout id :=
  fun p hp => by rw [List.mem_singleton.1 hp]; exact own

theorem isAbout_failing (id : String) (f : Failure) (e? : Option Entry) :
    (failing settings c id f e?).IsAbout id := by
  cases e? with
  | none => exact isAbout_quiet id none
  | some e =>
    rw [failing]
    split
    · exact isAbout_quiet id _
    · exact isAbout_ends rfl

theorem isAbout_publishing {q : StepRequest} (own : q.expressionId = id) (e : Entry) :
    (publishing settings c q e).IsAbout id := by
  subst own
  rw [publishing]
  split
  · exact isAbout_failing _ _ _
  · split
    · intro p hp
      rw [List.mem_singleton.1 hp]
      rfl
    · exact List.forall_mem_cons.2 ⟨rfl, isAbout_failing _ _ _⟩

theorem isAbout_submitting (r : ExpressionRequest) (e? : Option Entry) :
    (submitting settings compiler c r e?).IsAbout r.expressionId := by
  cases e? with
  | some e => exact isAbout_quiet _ _
  | none =>
    rw [submitting]
    split
    · exact isAbout_ends rfl
    · split
      · split
        · exact isAbout_ends rfl
        · exact isAbout_quiet _ _
      · split
        · exact isAbout_quiet _ _
        · rw [entering]
          split
          · exact isAbout_quiet _ _
          · next made => exact isAbout_publishing (eq_of_nextRequest (congrArg Prod.fst made)).1 _

theorem isAbout_resulting (r : StepResponse) {e? : Option Entry}
    (own : ∀ e, e? = some e → e.expressionId = r.expressionId) :
    (resulting settings c r e?).IsAbout r.expressionId := by
  cases e? with
  | none => exact isAbout_quiet _ _
  | some e =>
    obtain ⟨-, answers, sends⟩ := advance_frame c.clock r e
    rw [resulting]
    split
    · next made => exact isAbout_ends ((answers _ (congrArg Prod.fst made)).trans (own e rfl))
    · next made => exact isAbout_publishing ((sends _ (congrArg Prod.fst made)).trans (own e rfl)) _
    · exact isAbout_quiet _ _
    · exact isAbout_quiet _ _

theorem isAbout_rejecting (id : String) (issues : List Issue) (e? : Option Entry) :
    (rejecting settings c id issues e?).IsAbout id := by
  cases e? with
  | some e => exact isAbout_quiet _ _
  | none => exact isAbout_ends rfl

end Course

theorem isAbout_course (about : call.subject? = some id)
    (own : ∀ e, e? = some e → e.expressionId = id) :
    (call.course settings compiler c e?).IsAbout id := by
  cases call with
  | submit r =>
    cases about
    exact Course.isAbout_submitting r e?
  | result r =>
    cases about
    exact Course.isAbout_resulting r own
  | fail own code message =>
    cases about
    exact Course.isAbout_failing _ _ _
  | requestBody body =>
    rw [Call.subject?] at about
    rw [Call.course]
    cases hd : (ExpressionRequest.decode body "").1 with
    | ok r =>
      rw [hd] at about
      cases about
      exact Course.isAbout_submitting r e?
    | error issues =>
      simp only [hd] at about ⊢
      rw [about]
      exact Course.isAbout_rejecting _ _ _
  | resultBody body =>
    rw [Call.subject?] at about
    rw [Call.course]
    cases hd : StepResponse.decode body with
    | ok r =>
      rw [hd] at about
      cases about
      exact Course.isAbout_resulting r own
    | error issues =>
      simp only [hd] at about ⊢
      rw [about]
      exact Course.isAbout_failing _ _ _

end Scheduler

end Stepwise
