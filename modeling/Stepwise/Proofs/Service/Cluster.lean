import Mathlib.Logic.Relation
import Stepwise.Proofs.Service.Calls
import Stepwise.Proofs.Service.Worker

/-!
# Clusters

A cluster is a scheduler, a worker for each operation, the expressions that are still to come and
the messages that have been published.  Any of the messages may be delivered at any time and any
number of times, or never, and the clock shows anything at each look.  `answers_of_reaches` says
that whatever happens, an expression is answered once at most, and with the outcome of executing it
in one place unless time ran out.
-/

namespace Stepwise

variable {η : Type} {settings : Settings}

/-- The messages among effects that were accepted. -/
def publishedIn (es : List (Effect η)) : List Message :=
  es.filterMap fun
    | .published m => some m
    | _ => none

/-- No message among effects was refused. -/
def AllAccepted (es : List (Effect η)) : Prop :=
  ∀ m, Effect.refused m ∉ es

/-- A scheduler, the expressions to come, and the messages that have been published. -/
structure Cluster where
  scheduler : Scheduler
  coming : List ExpressionRequest
  published : List Message

namespace Cluster

/-- One call of a handler that does not raise and has no message refused.  An expression that is to
come is submitted, or comes as a body. -/
inductive Step (settings : Settings) : Cluster → Cluster → Prop where
  | submit {c : Cluster} {r : ExpressionRequest} {front back : List ExpressionRequest}
      {t : Scheduler} {es : List (Effect Unit)} (coming : c.coming = front ++ r :: back)
      (yields : (Scheduler.submit settings Plan.compile r).Yields c.scheduler (.ok ()) t es)
      (accepted : AllAccepted es) :
      Step settings c ⟨t, front ++ back, c.published ++ publishedIn es⟩
  | request {c : Cluster} {r : ExpressionRequest} {front back : List ExpressionRequest}
      {body : Text.Body} {t : Scheduler} {es : List (Effect Unit)}
      (coming : c.coming = front ++ r :: back) (written : r.body = body)
      (yields : (Scheduler.onRequestDelivery settings Plan.compile body).Yields c.scheduler
        (.ok ()) t es)
      (accepted : AllAccepted es) :
      Step settings c ⟨t, front ++ back, c.published ++ publishedIn es⟩
  | work {c : Cluster} {m : Message} {own : Operation} {es : List (Effect Unit)}
      (delivered : m ∈ c.published) (queue : settings.queueOf? own = some m.queue)
      (yields : (Worker.onDelivery settings own m.body).Yields () (.ok ()) () es)
      (accepted : AllAccepted es) :
      Step settings c ⟨c.scheduler, c.coming, c.published ++ publishedIn es⟩
  | result {c : Cluster} {m : Message} {t : Scheduler} {es : List (Effect Unit)}
      (delivered : m ∈ c.published) (queue : m.queue = settings.resultsQueue)
      (yields : (Scheduler.onResultDelivery settings m.body).Yields c.scheduler (.ok ()) t es)
      (accepted : AllAccepted es) :
      Step settings c ⟨t, c.coming, c.published ++ publishedIn es⟩

/-- Calls one after the other. -/
abbrev Reaches (settings : Settings) : Cluster → Cluster → Prop :=
  Relation.ReflTransGen (Step settings)

/-- Nothing has happened yet. -/
def start (requests : List ExpressionRequest) : Cluster := ⟨.empty, requests, []⟩

end Cluster

/-! ## Messages before they are written -/

/-- A message of the scheduler, or the answer to a step. -/
inductive Parcel where
  | sending (what : Sending)
  | answer (r : StepResponse)

namespace Parcel

/-- The message that a parcel is sent as. -/
def message (settings : Settings) : Parcel → Message
  | sending what => what.message settings
  | answer r => ⟨settings.resultsQueue, r.body⟩

/-- The response in a parcel. -/
def response? : Parcel → Option ExpressionResponse
  | sending (.response r) => some r
  | _ => none

/-- A parcel that an expression accounts for. -/
def Right (settings : Settings) (q : ExpressionRequest) : Parcel → Prop
  | sending what => what.Right settings q.expressionId q.expression
  | answer r => r.expressionId = q.expressionId ∧ Json.ShortInt r.stepId ∧ r.outcome.IsFinite ∧
      ∃ k : Nat, r.stepId = k ∧
        r.outcome.LateOr (outcomeAt? (stepsOf (Plan.compile q.expression)) k)

end Parcel

/-- The ids of the responses among parcels. -/
def answeredIds (parcels : List Parcel) : List String :=
  (parcels.filterMap Parcel.response?).map (·.expressionId)

theorem answeredIds_append (parcels more : List Parcel) :
    answeredIds (parcels ++ more) = answeredIds parcels ++ answeredIds more := by
  rw [answeredIds, List.filterMap_append, List.map_append]
  rfl

/-- The parcels that the scheduler sends. -/
def parcelsOf (sends : List (Sending × Bool)) : List Parcel :=
  sends.map fun p => .sending p.1

/-- What holds between calls: every message is accounted for by an expression, and so are the
results of every pending expression; an id is to come, is pending or has been answered, and each of
them once. -/
structure Consistent (settings : Settings) (requests : List ExpressionRequest) (c : Cluster)
    (parcels : List Parcel) : Prop where
  sound : c.scheduler.Sound
  published : c.published = parcels.map (·.message settings)
  right : ∀ p ∈ parcels, ∃ q ∈ requests, p.Right settings q
  pending : ∀ id e, c.scheduler.entryOf? id = some e → ∃ q ∈ requests, q.expressionId = id ∧
    e.steps = stepsOf (Plan.compile q.expression) ∧ ∀ xs, e.Awaits xs → Evaluated e.steps xs
  coming : ∀ q ∈ c.coming, q ∈ requests
  once : (c.coming.map (·.expressionId) ++ answeredIds parcels).Nodup
  idle : ∀ id ∈ c.coming.map (·.expressionId) ++ answeredIds parcels,
    c.scheduler.entryOf? id = none

variable {requests : List ExpressionRequest} {c : Cluster} {parcels : List Parcel}
variable {q : ExpressionRequest} {sends : List (Sending × Bool)}

theorem consistent_start (ids : (requests.map (·.expressionId)).Nodup) :
    Consistent settings requests (.start requests) [] where
  sound := Scheduler.sound_empty
  published := rfl
  right := by simp
  pending := by simp [Cluster.start, Scheduler.empty, Scheduler.entryOf?, Scheduler.find?]
  coming := fun _ h => h
  once := by simpa [answeredIds, Cluster.start] using ids
  idle := by simp [Cluster.start, Scheduler.empty, Scheduler.entryOf?, Scheduler.find?]

/-! ## What the scheduler publishes -/

theorem accepted_of_effectsOf
    (accepted : AllAccepted (effectsOf settings sends : List (Effect η))) :
    ∀ p ∈ sends, p.2 = true := by
  intro p hp
  by_contra h
  refine accepted (p.1.message settings) (List.mem_map.2 ⟨p, hp, ?_⟩)
  rw [Sending.effect, Effect.handed, if_neg h]

theorem publishedIn_effectsOf (accepted : ∀ p ∈ sends, p.2 = true) :
    publishedIn (effectsOf settings sends : List (Effect η)) =
      sends.map fun p => p.1.message settings := by
  induction sends with
  | nil => rfl
  | cons p sends ih =>
    rw [List.forall_mem_cons] at accepted
    rw [effectsOf, List.map_cons, publishedIn, List.filterMap_cons, Sending.effect, Effect.handed,
      if_pos accepted.1, List.map_cons, ← ih accepted.2]
    rfl

theorem responses_eventsOf (sends : List (Sending × Bool)) :
    Event.responses (eventsOf sends) = (parcelsOf sends).filterMap Parcel.response? := by
  rw [Event.responses, eventsOf, parcelsOf, List.filterMap_map, List.filterMap_map]
  congr 1
  funext p
  obtain ⟨_ | _, _⟩ := p <;> rfl

/-- An expression that has not come to its end is answered on its way there, or not at all. -/
theorem answeredIds_of_moves {id : String} {plan : Except CompileFault Plan} {stage stage' : Stage}
    {incoming : List Event} (quiet : Event.responses incoming = []) (open_ : ¬ stage.IsEnded)
    (moves : Moves settings id plan stage (incoming ++ eventsOf sends) stage') :
    answeredIds (parcelsOf sends) = [] ∨
      answeredIds (parcelsOf sends) = [id] ∧ stage'.IsEnded := by
  have responses := moves.responses open_
  rw [Event.responses_append, quiet, List.nil_append, responses_eventsOf] at responses
  rw [answeredIds]
  rcases responses with ⟨none, -⟩ | ⟨r, one, hr, ended⟩
  · rw [none]
    exact Or.inl rfl
  · rw [one, List.map_singleton, hr]
    exact Or.inr ⟨rfl, ended⟩

theorem Scheduler.Stands.evaluated {t : Scheduler} {id expression : String} {stage : Stage}
    (h : t.Stands id (stepsOf (Plan.compile expression)) stage) (right : stage.Right expression)
    {e : Entry} (he : t.entryOf? id = some e) :
    e.steps = stepsOf (Plan.compile expression) ∧ ∀ xs, e.Awaits xs → Evaluated e.steps xs := by
  cases stage with
  | waiting xs =>
    obtain ⟨e', he', hsteps, awaits⟩ := h
    obtain rfl : e' = e := Option.some.inj (he'.symm.trans he)
    refine ⟨hsteps, fun ys awaits' => ?_⟩
    rw [awaits'.unique awaits, hsteps]
    exact right
  | ended xs =>
    change t.entryOf? id = none at h
    rw [h] at he
    cases he
  | ready xs | stuck xs | failed xs f => exact h.elim

/-- An id that has nothing to come goes on with its expression. -/
theorem Consistent.of_proceeds (h : Consistent settings requests c parcels)
    (mapped : ∀ op, (settings.queueOf? op).isSome) (mem : q ∈ requests) {t : Scheduler}
    {es : List (Effect η)} {coming : List ExpressionRequest} (fewer : coming.Sublist c.coming)
    (gone : q.expressionId ∉ coming.map (·.expressionId) ++ answeredIds parcels) {stage : Stage}
    (right : stage.Right q.expression) (open_ : ¬ stage.IsEnded) {incoming : List Event}
    (fair : ∀ e ∈ incoming, e.Fair (stepsOf (Plan.compile q.expression)))
    (quiet : Event.responses incoming = [])
    (proceeds : Scheduler.Proceeds settings q.expressionId (Plan.compile q.expression) stage
      incoming c.scheduler t es) (accepted : AllAccepted es) :
    ∃ more, Consistent settings requests ⟨t, coming, c.published ++ publishedIn es⟩
      (parcels ++ more) := by
  have sound := h.sound.of_proceeds proceeds
  obtain ⟨sends, stage', rfl, moves, becomes, stands⟩ := proceeds
  have accepted := accepted_of_effectsOf accepted
  have fair : ∀ e ∈ incoming ++ eventsOf sends,
      e.Fair (stepsOf (Plan.compile q.expression)) := by
    intro e he
    rcases List.mem_append.1 he with he | he
    · exact fair e he
    · obtain ⟨p, hp, rfl⟩ := List.mem_map.1 he
      exact accepted p hp
  obtain ⟨right', sent⟩ := right_of_moves mapped right fair moves
  -- The ids before this call stay apart from the one that it may answer.
  have before := (fewer.map (·.expressionId)).append (.refl (answeredIds parcels))
  have answered := answeredIds_of_moves quiet open_ moves
  have ids : coming.map (·.expressionId) ++ answeredIds (parcels ++ parcelsOf sends) =
      (coming.map (·.expressionId) ++ answeredIds parcels) ++ answeredIds (parcelsOf sends) := by
    rw [answeredIds_append, List.append_assoc]
  refine ⟨parcelsOf sends, sound, ?_, ?_, ?_, ?_, ?_, ?_⟩
  · rw [publishedIn_effectsOf accepted, h.published, List.map_append, parcelsOf, List.map_map]
    rfl
  · intro p hp
    rcases List.mem_append.1 hp with hp | hp
    · exact h.right p hp
    · obtain ⟨sending, hs, rfl⟩ := List.mem_map.1 hp
      exact ⟨q, mem, sent _ sending.2 (List.mem_append_right _ (List.mem_map_of_mem hs))⟩
  · intro id e he
    by_cases hid : id = q.expressionId
    · subst hid
      exact ⟨q, mem, rfl, stands.evaluated right' he⟩
    · exact h.pending id e ((becomes.others id hid).symm.trans he)
  · exact fun r hr => h.coming r (fewer.subset hr)
  · rw [ids]
    rcases answered with none | ⟨one, -⟩
    · rw [none, List.append_nil]
      exact h.once.sublist before
    · rw [one, List.nodup_append]
      refine ⟨h.once.sublist before, List.nodup_singleton _, fun id hid other ho => ?_⟩
      rw [List.mem_singleton.1 ho]
      exact ne_of_mem_of_not_mem hid gone
  · intro id hid
    rw [ids] at hid
    rcases List.mem_append.1 hid with hid | hid
    · rw [becomes.others id (ne_of_mem_of_not_mem hid gone)]
      exact h.idle id (before.subset hid)
    · rcases answered with none | ⟨one, ended⟩
      · simp [none] at hid
      · rw [one, List.mem_singleton] at hid
        rw [hid]
        exact stands.entryOf?_eq_none ended

/-! ## One step of a cluster -/

/-- The queue of an operation is its own. -/
theorem queue_of_operation (distinct : settings.allQueues.Nodup) {op : Operation} {queue : String}
    (h : settings.queueOf? op = some queue) :
    queue ≠ settings.responseQueue ∧ queue ≠ settings.resultsQueue ∧
      ∀ other, settings.queueOf? other = some queue → other = op := by
  have mem : ∀ {op : Operation}, settings.queueOf? op = some queue →
      (op, queue) ∈ settings.operationQueues := by
    intro op h
    obtain ⟨l₁, l₂, heq, -⟩ := List.lookup_eq_some_iff.1 h
    rw [heq]
    exact List.mem_append_right _ List.mem_cons_self
  have here : queue ∈ settings.operationQueues.map (·.2) := List.mem_map.2 ⟨_, mem h, rfl⟩
  rw [Settings.allQueues, List.nodup_cons, List.nodup_cons, List.nodup_append] at distinct
  obtain ⟨-, response, keys, -, results⟩ := distinct
  refine ⟨?_, results queue here _ (List.mem_singleton_self _), fun other h' => ?_⟩
  · rintro rfl
    exact response (List.mem_append_left _ here)
  · have := List.inj_on_of_nodup_map keys (mem h') (mem h) rfl
    exact congrArg Prod.fst this

theorem responseQueue_ne (distinct : settings.allQueues.Nodup) :
    settings.responseQueue ≠ settings.resultsQueue := by
  rw [Settings.allQueues, List.nodup_cons, List.nodup_cons] at distinct
  intro h
  exact distinct.2.1 (by simp [h])

theorem exists_answer (distinct : settings.allQueues.Nodup) {p : Parcel}
    (right : p.Right settings q) (queue : (p.message settings).queue = settings.resultsQueue) :
    ∃ r, p = .answer r := by
  rcases p with (⟨queue', r⟩ | r) | r
  · exact absurd queue (queue_of_operation distinct right.1).2.1
  · exact absurd queue (responseQueue_ne distinct)
  · exact ⟨r, rfl⟩

theorem exists_request (distinct : settings.allQueues.Nodup) {p : Parcel}
    (right : p.Right settings q) {op : Operation}
    (queue : settings.queueOf? op = some (p.message settings).queue) :
    ∃ queue' r, p = .sending (.request queue' r) ∧ r.operation = op := by
  have own := queue_of_operation distinct queue
  rcases p with (⟨queue', r⟩ | r) | r
  · exact ⟨queue', r, rfl, own.2.2 _ right.1⟩
  · exact absurd rfl own.1
  · exact absurd rfl own.2.1

theorem Consistent.submit (h : Consistent settings requests c parcels)
    (mapped : ∀ op, (settings.queueOf? op).isSome) {front back : List ExpressionRequest}
    (coming : c.coming = front ++ q :: back) {t : Scheduler} {es : List (Effect η)}
    (yields : (Scheduler.submit settings Plan.compile q).Yields c.scheduler (.ok ()) t es)
    (accepted : AllAccepted es) :
    ∃ more, Consistent settings requests ⟨t, front ++ back, c.published ++ publishedIn es⟩
      (parcels ++ more) := by
  have mem : q ∈ c.coming := by simp [coming]
  have gone : q.expressionId ∉ (front ++ back).map (·.expressionId) ++ answeredIds parcels := by
    have once := h.once
    rw [coming, List.map_append, List.map_cons, List.append_assoc, List.cons_append,
      List.nodup_middle, List.nodup_cons] at once
    simpa using once.1
  have fewer : (front ++ back).Sublist c.coming := by
    rw [coming]
    exact (List.Sublist.refl front).append (List.sublist_cons_self q back)
  rcases Scheduler.submit_spec h.sound yields with ⟨busy, -, -⟩ | ⟨-, proceeds⟩
  · have free := h.sound.isPending_eq_false.2
      (h.idle _ (List.mem_append_left _ (List.mem_map_of_mem mem)))
    rw [busy] at free
    cases free
  · have right : (Stage.ready []).Right q.expression := evaluated_nil _
    exact h.of_proceeds mapped (h.coming q mem) fewer gone right (fun ended => ended) (by simp) rfl
      proceeds accepted

theorem publishedIn_settled (es : List (Effect η)) (how : Settlement) :
    publishedIn (es ++ [.settled how]) = publishedIn es := by
  rw [publishedIn, List.filterMap_append]
  exact List.append_nil _

theorem AllAccepted.left {es fs : List (Effect η)} (h : AllAccepted (es ++ fs)) : AllAccepted es :=
  fun m hm => h m (List.mem_append_left _ hm)

/-- Expressions may be lost on their way. -/
theorem Consistent.drop (h : Consistent settings requests c parcels)
    {coming : List ExpressionRequest} (fewer : coming.Sublist c.coming) :
    Consistent settings requests ⟨c.scheduler, coming, c.published⟩ parcels := by
  have ids := (fewer.map (·.expressionId)).append (.refl (answeredIds parcels))
  exact ⟨h.sound, h.published, h.right, h.pending, fun r hr => h.coming r (fewer.subset hr),
    h.once.sublist ids, fun id hid => h.idle id (ids.subset hid)⟩

theorem Consistent.request (h : Consistent settings requests c parcels)
    (mapped : ∀ op, (settings.queueOf? op).isSome) {front back : List ExpressionRequest}
    {body : Text.Body} (coming : c.coming = front ++ q :: back) (written : q.body = body)
    {t : Scheduler} {es : List (Effect η)}
    (yields : (Scheduler.onRequestDelivery settings Plan.compile body).Yields c.scheduler
      (.ok ()) t es)
    (accepted : AllAccepted es) :
    ∃ more, Consistent settings requests ⟨t, front ++ back, c.published ++ publishedIn es⟩
      (parcels ++ more) := by
  obtain ⟨u, es₁, es₂, handled, ⟨rest, rfl, -, rfl, rfl⟩, rfl⟩ :=
    Routine.Yields.of_thenAlways yields
  rw [publishedIn_settled]
  rw [Scheduler.handleRequest, Routine.yields_atomically_bind, Scheduler.decodeRequest] at handled
  have received := q.decode_body (Scheduler.namelessId (c.scheduler.nameless + 1))
  rw [written] at received
  rcases received with decoded | ⟨⟨issues, refused⟩, unseen⟩
  · rw [decoded] at handled
    exact h.submit mapped coming handled accepted.left
  · simp only [refused, unseen] at handled
    obtain ⟨-, rfl, rfl⟩ := handled
    have fewer : (front ++ back).Sublist c.coming := by
      rw [coming]
      exact (List.Sublist.refl front).append (List.sublist_cons_self q back)
    refine ⟨[], ?_⟩
    rw [List.append_nil, publishedIn, List.filterMap_nil, List.append_nil]
    exact h.drop fewer

theorem eq_of_expressionId (ids : (requests.map (·.expressionId)).Nodup) {p : ExpressionRequest}
    (hp : p ∈ requests) (hq : q ∈ requests) (h : p.expressionId = q.expressionId) : p = q :=
  List.inj_on_of_nodup_map ids hp hq h

theorem Consistent.result (h : Consistent settings requests c parcels)
    (distinct : settings.allQueues.Nodup) (mapped : ∀ op, (settings.queueOf? op).isSome)
    (ids : (requests.map (·.expressionId)).Nodup) {m : Message} (delivered : m ∈ c.published)
    (queue : m.queue = settings.resultsQueue) {t : Scheduler} {es : List (Effect η)}
    (yields : (Scheduler.onResultDelivery settings m.body).Yields c.scheduler (.ok ()) t es)
    (accepted : AllAccepted es) :
    ∃ more, Consistent settings requests ⟨t, c.coming, c.published ++ publishedIn es⟩
      (parcels ++ more) := by
  rw [h.published] at delivered
  obtain ⟨p, hp, rfl⟩ := List.mem_map.1 delivered
  obtain ⟨q', hq', right⟩ := h.right p hp
  obtain ⟨r, rfl⟩ := exists_answer distinct right queue
  obtain ⟨hid, short, finite, k, hk, expected⟩ := right
  obtain ⟨u, es₁, es₂, handled, ⟨rest, rfl, -, rfl, rfl⟩, rfl⟩ :=
    Routine.Yields.of_thenAlways yields
  rw [publishedIn_settled]
  change (Scheduler.handleResult settings r.body).Yields _ _ _ _ at handled
  rw [Scheduler.handleResult, StepResponse.decode_body finite short] at handled
  rcases Scheduler.onResult_spec h.sound handled with ⟨-, rfl, rfl⟩ | ⟨e, xs, he, awaits, proceeds⟩
  · refine ⟨[], ?_⟩
    rw [List.append_nil, publishedIn, List.filterMap_nil, List.append_nil]
    exact h
  · obtain ⟨q, hq, hid', hsteps, evaluated⟩ := h.pending _ e he
    obtain rfl : q' = q := eq_of_expressionId ids hq' hq (hid.symm.trans hid'.symm)
    have gone : q'.expressionId ∉ c.coming.map (·.expressionId) ++ answeredIds parcels := by
      intro hmem
      have := h.idle _ hmem
      rw [hid', he] at this
      cases this
    have right : (Stage.waiting xs).Right q'.expression := by
      have := evaluated xs awaits
      rwa [hsteps] at this
    have proceeds := proceeds (Plan.compile q'.expression) hsteps.symm
    rw [← hid'] at proceeds
    refine h.of_proceeds mapped hq (.refl _) gone right (fun ended => ended) ?_ ?_ proceeds
      accepted.left
    · rw [Scheduler.taken_of_awaits he awaits]
      split
      · rintro _ he
        rw [List.mem_singleton.1 he]
        exact ⟨k, hk, expected⟩
      · simp
    · rw [Scheduler.taken_of_awaits he awaits]
      split <;> rfl

/-- An answer changes nothing but the messages. -/
theorem Consistent.answer (h : Consistent settings requests c parcels) (mem : q ∈ requests)
    {r : StepResponse} (right : (Parcel.answer r).Right settings q) :
    Consistent settings requests
      ⟨c.scheduler, c.coming, c.published ++ [⟨settings.resultsQueue, r.body⟩]⟩
      (parcels ++ [.answer r]) := by
  have ids : answeredIds (parcels ++ [.answer r]) = answeredIds parcels := by
    rw [answeredIds_append]
    exact List.append_nil _
  refine ⟨h.sound, ?_, ?_, h.pending, h.coming, ids ▸ h.once, ids ▸ h.idle⟩
  · rw [h.published, List.map_append]
    rfl
  · intro p hp
    rcases List.mem_append.1 hp with hp | hp
    · exact h.right p hp
    · rw [List.mem_singleton.1 hp]
      exact ⟨q, mem, right⟩

/-- An outcome is finite if what is expected in time is. -/
theorem Outcome.LateOr.isFinite {o : Outcome} {expected : Option Outcome} (h : o.LateOr expected)
    (finite : ∀ x, expected = some (.value x) → Decimal.isFinite x = true) : o.IsFinite := by
  cases o with
  | failed f => trivial
  | value x =>
    rcases h with late | h
    · exact late.elim
    · exact finite x h

theorem Consistent.work (h : Consistent settings requests c parcels)
    (distinct : settings.allQueues.Nodup) {m : Message} (delivered : m ∈ c.published)
    {own : Operation} (queue : settings.queueOf? own = some m.queue) {σ : Type} {s t : σ}
    {es : List (Effect η)}
    (yields : (Worker.onDelivery settings own m.body).Yields s (.ok ()) t es)
    (accepted : AllAccepted es) :
    ∃ more, Consistent settings requests ⟨c.scheduler, c.coming, c.published ++ publishedIn es⟩
      (parcels ++ more) := by
  rw [h.published] at delivered
  obtain ⟨p, hp, rfl⟩ := List.mem_map.1 delivered
  obtain ⟨q, hq, right⟩ := h.right p hp
  obtain ⟨queue', r, rfl, op⟩ := exists_request distinct right queue
  obtain ⟨-, xs, evaluated, asks⟩ := right
  obtain ⟨left, right⟩ := finite_of_asks evaluated asks
  obtain ⟨-, spec⟩ := Worker.onDelivery_spec yields
  rcases spec rfl with rfl | ⟨now, request, response, taken, how, decoded, answered, rfl⟩
  · refine ⟨[], ?_⟩
    rw [List.append_nil, publishedIn, List.filterMap_cons, List.filterMap_nil, List.append_nil]
    exact h
  · obtain ⟨short, issued, rfl⟩ := StepRequest.eq_of_decode_body left right decoded
    obtain ⟨id, step, outcome⟩ :=
      Worker.answer_spec (r := { r with issuedAt := issued }) op answered
    obtain rfl : taken = true := by
      by_contra hne
      refine accepted ⟨settings.resultsQueue, response.body⟩ ?_
      rw [Effect.handed, if_neg hne]
      exact List.mem_cons_self
    have finite : response.outcome.IsFinite :=
      outcome.isFinite fun x hx => isFinite_of_outcome (Option.some.inj hx)
    have expected := outcomeAt?_of_asks evaluated asks
    obtain ⟨-, -, rid, rstep, -⟩ := asks
    exact ⟨[.answer response], h.answer hq ⟨id.trans rid, step ▸ short, finite, xs.length,
      step.trans rstep, expected ▸ outcome⟩⟩

theorem Consistent.step (h : Consistent settings requests c parcels)
    (distinct : settings.allQueues.Nodup) (mapped : ∀ op, (settings.queueOf? op).isSome)
    (ids : (requests.map (·.expressionId)).Nodup) {d : Cluster} (step : c.Step settings d) :
    ∃ more, Consistent settings requests d (parcels ++ more) := by
  cases step with
  | submit coming yields accepted => exact h.submit mapped coming yields accepted
  | request coming written yields accepted =>
    exact h.request mapped coming written yields accepted
  | work delivered queue yields accepted => exact h.work distinct delivered queue yields accepted
  | result delivered queue yields accepted =>
    exact h.result distinct mapped ids delivered queue yields accepted

theorem consistent_of_reaches (distinct : settings.allQueues.Nodup)
    (mapped : ∀ op, (settings.queueOf? op).isSome) (ids : (requests.map (·.expressionId)).Nodup)
    (h : Cluster.Reaches settings (.start requests) c) :
    ∃ parcels, Consistent settings requests c parcels := by
  induction h with
  | refl => exact ⟨[], consistent_start ids⟩
  | tail _ step ih =>
    obtain ⟨parcels, consistent⟩ := ih
    obtain ⟨more, consistent⟩ := consistent.step distinct mapped ids step
    exact ⟨_, consistent⟩

/-! ## Answers -/

theorem filter_responses (distinct : settings.allQueues.Nodup)
    (right : ∀ p ∈ parcels, ∃ q ∈ requests, p.Right settings q) :
    (parcels.map (·.message settings)).filter (·.queue == settings.responseQueue) =
      (parcels.filterMap Parcel.response?).map fun r => ⟨settings.responseQueue, r.body⟩ := by
  induction parcels with
  | nil => rfl
  | cons p parcels ih =>
    rw [List.forall_mem_cons] at right
    obtain ⟨⟨q, -, here⟩, right⟩ := right
    rw [List.map_cons, List.filterMap_cons]
    rcases p with (⟨queue, r⟩ | r) | r
    · refine (List.filter_cons_of_neg ?_).trans (ih right)
      simpa [Parcel.message, Sending.message] using (queue_of_operation distinct here.1).1
    · refine (List.filter_cons_of_pos ?_).trans (congrArg _ (ih right))
      exact beq_self_eq_true settings.responseQueue
    · refine (List.filter_cons_of_neg ?_).trans (ih right)
      simpa [Parcel.message] using (responseQueue_ne distinct).symm

/-- The responses of a cluster, decoded as they were sent: one at most for each id, and each with
the outcome of executing its expression in one place, unless time ran out. -/
theorem answers_of_reaches (distinct : settings.allQueues.Nodup)
    (mapped : ∀ op, (settings.queueOf? op).isSome) (ids : (requests.map (·.expressionId)).Nodup)
    (h : Cluster.Reaches settings (.start requests) c) :
    ∃ responses : List ExpressionResponse,
      c.published.filter (·.queue == settings.responseQueue) =
        responses.map (fun r => ⟨settings.responseQueue, r.body⟩) ∧
      (∀ r ∈ responses, ExpressionResponse.decode r.body = .ok r) ∧
      (responses.map (·.expressionId)).Nodup ∧
      ∀ r ∈ responses, ∃ q ∈ requests, q.expressionId = r.expressionId ∧
        (¬ r.outcome.IsLate → reference q.expression = some r.outcome) := by
  obtain ⟨parcels, consistent⟩ := consistent_of_reaches distinct mapped ids h
  have right : ∀ r ∈ parcels.filterMap Parcel.response?, ∃ q ∈ requests,
      (Sending.response r).Right settings q.expressionId q.expression := by
    intro r hr
    obtain ⟨p, hp, hpr⟩ := List.mem_filterMap.1 hr
    obtain ⟨q, hq, right⟩ := consistent.right p hp
    rcases p with (⟨queue, r'⟩ | r') | r' <;> cases hpr
    exact ⟨q, hq, right⟩
  refine ⟨parcels.filterMap Parcel.response?, ?_, ?_, ?_, ?_⟩
  · rw [consistent.published]
    exact filter_responses distinct consistent.right
  · intro r hr
    obtain ⟨q, -, -, expected⟩ := right r hr
    exact ExpressionResponse.decode_body (expected.isFinite fun x => isFinite_of_reference)
  · exact consistent.once.sublist (List.sublist_append_right _ _)
  · intro r hr
    obtain ⟨q, hq, hid, expected⟩ := right r hr
    exact ⟨q, hq, hid.symm, expected.resolve_left⟩

theorem allAccepted_run (clock : Int) {σ α : Type} (r : Routine σ η α) (s : σ) :
    AllAccepted (r.run ⟨clock, []⟩ s).effects := by
  induction r generalizing s with
  | done a | raise fault => exact fun m hm => nomatch hm
  | critical update next ih => exact ih s (update s)
  | clock next ih => exact ih clock s
  | publish m next ih => exact fun m' hm' => (List.mem_cons.1 hm').elim nofun (ih (.ok ()) s m')
  | subscribe queue handler next ih =>
    exact fun m' hm' => (List.mem_cons.1 hm').elim nofun (ih (.ok ()) s m')
  | cancel queue next ih | close next ih | settle how next ih =>
    exact fun m' hm' => (List.mem_cons.1 hm').elim nofun (ih s m')

/-! ### The cluster that computes `1+2` on a clock at zero -/

/-- The submission, whose only message asks for the sum. -/
def submission : Run Scheduler Unit Unit :=
  (Scheduler.submit .standard Plan.compile ⟨"a", "1+2", 1000⟩).run ⟨0, []⟩ .empty

/-- The message that asks for the sum. -/
def sumRequest : Message := (publishedIn submission.effects).headD default

/-- The delivery of that message. -/
def sumDelivery : Run Unit Unit Unit :=
  (Worker.onDelivery .standard .add sumRequest.body).run ⟨0, []⟩ ()

/-- The answer to it. -/
def sumResponse : StepResponse := ⟨"a", 0, .value 3⟩

/-- The delivery of the answer. -/
def sumReturn : Run Scheduler Unit Unit :=
  ((Scheduler.onResult .standard sumResponse).thenAlways (.settled .ack)).run ⟨0, []⟩
    submission.state

theorem submission_asks : submission.result.isOk = true ∧
    sumRequest ∈ publishedIn submission.effects ∧
    Settings.standard.queueOf? .add = some sumRequest.queue := by
  have h : submission.result.isOk = true ∧ (publishedIn submission.effects).isEmpty = false ∧
      Settings.standard.queueOf? .add = some sumRequest.queue := by decide +kernel
  refine ⟨h.1, ?_, h.2.2⟩
  rw [sumRequest]
  cases he : publishedIn submission.effects with
  | nil => simp [he] at h
  | cons m ms => exact List.mem_cons_self

theorem sumDelivery_answers : sumDelivery.result.isOk = true ∧
    publishedIn sumDelivery.effects = [⟨Settings.standard.resultsQueue, sumResponse.body⟩] := by
  have h : sumDelivery.result.isOk = true ∧
      (publishedIn sumDelivery.effects).map (fun m => (m.queue, m.body)) =
        [(Settings.standard.resultsQueue, sumResponse.body)] := by decide +kernel
  obtain ⟨ok, one⟩ := h
  obtain ⟨⟨queue, body⟩, published, heq⟩ := List.map_eq_singleton_iff.1 one
  cases heq
  exact ⟨ok, published⟩

theorem sumReturn_responds : sumReturn.result.isOk = true ∧
    (publishedIn sumReturn.effects).map (·.body) =
      [(ExpressionResponse.mk "a" (.value 3)).body] := by
  decide +kernel

theorem answers_of_one_plus_two :
    ∃ c, Cluster.Reaches .standard (.start [⟨"a", "1+2", 1000⟩]) c ∧
      c.published.getLast?.map (·.body) = some (ExpressionResponse.mk "a" (.value 3)).body ∧
      ∃ responses : List ExpressionResponse,
        c.published.filter (·.queue == Settings.standard.responseQueue) =
          responses.map (fun r => ⟨Settings.standard.responseQueue, r.body⟩) ∧
        (∀ r ∈ responses, ExpressionResponse.decode r.body = .ok r) ∧
        (responses.map (·.expressionId)).Nodup ∧
        ∀ r ∈ responses, ∃ q ∈ [(⟨"a", "1+2", 1000⟩ : ExpressionRequest)],
          q.expressionId = r.expressionId ∧
            (¬ r.outcome.IsLate → reference q.expression = some r.outcome) := by
  obtain ⟨submits, asks, queued⟩ := submission_asks
  obtain ⟨works, answers⟩ := sumDelivery_answers
  obtain ⟨finishes, responds⟩ := sumReturn_responds
  have finite : sumResponse.outcome.IsFinite := (by decide +kernel : Decimal.isFinite 3 = true)
  have short : Json.ShortInt sumResponse.stepId :=
    (by decide : (Nat.toDigits 10 0).length ≤ 4300)
  have read : (Scheduler.onResultDelivery .standard sumResponse.body : Scheduler.Action Unit Unit) =
      (Scheduler.onResult .standard sumResponse).thenAlways (.settled .ack) := by
    rw [Scheduler.onResultDelivery, Scheduler.handleResult, StepResponse.decode_body finite short]
  have first : Cluster.Step .standard (.start [⟨"a", "1+2", 1000⟩])
      ⟨submission.state, [], publishedIn submission.effects⟩ :=
    @Cluster.Step.submit .standard (.start [⟨"a", "1+2", 1000⟩]) ⟨"a", "1+2", 1000⟩ [] [] _ _ rfl
      (Routine.yields_of_isOk ⟨0, []⟩ submits) (allAccepted_run 0 _ _)
  have second : Cluster.Step .standard ⟨submission.state, [], publishedIn submission.effects⟩
      ⟨submission.state, [],
        publishedIn submission.effects ++ publishedIn sumDelivery.effects⟩ := by
    have yields : (Worker.onDelivery .standard .add sumRequest.body).Yields () (.ok ())
        sumDelivery.state sumDelivery.effects := Routine.yields_of_isOk ⟨0, []⟩ works
    rw [Subsingleton.elim sumDelivery.state ()] at yields
    exact .work asks queued yields (allAccepted_run 0 _ _)
  have third : Cluster.Step .standard
      ⟨submission.state, [], publishedIn submission.effects ++ publishedIn sumDelivery.effects⟩
      ⟨sumReturn.state, [], publishedIn submission.effects ++ publishedIn sumDelivery.effects ++
        publishedIn sumReturn.effects⟩ := by
    refine .result (m := ⟨Settings.standard.resultsQueue, sumResponse.body⟩) ?_ rfl ?_
      (allAccepted_run 0 _ _)
    · rw [answers]
      exact List.mem_append_right _ (List.mem_singleton_self _)
    · rw [read]
      exact Routine.yields_of_isOk ⟨0, []⟩ finishes
  have reaches := ((Relation.ReflTransGen.single first).tail second).tail third
  have mapped : ∀ op, (Settings.standard.queueOf? op).isSome := by
    intro op
    cases op <;> decide
  refine ⟨_, reaches, ?_, answers_of_reaches (by decide) mapped (by decide) reaches⟩
  obtain ⟨m, last, body⟩ := List.map_eq_singleton_iff.1 responds
  rw [last, List.getLast?_concat, Option.map_some, body]

end Stepwise
