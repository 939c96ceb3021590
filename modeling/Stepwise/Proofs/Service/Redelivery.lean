import Stepwise.Proofs.Service.Cluster
import Stepwise.Proofs.Service.Reuse

/-!
# Deliveries that are repeated

A transport delivers a message to a worker until it is acknowledged or rejected, at any time and in
any order with the others, and it may refuse what the worker publishes.  `answered_once` says that
nevertheless each message is answered once: it stays where it is as long as its answer is refused,
and it is gone as soon as one is accepted.
-/

namespace Stepwise

open Stepwise.Text (Body)

variable {η : Type} {settings : Settings} {own : Operation}

/-! ## Decoding at different times -/

/-- The time of decoding only matters to a request that has none. -/
theorem StepRequest.decode_at {body : Body} {now : Timestamp} {r : StepRequest}
    (decoded : StepRequest.decode body now = .ok r) (later : Timestamp) :
    ∃ issued, StepRequest.decode body later = .ok { r with issuedAt := issued } := by
  unfold StepRequest.decode at decoded ⊢
  split at decoded
  · cases decoded
  · obtain ⟨⟨id, step, operation, ⟨left, right⟩, deadline, issued⟩, fields, rfl⟩ :=
      exists_of_map_ok decoded
    rw [fields]
    exact ⟨issued.getD later, rfl⟩

theorem StepRequest.decode_error_at {body : Body} {now : Timestamp} {issues : List Issue}
    (failed : StepRequest.decode body now = .error issues) (later : Timestamp) :
    StepRequest.decode body later = .error issues := by
  unfold StepRequest.decode at failed ⊢
  split at failed
  · exact failed
  · rw [eq_error_of_map failed]
    rfl

/-! ## One delivery -/

/-- What was said about a delivery, in order. -/
def settlementsIn (es : List (Effect η)) : List Settlement :=
  es.filterMap fun
    | .settled how => some how
    | _ => none

theorem publishedIn_append (es fs : List (Effect η)) :
    publishedIn (es ++ fs) = publishedIn es ++ publishedIn fs :=
  List.filterMap_append

theorem settlementsIn_append (es fs : List (Effect η)) :
    settlementsIn (es ++ fs) = settlementsIn es ++ settlementsIn fs :=
  List.filterMap_append

/-- A delivery that was made: the number of its message, how the worker came to its end, and what
it did. -/
structure Attempt (η : Type) where
  tag : Nat
  result : Except Fault Unit
  effects : List (Effect η)

namespace Attempt

/-- A message stays until it is acknowledged or rejected. -/
def stays (a : Attempt η) : Bool := (settlementsIn a.effects).head?.all (· = .requeue)

/-- The answer to a request was refused, and the request put back. -/
def Refused (settings : Settings) (r : StepRequest) (a : Attempt η) : Prop :=
  ∃ response : StepResponse, response.expressionId = r.expressionId ∧ response.stepId = r.stepId ∧
    a.effects = [.refused ⟨settings.resultsQueue, response.body⟩, .settled .requeue]

/-- The answer to a request was accepted before the request was acknowledged. -/
def Accepted (settings : Settings) (r : StepRequest) (a : Attempt η) : Prop :=
  ∃ response : StepResponse, response.expressionId = r.expressionId ∧ response.stepId = r.stepId ∧
    a.effects = [.published ⟨settings.resultsQueue, response.body⟩, .settled .ack]

variable {a : Attempt η} {r : StepRequest}

theorem Refused.stays (h : a.Refused settings r) : a.stays = true := by
  obtain ⟨response, -, -, effects⟩ := h
  unfold Attempt.stays
  rw [effects]
  rfl

theorem Accepted.leaves (h : a.Accepted settings r) : ¬ a.stays = true := by
  obtain ⟨response, -, -, effects⟩ := h
  unfold Attempt.stays
  rw [effects]
  exact Bool.false_ne_true

theorem leaves_of_rejected (h : a.effects = [.settled .reject]) : ¬ a.stays = true := by
  unfold stays
  rw [h]
  exact Bool.false_ne_true

end Attempt

/-- The worker comes back with an answer to what it can decode, whenever it looks at the clock. -/
def Worker.Returns (own : Operation) (shows : Int → Prop) (body : Body) : Prop :=
  ∀ now, shows now → ∃ stamp, Timestamp.onClock? now = some stamp ∧
    ∀ request, StepRequest.decode body stamp = .ok request →
      ∃ response, Worker.answer own stamp request = .ok response

/-- A delivery is rejected, put back because its answer is refused, or acknowledged after its answer
is accepted. -/
theorem Worker.attempt_spec {shows : Int → Prop} {body : Body} (returns : Returns own shows body)
    {a : Attempt η}
    (yields : (onDelivery settings own body).YieldsAt shows () a.result () a.effects) :
    a.result = .ok () ∧
      ((∃ now issues, StepRequest.decode body now = .error issues ∧
          a.effects = [.settled .reject]) ∨
        ∃ now r, StepRequest.decode body now = .ok r ∧
          (a.Refused settings r ∨ a.Accepted settings r)) := by
  rw [onDelivery, Routine.yieldsAt_now_bind] at yields
  obtain ⟨now, shown, yields⟩ := yields
  obtain ⟨stamp, on_clock, returns⟩ := returns now shown
  simp only [on_clock] at yields
  have yields := yields.yields
  cases decoded : StepRequest.decode body stamp with
  | error issues =>
    rw [decoded] at yields
    obtain ⟨rest, effects, result, -, rfl⟩ := yields
    exact ⟨result, Or.inl ⟨stamp, issues, decoded, effects⟩⟩
  | ok request =>
    obtain ⟨response, answered⟩ := returns request decoded
    obtain ⟨id, step⟩ := Worker.ids_of_answer answered
    rw [decoded] at yields
    simp only [answered] at yields
    rcases Routine.yields_tryPublish_bind.1 yields with
      ⟨rest, effects, more, rfl, result, -, rfl⟩ | ⟨refusal, rest, effects, more, rfl, result, -, rfl⟩
    · exact ⟨result, Or.inr ⟨stamp, request, decoded, Or.inr ⟨response, id, step, effects⟩⟩⟩
    · exact ⟨result, Or.inr ⟨stamp, request, decoded, Or.inl ⟨response, id, step, effects⟩⟩⟩

/-! ## All deliveries -/

/-- The deliveries of the messages of a queue, in any order, and the numbers of those that are still
there. -/
inductive Delivered (settings : Settings) (own : Operation) (shows : Int → Prop)
    (bodies : List Body) : List (Attempt η) → List Nat → Prop where
  | start : Delivered settings own shows bodies [] (List.range bodies.length)
  | deliver {attempts : List (Attempt η)} {waiting : List Nat} {a : Attempt η} {body : Body}
      (before : Delivered settings own shows bodies attempts waiting) (waits : a.tag ∈ waiting)
      (stored : bodies[a.tag]? = some body)
      (yields : (Worker.onDelivery settings own body).YieldsAt shows () a.result () a.effects) :
      Delivered settings own shows bodies (attempts ++ [a])
        (if a.stays then waiting else waiting.erase a.tag)

/-- The request of a message that is delivered, or was: its answer was refused each time but the
last, and with the last time the message is gone. -/
def Answering (settings : Settings) (r : StepRequest) (attempts : List (Attempt η))
    (waits : Prop) : Prop :=
  ∃ refused accepted, attempts = refused ++ accepted ∧ (∀ a ∈ refused, a.Refused settings r) ∧
    (waits ∧ accepted = [] ∨ ¬ waits ∧ ∃ a, accepted = [a] ∧ a.Accepted settings r)

/-- A message that cannot be decoded is delivered once at most. -/
def Rejecting (attempts : List (Attempt η)) (waits : Prop) : Prop :=
  waits ∧ attempts = [] ∨ ¬ waits ∧ ∃ a, attempts = [a] ∧ a.effects = [.settled .reject]

namespace Delivered

variable {shows : Int → Prop} {bodies : List Body} {attempts : List (Attempt η)}
  {waiting : List Nat} {a : Attempt η}

theorem nodup (h : Delivered settings own shows bodies attempts waiting) : waiting.Nodup := by
  induction h with
  | start => exact List.nodup_range
  | deliver before waits stored yields ih =>
    split
    · exact ih
    · exact ih.erase _

/-- Every attempt was made at one of the messages. -/
theorem spec (h : Delivered settings own shows bodies attempts waiting)
    (returns : ∀ body ∈ bodies, Worker.Returns own shows body) : ∀ a ∈ attempts,
    a.result = .ok () ∧ (a.effects = [.settled .reject] ∨
      ∃ r, a.Refused settings r ∨ a.Accepted settings r) := by
  induction h with
  | start => exact nofun
  | deliver before waits stored yields ih =>
    intro a' mem
    rcases List.mem_append.1 mem with mem | mem
    · exact ih a' mem
    · obtain rfl := List.mem_singleton.1 mem
      obtain ⟨result, ⟨-, -, -, rejected⟩ | ⟨-, r, -, answered⟩⟩ :=
        Worker.attempt_spec (returns _ (List.mem_of_getElem? stored)) yields
      · exact ⟨result, Or.inl rejected⟩
      · exact ⟨result, Or.inr ⟨r, answered⟩⟩

/-- The course of one message: a delivery of another changes nothing. -/
theorem course (h : Delivered settings own shows bodies attempts waiting) {tag : Nat} {body : Body}
    (stored : bodies[tag]? = some body) {P : List (Attempt η) → Prop → Prop} (start : P [] True)
    (step : ∀ before a, P before True →
      (Worker.onDelivery settings own body).YieldsAt shows () a.result () a.effects →
      P (before ++ [a]) (a.stays = true)) :
    P (attempts.filter (·.tag = tag)) (tag ∈ waiting) := by
  induction h with
  | start =>
    have inside := (List.getElem?_eq_some_iff.1 stored).1
    rw [eq_true (List.mem_range.2 inside)]
    exact start
  | @deliver attempts waiting a body' before waits stored' yields ih =>
    rw [List.filter_append]
    by_cases same : a.tag = tag
    · subst same
      obtain rfl := Option.some.inj (stored'.symm.trans stored)
      rw [eq_true waits] at ih
      have next := step _ a ih yields
      rw [List.filter_cons_of_pos (by simp), List.filter_nil]
      by_cases stays : a.stays = true
      · rw [if_pos stays, eq_true waits, ← eq_true stays]
        exact next
      · rw [if_neg stays, eq_false before.nodup.not_mem_erase, ← eq_false stays]
        exact next
    · rw [List.filter_cons_of_neg (by simpa using same), List.filter_nil, List.append_nil]
      by_cases stays : a.stays = true
      · rw [if_pos stays]
        exact ih
      · rw [if_neg stays, List.mem_erase_of_ne (Ne.symm same)]
        exact ih

theorem answering (h : Delivered settings own shows bodies attempts waiting)
    (returns : ∀ body ∈ bodies, Worker.Returns own shows body) {tag : Nat} {body : Body}
    (stored : bodies[tag]? = some body) {now : Timestamp} {r : StepRequest}
    (decoded : StepRequest.decode body now = .ok r) :
    Answering settings r (attempts.filter (·.tag = tag)) (tag ∈ waiting) := by
  refine h.course stored ⟨[], [], rfl, nofun, Or.inl ⟨trivial, rfl⟩⟩ ?_
  rintro before a ⟨refused, accepted, rfl, put_back, ⟨-, rfl⟩ | ⟨gone, -⟩⟩ yields
  · obtain ⟨-, ⟨later, issues, failed, -⟩ | ⟨later, r', decoded', answered⟩⟩ :=
      Worker.attempt_spec (returns _ (List.mem_of_getElem? stored)) yields
    · rw [StepRequest.decode_error_at failed now] at decoded
      cases decoded
    · obtain ⟨issued, same⟩ := StepRequest.decode_at decoded later
      obtain rfl := Except.ok.inj (decoded'.symm.trans same)
      rw [List.append_nil]
      rcases answered with again | accepted
      · refine ⟨refused ++ [a], [], by rw [List.append_nil], ?_, Or.inl ⟨again.stays, rfl⟩⟩
        intro a' mem
        rcases List.mem_append.1 mem with mem | mem
        · exact put_back a' mem
        · exact List.mem_singleton.1 mem ▸ again
      · exact ⟨refused, [a], rfl, put_back, Or.inr ⟨accepted.leaves, a, rfl, accepted⟩⟩
  · exact absurd trivial gone

theorem rejecting (h : Delivered settings own shows bodies attempts waiting)
    (returns : ∀ body ∈ bodies, Worker.Returns own shows body) {tag : Nat} {body : Body}
    (stored : bodies[tag]? = some body) {now : Timestamp} {issues : List Issue}
    (failed : StepRequest.decode body now = .error issues) :
    Rejecting (attempts.filter (·.tag = tag)) (tag ∈ waiting) := by
  refine h.course stored (Or.inl ⟨trivial, rfl⟩) ?_
  rintro before a (⟨-, rfl⟩ | ⟨gone, -⟩) yields
  · obtain ⟨-, ⟨later, issues', -, rejected⟩ | ⟨later, r, decoded, -⟩⟩ :=
      Worker.attempt_spec (returns _ (List.mem_of_getElem? stored)) yields
    · exact Or.inr ⟨Attempt.leaves_of_rejected rejected, a, rfl, rejected⟩
    · rw [StepRequest.decode_error_at failed later] at decoded
      cases decoded
  · exact absurd trivial gone

end Delivered

/-- What a worker has published goes to the queue of the results, one message for each
acknowledgement. -/
theorem published_of_spec {attempts : List (Attempt η)} (spec : ∀ a ∈ attempts,
      a.effects = [.settled .reject] ∨ ∃ r, a.Refused settings r ∨ a.Accepted settings r) :
    (∀ m ∈ publishedIn (attempts.flatMap (·.effects)), m.queue = settings.resultsQueue) ∧
      (publishedIn (attempts.flatMap (·.effects))).length =
        (settlementsIn (attempts.flatMap (·.effects))).count .ack := by
  induction attempts with
  | nil => exact ⟨nofun, rfl⟩
  | cons a attempts ih =>
    obtain ⟨queues, numbers⟩ := ih fun a mem => spec a (List.mem_cons_of_mem _ mem)
    rw [List.flatMap_cons, publishedIn_append, settlementsIn_append]
    rcases spec a List.mem_cons_self with effects | ⟨r, ⟨_, -, -, effects⟩ | ⟨_, -, -, effects⟩⟩
    · rw [effects]
      exact ⟨queues, numbers⟩
    · rw [effects]
      exact ⟨queues, numbers⟩
    · rw [effects]
      refine ⟨?_, ?_⟩
      · intro m mem
        rcases List.mem_cons.1 mem with rfl | mem
        · rfl
        · exact queues m mem
      · show (_ :: publishedIn _).length = (Settlement.ack :: settlementsIn _).count .ack
        rw [List.length_cons, List.count_cons_self, numbers]

/-- However often the messages of a worker's queue are delivered, and in whatever order: each
delivery is settled once, as many answers are accepted as requests are acknowledged, and of each
message one answer is accepted, which carries its id and its step. -/
theorem answered_once {shows : Int → Prop} {bodies : List Body} {attempts : List (Attempt η)}
    {waiting : List Nat} (returns : ∀ body ∈ bodies, Worker.Returns own shows body)
    (delivered : Delivered settings own shows bodies attempts waiting) :
    (∀ a ∈ attempts, a.result = .ok () ∧ ∃ how, settlementsIn a.effects = [how]) ∧
      (∀ m ∈ publishedIn (attempts.flatMap (·.effects)), m.queue = settings.resultsQueue) ∧
      (publishedIn (attempts.flatMap (·.effects))).length =
        (settlementsIn (attempts.flatMap (·.effects))).count .ack ∧
      ∀ tag body, bodies[tag]? = some body → ∀ now,
        (∀ r, StepRequest.decode body now = .ok r →
          Answering settings r (attempts.filter (·.tag = tag)) (tag ∈ waiting)) ∧
        (∀ issues, StepRequest.decode body now = .error issues →
          Rejecting (attempts.filter (·.tag = tag)) (tag ∈ waiting)) := by
  have spec := delivered.spec returns
  obtain ⟨queues, numbers⟩ := published_of_spec fun a mem => (spec a mem).2
  refine ⟨?_, queues, numbers, ?_⟩
  · intro a mem
    obtain ⟨result, effects | ⟨r, ⟨_, -, -, effects⟩ | ⟨_, -, -, effects⟩⟩⟩ := spec a mem
    · exact ⟨result, .reject, by rw [effects]; rfl⟩
    · exact ⟨result, .requeue, by rw [effects]; rfl⟩
    · exact ⟨result, .ack, by rw [effects]; rfl⟩
  · intro tag body stored now
    exact ⟨fun r decoded => delivered.answering returns stored decoded,
      fun issues failed => delivered.rejecting returns stored failed⟩

/-! ### A refusal, a message that is no request, and an answer -/

/-- A delivery on a clock at zero to a worker for sums. -/
def attemptAtZero (refusing : List String) (tag : Nat) (body : Body) : Attempt Unit :=
  let run := (Worker.onDelivery .standard .add body : Routine Unit Unit Unit).run ⟨0, refusing⟩ ()
  ⟨tag, run.result, run.effects⟩

theorem onClock?_zero : Timestamp.onClock? 0 = some sumStep.issuedAt := by decide +kernel

theorem decode_empty : ∃ issues, ∀ now, StepRequest.decode .empty now = .error issues := by
  have unread : (entriesOf .empty).isOk = false := by decide +kernel
  unfold StepRequest.decode
  cases read : entriesOf .empty with
  | ok entries =>
    rw [read] at unread
    cases unread
  | error issues => exact ⟨issues, fun _ => rfl⟩

theorem returns_sumStep : Worker.Returns .add (· = 0) sumStep.body := by
  rintro now rfl
  refine ⟨_, onClock?_zero, fun request decoded => ⟨sumOutcome, ?_⟩⟩
  obtain rfl := Except.ok.inj (decoded.symm.trans (decode_sumStep _))
  exact answer_sumStep

theorem returns_empty : Worker.Returns .add (· = 0) .empty := by
  rintro now rfl
  refine ⟨_, onClock?_zero, fun request decoded => ?_⟩
  obtain ⟨issues, failed⟩ := decode_empty
  rw [failed] at decoded
  cases decoded

/-- The deliveries of a request whose answer is refused at first, with a message that is no request
between them. -/
def someAttempts : List (Attempt Unit) :=
  [attemptAtZero [Settings.standard.resultsQueue] 0 sumStep.body, attemptAtZero [] 1 .empty,
    attemptAtZero [] 0 sumStep.body]

theorem delivered_someAttempts :
    Delivered .standard .add (· = 0) [sumStep.body, .empty] someAttempts [] := by
  have stays : someAttempts.map Attempt.stays = [true, false, false] := by decide +kernel
  obtain ⟨refused, rejected, accepted⟩ : (attemptAtZero [Settings.standard.resultsQueue] 0
      sumStep.body).stays = true ∧ (attemptAtZero [] 1 .empty).stays = false ∧
      (attemptAtZero [] 0 sumStep.body).stays = false := by
    simpa [someAttempts] using stays
  have yields : ∀ refusing tag body, (Worker.onDelivery .standard .add body).YieldsAt (· = 0) ()
      (attemptAtZero refusing tag body).result () (attemptAtZero refusing tag body).effects :=
    fun refusing _ body => @Routine.yieldsAt_run _ _ _ (· = 0) ⟨0, refusing⟩ rfl
      (Worker.onDelivery .standard .add body) ()
  have first : Delivered .standard .add (· = 0) [sumStep.body, .empty] ([] : List (Attempt Unit))
      [0, 1] := .start
  have second := first.deliver (by decide : 0 ∈ [0, 1]) rfl
    (yields [Settings.standard.resultsQueue] 0 sumStep.body)
  rw [if_pos refused] at second
  have third := second.deliver (by decide : 1 ∈ [0, 1]) rfl (yields [] 1 .empty)
  rw [if_neg (by rw [rejected]; exact Bool.false_ne_true)] at third
  have fourth := third.deliver (by decide : 0 ∈ [0]) rfl (yields [] 0 sumStep.body)
  rw [if_neg (by rw [accepted]; exact Bool.false_ne_true)] at fourth
  exact fourth

theorem answered_once_after_refusal :
    someAttempts.map (fun a => settlementsIn a.effects) = [[.requeue], [.reject], [.ack]] ∧
      (publishedIn (someAttempts.flatMap (·.effects))).length =
        (settlementsIn (someAttempts.flatMap (·.effects))).count .ack ∧
      Answering .standard sumStep (someAttempts.filter (·.tag = 0)) (0 ∈ ([] : List Nat)) ∧
      Rejecting (someAttempts.filter (·.tag = 1)) (1 ∈ ([] : List Nat)) := by
  have returns : ∀ body ∈ [sumStep.body, .empty], Worker.Returns .add (· = 0) body := by
    intro body mem
    rcases List.mem_cons.1 mem with rfl | mem
    · exact returns_sumStep
    · exact List.mem_singleton.1 mem ▸ returns_empty
  obtain ⟨-, -, numbers, messages⟩ := answered_once returns delivered_someAttempts
  obtain ⟨issues, failed⟩ := decode_empty
  exact ⟨by decide +kernel, numbers,
    (messages 0 _ rfl sumStep.issuedAt).1 _ (decode_sumStep _),
    (messages 1 _ rfl sumStep.issuedAt).2 _ (failed _)⟩

end Stepwise
