import Stepwise.Proofs.Expr.Numbering
import Stepwise.Settings
import Stepwise.Transport.Fault

/-!
# The story of an expression

What may happen to an accepted expression is a small transition system: it is ready to send the
next step, waits for the result of one, is stuck on a step that was refused, has failed without a
response so far, or has ended.  Its events are outcomes of steps that are accepted, failures from
outside, and messages that are handed to a transport.  `Moves` are its runs, and
`orderly_of_moves` says what the events of a run look like: one request after another, each with
operands out of the results accepted before, and at the end one response.
-/

namespace Stepwise

/-! ## Events -/

/-- A message about an expression before it is written. -/
inductive Sending where
  | request (queue : String) (r : StepRequest)
  | response (r : ExpressionResponse)

/-- Something that happens to an accepted expression. -/
inductive Event where
  /-- The outcome of a step is accepted. -/
  | took (step : Int) (o : Outcome)
  /-- The expression is failed from outside. -/
  | aborted (f : Failure)
  /-- A message is handed to the transport, which accepts it or not. -/
  | sent (what : Sending) (accepted : Bool)

namespace Event

/-- The result that an event accepts, with the id of its step. -/
def result? : Event → Option (Int × Float)
  | took step (.value x) => some (step, x)
  | _ => none

/-- The request that an event hands over. -/
def request? : Event → Option StepRequest
  | sent (.request _ r) _ => some r
  | _ => none

/-- The request that an event publishes: it is handed over and accepted. -/
def published? : Event → Option StepRequest
  | sent (.request _ r) true => some r
  | _ => none

/-- The response that an event hands over. -/
def response? : Event → Option ExpressionResponse
  | sent (.response r) _ => some r
  | _ => none

/-- The results that are accepted along a list of events. -/
def results (es : List Event) : List (Int × Float) := es.filterMap result?

/-- The requests among events, accepted or not. -/
def requests (es : List Event) : List StepRequest := es.filterMap request?

/-- The published requests among events. -/
def published (es : List Event) : List StepRequest := es.filterMap published?

/-- The responses among events. -/
def responses (es : List Event) : List ExpressionResponse := es.filterMap response?

@[simp] theorem results_append (es fs : List Event) :
    results (es ++ fs) = results es ++ results fs :=
  List.filterMap_append

@[simp] theorem requests_append (es fs : List Event) :
    requests (es ++ fs) = requests es ++ requests fs :=
  List.filterMap_append

@[simp] theorem published_append (es fs : List Event) :
    published (es ++ fs) = published es ++ published fs :=
  List.filterMap_append

@[simp] theorem responses_append (es fs : List Event) :
    responses (es ++ fs) = responses es ++ responses fs :=
  List.filterMap_append

end Event

/-! ## Stages and moves -/

/-- How far an accepted expression is, with the results of its steps so far. -/
inductive Stage where
  | ready (xs : List Float)
  | waiting (xs : List Float)
  | stuck (xs : List Float)
  | failed (xs : List Float) (f : Failure)
  | ended (xs : List Float)

/-- The results accepted so far. -/
def Stage.results : Stage → List Float
  | ready xs | waiting xs | stuck xs | failed xs _ | ended xs => xs

/-- A request asks for the step after the first ones: both operands are literals of the step or
results of the steps that it refers to. -/
def Asks (id : String) (steps : List Step) (xs : List Float) (r : StepRequest) : Prop :=
  ∃ step, steps[xs.length]? = some step ∧ r.expressionId = id ∧ r.stepId = xs.length ∧
    r.operation = step.operation ∧
    step.left.find? (fun x => x) (recorded xs) = some r.left ∧
    step.right.find? (fun x => x) (recorded xs) = some r.right

/-- The value of an expression with a result for each step: the last one, or the literal of an
expression without steps. -/
def valueOf? (literal : Option Float) (xs : List Float) : Option Float :=
  xs.getLast?.or literal

/-- The steps of an expression; one that cannot be compiled has none. -/
def stepsOf : Except CompileFault Plan → List Step
  | .ok plan => plan.steps
  | .error _ => []

theorem exists_plan {compiled : Except CompileFault Plan} (h : stepsOf compiled ≠ []) :
    ∃ plan, compiled = .ok plan ∧ plan.steps ≠ [] := by
  cases compiled with
  | error fault => exact (h rfl).elim
  | ok plan => exact ⟨plan, rfl, h⟩

/-- The literal of an expression without steps. -/
def literalOf : Except CompileFault Plan → Option Float
  | .ok plan => plan.literal
  | .error _ => none

variable (settings : Settings) (id : String) (plan : Except CompileFault Plan)

/-- One event in the story of an expression. -/
inductive Move : Stage → Event → Stage → Prop where
  | send {xs queue r} (asks : Asks id (stepsOf plan) xs r)
      (mapped : settings.queueOf? r.operation = some queue) :
      Move (.ready xs) (.sent (.request queue r) true) (.waiting xs)
  | refuse {xs queue r} (asks : Asks id (stepsOf plan) xs r)
      (mapped : settings.queueOf? r.operation = some queue) :
      Move (.ready xs) (.sent (.request queue r) false) (.stuck xs)
  | take {xs} (x : Float) : Move (.waiting xs) (.took xs.length (.value x)) (.ready (xs ++ [x]))
  | takeFailure {xs} (f : Failure) :
      Move (.waiting xs) (.took xs.length (.failed f)) (.failed xs f)
  | succeed {xs x} (all : xs.length = (stepsOf plan).length)
      (value : valueOf? (literalOf plan) xs = some x) (accepted : Bool) :
      Move (.ready xs) (.sent (.response ⟨id, .value x⟩) accepted) (.ended xs)
  | unparsed {fault : CompileFault} (parse : plan = .error fault) (accepted : Bool) :
      Move (.ready []) (.sent (.response (.failure id .parseError
        ("parse error: " ++ fault.message))) accepted) (.ended [])
  | unmapped {xs r} (asks : Asks id (stepsOf plan) xs r)
      (unmapped : settings.queueOf? r.operation = none) (accepted : Bool) :
      Move (.ready xs) (.sent (.response (.failure id .unknownOperation
        ("unknown operation: " ++ r.operation.name))) accepted) (.ended xs)
  | unpublished {xs} (refusal : Refusal) (accepted : Bool) :
      Move (.stuck xs) (.sent (.response (.failure id .publishError
        ("publish failed: " ++ refusal.message))) accepted) (.ended xs)
  | fail {xs f} (accepted : Bool) :
      Move (.failed xs f) (.sent (.response ⟨id, .failed f⟩) accepted) (.ended xs)
  | abort {xs} (f : Failure) : Move (.waiting xs) (.aborted f) (.failed xs f)

/-- The events of a stretch of the story. -/
inductive Moves : Stage → List Event → Stage → Prop where
  | refl (a : Stage) : Moves a [] a
  | concat {a b c : Stage} {es : List Event} {e : Event} :
      Moves a es b → Move settings id plan b e c → Moves a (es ++ [e]) c

variable {settings id plan} {a b c : Stage} {es fs : List Event}

theorem Moves.single {e : Event} (h : Move settings id plan a e b) :
    Moves settings id plan a [e] b :=
  .concat (.refl a) h

theorem Moves.append (h : Moves settings id plan a es b)
    (h' : Moves settings id plan b fs c) : Moves settings id plan a (es ++ fs) c := by
  induction h' with
  | refl => rwa [List.append_nil]
  | concat _ move ih =>
    rw [← List.append_assoc]
    exact .concat ih move

theorem Moves.cons {e : Event} (move : Move settings id plan a e b)
    (h : Moves settings id plan b fs c) : Moves settings id plan a (e :: fs) c :=
  (Moves.single move).append h

/-! ## What the events look like -/

/-- How many steps have been requested, and how many of the requests have been accepted. -/
def Stage.Asked : Stage → Nat → Nat → Prop
  | ready xs, asked, published => asked = xs.length ∧ published = xs.length
  | waiting xs, asked, published | failed xs _, asked, published =>
    asked = xs.length + 1 ∧ published = xs.length + 1
  | stuck xs, asked, published => asked = xs.length + 1 ∧ published = xs.length
  | ended _, _, _ => True

/-- Whether a response has been handed over. -/
def Stage.IsEnded : Stage → Prop
  | ended _ => True
  | _ => False

theorem results_of_moves (h : Moves settings id plan (.ready []) es a) :
    Event.results es = recorded a.results := by
  induction h with
  | refl => rfl
  | concat _ move ih =>
    rw [Event.results_append, ih]
    cases move with
    | take x => exact (recorded_concat _ x).symm
    | _ => exact List.append_nil _

theorem requests_of_moves (h : Moves settings id plan (.ready []) es a) :
    ∃ asked published, (Event.requests es).map (·.stepId) = firstIds asked ∧
      (Event.published es).map (·.stepId) = firstIds published ∧ a.Asked asked published := by
  induction h with
  | refl => exact ⟨0, 0, rfl, rfl, rfl, rfl⟩
  | concat _ move ih =>
    obtain ⟨m, n, hm, hn, counts⟩ := ih
    rw [Event.requests_append, Event.published_append, List.map_append, List.map_append, hm, hn]
    cases move with
    | send asks =>
      obtain ⟨step, -, -, hid, -⟩ := asks
      obtain ⟨rfl, rfl⟩ := counts
      refine ⟨_, _, ?_, ?_, rfl, rfl⟩
      · rw [firstIds_succ, ← hid]
        rfl
      · rw [firstIds_succ, ← hid]
        rfl
    | refuse asks =>
      obtain ⟨step, -, -, hid, -⟩ := asks
      obtain ⟨rfl, rfl⟩ := counts
      refine ⟨_, _, ?_, List.append_nil _, rfl, rfl⟩
      rw [firstIds_succ, ← hid]
      rfl
    | take x =>
      obtain ⟨rfl, rfl⟩ := counts
      refine ⟨_, _, List.append_nil _, List.append_nil _, ?_, ?_⟩
      · rw [List.length_append, List.length_singleton]
      · rw [List.length_append, List.length_singleton]
    | takeFailure | abort => exact ⟨m, n, List.append_nil _, List.append_nil _, counts⟩
    | _ => exact ⟨m, n, List.append_nil _, List.append_nil _, trivial⟩

/-- Nothing happens to an expression that is over. -/
theorem not_move_of_isEnded {e : Event} (h : a.IsEnded) : ¬ Move settings id plan a e b := by
  intro move
  cases move <;> exact h

/-- What holds of the events of an expression: the requests, and those of them that are accepted,
are for the steps 0, 1, … in turn, each after the results of all earlier steps, with operands out
of them and to the queue of its operation; the outcome of a step is accepted only if the step is
the one requested last; a response is the last event, and a success has a result of every step and
carries the last. -/
structure Orderly (settings : Settings) (id : String) (plan : Except CompileFault Plan)
    (es : List Event) : Prop where
  consecutive : ∃ m n, (Event.requests es).map (·.stepId) = firstIds m ∧
    (Event.published es).map (·.stepId) = firstIds n
  request : ∀ front queue r accepted back, es = front ++ .sent (.request queue r) accepted :: back →
    Event.responses front = [] ∧
      settings.queueOf? r.operation = some queue ∧
      ∃ xs, Event.results front = recorded xs ∧ Asks id (stepsOf plan) xs r
  result : ∀ front step o back, es = front ++ .took step o :: back →
    Event.responses front = [] ∧
      ∃ xs queue r, Event.results front = recorded xs ∧ Event.sent (.request queue r) true ∈ front ∧
        r.stepId = step ∧ step = xs.length
  response : ∀ front r accepted back, es = front ++ .sent (.response r) accepted :: back →
    back = [] ∧ Event.responses front = [] ∧ r.expressionId = id ∧
      ∀ x, r.outcome = .value x → ∃ xs, Event.results front = recorded xs ∧
        xs.length = (stepsOf plan).length ∧ valueOf? (literalOf plan) xs = some x

/-- A list that ends with an entry, cut at some entry: at the last one, or before. -/
theorem concat_eq_append_cons {α : Type} {es front back : List α} {e e' : α}
    (h : es ++ [e] = front ++ e' :: back) :
    (back = [] ∧ es = front ∧ e = e') ∨ ∃ more, back = more ++ [e] ∧ es = front ++ e' :: more := by
  rcases List.eq_nil_or_concat back with rfl | ⟨more, last, rfl⟩
  · obtain ⟨h₁, h₂⟩ := List.append_inj' h rfl
    exact Or.inl ⟨rfl, h₁, by simpa using h₂⟩
  · rw [List.concat_eq_append] at h ⊢
    rw [← List.cons_append, ← List.append_assoc] at h
    obtain ⟨h₁, h₂⟩ := List.append_inj' h rfl
    obtain rfl : e = last := by simpa using h₂
    exact Or.inr ⟨more, rfl, h₁⟩

/-- A run can be cut at each of its events. -/
theorem Moves.cut {front back : List Event} {e : Event}
    (h : Moves settings id plan a (front ++ e :: back) b) :
    ∃ c d, Moves settings id plan a front c ∧ Move settings id plan c e d ∧
      Moves settings id plan d back b := by
  generalize hes : front ++ e :: back = es at h
  induction h generalizing back with
  | refl => simp at hes
  | concat before move ih =>
    rcases concat_eq_append_cons hes.symm with ⟨rfl, rfl, rfl⟩ | ⟨more, rfl, rfl⟩
    · exact ⟨_, _, before, move, .refl _⟩
    · obtain ⟨c, d, h, here, after⟩ := ih rfl
      exact ⟨c, d, h, here, after.concat move⟩

theorem Moves.eq_nil_of_isEnded (h : Moves settings id plan a es b) (ended : a.IsEnded) :
    es = [] ∧ b = a := by
  induction h with
  | refl => exact ⟨rfl, rfl⟩
  | concat before move ih =>
    rw [ih.2] at move
    exact (not_move_of_isEnded ended move).elim

/-- A response is handed over when an expression ends, and only then. -/
theorem Moves.responses (h : Moves settings id plan a es b) (pending : ¬ a.IsEnded) :
    (Event.responses es = [] ∧ ¬ b.IsEnded) ∨
      ∃ r, Event.responses es = [r] ∧ r.expressionId = id ∧ b.IsEnded := by
  induction h with
  | refl => exact Or.inl ⟨rfl, pending⟩
  | concat _ move ih =>
    rcases ih with ⟨none, -⟩ | ⟨r, -, -, ended⟩
    · rw [Event.responses_append, none]
      cases move with
      | send | refuse | take | takeFailure | abort => exact Or.inl ⟨rfl, fun ended => ended⟩
      | _ => exact Or.inr ⟨_, rfl, rfl, trivial⟩
    · exact (not_move_of_isEnded ended move).elim

theorem Moves.responses_eq_nil (h : Moves settings id plan (.ready []) es a)
    (pending : ¬ a.IsEnded) : Event.responses es = [] := by
  rcases h.responses (fun ended => ended) with ⟨none, -⟩ | ⟨r, -, -, ended⟩
  · exact none
  · exact (pending ended).elim

theorem Moves.responses_ne_nil (h : Moves settings id plan (.ready []) es a)
    (ended : a.IsEnded) : Event.responses es ≠ [] := by
  rcases h.responses (fun ended => ended) with ⟨-, pending⟩ | ⟨r, one, -, -⟩
  · exact (pending ended).elim
  · rw [one]
    exact List.cons_ne_nil r []

/-- An expression waits for the step that it has asked for. -/
theorem request_mem_of_moves {xs : List Float}
    (h : Moves settings id plan (.ready []) es (.waiting xs)) :
    ∃ queue r, Event.sent (.request queue r) true ∈ es ∧ r.stepId = xs.length := by
  cases h with
  | concat before move =>
    cases move with
    | send asks =>
      obtain ⟨step, -, -, hid, -⟩ := asks
      exact ⟨_, _, List.mem_append_right _ (List.mem_singleton_self _), hid⟩

theorem orderly_of_moves (h : Moves settings id plan (.ready []) es a) :
    Orderly settings id plan es := by
  refine ⟨?_, ?_, ?_, ?_⟩
  · obtain ⟨m, n, hm, hn, -⟩ := requests_of_moves h
    exact ⟨m, n, hm, hn⟩
  · rintro front queue r accepted back rfl
    obtain ⟨c, d, before, move, -⟩ := h.cut
    have results := results_of_moves before
    cases move with
    | send asks mapped => exact ⟨before.responses_eq_nil fun h => h, mapped, _, results, asks⟩
    | refuse asks mapped => exact ⟨before.responses_eq_nil fun h => h, mapped, _, results, asks⟩
  · rintro front step o back rfl
    obtain ⟨c, d, before, move, -⟩ := h.cut
    have results := results_of_moves before
    cases move with
    | take =>
      obtain ⟨queue, r, hr, hid⟩ := request_mem_of_moves before
      exact ⟨before.responses_eq_nil fun h => h, _, queue, r, results, hr, hid, rfl⟩
    | takeFailure =>
      obtain ⟨queue, r, hr, hid⟩ := request_mem_of_moves before
      exact ⟨before.responses_eq_nil fun h => h, _, queue, r, results, hr, hid, rfl⟩
  · rintro front r accepted back rfl
    obtain ⟨c, d, before, move, after⟩ := h.cut
    have results := results_of_moves before
    cases move with
    | succeed all value =>
      refine ⟨(after.eq_nil_of_isEnded trivial).1, before.responses_eq_nil fun h => h, rfl, ?_⟩
      rintro x ⟨⟩
      exact ⟨_, results, all, value⟩
    | _ =>
      exact ⟨(after.eq_nil_of_isEnded trivial).1, before.responses_eq_nil fun h => h, rfl, nofun⟩

end Stepwise
