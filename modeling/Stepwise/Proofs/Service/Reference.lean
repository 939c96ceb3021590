import Stepwise.Arithmetic
import Stepwise.Proofs.Service.Story

/-!
# What an expression comes to

`reference` executes the plan of an expression in one place.  As long as the outcomes that come in
are those of the requests that went out, or late, the story of an expression leads there:
`right_of_moves` says so of every stretch of it.
-/

namespace Stepwise

/-- The outcome of an operation. -/
def Operation.outcome (op : Operation) (a b : Float) : Outcome :=
  match op.execute a b with
  | .ok x => .value x
  | .error fault => .failed fault.failure

/-- Executes steps in order on top of the results of earlier ones, up to the first that fails. -/
def evaluate (xs : List Float) : List Step → Option (Except Failure (List Float))
  | [] => some (.ok xs)
  | s :: rest =>
    match s.left.find? (fun x => x) (recorded xs), s.right.find? (fun x => x) (recorded xs) with
    | some a, some b =>
      match s.operation.outcome a b with
      | .value x => evaluate (xs ++ [x]) rest
      | .failed f => some (.error f)
    | _, _ => none

/-- The outcome that an expression comes to when its plan is executed in one place. -/
def reference (text : String) : Option Outcome :=
  match Plan.compile text with
  | .error fault => some (.failed ⟨.parseError, "parse error: " ++ fault.message⟩)
  | .ok plan =>
    match evaluate [] plan.steps with
    | some (.ok xs) => (valueOf? plan.literal xs).map .value
    | some (.error f) => some (.failed f)
    | none => none

/-- The results of the first steps. -/
def Evaluated (steps : List Step) (xs : List Float) : Prop :=
  evaluate [] (steps.take xs.length) = some (.ok xs)

/-- The outcome of the step after the first ones. -/
def outcomeAt? (steps : List Step) (k : Nat) : Option Outcome :=
  match evaluate [] (steps.take k), steps[k]? with
  | some (.ok xs), some s =>
    match s.left.find? (fun x => x) (recorded xs), s.right.find? (fun x => x) (recorded xs) with
    | some a, some b => some (s.operation.outcome a b)
    | _, _ => none
  | _, _ => none

/-- A failure for lack of time. -/
def Outcome.IsLate : Outcome → Prop
  | value _ => False
  | failed f => f.code = .deadlineExceeded

variable {steps : List Step} {xs : List Float} {text id : String}

/-! ## Executing step by step -/

theorem evaluate_append (xs : List Float) (ss ts : List Step) :
    evaluate xs (ss ++ ts) =
      match evaluate xs ss with
      | some (.ok ys) => evaluate ys ts
      | other => other := by
  induction ss generalizing xs with
  | nil => rfl
  | cons s ss ih =>
    rw [List.cons_append, evaluate, evaluate]
    cases s.left.find? (fun x => x) (recorded xs) with
    | none => rfl
    | some a =>
      cases s.right.find? (fun x => x) (recorded xs) with
      | none => rfl
      | some b =>
        simp only
        cases s.operation.outcome a b with
        | value x => exact ih (xs ++ [x])
        | failed f => rfl

theorem evaluated_nil (steps : List Step) : Evaluated steps [] := rfl

/-- The outcome of a step is the outcome of its request. -/
theorem outcomeAt?_of_asks (h : Evaluated steps xs) {r : StepRequest} (asks : Asks id steps xs r) :
    outcomeAt? steps xs.length = some (r.operation.outcome r.left r.right) := by
  obtain ⟨s, hs, -, -, hop, left, right⟩ := asks
  rw [outcomeAt?, h, hs, hop]
  simp only [left, right]

theorem evaluate_append_cons (h : Evaluated steps xs) {o : Outcome}
    (next : outcomeAt? steps xs.length = some o) :
    ∃ s, steps[xs.length]? = some s ∧ ∀ rest,
      (∀ x, o = .value x →
        evaluate [] (steps.take xs.length ++ s :: rest) = evaluate (xs ++ [x]) rest) ∧
      ∀ f, o = .failed f → evaluate [] (steps.take xs.length ++ s :: rest) = some (.error f) := by
  have first : evaluate [] (steps.take xs.length) = some (.ok xs) := h
  rw [outcomeAt?, first] at next
  cases hs : steps[xs.length]? with
  | none => simp [hs] at next
  | some s =>
    refine ⟨s, rfl, fun rest => ?_⟩
    rw [evaluate_append, first]
    simp only
    rw [evaluate]
    rw [hs] at next
    cases hl : s.left.find? (fun x => x) (recorded xs) with
    | none => simp [hl] at next
    | some a =>
      cases hr : s.right.find? (fun x => x) (recorded xs) with
      | none => simp [hl, hr] at next
      | some b =>
        simp only [hl, hr, Option.some.injEq] at next
        simp only [next]
        constructor
        · rintro x rfl
          rfl
        · rintro f rfl
          rfl

theorem Evaluated.concat (h : Evaluated steps xs) {x : Float}
    (next : outcomeAt? steps xs.length = some (.value x)) : Evaluated steps (xs ++ [x]) := by
  obtain ⟨s, hs, step⟩ := evaluate_append_cons h next
  rw [Evaluated, List.length_append, List.length_singleton, List.take_add_one, hs]
  exact (step []).1 x rfl

/-- A step without a result ends the execution. -/
theorem Evaluated.error (h : Evaluated steps xs) {f : Failure}
    (next : outcomeAt? steps xs.length = some (.failed f)) :
    evaluate [] steps = some (.error f) := by
  obtain ⟨s, hs, step⟩ := evaluate_append_cons h next
  obtain ⟨hlt, hs⟩ := List.getElem?_eq_some_iff.1 hs
  have cut : steps = steps.take xs.length ++ s :: steps.drop (xs.length + 1) := by
    rw [← hs, ← List.drop_eq_getElem_cons hlt, List.take_append_drop]
  rw [cut]
  exact (step _).2 f rfl

theorem Evaluated.all (h : Evaluated steps xs) (all : xs.length = steps.length) :
    evaluate [] steps = some (.ok xs) := by
  rwa [Evaluated, all, List.take_length] at h

/-! ## A reference for every text -/

theorem length_evaluate {ys : List Float} {ss : List Step}
    (h : evaluate xs ss = some (.ok ys)) : ys.length = xs.length + ss.length := by
  induction ss generalizing xs with
  | nil =>
    cases h
    rfl
  | cons s ss ih =>
    rw [evaluate] at h
    split at h
    · split at h
      · rw [ih h, List.length_append, List.length_singleton, List.length_cons]
        omega
      · cases h
    · cases h

/-- Steps that refer backwards are executed without a missing operand. -/
theorem isSome_evaluate (ordered : Ordered steps) (n : Nat) :
    (evaluate [] (steps.take n)).isSome := by
  induction n with
  | zero => rfl
  | succ n ih =>
    rw [List.take_add_one]
    cases hs : steps[n]? with
    | none => simpa using ih
    | some s =>
      obtain ⟨r, hr⟩ := Option.isSome_iff_exists.1 ih
      rw [evaluate_append, hr]
      cases r with
      | error f => rfl
      | ok xs =>
        have length := length_evaluate hr
        have hlt := (List.getElem?_eq_some_iff.1 hs).1
        rw [List.length_take, Nat.min_eq_left (Nat.le_of_lt hlt), List.length_nil,
          Nat.zero_add] at length
        obtain ⟨-, earlier⟩ := ordered n s hs
        rw [← length] at earlier
        obtain ⟨a, ha⟩ := exists_find?_recorded fun d hd => earlier d (List.mem_append_left _ hd)
        obtain ⟨b, hb⟩ := exists_find?_recorded fun d hd => earlier d (List.mem_append_right _ hd)
        simp only [Option.toList_some, evaluate, ha, hb]
        cases s.operation.outcome a b <;> rfl

theorem isSome_reference (text : String) : (reference text).isSome := by
  rw [reference]
  cases hc : Plan.compile text with
  | error fault => rfl
  | ok plan =>
    obtain ⟨ordered, literal⟩ := ordered_of_compile hc
    have some := isSome_evaluate ordered plan.steps.length
    rw [List.take_length] at some
    obtain ⟨r, hr⟩ := Option.isSome_iff_exists.1 some
    simp only [hr]
    cases r with
    | error f => rfl
    | ok xs =>
      have length := length_evaluate hr
      rw [Option.isSome_map, valueOf?]
      by_cases hsteps : plan.steps = []
      · rw [Option.isSome_or, literal hsteps, Bool.or_true]
      · have : xs ≠ [] := by
          rintro rfl
          exact hsteps (List.length_eq_zero_iff.1 (by simpa using length.symm))
        simp [this]

/-! ## Finite numbers -/

theorem isFinite_of_outcome {op : Operation} {a b x : Float} (h : op.outcome a b = .value x) :
    Decimal.isFinite x = true := by
  rw [Operation.outcome, Operation.execute] at h
  split at h
  · next y hy =>
    simp only at hy
    split at hy
    · cases hy
    · split at hy
      · next finite =>
        cases hy
        cases h
        exact finite
      · cases hy
  · cases h

/-- Results of steps are finite. -/
theorem finite_of_evaluate {ys : List Float} {ss : List Step}
    (h : evaluate xs ss = some (.ok ys)) (finite : ∀ x ∈ xs, Decimal.isFinite x = true) :
    ∀ y ∈ ys, Decimal.isFinite y = true := by
  induction ss generalizing xs with
  | nil =>
    cases h
    exact finite
  | cons s ss ih =>
    rw [evaluate] at h
    split at h
    · split at h
      · next x hx =>
        refine ih h fun y hy => ?_
        rcases List.mem_append.1 hy with hy | hy
        · exact finite y hy
        · rw [List.mem_singleton.1 hy]
          exact isFinite_of_outcome hx
      · cases h
    · cases h

theorem isFinite_of_reference {x : Float} (h : reference text = some (.value x)) :
    Decimal.isFinite x = true := by
  rw [reference] at h
  cases hc : Plan.compile text with
  | error fault => simp [hc] at h
  | ok plan =>
    simp only [hc] at h
    split at h
    · next xs hxs =>
      rw [Option.map_eq_some_iff] at h
      obtain ⟨y, hy, h⟩ := h
      obtain rfl : y = x := by simpa using h
      rw [valueOf?, Option.or_eq_some_iff] at hy
      rcases hy with hy | ⟨-, hy⟩
      · exact finite_of_evaluate hxs (by simp) y (List.mem_of_getLast? hy)
      · exact (isFinite_of_compile hc).2 y hy
    · cases h
    · cases h

/-- The operands of a request are finite. -/
theorem finite_of_asks (h : Evaluated (stepsOf (Plan.compile text)) xs) {r : StepRequest}
    (asks : Asks id (stepsOf (Plan.compile text)) xs r) :
    Decimal.isFinite r.left = true ∧ Decimal.isFinite r.right = true := by
  obtain ⟨s, hs, -, -, -, left, right⟩ := asks
  have finite : ∀ x ∈ xs, Decimal.isFinite x = true := finite_of_evaluate h (by simp)
  have operand : ∀ {o : Operand} {x : Float}, o.IsFinite →
      o.find? (fun x => x) (recorded xs) = some x → Decimal.isFinite x = true := by
    intro o x ho hx
    cases o with
    | value y =>
      cases hx
      exact ho
    | result step =>
      have mem : (step, x) ∈ recorded xs := by
        obtain ⟨l₁, l₂, heq, -⟩ := List.lookup_eq_some_iff.1 hx
        rw [heq]
        exact List.mem_append_right _ List.mem_cons_self
      refine finite x ?_
      rw [← map_snd_recorded xs]
      exact List.mem_map_of_mem mem
  cases hc : Plan.compile text with
  | error fault => simp [hc, stepsOf] at hs
  | ok plan =>
    rw [hc] at hs
    obtain ⟨hl, hr⟩ := (isFinite_of_compile hc).1 s (List.mem_of_getElem? hs)
    exact ⟨operand hl left, operand hr right⟩

/-! ## The story leads to the reference -/

/-- An outcome is late, or the given one. -/
def Outcome.LateOr (o : Outcome) (expected : Option Outcome) : Prop :=
  o.IsLate ∨ expected = some o

/-- Events of fair surroundings: an outcome that comes in is late or the step's own, nothing is
failed from outside, and every message is accepted. -/
def Event.Fair (steps : List Step) : Event → Prop
  | took step o => ∃ k : Nat, step = k ∧ o.LateOr (outcomeAt? steps k)
  | aborted _ => False
  | sent _ accepted => accepted = true

/-- Stages on the way to the reference. -/
def Stage.Right (text : String) : Stage → Prop
  | ready xs | waiting xs => Evaluated (stepsOf (Plan.compile text)) xs
  | stuck _ => False
  | failed _ f => (Outcome.failed f).LateOr (reference text)
  | ended _ => True

/-- Messages on the way to the reference. -/
def Sending.Right (settings : Settings) (id text : String) : Sending → Prop
  | request queue r => settings.queueOf? r.operation = some queue ∧
      ∃ xs, Evaluated (stepsOf (Plan.compile text)) xs ∧
        Asks id (stepsOf (Plan.compile text)) xs r
  | response r => r.expressionId = id ∧ r.outcome.LateOr (reference text)

variable {settings : Settings} {a b : Stage} {e : Event} {es : List Event}

theorem reference_of_all {x : Float} (h : Evaluated (stepsOf (Plan.compile text)) xs)
    (all : xs.length = (stepsOf (Plan.compile text)).length)
    (value : valueOf? (literalOf (Plan.compile text)) xs = some x) :
    reference text = some (.value x) := by
  have done := h.all all
  rw [reference]
  cases hc : Plan.compile text with
  | error fault =>
    rw [hc] at all value
    rw [List.eq_nil_of_length_eq_zero all] at value
    cases value
  | ok plan =>
    rw [hc] at done value
    change evaluate [] plan.steps = _ at done
    change valueOf? plan.literal xs = _ at value
    simp only [done, value, Option.map_some]

theorem reference_of_error {f : Failure} (h : Evaluated (stepsOf (Plan.compile text)) xs)
    (next : outcomeAt? (stepsOf (Plan.compile text)) xs.length = some (.failed f)) :
    reference text = some (.failed f) := by
  have error := h.error next
  rw [reference]
  cases hc : Plan.compile text with
  | error fault => simp [hc, stepsOf, evaluate] at error
  | ok plan =>
    rw [hc] at error
    change evaluate [] plan.steps = _ at error
    simp only [error]

theorem right_of_move (mapped : ∀ op, (settings.queueOf? op).isSome)
    (right : a.Right text) (fair : e.Fair (stepsOf (Plan.compile text)))
    (move : Move settings id (Plan.compile text) a e b) :
    b.Right text ∧ ∀ what accepted, e = .sent what accepted → what.Right settings id text := by
  cases move with
  | send asks hq => exact ⟨right, by rintro _ _ ⟨⟩; exact ⟨hq, _, right, asks⟩⟩
  | refuse => cases fair
  | @take xs x =>
    obtain ⟨k, hk, late | expected⟩ := fair
    · exact late.elim
    · obtain rfl : xs.length = k := by omega
      exact ⟨right.concat expected, nofun⟩
  | @takeFailure xs f =>
    obtain ⟨k, hk, late | expected⟩ := fair
    · exact ⟨Or.inl late, nofun⟩
    · obtain rfl : xs.length = k := by omega
      exact ⟨Or.inr (reference_of_error right expected), nofun⟩
  | succeed all value =>
    exact ⟨trivial, by rintro _ _ ⟨⟩; exact ⟨rfl, Or.inr (reference_of_all right all value)⟩⟩
  | unparsed parse =>
    refine ⟨trivial, ?_⟩
    rintro _ _ ⟨⟩
    refine ⟨rfl, Or.inr ?_⟩
    rw [reference, parse]
    rfl
  | @unmapped xs r asks unmapped =>
    have := mapped r.operation
    rw [unmapped] at this
    cases this
  | unpublished => exact right.elim
  | fail => exact ⟨trivial, by rintro _ _ ⟨⟩; exact ⟨rfl, right⟩⟩
  | abort => exact fair.elim

/-- In fair surroundings an expression stays on the way to its reference, and so do its
messages. -/
theorem right_of_moves (mapped : ∀ op, (settings.queueOf? op).isSome) (right : a.Right text)
    (fair : ∀ e ∈ es, e.Fair (stepsOf (Plan.compile text)))
    (moves : Moves settings id (Plan.compile text) a es b) :
    b.Right text ∧ ∀ what accepted, .sent what accepted ∈ es → what.Right settings id text := by
  induction moves with
  | refl => exact ⟨right, by simp⟩
  | concat before move ih =>
    obtain ⟨right, sent⟩ := ih fun e he => fair e (List.mem_append_left _ he)
    obtain ⟨right, last⟩ := right_of_move mapped right
      (fair _ (List.mem_append_right _ (List.mem_singleton_self _))) move
    refine ⟨right, fun what accepted h => ?_⟩
    rcases List.mem_append.1 h with h | h
    · exact sent what accepted h
    · exact last what accepted (List.mem_singleton.1 h).symm

end Stepwise
