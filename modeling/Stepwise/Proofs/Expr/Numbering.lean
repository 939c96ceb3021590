import Stepwise.Proofs.Expr.Meaning
import Stepwise.Proofs.Expr.Scanning

/-!
# The numbering of steps

The steps of a plan are numbered from zero in their order, and a step refers to earlier steps only:
`ordered_of_compile` says so of every text with a plan, be it an infix expression or not, and
`isFinite_of_compile` that the numbers in it are finite.  Results of the first steps, each under the
id of its step, are what `recorded` lists; they resolve both operands of the next step.
-/

namespace Stepwise

open Token

/-! ## Results under their ids -/

/-- The ids of the first steps. -/
def firstIds (n : Nat) : List Int := (List.range n).map Int.ofNat

theorem firstIds_succ (n : Nat) : firstIds (n + 1) = firstIds n ++ [(n : Int)] := by
  rw [firstIds, firstIds, List.range_succ, List.map_append]
  rfl

/-- The results of the steps 0, 1, … with the ids of the steps. -/
def recorded (xs : List Float) : List (Int × Float) :=
  xs.mapIdx fun k x => ((k : Int), x)

@[simp] theorem length_recorded (xs : List Float) : (recorded xs).length = xs.length := by
  simp [recorded]

theorem recorded_concat (xs : List Float) (x : Float) :
    recorded (xs ++ [x]) = recorded xs ++ [((xs.length : Int), x)] := by
  simp [recorded, List.mapIdx_append]

theorem map_fst_recorded (xs : List Float) :
    (recorded xs).map (·.1) = firstIds xs.length := by
  refine List.ext_getElem (by simp [firstIds]) fun k h₁ h₂ => ?_
  simp [recorded, firstIds]

theorem map_snd_recorded (xs : List Float) : (recorded xs).map (·.2) = xs := by
  refine List.ext_getElem (by simp) fun k h₁ h₂ => ?_
  simp [recorded]

theorem lookup_recorded (xs : List Float) (k : Nat) : (recorded xs).lookup (k : Int) = xs[k]? := by
  have shifted : ∀ (n : Nat), (xs.mapIdx fun i x => (((n + i : Nat) : Int), x)).lookup
      ((n + k : Nat) : Int) = xs[k]? := by
    induction xs generalizing k with
    | nil => intro n; rfl
    | cons x xs ih =>
      intro n
      rw [List.mapIdx_cons, List.lookup_cons]
      cases k with
      | zero => simp
      | succ k =>
        have hne : (((n + (k + 1) : Nat) : Int) == ((n + 0 : Nat) : Int)) = false := by
          rw [beq_eq_false_iff_ne]
          omega
        have := ih k (n + 1)
        rw [hne, List.getElem?_cons_succ, ← this]
        simp only [Nat.add_assoc, Nat.add_comm 1]
  simpa [recorded] using shifted 0

/-- An operand is there once all steps that it refers to have a result. -/
theorem exists_find?_recorded {o : Operand} {xs : List Float}
    (earlier : ∀ d ∈ o.dependencies, 0 ≤ d ∧ d < xs.length) :
    ∃ x, o.find? (fun x => x) (recorded xs) = some x := by
  cases o with
  | value x => exact ⟨x, rfl⟩
  | result step =>
    have := earlier step (by simp [Operand.dependencies])
    obtain ⟨k, rfl⟩ := Int.eq_ofNat_of_zero_le this.1
    have hk : k < xs.length := by omega
    exact ⟨xs[k], by rw [Operand.find?, lookup_recorded, List.getElem?_eq_getElem hk]⟩

/-! ## Backward references -/

/-- The steps are numbered from zero, and each refers to earlier ones only. -/
def Ordered (steps : List Step) : Prop :=
  ∀ (k : Nat) (step : Step), steps[k]? = some step →
    step.id = k ∧ ∀ d ∈ step.dependencies, 0 ≤ d ∧ d < k

theorem ordered_nil : Ordered [] := by
  intro k step h
  simp at h

theorem Ordered.concat {steps : List Step} (h : Ordered steps) {step : Step}
    (id : step.id = steps.length) (earlier : ∀ d ∈ step.dependencies, 0 ≤ d ∧ d < steps.length) :
    Ordered (steps ++ [step]) := by
  intro k s hs
  rcases Nat.lt_trichotomy k steps.length with hk | rfl | hk
  · rw [List.getElem?_append_left hk] at hs
    exact h k s hs
  · rw [List.getElem?_concat_length] at hs
    cases hs
    exact ⟨id, earlier⟩
  · rw [List.getElem?_eq_none (by simp; omega)] at hs
    cases hs

/-- Postfix tokens append ordered steps, whose ids are all that the operands refer to. -/
theorem ordered_of_run {steps : List Step} {stack : List Operand} {ts : List Token}
    {r : List Step × List Operand} (ordered : Ordered steps)
    (earlier : ∀ o ∈ stack, ∀ d ∈ o.dependencies, 0 ≤ d ∧ d < steps.length)
    (h : Plan.run steps stack ts = .ok r) :
    Ordered r.1 ∧ ∀ o ∈ r.2, ∀ d ∈ o.dependencies, 0 ≤ d ∧ d < r.1.length := by
  induction ts generalizing steps stack with
  | nil =>
    cases h
    exact ⟨ordered, earlier⟩
  | cons t ts ih =>
    rw [Plan.run.eq_def] at h
    simp only at h
    split at h
    · split at h
      · cases h
      · refine ih ordered ?_ h
        intro o ho d hd
        rcases List.mem_cons.1 ho with rfl | ho
        · simp [Operand.dependencies] at hd
        · exact earlier o ho d hd
    · split at h
      · rename_i right left below
        split at h
        · cases h
        · rename_i op hop
          have both : ∀ d ∈ (⟨steps.length, op, left, right⟩ : Step).dependencies,
              0 ≤ d ∧ d < steps.length := by
            intro d hd
            rcases List.mem_append.1 hd with hd | hd
            · exact earlier left (by simp) d hd
            · exact earlier right (by simp) d hd
          refine ih (ordered.concat rfl both) ?_ h
          intro o ho d hd
          rw [List.length_append, List.length_singleton]
          rcases List.mem_cons.1 ho with rfl | ho
          · rw [Operand.dependencies, List.mem_singleton] at hd
            omega
          · have := earlier o (by simp [ho]) d hd
            omega
      · cases h

/-! ## Finite numbers -/

theorem number_ok_iff {text : String} {x : Float} :
    Plan.number text = .ok x ↔
      Decimal.ofText? text.toList = some x ∧ Decimal.isFinite x = true := by
  rw [Plan.number]
  cases Decimal.ofText? text.toList with
  | none => simp
  | some y =>
    simp only [Option.some.injEq]
    split
    · rename_i hy
      constructor
      · rintro ⟨⟩
        exact ⟨rfl, hy⟩
      · rintro ⟨rfl, -⟩
        rfl
    · rename_i hy
      constructor
      · rintro ⟨⟩
      · rintro ⟨rfl, hx⟩
        exact absurd hx hy

/-- A number in an operand is finite. -/
def Operand.IsFinite : Operand → Prop
  | value x => Decimal.isFinite x = true
  | result _ => True

/-- Postfix tokens yield operands with finite numbers. -/
theorem finite_of_run {steps : List Step} {stack : List Operand} {ts : List Token}
    {r : List Step × List Operand} (hsteps : ∀ s ∈ steps, s.left.IsFinite ∧ s.right.IsFinite)
    (hstack : ∀ o ∈ stack, o.IsFinite) (h : Plan.run steps stack ts = .ok r) :
    (∀ s ∈ r.1, s.left.IsFinite ∧ s.right.IsFinite) ∧ ∀ o ∈ r.2, o.IsFinite := by
  induction ts generalizing steps stack with
  | nil =>
    cases h
    exact ⟨hsteps, hstack⟩
  | cons t ts ih =>
    rw [Plan.run.eq_def] at h
    simp only at h
    split at h
    · split at h
      · cases h
      · next x hx =>
        have pushed : ∀ o ∈ Operand.value x :: stack, o.IsFinite :=
          List.forall_mem_cons.2 ⟨(number_ok_iff.1 hx).2, hstack⟩
        exact ih hsteps pushed h
    · split at h
      · next right left below =>
        split at h
        · cases h
        · rw [List.forall_mem_cons, List.forall_mem_cons] at hstack
          have pushed : ∀ o ∈ Operand.result steps.length :: below, o.IsFinite :=
            List.forall_mem_cons.2 ⟨trivial, hstack.2.2⟩
          refine ih (fun s hs => ?_) pushed h
          rcases List.mem_append.1 hs with hs | hs
          · exact hsteps s hs
          · rw [List.mem_singleton.1 hs]
            exact ⟨hstack.2.1, hstack.1⟩
      · cases h

/-! ## Compiling -/

/-- Tokens have steps if they leave one operand on the stack. -/
theorem ofPostfix_ok_iff {ts : List Token} {r : List Step × Operand} :
    Plan.ofPostfix ts = .ok r ↔ Plan.run [] [] ts = .ok (r.1, [r.2]) := by
  rw [Plan.ofPostfix]
  rcases Plan.run [] [] ts with fault | ⟨steps, _ | ⟨o, _ | ⟨p, rest⟩⟩⟩
  · simp
  · simp
  · simp [Prod.ext_iff]
  · simp

/-- What a text with a plan goes through. -/
theorem compile_ok {text : String} {plan : Plan} (h : Plan.compile text = .ok plan) :
    ∃ ts out final, tokenize text = .ok ts ∧ toPostfix ts = .ok out ∧
      Plan.ofPostfix out = .ok (plan.steps, final) ∧
      plan = ⟨text, out, plan.steps, final.literal?⟩ := by
  cases ht : tokenize text with
  | error stray =>
    rw [compile_of_stray ht] at h
    cases h
  | ok ts =>
    rw [compile_of_tokenize ht] at h
    obtain ⟨out, hp, hr⟩ := exists_of_bind_ok h
    obtain ⟨⟨steps, final⟩, hf, rfl⟩ := exists_of_map_ok hr
    exact ⟨ts, out, final, rfl, hp, hf, rfl⟩

/-- The steps of a plan are ordered, and a plan without steps has a literal. -/
theorem ordered_of_compile {text : String} {plan : Plan} (h : Plan.compile text = .ok plan) :
    Ordered plan.steps ∧ (plan.steps = [] → plan.literal.isSome) := by
  obtain ⟨ts, out, final, -, -, hf, hp⟩ := compile_ok h
  obtain ⟨ordered, earlier⟩ := ordered_of_run ordered_nil (by simp) (ofPostfix_ok_iff.1 hf)
  refine ⟨ordered, fun none => ?_⟩
  rw [hp]
  cases final with
  | value x => rfl
  | result step =>
    have := earlier _ (List.mem_singleton_self _) step (by simp [Operand.dependencies])
    simp only [none, List.length_nil] at this
    omega

/-- The numbers in a plan are finite. -/
theorem isFinite_of_compile {text : String} {plan : Plan} (h : Plan.compile text = .ok plan) :
    (∀ s ∈ plan.steps, s.left.IsFinite ∧ s.right.IsFinite) ∧
      ∀ x, plan.literal = some x → Decimal.isFinite x = true := by
  obtain ⟨ts, out, final, -, -, hf, hp⟩ := compile_ok h
  obtain ⟨hsteps, hstack⟩ := finite_of_run (by simp) (by simp) (ofPostfix_ok_iff.1 hf)
  refine ⟨hsteps, fun x hx => ?_⟩
  rw [hp] at hx
  cases final with
  | value y =>
    cases hx
    exact hstack _ (List.mem_singleton_self _)
  | result step => cases hx

end Stepwise
