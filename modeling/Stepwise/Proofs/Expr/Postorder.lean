import Mathlib.Data.List.Induction
import Mathlib.Data.List.Nodup
import Stepwise.Proofs.Expr.Acceptance

/-!
# Postfix tokens and their steps

`depth` is the number of operands that postfix tokens leave on the stack.  Tokens that find two
operands before each operator are the post-orders of some formulas, one after the other
(`exists_forest`), so they have steps exactly if they are the post-order of one formula with finite
numbers (`ofPostfix_ok_iff_postorder`).  The steps lose nothing of it: `Expands` replaces the
references in an operand by the steps they refer to, and the main result, `unfolds_or_malformed`,
says that this leads back to the tokens.
-/

namespace Stepwise

open Token

/-- The numbers among tokens less the operators. -/
def Token.depth (ts : List Token) : Int :=
  ts.countP (·.kind == .number) - ts.countP (·.kind == .operator)

/-- What a token stands for: a number or an operation. -/
def Token.symbol? (t : Token) : Option (Float ⊕ Operation) :=
  match t.kind with
  | .number => (Decimal.ofText? t.text.toList).map .inl
  | .operator => (Operation.ofSymbol? t.text).map .inr
  | _ => none

/-- A value as a tree of operations on numbers. -/
inductive Expansion where
  | number (x : Float)
  | node (op : Operation) (left right : Expansion)

/-- The numbers and operations of an expansion, every operation after its operands. -/
def Expansion.postorder : Expansion → List (Float ⊕ Operation)
  | number x => [.inl x]
  | node op l r => l.postorder ++ r.postorder ++ [.inr op]

/-- What becomes of an operand when references are replaced by the steps that they refer to. -/
inductive Expands (steps : List Step) : Operand → Expansion → Prop
  | value (x) : Expands steps (.value x) (.number x)
  | result {step l r} : step ∈ steps → Expands steps step.left l → Expands steps step.right r →
      Expands steps (.result step.id) (.node step.operation l r)

/-- Steps and a final operand that hold all of some postfix tokens. -/
structure Unfolds (ts : List Token) (steps : List Step) (final : Operand) : Prop where
  ids : steps.map (·.id) = firstIds steps.length
  operations : steps.map (·.operation.token) = ts.filter (·.kind == .operator)
  backward : ∀ step ∈ steps, ∀ d ∈ step.dependencies, 0 ≤ d ∧ d < step.id
  /-- Every step but the last is referred to once, and the last is not. -/
  once : (steps.flatMap Step.dependencies).Perm (firstIds (steps.length - 1))
  last : (∃ x, steps = [] ∧ final = .value x) ∨
    ∃ k : Nat, steps.length = k + 1 ∧ final = .result k
  expansion : ∃ e, (∀ e', Expands steps final e' ↔ e' = e) ∧
    e.postorder.map some = ts.map symbol?

/-! ## Forests -/

@[simp] theorem depth_nil : depth [] = 0 := rfl

theorem depth_append (ts us : List Token) : depth (ts ++ us) = depth ts + depth us := by
  simp only [depth, List.countP_append, Nat.cast_add]
  omega

theorem depth_ofNumber (text : String) : depth [ofNumber text] = 1 := rfl

theorem depth_operator (op : Operation) : depth [op.token] = -1 := rfl

theorem exists_eq_append_pair {α : Type} {xs : List α} (h : 2 ≤ xs.length) :
    ∃ ys x y, xs = ys ++ [x, y] := by
  rcases xs.eq_nil_or_concat with rfl | ⟨ys, y, rfl⟩
  · simp at h
  · rcases ys.eq_nil_or_concat with rfl | ⟨zs, x, rfl⟩
    · simp at h
    · exact ⟨zs, x, y, by simp⟩

/-- Tokens that find two operands before each operator are post-orders of formulas. -/
theorem exists_forest {ts : List Token} (sent : ∀ t ∈ ts, Sent t)
    (pairs : ∀ us op rest, ts = us ++ Operation.token op :: rest → 2 ≤ depth us) :
    ∃ fs : List Formula, ts = fs.flatMap Formula.postorder ∧ (fs.length : Int) = depth ts := by
  -- The last token closes the formulas in front of it, so the induction takes tokens off the end.
  induction ts using List.reverseRecOn with
  | nil => exact ⟨[], rfl, rfl⟩
  | append_singleton ts t ih =>
    obtain ⟨fs, hts, hl⟩ := ih (fun u hu => sent u (List.mem_append_left _ hu))
      fun us op rest h => pairs us op (rest ++ [t]) (by rw [h, List.append_assoc, List.cons_append])
    rcases sent t (by simp) with ⟨op, rfl⟩ | ⟨text, rfl, -⟩
    · have two := pairs ts op [] rfl
      have two : 2 ≤ fs.length := by omega
      obtain ⟨gs, l, r, rfl⟩ := exists_eq_append_pair two
      refine ⟨gs ++ [.node op l r], ?_, ?_⟩
      · rw [hts]
        simp [Formula.postorder]
      · rw [depth_append, depth_operator, ← hl, List.length_append, List.length_append]
        simp only [List.length_cons, List.length_nil]
        omega
    · refine ⟨fs ++ [.number text], ?_, ?_⟩
      · rw [List.flatMap_append, ← hts]
        rfl
      · rw [depth_append, depth_ofNumber, ← hl, List.length_append]
        rfl

/-! ## Depths -/

theorem run_append (steps : List Step) (stack : List Operand) (ts us : List Token) :
    Plan.run steps stack (ts ++ us) =
      (Plan.run steps stack ts).bind fun r => Plan.run r.1 r.2 us := by
  induction ts generalizing steps stack with
  | nil => rfl
  | cons t ts ih =>
    rw [List.cons_append, Plan.run.eq_def, Plan.run.eq_def]
    simp only
    split
    · split
      · rfl
      · exact ih _ _
    · split
      · split
        · rfl
        · exact ih _ _
      · rfl

/-- The stack after some tokens is as high as their depth. -/
theorem depth_of_run {steps : List Step} {stack : List Operand} {ts : List Token}
    {r : List Step × List Operand} (sent : ∀ t ∈ ts, Sent t) (h : Plan.run steps stack ts = .ok r) :
    (r.2.length : Int) = stack.length + depth ts := by
  induction ts generalizing steps stack with
  | nil =>
    cases h
    simp
  | cons t ts ih =>
    have ih := fun steps stack => @ih steps stack fun t ht => sent t (List.mem_cons_of_mem _ ht)
    rw [← List.singleton_append, depth_append]
    rcases sent t List.mem_cons_self with ⟨op, rfl⟩ | ⟨text, rfl, -⟩
    · rcases stack with _ | ⟨right, _ | ⟨left, below⟩⟩
      · cases h
      · cases h
      · rw [run_operator] at h
        rw [ih _ _ h, depth_operator, List.length_cons, List.length_cons, List.length_cons]
        omega
    · obtain ⟨x, hx⟩ := number_of_run h text List.mem_cons_self
      rw [run_number hx] at h
      rw [ih _ _ h, depth_ofNumber, List.length_cons]
      omega

/-- Tokens that make steps find two operands before each operator. -/
theorem pairs_of_run {ts : List Token} {r : List Step × List Operand} (sent : ∀ t ∈ ts, Sent t)
    (h : Plan.run [] [] ts = .ok r) (us : List Token) (op : Operation) (rest : List Token)
    (hts : ts = us ++ op.token :: rest) : 2 ≤ depth us := by
  subst hts
  rw [run_append] at h
  obtain ⟨⟨steps, stack⟩, hu, ht⟩ := exists_of_bind_ok h
  have count := depth_of_run (fun t ht => sent t (List.mem_append_left _ ht)) hu
  rcases stack with _ | ⟨right, _ | ⟨left, below⟩⟩
  · cases ht
  · cases ht
  · simp only [List.length_cons, List.length_nil] at count
    omega

/-- Tokens that leave one operand are the post-order of one formula. -/
theorem exists_postorder {ts : List Token} (sent : ∀ t ∈ ts, Sent t)
    (pairs : ∀ us op rest, ts = us ++ Operation.token op :: rest → 2 ≤ depth us)
    (one : depth ts = 1) : ∃ f : Formula, ts = f.postorder := by
  obtain ⟨fs, hts, hl⟩ := exists_forest sent pairs
  obtain ⟨f, rfl⟩ := List.length_eq_one_iff.1 (by omega : fs.length = 1)
  exact ⟨f, by rw [hts, List.flatMap_singleton]⟩

theorem depth_of_ofPostfix {ts : List Token} {r : List Step × Operand} (sent : ∀ t ∈ ts, Sent t)
    (h : Plan.ofPostfix ts = .ok r) : depth ts = 1 := by
  have count := depth_of_run sent (ofPostfix_ok_iff.1 h)
  simp only [List.length_cons, List.length_nil] at count
  omega

/-- Tokens have steps exactly if they are the post-order of a formula with finite numbers. -/
theorem ofPostfix_ok_iff_postorder {ts : List Token} {r : List Step × Operand}
    (sent : ∀ t ∈ ts, Sent t) :
    Plan.ofPostfix ts = .ok r ↔ ∃ (f : Formula) (value : String → Float), ts = f.postorder ∧
      (∀ text ∈ f.numbers, Plan.number text = .ok (value text)) ∧ r = f.steps value 0 := by
  constructor
  · intro h
    have hr := ofPostfix_ok_iff.1 h
    obtain ⟨f, rfl⟩ := exists_postorder sent (pairs_of_run sent hr) (depth_of_ofPostfix sent h)
    have finite : ∀ text ∈ f.numbers, ∃ x, Plan.number text = .ok x := fun text ht =>
      number_of_run hr text (Formula.ofNumber_mem_postorder.2 ht)
    choose! value finite using finite
    exact ⟨f, value, rfl, finite, Except.ok.inj (h.symm.trans (ofPostfix_postorder f finite))⟩
  · rintro ⟨f, value, rfl, finite, rfl⟩
    exact ofPostfix_postorder f finite

/-! ## The steps of a formula -/

namespace Formula

variable {value : String → Float}

theorem operators_postorder (f : Formula) :
    f.postorder.filter (·.kind == .operator) = f.operations.map Operation.token := by
  induction f with
  | number text => rfl
  | node op l r ihl ihr =>
    rw [postorder, operations, List.filter_append, List.filter_append, ihl, ihr, List.map_append,
      List.map_append]
    rfl

/-- Every step of a formula is referred to once, by another step or as the value of the whole. -/
theorem perm_dependencies (value : String → Float) (f : Formula) (first : Nat) :
    ((f.steps value first).1.flatMap Step.dependencies ++
      (f.steps value first).2.dependencies).Perm
      ((List.range' first f.operations.length).map Int.ofNat) := by
  induction f generalizing first with
  | number text => exact List.Perm.refl _
  | node op l r ihl ihr =>
    have left := ihl first
    have right := ihr (first + l.operations.length)
    have swap : ∀ a b c d : List Int, (a ++ c ++ (b ++ d)).Perm (a ++ b ++ (c ++ d)) := by
      intro a b c d
      simpa only [List.append_assoc] using (List.perm_append_comm_assoc c b d).append_left a
    have own : (List.range' first (l.operations.length + r.operations.length + 1)).map Int.ofNat =
        (List.range' first l.operations.length).map Int.ofNat ++
          (List.range' (first + l.operations.length) r.operations.length).map Int.ofNat ++
          [((first + l.operations.length + r.operations.length : Nat) : Int)] := by
      rw [← List.range'_append_1, ← List.range'_append_1, List.map_append, List.map_append,
        Nat.add_assoc]
      rfl
    simp only [steps, operations, length_steps, List.flatMap_append, List.flatMap_singleton,
      List.length_append, List.length_singleton, own]
    exact ((swap _ _ _ _).trans (left.append right)).append_right _

theorem steps_last {f : Formula} {k : Nat} (h : f.operations.length = k + 1) :
    (f.steps value 0).2 = .result k := by
  cases f with
  | number text => cases h
  | node op l r =>
    simp only [operations, List.length_append, List.length_singleton, Nat.add_right_cancel_iff] at h
    simp only [steps, length_steps, ← h, Nat.zero_add]

/-- Every step but the last is referred to once by another step, and the last is not. -/
theorem perm_references {f : Formula} {k : Nat} (h : f.operations.length = k + 1) :
    ((f.steps value 0).1.flatMap Step.dependencies).Perm (firstIds k) := by
  have all := f.perm_dependencies value 0
  rw [h, ← List.range_eq_range', ← firstIds, firstIds_succ, steps_last h] at all
  exact (List.perm_append_right_iff _).1 all

/-- A formula as a tree of operations on the values of its numbers. -/
def expansion (value : String → Float) (f : Formula) : Expansion :=
  f.eval (fun text => .number (value text)) .node

theorem postorder_expansion (f : Formula)
    (finite : ∀ text ∈ f.numbers, Plan.number text = .ok (value text)) :
    (f.expansion value).postorder.map some = f.postorder.map symbol? := by
  induction f with
  | number text =>
    have read := (number_ok_iff.1 (finite text (List.mem_singleton_self _))).1
    have symbol : symbol? (ofNumber text) = (Decimal.ofText? text.toList).map .inl := rfl
    rw [postorder, List.map_singleton, symbol, read]
    rfl
  | node op l r ihl ihr =>
    have symbol : symbol? op.token = (Operation.ofSymbol? op.symbol).map .inr := rfl
    rw [postorder, List.map_append, List.map_append,
      ← ihl fun text ht => finite text (List.mem_append_left _ ht),
      ← ihr fun text ht => finite text (List.mem_append_right _ ht), List.map_singleton, symbol,
      Operation.ofSymbol?_symbol, ← List.map_append]
    exact List.map_append

theorem expands_steps (f : Formula) (first : Nat) {steps : List Step}
    (sub : (f.steps value first).1 ⊆ steps) :
    Expands steps (f.steps value first).2 (f.expansion value) := by
  induction f generalizing first with
  | number text => exact .value _
  | node op l r ihl ihr =>
    simp only [Formula.steps, List.append_subset] at sub
    exact .result (sub.2 (List.mem_singleton_self _)) (ihl _ sub.1.1) (ihr _ sub.1.2)

end Formula

/-- An operand stands for one tree if the ids of the steps differ. -/
theorem Expands.unique {steps : List Step} (distinct : (steps.map (·.id)).Nodup) {o : Operand}
    {e e' : Expansion} (h : Expands steps o e) (h' : Expands steps o e') : e = e' := by
  induction h generalizing e' with
  | value x =>
    cases h'
    rfl
  | @result step l r hs _ _ ihl ihr =>
    generalize ho : Operand.result step.id = o at h'
    cases h' with
    | value x => cases ho
    | @result step' l' r' hs' hl' hr' =>
      obtain rfl : step = step' := List.inj_on_of_nodup_map distinct hs hs' (Operand.result.inj ho)
      rw [ihl hl', ihr hr']

theorem unfolds_of_formula (f : Formula) {value : String → Float}
    (finite : ∀ text ∈ f.numbers, Plan.number text = .ok (value text)) :
    Unfolds f.postorder (f.steps value 0).1 (f.steps value 0).2 := by
  have ids : (f.steps value 0).1.map (·.id) = firstIds (f.steps value 0).1.length := by
    rw [f.steps_ids 0, f.length_steps, firstIds, List.range_eq_range']
  have distinct : ((f.steps value 0).1.map (·.id)).Nodup := by
    rw [ids, firstIds]
    exact List.nodup_range.map fun _ _ h => Int.ofNat.inj h
  refine ⟨ids, ?_, ?_, ?_, ?_, f.expansion value, fun e => ⟨fun h => ?_, ?_⟩,
    f.postorder_expansion finite⟩
  · rw [f.operators_postorder, ← f.steps_operations 0, List.map_map]
    rfl
  · intro step hs d hd
    obtain ⟨k, hk⟩ := List.mem_iff_getElem?.1 hs
    have run := ofPostfix_ok_iff.1 (ofPostfix_postorder f finite)
    obtain ⟨hid, earlier⟩ := (ordered_of_run ordered_nil (by simp) run).1 k step hk
    rw [hid]
    exact earlier d hd
  · cases hn : f.operations.length with
    | zero =>
      obtain ⟨text, rfl⟩ := Formula.eq_number_of_operations_eq_nil (List.length_eq_zero_iff.1 hn)
      exact List.Perm.refl _
    | succ k =>
      rw [f.length_steps, hn]
      exact Formula.perm_references hn
  · cases hn : f.operations.length with
    | zero =>
      obtain ⟨text, rfl⟩ := Formula.eq_number_of_operations_eq_nil (List.length_eq_zero_iff.1 hn)
      exact Or.inl ⟨value text, rfl, rfl⟩
    | succ k => exact Or.inr ⟨k, by rw [f.length_steps, hn], Formula.steps_last hn⟩
  · exact h.unique distinct (f.expands_steps 0 fun _ h => h)
  · rintro rfl
    exact f.expands_steps 0 fun _ h => h

theorem ofPostfix_eq_empty_iff {ts : List Token} (sent : ∀ t ∈ ts, Sent t) :
    Plan.ofPostfix ts = .error .empty ↔ ts = [] := by
  constructor
  · intro h
    rw [Plan.ofPostfix] at h
    split at h
    · rename_i hr
      cases h
      exact absurd (run_error sent hr) id
    · rename_i steps hr
      obtain ⟨fs, hts, hl⟩ := exists_forest sent (pairs_of_run sent hr)
      have count := depth_of_run sent hr
      simp only [List.length_nil] at count
      obtain rfl : fs = [] := List.length_eq_zero_iff.1 (by omega)
      exact hts
    · cases h
    · cases h
  · rintro rfl
    rfl

/-- Tokens have steps exactly if their numbers are finite, each operator finds two operands and one
is left.  Otherwise they are none at all or malformed.  The steps lose nothing of the tokens: they
unfold to them again. -/
theorem unfolds_or_malformed {ts : List Token} (sent : ∀ t ∈ ts, Sent t) :
    ((∃ steps final, Plan.ofPostfix ts = .ok (steps, final)) ↔
      (∀ text, ofNumber text ∈ ts →
        ∃ x, Decimal.ofText? text.toList = some x ∧ Decimal.isFinite x = true) ∧
      (∀ us op rest, ts = us ++ Operation.token op :: rest → 2 ≤ depth us) ∧ depth ts = 1) ∧
    (Plan.ofPostfix ts = .error .empty ↔ ts = []) ∧
    (∀ fault, Plan.ofPostfix ts = .error fault → fault = .empty ∨ fault.Malformed) ∧
    ∀ steps final, Plan.ofPostfix ts = .ok (steps, final) → Unfolds ts steps final := by
  refine ⟨⟨?_, ?_⟩, ofPostfix_eq_empty_iff sent, fun fault => ofPostfix_error sent, ?_⟩
  · rintro ⟨steps, final, h⟩
    have hr := ofPostfix_ok_iff.1 h
    refine ⟨fun text ht => ?_, pairs_of_run sent hr, depth_of_ofPostfix sent h⟩
    obtain ⟨x, hx⟩ := number_of_run hr text ht
    exact ⟨x, number_ok_iff.1 hx⟩
  · rintro ⟨finite, pairs, one⟩
    obtain ⟨f, rfl⟩ := exists_postorder sent pairs one
    have finite : ∀ text ∈ f.numbers, ∃ x, Plan.number text = .ok x := fun text ht =>
      (finite text (Formula.ofNumber_mem_postorder.2 ht)).imp fun _ => number_ok_iff.2
    choose! value finite using finite
    exact ⟨_, _, ofPostfix_postorder f finite⟩
  · intro steps final h
    obtain ⟨f, value, rfl, finite, same⟩ := (ofPostfix_ok_iff_postorder sent).1 h
    have := unfolds_of_formula f finite
    rwa [← same] at this

/-- The steps of `2-3*4` hold all of it. -/
theorem unfolds_of_two_minus_product :
    let ts := [ofNumber "2", ofNumber "3", ofNumber "4", Operation.multiply.token,
      Operation.subtract.token]
    (∀ t ∈ ts, Sent t) ∧ ∃ steps final, Plan.ofPostfix ts = .ok (steps, final) ∧
      steps.length = 2 ∧ Unfolds ts steps final := by
  intro ts
  have scanned : tokenize "2-3*4" = .ok [ofNumber "2", Operation.subtract.token, ofNumber "3",
      Operation.multiply.token, ofNumber "4"] := by
    decide +kernel
  have sent : ∀ t ∈ ts, Sent t :=
    sent_of_toPostfix scanned (by decide +kernel)
  have ok : (Plan.ofPostfix ts).isOk = true := by decide +kernel
  cases h : Plan.ofPostfix ts with
  | error fault =>
    rw [h] at ok
    cases ok
  | ok r =>
    have unfolds := (unfolds_or_malformed sent).2.2.2 r.1 r.2 h
    have count := congrArg List.length unfolds.operations
    rw [List.length_map] at count
    exact ⟨sent, r.1, r.2, rfl, count, unfolds⟩

end Stepwise
