import Stepwise.Proofs.Expr.Numbering
import Stepwise.Proofs.Expr.Reordering

/-!
# What the compiler accepts

`compile` checks the balance of the parentheses and the depth of the stack of operands, but not
that the tokens alternate.  A text with numbers or parentheses side by side can therefore have a
plan although its tokens are no infix expression, and `1(2)+` has one.  The main result,
`infix_or_fault_iff`, says that this is the only way: a text is an infix expression or has a fault
exactly when it has no plan or its tokens alternate.
-/

namespace Stepwise

open Token

/-- A fault that a text can have.  The others come from token lists that no text yields. -/
def CompileFault.Genuine : CompileFault → Prop
  | .unknownOperator _ | .notANumber _ => False
  | _ => True

/-- A fault of tokens whose post-order is not that of one expression, or of a number that is too
large. -/
def CompileFault.Malformed : CompileFault → Prop
  | .missingOperand _ | .outOfRange _ | .leftOver _ => True
  | _ => False

theorem CompileFault.Malformed.genuine {fault : CompileFault} (h : fault.Malformed) :
    fault.Genuine := by
  cases fault <;> trivial

/-- A token that is sent out: an operator, or a number that can be read. -/
def Token.Sent (t : Token) : Prop :=
  (∃ op : Operation, t = op.token) ∨ ∃ text, t = ofNumber text ∧ Numeral text.toList

/-! ## Reordering -/

/-- What reordering sends out of a text are operators and numbers. -/
theorem sent_of_toPostfix {text : String} {ts out : List Token} (ht : tokenize text = .ok ts)
    (h : toPostfix ts = .ok out) : ∀ t ∈ out, Sent t := by
  intro t sent
  obtain ⟨mem, solid⟩ := List.mem_filter.1 ((perm_of_toPostfix h).mem_iff.1 sent)
  obtain ⟨proper, numeral⟩ := scanned_of_tokenize ht t mem
  cases proper with
  | number text => exact Or.inr ⟨text, rfl, numeral rfl⟩
  | operator op => exact Or.inl ⟨op, rfl⟩
  | opening | closing => cases solid

/-! ## Running -/

/-- Every number among tokens that make steps is finite. -/
theorem number_of_run {steps : List Step} {stack : List Operand} {ts : List Token}
    {r : List Step × List Operand} (h : Plan.run steps stack ts = .ok r) :
    ∀ text, ofNumber text ∈ ts → ∃ x, Plan.number text = .ok x := by
  induction ts generalizing steps stack with
  | nil => simp
  | cons t ts ih =>
    intro text ht
    rw [Plan.run.eq_def] at h
    simp only at h
    split at h
    · split at h
      · cases h
      · rename_i x hx
        rcases List.mem_cons.1 ht with rfl | ht
        · exact ⟨x, hx⟩
        · exact ih h text ht
    · rename_i hk
      have ht : ofNumber text ∈ ts := by
        rcases List.mem_cons.1 ht with rfl | ht
        · exact absurd rfl hk
        · exact ht
      split at h
      · split at h
        · cases h
        · exact ih h text ht
      · cases h

theorem number_error {text : String} {fault : CompileFault} (numeral : Numeral text.toList)
    (h : Plan.number text = .error fault) : fault.Malformed := by
  obtain ⟨x, hx⟩ := exists_ofText?_of_numeral numeral
  rw [Plan.number, hx] at h
  simp only at h
  split at h
  · cases h
  · cases h
    trivial

theorem run_error {steps : List Step} {stack : List Operand} {ts : List Token}
    {fault : CompileFault} (sent : ∀ t ∈ ts, Sent t) (h : Plan.run steps stack ts = .error fault) :
    fault.Malformed := by
  induction ts generalizing steps stack with
  | nil => cases h
  | cons t ts ih =>
    have ih := fun steps stack => @ih steps stack fun t ht => sent t (List.mem_cons_of_mem _ ht)
    rcases sent t List.mem_cons_self with ⟨op, rfl⟩ | ⟨text, rfl, numeral⟩
    · rcases stack with _ | ⟨right, _ | ⟨left, below⟩⟩
      · cases h
        trivial
      · cases h
        trivial
      · rw [run_operator] at h
        exact ih _ _ h
    · cases hn : Plan.number text with
      | error f =>
        rw [Plan.run.eq_def] at h
        have hk : (ofNumber text).kind == .number := rfl
        have ht : (ofNumber text).text = text := rfl
        simp only [hk, ht, hn, if_true] at h
        cases h
        exact number_error numeral hn
      | ok x =>
        rw [run_number hn] at h
        exact ih _ _ h

theorem ofPostfix_error {ts : List Token} {fault : CompileFault} (sent : ∀ t ∈ ts, Sent t)
    (h : Plan.ofPostfix ts = .error fault) : fault = .empty ∨ fault.Malformed := by
  rw [Plan.ofPostfix] at h
  split at h
  · rename_i hr
    cases h
    exact Or.inr (run_error sent hr)
  · cases h
    exact Or.inl rfl
  · cases h
  · cases h
    exact Or.inr trivial

/-! ## How many steps -/

theorem length_of_scan {position : Nat} {cs : List Char} {ts : List Token}
    (h : scan position cs = .ok ts) : ts.length ≤ cs.length := by
  fun_induction scan position cs generalizing ts with
  | case1 =>
    cases h
    exact Nat.le_refl _
  | case2 => cases h
  | case3 position c rest _ _ kind hk ih =>
    obtain ⟨us, hs, rfl⟩ := exists_of_map_ok h
    exact Nat.succ_le_succ (ih hs)
  | case4 position c rest d number after hsplit ih =>
    obtain ⟨us, hs, rfl⟩ := exists_of_map_ok h
    have parts := congrArg List.length (splitNumber_append (c :: rest))
    rw [hsplit] at parts
    simp only [List.length_append, List.length_cons] at parts ⊢
    have := ih hs
    omega

theorem length_of_run {steps : List Step} {stack : List Operand} {ts : List Token}
    {r : List Step × List Operand} (h : Plan.run steps stack ts = .ok r) :
    r.1.length ≤ steps.length + ts.length := by
  induction ts generalizing steps stack with
  | nil =>
    cases h
    exact Nat.le_refl _
  | cons t ts ih =>
    rw [Plan.run.eq_def] at h
    simp only at h
    rw [List.length_cons]
    split at h
    · split at h
      · cases h
      · have := ih h
        omega
    · split at h
      · split at h
        · cases h
        · have := ih h
          rw [List.length_append, List.length_singleton] at this
          omega
      · cases h

/-- A text has no more steps than characters. -/
theorem length_steps_le {text : String} {plan : Plan} (h : Plan.compile text = .ok plan) :
    plan.steps.length ≤ text.length := by
  obtain ⟨ts, out, final, ht, hp, hf, -⟩ := compile_ok h
  have tokens : ts.length ≤ text.length := by
    refine (length_of_scan ht).trans ?_
    rw [← String.length_toList]
    exact List.length_filter_le _ _
  have sent : out.length ≤ ts.length := by
    rw [(perm_of_toPostfix hp).length_eq]
    exact List.length_filter_le _ _
  have made := length_of_run (ofPostfix_ok_iff.1 hf)
  simp only [List.length_nil, Nat.zero_add] at made
  exact made.trans (sent.trans tokens)

/-! ## Compiling -/

theorem compile_error_iff {text : String} {ts : List Token} {fault : CompileFault}
    (h : tokenize text = .ok ts) :
    Plan.compile text = .error fault ↔ fault = .unbalanced ∧ ¬ Matched ts ∨
      ∃ out, toPostfix ts = .ok out ∧ Plan.ofPostfix out = .error fault := by
  rw [compile_of_tokenize h, ← toPostfix_error_iff (worded_of_tokenize h)]
  cases toPostfix ts with
  | error f => simp [Except.bind]
  | ok out =>
    cases hf : Plan.ofPostfix out <;> simp [Except.bind, Except.map, hf]

/-- The faults of a text that has tokens. -/
theorem fault_of_tokenize {text : String} {ts : List Token} {fault : CompileFault}
    (h : tokenize text = .ok ts) (hc : Plan.compile text = .error fault) :
    fault = .unbalanced ∨ fault = .empty ∨ fault.Malformed := by
  rcases (compile_error_iff h).1 hc with ⟨hf, -⟩ | ⟨out, hp, hf⟩
  · exact Or.inl hf
  · exact Or.inr (ofPostfix_error (sent_of_toPostfix h hp) hf)

/-- A text without a plan has a genuine fault. -/
theorem compile_error {text : String} {fault : CompileFault}
    (h : Plan.compile text = .error fault) : fault.Genuine := by
  cases ht : tokenize text with
  | error stray =>
    rw [compile_of_stray ht] at h
    cases h
    trivial
  | ok ts =>
    rcases fault_of_tokenize ht h with rfl | rfl | malformed
    · trivial
    · trivial
    · exact malformed.genuine

/-- The tokens of a text with a plan are an infix expression exactly when they alternate. -/
theorem derivable_iff_of_compile {text : String} {plan : Plan} (h : Plan.compile text = .ok plan)
    {ts : List Token} (ht : tokenize text = .ok ts) :
    Derivable ts ↔ alternates true ts = true := by
  obtain ⟨us, out, final, hu, hp, -, -⟩ := compile_ok h
  obtain rfl : ts = us := Except.ok.inj (ht.symm.trans hu)
  have proper : ∀ t ∈ ts, Proper t := fun t h => (scanned_of_tokenize ht t h).1
  have hn : nests 0 ts = true := (arranges_of_toPostfix hp).1
  rw [derivable_iff]
  exact ⟨fun h => h.2.1, fun h => ⟨proper, h, hn⟩⟩

theorem Formula.ofNumber_mem_postorder {f : Formula} {n : String} :
    ofNumber n ∈ f.postorder ↔ n ∈ f.numbers := by
  induction f with
  | number text => simp [postorder, numbers, ofNumber]
  | node op l r ihl ihr =>
    have other : ofNumber n ≠ op.token := fun h => by cases congrArg Token.kind h
    simp [postorder, numbers, ihl, ihr, other]

/-- A formula whose infix form has a plan has finite numbers. -/
theorem finite_of_compile {text : String} {plan : Plan} (h : Plan.compile text = .ok plan)
    {ts : List Token} (ht : tokenize text = .ok ts) {f : Formula} (d : Derives .expression ts f) :
    ∀ n ∈ f.numbers, ∃ x, Plan.number n = .ok x := by
  obtain ⟨us, out, final, hu, hp, hf, -⟩ := compile_ok h
  obtain rfl : ts = us := Except.ok.inj (ht.symm.trans hu)
  obtain rfl : f.postorder = out := Except.ok.inj ((toPostfix_of_derives d).symm.trans hp)
  exact fun n hn => number_of_run (ofPostfix_ok_iff.1 hf) n (Formula.ofNumber_mem_postorder.2 hn)

/-- A text is an infix expression, or is refused with a genuine fault, exactly when it has no plan
or its tokens alternate.  The texts with a plan and alternating tokens are the infix expressions
with finite numbers. -/
theorem infix_or_fault_iff (text : String) :
    (((∃ ts, tokenize text = .ok ts ∧ Derivable ts) ∨
        ∃ fault, Plan.compile text = .error fault ∧ fault.Genuine) ↔
      ∀ plan ts, Plan.compile text = .ok plan → tokenize text = .ok ts →
        alternates true ts = true) ∧
    ((∃ plan ts, Plan.compile text = .ok plan ∧ tokenize text = .ok ts ∧
        alternates true ts = true) ↔
      ∃ ts f, tokenize text = .ok ts ∧ Derives .expression ts f ∧
        ∀ n ∈ f.numbers, ∃ x, Plan.number n = .ok x) := by
  refine ⟨⟨?_, ?_⟩, ⟨?_, ?_⟩⟩
  · rintro (⟨us, hu, d⟩ | ⟨fault, hf, -⟩) plan ts hc ht
    · obtain rfl : us = ts := Except.ok.inj (hu.symm.trans ht)
      exact (derivable_iff_of_compile hc ht).1 d
    · rw [hf] at hc
      cases hc
  · intro h
    cases hc : Plan.compile text with
    | error fault => exact Or.inr ⟨fault, rfl, compile_error hc⟩
    | ok plan =>
      obtain ⟨ts, out, final, ht, -⟩ := compile_ok hc
      exact Or.inl ⟨ts, ht, (derivable_iff_of_compile hc ht).2 (h plan ts hc ht)⟩
  · rintro ⟨plan, ts, hc, ht, ha⟩
    obtain ⟨f, d⟩ := (derivable_iff_of_compile hc ht).2 ha
    exact ⟨ts, f, ht, d, finite_of_compile hc ht d⟩
  · rintro ⟨ts, f, ht, d, finite⟩
    choose! value hv using finite
    exact ⟨_, ts, compile_of_derives ht d hv, ht, (derivable_iff.1 ⟨f, d⟩).2.1⟩

/-- An operator after both its operands: the text has a plan and is no infix expression. -/
theorem compile_one_two_plus :
    (∃ plan, Plan.compile "1(2)+" = .ok plan) ∧
      ¬ ((∃ ts, tokenize "1(2)+" = .ok ts ∧ Derivable ts) ∨
        ∃ fault, Plan.compile "1(2)+" = .error fault ∧ fault.Genuine) := by
  have scanned : tokenize "1(2)+" =
      .ok [ofNumber "1", opening, ofNumber "2", closing, Operation.add.token] := by
    decide +kernel
  have accepted : ∃ plan, Plan.compile "1(2)+" = .ok plan := by
    cases h : Plan.compile "1(2)+" with
    | ok plan => exact ⟨plan, rfl⟩
    | error fault =>
      have : (Plan.compile "1(2)+").isOk = true := by decide +kernel
      rw [h] at this
      cases this
  refine ⟨accepted, ?_⟩
  rintro (⟨ts, ht, d⟩ | ⟨fault, hf, -⟩)
  · obtain rfl := Except.ok.inj (scanned.symm.trans ht)
    have := (derivable_iff.1 d).2.1
    simp at this
  · obtain ⟨plan, hp⟩ := accepted
    rw [hf] at hp
    cases hp

end Stepwise
