import Stepwise.Proofs.Expr.Postorder

/-!
# Which fault a text has

The compiler works in stages, and the first stage that fails decides the fault: a character that
starts no token, a parenthesis without a partner, nothing but parentheses, and then tokens whose
post-order is that of no single formula or which hold a number that is too large.  `stage_of_fault`
says exactly when each of them comes about, for every text; the other faults are for tokens that no
text yields.
-/

namespace Stepwise

open Token

variable {text : String} {ts : List Token} {fault : CompileFault}

theorem unbalanced_iff (h : tokenize text = .ok ts) :
    Plan.compile text = .error .unbalanced ↔ ¬ Matched ts := by
  rw [compile_error_iff h]
  constructor
  · rintro (⟨-, unbalanced⟩ | ⟨out, hp, hf⟩)
    · exact unbalanced
    · rcases ofPostfix_error (sent_of_toPostfix h hp) hf with hf | malformed
      · cases hf
      · exact malformed.elim
  · exact fun unbalanced => Or.inl ⟨rfl, unbalanced⟩

theorem exists_toPostfix_iff (h : tokenize text = .ok ts) :
    (∃ out, toPostfix ts = .ok out) ↔ Matched ts := by
  cases hp : toPostfix ts with
  | error fault =>
    have := ((toPostfix_error_iff (worded_of_tokenize h)).1 hp).2
    simp [this]
  | ok out =>
    have := matched_iff.2 (arranges_of_toPostfix hp).1
    simp [this]

/-- What is sent out is nothing only if there are only parentheses. -/
theorem eq_nil_of_toPostfix_iff {out : List Token} (h : toPostfix ts = .ok out) :
    out = [] ↔ ∀ t ∈ ts, t.solid = false := by
  rw [← List.length_eq_zero_iff, (perm_of_toPostfix h).length_eq, List.length_eq_zero_iff,
    List.filter_eq_nil_iff]
  simp

theorem empty_iff (h : tokenize text = .ok ts) :
    Plan.compile text = .error .empty ↔ Matched ts ∧ ∀ t ∈ ts, t.solid = false := by
  rw [compile_error_iff h, ← exists_toPostfix_iff h]
  have sent := fun out => @sent_of_toPostfix text ts out h
  constructor
  · rintro (⟨hf, -⟩ | ⟨out, hp, hf⟩)
    · cases hf
    · exact ⟨⟨out, hp⟩,
        (eq_nil_of_toPostfix_iff hp).1 ((ofPostfix_eq_empty_iff (sent out hp)).1 hf)⟩
  · rintro ⟨⟨out, hp⟩, none⟩
    exact Or.inr ⟨out, hp,
      (ofPostfix_eq_empty_iff (sent out hp)).2 ((eq_nil_of_toPostfix_iff hp).2 none)⟩

theorem mem_of_toPostfix_iff {out : List Token} (h : toPostfix ts = .ok out) {n : String} :
    ofNumber n ∈ out ↔ ofNumber n ∈ ts := by
  rw [(perm_of_toPostfix h).mem_iff, List.mem_filter]
  exact and_iff_left rfl

theorem Token.Sent.numeral {n : String} (h : Sent (ofNumber n)) : Numeral n.toList := by
  rcases h with ⟨op, h⟩ | ⟨text, h, numeral⟩
  · cases congrArg Token.kind h
  · cases h
    exact numeral

/-- Tokens have no steps if they are the post-order of no formula or hold an infinite number. -/
theorem exists_ofPostfix_error_iff {out : List Token} (sent : ∀ t ∈ out, Sent t) :
    (∃ fault, Plan.ofPostfix out = .error fault) ↔ (∀ f : Formula, out ≠ f.postorder) ∨
      ∃ n x, ofNumber n ∈ out ∧ Decimal.ofText? n.toList = some x ∧
        Decimal.isFinite x = false := by
  constructor
  · rintro ⟨fault, h⟩
    by_contra! hyp
    obtain ⟨⟨f, rfl⟩, small⟩ := hyp
    have finite : ∀ n ∈ f.numbers, ∃ x, Plan.number n = .ok x := by
      intro n hn
      have hn := Formula.ofNumber_mem_postorder.2 hn
      obtain ⟨x, hx⟩ := exists_ofText?_of_numeral (sent _ hn).numeral
      exact ⟨x, number_ok_iff.2 ⟨hx, Bool.eq_true_of_not_eq_false (small n x hn hx)⟩⟩
    choose! value finite using finite
    rw [ofPostfix_postorder f finite] at h
    cases h
  · intro h
    cases hr : Plan.ofPostfix out with
    | error fault => exact ⟨fault, rfl⟩
    | ok r =>
      obtain ⟨f, value, rfl, finite, -⟩ := (ofPostfix_ok_iff_postorder sent).1 hr
      rcases h with h | ⟨n, x, hn, hx, large⟩
      · exact absurd rfl (h f)
      · obtain ⟨hv, small⟩ := number_ok_iff.1 (finite n (Formula.ofNumber_mem_postorder.1 hn))
        obtain rfl := Option.some.inj (hx.symm.trans hv)
        rw [small] at large
        cases large

theorem malformed_iff (h : tokenize text = .ok ts) :
    (∃ fault, Plan.compile text = .error fault ∧ fault.Malformed) ↔
      Matched ts ∧ (∃ t ∈ ts, t.solid = true) ∧ ∃ out, toPostfix ts = .ok out ∧
        ((∀ f : Formula, out ≠ f.postorder) ∨ ∃ n x, ofNumber n ∈ ts ∧
          Decimal.ofText? n.toList = some x ∧ Decimal.isFinite x = false) := by
  have sent := fun out => @sent_of_toPostfix text ts out h
  constructor
  · rintro ⟨fault, hc, malformed⟩
    rcases (compile_error_iff h).1 hc with ⟨rfl, -⟩ | ⟨out, hp, hf⟩
    · exact malformed.elim
    · have cause := (exists_ofPostfix_error_iff (sent out hp)).1 ⟨fault, hf⟩
      simp only [mem_of_toPostfix_iff hp] at cause
      refine ⟨(exists_toPostfix_iff h).1 ⟨out, hp⟩, ?_, out, hp, cause⟩
      by_contra! none
      have none : ∀ t ∈ ts, t.solid = false := fun t ht => Bool.eq_false_of_not_eq_true (none t ht)
      rw [(eq_nil_of_toPostfix_iff hp).2 none] at hf
      cases hf
      exact malformed
  · rintro ⟨matched, ⟨t, ht, solid⟩, out, hp, cause⟩
    simp only [← mem_of_toPostfix_iff hp] at cause
    obtain ⟨fault, hf⟩ := (exists_ofPostfix_error_iff (sent out hp)).2 cause
    refine ⟨fault, (compile_error_iff h).2 (Or.inr ⟨out, hp, hf⟩), ?_⟩
    refine (ofPostfix_error (sent out hp) hf).resolve_left ?_
    rintro rfl
    have none := (eq_nil_of_toPostfix_iff hp).1 ((ofPostfix_eq_empty_iff (sent out hp)).1 hf)
    rw [none t ht] at solid
    cases solid

/-- A plan has a finite literal or steps, and not both. -/
theorem literal_of_compile {plan : Plan} (h : Plan.compile text = .ok plan) :
    (plan.steps = [] ∧ ∃ x, plan.literal = some x ∧ Decimal.isFinite x = true) ∨
      (plan.steps ≠ [] ∧ plan.literal = none) := by
  obtain ⟨ts, out, final, ht, hp, hf, hplan⟩ := compile_ok h
  have sent := sent_of_toPostfix ht hp
  obtain ⟨f, value, -, finite, same⟩ := (ofPostfix_ok_iff_postorder sent).1 hf
  have unfolds := unfolds_of_formula f finite
  rw [← same] at unfolds
  rcases unfolds.last with ⟨x, none, rfl⟩ | ⟨k, count, rfl⟩
  · have literal : plan.literal = some x := by rw [hplan]; rfl
    exact Or.inl ⟨none, x, literal, (isFinite_of_compile h).2 x literal⟩
  · refine Or.inr ⟨?_, by rw [hplan]; rfl⟩
    intro none
    rw [none] at count
    cases count

/-- A text has a plan or one of four kinds of faults, and the first stage that fails decides which.
A plan has a finite literal or steps, and the numbers in its steps are finite. -/
theorem stage_of_fault (text : String) :
    ((∃ stray, Plan.compile text = .error (.strayCharacter stray)) ↔
      ∀ ts, tokenize text ≠ .ok ts) ∧
    (∀ ts, tokenize text = .ok ts →
      (Plan.compile text = .error .unbalanced ↔ ¬ Matched ts) ∧
      (Plan.compile text = .error .empty ↔ Matched ts ∧ ∀ t ∈ ts, t.solid = false) ∧
      ((∃ fault, Plan.compile text = .error fault ∧ fault.Malformed) ↔
        Matched ts ∧ (∃ t ∈ ts, t.solid = true) ∧ ∃ out, toPostfix ts = .ok out ∧
          ((∀ f : Formula, out ≠ f.postorder) ∨ ∃ n x, ofNumber n ∈ ts ∧
            Decimal.ofText? n.toList = some x ∧ Decimal.isFinite x = false))) ∧
    (∀ fault, Plan.compile text = .error fault → (∃ stray, fault = .strayCharacter stray) ∨
      fault = .unbalanced ∨ fault = .empty ∨ fault.Malformed) ∧
    ∀ plan, Plan.compile text = .ok plan →
      ((plan.steps = [] ∧ ∃ x, plan.literal = some x ∧ Decimal.isFinite x = true) ∨
        (plan.steps ≠ [] ∧ plan.literal = none)) ∧
      ∀ step ∈ plan.steps, step.left.IsFinite ∧ step.right.IsFinite := by
  refine ⟨⟨?_, ?_⟩, fun ts h => ⟨unbalanced_iff h, empty_iff h, malformed_iff h⟩, ?_,
    fun plan h => ⟨literal_of_compile h, (isFinite_of_compile h).1⟩⟩
  · rintro ⟨stray, hc⟩ ts h
    rcases fault_of_tokenize h hc with hf | hf | malformed
    · cases hf
    · cases hf
    · exact malformed
  · intro none
    cases h : tokenize text with
    | error stray => exact ⟨stray, compile_of_stray h⟩
    | ok ts => exact absurd h (none ts)
  · intro fault hc
    cases h : tokenize text with
    | error stray =>
      rw [compile_of_stray h] at hc
      cases hc
      exact Or.inl ⟨stray, rfl⟩
    | ok ts => exact Or.inr (fault_of_tokenize h hc)

end Stepwise
