import Stepwise.Proofs.Expr.Meaning
import Stepwise.Proofs.Expr.Scanning

/-!
# What reordering keeps

`toPostfix` takes tokens one by one.  `Takes` says what one token does, in a list whose tokens carry
their places: what it sends out and what waits on the stack after it.  `TakesAll` is the run over a
list, and what one token keeps, a run keeps: nothing is lost but parentheses (`TakesAll.perm`), and
what waits below an open parenthesis stays there until its partner comes (`TakesAll.within`).  The
main result, `arranges_or_unbalanced`, holds for every token list, be it an expression or not.
-/

namespace Stepwise

open Token

namespace Token

/-- A token that is no parenthesis. -/
def solid (t : Token) : Bool := t.kind == .number || t.kind == .operator

/-- The number of opening parentheses. -/
def openings (ts : List Token) : Nat := ts.countP (·.kind == .leftParen)

/-- The number of closing parentheses. -/
def closings (ts : List Token) : Nat := ts.countP (·.kind == .rightParen)

/-- Every parenthesis has a partner: none closes before it is opened, and none stays open. -/
def Matched (ts : List Token) : Prop :=
  (∀ us, us <+: ts → closings us ≤ openings us) ∧ openings ts = closings ts

@[simp] theorem openings_nil : openings [] = 0 := rfl

@[simp] theorem closings_nil : closings [] = 0 := rfl

@[simp] theorem openings_append (ts us : List Token) :
    openings (ts ++ us) = openings ts + openings us := List.countP_append

@[simp] theorem closings_append (ts us : List Token) :
    closings (ts ++ us) = closings ts + closings us := List.countP_append

theorem openings_cons (t : Token) (ts : List Token) :
    openings (t :: ts) = openings [t] + openings ts := openings_append [t] ts

theorem closings_cons (t : Token) (ts : List Token) :
    closings (t :: ts) = closings [t] + closings ts := closings_append [t] ts

theorem openings_singleton (t : Token) :
    openings [t] = if t.kind = .leftParen then 1 else 0 := by
  simp [openings, List.countP_cons]

theorem closings_singleton (t : Token) :
    closings [t] = if t.kind = .rightParen then 1 else 0 := by
  simp [closings, List.countP_cons]

theorem openings_eq_zero_iff {ts : List Token} :
    openings ts = 0 ↔ ∀ t ∈ ts, t.kind ≠ .leftParen := by
  simp [openings, List.countP_eq_zero]

/-- What the first token does to the number of open parentheses. -/
theorem nests_cons (depth : Nat) (t : Token) (ts : List Token) :
    nests depth (t :: ts) = (decide (closings [t] ≤ depth + openings [t]) &&
      nests (depth + openings [t] - closings [t]) ts) := by
  rw [openings_singleton, closings_singleton]
  cases hk : t.kind <;> cases depth <;> simp [nests, hk]

/-- Parentheses nest if none closes before it is opened and none stays open. -/
theorem nests_iff {depth : Nat} {ts : List Token} :
    nests depth ts = true ↔ (∀ us, us <+: ts → closings us ≤ depth + openings us) ∧
      depth + openings ts = closings ts := by
  induction ts generalizing depth with
  | nil => simp [nests]
  | cons t ts ih =>
    rw [nests_cons, Bool.and_eq_true, decide_eq_true_eq, ih, openings_cons t ts,
      closings_cons t ts]
    constructor
    · rintro ⟨first, prefixes, all⟩
      refine ⟨fun us hu => ?_, by omega⟩
      rcases List.prefix_cons_iff.1 hu with rfl | ⟨us, rfl, tail⟩
      · simp
      · have := prefixes us tail
        rw [openings_cons, closings_cons]
        omega
    · rintro ⟨prefixes, all⟩
      have first := prefixes [t] (List.prefix_append [t] ts)
      refine ⟨first, fun us hu => ?_, by omega⟩
      have := prefixes (t :: us) (List.cons_prefix_cons.2 ⟨rfl, hu⟩)
      rw [openings_cons, closings_cons] at this
      omega

theorem matched_iff {ts : List Token} : Matched ts ↔ nests 0 ts = true := by
  rw [nests_iff, Matched]
  simp only [Nat.zero_add]

end Token

/-- A token with its place. -/
abbrev Placed := Token × Nat

/-- What one token does: what it sends out, and what waits after it. -/
inductive Takes : List Placed → Placed → List Placed → List Placed → Prop
  | number {stack x} : x.1.kind = .number → Takes stack x [x] stack
  | operator {stack x p} : x.1.kind = .operator → x.1.precedence? = some p →
      Takes stack x (stack.takeWhile (yields p ∘ Prod.fst))
        (x :: stack.dropWhile (yields p ∘ Prod.fst))
  | opening {stack x} : x.1.kind = .leftParen → Takes stack x [] (x :: stack)
  | closing {sent y below x} : x.1.kind = .rightParen → y.1.kind = .leftParen →
      (∀ z ∈ sent, z.1.kind ≠ .leftParen) → Takes (sent ++ y :: below) x sent below

/-- What a list of tokens does, one token after the other. -/
inductive TakesAll : List Placed → List Placed → List Placed → List Placed → Prop
  | nil {stack} : TakesAll stack [] [] stack
  | cons {stack x sent mid xs out kept} : Takes stack x sent mid → TakesAll mid xs out kept →
      TakesAll stack (x :: xs) (sent ++ out) kept

/-! ## What one token keeps -/

theorem openings_dropWhile (p : Nat) (stack : List Token) :
    openings (stack.dropWhile (yields p)) = openings stack := by
  induction stack with
  | nil => rfl
  | cons t stack ih =>
    by_cases ht : yields p t = true
    · have hk : openings [t] = 0 := by
        rw [openings_singleton, kind_of_yields ht, if_neg (by decide)]
      rw [List.dropWhile_cons_of_pos ht, ih, openings_cons, hk, Nat.zero_add]
    · rw [List.dropWhile_cons_of_neg ht]

theorem openings_append_cons {out below : List Token} {t : Token} (ht : t.kind = .leftParen)
    (ho : ∀ u ∈ out, u.kind ≠ .leftParen) : openings (out ++ t :: below) = openings below + 1 := by
  rw [openings_append, openings_eq_zero_iff.2 ho, openings_cons, openings_singleton, if_pos ht,
    Nat.zero_add, Nat.add_comm]

variable {stack sent mid : List Placed} {x : Placed}

theorem Takes.openings_eq (h : Takes stack x sent mid) :
    openings (mid.map Prod.fst) + closings [x.1] =
      openings (stack.map Prod.fst) + openings [x.1] := by
  rw [openings_singleton, closings_singleton]
  cases h with
  | number hk => simp [hk]
  | operator hk _ =>
    rw [List.map_cons, openings_cons, openings_singleton, ← List.dropWhile_map,
      openings_dropWhile, hk]
    simp
  | opening hk =>
    rw [List.map_cons, openings_cons, openings_singleton, hk]
    simp [Nat.add_comm]
  | closing hk hy hs =>
    rw [List.map_append, List.map_cons, openings_append_cons hy (by simpa using hs), hk]
    simp

theorem Takes.perm (h : Takes stack x sent mid) :
    ((sent ++ mid).filter (·.1.solid)).Perm ((x :: stack).filter (·.1.solid)) := by
  cases h with
  | number => exact List.Perm.refl _
  | operator =>
    refine List.Perm.filter _ (List.perm_middle.trans ?_)
    rw [List.takeWhile_append_dropWhile]
  | opening => exact List.Perm.refl _
  | @closing _ y _ _ hk hy =>
    have hx : x.1.solid = false := by simp [solid, hk]
    have hy : y.1.solid = false := by simp [solid, hy]
    simp [hx, hy]

/-- Operators and opening parentheses wait, numbers do not. -/
def Waiting (stack : List Placed) : Prop :=
  ∀ x ∈ stack, x.1.kind = .operator ∨ x.1.kind = .leftParen

theorem Takes.waiting (h : Takes stack x sent mid) (waiting : Waiting stack) : Waiting mid := by
  cases h with
  | number => exact waiting
  | operator hk =>
    intro y hy
    rcases List.mem_cons.1 hy with rfl | hy
    · exact Or.inl hk
    · exact waiting y ((List.dropWhile_sublist _).subset hy)
  | opening hk =>
    intro y hy
    rcases List.mem_cons.1 hy with rfl | hy
    · exact Or.inr hk
    · exact waiting y hy
  | closing => exact fun y hy => waiting y (List.mem_append_right _ (List.mem_cons_of_mem _ hy))

/-- A token sends itself out if it is a number, and else only operators that waited. -/
theorem Takes.sends (h : Takes stack x sent mid) (waiting : Waiting stack) :
    sent = [x] ∧ x.1.kind = .number ∨
      x.1.kind ≠ .number ∧ ∀ y ∈ sent, y.1.kind = .operator := by
  cases h with
  | number hk => exact Or.inl ⟨rfl, hk⟩
  | operator hk =>
    exact Or.inr ⟨by rw [hk]; decide, fun y hy =>
      kind_of_yields (List.mem_takeWhile_imp (p := yields _ ∘ Prod.fst) hy)⟩
  | opening hk => exact Or.inr ⟨by rw [hk]; decide, by simp⟩
  | closing hk _ hs =>
    refine Or.inr ⟨by rw [hk]; decide, fun y hy => ?_⟩
    exact (waiting y (List.mem_append_left _ hy)).resolve_right (hs y hy)

/-- What waits below an open parenthesis stays, unless it is this parenthesis that is closed. -/
theorem Takes.within {l : Placed} {top base : List Placed} (h : Takes (top ++ l :: base) x sent mid)
    (hl : l.1.kind = .leftParen) (inside : closings [x.1] ≤ openings (top.map Prod.fst)) :
    ∃ top', mid = top' ++ l :: base := by
  generalize hs : top ++ l :: base = stack at h
  cases h with
  | number => exact ⟨top, hs.symm⟩
  | opening => exact ⟨x :: top, by rw [← hs, List.cons_append]⟩
  | @operator _ _ p =>
    refine ⟨x :: top.dropWhile (yields p ∘ Prod.fst), ?_⟩
    have stays : ¬ (yields p ∘ Prod.fst) l = true := fun hy => by
      rw [Function.comp_apply] at hy
      exact absurd (kind_of_yields hy) (by rw [hl]; decide)
    rw [← hs, List.dropWhile_append]
    split
    · rename_i empty
      rw [List.isEmpty_iff.1 empty, List.dropWhile_cons_of_neg stays]
      rfl
    · rfl
  | @closing sent y below _ hk hy none =>
    have shut : openings (sent.map Prod.fst) = 0 := openings_eq_zero_iff.2 (by simpa using none)
    have one : closings [x.1] = 1 := by rw [closings_singleton, if_pos hk]
    rw [one] at inside
    rcases List.append_eq_append_iff.1 hs with ⟨more, rfl, -⟩ | ⟨more, rfl, hm⟩
    · rw [List.map_append, openings_append] at shut
      omega
    · cases more with
      | nil =>
        rw [List.append_nil] at inside
        omega
      | cons z more =>
        rw [List.cons_append, List.cons.injEq] at hm
        exact ⟨more, hm.2⟩

/-- A closing parenthesis sends out what waits above its partner. -/
theorem Takes.closes {l : Placed} {top base : List Placed} (h : Takes (top ++ l :: base) x sent mid)
    (hx : x.1.kind = .rightParen) (hl : l.1.kind = .leftParen)
    (none : openings (top.map Prod.fst) = 0) : sent = top ∧ mid = base := by
  generalize hs : top ++ l :: base = stack at h
  cases h with
  | number hk | operator hk | opening hk => rw [hx] at hk; cases hk
  | @closing _ y below _ _ hy none' =>
    have none : ∀ z ∈ top, z.1.kind ≠ .leftParen := by simpa using openings_eq_zero_iff.1 none
    rcases List.append_eq_append_iff.1 hs with ⟨more, rfl, hm⟩ | ⟨more, rfl, hm⟩
    · cases more with
      | nil =>
        cases hm
        exact ⟨List.append_nil _, rfl⟩
      | cons z more =>
        cases hm
        exact absurd hl (none' _ (by simp))
    · cases more with
      | nil =>
        cases hm
        exact ⟨(List.append_nil _).symm, rfl⟩
      | cons z more =>
        cases hm
        exact absurd hy (none _ (by simp))

/-! ## What a list of tokens keeps -/

variable {xs ys out kept : List Placed}

theorem TakesAll.split (h : TakesAll stack (xs ++ ys) out kept) :
    ∃ first waiting last, TakesAll stack xs first waiting ∧ TakesAll waiting ys last kept ∧
      out = first ++ last := by
  induction xs generalizing stack out with
  | nil => exact ⟨[], stack, out, .nil, h, rfl⟩
  | cons x xs ih =>
    cases h with
    | @cons _ _ sent _ _ _ _ takes h =>
      obtain ⟨first, waiting, last, hf, hl, rfl⟩ := ih h
      exact ⟨sent ++ first, waiting, last, .cons takes hf, hl, (List.append_assoc _ _ _).symm⟩

theorem TakesAll.perm (h : TakesAll stack xs out kept) :
    ((out ++ kept).filter (·.1.solid)).Perm ((xs ++ stack).filter (·.1.solid)) := by
  induction h with
  | nil => exact List.Perm.refl _
  | @cons stack x sent mid xs out kept takes _ ih =>
    have now := takes.perm
    have swap : (sent ++ (xs ++ mid)).Perm (xs ++ (sent ++ mid)) :=
      List.perm_append_comm_assoc _ _ _
    have front : (xs ++ x :: stack).Perm (x :: xs ++ stack) := List.perm_middle
    have swap := swap.filter (·.1.solid)
    have front := front.filter (·.1.solid)
    simp only [List.filter_append, List.append_assoc] at now ih swap front ⊢
    exact (ih.append_left _).trans (swap.trans ((now.append_left _).trans front))

theorem TakesAll.waiting (h : TakesAll stack xs out kept) (waiting : Waiting stack) :
    Waiting kept := by
  induction h with
  | nil => exact waiting
  | cons takes _ ih => exact ih (takes.waiting waiting)

/-- Numbers are sent out as they come. -/
theorem TakesAll.numbers (h : TakesAll stack xs out kept) (waiting : Waiting stack) :
    out.filter (·.1.kind == .number) = xs.filter (·.1.kind == .number) := by
  induction h with
  | nil => rfl
  | @cons stack x sent mid xs out kept takes _ ih =>
    rw [List.filter_append, ih (takes.waiting waiting)]
    rcases takes.sends waiting with ⟨rfl, hk⟩ | ⟨hk, hs⟩
    · rw [← List.filter_append, List.singleton_append]
    · have none : sent.filter (·.1.kind == .number) = [] := by
        rw [List.filter_eq_nil_iff]
        intro y hy
        rw [hs y hy]
        decide
      rw [none, List.filter_cons_of_neg (by simpa using hk), List.nil_append]

theorem TakesAll.solid (h : TakesAll stack xs out kept) (waiting : Waiting stack) :
    ∀ y ∈ out, y.1.solid = true := by
  induction h with
  | nil => simp
  | @cons stack x sent mid xs out kept takes _ ih =>
    intro y hy
    rcases List.mem_append.1 hy with hy | hy
    · rcases takes.sends waiting with ⟨rfl, hk⟩ | ⟨-, hs⟩
      · rw [List.mem_singleton.1 hy, Token.solid, hk]
        rfl
      · rw [Token.solid, hs y hy]
        rfl
    · exact ih (takes.waiting waiting) y hy

theorem TakesAll.within {l : Placed} {top base : List Placed}
    (h : TakesAll (top ++ l :: base) xs out kept) (hl : l.1.kind = .leftParen)
    (inside : nests (openings (top.map Prod.fst)) (xs.map Prod.fst) = true) :
    ∃ top', kept = top' ++ l :: base ∧ openings (top'.map Prod.fst) = 0 := by
  generalize hs : top ++ l :: base = stack at h
  induction h generalizing top with
  | nil => exact ⟨top, hs.symm, by simpa [nests] using inside⟩
  | @cons _ x _ mid xs _ _ takes _ ih =>
    subst hs
    rw [List.map_cons, nests_cons, Bool.and_eq_true, decide_eq_true_eq] at inside
    obtain ⟨below, after⟩ := inside
    have inside : closings [x.1] ≤ openings (top.map Prod.fst) := by
      rw [openings_singleton] at below
      rw [closings_singleton] at below ⊢
      split at below <;> simp_all
    obtain ⟨mid', rfl⟩ := takes.within hl inside
    have count := takes.openings_eq
    simp only [List.map_append, openings_append] at count
    have same : openings (top.map Prod.fst) + openings [x.1] - closings [x.1] =
        openings (mid'.map Prod.fst) := by omega
    exact ih (same ▸ after) rfl

/-! ## Reordering -/

theorem eq_of_closeParen {stack out below : List Token} (h : closeParen stack = .ok (out, below)) :
    ∃ t, stack = out ++ t :: below ∧ t.kind = .leftParen ∧ ∀ u ∈ out, u.kind ≠ .leftParen := by
  induction stack generalizing out with
  | nil => cases h
  | cons t stack ih =>
    rw [closeParen] at h
    split at h
    · rename_i hk
      cases h
      exact ⟨t, rfl, beq_iff_eq.1 hk, by simp⟩
    · rename_i hk
      obtain ⟨⟨popped, below⟩, hc, ⟨⟩⟩ := exists_of_map_ok h
      obtain ⟨u, hs, hu, ho⟩ := ih hc
      refine ⟨u, by rw [List.cons_append, ← hs], hu, fun v hv => ?_⟩
      rcases List.mem_cons.1 hv with rfl | hv
      · simpa using hk
      · exact ho v hv

theorem eq_of_flush {stack out : List Token} (h : flush stack = .ok out) :
    out = stack ∧ openings stack = 0 := by
  induction stack generalizing out with
  | nil =>
    cases h
    exact ⟨rfl, rfl⟩
  | cons t stack ih =>
    rw [flush] at h
    split at h
    · cases h
    · rename_i hk
      obtain ⟨us, hf, rfl⟩ := exists_of_map_ok h
      obtain ⟨rfl, none⟩ := ih hf
      rw [openings_cons, openings_singleton, if_neg (by simpa using hk), none]
      exact ⟨rfl, rfl⟩

theorem closeParen_error {stack : List Token} {fault : CompileFault}
    (h : closeParen stack = .error fault) : fault = .unbalanced ∧ openings stack = 0 := by
  induction stack with
  | nil =>
    cases h
    exact ⟨rfl, rfl⟩
  | cons t stack ih =>
    rw [closeParen] at h
    split at h
    · cases h
    · rename_i hk
      obtain ⟨hf, none⟩ := ih (eq_error_of_map h)
      rw [openings_cons, openings_singleton, if_neg (by simpa using hk), none]
      exact ⟨hf, rfl⟩

theorem flush_error {stack : List Token} {fault : CompileFault} (h : flush stack = .error fault) :
    fault = .unbalanced ∧ openings stack ≠ 0 := by
  induction stack with
  | nil => cases h
  | cons t stack ih =>
    rw [flush] at h
    rw [openings_cons, openings_singleton]
    split at h
    · rename_i hk
      cases h
      rw [if_pos (beq_iff_eq.1 hk)]
      exact ⟨rfl, by omega⟩
    · obtain ⟨hf, some⟩ := ih (eq_error_of_map h)
      exact ⟨hf, by omega⟩

/-- What reordering gives is what the tokens send out, and after it what still waits. -/
theorem exists_takesAll {out : List Token}
    (h : reorder (stack.map Prod.fst) (xs.map Prod.fst) = .ok out) :
    ∃ sent kept, TakesAll stack xs sent kept ∧ out = (sent ++ kept).map Prod.fst ∧
      openings (kept.map Prod.fst) = 0 := by
  induction xs generalizing stack out with
  | nil =>
    rw [List.map_nil, reorder] at h
    obtain ⟨rfl, none⟩ := eq_of_flush h
    exact ⟨[], stack, .nil, rfl, none⟩
  | cons x xs ih =>
    rw [List.map_cons, reorder] at h
    split at h
    · rename_i hk
      obtain ⟨us, hr, rfl⟩ := exists_of_map_ok h
      obtain ⟨sent, kept, takes, rfl, none⟩ := ih hr
      exact ⟨[x] ++ sent, kept, .cons (.number hk) takes, rfl, none⟩
    · rename_i hk
      split at h
      · cases h
      · rename_i p hp
        obtain ⟨us, hr, rfl⟩ := exists_of_map_ok h
        rw [List.dropWhile_map, ← List.map_cons] at hr
        obtain ⟨sent, kept, takes, rfl, none⟩ := ih hr
        refine ⟨_, kept, .cons (.operator hk hp) takes, ?_, none⟩
        rw [List.takeWhile_map, ← List.map_append, List.append_assoc]
    · rename_i hk
      rw [← List.map_cons] at h
      obtain ⟨sent, kept, takes, rfl, none⟩ := ih h
      exact ⟨[] ++ sent, kept, .cons (.opening hk) takes, rfl, none⟩
    · rename_i hk
      split at h
      · cases h
      · rename_i popped below hc
        obtain ⟨us, hr, rfl⟩ := exists_of_map_ok h
        obtain ⟨t, hs, ht, ho⟩ := eq_of_closeParen hc
        obtain ⟨top, rest, rfl, rfl, hrest⟩ := List.map_eq_append_iff.1 hs
        obtain ⟨y, rest, rfl, rfl, rfl⟩ := List.map_eq_cons_iff.1 hrest
        obtain ⟨sent, kept, takes, rfl, none⟩ := ih hr
        refine ⟨top ++ sent, kept, .cons (.closing hk ht (by simpa using ho)) takes, ?_, none⟩
        rw [← List.map_append, List.append_assoc]

/-- Unbalanced parentheses are the only fault that reordering finds, and it finds them only where
they are. -/
theorem reorder_error {stack ts : List Token} {fault : CompileFault}
    (worded : ∀ t ∈ ts, t.kind = .operator → ∃ op : Operation, t.text = op.symbol)
    (h : reorder stack ts = .error fault) :
    fault = .unbalanced ∧ nests (openings stack) ts = false := by
  induction ts generalizing stack with
  | nil =>
    rw [reorder] at h
    obtain ⟨hf, some⟩ := flush_error h
    exact ⟨hf, by simpa [nests] using some⟩
  | cons t ts ih =>
    have ih := fun stack => @ih stack fun t ht => worded t (List.mem_cons_of_mem _ ht)
    rw [nests_cons, openings_singleton, closings_singleton]
    rw [reorder] at h
    split at h
    · rename_i hk
      obtain ⟨hf, hn⟩ := ih _ (eq_error_of_map h)
      exact ⟨hf, by simp [hk, hn]⟩
    · rename_i hk
      split at h
      · rename_i hp
        obtain ⟨op, hop⟩ := worded t List.mem_cons_self hk
        rw [precedence?, hop, Operation.ofSymbol?_symbol] at hp
        cases hp
      · obtain ⟨hf, hn⟩ := ih _ (eq_error_of_map h)
        rw [openings_cons, openings_singleton, openings_dropWhile] at hn
        refine ⟨hf, ?_⟩
        simp only [hk, reduceCtorEq, if_false, Nat.zero_add] at hn
        simp [hk, hn]
    · rename_i hk
      obtain ⟨hf, hn⟩ := ih _ h
      rw [openings_cons, openings_singleton, if_pos hk, Nat.add_comm] at hn
      exact ⟨hf, by simp [hk, hn]⟩
    · rename_i hk
      split at h
      · rename_i hc
        cases h
        obtain ⟨hf, none⟩ := closeParen_error hc
        exact ⟨hf, by simp [hk, none]⟩
      · rename_i hc
        obtain ⟨u, rfl, hu, ho⟩ := eq_of_closeParen hc
        obtain ⟨hf, hn⟩ := ih _ (eq_error_of_map h)
        rw [openings_append_cons hu ho]
        exact ⟨hf, by simp [hk, hn]⟩

/-- Tokens that can be reordered have parentheses that nest. -/
theorem TakesAll.nests (h : TakesAll stack xs out kept) (none : openings (kept.map Prod.fst) = 0) :
    nests (openings (stack.map Prod.fst)) (xs.map Prod.fst) = true := by
  induction h with
  | nil =>
    rw [none]
    rfl
  | @cons _ x _ _ _ _ _ takes _ ih =>
    have count := takes.openings_eq
    rw [List.map_cons, nests_cons, Bool.and_eq_true, decide_eq_true_eq]
    refine ⟨by omega, ?_⟩
    rw [← count, Nat.add_sub_cancel]
    exact ih none

/-! ## The order of what is sent out -/

/-- What stays of the order of the tokens when they are put into another one. -/
structure Arranges (xs out : List Placed) : Prop where
  perm : out.Perm (xs.filter (·.1.solid))
  numbers : out.filter (·.1.kind == .number) = xs.filter (·.1.kind == .number)
  /-- An operator comes after the numbers that it stood behind. -/
  numberFirst : ∀ us n rest, xs = us ++ n :: rest → n.1.kind = .number →
    ∀ o ∈ rest, o.1.kind = .operator → [n, o].Sublist out
  /-- An operator between two partners comes before all that stood behind them. -/
  innerFirst : ∀ us l inner r rest, xs = us ++ l :: (inner ++ r :: rest) →
    l.1.kind = .leftParen → r.1.kind = .rightParen → Matched (inner.map Prod.fst) →
    ∀ o ∈ inner, o.1.kind = .operator → ∀ t ∈ rest, t.1.solid = true → [o, t].Sublist out

/-- What is still to be read or waits is sent out later. -/
theorem TakesAll.mem (h : TakesAll stack xs out kept) {y : Placed} (hy : y.1.solid = true)
    (mem : y ∈ xs ∨ y ∈ stack) : y ∈ out ++ kept :=
  (List.mem_filter.1 (h.perm.mem_iff.2 (List.mem_filter.2 ⟨List.mem_append.2 mem, hy⟩))).1

theorem pair_sublist {x y : Placed} {xs ys : List Placed} (hx : x ∈ xs) (hy : y ∈ ys) :
    [x, y].Sublist (xs ++ ys) :=
  (List.singleton_sublist.2 hx).append (List.singleton_sublist.2 hy)

/-- A number is sent out before all that comes after it. -/
theorem TakesAll.number_first {n o : Placed} (h : TakesAll stack (n :: xs) out kept)
    (waiting : Waiting stack) (hn : n.1.kind = .number) (ho : o ∈ xs) (hs : o.1.solid = true) :
    [n, o].Sublist (out ++ kept) := by
  cases h with
  | @cons _ _ sent _ _ out _ takes rest =>
    rcases takes.sends waiting with ⟨rfl, -⟩ | ⟨hk, -⟩
    · rw [List.append_assoc]
      exact pair_sublist (List.mem_singleton_self n) (rest.mem hs (Or.inl ho))
    · exact absurd hn hk

/-- What stands between two partners is sent out before all that comes after them. -/
theorem TakesAll.inner_first {l r o t : Placed} {inner : List Placed}
    (h : TakesAll stack (l :: (inner ++ r :: xs)) out kept) (hl : l.1.kind = .leftParen)
    (hr : r.1.kind = .rightParen) (matched : Matched (inner.map Prod.fst)) (ho : o ∈ inner)
    (hos : o.1.solid = true) (ht : t ∈ xs) (hts : t.1.solid = true) :
    [o, t].Sublist (out ++ kept) := by
  cases h with
  | cons takes h =>
    cases takes with
    | number hk | operator hk | closing hk => rw [hl] at hk; cases hk
    | opening =>
      obtain ⟨first, waiting, last, hf, hlast, rfl⟩ := h.split
      have inside : TakesAll ([] ++ l :: stack) inner first waiting := hf
      obtain ⟨top, rfl, none⟩ := inside.within hl (matched_iff.1 matched)
      cases hlast with
      | @cons _ _ sent mid _ last _ takes rest =>
        obtain ⟨rfl, rfl⟩ := takes.closes hr hl none
        -- What waited before the first partner waits after the second one, so it drops out.
        have same : ((first ++ sent).filter (·.1.solid)).Perm (inner.filter (·.1.solid)) := by
          have := hf.perm
          rw [← List.append_assoc, List.filter_append (first ++ sent),
            List.filter_append inner] at this
          exact (List.perm_append_right_iff _).1 this
        have mem : o ∈ first ++ sent :=
          (List.mem_filter.1 (same.mem_iff.2 (List.mem_filter.2 ⟨ho, hos⟩))).1
        have := pair_sublist mem (rest.mem hts (Or.inl ht))
        simpa using this

theorem TakesAll.arranges (h : TakesAll [] xs out kept) (none : openings (kept.map Prod.fst) = 0) :
    Arranges xs (out ++ kept) := by
  have start : Waiting [] := List.forall_mem_nil _
  have operators : ∀ y ∈ kept, y.1.kind = .operator := fun y hy =>
    (h.waiting start y hy).resolve_right
      (openings_eq_zero_iff.1 none y.1 (List.mem_map_of_mem hy))
  refine ⟨?_, ?_, ?_, ?_⟩
  · have all : (out ++ kept).filter (·.1.solid) = out ++ kept := by
      rw [List.filter_eq_self]
      intro y hy
      rcases List.mem_append.1 hy with hy | hy
      · exact h.solid start y hy
      · rw [Token.solid, operators y hy]
        rfl
    simpa [all] using h.perm
  · have last : kept.filter (·.1.kind == .number) = [] := by
      rw [List.filter_eq_nil_iff]
      intro y hy
      rw [operators y hy]
      decide
    rw [List.filter_append, h.numbers start, last, List.append_nil]
  · rintro us n rest rfl hn o ho hop
    obtain ⟨first, waiting, last, hf, hl, rfl⟩ := h.split
    rw [List.append_assoc]
    exact (hl.number_first (hf.waiting start) hn ho (by rw [Token.solid, hop]; rfl)).trans
      (List.sublist_append_right _ _)
  · rintro us l inner r rest rfl hl hr matched o ho hop t ht hts
    obtain ⟨first, waiting, last, -, hlast, rfl⟩ := h.split
    rw [List.append_assoc]
    exact (hlast.inner_first hl hr matched ho (by rw [Token.solid, hop]; rfl) ht hts).trans
      (List.sublist_append_right _ _)

theorem map_fst_zipIdx (ts : List Token) : ts.zipIdx.map Prod.fst = ts := List.zipIdx_map_fst 0 ts

theorem arranges_of_toPostfix {ts out : List Token} (h : toPostfix ts = .ok out) :
    nests 0 ts = true ∧ ∃ placed : List Placed, out = placed.map Prod.fst ∧
      Arranges ts.zipIdx placed := by
  have read : reorder (([] : List Placed).map Prod.fst) (ts.zipIdx.map Prod.fst) = .ok out := by
    rw [map_fst_zipIdx]
    exact h
  obtain ⟨sent, kept, takes, rfl, none⟩ := exists_takesAll read
  have := takes.nests none
  rw [map_fst_zipIdx] at this
  exact ⟨this, sent ++ kept, rfl, takes.arranges none⟩

/-- What is sent out are the tokens that are no parentheses. -/
theorem perm_of_toPostfix {ts out : List Token} (h : toPostfix ts = .ok out) :
    out.Perm (ts.filter solid) := by
  obtain ⟨-, placed, rfl, arranges⟩ := arranges_of_toPostfix h
  have := arranges.perm.map Prod.fst
  rwa [← Function.comp_def solid Prod.fst, ← List.filter_map, map_fst_zipIdx] at this

theorem toPostfix_error_iff {ts : List Token} {fault : CompileFault}
    (worded : ∀ t ∈ ts, t.kind = .operator → ∃ op : Operation, t.text = op.symbol) :
    toPostfix ts = .error fault ↔ fault = .unbalanced ∧ ¬ Matched ts := by
  rw [matched_iff, Bool.not_eq_true]
  constructor
  · exact reorder_error worded
  · rintro ⟨rfl, unbalanced⟩
    cases h : toPostfix ts with
    | ok out =>
      rw [(arranges_of_toPostfix h).1] at unbalanced
      cases unbalanced
    | error fault => rw [(reorder_error worded h).1]

/-- The operators of a text are the four of the language. -/
theorem Token.Proper.worded {t : Token} (h : Proper t) (hk : t.kind = .operator) :
    ∃ op : Operation, t.text = op.symbol := by
  cases h with
  | operator op => exact ⟨op, rfl⟩
  | number text | opening | closing => cases hk

theorem worded_of_tokenize {text : String} {ts : List Token} (h : tokenize text = .ok ts) :
    ∀ t ∈ ts, t.kind = .operator → ∃ op : Operation, t.text = op.symbol :=
  fun t ht => (scanned_of_tokenize h t ht).1.worded

/-- Reordering fails exactly if some parenthesis has no partner.  Otherwise it sends out every other
token once, in an order that keeps the numbers as they are and in which an operator comes after the
numbers before it and, if it stands between two partners, before everything behind them. -/
theorem arranges_or_unbalanced {ts : List Token}
    (worded : ∀ t ∈ ts, t.kind = .operator → ∃ op : Operation, t.text = op.symbol) :
    (toPostfix ts = .error .unbalanced ↔
      (∃ us, us <+: ts ∧ openings us < closings us) ∨ openings ts ≠ closings ts) ∧
    (toPostfix ts = .error .unbalanced ∨
      ∃ out : List Placed, toPostfix ts = .ok (out.map Prod.fst) ∧
        (∀ x ∈ out, x.1.kind ≠ .leftParen ∧ x.1.kind ≠ .rightParen) ∧
        Arranges ts.zipIdx out) := by
  constructor
  · rw [toPostfix_error_iff worded, Matched, not_and_or]
    simp only [not_forall, not_le, exists_prop, true_and]
  · cases h : toPostfix ts with
    | error fault => exact Or.inl (by rw [((toPostfix_error_iff worded).1 h).1])
    | ok out =>
      obtain ⟨-, placed, rfl, arranges⟩ := arranges_of_toPostfix h
      refine Or.inr ⟨placed, rfl, fun x hx => ?_, arranges⟩
      have solid := (List.mem_filter.1 (arranges.perm.mem_iff.1 hx)).2
      rw [Token.solid] at solid
      cases hk : x.1.kind <;> simp [hk] at solid ⊢

/-- In `1(2-)+3` an operator has no right operand, and the tokens are reordered all the same. -/
theorem arranges_of_slip :
    let ts := [ofNumber "1", opening, ofNumber "2", Operation.subtract.token, closing,
      Operation.add.token, ofNumber "3"]
    let out := [ofNumber "1", ofNumber "2", Operation.subtract.token, ofNumber "3",
      Operation.add.token]
    (∀ t ∈ ts, t.kind = .operator → ∃ op : Operation, t.text = op.symbol) ∧
      toPostfix ts = .ok out ∧
      ∃ placed : List Placed, placed.map Prod.fst = out ∧ Arranges ts.zipIdx placed := by
  intro ts out
  have proper : ∀ t ∈ ts, Proper t := by
    simp only [ts, List.forall_mem_cons]
    exact ⟨.number _, .opening, .number _, .operator _, .closing, .operator _, .number _, by simp⟩
  have worded : ∀ t ∈ ts, t.kind = .operator → ∃ op : Operation, t.text = op.symbol :=
    fun t ht => (proper t ht).worded
  have value : toPostfix ts = .ok out := by decide +kernel
  refine ⟨worded, value, ?_⟩
  rcases (arranges_or_unbalanced worded).2 with h | ⟨placed, h, -, arranges⟩
  · rw [value] at h
    cases h
  · exact ⟨placed, Except.ok.inj (h.symm.trans value), arranges⟩

end Stepwise
