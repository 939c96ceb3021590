import Mathlib.Data.List.Nodup
import Mathlib.Data.List.Perm.Basic
import Stepwise.Proofs.Transport.Traffic

/-!
# The accounts of a broker

A message that was published is, at any time, in one place: in the hands of the thread that
publishes or requeues it, in its queue, in a delivery that is not settled, or out of the broker,
acknowledged or rejected.  What the broker counts as unsettled is kept in other sections than the
messages themselves, so the two agree only when no errand is half done; until then the counter is
ahead, never behind.

`Ledger` is what each deed preserves, as equations between counts.  `Accounts` is what can be read
off it about the places and the counter, and `accounts_run` says that it holds after any deeds.
-/

namespace Stepwise

open Stepwise.Text (Body)

namespace Broker

variable {η : Type}

/-! ## What a section changes -/

theorem line_act (m : Message) (step : Section) (b : Broker η) (q : String) :
    (step.act m b).line q = b.line q ++ if step = .put ∧ m.queue = q then [m.body] else [] := by
  cases step with
  | count | bury | discount => simp [Section.act, line, count, bury, discount]
  | declare =>
    unfold Section.act line declare
    by_cases h : q = m.queue
    · subst h
      cases found : b.waiting.lookup m.queue <;> simp [lookup_alter, found]
    · simp [lookup_alter, h]
  | put =>
    unfold Section.act line put
    by_cases h : q = m.queue
    · simp [lookup_alter, h]
    · simp [lookup_alter, h, Ne.symm h]

theorem dead_act (m : Message) (step : Section) (b : Broker η) :
    (step.act m b).dead = b.dead ++ if step = .bury then [m] else [] := by
  cases step <;> simp [Section.act, count, declare, put, bury, discount]

/-- The counter goes up and down by one; it could only fail to go down where it is at zero. -/
theorem unsettledCount_act (m : Message) (step : Section) (b : Broker η) (q : String)
    (positive : step = .discount → 0 < b.unsettledCount m.queue) :
    (step.act m b).unsettledCount q + (if step = .discount ∧ m.queue = q then 1 else 0) =
      b.unsettledCount q + if step = .count ∧ m.queue = q then 1 else 0 := by
  cases step with
  | declare | put | bury => simp [Section.act, unsettledCount, declare, put, bury]
  | count =>
    unfold Section.act unsettledCount count
    by_cases h : q = m.queue
    · simp [lookup_alter, h]
    · simp [lookup_alter, h, Ne.symm h]
  | discount =>
    have positive := positive rfl
    unfold unsettledCount at positive
    unfold Section.act unsettledCount discount
    by_cases h : q = m.queue
    · simp [lookup_alter, h]
      omega
    · simp [lookup_alter, h, Ne.symm h]

theorem unsettledCount_of_isSettled {b : Broker η} (settled : b.isSettled = true) (q : String) :
    b.unsettledCount q = 0 := by
  unfold unsettledCount
  cases found : b.unsettled.lookup q with
  | none => rfl
  | some n =>
    obtain ⟨front, back, heq, -⟩ := List.lookup_eq_some_iff.1 found
    have := List.all_eq_true.1 settled (q, n) (by simp [heq])
    simpa using this

end Broker

/-! ## Calls -/

namespace Traffic

namespace Call

/-- A section is left of a call.  As long as that is `put`, the message is in the hands of the
call. -/
def left (x : Broker.Section) (c : Call) : Bool := c.rest.contains x

/-- The message is counted, and still to be put into its queue. -/
def ahead (c : Call) : Bool := c.left .put && !c.left .count

/-- Something is left to do, and something is done: a delivery is marked as settled before the first
section, while a publish changes nothing before its first section. -/
def HalfDone (c : Call) : Prop := c.rest ≠ [] ∧ (c.errand = .publish → c.stage ≠ 0)

/-- The counter differs from what there is on account of the calls that are half done. -/
theorem halfDone_iff (c : Call) : c.HalfDone ↔ c.ahead = true ∨ c.left .discount = true := by
  obtain ⟨letter, errand, stage⟩ := c
  unfold HalfDone ahead left Call.rest
  rcases errand with _ | _ | _ | _ <;> rcases stage with _ | _ | _ | _ | stage <;>
    simp [Broker.Errand.sections]

@[simp] theorem left_fresh (letter : Letter) (errand : Broker.Errand) (x : Broker.Section) :
    left x ⟨letter, errand, 0⟩ = errand.sections.contains x := rfl

@[simp] theorem ahead_fresh (letter : Letter) (errand : Broker.Errand) :
    ahead ⟨letter, errand, 0⟩ = false := by
  rcases errand with _ | _ | _ | _ <;> rfl

theorem nodup_rest (c : Call) : c.rest.Nodup := by
  have all : c.errand.sections.Nodup := by
    rcases c.errand with _ | _ | _ | _ <;> decide
  exact all.sublist (List.drop_sublist c.stage _)

/-! What a section changes about a call, as sums of ones. -/

variable {c : Call} {step : Broker.Section} {others : List Broker.Section}

theorem left_next (rest : c.rest = step :: others) (x : Broker.Section) (P : Bool) :
    (if c.left x && P then 1 else 0) =
      (if c.next.left x && P then 1 else 0) + if step = x ∧ P = true then 1 else 0 := by
  have fresh : step ∉ others := (List.nodup_cons.1 (rest ▸ c.nodup_rest)).1
  unfold left
  rw [rest_next rest, rest]
  by_cases h : step = x
  · subst h
    simp [fresh]
  · simp [h, Ne.symm h]

/-- The message is counted before it is put into its queue. -/
theorem ahead_next (rest : c.rest = step :: others) (P : Bool) :
    (if c.ahead && P then 1 else 0) + (if step = .count ∧ P = true then 1 else 0) =
      (if c.next.ahead && P then 1 else 0) + if step = .put ∧ P = true then 1 else 0 := by
  unfold ahead left
  rw [rest_next rest, rest]
  obtain ⟨letter, errand, stage⟩ := c
  unfold Call.rest at rest
  rcases errand with _ | _ | _ | _ <;> rcases stage with _ | _ | _ | _ | stage <;>
    simp [Broker.Errand.sections] at rest <;> obtain ⟨rfl, rfl⟩ := rest <;> cases P <;> rfl

end Call

theorem countP_set_add {α : Type} (p : α → Bool) {l : List α} {i : Nat} {a : α} (b : α)
    (at_i : l[i]? = some a) :
    (l.set i b).countP p + (if p a then 1 else 0) = l.countP p + if p b then 1 else 0 := by
  induction l generalizing i with
  | nil => cases at_i
  | cons x rest ih =>
    cases i with
    | zero =>
      obtain rfl : x = a := by simpa using at_i
      simp only [List.set_cons_zero, List.countP_cons]
      omega
    | succ i =>
      have := ih (i := i) (by simpa using at_i)
      simp only [List.set_cons_succ, List.countP_cons]
      omega

variable {η : Type}

/-! ## The ledger -/

/-- What each deed preserves. -/
structure Ledger (t : Traffic η) : Prop where
  /-- Messages are numbered in the order in which they are published. -/
  numbers : t.published.map Letter.number = List.range t.published.length
  /-- What the queues hold. -/
  lines : ∀ q, t.broker.line q =
    (t.waiting.filter (·.message.queue = q)).map fun l => l.message.body
  /-- Each letter that was published is in the hands of a call or in its queue, or was handed over
  for the last time. -/
  letters : ∀ l, t.published.count l =
    t.calls.countP (fun c => c.left .put && decide (c.letter = l)) + t.waiting.count l +
      t.handovers.countP (fun h => decide (h.outcome ≠ some .requeue) && decide (h.letter = l))
  /-- Each message that was rejected is among the dead letters or about to be put there. -/
  dead : ∀ m, t.broker.dead.count m +
      t.calls.countP (fun c => c.left .bury && decide (c.letter.message = m)) =
    t.handovers.countP fun h =>
      decide (h.outcome = some .reject) && decide (h.letter.message = m)
  /-- What the counter of a queue stands for. -/
  counter : ∀ q, t.broker.unsettledCount q =
    t.waiting.countP (fun l => decide (l.message.queue = q)) +
      t.handovers.countP (fun h =>
        decide (h.outcome = none) && decide (h.letter.message.queue = q)) +
      t.calls.countP (fun c => c.ahead && decide (c.letter.message.queue = q)) +
      t.calls.countP (fun c => c.left .discount && decide (c.letter.message.queue = q))

variable {t : Traffic η}

theorem ledger_start : (start : Traffic η).Ledger where
  numbers := rfl
  lines _ := rfl
  letters _ := rfl
  dead _ := rfl
  counter _ := rfl

/-- A counter that a call is about to reduce is not at zero. -/
theorem Ledger.positive (h : t.Ledger) {i : Nat} {c : Call} {others : List Broker.Section}
    (at_i : t.calls[i]? = some c) (rest : c.rest = .discount :: others) :
    0 < t.broker.unsettledCount c.letter.message.queue := by
  have owes : 0 < t.calls.countP fun d =>
      d.left .discount && decide (d.letter.message.queue = c.letter.message.queue) := by
    rw [List.countP_pos_iff]
    exact ⟨c, List.mem_of_getElem? at_i, by simp [Call.left, rest]⟩
  rw [h.counter]
  omega

/-- A deed that only concerns consumers changes no account. -/
theorem Ledger.of_broker (h : t.Ledger) {b : Broker η} (line : ∀ q, b.line q = t.broker.line q)
    (dead : b.dead = t.broker.dead)
    (unsettledCount : ∀ q, b.unsettledCount q = t.broker.unsettledCount q) :
    { t with broker := b }.Ledger where
  numbers := h.numbers
  lines q := (line q).trans (h.lines q)
  letters := h.letters
  dead m := by
    show b.dead.count m + _ = _
    rw [dead]
    exact h.dead m
  counter q := (unsettledCount q).trans (h.counter q)

@[simp] theorem countP_begin (letter : Letter) (errand : Broker.Errand) (p : Call → Bool) :
    (t.begin letter errand).calls.countP p =
      t.calls.countP p + if p ⟨letter, errand, 0⟩ then 1 else 0 := by
  show (t.calls ++ [_]).countP p = _
  rw [List.countP_append, List.countP_singleton]

theorem Ledger.publish (h : t.Ledger) (m : Message) : (t.publish m).Ledger := by
  by_cases closed : t.broker.closed = true
  · unfold Traffic.publish
    rw [if_pos closed]
    exact h
  rw [publish_of_open closed]
  constructor
  · simp [List.range_succ, h.numbers]
  · exact h.lines
  · intro l
    have before := h.letters l
    simp [Broker.Errand.sections, List.count_singleton] at *
    omega
  · intro m'
    have before := h.dead m'
    simpa [Broker.Errand.sections] using before
  · intro q
    have before := h.counter q
    simpa [Broker.Errand.sections] using before

/-- The letter that a delivery gets is the first of its queue. -/
theorem Ledger.take (h : t.Ledger) (queue : String) : (t.take queue).Ledger := by
  unfold Traffic.take
  cases taken : t.broker.take? queue with
  | none => exact h
  | some p =>
    obtain ⟨m, b⟩ := p
    obtain ⟨rfl, line, others, unsettled, dead⟩ := Broker.take?_eq_some taken
    rw [h.lines, List.map_eq_cons_iff] at line
    obtain ⟨l, later, filtered, body, rest⟩ := line
    obtain ⟨front, back, waiting, before, at_l, after⟩ := List.filter_eq_cons_iff.1 filtered
    have at_l : l.message.queue = m.queue := by simpa using at_l
    have letter : (⟨l.number, m⟩ : Letter) = l := by
      obtain ⟨number, queue, body'⟩ := l
      obtain ⟨queue', body''⟩ := m
      cases at_l
      cases body
      rfl
    have oldest : t.waiting.find? (·.message.queue = m.queue) = some l := by
      rw [List.find?_eq_some_iff_append]
      exact ⟨by simpa using at_l, front, back, waiting, by simpa using before⟩
    have erased : t.waiting.eraseP (·.message.queue = m.queue) = front ++ back := by
      rw [waiting, List.eraseP_append_right _ (by simpa using before),
        List.eraseP_cons_of_pos (by simpa using at_l)]
    simp only [oldest, erased, Option.elim_some, letter]
    constructor
    · exact h.numbers
    · intro q
      by_cases hq : q = m.queue
      · subst hq
        have nothing : front.filter (fun x => decide (x.message.queue = m.queue)) = [] := by
          simpa using before
        simp [nothing, after, rest]
      · have at_q : ¬ l.message.queue = q := by
          rw [at_l]
          exact Ne.symm hq
        simp [others q hq, h.lines q, waiting, at_q]
    · intro x
      have account := h.letters x
      simp [waiting, List.count_cons] at *
      omega
    · intro m'
      have account := h.dead m'
      simpa [dead] using account
    · intro q
      have account := h.counter q
      have same : b.unsettledCount q = t.broker.unsettledCount q := by
        unfold Broker.unsettledCount
        rw [unsettled]
      simp [waiting, List.countP_cons, same] at *
      omega

theorem Ledger.settle (h : t.Ledger) (k : Nat) (how : Settlement) : (t.settle k how).Ledger := by
  cases at_k : t.handovers[k]? with
  | none =>
    unfold Traffic.settle
    rw [at_k]
    exact h
  | some handover =>
    obtain ⟨letter, outcome⟩ := handover
    cases outcome with
    | some before =>
      rw [settle_of_settled at_k]
      exact h
    | none =>
      rw [settle_of_fresh at_k]
      constructor
      · exact h.numbers
      · exact h.lines
      · intro l
        have before := h.letters l
        have changed := countP_set_add
          (fun h => decide (h.outcome ≠ some .requeue) && decide (h.letter = l))
          ⟨letter, some how⟩ at_k
        cases how <;> simp [Broker.Errand.sections] at * <;> omega
      · intro m
        have before := h.dead m
        have changed := countP_set_add
          (fun h => decide (h.outcome = some .reject) && decide (h.letter.message = m))
          ⟨letter, some how⟩ at_k
        cases how <;> simp [Broker.Errand.sections] at * <;> omega
      · intro q
        have before := h.counter q
        have changed := countP_set_add
          (fun h => decide (h.outcome = none) && decide (h.letter.message.queue = q))
          ⟨letter, some how⟩ at_k
        cases how <;> simp [Broker.Errand.sections] at * <;> omega

/-- The calls of a kind, when one of them is one section further. -/
theorem countP_next {i : Nat} {c : Call} (at_i : t.calls[i]? = some c) (flag : Call → Bool)
    (P : Letter → Bool) :
    (t.calls.set i c.next).countP (fun c => flag c && P c.letter) +
        (if flag c && P c.letter then 1 else 0) =
      t.calls.countP (fun c => flag c && P c.letter) +
        if flag c.next && P c.letter then 1 else 0 :=
  countP_set_add (fun c => flag c && P c.letter) c.next at_i

theorem Ledger.proceed (h : t.Ledger) (i : Nat) : (t.proceed i).Ledger := by
  unfold Traffic.proceed
  cases at_i : t.calls[i]? with
  | none => exact h
  | some c =>
    cases rest : c.rest with
    | nil => simpa only [rest] using h
    | cons step others =>
      simp only [rest]
      constructor
      · exact h.numbers
      · intro q
        simp only
        rw [Broker.line_act, h.lines]
        by_cases put : step = .put
        · by_cases queue : c.letter.message.queue = q <;> simp [put, queue]
        · simp [put]
      · intro l
        have before := h.letters l
        have changed := countP_next at_i (Call.left .put) fun letter => decide (letter = l)
        have moved := Call.left_next rest .put (decide (c.letter = l))
        by_cases put : step = .put <;> simp [put, List.count_singleton] at * <;> omega
      · intro m
        have before := h.dead m
        have changed := countP_next at_i (Call.left .bury) fun letter => decide (letter.message = m)
        have moved := Call.left_next rest .bury (decide (c.letter.message = m))
        simp only
        rw [Broker.dead_act]
        by_cases bury : step = .bury <;> simp [bury, List.count_singleton] at * <;> omega
      · intro q
        have before := h.counter q
        have changed := countP_next at_i Call.ahead fun l => decide (l.message.queue = q)
        have changed' :=
          countP_next at_i (Call.left .discount) fun l => decide (l.message.queue = q)
        have moved := Call.ahead_next rest (decide (c.letter.message.queue = q))
        have moved' := Call.left_next rest .discount (decide (c.letter.message.queue = q))
        have counted := Broker.unsettledCount_act c.letter.message step t.broker q
          (fun discount => h.positive at_i (discount ▸ rest))
        by_cases put : step = .put <;> simp [put] at * <;> omega

/-- The step lemma: whatever is done next, the accounts stay in order. -/
theorem Ledger.act (h : t.Ledger) (d : Deed η) : (t.act d).Ledger := by
  cases d with
  | publish m => exact h.publish m
  | take queue => exact h.take queue
  | settle k how => exact h.settle k how
  | fault k => exact h.settle k .reject
  | proceed i => exact h.proceed i
  | declare queue =>
    refine h.of_broker (b := t.broker.declare queue) (fun q => ?_) rfl fun _ => rfl
    simpa [Broker.Section.act] using Broker.line_act ⟨queue, .empty⟩ .declare t.broker q
  | subscribe queue handler =>
    by_cases closed : t.broker.closed = true
    · unfold Traffic.act
      simpa [closed] using h
    · unfold Traffic.act
      simp only [closed]
      exact h.of_broker (fun _ => rfl) rfl fun _ => rfl
  | cancel queue =>
    exact h.of_broker (b := t.broker.cancel queue) (fun _ => rfl) rfl fun _ => rfl
  | close => exact h.of_broker (b := t.broker.close) (fun _ => rfl) rfl fun _ => rfl

/-- The run lemma. -/
theorem Ledger.run (h : t.Ledger) (deeds : List (Deed η)) : (t.run deeds).Ledger := by
  induction deeds generalizing t with
  | nil => exact h
  | cons d deeds ih => exact ih (h.act d)

/-! ## Places -/

/-- In the hands of a thread that publishes it. -/
def arriving (t : Traffic η) : List Letter :=
  (t.calls.filter fun c => c.errand = .publish && c.left .put).map (·.letter)

/-- In the hands of a thread that requeues it. -/
def returning (t : Traffic η) : List Letter :=
  (t.calls.filter fun c => c.errand = .settle .requeue && c.left .put).map (·.letter)

/-- In a delivery with such an outcome; one without is not settled. -/
def delivered (outcome : Option Settlement) (t : Traffic η) : List Letter :=
  (t.handovers.filter (·.outcome = outcome)).map (·.letter)

/-- Rejected, and not yet among the dead letters. -/
def dying (t : Traffic η) : List Letter :=
  (t.calls.filter (·.left .bury)).map (·.letter)

/-- What a broker accounts for. -/
structure Accounts (t : Traffic η) : Prop where
  /-- No two letters are the same. -/
  distinct : t.published.Nodup
  /-- Each one that was published is in one place. -/
  places : (t.arriving ++ t.waiting ++ t.delivered none ++ t.returning ++
    t.delivered (some .ack) ++ t.delivered (some .reject)).Perm t.published
  /-- Those that wait are what the queues hold, in this order. -/
  queues : ∀ q, t.broker.line q =
    (t.waiting.filter (·.message.queue = q)).map fun l => l.message.body
  /-- Those that were rejected are the dead letters, up to those on their way. -/
  dead : (t.broker.dead ++ t.dying.map (·.message)).Perm
    ((t.delivered (some .reject)).map (·.message))
  /-- The counter is never behind. -/
  atLeast : ∀ q, t.broker.depth q + ((t.delivered none).filter (·.message.queue = q)).length ≤
    t.broker.unsettledCount q
  /-- It is exact when no errand is half done. -/
  exact : ∀ q, (∀ c ∈ t.calls, c.letter.message.queue = q → ¬ c.HalfDone) →
    t.broker.unsettledCount q =
      t.broker.depth q + ((t.delivered none).filter (·.message.queue = q)).length
  /-- It is never reduced at zero. -/
  positive : ∀ c ∈ t.calls, c.rest.head? = some .discount →
    0 < t.broker.unsettledCount c.letter.message.queue
  /-- When all counters are at zero, nothing waits, is unsettled or on its way back. -/
  settled : t.broker.isSettled = true →
    t.waiting = [] ∧ t.delivered none = [] ∧ t.returning = [] ∧ ∀ c ∈ t.calls, ¬ c.HalfDone

/-! ## Reading the ledger -/

section Counting

variable {α β : Type} [DecidableEq β]

theorem count_map_filter (f : α → β) (p : α → Bool) (l : List α) (x : β) :
    ((l.filter p).map f).count x = l.countP fun a => p a && decide (f a = x) := by
  rw [List.count, List.countP_map, List.countP_filter]
  congr 1
  funext a
  simp [Bool.and_comm, beq_eq_decide]

theorem length_filter_map_filter (f : α → Letter) (p : α → Bool) (P : Letter → Bool) (l : List α) :
    (((l.filter p).map f).filter P).length = l.countP fun a => p a && P (f a) := by
  rw [← List.countP_eq_length_filter, List.countP_map, List.countP_filter]
  congr 1
  funext a
  simp [Bool.and_comm]

theorem countP_add {p q r : α → Bool}
    (split : ∀ a, (if p a then 1 else 0) = (if q a then 1 else 0) + if r a then 1 else 0)
    (l : List α) : l.countP p = l.countP q + l.countP r := by
  induction l with
  | nil => rfl
  | cons a l ih =>
    have := split a
    simp only [List.countP_cons, ih]
    omega

end Counting

/-- Only one that publishes or requeues has a message to put into its queue. -/
theorem errand_of_left_put {c : Call} (h : c.left .put = true) :
    c.errand = .publish ∨ c.errand = .settle .requeue := by
  obtain ⟨letter, errand, stage⟩ := c
  unfold Call.left Call.rest at h
  rcases errand with _ | _ | _ | _
  · exact Or.inl rfl
  · rcases stage with _ | stage <;> simp [Broker.Errand.sections] at h
  · rcases stage with _ | _ | stage <;> simp [Broker.Errand.sections] at h
  · exact Or.inr rfl

theorem Ledger.places (h : t.Ledger) : (t.arriving ++ t.waiting ++ t.delivered none ++
    t.returning ++ t.delivered (some .ack) ++ t.delivered (some .reject)).Perm t.published := by
  rw [List.perm_iff_count]
  intro x
  have calls := countP_add (l := t.calls)
    (p := fun c => c.left .put && decide (c.letter = x))
    (q := fun c => c.errand = .publish && c.left .put && decide (c.letter = x))
    (r := fun c => c.errand = .settle .requeue && c.left .put && decide (c.letter = x)) (by
      intro c
      by_cases put : c.left .put = true
      · rcases errand_of_left_put put with errand | errand <;> simp [errand]
      · simp [put])
  have handovers := countP_add (l := t.handovers)
    (p := fun d => decide (d.outcome ≠ some .requeue) && decide (d.letter = x))
    (q := fun d => decide (d.outcome = none) && decide (d.letter = x))
    (r := fun d => decide (d.outcome = some .ack ∨ d.outcome = some .reject) &&
      decide (d.letter = x)) (by
      intro d
      rcases d.outcome with _ | _ | _ | _ <;> simp)
  have settled := countP_add (l := t.handovers)
    (p := fun d => decide (d.outcome = some .ack ∨ d.outcome = some .reject) &&
      decide (d.letter = x))
    (q := fun d => decide (d.outcome = some .ack) && decide (d.letter = x))
    (r := fun d => decide (d.outcome = some .reject) && decide (d.letter = x)) (by
      intro d
      rcases d.outcome with _ | _ | _ | _ <;> simp)
  have account := h.letters x
  unfold arriving returning delivered
  simp only [List.count_append, count_map_filter]
  omega

theorem Ledger.dead_perm (h : t.Ledger) : (t.broker.dead ++ t.dying.map (·.message)).Perm
    ((t.delivered (some .reject)).map (·.message)) := by
  rw [List.perm_iff_count]
  intro m
  unfold dying delivered
  rw [List.count_append, List.map_map, List.map_map, count_map_filter, count_map_filter]
  exact h.dead m

theorem Ledger.depth (h : t.Ledger) (q : String) :
    t.broker.depth q = t.waiting.countP fun l => l.message.queue = q := by
  rw [Broker.depth_eq, h.lines, List.length_map, List.countP_eq_length_filter]

/-- Each message of a queue that is not settled is counted, and each call that is half done counts
once more. -/
theorem Ledger.unsettledCount (h : t.Ledger) (q : String) : t.broker.unsettledCount q =
    t.broker.depth q + ((t.delivered none).filter (·.message.queue = q)).length +
      (t.calls.countP (fun c => c.ahead && decide (c.letter.message.queue = q)) +
        t.calls.countP fun c => c.left .discount && decide (c.letter.message.queue = q)) := by
  unfold delivered
  rw [h.counter, h.depth, length_filter_map_filter, Nat.add_assoc]

theorem Ledger.settled (h : t.Ledger) (settled : t.broker.isSettled = true) :
    t.waiting = [] ∧ t.delivered none = [] ∧ t.returning = [] ∧ ∀ c ∈ t.calls, ¬ c.HalfDone := by
  have zero := fun q => (h.counter q).symm.trans (Broker.unsettledCount_of_isSettled settled q)
  have waiting : t.waiting = [] := by
    rw [List.eq_nil_iff_forall_not_mem]
    intro l mem
    have none_ : t.waiting.countP (fun x => decide (x.message.queue = l.message.queue)) = 0 := by
      have := zero l.message.queue
      omega
    simpa using List.countP_eq_zero.1 none_ l mem
  have held : t.delivered none = [] := by
    unfold delivered
    rw [List.map_eq_nil_iff, List.filter_eq_nil_iff]
    intro d mem
    have none_ : t.handovers.countP (fun x =>
        decide (x.outcome = none) &&
          decide (x.letter.message.queue = d.letter.message.queue)) = 0 := by
      have := zero d.letter.message.queue
      omega
    simpa using List.countP_eq_zero.1 none_ d mem
  have done_ : ∀ c ∈ t.calls, ¬ c.HalfDone := by
    intro c mem half
    have := zero c.letter.message.queue
    rcases c.halfDone_iff.1 half with ahead | owes
    · have none_ : t.calls.countP (fun x =>
          x.ahead && decide (x.letter.message.queue = c.letter.message.queue)) = 0 := by
        omega
      simpa [ahead] using List.countP_eq_zero.1 none_ c mem
    · have none_ : t.calls.countP (fun x =>
          x.left .discount && decide (x.letter.message.queue = c.letter.message.queue)) = 0 := by
        omega
      simpa [owes] using List.countP_eq_zero.1 none_ c mem
  refine ⟨waiting, held, ?_, done_⟩
  unfold returning
  rw [List.map_eq_nil_iff, List.filter_eq_nil_iff]
  intro c mem requeues
  obtain ⟨errand, put⟩ : c.errand = .settle .requeue ∧ c.left .put = true := by simpa using requeues
  refine done_ c mem ⟨?_, ?_⟩
  · intro nothing
    unfold Call.left at put
    rw [nothing] at put
    cases put
  · rw [errand]
    nofun

theorem Ledger.accounts (h : t.Ledger) : t.Accounts where
  distinct := List.Nodup.of_map Letter.number (by rw [h.numbers]; exact List.nodup_range)
  places := h.places
  queues := h.lines
  dead := h.dead_perm
  atLeast q := by
    have := h.unsettledCount q
    omega
  exact q quiet := by
    have nothing : ∀ flag : Call → Bool, (∀ c, flag c = true → c.HalfDone) →
        t.calls.countP (fun c => flag c && decide (c.letter.message.queue = q)) = 0 := by
      intro flag half
      rw [List.countP_eq_zero]
      intro c mem
      simp only [Bool.and_eq_true, decide_eq_true_eq, not_and]
      exact fun flagged at_q => quiet c mem at_q (half c flagged)
    rw [h.unsettledCount, nothing _ fun c ahead => c.halfDone_iff.2 (Or.inl ahead),
      nothing _ fun c owes => c.halfDone_iff.2 (Or.inr owes)]
    rfl
  positive c mem next := by
    obtain ⟨i, at_i⟩ := List.getElem?_of_mem mem
    obtain ⟨others, rest⟩ := List.head?_eq_some_iff.1 next
    exact h.positive at_i rest
  settled := h.settled

/-! ## First settlements -/

/-- Nothing changes how a delivery was settled. -/
theorem settled_act {k : Nat} {letter : Letter} {how : Settlement}
    (settled : t.handovers[k]? = some ⟨letter, some how⟩) (d : Deed η) :
    (t.act d).handovers[k]? = some ⟨letter, some how⟩ := by
  have inside := (List.getElem?_eq_some_iff.1 settled).1
  -- A delivery that is settled now is another one.
  have other : ∀ k' how', (t.settle k' how').handovers[k]? = some ⟨letter, some how⟩ := by
    intro k' how'
    unfold Traffic.settle
    split
    · next letter' fresh =>
      have ne : k' ≠ k := by
        rintro rfl
        rw [settled] at fresh
        cases fresh
      simpa [ne] using settled
    · exact settled
  cases d with
  | publish m =>
    by_cases closed : t.broker.closed = true
    · simpa [Traffic.act, Traffic.publish, closed] using settled
    · simpa [Traffic.act, publish_of_open closed] using settled
  | take queue =>
    show (t.take queue).handovers[k]? = _
    unfold Traffic.take
    split
    · exact settled
    · exact (List.getElem?_append_left inside).trans settled
  | settle k' how' => exact other k' how'
  | fault k' => exact other k' .reject
  | proceed i =>
    show (t.proceed i).handovers[k]? = _
    unfold Traffic.proceed
    split
    · exact settled
    · split
      · exact settled
      · exact settled
  | subscribe queue handler =>
    unfold Traffic.act
    simp only
    split
    · exact settled
    · exact settled
  | declare | cancel | close => exact settled

theorem settled_run {k : Nat} {letter : Letter} {how : Settlement}
    (settled : t.handovers[k]? = some ⟨letter, some how⟩) (deeds : List (Deed η)) :
    (t.run deeds).handovers[k]? = some ⟨letter, some how⟩ := by
  induction deeds generalizing t with
  | nil => exact settled
  | cons d deeds ih => exact ih (settled_act settled d)

/-- Whatever the threads of a broker do, and in whatever order, it accounts for all messages, and a
delivery that was settled is neither settled otherwise later on nor settled once more. -/
theorem accounts_run (deeds : List (Deed η)) :
    (start.run deeds).Accounts ∧
      ∀ k letter how, (start.run deeds).handovers[k]? = some ⟨letter, some how⟩ → ∀ more,
        ((start.run deeds).run more).handovers[k]? = some ⟨letter, some how⟩ ∧
          (∀ how', ((start.run deeds).run more).act (.settle k how') =
            (start.run deeds).run more) ∧
          ((start.run deeds).run more).act (.fault k) = (start.run deeds).run more := by
  refine ⟨(ledger_start.run deeds).accounts, ?_⟩
  intro k letter how settled more
  have later := settled_run settled more
  exact ⟨later, fun how' => settle_of_settled later how', settle_of_settled later .reject⟩

/-- A message that is put back counts twice until its first delivery is off the counter. -/
example : ((start : Traffic Unit).run [.publish ⟨"q", .empty⟩, .proceed 0, .proceed 0, .proceed 0,
    .take "q", .settle 0 .requeue, .proceed 1]).broker.unsettledCount "q" = 2 := by decide

end Traffic

end Stepwise
