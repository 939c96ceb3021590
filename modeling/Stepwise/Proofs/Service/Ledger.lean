import Mathlib.Data.List.Nodup
import Stepwise.Proofs.Service.Phases
import Stepwise.Proofs.Service.Table

/-!
# What a client waits for, and what has come

What a client waits for can be read off the events of its tasks: an id is registered from the moment
its send starts to wait until a response with the id arrives, a wait for it runs out of time, or the
publish of the send is refused (`Registered`).  A response that arrives under a registered id takes
the place of its ticket (`Arrived`), which nothing else can take any more, so it is resolved once
and with this response.  `Ledger` is the invariant that says so, and `Ledger.step` keeps it.
-/

namespace Stepwise

open Stepwise.Text (Body)

namespace Client

variable {κ η : Type} {settings : Settings} {me : η} {name : String}

/-! ## Reading the events -/

/-- The event ends the waiting under an id. -/
def Event.Ends (id : String) : Event → Prop
  | arrives r => r.expressionId = id
  | expires id' | withdraws id' => id' = id
  | _ => False

/-- The id that is issued. -/
def Event.issued? : Event → Option String
  | issues id => some id
  | _ => none

/-- The place that is resolved. -/
def Event.resolved? : Event → Option Nat
  | resolves place _ => some place
  | _ => none

variable {log : List (κ × Event)} {k : κ} {e : Event} {id : String} {place : Nat}
variable {r : ExpressionResponse}

/-- After these events the client waits under an id, and the response will have this place. -/
def Registered (log : List (κ × Event)) (id : String) (place : Nat) : Prop :=
  ∃ before k after, log = before ++ (k, .registers id place) :: after ∧
    ∀ e ∈ after, ¬ e.2.Ends id

/-- The response came with the delivery of this task while its id was registered. -/
def Arrived (log : List (κ × Event)) (k : κ) (place : Nat) (r : ExpressionResponse) : Prop :=
  ∃ before after, log = before ++ (k, .arrives r) :: after ∧
    Registered before r.expressionId place

/-- The events of one task. -/
def own [DecidableEq κ] (log : List (κ × Event)) (k : κ) : List Event :=
  log.filterMap fun e => if e.1 = k then some e.2 else none

/-- Where an entry stands in a list that has grown by one. -/
theorem concat_eq_append_cons_iff {α : Type} {l before after : List α} {x y : α} :
    l ++ [x] = before ++ y :: after ↔ before = l ∧ y = x ∧ after = [] ∨
      ∃ after', after = after' ++ [x] ∧ l = before ++ y :: after' := by
  constructor
  · intro heq
    rcases List.eq_nil_or_concat after with rfl | ⟨after', last, rfl⟩
    · obtain ⟨rfl, hlast⟩ := List.append_inj' heq rfl
      exact .inl ⟨rfl, (List.singleton_inj.1 hlast).symm, rfl⟩
    · rw [List.concat_eq_append, ← List.cons_append, ← List.append_assoc] at heq
      obtain ⟨rfl, hlast⟩ := List.append_inj' heq rfl
      rw [List.concat_eq_append, ← hlast]
      exact .inr ⟨after', rfl, rfl⟩
  · rintro (⟨rfl, rfl, rfl⟩ | ⟨after', rfl, rfl⟩)
    · rfl
    · rw [List.append_assoc, List.cons_append]

theorem registered_concat : Registered (log ++ [(k, e)]) id place ↔
    e = .registers id place ∨ Registered log id place ∧ ¬ e.Ends id := by
  constructor
  · rintro ⟨before, k', after, heq, quiet⟩
    rcases concat_eq_append_cons_iff.1 heq with ⟨-, last, -⟩ | ⟨after', rfl, rfl⟩
    · exact .inl (Prod.mk.inj last).2.symm
    · rw [List.forall_mem_append, List.forall_mem_singleton] at quiet
      exact .inr ⟨⟨before, k', after', rfl, quiet.1⟩, quiet.2⟩
  · rintro (rfl | ⟨⟨before, k', after, rfl, quiet⟩, goesOn⟩)
    · exact ⟨log, k, [], rfl, by simp⟩
    · refine ⟨before, k', after ++ [(k, e)], by simp, ?_⟩
      rw [List.forall_mem_append, List.forall_mem_singleton]
      exact ⟨quiet, goesOn⟩

theorem arrived_concat {k' : κ} : Arrived (log ++ [(k, e)]) k' place r ↔
    Arrived log k' place r ∨ k = k' ∧ e = .arrives r ∧ Registered log r.expressionId place := by
  constructor
  · rintro ⟨before, after, heq, registered⟩
    rcases concat_eq_append_cons_iff.1 heq with ⟨rfl, last, -⟩ | ⟨after', -, rfl⟩
    · obtain ⟨hk, he⟩ := Prod.mk.inj last
      exact .inr ⟨hk.symm, he.symm, registered⟩
    · exact .inl ⟨before, after', rfl, registered⟩
  · rintro (⟨before, after, rfl, registered⟩ | ⟨rfl, rfl, registered⟩)
    · exact ⟨before, after ++ [(k, e)], by simp, registered⟩
    · exact ⟨log, [], rfl, registered⟩

theorem filterMap_concat {α : Type} (f : Event → Option α) :
    ((log ++ [(k, e)]).filterMap fun e => f e.2) =
      (log.filterMap fun e => f e.2) ++ (f e).toList := by
  rw [List.filterMap_append]
  cases he : f e <;> simp [he]

theorem filterMap_record {α : Type} (f : Event → Option α) (e? : Option Event) :
    ((log ++ (e?.map (k, ·)).toList).filterMap fun e => f e.2) =
      (log.filterMap fun e => f e.2) ++ (e?.bind f).toList := by
  cases e? with
  | none => simp
  | some e => exact filterMap_concat f

theorem mem_own [DecidableEq κ] : e ∈ own log k ↔ (k, e) ∈ log := by
  rw [own, List.mem_filterMap]
  constructor
  · rintro ⟨⟨k', e'⟩, mem, found⟩
    split at found
    · next same =>
      cases found
      exact same ▸ mem
    · cases found
  · exact fun mem => ⟨(k, e), mem, if_pos rfl⟩

theorem own_concat [DecidableEq κ] (e? : Option Event) (k' : κ) :
    own (log ++ (e?.map (k', ·)).toList) k =
      if k' = k then own log k ++ e?.toList else own log k := by
  cases e? with
  | none => simp [own]
  | some e =>
    rw [own, List.filterMap_append]
    by_cases same : k' = k
    · simp [own, same]
    · simp [own, same]

/-- What is issued or resolved once is so by one task. -/
theorem eq_of_mem_of_nodup {α : Type} {f : Event → Option α} {a : α} {e e' : Event} {k' : κ}
    (once : (log.filterMap fun e => f e.2).Nodup) (h : (k, e) ∈ log) (h' : (k', e') ∈ log)
    (he : f e = some a) (he' : f e' = some a) : k = k' ∧ e = e' := by
  by_contra differ
  rw [← Prod.mk.injEq] at differ
  have symmetric : Std.Symm fun x y : κ × Event => ∀ b ∈ f x.2, ∀ b' ∈ f y.2, b ≠ b' :=
    ⟨fun x y h b hb b' hb' => (h b' hb' b hb).symm⟩
  exact (List.pairwise_filterMap.1 once).forall h h' differ a he a he' rfl

/-! ## What the client waits for -/

/-- What the client waits for, next to the events. -/
structure Table (log : List (κ × Event)) (c : Client) : Prop where
  waiting : ∀ id place, c.waiting.lookup id = some place ↔ Registered log id place
  keys : (c.waiting.map (·.1)).Nodup
  /-- Nothing has come to a place that is waited for. -/
  unresolved : ∀ id place, c.waiting.lookup id = some place → c.responses[place]? = some none
  apart : ∀ id id' place, c.waiting.lookup id = some place → c.waiting.lookup id' = some place →
    id = id'

variable {c d : Client}

theorem lookup_unregister (id id' : String) (c : Client) :
    (c.unregister id).2.waiting.lookup id' = if id' = id then none else c.waiting.lookup id' :=
  Scheduler.lookup_filter_ne c.waiting id id'

theorem lookup_of_unregister {id' : String}
    (found : (c.unregister id).2.waiting.lookup id' = some place) :
    c.waiting.lookup id' = some place := by
  rw [lookup_unregister] at found
  split at found
  · cases found
  · exact found

theorem lookup_register (id id' : String) (c : Client) :
    (c.register id).2.waiting.lookup id' =
      if id' = id then some c.responses.size else c.waiting.lookup id' := by
  rw [register, List.lookup_cons, Scheduler.lookup_filter_ne]
  by_cases same : id' = id
  · simp [same]
  · rw [beq_eq_false_iff_ne.2 same, if_neg same, if_neg same]

theorem size_of_getElem? {x : Option ExpressionResponse} (there : c.responses[place]? = some x) :
    place < c.responses.size := (Array.getElem?_eq_some_iff.1 there).1

/-- A place more, which nothing has come to, leaves the others as they are. -/
theorem getElem?_register (id : String) (place : Nat) (c : Client) :
    (c.register id).2.responses[place]? =
      if place = c.responses.size then some none else c.responses[place]? := Array.getElem?_push

theorem resolve_of_unresolved (there : c.responses[place]? = some none) :
    c.resolve place r =
      (.ok (), { c with responses := c.responses.setIfInBounds place (some r) }) := by
  rw [resolve, there]

/-- An event that ends no waiting and starts none. -/
theorem Table.quiet (h : Table log c) (waiting : d.waiting = c.waiting)
    (responses : ∀ id place, c.waiting.lookup id = some place →
      d.responses[place]? = c.responses[place]?)
    (starts : ∀ id place, e ≠ .registers id place) (ends : ∀ id, ¬ e.Ends id) :
    Table (log ++ [(k, e)]) d := by
  constructor
  · intro id place
    rw [waiting, registered_concat, h.waiting]
    simp [starts, ends]
  · rw [waiting]
    exact h.keys
  · intro id place found
    rw [waiting] at found
    rw [responses id place found]
    exact h.unresolved id place found
  · rw [waiting]
    exact h.apart

/-- A send starts to wait under an id that no other has. -/
theorem Table.registers (h : Table log c) (fresh : ∀ place, ¬ Registered log id place) :
    Table (log ++ [(k, .registers id c.responses.size)]) (c.register id).2 := by
  have older : ∀ {id' : String} {place : Nat}, c.waiting.lookup id' = some place →
      place ≠ c.responses.size :=
    fun found => Nat.ne_of_lt (size_of_getElem? (h.unresolved _ _ found))
  constructor
  · intro id' place
    rw [lookup_register, registered_concat, ← h.waiting]
    by_cases same : id' = id
    · have unknown : c.waiting.lookup id ≠ some place := by
        rw [Ne, h.waiting]
        exact fresh place
      simp [same, unknown]
    · simp [same, Ne.symm same, Event.Ends]
  · change (id :: (c.waiting.filter (·.1 != id)).map (·.1)).Nodup
    refine List.nodup_cons.2 ⟨by simp, h.keys.sublist (List.filter_sublist.map _)⟩
  · intro id' place found
    rw [lookup_register] at found
    rw [getElem?_register]
    split at found
    · cases found
      exact if_pos rfl
    · rw [if_neg (older found)]
      exact h.unresolved id' place found
  · intro id₁ id₂ place h₁ h₂
    rw [lookup_register] at h₁ h₂
    split at h₁ <;> split at h₂
    · next same₁ same₂ => exact same₁.trans same₂.symm
    · cases h₁
      exact absurd rfl (older h₂)
    · cases h₂
      exact absurd rfl (older h₁)
    · exact h.apart id₁ id₂ place h₁ h₂

/-- A waiting ends. -/
theorem Table.ends (h : Table log c) (ends : ∀ id', e.Ends id' ↔ id = id')
    (starts : ∀ id place, e ≠ .registers id place) :
    Table (log ++ [(k, e)]) (c.unregister id).2 := by
  constructor
  · intro id' place
    rw [lookup_unregister, registered_concat, ← h.waiting, ends]
    by_cases same : id' = id
    · simp [same, starts]
    · simp [same, starts, Ne.symm same]
  · exact h.keys.sublist (List.filter_sublist.map _)
  · exact fun id' place found => h.unresolved id' place (lookup_of_unregister found)
  · exact fun id₁ id₂ place h₁ h₂ =>
      h.apart id₁ id₂ place (lookup_of_unregister h₁) (lookup_of_unregister h₂)

/-! ## What has come -/

/-- What has come to the client, next to the events; `holds` tells which place and which response a
delivery has in hand. -/
structure Ledger (log : List (κ × Event)) (c : Client)
    (holds : κ → Option (Nat × ExpressionResponse)) : Prop extends Table log c where
  /-- A delivery alone has its place in hand, and nothing has come there. -/
  held : ∀ k place r, holds k = some (place, r) → c.responses[place]? = some none ∧
    (∀ id, c.waiting.lookup id ≠ some place) ∧
    ∀ k' r', holds k' = some (place, r') → k' = k
  responses : ∀ place r, c.responses[place]? = some (some r) ↔ ∃ k, (k, .resolves place r) ∈ log
  once : (log.filterMap fun e => e.2.resolved?).Nodup
  arrivals : ∀ k place r,
    Arrived log k place r ↔ holds k = some (place, r) ∨ (k, .resolves place r) ∈ log

namespace Ledger

variable {holds : κ → Option (Nat × ExpressionResponse)}

/-- An event that resolves nothing, and with which no response arrives for a place that is waited
for. -/
theorem keep (h : Ledger log c holds) (table : Table (log ++ [(k, e)]) d)
    (resolves : e.resolved? = none)
    (arrives : ∀ r, e = .arrives r → c.waiting.lookup r.expressionId = none)
    (held : ∀ place : Nat, c.responses[place]? = some none →
      (∀ id, c.waiting.lookup id ≠ some place) →
      d.responses[place]? = some none ∧ ∀ id, d.waiting.lookup id ≠ some place)
    (responses : ∀ (place : Nat) r, d.responses[place]? = some (some r) ↔
      c.responses[place]? = some (some r)) :
    Ledger (log ++ [(k, e)]) d holds := by
  have notResolves : ∀ place r, .resolves place r ≠ e := by
    rintro place r rfl
    cases resolves
  refine { table with held := ?_, responses := ?_, once := ?_, arrivals := ?_ }
  · intro k' place r holding
    obtain ⟨there, unknown, alone⟩ := h.held k' place r holding
    obtain ⟨there', unknown'⟩ := held place there unknown
    exact ⟨there', unknown', alone⟩
  · intro place r
    rw [responses, h.responses]
    simp [notResolves]
  · rw [filterMap_concat, resolves, Option.toList_none, List.append_nil]
    exact h.once
  · intro k' place r
    have nobody : ¬ (k = k' ∧ e = .arrives r ∧ Registered log r.expressionId place) := by
      rintro ⟨-, rfl, registered⟩
      rw [← h.waiting, arrives r rfl] at registered
      cases registered
    rw [arrived_concat, h.arrivals]
    simp [notResolves, nobody]

/-- What the ledger is about stays as it is. -/
theorem same (h : Ledger log c holds) (waiting : d.waiting = c.waiting)
    (responses : d.responses = c.responses) : Ledger log d holds := by
  constructor
  · constructor
    all_goals rw [waiting]
    · exact h.waiting
    · exact h.keys
    · rw [responses]
      exact h.unresolved
    · exact h.apart
  · rw [waiting, responses]
    exact h.held
  · rw [responses]
    exact h.responses
  · exact h.once
  · exact h.arrivals

/-- An event that is not about tickets. -/
theorem quiet (h : Ledger log c holds) (waiting : d.waiting = c.waiting)
    (responses : d.responses = c.responses) (starts : ∀ id place, e ≠ .registers id place)
    (ends : ∀ id, ¬ e.Ends id) (resolves : e.resolved? = none) :
    Ledger (log ++ [(k, e)]) d holds := by
  refine (h.keep (h.toTable.quiet rfl (fun _ _ _ => rfl) starts ends) resolves ?_
    (fun place there unknown => ⟨there, unknown⟩) fun place r => Iff.rfl).same waiting responses
  rintro r rfl
  exact (ends r.expressionId rfl).elim

/-- A send starts to wait under an id that no other has. -/
theorem registers (h : Ledger log c holds) (fresh : ∀ place, ¬ Registered log id place) :
    Ledger (log ++ [(k, .registers id c.responses.size)]) (c.register id).2 holds := by
  refine h.keep (h.toTable.registers fresh) rfl nofun (fun place there unknown => ?_)
    fun place r => ?_
  · have older : place ≠ c.responses.size := Nat.ne_of_lt (size_of_getElem? there)
    refine ⟨by rw [getElem?_register, if_neg older, there], fun id' found => ?_⟩
    rw [lookup_register] at found
    split at found
    · exact older (Option.some.inj found).symm
    · exact unknown id' found
  · rw [getElem?_register]
    split
    · next last => simp [last]
    · rfl

/-- A waiting ends without a response. -/
theorem ends (h : Ledger log c holds) (ends : ∀ id', e.Ends id' ↔ id = id')
    (starts : ∀ id place, e ≠ .registers id place) (resolves : e.resolved? = none)
    (arrives : ∀ r, e = .arrives r → c.waiting.lookup r.expressionId = none) :
    Ledger (log ++ [(k, e)]) (c.unregister id).2 holds :=
  h.keep (h.toTable.ends ends starts) resolves arrives
    (fun _ there unknown => ⟨there, fun id' found => unknown id' (lookup_of_unregister found)⟩)
    fun _ _ => Iff.rfl

/-- A response arrives for a place that is waited for. -/
theorem takes [DecidableEq κ] (h : Ledger log c holds) (idle : holds k = none)
    (found : c.waiting.lookup r.expressionId = some place) :
    Ledger (log ++ [(k, .arrives r)]) (c.unregister r.expressionId).2
      (Function.update holds k (some (place, r))) := by
  have table : Table (log ++ [(k, .arrives r)]) (c.unregister r.expressionId).2 :=
    h.toTable.ends (fun _ => Iff.rfl) nofun
  have taken : ∀ id, (c.unregister r.expressionId).2.waiting.lookup id ≠ some place := by
    intro id again
    obtain rfl := h.apart _ _ _ (lookup_of_unregister again) found
    rw [lookup_unregister, if_pos rfl] at again
    cases again
  have others : ∀ {k' r'}, holds k' ≠ some (place, r') :=
    fun holding => (h.held _ _ _ holding).2.1 _ found
  refine { table with held := ?_, responses := ?_, once := ?_, arrivals := ?_ }
  · intro k' place' r' holding
    by_cases same : k' = k
    · subst same
      rw [Function.update_self] at holding
      cases holding
      refine ⟨h.unresolved _ _ found, taken, fun k'' r'' again => ?_⟩
      by_contra other
      rw [Function.update_of_ne other] at again
      exact others again
    · rw [Function.update_of_ne same] at holding
      obtain ⟨there, unknown, alone⟩ := h.held k' place' r' holding
      refine ⟨there, fun id again => unknown id (lookup_of_unregister again), ?_⟩
      intro k'' r'' again
      by_cases this : k'' = k
      · subst this
        rw [Function.update_self] at again
        cases again
        exact absurd holding others
      · rw [Function.update_of_ne this] at again
        exact alone k'' r'' again
  · intro place' r'
    refine (h.responses place' r').trans ?_
    simp
  · rw [filterMap_concat]
    simpa [Event.resolved?] using h.once
  · intro k' place' r'
    rw [arrived_concat, h.arrivals, ← h.waiting]
    by_cases same : k' = k
    · subst same
      rw [Function.update_self, idle]
      have now : r = r' ∧ c.waiting.lookup r'.expressionId = some place' ↔
          (place, r) = (place', r') := by
        rw [Prod.mk.injEq]
        constructor
        · rintro ⟨rfl, again⟩
          exact ⟨Option.some.inj (found.symm.trans again), rfl⟩
        · rintro ⟨rfl, rfl⟩
          exact ⟨rfl, found⟩
      simp only [Event.arrives.injEq, now, Option.some.injEq]
      simp [or_comm]
    · rw [Function.update_of_ne same]
      simp [Ne.symm same]

/-- A delivery resolves the place that it has in hand. -/
theorem resolves [DecidableEq κ] (h : Ledger log c holds) (holding : holds k = some (place, r)) :
    Ledger (log ++ [(k, .resolves place r)]) (c.resolve place r).2
      (Function.update holds k none) := by
  obtain ⟨there, unknown, alone⟩ := h.held k place r holding
  rw [resolve_of_unresolved there]
  have self : (c.responses.setIfInBounds place (some r))[place]? = some (some r) :=
    Array.getElem?_setIfInBounds_self_of_lt (size_of_getElem? there)
  have other : ∀ {place' : Nat}, place' ≠ place →
      (c.responses.setIfInBounds place (some r))[place']? = c.responses[place']? :=
    fun ne => Array.getElem?_setIfInBounds_ne (Ne.symm ne)
  have fresh : ∀ k' r', (k', .resolves place r') ∉ log := by
    intro k' r' before
    have := (h.responses place r').2 ⟨k', before⟩
    rw [there] at this
    cases this
  have table : Table (log ++ [(k, .resolves place r)])
      { c with responses := c.responses.setIfInBounds place (some r) } := by
    refine h.toTable.quiet rfl (fun id place' found => other ?_) nofun fun id => not_false
    rintro rfl
    exact unknown id found
  refine { table with held := ?_, responses := ?_, once := ?_, arrivals := ?_ }
  · intro k' place' r' holding'
    by_cases same : k' = k
    · rw [same, Function.update_self] at holding'
      cases holding'
    · rw [Function.update_of_ne same] at holding'
      obtain ⟨there', unknown', alone'⟩ := h.held k' place' r' holding'
      have ne : place' ≠ place := by
        rintro rfl
        exact same (alone k' r' holding')
      refine ⟨(other ne).trans there', unknown', fun k'' r'' again => ?_⟩
      by_cases this : k'' = k
      · rw [this, Function.update_self] at again
        cases again
      · rw [Function.update_of_ne this] at again
        exact alone' k'' r'' again
  · intro place' r'
    by_cases same : place' = place
    · subst same
      simp [self, fresh, eq_comm]
    · change (c.responses.setIfInBounds place (some r))[place']? = _ ↔ _
      rw [other same, h.responses]
      simp [same]
  · rw [filterMap_concat]
    refine List.nodup_append.2 ⟨h.once, List.nodup_singleton _, ?_⟩
    rintro place' before _ last rfl
    obtain ⟨⟨k', e⟩, mem, resolved⟩ := List.mem_filterMap.1 before
    rw [Event.resolved?, Option.toList_some, List.mem_singleton] at last
    cases e with
    | resolves place'' r' =>
      cases resolved
      exact fresh k' r' (last ▸ mem)
    | _ => cases resolved
  · intro k' place' r'
    rw [arrived_concat, h.arrivals]
    by_cases same : k' = k
    · subst same
      rw [Function.update_self, holding]
      simp [eq_comm, or_comm]
    · rw [Function.update_of_ne same]
      simp [same]

end Ledger

/-- The place that a delivery has in hand, and the response for it. -/
def Phase.holds? : Phase → Option (Nat × ExpressionResponse)
  | resolving place r => some (place, r)
  | _ => none

theorem Phase.holds?_eq_some_iff {p : Phase} :
    p.holds? = some (place, r) ↔ p = .resolving place r := by
  cases p with
  | resolving place' r' => simp [holds?]
  | _ => exact ⟨nofun, nofun⟩

/-- One step of a task keeps the ledger. -/
theorem Ledger.step [DecidableEq κ] {holds : κ → Option (Nat × ExpressionResponse)} {p : Phase}
    {r r' : Routine Client η Unit} {eff : Option (Effect η)} (h : Ledger log c holds)
    (here : holds k = p.holds?) (left : p.Leaves settings me r) (acts : r.Acts c eff r' d)
    (fresh : ∀ id expression deadlineMs waits, p = .registering id expression deadlineMs waits →
      ∀ place, ¬ Registered log id place) :
    Ledger (log ++ ((p.event? c eff).map (k, ·)).toList) (p.update c)
      (Function.update holds k (p.next settings c eff).holds?) := by
  -- Most phases have nothing in hand, and neither do the ones that follow them.
  have idle : ∀ {log' : List (κ × Event)} {d : Client}, p.holds? = none →
      (p.next settings c eff).holds? = none → Ledger log' d holds →
      Ledger log' d (Function.update holds k (p.next settings c eff).holds?) := by
    intro log' d before after h
    rwa [after, ← before, ← here, Function.update_eq_self]
  have unchanged : Ledger (log ++ []) c holds := by rwa [List.append_nil]
  cases p with
  | fresh task =>
    cases task with
    | start =>
      cases left
      cases acts with
      | subscribe | notSubscribed => exact idle rfl rfl unchanged
    | stop =>
      refine idle rfl ?_ (unchanged.same rfl rfl)
      rw [Phase.next]
      split <;> rfl
    | send expression deadlineMs | evaluate expression deadlineMs =>
      exact idle rfl rfl (h.quiet rfl rfl (by simp) (fun _ => not_false) rfl)
    | wait t =>
      refine idle rfl ?_ unchanged
      rw [Phase.next]
      repeat' split
      all_goals rfl
    | deliver body =>
      rw [Phase.event?, Phase.update]
      cases decoded : ExpressionResponse.decode body with
      | error issues =>
        refine idle rfl ?_ (h.quiet rfl rfl (by simp) (fun _ => not_false) rfl)
        simp [Phase.next, decoded, Phase.holds?]
      | ok response =>
        cases found : c.waiting.lookup response.expressionId with
        | none =>
          refine idle rfl ?_ (h.ends (fun _ => Iff.rfl) (by simp) rfl ?_)
          · simp [Phase.next, decoded, unregister, found, Phase.holds?]
          · rintro r ⟨⟩
            exact found
        | some place =>
          have next : (Phase.fresh (.deliver body)).next settings c eff =
              .resolving place response := by
            simp [Phase.next, decoded, unregister, found]
          rw [next]
          exact h.takes here found
  | registering id expression deadlineMs waits =>
    exact idle rfl rfl (h.registers (fresh id expression deadlineMs waits rfl))
  | publishing t expression waits =>
    cases left
    cases acts with
    | publish m next s answer =>
      cases answer with
      | ok _ =>
        refine idle rfl ?_ (h.quiet rfl rfl (by simp) (fun _ => not_false) rfl)
        cases waits <;> rfl
      | error refusal => exact idle rfl rfl unchanged
  | withdrawing id => exact idle rfl rfl (h.ends (fun _ => Iff.rfl) (by simp) rfl (by simp))
  | expiring t => exact idle rfl rfl (h.ends (fun _ => Iff.rfl) (by simp) rfl (by simp))
  | resolving place response =>
    obtain ⟨there, -⟩ := h.held k place response here
    have next : (Phase.resolving place response).next settings c eff = .settling .ack := by
      rw [Phase.next, resolve_of_unresolved there]
    rw [next]
    exact h.resolves here
  | settling how => exact idle rfl rfl (h.quiet rfl rfl (by simp) (fun _ => not_false) rfl)
  | noting | cancelling => exact idle rfl rfl (unchanged.same rfl rfl)
  | ended =>
    cases left
    cases acts
  | raised =>
    obtain ⟨fault, rfl⟩ := left
    cases acts

end Client

end Stepwise
