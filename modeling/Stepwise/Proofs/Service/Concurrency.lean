import Mathlib.Data.Fin.VecNotation
import Stepwise.Proofs.Service.Calls
import Stepwise.Proofs.Service.Ownership

/-!
# Calls at the same time

Any number of calls run at the same time, and each of their actions may come at any moment.  What
can be seen of it is in the ticks of the run: an id is accepted, an entry is entered, marked as
answered or taken out of the table, a response is handed over (`Sight`).  Each call leaves such
sights in a fixed order (`Keeps`), and those of different calls hang together over the entries
(`Linked`).  So each accepted submission is answered at most once, and what leaves the table for an
answer is the entry that is answered (`responses_of_interleaving`).
-/

namespace Stepwise

namespace Scheduler

variable {ι η : Type} {settings : Settings}

/-! ## What can be seen -/

/-- Something that can be seen of an action. -/
inductive Sight where
  | accepts (id : String)
  | enters (id : String) (place : Nat)
  | marks (id : String) (place : Nat)
  | removes (id : String) (place : Nat)
  | responds (id : String)

/-- That an action shows a sight, told by the scheduler before and after it and by its effect. -/
def Sight.Shown (settings : Settings) (t : Tick ι Scheduler η) : Sight → Prop
  | accepts id => id ∉ t.before.reserved ∧ id ∈ t.after.reserved
  | enters id place => t.before.entries[place]? = none ∧
      ∃ e, t.after.entries[place]? = some e ∧ e.expressionId = id
  | marks id place => ∃ e e', t.before.entries[place]? = some e ∧ e.expressionId = id ∧
      e.answered = false ∧ t.after.entries[place]? = some e' ∧ e'.answered = true
  | removes id place => (id, place) ∈ t.before.table ∧ (id, place) ∉ t.after.table
  | responds id => ∃ accepted m, t.effect = some (.handed accepted m) ∧ IsResponse settings id m

/-- The sight of a deed. -/
def Deed.sight? : Deed → Option Sight
  | accept id => some (.accepts id)
  | enter id place => some (.enters id place)
  | mark id place => some (.marks id place)
  | remove id place => some (.removes id place)
  | respond id => some (.responds id)
  | _ => none

theorem IsResponse.unique {id id' : String} {m : Message} (h : IsResponse settings id m)
    (h' : IsResponse settings id' m) : id = id' := by
  obtain ⟨r, rfl, rfl⟩ := h
  obtain ⟨r', hm, rfl⟩ := h'
  exact ExpressionResponse.expressionId_eq_of_body (Message.mk.inj hm).2

variable {phases : ι → Phase} {s t : Scheduler} {i : ι} {ψ : Phase} {d : Deed}

/-- What a deed leaves alone. -/
theorem Deed.Changes.frame (changes : d.Changes s t) :
    ((∀ id, d ≠ .accept id) → ∀ id ∈ t.reserved, id ∈ s.reserved) ∧
      ((∀ id place, d ≠ .enter id place) → (∀ id place, d ≠ .remove id place) →
        t.table = s.table) ∧
      ((∀ id place, d ≠ .enter id place) → (∀ id place, d ≠ .mark id place) →
        t.entries.map sign = s.entries.map sign) := by
  cases d with
  | accept id =>
    obtain ⟨free, rfl⟩ := changes
    rw [reserve, if_neg (by simp [free])]
    exact ⟨fun h => (h id rfl).elim, fun _ _ => rfl, fun _ _ => rfl⟩
  | enter id place =>
    obtain ⟨e, -, -, -, rfl⟩ := changes
    exact ⟨fun _ _ h => h, fun h => (h id place rfl).elim, fun h => (h id place rfl).elim⟩
  | release id =>
    obtain rfl := changes
    exact ⟨fun _ _ h => (List.mem_filter.1 h).1, fun _ _ => rfl, fun _ _ => rfl⟩
  | look id place =>
    obtain ⟨-, rfl⟩ := changes
    exact ⟨fun _ _ h => h, fun _ _ => rfl, fun _ _ => rfl⟩
  | mark id place =>
    obtain ⟨e, e', -, -, -, -, rfl⟩ := changes
    exact ⟨fun _ _ h => h, fun _ _ => rfl, fun _ h => (h id place rfl).elim⟩
  | remove id place =>
    obtain rfl := changes
    exact ⟨fun _ _ h => h, fun _ h => (h id place rfl).elim, fun _ _ => rfl⟩
  | respond id => exact changes.elim
  | other =>
    exact ⟨fun _ id h => changes.reserved ▸ h, fun _ _ => changes.table,
      fun _ _ => changes.signs⟩

theorem Deed.Changes.accepts {id : String} (changes : d.Changes s t) (before : id ∉ s.reserved)
    (after : id ∈ t.reserved) : d.sight? = some (.accepts id) := by
  obtain ⟨subset, -, -⟩ := changes.frame
  cases d with
  | accept id' =>
    obtain ⟨free, rfl⟩ := changes
    rw [reserve, if_neg (by simp [free])] at after
    rcases List.mem_cons.1 after with rfl | h
    · rfl
    · exact (before h).elim
  | _ => exact (before (subset (by simp) id after)).elim

theorem Deed.Changes.enters {place : Nat} {e : Entry} (changes : d.Changes s t)
    (before : s.entries[place]? = none) (after : t.entries[place]? = some e) :
    d.sight? = some (.enters e.expressionId place) := by
  obtain ⟨-, -, signs⟩ := changes.frame
  cases d with
  | enter id place' =>
    obtain ⟨e', rfl, -, rfl, rfl⟩ := changes
    rw [Scheduler.enter, Array.getElem?_push] at after
    split at after
    · next last =>
      cases after
      rw [last]
      rfl
    · cases before.symm.trans after
  | mark id place' =>
    obtain ⟨f, f', hf, -, -, -, rfl⟩ := changes
    have hne : place' ≠ place := by
      rintro rfl
      cases before.symm.trans hf
    rw [Array.getElem?_setIfInBounds_ne hne] at after
    cases before.symm.trans after
  | _ =>
    obtain ⟨e', he', -⟩ := exists_sign_eq (signs (by simp) (by simp)).symm after
    cases before.symm.trans he'

theorem Deed.Changes.marks {place : Nat} {e e' : Entry} (changes : d.Changes s t)
    (found : ∀ id, d = .mark id place → e.expressionId = id)
    (before : s.entries[place]? = some e) (open_ : e.answered = false)
    (after : t.entries[place]? = some e') (marked : e'.answered = true) :
    d.sight? = some (.marks e.expressionId place) := by
  obtain ⟨-, -, signs⟩ := changes.frame
  cases d with
  | enter id place' =>
    obtain ⟨f, -, -, -, rfl⟩ := changes
    obtain ⟨hlt, -⟩ := Array.getElem?_eq_some_iff.1 before
    rw [Scheduler.enter, Array.getElem?_push, if_neg (by omega), before] at after
    cases after
    cases open_.symm.trans marked
  | mark id place' =>
    obtain ⟨f, f', hf, -, -, -, rfl⟩ := changes
    by_cases hp : place' = place
    · subst hp
      rw [found id rfl]
      rfl
    · rw [Array.getElem?_setIfInBounds_ne hp] at after
      cases before.symm.trans after
      cases open_.symm.trans marked
  | _ =>
    obtain ⟨f, hf, same⟩ := exists_sign_eq (signs (by simp) (by simp)) before
    cases after.symm.trans hf
    cases (open_.symm.trans (congrArg Prod.snd same).symm).trans marked

/-- A deed takes a place out of the table only if it removes the entry there, provided that an id
is entered when it has no place, and removed when it has the place. -/
theorem Deed.Changes.removes {id : String} {place : Nat} (changes : d.Changes s t) (tidy : s.Tidy)
    (unlisted : ∀ id' place', d = .enter id' place' → ∀ place, (id', place) ∉ s.table)
    (listed : ∀ id' place', d = .remove id' place' → (id', place') ∈ s.table)
    (before : (id, place) ∈ s.table) (after : (id, place) ∉ t.table) :
    d.sight? = some (.removes id place) := by
  obtain ⟨-, table, -⟩ := changes.frame
  cases d with
  | enter id' place' =>
    obtain ⟨e, rfl, -, -, rfl⟩ := changes
    refine (after (List.mem_cons_of_mem _ (List.mem_filter.2 ⟨before, ?_⟩))).elim
    rw [bne_iff_ne]
    rintro rfl
    exact unlisted _ _ rfl place before
  | remove id' place' =>
    obtain rfl := changes
    have hid : id = id' := by
      by_contra hne
      exact after (List.mem_filter.2 ⟨before, by simpa using hne⟩)
    subst hid
    have there := tidy.find?_of_mem (listed id place' rfl)
    rw [tidy.find?_of_mem before] at there
    cases there
    rfl
  | _ => exact (after (table (by simp) (by simp) ▸ before)).elim

variable {e : Option (Effect η)}

theorem Owned.found_of_mark (owned : Owned phases s) {id : String} {place : Nat}
    (goes : (phases i).Goes (.mark id place) ψ) :
    ∃ e, s.entries[place]? = some e ∧ e.expressionId = id := by
  generalize hφ : phases i = φ at goes
  cases goes with
  | mark => exact (owned.fits i).found id place hφ

theorem Owned.unlisted_of_enter (owned : Owned phases s) {id : String} {place : Nat}
    (goes : (phases i).Goes (.enter id place) ψ) (place' : Nat) : (id, place') ∉ s.table := by
  generalize hφ : phases i = φ at goes
  cases goes with
  | enter => exact (owned.fits i).unlisted id hφ place'

theorem Owned.listed_of_remove (owned : Owned phases s) {id : String} {place : Nat}
    (goes : (phases i).Goes (.remove id place) ψ) : (id, place) ∈ s.table := by
  generalize hφ : phases i = φ at goes
  cases goes with
  | remove => exact ((owned.fits i).owing id place hφ).1

/-- What is seen of an action is the sight of its deed. -/
theorem sight_of_shown (owned : Owned phases s) (goes : (phases i).Goes d ψ)
    (done : d.Done settings s e t) {x : Sight}
    (h : x.Shown settings (⟨i, s, t, e⟩ : Tick ι Scheduler η)) : d.sight? = some x := by
  cases done with
  | @outside m hands accepted =>
    cases x with
    | accepts id => exact (h.1 h.2).elim
    | enters id place =>
      obtain ⟨before, e, after, -⟩ := h
      cases before.symm.trans after
    | marks id place =>
      obtain ⟨e, e', before, -, open_, after, marked⟩ := h
      cases before.symm.trans after
      cases open_.symm.trans marked
    | removes id place => exact (h.2 h.1).elim
    | responds id =>
      obtain ⟨accepted', m', heq, response⟩ := h
      obtain rfl := Effect.handed_inj (Option.some.inj heq)
      cases d with
      | respond id' => rw [Deed.sight?, hands.unique response]
      | other => exact (hands id response).elim
      | _ => exact hands.elim
  | inside changes =>
    cases x with
    | accepts id => exact changes.accepts h.1 h.2
    | enters id place =>
      obtain ⟨before, e, after, rfl⟩ := h
      exact changes.enters before after
    | marks id place =>
      obtain ⟨e, e', before, rfl, open_, after, marked⟩ := h
      refine changes.marks ?_ before open_ after marked
      rintro id rfl
      obtain ⟨f, hf, hid⟩ := owned.found_of_mark goes
      cases before.symm.trans hf
      exact hid
    | removes id place =>
      refine changes.removes owned.tidy ?_ ?_ h.1 h.2
      · rintro id' place' rfl
        exact owned.unlisted_of_enter goes
      · rintro id' place' rfl
        exact owned.listed_of_remove goes
    | responds id =>
      obtain ⟨accepted, m, heq, -⟩ := h
      cases heq

/-- The sight of a deed is seen. -/
theorem shown_of_sight (owned : Owned phases s) (goes : (phases i).Goes d ψ)
    (done : d.Done settings s e t) {x : Sight} (h : d.sight? = some x) :
    x.Shown settings (⟨i, s, t, e⟩ : Tick ι Scheduler η) := by
  cases done with
  | outside hands accepted =>
    cases d with
    | respond id =>
      cases h
      exact ⟨accepted, _, rfl, hands⟩
    | other => cases h
    | _ => exact hands.elim
  | inside changes =>
    cases d with
    | accept id =>
      cases h
      obtain ⟨free, rfl⟩ := changes
      refine ⟨(owned.tidy.isPending_eq_false.1 free).2, ?_⟩
      rw [reserve, if_neg (by simp [free])]
      exact List.mem_cons_self
    | enter id place =>
      cases h
      obtain ⟨e, hid, -, rfl, rfl⟩ := changes
      exact ⟨by simp, e, by simp [Scheduler.enter], hid⟩
    | mark id place =>
      cases h
      obtain ⟨e, e', he, open_, marked, -, rfl⟩ := changes
      obtain ⟨f, hf, hid⟩ := owned.found_of_mark goes
      cases he.symm.trans hf
      obtain ⟨hlt, -⟩ := Array.getElem?_eq_some_iff.1 he
      exact ⟨e, e', he, hid, open_, Array.getElem?_setIfInBounds_self_of_lt hlt, marked⟩
    | remove id place =>
      cases h
      obtain rfl := changes
      exact ⟨owned.listed_of_remove goes, by simp [Scheduler.remove]⟩
    | respond id => exact changes.elim
    | release | look | other => cases h

/-! ## What has been seen -/

/-- At a tick of a run a call shows a sight. -/
def Sees (settings : Settings) (run : List (Tick ι Scheduler η)) (n : Nat) (i : ι) (x : Sight) :
    Prop :=
  ∃ t, run[n]? = some t ∧ t.thread = i ∧ x.Shown settings t

variable {run : List (Tick ι Scheduler η)} {n : Nat} {x : Sight}

theorem Sees.lt (h : Sees settings run n i x) : n < run.length := by
  obtain ⟨t, ht, -⟩ := h
  exact (List.getElem?_eq_some_iff.1 ht).1

theorem sees_concat {tick : Tick ι Scheduler η} :
    Sees settings (run ++ [tick]) n i x ↔
      Sees settings run n i x ∨ (n = run.length ∧ tick.thread = i ∧ x.Shown settings tick) := by
  constructor
  · rintro ⟨t, ht, hi, hx⟩
    obtain ⟨hlt, -⟩ := List.getElem?_eq_some_iff.1 ht
    rw [List.length_append, List.length_singleton] at hlt
    rcases Nat.lt_succ_iff_lt_or_eq.1 hlt with h | rfl
    · rw [List.getElem?_append_left h] at ht
      exact Or.inl ⟨t, ht, hi, hx⟩
    · rw [List.getElem?_concat_length] at ht
      cases ht
      exact Or.inr ⟨rfl, hi, hx⟩
  · rintro (h | ⟨rfl, hi, hx⟩)
    · obtain ⟨t, ht, hi, hx⟩ := id h
      exact ⟨t, (List.getElem?_append_left h.lt).trans ht, hi, hx⟩
    · exact ⟨tick, List.getElem?_concat_length, hi, hx⟩

/-- What a call shows on its own behalf, in order: a submission is accepted, and then it is
entered or answered, or neither. -/
inductive Opening : List (Sight × Nat) → Prop where
  | nothing : Opening []
  | accepted (id : String) (a : Nat) : Opening [(.accepts id, a)]
  | entered (id : String) (place a k : Nat) : Opening [(.accepts id, a), (.enters id place, k)]
  | answered (id : String) (a n : Nat) : Opening [(.accepts id, a), (.responds id, n)]

/-- What a call shows when it answers an entry, in order, as far as it has come. -/
inductive Closing : List (Sight × Nat) → Prop where
  | nothing : Closing []
  | marked (id : String) (place m : Nat) : Closing [(.marks id place, m)]
  | removed (id : String) (place m k : Nat) :
      Closing [(.marks id place, m), (.removes id place, k)]
  | answered (id : String) (place m k n : Nat) :
      Closing [(.marks id place, m), (.removes id place, k), (.responds id, n)]

/-- What a call has shown by the time it is in a phase. -/
inductive Phase.Wrote : Phase → List (Sight × Nat) → List (Sight × Nat) → Prop where
  | fresh (id : String) : Wrote (.fresh id) [] []
  | holding (id : String) (a : Nat) : Wrote (.holding id) [(.accepts id, a)] []
  | spent (id : String) {v : List (Sight × Nat)} (opening : Opening v) : Wrote (.spent id) v []
  | rested {φ : Phase} (rested : φ.Rested) {v : List (Sight × Nat)} (opening : Opening v) :
      Wrote φ v []
  | owing (id : String) (place m : Nat) {v : List (Sight × Nat)} (opening : Opening v) :
      Wrote (.owing id place) v [(.marks id place, m)]
  | cleared (id : String) (place m k : Nat) {v : List (Sight × Nat)} (opening : Opening v) :
      Wrote (.cleared id place) v [(.marks id place, m), (.removes id place, k)]
  | closed {v c : List (Sight × Nat)} (opening : Opening v) (closing : Closing c) :
      Wrote .closed v c

variable {φ : Phase} {v c : List (Sight × Nat)}

theorem Phase.Wrote.opening (h : φ.Wrote v c) : Opening v := by
  cases h with
  | fresh => exact .nothing
  | holding id a => exact .accepted id a
  | spent _ opening | rested _ opening | owing _ _ _ opening | cleared _ _ _ _ opening
  | closed opening => exact opening

theorem Phase.Wrote.closing (h : φ.Wrote v c) : Closing c := by
  cases h with
  | fresh | holding | spent | rested => exact .nothing
  | owing id place m => exact .marked id place m
  | cleared id place m k => exact .removed id place m k
  | closed _ closing => exact closing

/-- A deed adds its sight to what a call has shown. -/
theorem Phase.Wrote.next (wrote : φ.Wrote v c) (goes : φ.Goes d ψ) (n : Nat) :
    ∃ v' c', ψ.Wrote v' c' ∧ v' ++ c' = v ++ c ++ (d.sight?.map (·, n)).toList := by
  cases goes with
  | accept id =>
    cases wrote with
    | fresh => exact ⟨_, _, .holding id n, rfl⟩
    | rested rested => cases rested
  | enter id place =>
    cases wrote with
    | holding _ a => exact ⟨_, _, .spent id (.entered id place a n), rfl⟩
    | rested rested => cases rested
  | answer id =>
    cases wrote with
    | holding _ a => exact ⟨_, _, .spent id (.answered id a n), rfl⟩
    | rested rested => cases rested
  | giveUp id =>
    cases wrote with
    | holding _ a => exact ⟨_, _, .rested .idle (.accepted id a), rfl⟩
    | rested rested => cases rested
  | release id =>
    cases wrote with
    | spent _ opening => exact ⟨v, [], .rested .idle opening, (List.append_nil _).symm⟩
    | rested rested => cases rested
  | look rested id place =>
    have nothing : c = [] := by
      cases rested <;> cases wrote <;> rfl
    exact ⟨v, c, nothing ▸ .rested (.found id place) wrote.opening, (List.append_nil _).symm⟩
  | mark id place =>
    have nothing : c = [] := by
      cases wrote
      rfl
    subst nothing
    exact ⟨v, _, .owing id place n wrote.opening, by rw [List.append_nil]; rfl⟩
  | remove id place =>
    cases wrote with
    | owing _ _ m opening =>
      exact ⟨v, _, .cleared id place m n opening, by rw [List.append_assoc]; rfl⟩
    | rested rested => cases rested
  | respond id place =>
    cases wrote with
    | cleared _ _ m k opening =>
      exact ⟨v, _, .closed opening (.answered id place m k n), by rw [List.append_assoc]; rfl⟩
    | rested rested => cases rested
  | other => exact ⟨v, c, wrote, (List.append_nil _).symm⟩

/-- In a run a call has shown what its phase tells, and nothing else. -/
def Keeps (settings : Settings) (run : List (Tick ι Scheduler η)) (i : ι) (φ : Phase) : Prop :=
  ∃ v c, φ.Wrote v c ∧ ((v ++ c).map Prod.snd).Pairwise (· < ·) ∧
    ∀ x n, Sees settings run n i x ↔ (x, n) ∈ v ++ c

theorem Keeps.next {tick : Tick ι Scheduler η} (keeps : Keeps settings run i φ)
    (goes : φ.Goes d ψ) (own : tick.thread = i)
    (shown : ∀ x : Sight, x.Shown settings tick ↔ d.sight? = some x) :
    Keeps settings (run ++ [tick]) i ψ := by
  obtain ⟨v, c, wrote, sorted, sees⟩ := keeps
  obtain ⟨v', c', wrote', heq⟩ := wrote.next goes run.length
  refine ⟨v', c', wrote', ?_, fun x n => ?_⟩
  · rw [heq, List.map_append, List.pairwise_append]
    refine ⟨sorted, ?_, ?_⟩
    · cases d.sight? <;> simp
    · intro a ha b hb
      obtain ⟨⟨x, a⟩, hx, rfl⟩ := List.mem_map.1 ha
      obtain ⟨⟨y, b⟩, hy, rfl⟩ := List.mem_map.1 hb
      obtain ⟨z, -, heq⟩ := Option.map_eq_some_iff.1 (Option.mem_toList.1 hy)
      cases heq
      exact ((sees x a).2 hx).lt
  · rw [heq, sees_concat, List.mem_append, sees, shown, Option.mem_toList, Option.map_eq_some_iff]
    refine or_congr_right ⟨?_, ?_⟩
    · rintro ⟨rfl, -, hd⟩
      exact ⟨x, hd, rfl⟩
    · rintro ⟨y, hd, heq⟩
      cases heq
      exact ⟨rfl, own, hd⟩

theorem Keeps.of_other {tick : Tick ι Scheduler η} (keeps : Keeps settings run i φ)
    (other : tick.thread ≠ i) : Keeps settings (run ++ [tick]) i φ := by
  obtain ⟨v, c, wrote, sorted, sees⟩ := keeps
  refine ⟨v, c, wrote, sorted, fun x n => ?_⟩
  rw [sees_concat, ← sees]
  exact or_iff_left fun h => other h.2.1

/-! ## How calls hang together -/

/-- Calls hang together over ids and entries: only a submission accepts its id, an entry has been
entered by one call, and has been marked by one call if it is marked, after it was entered. -/
structure Linked (settings : Settings) (tasks : ι → Task) (run : List (Tick ι Scheduler η))
    (phases : ι → Phase) (s : Scheduler) : Prop where
  fresh : ∀ i id, phases i = .fresh id → ∃ r, tasks i = .submit r ∧ r.expressionId = id
  accepted : ∀ i n id, Sees settings run n i (.accepts id) →
    ∃ r, tasks i = .submit r ∧ r.expressionId = id
  entered : ∀ i n id place, Sees settings run n i (.enters id place) →
    ∃ e, s.entries[place]? = some e ∧ e.expressionId = id
  origin : ∀ place e, s.entries[place]? = some e →
    ∃ i n, Sees settings run n i (.enters e.expressionId place)
  once : ∀ i j n n' id id' place, Sees settings run n i (.enters id place) →
    Sees settings run n' j (.enters id' place) → i = j
  marked : ∀ i m id place, Sees settings run m i (.marks id place) →
    (∃ e, s.entries[place]? = some e ∧ e.answered = true) ∧
      ∃ j n, n < m ∧ Sees settings run n j (.enters id place)
  sole : ∀ i j m m' id id' place, Sees settings run m i (.marks id place) →
    Sees settings run m' j (.marks id' place) → i = j

variable {tasks : ι → Task}

theorem Linked.isSome_of_enters (linked : Linked settings tasks run phases s) {n : Nat}
    {id : String} {place : Nat} (sees : Sees settings run n i (.enters id place)) :
    s.entries[place]? ≠ none := by
  obtain ⟨e, he, -⟩ := linked.entered i n id place sees
  rw [he]
  nofun

theorem Linked.answered_of_marks (linked : Linked settings tasks run phases s) {m : Nat}
    {id : String} {place : Nat} (sees : Sees settings run m i (.marks id place)) {e : Entry}
    (he : s.entries[place]? = some e) : e.answered ≠ false := by
  obtain ⟨⟨f, hf, marked⟩, -⟩ := linked.marked i m id place sees
  cases he.symm.trans hf
  rw [marked]
  nofun

/-- An entry is new to the table when it is entered, and not answered when it is marked, so no call
does that after another one. -/
theorem Linked.next [DecidableEq ι] (linked : Linked settings tasks run phases s)
    (owned : Owned phases s) (goes : (phases i).Goes d ψ) (done : d.Done settings s e t) :
    Linked settings tasks (run ++ [⟨i, s, t, e⟩]) (Function.update phases i ψ) t := by
  have lasts := done.lasts
  constructor
  case fresh =>
    intro j id hj
    by_cases h : j = i
    · subst h
      rw [Function.update_self] at hj
      subst hj
      generalize hφ : phases j = φ at goes
      cases goes with
      | other => exact linked.fresh j id hφ
    · rw [Function.update_of_ne h] at hj
      exact linked.fresh j id hj
  case accepted =>
    intro j n id sees
    rcases sees_concat.1 sees with old | ⟨-, rfl, new⟩
    · exact linked.accepted j n id old
    · have hd := sight_of_shown owned goes done new
      generalize hφ : phases i = φ at goes
      cases goes with
      | accept id =>
        cases hd
        exact linked.fresh i id hφ
      | _ => cases hd
  case entered =>
    intro j n id place sees
    rcases sees_concat.1 sees with old | ⟨-, -, -, e, he, hid⟩
    · obtain ⟨e, he, hid⟩ := linked.entered j n id place old
      obtain ⟨e', he', same, -⟩ := lasts place e he
      exact ⟨e', he', same.trans hid⟩
    · exact ⟨e, he, hid⟩
  case origin =>
    intro place e he
    cases hs : s.entries[place]? with
    | none => exact ⟨i, run.length, sees_concat.2 (Or.inr ⟨rfl, rfl, hs, e, he, rfl⟩)⟩
    | some e₀ =>
      obtain ⟨e', he', same, -⟩ := lasts place e₀ hs
      cases he.symm.trans he'
      obtain ⟨j, n, sees⟩ := linked.origin place e₀ hs
      exact ⟨j, n, sees_concat.2 (Or.inl (same ▸ sees))⟩
  case once =>
    intro j k n n' id id' place sees sees'
    rcases sees_concat.1 sees with old | ⟨-, hj, before, -⟩
    · rcases sees_concat.1 sees' with old' | ⟨-, -, before, -⟩
      · exact linked.once j k n n' id id' place old old'
      · exact (linked.isSome_of_enters old before).elim
    · rcases sees_concat.1 sees' with old' | ⟨-, hk, -⟩
      · exact (linked.isSome_of_enters old' before).elim
      · exact hj.symm.trans hk
  case marked =>
    intro j m id place sees
    rcases sees_concat.1 sees with old | ⟨rfl, -, e, e', he, rfl, -, he', marked⟩
    · obtain ⟨⟨e, he, marked⟩, k, n, hlt, entered⟩ := linked.marked j m id place old
      obtain ⟨e', he', -, still⟩ := lasts place e he
      exact ⟨⟨e', he', still marked⟩, k, n, hlt, sees_concat.2 (Or.inl entered)⟩
    · obtain ⟨k, n, entered⟩ := linked.origin place e he
      exact ⟨⟨e', he', marked⟩, k, n, entered.lt, sees_concat.2 (Or.inl entered)⟩
  case sole =>
    intro j k m m' id id' place sees sees'
    rcases sees_concat.1 sees with old | ⟨-, hj, e, e', he, -, open_, -⟩
    · rcases sees_concat.1 sees' with old' | ⟨-, -, e, e', he, -, open_, -⟩
      · exact linked.sole j k m m' id id' place old old'
      · exact (linked.answered_of_marks old he open_).elim
    · rcases sees_concat.1 sees' with old' | ⟨-, hk, -⟩
      · exact (linked.answered_of_marks old' he open_).elim
      · exact hj.symm.trans hk

/-! ## What is left of a call -/

/-- All that a call has shown in a run: on its own behalf, and for an entry. -/
structure Record (settings : Settings) (run : List (Tick ι Scheduler η)) (i : ι)
    (v c : List (Sight × Nat)) : Prop where
  opening : Opening v
  closing : Closing c
  sorted : ((v ++ c).map Prod.snd).Pairwise (· < ·)
  sees : ∀ x n, Sees settings run n i x ↔ (x, n) ∈ v ++ c

namespace Record

variable (record : Record settings run i v c) {id : String} {place : Nat}
include record

theorem lt_of_mem {x y : Sight} {m n : Nat} (hv : (x, m) ∈ v) (hc : (y, n) ∈ c) : m < n := by
  have sorted := record.sorted
  rw [List.map_append, List.pairwise_append] at sorted
  exact sorted.2.2 m (List.mem_map_of_mem hv) n (List.mem_map_of_mem hc)

theorem of_enters {k : Nat} (h : Sees settings run k i (.enters id place)) :
    ∃ a < k, v = [(.accepts id, a), (.enters id place, k)] := by
  obtain ⟨opening, closing, sorted, sees⟩ := record
  rcases List.mem_append.1 ((sees _ _).1 h) with h | h
  · cases opening <;> simp at h
    obtain ⟨⟨rfl, rfl⟩, rfl⟩ := h
    simp only [List.cons_append, List.map_cons, List.pairwise_cons] at sorted
    exact ⟨_, sorted.1 _ (by simp), rfl⟩
  · cases closing <;> simp at h

theorem of_marks {m : Nat} (h : Sees settings run m i (.marks id place)) :
    ∃ rest, c = (.marks id place, m) :: rest := by
  obtain ⟨opening, closing, -, sees⟩ := record
  rcases List.mem_append.1 ((sees _ _).1 h) with h | h
  · cases opening <;> simp at h
  · cases closing <;> simp at h
    all_goals
      obtain ⟨⟨rfl, rfl⟩, rfl⟩ := h
      exact ⟨_, rfl⟩

theorem of_removes {k : Nat} (h : Sees settings run k i (.removes id place)) :
    ∃ m < k, ∃ rest, c = (.marks id place, m) :: (.removes id place, k) :: rest := by
  obtain ⟨opening, closing, sorted, sees⟩ := record
  rw [List.map_append, List.pairwise_append] at sorted
  rcases List.mem_append.1 ((sees _ _).1 h) with h | h
  · cases opening <;> simp at h
  · cases closing <;> simp at h
    all_goals
      obtain ⟨⟨rfl, rfl⟩, rfl⟩ := h
      exact ⟨_, (List.pairwise_cons.1 sorted.2.1).1 _ (by simp), _, rfl⟩

/-- A response is the answer to the call's own submission, or the answer to an entry that the call
has marked and taken out of the table. -/
theorem of_responds {n : Nat} (h : Sees settings run n i (.responds id)) :
    (∃ a < n, v = [(.accepts id, a), (.responds id, n)]) ∨
      ∃ place m k, m < k ∧ k < n ∧
        c = [(.marks id place, m), (.removes id place, k), (.responds id, n)] := by
  obtain ⟨opening, closing, sorted, sees⟩ := record
  rw [List.map_append, List.pairwise_append] at sorted
  rcases List.mem_append.1 ((sees _ _).1 h) with h | h
  · cases opening <;> simp at h
    obtain ⟨rfl, rfl⟩ := h
    exact Or.inl ⟨_, (List.pairwise_cons.1 sorted.1).1 _ (by simp), rfl⟩
  · cases closing <;> simp at h
    obtain ⟨rfl, rfl⟩ := h
    obtain ⟨first, rest⟩ := List.pairwise_cons.1 sorted.2.1
    exact Or.inr ⟨_, _, _, first _ (by simp), (List.pairwise_cons.1 rest).1 _ (by simp), rfl⟩

/-- A call hands over the answer to its own submission before it marks an entry. -/
theorem lt_of_own {a m n : Nat} {id' : String} (hv : v = [(.accepts id, a), (.responds id, n)])
    (marks : Sees settings run m i (.marks id' place)) : n < m := by
  obtain ⟨rest, hc⟩ := record.of_marks marks
  have own : (.responds id, n) ∈ v := by simp [hv]
  have mark : (.marks id' place, m) ∈ c := by simp [hc]
  exact record.lt_of_mem own mark

end Record

theorem Keeps.exists_record (keeps : Keeps settings run i φ) :
    ∃ v c, Record settings run i v c := by
  obtain ⟨v, c, wrote, sorted, sees⟩ := keeps
  exact ⟨v, c, wrote.opening, wrote.closing, sorted, sees⟩

/-- A response at a tick of a run belongs to the submission of a call: the call hands it over
itself, without having marked an entry, or the call has entered the entry which the call that hands
it over has marked. -/
def Answers (settings : Settings) (run : List (Tick ι Scheduler η)) (n : Nat) (i : ι) : Prop :=
  ∃ j id, Sees settings run n j (.responds id) ∧
    ((j = i ∧ ∀ m < n, ∀ id' place, ¬ Sees settings run m j (.marks id' place)) ∨
      ∃ k m id' place, k < m ∧ m < n ∧ Sees settings run k i (.enters id' place) ∧
        Sees settings run m j (.marks id' place))

/-- A response that belongs to a submission is the answer of the call itself, or it is the answer to
the entry of the call. -/
theorem cases_of_answers {v c : ι → List (Sight × Nat)}
    (records : ∀ i, Record settings run i (v i) (c i)) (h : Answers settings run n i) :
    (∃ id a, v i = [(.accepts id, a), (.responds id, n)]) ∨
      ∃ j id place a k m l, v i = [(.accepts id, a), (.enters id place, k)] ∧
        c j = [(.marks id place, m), (.removes id place, l), (.responds id, n)] := by
  obtain ⟨j, id, responds, ⟨rfl, unmarked⟩ | ⟨k, m, id', place, -, hmn, enters, marks⟩⟩ := h
  · rcases (records j).of_responds responds with ⟨a, -, hv⟩ | ⟨place, m, l, hml, hln, hc⟩
    · exact Or.inl ⟨id, a, hv⟩
    · have marks : Sees settings run m j (.marks id place) := ((records j).sees _ _).2 (by simp [hc])
      exact (unmarked m (hml.trans hln) id place marks).elim
  · obtain ⟨a, -, hv⟩ := (records i).of_enters enters
    obtain ⟨rest, hc⟩ := (records j).of_marks marks
    rcases (records j).of_responds responds with ⟨a', -, hv'⟩ | ⟨place', m', l, -, -, hc'⟩
    · exact absurd ((records j).lt_of_own hv' marks) (Nat.lt_asymm hmn)
    · cases hc.symm.trans hc'
      exact Or.inr ⟨j, _, _, a, k, _, l, hv, hc'⟩

/-! ## Runs -/

/-- Tasks that have not begun, on a scheduler with nothing pending. -/
def Task.pool (settings : Settings) (compiler : Compiler) (tasks : ι → Task) :
    Pool ι Scheduler η Unit :=
  ⟨fun i => (tasks i).routine settings compiler, .empty⟩

theorem owned_empty (tasks : ι → Task) : Owned (fun i => (tasks i).phase) .empty := by
  refine ⟨sound_empty.tidy, fun place e he => ?_, fun i => ?_, fun i j _ => ?_⟩
  · cases he
  · cases tasks i <;> exact ⟨nofun, nofun, nofun, nofun⟩
  · cases tasks i <;> exact ⟨nofun, nofun⟩

theorem keeps_nil (i : ι) (task : Task) :
    Keeps settings ([] : List (Tick ι Scheduler η)) i task.phase := by
  have nothing : ∀ x n, ¬ Sees settings ([] : List (Tick ι Scheduler η)) n i x := fun x n h =>
    absurd h.lt (Nat.not_lt_zero n)
  refine ⟨[], [], ?_, .nil, fun x n => iff_of_false (nothing x n) List.not_mem_nil⟩
  cases task with
  | submit r => exact .fresh _
  | result | fail => exact .rested .idle .nothing

theorem linked_nil (tasks : ι → Task) :
    Linked settings tasks ([] : List (Tick ι Scheduler η)) (fun i => (tasks i).phase) .empty := by
  have nothing : ∀ {n i x}, ¬ Sees settings ([] : List (Tick ι Scheduler η)) n i x := fun h =>
    absurd h.lt (Nat.not_lt_zero _)
  refine ⟨fun i id hi => ?_, fun _ _ _ h => (nothing h).elim, fun _ _ _ _ h => (nothing h).elim,
    fun place e he => ?_, fun _ _ _ _ _ _ _ h => (nothing h).elim,
    fun _ _ _ _ h => (nothing h).elim, fun _ _ _ _ _ _ _ h => (nothing h).elim⟩
  · cases hr : tasks i with
    | submit r =>
      simp only [hr, Task.phase] at hi
      cases hi
      exact ⟨r, rfl, rfl⟩
    | result | fail =>
      simp only [hr, Task.phase] at hi
      cases hi
  · cases he

variable [DecidableEq ι] {compiler : Compiler}

/-- In every run each call is in some phase, and all that has been said of phases holds. -/
theorem exists_phases {q : Pool ι Scheduler η Unit}
    (h : Interleaves (Task.pool settings compiler tasks) run q) :
    ∃ phases, Owned phases q.state ∧
      (∀ i, Follows settings (q.threads i) (phases i) fun _ _ => True) ∧
      (∀ i, Keeps settings run i (phases i)) ∧ Linked settings tasks run phases q.state := by
  induction h with
  | start =>
    exact ⟨fun i => (tasks i).phase, owned_empty tasks, fun i => (tasks i).follows compiler,
      fun i => keeps_nil i (tasks i), linked_nil tasks⟩
  | @act run q i e r t before acts ih =>
    obtain ⟨phases, owned, follows, keeps, linked⟩ := ih
    obtain ⟨d, ψ, goes, done, rest⟩ := (follows i).exists_deed (owned.fits i).knows acts
    refine ⟨Function.update phases i ψ, owned.step goes done, fun j => ?_, fun j => ?_,
      linked.next owned goes done⟩
    · change Follows settings (Function.update q.threads i r j) _ _
      by_cases hj : j = i
      · subst hj
        rw [Function.update_self, Function.update_self]
        exact rest
      · rw [Function.update_of_ne hj, Function.update_of_ne hj]
        exact follows j
    · by_cases hj : j = i
      · subst hj
        rw [Function.update_self]
        exact (keeps j).next goes rfl fun x =>
          ⟨sight_of_shown owned goes done, shown_of_sight owned goes done⟩
      · rw [Function.update_of_ne hj]
        exact (keeps j).of_other (Ne.symm hj)

end Scheduler

open Scheduler

variable {ι η : Type} [DecidableEq ι] {settings : Settings} {compiler : Compiler}
variable {tasks : ι → Task} {run : List (Tick ι Scheduler η)} {q : Pool ι Scheduler η Unit}

/-- Any number of calls on a scheduler with nothing pending, with any compiler, over a transport
that may refuse anything, interleaved in any way.  A submission has at most one response; every
response is one of a submission that was accepted before, and carries its id; a call takes nothing
out of the table but an entry that it has marked; and before it hands over a response for an entry
it has taken just that entry out of the table. -/
theorem responses_of_interleaving (h : Interleaves (Task.pool settings compiler tasks) run q) :
    (∀ i n n', Answers settings run n i → Answers settings run n' i → n = n') ∧
      (∀ j n id, Sees settings run n j (.responds id) → ∃ i r a, tasks i = .submit r ∧
        r.expressionId = id ∧ a < n ∧ Sees settings run a i (.accepts id) ∧
        Answers settings run n i) ∧
      (∀ j n id place, Sees settings run n j (.removes id place) →
        ∃ m < n, Sees settings run m j (.marks id place)) ∧
      ∀ j m n id id' place, Sees settings run m j (.marks id place) → m < n →
        Sees settings run n j (.responds id') →
          id' = id ∧ ∃ k, m < k ∧ k < n ∧ Sees settings run k j (.removes id place) := by
  obtain ⟨phases, -, -, keeps, linked⟩ := exists_phases h
  choose v c records using fun i => (keeps i).exists_record
  refine ⟨fun i n n' first second => ?_, fun j n id responds => ?_, fun j n id place removes => ?_,
    fun j m n id id' place marks hmn responds => ?_⟩
  · rcases cases_of_answers records first with ⟨id, a, hv⟩ | ⟨j, id, place, a, k, m, l, hv, hc⟩
    · rcases cases_of_answers records second with ⟨id', a', hv'⟩ | ⟨_, _, _, _, _, _, _, hv', -⟩
      · cases hv.symm.trans hv'
        rfl
      · cases hv.symm.trans hv'
    · rcases cases_of_answers records second with
        ⟨_, _, hv'⟩ | ⟨j', id', place', a', k', m', l', hv', hc'⟩
      · cases hv.symm.trans hv'
      · cases hv.symm.trans hv'
        have marks : Sees settings run m j (.marks id place) :=
          ((records j).sees _ _).2 (by simp [hc])
        have marks' : Sees settings run m' j' (.marks id place) :=
          ((records j').sees _ _).2 (by simp [hc'])
        obtain rfl := linked.sole j j' m m' id id place marks marks'
        cases hc.symm.trans hc'
        rfl
  · rcases (records j).of_responds responds with ⟨a, han, hv⟩ | ⟨place, m, l, hml, hln, hc⟩
    · have accepts : Sees settings run a j (.accepts id) :=
        ((records j).sees _ _).2 (by simp [hv])
      obtain ⟨r, hr, hid⟩ := linked.accepted j a id accepts
      refine ⟨j, r, a, hr, hid, han, accepts, j, id, responds, Or.inl ⟨rfl, ?_⟩⟩
      exact fun m hmn id' place marks =>
        absurd ((records j).lt_of_own hv marks) (Nat.lt_asymm hmn)
    · have marks : Sees settings run m j (.marks id place) :=
        ((records j).sees _ _).2 (by simp [hc])
      obtain ⟨-, i, k, hkm, enters⟩ := linked.marked j m id place marks
      obtain ⟨a, hak, hv⟩ := (records i).of_enters enters
      have accepts : Sees settings run a i (.accepts id) :=
        ((records i).sees _ _).2 (by simp [hv])
      obtain ⟨r, hr, hid⟩ := linked.accepted i a id accepts
      exact ⟨i, r, a, hr, hid, by omega, accepts, j, id, responds,
        Or.inr ⟨k, m, id, place, hkm, hml.trans hln, enters, marks⟩⟩
  · obtain ⟨m, hmn, rest, hc⟩ := (records j).of_removes removes
    exact ⟨m, hmn, ((records j).sees _ _).2 (by simp [hc])⟩
  · rcases (records j).of_responds responds with ⟨a, -, hv⟩ | ⟨place', m', l, hml, hln, hc⟩
    · exact absurd ((records j).lt_of_own hv marks) (Nat.lt_asymm hmn)
    · obtain ⟨rest, hc'⟩ := (records j).of_marks marks
      cases hc.symm.trans hc'
      exact ⟨rfl, l, hml, hln, ((records j).sees _ _).2 (by simp [hc])⟩

/-- A submission, a failure of its id and a submission under the id again, interleaved: the failure
hands over its response when the id has just been accepted again, and it is the response of a
submission, and its only one. -/
theorem responses_of_three_calls :
    let tasks : Fin 3 → Task := ![.submit ⟨"a", "1+2", 1000⟩, .fail "a" .deadlineExceeded "late",
      .submit ⟨"a", "10*20", 1000⟩]
    let pool : Pool (Fin 3) Scheduler Unit Unit := Task.pool .standard Plan.compile tasks
    let played := pool.play ⟨0, []⟩ [0, 0, 0, 0, 1, 1, 1, 2, 1, 2, 2, 0, 0, 2, 2, 2, 2]
    Interleaves pool played.1 played.2 ∧ Sees .standard played.1 8 1 (.responds "a") ∧
      ∃ i, (∃ r, tasks i = .submit r ∧ r.expressionId = "a") ∧
        ∀ n, Answers .standard played.1 n i ↔ n = 8 := by
  intro tasks pool played
  have run : Interleaves pool ([] ++ played.1) played.2 := Interleaves.start.play ⟨0, []⟩ _
  rw [List.nil_append] at run
  have eighth : (played.1[8]?.bind fun t => t.published?.map fun m =>
      (t.thread, m.queue, m.body)) = some (1, Settings.standard.responseQueue,
        (ExpressionResponse.failure "a" .deadlineExceeded "late").body) := by decide +kernel
  have response : Sees .standard played.1 8 1 (.responds "a") := by
    obtain ⟨t, ht, shows⟩ := Option.bind_eq_some_iff.1 eighth
    obtain ⟨m, published, shows⟩ := Option.map_eq_some_iff.1 shows
    obtain ⟨thread, queue, body⟩ : t.thread = 1 ∧ m.queue = _ ∧ m.body = _ := by
      simpa only [Prod.mk.injEq] using shows
    exact ⟨t, ht, thread, true, m, Tick.effect_of_published? published, _,
      by rw [← queue, ← body], rfl⟩
  obtain ⟨once, owner, -⟩ := responses_of_interleaving run
  obtain ⟨i, r, a, hr, hid, -, -, answers⟩ := owner 1 8 "a" response
  refine ⟨run, response, i, ⟨r, hr, hid⟩, fun n => ⟨fun other => once i n 8 other answers, ?_⟩⟩
  rintro rfl
  exact answers

end Stepwise
