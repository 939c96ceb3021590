import Stepwise.Proofs.Service.Story
import Stepwise.Service.Scheduler

/-!
# The table of the scheduler

The scheduler keeps entries in an array and, in its table, the place of the entry of each pending
id.  `entryOf?` is the entry of an id; the lemmas say what each critical section makes of it.  A
`Tidy` table has one place for an id, with an entry of that id; a `Sound` scheduler, as it is
between calls, has no reservation, and each of its entries waits for a step (`Entry.Awaits`).
-/

namespace Stepwise

/-! ## Entries -/

/-- The entry has the results of its first steps and waits for the next one. -/
structure Entry.Awaits (e : Entry) (xs : List Float) : Prop where
  results : e.results = recorded xs
  inFlight : e.inFlight = some (xs.length : Int)
  open_ : e.answered = false
  more : xs.length < e.steps.length
  ordered : Ordered e.steps

theorem Entry.Awaits.unique {e : Entry} {xs ys : List Float} (h : e.Awaits xs) (h' : e.Awaits ys) :
    xs = ys := by
  have := congrArg (List.map (·.2)) (h.results.symm.trans h'.results)
  rwa [map_snd_recorded, map_snd_recorded] at this

namespace Scheduler

/-- The entry that an id stands for. -/
def entryOf? (s : Scheduler) (id : String) : Option Entry :=
  (s.find? id).bind fun place => s.entries[place]?

/-- Ids are keys of one place each, and the entry at the place is one of the id. -/
structure Tidy (s : Scheduler) : Prop where
  keys : (s.table.map (·.1)).Nodup
  own : ∀ id place, (id, place) ∈ s.table → ∃ e, s.entries[place]? = some e ∧ e.expressionId = id

theorem mem_table_of_find? {s : Scheduler} {id : String} {place : Nat}
    (h : s.find? id = some place) : (id, place) ∈ s.table := by
  obtain ⟨l₁, l₂, heq, -⟩ := List.lookup_eq_some_iff.1 h
  rw [heq]
  exact List.mem_append_right _ List.mem_cons_self

theorem lookup_of_mem {β : Type} {table : List (String × β)} (keys : (table.map (·.1)).Nodup)
    {id : String} {b : β} (h : (id, b) ∈ table) : table.lookup id = some b := by
  induction table with
  | nil => simp at h
  | cons p table ih =>
    rw [List.map_cons, List.nodup_cons] at keys
    rw [List.lookup_cons]
    rcases List.mem_cons.1 h with rfl | h
    · rw [beq_self_eq_true]
    · have hne : id ≠ p.1 := by
        rintro rfl
        exact keys.1 (List.mem_map.2 ⟨_, h, rfl⟩)
      rw [beq_eq_false_iff_ne.2 hne]
      exact ih keys.2 h

theorem Tidy.find?_of_mem {s : Scheduler} (tidy : s.Tidy) {id : String} {place : Nat}
    (h : (id, place) ∈ s.table) : s.find? id = some place :=
  lookup_of_mem tidy.keys h

theorem lookup_filter_ne {β : Type} (table : List (String × β)) (id other : String) :
    (table.filter (·.1 != id)).lookup other = if other = id then none else table.lookup other := by
  induction table with
  | nil => simp
  | cons p table ih =>
    rw [List.filter_cons, List.lookup_cons]
    by_cases hp : p.1 = id
    · rw [if_neg (by simp [hp]), ih]
      split
      · rfl
      · next hne => rw [hp, beq_eq_false_iff_ne.2 hne]
    · rw [if_pos (by simpa using hp), List.lookup_cons, ih]
      by_cases ho : other = id
      · rw [if_pos ho, if_pos ho, ho, beq_eq_false_iff_ne.2 (Ne.symm hp)]
      · rw [if_neg ho, if_neg ho]

/-- An id has an entry in a tidy table as soon as it has a place. -/
theorem Tidy.exists_entryOf? {s : Scheduler} (tidy : s.Tidy) {id : String} {place : Nat}
    (h : s.find? id = some place) :
    ∃ e, s.entries[place]? = some e ∧ s.entryOf? id = some e ∧ e.expressionId = id := by
  obtain ⟨e, he, hid⟩ := tidy.own id place (mem_table_of_find? h)
  exact ⟨e, he, by rw [entryOf?, h, Option.bind_some, he], hid⟩

theorem Tidy.find?_eq_none {s : Scheduler} (tidy : s.Tidy) {id : String} :
    s.find? id = none ↔ s.entryOf? id = none := by
  cases h : s.find? id with
  | none => simp [entryOf?, h]
  | some place =>
    obtain ⟨e, -, he, -⟩ := tidy.exists_entryOf? h
    simp [he]

theorem Tidy.expressionId {s : Scheduler} (tidy : s.Tidy) {id : String} {e : Entry}
    (h : s.entryOf? id = some e) : e.expressionId = id := by
  obtain ⟨place, hp, he⟩ := Option.bind_eq_some_iff.1 h
  obtain ⟨e', he', hid⟩ := tidy.own id place (mem_table_of_find? hp)
  rw [he] at he'
  cases he'
  exact hid

theorem Tidy.isPending_eq_false {s : Scheduler} (tidy : s.Tidy) {id : String} :
    s.isPending id = false ↔ s.entryOf? id = none ∧ id ∉ s.reserved := by
  rw [isPending, Bool.or_eq_false_iff, ← tidy.find?_eq_none, find?, List.lookup_eq_none_iff,
    List.any_eq_false]
  simp only [beq_iff_eq, bne_iff_ne, ne_eq, List.contains_eq_mem, decide_eq_false_iff_not]
  exact and_congr_left' (forall₂_congr fun p _ => not_congr eq_comm)

/-! ## What a section does to the entry of an id -/

/-- A tidy scheduler in which an id has got the given entry, or none, and nothing else differs. -/
structure Becomes (s : Scheduler) (id : String) (e? : Option Entry) (t : Scheduler) : Prop where
  tidy : t.Tidy
  own : t.entryOf? id = e?
  others : ∀ other, other ≠ id → t.entryOf? other = s.entryOf? other
  reserved : t.reserved = s.reserved

theorem Tidy.becomes_self {s : Scheduler} (tidy : s.Tidy) (id : String) :
    Becomes s id (s.entryOf? id) s :=
  ⟨tidy, rfl, fun _ _ => rfl, rfl⟩

theorem Becomes.trans {s t u : Scheduler} {id : String} {e? f? : Option Entry}
    (h : Becomes s id e? t) (h' : Becomes t id f? u) : Becomes s id f? u :=
  ⟨h'.tidy, h'.own, fun other hne => (h'.others other hne).trans (h.others other hne),
    h'.reserved.trans h.reserved⟩

/-- Schedulers that differ in their reservations and their counter at most. -/
structure SameEntries (s t : Scheduler) : Prop where
  table : t.table = s.table
  entries : t.entries = s.entries

theorem SameEntries.entryOf? {s t : Scheduler} (h : SameEntries s t) (id : String) :
    t.entryOf? id = s.entryOf? id := by
  rw [Scheduler.entryOf?, Scheduler.entryOf?, find?, find?, h.table, h.entries]

theorem SameEntries.tidy {s t : Scheduler} (h : SameEntries s t) (tidy : s.Tidy) : t.Tidy := by
  constructor
  · rw [h.table]
    exact tidy.keys
  · rw [h.table, h.entries]
    exact tidy.own

theorem Becomes.of_sameEntries {s s' t t' : Scheduler} {id : String} {e? : Option Entry}
    (h : Becomes s id e? t) (before : SameEntries s s') (after : SameEntries t t')
    (reserved : t'.reserved = s'.reserved) : Becomes s' id e? t' := by
  refine ⟨after.tidy h.tidy, (after.entryOf? id).trans h.own, fun other hne => ?_, reserved⟩
  rw [after.entryOf?, before.entryOf?, h.others other hne]

theorem Tidy.becomes_remove {s : Scheduler} (tidy : s.Tidy) (id : String) :
    Becomes s id none (remove id s).2 := by
  refine ⟨⟨?_, ?_⟩, ?_, ?_, rfl⟩
  · exact tidy.keys.sublist (List.filter_sublist.map _)
  · intro other place h
    exact tidy.own other place ((List.mem_filter.1 h).1)
  · simp [entryOf?, find?, remove, lookup_filter_ne]
  · intro other hne
    simp [entryOf?, find?, remove, lookup_filter_ne, hne]

theorem Tidy.becomes_enter {s : Scheduler} (tidy : s.Tidy) (e : Entry) :
    Becomes s e.expressionId (some e) (enter e s).2 ∧
      (enter e s).2.find? e.expressionId = some (enter e s).1 := by
  have kept : ∀ other place, (other, place) ∈ s.table →
      (s.entries.push e)[place]? = s.entries[place]? := by
    intro other place h
    obtain ⟨e', he', -⟩ := tidy.own other place h
    rw [Array.getElem?_push, if_neg]
    rintro rfl
    simp at he'
  refine ⟨⟨⟨?_, ?_⟩, ?_, ?_, rfl⟩, ?_⟩
  · rw [enter, List.map_cons, List.nodup_cons]
    refine ⟨?_, tidy.keys.sublist (List.filter_sublist.map _)⟩
    simp
  · intro other place h
    rcases List.mem_cons.1 h with h | h
    · cases h
      exact ⟨e, by simp [enter], rfl⟩
    · have h := (List.mem_filter.1 h).1
      rw [enter, kept other place h]
      exact tidy.own other place h
  · simp [entryOf?, find?, enter]
  · intro other hne
    have hf : (enter e s).2.find? other = s.find? other := by
      simp [find?, enter, List.lookup_cons, lookup_filter_ne, hne, beq_eq_false_iff_ne.2 hne]
    rw [entryOf?, entryOf?, hf]
    cases h : s.find? other with
    | none => rfl
    | some place => exact kept other place (mem_table_of_find? h)
  · simp [find?, enter]

theorem onEntry_eq {α : Type} {s : Scheduler} {place : Nat} {e : Entry}
    (he : s.entries[place]? = some e) (otherwise : α) (f : Entry → α × Entry) :
    onEntry place otherwise f s =
      ((f e).1, { s with entries := s.entries.setIfInBounds place (f e).2 }) := by
  rw [onEntry, he]

/-- A section on the entry of an id. -/
theorem Tidy.becomes_onEntry {α : Type} {s : Scheduler} (tidy : s.Tidy) {id : String} {place : Nat}
    {e : Entry} (hp : s.find? id = some place) (he : s.entryOf? id = some e) (otherwise : α)
    {f : Entry → α × Entry} (hf : (f e).2.expressionId = e.expressionId) :
    (onEntry place otherwise f s).1 = (f e).1 ∧
      Becomes s id (some (f e).2) (onEntry place otherwise f s).2 := by
  obtain ⟨e', he', heq, hid⟩ := tidy.exists_entryOf? hp
  rw [he] at heq
  cases heq
  have hlt : place < s.entries.size := by
    rw [Array.getElem?_eq_some_iff] at he'
    exact he'.1
  rw [onEntry_eq he']
  have kept : ∀ p, p ≠ place → (s.entries.setIfInBounds place (f e).2)[p]? = s.entries[p]? := by
    intro p hne
    rw [Array.getElem?_setIfInBounds, if_neg (Ne.symm hne)]
  have own : (s.entries.setIfInBounds place (f e).2)[place]? = some (f e).2 := by
    simp [hlt]
  refine ⟨rfl, ⟨tidy.keys, ?_⟩, ?_, ?_, rfl⟩
  · intro other p h
    obtain ⟨e'', h', hid'⟩ := tidy.own other p h
    by_cases hne : p = place
    · rw [hne, he'] at h'
      cases h'
      rw [hne]
      exact ⟨_, own, hf.trans hid'⟩
    · exact ⟨e'', (kept p hne).trans h', hid'⟩
  · change (s.find? id).bind _ = _
    rw [hp, Option.bind_some, own]
  · intro other hne
    change (s.find? other).bind _ = (s.find? other).bind _
    cases h : s.find? other with
    | none => rfl
    | some p =>
      refine kept p ?_
      rintro rfl
      obtain ⟨e'', h', hid'⟩ := tidy.own other p (mem_table_of_find? h)
      rw [he'] at h'
      cases h'
      exact hne (hid'.symm.trans hid)

end Scheduler

end Stepwise
