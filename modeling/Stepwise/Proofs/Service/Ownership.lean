import Stepwise.Proofs.Service.Discipline

/-!
# Who owns what while calls run at the same time

What a call has reserved or marked is its own: nobody else enters the id, and nobody else takes the
entry out of the table.  `Owned` says so of all calls at once, each known by its phase; every deed
of a call keeps it (`Owned.step`).
-/

namespace Stepwise

namespace Scheduler

variable {ι η : Type} {settings : Settings}

/-! ## Owning ids and entries -/

/-- The call has reserved the id. -/
inductive Phase.Holds : Phase → String → Prop where
  | holding (id : String) : Holds (.holding id) id
  | spent (id : String) : Holds (.spent id) id

/-- The call has to take the entry at the place out of the table. -/
inductive Phase.Owes : Phase → Nat → Prop where
  | owing (id : String) (place : Nat) : Owes (.owing id place) place

/-- What the scheduler has of a call in a phase. -/
structure Phase.Fits (φ : Phase) (s : Scheduler) : Prop where
  reserved : ∀ id, φ.Holds id → id ∈ s.reserved
  unlisted : ∀ id, φ = .holding id → ∀ place, (id, place) ∉ s.table
  found : ∀ id place, φ = .found id place →
    ∃ e, s.entries[place]? = some e ∧ e.expressionId = id
  owing : ∀ id place, φ = .owing id place → (id, place) ∈ s.table ∧
    ∃ e, s.entries[place]? = some e ∧ e.expressionId = id ∧ e.answered = true

/-- Two calls have reserved different ids and marked different entries. -/
def Phase.Apart (φ ψ : Phase) : Prop :=
  (∀ id, φ.Holds id → ¬ ψ.Holds id) ∧ ∀ place, φ.Owes place → ¬ ψ.Owes place

/-- The scheduler between two actions of calls in the given phases. -/
structure Owned (phases : ι → Phase) (s : Scheduler) : Prop where
  tidy : s.Tidy
  /-- An entry that is not marked is in the table. -/
  listed : ∀ place e, s.entries[place]? = some e → e.answered = false →
    (e.expressionId, place) ∈ s.table
  fits : ∀ i, (phases i).Fits s
  apart : ∀ i j, i ≠ j → (phases i).Apart (phases j)

variable {phases : ι → Phase} {s t : Scheduler} {i : ι} {φ ψ : Phase}

theorem Phase.Fits.knows (h : φ.Fits s) : φ.Knows s := by
  cases φ with
  | found id place => exact h.found id place rfl
  | _ => trivial

theorem Phase.Apart.symm (h : φ.Apart ψ) : ψ.Apart φ :=
  ⟨fun id hψ hφ => h.1 id hφ hψ, fun place hψ hφ => h.2 place hφ hψ⟩

/-- Owning no more than before keeps a call apart from others. -/
theorem Phase.Apart.mono {φ' : Phase} (h : φ.Apart ψ) (holds : ∀ id, φ'.Holds id → φ.Holds id)
    (owes : ∀ place, φ'.Owes place → φ.Owes place) : φ'.Apart ψ :=
  ⟨fun id hφ => h.1 id (holds id hφ), fun place hφ => h.2 place (owes place hφ)⟩

/-- Entries stay, with their ids, and so do their marks. -/
def Lasts (s t : Scheduler) : Prop :=
  ∀ (place : Nat) (e : Entry), s.entries[place]? = some e → ∃ e' : Entry,
    t.entries[place]? = some e' ∧ e'.expressionId = e.expressionId ∧
      (e.answered = true → e'.answered = true)

theorem exists_sign_eq (signs : t.entries.map sign = s.entries.map sign) {place : Nat} {e : Entry}
    (he : s.entries[place]? = some e) : ∃ e', t.entries[place]? = some e' ∧ sign e' = sign e := by
  have same : t.entries[place]?.map sign = some (sign e) := by
    rw [← Array.getElem?_map, signs, Array.getElem?_map, he, Option.map_some]
  exact Option.map_eq_some_iff.1 same

theorem Alike.lasts (alike : Alike s t) : Lasts s t := by
  intro place e he
  obtain ⟨e', he', same⟩ := exists_sign_eq alike.signs he
  exact ⟨e', he', congrArg Prod.fst same, (congrArg Prod.snd same).trans⟩

theorem lasts_of_entries_eq (same : t.entries = s.entries) : Lasts s t :=
  fun _ e he => ⟨e, same ▸ he, rfl, id⟩

theorem lasts_enter (e : Entry) (s : Scheduler) : Lasts s (Scheduler.enter e s).2 := by
  intro place e' he'
  obtain ⟨hlt, -⟩ := Array.getElem?_eq_some_iff.1 he'
  refine ⟨e', ?_, rfl, id⟩
  rw [Scheduler.enter, Array.getElem?_push, if_neg (by omega), he']

theorem lasts_setIfInBounds {place : Nat} {e e' : Entry} (he : s.entries[place]? = some e)
    (open_ : e.answered = false) (same : e'.expressionId = e.expressionId) :
    Lasts s { s with entries := s.entries.setIfInBounds place e' } := by
  intro place' f hf
  by_cases hp : place = place'
  · subst hp
    obtain ⟨hlt, -⟩ := Array.getElem?_eq_some_iff.1 he
    obtain rfl := Option.some.inj (he.symm.trans hf)
    refine ⟨e', Array.getElem?_setIfInBounds_self_of_lt hlt, same, fun marked => ?_⟩
    cases open_.symm.trans marked
  · exact ⟨f, (Array.getElem?_setIfInBounds_ne hp).trans hf, rfl, id⟩

theorem Deed.Done.lasts {d : Deed} {e : Option (Effect η)} (h : d.Done settings s e t) :
    Lasts s t := by
  cases h with
  | outside => exact lasts_of_entries_eq rfl
  | inside changes =>
    cases d with
    | accept id =>
      obtain ⟨free, rfl⟩ := changes
      rw [reserve]
      split <;> exact lasts_of_entries_eq rfl
    | enter id place =>
      obtain ⟨e, -, -, -, rfl⟩ := changes
      exact lasts_enter e s
    | release id =>
      obtain rfl := changes
      exact lasts_of_entries_eq rfl
    | look id place =>
      obtain ⟨-, rfl⟩ := changes
      exact lasts_of_entries_eq rfl
    | mark id place =>
      obtain ⟨e, e', he, open_, -, same, rfl⟩ := changes
      exact lasts_setIfInBounds he open_ same
    | remove id place =>
      obtain rfl := changes
      exact lasts_of_entries_eq rfl
    | respond id => exact changes.elim
    | other => exact changes.lasts

/-- A phase fits as long as its reservation and its place in the table are left alone. -/
theorem Phase.Fits.next (fits : φ.Fits s) (lasts : Lasts s t)
    (reserved : ∀ id, φ.Holds id → id ∈ t.reserved)
    (unlisted : ∀ id, φ = .holding id → ∀ place, (id, place) ∉ t.table)
    (owing : ∀ id place, φ = .owing id place → (id, place) ∈ t.table) : φ.Fits t := by
  refine ⟨reserved, unlisted, fun id place hφ => ?_, fun id place hφ => ?_⟩
  · obtain ⟨e, he, hid⟩ := fits.found id place hφ
    obtain ⟨e', he', same, -⟩ := lasts place e he
    exact ⟨e', he', same.trans hid⟩
  · obtain ⟨-, e, he, hid, marked⟩ := fits.owing id place hφ
    obtain ⟨e', he', same, still⟩ := lasts place e he
    exact ⟨owing id place hφ, e', he', same.trans hid, still marked⟩

variable [DecidableEq ι]

/-- One call goes on and the others stay as they are. -/
theorem Owned.update (owned : Owned phases s) (lasts : Lasts s t) (tidy : t.Tidy)
    (listed : ∀ place e, t.entries[place]? = some e → e.answered = false →
      (e.expressionId, place) ∈ t.table)
    (own : ψ.Fits t) (apart : ∀ j, j ≠ i → ψ.Apart (phases j))
    (reserved : ∀ j, j ≠ i → ∀ id, (phases j).Holds id → id ∈ t.reserved)
    (unlisted : ∀ j, j ≠ i → ∀ id, phases j = .holding id → ∀ place, (id, place) ∉ t.table)
    (owing : ∀ j, j ≠ i → ∀ id place, phases j = .owing id place → (id, place) ∈ t.table) :
    Owned (Function.update phases i ψ) t := by
  refine ⟨tidy, listed, fun j => ?_, fun j k hne => ?_⟩
  · by_cases hj : j = i
    · rw [hj, Function.update_self]
      exact own
    · rw [Function.update_of_ne hj]
      exact (owned.fits j).next lasts (reserved j hj) (unlisted j hj) (owing j hj)
  · by_cases hj : j = i
    · have hk : k ≠ i := fun hk => hne (hj.trans hk.symm)
      rw [hj, Function.update_self, Function.update_of_ne hk]
      exact apart k hk
    · rw [Function.update_of_ne hj]
      by_cases hk : k = i
      · rw [hk, Function.update_self]
        exact (apart j hj).symm
      · rw [Function.update_of_ne hk]
        exact owned.apart j k hne

/-- A deed that changes at most a call's phase. -/
theorem Owned.of_alike (owned : Owned phases s) (alike : Alike s t) (own : ψ.Fits t)
    (holds : ∀ id, ψ.Holds id → (phases i).Holds id)
    (owes : ∀ place, ψ.Owes place → (phases i).Owes place) :
    Owned (Function.update phases i ψ) t := by
  refine owned.update alike.lasts ⟨alike.table ▸ owned.tidy.keys, fun id place h => ?_⟩
    (fun place e he open_ => ?_) own (fun j hj => (owned.apart i j hj.symm).mono holds owes)
    (fun j _ id h => alike.reserved ▸ (owned.fits j).reserved id h)
    (fun j _ id h => alike.table ▸ (owned.fits j).unlisted id h)
    (fun j _ id place h => alike.table ▸ ((owned.fits j).owing id place h).1)
  · rw [alike.table] at h
    obtain ⟨e, he, hid⟩ := owned.tidy.own id place h
    obtain ⟨e', he', same, -⟩ := alike.lasts place e he
    exact ⟨e', he', same.trans hid⟩
  · obtain ⟨e', he', same⟩ := exists_sign_eq alike.signs.symm he
    have hid : e'.expressionId = e.expressionId := congrArg Prod.fst same
    rw [alike.table, ← hid]
    exact owned.listed place e' he' ((congrArg Prod.snd same).trans open_)

theorem Owned.accept {id : String} (owned : Owned phases s) (free : s.isPending id = false) :
    Owned (Function.update phases i (.holding id)) (Scheduler.reserve id s).2 := by
  obtain ⟨absent, unreserved⟩ := owned.tidy.isPending_eq_false.1 free
  have unlisted : ∀ place, (id, place) ∉ s.table := by
    intro place h
    rw [← owned.tidy.find?_eq_none, owned.tidy.find?_of_mem h] at absent
    cases absent
  rw [Scheduler.reserve, if_neg (by simp [free])]
  refine owned.update (lasts_of_entries_eq rfl) ⟨owned.tidy.keys, owned.tidy.own⟩ owned.listed
    ⟨?_, ?_, by simp, by simp⟩ (fun j _ => ⟨?_, fun _ owes => by cases owes⟩)
    (fun j _ id' h => List.mem_cons_of_mem _ ((owned.fits j).reserved id' h))
    (fun j _ => (owned.fits j).unlisted) (fun j _ id' place h => ((owned.fits j).owing id' place h).1)
  · rintro _ ⟨⟩
    exact List.mem_cons_self
  · rintro _ ⟨⟩
    exact unlisted
  · rintro _ ⟨⟩ holds
    exact unreserved ((owned.fits j).reserved _ holds)

theorem Owned.enter {e : Entry} (owned : Owned phases s)
    (hφ : phases i = .holding e.expressionId) :
    Owned (Function.update phases i (.spent e.expressionId)) (Scheduler.enter e s).2 := by
  have unlisted := (owned.fits i).unlisted _ hφ
  have holds : (phases i).Holds e.expressionId := hφ ▸ .holding _
  have other : ∀ j, j ≠ i → ¬ (phases j).Holds e.expressionId := fun j hj =>
    (owned.apart i j hj.symm).1 _ holds
  -- The id has no place yet, so nothing leaves the table for the new entry.
  have kept : ∀ id place, (id, place) ∈ s.table → (id, place) ∈ (Scheduler.enter e s).2.table := by
    intro id place h
    refine List.mem_cons_of_mem _ (List.mem_filter.2 ⟨h, ?_⟩)
    rw [bne_iff_ne]
    rintro rfl
    exact unlisted place h
  refine owned.update (lasts_enter e s) (owned.tidy.becomes_enter e).1.tidy ?_
    ⟨?_, nofun, nofun, nofun⟩ (fun j hj => ⟨?_, nofun⟩) (fun j _ => (owned.fits j).reserved) ?_
    (fun j _ id place h => kept id place ((owned.fits j).owing id place h).1)
  · intro place e' he' open_
    rw [Scheduler.enter, Array.getElem?_push] at he'
    split at he'
    · next last =>
      cases he'
      rw [last]
      exact List.mem_cons_self
    · exact kept _ _ (owned.listed place e' he' open_)
  · rintro _ ⟨⟩
    exact (owned.fits i).reserved _ holds
  · rintro _ ⟨⟩
    exact other j hj
  · intro j hj id hψ place h
    rcases List.mem_cons.1 h with h | h
    · cases h
      exact other j hj (hψ ▸ .holding _)
    · exact (owned.fits j).unlisted id hψ place (List.mem_filter.1 h).1

theorem Owned.release {id : String} (owned : Owned phases s) (holds : (phases i).Holds id) :
    Owned (Function.update phases i .idle) (Scheduler.release id s).2 := by
  refine owned.update (lasts_of_entries_eq rfl) ⟨owned.tidy.keys, owned.tidy.own⟩ owned.listed
    ⟨nofun, nofun, nofun, nofun⟩ (fun j _ => ⟨nofun, nofun⟩) (fun j hj id' h => ?_)
    (fun j _ => (owned.fits j).unlisted) (fun j _ id' place h => ((owned.fits j).owing id' place h).1)
  refine List.mem_filter.2 ⟨(owned.fits j).reserved id' h, ?_⟩
  rw [bne_iff_ne]
  rintro rfl
  exact (owned.apart i j hj.symm).1 _ holds h

theorem Owned.mark {id : String} {place : Nat} {e e' : Entry} (owned : Owned phases s)
    (he : s.entries[place]? = some e) (hid : e.expressionId = id) (open_ : e.answered = false)
    (same : e'.expressionId = e.expressionId) (marked : e'.answered = true) :
    Owned (Function.update phases i (.owing id place))
      { s with entries := s.entries.setIfInBounds place e' } := by
  have lasts := lasts_setIfInBounds he open_ same
  obtain ⟨hlt, -⟩ := Array.getElem?_eq_some_iff.1 he
  refine owned.update lasts ⟨owned.tidy.keys, fun id' place' h => ?_⟩ (fun place' f hf unmarked => ?_)
    ⟨nofun, nofun, nofun, ?_⟩ (fun j _ => ⟨nofun, ?_⟩) (fun j _ => (owned.fits j).reserved)
    (fun j _ => (owned.fits j).unlisted) (fun j _ id' place' h => ((owned.fits j).owing id' place' h).1)
  · obtain ⟨f, hf, hid'⟩ := owned.tidy.own id' place' h
    obtain ⟨f', hf', same', -⟩ := lasts place' f hf
    exact ⟨f', hf', same'.trans hid'⟩
  · by_cases hp : place = place'
    · subst hp
      rw [Array.getElem?_setIfInBounds_self_of_lt hlt] at hf
      cases hf
      cases marked.symm.trans unmarked
    · rw [Array.getElem?_setIfInBounds_ne hp] at hf
      exact owned.listed place' f hf unmarked
  · rintro _ _ ⟨⟩
    exact ⟨hid ▸ owned.listed place e he open_, e', Array.getElem?_setIfInBounds_self_of_lt hlt,
      same.trans hid, marked⟩
  · rintro _ ⟨⟩ owes
    generalize hψ : phases j = ψ at owes
    cases owes with
    | owing id' =>
      obtain ⟨-, f, hf, -, already⟩ := (owned.fits j).owing id' place hψ
      cases he.symm.trans hf
      cases open_.symm.trans already

theorem Owned.remove {id : String} {place : Nat} (owned : Owned phases s)
    (hφ : phases i = .owing id place) :
    Owned (Function.update phases i (.cleared id place)) (Scheduler.remove id s).2 := by
  obtain ⟨hmem, e, he, hid, marked⟩ := (owned.fits i).owing id place hφ
  -- The table has one place for the id, which is the one that this call has marked.
  have only : ∀ place', (id, place') ∈ s.table → place' = place := by
    intro place' h
    exact Option.some.inj ((owned.tidy.find?_of_mem h).symm.trans (owned.tidy.find?_of_mem hmem))
  refine owned.update (lasts_of_entries_eq rfl) (owned.tidy.becomes_remove id).tidy ?_
    ⟨nofun, nofun, nofun, nofun⟩ (fun j _ => ⟨nofun, nofun⟩) (fun j _ => (owned.fits j).reserved)
    (fun j _ id' hψ place' h => (owned.fits j).unlisted id' hψ place' (List.mem_filter.1 h).1) ?_
  · intro place' f hf unmarked
    refine List.mem_filter.2 ⟨owned.listed place' f hf unmarked, ?_⟩
    rw [bne_iff_ne]
    rintro rfl
    obtain rfl := only place' (owned.listed place' f hf unmarked)
    cases he.symm.trans hf
    cases marked.symm.trans unmarked
  · intro j hj id' place' hψ
    have there := ((owned.fits j).owing id' place' hψ).1
    refine List.mem_filter.2 ⟨there, ?_⟩
    rw [bne_iff_ne]
    rintro rfl
    obtain rfl := only place' there
    exact (owned.apart i j hj.symm).2 place' (hφ ▸ .owing _ _) (hψ ▸ .owing _ _)

/-- A deed of one call leaves every call what it owns. -/
theorem Owned.step {d : Deed} {e : Option (Effect η)} (owned : Owned phases s)
    (goes : (phases i).Goes d ψ) (done : d.Done settings s e t) :
    Owned (Function.update phases i ψ) t := by
  generalize hφ : phases i = φ at goes
  cases done with
  | outside hands accepted =>
    cases goes with
    | answer id =>
      have holds : (phases i).Holds id := hφ ▸ .holding _
      refine owned.of_alike (.refl s) ⟨?_, nofun, nofun, nofun⟩ ?_ nofun
      · rintro _ ⟨⟩
        exact (owned.fits i).reserved _ holds
      · rintro _ ⟨⟩
        exact holds
    | respond id place => exact owned.of_alike (.refl s) ⟨nofun, nofun, nofun, nofun⟩ nofun nofun
    | other φ =>
      rw [← hφ, Function.update_eq_self]
      exact owned
    | _ => exact hands.elim
  | inside changes =>
    cases goes with
    | accept id =>
      obtain ⟨free, rfl⟩ := changes
      exact owned.accept free
    | enter id place =>
      obtain ⟨e, rfl, -, -, rfl⟩ := changes
      exact owned.enter hφ
    | giveUp id =>
      obtain rfl := changes
      exact owned.release (hφ ▸ .holding id)
    | release id =>
      obtain rfl := changes
      exact owned.release (hφ ▸ .spent id)
    | look rested id place =>
      obtain ⟨hmem, rfl⟩ := changes
      refine owned.of_alike (.refl _) ⟨nofun, nofun, ?_, nofun⟩ nofun nofun
      rintro _ _ ⟨⟩
      exact owned.tidy.own id place hmem
    | mark id place =>
      obtain ⟨e, e', he, open_, marked, same, rfl⟩ := changes
      obtain ⟨f, hf, hid⟩ := (owned.fits i).found id place hφ
      cases he.symm.trans hf
      exact owned.mark he hid open_ same marked
    | remove id place =>
      obtain rfl := changes
      exact owned.remove hφ
    | answer | respond => exact changes.elim
    | other φ =>
      have fits := hφ ▸ owned.fits i
      refine owned.of_alike changes (fits.next changes.lasts ?_ ?_ ?_) (fun id h => hφ ▸ h)
        fun place h => hφ ▸ h
      · exact fun id h => changes.reserved ▸ fits.reserved id h
      · exact fun id h => changes.table ▸ fits.unlisted id h
      · exact fun id place h => changes.table ▸ (fits.owing id place h).1

end Scheduler

end Stepwise
