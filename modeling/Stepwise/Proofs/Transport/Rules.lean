import Stepwise.Proofs.Transport.Invariant

/-!
# Routines that heed rules

`Rules` tell what each critical section of a routine may do to the state and which messages it makes
ready, and a routine that `Heeds` them hands over nothing but messages that are ready.  So it
`Guarantees` what the rules imply, and more can be said of its own ticks (`Heeds.performs`) and of a
run in which all that act heed rules of their own (`Interleaves.heeds`).  A routine whose clock
stands still (`Routine.still`) heeds all that it heeds at the time which the clock shows.
-/

namespace Stepwise

variable {ι σ η α β : Type}

/-- Rules for the critical sections of a routine: what each of them may do, and the messages that it
makes ready. -/
structure Rules (σ : Type) where
  step : σ → σ → Prop
  readies : σ → σ → Message → Prop

namespace Routine

/-- As long as its clock shows certain times, each section finds the invariant, keeps it and does
what the rules allow, and what is handed over is ready by then. -/
def Heeds (inv : σ → Prop) (rules : Rules σ) (shows : Int → Prop) :
    Routine σ η α → (Message → Prop) → Prop
  | .done _, _ | .raise _, _ => True
  | .critical update next, ready =>
    ∀ s, inv s → inv (update s) ∧ rules.step s (update s) ∧
      (next s).Heeds inv rules shows fun m => ready m ∨ rules.readies s (update s) m
  | .clock next, ready => ∀ now, shows now → (next now).Heeds inv rules shows ready
  | .publish m next, ready =>
    ready m ∧ ∀ answer : Except Refusal Unit,
      (next (answer.mapError .refused)).Heeds inv rules shows ready
  | .subscribe _ _ next, ready =>
    ∀ answer : Except Refusal Unit, (next (answer.mapError .refused)).Heeds inv rules shows ready
  | .cancel _ next, ready | .close next, ready | .settle _ next, ready =>
    next.Heeds inv rules shows ready

variable {inv : σ → Prop} {rules : Rules σ} {shows : Int → Prop} {r : Routine σ η α} {s t : σ}
  {ready ready' : Message → Prop}

theorem Heeds.mono (h : r.Heeds inv rules shows ready) (sub : ∀ m, ready m → ready' m) :
    r.Heeds inv rules shows ready' := by
  induction r generalizing ready ready' with
  | done a | raise fault => trivial
  | critical update next ih =>
    intro s hs
    obtain ⟨keeps, does, rest⟩ := h s hs
    exact ⟨keeps, does, ih s rest fun m => Or.imp_left (sub m)⟩
  | clock next ih => exact fun now shown => ih now (h now shown) sub
  | publish m next ih => exact ⟨sub m h.1, fun answer => ih _ (h.2 answer) sub⟩
  | subscribe queue handler next ih => exact fun answer => ih _ (h answer) sub
  | cancel queue next ih | close next ih | settle how next ih => exact ih h sub

theorem heeds_pure (a : α) : (pure a : Routine σ η α).Heeds inv rules shows ready := trivial

theorem Heeds.bind {f : α → Routine σ η β} (h : r.Heeds inv rules shows ready)
    (rest : ∀ a, (f a).Heeds inv rules shows ready) : (r >>= f).Heeds inv rules shows ready := by
  change (r.bind f).Heeds inv rules shows ready
  induction r generalizing ready with
  | done a => exact rest a
  | raise fault => trivial
  | critical update next ih =>
    intro s hs
    obtain ⟨keeps, does, more⟩ := h s hs
    exact ⟨keeps, does, ih s more fun a => (rest a).mono fun m => Or.inl⟩
  | clock next ih => exact fun now shown => ih now (h now shown) rest
  | publish m next ih => exact ⟨h.1, fun answer => ih _ (h.2 answer) rest⟩
  | subscribe queue handler next ih => exact fun answer => ih _ (h answer) rest
  | cancel queue next ih | close next ih | settle how next ih => exact ih h rest

theorem Heeds.attempt (h : r.Heeds inv rules shows ready) :
    r.attempt.Heeds inv rules shows ready := by
  induction r generalizing ready with
  | done a | raise fault => trivial
  | critical update next ih =>
    intro s hs
    obtain ⟨keeps, does, more⟩ := h s hs
    exact ⟨keeps, does, ih s more⟩
  | clock next ih => exact fun now shown => ih now (h now shown)
  | publish m next ih => exact ⟨h.1, fun answer => ih _ (h.2 answer)⟩
  | subscribe queue handler next ih => exact fun answer => ih _ (h answer)
  | cancel queue next ih | close next ih | settle how next ih => exact ih h

theorem Heeds.thenAlways {second : Routine σ η Unit} (h : r.Heeds inv rules shows ready)
    (h' : second.Heeds inv rules shows ready) :
    (r.thenAlways second).Heeds inv rules shows ready := by
  refine h.attempt.bind fun x => h'.bind fun _ => ?_
  cases x <;> trivial

/-- What follows a section may hand over what the section has made ready. -/
theorem heeds_atomically_bind {f : σ → α × σ} {next : α → Routine σ η β} :
    (atomically f >>= next).Heeds inv rules shows ready ↔
      ∀ s, inv s → inv (f s).2 ∧ rules.step s (f s).2 ∧
        (next (f s).1).Heeds inv rules shows fun m => ready m ∨ rules.readies s (f s).2 m :=
  Iff.rfl

theorem heeds_atomically {f : σ → α × σ} (h : ∀ s, inv s → inv (f s).2 ∧ rules.step s (f s).2) :
    (atomically f : Routine σ η α).Heeds inv rules shows ready :=
  fun s hs => ⟨(h s hs).1, (h s hs).2, trivial⟩

theorem heeds_now_bind {next : Int → Routine σ η β} :
    (now >>= next).Heeds inv rules shows ready ↔
      ∀ n, shows n → (next n).Heeds inv rules shows ready :=
  Iff.rfl

theorem heeds_tryPublish {m : Message} (here : ready m) :
    (tryPublish m : Routine σ η _).Heeds inv rules shows ready :=
  ⟨here, fun _ => trivial⟩

/-! ## A clock that stands still -/

/-- A routine whose clock stands still. -/
def still (now : Int) : Routine σ η α → Routine σ η α
  | done a => done a
  | raise fault => raise fault
  | critical update next => critical update fun s => (next s).still now
  | clock next => (next now).still now
  | publish m next => publish m fun answer => (next answer).still now
  | subscribe queue handler next => subscribe queue handler fun answer => (next answer).still now
  | cancel queue next => cancel queue (next.still now)
  | close next => close (next.still now)
  | settle how next => settle how (next.still now)

/-- A clock that stands still is one that shows nothing else. -/
theorem yields_still_iff {now : Int} {x : Except Fault α} {es : List (Effect η)} :
    (r.still now).Yields s x t es ↔ r.YieldsAt (· = now) s x t es := by
  induction r generalizing s es with
  | done a | raise fault => rfl
  | critical update next ih => exact ih s
  | clock next ih =>
    refine (ih now).trans ⟨fun h => ⟨now, rfl, h⟩, ?_⟩
    rintro ⟨_, rfl, h⟩
    exact h
  | publish m next ih =>
    exact exists_congr fun answer => exists_congr fun rest => and_congr_right fun _ => ih _
  | subscribe queue handler next ih =>
    exact or_congr (exists_congr fun rest => and_congr_right fun _ => ih _)
      (exists_congr fun refusal => ih _)
  | cancel queue next ih | close next ih | settle how next ih =>
    exact exists_congr fun rest => and_congr_right fun _ => ih

theorem Heeds.still {now : Int} (h : r.Heeds inv rules (· = now) ready) :
    (r.still now).Heeds inv rules shows ready := by
  induction r generalizing ready with
  | done a | raise fault => trivial
  | critical update next ih =>
    intro s hs
    obtain ⟨keeps, does, more⟩ := h s hs
    exact ⟨keeps, does, ih s more⟩
  | clock next ih => exact ih now (h now rfl)
  | publish m next ih => exact ⟨h.1, fun answer => ih _ (h.2 answer)⟩
  | subscribe queue handler next ih => exact fun answer => ih _ (h answer)
  | cancel queue next ih | close next ih | settle how next ih => exact ih h

/-! ## Between other routines -/

/-- One action: what it hands over was ready, and what it makes ready may be handed over later. -/
theorem Heeds.acts {e : Option (Effect η)} {r' : Routine σ η α}
    (h : r.Heeds inv rules (fun _ => True) ready) (hs : inv s) (acts : r.Acts s e r' t) :
    inv t ∧ (t = s ∨ rules.step s t) ∧ (∀ accepted m, e = some (.handed accepted m) → ready m) ∧
      r'.Heeds inv rules (fun _ => True) fun m => ready m ∨ rules.readies s t m := by
  have silent : ∀ {e : Effect η}, (∀ accepted m, e ≠ .handed accepted m) →
      ∀ accepted m, some e = some (.handed accepted m) → ready m :=
    fun other accepted m handed => absurd (Option.some.inj handed) (other accepted m)
  cases acts with
  | critical update next =>
    obtain ⟨keeps, does, rest⟩ := h s hs
    exact ⟨keeps, Or.inr does, nofun, rest⟩
  | clock next _ now =>
    exact ⟨hs, Or.inl rfl, nofun, Heeds.mono (h now trivial) fun m => Or.inl⟩
  | publish m next _ answer =>
    refine ⟨hs, Or.inl rfl, ?_, (h.2 answer).mono fun m => Or.inl⟩
    intro accepted m' handed
    exact Effect.handed_inj (Option.some.inj handed) ▸ h.1
  | subscribe queue handler next =>
    refine ⟨hs, Or.inl rfl, silent ?_, (h (.ok ())).mono fun m => Or.inl⟩
    intro accepted m
    cases accepted <;> nofun
  | notSubscribed queue handler next _ refusal =>
    exact ⟨hs, Or.inl rfl, nofun, (h (.error refusal)).mono fun m => Or.inl⟩
  | cancel | close | settle =>
    refine ⟨hs, Or.inl rfl, silent ?_, Heeds.mono h fun m => Or.inl⟩
    intro accepted m
    cases accepted <;> nofun

/-- At its own ticks a routine heeds the rules, whatever happens between them. -/
theorem Heeds.performs {r' : Routine σ η α} {ticks : List (Tick ι σ η)}
    (h : r.Heeds inv rules (fun _ => True) ready) (performs : r.Performs ticks r')
    (found : ∀ tick ∈ ticks, inv tick.before) :
    ∀ tick ∈ ticks, inv tick.after ∧
      (tick.after = tick.before ∨ rules.step tick.before tick.after) ∧
      ∀ accepted m, tick.effect = some (.handed accepted m) →
        ready m ∨ ∃ made ∈ ticks, rules.readies made.before made.after m := by
  induction ticks generalizing r ready with
  | nil => exact nofun
  | cons first ticks ih =>
    obtain ⟨next, acts, rest⟩ := performs
    obtain ⟨keeps, does, was, heeds⟩ := h.acts (found first List.mem_cons_self) acts
    have later := ih heeds rest fun tick mem => found tick (List.mem_cons_of_mem _ mem)
    intro tick mem
    rcases List.mem_cons.1 mem with rfl | mem
    · exact ⟨keeps, does, fun accepted m handed => Or.inl (was accepted m handed)⟩
    · obtain ⟨keeps', does', hands⟩ := later tick mem
      refine ⟨keeps', does', fun accepted m handed => ?_⟩
      rcases hands accepted m handed with (before | now) | ⟨made, there, ready⟩
      · exact Or.inl before
      · exact Or.inr ⟨first, List.mem_cons_self, now⟩
      · exact Or.inr ⟨made, List.mem_cons_of_mem _ there, ready⟩

/-- A routine that heeds rules guarantees what they imply. -/
theorem Heeds.guarantees {rel : σ → σ → Prop} (h : r.Heeds inv rules (fun _ => True) ready)
    (sub : ∀ s t, rules.step s t → rel s t) : r.Guarantees inv rel := by
  induction r generalizing ready with
  | done a | raise fault => trivial
  | critical update next ih =>
    intro s hs
    obtain ⟨keeps, does, rest⟩ := h s hs
    exact ⟨keeps, sub _ _ does, ih s rest⟩
  | clock next ih => exact fun now => ih now (h now trivial)
  | publish m next ih => exact fun answer => ih _ (h.2 answer)
  | subscribe queue handler next ih => exact fun answer => ih _ (h answer)
  | cancel queue next ih | close next ih | settle how next ih => exact ih h

end Routine

variable [DecidableEq ι] {p q : Pool ι σ η α} {run : List (Tick ι σ η)} {inv : σ → Prop}
  (rules : ι → Rules σ) (ready : ι → Message → Prop)

/-- What those that act at the ticks of a run do there, as long as each tick finds the invariant. -/
theorem Interleaves.heeds_of_found (h : Interleaves p run q)
    (acting : ∀ tick ∈ run, (p.threads tick.thread).Heeds inv (rules tick.thread) (fun _ => True)
      (ready tick.thread)) (found : ∀ tick ∈ run, inv tick.before) :
    ∀ tick ∈ run, inv tick.after ∧
      (tick.after = tick.before ∨ (rules tick.thread).step tick.before tick.after) ∧
      ∀ accepted m, tick.effect = some (.handed accepted m) → ready tick.thread m ∨
        ∃ made ∈ run, made.thread = tick.thread ∧
          (rules tick.thread).readies made.before made.after m := by
  intro tick mem
  have own : tick ∈ run.filter (·.thread = tick.thread) := List.mem_filter.2 ⟨mem, by simp⟩
  obtain ⟨keeps, does, hands⟩ := (acting tick mem).performs (h.performs tick.thread)
    (fun t ht => found t (List.mem_filter.1 ht).1) tick own
  refine ⟨keeps, does, fun accepted m handed => ?_⟩
  refine (hands accepted m handed).imp_right ?_
  rintro ⟨made, there, readies⟩
  obtain ⟨there, whose⟩ := List.mem_filter.1 there
  exact ⟨made, there, by simpa using whose, readies⟩

/-- In a run of routines that heed rules of their own each tick finds the invariant. -/
theorem Interleaves.found_of_heeds (h : Interleaves p run q) (start : inv p.state)
    (acting : ∀ tick ∈ run, (p.threads tick.thread).Heeds inv (rules tick.thread) (fun _ => True)
      (ready tick.thread)) :
    inv q.state ∧ ∀ tick ∈ run, inv tick.before := by
  induction h with
  | start => exact ⟨start, nofun⟩
  | @act run q i e r t before acts ih =>
    obtain ⟨now, earlier⟩ := ih fun tick mem => acting tick (List.mem_append_left _ mem)
    have found : ∀ tick ∈ run ++ [⟨i, q.state, t, e⟩], inv tick.before := by
      intro tick mem
      rcases List.mem_append.1 mem with mem | mem
      · exact earlier tick mem
      · rw [List.mem_singleton.1 mem]
        exact now
    have last := (before.act acts).heeds_of_found rules ready acting found _
      (List.mem_append_right _ List.mem_cons_self)
    exact ⟨last.1, found⟩

/-- What routines that heed rules of their own do in a run. -/
theorem Interleaves.heeds (h : Interleaves p run q) (start : inv p.state)
    (acting : ∀ tick ∈ run, (p.threads tick.thread).Heeds inv (rules tick.thread) (fun _ => True)
      (ready tick.thread)) :
    ∀ tick ∈ run, inv tick.after ∧
      (tick.after = tick.before ∨ (rules tick.thread).step tick.before tick.after) ∧
      ∀ accepted m, tick.effect = some (.handed accepted m) → ready tick.thread m ∨
        ∃ made ∈ run, made.thread = tick.thread ∧
          (rules tick.thread).readies made.before made.after m :=
  h.heeds_of_found rules ready acting (h.found_of_heeds rules ready start acting).2

/-- In the middle of a run a routine has left what heeds its rules, with what its ticks so far have
made ready. -/
theorem Interleaves.heeding (h : Interleaves p run q)
    (acting : ∀ i, (p.threads i).Heeds inv (rules i) (fun _ => True) (ready i))
    (start : inv p.state) :
    inv q.state ∧ ∀ i, (q.threads i).Heeds inv (rules i) (fun _ => True) fun m => ready i m ∨
      ∃ made ∈ run, made.thread = i ∧ (rules i).readies made.before made.after m := by
  induction h with
  | start => exact ⟨start, fun i => (acting i).mono fun m => Or.inl⟩
  | @act run q i e r t before acts ih =>
    obtain ⟨found, heeds⟩ := ih
    obtain ⟨keeps, -, -, rest⟩ := (heeds i).acts found acts
    refine ⟨keeps, fun j => ?_⟩
    change (Function.update q.threads i r j).Heeds _ _ _ _
    have more : ∀ m, (∃ made ∈ run, made.thread = j ∧ (rules j).readies made.before made.after m) →
        ∃ made ∈ run ++ [⟨i, q.state, t, e⟩], made.thread = j ∧
          (rules j).readies made.before made.after m := by
      rintro m ⟨made, mem, own⟩
      exact ⟨made, List.mem_append_left _ mem, own⟩
    by_cases own : j = i
    · subst own
      rw [Function.update_self]
      refine rest.mono fun m => ?_
      rintro ((was | earlier) | now)
      · exact Or.inl was
      · exact Or.inr (more m earlier)
      · exact Or.inr ⟨_, List.mem_append_right _ List.mem_cons_self, rfl, now⟩
    · rw [Function.update_of_ne own]
      exact (heeds j).mono fun m => Or.imp_right (more m)

/-- What a routine hands over has been ready from the start, or an earlier tick of its own has made
it so. -/
theorem Interleaves.ready_of_handed (h : Interleaves p run q)
    (acting : ∀ i, (p.threads i).Heeds inv (rules i) (fun _ => True) (ready i))
    (start : inv p.state) {n : Nat} {tick : Tick ι σ η} (there : run[n]? = some tick)
    {accepted : Bool} {m : Message} (handed : tick.effect = some (.handed accepted m)) :
    ready tick.thread m ∨ ∃ made ∈ run.take n, made.thread = tick.thread ∧
      (rules tick.thread).readies made.before made.after m := by
  obtain ⟨q', r, before, state, acts⟩ := h.exists_acts there
  obtain ⟨found, heeds⟩ := before.heeding rules ready acting start
  exact ((heeds tick.thread).acts (state ▸ found) acts).2.2.1 accepted m handed

/-- What holds between the states before and after a tick holds from each tick to the end. -/
theorem Interleaves.lasts {rel : σ → σ → Prop} (h : Interleaves p run q) (refl : ∀ s, rel s s)
    (trans : ∀ s t u, rel s t → rel t u → rel s u)
    (each : ∀ tick ∈ run, rel tick.before tick.after) :
    ∀ tick ∈ run, rel tick.before q.state ∧ rel tick.after q.state := by
  induction h with
  | start => exact nofun
  | @act run q i e r t before acts ih =>
    have earlier := ih fun tick mem => each tick (List.mem_append_left _ mem)
    have last : rel q.state t := each ⟨i, q.state, t, e⟩
      (List.mem_append_right _ List.mem_cons_self)
    intro tick mem
    rcases List.mem_append.1 mem with mem | mem
    · obtain ⟨before, after⟩ := earlier tick mem
      exact ⟨trans _ _ _ before last, trans _ _ _ after last⟩
    · rw [List.mem_singleton.1 mem]
      exact ⟨last, refl t⟩

end Stepwise
