import Stepwise.Proofs.Service.Calls

/-!
# Histories of expressions

A run of the scheduler is a sequence of calls in any surroundings.  The turns of a run that are
about an id, from the one that accepts an expression of the id to the next that accepts one, tell
the story of the expression: `history_of_run` says that the outcomes they accept and the messages
they hand over are in order, whatever else happens in between, and what the table looks like
between two calls.
-/

namespace Stepwise

open Scheduler

variable {η : Type} {settings : Settings} {id : String} {steps : List Step}
variable {plan : Except CompileFault Plan}

/-! ## Runs -/

/-- A call with the state it found and the effects it had. -/
structure Turn (η : Type) where
  before : Scheduler
  call : Call
  effects : List (Effect η)

/-- Calls one after the other, none of which raises. -/
inductive Runs (settings : Settings) : Scheduler → List (Turn η) → Scheduler → Prop where
  | nil (s : Scheduler) : Runs settings s [] s
  | cons {s t u : Scheduler} {call : Call} {effects : List (Effect η)} {rest : List (Turn η)} :
      (call.routine settings).Yields s (.ok ()) t effects → Runs settings t rest u →
      Runs settings s (⟨s, call, effects⟩ :: rest) u

namespace Turn

/-- What a turn asks for. -/
def demand (t : Turn η) : Demand := t.call.demand t.before

/-- A turn that accepts an expression: its id is free. -/
def Accepts (t : Turn η) (r : ExpressionRequest) : Prop :=
  t.demand = .expression r ∧ t.before.isPending r.expressionId = false

/-- The events of a turn for an id: what is accepted and then what is handed over. -/
def Tells (settings : Settings) (id : String) (t : Turn η) (es : List Event) : Prop :=
  (t.demand.about? = some id ∧ ∃ sends, t.effects = effectsOf settings sends ∧
    es = t.demand.incoming t.before ++ eventsOf sends) ∨
  (t.demand.about? ≠ some id ∧ es = [])

end Turn

/-- The events of turns for an id. -/
inductive Tells (settings : Settings) (id : String) : List (Turn η) → List Event → Prop where
  | nil : Tells settings id [] []
  | cons {t : Turn η} {ts : List (Turn η)} {es fs : List Event} :
      t.Tells settings id es → Tells settings id ts fs → Tells settings id (t :: ts) (es ++ fs)

variable {s u : Scheduler} {run : List (Turn η)}

theorem Runs.sound (h : Runs settings s run u) (sound : s.Sound) : u.Sound := by
  induction h with
  | nil => exact sound
  | cons yields _ ih => exact ih (goes_of_call sound yields).1

/-- A run can be cut at each of its turns. -/
theorem Runs.cut {front back : List (Turn η)} {t : Turn η}
    (h : Runs settings s (front ++ t :: back) u) :
    ∃ v, Runs settings s front t.before ∧
      (t.call.routine settings).Yields t.before (.ok ()) v t.effects ∧ Runs settings v back u := by
  induction front generalizing s with
  | nil =>
    cases h with
    | cons yields rest => exact ⟨_, .nil _, yields, rest⟩
  | cons first front ih =>
    cases h with
    | cons yields rest =>
      obtain ⟨v, before, here, after⟩ := ih rest
      exact ⟨v, .cons yields before, here, after⟩

/-! ## One turn in the story of an expression -/

/-- A turn that accepts no expression of an id is a stretch of the story of the id's expression. -/
theorem moves_of_goes {v : Scheduler} {turn : Turn η} {stage : Stage}
    (h : Goes settings turn.before v turn.effects turn.demand)
    (stands : turn.before.Stands id (stepsOf plan) stage)
    (other : ∀ r, turn.Accepts r → r.expressionId ≠ id) :
    ∃ es stage', turn.Tells settings id es ∧ Moves settings id plan stage es stage' ∧
      v.Stands id (stepsOf plan) stage' := by
  generalize hd : turn.demand = d at h
  cases h with
  | unread rejects same =>
    refine ⟨[], stage, Or.inr ⟨?_, rfl⟩, .refl _, stands.of_entryOf? (same id)⟩
    rw [hd]
    nofun
  | ignored about idle busy quiet same =>
    refine ⟨[], stage, ?_, .refl _, stands.of_entryOf? (same id)⟩
    by_cases hid : d.about? = some id
    · exact Or.inl ⟨hd.symm ▸ hid, [], quiet, by rw [hd, idle]; rfl⟩
    · exact Or.inr ⟨hd.symm ▸ hid, rfl⟩
  | begins free proceeds =>
    have hne := other _ ⟨hd, free⟩
    obtain ⟨sends, stage', -, -, becomes, -⟩ := proceeds
    refine ⟨[], stage, Or.inr ⟨?_, rfl⟩, .refl _, stands.of_entryOf? (becomes.others id hne.symm)⟩
    rw [hd]
    exact fun h => hne (Option.some.inj h)
  | @continues _ id' e xs about pending awaits proceeds =>
    by_cases hid : id' = id
    · subst hid
      cases stage with
      | waiting ys =>
        obtain ⟨e', he', hsteps, awaits'⟩ := stands
        rw [pending] at he'
        cases he'
        obtain ⟨sends, stage', effects, moves, becomes, stands'⟩ := proceeds plan hsteps.symm
        rw [awaits'.unique awaits]
        exact ⟨_, stage', Or.inl ⟨hd.symm ▸ about, sends, effects, by rw [hd]⟩, moves, stands'⟩
      | ended ys =>
        change turn.before.entryOf? _ = none at stands
        rw [pending] at stands
        cases stands
      | ready ys | stuck ys | failed ys f => exact stands.elim
    · obtain ⟨-, -, -, -, becomes, -⟩ := proceeds (.ok ⟨"", [], e.steps, none⟩) rfl
      refine ⟨[], stage, Or.inr ⟨?_, rfl⟩, .refl _,
        stands.of_entryOf? (becomes.others id (Ne.symm hid))⟩
      rw [hd, about]
      exact fun h => hid (Option.some.inj h)

/-- The turn that accepts an expression is the beginning of its story. -/
theorem moves_of_accepts {v : Scheduler} {turn : Turn η} {r : ExpressionRequest}
    (sound : turn.before.Sound) (h : Goes settings turn.before v turn.effects turn.demand)
    (accepts : turn.Accepts r) :
    ∃ es stage, turn.Tells settings r.expressionId es ∧
      Moves settings r.expressionId (Plan.compile r.expression) (.ready []) es stage ∧
      v.Stands r.expressionId (stepsOf (Plan.compile r.expression)) stage := by
  obtain ⟨hd, free⟩ := accepts
  rw [hd] at h
  cases h with
  | ignored about idle busy quiet same =>
    rw [busy r rfl] at free
    cases free
  | begins free' proceeds =>
    obtain ⟨sends, stage, effects, moves, becomes, stands⟩ := proceeds
    exact ⟨_, stage, Or.inl ⟨by rw [hd]; rfl, sends, effects, by rw [hd]; rfl⟩, moves, stands⟩
  | continues about pending awaits proceeds =>
    rw [sound.isPending_eq_false, Option.some.inj about, pending] at free
    cases free

/-- The turns of a run that accept no expression of an id go on with the story of the id's
expression. -/
theorem moves_of_runs {stage : Stage} (h : Runs settings s run u) (sound : s.Sound)
    (stands : s.Stands id (stepsOf plan) stage)
    (other : ∀ t ∈ run, ∀ r, t.Accepts r → r.expressionId ≠ id) :
    ∃ es stage', Tells settings id run es ∧ Moves settings id plan stage es stage' ∧
      u.Stands id (stepsOf plan) stage' := by
  induction h generalizing stage with
  | nil => exact ⟨[], stage, .nil, .refl _, stands⟩
  | @cons s t u call effects rest yields _ ih =>
    obtain ⟨sound', goes⟩ := goes_of_call sound yields
    obtain ⟨es, stage₁, tells, moves, stands₁⟩ :=
      @moves_of_goes η settings id plan t ⟨s, call, effects⟩ stage goes stands
        (other _ List.mem_cons_self)
    obtain ⟨fs, stage₂, tells', moves', stands₂⟩ := ih sound' stands₁
      fun t ht => other t (List.mem_cons_of_mem _ ht)
    exact ⟨es ++ fs, stage₂, .cons tells tells', moves.append moves', stands₂⟩

/-- Every entry of a sound table stands under its own id, is open, and has results for exactly the
steps before the one in flight. -/
theorem entry_of_sound (sound : s.Sound) {place : Nat} (hmem : (id, place) ∈ s.table) :
    ∃ e, s.entries[place]? = some e ∧ e.expressionId = id ∧ e.answered = false ∧
      e.inFlight = some (e.results.length : Int) ∧ e.results.length < e.steps.length ∧
      e.results.map (·.1) = firstIds e.results.length := by
  obtain ⟨e, he, hentry, hid⟩ := sound.tidy.exists_entryOf? (sound.tidy.find?_of_mem hmem)
  obtain ⟨xs, awaits⟩ := sound.awaits id e hentry
  have length : e.results.length = xs.length := by rw [awaits.results, length_recorded]
  refine ⟨e, he, hid, awaits.open_, ?_, ?_, ?_⟩
  · rw [length, awaits.inFlight]
  · rw [length]
    exact awaits.more
  · rw [length, awaits.results, map_fst_recorded]

/-- A turn about an id that is not pending has no effects unless it accepts an expression. -/
theorem quiet_of_free {v : Scheduler} {turn : Turn η} (sound : turn.before.Sound)
    (h : Goes settings turn.before v turn.effects turn.demand)
    (about : turn.demand.about? = some id) (free : turn.before.isPending id = false)
    (refuses : ∀ r, ¬ turn.Accepts r) : turn.effects = [] := by
  generalize hd : turn.demand = d at h about
  cases h with
  | unread => cases about
  | ignored _ _ _ quiet => exact quiet
  | begins free => exact (refuses _ ⟨hd, free⟩).elim
  | continues about' pending =>
    rw [about', Option.some.injEq] at about
    rw [sound.isPending_eq_false, ← about, pending] at free
    cases free

/-- A turn that is about no id answers a request that could not be read, at most. -/
theorem rejects_of_goes {v : Scheduler} {turn : Turn η}
    (h : Goes settings turn.before v turn.effects turn.demand)
    (about : turn.demand.about? = none) : Rejects settings turn.before turn.effects := by
  generalize turn.demand = d at h about
  cases h with
  | unread rejects => exact rejects
  | begins => cases about
  | ignored about' | continues about' =>
    rw [about'] at about
    cases about

/-- At the end of its story an expression is pending, with the results accepted so far in its
entry, unless a response has been handed over. -/
theorem pending_of_stands {stage : Stage} {es : List Event} (sound : s.Sound)
    (moves : Moves settings id plan (.ready []) es stage)
    (stands : s.Stands id (stepsOf plan) stage) :
    (s.isPending id = false ↔ Event.responses es ≠ []) ∧
      ∀ e, s.entryOf? id = some e → e.steps = stepsOf plan ∧ e.results = Event.results es := by
  rw [sound.isPending_eq_false]
  cases stage with
  | ready xs | stuck xs | failed xs f => exact stands.elim
  | ended xs =>
    change s.entryOf? id = none at stands
    rw [stands]
    exact ⟨⟨fun _ => moves.responses_ne_nil trivial, fun _ => rfl⟩, nofun⟩
  | waiting xs =>
    obtain ⟨e, he, hsteps, awaits⟩ := stands
    rw [he, moves.responses_eq_nil fun ended => ended]
    refine ⟨⟨nofun, fun h => (h rfl).elim⟩, ?_⟩
    rintro _ ⟨⟩
    exact ⟨hsteps, awaits.results.trans (results_of_moves moves).symm⟩

/-- A run that starts with nothing pending.  After it no id is reserved and the table is in order.
From the turn that accepts an expression, to the next that accepts one of the same id, the turns
about the id accept outcomes and hand over messages in order; the id is pending until a response is
handed over, and its entry has the results accepted so far.  Any other turn about an id that is not
pending has no effects, and a turn about no id hands over nothing but the failure of a request that
could not be read, under an id that is not pending. -/
theorem history_of_run (h : Runs settings .empty run s) :
    (s.reserved = [] ∧ (s.table.map (·.1)).Nodup ∧ ∀ id place, (id, place) ∈ s.table →
      ∃ e, s.entries[place]? = some e ∧ e.expressionId = id ∧ e.answered = false ∧
        e.inFlight = some (e.results.length : Int) ∧ e.results.length < e.steps.length ∧
        e.results.map (·.1) = firstIds e.results.length) ∧
    (∀ before turn later r, run = before ++ turn :: later → turn.Accepts r →
      (∀ t ∈ later, ∀ r', t.Accepts r' → r'.expressionId ≠ r.expressionId) →
      ∃ es, Tells settings r.expressionId (turn :: later) es ∧
        Orderly settings r.expressionId (Plan.compile r.expression) es ∧
        (s.isPending r.expressionId = false ↔ Event.responses es ≠ []) ∧
        ∀ e, s.entryOf? r.expressionId = some e →
          e.steps = stepsOf (Plan.compile r.expression) ∧ e.results = Event.results es) ∧
    (∀ turn ∈ run, ∀ id, turn.demand.about? = some id → turn.before.isPending id = false →
      (∀ r, ¬ turn.Accepts r) → turn.effects = []) ∧
    ∀ turn ∈ run, turn.demand.about? = none → Rejects settings turn.before turn.effects := by
  have sound := h.sound sound_empty
  refine ⟨⟨sound.reserved, sound.tidy.keys, fun id place => entry_of_sound sound⟩, ?_, ?_, ?_⟩
  · rintro before turn later r rfl accepts other
    obtain ⟨v, before, yields, after⟩ := h.cut
    have sound₀ := before.sound sound_empty
    obtain ⟨sound₁, goes⟩ := goes_of_call sound₀ yields
    obtain ⟨es, stage₁, tells, moves, stands₁⟩ := moves_of_accepts sound₀ goes accepts
    obtain ⟨fs, stage₂, tells', moves', stands₂⟩ := moves_of_runs after sound₁ stands₁ other
    have moves := moves.append moves'
    exact ⟨es ++ fs, .cons tells tells', orderly_of_moves moves,
      pending_of_stands sound moves stands₂⟩
  · intro turn hmem id about free refuses
    obtain ⟨before, later, rfl⟩ := List.append_of_mem hmem
    obtain ⟨v, before, yields, -⟩ := h.cut
    have sound₀ := before.sound sound_empty
    exact quiet_of_free sound₀ (goes_of_call sound₀ yields).2 about free refuses
  · intro turn hmem about
    obtain ⟨before, later, rfl⟩ := List.append_of_mem hmem
    obtain ⟨v, before, yields, -⟩ := h.cut
    exact rejects_of_goes (goes_of_call (before.sound sound_empty) yields).2 about

/-- The run that submits `1+2` on a clock at zero, to queues that accept everything. -/
theorem history_of_one_plus_two :
    let r : ExpressionRequest := ⟨"a", "1+2", 1000⟩
    let out := ((Call.submit r).routine .standard : Scheduler.Action Unit Unit).run ⟨0, []⟩ .empty
    let turn : Turn Unit := ⟨.empty, .submit r, out.effects⟩
    Runs .standard .empty [turn] out.state ∧ turn.Accepts r ∧
      ∃ es, Tells .standard "a" [turn] es ∧
        Orderly .standard "a" (Plan.compile "1+2") es := by
  intro r out turn
  have runs : Runs .standard .empty [turn] out.state :=
    .cons (Routine.yields_of_isOk ⟨0, []⟩ (by decide +kernel)) (.nil _)
  have accepts : turn.Accepts r := ⟨rfl, rfl⟩
  obtain ⟨es, tells, orderly, -⟩ := (history_of_run runs).2.1 [] turn [] r rfl accepts (by simp)
  exact ⟨runs, accepts, es, tells, orderly⟩

end Stepwise
