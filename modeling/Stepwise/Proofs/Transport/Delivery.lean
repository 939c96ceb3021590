import Mathlib.Data.Option.Basic
import Stepwise.Transport.Direct
import Stepwise.Transport.Trace

/-!
# Deliveries over a direct transport

A handler over a direct transport does what its routine does on its own (`Routine.run`) as long as
the transport takes all of its messages: they join the backlog (`handle_eq_run`).  A backlog drains
if each delivery leads to one that drains (`Drains.deliver`), which is how chains of messages that
call for each other are followed to the end.
-/

namespace Stepwise

open Stepwise.Text (Body)

variable {σ τ η α β : Type}

/-! ## Runs of composed routines -/

theorem Run.after_eq_iff {e : Effect η} {r : Run σ η α} {x : Except Fault α} {t : σ}
    {es : List (Effect η)} :
    r.after e = ⟨x, t, es⟩ ↔ ∃ rest, r = ⟨x, t, rest⟩ ∧ es = e :: rest := by
  obtain ⟨x', t', rest⟩ := r
  constructor
  · rintro ⟨⟩
    exact ⟨rest, rfl, rfl⟩
  · rintro ⟨rest, ⟨⟩, rfl⟩
    rfl

namespace Routine

variable {c : Conditions} {s t u : σ} {es fs : List (Effect η)}

/-- A run that comes to its end, and then another one. -/
theorem run_bind {r : Routine σ η α} {f : α → Routine σ η β} {a : α} {x : Except Fault β}
    (first : r.run c s = ⟨.ok a, t, es⟩) (second : (f a).run c t = ⟨x, u, fs⟩) :
    (r.bind f).run c s = ⟨x, u, es ++ fs⟩ := by
  induction r generalizing s es with
  | done a =>
    cases first
    exact second
  | raise fault => cases first
  | critical update next ih => exact ih s first
  | clock next ih => exact ih c.clock first
  | publish m next ih =>
    rw [run] at first
    rw [bind, run]
    split at first
    · next refused =>
      obtain ⟨rest, inner, rfl⟩ := Run.after_eq_iff.1 first
      rw [if_pos refused, ih _ inner]
      rfl
    · next accepted =>
      obtain ⟨rest, inner, rfl⟩ := Run.after_eq_iff.1 first
      rw [if_neg accepted, ih _ inner]
      rfl
  | subscribe queue handler next ih =>
    obtain ⟨rest, inner, rfl⟩ := Run.after_eq_iff.1 first
    rw [bind, run, ih _ inner]
    rfl
  | cancel queue next ih | close next ih | settle how next ih =>
    obtain ⟨rest, inner, rfl⟩ := Run.after_eq_iff.1 first
    rw [bind, run, ih inner]
    rfl

theorem run_attempt (r : Routine σ η α) (s : σ) :
    r.attempt.run c s = ⟨.ok (r.run c s).result, (r.run c s).state, (r.run c s).effects⟩ := by
  induction r generalizing s with
  | done a => rfl
  | raise fault => rfl
  | critical update next ih => exact ih s (update s)
  | clock next ih => exact ih c.clock s
  | publish m next ih =>
    rw [attempt, run, run]
    split
    · rw [ih]
      rfl
    · rw [ih]
      rfl
  | subscribe queue handler next ih =>
    rw [attempt, run, run, ih]
    rfl
  | cancel queue next ih | close next ih | settle how next ih =>
    rw [attempt, run, run, ih]
    rfl

theorem run_thenAlways {first : Routine σ η α} {second : Routine σ η Unit} {a : α}
    (h : first.run c s = ⟨.ok a, t, es⟩) (h' : second.run c t = ⟨.ok (), u, fs⟩) :
    (first.thenAlways second).run c s = ⟨.ok a, u, es ++ fs⟩ := by
  have attempted : first.attempt.run c s = ⟨.ok (.ok a), t, es⟩ := by
    rw [run_attempt, h]
  refine run_bind attempted ?_
  rw [← List.append_nil fs]
  exact run_bind h' rfl

/-- A run of a sequence, whether its first part comes to its end or not. -/
theorem run_bind_eq (r : Routine σ η α) (f : α → Routine σ η β) (s : σ) :
    (r.bind f).run c s =
      match (r.run c s).result with
      | .ok a =>
        let rest := (f a).run c (r.run c s).state
        ⟨rest.result, rest.state, (r.run c s).effects ++ rest.effects⟩
      | .error fault => ⟨.error fault, (r.run c s).state, (r.run c s).effects⟩ := by
  induction r generalizing s with
  | done a | raise fault => rfl
  | critical update next ih => exact ih s (update s)
  | clock next ih => exact ih c.clock s
  | publish m next ih =>
    rw [bind, run, run]
    split
    · rw [ih]
      simp only [Run.after]
      split <;> rfl
    · rw [ih]
      simp only [Run.after]
      split <;> rfl
  | subscribe queue handler next ih =>
    rw [bind, run, run, ih]
    simp only [Run.after]
    split <;> rfl
  | cancel queue next ih | close next ih | settle how next ih =>
    rw [bind, run, run, ih]
    simp only [Run.after]
    split <;> rfl

theorem run_atomically_bind (f : σ → α × σ) (next : α → Routine σ η β) (s : σ) :
    (atomically f >>= next).run c s = (next (f s).1).run c (f s).2 := rfl

theorem run_now_bind (next : Int → Routine σ η β) (s : σ) :
    ((now : Routine σ η Int) >>= next).run c s = (next c.clock).run c s := rfl

/-- A second part that only returns a value keeps the state and the effects. -/
theorem run_bind_pure (r : Routine σ η α) (b : β) (s : σ) :
    ((r.bind fun _ => pure b).run c s).state = (r.run c s).state ∧
      ((r.bind fun _ => pure b).run c s).effects = (r.run c s).effects := by
  rw [run_bind_eq]
  split
  · exact ⟨rfl, List.append_nil _⟩
  · exact ⟨rfl, rfl⟩

/-- A section that always runs second changes neither the result nor the effects. -/
theorem run_thenAlways_atomically (r : Routine σ η α) (f : σ → Unit × σ) (s : σ) :
    (r.thenAlways (atomically f)).run c s =
      ⟨(r.run c s).result, (f (r.run c s).state).2, (r.run c s).effects⟩ := by
  rw [thenAlways, run_bind_eq, run_attempt]
  simp only
  cases (r.run c s).result <;> simp [atomically, ofExcept, bind, run]

theorem within_atomically_bind (part : τ → σ) (replace : σ → τ → τ) (f : σ → α × σ)
    (next : α → Routine σ η β) :
    (atomically f >>= next).within part replace =
      atomically (fun t => ((f (part t)).1, replace (f (part t)).2 t)) >>= fun a =>
        (next a).within part replace := rfl

/-- A routine on a part of a state leaves the rest of it alone. -/
theorem run_within (part : τ → σ) (replace : σ → τ → τ) (get : ∀ s t, part (replace s t) = s)
    (put : ∀ s s' t, replace s' (replace s t) = replace s' t)
    (same : ∀ t, replace (part t) t = t) (r : Routine σ η α) (t : τ) :
    (r.within part replace).run c t =
      ⟨(r.run c (part t)).result, replace (r.run c (part t)).state t,
        (r.run c (part t)).effects⟩ := by
  induction r generalizing t with
  | done a => simp [within, run, same]
  | raise fault => simp [within, run, same]
  | critical update next ih =>
    rw [within, run, ih]
    simp [run, get, put]
  | clock next ih => exact ih c.clock t
  | publish m next ih =>
    rw [within, run, run]
    split
    · rw [ih]
      rfl
    · rw [ih]
      rfl
  | subscribe queue handler next ih =>
    rw [within, run, run, ih]
    rfl
  | cancel queue next ih | close next ih | settle how next ih =>
    rw [within, run, run, ih]
    rfl

end Routine

namespace Direct

/-! ## Handlers -/

/-- Effects that a transport has on a handler's behalf: it takes a message, or it marks the
delivery. -/
def Grants (t : Direct η) : Effect η → Prop
  | .published m => t.refusal? m.queue = none
  | .settled _ => True
  | _ => False

variable {t : Direct η} {clock : Int}

/-- A handler whose messages are all taken does what its routine does on its own. -/
theorem handle_eq_run (r : Routine σ η α) (s : σ) (mark : Mark)
    (granted : ∀ e ∈ (r.run ⟨clock, []⟩ s).effects, t.Grants e) :
    handle clock r ⟨s, t⟩ mark =
      ⟨(r.run ⟨clock, []⟩ s).result,
        ⟨(r.run ⟨clock, []⟩ s).state,
          { t with backlog := t.backlog ++ (r.run ⟨clock, []⟩ s).published }⟩,
        (r.run ⟨clock, []⟩ s).settlements.foldl Mark.settle mark⟩ := by
  -- A publish leaves another transport for the rest of the routine, which grants the same.
  induction r generalizing s t mark with
  | done a | raise fault => simp [handle, Routine.run, Run.published, Run.settlements]
  | critical update next ih => exact ih s (update s) mark granted
  | clock next ih => exact ih clock s mark granted
  | publish m next ih =>
    have taken : t.refusal? m.queue = none := granted (.published m) List.mem_cons_self
    have rest : ∀ e ∈ ((next (.ok ())).run ⟨clock, []⟩ s).effects, (t.enqueue m).Grants e := by
      intro e he
      have := granted e (List.mem_cons_of_mem _ he)
      cases e <;> exact this
    rw [handle, taken]
    simp only
    rw [ih (.ok ()) s mark rest]
    simp [Routine.run, Run.after, Run.published, Run.settlements, enqueue]
  | settle how next ih =>
    have rest : ∀ e ∈ (next.run ⟨clock, []⟩ s).effects, t.Grants e := fun e he =>
      granted e (List.mem_cons_of_mem _ he)
    rw [handle, ih s (mark.settle how) rest]
    simp [Routine.run, Run.after, Run.published, Run.settlements]
  | subscribe queue handler next ih => exact (granted _ List.mem_cons_self).elim
  | cancel queue next ih | close next ih => exact (granted _ List.mem_cons_self).elim

theorem refusal?_eq_none {queue : String} {handler : η} (open_ : t.closed = false)
    (listens : t.handlers.lookup queue = some handler) : t.refusal? queue = none := by
  obtain ⟨front, back, heq, -⟩ := List.lookup_eq_some_iff.1 listens
  rw [refusal?, open_, if_neg (by decide), if_pos]
  simp [heq]

/-! ## Backlogs -/

variable {behave : η → Body → Routine σ η Unit} {site site' : Site σ η} {n : Nat}

/-- While the clock stands still, the backlog is handed over with so many deliveries, and no handler
stops with a fault. -/
def Drains (behave : η → Body → Routine σ η Unit) (clock : Int) (n : Nat)
    (site site' : Site σ η) : Prop :=
  ∀ fuel, n ≤ fuel →
    (drain behave clock fuel site).map (fun c => (c.result, c.site)) = some (.ok (), site')

theorem Drains.mono {m : Nat} (h : Drains behave clock m site site') (le : m ≤ n) :
    Drains behave clock n site site' := fun fuel hfuel => h fuel (Nat.le_trans le hfuel)

theorem drains_nil {s : σ} (empty : t.backlog = []) : Drains behave clock 0 ⟨s, t⟩ ⟨s, t⟩ := by
  intro fuel _
  rw [drain.eq_def]
  simp [empty]

/-- A message in an empty backlog is handed over, and then whatever its handler has published. -/
theorem Drains.deliver {s u : σ} {m : Message} {handler : η} {es : List (Effect η)}
    (listens : t.handlers.lookup m.queue = some handler) (empty : t.backlog = [])
    (handles : (behave handler m.body).run ⟨clock, []⟩ s = ⟨.ok (), u, es⟩)
    (granted : ∀ e ∈ es, t.Grants e)
    (rest : Drains behave clock n
      ⟨u, { t with backlog := (⟨.ok (), u, es⟩ : Run σ η Unit).published }⟩ site') :
    Drains behave clock (n + 1) ⟨s, t.enqueue m⟩ site' := by
  intro fuel hfuel
  obtain ⟨fuel, rfl⟩ : ∃ k, fuel = k + 1 := ⟨fuel - 1, by omega⟩
  have handled := handle_eq_run (t := t) (behave handler m.body) s .none
    (by rw [handles]; exact granted)
  rw [handles, empty, List.nil_append] at handled
  have backlog : t.enqueue m = ⟨t.handlers, t.closed, [m]⟩ := by rw [enqueue, empty]; rfl
  have same : (⟨t.handlers, t.closed, []⟩ : Direct η) = t := by rw [← empty]
  rw [backlog, drain]
  simp only [listens, same, handled, Option.map_map]
  exact rest fuel (Nat.le_of_succ_le_succ hfuel)

/-- A delivery whose handler publishes one message. -/
theorem Drains.forward {s u : σ} {m m' : Message} {handler : η} {how : Settlement}
    (listens : t.handlers.lookup m.queue = some handler) (empty : t.backlog = [])
    (handles : (behave handler m.body).run ⟨clock, []⟩ s =
      ⟨.ok (), u, [.published m', .settled how]⟩)
    (taken : t.refusal? m'.queue = none) (rest : Drains behave clock n ⟨u, t.enqueue m'⟩ site') :
    Drains behave clock (n + 1) ⟨s, t.enqueue m⟩ site' := by
  refine deliver listens empty handles ?_ ?_
  · intro e he
    simp only [List.mem_cons, List.not_mem_nil, or_false] at he
    rcases he with rfl | rfl
    · exact taken
    · trivial
  · have backlog : t.enqueue m' = { t with backlog := [m'] } := by rw [enqueue, empty]; rfl
    rw [backlog] at rest
    exact rest

/-- A delivery whose handler publishes nothing. -/
theorem Drains.absorb {s u : σ} {m : Message} {handler : η} {how : Settlement}
    (listens : t.handlers.lookup m.queue = some handler) (empty : t.backlog = [])
    (handles : (behave handler m.body).run ⟨clock, []⟩ s = ⟨.ok (), u, [.settled how]⟩) :
    Drains behave clock 1 ⟨s, t.enqueue m⟩ ⟨u, t⟩ := by
  refine deliver listens empty handles ?_ ?_
  · intro e he
    rw [List.mem_singleton.1 he]
    trivial
  · have same : ({ t with backlog := [] } : Direct η) = t := by rw [← empty]
    change Drains behave clock 0 ⟨u, { t with backlog := [] }⟩ _
    rw [same]
    exact drains_nil empty

theorem call_atomically_bind (fuel : Nat) (f : σ → α × σ) (next : α → Routine σ η β) (s : σ) :
    call behave clock fuel (Routine.atomically f >>= next) ⟨s, t⟩ =
      call behave clock fuel (next (f s).1) ⟨(f s).2, t⟩ := rfl

/-- A publish from outside whose message is taken comes back when the backlog is empty. -/
theorem call_publish {fuel : Nat} {s : σ} {m : Message}
    (next : Except Fault Unit → Routine σ η α) (taken : t.refusal? m.queue = none)
    (drains : Drains behave clock n ⟨s, t.enqueue m⟩ site') (enough : n ≤ fuel) :
    (call behave clock fuel (.publish m next) ⟨s, t⟩).map (fun c => (c.result, c.site)) =
      (call behave clock fuel (next (.ok ())) site').map fun c => (c.result, c.site) := by
  have drained := drains fuel enough
  rw [Option.map_eq_some_iff] at drained
  obtain ⟨c, hc, heq⟩ := drained
  obtain ⟨hresult, hsite⟩ := Prod.mk.inj heq
  rw [call, taken]
  simp only [hc, hresult, hsite, Option.map_map]
  rfl

end Direct

end Stepwise
