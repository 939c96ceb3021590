import Mathlib.Logic.Function.Basic
import Stepwise.Proofs.Transport.Outcome

/-!
# Routines between each other

Routines that share a state act in turn.  Each constructor of a routine is one atomic action
(`Routine.Acts`), and between two actions of a routine the others may perform any number of theirs:
`Interleaves` takes the actions one at a time, from any routine that has one left, and keeps a
record of them.  A routine that is left alone acts as `Routine.Yields` says (`yields_iff_acts`).
-/

namespace Stepwise

variable {ι σ η α : Type}

namespace Routine

/-- An action of a routine in a state, in any surroundings: its effect, if it has one, the rest of
the routine, and the state afterwards. -/
inductive Acts : Routine σ η α → σ → Option (Effect η) → Routine σ η α → σ → Prop where
  | critical (update : σ → σ) (next : σ → Routine σ η α) (s : σ) :
      Acts (.critical update next) s none (next s) (update s)
  | clock (next : Int → Routine σ η α) (s : σ) (now : Int) : Acts (.clock next) s none (next now) s
  | publish (m : Message) (next : Except Fault Unit → Routine σ η α) (s : σ)
      (answer : Except Refusal Unit) :
      Acts (.publish m next) s (some (.handed answer.isOk m)) (next (answer.mapError .refused)) s
  | subscribe (queue : String) (handler : η) (next : Except Fault Unit → Routine σ η α) (s : σ) :
      Acts (.subscribe queue handler next) s (some (.subscribed queue handler)) (next (.ok ())) s
  | notSubscribed (queue : String) (handler : η) (next : Except Fault Unit → Routine σ η α) (s : σ)
      (refusal : Refusal) :
      Acts (.subscribe queue handler next) s none (next (.error (.refused refusal))) s
  | cancel (queue : String) (next : Routine σ η α) (s : σ) :
      Acts (.cancel queue next) s (some (.cancelled queue)) next s
  | close (next : Routine σ η α) (s : σ) : Acts (.close next) s (some .closed) next s
  | settle (how : Settlement) (next : Routine σ η α) (s : σ) :
      Acts (.settle how next) s (some (.settled how)) next s

theorem acts_critical_iff {update : σ → σ} {next : σ → Routine σ η α} {s t : σ}
    {e : Option (Effect η)} {r : Routine σ η α} :
    (critical update next).Acts s e r t ↔ e = none ∧ r = next s ∧ t = update s := by
  constructor
  · rintro ⟨⟩
    exact ⟨rfl, rfl, rfl⟩
  · rintro ⟨rfl, rfl, rfl⟩
    exact .critical update next s

theorem acts_settle_iff {how : Settlement} {next r : Routine σ η α} {s t : σ}
    {e : Option (Effect η)} :
    (settle how next).Acts s e r t ↔ e = some (.settled how) ∧ r = next ∧ t = s := by
  constructor
  · rintro ⟨⟩
    exact ⟨rfl, rfl, rfl⟩
  · rintro ⟨rfl, rfl, rfl⟩
    exact .settle how _ _

/-- A routine that is left alone is over, or performs an action and goes on from there. -/
theorem yields_iff_acts {r : Routine σ η α} {s t : σ} {x : Except Fault α}
    {es : List (Effect η)} :
    r.Yields s x t es ↔ (r = ofExcept x ∧ t = s ∧ es = []) ∨
      ∃ e r' s' rest, r.Acts s e r' s' ∧ r'.Yields s' x t rest ∧ es = e.toList ++ rest := by
  constructor
  · intro h
    cases r with
    | done a =>
      obtain ⟨rfl, ht, hes⟩ := h
      exact Or.inl ⟨rfl, ht, hes⟩
    | raise fault =>
      obtain ⟨rfl, ht, hes⟩ := h
      exact Or.inl ⟨rfl, ht, hes⟩
    | critical update next => exact Or.inr ⟨_, _, _, es, .critical update next s, h, rfl⟩
    | clock next =>
      obtain ⟨now, h⟩ := h
      exact Or.inr ⟨_, _, _, es, .clock next s now, h, rfl⟩
    | publish m next =>
      obtain ⟨answer, rest, hes, h⟩ := h
      exact Or.inr ⟨_, _, _, rest, .publish m next s answer, h, hes⟩
    | subscribe queue handler next =>
      rcases h with ⟨rest, hes, h⟩ | ⟨refusal, h⟩
      · exact Or.inr ⟨_, _, _, rest, .subscribe queue handler next s, h, hes⟩
      · exact Or.inr ⟨_, _, _, es, .notSubscribed queue handler next s refusal, h, rfl⟩
    | cancel queue next =>
      obtain ⟨rest, hes, h⟩ := h
      exact Or.inr ⟨_, _, _, rest, .cancel queue next s, h, hes⟩
    | close next =>
      obtain ⟨rest, hes, h⟩ := h
      exact Or.inr ⟨_, _, _, rest, .close next s, h, hes⟩
    | settle how next =>
      obtain ⟨rest, hes, h⟩ := h
      exact Or.inr ⟨_, _, _, rest, .settle how next s, h, hes⟩
  · rintro (⟨rfl, rfl, rfl⟩ | ⟨e, r', s', rest, acts, h, rfl⟩)
    · cases x with
      | ok a => exact ⟨rfl, rfl, rfl⟩
      | error fault => exact ⟨rfl, rfl, rfl⟩
    · cases acts with
      | critical => exact h
      | clock next s now => exact ⟨now, h⟩
      | publish m next s answer => exact ⟨answer, rest, rfl, h⟩
      | subscribe => exact Or.inl ⟨rest, rfl, h⟩
      | notSubscribed queue handler next s refusal => exact Or.inr ⟨refusal, h⟩
      | cancel | close | settle => exact ⟨rest, rfl, h⟩

/-- The action of a routine under fixed conditions, if it has one left. -/
def act? (c : Conditions) (s : σ) :
    Routine σ η α → Option (Option (Effect η) × Routine σ η α × σ)
  | done _ => none
  | raise _ => none
  | critical update next => some (none, next s, update s)
  | clock next => some (none, next c.clock, s)
  | publish m next =>
    if c.refusing.contains m.queue then some (some (.refused m), next (.error unavailable), s)
    else some (some (.published m), next (.ok ()), s)
  | subscribe queue handler next => some (some (.subscribed queue handler), next (.ok ()), s)
  | cancel queue next => some (some (.cancelled queue), next, s)
  | close next => some (some .closed, next, s)
  | settle how next => some (some (.settled how), next, s)

theorem acts_of_act? {c : Conditions} {s t : σ} {r r' : Routine σ η α} {e : Option (Effect η)}
    (h : r.act? c s = some (e, r', t)) : r.Acts s e r' t := by
  cases r with
  | done | raise => cases h
  | critical update next =>
    cases h
    exact .critical update next s
  | clock next =>
    cases h
    exact .clock next s c.clock
  | publish m next =>
    rw [act?] at h
    split at h
    · cases h
      exact .publish m next s (.error (.unavailable "broker unavailable"))
    · cases h
      exact .publish m next s (.ok ())
  | subscribe queue handler next =>
    cases h
    exact .subscribe queue handler next s
  | cancel queue next =>
    cases h
    exact .cancel queue _ s
  | close next =>
    cases h
    exact .close _ s
  | settle how next =>
    cases h
    exact .settle how _ s

end Routine

/-! ## Runs -/

/-- Routines with the state that they share. -/
structure Pool (ι σ η α : Type) where
  threads : ι → Routine σ η α
  state : σ

/-- One action in a run: whose it is, the state before and after it, and its effect. -/
structure Tick (ι σ η : Type) where
  thread : ι
  before : σ
  after : σ
  effect : Option (Effect η)

/-- The message that is handed over and accepted at a tick. -/
def Tick.published? (t : Tick ι σ η) : Option Message :=
  match t.effect with
  | some (.published m) => some m
  | _ => none

theorem Tick.effect_of_published? {t : Tick ι σ η} {m : Message} (h : t.published? = some m) :
    t.effect = some (.published m) := by
  rw [Tick.published?] at h
  split at h
  · next effect =>
    cases h
    exact effect
  · cases h

theorem exists_tick_of_published {run : List (Tick ι σ η)} {n : Nat} {i : ι} {queue : String}
    {body : Text.Body}
    (published : (run[n]?.bind fun t => t.published?.map fun m => (t.thread, m.queue, m.body)) =
      some (i, queue, body)) :
    ∃ t, run[n]? = some t ∧ t.thread = i ∧ t.effect = some (.published ⟨queue, body⟩) := by
  obtain ⟨t, there, published⟩ := Option.bind_eq_some_iff.1 published
  obtain ⟨m, handed, shown⟩ := Option.map_eq_some_iff.1 published
  obtain ⟨rfl, rfl, rfl⟩ : t.thread = i ∧ m.queue = queue ∧ m.body = body := by
    simpa only [Prod.mk.injEq] using shown
  exact ⟨t, there, rfl, Tick.effect_of_published? handed⟩

/-- What a routine does at its own ticks, whatever happens between them, and what is left of it. -/
def Routine.Performs : Routine σ η α → List (Tick ι σ η) → Routine σ η α → Prop
  | r, [], r' => r' = r
  | r, tick :: ticks, r' =>
    ∃ next, r.Acts tick.before tick.effect next tick.after ∧ next.Performs ticks r'

theorem Routine.Performs.concat {r r' r'' : Routine σ η α} {ticks : List (Tick ι σ η)}
    {tick : Tick ι σ η} (h : r.Performs ticks r')
    (acts : r'.Acts tick.before tick.effect r'' tick.after) :
    r.Performs (ticks ++ [tick]) r'' := by
  induction ticks generalizing r with
  | nil =>
    obtain rfl := h
    exact ⟨r'', acts, rfl⟩
  | cons first ticks ih =>
    obtain ⟨next, does, rest⟩ := h
    exact ⟨next, does, ih rest⟩

/-- A routine that is over does nothing more. -/
theorem Routine.eq_nil_of_performs {x : Except Fault α} {r' : Routine σ η α}
    {ticks : List (Tick ι σ η)} (h : (ofExcept x : Routine σ η α).Performs ticks r') :
    ticks = [] := by
  cases ticks with
  | nil => rfl
  | cons tick ticks =>
    obtain ⟨next, acts, -⟩ := h
    cases x <;> cases acts

theorem Routine.eq_of_performs_settled {how : Settlement} {r' : Routine σ η Unit}
    {ticks : List (Tick ι σ η)} (h : (settled how : Routine σ η Unit).Performs ticks r') :
    ∀ tick ∈ ticks, tick.after = tick.before ∧ tick.effect = some (.settled how) := by
  cases ticks with
  | nil => exact nofun
  | cons tick ticks =>
    obtain ⟨next, acts, rest⟩ := h
    obtain ⟨effect, rfl, same⟩ := acts_settle_iff.1 acts
    obtain rfl := Routine.eq_nil_of_performs (x := .ok ()) rest
    intro tick' mem
    rw [List.mem_singleton.1 mem]
    exact ⟨same, effect⟩

variable [DecidableEq ι]

/-- The runs of a pool: at each tick one of the routines performs its next action. -/
inductive Interleaves (p : Pool ι σ η α) : List (Tick ι σ η) → Pool ι σ η α → Prop where
  | start : Interleaves p [] p
  | act {run : List (Tick ι σ η)} {q : Pool ι σ η α} {i : ι} {e : Option (Effect η)}
      {r : Routine σ η α} {t : σ} (before : Interleaves p run q)
      (acts : (q.threads i).Acts q.state e r t) :
      Interleaves p (run ++ [⟨i, q.state, t, e⟩]) ⟨Function.update q.threads i r, t⟩

/-- The ticks of a run that are one routine's own are what it does. -/
theorem Interleaves.performs {p q : Pool ι σ η α} {run : List (Tick ι σ η)}
    (h : Interleaves p run q) (i : ι) :
    (p.threads i).Performs (run.filter (·.thread = i)) (q.threads i) := by
  induction h with
  | start => rfl
  | @act run q j e r t before acts ih =>
    rw [List.filter_append]
    change (p.threads i).Performs _ (Function.update q.threads j r i)
    by_cases hj : j = i
    · subst hj
      rw [List.filter_cons_of_pos (by simp), List.filter_nil, Function.update_self]
      exact ih.concat acts
    · rw [List.filter_cons_of_neg (by simpa using hj), List.filter_nil, List.append_nil,
        Function.update_of_ne (Ne.symm hj)]
      exact ih

/-- Up to each of its ticks a run is a run, and there the tick is an action of its routine. -/
theorem Interleaves.exists_acts {p q : Pool ι σ η α} {run : List (Tick ι σ η)}
    (h : Interleaves p run q) {n : Nat} {tick : Tick ι σ η} (there : run[n]? = some tick) :
    ∃ (q' : Pool ι σ η α) (r : Routine σ η α), Interleaves p (run.take n) q' ∧
      q'.state = tick.before ∧
      (q'.threads tick.thread).Acts tick.before tick.effect r tick.after := by
  induction h with
  | start => cases there
  | @act run q i e r t before acts ih =>
    have below := (List.getElem?_eq_some_iff.1 there).1
    rw [List.length_append, List.length_singleton] at below
    rcases Nat.lt_succ_iff_lt_or_eq.1 below with earlier | rfl
    · rw [List.getElem?_append_left earlier] at there
      rw [List.take_append_of_le_length (Nat.le_of_lt earlier)]
      exact ih there
    · rw [List.getElem?_concat_length] at there
      obtain rfl := Option.some.inj there
      rw [List.take_left']
      · exact ⟨q, r, before, rfl, acts⟩
      · rfl

/-- Lets the routines act in a given order under fixed conditions; those that are over are passed
by. -/
def Pool.play (c : Conditions) (p : Pool ι σ η α) : List ι → List (Tick ι σ η) × Pool ι σ η α
  | [] => ([], p)
  | i :: order =>
    match (p.threads i).act? c p.state with
    | none => p.play c order
    | some (e, r, t) =>
      let rest := Pool.play c ⟨Function.update p.threads i r, t⟩ order
      (⟨i, p.state, t, e⟩ :: rest.1, rest.2)

theorem Interleaves.play {p q : Pool ι σ η α} {run : List (Tick ι σ η)}
    (h : Interleaves p run q) (c : Conditions) (order : List ι) :
    Interleaves p (run ++ (q.play c order).1) (q.play c order).2 := by
  induction order generalizing q run with
  | nil =>
    rw [Pool.play, List.append_nil]
    exact h
  | cons i order ih =>
    rw [Pool.play]
    cases ha : (q.threads i).act? c q.state with
    | none => exact ih h
    | some acted =>
      obtain ⟨e, r, t⟩ := acted
      have rest := ih (h.act (Routine.acts_of_act? ha))
      rw [List.append_assoc] at rest
      exact rest

end Stepwise
