import Stepwise.Transport.Trace

/-!
# Routines in any surroundings

A trace fixes the clock and the queues that refuse.  `Routine.Yields` leaves both open: the clock
shows anything at each look, and each message or subscription is accepted or refused, for any
reason.  It is defined along the constructors of a routine, so that every lemma here takes one
constructor or one combinator apart; `yields_run` says that a trace is one of the possibilities.
-/

namespace Stepwise

variable {σ η α β : Type}

/-- What becomes of a message that is handed to a transport. -/
def Effect.handed (accepted : Bool) (m : Message) : Effect η :=
  if accepted then .published m else .refused m

theorem Effect.handed_inj {accepted accepted' : Bool} {m m' : Message}
    (h : (handed accepted m : Effect η) = handed accepted' m') : m = m' := by
  cases accepted <;> cases accepted' <;> cases h <;> rfl

namespace Routine

/-- From a state a routine may end with a result in another state, having had the effects. -/
def Yields : Routine σ η α → σ → Except Fault α → σ → List (Effect η) → Prop
  | done a, s, x, t, es => x = .ok a ∧ t = s ∧ es = []
  | raise fault, s, x, t, es => x = .error fault ∧ t = s ∧ es = []
  | critical update next, s, x, t, es => (next s).Yields (update s) x t es
  | clock next, s, x, t, es => ∃ now, (next now).Yields s x t es
  | publish m next, s, x, t, es => ∃ (answer : Except Refusal Unit) (rest : List (Effect η)),
      es = Effect.handed answer.isOk m :: rest ∧ (next (answer.mapError .refused)).Yields s x t rest
  | subscribe queue handler next, s, x, t, es =>
    (∃ rest, es = .subscribed queue handler :: rest ∧ (next (.ok ())).Yields s x t rest) ∨
      ∃ refusal, (next (.error (.refused refusal))).Yields s x t es
  | cancel queue next, s, x, t, es => ∃ rest, es = .cancelled queue :: rest ∧ next.Yields s x t rest
  | close next, s, x, t, es => ∃ rest, es = .closed :: rest ∧ next.Yields s x t rest
  | settle how next, s, x, t, es => ∃ rest, es = .settled how :: rest ∧ next.Yields s x t rest

/-- `Yields` with a clock that shows none but some readings. -/
def YieldsAt (shows : Int → Prop) :
    Routine σ η α → σ → Except Fault α → σ → List (Effect η) → Prop
  | done a, s, x, t, es => x = .ok a ∧ t = s ∧ es = []
  | raise fault, s, x, t, es => x = .error fault ∧ t = s ∧ es = []
  | critical update next, s, x, t, es => (next s).YieldsAt shows (update s) x t es
  | clock next, s, x, t, es => ∃ now, shows now ∧ (next now).YieldsAt shows s x t es
  | publish m next, s, x, t, es => ∃ (answer : Except Refusal Unit) (rest : List (Effect η)),
      es = Effect.handed answer.isOk m :: rest ∧
        (next (answer.mapError .refused)).YieldsAt shows s x t rest
  | subscribe queue handler next, s, x, t, es =>
    (∃ rest, es = .subscribed queue handler :: rest ∧
        (next (.ok ())).YieldsAt shows s x t rest) ∨
      ∃ refusal, (next (.error (.refused refusal))).YieldsAt shows s x t es
  | cancel queue next, s, x, t, es =>
    ∃ rest, es = .cancelled queue :: rest ∧ next.YieldsAt shows s x t rest
  | close next, s, x, t, es => ∃ rest, es = .closed :: rest ∧ next.YieldsAt shows s x t rest
  | settle how next, s, x, t, es =>
    ∃ rest, es = .settled how :: rest ∧ next.YieldsAt shows s x t rest

theorem YieldsAt.yields {shows : Int → Prop} {r : Routine σ η α} {s t : σ} {x : Except Fault α}
    {es : List (Effect η)} (h : r.YieldsAt shows s x t es) : r.Yields s x t es := by
  induction r generalizing s es with
  | done a => exact h
  | raise fault => exact h
  | critical update next ih => exact ih s h
  | clock next ih =>
    obtain ⟨now, -, h⟩ := h
    exact ⟨now, ih now h⟩
  | publish m next ih =>
    obtain ⟨answer, rest, hes, h⟩ := h
    exact ⟨answer, rest, hes, ih _ h⟩
  | subscribe queue handler next ih =>
    rcases h with ⟨rest, hes, h⟩ | ⟨refusal, h⟩
    · exact Or.inl ⟨rest, hes, ih _ h⟩
    · exact Or.inr ⟨refusal, ih _ h⟩
  | cancel queue next ih | close next ih | settle how next ih =>
    obtain ⟨rest, hes, h⟩ := h
    exact ⟨rest, hes, ih h⟩

/-- A clock that may show anything leaves a routine all its ways to go. -/
theorem Yields.yieldsAt {r : Routine σ η α} {s t : σ} {x : Except Fault α}
    {es : List (Effect η)} (h : r.Yields s x t es) : r.YieldsAt (fun _ => True) s x t es := by
  induction r generalizing s es with
  | done a => exact h
  | raise fault => exact h
  | critical update next ih => exact ih s h
  | clock next ih =>
    obtain ⟨now, h⟩ := h
    exact ⟨now, trivial, ih now h⟩
  | publish m next ih =>
    obtain ⟨answer, rest, hes, h⟩ := h
    exact ⟨answer, rest, hes, ih _ h⟩
  | subscribe queue handler next ih =>
    rcases h with ⟨rest, hes, h⟩ | ⟨refusal, h⟩
    · exact Or.inl ⟨rest, hes, ih _ h⟩
    · exact Or.inr ⟨refusal, ih _ h⟩
  | cancel queue next ih | close next ih | settle how next ih =>
    obtain ⟨rest, hes, h⟩ := h
    exact ⟨rest, hes, ih h⟩

/-- A trace is one of the ways in which a routine can go. -/
theorem yieldsAt_run {shows : Int → Prop} {c : Conditions} (shown : shows c.clock)
    (r : Routine σ η α) (s : σ) :
    r.YieldsAt shows s (r.run c s).result (r.run c s).state (r.run c s).effects := by
  induction r generalizing s with
  | done a => exact ⟨rfl, rfl, rfl⟩
  | raise fault => exact ⟨rfl, rfl, rfl⟩
  | critical update next ih => exact ih s (update s)
  | clock next ih => exact ⟨c.clock, shown, ih c.clock s⟩
  | publish m next ih =>
    by_cases h : c.refusing.contains m.queue = true
    · rw [run, if_pos h]
      exact ⟨.error (.unavailable "broker unavailable"), _, rfl, ih _ s⟩
    · rw [run, if_neg h]
      exact ⟨.ok (), _, rfl, ih _ s⟩
  | subscribe queue handler next ih => exact Or.inl ⟨_, rfl, ih _ s⟩
  | cancel queue next ih => exact ⟨_, rfl, ih s⟩
  | close next ih => exact ⟨_, rfl, ih s⟩
  | settle how next ih => exact ⟨_, rfl, ih s⟩

theorem yields_run (c : Conditions) (r : Routine σ η α) (s : σ) :
    r.Yields s (r.run c s).result (r.run c s).state (r.run c s).effects :=
  YieldsAt.yields (yieldsAt_run trivial r s : r.YieldsAt (fun _ => True) _ _ _ _)

theorem yields_of_isOk {r : Routine σ η Unit} (c : Conditions) {s : σ}
    (ok : (r.run c s).result.isOk = true) :
    r.Yields s (.ok ()) (r.run c s).state (r.run c s).effects := by
  have yields := yields_run c r s
  cases h : (r.run c s).result with
  | ok => exact h ▸ yields
  | error fault =>
    rw [h] at ok
    cases ok

/-! ## Combinators -/

variable {r : Routine σ η α} {s t : σ} {es : List (Effect η)}

/-- A sequence stops in its first part with a fault, or its second part goes on from there. -/
theorem Yields.of_bind {f : α → Routine σ η β} {x : Except Fault β}
    (h : (r.bind f).Yields s x t es) :
    (∃ a u es₁ es₂, r.Yields s (.ok a) u es₁ ∧ (f a).Yields u x t es₂ ∧ es = es₁ ++ es₂) ∨
      ∃ fault, x = .error fault ∧ r.Yields s (.error fault) t es := by
  induction r generalizing s es with
  | done a => exact Or.inl ⟨a, s, [], es, ⟨rfl, rfl, rfl⟩, h, rfl⟩
  | raise fault => exact Or.inr ⟨fault, h.1, rfl, h.2⟩
  | critical update next ih => exact ih s h
  | clock next ih =>
    obtain ⟨now, h⟩ := h
    rcases ih now h with ⟨a, u, es₁, es₂, h₁, h₂, rfl⟩ | ⟨fault, hx, h⟩
    · exact Or.inl ⟨a, u, es₁, es₂, ⟨now, h₁⟩, h₂, rfl⟩
    · exact Or.inr ⟨fault, hx, now, h⟩
  | publish m next ih =>
    obtain ⟨answer, rest, rfl, h⟩ := h
    rcases ih _ h with ⟨a, u, es₁, es₂, h₁, h₂, rfl⟩ | ⟨fault, hx, h⟩
    · exact Or.inl ⟨a, u, _, es₂, ⟨answer, es₁, rfl, h₁⟩, h₂, rfl⟩
    · exact Or.inr ⟨fault, hx, answer, rest, rfl, h⟩
  | subscribe queue handler next ih =>
    rcases h with ⟨rest, rfl, h⟩ | ⟨refusal, h⟩
    · rcases ih _ h with ⟨a, u, es₁, es₂, h₁, h₂, rfl⟩ | ⟨fault, hx, h⟩
      · exact Or.inl ⟨a, u, _, es₂, Or.inl ⟨es₁, rfl, h₁⟩, h₂, rfl⟩
      · exact Or.inr ⟨fault, hx, Or.inl ⟨rest, rfl, h⟩⟩
    · rcases ih _ h with ⟨a, u, es₁, es₂, h₁, h₂, rfl⟩ | ⟨fault, hx, h⟩
      · exact Or.inl ⟨a, u, es₁, es₂, Or.inr ⟨refusal, h₁⟩, h₂, rfl⟩
      · exact Or.inr ⟨fault, hx, Or.inr ⟨refusal, h⟩⟩
  | cancel queue next ih =>
    obtain ⟨rest, rfl, h⟩ := h
    rcases ih h with ⟨a, u, es₁, es₂, h₁, h₂, rfl⟩ | ⟨fault, hx, h⟩
    · exact Or.inl ⟨a, u, _, es₂, ⟨es₁, rfl, h₁⟩, h₂, rfl⟩
    · exact Or.inr ⟨fault, hx, rest, rfl, h⟩
  | close next ih =>
    obtain ⟨rest, rfl, h⟩ := h
    rcases ih h with ⟨a, u, es₁, es₂, h₁, h₂, rfl⟩ | ⟨fault, hx, h⟩
    · exact Or.inl ⟨a, u, _, es₂, ⟨es₁, rfl, h₁⟩, h₂, rfl⟩
    · exact Or.inr ⟨fault, hx, rest, rfl, h⟩
  | settle how next ih =>
    obtain ⟨rest, rfl, h⟩ := h
    rcases ih h with ⟨a, u, es₁, es₂, h₁, h₂, rfl⟩ | ⟨fault, hx, h⟩
    · exact Or.inl ⟨a, u, _, es₂, ⟨es₁, rfl, h₁⟩, h₂, rfl⟩
    · exact Or.inr ⟨fault, hx, rest, rfl, h⟩

/-- A sequence that comes to its end has gone through both parts. -/
theorem Yields.of_bind_ok {f : α → Routine σ η β} {b : β} (h : (r.bind f).Yields s (.ok b) t es) :
    ∃ a u es₁ es₂, r.Yields s (.ok a) u es₁ ∧ (f a).Yields u (.ok b) t es₂ ∧ es = es₁ ++ es₂ := by
  rcases h.of_bind with h | ⟨fault, hx, -⟩
  · exact h
  · cases hx

/-- A sequence whose second part only returns a value has the effects of its first part. -/
theorem Yields.of_bind_pure {b : β} {x : Except Fault β}
    (h : (r.bind fun _ => pure b).Yields s x t es) :
    (∃ a, x = .ok b ∧ r.Yields s (.ok a) t es) ∨
      ∃ fault, x = .error fault ∧ r.Yields s (.error fault) t es := by
  rcases h.of_bind with ⟨a, u, es₁, es₂, first, ⟨hx, rfl, rfl⟩, rfl⟩ | stopped
  · rw [List.append_nil]
    exact Or.inl ⟨a, hx, first⟩
  · exact Or.inr stopped

theorem Yields.of_attempt {x : Except Fault (Except Fault α)} (h : r.attempt.Yields s x t es) :
    ∃ y, x = .ok y ∧ r.Yields s y t es := by
  induction r generalizing s es with
  | done a => exact ⟨.ok a, h.1, rfl, h.2⟩
  | raise fault => exact ⟨.error fault, h.1, rfl, h.2⟩
  | critical update next ih => exact ih s h
  | clock next ih =>
    obtain ⟨now, h⟩ := h
    obtain ⟨y, hx, h⟩ := ih now h
    exact ⟨y, hx, now, h⟩
  | publish m next ih =>
    obtain ⟨answer, rest, rfl, h⟩ := h
    obtain ⟨y, hx, h⟩ := ih _ h
    exact ⟨y, hx, answer, rest, rfl, h⟩
  | subscribe queue handler next ih =>
    rcases h with ⟨rest, rfl, h⟩ | ⟨refusal, h⟩
    · obtain ⟨y, hx, h⟩ := ih _ h
      exact ⟨y, hx, Or.inl ⟨rest, rfl, h⟩⟩
    · obtain ⟨y, hx, h⟩ := ih _ h
      exact ⟨y, hx, Or.inr ⟨refusal, h⟩⟩
  | cancel queue next ih =>
    obtain ⟨rest, rfl, h⟩ := h
    obtain ⟨y, hx, h⟩ := ih h
    exact ⟨y, hx, rest, rfl, h⟩
  | close next ih =>
    obtain ⟨rest, rfl, h⟩ := h
    obtain ⟨y, hx, h⟩ := ih h
    exact ⟨y, hx, rest, rfl, h⟩
  | settle how next ih =>
    obtain ⟨rest, rfl, h⟩ := h
    obtain ⟨y, hx, h⟩ := ih h
    exact ⟨y, hx, rest, rfl, h⟩

/-- The second of two routines always runs, and the result is the result of the first. -/
theorem Yields.of_thenAlways {second : Routine σ η Unit} {a : α}
    (h : (r.thenAlways second).Yields s (.ok a) t es) :
    ∃ u es₁ es₂, r.Yields s (.ok a) u es₁ ∧ second.Yields u (.ok ()) t es₂ ∧ es = es₁ ++ es₂ := by
  obtain ⟨y, u, es₁, rest, first, after, rfl⟩ := h.of_bind_ok
  obtain ⟨z, hz, h₁⟩ := first.of_attempt
  cases hz
  obtain ⟨⟨⟩, v, es₂, nothing, h₂, h₃, rfl⟩ := after.of_bind_ok
  cases y with
  | error fault => cases h₃.1
  | ok a' =>
    obtain ⟨ha, rfl, rfl⟩ := h₃
    cases ha
    exact ⟨u, es₁, es₂, h₁, h₂, by rw [List.append_nil]⟩

/-- A section that always runs second changes neither the result nor the effects. -/
theorem Yields.of_thenAlways_atomically {f : σ → Unit × σ} {x : Except Fault α}
    (h : (r.thenAlways (atomically f)).Yields s x t es) :
    ∃ u, r.Yields s x u es ∧ t = (f u).2 := by
  rcases h.of_bind with ⟨y, u, es₁, es₂, first, after, rfl⟩ | ⟨fault, -, first⟩
  · obtain ⟨z, hz, first⟩ := first.of_attempt
    cases hz
    cases y with
    | ok a =>
      obtain ⟨rfl, rfl, rfl⟩ := after
      rw [List.append_nil]
      exact ⟨u, first, rfl⟩
    | error fault =>
      obtain ⟨rfl, rfl, rfl⟩ := after
      rw [List.append_nil]
      exact ⟨u, first, rfl⟩
  · obtain ⟨z, hz, -⟩ := first.of_attempt
    cases hz

/-! ## One action, and what follows -/

variable {x : Except Fault β}

theorem yields_atomically_bind {f : σ → α × σ} {next : α → Routine σ η β} :
    (atomically f >>= next).Yields s x t es ↔ (next (f s).1).Yields (f s).2 x t es :=
  Iff.rfl

theorem yields_now_bind {next : Int → Routine σ η β} :
    (now >>= next).Yields s x t es ↔ ∃ n, (next n).Yields s x t es :=
  Iff.rfl

theorem yieldsAt_now_bind {shows : Int → Prop} {next : Int → Routine σ η β} :
    (now >>= next).YieldsAt shows s x t es ↔ ∃ n, shows n ∧ (next n).YieldsAt shows s x t es :=
  Iff.rfl

theorem yields_tryPublish_bind {m : Message} {next : Except Fault Unit → Routine σ η β} :
    (tryPublish m >>= next).Yields s x t es ↔
      (∃ rest, es = .handed true m :: rest ∧ (next (.ok ())).Yields s x t rest) ∨
        ∃ refusal rest, es = .handed false m :: rest ∧
          (next (.error (.refused refusal))).Yields s x t rest := by
  constructor
  · rintro ⟨_ | _, rest, rfl, h⟩
    · exact Or.inr ⟨_, rest, rfl, h⟩
    · exact Or.inl ⟨rest, rfl, h⟩
  · rintro (⟨rest, rfl, h⟩ | ⟨refusal, rest, rfl, h⟩)
    · exact ⟨.ok (), rest, rfl, h⟩
    · exact ⟨.error refusal, rest, rfl, h⟩

end Routine

end Stepwise
