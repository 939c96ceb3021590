import Stepwise.Proofs.Transport.Interleaving

/-!
# Invariants of routines

What a routine `Guarantees` is told by an invariant and a relation: in whatever state that satisfies
the invariant a critical section finds the component, it keeps the invariant, and the state that it
leaves is related to the state that it found.  So the invariant holds after the routine on its own
(`Guarantees.yields`), and at every moment while any number of such routines act between each
other, and the states of a run are related in their order (`Interleaves.guarantees`).  A routine
`Maintains` an invariant if that is all that is asked of it.
-/

namespace Stepwise

variable {ι σ τ η α β : Type}

namespace Routine

/-- Each critical section keeps an invariant and leaves a state that is related to the one it finds,
and so does all that may follow it. -/
def Guarantees (inv : σ → Prop) (rel : σ → σ → Prop) : Routine σ η α → Prop
  | .done _ | .raise _ => True
  | .critical update next =>
    ∀ s, inv s → inv (update s) ∧ rel s (update s) ∧ (next s).Guarantees inv rel
  | .clock next => ∀ now, (next now).Guarantees inv rel
  | .publish _ next | .subscribe _ _ next =>
    ∀ answer : Except Refusal Unit, (next (answer.mapError .refused)).Guarantees inv rel
  | .cancel _ next | .close next | .settle _ next => next.Guarantees inv rel

/-- Each critical section keeps an invariant, and so does all that may follow it. -/
abbrev Maintains (inv : σ → Prop) (r : Routine σ η α) : Prop := r.Guarantees inv fun _ _ => True

variable {inv : σ → Prop} {rel : σ → σ → Prop} {r : Routine σ η α} {s t : σ}

theorem guarantees_pure (a : α) : (pure a : Routine σ η α).Guarantees inv rel := trivial

theorem Guarantees.bind {f : α → Routine σ η β} (h : r.Guarantees inv rel)
    (rest : ∀ a, (f a).Guarantees inv rel) : (r >>= f).Guarantees inv rel := by
  change (r.bind f).Guarantees inv rel
  induction r with
  | done a => exact rest a
  | raise fault => trivial
  | critical update next ih => exact fun s hs => ⟨(h s hs).1, (h s hs).2.1, ih s (h s hs).2.2⟩
  | clock next ih => exact fun now => ih now (h now)
  | publish m next ih => exact fun answer => ih _ (h answer)
  | subscribe queue handler next ih => exact fun answer => ih _ (h answer)
  | cancel queue next ih | close next ih | settle how next ih => exact ih h

theorem guarantees_ofExcept (x : Except Fault α) :
    (ofExcept x : Routine σ η α).Guarantees inv rel := by
  cases x <;> trivial

/-- What follows a section may rely on what the section found. -/
theorem guarantees_atomically_bind {f : σ → α × σ} {next : α → Routine σ η β} :
    (atomically f >>= next).Guarantees inv rel ↔
      ∀ s, inv s → inv (f s).2 ∧ rel s (f s).2 ∧ (next (f s).1).Guarantees inv rel :=
  Iff.rfl

theorem guarantees_atomically {f : σ → α × σ} (h : ∀ s, inv s → inv (f s).2 ∧ rel s (f s).2) :
    (atomically f : Routine σ η α).Guarantees inv rel :=
  fun s hs => ⟨(h s hs).1, (h s hs).2, trivial⟩

theorem guarantees_tryPublish (m : Message) :
    (tryPublish m : Routine σ η _).Guarantees inv rel := fun _ => trivial

theorem guarantees_settled (how : Settlement) :
    (settled how : Routine σ η Unit).Guarantees inv rel := trivial

theorem guarantees_listen (queue : String) (handler : η) :
    (listen queue handler : Routine σ η Unit).Guarantees inv rel :=
  fun _ => guarantees_ofExcept _

/-- What a routine guarantees of a part of a larger state. -/
theorem Guarantees.within {part : τ → σ} {replace : σ → τ → τ} {inv' : τ → Prop}
    {rel' : τ → τ → Prop} (h : r.Guarantees inv rel) (seen : ∀ t, inv' t → inv (part t))
    (kept : ∀ s t, inv' t → inv s → rel (part t) s →
      inv' (replace s t) ∧ rel' t (replace s t)) :
    (r.within part replace).Guarantees inv' rel' := by
  induction r with
  | done a | raise fault => trivial
  | critical update next ih =>
    intro t ht
    obtain ⟨hinv, hrel, rest⟩ := h (part t) (seen t ht)
    obtain ⟨hinv', hrel'⟩ := kept _ t ht hinv hrel
    exact ⟨hinv', hrel', ih _ rest⟩
  | clock next ih => exact fun now => ih now (h now)
  | publish m next ih => exact fun answer => ih _ (h answer)
  | subscribe queue handler next ih => exact fun answer => ih _ (h answer)
  | cancel queue next ih | close next ih | settle how next ih => exact ih h

/-- A routine on its own keeps the invariant. -/
theorem Guarantees.yields {x : Except Fault α} {es : List (Effect η)} (h : r.Guarantees inv rel)
    (hs : inv s) (yields : r.Yields s x t es) : inv t := by
  induction r generalizing s es with
  | done a | raise fault =>
    obtain ⟨-, rfl, -⟩ := yields
    exact hs
  | critical update next ih => exact ih s (h s hs).2.2 (h s hs).1 yields
  | clock next ih =>
    obtain ⟨now, yields⟩ := yields
    exact ih now (h now) hs yields
  | publish m next ih =>
    obtain ⟨answer, rest, -, yields⟩ := yields
    exact ih _ (h answer) hs yields
  | subscribe queue handler next ih =>
    rcases yields with ⟨rest, -, yields⟩ | ⟨refusal, yields⟩
    · exact ih _ (h (.ok ())) hs yields
    · exact ih _ (h (.error refusal)) hs yields
  | cancel queue next ih | close next ih | settle how next ih =>
    obtain ⟨rest, -, yields⟩ := yields
    exact ih h hs yields

/-- One action keeps the invariant, and leaves a routine that guarantees the same. -/
theorem Guarantees.acts {e : Option (Effect η)} {r' : Routine σ η α} (h : r.Guarantees inv rel)
    (refl : ∀ s, rel s s) (hs : inv s) (acts : r.Acts s e r' t) :
    inv t ∧ rel s t ∧ r'.Guarantees inv rel := by
  cases acts with
  | critical update next => exact h s hs
  | clock next s now => exact ⟨hs, refl s, h now⟩
  | publish m next s answer => exact ⟨hs, refl s, h answer⟩
  | subscribe queue handler next => exact ⟨hs, refl s, h (.ok ())⟩
  | notSubscribed queue handler next s refusal => exact ⟨hs, refl s, h (.error refusal)⟩
  | cancel | close | settle => exact ⟨hs, refl s, h⟩

end Routine

/-- Routines that act between each other: the invariant holds before each tick of a run and at its
end, and what a tick leaves is related to what there is at the end. -/
theorem Interleaves.guarantees [DecidableEq ι] {p q : Pool ι σ η α} {run : List (Tick ι σ η)}
    {inv : σ → Prop} {rel : σ → σ → Prop} (h : Interleaves p run q) (refl : ∀ s, rel s s)
    (trans : ∀ s t u, rel s t → rel t u → rel s u) (start : inv p.state)
    (all : ∀ i, (p.threads i).Guarantees inv rel) :
    inv q.state ∧ (∀ i, (q.threads i).Guarantees inv rel) ∧
      ∀ tick ∈ run, inv tick.before ∧ rel tick.after q.state := by
  induction h with
  | start => exact ⟨start, all, nofun⟩
  | @act run q i e r t before acts ih =>
    obtain ⟨hs, each, ticks⟩ := ih
    obtain ⟨ht, hrel, rest⟩ := (each i).acts refl hs acts
    refine ⟨ht, fun j => ?_, fun tick mem => ?_⟩
    · change (Function.update q.threads i r j).Guarantees inv rel
      by_cases hj : j = i
      · subst hj
        rw [Function.update_self]
        exact rest
      · rw [Function.update_of_ne hj]
        exact each j
    · rcases List.mem_append.1 mem with earlier | last
      · exact ⟨(ticks tick earlier).1, trans _ _ _ (ticks tick earlier).2 hrel⟩
      · rw [List.mem_singleton.1 last]
        exact ⟨hs, refl t⟩

end Stepwise
