import Stepwise.Proofs.Service.Table
import Stepwise.Proofs.Transport.Interleaving
import Stepwise.Proofs.Wire.RoundTrip

/-!
# The discipline of the scheduler's calls

Calls that run at the same time share the scheduler, and between two actions of one the others may
do anything.  What a call may do next depends on what it has done: only who has reserved an id
enters it, only who has marked an entry takes it out of the table, and so on.  `Phase` is what has
to be remembered of a call, `Deed` is what an action does to the scheduler and its surroundings,
and `Phase.Goes` says which deed leads where.  `Follows` says that all of a routine keeps to it;
the calls `submit`, `onResult` and `fail` do, whatever the compiler gives.
-/

namespace Stepwise

namespace Scheduler

variable {η α β : Type} {settings : Settings}

/-! ## Deeds -/

/-- What an action of a call does. -/
inductive Deed where
  | accept (id : String)
  | enter (id : String) (place : Nat)
  | release (id : String)
  | look (id : String) (place : Nat)
  | mark (id : String) (place : Nat)
  | remove (id : String) (place : Nat)
  | respond (id : String)
  /-- Anything that leaves the table, the reservations and the marks alone. -/
  | other

/-- What of an entry stays the same until it is marked as answered. -/
def sign (e : Entry) : String × Bool := (e.expressionId, e.answered)

/-- Schedulers with the same table, reservations and marks. -/
structure Alike (s t : Scheduler) : Prop where
  table : t.table = s.table
  reserved : t.reserved = s.reserved
  signs : t.entries.map sign = s.entries.map sign

/-- A message that is a response for an id. -/
def IsResponse (settings : Settings) (id : String) (m : Message) : Prop :=
  ∃ r : ExpressionResponse, m = ⟨settings.responseQueue, r.body⟩ ∧ r.expressionId = id

/-- What a deed does to the scheduler. -/
def Deed.Changes (s t : Scheduler) : Deed → Prop
  | accept id => s.isPending id = false ∧ t = (Scheduler.reserve id s).2
  | enter id place => ∃ e : Entry, e.expressionId = id ∧ e.answered = false ∧
      place = s.entries.size ∧ t = (Scheduler.enter e s).2
  | release id => t = (Scheduler.release id s).2
  | look id place => (id, place) ∈ s.table ∧ t = s
  | mark _ place => ∃ e e', s.entries[place]? = some e ∧ e.answered = false ∧ e'.answered = true ∧
      e'.expressionId = e.expressionId ∧
      t = { s with entries := s.entries.setIfInBounds place e' }
  | remove id _ => t = (Scheduler.remove id s).2
  | respond _ => False
  | other => Alike s t

/-- What a deed hands over. -/
def Deed.Hands (settings : Settings) (m : Message) : Deed → Prop
  | respond id => IsResponse settings id m
  | other => ∀ id, ¬ IsResponse settings id m
  | _ => False

/-- A deed as an action in a state: it changes the scheduler and has no effect, or it hands over a
message and changes nothing. -/
inductive Deed.Done (settings : Settings) (d : Deed) (s : Scheduler) :
    Option (Effect η) → Scheduler → Prop where
  | inside {t : Scheduler} (changes : d.Changes s t) : Done settings d s none t
  | outside {m : Message} (hands : d.Hands settings m) (accepted : Bool) :
      Done settings d s (some (.handed accepted m)) s

/-! ## Phases -/

/-- What has to be remembered of a call. -/
inductive Phase where
  /-- A submission whose id has not been reserved. -/
  | fresh (id : String)
  /-- The id is reserved, and neither entered nor answered. -/
  | holding (id : String)
  /-- The id is still reserved, and entered or answered. -/
  | spent (id : String)
  /-- Nothing is reserved and nothing found. -/
  | idle
  /-- The id has been looked up and stood for the entry at a place. -/
  | found (id : String) (place : Nat)
  /-- The entry has been marked as answered and has to leave the table. -/
  | owing (id : String) (place : Nat)
  /-- The entry is out of the table and a response is due. -/
  | cleared (id : String) (place : Nat)
  | closed

/-- Phases in which an id may be looked up. -/
inductive Phase.Rested : Phase → Prop where
  | idle : Rested .idle
  | found (id : String) (place : Nat) : Rested (.found id place)

/-- Which deed leads from which phase to which. -/
inductive Phase.Goes : Phase → Deed → Phase → Prop where
  | accept (id : String) : Goes (.fresh id) (.accept id) (.holding id)
  | enter (id : String) (place : Nat) : Goes (.holding id) (.enter id place) (.spent id)
  | answer (id : String) : Goes (.holding id) (.respond id) (.spent id)
  | giveUp (id : String) : Goes (.holding id) (.release id) .idle
  | release (id : String) : Goes (.spent id) (.release id) .idle
  | look {φ : Phase} (rested : φ.Rested) (id : String) (place : Nat) :
      Goes φ (.look id place) (.found id place)
  | mark (id : String) (place : Nat) : Goes (.found id place) (.mark id place) (.owing id place)
  | remove (id : String) (place : Nat) :
      Goes (.owing id place) (.remove id place) (.cleared id place)
  | respond (id : String) (place : Nat) : Goes (.cleared id place) (.respond id) .closed
  | other (φ : Phase) : Goes φ .other φ

/-- What a phase tells about the scheduler for good: the entry found under an id is one of the id. -/
def Phase.Knows (s : Scheduler) : Phase → Prop
  | found id place => ∃ e, s.entries[place]? = some e ∧ e.expressionId = id
  | _ => True

/-! ## Routines that keep to the phases -/

/-- From a phase a routine does only what the phases allow, in whatever state it finds the scheduler
at each action; what it ends with, and the phase it ends in, satisfy `post`. -/
def Follows (settings : Settings) :
    Action η α → Phase → (Except Fault α → Phase → Prop) → Prop
  | .done a, φ, post => post (.ok a) φ
  | .raise fault, φ, post => post (.error fault) φ
  | .critical update next, φ, post => ∀ s, φ.Knows s → ∃ d ψ, φ.Goes d ψ ∧
      d.Changes s (update s) ∧ Follows settings (next s) ψ post
  | .clock next, φ, post => ∀ now, Follows settings (next now) φ post
  | .publish m next, φ, post => ∃ d ψ, φ.Goes d ψ ∧ d.Hands settings m ∧
      ∀ answer : Except Refusal Unit, Follows settings (next (answer.mapError .refused)) ψ post
  | _, _, _ => False

theorem Follows.mono {r : Action η α} {φ : Phase} {post post' : Except Fault α → Phase → Prop}
    (h : Follows settings r φ post) (le : ∀ x ψ, post x ψ → post' x ψ) :
    Follows settings r φ post' := by
  induction r generalizing φ with
  | done a => exact le _ _ h
  | raise fault => exact le _ _ h
  | critical update next ih =>
    intro s knows
    obtain ⟨d, ψ, goes, changes, rest⟩ := h s knows
    exact ⟨d, ψ, goes, changes, ih s rest⟩
  | clock next ih => exact fun now => ih now (h now)
  | publish m next ih =>
    obtain ⟨d, ψ, goes, hands, rest⟩ := h
    exact ⟨d, ψ, goes, hands, fun answer => ih _ (rest answer)⟩
  | subscribe | cancel | close | settle => exact h.elim

theorem Follows.bind {r : Action η α} {f : α → Action η β} {φ : Phase}
    {post : Except Fault β → Phase → Prop}
    (h : Follows settings r φ fun x ψ => match x with
      | .ok a => Follows settings (f a) ψ post
      | .error fault => post (.error fault) ψ) : Follows settings (r >>= f) φ post := by
  change Follows settings (r.bind f) φ post
  induction r generalizing φ with
  | done a => exact h
  | raise fault => exact h
  | critical update next ih =>
    intro s knows
    obtain ⟨d, ψ, goes, changes, rest⟩ := h s knows
    exact ⟨d, ψ, goes, changes, ih s rest⟩
  | clock next ih => exact fun now => ih now (h now)
  | publish m next ih =>
    obtain ⟨d, ψ, goes, hands, rest⟩ := h
    exact ⟨d, ψ, goes, hands, fun answer => ih _ (rest answer)⟩
  | subscribe | cancel | close | settle => exact h.elim

theorem Follows.attempt {r : Action η α} {φ : Phase}
    {post : Except Fault (Except Fault α) → Phase → Prop}
    (h : Follows settings r φ fun x ψ => post (.ok x) ψ) : Follows settings r.attempt φ post := by
  induction r generalizing φ with
  | done a => exact h
  | raise fault => exact h
  | critical update next ih =>
    intro s knows
    obtain ⟨d, ψ, goes, changes, rest⟩ := h s knows
    exact ⟨d, ψ, goes, changes, ih s rest⟩
  | clock next ih => exact fun now => ih now (h now)
  | publish m next ih =>
    obtain ⟨d, ψ, goes, hands, rest⟩ := h
    exact ⟨d, ψ, goes, hands, fun answer => ih _ (rest answer)⟩
  | subscribe | cancel | close | settle => exact h.elim

/-- A section that always runs second is done in every phase that the first routine ends in. -/
theorem Follows.thenAlways {r : Action η α} {f : Scheduler → Unit × Scheduler} {φ : Phase}
    {post : Except Fault α → Phase → Prop}
    (h : Follows settings r φ fun x ψ => ∀ s, ψ.Knows s → ∃ d χ, ψ.Goes d χ ∧
      d.Changes s (f s).2 ∧ post x χ) :
    Follows settings (r.thenAlways (.atomically f)) φ post := by
  refine Follows.bind (Follows.attempt (h.mono ?_))
  intro x ψ ends s knows
  obtain ⟨d, χ, goes, changes, hpost⟩ := ends s knows
  refine ⟨d, χ, goes, changes, ?_⟩
  cases x with
  | ok a => exact hpost
  | error fault => exact hpost

/-! ## The calls -/

variable {φ ψ : Phase} {id : String} {s : Scheduler}

theorem follows_atomically_bind {f : Scheduler → α × Scheduler} {next : α → Action η β}
    {post : Except Fault β → Phase → Prop} :
    Follows settings (Routine.atomically f >>= next) φ post ↔ ∀ s, φ.Knows s →
      ∃ d ψ, φ.Goes d ψ ∧ d.Changes s (f s).2 ∧ Follows settings (next (f s).1) ψ post :=
  Iff.rfl

theorem follows_now_bind {next : Int → Action η β} {post : Except Fault β → Phase → Prop} :
    Follows settings (Routine.now >>= next) φ post ↔ ∀ now, Follows settings (next now) φ post :=
  Iff.rfl

/-- A response is handed over where one may be. -/
theorem follows_emit {r : ExpressionResponse} {post : Except Fault Unit → Phase → Prop}
    (goes : φ.Goes (.respond r.expressionId) ψ) (h : post (.ok ()) ψ) :
    Follows settings (emit settings r : Action η Unit) φ post := by
  refine ⟨_, _, goes, ⟨r, rfl, rfl⟩, ?_⟩
  rintro (refusal | ⟨⟩)
  · exact h
  · exact h

/-- An entry that has been marked leaves the table, and its response is handed over. -/
theorem follows_finish {r : ExpressionResponse} {place : Nat}
    {post : Except Fault Unit → Phase → Prop} (hid : r.expressionId = id) (h : post (.ok ()) .closed) :
    Follows settings (finish settings id r : Action η Unit) (.owing id place) post := by
  refine follows_atomically_bind.2 fun s _ => ⟨_, _, .remove id place, rfl, ?_⟩
  exact follows_emit (hid ▸ .respond id place) h

theorem Alike.refl (s : Scheduler) : Alike s s := ⟨rfl, rfl, rfl⟩

theorem alike_setIfInBounds {place : Nat} {e e' : Entry} (he : s.entries[place]? = some e)
    (same : sign e' = sign e) :
    Alike s { s with entries := s.entries.setIfInBounds place e' } := by
  refine ⟨rfl, rfl, Array.ext_getElem? fun i => ?_⟩
  rw [Array.getElem?_map, Array.getElem?_map, Array.getElem?_setIfInBounds]
  split
  · next hi =>
    obtain ⟨hlt, -⟩ := Array.getElem?_eq_some_iff.1 he
    rw [if_pos hlt, ← hi, he, Option.map_some, Option.map_some, same]
  · rfl

/-- A section that keeps the sign of each entry. -/
theorem alike_onEntry {place : Nat} (otherwise : α) {f : Entry → α × Entry}
    (same : ∀ e, sign (f e).2 = sign e) : Alike s (onEntry place otherwise f s).2 := by
  cases he : s.entries[place]? with
  | none =>
    rw [onEntry, he]
    exact .refl s
  | some e =>
    rw [onEntry_eq he]
    exact alike_setIfInBounds he (same e)

/-- Who abandons an entry marks it, unless it has been marked. -/
theorem abandon_cases {place : Nat} {e : Entry} (he : s.entries[place]? = some e) (id : String) :
    ((abandon place s).1 = false ∧ Alike s (abandon place s).2) ∨
      ((abandon place s).1 = true ∧ Deed.Changes s (abandon place s).2 (.mark id place)) := by
  rw [abandon, onEntry_eq he]
  cases ha : e.answered with
  | true => exact Or.inl ⟨by simp, alike_setIfInBounds he (by simp)⟩
  | false =>
    rw [if_neg (by simp)]
    exact Or.inr ⟨rfl, e, { e with answered := true, inFlight := none }, he, ha, rfl, rfl, rfl⟩

theorem follows_fail (rested : φ.Rested) (code : ErrorCode) (message : String) :
    Follows settings (fail settings id code message : Action η Bool) φ fun _ _ => True := by
  rw [fail, follows_atomically_bind]
  intro s _
  cases hf : s.find? id with
  | none => exact ⟨_, _, .other φ, .refl s, trivial⟩
  | some place =>
    refine ⟨_, _, .look rested id place, ⟨mem_table_of_find? hf, rfl⟩, ?_⟩
    simp only
    rw [follows_atomically_bind]
    rintro t ⟨e, he, -⟩
    rcases abandon_cases he id with ⟨late, alike⟩ | ⟨first, marks⟩
    · refine ⟨_, _, .other _, alike, ?_⟩
      rw [late]
      trivial
    · refine ⟨_, _, .mark id place, marks, ?_⟩
      rw [first]
      exact Follows.bind (follows_finish rfl trivial)

theorem follows_fail_bind (rested : φ.Rested) (code : ErrorCode) (message : String) :
    Follows settings (fail settings id code message >>= fun _ => pure () : Action η Unit) φ
      fun _ _ => True := by
  refine Follows.bind ((follows_fail rested code message).mono ?_)
  rintro (fault | b) _ _
  · trivial
  · trivial

theorem follows_publishStep (rested : φ.Rested) (q : StepRequest) :
    Follows settings (publishStep settings q : Action η Unit) φ fun _ _ => True := by
  rw [publishStep]
  cases settings.queueOf? q.operation with
  | none => exact follows_fail_bind rested _ _
  | some queue =>
    refine ⟨_, _, .other φ, ?_, ?_⟩
    · rintro id ⟨r, hm, -⟩
      exact StepRequest.body_ne q r (Message.mk.inj hm).2
    · rintro (refusal | ⟨⟩)
      · exact follows_fail_bind rested _ _
      · trivial

/-- Compiling an expression leaves its id reserved, and enters or answers it once at most. -/
theorem follows_compile (compiler : Compiler) (r : ExpressionRequest) :
    Follows settings (compile settings compiler r : Action η (Option Nat))
      (.holding r.expressionId)
      fun _ ψ => ψ = .holding r.expressionId ∨ ψ = .spent r.expressionId := by
  rw [compile]
  cases compiler r.expression with
  | error fault => exact Follows.bind (follows_emit (.answer _) (Or.inr rfl))
  | ok plan =>
    simp only
    split
    · cases plan.literal with
      | none => exact Or.inl rfl
      | some x => exact Follows.bind (follows_emit (.answer _) (Or.inr rfl))
    · rw [follows_now_bind]
      intro now
      cases Budget.deadline? now r.deadlineMs with
      | none => exact Or.inl rfl
      | some deadlineAt =>
        refine follows_atomically_bind.2 fun s _ => ?_
        exact ⟨_, _, .enter _ s.entries.size, ⟨_, rfl, rfl, rfl, rfl⟩, Or.inr rfl⟩

theorem sign_nextRequest (now : Int) (e : Entry) : sign (nextRequest now e).2 = sign e := by
  rw [nextRequest]
  cases e.steps[e.results.length]? with
  | none => rfl
  | some step =>
    simp only
    cases operands e.results step with
    | error fault => rfl
    | ok both =>
      simp only
      split <;> rfl

theorem follows_submit (compiler : Compiler) (r : ExpressionRequest) :
    Follows settings (submit settings compiler r : Action η Unit) (.fresh r.expressionId)
      fun _ _ => True := by
  rw [submit, follows_atomically_bind]
  intro s _
  cases hp : s.isPending r.expressionId with
  | true =>
    have refused : reserve r.expressionId s = (false, s) := if_pos hp
    rw [refused]
    exact ⟨_, _, .other _, .refl s, trivial⟩
  | false =>
    refine ⟨_, _, .accept _, ⟨hp, rfl⟩, ?_⟩
    have reserved : (reserve r.expressionId s).1 = true := by rw [reserve, if_neg (by simp [hp])]
    rw [reserved]
    refine Follows.bind (Follows.thenAlways ((follows_compile compiler r).mono ?_))
    rintro x ψ compiled t -
    have released : ψ.Goes (.release r.expressionId) .idle := by
      rcases compiled with rfl | rfl
      · exact .giveUp _
      · exact .release _
    refine ⟨_, _, released, rfl, ?_⟩
    rcases x with fault | (_ | place)
    · trivial
    · trivial
    · simp only
      rw [follows_now_bind]
      intro now
      rw [follows_atomically_bind]
      intro u _
      refine ⟨_, _, .other .idle, alike_onEntry _ (sign_nextRequest now), ?_⟩
      cases (prepareNext now place u).1 with
      | error fault => trivial
      | ok q => exact follows_publishStep .idle q

/-- What the answer to a step does to an entry: it marks the entry if a response is due, and keeps
its sign otherwise. -/
theorem advance_cases (now : Int) (r : StepResponse) (e : Entry) :
    (∃ answer, (advance now r e).1 = .answer answer ∧ answer.expressionId = e.expressionId ∧
        e.answered = false ∧ sign (advance now r e).2 = (e.expressionId, true)) ∨
      ((∀ answer, (advance now r e).1 ≠ .answer answer) ∧
        sign (advance now r e).2 = sign e) := by
  rw [advance]
  split
  · exact Or.inr ⟨nofun, rfl⟩
  · next waits =>
    have open_ : e.answered = false := by
      rw [Bool.or_eq_true, not_or, Bool.not_eq_true] at waits
      exact waits.1
    simp only
    cases r.outcome with
    | failed f => exact Or.inl ⟨_, rfl, rfl, open_, rfl⟩
    | value x =>
      simp only
      split
      · exact Or.inl ⟨_, rfl, rfl, open_, rfl⟩
      · have kept := sign_nextRequest now
          { e with inFlight := none, results := store e.results r.stepId x }
        generalize nextRequest now _ = next at kept ⊢
        obtain ⟨fault | request, e'⟩ := next
        · cases fault with
          | unresolved step missing =>
            have same : e'.expressionId = e.expressionId := congrArg Prod.fst kept
            exact Or.inl ⟨_, rfl, same, open_, congrArg (·, true) same⟩
          | _ => exact Or.inr ⟨nofun, kept⟩
        · exact Or.inr ⟨nofun, kept⟩

theorem follows_onResult (rested : φ.Rested) (r : StepResponse) :
    Follows settings (onResult settings r : Action η Unit) φ fun _ _ => True := by
  rw [onResult, follows_atomically_bind]
  intro s _
  cases hf : s.find? r.expressionId with
  | none => exact ⟨_, _, .other φ, .refl s, trivial⟩
  | some place =>
    refine ⟨_, _, .look rested _ place, ⟨mem_table_of_find? hf, rfl⟩, ?_⟩
    simp only
    rw [follows_now_bind]
    intro now
    rw [follows_atomically_bind]
    rintro t ⟨e, he, hid⟩
    have accepted := onEntry_eq he .nothing (advance now r)
    change accept now r place t = _ at accepted
    rw [accepted]
    rcases advance_cases now r e with ⟨answer, reaction, hanswer, open_, marked⟩ | ⟨quiet, kept⟩
    · refine ⟨_, _, .mark _ place, ⟨e, _, he, open_, congrArg Prod.snd marked,
        congrArg Prod.fst marked, rfl⟩, ?_⟩
      simp only [reaction]
      exact follows_finish (hanswer.trans hid) trivial
    · refine ⟨_, _, .other _, alike_setIfInBounds he kept, ?_⟩
      cases hr : (advance now r e).1 with
      | nothing => trivial
      | answer answer => exact (quiet answer hr).elim
      | send q => exact follows_publishStep (.found _ _) q
      | stop fault => trivial

/-! ## Tasks -/

/-- A call that runs at the same time as others. -/
inductive Task where
  | submit (r : ExpressionRequest)
  | result (r : StepResponse)
  | fail (id : String) (code : ErrorCode) (message : String)

/-- What a task does. -/
def Task.routine (settings : Settings) (compiler : Compiler) : Task → Action η Unit
  | submit r => Scheduler.submit settings compiler r
  | result r => onResult settings r
  | fail id code message => Scheduler.fail settings id code message >>= fun _ => pure ()

/-- The phase in which a task starts. -/
def Task.phase : Task → Phase
  | submit r => .fresh r.expressionId
  | _ => .idle

theorem Task.follows (compiler : Compiler) (task : Task) :
    Follows settings (task.routine settings compiler : Action η Unit) task.phase
      fun _ _ => True := by
  cases task with
  | submit r => exact follows_submit compiler r
  | result r => exact follows_onResult .idle r
  | fail id code message => exact follows_fail_bind .idle code message

/-- An action of a routine that follows the phases is a deed of its phase. -/
theorem Follows.exists_deed {r r' : Action η α} {post : Except Fault α → Phase → Prop}
    {t : Scheduler} {e : Option (Effect η)} (h : Follows settings r φ post) (knows : φ.Knows s)
    (acts : r.Acts s e r' t) :
    ∃ d ψ, φ.Goes d ψ ∧ Deed.Done settings d s e t ∧ Follows settings r' ψ post := by
  cases acts with
  | critical update next =>
    obtain ⟨d, ψ, goes, changes, rest⟩ := h s knows
    exact ⟨d, ψ, goes, .inside changes, rest⟩
  | clock next _ now => exact ⟨.other, φ, .other φ, .inside (.refl s), h now⟩
  | publish m next _ answer =>
    obtain ⟨d, ψ, goes, hands, rest⟩ := h
    exact ⟨d, ψ, goes, .outside hands _, rest answer⟩
  | subscribe | notSubscribed | cancel | close | settle => exact h.elim

end Scheduler

end Stepwise
