import Stepwise.Proofs.Service.Course

/-!
# Expressions do not interfere

What the calls of a run make of an id, and the messages about it that they hand over, depend on the
calls about that id alone: `independent` says that the other calls may be left out, and that calls
about different ids may change places.
-/

namespace Stepwise

open Stepwise.Text (Body)

variable {η : Type} {id other : String}

/-! ## Messages about an id -/

/-- The bytes of a message. -/
def Sending.body : Sending → Body
  | request _ q => q.body
  | response r => r.body

/-- The text of a message begins with the id that it is about. -/
theorem Sending.exists_render (what : Sending) :
    ∃ p ps, what.body = Text.encode (Json.render Decimal.wire
      (.object (("expression_id", .text what.expressionId) :: p :: ps))) := by
  cases what with
  | request queue q => exact ⟨_, _, rfl⟩
  | response r =>
    obtain ⟨id, outcome⟩ := r
    cases outcome <;> exact ⟨_, _, rfl⟩

theorem Sending.expressionId_eq_of_body {what what' : Sending} (h : what.body = what'.body) :
    what.expressionId = what'.expressionId := by
  obtain ⟨p, ps, hbody⟩ := what.exists_render
  obtain ⟨q, qs, hbody'⟩ := what'.exists_render
  rw [hbody, hbody'] at h
  exact (head_eq_of_render_eq (encode_inj h)).1

/-- The effect hands a message about an id to the transport, which accepts it or not. -/
def Effect.IsAbout (id : String) (e : Effect η) : Prop :=
  ∃ (what : Sending) (accepted : Bool) (queue : String), what.expressionId = id ∧
    e = .handed accepted ⟨queue, what.body⟩

/-- No message is about two ids. -/
theorem Effect.IsAbout.unique {e : Effect η} (h : e.IsAbout id) (h' : e.IsAbout other) :
    id = other := by
  obtain ⟨what, accepted, queue, rfl, rfl⟩ := h
  obtain ⟨what', accepted', queue', rfl, same⟩ := h'
  exact Sending.expressionId_eq_of_body (congrArg Message.body (Effect.handed_inj same))

theorem Sending.isAbout_effect (settings : Settings) (what : Sending) (accepted : Bool) :
    (what.effect settings accepted : Effect η).IsAbout what.expressionId := by
  refine ⟨what, accepted, (what.message settings).queue, rfl, ?_⟩
  cases what <;> rfl

open Classical in
/-- The messages about an id that are handed over, in order. -/
noncomputable def about (id : String) (es : List (Effect η)) : List (Effect η) :=
  es.filter fun e => e.IsAbout id

theorem about_append (id : String) (es fs : List (Effect η)) :
    about id (es ++ fs) = about id es ++ about id fs :=
  List.filter_append ..

theorem about_effectsOf_of_ne (settings : Settings) {sends : List (Sending × Bool)}
    (own : ∀ p ∈ sends, p.1.expressionId = other) (ne : other ≠ id) :
    about id (effectsOf settings sends : List (Effect η)) = [] := by
  refine List.filter_eq_nil_iff.2 fun e he => ?_
  obtain ⟨p, hp, rfl⟩ := List.mem_map.1 he
  have here := own p hp ▸ p.1.isAbout_effect (η := η) settings p.2
  simpa using fun there => ne (here.unique there)

namespace Scheduler

variable (settings : Settings) (compiler : Compiler) (c : Conditions)

/-! ## One call -/

/-- What a call does under given conditions. -/
def Call.perform (call : Call) (s : Scheduler) : Run Scheduler Unit Unit :=
  (call.action settings compiler).run c s

/-- A scheduler between calls, any of which may have raised. -/
structure Rested (s : Scheduler) : Prop where
  tidy : s.Tidy
  unreserved : s.reserved = []

theorem rested_empty : Rested empty := ⟨sound_empty.tidy, rfl⟩

variable {s t : Scheduler} {call : Call}

theorem Rested.obeys (rested : Rested s) (explicit : call.Explicit)
    (subject : call.subject? = some id) :
    Obeys settings id (call.course settings compiler c (s.entryOf? id)) s
      (call.perform settings compiler c s) :=
  obeys_of_call rested.tidy rested.unreserved explicit subject

theorem Rested.isAbout (rested : Rested s) (subject : call.subject? = some id) :
    (call.course settings compiler c (s.entryOf? id)).IsAbout id :=
  isAbout_course subject fun _ he => rested.tidy.expressionId he

theorem Rested.perform (rested : Rested s) (explicit : call.Explicit) :
    Rested (call.perform settings compiler c s).state := by
  cases subject : call.subject? with
  | none =>
    rw [Call.perform, (quiet_of_call explicit subject).1]
    exact rested
  | some id =>
    obtain ⟨-, becomes⟩ := rested.obeys settings compiler c explicit subject
    exact ⟨becomes.tidy, becomes.reserved.trans rested.unreserved⟩

/-- A call leaves every id alone that it is not about. -/
theorem Rested.frame (rested : Rested s) (explicit : call.Explicit)
    (foreign : call.subject? ≠ some id) :
    (call.perform settings compiler c s).state.entryOf? id = s.entryOf? id ∧
      about id (call.perform settings compiler c s).effects = [] := by
  cases subject : call.subject? with
  | none =>
    obtain ⟨state, effects⟩ := quiet_of_call (s := s) (c := c) explicit subject
    rw [Call.perform, state, effects]
    exact ⟨rfl, rfl⟩
  | some own =>
    have ne : own ≠ id := fun h => foreign (h ▸ subject)
    obtain ⟨effects, becomes⟩ := rested.obeys settings compiler c explicit subject
    refine ⟨becomes.others id ne.symm, ?_⟩
    rw [effects]
    exact about_effectsOf_of_ne settings (rested.isAbout settings compiler c subject) ne

/-- In schedulers with the same entry for an id a call about the id does the same. -/
theorem Rested.agree (rested : Rested s) (rested' : Rested t) (explicit : call.Explicit)
    (subject : call.subject? = some id) (same : s.entryOf? id = t.entryOf? id) :
    (call.perform settings compiler c s).state.entryOf? id =
        (call.perform settings compiler c t).state.entryOf? id ∧
      (call.perform settings compiler c s).effects =
        (call.perform settings compiler c t).effects := by
  obtain ⟨effects, becomes⟩ := rested.obeys settings compiler c explicit subject
  obtain ⟨effects', becomes'⟩ := rested'.obeys settings compiler c explicit subject
  rw [becomes.own, becomes'.own, effects, effects', same]
  exact ⟨rfl, rfl⟩

/-! ## Runs of calls -/

/-- Calls one after the other, each under its own conditions, with what they leave and what they
hand over.  A call that raises leaves what it has done so far. -/
def performAll (s : Scheduler) : List (Conditions × Call) → Scheduler × List (Effect Unit)
  | [] => (s, [])
  | (c, call) :: rest =>
    let out := call.perform settings compiler c s
    let after := performAll out.state rest
    (after.1, out.effects ++ after.2)

/-- The calls about an id. -/
def concerning (id : String) (calls : List (Conditions × Call)) : List (Conditions × Call) :=
  calls.filter fun p => p.2.subject? = some id

variable {calls : List (Conditions × Call)}

/-- Two runs agree on an id, if they begin with the same entry for it, and one has all the calls and
the other those about the id. -/
theorem performAll_concerning (rested : Rested s) (rested' : Rested t)
    (explicit : ∀ p ∈ calls, p.2.Explicit) (same : s.entryOf? id = t.entryOf? id) :
    (performAll settings compiler s calls).1.entryOf? id =
        (performAll settings compiler t (concerning id calls)).1.entryOf? id ∧
      about id (performAll settings compiler s calls).2 =
        about id (performAll settings compiler t (concerning id calls)).2 := by
  induction calls generalizing s t with
  | nil => exact ⟨same, rfl⟩
  | cons p calls ih =>
    obtain ⟨c, call⟩ := p
    rw [List.forall_mem_cons] at explicit
    obtain ⟨here, rest⟩ := explicit
    have after := rested.perform settings compiler c here
    by_cases subject : call.subject? = some id
    · have kept : concerning id ((c, call) :: calls) = (c, call) :: concerning id calls :=
        List.filter_cons_of_pos (by simpa using subject)
      obtain ⟨entry, effects⟩ := rested.agree settings compiler c rested' here subject same
      obtain ⟨hstate, hes⟩ := ih after (rested'.perform settings compiler c here) rest entry
      rw [kept, performAll, performAll, about_append, about_append, effects, hes]
      exact ⟨hstate, rfl⟩
    · have dropped : concerning id ((c, call) :: calls) = concerning id calls :=
        List.filter_cons_of_neg (by simpa using subject)
      obtain ⟨entry, effects⟩ := rested.frame settings compiler c here subject
      obtain ⟨hstate, hes⟩ := ih after rested' rest (entry.trans same)
      rw [dropped, performAll, about_append, effects, hes]
      exact ⟨hstate, rfl⟩

/-- Each message that is handed over in a run is about the id of a call. -/
theorem exists_isAbout (rested : Rested s) (explicit : ∀ p ∈ calls, p.2.Explicit) :
    ∀ e ∈ (performAll settings compiler s calls).2,
      ∃ id, e.IsAbout id ∧ ∃ p ∈ calls, p.2.subject? = some id := by
  induction calls generalizing s with
  | nil => exact nofun
  | cons p calls ih =>
    obtain ⟨c, call⟩ := p
    rw [List.forall_mem_cons] at explicit
    obtain ⟨here, rest⟩ := explicit
    intro e he
    rcases List.mem_append.1 he with he | he
    · cases subject : call.subject? with
      | none =>
        rw [Call.perform, (quiet_of_call here subject).2] at he
        cases he
      | some id =>
        rw [(rested.obeys settings compiler c here subject).effects] at he
        obtain ⟨q, hq, rfl⟩ := List.mem_map.1 he
        have own := rested.isAbout settings compiler c subject q hq
        exact ⟨id, own ▸ q.1.isAbout_effect settings q.2, _, List.mem_cons_self, subject⟩
    · obtain ⟨id, isAbout, p, hp, subject⟩ :=
        ih (rested.perform settings compiler c here) rest e he
      exact ⟨id, isAbout, p, List.mem_cons_of_mem _ hp, subject⟩

/-- Two runs that begin with nothing pending leave the same entry for an id, and hand over the same
messages about it in the same order. -/
def AgreeOn (id : String) (calls calls' : List (Conditions × Call)) : Prop :=
  (performAll settings compiler empty calls).1.entryOf? id =
      (performAll settings compiler empty calls').1.entryOf? id ∧
    about id (performAll settings compiler empty calls).2 =
      about id (performAll settings compiler empty calls').2

/-- Calls about different ids may change places as far as a single id is concerned. -/
theorem concerning_swap {front back : List (Conditions × Call)} {a b : Conditions × Call}
    (ne : a.2.subject? ≠ b.2.subject?) (id : String) :
    concerning id (front ++ a :: b :: back) = concerning id (front ++ b :: a :: back) := by
  by_cases ha : a.2.subject? = some id
  · have hb : b.2.subject? ≠ some id := fun hb => ne (ha.trans hb.symm)
    simp [concerning, ha, hb]
  · simp [concerning, List.filter_cons, ha]

end Scheduler

open Scheduler

/-- A run of calls from nothing pending, each with its clock and its refusing queues, none of them a
request without an id.  What it leaves of an id, and the messages about the id that it hands over,
are the same if only the calls about the id are kept, or if neighbours about different ids change
places; and each message is about one id, which is the id of some call. -/
theorem independent (settings : Settings) (compiler : Compiler) {calls : List (Conditions × Call)}
    (explicit : ∀ p ∈ calls, p.2.Explicit) :
    (∀ id, AgreeOn settings compiler id calls (concerning id calls)) ∧
    (∀ front a b back, calls = front ++ a :: b :: back → a.2.subject? ≠ b.2.subject? →
      ∀ id, AgreeOn settings compiler id calls (front ++ b :: a :: back)) ∧
    ∀ e ∈ (performAll settings compiler .empty calls).2, ∃ id, e.IsAbout id ∧
      (∀ other, e.IsAbout other → other = id) ∧ ∃ p ∈ calls, p.2.subject? = some id := by
  have alone : ∀ calls : List (Conditions × Call), (∀ p ∈ calls, p.2.Explicit) →
      ∀ id, AgreeOn settings compiler id calls (concerning id calls) :=
    fun calls explicit id =>
      performAll_concerning settings compiler rested_empty rested_empty explicit rfl
  refine ⟨alone calls explicit, ?_, fun e he => ?_⟩
  · rintro front a b back rfl ne id
    have swapped : ∀ p ∈ front ++ b :: a :: back, p.2.Explicit := by
      intro p hp
      refine explicit p ?_
      simpa [or_left_comm] using hp
    obtain ⟨entry, messages⟩ := alone _ explicit id
    obtain ⟨entry', messages'⟩ := alone _ swapped id
    rw [concerning_swap ne] at entry messages
    exact ⟨entry.trans entry'.symm, messages.trans messages'.symm⟩
  · obtain ⟨id, isAbout, p, hp, subject⟩ :=
      exists_isAbout settings compiler rested_empty explicit e he
    exact ⟨id, isAbout, fun other h => h.unique isAbout, p, hp, subject⟩

/-- Two submissions, the queues of the one refusing, and the answer to the first step of the other;
the run agrees on the one with its own calls, and with the other order of the submissions. -/
theorem independent_of_two :
    let sum : Conditions × Call := (⟨0, ["operations.add"]⟩, .submit ⟨"a", "1+2", 1000⟩)
    let product : Conditions × Call := (⟨0, []⟩, .submit ⟨"b", "3*4", 1000⟩)
    let answer : Conditions × Call := (⟨5, []⟩, .result ⟨"b", 0, .value 12⟩)
    (∀ p ∈ [sum, product, answer], p.2.Explicit) ∧
      AgreeOn .standard Plan.compile "b" [sum, product, answer] [product, answer] ∧
      AgreeOn .standard Plan.compile "b" [sum, product, answer] [product, sum, answer] := by
  intro sum product answer
  have explicit : ∀ p ∈ [sum, product, answer], p.2.Explicit := by
    simp [sum, product, answer, Call.Explicit]
  obtain ⟨alone, swapped, -⟩ := independent .standard Plan.compile explicit
  have ne : sum.2.subject? ≠ product.2.subject? := by decide
  exact ⟨explicit, alone "b", swapped [] sum product [answer] rfl ne "b"⟩

end Stepwise
