import Stepwise.Proofs.Expr.Scanning
import Stepwise.Proofs.Service.History
import Stepwise.Proofs.Wire.RoundTrip
import Stepwise.Service.Worker

/-!
# Ids that are used again

An id may be used for another expression once it has been answered.  Answers to steps carry the id
and the number of the step and nothing else, so an answer that belongs to the earlier expression
and comes late is told from the answers of the later one by the number of its step alone:
`late_answer_ignored_iff` says when a late answer does no harm.
-/

namespace Stepwise

/-- A run can be cut between two of its turns. -/
theorem Runs.split {η : Type} {settings : Settings} {s u : Scheduler}
    {front back : List (Turn η)} (h : Runs settings s (front ++ back) u) :
    ∃ v, Runs settings s front v ∧ Runs settings v back u := by
  induction front generalizing s with
  | nil => exact ⟨s, .nil s, h⟩
  | cons turn front ih =>
    cases h with
    | cons yields rest =>
      obtain ⟨v, before, after⟩ := ih rest
      exact ⟨v, .cons yields before, after⟩

theorem Moves.eq_of_nil {settings : Settings} {id : String} {plan : Except CompileFault Plan}
    {a b : Stage} (h : Moves settings id plan a [] b) : b = a := by
  generalize hes : ([] : List Event) = es at h
  cases h with
  | refl => rfl
  | concat => simp at hes

namespace Scheduler

variable {settings : Settings} {s : Scheduler} {r : StepResponse}

/-- Once the outcome of a step is accepted, a message follows before the call is over. -/
theorem not_stands_of_took {id : String} {plan : Except CompileFault Plan} {steps : List Step}
    {xs : List Float} {step : Int} {o : Outcome} {stage : Stage}
    (moves : Moves settings id plan (.waiting xs) [.took step o] stage) :
    ¬ s.Stands id steps stage := by
  change Moves settings id plan (.waiting xs) ([] ++ .took step o :: []) stage at moves
  obtain ⟨a, b, before, move, after⟩ := moves.cut
  obtain rfl := before.eq_of_nil
  obtain rfl := after.eq_of_nil
  generalize he : Event.took step o = e at move
  intro stands
  cases move with
  | take | takeFailure => exact stands
  | _ => cases he

/-- Whatever the clock shows and the transport refuses, the answer to a step has no effects and
leaves everything as it was. -/
def Ignores (settings : Settings) (s : Scheduler) (r : StepResponse) : Prop :=
  ∀ x t (es : List (Effect Unit)), (onResult settings r).Yields s x t es →
    x = .ok () ∧ t = s ∧ es = []

/-- A section that keeps the entry at a place keeps everything. -/
theorem onEntry_self {α : Type} {place : Nat} {e : Entry} (he : s.entries[place]? = some e)
    (otherwise : α) {f : Entry → α × Entry} (hf : (f e).2 = e) :
    onEntry place otherwise f s = ((f e).1, s) := by
  obtain ⟨hlt, here⟩ := Array.getElem?_eq_some_iff.1 he
  have same : s.entries.setIfInBounds place e = s.entries := by
    rw [Array.setIfInBounds, dif_pos hlt, ← here, Array.set_getElem_self]
  rw [onEntry_eq he, hf, same]

/-- The answers that a pending expression ignores are those to other steps than the one in
flight. -/
theorem ignores_iff (sound : s.Sound) {e : Entry} {xs : List Float}
    (he : s.entryOf? r.expressionId = some e) (awaits : e.Awaits xs) :
    Ignores settings s r ↔ r.stepId ≠ xs.length := by
  constructor
  · intro ignores heq
    obtain ⟨ok, -, quiet⟩ := ignores _ _ _ (Routine.yields_run ⟨0, []⟩ (onResult settings r) s)
    have yields := Routine.yields_run ⟨0, []⟩ (onResult settings r : Action Unit Unit) s
    rw [ok] at yields
    rcases onResult_spec sound yields with ⟨none, -⟩ | ⟨e', ys, he', awaits', proceeds⟩
    · rw [he] at none
      cases none
    · obtain rfl : e' = e := Option.some.inj (he'.symm.trans he)
      obtain rfl := awaits'.unique awaits
      obtain ⟨sends, stage, hes, moves, -, stands⟩ :=
        proceeds (.ok ⟨"", [], e'.steps, none⟩) rfl
      rw [quiet, effectsOf, eq_comm, List.map_eq_nil_iff] at hes
      rw [taken_of_awaits he awaits, if_pos heq, hes] at moves
      exact not_stands_of_took moves stands
  · intro hne x t es yields
    rw [onResult, Routine.yields_atomically_bind] at yields
    obtain ⟨place, hp, entry⟩ := Option.bind_eq_some_iff.1 he
    simp only [hp, Routine.yields_now_bind, Routine.yields_atomically_bind] at yields
    obtain ⟨now, yields⟩ := yields
    have stale : advance now r e = (.nothing, e) := by
      obtain ⟨-, ⟨-, stale⟩ | ⟨heq, -⟩ | ⟨heq, -⟩⟩ := advance_spec awaits now r
      · exact stale
      · exact (hne heq).elim
      · exact (hne heq).elim
    have kept : accept now r place s = (.nothing, s) := by
      rw [accept, onEntry_self entry _ (congrArg Prod.snd stale), stale]
    rw [kept] at yields
    exact yields

/-- A run goes on after an answer that is ignored as if it had not come. -/
theorem Ignores.runs_iff (h : Ignores settings s r) {effects : List (Effect Unit)}
    {back : List (Turn Unit)} {u : Scheduler} :
    Runs settings s (⟨s, .result r, effects⟩ :: back) u ↔ effects = [] ∧ Runs settings s back u := by
  constructor
  · intro runs
    cases runs with
    | cons yields rest =>
      obtain ⟨-, rfl, quiet⟩ := h _ _ _ yields
      exact ⟨quiet, rest⟩
  · rintro ⟨rfl, rest⟩
    have yields := Routine.yields_run ⟨0, []⟩ (onResult settings r : Action Unit Unit) s
    obtain ⟨ok, same, quiet⟩ := h _ _ _ yields
    rw [ok, same, quiet] at yields
    exact .cons yields rest

end Scheduler

open Scheduler

variable {settings : Settings} {s : Scheduler}

/-- The answer of a worker is for the step that was asked for. -/
theorem Worker.ids_of_answer {own : Operation} {now : Timestamp} {q : StepRequest}
    {p : StepResponse} (h : Worker.answer own now q = .ok p) :
    p.expressionId = q.expressionId ∧ p.stepId = q.stepId := by
  rw [Worker.answer] at h
  obtain ⟨result, -, rfl⟩ := exists_of_map_ok h
  exact ⟨rfl, rfl⟩

/-- The requests in the story of an expression carry its id. -/
theorem Orderly.expressionId_of_published {id : String} {plan : Except CompileFault Plan}
    {es : List Event} (orderly : Orderly settings id plan es) {q : StepRequest}
    (hq : q ∈ Event.published es) : q.expressionId = id := by
  obtain ⟨e, he, heq⟩ := List.mem_filterMap.1 hq
  obtain ⟨front, back, rfl⟩ := List.append_of_mem he
  cases e with
  | took | aborted => cases heq
  | sent what accepted =>
    cases what with
    | response r => cases heq
    | request queue r =>
      cases accepted with
      | false => cases heq
      | true =>
        cases heq
        obtain ⟨-, -, xs, -, step, -, hid, -⟩ := orderly.request _ _ _ _ _ rfl
        exact hid

/-- An expression that is pending at the end of a run, with the turns since it was accepted, has an
entry that waits. -/
theorem exists_awaits_of_runs {before since : List (Turn Unit)} {turn : Turn Unit}
    {r : ExpressionRequest} (h : Runs settings .empty (before ++ turn :: since) s)
    (accepts : turn.Accepts r)
    (latest : ∀ t ∈ since, ∀ r', t.Accepts r' → r'.expressionId ≠ r.expressionId)
    (pending : s.isPending r.expressionId = true) :
    ∃ e xs, s.entryOf? r.expressionId = some e ∧
      e.steps = stepsOf (Plan.compile r.expression) ∧ e.Awaits xs := by
  have sound := h.sound sound_empty
  obtain ⟨v, before, yields, after⟩ := h.cut
  obtain ⟨sound', goes⟩ := goes_of_call (before.sound sound_empty) yields
  obtain ⟨es, stage, -, -, stands⟩ := moves_of_accepts (before.sound sound_empty) goes accepts
  obtain ⟨fs, stage', -, -, stands'⟩ := moves_of_runs after sound' stands latest
  cases stage' with
  | waiting xs =>
    obtain ⟨e, he, hsteps, awaits⟩ := stands'
    exact ⟨e, xs, he, hsteps, awaits⟩
  | ended xs =>
    rw [sound.isPending_eq_false.2 stands'] at pending
    cases pending
  | ready xs | stuck xs | failed xs f => exact stands'.elim

/-- A run accepts an expression, and later accepts another one of the same id, which is pending at
its end.  A worker's answer to a step of the earlier expression is ignored there, and the run goes
on as if it had not come, exactly when the step has another number than the one that the later
expression waits for. -/
theorem late_answer_ignored_iff {before own between since : List (Turn Unit)}
    {first second : Turn Unit} {r₁ r₂ : ExpressionRequest}
    (h : Runs settings .empty (before ++ first :: own ++ between ++ second :: since) s)
    (accepts₁ : first.Accepts r₁) (accepts₂ : second.Accepts r₂)
    (reused : r₂.expressionId = r₁.expressionId)
    (earlier : ∀ t ∈ own, ∀ r, t.Accepts r → r.expressionId ≠ r₁.expressionId)
    (later : ∀ t ∈ since, ∀ r, t.Accepts r → r.expressionId ≠ r₂.expressionId)
    (pending : s.isPending r₂.expressionId = true) :
    ∃ es e, Tells settings r₁.expressionId (first :: own) es ∧
      Orderly settings r₁.expressionId (Plan.compile r₁.expression) es ∧
      s.entryOf? r₂.expressionId = some e ∧ e.steps = stepsOf (Plan.compile r₂.expression) ∧
      ∀ q ∈ Event.published es, ∀ worker now p, Worker.answer worker now q = .ok p →
        (Ignores settings s p ↔ q.stepId ≠ e.results.length) ∧
        (q.stepId ≠ e.results.length → ∀ effects (back : List (Turn Unit)) u,
          Runs settings s (⟨s, .result p, effects⟩ :: back) u ↔
            effects = [] ∧ Runs settings s back u) := by
  have sound := h.sound sound_empty
  obtain ⟨e, xs, he, hsteps, awaits⟩ := exists_awaits_of_runs h accepts₂ later pending
  -- The story of the earlier expression up to the turns between the two.
  rw [List.append_assoc, List.append_assoc, List.cons_append] at h
  obtain ⟨v, prior, yields, rest⟩ := h.cut
  obtain ⟨sound₁, goes⟩ := goes_of_call (prior.sound sound_empty) yields
  obtain ⟨es, stage, tells, moves, stands⟩ :=
    moves_of_accepts (prior.sound sound_empty) goes accepts₁
  obtain ⟨w, rest, -⟩ := rest.split
  obtain ⟨fs, stage', tells', moves', -⟩ := moves_of_runs rest sound₁ stands earlier
  have orderly := orderly_of_moves (moves.append moves')
  refine ⟨es ++ fs, e, .cons tells tells', orderly, he, hsteps, ?_⟩
  intro q hq worker now p answered
  obtain ⟨hid, hstep⟩ := Worker.ids_of_answer answered
  rw [orderly.expressionId_of_published hq, ← reused] at hid
  rw [← hid] at he
  have ignores : Ignores settings s p ↔ p.stepId ≠ xs.length := ignores_iff sound he awaits
  have length : e.results.length = xs.length := by rw [awaits.results, length_recorded]
  rw [hstep, ← length] at ignores
  exact ⟨ignores, fun hne _ _ _ => (ignores.2 hne).runs_iff⟩

/-! ### A sum that answers a product -/

/-- What a call does on a clock at zero, over a transport that accepts everything. -/
def Scheduler.Call.trial (settings : Settings) (call : Call) (s : Scheduler) :
    Run Scheduler Unit Unit :=
  (call.routine settings).run ⟨0, []⟩ s

/-- The turns of such calls. -/
def turnsFrom (settings : Settings) (s : Scheduler) : List Call → List (Turn Unit)
  | [] => []
  | call :: rest =>
    ⟨s, call, (call.trial settings s).effects⟩ ::
      turnsFrom settings (call.trial settings s).state rest

/-- The scheduler after such calls. -/
def afterCalls (settings : Settings) (s : Scheduler) : List Call → Scheduler
  | [] => s
  | call :: rest => afterCalls settings (call.trial settings s).state rest

/-- Whether such calls come to their ends. -/
def allReturn (settings : Settings) (s : Scheduler) : List Call → Bool
  | [] => true
  | call :: rest =>
    (call.trial settings s).result.isOk && allReturn settings (call.trial settings s).state rest

theorem runs_turnsFrom {calls : List Call} (ok : allReturn settings s calls = true) :
    Runs settings s (turnsFrom settings s calls) (afterCalls settings s calls) := by
  induction calls generalizing s with
  | nil => exact .nil s
  | cons call rest ih =>
    rw [allReturn, Bool.and_eq_true] at ok
    exact .cons (Routine.yields_of_isOk ⟨0, []⟩ ok.1) (ih ok.2)

/-- The request for the sum. -/
def sumStep : StepRequest := ⟨"a", 0, .add, 1, 2, 1000, ⟨2024, 1, 1, 0, 0, 0, 0, some 0⟩⟩

/-- The answer to it. -/
def sumOutcome : StepResponse := ⟨"a", 0, .value 3⟩

theorem decode_sumStep (now : Timestamp) : StepRequest.decode sumStep.body now = .ok sumStep :=
  StepRequest.decode_body (r := sumStep) (by decide +kernel) (by decide +kernel)
    (by decide : (Nat.toDigits 10 0).length ≤ 4300) (by decide : (Nat.toDigits 10 1000).length ≤ 4300)
    ⟨by decide, by decide, by decide, by decide, by decide, by decide, by decide⟩ (by decide) now

theorem answer_sumStep : Worker.answer .add sumStep.issuedAt sumStep = .ok sumOutcome := by
  have inTime : Worker.isExpired sumStep.issuedAt sumStep = .ok false := rfl
  have sum : (1 : Float) + 2 = 3 := by decide +kernel
  have finite : Decimal.isFinite 3 = true := by decide +kernel
  have executed : Operation.add.execute 1 2 = .ok 3 := by
    simp [Operation.execute, Operation.apply, sum, finite]
  rw [Worker.answer, Worker.perform, if_neg (by decide), inTime]
  simp only [sumStep, executed]
  rfl

/-- A sum is computed under an id, and a product is submitted under the same id. -/
def sumThenProduct : List Call :=
  [.submit ⟨"a", "1+2", 1000⟩, .result sumOutcome, .submit ⟨"a", "10*20", 1000⟩]

theorem allReturn_sumThenProduct :
    allReturn .standard .empty sumThenProduct = true ∧
      (afterCalls .standard .empty sumThenProduct).isPending "a" = true ∧
      (afterCalls .standard .empty (sumThenProduct.take 2)).isPending "a" = false := by
  decide +kernel

theorem late_answer_of_sum_then_product :
    ∃ first answer second s, turnsFrom .standard .empty sumThenProduct = [first, answer, second] ∧
      Runs .standard .empty [first, answer, second] s ∧
      first.Accepts ⟨"a", "1+2", 1000⟩ ∧ second.Accepts ⟨"a", "10*20", 1000⟩ ∧
      s.isPending "a" = true ∧
      ∃ es e, Tells .standard "a" [first, answer] es ∧
        Orderly .standard "a" (Plan.compile "1+2") es ∧
        s.entryOf? "a" = some e ∧ e.steps = stepsOf (Plan.compile "10*20") ∧
        ∀ q ∈ Event.published es, ∀ worker now p, Worker.answer worker now q = .ok p →
          (Ignores .standard s p ↔ q.stepId ≠ e.results.length) ∧
          (q.stepId ≠ e.results.length → ∀ effects (back : List (Turn Unit)) u,
            Runs .standard s (⟨s, .result p, effects⟩ :: back) u ↔
              effects = [] ∧ Runs .standard s back u) := by
  obtain ⟨returns, pending, free⟩ := allReturn_sumThenProduct
  have runs := runs_turnsFrom returns
  refine ⟨_, _, _, _, rfl, runs, ⟨rfl, rfl⟩, ⟨rfl, free⟩, pending, ?_⟩
  refine @late_answer_ignored_iff .standard _ [] [_] [] [] _ _ ⟨"a", "1+2", 1000⟩
    ⟨"a", "10*20", 1000⟩ runs ⟨rfl, rfl⟩ ⟨rfl, free⟩ rfl ?_ nofun pending
  intro t ht r accepts
  rw [List.mem_singleton.1 ht] at accepts
  exact nomatch accepts.1

/-- The answer to the sum, delivered once more while the product is pending, is taken for the
product: the id is answered with it. -/
theorem late_sum_answers_product :
    ∃ first answer second s, turnsFrom .standard .empty sumThenProduct = [first, answer, second] ∧
      Runs .standard .empty [first, answer, second] s ∧
      first.Accepts ⟨"a", "1+2", 1000⟩ ∧ second.Accepts ⟨"a", "10*20", 1000⟩ ∧
      s.isPending "a" = true ∧
      (∃ queue, Effect.published ⟨queue, sumStep.body⟩ ∈ first.effects) ∧
      Worker.answer .add sumStep.issuedAt sumStep = .ok sumOutcome ∧
      ¬ Ignores .standard s sumOutcome ∧
      ((Call.result sumOutcome).trial .standard s).published.map (·.body) =
        [(ExpressionResponse.mk "a" (.value 3)).body] := by
  obtain ⟨returns, pending, free⟩ := allReturn_sumThenProduct
  have late : ((Call.result sumOutcome).trial .standard
      (afterCalls .standard .empty sumThenProduct)).published.map (·.body) =
        [(ExpressionResponse.mk "a" (.value 3)).body] := by decide +kernel
  have asked : ((Call.submit ⟨"a", "1+2", 1000⟩).trial .standard .empty).published.map (·.body) =
      [sumStep.body] := by decide +kernel
  refine ⟨_, _, _, _, rfl, runs_turnsFrom returns, ⟨rfl, rfl⟩, ⟨rfl, free⟩, pending, ?_,
    answer_sumStep, ?_, late⟩
  · obtain ⟨m, hm, body⟩ := List.map_eq_singleton_iff.1 asked
    have mem : m ∈ Run.published _ := hm ▸ List.mem_singleton_self m
    obtain ⟨e, he, heq⟩ := List.mem_filterMap.1 mem
    cases e with
    | published m' =>
      cases heq
      exact ⟨m.queue, body ▸ he⟩
    | _ => cases heq
  · intro ignores
    obtain ⟨-, -, quiet⟩ := ignores _ _ _ (Routine.yields_run ⟨0, []⟩ _ _)
    rw [Run.published, Call.trial, Call.routine, quiet] at late
    cases late

end Stepwise
