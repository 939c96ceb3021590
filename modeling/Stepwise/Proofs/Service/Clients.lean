import Mathlib.Data.Fin.VecNotation
import Stepwise.Proofs.Text.Digits
import Stepwise.Proofs.Transport.Invariant
import Stepwise.Proofs.Wire.RoundTrip
import Stepwise.Service.Client

/-!
# Several clients on one transport

Clients with different names issue different ids (`idOf_inj`), and each of them waits only under ids
of its own (`Own`), so a response is for one client at most (`eq_of_awaits`).  But all of them
listen to the same queue, and the transport hands each message to one of its listeners.  If that is
the client that waits, the response resolves its ticket for good; any other client acknowledges the
response and leaves everything as it is (`response_of_delivery`).
-/

namespace Stepwise

open Stepwise.Text (Body)

namespace Client

variable {ι κ η α : Type} {settings : Settings} {name id : String} {c d : Client} {place : Nat}
variable {r : ExpressionResponse} {t : Ticket}

/-! ## Ids -/

/-- The number of an id is the digits at its end. -/
theorem idOf_inj {name' : String} {m n : Nat} (h : idOf name m = idOf name' n) :
    name = name' ∧ m = n := by
  have digits (k : Nat) : ∀ c ∈ (Nat.toDigits 10 k).reverse, Text.isDigit c = true :=
    fun c mem => Text.isDigit_of_mem_toDigits (List.mem_reverse.1 mem)
  have split (text : String) (k : Nat) : (idOf text k).toList.reverse =
      (Nat.toDigits 10 k).reverse ++ '_' :: (text ++ "_expr").toList.reverse := by
    simp [idOf, Nat.repr]
  have underscore (text : String) :
      ∀ c ∈ ('_' :: (text ++ "_expr").toList.reverse).head?, Text.isDigit c = false := by
    simp [Text.isDigit]
  have number := congrArg (fun id : String => id.toList.reverse.takeWhile Text.isDigit) h
  have front := congrArg (fun id : String => id.toList.reverse.dropWhile Text.isDigit) h
  simp only [split, Text.takeWhile_isDigit (digits _) _ (underscore _), List.reverse_inj] at number
  simp only [split, Text.dropWhile_isDigit (digits _) _ (underscore _)] at front
  constructor
  · exact String.toList_inj.1 (by simpa using front)
  · rw [← Text.digitsValue_toDigits m, ← Text.digitsValue_toDigits n, number]

/-! ## One client -/

/-- A client waits only under ids of its own. -/
structure Own (name : String) (c : Client) : Prop where
  clientId : c.clientId = name
  waiting : ∀ p ∈ c.waiting, ∃ n, p.1 = idOf name n

/-- Responses that have come stay. -/
def Retains (c d : Client) : Prop :=
  ∀ (place : Nat) (r : ExpressionResponse),
    c.responses[place]? = some (some r) → d.responses[place]? = some (some r)

/-- A client waits for the response of a ticket. -/
def Awaits (c : Client) (t : Ticket) : Prop := c.waiting.lookup t.expressionId = some t.place

theorem own_named (name : String) : Own name (named name) := ⟨rfl, nofun⟩

theorem Own.nextId (own : c.Own name) : (c.nextId).2.Own name := ⟨own.clientId, own.waiting⟩

theorem Own.register (own : c.Own name) (n : Nat) : (c.register (idOf name n)).2.Own name := by
  refine ⟨own.clientId, fun p mem => ?_⟩
  rcases List.mem_cons.1 mem with rfl | old
  · exact ⟨n, rfl⟩
  · exact own.waiting p (List.mem_filter.1 old).1

theorem Own.unregister (own : c.Own name) (id : String) : (c.unregister id).2.Own name :=
  ⟨own.clientId, fun p mem => own.waiting p (List.mem_filter.1 mem).1⟩

/-- What resolving does: it succeeds once, and touches nothing but the response. -/
theorem resolve_spec (place : Nat) (r : ExpressionResponse) (c : Client) :
    (c.resolve place r).2.clientId = c.clientId ∧ (c.resolve place r).2.waiting = c.waiting ∧
      c.Retains (c.resolve place r).2 ∧
      ((c.resolve place r).1 = .ok () →
        (c.resolve place r).2.responses[place]? = some (some r)) := by
  rw [resolve]
  split
  · next unresolved =>
    refine ⟨rfl, rfl, fun place' r' there => ?_, fun _ => ?_⟩
    · have ne : place ≠ place' := by
        rintro rfl
        cases unresolved.symm.trans there
      exact (Array.getElem?_setIfInBounds_ne ne).trans there
    · obtain ⟨bound, -⟩ := Array.getElem?_eq_some_iff.1 unresolved
      exact Array.getElem?_setIfInBounds_self_of_lt bound
  · exact ⟨rfl, rfl, fun _ _ there => there, nofun⟩

theorem Own.resolve (own : c.Own name) (place : Nat) (r : ExpressionResponse) :
    (c.resolve place r).2.Own name := by
  obtain ⟨clientId, waiting, -, -⟩ := resolve_spec place r c
  exact ⟨clientId.trans own.clientId, waiting ▸ own.waiting⟩

theorem retains_register (id : String) (c : Client) : c.Retains (c.register id).2 := by
  intro place r there
  obtain ⟨bound, -⟩ := Array.getElem?_eq_some_iff.1 there
  change (c.responses.push none)[place]? = _
  rw [Array.getElem?_push, if_neg (Nat.ne_of_lt bound)]
  exact there

theorem retains_self (c : Client) : c.Retains c := fun _ _ there => there

theorem Own.exists_idOf (own : c.Own name) (awaits : c.Awaits t) :
    ∃ n, t.expressionId = idOf name n := by
  obtain ⟨front, back, waiting, -⟩ := List.lookup_eq_some_iff.1 awaits
  exact own.waiting (t.expressionId, t.place) (by rw [waiting]; simp)

/-- A client that does not wait under an id is not changed when it stops to. -/
theorem unregister_of_lookup (h : c.waiting.lookup id = none) : c.unregister id = (none, c) := by
  have all : c.waiting.filter (·.1 != id) = c.waiting :=
    List.filter_eq_self.2 fun p mem => by
      rw [bne_comm]
      exact List.lookup_eq_none_iff.1 h p mem
  rw [unregister, h, all]

/-! ## What a client does -/

/-- Something that a client is called for: by its owner, or by the transport with a delivery. -/
inductive Task where
  | start
  | stop
  | send (expression : String) (deadlineMs : Option Int)
  | wait (t : Ticket)
  | evaluate (expression : String) (deadlineMs : Option Int)
  | deliver (body : Body)

/-- What a task does; the client subscribes under its own name. -/
def Task.routine (settings : Settings) (me : η) : Task → Routine Client η Unit
  | start => Client.start settings me
  | stop => Client.stop settings
  | send expression deadlineMs => Client.send settings expression deadlineMs >>= fun _ => pure ()
  | wait t => Client.wait settings t >>= fun _ => pure ()
  | evaluate expression deadlineMs =>
    Client.evaluate settings expression deadlineMs >>= fun _ => pure ()
  | deliver body => onDelivery body

theorem guarantees_send (settings : Settings) (expression : String) (deadlineMs : Option Int) :
    (send settings expression deadlineMs : Routine Client η Ticket).Guarantees
      (Own name) Retains := by
  refine Routine.guarantees_atomically_bind.2 fun c own =>
    ⟨own.nextId, retains_self c, ?_⟩
  have issued : (c.nextId).1 = idOf name (c.issued + 1) := by rw [nextId, own.clientId]
  refine Routine.guarantees_atomically_bind.2 fun d own =>
    ⟨issued ▸ own.register _, retains_register _ d, ?_⟩
  refine (Routine.guarantees_tryPublish _).bind fun answer => ?_
  split
  · exact Routine.guarantees_pure _
  · exact Routine.guarantees_atomically_bind.2 fun d own =>
      ⟨own.unregister _, retains_self d, trivial⟩

theorem guarantees_wait (settings : Settings) (t : Ticket) :
    (wait settings t : Routine Client η ExpressionResponse).Guarantees (Own name) Retains := by
  rw [wait]
  split
  · trivial
  · refine Routine.guarantees_atomically_bind.2 fun c own => ⟨own, retains_self c, ?_⟩
    split
    · exact Routine.guarantees_pure _
    · split
      · trivial
      · exact Routine.guarantees_atomically_bind.2 fun d own =>
          ⟨own.unregister _, retains_self d, trivial⟩

theorem guarantees_onDelivery (body : Body) :
    (onDelivery body : Routine Client η Unit).Guarantees (Own name) Retains := by
  rw [onDelivery]
  split
  · exact Routine.guarantees_settled _
  · refine Routine.guarantees_atomically_bind.2 fun c own =>
      ⟨own.unregister _, retains_self c, ?_⟩
    split
    · exact Routine.guarantees_settled _
    · refine Routine.guarantees_atomically_bind.2 fun d own =>
        ⟨own.resolve _ _, (resolve_spec _ _ d).2.2.1, ?_⟩
      split
      · trivial
      · exact Routine.guarantees_settled _

theorem guarantees_task (settings : Settings) (me : η) (task : Task) :
    (task.routine settings me).Guarantees (Own name) Retains := by
  cases task with
  | start =>
    refine (Routine.guarantees_listen _ _).bind fun _ => ?_
    exact Routine.guarantees_atomically fun c own =>
      ⟨⟨own.clientId, own.waiting⟩, retains_self c⟩
  | stop =>
    refine Routine.guarantees_atomically_bind.2 fun c own =>
      ⟨⟨own.clientId, own.waiting⟩, retains_self c, ?_⟩
    split <;> trivial
  | send expression deadlineMs =>
    exact (guarantees_send _ _ _).bind fun _ => Routine.guarantees_pure _
  | wait t => exact (guarantees_wait _ _).bind fun _ => Routine.guarantees_pure _
  | evaluate expression deadlineMs =>
    refine ((guarantees_send _ _ _).bind fun t => ?_).bind fun _ => Routine.guarantees_pure _
    exact guarantees_wait _ t
  | deliver body => exact guarantees_onDelivery body

/-! ## Several clients -/

/-- A routine of one of several clients. -/
def among [DecidableEq ι] (i : ι) : Routine Client η α → Routine (ι → Client) η α :=
  Routine.within (· i) fun c clients => Function.update clients i c

/-- Tasks that have not begun, of clients that have sent nothing. -/
def Task.pool [DecidableEq ι] (settings : Settings) (names : ι → String) (tasks : κ → ι × Task) :
    Pool κ (ι → Client) ι Unit where
  threads k := among (tasks k).1 ((tasks k).2.routine settings (tasks k).1)
  state i := .named (names i)

/-- Two clients do not wait for the same response. -/
theorem eq_of_awaits {names : ι → String} (distinct : Function.Injective names)
    {clients : ι → Client} (own : ∀ i, (clients i).Own (names i)) {i j : ι} {t t' : Ticket}
    (hi : (clients i).Awaits t) (hj : (clients j).Awaits t')
    (same : t.expressionId = t'.expressionId) : i = j := by
  obtain ⟨m, hm⟩ := (own i).exists_idOf hi
  obtain ⟨n, hn⟩ := (own j).exists_idOf hj
  exact distinct (idOf_inj (hm.symm.trans (same.trans hn))).1

variable [DecidableEq ι]

theorem guarantees_among {names : ι → String} {i : ι} {routine : Routine Client η α}
    (h : routine.Guarantees (Own (names i)) Retains) :
    (among i routine).Guarantees (fun clients => ∀ i, (clients i).Own (names i))
      fun clients clients' => ∀ i, (clients i).Retains (clients' i) := by
  refine h.within (fun clients own => own i) fun c clients own owns retains => ?_
  constructor
  · exact (Function.forall_update_iff clients fun i c => c.Own (names i)).2
      ⟨owns, fun j _ => own j⟩
  · exact (Function.forall_update_iff clients fun i c => (clients i).Retains c).2
      ⟨retains, fun j _ => retains_self _⟩

/-! ## Deliveries -/

/-- The tick at which a handler acknowledges its delivery. -/
def Acknowledges (tick : Tick κ (ι → Client) η) : Prop := tick.effect = some (.settled .ack)

instance (tick : Tick κ (ι → Client) η) : Decidable (Acknowledges tick) :=
  decidable_of_iff ((tick.effect matches some (.settled .ack)) = true) <| by
    rw [Acknowledges]
    split
    · next effect => exact iff_of_true rfl effect
    · next other => exact iff_of_false Bool.false_ne_true other

variable {i : ι} {body : Body} {look : Tick κ (ι → Client) η}
variable {ticks : List (Tick κ (ι → Client) η)} {left : Routine (ι → Client) η Unit}

/-- A client's routine that goes on with a section of its own. -/
theorem section_of_performs {f : Client → α × Client} {next : α → Routine Client η Unit}
    (h : (among i (Routine.atomically f >>= next)).Performs (look :: ticks) left) :
    look.effect = none ∧ look.after = Function.update look.before i (f (look.before i)).2 ∧
      (among i (next (f (look.before i)).1)).Performs ticks left := by
  obtain ⟨rest, acts, performs⟩ := h
  obtain ⟨effect, rfl, after⟩ := Routine.acts_critical_iff.1 acts
  exact ⟨effect, after, performs⟩

/-- A response that the client does not wait for is acknowledged, and that is all. -/
theorem delivery_of_none (decoded : ExpressionResponse.decode body = .ok r)
    (h : (among i (onDelivery body)).Performs (look :: ticks) left)
    (unknown : (look.before i).waiting.lookup r.expressionId = none) :
    ∀ tick ∈ look :: ticks,
      tick.after = tick.before ∧ (tick.effect = none ∨ Acknowledges tick) := by
  rw [onDelivery, decoded] at h
  obtain ⟨effect, after, rest⟩ := section_of_performs h
  rw [unregister_of_lookup unknown] at after rest
  rw [Function.update_eq_self] at after
  rw [List.forall_mem_cons]
  exact ⟨⟨after, Or.inl effect⟩, fun tick mem =>
    (Routine.eq_of_performs_settled rest tick mem).imp id Or.inr⟩

/-- A response that the client waits for has been put in its place when it is acknowledged. -/
theorem delivery_of_some (decoded : ExpressionResponse.decode body = .ok r)
    (h : (among i (onDelivery body)).Performs (look :: ticks) left)
    (waits : (look.before i).waiting.lookup r.expressionId = some place)
    (acked : ∃ tick ∈ look :: ticks, Acknowledges tick) :
    ∃ tick ∈ ticks, (tick.after i).responses[place]? = some (some r) := by
  rw [onDelivery, decoded] at h
  obtain ⟨effect, -, rest⟩ := section_of_performs h
  have found : ((look.before i).unregister r.expressionId).1 = some place := waits
  rw [found] at rest
  obtain ⟨tick, mem, acks⟩ := acked
  rcases List.mem_cons.1 mem with rfl | mem
  · cases effect.symm.trans acks
  cases ticks with
  | nil => cases mem
  | cons second ticks =>
    obtain ⟨effect, after, rest⟩ := section_of_performs rest
    rcases List.mem_cons.1 mem with rfl | mem
    · cases effect.symm.trans acks
    refine ⟨second, List.mem_cons_self, ?_⟩
    rw [after, Function.update_self]
    -- Had the place been taken, the handler would have stopped before it came to the settlement.
    refine (resolve_spec place r (second.before i)).2.2.2 ?_
    cases resolved : ((second.before i).resolve place r).1 with
    | ok => rfl
    | error fault =>
      rw [resolved] at rest
      obtain rfl := Routine.eq_nil_of_performs (x := .error fault) rest
      cases mem

end Client

open Client

variable {ι κ : Type} [DecidableEq ι] [DecidableEq κ] {settings : Settings} {names : ι → String}
variable {tasks : κ → ι × Client.Task} {q : Pool κ (ι → Client) ι Unit}
variable {run : List (Tick κ (ι → Client) ι)} {look : Tick κ (ι → Client) ι}

/-- Any number of clients with different names, their tasks interleaved in any way, and the delivery
of a response while a client waits for it.  If the response is handed to this client, then it has
resolved the ticket for good once it is acknowledged.  If it is handed to another one, the delivery
is acknowledged but changes no client, so the first client waits on. -/
theorem response_of_delivery (distinct : Function.Injective names)
    (h : Interleaves (Client.Task.pool settings names tasks) run q) {k : κ} {i j : ι} {body : Body}
    {r : ExpressionResponse} {t : Ticket} (delivery : tasks k = (i, .deliver body))
    (decoded : ExpressionResponse.decode body = .ok r)
    (first : run.find? (·.thread = k) = some look) (awaits : (look.before j).Awaits t)
    (about : t.expressionId = r.expressionId)
    (acked : ∃ tick ∈ run, tick.thread = k ∧ Acknowledges tick) :
    (i = j → (q.state j).response? t = some r) ∧
      (i ≠ j → ∀ tick ∈ run, tick.thread = k →
        tick.after = tick.before ∧ (tick.effect = none ∨ Acknowledges tick)) := by
  obtain ⟨-, -, states⟩ := h.guarantees (fun clients i => retains_self (clients i))
    (fun s t u st tu i place r there => tu i place r (st i place r there))
    (fun i => own_named (names i)) fun k => guarantees_among (guarantees_task settings _ _)
  have performs := h.performs k
  rw [← List.head?_filter] at first
  obtain ⟨ticks, own_ticks⟩ := List.head?_eq_some_iff.1 first
  change (among (tasks k).1 _).Performs _ _ at performs
  rw [own_ticks, delivery] at performs
  have mem_iff (tick) : tick ∈ look :: ticks ↔ tick ∈ run ∧ tick.thread = k := by
    rw [← own_ticks, List.mem_filter, decide_eq_true_iff]
  constructor
  · rintro rfl
    rw [Awaits, about] at awaits
    obtain ⟨tick, mem, there⟩ := delivery_of_some decoded performs awaits
      (acked.imp fun tick h => ⟨(mem_iff tick).2 ⟨h.1, h.2.1⟩, h.2.2⟩)
    have resolved := (states tick ((mem_iff tick).1 (List.mem_cons_of_mem _ mem)).1).2
    rw [response?, resolved _ _ _ there]
    rfl
  · intro ne tick mem thread
    refine delivery_of_none decoded performs ?_ tick ((mem_iff tick).2 ⟨mem, thread⟩)
    by_contra waits
    obtain ⟨place, waits⟩ := Option.ne_none_iff_exists'.1 waits
    have owns := (states look ((mem_iff look).1 List.mem_cons_self).1).1
    exact ne (eq_of_awaits distinct owns (t := ⟨r.expressionId, 0, place⟩) waits awaits about.symm)

/-- The answer to the first expression of a client. -/
def firstResponse : ExpressionResponse := ⟨"A_expr_1", .value 3⟩

/-- The ticket of the first expression of a client. -/
def firstTicket : Ticket := ⟨"A_expr_1", 30000, 0⟩

/-- Two clients that listen for responses, an expression of the first one, and the delivery of its
response to one of the two. -/
def twoClients (i : Fin 2) : Pool (Fin 4) (Fin 2 → Client) (Fin 2) Unit :=
  Client.Task.pool .standard !["A", "B"]
    ![(0, .start), (1, .start), (0, .send "1+2" none), (i, .deliver firstResponse.body)]

/-- One task of the two clients after the other. -/
def handedTo (i : Fin 2) : List (Tick (Fin 4) (Fin 2 → Client) (Fin 2)) ×
    Pool (Fin 4) (Fin 2 → Client) (Fin 2) Unit :=
  (twoClients i).play ⟨0, []⟩ [0, 0, 1, 1, 2, 2, 2, 3, 3, 3]

theorem interleaves_handedTo (i : Fin 2) :
    Interleaves (twoClients i) (handedTo i).1 (handedTo i).2 := by
  have run : Interleaves (twoClients i) ([] ++ (handedTo i).1) (handedTo i).2 :=
    Interleaves.start.play ⟨0, []⟩ _
  rw [List.nil_append] at run
  exact run

theorem decode_firstResponse :
    ExpressionResponse.decode firstResponse.body = .ok firstResponse :=
  ExpressionResponse.decode_body (by decide +kernel : Decimal.isFinite 3 = true)

/-- The first client waits when the delivery begins, whoever gets it. -/
theorem exists_look_handedTo (i : Fin 2) :
    ∃ look, (handedTo i).1.find? (·.thread = 3) = some look ∧
      (look.before 0).Awaits firstTicket ∧ ∀ j, (look.before j).listening = true := by
  have looks : ∀ i, ∃ look ∈ (handedTo i).1.find? (·.thread = 3),
      (look.before 0).waiting.lookup firstTicket.expressionId = some firstTicket.place ∧
        ∀ j, (look.before j).listening = true := by decide +kernel
  exact looks i

/-- On the delivery to the client that waits. -/
theorem response_of_delivery_to_first :
    Interleaves (twoClients 0) (handedTo 0).1 (handedTo 0).2 ∧
      (∃ look, (handedTo 0).1.find? (·.thread = 3) = some look ∧
        (look.before 0).Awaits firstTicket) ∧
      (∃ tick ∈ (handedTo 0).1, tick.thread = 3 ∧ Acknowledges tick) ∧
      ((handedTo 0).2.state 0).response? firstTicket = some firstResponse := by
  obtain ⟨look, first, awaits, -⟩ := exists_look_handedTo 0
  have acked : ∃ tick ∈ (handedTo 0).1, tick.thread = 3 ∧ Acknowledges tick := by decide +kernel
  have distinct : Function.Injective !["A", "B"] := by decide
  exact ⟨interleaves_handedTo 0, ⟨look, first, awaits⟩, acked,
    (response_of_delivery distinct (interleaves_handedTo 0) rfl decode_firstResponse first awaits
      rfl acked).1 rfl⟩

/-- A response that is handed to another client is acknowledged, and the client that it is for
never gets it, although both of them listen. -/
theorem response_of_first_is_lost :
    Function.Injective !["A", "B"] ∧ Interleaves (twoClients 1) (handedTo 1).1 (handedTo 1).2 ∧
      ExpressionResponse.decode firstResponse.body = .ok firstResponse ∧
      (∃ look, (handedTo 1).1.find? (·.thread = 3) = some look ∧
        (look.before 0).Awaits firstTicket ∧ ∀ j, (look.before j).listening = true) ∧
      (∃ tick ∈ (handedTo 1).1, tick.thread = 3 ∧ Acknowledges tick) ∧
      ((handedTo 1).2.state 0).waiting.lookup firstTicket.expressionId = some firstTicket.place ∧
      ((handedTo 1).2.state 0).response? firstTicket = none :=
  ⟨by decide, interleaves_handedTo 1, decode_firstResponse, exists_look_handedTo 1,
    by decide +kernel, by decide +kernel, Option.isNone_iff_eq_none.1 (by decide +kernel)⟩

end Stepwise
