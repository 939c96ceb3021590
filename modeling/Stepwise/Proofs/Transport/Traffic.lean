import Stepwise.Transport.Broker

/-!
# Traffic over a broker

Many threads use one broker at once, and each of them goes through several sections to publish or
to settle one message.  `Traffic` is a broker together with what its threads hold: the deliveries
they were given and the calls they are in the middle of.  A `Deed` is the smallest thing that one of
them does; between any two deeds of one thread the others may do any number of theirs.

Every published message gets a number, so that it can be told from an equal one.  The broker knows
nothing of the numbers: it takes and gives out the messages alone, and `Traffic.waiting` keeps the
numbers of those that it holds.

A routine that is performed at a stretch is one of the many ways in which deeds can follow each
other (`exists_performed`, `exists_drained`).
-/

namespace Stepwise

open Stepwise.Text (Body)

/-- Messages are the same if their queues and their bytes are. -/
instance : DecidableEq Message := fun a b =>
  have := ByteArray.instDecidableEq a.body b.body
  decidable_of_iff (a.queue = b.queue ∧ a.body = b.body) (by cases a; cases b; simp)

namespace Broker

variable {σ η α : Type}

/-! ## What is stored under a key -/

theorem lookup_alter {β : Type} (key k : String) (f : β → β) (otherwise : β)
    (l : List (String × β)) :
    (alter key f otherwise l).lookup k =
      if k = key then some (f ((l.lookup key).getD otherwise)) else l.lookup k := by
  induction l with
  | nil =>
    by_cases h : k = key
    · simp [alter, h]
    · simp [alter, List.lookup_cons, h, beq_false_of_ne h]
  | cons p rest ih =>
    obtain ⟨k', v⟩ := p
    by_cases hkey : k' = key
    · subst hkey
      by_cases h : k = k'
      · simp [alter, h]
      · simp [alter, List.lookup_cons, h, beq_false_of_ne h]
    · rw [alter, if_neg (by simpa using hkey), List.lookup_cons, ih, List.lookup_cons,
        List.lookup_cons, beq_false_of_ne (Ne.symm hkey)]
      by_cases h : k = k'
      · subst h
        simp [hkey]
      · rw [beq_false_of_ne h]

theorem alter_alter_id {β : Type} (key : String) (f : β → β) (otherwise : β)
    (l : List (String × β)) :
    alter key f otherwise (alter key id otherwise l) = alter key f otherwise l := by
  induction l with
  | nil => simp [alter]
  | cons p rest ih =>
    obtain ⟨k, v⟩ := p
    by_cases h : k = key
    · simp [alter, h]
    · simp [alter, h, ih]

/-- The bodies that wait in a queue, oldest first. -/
def line (b : Broker η) (queue : String) : List Body :=
  (b.waiting.lookup queue).getD []

theorem depth_eq (b : Broker η) (queue : String) : b.depth queue = (b.line queue).length := rfl

theorem take?_eq_some {b b' : Broker η} {queue : String} {m : Message}
    (h : b.take? queue = some (m, b')) :
    m.queue = queue ∧ b.line queue = m.body :: b'.line queue ∧
      (∀ q, q ≠ queue → b'.line q = b.line q) ∧ b'.unsettled = b.unsettled ∧ b'.dead = b.dead := by
  unfold take? at h
  split at h
  · next body rest found =>
    cases h
    refine ⟨rfl, ?_, ?_, rfl, rfl⟩
    · simp [line, lookup_alter, found]
    · intro q hq
      simp [line, lookup_alter, hq]
  · cases h

theorem exists_take?_of_ready? {b b' : Broker η} {consumers : List (Consumer η)} {handler : η}
    {m : Message} (h : b.ready? consumers = some (handler, m, b')) :
    ∃ queue, b.take? queue = some (m, b') := by
  induction consumers with
  | nil => cases h
  | cons c rest ih =>
    unfold ready? at h
    split at h
    · exact ih h
    · split at h
      · next taken =>
        cases h
        exact ⟨c.queue, taken⟩
      · exact ih h

/-! ## Sections -/

/-- A change that a thread makes in one go on behalf of a message. -/
inductive Section where
  | count
  | declare
  | put
  | bury
  | discount
  deriving DecidableEq

def Section.act (m : Message) (step : Section) (b : Broker η) : Broker η :=
  match step with
  | .count => b.count m.queue
  | .declare => b.declare m.queue
  | .put => b.put m
  | .bury => b.bury m
  | .discount => b.discount m.queue

/-- What a thread is asked to do with a message. -/
inductive Errand where
  | publish
  | settle (how : Settlement)
  deriving DecidableEq

/-- The sections of an errand, in order. -/
def Errand.sections : Errand → List Section
  | .publish => [.count, .declare, .put]
  | .settle .ack => [.discount]
  | .settle .reject => [.bury, .discount]
  | .settle .requeue => [.count, .declare, .put, .discount]

/-- An errand that nobody disturbs. -/
def Errand.stretch (errand : Errand) (m : Message) (b : Broker η) : Broker η :=
  errand.sections.foldl (fun b step => step.act m b) b

theorem put_declare (m : Message) (b : Broker η) : (b.declare m.queue).put m = b.put m := by
  unfold put declare
  simp only [alter_alter_id]

theorem stretch_publish (m : Message) (b : Broker η) :
    Errand.publish.stretch m b = (b.count m.queue).put m :=
  put_declare m _

theorem stretch_settle (how : Settlement) (d : Delivery) (b : Broker η)
    (fresh : d.settled = false) :
    (Errand.settle how).stretch d.message b = (settle how d b).2 := by
  unfold settle
  rw [fresh, if_neg (by decide)]
  cases how with
  | ack | reject => rfl
  | requeue => exact congrArg (discount d.message.queue) (put_declare d.message _)

end Broker

/-! ## Threads -/

namespace Traffic

/-- A published message: it is told from an equal one by its number. -/
structure Letter where
  number : Nat
  message : Message
  deriving DecidableEq

/-- A delivery that was made, and how it was settled first. -/
structure Handover where
  letter : Letter
  outcome : Option Settlement

/-- An errand that a thread began, and how many of its sections are over. -/
structure Call where
  letter : Letter
  errand : Broker.Errand
  stage : Nat

/-- The sections that are left of a call. -/
def Call.rest (c : Call) : List Broker.Section :=
  c.errand.sections.drop c.stage

/-- The call when its next section is over. -/
def Call.next (c : Call) : Call :=
  { c with stage := c.stage + 1 }

theorem Call.rest_next {c : Call} {step : Broker.Section} {others : List Broker.Section}
    (rest : c.rest = step :: others) : c.next.rest = others := by
  show c.errand.sections.drop (c.stage + 1) = others
  rw [← List.tail_drop]
  exact congrArg List.tail rest

/-- The smallest things that happen to a broker. -/
inductive Deed (η : Type) where
  /-- A thread begins to publish. -/
  | publish (m : Message)
  /-- A consumer takes from a queue. -/
  | take (queue : String)
  /-- A handler begins to settle the delivery with a number. -/
  | settle (k : Nat) (how : Settlement)
  /-- The handler of the delivery with a number stops with a fault. -/
  | fault (k : Nat)
  /-- The errand with a number goes through its next section. -/
  | proceed (i : Nat)
  | declare (queue : String)
  | subscribe (queue : String) (handler : η)
  | cancel (queue : String)
  | close

end Traffic

/-- A broker in use. -/
structure Traffic (η : Type) where
  broker : Broker η
  /-- All that was ever published. -/
  published : List Traffic.Letter
  /-- What the queues hold, in the order in which it was put there. -/
  waiting : List Traffic.Letter
  /-- All deliveries that were ever made. -/
  handovers : List Traffic.Handover
  /-- All errands that were ever begun. -/
  calls : List Traffic.Call

namespace Traffic

variable {σ η α : Type}

/-- An unused broker. -/
def start : Traffic η := ⟨.empty, [], [], [], []⟩

def begin (letter : Letter) (errand : Broker.Errand) (t : Traffic η) : Traffic η :=
  { t with calls := t.calls ++ [⟨letter, errand, 0⟩] }

@[simp] theorem begin_broker (t : Traffic η) (letter : Letter) (errand : Broker.Errand) :
    (t.begin letter errand).broker = t.broker := rfl

@[simp] theorem begin_published (t : Traffic η) (letter : Letter) (errand : Broker.Errand) :
    (t.begin letter errand).published = t.published := rfl

@[simp] theorem begin_waiting (t : Traffic η) (letter : Letter) (errand : Broker.Errand) :
    (t.begin letter errand).waiting = t.waiting := rfl

@[simp] theorem begin_handovers (t : Traffic η) (letter : Letter) (errand : Broker.Errand) :
    (t.begin letter errand).handovers = t.handovers := rfl

/-- A closed broker refuses at once; later on nothing stops a publish. -/
def publish (m : Message) (t : Traffic η) : Traffic η :=
  if t.broker.closed then t
  else
    let letter := ⟨t.published.length, m⟩
    { t with published := t.published ++ [letter] }.begin letter .publish

/-- The broker says whether there is a message and which one it is; its number is the one of the
oldest letter in the queue. -/
def take (queue : String) (t : Traffic η) : Traffic η :=
  match t.broker.take? queue with
  | none => t
  | some (m, b) =>
    let oldest := t.waiting.find? (·.message.queue = queue)
    { t with
      broker := b
      waiting := t.waiting.eraseP (·.message.queue = queue)
      handovers := t.handovers ++ [⟨⟨oldest.elim 0 Letter.number, m⟩, none⟩] }

/-- A delivery that is settled already is left as it is. -/
def settle (k : Nat) (how : Settlement) (t : Traffic η) : Traffic η :=
  match t.handovers[k]? with
  | some ⟨letter, none⟩ =>
    { t with handovers := t.handovers.set k ⟨letter, some how⟩ }.begin letter (.settle how)
  | _ => t

/-- A call that is over has nothing to proceed with. -/
def proceed (i : Nat) (t : Traffic η) : Traffic η :=
  match t.calls[i]? with
  | none => t
  | some c =>
    match c.rest with
    | [] => t
    | step :: _ =>
      { t with
        broker := step.act c.letter.message t.broker
        waiting := if step = .put then t.waiting ++ [c.letter] else t.waiting
        calls := t.calls.set i c.next }

/-- What happens with one deed.  A handler that returns does nothing more, and one that stops with
a fault rejects its delivery. -/
def act (t : Traffic η) : Deed η → Traffic η
  | .publish m => t.publish m
  | .take queue => t.take queue
  | .settle k how => t.settle k how
  | .fault k => t.settle k .reject
  | .proceed i => t.proceed i
  | .declare queue => { t with broker := t.broker.declare queue }
  | .subscribe queue handler =>
    if t.broker.closed then t else { t with broker := t.broker.join queue handler }
  | .cancel queue => { t with broker := t.broker.cancel queue }
  | .close => { t with broker := t.broker.close }

/-- What happens with one deed after the other. -/
def run (t : Traffic η) (deeds : List (Deed η)) : Traffic η :=
  deeds.foldl act t

theorem run_append (t : Traffic η) (deeds more : List (Deed η)) :
    t.run (deeds ++ more) = (t.run deeds).run more :=
  List.foldl_append

/-! ## Errands without interruption -/

/-- The latest call goes through the sections that are left of it. -/
theorem run_proceed {t : Traffic η} {front : List Call} {c : Call} (calls : t.calls = front ++ [c])
    (n : Nat) (left : c.rest.length = n) :
    ∃ waiting, t.run (List.replicate n (.proceed front.length)) =
      { t with
        broker := c.rest.foldl (fun b step => step.act c.letter.message b) t.broker
        waiting := waiting
        calls := front ++ [{ c with stage := c.stage + n }] } := by
  induction n generalizing t c with
  | zero =>
    obtain rest := List.eq_nil_of_length_eq_zero left
    exact ⟨t.waiting, by rw [rest, Nat.add_zero, ← calls]; rfl⟩
  | succ n ih =>
    cases rest : c.rest with
    | nil =>
      rw [rest] at left
      cases left
    | cons step others =>
      have fewer : c.next.rest.length = n := by
        rw [Call.rest_next rest]
        rw [rest] at left
        exact Nat.succ.inj left
      obtain ⟨waiting, h⟩ := ih (t := { t with
        broker := step.act c.letter.message t.broker
        waiting := if step = .put then t.waiting ++ [c.letter] else t.waiting
        calls := front ++ [c.next] }) rfl fewer
      have acted : t.proceed front.length = { t with
          broker := step.act c.letter.message t.broker
          waiting := if step = .put then t.waiting ++ [c.letter] else t.waiting
          calls := front ++ [c.next] } := by
        unfold proceed
        simp [calls, rest]
      refine ⟨waiting, ?_⟩
      rw [List.replicate_succ]
      show (t.proceed front.length).run _ = _
      rw [acted, h, Call.rest_next rest, Call.next, Nat.add_assoc, Nat.add_comm 1 n]
      rfl

/-- A call that nobody disturbs changes the broker as its errand does. -/
theorem exists_stretch (t : Traffic η) (letter : Letter) (errand : Broker.Errand) :
    ∃ deeds, ((t.begin letter errand).run deeds).broker =
        errand.stretch letter.message t.broker ∧
      ((t.begin letter errand).run deeds).handovers = t.handovers := by
  obtain ⟨waiting, h⟩ := run_proceed (t := t.begin letter errand) (c := ⟨letter, errand, 0⟩) rfl
    _ rfl
  exact ⟨_, by rw [h]; rfl, by rw [h]; rfl⟩

/-! ## Routines without interruption -/

theorem publish_of_open {t : Traffic η} (opened : ¬ t.broker.closed = true) (m : Message) :
    t.publish m = Traffic.begin ⟨t.published.length, m⟩ .publish
      { t with published := t.published ++ [(⟨t.published.length, m⟩ : Letter)] } :=
  if_neg opened

theorem settle_of_fresh {t : Traffic η} {k : Nat} {letter : Letter}
    (fresh : t.handovers[k]? = some ⟨letter, none⟩) (how : Settlement) :
    t.settle k how = Traffic.begin letter (.settle how)
      { t with handovers := t.handovers.set k ⟨letter, some how⟩ } := by
  unfold settle
  rw [fresh]

/-- Only the first settlement of a delivery counts. -/
theorem settle_of_settled {t : Traffic η} {k : Nat} {letter : Letter} {before : Settlement}
    (settled : t.handovers[k]? = some ⟨letter, some before⟩) (how : Settlement) :
    t.settle k how = t := by
  unfold settle
  rw [settled]

/-- What the thread of a routine has in hand is the delivery with a number. -/
def InHand (t : Traffic η) (k : Nat) (held : Option Broker.Delivery) : Prop :=
  ∀ d ∈ held, ∃ h, t.handovers[k]? = some h ∧ h.letter.message = d.message ∧
    h.outcome.isSome = d.settled

theorem exists_settled {t : Traffic η} {k : Nat} {d : Broker.Delivery}
    (inHand : t.InHand k (some d)) (how : Settlement) :
    ∃ deeds, ((t.settle k how).run deeds).broker = (Broker.settle how d t.broker).2 ∧
      ((t.settle k how).run deeds).InHand k (some (Broker.settle how d t.broker).1) := by
  obtain ⟨⟨letter, outcome⟩, at_k, message, isSome⟩ := inHand d rfl
  cases outcome with
  | some before =>
    have settled : d.settled = true := isSome.symm
    refine ⟨[], ?_⟩
    rw [settle_of_settled at_k, Broker.settle, settled, if_pos rfl]
    exact ⟨rfl, inHand⟩
  | none =>
    have fresh : d.settled = false := isSome.symm
    obtain ⟨deeds, broker, handovers⟩ := exists_stretch
      { t with handovers := t.handovers.set k ⟨letter, some how⟩ } letter (.settle how)
    obtain ⟨inside, -⟩ := List.getElem?_eq_some_iff.1 at_k
    refine ⟨deeds, ?_, ?_⟩
    · rw [settle_of_fresh at_k, broker, ← Broker.stretch_settle how d t.broker fresh, ← message]
    · intro d' hd'
      obtain rfl := Option.mem_some.1 hd'
      refine ⟨⟨letter, some how⟩, ?_, ?_, ?_⟩
      · rw [settle_of_fresh at_k, handovers]
        exact List.getElem?_set_self inside
      · rw [Broker.settle, fresh]
        exact message
      · rw [Broker.settle, fresh]
        rfl

/-- A routine that is performed at a stretch is one of the ways in which deeds can follow each
other. -/
theorem exists_performed (clock : Int) (k : Nat) (r : Routine σ η α) {t : Traffic η}
    {site : Broker.Site σ η} {held : Option Broker.Delivery} (same : t.broker = site.broker)
    (inHand : t.InHand k held) :
    ∃ deeds, (t.run deeds).broker = (Broker.perform clock r site held).site.broker ∧
      (t.run deeds).InHand k (Broker.perform clock r site held).delivery ∧
      (Broker.perform clock r site held).delivery.isSome = held.isSome := by
  induction r generalizing t site held with
  | done a | raise fault => exact ⟨[], same, inHand, rfl⟩
  | critical update next ih =>
    exact @ih site.state t { site with state := update site.state } held same inHand
  | clock next ih => exact ih clock same inHand
  | publish m next ih =>
    unfold Broker.perform
    by_cases closed : site.broker.closed = true
    · rw [if_pos closed]
      exact ih _ same inHand
    · rw [if_neg closed]
      have begun := publish_of_open (t := t) (by rwa [same]) m
      obtain ⟨deeds, broker, handovers⟩ := exists_stretch
        { t with published := t.published ++ [(⟨t.published.length, m⟩ : Letter)] }
        ⟨t.published.length, m⟩ .publish
      rw [← begun] at broker handovers
      obtain ⟨more, h⟩ := @ih (.ok ()) ((t.publish m).run deeds)
        { site with broker := (site.broker.count m.queue).put m } held
        (by rw [broker, Broker.stretch_publish, same])
        (by unfold InHand; rw [handovers]; exact inHand)
      exact ⟨.publish m :: (deeds ++ more), by rw [← run_append] at h; exact h⟩
  | subscribe queue handler next ih =>
    unfold Broker.perform
    by_cases closed : site.broker.closed = true
    · rw [if_pos closed]
      exact ih _ same inHand
    · rw [if_neg closed]
      have joined : t.act (.subscribe queue handler) =
          { t with broker := t.broker.join queue handler } := if_neg (by rwa [same])
      obtain ⟨deeds, h⟩ := @ih (.ok ()) (t.act (.subscribe queue handler))
        { site with broker := site.broker.join queue handler } held
        (by rw [joined, same]) (by rw [joined]; exact inHand)
      exact ⟨.subscribe queue handler :: deeds, h⟩
  | cancel queue next ih =>
    obtain ⟨deeds, h⟩ := @ih (t.act (.cancel queue))
      { site with broker := site.broker.cancel queue } held
      (congrArg (Broker.cancel queue) same) inHand
    exact ⟨.cancel queue :: deeds, h⟩
  | close next ih =>
    obtain ⟨deeds, h⟩ := @ih (t.act .close) { site with broker := site.broker.close } held
      (congrArg Broker.close same) inHand
    exact ⟨.close :: deeds, h⟩
  | settle how next ih =>
    cases held with
    | none => exact ih same inHand
    | some d =>
      obtain ⟨deeds, broker, inHand'⟩ := exists_settled inHand how
      rw [same] at broker inHand'
      obtain ⟨more, h⟩ := @ih ((t.settle k how).run deeds)
        { site with broker := (Broker.settle how d site.broker).2 } _ broker inHand'
      exact ⟨.settle k how :: (deeds ++ more), by rw [← run_append] at h; exact h⟩

/-- The same for a handler that works on a message which its consumer has taken. -/
theorem exists_delivered (behave : η → Body → Routine σ η Unit) (clock : Int) (handler : η)
    {m : Message} {t : Traffic η} {site : Broker.Site σ η} {queue : String}
    (taken : t.broker.take? queue = some (m, site.broker)) :
    ∃ deeds, (t.run deeds).broker = (Broker.deliver behave clock handler m site).2.broker := by
  obtain ⟨letter, message, handovers, broker⟩ : ∃ letter : Letter, letter.message = m ∧
      (t.take queue).handovers = t.handovers ++ [⟨letter, none⟩] ∧
      (t.take queue).broker = site.broker := by
    unfold take
    rw [taken]
    exact ⟨_, rfl, rfl, rfl⟩
  have inHand : (t.take queue).InHand t.handovers.length (some ⟨m, false⟩) := by
    intro d hd
    obtain rfl := Option.mem_some.1 hd
    exact ⟨⟨letter, none⟩, by rw [handovers]; simp, message, rfl⟩
  obtain ⟨deeds, performed, inHand', isSome⟩ :=
    exists_performed clock t.handovers.length (behave handler m.body) broker inHand
  unfold Broker.deliver
  generalize Broker.perform clock (behave handler m.body) site (some ⟨m, false⟩) = p at *
  obtain ⟨d, held⟩ := Option.isSome_iff_exists.1 isSome
  rw [held] at inHand'
  cases result : p.result with
  | ok =>
    refine ⟨.take queue :: deeds, ?_⟩
    simp only [result]
    exact performed
  | error fault =>
    obtain ⟨more, rejected, -⟩ := exists_settled inHand' .reject
    refine ⟨.take queue :: (deeds ++ .fault t.handovers.length :: more), ?_⟩
    simp only [result, held]
    show ((t.take queue).run (deeds ++ .fault t.handovers.length :: more)).broker = _
    rw [run_append, ← performed]
    exact rejected

/-- The same for whatever a consumer does next. -/
theorem exists_served (behave : η → Body → Routine σ η Unit) (clock : Int) {t : Traffic η}
    {site site' : Broker.Site σ η} {handed : Broker.Handed} (same : t.broker = site.broker)
    (served : Broker.serve? behave clock site = some (handed, site')) :
    ∃ deeds, (t.run deeds).broker = site'.broker := by
  unfold Broker.serve? at served
  split at served
  · cases served
  · next handler m b ready =>
    obtain ⟨rfl, rfl⟩ : (Broker.deliver behave clock handler m { site with broker := b }).1 = handed
        ∧ (Broker.deliver behave clock handler m { site with broker := b }).2 = site' := by
      simpa [Prod.ext_iff] using served
    obtain ⟨queue, taken⟩ := Broker.exists_take?_of_ready? ready
    rw [← same] at taken
    exact @exists_delivered _ _ behave clock handler m t { site with broker := b } queue taken

/-- The same for all that the consumers do until there is nothing left to take. -/
theorem exists_drained (behave : η → Body → Routine σ η Unit) (clock : Int) (fuel : Nat)
    {t : Traffic η} {site site' : Broker.Site σ η} {handed : List Broker.Handed}
    (same : t.broker = site.broker)
    (drained : Broker.drain behave clock fuel site = some (handed, site')) :
    ∃ deeds, (t.run deeds).broker = site'.broker := by
  induction fuel generalizing t site handed with
  | zero =>
    unfold Broker.drain at drained
    split at drained
    · cases drained
      exact ⟨[], same⟩
    · cases drained
  | succ fuel ih =>
    unfold Broker.drain at drained
    split at drained
    · cases drained
      exact ⟨[], same⟩
    · next first site₁ served =>
      obtain ⟨⟨later, last⟩, rest, heq⟩ := Option.map_eq_some_iff.1 drained
      cases heq
      obtain ⟨deeds, served⟩ := exists_served behave clock same served
      obtain ⟨more, h⟩ := ih served rest
      exact ⟨deeds ++ more, by rw [run_append]; exact h⟩

end Traffic

end Stepwise
