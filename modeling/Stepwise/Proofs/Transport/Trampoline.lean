import Mathlib.Data.List.Basic
import Stepwise.Transport.Direct

/-!
# The course of a publish over a direct transport

A publish from outside hands over the backlog turn by turn: the oldest message leaves the backlog,
its handler runs to its end, and what the handler did to the transport is there for the next turn.
The course is written down as a list of events.

* `actions` lists what a routine does to the transport, `turns` the turns of a backlog, and `course`
  what happens in them.
* `replay` gives the transport after some events, and `Allows` says which event a transport can
  have next.
* `Hands` is the handing over as a relation, to do induction on; `hands_of_drain` ties it to
  `drain`.
* `Orderly` is what holds of the events of a publish, and `orderly_of_publish` says that it holds
  of every publish that is accepted and comes back, whatever its handlers do.
-/

namespace Stepwise

namespace Direct

open Stepwise.Text (Body)

variable {σ η α : Type}

/-- Something that happens to a direct transport. -/
inductive Event (η : Type) where
  /-- A message joins the backlog. -/
  | took (m : Message)
  | refused (m : Message) (why : Refusal)
  | subscribed (queue : String) (handler : η)
  | cancelled (queue : String)
  | closed
  /-- The oldest message leaves the backlog, and its handler begins. -/
  | began (m : Message) (handler : η)
  /-- The handler of a message returns or raises. -/
  | ended (h : Handed)
  /-- The oldest message leaves the backlog, and nobody listens. -/
  | dropped (m : Message)

namespace Event

/-- The transport after an event. -/
def apply (t : Direct η) : Event η → Direct η
  | took m => t.enqueue m
  | refused _ _ => t
  | subscribed queue handler => t.subscribe queue handler
  | cancelled queue => t.cancel queue
  | closed => t.close
  | began _ _ | dropped _ => { t with backlog := t.backlog.tail }
  | ended h =>
    match h.result with
    | .ok () => t
    | .error _ => { t with backlog := [] }

/-- The message that the transport takes. -/
def took? : Event η → Option Message
  | took m => some m
  | _ => none

/-- The message whose turn comes. -/
def turn? : Event η → Option Message
  | began m _ | dropped m => some m
  | _ => none

def began? : Event η → Option Message
  | began m _ => some m
  | _ => none

def ended? : Event η → Option Handed
  | ended h => some h
  | _ => none

/-- The exception that a handler raises. -/
def raised? : Event η → Option Fault
  | ended ⟨_, _, .error fault⟩ => some fault
  | _ => none

end Event

/-- The transport after some events. -/
def replay (t : Direct η) (es : List (Event η)) : Direct η := es.foldl Event.apply t

/-- The messages that were accepted, in order. -/
def accepted (es : List (Event η)) : List Message := es.filterMap Event.took?

/-- The messages whose turn came, in order. -/
def served (es : List (Event η)) : List Message := es.filterMap Event.turn?

/-- Events that a transport can have next.  It takes the messages to queues with a handler while it
is open and refuses the others; and the turn is the oldest message's, which goes to the handler
that its queue has by then. -/
def Allows (t : Direct η) : Event η → Prop
  | .took m => t.closed = false ∧ t.handlers.lookup m.queue ≠ none
  | .refused m why =>
    t.closed = true ∧ why = .closed "transport" .publish m.queue ∨
      t.closed = false ∧ t.handlers.lookup m.queue = none ∧ why = .noSubscriber m.queue
  | .began m handler => t.backlog.head? = some m ∧ t.handlers.lookup m.queue = some handler
  | .dropped m => t.backlog.head? = some m ∧ t.handlers.lookup m.queue = none
  | _ => True

/-- What a routine does to the transport, in order. -/
def actions (clock : Int) : Routine σ η α → Site σ η → List (Event η)
  | .done _, _ | .raise _, _ => []
  | .critical update next, site =>
    actions clock (next site.state) { site with state := update site.state }
  | .clock next, site => actions clock (next clock) site
  | .publish m next, site =>
    match site.transport.refusal? m.queue with
    | some refusal =>
      .refused m refusal :: actions clock (next (.error (.refused refusal))) site
    | none =>
      .took m :: actions clock (next (.ok ())) { site with transport := site.transport.enqueue m }
  | .subscribe queue handler next, site =>
    .subscribed queue handler :: actions clock (next (.ok ()))
      { site with transport := site.transport.subscribe queue handler }
  | .cancel queue next, site =>
    .cancelled queue ::
      actions clock next { site with transport := site.transport.cancel queue }
  | .close next, site =>
    .closed :: actions clock next { site with transport := site.transport.close }
  | .settle _ next, site => actions clock next site

/-! ## Turns -/

/-- The turn of a message, with the components and the transport as it leaves the backlog. -/
structure Turn (σ η : Type) where
  message : Message
  site : Site σ η

namespace Turn

variable (behave : η → Body → Routine σ η Unit) (clock : Int) (turn : Turn σ η)

/-- The handler of the message's queue. -/
def handler? : Option η := turn.site.transport.handlers.lookup turn.message.queue

/-- The end of a handler that is run on the message. -/
def handled (handler : η) : Handled σ η Unit :=
  handle clock (behave handler turn.message.body) turn.site .none

/-- The components and the transport before the turn, with the message still in the backlog. -/
def start : Site σ η :=
  ⟨turn.site.state,
    { turn.site.transport with backlog := turn.message :: turn.site.transport.backlog }⟩

/-- What happens in a turn. -/
def events : List (Event η) :=
  match turn.handler? with
  | none => [.dropped turn.message]
  | some handler =>
    let h := turn.handled behave clock handler
    .began turn.message handler ::
      (actions clock (behave handler turn.message.body) turn.site ++
        [.ended ⟨turn.message, h.mark, h.result⟩])

/-- The outcome of a turn. -/
def result : Except Fault Unit :=
  match turn.handler? with
  | none => .ok ()
  | some handler => (turn.handled behave clock handler).result

/-- The components and the transport when a turn is over. -/
def after : Site σ η :=
  match turn.handler? with
  | none => turn.site
  | some handler =>
    let h := turn.handled behave clock handler
    match h.result with
    | .ok () => h.site
    | .error _ => { h.site with transport := { h.site.transport with backlog := [] } }

/-- The delivery that a turn makes, if there is a handler. -/
def handed : List Handed :=
  match turn.handler? with
  | none => []
  | some handler =>
    let h := turn.handled behave clock handler
    [⟨turn.message, h.mark, h.result⟩]

end Turn

/-- The turns of a backlog, at most so many. -/
def turns (behave : η → Body → Routine σ η Unit) (clock : Int) :
    Nat → Site σ η → List (Turn σ η)
  | 0, _ => []
  | n + 1, ⟨state, transport⟩ =>
    match transport.backlog with
    | [] => []
    | m :: rest =>
      let turn : Turn σ η := ⟨m, ⟨state, { transport with backlog := rest }⟩⟩
      turn ::
        match turn.result behave clock with
        | .ok () => turns behave clock n (turn.after behave clock)
        | .error _ => []

/-! ## Events that a transport can have -/

/-- Each event is one that the transport can have by then. -/
def Legal : Direct η → List (Event η) → Prop
  | _, [] => True
  | t, e :: es => t.Allows e ∧ Legal (e.apply t) es

theorem allows_of_refusal? (t : Direct η) (m : Message) :
    match t.refusal? m.queue with
    | some why => t.Allows (.refused m why)
    | none => t.Allows (.took m) := by
  have listed : (t.handlers.any (·.1 == m.queue)) = (t.handlers.lookup m.queue).isSome := by
    induction t.handlers with
    | nil => rfl
    | cons entry rest ih =>
      obtain ⟨queue, handler⟩ := entry
      by_cases same : m.queue = queue
      · simp [same]
      · simp [List.lookup_cons, beq_eq_false_iff_ne.2 same, Ne.symm same, ih]
  rw [refusal?, listed]
  cases shut : t.closed with
  | true => exact .inl ⟨shut, rfl⟩
  | false =>
    cases listens : t.handlers.lookup m.queue with
    | none => exact .inr ⟨shut, listens, rfl⟩
    | some handler => exact ⟨shut, by simp [listens]⟩

theorem replay_append (t : Direct η) (es fs : List (Event η)) :
    t.replay (es ++ fs) = (t.replay es).replay fs := List.foldl_append

theorem legal_append {t : Direct η} {es fs : List (Event η)} :
    t.Legal (es ++ fs) ↔ t.Legal es ∧ (t.replay es).Legal fs := by
  induction es generalizing t with
  | nil => exact ⟨fun h => ⟨trivial, h⟩, fun h => h.2⟩
  | cons e es ih => simp [Legal, replay, and_assoc, ih]

theorem Legal.allows {t : Direct η} {before rest : List (Event η)} {e : Event η}
    (h : t.Legal (before ++ e :: rest)) : (t.replay before).Allows e :=
  (legal_append.1 h).2.1

/-- As long as nothing is raised, the messages that were there and those that are accepted are the
ones whose turn comes and then the ones that are left. -/
theorem backlog_of_legal {t : Direct η} {es : List (Event η)} (legal : t.Legal es)
    (calm : ∀ e ∈ es, e.raised? = none) :
    t.backlog ++ accepted es = served es ++ (t.replay es).backlog := by
  induction es generalizing t with
  | nil => simp [accepted, served, replay]
  | cons e es ih =>
    have rest := ih legal.2 fun e' he' => calm e' (List.mem_cons_of_mem _ he')
    have allowed := legal.1
    have quiet := calm e List.mem_cons_self
    cases e with
    | took m =>
      change (t.backlog ++ [m]) ++ accepted es = _ at rest
      rwa [List.append_assoc] at rest
    | refused m why | subscribed queue handler | cancelled queue | closed => exact rest
    | began m handler | dropped m =>
      obtain ⟨tail, htail⟩ : ∃ tail, t.backlog = m :: tail := List.head?_eq_some_iff.1 allowed.1
      change t.backlog ++ accepted es = m :: (served es ++ _)
      change t.backlog.tail ++ accepted es = _ at rest
      rw [htail] at rest ⊢
      exact congrArg (m :: ·) rest
    | ended h =>
      obtain ⟨message, mark, result⟩ := h
      cases result with
      | ok _ => exact rest
      | error fault => cases quiet

/-! ## A handler -/

theorem replay_actions (clock : Int) (r : Routine σ η α) (site : Site σ η) (mark : Mark) :
    (handle clock r site mark).site.transport =
      site.transport.replay (actions clock r site) := by
  induction r generalizing site mark with
  | done a | raise fault => rfl
  | critical update next ih => exact ih site.state ⟨update site.state, site.transport⟩ mark
  | clock next ih => exact ih clock site mark
  | publish m next ih =>
    rw [handle, actions]
    cases site.transport.refusal? m.queue with
    | some refusal => exact ih _ site mark
    | none => exact ih _ ⟨site.state, site.transport.enqueue m⟩ mark
  | subscribe queue handler next ih =>
    exact ih (.ok ()) ⟨site.state, site.transport.subscribe queue handler⟩ mark
  | cancel queue next ih => exact ih ⟨site.state, site.transport.cancel queue⟩ mark
  | close next ih => exact ih ⟨site.state, site.transport.close⟩ mark
  | settle how next ih => exact ih site _

theorem legal_actions (clock : Int) (r : Routine σ η α) (site : Site σ η) :
    site.transport.Legal (actions clock r site) := by
  induction r generalizing site with
  | done a | raise fault => trivial
  | critical update next ih => exact ih site.state ⟨update site.state, site.transport⟩
  | clock next ih => exact ih clock site
  | publish m next ih =>
    have allowed := allows_of_refusal? site.transport m
    rw [actions]
    cases answer : site.transport.refusal? m.queue with
    | some refusal =>
      rw [answer] at allowed
      exact ⟨allowed, ih _ site⟩
    | none =>
      rw [answer] at allowed
      exact ⟨allowed, ih _ ⟨site.state, site.transport.enqueue m⟩⟩
  | subscribe queue handler next ih =>
    exact ⟨trivial, ih (.ok ()) ⟨site.state, site.transport.subscribe queue handler⟩⟩
  | cancel queue next ih => exact ⟨trivial, ih ⟨site.state, site.transport.cancel queue⟩⟩
  | close next ih => exact ⟨trivial, ih ⟨site.state, site.transport.close⟩⟩
  | settle how next ih => exact ih site

/-- While a handler runs, no other begins or ends. -/
theorem began?_of_mem_actions {clock : Int} {r : Routine σ η α} {site : Site σ η} {e : Event η}
    (h : e ∈ actions clock r site) :
    e.began? = none ∧ e.ended? = none ∧ e.raised? = none ∧ e.turn? = none := by
  induction r generalizing site with
  | done a | raise fault => cases h
  | critical update next ih => exact ih site.state h
  | clock next ih => exact ih clock h
  | publish m next ih =>
    rw [actions] at h
    split at h
    all_goals
      rcases List.mem_cons.1 h with rfl | h
      · exact ⟨rfl, rfl, rfl, rfl⟩
      · exact ih _ h
  | subscribe queue handler next ih =>
    rcases List.mem_cons.1 h with rfl | h
    · exact ⟨rfl, rfl, rfl, rfl⟩
    · exact ih _ h
  | cancel queue next ih | close next ih =>
    rcases List.mem_cons.1 h with rfl | h
    · exact ⟨rfl, rfl, rfl, rfl⟩
    · exact ih h
  | settle how next ih => exact ih h

/-! ## A turn -/

section Turns

variable {behave : η → Body → Routine σ η Unit} {clock : Int}

theorem Turn.legal_events (turn : Turn σ η) :
    turn.start.transport.Legal (turn.events behave clock) := by
  rw [events]
  cases listens : turn.handler? with
  | none => exact ⟨⟨rfl, listens⟩, trivial⟩
  | some handler =>
    refine ⟨⟨rfl, listens⟩, legal_append.2 ⟨?_, trivial, trivial⟩⟩
    exact legal_actions clock _ turn.site

theorem Turn.replay_events (turn : Turn σ η) :
    turn.start.transport.replay (turn.events behave clock) =
      (turn.after behave clock).transport := by
  rw [events, after]
  cases turn.handler? with
  | none => rfl
  | some handler =>
    have ran : turn.site.transport.replay
        (actions clock (behave handler turn.message.body) turn.site) =
          (turn.handled behave clock handler).site.transport :=
      (replay_actions clock _ turn.site .none).symm
    change Direct.replay turn.site.transport (_ ++ [_]) = _
    rw [replay_append, ran]
    simp only [replay, List.foldl_cons, List.foldl_nil, Event.apply]
    cases (turn.handled behave clock handler).result <;> rfl

variable (behave clock) in
/-- Nothing is raised in a turn but at its end, by its handler. -/
theorem Turn.raised_events (turn : Turn σ η) :
    ∃ front last, turn.events behave clock = front ++ [last] ∧
      (∀ e ∈ front, e.raised? = none) ∧
      (turn.result behave clock = match last.raised? with
        | none => .ok ()
        | some fault => .error fault) := by
  rw [events, result]
  cases turn.handler? with
  | none => exact ⟨[], .dropped turn.message, rfl, by simp, rfl⟩
  | some handler =>
    refine ⟨_, _, (List.cons_append ..).symm, ?_, ?_⟩
    · intro e he
      rcases List.mem_cons.1 he with rfl | he
      · rfl
      · exact (began?_of_mem_actions he).2.2.1
    · simp only
      cases (turn.handled behave clock handler).result <;> rfl

theorem Turn.handed_events (turn : Turn σ η) :
    turn.handed behave clock = (turn.events behave clock).filterMap Event.ended? := by
  rw [handed, events]
  cases turn.handler? with
  | none => rfl
  | some handler =>
    have silent : (actions clock (behave handler turn.message.body) turn.site).filterMap
        Event.ended? = [] :=
      List.filterMap_eq_nil_iff.2 fun e he => (began?_of_mem_actions he).2.1
    rw [List.filterMap_cons_none rfl, List.filterMap_append, silent]
    rfl

/-! ## A backlog -/

/-- The turns that a backlog takes, and what comes of it. -/
inductive Hands (behave : η → Body → Routine σ η Unit) (clock : Int) :
    Site σ η → List (Turn σ η) → Called σ η Unit → Prop where
  | empty {site} (nothing : site.transport.backlog = []) :
    Hands behave clock site [] ⟨.ok (), site, []⟩
  | next {turn ts c} (returned : turn.result behave clock = .ok ())
      (rest : Hands behave clock (turn.after behave clock) ts c) :
    Hands behave clock turn.start (turn :: ts) (c.after (turn.handed behave clock))
  | raised {turn fault} (stopped : turn.result behave clock = .error fault) :
    Hands behave clock turn.start [turn]
      ⟨.error fault, turn.after behave clock, turn.handed behave clock⟩

/-- The oldest message of a backlog is handed over, and then the rest unless something is raised. -/
theorem drain_start (turn : Turn σ η) (fuel : Nat) :
    drain behave clock (fuel + 1) turn.start =
      match turn.result behave clock with
      | .ok () =>
        (drain behave clock fuel (turn.after behave clock)).map
          (·.after (turn.handed behave clock))
      | .error fault =>
        some ⟨.error fault, turn.after behave clock, turn.handed behave clock⟩ := by
  obtain ⟨m, ⟨state, ⟨handlers, closed, rest⟩⟩⟩ := turn
  rw [Turn.start, drain, Turn.result, Turn.after, Turn.handed, Turn.handler?]
  simp only
  cases listens : handlers.lookup m.queue with
  | none => exact Option.map_id'.symm
  | some handler =>
    simp only [Turn.handled]
    cases (handle clock (behave handler m.body) _ .none).result <;> rfl

theorem hands_of_drain {fuel : Nat} {site : Site σ η} {c : Called σ η Unit}
    (h : drain behave clock fuel site = some c) :
    Hands behave clock site (turns behave clock fuel site) c := by
  induction fuel generalizing site c with
  | zero =>
    obtain ⟨state, ⟨handlers, closed, backlog⟩⟩ := site
    cases backlog with
    | nil =>
      rw [drain.eq_def] at h
      exact Option.some.inj h ▸ .empty rfl
    | cons m rest =>
      rw [drain.eq_def] at h
      cases h
  | succ n ih =>
    obtain ⟨state, ⟨handlers, closed, backlog⟩⟩ := site
    cases backlog with
    | nil =>
      rw [drain.eq_def] at h
      exact Option.some.inj h ▸ .empty rfl
    | cons m rest =>
      let turn : Turn σ η := ⟨m, ⟨state, ⟨handlers, closed, rest⟩⟩⟩
      change drain behave clock (n + 1) turn.start = some c at h
      change Hands behave clock turn.start (turn :: match turn.result behave clock with
        | .ok () => turns behave clock n (turn.after behave clock)
        | .error _ => []) c
      rw [drain_start] at h
      cases result : turn.result behave clock with
      | ok _ =>
        rw [result] at h
        obtain ⟨c', h', rfl⟩ := Option.map_eq_some_iff.1 h
        exact .next result (ih h')
      | error fault =>
        rw [result] at h
        exact Option.some.inj h ▸ .raised result

/-- What happens in the course of some turns. -/
def course (behave : η → Body → Routine σ η Unit) (clock : Int) (ts : List (Turn σ η)) :
    List (Event η) :=
  ts.flatMap (·.events behave clock)

/-- Nothing was raised, or the last event is the end of the handler that raised the fault. -/
def Ends (es : List (Event η)) : Except Fault Unit → Prop
  | .ok () => ∀ e ∈ es, e.raised? = none
  | .error fault =>
    ∃ front last, es = front ++ [last] ∧ (∀ e ∈ front, e.raised? = none) ∧
      last.raised? = some fault

theorem Ends.prepend {es : List (Event η)} {answer : Except Fault Unit} (h : Ends es answer)
    (front : List (Event η)) (calm : ∀ e ∈ front, e.raised? = none) :
    Ends (front ++ es) answer := by
  cases answer with
  | ok _ => exact List.forall_mem_append.2 ⟨calm, h⟩
  | error fault =>
    obtain ⟨middle, last, rfl, quiet, raised⟩ := h
    refine ⟨front ++ middle, last, (List.append_assoc ..).symm, ?_, raised⟩
    exact List.forall_mem_append.2 ⟨calm, quiet⟩

variable (behave clock) in
theorem Turn.ends (turn : Turn σ η) :
    Ends (turn.events behave clock) (turn.result behave clock) := by
  obtain ⟨front, last, heq, quiet, result⟩ := turn.raised_events behave clock
  rw [result, heq]
  cases raised : last.raised? with
  | none => exact List.forall_mem_append.2 ⟨quiet, by simpa using raised⟩
  | some fault => exact ⟨front, last, rfl, quiet, raised⟩

namespace Hands

variable {site : Site σ η} {ts : List (Turn σ η)} {c : Called σ η Unit}

theorem legal (h : Hands behave clock site ts c) :
    site.transport.Legal (course behave clock ts) := by
  induction h with
  | empty nothing => trivial
  | @next turn ts c returned rest ih =>
    refine legal_append.2 ⟨turn.legal_events, ?_⟩
    rw [turn.replay_events]
    exact ih
  | @raised turn fault stopped =>
    rw [course, List.flatMap_singleton]
    exact turn.legal_events

theorem replay (h : Hands behave clock site ts c) :
    site.transport.replay (course behave clock ts) = c.site.transport := by
  induction h with
  | empty nothing => rfl
  | @next turn ts c returned rest ih =>
    rw [course, List.flatMap_cons, replay_append, turn.replay_events]
    exact ih
  | @raised turn fault stopped =>
    rw [course, List.flatMap_singleton]
    exact turn.replay_events

theorem handed (h : Hands behave clock site ts c) :
    c.handed = (course behave clock ts).filterMap Event.ended? := by
  induction h with
  | empty nothing => rfl
  | @next turn ts c returned rest ih =>
    rw [course, List.flatMap_cons, List.filterMap_append, ← turn.handed_events]
    exact congrArg (_ ++ ·) ih
  | @raised turn fault stopped =>
    rw [course, List.flatMap_singleton]
    exact turn.handed_events

theorem ends (h : Hands behave clock site ts c) : Ends (course behave clock ts) c.result := by
  induction h with
  | empty nothing => simp [course, Ends]
  | @next turn ts c returned rest ih =>
    have calm := turn.ends behave clock
    rw [returned] at calm
    exact ih.prepend _ calm
  | @raised turn fault stopped =>
    rw [course, List.flatMap_singleton]
    exact stopped ▸ turn.ends behave clock

theorem backlog (h : Hands behave clock site ts c) : c.site.transport.backlog = [] := by
  induction h with
  | empty nothing => exact nothing
  | next returned rest ih => exact ih
  | @raised turn fault stopped =>
    change (turn.after behave clock).transport.backlog = []
    rw [Turn.result] at stopped
    rw [Turn.after]
    cases listens : turn.handler? with
    | none =>
      rw [listens] at stopped
      cases stopped
    | some handler =>
      rw [listens] at stopped
      simp only at stopped ⊢
      rw [stopped]

end Hands

/-! ## A publish -/

/-- The messages whose handlers have begun, in order. -/
def begun (es : List (Event η)) : List Message := es.filterMap Event.began?

/-- The messages whose handlers have returned or raised, in order. -/
def completed (es : List (Event η)) : List Message := (es.filterMap Event.ended?).map (·.message)

variable (behave clock) in
/-- No handler begins within a turn but the one that the turn is for. -/
theorem Turn.alone_events (turn : Turn σ η) :
    begun (turn.events behave clock) = completed (turn.events behave clock) ∧
      ∀ before m handler, before ++ [.began m handler] <+: turn.events behave clock →
        before = [] := by
  rw [events]
  cases turn.handler? with
  | none =>
    refine ⟨rfl, fun before m handler h => ?_⟩
    have := h.length_le
    simp only [List.length_append, List.length_singleton] at this
    exact List.length_eq_zero_iff.1 (by omega)
  | some handler =>
    have silent : ∀ e ∈ actions clock (behave handler turn.message.body) turn.site,
        e.began? = none ∧ e.ended? = none := fun e he =>
      ⟨(began?_of_mem_actions he).1, (began?_of_mem_actions he).2.1⟩
    refine ⟨?_, fun before m handler' h => ?_⟩
    · simp only [begun, completed, List.filterMap_cons, List.filterMap_append, Event.began?,
        Event.ended?, List.filterMap_eq_nil_iff.2 fun e he => (silent e he).1,
        List.filterMap_eq_nil_iff.2 fun e he => (silent e he).2]
      rfl
    · cases before with
      | nil => rfl
      | cons e before =>
        have later := (List.cons_prefix_cons.1 h).2.subset
          (List.mem_append_right before (List.mem_singleton_self _))
        rcases List.mem_append.1 later with later | later
        · cases (silent _ later).1
        · cases List.mem_singleton.1 later

theorem begun_course (ts : List (Turn σ η)) :
    begun (course behave clock ts) = completed (course behave clock ts) := by
  induction ts with
  | nil => rfl
  | cons turn ts ih =>
    have balanced := (turn.alone_events behave clock).1
    rw [begun, completed, course] at ih
    rw [begun, completed] at balanced
    rw [course, List.flatMap_cons, begun, completed, List.filterMap_append, List.filterMap_append,
      List.map_append, balanced, ih]

theorem alone_course {ts : List (Turn σ η)} {before : List (Event η)} {m : Message} {handler : η}
    (h : before ++ [.began m handler] <+: course behave clock ts) :
    begun before = completed before := by
  induction ts generalizing before with
  | nil => simp [course] at h
  | cons turn ts ih =>
    obtain ⟨balanced, first⟩ := turn.alone_events behave clock
    rw [course, List.flatMap_cons] at h
    rcases List.prefix_or_prefix_of_prefix h (List.prefix_append _ _) with inside | outside
    · rw [first before m handler inside]
      rfl
    · rcases List.prefix_concat_iff.1 outside with whole | ⟨later, rfl⟩
      · rw [first before m handler (whole ▸ List.prefix_rfl)]
        rfl
      · -- The turn is over, so the events since are those of the turns after it.
        rw [List.append_assoc] at h
        have rest := ih ((List.prefix_append_right_inj _).1 h)
        rw [begun, completed] at balanced rest ⊢
        rw [List.filterMap_append, List.filterMap_append, List.map_append, balanced, rest]

/-- What happens in the course of a publish that is accepted. -/
def publication (behave : η → Body → Routine σ η Unit) (clock : Int) (m : Message)
    (ts : List (Turn σ η)) : List (Event η) :=
  .took m :: course behave clock ts

/-- What is orderly about the course of a publish: `answer` is what its caller gets, `after` what it
leaves, and `handed` the deliveries that it made. -/
structure Orderly (behave : η → Body → Routine σ η Unit) (clock : Int) (site : Site σ η)
    (m : Message) (ts : List (Turn σ η)) (answer : Except Fault Unit) (after : Site σ η)
    (handed : List Handed) : Prop where
  /-- The first turn starts with the message in the backlog. -/
  first : ts.head?.map Turn.start = some ⟨site.state, site.transport.enqueue m⟩
  /-- A turn starts from where the one before it has ended, and only if nothing was raised. -/
  next : ∀ front turn turn' back, ts = front ++ turn :: turn' :: back →
    turn.result behave clock = .ok () ∧ turn'.start = turn.after behave clock
  /-- When a handler begins, all that have begun before it are over. -/
  alone : ∀ before m' handler,
    before ++ [.began m' handler] <+: publication behave clock m ts →
      begun before = completed before
  /-- When the publish comes back, all handlers are over. -/
  finished : begun (publication behave clock m ts) = completed (publication behave clock m ts)
  /-- At all times the messages that had their turn are the first ones that were accepted. -/
  order : ∀ before, before <+: publication behave clock m ts → served before <+: accepted before
  /-- All accepted messages have their turn unless a handler raises something. -/
  complete : answer = .ok () →
    served (publication behave clock m ts) = accepted (publication behave clock m ts)
  /-- Messages are accepted, refused, handed over and dropped as the transport has it by then. -/
  allowed : ∀ before e rest, publication behave clock m ts = before ++ e :: rest →
    (site.transport.replay before).Allows e
  /-- What a handler raises ends the course, and the caller of the publish gets it. -/
  raised : Ends (publication behave clock m ts) answer
  /-- The deliveries are those of the handlers that have begun. -/
  delivered : handed = (publication behave clock m ts).filterMap Event.ended?
  transport : after.transport = site.transport.replay (publication behave clock m ts)
  /-- Nothing is left for the next publish. -/
  backlog : after.transport.backlog = []

/-- The first messages to be accepted are the first to have their turn, at all times. -/
theorem served_prefix_accepted {t : Direct η} {es before : List (Event η)}
    {answer : Except Fault Unit} (idle : t.backlog = []) (legal : t.Legal es)
    (ends : Ends es answer) (h : before <+: es) : served before <+: accepted before := by
  have calmly : ∀ {front : List (Event η)}, front <+: es → (∀ e ∈ front, e.raised? = none) →
      served front <+: accepted front := by
    rintro front ⟨rest, rfl⟩ calm
    have conserved := backlog_of_legal (legal_append.1 legal).1 calm
    rw [idle, List.nil_append] at conserved
    exact conserved ▸ List.prefix_append _ _
  cases answer with
  | ok _ => exact calmly h fun e he => ends e (h.subset he)
  | error fault =>
    obtain ⟨front, last, rfl, calm, raised⟩ := ends
    rcases List.prefix_concat_iff.1 h with rfl | inside
    · -- The raising end of a handler is neither an acceptance nor a turn.
      cases last with
      | ended h =>
        have earlier := calmly (List.prefix_append front _) calm
        rw [served, accepted, List.filterMap_append, List.filterMap_append]
        change served front ++ [] <+: accepted front ++ []
        rwa [List.append_nil, List.append_nil]
      | _ => cases raised
    · exact calmly h fun e he => calm e (inside.subset he)

theorem Hands.next_start {site : Site σ η} {ts : List (Turn σ η)} {c : Called σ η Unit}
    (h : Hands behave clock site ts c) :
    (∀ turn ∈ ts.head?, turn.start = site) ∧
      ∀ front turn turn' back, ts = front ++ turn :: turn' :: back →
        turn.result behave clock = .ok () ∧ turn'.start = turn.after behave clock := by
  induction h with
  | empty nothing => simp
  | @next turn ts c returned rest ih =>
    refine ⟨fun turn' h' => Option.some.inj h' ▸ rfl, fun front turn₁ turn₂ back heq => ?_⟩
    cases front with
    | nil =>
      obtain ⟨rfl, rfl⟩ := List.cons.inj heq
      exact ⟨returned, ih.1 turn₂ rfl⟩
    | cons turn₀ front => exact ih.2 front turn₁ turn₂ back (List.cons.inj heq).2
  | @raised turn fault stopped =>
    refine ⟨fun turn' h' => Option.some.inj h' ▸ rfl, fun front turn₁ turn₂ back heq => ?_⟩
    have := congrArg List.length heq
    simp at this
    omega

theorem Hands.orderly {site : Site σ η} {m : Message} {ts : List (Turn σ η)}
    {c : Called σ η Unit} (idle : site.transport.backlog = [])
    (taken : site.transport.Allows (.took m))
    (h : Hands behave clock ⟨site.state, site.transport.enqueue m⟩ ts c) :
    Orderly behave clock site m ts c.result c.site c.handed := by
  have legal : site.transport.Legal (publication behave clock m ts) := ⟨taken, h.legal⟩
  have replayed : site.transport.replay (publication behave clock m ts) = c.site.transport :=
    h.replay
  have ends : Ends (publication behave clock m ts) c.result :=
    h.ends.prepend [.took m] fun e he => List.mem_singleton.1 he ▸ rfl
  refine ⟨?_, h.next_start.2, ?_, begun_course ts, ?_, ?_, ?_, ends, h.handed, replayed.symm,
    h.backlog⟩
  · cases ts with
    | nil =>
      have left : site.transport.backlog ++ [m] = [] :=
        (congrArg Direct.backlog h.replay).trans h.backlog
      simp at left
    | cons turn ts => exact congrArg some (h.next_start.1 turn rfl)
  · intro before m' handler hbefore
    cases before with
    | nil => rfl
    | cons e before =>
      obtain ⟨rfl, rest⟩ := List.cons_prefix_cons.1 hbefore
      show begun before = completed before
      exact alone_course rest
  · exact fun before => served_prefix_accepted idle legal ends
  · intro returned
    rw [returned] at ends
    have conserved := backlog_of_legal legal ends
    rwa [replayed, h.backlog, idle, List.append_nil, List.nil_append, eq_comm] at conserved
  · intro before e rest heq
    rw [heq] at legal
    exact legal.allows

/-- A message that is handed over was accepted in the course of the same publish. -/
theorem Orderly.accepted_of_handed {site after : Site σ η} {m : Message} {ts : List (Turn σ η)}
    {answer : Except Fault Unit} {handed : List Handed}
    (h : Orderly behave clock site m ts answer after handed) {d : Handed} (hd : d ∈ handed) :
    d.message ∈ accepted (publication behave clock m ts) := by
  have ended : d.message ∈ begun (publication behave clock m ts) := by
    rw [h.finished, completed, ← h.delivered]
    exact List.mem_map_of_mem hd
  have turned : d.message ∈ served (publication behave clock m ts) := by
    obtain ⟨e, he, hm⟩ := List.mem_filterMap.1 ended
    refine List.mem_filterMap.2 ⟨e, he, ?_⟩
    cases e with
    | began m' handler => exact hm
    | _ => cases hm
  exact (h.order _ List.prefix_rfl).subset turned

/-- The turns of a publish from outside. -/
def turnsOf (behave : η → Body → Routine σ η Unit) (clock : Int) (fuel : Nat) (site : Site σ η)
    (m : Message) : List (Turn σ η) :=
  turns behave clock fuel ⟨site.state, site.transport.enqueue m⟩

/-- What a publish from outside comes to. -/
inductive Publishes (behave : η → Body → Routine σ η Unit) (clock : Int) (site : Site σ η)
    (m : Message) (ts : List (Turn σ η)) : Called σ η (Except Fault Unit) → Prop where
  /-- Its message is refused, and nothing else happens. -/
  | refused {why} (refuses : site.transport.Allows (.refused m why)) :
    Publishes behave clock site m ts ⟨.ok (.error (.refused why)), site, []⟩
  /-- Its message is accepted. -/
  | accepted {answer after handed} (takes : site.transport.Allows (.took m))
      (orderly : Orderly behave clock site m ts answer after handed) :
    Publishes behave clock site m ts ⟨.ok answer, after, handed⟩

theorem publishes_of_call {fuel : Nat} {site : Site σ η} {m : Message}
    {c : Called σ η (Except Fault Unit)} (idle : site.transport.backlog = [])
    (h : call behave clock fuel (Routine.tryPublish m) site = some c) :
    Publishes behave clock site m (turnsOf behave clock fuel site m) c := by
  have allowed := allows_of_refusal? site.transport m
  rw [Routine.tryPublish, call] at h
  cases answer : site.transport.refusal? m.queue with
  | some why =>
    rw [answer] at h allowed
    rw [← Option.some.inj h]
    exact .refused allowed
  | none =>
    rw [answer] at h allowed
    cases drained : drain behave clock fuel ⟨site.state, site.transport.enqueue m⟩ with
    | none => simp [drained] at h
    | some d =>
      simp only [drained, call, Option.map_some, Option.some.injEq] at h
      rw [← h, Called.after, List.append_nil]
      exact .accepted allowed ((hands_of_drain drained).orderly idle allowed)

/-- A publish from outside over an idle transport either is refused, which changes nothing, or is
accepted, and then it takes its orderly course.  Either way it leaves the transport idle, and a
publish that follows it hands over only messages that were accepted in its own course. -/
theorem orderly_of_publish {fuel : Nat} {site : Site σ η} {m : Message}
    {c : Called σ η (Except Fault Unit)} (idle : site.transport.backlog = [])
    (h : call behave clock fuel (Routine.tryPublish m) site = some c) :
    Publishes behave clock site m (turnsOf behave clock fuel site m) c ∧
      c.site.transport.backlog = [] ∧
      ∀ fuel' m' c', call behave clock fuel' (Routine.tryPublish m') c.site = some c' →
        ∀ d ∈ c'.handed,
          d.message ∈
            accepted (publication behave clock m' (turnsOf behave clock fuel' c.site m')) := by
  have published := publishes_of_call idle h
  have left : c.site.transport.backlog = [] := by
    cases published with
    | refused refuses => exact idle
    | accepted takes orderly => exact orderly.backlog
  refine ⟨published, left, fun fuel' m' c' h' d hd => ?_⟩
  cases publishes_of_call left h' with
  | refused refuses => cases hd
  | accepted takes orderly => exact orderly.accepted_of_handed hd

/-- A first handler that passes its message on twice, and a second one that raises a fault. -/
def relay : Bool → Body → Routine Unit Bool Unit
  | false, body =>
    .publish ⟨"second", body⟩ fun _ => .publish ⟨"second", body⟩ fun _ => .done ()
  | true, _ => .raise (.raised "broken")

/-- Both handlers listen. -/
def relays : Site Unit Bool := ⟨(), ⟨[("first", false), ("second", true)], false, []⟩⟩

/-- The first message that is passed on stops the publish, and the second is lost. -/
theorem publishes_relay : ∃ c, relays.transport.backlog = [] ∧
    call relay 0 2 (Routine.tryPublish ⟨"first", .empty⟩) relays = some c ∧
    Publishes relay 0 relays ⟨"first", .empty⟩ (turnsOf relay 0 2 relays ⟨"first", .empty⟩) c ∧
    c.result = .ok (.error (.raised "broken")) ∧
    c.handed.map (·.message.queue) = ["first", "second"] ∧ c.site.transport.backlog = [] := by
  have called : ∃ c, call relay 0 2 (Routine.tryPublish ⟨"first", .empty⟩) relays = some c ∧
      c.result = .ok (.error (.raised "broken")) ∧
      c.handed.map (·.message.queue) = ["first", "second"] := ⟨_, rfl, rfl, rfl⟩
  obtain ⟨c, hc, result, handed⟩ := called
  obtain ⟨published, left, -⟩ := orderly_of_publish (show relays.transport.backlog = [] from rfl) hc
  exact ⟨c, rfl, hc, published, result, handed, left⟩

end Turns

end Direct

end Stepwise
