import Stepwise.Proofs.Service.Table
import Stepwise.Transport.Direct

/-!
# Subscriptions of a direct transport

A direct transport has one handler for each queue, and a subscription knows no more of it than its
queue: whoever cancels a subscription takes away the handler that the queue has by then.  So the
newest subscription of a queue serves it until a subscription of the queue is cancelled, its own or
another one (`lookup_newest_iff`), and a component that stops may take the handler of the one that
replaced it (`replaced_takes_newest`).
-/

namespace Stepwise.Direct

variable {η : Type}

theorem lookup_subscribe (t : Direct η) (queue : String) (handler : η) (other : String) :
    (t.subscribe queue handler).handlers.lookup other =
      if other = queue then some handler else t.handlers.lookup other := by
  rw [subscribe, List.lookup_cons, Scheduler.lookup_filter_ne]
  by_cases h : other = queue
  · simp [h]
  · rw [beq_eq_false_iff_ne.2 h, if_neg h, if_neg h]

theorem lookup_cancel (t : Direct η) (queue other : String) :
    (t.cancel queue).handlers.lookup other =
      if other = queue then none else t.handlers.lookup other :=
  Scheduler.lookup_filter_ne t.handlers queue other

/-- A subscription of a queue, told from the others by its number. -/
structure Subscription where
  queue : String
  number : Nat
  deriving DecidableEq, Repr

/-- What the components that share a transport do to its subscriptions. -/
inductive Deed (η : Type) where
  | subscribe (s : Subscription) (handler : η)
  | cancel (s : Subscription)
  deriving DecidableEq

/-- The queue whose handler is concerned. -/
def Deed.queue : Deed η → String
  | subscribe s _ | cancel s => s.queue

/-- A transport after a deed. -/
def done (t : Direct η) : Deed η → Direct η
  | .subscribe s handler => t.subscribe s.queue handler
  | .cancel s => t.cancel s.queue

/-- A transport after a history of deeds, the oldest first. -/
def following (t : Direct η) (deeds : List (Deed η)) : Direct η := deeds.foldl done t

variable {t : Direct η} {deeds before after : List (Deed η)} {s : Subscription} {handler : η}

/-- Other queues keep their handlers. -/
theorem lookup_done_of_ne {deed : Deed η} {queue : String} (ne : deed.queue ≠ queue) :
    (t.done deed).handlers.lookup queue = t.handlers.lookup queue := by
  cases deed with
  | subscribe s handler => exact (lookup_subscribe ..).trans (if_neg ne.symm)
  | cancel s => exact (lookup_cancel ..).trans (if_neg ne.symm)

theorem lookup_following_of_ne {queue : String} (ne : ∀ deed ∈ deeds, deed.queue ≠ queue) :
    (t.following deeds).handlers.lookup queue = t.handlers.lookup queue := by
  induction deeds generalizing t with
  | nil => rfl
  | cons deed deeds ih =>
    obtain ⟨first, rest⟩ := List.forall_mem_cons.1 ne
    exact (ih rest).trans (lookup_done_of_ne first)

/-- A queue without a handler gets none unless it is subscribed to. -/
theorem lookup_following_eq_none {queue : String} (none : t.handlers.lookup queue = none)
    (unsubscribed : ∀ s h, .subscribe s h ∈ deeds → s.queue ≠ queue) :
    (t.following deeds).handlers.lookup queue = .none := by
  induction deeds generalizing t with
  | nil => exact none
  | cons deed deeds ih =>
    refine ih ?_ fun s h hmem => unsubscribed s h (List.mem_cons_of_mem _ hmem)
    cases deed with
    | subscribe s handler =>
      have other : (Deed.subscribe s handler).queue ≠ queue :=
        unsubscribed s handler List.mem_cons_self
      rw [lookup_done_of_ne other, none]
    | cancel s =>
      rw [done, lookup_cancel, none, ite_self]

/-- The newest subscription of a queue serves it exactly as long as no subscription of the queue is
cancelled after it was made. -/
theorem lookup_newest_iff
    (newest : ∀ s' h', .subscribe s' h' ∈ after → s'.queue ≠ s.queue) :
    (t.following (before ++ .subscribe s handler :: after)).handlers.lookup s.queue =
        some handler ↔
      ∀ s', .cancel s' ∈ after → s'.queue ≠ s.queue := by
  obtain ⟨u, hu⟩ : ∃ u, u = (t.following before).done (.subscribe s handler) := ⟨_, rfl⟩
  have served : u.handlers.lookup s.queue = some handler := by
    rw [hu, done, lookup_subscribe, if_pos rfl]
  have split : t.following (before ++ .subscribe s handler :: after) = u.following after := by
    rw [following, List.foldl_append, hu]
    rfl
  rw [split]
  constructor
  · intro serves s' cancelled same
    -- From the cancellation on there is no handler.
    obtain ⟨first, rest, rfl⟩ := List.append_of_mem cancelled
    have none : ((u.following first).done (.cancel s')).handlers.lookup s.queue = none := by
      rw [done, lookup_cancel, if_pos same.symm]
    have later := lookup_following_eq_none none fun s h hmem =>
      newest s h (List.mem_append_right _ (List.mem_cons_of_mem _ hmem))
    rw [following, List.foldl_append] at serves
    cases serves.symm.trans later
  · intro kept
    rw [lookup_following_of_ne, served]
    intro deed hmem
    cases deed with
    | subscribe s' h' => exact newest s' h' hmem
    | cancel s' => exact kept s' hmem

/-- A subscription that was replaced is cancelled, and the one that replaced it serves no more. -/
theorem replaced_takes_newest :
    let older : Subscription := ⟨"a", 0⟩
    let newest : Subscription := ⟨"a", 1⟩
    let deeds : List (Deed Nat) := [.subscribe older 0, .subscribe newest 1, .cancel older]
    .cancel newest ∉ deeds ∧
      (empty.following deeds).handlers.lookup newest.queue = none := by
  decide

end Stepwise.Direct
