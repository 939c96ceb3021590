import Stepwise.Proofs.Service.Reference
import Stepwise.Proofs.Transport.Outcome
import Stepwise.Proofs.Wire.RoundTrip
import Stepwise.Service.Worker

/-!
# What workers answer

A worker answers a step of its own operation with the outcome of the operation, unless it is late.
-/

namespace Stepwise

namespace Worker

open Stepwise.Text (Body)

variable {σ η : Type} {settings : Settings} {own : Operation} {body : Body}

/-- The answer to a step of the worker's own operation. -/
theorem answer_spec {now : Timestamp} {r : StepRequest} {response : StepResponse}
    (op : r.operation = own) (h : answer own now r = .ok response) :
    response.expressionId = r.expressionId ∧ response.stepId = r.stepId ∧
      response.outcome.LateOr (some (r.operation.outcome r.left r.right)) := by
  rw [answer, perform, if_neg (not_not_intro op)] at h
  cases he : isExpired now r with
  | error fault =>
    rw [he] at h
    cases h
  | ok expired =>
    rw [he] at h
    cases expired with
    | true =>
      cases h
      exact ⟨rfl, rfl, Or.inl rfl⟩
    | false =>
      cases h
      refine ⟨rfl, rfl, Or.inr ?_⟩
      unfold Operation.outcome
      cases r.operation.execute r.left r.right <;> rfl

/-- A delivery is answered or rejected. -/
theorem onDelivery_spec {s t : σ} {es : List (Effect η)} {x : Except Fault Unit}
    (h : (onDelivery settings own body).Yields s x t es) :
    t = s ∧ ((x = .ok () → es = [.settled .reject] ∨
      ∃ now request response accepted settlement, StepRequest.decode body now = .ok request ∧
        answer own now request = .ok response ∧
        es = [.handed accepted ⟨settings.resultsQueue, response.body⟩, .settled settlement])) := by
  rw [onDelivery, Routine.yields_now_bind] at h
  obtain ⟨now, h⟩ := h
  cases hn : Timestamp.onClock? now with
  | none =>
    rw [hn] at h
    obtain ⟨rfl, rfl, -⟩ := h
    exact ⟨rfl, nofun⟩
  | some stamp =>
    rw [hn] at h
    simp only at h
    cases hd : StepRequest.decode body stamp with
    | error issues =>
      rw [hd] at h
      obtain ⟨rest, rfl, -, rfl, rfl⟩ := h
      exact ⟨rfl, fun _ => Or.inl rfl⟩
    | ok request =>
      rw [hd] at h
      simp only at h
      cases ha : answer own stamp request with
      | error fault =>
        rw [ha] at h
        obtain ⟨rfl, rfl, -⟩ := h
        exact ⟨rfl, nofun⟩
      | ok response =>
        rw [ha] at h
        simp only [Routine.yields_tryPublish_bind] at h
        rcases h with ⟨rest, rfl, more, rfl, -, rfl, rfl⟩ |
          ⟨refusal, rest, rfl, more, rfl, -, rfl, rfl⟩
        · exact ⟨rfl, fun _ => Or.inr ⟨_, request, response, true, .ack, hd, ha, rfl⟩⟩
        · exact ⟨rfl, fun _ => Or.inr ⟨_, request, response, false, .requeue, hd, ha, rfl⟩⟩

end Worker

end Stepwise
