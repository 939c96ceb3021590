import Stepwise.Proofs.Expr.Scanning
import Stepwise.Proofs.Wire.RoundTrip

/-!
# What can be read

A float that is no number is written as null, and no field that asks for a number reads null.  So a
message with a date of the calendar is received as it was sent exactly when its numbers are finite
and its integers are short: `StepRequest.decode_body_iff`, `ExpressionResponse.decode_body_iff`.
-/

namespace Stepwise

open Json

/-! ## Floats that are null in a text -/

/-- The value that a text shows of a float. -/
def Json.shown (x : Float) : Json := if Decimal.isFinite x then .float x else .null

theorem Json.render_shown (x : Float) :
    render Decimal.wire (shown x) = render Decimal.wire (.float x) := by
  unfold shown
  split
  · rfl
  · next infinite =>
    unfold Decimal.isFinite at infinite
    rw [render, render, Decimal.Layout.render]
    split
    · rfl
    · rfl
    · rfl
    · next h => simp [h] at infinite

@[simp] theorem Json.plain_shown (depth : Nat) (x : Float) : Plain depth (shown x) := by
  unfold shown
  split
  · next finite => exact .float depth finite
  · exact .null depth

@[simp] theorem Json.short_shown (x : Float) : (shown x).Short := by
  unfold shown
  split
  · exact .float x
  · exact .null

theorem Fields.isFinite_of_float_shown {x y : Float} (h : float (shown x) = .ok y) :
    Decimal.isFinite x = true := by
  by_contra infinite
  rw [shown, if_neg infinite] at h
  cases h

theorem Checked.both_eq_ok {α β : Type} {a : Checked α} {b : Checked β} {p : α × β} :
    both a b = .ok p ↔ a = .ok p.1 ∧ b = .ok p.2 := by
  obtain ⟨x, y⟩ := p
  cases a <;> cases b <;> simp [both]

theorem mapError_eq_ok {ε ε' α : Type} {x : Except ε α} {f : ε → ε'} {a : α} :
    x.mapError f = .ok a ↔ x = .ok a := by
  cases x <;> simp [Except.mapError]

/-- Two operands are read one by one. -/
theorem Fields.operands_eq_ok {entries : List (String × Json)} {a b : Json} {p : Float × Float}
    (found : lookup "operands" entries = some (.array [a, b])) :
    operands entries = .ok p ↔ float a = .ok p.1 ∧ float b = .ok p.2 := by
  rw [operands, found]
  simp [Checked.within, mapError_eq_ok, Checked.both_eq_ok]

/-- Objects whose entries have the same texts have the same text. -/
theorem Json.render_object_congr {l : Decimal.Layout} {ps qs : List (String × Json)}
    (h : renderEntries l ps = renderEntries l qs) :
    render l (.object ps) = render l (.object qs) := by
  rw [render, render, h]

/-! ## Answers to expressions -/

/-- The answer to an expression is received as it was sent if it is a failure or a finite number,
and not at all otherwise. -/
theorem ExpressionResponse.decode_body_iff {r : ExpressionResponse} :
    decode r.body = .ok r ↔ r.outcome.IsFinite := by
  constructor
  · intro received
    obtain ⟨id, outcome⟩ := r
    cases outcome with
    | failed f => trivial
    | value x =>
      by_contra infinite
      have null : shown x = .null := if_neg infinite
      let entries := [("expression_id", Json.text id), ("result", shown x), ("error", .null)]
      have same : (⟨id, .value x⟩ : ExpressionResponse).body =
          Text.encode (Json.render Decimal.wire (.object entries)) := by
        rw [body, ExpressionResponse.render, toJson]
        refine congrArg Text.encode (Json.render_object_congr ?_)
        simp only [entries, Outcome.entries, renderEntries, render_shown]
      have read : entriesOf (⟨id, .value x⟩ : ExpressionResponse).body = .ok entries := by
        rw [same]
        exact ((entriesOf_encode (by simp [entries])).resolve_right fun h =>
          h.1 (by simp [entries])).2
      rw [decode, read] at received
      simp [entries, null, ofEntries, Fields.required, Fields.result, Fields.failure, lookup,
        Fields.located, Fields.text, Checked.both, Except.mapError, Fields.outcome, Checked.fail,
        Except.map] at received
  · exact decode_body

/-! ## Requests for steps -/

/-- The request for a step is received as it was sent if its operands are finite numbers and its
number is one that a reader takes, and not as it was sent otherwise. -/
theorem StepRequest.decode_body_iff {r : StepRequest} (deadline : ShortInt r.deadlineMs)
    (issued : r.issuedAt.OnCalendar) (zone : ∀ minutes ∈ r.issuedAt.offset, minutes.natAbs < 1440)
    (now : Timestamp) :
    decode r.body now = .ok r ↔
      (Decimal.isFinite r.left = true ∧ Decimal.isFinite r.right = true) ∧ ShortInt r.stepId := by
  constructor
  · intro received
    have finite : Decimal.isFinite r.left = true ∧ Decimal.isFinite r.right = true := by
      by_contra infinite
      let entries := [("expression_id", Json.text r.expressionId), ("step_id", .int r.stepId),
        ("operation", .text r.operation.name), ("operands", .array [shown r.left, shown r.right]),
        ("deadline_ms", .int r.deadlineMs), ("issued_at", .text r.issuedAt.render)]
      have same : r.body = Text.encode (Json.render Decimal.wire (.object entries)) := by
        rw [body, StepRequest.render]
        refine congrArg Text.encode (Json.render_object_congr ?_)
        simp only [entries, renderEntries, Json.render, renderItems, render_shown]
      have plain : Plain 200 (.object entries) := by simp [entries]
      have refused : ∀ p, Fields.operands entries ≠ .ok p := by
        intro p hp
        have found : lookup "operands" entries =
            some (.array [shown r.left, shown r.right]) := by simp [entries, lookup]
        obtain ⟨left, right⟩ := (Fields.operands_eq_ok found).1 hp
        exact infinite ⟨Fields.isFinite_of_float_shown left, Fields.isFinite_of_float_shown right⟩
      rcases entriesOf_encode plain with ⟨-, read⟩ | ⟨-, read⟩
      · rw [decode, same, read] at received
        obtain ⟨p, fields, -⟩ := exists_of_map_ok received
        simp only [Checked.both_eq_ok] at fields
        exact refused _ fields.2.2.2.1
      · rw [decode, same, read] at received
        cases received
    exact ⟨finite, (eq_of_decode_body finite.1 finite.2 received).1⟩
  · rintro ⟨⟨left, right⟩, step⟩
    exact decode_body left right step deadline issued zone now

end Stepwise
