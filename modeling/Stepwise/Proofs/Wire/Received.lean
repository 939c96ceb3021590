import Mathlib.Logic.Basic
import Stepwise.Proofs.Wire.Legible

/-!
# Messages are received as they were sent

Each of the four messages is written as one object, its fields in a fixed order, and is read back as
it was: texts of any characters, integers of up to 4300 digits, finite floats to the last bit, and
UTC times of the calendar (`received_as_sent`).  A body that is read as a response shows a result or
an error, one of the two and not both (`Outcome.ShownBy`).
-/

namespace Stepwise

open Json

/-! ## One of a result and an error -/

/-- An object has a field, and the field is not null. -/
def Json.Present (key : String) (entries : List (String × Json)) : Prop :=
  ∃ v, lookup key entries = some v ∧ v ≠ .null

/-- An object shows an outcome: the field of the outcome is there and the other one is not. -/
def Outcome.ShownBy (entries : List (String × Json)) : Outcome → Prop
  | value _ => Present "result" entries ∧ ¬ Present "error" entries
  | failed _ => Present "error" entries ∧ ¬ Present "result" entries

theorem Json.not_present_of_lookup {key : String} {entries : List (String × Json)}
    (h : lookup key entries = none ∨ lookup key entries = some .null) :
    ¬ Present key entries := by
  rintro ⟨v, found, hv⟩
  rcases h with h | h
  · simp [h] at found
  · rw [h, Option.some.injEq] at found
    exact hv found.symm

namespace Fields

variable {entries : List (String × Json)}

/-- A result is read off an object that has one, and off no other. -/
theorem present_result_iff {x : Option Float} (h : result entries = .ok x) :
    Present "result" entries ↔ x.isSome = true := by
  unfold result at h
  split at h
  · next absent =>
    cases h
    exact iff_of_false (Json.not_present_of_lookup (Or.inl absent)) (by simp)
  · next absent =>
    cases h
    exact iff_of_false (Json.not_present_of_lookup (Or.inr absent)) (by simp)
  · next v hv found =>
    obtain ⟨y, -, rfl⟩ := exists_of_map_ok h
    exact iff_of_true ⟨v, found, hv⟩ rfl

/-- An error is read off an object that has one, and off no other. -/
theorem present_error_iff {f : Option Failure} (h : Fields.failure entries = .ok f) :
    Present "error" entries ↔ f.isSome = true := by
  unfold Fields.failure at h
  split at h
  · next absent =>
    cases h
    exact iff_of_false (Json.not_present_of_lookup (Or.inl absent)) (by simp)
  · next absent =>
    cases h
    exact iff_of_false (Json.not_present_of_lookup (Or.inr absent)) (by simp)
  · next fields found =>
    rw [Checked.within, mapError_eq_ok] at h
    obtain ⟨p, -, rfl⟩ := exists_of_map_ok h
    exact iff_of_true ⟨.object fields, found, by simp⟩ rfl
  · cases h

theorem shownBy_of_outcome {x : Option Float} {f : Option Failure} {o : Outcome}
    (hx : result entries = .ok x) (hf : Fields.failure entries = .ok f)
    (h : Fields.outcome x f = .ok o) : o.ShownBy entries := by
  have hx := present_result_iff hx
  have hf := present_error_iff hf
  unfold Fields.outcome at h
  split at h
  · cases h
    show Present "result" entries ∧ ¬ Present "error" entries
    simp [hx, hf]
  · cases h
    show Present "error" entries ∧ ¬ Present "result" entries
    simp [hx, hf]
  · cases h

end Fields

/-- The two fields exclude each other. -/
theorem Outcome.ShownBy.xor {entries : List (String × Json)} {o : Outcome} (h : o.ShownBy entries) :
    Xor (Present "result" entries) (Present "error" entries) := by
  cases o with
  | value x => exact Or.inl h
  | failed f => exact Or.inr h

theorem ExpressionResponse.shownBy_of_decode {body : Text.Body} {r : ExpressionResponse}
    (h : decode body = .ok r) : ∃ entries, entriesOf body = .ok entries ∧
      r.outcome.ShownBy entries := by
  unfold decode at h
  split at h
  · cases h
  · next entries read =>
    unfold ofEntries at h
    split at h
    · cases h
    · next id x f fields =>
      obtain ⟨o, made, rfl⟩ := exists_of_map_ok h
      simp only [Checked.both_eq_ok] at fields
      exact ⟨entries, read, Fields.shownBy_of_outcome fields.2.1 fields.2.2 made⟩

theorem StepResponse.shownBy_of_decode {body : Text.Body} {r : StepResponse}
    (h : decode body = .ok r) : ∃ entries, entriesOf body = .ok entries ∧
      r.outcome.ShownBy entries := by
  unfold decode at h
  split at h
  · cases h
  · next entries read =>
    split at h
    · cases h
    · next id step x f fields =>
      obtain ⟨o, made, rfl⟩ := exists_of_map_ok h
      simp only [Checked.both_eq_ok] at fields
      exact ⟨entries, read, Fields.shownBy_of_outcome fields.2.2.1 fields.2.2.2 made⟩

/-! ## All messages -/

theorem Json.shortInt_of_natAbs_lt {i : Int} (h : i.natAbs < 10 ^ 4300) : ShortInt i :=
  shortInt_of_lt (by decide) le_rfl h

/-- Every message is received as it was sent, whatever else its receiver knows: the texts in it are
any, its integers are below `10 ^ 4300`, its floats are finite, and its time is a UTC time of the
years 1 to 9999.  It is written as one object with the fields in order.  And what is read as a
response has one of a result and an error. -/
theorem received_as_sent :
    (∀ (r : ExpressionRequest) (freshId : String), r.deadlineMs.natAbs < 10 ^ 4300 →
      r.body = Text.encode (Json.render Decimal.wire (.object r.entries)) ∧
        ExpressionRequest.decode r.body freshId = (.ok r, false)) ∧
    (∀ r : ExpressionResponse, (∀ x, r.outcome = .value x → Decimal.isFinite x = true) →
      r.body = Text.encode (Json.render Decimal.wire (.object r.entries)) ∧
        ExpressionResponse.decode r.body = .ok r) ∧
    (∀ (r : StepRequest) (now : Timestamp), r.stepId.natAbs < 10 ^ 4300 →
      r.deadlineMs.natAbs < 10 ^ 4300 → Decimal.isFinite r.left = true →
      Decimal.isFinite r.right = true → r.issuedAt.OnCalendar → r.issuedAt.offset = some 0 →
      r.body = Text.encode (Json.render Decimal.wire (.object r.entries)) ∧
        StepRequest.decode r.body now = .ok r) ∧
    (∀ r : StepResponse, r.stepId.natAbs < 10 ^ 4300 →
      (∀ x, r.outcome = .value x → Decimal.isFinite x = true) →
      r.body = Text.encode (Json.render Decimal.wire (.object r.entries)) ∧
        StepResponse.decode r.body = .ok r) ∧
    (∀ (body : Text.Body) (r : ExpressionResponse), ExpressionResponse.decode body = .ok r →
      ∃ entries, entriesOf body = .ok entries ∧ r.outcome.ShownBy entries ∧
        Xor (Present "result" entries) (Present "error" entries)) ∧
    (∀ (body : Text.Body) (r : StepResponse), StepResponse.decode body = .ok r →
      ∃ entries, entriesOf body = .ok entries ∧ r.outcome.ShownBy entries ∧
        Xor (Present "result" entries) (Present "error" entries)) := by
  refine ⟨?_, ?_, ?_, ?_, ?_, ?_⟩
  · intro r freshId deadline
    exact ⟨rfl, ExpressionRequest.decode_body_of_short (shortInt_of_natAbs_lt deadline) freshId⟩
  · intro r finite
    exact ⟨rfl, ExpressionResponse.decode_body (Outcome.isFinite_of_value finite)⟩
  · intro r now step deadline left right issued utc
    have zone : ∀ minutes ∈ r.issuedAt.offset, minutes.natAbs < 1440 := by simp [utc]
    exact ⟨rfl, StepRequest.decode_body left right (shortInt_of_natAbs_lt step)
      (shortInt_of_natAbs_lt deadline) issued zone now⟩
  · intro r step finite
    exact ⟨rfl, StepResponse.decode_body (Outcome.isFinite_of_value finite)
      (shortInt_of_natAbs_lt step)⟩
  · intro body r read
    obtain ⟨entries, object, shown⟩ := ExpressionResponse.shownBy_of_decode read
    exact ⟨entries, object, shown, shown.xor⟩
  · intro body r read
    obtain ⟨entries, object, shown⟩ := StepResponse.shownBy_of_decode read
    exact ⟨entries, object, shown, shown.xor⟩

/-- A text with a quote, a control character and characters beyond ASCII. -/
def oddText : String := "a\"\\\u0001é😀"

/-- The smallest float above zero, and minus zero, in a step of the first microsecond of all. -/
def oddStep : StepRequest :=
  ⟨oddText, 0, .divide, Float.ofBits 1, -0, -(10 ^ 4300 - 1), ⟨1, 1, 1, 0, 0, 0, 1, some 0⟩⟩

theorem received_as_sent_odd :
    ExpressionRequest.decode (⟨oddText, oddText, 10 ^ 4300 - 1⟩ : ExpressionRequest).body "" =
      (.ok ⟨oddText, oddText, 10 ^ 4300 - 1⟩, false) ∧
    ExpressionResponse.decode (⟨oddText, .value (-0)⟩ : ExpressionResponse).body =
      .ok ⟨oddText, .value (-0)⟩ ∧
    StepRequest.decode oddStep.body default = .ok oddStep ∧
    StepResponse.decode (⟨oddText, -1, .failed ⟨.divByZero, oddText⟩⟩ : StepResponse).body =
      .ok ⟨oddText, -1, .failed ⟨.divByZero, oddText⟩⟩ ∧
    ∃ entries, entriesOf (⟨oddText, .value (-0)⟩ : ExpressionResponse).body = .ok entries ∧
      Xor (Present "result" entries) (Present "error" entries) := by
  obtain ⟨requests, responses, steps, answers, shown, -⟩ := received_as_sent
  have zero : ∀ x, Outcome.value (-0) = .value x → Decimal.isFinite x = true := by
    intro x hx
    rw [← Outcome.value.inj hx]
    decide +kernel
  have response := (responses ⟨oddText, .value (-0)⟩ zero).2
  have first : oddStep.issuedAt.OnCalendar :=
    ⟨by decide, by decide, by decide, by decide, by decide, by decide, by decide⟩
  refine ⟨(requests ⟨oddText, oddText, 10 ^ 4300 - 1⟩ "" (by decide +kernel)).2, response,
    (steps oddStep default (by decide +kernel) (by decide +kernel) (by decide +kernel)
      (by decide +kernel) first rfl).2,
    (answers ⟨oddText, -1, .failed ⟨.divByZero, oddText⟩⟩ (by decide +kernel) nofun).2, ?_⟩
  obtain ⟨entries, object, -, one⟩ := shown _ _ response
  exact ⟨entries, object, one⟩

end Stepwise
