import Stepwise.Proofs.Json.RoundTrip
import Stepwise.Proofs.Text.Encoding
import Stepwise.Proofs.Wire.Calendar
import Stepwise.Wire.Decode

/-!
# What is sent is received

A message that is written and decoded again is the same message, unless an integer in it has more
digits than a reader takes.
-/

namespace Stepwise

open Json

/-- Outcomes that can be written. -/
def Outcome.IsFinite : Outcome → Prop
  | value x => Decimal.isFinite x = true
  | failed _ => True

theorem Outcome.isFinite_of_value {o : Outcome}
    (h : ∀ x, o = .value x → Decimal.isFinite x = true) : o.IsFinite := by
  cases o with
  | value x => exact h x rfl
  | failed f => trivial

theorem entriesOf_encode {ps : List (String × Json)} (plain : Plain 200 (.object ps)) :
    ((Json.object ps).Short ∧
      entriesOf (Text.encode (Json.render Decimal.wire (.object ps))) = .ok ps) ∨
    (¬ (Json.object ps).Short ∧
      entriesOf (Text.encode (Json.render Decimal.wire (.object ps))) =
        Checked.fail [] .jsonInvalid) := by
  rw [entriesOf, Text.decode?_encode, Option.map_some]
  rcases read_render Decimal.wire Json.wire (fun _ => le_rfl) plain with
    ⟨short, h⟩ | ⟨long, place, h⟩
  · rw [h]
    exact Or.inl ⟨short, rfl⟩
  · rw [h]
    exact Or.inr ⟨long, rfl⟩

/-- A body that is refused for an integer in it shows no id either. -/
theorem glanceId?_encode {ps : List (String × Json)} (hne : ps ≠ [])
    (plain : Plain 1 (.object ps)) (long : ¬ (Json.object ps).Short) :
    glanceId? (Text.encode (Json.render Decimal.wire (.object ps))) = none := by
  obtain ⟨quote, rest, hquote, heq⟩ := exists_quote_entriesText Decimal.wire hne
  have first := toList_render_object Decimal.wire ps
  rw [heq] at first
  have ascii : Text.IsAscii quote := by
    rw [Text.IsAscii, hquote]
    decide
  rw [glanceId?, Text.decodeAny?_encode first ⟨by decide, by decide⟩ ascii, Option.map_some]
  obtain ⟨-, place, read⟩ :=
    (read_render Decimal.wire Json.lenient (fun size => Nat.le_add_left 1 size) plain).resolve_left
      fun h => long h.1
  rw [read]

/-! ## Fields -/

theorem Fields.required_eq {α : Type} {entries : List (String × Json)} {name : String} {v : Json}
    {read : Json → Except IssueKind α} {a : α} (found : lookup name entries = some v)
    (value : read v = .ok a) : required entries name read = .ok a := by
  rw [required, found]
  simp only [located, value]
  rfl

/-- The number and the failure of an outcome, one of them absent. -/
def Outcome.parts : Outcome → Option Float × Option Failure
  | value x => (some x, none)
  | failed f => (none, some f)

theorem Fields.outcome_parts (o : Outcome) : Fields.outcome o.parts.1 o.parts.2 = .ok o := by
  cases o <;> rfl

theorem plain_outcome {o : Outcome} {depth : Nat} (finite : o.IsFinite) :
    ∀ p ∈ o.entries, Plain (depth + 1) p.2 := by
  cases o with
  | value x => simpa [Outcome.entries, Outcome.IsFinite] using finite
  | failed f => simp [Outcome.entries]

theorem short_outcome (o : Outcome) : ∀ p ∈ o.entries, p.2.Short := by
  cases o <;> simp [Outcome.entries]

/-- An outcome leaves other names alone. -/
theorem lookup_append_outcome (front : List (String × Json)) (o : Outcome) {key : String}
    (hr : key ≠ "result") (he : key ≠ "error") :
    lookup key (front ++ o.entries) = lookup key front := by
  rw [lookup, lookup, List.foldl_append]
  cases o <;> simp [Outcome.entries, hr.symm, he.symm]

/-- The fields of an outcome are found after any others. -/
theorem Fields.result_entries (o : Outcome) (front : List (String × Json)) :
    Fields.result (front ++ o.entries) = .ok o.parts.1 := by
  cases o with
  | value x =>
    simp [result, Outcome.entries, lookup, located, float, Outcome.parts]
    rfl
  | failed f => simp [result, Outcome.entries, lookup, Outcome.parts]

theorem Fields.failure_entries (o : Outcome) (front : List (String × Json)) :
    Fields.failure (front ++ o.entries) = .ok o.parts.2 := by
  cases o with
  | value x => simp [failure, Outcome.entries, lookup, Outcome.parts]
  | failed f =>
    simp [failure, Outcome.entries, lookup, Outcome.parts, required, located, text, member,
      ErrorCode.ofName?_name]
    rfl

/-! ## Requests for expressions -/

/-- The entries of the request for an expression. -/
def ExpressionRequest.entries (r : ExpressionRequest) : List (String × Json) :=
  [("expression_id", .text r.expressionId), ("expression", .text r.expression),
    ("deadline_ms", .int r.deadlineMs)]

theorem ExpressionRequest.plain_entries (r : ExpressionRequest) :
    Plain 1 (.object r.entries) := by
  simp [entries]

theorem ExpressionRequest.decode_of_entriesOf {r : ExpressionRequest}
    (read : entriesOf r.body = .ok r.entries) (freshId : String) :
    decode r.body freshId = (.ok r, false) := by
  rw [decode, read]
  simp [entries, Fields.optional, Fields.required, lookup, Fields.located, Fields.text,
    Fields.int, Checked.both, Except.map, Except.mapError]

/-- The request for an expression is received as it was sent, or refused without a trace. -/
theorem ExpressionRequest.decode_body (r : ExpressionRequest) (freshId : String) :
    decode r.body freshId = (.ok r, false) ∨
      (∃ issues, decode r.body freshId = (.error issues, false)) ∧ glanceId? r.body = none := by
  rcases entriesOf_encode (r.plain_entries.mono (by decide)) with ⟨-, read⟩ | ⟨long, read⟩
  · exact Or.inl (decode_of_entriesOf read freshId)
  · right
    have read : entriesOf r.body = Checked.fail [] .jsonInvalid := read
    refine ⟨⟨[⟨[], .jsonInvalid⟩], ?_⟩, glanceId?_encode (by simp) r.plain_entries long⟩
    rw [decode, read]
    rfl

/-- A request whose deadline a reader takes is received as it was sent. -/
theorem ExpressionRequest.decode_body_of_short {r : ExpressionRequest}
    (short : ShortInt r.deadlineMs) (freshId : String) :
    decode r.body freshId = (.ok r, false) := by
  have short : (Json.object r.entries).Short := by simpa [entries] using short
  exact decode_of_entriesOf
    ((entriesOf_encode (r.plain_entries.mono (by decide))).resolve_right fun h => h.1 short).2
    freshId

/-! ## Answers -/

/-- The entries of the answer to a step. -/
def StepResponse.entries (r : StepResponse) : List (String × Json) :=
  [("expression_id", .text r.expressionId), ("step_id", .int r.stepId)] ++ r.outcome.entries

theorem StepResponse.entriesOf_body {r : StepResponse} (finite : r.outcome.IsFinite)
    (short : ShortInt r.stepId) : entriesOf r.body = .ok r.entries := by
  have plain : Plain 200 (.object r.entries) := by
    simpa [entries, or_imp, forall_and] using plain_outcome finite
  have short : (Json.object r.entries).Short := by
    simpa [entries, or_imp, forall_and, short] using short_outcome r.outcome
  exact ((entriesOf_encode plain).resolve_right fun h => h.1 short).2

/-- The answer to a step is received as it was sent. -/
theorem StepResponse.decode_body {r : StepResponse} (finite : r.outcome.IsFinite)
    (short : ShortInt r.stepId) : decode r.body = .ok r := by
  have read := entriesOf_body finite short
  have id : Fields.required r.entries "expression_id" Fields.text = .ok r.expressionId := by
    refine Fields.required_eq (v := .text r.expressionId) ?_ rfl
    rw [entries, lookup_append_outcome _ _ (by decide) (by decide)]
    simp [lookup]
  have step : Fields.required r.entries "step_id" Fields.int = .ok r.stepId := by
    refine Fields.required_eq (v := .int r.stepId) ?_ rfl
    rw [entries, lookup_append_outcome _ _ (by decide) (by decide)]
    simp [lookup]
  have result : Fields.result r.entries = .ok r.outcome.parts.1 := Fields.result_entries _ _
  have failure : Fields.failure r.entries = .ok r.outcome.parts.2 := Fields.failure_entries _ _
  simp [decode, read, id, step, result, failure, Checked.both, Fields.outcome_parts, Except.map]

/-- The answer to a step is received, if it is, as it was sent. -/
theorem StepResponse.eq_of_decode_body {r r' : StepResponse} (finite : r.outcome.IsFinite)
    (h : decode r.body = .ok r') : r' = r := by
  have plain : Plain 200 (.object r.entries) := by
    simpa [entries, or_imp, forall_and] using plain_outcome finite
  rcases entriesOf_encode plain with ⟨short, -⟩ | ⟨-, read⟩
  · have short : ShortInt r.stepId := by
      simp only [entries, Json.short_object, List.cons_append, List.forall_mem_cons] at short
      simpa using short.2.1
    rw [decode_body finite short] at h
    exact (Except.ok.inj h).symm
  · change entriesOf r.body = _ at read
    rw [decode, read] at h
    cases h

/-- The entries of the answer to an expression. -/
def ExpressionResponse.entries (r : ExpressionResponse) : List (String × Json) :=
  [("expression_id", .text r.expressionId)] ++ r.outcome.entries

theorem ExpressionResponse.entriesOf_body {r : ExpressionResponse} (finite : r.outcome.IsFinite) :
    entriesOf r.body = .ok r.entries := by
  have plain : Plain 200 (.object r.entries) := by
    simpa [entries] using plain_outcome finite
  have short : (Json.object r.entries).Short := by
    simpa [entries] using short_outcome r.outcome
  exact ((entriesOf_encode plain).resolve_right fun h => h.1 short).2

/-- The answer to an expression is received as it was sent. -/
theorem ExpressionResponse.decode_body {r : ExpressionResponse} (finite : r.outcome.IsFinite) :
    decode r.body = .ok r := by
  have read := entriesOf_body finite
  have id : Fields.required r.entries "expression_id" Fields.text = .ok r.expressionId := by
    refine Fields.required_eq (v := .text r.expressionId) ?_ rfl
    rw [entries, lookup_append_outcome _ _ (by decide) (by decide)]
    simp [lookup]
  have result : Fields.result r.entries = .ok r.outcome.parts.1 := Fields.result_entries _ _
  have failure : Fields.failure r.entries = .ok r.outcome.parts.2 := Fields.failure_entries _ _
  simp [decode, ofEntries, read, id, result, failure, Checked.both, Fields.outcome_parts,
    Except.map]

/-! ## Requests for steps -/

/-- The entries of the request for a step. -/
def StepRequest.entries (r : StepRequest) : List (String × Json) :=
  [("expression_id", .text r.expressionId), ("step_id", .int r.stepId),
    ("operation", .text r.operation.name), ("operands", .array [.float r.left, .float r.right]),
    ("deadline_ms", .int r.deadlineMs), ("issued_at", .text r.issuedAt.render)]

theorem StepRequest.entriesOf_body {r : StepRequest} (left : Decimal.isFinite r.left = true)
    (right : Decimal.isFinite r.right = true) :
    (ShortInt r.stepId ∧ entriesOf r.body = .ok r.entries) ∨
      entriesOf r.body = Checked.fail [] .jsonInvalid := by
  have plain : Plain 200 (.object r.entries) := by
    simp [entries, left, right]
  rcases entriesOf_encode plain with ⟨short, read⟩ | ⟨-, read⟩
  · have step : ShortInt r.stepId := by
      simp [entries] at short
      exact short.1
    exact Or.inl ⟨step, read⟩
  · exact Or.inr read

/-- All fields of a request for a step are received as they were sent but for the time. -/
theorem StepRequest.decode_of_entriesOf {r : StepRequest} (read : entriesOf r.body = .ok r.entries)
    (now : Timestamp) :
    decode r.body now = (Fields.optional r.entries "issued_at" Fields.timestamp).map fun issued =>
      { r with issuedAt := issued.getD now } := by
  have id : Fields.required r.entries "expression_id" Fields.text = .ok r.expressionId :=
    Fields.required_eq (v := .text r.expressionId) (by simp [entries, lookup]) rfl
  have step : Fields.required r.entries "step_id" Fields.int = .ok r.stepId :=
    Fields.required_eq (v := .int r.stepId) (by simp [entries, lookup]) rfl
  have operation : Fields.required r.entries "operation" (Fields.member Operation.ofName?) =
      .ok r.operation :=
    Fields.required_eq (v := .text r.operation.name) (by simp [entries, lookup])
      (by simp [Fields.member, Operation.ofName?_name])
  have operands : Fields.operands r.entries = .ok (r.left, r.right) := by
    simp [entries, Fields.operands, lookup, Fields.float, Checked.both, Checked.within,
      Except.mapError]
  have deadline : Fields.required r.entries "deadline_ms" Fields.int = .ok r.deadlineMs :=
    Fields.required_eq (v := .int r.deadlineMs) (by simp [entries, lookup]) rfl
  rw [decode, read]
  simp only [id, step, operation, operands, deadline]
  cases Fields.optional r.entries "issued_at" Fields.timestamp <;> rfl

/-- A request for a step is received, if it is, with the operands that were sent. -/
theorem StepRequest.eq_of_decode_body {r r' : StepRequest} {now : Timestamp}
    (left : Decimal.isFinite r.left = true) (right : Decimal.isFinite r.right = true)
    (h : decode r.body now = .ok r') :
    ShortInt r.stepId ∧ ∃ issued, r' = { r with issuedAt := issued } := by
  rcases entriesOf_body left right with ⟨short, read⟩ | read
  · rw [decode_of_entriesOf read] at h
    cases hi : Fields.optional r.entries "issued_at" Fields.timestamp with
    | error issues =>
      rw [hi] at h
      cases h
    | ok issued =>
      rw [hi] at h
      cases h
      exact ⟨short, _, rfl⟩
  · rw [decode, read] at h
    cases h

/-- A request for a step is received as it was sent, if its time is one of the calendar. -/
theorem StepRequest.decode_body {r : StepRequest} (left : Decimal.isFinite r.left = true)
    (right : Decimal.isFinite r.right = true) (step : ShortInt r.stepId)
    (deadline : ShortInt r.deadlineMs) (issued : r.issuedAt.OnCalendar)
    (zone : ∀ minutes ∈ r.issuedAt.offset, minutes.natAbs < 1440) (now : Timestamp) :
    decode r.body now = .ok r := by
  have plain : Plain 200 (.object r.entries) := by
    simp [entries, left, right]
  have short : (Json.object r.entries).Short := by
    simp [entries, step, deadline]
  have read : entriesOf r.body = .ok r.entries :=
    ((entriesOf_encode plain).resolve_right fun h => h.1 short).2
  have time : Fields.optional r.entries "issued_at" Fields.timestamp =
      .ok (some r.issuedAt) := by
    simp [Fields.optional, entries, lookup, Fields.located, Fields.timestamp,
      Timestamp.ofText?_render issued zone, Except.map, Except.mapError]
  rw [decode_of_entriesOf read, time]
  rfl

/-! ## Telling messages apart -/

theorem renderText_append_inj {s t : String} {xs ys : List Char}
    (h : (renderText s).toList ++ xs = (renderText t).toList ++ ys) : s = t ∧ xs = ys := by
  have read := key_renderText s xs
  rw [h, key_renderText] at read
  cases read
  exact ⟨rfl, rfl⟩

/-- Objects with the same text that start with a text under the same key have the same text there,
and the same key after it. -/
theorem head_eq_of_render_eq {l : Decimal.Layout} {key s t : String} {p q : String × Json}
    {ps qs : List (String × Json)}
    (h : render l (.object ((key, .text s) :: p :: ps)) =
      render l (.object ((key, .text t) :: q :: qs))) : s = t ∧ p.1 = q.1 := by
  have texts := congrArg String.toList h
  rw [toList_render_object, toList_render_object, List.cons_inj_right] at texts
  have texts := List.append_cancel_right texts
  rw [entriesText_cons_cons, entriesText_cons_cons, entryText, entryText, List.append_assoc,
    List.append_assoc] at texts
  have texts := List.cons.inj (renderText_append_inj texts).2
  rw [render, render] at texts
  obtain ⟨hs, texts⟩ := renderText_append_inj texts.2
  refine ⟨hs, ?_⟩
  have texts := (List.cons.inj texts).2
  have first : ∀ (p : String × Json) ps, ∃ xs, entriesText l (p :: ps) =
      (renderText p.1).toList ++ xs := by
    rintro p (_ | ⟨q, ps⟩)
    · exact ⟨_, entriesText_singleton l p⟩
    · rw [entriesText_cons_cons, entryText, List.append_assoc]
      exact ⟨_, rfl⟩
  obtain ⟨xs, hp⟩ := first p ps
  obtain ⟨ys, hq⟩ := first q qs
  rw [hp, hq] at texts
  exact (renderText_append_inj texts).1

theorem encode_inj {s t : String} (h : Text.encode s = Text.encode t) : s = t := by
  have read := Text.decode?_encode s
  rw [h, Text.decode?_encode] at read
  exact (Option.some.inj read).symm

theorem Outcome.exists_entries (o : Outcome) :
    ∃ v rest, o.entries = ("result", v) :: rest := by
  cases o <;> exact ⟨_, _, rfl⟩

/-- The body of a response tells the id. -/
theorem ExpressionResponse.expressionId_eq_of_body {r r' : ExpressionResponse}
    (h : r.body = r'.body) : r.expressionId = r'.expressionId := by
  have h := encode_inj h
  rw [render, render, toJson, toJson] at h
  obtain ⟨v, rest, hv⟩ := r.outcome.exists_entries
  obtain ⟨v', rest', hv'⟩ := r'.outcome.exists_entries
  rw [hv, hv'] at h
  exact (head_eq_of_render_eq h).1

/-- The request for a step is no response. -/
theorem StepRequest.body_ne (q : StepRequest) (r : ExpressionResponse) : q.body ≠ r.body := by
  intro h
  have h := encode_inj h
  rw [StepRequest.render, ExpressionResponse.render, ExpressionResponse.toJson] at h
  obtain ⟨v, rest, hv⟩ := r.outcome.exists_entries
  rw [hv] at h
  have keys : "step_id" = "result" := (head_eq_of_render_eq h).2
  exact absurd keys (by decide)

end Stepwise
