import Mathlib.Data.List.Infix
import Stepwise.Service.Client

/-!
# Who issued an id

An id is the name of its client, the mark and a number, and the name is read back as what stands
before the first mark (`clientOf`).  The mark begins as it ends, with an underscore, so the end of a
name and the beginning of the mark behind it may make up a mark that comes earlier
(`idMark_prefix_append_iff`).  That happens to names that end in `_expr`: together with the names
that hold a mark of their own they are the ones that are not read back (`clientOf_nextId_iff`).
-/

namespace Stepwise

/-- A mark that begins inside a text and not behind it stands in the text, or all of the text but
the underscore at the mark's end is the text. -/
theorem idMark_prefix_append_iff {text rest : List Char} (nonempty : text ≠ []) :
    idMark <+: text ++ (idMark ++ rest) ↔ idMark <+: text ∨ text = "_expr".toList := by
  constructor
  · intro begins
    rcases Nat.lt_or_ge text.length idMark.length with short | long
    · right
      -- the text is a beginning of the mark, and what it lacks of the mark is another one
      have front : text <+: idMark :=
        List.prefix_of_prefix_length_le (List.prefix_append _ _) begins short.le
      obtain ⟨lacking, split⟩ := front
      have overlap : lacking <+: idMark := by
        rw [← split, List.prefix_append_right_inj, split] at begins
        refine List.prefix_of_prefix_length_le begins (List.prefix_append _ _) ?_
        rw [← split, List.length_append]
        exact Nat.le_add_left _ _
      have cut : text = idMark.take text.length ∧ lacking = idMark.drop text.length := by
        rw [← split, List.take_left, List.drop_left]
        exact ⟨rfl, rfl⟩
      have only : ∀ k < idMark.length, k ≠ 0 → idMark.drop k <+: idMark →
          idMark.take k = "_expr".toList := by
        decide
      rw [cut.1]
      exact only _ short (mt List.length_eq_zero_iff.1 nonempty) (cut.2 ▸ overlap)
    · exact Or.inl (List.prefix_of_prefix_length_le begins (List.prefix_append _ _) long)
  · rintro (inside | rfl)
    · exact inside.trans (List.prefix_append _ _)
    · exact ⟨"expr_".toList ++ rest, rfl⟩

/-- A text is what stands before the mark behind it unless there is an earlier mark. -/
theorem beforeMark?_append_iff (text rest : List Char) :
    beforeMark? (text ++ (idMark ++ rest)) = some text ↔
      ¬ idMark <:+: text ∧ ¬ "_expr".toList <:+ text := by
  induction text with
  | nil =>
    have found : beforeMark? ([] ++ (idMark ++ rest)) = some [] := rfl
    simp only [found, true_iff]
    decide
  | cons c text ih =>
    have step : beforeMark? (c :: text ++ (idMark ++ rest)) = some (c :: text) ↔
        ¬ idMark <+: c :: text ++ (idMark ++ rest) ∧
          beforeMark? (text ++ (idMark ++ rest)) = some text := by
      rw [List.cons_append, beforeMark?, ← List.isPrefixOf_iff_prefix]
      split <;> simp_all
    rw [step, ih, idMark_prefix_append_iff (List.cons_ne_nil _ _), List.infix_cons_iff,
      List.suffix_cons_iff]
    tauto

/-- There is something before a mark that stands behind a text. -/
theorem exists_beforeMark? (text rest : List Char) :
    ∃ before, beforeMark? (text ++ (idMark ++ rest)) = some before := by
  induction text with
  | nil => exact ⟨[], rfl⟩
  | cons c text ih =>
    obtain ⟨before, found⟩ := ih
    rw [List.cons_append, beforeMark?, found]
    split
    · exact ⟨[], rfl⟩
    · exact ⟨c :: before, rfl⟩

/-- The ids that a client issues name the client, unless it has no name, or its name holds the mark
or ends in all of the mark but the last underscore. -/
theorem clientOf_nextId_iff (c : Client) :
    clientOf c.nextId.1 = c.clientId ↔
      c.clientId ≠ "" ∧ ¬ idMark <:+: c.clientId.toList ∧
        ¬ "_expr".toList <:+ c.clientId.toList := by
  obtain ⟨number, written⟩ : ∃ number : List Char,
      c.nextId.1.toList = c.clientId.toList ++ (idMark ++ number) :=
    ⟨(toString (c.issued + 1)).toList, by simp [Client.nextId, Client.idOf, idMark]⟩
  obtain ⟨before, found⟩ := exists_beforeMark? c.clientId.toList number
  rw [← beforeMark?_append_iff _ number, clientOf, written, found]
  cases before with
  | nil =>
    -- nothing stands before the mark, so the client is taken for an unknown one
    constructor
    · intro unknown
      have first : c.clientId.toList = 'U' :: "NKNOWN".toList := by rw [← unknown]; rfl
      rw [first, List.cons_append, beforeMark?, if_neg (by simp [idMark])] at found
      simp at found
    · rintro ⟨nonempty, same⟩
      exact absurd (String.toList_inj.1 (Option.some_inj.1 same).symm) nonempty
  | cons first rest =>
    simp only [Option.some_inj]
    constructor
    · intro same
      rw [← same]
      exact ⟨by simp [← String.toList_inj], by simp⟩
    · rintro ⟨-, same⟩
      rw [same, String.ofList_toList]

/-- A name that holds no mark, and that its ids do not give back. -/
theorem trailing_expr_is_cut :
    let c := Client.named "a_expr"
    c.clientId ≠ "" ∧ ¬ idMark <:+: c.clientId.toList ∧ clientOf c.nextId.1 = "a" := by
  decide

end Stepwise
