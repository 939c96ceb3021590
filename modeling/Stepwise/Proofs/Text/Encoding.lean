import Stepwise.Text.Encoding

/-!
# The bytes of a text

A text is read back from its bytes, also where the encoding has to be told first, provided that it
begins with two Ascii characters other than zero.
-/

namespace Stepwise.Text

theorem decode?_encode (s : String) : decode? (encode s) = some s := by
  rw [decode?, encode, String.fromUTF8?]
  exact dif_pos s.isValidUTF8

theorem toList_loop (body : Body) (i : Nat) (r : List UInt8) :
    ByteArray.toList.loop body i r = r.reverse ++ body.data.toList.drop i := by
  induction i, r using ByteArray.toList.loop.induct body with
  | case1 i r h ih =>
    have hi : i < body.data.toList.length := h
    rw [ByteArray.toList.loop, if_pos h, ih, List.drop_eq_getElem_cons hi]
    simp [ByteArray.get!, h]
  | case2 i r h =>
    have hi : body.data.toList.length ≤ i := Nat.le_of_not_lt h
    rw [ByteArray.toList.loop, if_neg h, List.drop_eq_nil_of_le hi, List.append_nil]

theorem toList_encode (s : String) :
    (encode s).toList = s.toList.flatMap String.utf8EncodeChar := by
  have bytes : encode s = s.toList.utf8Encode := by
    rw [encode, ← String.ofList_toList (s := s)]
    simp
  rw [ByteArray.toList, toList_loop, bytes, List.utf8Encode, List.toList_data_toByteArray]
  rfl

/-- A character of one byte that is not zero. -/
def IsAscii (c : Char) : Prop := 0 < c.toNat ∧ c.toNat < 0x80

theorem utf8EncodeChar_of_isAscii {c : Char} (h : IsAscii c) :
    String.utf8EncodeChar c = [c.toUInt8] ∧ c.toUInt8.toNat = c.toNat := by
  have small : c.val ≤ 127 := by
    rw [UInt32.le_iff_toNat_le]
    exact Nat.le_of_lt_succ h.2
  refine ⟨String.utf8EncodeChar_eq_singleton (Char.utf8Size_eq_one_iff.2 small), ?_⟩
  rw [Char.toUInt8, UInt32.toNat_toUInt8]
  exact Nat.mod_eq_of_lt (Nat.lt_of_lt_of_le h.2 (by decide))

theorem decodeAny?_encode {s : String} {a b : Char} {rest : List Char}
    (hs : s.toList = a :: b :: rest) (ha : IsAscii a) (hb : IsAscii b) :
    decodeAny? (encode s) = some s := by
  obtain ⟨hac, han⟩ := utf8EncodeChar_of_isAscii ha
  obtain ⟨hbc, hbn⟩ := utf8EncodeChar_of_isAscii hb
  have bytes : (encode s).toList.map UInt8.toNat =
      a.toNat :: b.toNat :: (rest.flatMap String.utf8EncodeChar).map UInt8.toNat := by
    rw [toList_encode, hs, List.flatMap_cons, List.flatMap_cons, hac, hbc]
    simp [han, hbn]
  unfold decodeAny?
  simp only [bytes]
  obtain ⟨ha, ha'⟩ := ha
  obtain ⟨hb, hb'⟩ := hb
  generalize a.toNat = x at *
  generalize b.toNat = y at *
  split
  case h_10 => exact decode?_encode s
  all_goals
    rename_i heq
    simp at heq
    omega

end Stepwise.Text
