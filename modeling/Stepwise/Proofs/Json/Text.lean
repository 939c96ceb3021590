import Mathlib.Tactic.SplitIfs
import Stepwise.Json.Printer
import Stepwise.Json.Reader

/-!
# Texts as they are written

Between quotes every character is written as itself or as an escape, and the reader gives the
character back (`units_escapedChar`); so a text is read as it was, as a value and as a key.
-/

namespace Stepwise.Json

open Text

theorem hex4?_hex {n : Nat} (hn : n < 32) (c : Char) (rest : List Char) :
    hex4? ((hex 4 n).toList ++ c :: rest) = some (n, c :: rest) := by
  have all : ∀ n : Fin 32, ∃ w x y z, List.replicate (4 - (Nat.toDigits 16 n).length) '0' ++
      Nat.toDigits 16 n = [w, x, y, z] ∧ hexDigit? w = some 0 ∧ hexDigit? x = some 0 ∧
        hexDigit? y = some (n.1 / 16) ∧ hexDigit? z = some (n.1 % 16) := by
    intro n
    refine ⟨'0', '0', Nat.digitChar (n.1 / 16), Nat.digitChar (n.1 % 16), ?_⟩
    revert n
    decide
  obtain ⟨w, x, y, z, heq, hw, hx, hy, hz⟩ := all ⟨n, hn⟩
  rw [hex, String.toList_ofList, heq]
  simp only [List.cons_append, List.nil_append, hex4?, hw, hx, hy, hz, Nat.zero_mul, Nat.zero_add,
    Nat.div_add_mod']

theorem units_escape (start : Nat) {c : Char} {n : Nat} (hc : c ≠ 'u')
    (h : escapeValue? c = some n) (more : List Char) :
    units start ('\\' :: c :: more) = (units start more).map fun r => (n :: r.1, r.2) := by
  rw [units]
  · simp only [h]
  · exact fun h => hc h

theorem units_unicode (start : Nat) {more after : List Char} {n : Nat}
    (h : hex4? more = some (n, after)) (hn : n < 0xd800) :
    units start ('\\' :: 'u' :: more) = (units start after).map fun r => (n :: r.1, r.2) := by
  rw [units]
  split
  · next hex =>
    rw [h] at hex
    cases hex
  · next hex =>
    rw [h] at hex
    cases hex
    rw [if_neg (by simp; omega)]

theorem units_plain (start : Nat) {c : Char} (hslash : c ≠ '\\') (hquote : c.toNat ≠ 0x22)
    (hcontrol : 0x20 ≤ c.toNat) (more : List Char) :
    units start (c :: more) = (units start more).map fun r => (c.toNat :: r.1, r.2) := by
  rw [units]
  · rw [if_neg (by simpa using hquote), if_neg (by omega)]
  · exact hslash

/-- The reader takes the writing of one character off a text. -/
theorem units_escapedChar (start : Nat) (c : Char) {more : List Char} (hne : more ≠ []) :
    units start (escapedChar c ++ more) =
      (units start more).map fun r => (c.toNat :: r.1, r.2) := by
  have named : ∀ {n : Nat}, (c.toNat == n) = true → Char.ofNat n = c := fun h => by
    rw [← beq_iff_eq.1 h, Char.ofNat_toNat]
  unfold escapedChar
  split_ifs with quote slash newline return_ tab backspace feed control
  · obtain rfl := named quote
    exact units_escape start (by decide) rfl more
  · obtain rfl := beq_iff_eq.1 slash
    exact units_escape start (by decide) rfl more
  · obtain rfl := beq_iff_eq.1 newline
    exact units_escape start (by decide) rfl more
  · obtain rfl := beq_iff_eq.1 return_
    exact units_escape start (by decide) rfl more
  · obtain rfl := beq_iff_eq.1 tab
    exact units_escape start (by decide) rfl more
  · obtain rfl := named backspace
    exact units_escape start (by decide) rfl more
  · obtain rfl := named feed
    exact units_escape start (by decide) rfl more
  · obtain ⟨d, after, rfl⟩ := List.exists_cons_of_ne_nil hne
    exact units_unicode start (hex4?_hex control d after) (by omega)
  · exact units_plain start (by simpa using slash) (by simpa using quote) (by omega) more

/-- The reader takes a text off, together with its closing quote. -/
theorem units_flatMap (start : Nat) (cs : List Char) {quote : Char} (hquote : quote.toNat = 0x22)
    (rest : List Char) : units start (cs.flatMap escapedChar ++ quote :: rest) =
      .ok (cs.map Char.toNat, rest) := by
  induction cs with
  | nil =>
    rw [List.flatMap_nil, List.nil_append, units]
    · rw [if_pos (by simpa using hquote)]
      rfl
    · rintro rfl
      cases hquote
  | cons c cs ih =>
    rw [List.flatMap_cons, List.append_assoc, units_escapedChar start c (by simp), ih]
    rfl

theorem isScalar_toNat (c : Char) : isScalar c.toNat = true := by
  have := c.valid
  unfold isScalar
  rw [Bool.or_eq_true, Bool.and_eq_true, decide_eq_true_eq, decide_eq_true_eq, decide_eq_true_eq]
  exact this

theorem ofUnits_toNat (s : String) : ofUnits (s.toList.map Char.toNat) = s := by
  unfold ofUnits
  rw [List.map_map]
  have same : ∀ c ∈ s.toList, ((fun n => if isScalar n then Char.ofNat n else Char.ofNat 0xfffd) ∘
      Char.toNat) c = id c := by
    intro c _
    rw [Function.comp, if_pos (isScalar_toNat c), Char.ofNat_toNat]
    rfl
  rw [List.map_congr_left same, List.map_id, String.ofList_toList]

theorem toList_renderText (s : String) : ∃ quote : Char, quote.toNat = 0x22 ∧
    (renderText s).toList = quote :: (s.toList.flatMap escapedChar ++ [quote]) := by
  refine ⟨Char.ofNat 0x22, rfl, ?_⟩
  simp only [renderText, String.toList_append, String.toList_ofList]
  rfl

/-- A text is read back as a value. -/
theorem textValue_flatMap (d : Dialect) (start : Nat) (s : String) {quote : Char}
    (hquote : quote.toNat = 0x22) (rest : List Char) :
    textValue d start (s.toList.flatMap escapedChar ++ quote :: rest) = .ok (.text s, rest) := by
  have scalars : (s.toList.map Char.toNat).all isScalar = true := by
    rw [List.all_eq_true]
    intro n hn
    obtain ⟨c, -, rfl⟩ := List.mem_map.1 hn
    exact isScalar_toNat c
  rw [textValue, units_flatMap start _ hquote]
  simp only [scalars, if_true, ofUnits_toNat]

/-- A text is read back as a key. -/
theorem key_renderText (s : String) (rest : List Char) :
    key ((renderText s).toList ++ rest) = .ok (s, rest) := by
  obtain ⟨quote, hquote, heq⟩ := toList_renderText s
  rw [heq, List.cons_append, List.append_assoc, List.singleton_append, key,
    if_pos (by simpa using hquote), units_flatMap _ _ hquote]
  simp only [Except.map, ofUnits_toNat]

theorem value_renderText (d : Dialect) (fuel depth : Nat) (s : String) (rest : List Char) :
    value d (fuel + 1) depth ((renderText s).toList ++ rest) = .ok (.text s, rest) := by
  obtain ⟨quote, hquote, heq⟩ := toList_renderText s
  rw [heq, List.cons_append, List.append_assoc, List.singleton_append, value.eq_def]
  simp only [beq_iff_eq.2 hquote, if_true]
  exact textValue_flatMap d _ s hquote rest

end Stepwise.Json
