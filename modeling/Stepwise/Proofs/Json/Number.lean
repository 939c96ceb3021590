import Stepwise.Json.Reader
import Stepwise.Proofs.Decimal.Shortest
import Stepwise.Proofs.Text.Digits

/-!
# Numbers as they are written

A number is written as a sign, whole digits, the digits of a fraction and an exponent (`Written`),
and the reader takes these parts apart again (`number_text`).  Every layout writes a finite float
in such parts, which stand for its shortest digits, so the reader gives the float back
(`number_render`); an integer comes back unless it has too many digits (`number_toString`).
-/

namespace Stepwise.Json

open Text Decimal

/-! ## Parts of a number -/

/-- The parts of a number in writing; the exponent has a sign and digits. -/
structure Written where
  negative : Bool
  whole : List Char
  fraction : List Char
  exponent : Option (Bool × List Char)

/-- What follows a number and is no part of it. -/
def Stops (rest : List Char) : Prop :=
  ∀ c ∈ rest.head?, isDigit c = false ∧ c ≠ '.' ∧ c ≠ 'e' ∧ c ≠ 'E'

/-- The text of a fraction; without digits there is no point. -/
def fractionText : List Char → List Char
  | [] => []
  | ds => '.' :: ds

/-- The text of an exponent. -/
def exponentText : Option (Bool × List Char) → List Char
  | none => []
  | some (negative, ds) => 'e' :: (if negative then '-' else '+') :: ds

/-- The number that an exponent writes. -/
def exponentValue : Option (Bool × List Char) → Option Int
  | none => none
  | some (negative, ds) => some (if negative then -(digitsValue ds : Int) else digitsValue ds)

namespace Written

/-- The text of a number. -/
def text (n : Written) : List Char :=
  (if n.negative then ['-'] else []) ++
    (n.whole ++ (fractionText n.fraction ++ exponentText n.exponent))

/-- The digits make a number: a zero stands alone in front of the point. -/
structure WellFormed (n : Written) : Prop where
  whole : ∀ c ∈ n.whole, isDigit c = true
  lead : n.whole = ['0'] ∨ (n.whole ≠ [] ∧ n.whole.head? ≠ some '0')
  fraction : ∀ c ∈ n.fraction, isDigit c = true
  exponent : ∀ p ∈ n.exponent, p.2 ≠ [] ∧ ∀ c ∈ p.2, isDigit c = true

/-- The power of ten that the digits of whole and fraction are to be multiplied with. -/
def power (n : Written) : Int :=
  (exponentValue n.exponent).getD 0 - n.fraction.length

end Written

theorem stops_exponentText {exponent : Option (Bool × List Char)} {rest : List Char}
    (h : Stops rest) :
    ∀ c ∈ (exponentText exponent ++ rest).head?, isDigit c = false ∧ c ≠ '.' := by
  cases exponent with
  | none => exact fun c hc => ⟨(h c hc).1, (h c hc).2.1⟩
  | some p =>
    rintro c ⟨⟩
    decide

theorem wholeDigits_append {whole rest : List Char} (digits : ∀ c ∈ whole, isDigit c = true)
    (lead : whole = ['0'] ∨ (whole ≠ [] ∧ whole.head? ≠ some '0'))
    (hr : ∀ c ∈ rest.head?, isDigit c = false) : wholeDigits (whole ++ rest) = (whole, rest) := by
  rcases lead with rfl | ⟨hne, hlead⟩
  · rfl
  · obtain ⟨d, ds, rfl⟩ := List.exists_cons_of_ne_nil hne
    have hd : d ≠ '0' := fun h => hlead (by rw [h]; rfl)
    unfold wholeDigits
    split
    · next h => exact absurd (List.cons.inj h).1 hd
    · rw [takeWhile_isDigit digits rest hr, dropWhile_isDigit digits rest hr]

theorem fractionDigits_append {fraction rest : List Char}
    (digits : ∀ c ∈ fraction, isDigit c = true)
    (hr : ∀ c ∈ rest.head?, isDigit c = false ∧ c ≠ '.') :
    fractionDigits (fractionText fraction ++ rest) = (fraction, rest) := by
  cases fraction with
  | nil =>
    unfold fractionDigits
    split
    · next h => exact absurd rfl (hr '.' (by rw [show rest = _ from h]; rfl)).2
    · rfl
  | cons d ds =>
    have hr' : ∀ c ∈ rest.head?, isDigit c = false := fun c hc => (hr c hc).1
    change (if isDigit d then _ else _ : List Char × List Char) = _
    rw [if_pos (digits d List.mem_cons_self)]
    exact Prod.ext (takeWhile_isDigit digits rest hr') (dropWhile_isDigit digits rest hr')

theorem exponentDigits_append {exponent : Option (Bool × List Char)} {rest : List Char}
    (digits : ∀ p ∈ exponent, p.2 ≠ [] ∧ ∀ c ∈ p.2, isDigit c = true) (h : Stops rest) :
    exponentDigits (exponentText exponent ++ rest) = (exponentValue exponent, rest) := by
  cases exponent with
  | none =>
    change exponentDigits rest = (none, rest)
    unfold exponentDigits
    split
    · next mark rest' =>
      obtain ⟨-, -, he, hE⟩ := h mark rfl
      simp [he, hE]
    · rfl
  | some p =>
    obtain ⟨negative, ds⟩ := p
    obtain ⟨hne, hd⟩ := digits _ rfl
    obtain ⟨d, ds, rfl⟩ := List.exists_cons_of_ne_nil hne
    have hr : ∀ c ∈ rest.head?, isDigit c = false := fun c hc => (h c hc).1
    have htake := takeWhile_isDigit hd rest hr
    have hdrop := dropWhile_isDigit hd rest hr
    have hsign : splitSign ((if negative then '-' else '+') :: (d :: ds ++ rest)) =
        (negative, d :: ds ++ rest) := by
      cases negative <;> rfl
    change exponentDigits ('e' :: (if negative then '-' else '+') :: (d :: ds ++ rest)) = _
    unfold exponentDigits
    simp only [hsign, htake, hdrop]
    simp [hd d List.mem_cons_self, exponentValue]

/-- The reader takes a written number apart again. -/
theorem number_text {n : Written} (wf : n.WellFormed) {rest : List Char} (h : Stops rest) :
    number (n.text ++ rest) =
      if n.fraction.isEmpty && (exponentValue n.exponent).isNone then
        if 4300 < n.whole.length then .error (n.text ++ rest).length
        else .ok
          (.int (if n.negative then -(digitsValue n.whole : Int) else digitsValue n.whole), rest)
      else .ok
        (.float (ofDecimal n.negative (digitsValue (n.whole ++ n.fraction)) n.power), rest) := by
  obtain ⟨negative, whole, fraction, exponent⟩ := n
  obtain ⟨hwhole, lead, hfraction, hexponent⟩ := wf
  simp only at *
  have hstop := @stops_exponentText exponent rest h
  have hw := @wholeDigits_append whole (fractionText fraction ++ (exponentText exponent ++ rest))
    hwhole lead (by
      cases fraction with
      | nil => exact fun c hc => (hstop c hc).1
      | cons d ds =>
        rintro c ⟨⟩
        decide)
  have hf := fractionDigits_append hfraction hstop
  have he := exponentDigits_append hexponent h
  have hne : whole.isEmpty = false := by
    rcases lead with rfl | ⟨hne, -⟩
    · rfl
    · rw [List.isEmpty_eq_false_iff]
      exact hne
  have htext : Written.text ⟨negative, whole, fraction, exponent⟩ ++ rest =
      (if negative then ['-'] else []) ++
        (whole ++ (fractionText fraction ++ (exponentText exponent ++ rest))) := by
    simp only [Written.text, List.append_assoc]
  rw [htext]
  cases negative with
  | true =>
    rw [if_pos rfl, List.singleton_append]
    unfold number
    simp only [hw, hf, he, hne]
    rfl
  | false =>
    rw [if_neg Bool.false_ne_true, List.nil_append]
    unfold number
    split
    next sign body heq =>
      obtain ⟨rfl, rfl⟩ : sign = false ∧
          body = whole ++ (fractionText fraction ++ (exponentText exponent ++ rest)) := by
        split at heq
        · next minus =>
          have : '-' ∈ whole := by
            obtain ⟨d, ds, rfl⟩ := List.exists_cons_of_ne_nil (List.isEmpty_eq_false_iff.1 hne)
            exact (List.cons.inj minus).1 ▸ List.mem_cons_self
          exact absurd (hwhole _ this) (by decide)
        · cases heq
          exact ⟨rfl, rfl⟩
      simp only [hw, hf, he, hne]
      rfl

/-! ## Digits with a point -/

/-- Some digits in front of the point, the first of which stands for a power of ten. -/
structure Standing (ds : List Char) (power : Int) (n : Written) : Prop where
  wellFormed : n.WellFormed
  value : (digitsValue (n.whole ++ n.fraction) : ℚ) * 10 ^ n.power =
    digitsValue ds * 10 ^ (power + 1 - ds.length)
  float : n.fraction ≠ [] ∨ n.exponent.isSome

variable {ds : List Char} {power : Int}

theorem fractionText_of_ne_nil {fraction : List Char} (h : fraction ≠ []) :
    fractionText fraction = '.' :: fraction := by
  obtain ⟨d, ds, rfl⟩ := List.exists_cons_of_ne_nil h
  rfl

theorem isDigit_of_mem_zeros {k : ℕ} {c : Char} (h : c ∈ List.replicate k '0') :
    isDigit c = true := by
  rw [List.eq_of_mem_replicate h]
  decide

/-- The point stands among the digits. -/
theorem standing_among {k : ℕ} (digits : ∀ c ∈ ds, isDigit c = true) (lead : ds.head? ≠ some '0')
    (hlong : k + 1 < ds.length) (negative : Bool) :
    Standing ds k ⟨negative, ds.take (k + 1), ds.drop (k + 1), none⟩ := by
  have hdrop : ds.drop (k + 1) ≠ [] := by
    rw [← List.length_pos_iff, List.length_drop]
    omega
  refine ⟨⟨fun c hc => digits c (List.mem_of_mem_take hc), Or.inr ⟨?_, ?_⟩,
    fun c hc => digits c (List.mem_of_mem_drop hc), nofun⟩, ?_, Or.inl hdrop⟩
  · rw [← List.length_pos_iff, List.length_take]
    omega
  · rwa [List.head?_take, if_neg (by omega)]
  · rw [List.take_append_drop]
    simp only [Written.power, exponentValue, Option.getD_none, List.length_drop]
    congr 2
    omega

/-- Zeros fill the places up to the point. -/
theorem standing_before {k : ℕ} (hne : ds ≠ []) (digits : ∀ c ∈ ds, isDigit c = true)
    (lead : ds.head? ≠ some '0') (hshort : ds.length ≤ k + 1) (negative : Bool) :
    Standing ds k ⟨negative, ds ++ List.replicate (k + 1 - ds.length) '0', ['0'], none⟩ := by
  have ten : (10 : ℚ) ≠ 0 := by norm_num
  refine ⟨⟨?_, Or.inr ⟨?_, ?_⟩, fun c hc => @isDigit_of_mem_zeros 1 c hc, nofun⟩, ?_,
    Or.inl (List.cons_ne_nil _ _)⟩
  · intro c hc
    rcases List.mem_append.1 hc with hc | hc
    · exact digits c hc
    · exact isDigit_of_mem_zeros hc
  · exact List.append_ne_nil_of_left_ne_nil hne _
  · rw [List.head?_append_of_ne_nil _ hne]
    exact lead
  · rw [List.append_assoc, ← List.replicate_succ', digitsValue_append_zeros]
    simp only [Written.power, exponentValue, Option.getD_none, List.length_singleton]
    push_cast
    rw [mul_assoc, ← zpow_natCast, ← zpow_add₀ ten]
    congr 2
    push_cast
    omega

/-- The point stands in front of the digits and of zeros before them. -/
theorem standing_after {k : ℕ} (hne : ds ≠ []) (digits : ∀ c ∈ ds, isDigit c = true)
    (hpower : power = -(k + 1)) (negative : Bool) :
    Standing ds power ⟨negative, ['0'], List.replicate k '0' ++ ds, none⟩ := by
  refine ⟨⟨fun c hc => @isDigit_of_mem_zeros 1 c hc, Or.inl rfl, ?_, nofun⟩, ?_,
    Or.inl (List.append_ne_nil_of_right_ne_nil _ hne)⟩
  · intro c hc
    rcases List.mem_append.1 hc with hc | hc
    · exact isDigit_of_mem_zeros hc
    · exact digits c hc
  · rw [← List.append_assoc, List.singleton_append, ← List.replicate_succ,
      digitsValue_zeros_append]
    simp only [Written.power, exponentValue, Option.getD_none, List.length_append,
      List.length_replicate]
    congr 2
    push_cast
    omega

/-- The positional text of digits consists of the parts of a number with their value. -/
theorem exists_positional (hne : ds ≠ []) (digits : ∀ c ∈ ds, isDigit c = true)
    (lead : ds.head? ≠ some '0') (negative : Bool) :
    ∃ n : Written, n.negative = negative ∧ Standing ds power n ∧
      n.text = (if negative then ['-'] else []) ++ positional ds power := by
  unfold positional
  by_cases hpower : 0 ≤ power
  · rw [if_pos hpower]
    obtain ⟨k, rfl⟩ := Int.eq_ofNat_of_zero_le hpower
    simp only [Int.toNat_natCast]
    by_cases hlong : k + 1 < ds.length
    · have hdrop : ds.drop (k + 1) ≠ [] := by
        rw [← List.length_pos_iff, List.length_drop]
        omega
      have htake : (ds.take (k + 1)).length = k + 1 := by
        rw [List.length_take]
        omega
      refine ⟨_, rfl, standing_among digits lead hlong negative, ?_⟩
      simp [Written.text, fractionText_of_ne_nil hdrop, exponentText, htake, fractionOr0, hlong]
    · have htake : ds.take (k + 1) = ds := List.take_of_length_le (by omega)
      have hdrop : ds.drop (k + 1) = [] := List.drop_eq_nil_of_le (by omega)
      refine ⟨_, rfl, standing_before hne digits lead (by omega) negative, ?_⟩
      simp [Written.text, fractionText, exponentText, htake, hdrop, fractionOr0]
  · rw [if_neg hpower]
    obtain ⟨k, hk⟩ := Int.eq_ofNat_of_zero_le (show 0 ≤ -power - 1 by omega)
    have hzeros : (-power).toNat - 1 = k := by omega
    have hfraction : List.replicate k '0' ++ ds ≠ [] := List.append_ne_nil_of_right_ne_nil _ hne
    refine ⟨_, rfl, standing_after (k := k) hne digits (by omega) negative, ?_⟩
    rw [hzeros]
    simp [Written.text, fractionText_of_ne_nil hfraction, exponentText]

/-- The text of digits with an exponent consists of the parts of a number with their value. -/
theorem exists_scientific (width : ℕ) (hne : ds ≠ []) (digits : ∀ c ∈ ds, isDigit c = true)
    (lead : ds.head? ≠ some '0') (negative : Bool) :
    ∃ n : Written, n.negative = negative ∧ Standing ds power n ∧
      n.text = (if negative then ['-'] else []) ++ scientific width ds power := by
  obtain ⟨d, rest, rfl⟩ := List.exists_cons_of_ne_nil hne
  unfold scientific
  simp only
  generalize hes : List.replicate (width - (Nat.toDigits 10 power.natAbs).length) '0' ++
    Nat.toDigits 10 power.natAbs = es
  have hvalue : exponentValue (some (decide (power < 0), es)) = some power := by
    rw [exponentValue, ← hes, digitsValue_zeros_append, digitsValue_toDigits]
    congr 1
    simp only [decide_eq_true_eq]
    split <;> omega
  have hexponent : es ≠ [] ∧ ∀ c ∈ es, isDigit c = true := by
    rw [← hes]
    refine ⟨List.append_ne_nil_of_right_ne_nil _ Nat.toDigits_ne_nil, fun c hc => ?_⟩
    rcases List.mem_append.1 hc with hc | hc
    · exact isDigit_of_mem_zeros hc
    · exact isDigit_of_mem_toDigits hc
  refine ⟨⟨negative, [d], rest, some (decide (power < 0), es)⟩, rfl,
    ⟨⟨?_, Or.inr ⟨List.cons_ne_nil _ _, lead⟩, fun c hc => digits c (List.mem_cons_of_mem _ hc),
      ?_⟩, ?_, Or.inr rfl⟩, ?_⟩
  · rintro c hc
    rw [List.mem_singleton.1 hc]
    exact digits d List.mem_cons_self
  · rintro p ⟨⟩
    exact hexponent
  · simp only [Written.power, hvalue, Option.getD_some, List.singleton_append, List.length_cons]
    congr 2
    push_cast
    omega
  · cases rest with
    | nil => simp [Written.text, fractionText, exponentText]
    | cons r rs => simp [Written.text, fractionText, exponentText]

/-! ## Layouts -/

/-- The digits of a positive number are its significant ones and zeros after them. -/
theorem toDigits_eq_significant (n : ℕ) :
    Nat.toDigits 10 n = significant n ++
      List.replicate ((Nat.toDigits 10 n).length - (significant n).length) '0' := by
  have split_ := @List.takeWhile_append_dropWhile _ (· == '0') (Nat.toDigits 10 n).reverse
  have zeros : ((Nat.toDigits 10 n).reverse.takeWhile (· == '0')) =
      List.replicate ((Nat.toDigits 10 n).length - (significant n).length) '0' := by
    rw [List.eq_replicate_iff]
    refine ⟨?_, fun c hc => by simpa using List.mem_takeWhile_imp hc⟩
    have := congrArg List.length split_
    rw [List.length_append, List.length_reverse] at this
    rw [significant, List.length_reverse]
    omega
  rw [zeros] at split_
  have := congrArg List.reverse split_
  rw [List.reverse_append, List.reverse_reverse, List.reverse_replicate] at this
  exact this.symm

theorem significant_spec {n : ℕ} (hn : 0 < n) :
    significant n ≠ [] ∧ (∀ c ∈ significant n, isDigit c = true) ∧
      (significant n).head? ≠ some '0' ∧
      n = digitsValue (significant n) *
        10 ^ ((Nat.toDigits 10 n).length - (significant n).length) := by
  have heq := toDigits_eq_significant n
  have hvalue := digitsValue_toDigits n
  rw [heq, digitsValue_append_zeros] at hvalue
  have hne : significant n ≠ [] := by
    intro h
    rw [h, show digitsValue [] = 0 from rfl, zero_mul] at hvalue
    omega
  refine ⟨hne, fun c hc => ?_, ?_, hvalue.symm⟩
  · apply isDigit_of_mem_toDigits (n := n)
    rw [heq]
    exact List.mem_append_left _ hc
  · have hhead := head?_toDigits_ne hn
    rwa [heq, List.head?_append_of_ne_nil _ hne] at hhead

/-- Every layout writes a positive number in parts that stand for it. -/
theorem exists_magnitude (l : Layout) {s : Scaled} (hs : 0 < s.digits) (negative : Bool) :
    ∃ n : Written, n.negative = negative ∧ n.WellFormed ∧
      (n.fraction ≠ [] ∨ n.exponent.isSome) ∧
      (digitsValue (n.whole ++ n.fraction) : ℚ) * 10 ^ n.power = s.digits * 10 ^ s.exponent ∧
      n.text = (if negative then ['-'] else []) ++ l.magnitude s := by
  obtain ⟨hne, digits, lead, value⟩ := significant_spec hs
  have hlen : (significant s.digits).length ≤ (Nat.toDigits 10 s.digits).length := by
    have := congrArg List.length (toDigits_eq_significant s.digits)
    rw [List.length_append, List.length_replicate] at this
    omega
  obtain ⟨power, hpower⟩ : ∃ power, power = s.exponent +
    ((Nat.toDigits 10 s.digits).length : Int) - 1 := ⟨_, rfl⟩
  have whole : (digitsValue (significant s.digits) : ℚ) *
      10 ^ (power + 1 - (significant s.digits).length) = s.digits * 10 ^ s.exponent := by
    conv_rhs => rw [value]
    push_cast
    rw [mul_assoc, ← zpow_natCast, ← zpow_add₀ (by norm_num)]
    congr 2
    omega
  have standing : ∃ n : Written, n.negative = negative ∧ Standing (significant s.digits) power n ∧
      n.text = (if negative then ['-'] else []) ++ l.magnitude s := by
    unfold Layout.magnitude
    simp only [← hpower]
    by_cases h : (decide (l.lowest ≤ power) && decide (power ≤ l.highest)) = true
    · rw [if_pos h]
      exact exists_positional hne digits lead negative
    · rw [if_neg h]
      exact exists_scientific l.exponentWidth hne digits lead negative
  obtain ⟨n, hsign, ⟨wf, hvalue, float⟩, text⟩ := standing
  exact ⟨n, hsign, wf, float, hvalue.trans whole, text⟩

/-- A finite float is written, in any layout, in parts that are read as the float. -/
theorem exists_written_render (l : Layout) {x : Float} (finite : isFinite x = true) :
    ∃ n : Written, n.WellFormed ∧ (n.fraction ≠ [] ∨ n.exponent.isSome) ∧
      (l.render x).toList = n.text ∧
      ofDecimal n.negative (digitsValue (n.whole ++ n.fraction)) n.power = x := by
  unfold isFinite at finite
  cases hx : decode x with
  | nan | infinite =>
    rw [hx] at finite
    cases finite
  | finite negative m e =>
    obtain ⟨canonical, rfl⟩ := eq_ofMagnitude hx
    unfold Layout.render
    rw [hx]
    simp only [String.toList_ofList]
    by_cases hm : m = 0
    · have least : e = -1074 := canonical.normal.resolve_right (by omega)
      refine ⟨⟨negative, ['0'], ['0'], none⟩, ⟨fun c hc => @isDigit_of_mem_zeros 1 c hc, Or.inl rfl,
        fun c hc => @isDigit_of_mem_zeros 1 c hc, nofun⟩, Or.inl (List.cons_ne_nil _ _), ?_, ?_⟩
      · rw [hm]
        cases negative <;> rfl
      · rw [hm, least]
        rfl
    · have pos : 0 < m := Nat.pos_of_ne_zero hm
      have rounds := roundsTo_shortest canonical.small pos (e := e)
      have hdigits : 0 < (shortest m e).digits := by
        have := rounds.pos pos
        by_contra h0
        rw [Nat.eq_zero_of_not_pos h0] at this
        simp at this
      have size : (if (m == 0) = true then ['0', '.', '0'] else l.magnitude (shortest m e)) =
          l.magnitude (shortest m e) := if_neg (by simpa using hm)
      obtain ⟨n, rfl, wf, float, value, text⟩ := exists_magnitude l hdigits negative
      rw [← value] at rounds
      refine ⟨n, wf, float, ?_, ofDecimal_eq canonical pos rounds n.negative⟩
      rw [size, text]
      cases n.negative <;> rfl

/-- The parts that an integer is written in. -/
theorem exists_written_toString (i : Int) :
    ∃ n : Written, n.WellFormed ∧ n.fraction = [] ∧ n.exponent = none ∧
      (toString i).toList = n.text ∧ n.whole = Nat.toDigits 10 i.natAbs ∧
      (if n.negative then -(digitsValue n.whole : Int) else digitsValue n.whole) = i := by
  have lead : Nat.toDigits 10 i.natAbs = ['0'] ∨
      (Nat.toDigits 10 i.natAbs ≠ [] ∧ (Nat.toDigits 10 i.natAbs).head? ≠ some '0') := by
    by_cases hn : i.natAbs = 0
    · rw [hn]
      exact Or.inl rfl
    · exact Or.inr ⟨Nat.toDigits_ne_nil, head?_toDigits_ne (Nat.pos_of_ne_zero hn)⟩
  refine ⟨⟨decide (i < 0), Nat.toDigits 10 i.natAbs, [], none⟩,
    ⟨fun c hc => isDigit_of_mem_toDigits hc, lead, nofun, nofun⟩, rfl, rfl, ?_, rfl, ?_⟩
  · cases i with
    | ofNat n =>
      change n.repr.toList =
        (if decide ((n : Int) < 0) = true then ['-'] else []) ++ (Nat.toDigits 10 n ++ [])
      rw [if_neg (by simp), List.nil_append, List.append_nil, Nat.toList_repr]
    | negSucc n =>
      have negative : decide (Int.negSucc n < 0) = true := by simp
      rw [Written.text, negative]
      change (Int.negSucc n).repr.toList = '-' :: (Nat.toDigits 10 (n + 1) ++ [])
      rw [Int.repr, String.toList_append, Nat.toList_repr, List.append_nil]
      rfl
  · rw [digitsValue_toDigits]
    simp only [decide_eq_true_eq]
    split <;> omega

/-! ## Numbers among the values -/

theorem afterWord?_of_ne {word : String} {w c : Char} {ws cs : List Char}
    (hw : word.toList = w :: ws) (h : w ≠ c) : afterWord? word (c :: cs) = none := by
  have : (w :: ws).isPrefixOf (c :: cs) = false := by simp [List.isPrefixOf, h]
  rw [afterWord?, hw, if_neg (by rw [this]; decide)]

/-- A digit, or a minus and a digit, begins no word. -/
theorem scalar_eq_number {c : Char} (hc : isDigit c = true) (negative : Bool) (cs : List Char) :
    scalar ((if negative then ['-'] else []) ++ c :: cs) =
      number ((if negative then ['-'] else []) ++ c :: cs) := by
  have other : ∀ w : Char, isDigit w = false → w ≠ c := fun w hw => (ne_of_isDigit hw hc).symm
  cases negative with
  | true =>
    have minus : afterWord? "-Infinity" ('-' :: c :: cs) = none := by
      have hw : "-Infinity".toList = ['-', 'I', 'n', 'f', 'i', 'n', 'i', 't', 'y'] := rfl
      have hI : ('I' == c) = false := beq_eq_false_iff_ne.2 (other 'I' (by decide))
      rw [afterWord?, hw, if_neg]
      simp [List.isPrefixOf, hI]
    rw [if_pos rfl, List.singleton_append, scalar, minus,
      @afterWord?_of_ne "null" 'n' '-' _ _ rfl (by decide),
      @afterWord?_of_ne "true" 't' '-' _ _ rfl (by decide),
      @afterWord?_of_ne "false" 'f' '-' _ _ rfl (by decide),
      @afterWord?_of_ne "NaN" 'N' '-' _ _ rfl (by decide),
      @afterWord?_of_ne "Infinity" 'I' '-' _ _ rfl (by decide)]
  | false =>
    rw [if_neg Bool.false_ne_true, List.nil_append, scalar,
      @afterWord?_of_ne "null" 'n' c _ _ rfl (other _ (by decide)),
      @afterWord?_of_ne "true" 't' c _ _ rfl (other _ (by decide)),
      @afterWord?_of_ne "false" 'f' c _ _ rfl (other _ (by decide)),
      @afterWord?_of_ne "NaN" 'N' c _ _ rfl (other _ (by decide)),
      @afterWord?_of_ne "Infinity" 'I' c _ _ rfl (other _ (by decide)),
      @afterWord?_of_ne "-Infinity" '-' c _ _ rfl (other _ (by decide))]

/-- A text that begins with a number is no word and no container. -/
theorem value_written (d : Dialect) (fuel depth : Nat) {n : Written} (wf : n.WellFormed)
    (rest : List Char) : value d (fuel + 1) depth (n.text ++ rest) = number (n.text ++ rest) := by
  obtain ⟨c, cs, hc, hwhole⟩ : ∃ c cs, isDigit c = true ∧ n.whole = c :: cs := by
    have hne : n.whole ≠ [] := by
      rcases wf.lead with h | ⟨h, -⟩
      · rw [h]
        exact List.cons_ne_nil _ _
      · exact h
    obtain ⟨c, cs, h⟩ := List.exists_cons_of_ne_nil hne
    exact ⟨c, cs, wf.whole c (by rw [h]; exact List.mem_cons_self), h⟩
  obtain ⟨tail, htail⟩ : ∃ tail, n.text ++ rest =
      (if n.negative then ['-'] else []) ++ c :: tail := by
    refine ⟨cs ++ (fractionText n.fraction ++ exponentText n.exponent) ++ rest, ?_⟩
    rw [Written.text, hwhole, List.append_assoc, List.cons_append, List.cons_append]
  rw [htail, ← scalar_eq_number hc]
  have bounds : c.toNat ≠ 0x22 ∧ c ≠ '[' ∧ c.toNat ≠ 0x7b :=
    forall_isDigit (P := fun c => c.toNat ≠ 0x22 ∧ c ≠ '[' ∧ c.toNat ≠ 0x7b) (by decide) hc
  cases n.negative with
  | true => rfl
  | false =>
    obtain ⟨hquote, hbracket, hbrace⟩ := bounds
    rw [if_neg Bool.false_ne_true, List.nil_append, value.eq_def]
    simp only [beq_eq_false_iff_ne.2 hquote, beq_eq_false_iff_ne.2 hbracket,
      beq_eq_false_iff_ne.2 hbrace, Bool.false_eq_true, if_false]

/-- A finite float is read back from its text. -/
theorem value_render (d : Dialect) (fuel depth : Nat) (l : Layout) {x : Float}
    (finite : isFinite x = true) {rest : List Char} (h : Stops rest) :
    value d (fuel + 1) depth ((l.render x).toList ++ rest) = .ok (.float x, rest) := by
  obtain ⟨n, wf, float, text, hx⟩ := exists_written_render l finite
  rw [text, value_written d fuel depth wf, number_text wf h, if_neg, hx]
  rcases float with float | float
  · simp [float]
  · obtain ⟨p, hp⟩ := Option.isSome_iff_exists.1 float
    simp [hp, exponentValue]

/-- An integer is read back from its text, unless it has too many digits. -/
theorem value_toString (d : Dialect) (fuel depth : Nat) (i : Int) {rest : List Char}
    (h : Stops rest) : value d (fuel + 1) depth ((toString i).toList ++ rest) =
      if 4300 < (Nat.toDigits 10 i.natAbs).length then .error ((toString i).toList ++ rest).length
      else .ok (.int i, rest) := by
  obtain ⟨n, wf, fraction, exponent, text, whole, value⟩ := exists_written_toString i
  rw [text, value_written d fuel depth wf, number_text wf h, fraction, exponent, value, whole]
  rfl

end Stepwise.Json
