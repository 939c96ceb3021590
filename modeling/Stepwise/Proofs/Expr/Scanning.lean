import Mathlib.Algebra.Order.Ring.Int
import Stepwise.Decimal.Reader
import Stepwise.Proofs.Expr.Grammar
import Stepwise.Proofs.Text.Digits

/-!
# What scanning yields

Every token that `tokenize` yields is proper (`scanned_of_tokenize`), and the text of a number token
is a `Numeral`, which can always be read as a float (`exists_ofText?_of_numeral`).
-/

namespace Stepwise

open Text

/-- Digits with at most one point and at least one digit. -/
def Numeral (cs : List Char) : Prop :=
  ∃ whole fraction, (∀ c ∈ whole, isDigit c = true) ∧ (∀ c ∈ fraction, isDigit c = true) ∧
    (whole ≠ [] ∨ fraction ≠ []) ∧ (cs = whole ++ '.' :: fraction ∨ cs = whole ∧ fraction = [])

/-! ## Results that are passed on -/

section

variable {ε α β : Type} {x : Except ε α} {e : ε} {b : β}

theorem exists_of_map_ok {f : α → β} (h : x.map f = .ok b) : ∃ a, x = .ok a ∧ f a = b := by
  cases x with
  | error e => cases h
  | ok a => exact ⟨a, rfl, Except.ok.inj h⟩

theorem eq_error_of_map {f : α → β} (h : x.map f = .error e) : x = .error e := by
  cases x with
  | error e' => exact congrArg _ (Except.error.inj h)
  | ok a => cases h

theorem exists_of_bind_ok {f : α → Except ε β} (h : x.bind f = .ok b) :
    ∃ a, x = .ok a ∧ f a = .ok b := by
  cases x with
  | error e => cases h
  | ok a => exact ⟨a, rfl, h⟩

end

/-! ## Reading a numeral -/

theorem isBlank_of_isDigit {c : Char} (hc : isDigit c = true) : isBlank c = false :=
  forall_isDigit (P := fun c => isBlank c = false) (by decide) hc

/-- The characters of a numeral are digits and points. -/
theorem Numeral.cases {cs : List Char} (h : Numeral cs) : ∀ c ∈ cs, isDigit c = true ∨ c = '.' := by
  obtain ⟨whole, fraction, hw, hf, -, rfl | ⟨rfl, rfl⟩⟩ := h
  · intro c hc
    rcases List.mem_append.1 hc with hc | hc
    · exact Or.inl (hw c hc)
    · rcases List.mem_cons.1 hc with rfl | hc
      · exact Or.inr rfl
      · exact Or.inl (hf c hc)
  · exact fun c hc => Or.inl (hw c hc)

theorem trim_eq_self {p : Char → Bool} {cs : List Char} (h : ∀ c ∈ cs, p c = false) :
    trim p cs = cs := by
  have drop : ∀ ds : List Char, (∀ c ∈ ds, p c = false) → ds.dropWhile p = ds := by
    intro ds hds
    cases ds with
    | nil => rfl
    | cons d ds => rw [List.dropWhile_cons_of_neg (by simp [hds d List.mem_cons_self])]
  rw [trim, drop cs h, drop _ fun c hc => h c (List.mem_reverse.1 hc), List.reverse_reverse]

theorem asciiDigits_eq_self {cs : List Char} (h : ∀ c ∈ cs, isDigit c = true ∨ c = '.') :
    asciiDigits cs = cs := by
  rw [asciiDigits]
  refine (List.map_congr_left fun c hc => ?_).trans (List.map_id cs)
  rcases h c hc with hd | rfl
  · obtain ⟨hv, hc⟩ := digitChar_of_isDigit hd
    rw [hv]
    exact hc
  · rw [show digitValue? '.' = none by decide]
    rfl

theorem joinDigits?_eq_self {cs : List Char} (h : ∀ c ∈ cs, c ≠ '_') (previous : Bool) :
    Decimal.joinDigits? previous cs = some cs := by
  induction cs generalizing previous with
  | nil => rfl
  | cons c cs ih =>
    have hc : c ≠ '_' := h c List.mem_cons_self
    have ih := ih fun c hc => h c (List.mem_cons_of_mem _ hc)
    rw [Decimal.joinDigits?]
    · rw [if_neg (by simpa using hc), ih]
      rfl
    · rintro d ds rfl
      exact absurd rfl hc

theorem exists_ofDigits?_of_numeral {cs : List Char} (h : Numeral cs) (negative : Bool) :
    ∃ x, Decimal.ofDigits? negative cs = some x := by
  have hdot : isDigit '.' = false := by decide
  obtain ⟨whole, fraction, hw, hf, hne, rfl | ⟨rfl, rfl⟩⟩ := h
  · have htake := takeWhile_isDigit hw ('.' :: fraction) (by simp [hdot])
    have hdrop := dropWhile_isDigit hw ('.' :: fraction) (by simp [hdot])
    have htake' := takeWhile_isDigit hf [] (by simp)
    have hdrop' := dropWhile_isDigit hf [] (by simp)
    rw [List.append_nil] at htake' hdrop'
    have hne : (whole.isEmpty && fraction.isEmpty) = false := by
      rcases hne with hne | hne <;> simp [hne]
    rw [Decimal.ofDigits?, htake, hdrop]
    simp only [htake', hdrop', hne, Decimal.exponent?]
    exact ⟨_, rfl⟩
  · have htake := takeWhile_isDigit hw [] (by simp)
    have hdrop := dropWhile_isDigit hw [] (by simp)
    rw [List.append_nil] at htake hdrop
    have hne : (cs.isEmpty && ([] : List Char).isEmpty) = false := by
      rcases hne with hne | hne
      · simp [hne]
      · exact absurd rfl hne
    rw [Decimal.ofDigits?, htake, hdrop]
    simp only [hne, Decimal.exponent?]
    exact ⟨_, rfl⟩

theorem splitSign_of_numeral {cs : List Char} (h : Numeral cs) :
    Decimal.splitSign cs = (false, cs) := by
  cases cs with
  | nil => rfl
  | cons c cs =>
    have hc : c ≠ '-' ∧ c ≠ '+' := by
      rcases h.cases c List.mem_cons_self with hd | rfl
      · exact ⟨ne_of_isDigit (by decide) hd, ne_of_isDigit (by decide) hd⟩
      · decide
    rw [Decimal.splitSign]
    · rintro rest ⟨⟩
      exact hc.1 rfl
    · rintro rest ⟨⟩
      exact hc.2 rfl

/-- A numeral can be read as a float. -/
theorem exists_ofText?_of_numeral {cs : List Char} (h : Numeral cs) :
    ∃ x, Decimal.ofText? cs = some x := by
  have hblank : ∀ c ∈ cs, isBlank c = false := by
    intro c hc
    rcases h.cases c hc with hd | rfl
    · exact isBlank_of_isDigit hd
    · decide
  have hbar : ∀ c ∈ cs, c ≠ '_' := by
    intro c hc
    rcases h.cases c hc with hd | rfl
    · exact ne_of_isDigit (by decide) hd
    · decide
  obtain ⟨x, hx⟩ := exists_ofDigits?_of_numeral h false
  rw [Decimal.ofText?, trim_eq_self hblank, asciiDigits_eq_self h.cases, joinDigits?_eq_self hbar]
  simp only [Decimal.ofPlain?, splitSign_of_numeral h, hx]
  cases Decimal.ofWord? false cs with
  | none => exact ⟨x, rfl⟩
  | some y => exact ⟨y, rfl⟩

/-! ## Scanning -/

namespace Token

theorem isDigit_of_mem_takeWhile {cs : List Char} : ∀ c ∈ cs.takeWhile isDigit, isDigit c = true :=
  fun _ hc => List.mem_takeWhile_imp hc

/-- The number at the head of a text, if there is one, is a numeral. -/
theorem numeral_splitNumber {cs : List Char} (h : (splitNumber cs).1 ≠ []) :
    Numeral (splitNumber cs).1 := by
  unfold splitNumber at h ⊢
  split
  · rename_i rest h1 h2
    split
    · rename_i h3
      simp [h1, h2, h3] at h
    · rename_i ds h3
      exact ⟨[], rest.takeWhile isDigit, by simp, isDigit_of_mem_takeWhile, Or.inr h3, Or.inl rfl⟩
  · rename_i h1 h2
    simp [h1] at h
  · rename_i rest _ h1
    exact ⟨cs.takeWhile isDigit, rest.takeWhile isDigit, isDigit_of_mem_takeWhile,
      isDigit_of_mem_takeWhile, Or.inl h1, Or.inl rfl⟩
  · rename_i h1 _ _
    exact ⟨cs.takeWhile isDigit, [], isDigit_of_mem_takeWhile, by simp, Or.inl h1,
      Or.inr ⟨rfl, rfl⟩⟩

theorem proper_of_singleKind? {c : Char} {kind : TokenKind} (h : singleKind? c = some kind) :
    Proper ⟨kind, c.toString⟩ ∧ kind ≠ .number := by
  unfold singleKind? at h
  split at h
  · rename_i hc
    cases h
    refine ⟨?_, by decide⟩
    simp only [Bool.or_eq_true, beq_iff_eq] at hc
    rcases hc with ((rfl | rfl) | rfl) | rfl
    · exact Proper.operator .add
    · exact Proper.operator .subtract
    · exact Proper.operator .multiply
    · exact Proper.operator .divide
  · split at h
    · rename_i hc
      cases h
      rw [beq_iff_eq.1 hc]
      exact ⟨Proper.opening, by decide⟩
    · split at h
      · rename_i hc
        cases h
        rw [beq_iff_eq.1 hc]
        exact ⟨Proper.closing, by decide⟩
      · cases h

/-- A token of a text: proper, and a number token is a numeral. -/
def Scanned (t : Token) : Prop := Proper t ∧ (t.kind = .number → Numeral t.text.toList)

theorem scanned_of_scan {position : Nat} {cs : List Char} {ts : List Token}
    (h : scan position cs = .ok ts) : ∀ t ∈ ts, Scanned t := by
  fun_induction scan position cs generalizing ts with
  | case1 =>
    cases h
    simp
  | case2 => cases h
  | case3 position c rest _ _ kind hk ih =>
    obtain ⟨us, hs, rfl⟩ := exists_of_map_ok h
    intro t ht
    rcases List.mem_cons.1 ht with rfl | ht
    · obtain ⟨hp, hn⟩ := proper_of_singleKind? hk
      exact ⟨hp, fun e => absurd e hn⟩
    · exact ih hs t ht
  | case4 position c rest d number after hsplit ih =>
    obtain ⟨us, hs, rfl⟩ := exists_of_map_ok h
    intro t ht
    rcases List.mem_cons.1 ht with rfl | ht
    · have := @numeral_splitNumber (c :: rest) (by simp [hsplit])
      rw [hsplit] at this
      exact ⟨Proper.number _, fun _ => by simpa using this⟩
    · exact ih hs t ht

theorem scanned_of_tokenize {text : String} {ts : List Token} (h : tokenize text = .ok ts) :
    ∀ t ∈ ts, Scanned t :=
  scanned_of_scan h

end Token

end Stepwise
