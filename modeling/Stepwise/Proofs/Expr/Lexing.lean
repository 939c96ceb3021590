import Stepwise.Proofs.Expr.Scanning

/-!
# Reading by the longest number

`Lexes` reads a blank-free text from left to right: where numerals begin, the longest of them is a
number, and elsewhere one of the operators and parentheses has to stand.  `tokenize` yields exactly
such a reading (`scan_ok_iff`), and where it stops there is none (`stray_of_scan`).  The main
result, `lexes_or_stray`, states both for every text, with what follows for the tokens and for the
character at which it stops.
-/

namespace Stepwise

open Text Token

/-- The longest numeral at the head of a text. -/
structure LongestNumeral (ds cs : List Char) : Prop where
  head : ds <+: cs
  numeral : Numeral ds
  longest : ∀ es, es <+: cs → Numeral es → es.length ≤ ds.length

/-- The tokens of one character. -/
def Token.marks : List Token := Operation.all.map Operation.token ++ [opening, closing]

/-- A reading of a text: the longest numeral is a number, and where there is none a mark stands. -/
inductive Lexes : List Char → List Token → Prop
  | nil : Lexes [] []
  | number {t rest ts} : t.kind = .number → LongestNumeral t.text.toList (t.text.toList ++ rest) →
      Lexes rest ts → Lexes (t.text.toList ++ rest) (t :: ts)
  | mark {t rest ts} : t ∈ marks → (∀ ds, ds <+: t.text.toList ++ rest → ¬ Numeral ds) →
      Lexes rest ts → Lexes (t.text.toList ++ rest) (t :: ts)

/-- The tokens of a blank-free text. -/
structure Spells (ts : List Token) (cs : List Char) : Prop where
  whole : ts.flatMap (·.text.toList) = cs
  kinds : ∀ t ∈ ts, Scanned t
  /-- No number goes on to the right. -/
  greedy : ∀ us t vs, ts = us ++ t :: vs → t.kind = .number → ∀ more, more ≠ [] →
    more <+: vs.flatMap (·.text.toList) → ¬ Numeral (t.text.toList ++ more)
  again : tokenize (String.join (ts.map (·.text))) = .ok ts

/-- A place of a blank-free text at which no token starts, while the text before it has tokens. -/
structure StopsAt (cs : List Char) (stray : StrayCharacter) : Prop where
  before : ∃ ts, tokenize (String.ofList (cs.take stray.position)) = .ok ts
  here : cs[stray.position]? = some stray.char
  digit : isDigit stray.char = false
  mark : stray.char ∉ ['+', '-', '*', '/', '(', ')']
  point : ¬ (stray.char = '.' ∧ ∃ d, cs[stray.position + 1]? = some d ∧ isDigit d = true)

/-- A character that starts no token where it stands. -/
def Stray (c : Char) (rest : List Char) : Prop :=
  (∀ t ∈ marks, t.text.toList ≠ [c]) ∧ ∀ ds, ds <+: c :: rest → ¬ Numeral ds

/-! ## Numerals -/

/-- Digits, digits and a point with digits or none after it, or a point and digits. -/
theorem numeral_iff {cs : List Char} :
    Numeral cs ↔ ∃ ds es, (∀ c ∈ ds, isDigit c = true) ∧ (∀ c ∈ es, isDigit c = true) ∧
      (ds ≠ [] ∧ (cs = ds ∨ cs = ds ++ '.' :: es) ∨ es ≠ [] ∧ cs = '.' :: es) := by
  constructor
  · rintro ⟨whole, fraction, hw, hf, hne, hcs⟩
    by_cases h : whole = []
    · subst h
      rcases hne with hne | hne
      · exact absurd rfl hne
      · rcases hcs with rfl | ⟨-, rfl⟩
        · exact ⟨[], fraction, hw, hf, Or.inr ⟨hne, rfl⟩⟩
        · exact absurd rfl hne
    · rcases hcs with rfl | ⟨rfl, rfl⟩
      · exact ⟨whole, fraction, hw, hf, Or.inl ⟨h, Or.inr rfl⟩⟩
      · exact ⟨cs, [], hw, hf, Or.inl ⟨h, Or.inl rfl⟩⟩
  · rintro ⟨ds, es, hd, he, ⟨hne, rfl | rfl⟩ | ⟨hne, rfl⟩⟩
    · exact ⟨cs, [], hd, by simp, Or.inl hne, Or.inr ⟨rfl, rfl⟩⟩
    · exact ⟨ds, es, hd, he, Or.inl hne, Or.inl rfl⟩
    · exact ⟨[], es, by simp, he, Or.inr hne, Or.inl rfl⟩

theorem Numeral.ne_nil {cs : List Char} (h : Numeral cs) : cs ≠ [] := by
  rintro rfl
  obtain ⟨whole, fraction, -, -, hne, h | ⟨rfl, rfl⟩⟩ := h
  · simp at h
  · simp at hne

theorem numeral_of_isDigit {c : Char} (h : isDigit c = true) : Numeral [c] :=
  numeral_iff.2 ⟨[c], [], by simpa using h, by simp, Or.inl ⟨by simp, Or.inl rfl⟩⟩

theorem numeral_point {d : Char} (h : isDigit d = true) : Numeral ['.', d] :=
  numeral_iff.2 ⟨[], [d], by simp, by simpa using h, Or.inr ⟨by simp, rfl⟩⟩

/-! ## The number at the head of a text -/

theorem takeWhile_prefix_splitNumber (cs : List Char) :
    cs.takeWhile isDigit <+: (splitNumber cs).1 := by
  unfold splitNumber
  split
  · rename_i h _
    exact h ▸ List.nil_prefix
  · rename_i h _
    exact h ▸ List.nil_prefix
  · exact List.prefix_append _ _
  · exact List.prefix_rfl

theorem splitNumber_point {ds : List Char} (hd : ∀ c ∈ ds, isDigit c = true) (rest : List Char)
    (hne : ds ≠ [] ∨ rest.takeWhile isDigit ≠ []) :
    (splitNumber (ds ++ '.' :: rest)).1 = ds ++ '.' :: rest.takeWhile isDigit := by
  have hdot : isDigit '.' = false := by decide
  have htake := takeWhile_isDigit hd ('.' :: rest) (by simp [hdot])
  have hdrop := dropWhile_isDigit hd ('.' :: rest) (by simp [hdot])
  unfold splitNumber
  rw [htake, hdrop]
  cases ds with
  | cons d ds => rfl
  | nil =>
    cases hr : rest.takeWhile isDigit with
    | nil => simp [hr] at hne
    | cons e es => simp [hr]

/-- No numeral at the head of a text is longer than the one that is split off. -/
theorem prefix_splitNumber {es cs : List Char} (hn : Numeral es) (hp : es <+: cs) :
    es <+: (splitNumber cs).1 := by
  obtain ⟨rest, rfl⟩ := hp
  obtain ⟨whole, fraction, hw, hf, hne, rfl | ⟨rfl, -⟩⟩ := hn
  · have hne : whole ≠ [] ∨ (fraction ++ rest).takeWhile isDigit ≠ [] := by
      rw [List.takeWhile_append_of_pos hf]
      exact hne.imp_right fun h => by simpa using fun e => absurd e h
    rw [List.append_assoc, List.cons_append, splitNumber_point hw _ hne,
      List.takeWhile_append_of_pos hf, List.prefix_append_right_inj, List.prefix_cons_inj]
    exact List.prefix_append _ _
  · refine List.IsPrefix.trans ?_ (takeWhile_prefix_splitNumber _)
    rw [List.takeWhile_append_of_pos hw]
    exact List.prefix_append _ _

theorem longestNumeral_splitNumber {cs : List Char} (h : (splitNumber cs).1 ≠ []) :
    LongestNumeral (splitNumber cs).1 cs where
  head := ⟨_, splitNumber_append cs⟩
  numeral := numeral_splitNumber h
  longest _ hp hn := (prefix_splitNumber hn hp).length_le

theorem splitNumber_of_longestNumeral {ds rest : List Char}
    (h : LongestNumeral ds (ds ++ rest)) : splitNumber (ds ++ rest) = (ds, rest) := by
  have hp := prefix_splitNumber h.numeral h.head
  have hne : (splitNumber (ds ++ rest)).1 ≠ [] := fun e =>
    h.numeral.ne_nil (List.prefix_nil.1 (e ▸ hp))
  have found := longestNumeral_splitNumber hne
  have same : ds = (splitNumber (ds ++ rest)).1 :=
    hp.eq_of_length (Nat.le_antisymm hp.length_le (h.longest _ found.head found.numeral))
  have parts := splitNumber_append (ds ++ rest)
  rw [← same, List.append_cancel_left_eq] at parts
  exact Prod.ext same.symm parts

theorem splitNumber_eq_nil_iff {cs : List Char} :
    (splitNumber cs).1 = [] ↔ ∀ ds, ds <+: cs → ¬ Numeral ds := by
  constructor
  · intro h ds hp hn
    exact hn.ne_nil (List.prefix_nil.1 (h ▸ prefix_splitNumber hn hp))
  · intro h
    by_contra hne
    exact h _ (longestNumeral_splitNumber hne).head (numeral_splitNumber hne)

/-- A numeral that is the longest is the longest in what is left when the end is cut off. -/
theorem LongestNumeral.cut {ds taken rest : List Char}
    (h : LongestNumeral ds (ds ++ (taken ++ rest))) : LongestNumeral ds (ds ++ taken) where
  head := List.prefix_append _ _
  numeral := h.numeral
  longest es hp hn := by
    refine h.longest es (hp.trans ?_) hn
    rw [← List.append_assoc]
    exact List.prefix_append _ _

/-! ## Marks -/

theorem toList_text_ofList (ds : List Char) : (ofNumber (String.ofList ds)).text.toList = ds :=
  String.toList_ofList

theorem toList_toString (c : Char) : c.toString.toList = [c] := String.toList_singleton c

theorem mem_marks_of_singleKind? {c : Char} {kind : TokenKind} (h : singleKind? c = some kind) :
    (⟨kind, c.toString⟩ : Token) ∈ marks := by
  unfold singleKind? at h
  split at h
  · rename_i hc
    cases h
    simp only [Bool.or_eq_true, beq_iff_eq] at hc
    rcases hc with ((rfl | rfl) | rfl) | rfl <;> decide
  · split at h
    · rename_i hc
      cases h
      rw [beq_iff_eq.1 hc]
      decide
    · split at h
      · rename_i hc
        cases h
        rw [beq_iff_eq.1 hc]
        decide
      · cases h

/-- A mark is one character, which has the kind of the mark. -/
theorem exists_of_mem_marks {t : Token} (h : t ∈ marks) :
    ∃ c kind, t = ⟨kind, c.toString⟩ ∧ singleKind? c = some kind := by
  rcases List.mem_append.1 h with h | h
  · obtain ⟨op, -, rfl⟩ := List.mem_map.1 h
    cases op with
    | add => exact ⟨'+', .operator, rfl, rfl⟩
    | subtract => exact ⟨'-', .operator, rfl, rfl⟩
    | multiply => exact ⟨'*', .operator, rfl, rfl⟩
    | divide => exact ⟨'/', .operator, rfl, rfl⟩
  · simp only [List.mem_cons, List.not_mem_nil, or_false] at h
    rcases h with rfl | rfl
    · exact ⟨'(', .leftParen, rfl, rfl⟩
    · exact ⟨')', .rightParen, rfl, rfl⟩

/-! ## Scanning and reading -/

theorem scan_number {cs ds rest : List Char} (h : splitNumber cs = (ds, rest)) (hne : ds ≠ [])
    (position : Nat) :
    scan position cs =
      (scan (position + ds.length) rest).map (ofNumber (String.ofList ds) :: ·) := by
  cases cs with
  | nil => cases h; exact absurd rfl hne
  | cons c cs =>
    rw [scan]
    split
    · rename_i h'
      rw [h] at h'
      cases h'
      exact absurd rfl hne
    · rename_i h'
      rw [h] at h'
      cases h'
      rfl

theorem scan_mark {c : Char} {kind : TokenKind} {rest : List Char} (hk : singleKind? c = some kind)
    (h : (splitNumber (c :: rest)).1 = []) (position : Nat) :
    scan position (c :: rest) = (scan (position + 1) rest).map (⟨kind, c.toString⟩ :: ·) := by
  rw [scan]
  split
  · rw [hk]
  · rename_i h'
    rw [h'] at h
    cases h

/-- Scanning yields a reading. -/
theorem lexes_of_scan {position : Nat} {cs : List Char} {ts : List Token}
    (h : scan position cs = .ok ts) : Lexes cs ts := by
  fun_induction scan position cs generalizing ts with
  | case1 =>
    cases h
    exact .nil
  | case2 => cases h
  | case3 position c rest after hsplit kind hk ih =>
    obtain ⟨us, hs, rfl⟩ := exists_of_map_ok h
    have none := splitNumber_eq_nil_iff.1 (congrArg Prod.fst hsplit)
    have := Lexes.mark (mem_marks_of_singleKind? hk) (by rwa [toList_toString]) (ih hs)
    rwa [toList_toString] at this
  | case4 position c rest d number after hsplit ih =>
    obtain ⟨us, hs, rfl⟩ := exists_of_map_ok h
    have parts := splitNumber_append (c :: rest)
    have longest := @longestNumeral_splitNumber (c :: rest) (by simp [hsplit])
    rw [hsplit] at parts longest
    rw [← parts] at longest ⊢
    have text := toList_text_ofList (d :: number)
    have := Lexes.number rfl (by rwa [text]) (ih hs)
    rwa [text] at this

/-- Every reading is what scanning yields. -/
theorem Lexes.scan {cs : List Char} {ts : List Token} (h : Lexes cs ts) (position : Nat) :
    scan position cs = .ok ts := by
  induction h generalizing position with
  | nil => rw [Token.scan]
  | @number t rest ts hk longest _ ih =>
    rw [scan_number (splitNumber_of_longestNumeral longest) longest.numeral.ne_nil, ih,
      String.ofList_toList]
    obtain ⟨kind, text⟩ := t
    cases hk
    rfl
  | mark ht none _ ih =>
    obtain ⟨c, kind, rfl, hk⟩ := exists_of_mem_marks ht
    rw [toList_toString, List.singleton_append] at none ⊢
    rw [scan_mark hk (splitNumber_eq_nil_iff.2 none), ih]
    rfl

theorem scan_ok_iff {position : Nat} {cs : List Char} {ts : List Token} :
    scan position cs = .ok ts ↔ Lexes cs ts :=
  ⟨lexes_of_scan, fun h => h.scan position⟩

/-- Where scanning stops, the text before has a reading and the character is stray. -/
theorem stray_of_scan {position : Nat} {cs : List Char} {stray : StrayCharacter}
    (h : scan position cs = .error stray) :
    ∃ taken rest us, cs = taken ++ stray.char :: rest ∧ stray.position = position + taken.length ∧
      Lexes taken us ∧ Stray stray.char rest := by
  fun_induction scan position cs with
  | case1 => cases h
  | case2 position c rest after hsplit hk =>
    cases h
    refine ⟨[], rest, [], rfl, rfl, .nil, fun t ht hc => ?_,
      splitNumber_eq_nil_iff.1 (congrArg Prod.fst hsplit)⟩
    obtain ⟨d, kind, rfl, hd⟩ := exists_of_mem_marks ht
    rw [toList_toString] at hc
    cases hc
    rw [hk] at hd
    cases hd
  | case3 position c rest after hsplit kind hk ih =>
    obtain ⟨taken, more, us, rfl, hp, read, stray⟩ := ih (eq_error_of_map h)
    have none := splitNumber_eq_nil_iff.1 (congrArg Prod.fst hsplit)
    have := Lexes.mark (mem_marks_of_singleKind? hk) (fun ds hd => none ds (by
      rw [toList_toString] at hd
      exact hd.trans (List.prefix_append (c :: taken) _))) read
    rw [toList_toString] at this
    refine ⟨c :: taken, more, _, rfl, ?_, this, stray⟩
    rw [hp, List.length_cons]
    omega
  | case4 position c rest d number after hsplit ih =>
    obtain ⟨taken, more, us, rfl, hp, read, stray⟩ := ih (eq_error_of_map h)
    have parts := splitNumber_append (c :: rest)
    have longest := @longestNumeral_splitNumber (c :: rest) (by simp [hsplit])
    rw [hsplit] at parts longest
    rw [← parts] at longest ⊢
    have text := toList_text_ofList (d :: number)
    have := Lexes.number rfl (by rw [text]; exact longest.cut) read
    rw [text] at this
    refine ⟨d :: number ++ taken, more, _, (List.append_assoc _ _ _).symm, ?_, this, stray⟩
    rw [hp, List.length_append, List.length_cons]
    omega

/-! ## What a reading tells -/

/-- The texts of the tokens make up the text that is read. -/
theorem Lexes.flatMap_text {cs : List Char} {ts : List Token} (h : Lexes cs ts) :
    ts.flatMap (·.text.toList) = cs := by
  induction h with
  | nil => rfl
  | number _ _ _ ih => rw [List.flatMap_cons, ih]
  | mark _ _ _ ih => rw [List.flatMap_cons, ih]

theorem Lexes.not_numeral_append {us vs : List Token} {t : Token} {cs : List Char}
    (h : Lexes cs (us ++ t :: vs)) (hk : t.kind = .number) {more : List Char} (hne : more ≠ [])
    (hp : more <+: vs.flatMap (·.text.toList)) : ¬ Numeral (t.text.toList ++ more) := by
  induction us generalizing cs with
  | nil =>
    cases h with
    | number _ longest read =>
      rw [read.flatMap_text] at hp
      intro hn
      have := longest.longest _ ((List.prefix_append_right_inj _).2 hp) hn
      rw [List.length_append] at this
      exact hne (List.length_eq_zero_iff.1 (by omega))
    | mark ht =>
      obtain ⟨c, kind, rfl, hs⟩ := exists_of_mem_marks ht
      exact absurd hk (proper_of_singleKind? hs).2
  | cons u us ih =>
    cases h with
    | number _ _ read => exact ih read
    | mark _ _ read => exact ih read

/-- Characters of a text without blanks can be scanned as they are. -/
theorem Lexes.tokenize_ofList {text : String} {cs : List Char} {ts : List Token}
    (read : Lexes cs ts) (h : ∀ c ∈ cs, c ∈ withoutBlanks text) :
    tokenize (String.ofList cs) = .ok ts := by
  have solid : withoutBlanks (String.ofList cs) = cs := by
    rw [withoutBlanks, String.toList_ofList, List.filter_eq_self]
    exact fun c hc => (List.mem_filter.1 (h c hc)).2
  rw [tokenize, solid]
  exact read.scan 0

theorem spells_of_tokenize {text : String} {ts : List Token} (h : tokenize text = .ok ts) :
    Spells ts (withoutBlanks text) := by
  have read : Lexes (withoutBlanks text) ts := lexes_of_scan h
  refine ⟨read.flatMap_text, scanned_of_tokenize h, ?_, ?_⟩
  · rintro us t vs rfl hk more hne hp
    exact read.not_numeral_append hk hne hp
  · have joined : String.join (ts.map (·.text)) = String.ofList (withoutBlanks text) := by
      rw [← String.toList_inj, String.toList_join, String.toList_ofList, List.flatMap_map,
        read.flatMap_text]
    rw [joined]
    exact read.tokenize_ofList fun c hc => hc

/-- A stray character is no digit, no mark and no point before a digit. -/
theorem Stray.not_start {c : Char} {rest : List Char} (h : Stray c rest) :
    isDigit c = false ∧ c ∉ ['+', '-', '*', '/', '(', ')'] ∧
      ¬ (c = '.' ∧ ∃ d, rest.head? = some d ∧ isDigit d = true) := by
  refine ⟨?_, ?_, ?_⟩
  · by_contra hd
    rw [Bool.not_eq_false] at hd
    exact h.2 [c] (List.prefix_append [c] rest) (numeral_of_isDigit hd)
  · intro hc
    have texts : marks.map (·.text.toList) = ['+', '-', '*', '/', '(', ')'].map ([·]) := by decide
    obtain ⟨t, ht, text⟩ := List.mem_map.1 (texts ▸ List.mem_map_of_mem hc)
    exact h.1 t ht text
  · rintro ⟨rfl, d, hd, hdigit⟩
    cases rest with
    | nil => cases hd
    | cons e rest =>
      cases hd
      exact h.2 _ (List.prefix_append ['.', d] rest) (numeral_point hdigit)

theorem stopsAt_of_tokenize {text : String} {stray : StrayCharacter}
    (h : tokenize text = .error stray) : StopsAt (withoutBlanks text) stray := by
  obtain ⟨taken, rest, us, hs, hp, read, hstray⟩ := stray_of_scan h
  rw [Nat.zero_add] at hp
  obtain ⟨digit, mark, point⟩ := hstray.not_start
  refine ⟨⟨us, ?_⟩, ?_, digit, mark, ?_⟩
  · rw [hp, hs, List.take_left]
    have within : ∀ c ∈ taken, c ∈ withoutBlanks text := fun c hc => by
      rw [hs]
      exact List.mem_append_left _ hc
    exact read.tokenize_ofList within
  · rw [hp, hs, List.getElem?_append_right le_rfl, Nat.sub_self, List.getElem?_cons_zero]
  · have next : (withoutBlanks text)[stray.position + 1]? = rest.head? := by
      rw [hp, hs, List.getElem?_append_right (Nat.le_add_right _ _), Nat.add_sub_cancel_left,
        List.getElem?_cons_succ, List.head?_eq_getElem?]
    rw [next]
    exact point

/-- Tokens are the reading of the text without blanks by the longest number.  A text has either
tokens, which spell it, or no reading, and then a character at which no token starts. -/
theorem lexes_or_stray (text : String) :
    (∀ ts, tokenize text = .ok ts ↔ Lexes (withoutBlanks text) ts) ∧
    ((∃ ts, tokenize text = .ok ts ∧ Spells ts (withoutBlanks text)) ∨
      (∀ ts, ¬ Lexes (withoutBlanks text) ts) ∧
        ∃ stray, tokenize text = .error stray ∧ StopsAt (withoutBlanks text) stray) := by
  have reads : ∀ ts, tokenize text = .ok ts ↔ Lexes (withoutBlanks text) ts :=
    fun _ => scan_ok_iff
  refine ⟨reads, ?_⟩
  cases h : tokenize text with
  | ok ts => exact Or.inl ⟨ts, rfl, spells_of_tokenize h⟩
  | error stray =>
    refine Or.inr ⟨fun ts read => ?_, stray, rfl, stopsAt_of_tokenize h⟩
    rw [(reads ts).2 read] at h
    cases h

/-- A point after a fraction starts no number, but a point after a point does. -/
example : tokenize "1.5." = .error ⟨'.', 3⟩ ∧
    tokenize "1..5" = .ok [ofNumber "1.", ofNumber ".5"] := by
  decide +kernel

end Stepwise
