import Stepwise.Proofs.Json.Number
import Stepwise.Proofs.Json.Text

/-!
# What is written is read back

A value whose floats are finite and whose texts have no unpaired surrogates (`Plain`) is read back
from its text, whatever stands after it.  The one thing that a reader may refuse is an integer
with too many digits (`Short`).
-/

namespace Stepwise.Json

open Text Decimal

/-- Values that can be written, with at most so many containers around a part. -/
inductive Plain : Nat → Json → Prop where
  | null (depth : Nat) : Plain depth .null
  | bool (depth : Nat) (b : Bool) : Plain depth (.bool b)
  | int (depth : Nat) (i : Int) : Plain depth (.int i)
  | float (depth : Nat) {x : Float} (finite : isFinite x = true) : Plain depth (.float x)
  | text (depth : Nat) (s : String) : Plain depth (.text s)
  | array {depth : Nat} {vs : List Json} (parts : ∀ v ∈ vs, Plain depth v) :
      Plain (depth + 1) (.array vs)
  | object {depth : Nat} {ps : List (String × Json)} (parts : ∀ p ∈ ps, Plain depth p.2) :
      Plain (depth + 1) (.object ps)

/-- Integers that a reader takes. -/
def ShortInt (i : Int) : Prop :=
  (Nat.toDigits 10 i.natAbs).length ≤ 4300

theorem shortInt_of_lt {i : Int} {k : Nat} (pos : 0 < k) (hk : k ≤ 4300)
    (h : i.natAbs < 10 ^ k) : ShortInt i :=
  ((Nat.length_toDigits_le_iff (by decide) pos).2 h).trans hk

/-- Every integer in a value is one that a reader takes. -/
inductive Short : Json → Prop where
  | null : Short .null
  | bool (b : Bool) : Short (.bool b)
  | int {i : Int} (short : ShortInt i) : Short (.int i)
  | float (x : Float) : Short (.float x)
  | text (s : String) : Short (.text s)
  | unpaired (units : List Nat) : Short (.unpaired units)
  | array {vs : List Json} (parts : ∀ v ∈ vs, Short v) : Short (.array vs)
  | object {ps : List (String × Json)} (parts : ∀ p ∈ ps, Short p.2) : Short (.object ps)

@[simp] theorem plain_null (depth : Nat) : Plain depth .null := .null depth

@[simp] theorem plain_int (depth : Nat) (i : Int) : Plain depth (.int i) := .int depth i

@[simp] theorem plain_float {depth : Nat} {x : Float} :
    Plain depth (.float x) ↔ isFinite x = true :=
  ⟨fun h => match h with | .float _ finite => finite, .float depth⟩

@[simp] theorem plain_text (depth : Nat) (s : String) : Plain depth (.text s) := .text depth s

@[simp] theorem plain_array {depth : Nat} {vs : List Json} :
    Plain (depth + 1) (.array vs) ↔ ∀ v ∈ vs, Plain depth v :=
  ⟨fun h => match h with | .array parts => parts, .array⟩

@[simp] theorem plain_object {depth : Nat} {ps : List (String × Json)} :
    Plain (depth + 1) (.object ps) ↔ ∀ p ∈ ps, Plain depth p.2 :=
  ⟨fun h => match h with | .object parts => parts, .object⟩

@[simp] theorem short_null : Json.null.Short := .null

@[simp] theorem short_int {i : Int} : (Json.int i).Short ↔ ShortInt i :=
  ⟨fun h => match h with | .int short => short, .int⟩

@[simp] theorem short_float (x : Float) : (Json.float x).Short := .float x

@[simp] theorem short_text (s : String) : (Json.text s).Short := .text s

@[simp] theorem short_array {vs : List Json} : (Json.array vs).Short ↔ ∀ v ∈ vs, v.Short :=
  ⟨fun h => match h with | .array parts => parts, .array⟩

@[simp] theorem short_object {ps : List (String × Json)} :
    (Json.object ps).Short ↔ ∀ p ∈ ps, p.2.Short :=
  ⟨fun h => match h with | .object parts => parts, .object⟩

/-- A result is read off a text, or refused, as the condition says. -/
def Reads {α : Type} (reading : Reading α) (a : α) (rest : List Char) (short : Prop) : Prop :=
  (short ∧ reading = .ok (a, rest)) ∨ (¬ short ∧ ∃ left, reading = .error left)

theorem Reads.congr {α : Type} {reading : Reading α} {a : α} {rest : List Char} {p q : Prop}
    (h : Reads reading a rest p) (hpq : p ↔ q) : Reads reading a rest q := by
  rwa [Reads, ← hpq]

theorem Reads.map {α β : Type} {reading : Reading α} {a : α} {rest : List Char} {p : Prop}
    (h : Reads reading a rest p) (f : α → β) :
    Reads (reading.map fun r => (f r.1, r.2)) (f a) rest p := by
  rcases h with ⟨hp, rfl⟩ | ⟨hp, left, rfl⟩
  · exact Or.inl ⟨hp, rfl⟩
  · exact Or.inr ⟨hp, left, rfl⟩

/-- What is read in two parts is refused with either. -/
theorem Reads.andThen {α β : Type} {reading : Reading α} {a : α} {more rest : List Char}
    {p q : Prop} (h : Reads reading a more p) {whole : Reading β} {b : β}
    (ok : reading = .ok (a, more) → Reads whole b rest q)
    (error : ∀ left, reading = .error left → whole = .error left) :
    Reads whole b rest (p ∧ q) := by
  rcases h with ⟨hp, h⟩ | ⟨hp, left, h⟩
  · exact (ok h).congr (and_iff_right hp).symm
  · exact Or.inr ⟨fun both => hp both.1, left, error left h⟩

/-- A text that begins with neither a blank nor the end of an array. -/
def Solid (cs : List Char) : Prop :=
  ∃ c more, cs = c :: more ∧ c ∉ [' ', '\t', '\n', '\r', ']']

variable {l : Layout} {d : Dialect} {depth : Nat} {v : Json}

theorem skip_solid {cs : List Char} (h : Solid cs) (rest : List Char) :
    skip (cs ++ rest) = cs ++ rest := by
  obtain ⟨c, more, rfl, hc⟩ := h
  simp only [List.mem_cons, List.not_mem_nil, or_false, not_or] at hc
  rw [skip, List.cons_append, List.dropWhile_cons_of_neg]
  simp [hc]

theorem solid_written {n : Written} (wf : n.WellFormed) : Solid n.text := by
  have first : ∀ c : Char, isDigit c = true → c ∉ [' ', '\t', '\n', '\r', ']'] := fun c hc =>
    forall_isDigit (P := fun c => c ∉ [' ', '\t', '\n', '\r', ']']) (by decide) hc
  unfold Written.text
  cases n.negative with
  | true => exact ⟨'-', _, rfl, by decide⟩
  | false =>
    rcases wf.lead with h | ⟨h, -⟩
    · rw [h]
      exact ⟨'0', _, rfl, by decide⟩
    · obtain ⟨c, cs, h⟩ := List.exists_cons_of_ne_nil h
      have hc := wf.whole c (by rw [h]; exact List.mem_cons_self)
      rw [h]
      exact ⟨c, _, rfl, first c hc⟩

theorem solid_of_quote {quote : Char} (h : quote.toNat = 0x22) (rest : List Char) :
    Solid (quote :: rest) := by
  refine ⟨quote, rest, rfl, ?_⟩
  rintro hmem
  simp only [List.mem_cons, List.not_mem_nil, or_false] at hmem
  rcases hmem with rfl | rfl | rfl | rfl | rfl <;> cases h

theorem solid_renderText (s : String) : Solid (renderText s).toList := by
  obtain ⟨quote, hquote, heq⟩ := toList_renderText s
  rw [heq]
  exact solid_of_quote hquote _

/-! ## Containers -/

/-- The text between the brackets of an array. -/
def itemsText (l : Layout) (vs : List Json) : List Char :=
  (",".intercalate (renderItems l vs)).toList

/-- The text between the braces of an object. -/
def entriesText (l : Layout) (ps : List (String × Json)) : List Char :=
  (",".intercalate (renderEntries l ps)).toList

theorem toList_render_array (l : Layout) (vs : List Json) :
    (render l (.array vs)).toList = '[' :: (itemsText l vs ++ [']']) := by
  rw [render, String.toList_append, String.toList_append]
  rfl

theorem toList_render_object (l : Layout) (ps : List (String × Json)) :
    (render l (.object ps)).toList =
      Char.ofNat 0x7b :: (entriesText l ps ++ [Char.ofNat 0x7d]) := by
  rw [render, String.toList_append, String.toList_append]
  rfl

theorem itemsText_singleton (l : Layout) (v : Json) : itemsText l [v] = (render l v).toList := by
  rw [itemsText, renderItems, renderItems, String.intercalate_singleton]

theorem itemsText_cons_cons (l : Layout) (v w : Json) (vs : List Json) :
    itemsText l (v :: w :: vs) = (render l v).toList ++ ',' :: itemsText l (w :: vs) := by
  rw [itemsText, renderItems, renderItems, String.intercalate_cons_cons, ← renderItems,
    String.toList_append, String.toList_append, List.append_assoc]
  rfl

/-- The text of an entry. -/
def entryText (l : Layout) (p : String × Json) : List Char :=
  (renderText p.1).toList ++ ':' :: (render l p.2).toList

theorem entriesText_singleton (l : Layout) (p : String × Json) :
    entriesText l [p] = entryText l p := by
  rw [entriesText, renderEntries, renderEntries, String.intercalate_singleton,
    String.toList_append, String.toList_append, List.append_assoc]
  rfl

theorem entriesText_cons_cons (l : Layout) (p q : String × Json) (ps : List (String × Json)) :
    entriesText l (p :: q :: ps) = entryText l p ++ ',' :: entriesText l (q :: ps) := by
  rw [entriesText, renderEntries, renderEntries, String.intercalate_cons_cons, ← renderEntries,
    String.toList_append, String.toList_append, String.toList_append, String.toList_append,
    entryText, List.append_assoc, List.append_assoc, List.append_assoc, List.append_assoc]
  rfl

theorem solid_render (plain : Plain depth v) : Solid (render l v).toList := by
  cases plain with
  | null =>
    rw [render]
    exact ⟨'n', _, rfl, by decide⟩
  | bool _ b =>
    rw [render]
    cases b with
    | true => exact ⟨'t', _, rfl, by decide⟩
    | false => exact ⟨'f', _, rfl, by decide⟩
  | int _ i =>
    obtain ⟨n, wf, -, -, text, -⟩ := exists_written_toString i
    rw [render, text]
    exact solid_written wf
  | float _ finite =>
    obtain ⟨n, wf, -, text, -⟩ := exists_written_render l finite
    rw [render, text]
    exact solid_written wf
  | text _ s =>
    rw [render]
    exact solid_renderText s
  | array _ =>
    rw [toList_render_array]
    exact ⟨_, _, rfl, by decide⟩
  | object _ =>
    rw [toList_render_object]
    exact ⟨_, _, rfl, by decide⟩

theorem Solid.append {cs : List Char} (h : Solid cs) (more : List Char) : Solid (cs ++ more) := by
  obtain ⟨c, tail, rfl, hc⟩ := h
  exact ⟨c, tail ++ more, rfl, hc⟩

theorem solid_itemsText {vs : List Json} (hne : vs ≠ []) (plain : ∀ v ∈ vs, Plain depth v) :
    Solid (itemsText l vs) := by
  obtain ⟨v, vs, rfl⟩ := List.exists_cons_of_ne_nil hne
  have first : Solid (render l v).toList := solid_render (plain v List.mem_cons_self)
  cases vs with
  | nil =>
    rw [itemsText_singleton]
    exact first
  | cons w ws =>
    rw [itemsText_cons_cons]
    exact first.append _

theorem exists_quote_entriesText (l : Layout) {ps : List (String × Json)} (hne : ps ≠ []) :
    ∃ quote rest, quote.toNat = 0x22 ∧ entriesText l ps = quote :: rest := by
  obtain ⟨p, ps, rfl⟩ := List.exists_cons_of_ne_nil hne
  obtain ⟨quote, hquote, heq⟩ := toList_renderText p.1
  cases ps with
  | nil =>
    rw [entriesText_singleton, entryText, heq]
    exact ⟨quote, _, hquote, rfl⟩
  | cons q qs =>
    rw [entriesText_cons_cons, entryText, heq]
    exact ⟨quote, _, hquote, rfl⟩

theorem head?_entriesText {ps : List (String × Json)} (hne : ps ≠ []) :
    (entriesText l ps).head? ≠ some (Char.ofNat 0x7d) := by
  obtain ⟨quote, rest, hquote, heq⟩ := exists_quote_entriesText l hne
  rw [heq, List.head?_cons]
  rintro h
  rw [Option.some.inj h] at hquote
  cases hquote

theorem solid_entriesText {ps : List (String × Json)} (hne : ps ≠ []) :
    Solid (entriesText l ps) := by
  obtain ⟨quote, rest, hquote, heq⟩ := exists_quote_entriesText l hne
  rw [heq]
  exact solid_of_quote hquote rest

/-! ## Reading -/

theorem stops_comma (rest : List Char) : Stops (',' :: rest) := by
  rintro c ⟨⟩
  decide

theorem stops_bracket (rest : List Char) : Stops (']' :: rest) := by
  rintro c ⟨⟩
  decide

theorem stops_brace (rest : List Char) : Stops (Char.ofNat 0x7d :: rest) := by
  rintro c ⟨⟩
  decide

/-- A value is read off its text, or refused for an integer in it, whatever follows. -/
def ReadsBack (l : Layout) (d : Dialect) (depth : Nat) (v : Json) : Prop :=
  ∀ fuel rest, 2 * (render l v).toList.length ≤ fuel → Stops rest →
    Reads (value d fuel depth ((render l v).toList ++ rest)) v rest v.Short

theorem reads_items {vs : List Json} (hne : vs ≠ []) (plain : ∀ v ∈ vs, Plain depth v)
    (parts : ∀ v ∈ vs, ReadsBack l d depth v) (fuel : Nat) (rest : List Char)
    (hfuel : 2 * (itemsText l vs).length + 1 ≤ fuel) :
    Reads (items d fuel depth (itemsText l vs ++ ']' :: rest)) vs rest (∀ v ∈ vs, v.Short) := by
  induction vs generalizing fuel with
  | nil => exact absurd rfl hne
  | cons v vs ih =>
    obtain ⟨fuel, rfl⟩ : ∃ k, fuel = k + 1 := ⟨fuel - 1, by omega⟩
    have first := parts v List.mem_cons_self
    rw [items.eq_def]
    simp only
    cases vs with
    | nil =>
      rw [itemsText_singleton] at hfuel ⊢
      have last := first fuel (']' :: rest) (by omega) (stops_bracket rest)
      refine (last.andThen (q := True) (fun h => ?_) fun left h => by rw [h]).congr (by simp)
      rw [h]
      exact Or.inl ⟨trivial, rfl⟩
    | cons w ws =>
      rw [itemsText_cons_cons] at hfuel ⊢
      rw [List.length_append, List.length_cons] at hfuel
      rw [List.append_assoc, List.cons_append]
      have plain' := fun v hv => plain v (List.mem_cons_of_mem _ hv)
      have others := ih (List.cons_ne_nil w ws) plain'
        (fun v hv => parts v (List.mem_cons_of_mem _ hv)) fuel (by omega)
      rw [← skip_solid (solid_itemsText (List.cons_ne_nil w ws) plain')] at others
      refine ((first fuel _ (by omega) (stops_comma _)).andThen (fun h => ?_)
        fun left h => by rw [h]).congr List.forall_mem_cons.symm
      rw [h]
      exact others.map (v :: ·)

/-- What the reader does once the value of an entry is read. -/
theorem entries_entryText {p : String × Json} (plain : Plain depth p.2) (fuel : Nat)
    (more : List Char) : entries d (fuel + 1) depth (entryText l p ++ more) =
      match value d fuel depth ((render l p.2).toList ++ more) with
      | .error fault => .error fault
      | .ok (v, rest) =>
        match skip rest with
        | [] => .error 0
        | c :: after =>
          if c.toNat == 0x7d then .ok ([(p.1, v)], after)
          else if c == ',' then
            (entries d fuel depth (skip after)).map fun r => ((p.1, v) :: r.1, r.2)
          else .error (after.length + 1) := by
  rw [← skip_solid (solid_render plain) more, entryText, List.append_assoc, entries.eq_def]
  simp only [key_renderText]
  rfl

theorem reads_entries {ps : List (String × Json)} (hne : ps ≠ [])
    (plain : ∀ p ∈ ps, Plain depth p.2) (parts : ∀ p ∈ ps, ReadsBack l d depth p.2) (fuel : Nat)
    (rest : List Char) (hfuel : 2 * (entriesText l ps).length + 1 ≤ fuel) :
    Reads (entries d fuel depth (entriesText l ps ++ Char.ofNat 0x7d :: rest)) ps rest
      (∀ p ∈ ps, p.2.Short) := by
  induction ps generalizing fuel with
  | nil => exact absurd rfl hne
  | cons p ps ih =>
    obtain ⟨fuel, rfl⟩ : ∃ k, fuel = k + 1 := ⟨fuel - 1, by omega⟩
    have first := parts p List.mem_cons_self
    have size : (render l p.2).toList.length ≤ (entryText l p).length := by
      rw [entryText, List.length_append, List.length_cons]
      omega
    cases ps with
    | nil =>
      rw [entriesText_singleton] at hfuel ⊢
      rw [entries_entryText (plain p List.mem_cons_self)]
      have last := first fuel _ (by omega) (stops_brace rest)
      refine (last.andThen (q := True) (fun h => ?_) fun left h => by rw [h]).congr (by simp)
      rw [h]
      exact Or.inl ⟨trivial, rfl⟩
    | cons q qs =>
      rw [entriesText_cons_cons] at hfuel ⊢
      rw [List.length_append, List.length_cons] at hfuel
      rw [List.append_assoc, List.cons_append, entries_entryText (plain p List.mem_cons_self)]
      have others := ih (List.cons_ne_nil q qs) (fun p hp => plain p (List.mem_cons_of_mem _ hp))
        (fun p hp => parts p (List.mem_cons_of_mem _ hp)) fuel (by omega)
      rw [← skip_solid (solid_entriesText (List.cons_ne_nil q qs))] at others
      refine ((first fuel _ (by omega) (stops_comma _)).andThen (q := ∀ p ∈ q :: qs, p.2.Short)
        (fun h => ?_) fun left h => by rw [h]).congr (by rw [List.forall_mem_cons (l := q :: qs)])
      rw [h]
      exact others.map (p :: ·)

theorem value_bracket (fuel depth : Nat) {cs : List Char} (h : Solid cs) (rest : List Char) :
    value d (fuel + 1) (depth + 1) ('[' :: (cs ++ rest)) =
      (items d fuel depth (cs ++ rest)).map fun r => (.array r.1, r.2) := by
  rw [value.eq_def]
  simp only
  rw [if_neg (by decide), if_pos (by decide), skip_solid h]
  obtain ⟨c, more, rfl, hc⟩ := h
  split
  · next heq =>
    obtain rfl := (List.cons.inj heq).1
    exact absurd hc (by decide)
  · rfl

theorem value_brace (fuel depth : Nat) {cs : List Char} (h : Solid cs)
    (key : cs.head? ≠ some (Char.ofNat 0x7d)) (rest : List Char) :
    value d (fuel + 1) (depth + 1) (Char.ofNat 0x7b :: (cs ++ rest)) =
      (entries d fuel depth (cs ++ rest)).map fun r => (.object r.1, r.2) := by
  rw [value.eq_def]
  change (match skip (cs ++ rest) with
    | [] => (.error 0 : Reading Json)
    | c :: after =>
      if c.toNat == 0x7d then .ok (.object [], after)
      else (entries d fuel depth (c :: after)).map fun r : List (String × Json) × List Char =>
        (Json.object r.1, r.2)) = _
  rw [skip_solid h]
  obtain ⟨c, more, rfl, -⟩ := h
  have hc : ¬ (c.toNat == 0x7d) = true := by
    intro h
    refine key ?_
    rw [← Char.ofNat_toNat c, beq_iff_eq.1 h]
    rfl
  exact if_neg hc

/-- The text of a value is not empty, so there is fuel for it. -/
theorem readsBack_of_succ (plain : Plain depth v)
    (h : ∀ fuel rest, 2 * (render l v).toList.length ≤ fuel + 1 → Stops rest →
      Reads (value d (fuel + 1) depth ((render l v).toList ++ rest)) v rest v.Short) :
    ReadsBack l d depth v := by
  intro fuel rest hfuel stops
  obtain ⟨c, more, hc, -⟩ := solid_render (l := l) plain
  have length : (render l v).toList.length = more.length + 1 := by rw [hc, List.length_cons]
  obtain ⟨fuel, rfl⟩ : ∃ k, fuel = k + 1 := ⟨fuel - 1, by omega⟩
  exact h fuel rest hfuel stops

theorem readsBack_array {vs : List Json} (plain : ∀ v ∈ vs, Plain depth v)
    (parts : ∀ v ∈ vs, ReadsBack l d depth v) : ReadsBack l d (depth + 1) (.array vs) := by
  refine readsBack_of_succ (.array plain) fun fuel rest hfuel _ => ?_
  rw [toList_render_array] at hfuel ⊢
  rw [List.cons_append, List.append_assoc, List.singleton_append]
  cases vs with
  | nil => exact Or.inl ⟨.array nofun, rfl⟩
  | cons w ws =>
    rw [List.length_cons, List.length_append, List.length_singleton] at hfuel
    have hne := List.cons_ne_nil w ws
    rw [value_bracket fuel depth (solid_itemsText hne plain)]
    exact ((reads_items hne plain parts fuel rest (by omega)).map array).congr short_array.symm

theorem readsBack_object {ps : List (String × Json)} (plain : ∀ p ∈ ps, Plain depth p.2)
    (parts : ∀ p ∈ ps, ReadsBack l d depth p.2) : ReadsBack l d (depth + 1) (.object ps) := by
  refine readsBack_of_succ (.object plain) fun fuel rest hfuel _ => ?_
  rw [toList_render_object] at hfuel ⊢
  rw [List.cons_append, List.append_assoc, List.singleton_append]
  cases ps with
  | nil => exact Or.inl ⟨.object nofun, rfl⟩
  | cons q qs =>
    rw [List.length_cons, List.length_append, List.length_singleton] at hfuel
    have hne := List.cons_ne_nil q qs
    rw [value_brace fuel depth (solid_entriesText hne) (head?_entriesText hne)]
    exact ((reads_entries hne plain parts fuel rest (by omega)).map object).congr short_object.symm

/-- A value that can be written is read back from its text, whatever follows. -/
theorem readsBack_of_plain (plain : Plain depth v) : ReadsBack l d depth v := by
  induction plain with
  | null depth =>
    refine readsBack_of_succ (.null depth) fun fuel rest _ _ => ?_
    rw [render]
    exact Or.inl ⟨.null, rfl⟩
  | bool depth b =>
    refine readsBack_of_succ (.bool depth b) fun fuel rest _ _ => ?_
    rw [render]
    cases b with
    | true => exact Or.inl ⟨.bool true, rfl⟩
    | false => exact Or.inl ⟨.bool false, rfl⟩
  | int depth i =>
    refine readsBack_of_succ (.int depth i) fun fuel rest _ stops => ?_
    rw [render, value_toString d fuel depth i stops]
    split
    · next long =>
      exact Or.inr ⟨fun short => absurd (short_int.1 short) (Nat.not_le_of_lt long), _, rfl⟩
    · next short => exact Or.inl ⟨.int (Nat.le_of_not_lt short), rfl⟩
  | @float depth x finite =>
    refine readsBack_of_succ (.float depth finite) fun fuel rest _ stops => ?_
    rw [render, value_render d fuel depth l finite stops]
    exact Or.inl ⟨.float x, rfl⟩
  | text depth s =>
    refine readsBack_of_succ (.text depth s) fun fuel rest _ _ => ?_
    rw [render, value_renderText]
    exact Or.inl ⟨.text s, rfl⟩
  | array parts ih => exact readsBack_array parts ih
  | object parts ih => exact readsBack_object parts ih

theorem Plain.mono {a b : Nat} (h : a ≤ b) (plain : Plain a v) : Plain b v := by
  induction plain generalizing b with
  | null => exact .null b
  | bool _ x => exact .bool b x
  | int _ i => exact .int b i
  | float _ finite => exact .float b finite
  | text _ s => exact .text b s
  | array parts ih =>
    obtain ⟨b, rfl⟩ : ∃ k, b = k + 1 := ⟨b - 1, by omega⟩
    exact .array fun v hv => ih v hv (Nat.le_of_succ_le_succ h)
  | object parts ih =>
    obtain ⟨b, rfl⟩ : ∃ k, b = k + 1 := ⟨b - 1, by omega⟩
    exact .object fun p hp => ih p hp (Nat.le_of_succ_le_succ h)

/-- The text of a value is read as that value, unless an integer in it is too long. -/
theorem read_render (l : Layout) (d : Dialect) (hd : ∀ size, depth ≤ d.depth size)
    (plain : Plain depth v) :
    (v.Short ∧ read d (render l v) = .ok v) ∨
      (¬ v.Short ∧ ∃ place, read d (render l v) = .error place) := by
  have solid := skip_solid (solid_render (l := l) plain) []
  have deep := plain.mono (hd (render l v).toList.length)
  have reading := readsBack_of_plain (l := l) (d := d) deep
    (2 * (render l v).toList.length + 2) [] (by omega) nofun
  rw [List.append_nil] at solid reading
  unfold read
  rcases reading with ⟨short, h⟩ | ⟨long, left, h⟩
  · left
    simp only [solid, h]
    exact ⟨short, rfl⟩
  · right
    simp only [solid, h]
    exact ⟨long, _, rfl⟩

end Stepwise.Json
