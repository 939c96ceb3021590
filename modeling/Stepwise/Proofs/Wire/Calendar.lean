import Mathlib.Tactic.IntervalCases
import Stepwise.Proofs.Text.Digits
import Stepwise.Wire.Timestamp

/-!
# The calendar and its writing

A day number counts through eras of 400 years, each of them four centuries and a day, a century 24
spans of four years and four years more.  `dateOf` finds the date of a day number, and `dayNumber`
leads back to it.  So a time that is told by its microseconds shows a date and a time of day
(`Timestamp.Shows`), it is at these microseconds (`localMicros_of_ofLocalMicros?`), and its ISO form
is read as it was written (`ofText?_render`).
-/

namespace Stepwise

open Stepwise.Text

namespace Timestamp

/-! ## Years of an era -/

/-- The days of an era before one of its years.  Years are counted from March. -/
def yearStart (y : Int) : Int := y * 365 + y / 4 - y / 100

/-- The parts of a day of an era, but for the last one: a century, a span of four years in it, a
year in the span, and a day of the year.  A span ends with a leap day unless it ends a century. -/
structure Parts (day c k j r : Int) : Prop where
  century : 0 ≤ c ∧ c ≤ 3
  span : 0 ≤ k ∧ k ≤ 24
  year : 0 ≤ j ∧ j ≤ 3
  day_eq : day = 36524 * c + 1461 * k + 365 * j + r
  rest : 0 ≤ r ∧ (r < 365 ∨ (r = 365 ∧ j = 3 ∧ k ≤ 23))

variable {day c k j r : Int}

theorem exists_parts (first : 0 ≤ day) (last : day < 146096) : ∃ c k j r, Parts day c k j r := by
  obtain ⟨c, hc⟩ : ∃ c, c = day / 36524 := ⟨_, rfl⟩
  obtain ⟨k, hk⟩ : ∃ k, k = (day - 36524 * c) / 1461 := ⟨_, rfl⟩
  obtain ⟨j, hj⟩ : ∃ j, j = min 3 ((day - 36524 * c - 1461 * k) / 365) := ⟨_, rfl⟩
  exact ⟨c, k, j, day - 36524 * c - 1461 * k - 365 * j, by omega, by omega, by omega, by omega,
    by omega⟩

theorem Parts.yearOfEra_eq (parts : Parts day c k j r) :
    (day - day / 1460 + day / 36524 - day / 146096) / 365 = 100 * c + 4 * k + j := by
  obtain ⟨hc, hk, hj, rfl, hr⟩ := parts
  obtain ⟨day, hday⟩ : ∃ day, day = 36524 * c + 1461 * k + 365 * j + r := ⟨_, rfl⟩
  rw [← hday]
  have centuries : day / 36524 = c := by omega
  have eras : day / 146096 = 0 := by omega
  -- A century is 25 times 1460 days and 24 days, a span is 1460 days and a day.
  have spans : day / 1460 = 25 * c + k + (24 * c + k + 365 * j + r) / 1460 := by omega
  rw [centuries, eras, spans]
  omega

theorem Parts.yearStart_eq (parts : Parts day c k j r) :
    yearStart (100 * c + 4 * k + j) = day - r := by
  obtain ⟨hc, hk, hj, rfl, -⟩ := parts
  rw [yearStart]
  omega

/-- A day of an era is in one of its years, and it is day 365 there only if the next year, the one
in which this year ends, has a 29 February. -/
theorem yearOfEra_spec (first : 0 ≤ day) (last : day < 146097) :
    ∃ y, (day - day / 1460 + day / 36524 - day / 146096) / 365 = y ∧ 0 ≤ y ∧ y < 400 ∧
      0 ≤ day - yearStart y ∧ day - yearStart y ≤ 365 ∧
      (day - yearStart y = 365 → (y + 1) % 4 = 0 ∧ ((y + 1) % 100 ≠ 0 ∨ y + 1 = 400)) := by
  rcases Int.lt_or_eq_of_le (show day ≤ 146096 by omega) with hlt | rfl
  · obtain ⟨c, k, j, r, parts⟩ := exists_parts first hlt
    refine ⟨_, parts.yearOfEra_eq, ?_⟩
    rw [parts.yearStart_eq]
    obtain ⟨hc, hk, hj, -, hr⟩ := parts
    omega
  · exact ⟨399, by decide⟩

/-! ## Months -/

/-- A day of a year that starts with March is in a month, and in February its number is 29 on day
365 alone. -/
theorem month_spec {day m : Int} (first : 0 ≤ day) (last : day ≤ 365) (hm : m = (5 * day + 2) / 153)
    {year : Nat} (leap : day = 365 → isLeap year = true) :
    0 ≤ m ∧ m ≤ 11 ∧ 1 ≤ day - (153 * m + 2) / 5 + 1 ∧
      (day - (153 * m + 2) / 5 + 1).toNat ≤
        daysIn year (if m < 10 then m + 3 else m - 9).toNat := by
  have lower : 0 ≤ m := by omega
  have upper : m ≤ 11 := by omega
  refine ⟨lower, upper, by omega, ?_⟩
  rcases Int.lt_or_eq_of_le upper with early | rfl
  · interval_cases m
    all_goals
      rw [daysIn]
      simp
      omega
  · rcases Int.lt_or_eq_of_le last with ordinary | leapDay
    · rw [daysIn]
      simp
      split <;> omega
    · rw [leapDay, daysIn, leap leapDay]
      decide

/-- The day number of a day in a month, both counted from 0 and from March on. -/
theorem dayNumber_eq (era : Int) {year shifted day : Int} (lower : 0 ≤ year) (upper : year < 400)
    (first : 0 ≤ shifted) (last : shifted ≤ 11) (hday : 0 ≤ day)
    (positive : 1 ≤ if shifted < 10 then era * 400 + year else era * 400 + year + 1) :
    dayNumber (if shifted < 10 then era * 400 + year else era * 400 + year + 1).toNat
        (if shifted < 10 then shifted + 3 else shifted - 9).toNat (day + 1).toNat =
      era * 146097 + yearStart year + ((153 * shifted + 2) / 5 + day) - 719468 := by
  have eras : (era * 400 + year) / 400 = era := by omega
  by_cases early : shifted < 10
  · simp only [if_pos early] at positive ⊢
    rw [dayNumber, Int.toNat_of_nonneg (by omega : 0 ≤ shifted + 3), if_neg (by omega),
      if_pos (by omega), Int.toNat_of_nonneg (by omega), Int.toNat_of_nonneg (by omega), eras,
      yearStart, add_sub_cancel_left, add_sub_cancel_right]
    omega
  · simp only [if_neg early] at positive ⊢
    rw [dayNumber, Int.toNat_of_nonneg (by omega : 0 ≤ shifted - 9), if_pos (by omega),
      if_neg (by omega), Int.toNat_of_nonneg (by omega), Int.toNat_of_nonneg (by omega),
      add_sub_cancel_right, eras, yearStart, add_sub_cancel_left, sub_add_cancel]
    omega

/-- The date of a day number from the year 1 on is a date of the calendar, and its day number is
the one it was found for. -/
theorem dateOf_spec {days y : Int} {month day : Nat} (h : dateOf days = (y, month, day))
    (positive : 1 ≤ y) :
    1 ≤ month ∧ month ≤ 12 ∧ 1 ≤ day ∧ day ≤ daysIn y.toNat month ∧
      dayNumber y.toNat month day = days := by
  rw [dateOf] at h
  simp only [Prod.mk.injEq] at h
  obtain ⟨era, hera⟩ : ∃ era, era = (days + 719468) / 146097 := ⟨_, rfl⟩
  obtain ⟨dayOfEra, hday⟩ : ∃ d, d = days + 719468 - era * 146097 := ⟨_, rfl⟩
  rw [← hera, ← hday] at h
  obtain ⟨year, hyear, lower, upper, first, last, leap⟩ :=
    yearOfEra_spec (by omega : 0 ≤ dayOfEra) (by omega)
  rw [hyear] at h
  obtain ⟨ordinal, hord⟩ : ∃ o, o = dayOfEra - yearStart year := ⟨_, rfl⟩
  rw [← hord] at first last leap
  have same : dayOfEra - (365 * year + year / 4 - year / 100) = ordinal := by
    rw [hord, yearStart, mul_comm]
  rw [same] at h
  obtain ⟨shifted, hs⟩ : ∃ s, s = (5 * ordinal + 2) / 153 := ⟨_, rfl⟩
  rw [← hs] at h
  obtain ⟨hy, rfl, rfl⟩ := h
  have hy : (if shifted < 10 then era * 400 + year else era * 400 + year + 1) = y := by
    rw [← hy]
    split <;> split <;> omega
  have leap : ordinal = 365 → isLeap y.toNat = true := by
    intro hlast
    obtain ⟨four, hundred⟩ := leap hlast
    rw [if_neg (by omega)] at hy
    simp only [isLeap, Bool.and_eq_true, Bool.or_eq_true, beq_iff_eq, bne_iff_ne]
    omega
  obtain ⟨from0, to11, one, month⟩ := month_spec first last hs leap
  have back := dayNumber_eq era lower upper from0 to11
    (by omega : 0 ≤ ordinal - (153 * shifted + 2) / 5) (hy ▸ positive)
  rw [hy] at back
  refine ⟨by split <;> omega, by split <;> omega, by omega, month, back.trans ?_⟩
  omega

/-! ## Times -/

/-- Dates of the calendar with a time of day. -/
structure OnCalendar (t : Timestamp) : Prop where
  year : 1 ≤ t.year ∧ t.year ≤ 9999
  month : 1 ≤ t.month ∧ t.month ≤ 12
  day : 1 ≤ t.day ∧ t.day ≤ daysIn t.year t.month
  hour : t.hour ≤ 23
  minute : t.minute ≤ 59
  second : t.second ≤ 59
  micros : t.micros ≤ 999999

variable {t u : Timestamp}

theorem daysIn_le (year month : Nat) : daysIn year month ≤ 31 := by
  rw [daysIn]
  split
  · split <;> decide
  · split <;> decide

/-- A time that is told by its microseconds is at these microseconds. -/
theorem ofLocalMicros?_spec {micros : Int} {offset : Option Int}
    (h : ofLocalMicros? micros offset = some t) :
    t.OnCalendar ∧ t.localMicros = micros ∧ t.offset = offset := by
  rw [ofLocalMicros?] at h
  obtain ⟨⟨y, month, day⟩, hdate⟩ : ∃ date, dateOf (micros / microsPerDay) = date := ⟨_, rfl⟩
  obtain ⟨rest, hrest⟩ : ∃ rest, rest = (micros % microsPerDay).toNat := ⟨_, rfl⟩
  simp only [hdate, ← hrest] at h
  split at h
  · next within =>
    cases h
    rw [Bool.and_eq_true, decide_eq_true_eq, decide_eq_true_eq] at within
    obtain ⟨month0, month1, day0, day1, back⟩ := dateOf_spec hdate within.1
    have perDay : microsPerDay = 86400000000 := rfl
    rw [perDay] at hrest
    have years : 1 ≤ y.toNat ∧ y.toNat ≤ 9999 := by omega
    have hours : rest / 3600000000 ≤ 23 := by omega
    refine ⟨⟨years, ⟨month0, month1⟩, ⟨day0, day1⟩, ?_, ?_, ?_, ?_⟩, ?_, rfl⟩
    all_goals simp only [localMicros]
    · exact hours
    · omega
    · omega
    · omega
    · rw [back, perDay]
      omega
  · cases h

theorem advance?_spec {milliseconds : Int} (h : t.advance? milliseconds = some u) :
    u.OnCalendar ∧ u.localMicros = t.localMicros + milliseconds * 1000 ∧ u.offset = t.offset :=
  ofLocalMicros?_spec h

/-- The calendar starts on the first day of the year 1 and ends with the year 9999. -/
theorem OnCalendar.days_bounds (h : t.OnCalendar) :
    -719162 ≤ t.localMicros / microsPerDay ∧ t.localMicros / microsPerDay ≤ 2932896 := by
  have days := daysIn_le t.year t.month
  obtain ⟨year, month, day, hour, minute, second, micros⟩ := h
  obtain ⟨n, hn⟩ : ∃ n, n = dayNumber t.year t.month t.day := ⟨_, rfl⟩
  have bounds : -719162 ≤ n ∧ n ≤ 2932896 := by
    rw [dayNumber] at hn
    split at hn <;> split at hn <;> omega
  unfold localMicros microsPerDay
  rw [← hn]
  omega

/-- The microseconds of the calendar. -/
theorem OnCalendar.localMicros_bounds (h : t.OnCalendar) :
    -10 ^ 18 < t.localMicros ∧ t.localMicros < 10 ^ 18 := by
  obtain ⟨first, last⟩ := h.days_bounds
  unfold microsPerDay at first last
  omega

/-- The days of the calendar are in its years. -/
theorem year_of_dateOf {days y : Int} {month day : Nat} (h : dateOf days = (y, month, day))
    (first : -719162 ≤ days) (last : days ≤ 2932896) : 1 ≤ y ∧ y ≤ 9999 := by
  rw [dateOf] at h
  simp only [Prod.mk.injEq] at h
  obtain ⟨era, hera⟩ : ∃ era, era = (days + 719468) / 146097 := ⟨_, rfl⟩
  obtain ⟨dayOfEra, hday⟩ : ∃ d, d = days + 719468 - era * 146097 := ⟨_, rfl⟩
  rw [← hera, ← hday] at h
  obtain ⟨year, hyear, lower, upper, from0, to365, -⟩ :=
    yearOfEra_spec (by omega : 0 ≤ dayOfEra) (by omega)
  rw [hyear] at h
  unfold yearStart at from0 to365
  obtain ⟨hy, -⟩ := h
  split at hy <;> omega

/-- Between two times of the calendar all are times of the calendar. -/
theorem exists_advance? (h : t.OnCalendar) (h' : u.OnCalendar) {milliseconds : Int}
    (later : 0 ≤ milliseconds) (within : t.localMicros + milliseconds * 1000 ≤ u.localMicros) :
    ∃ v, t.advance? milliseconds = some v := by
  have first := h.days_bounds.1
  have last := h'.days_bounds.2
  obtain ⟨micros, sum⟩ : ∃ micros, micros = t.localMicros + milliseconds * 1000 := ⟨_, rfl⟩
  obtain ⟨⟨y, month, day⟩, hdate⟩ : ∃ date, dateOf (micros / microsPerDay) = date := ⟨_, rfl⟩
  have years : 1 ≤ y ∧ y ≤ 9999 := by
    apply year_of_dateOf hdate
    · unfold microsPerDay at first ⊢
      omega
    · unfold microsPerDay at last ⊢
      omega
  unfold advance? ofLocalMicros?
  rw [← sum]
  simp only [hdate, years, decide_true, Bool.and_self, if_true]
  exact ⟨_, rfl⟩

/-! ## Writing and reading -/

theorem isDigit_of_mem_padded {width n : Nat} : ∀ c ∈ padded width n, isDigit c = true := by
  intro c hc
  rw [padded] at hc
  rcases List.mem_append.1 hc with h | h
  · rw [List.eq_of_mem_replicate h]
    rfl
  · exact isDigit_of_mem_toDigits h

theorem length_padded {width n : Nat} (pos : 0 < width) (h : n < 10 ^ width) :
    (padded width n).length = width := by
  have := (Nat.length_toDigits_le_iff (by decide) pos).2 h
  simp only [padded, List.length_append, List.length_replicate]
  omega

theorem digitsValue_padded (width n : Nat) : digitsValue (padded width n) = n := by
  rw [padded, digitsValue_zeros_append, digitsValue_toDigits]

/-- A number is read as it was written, whatever comes after it. -/
theorem digits?_padded {width n : Nat} (pos : 0 < width) (h : n < 10 ^ width) (rest : List Char) :
    digits? width (padded width n ++ rest) = some (n, rest) := by
  have length := length_padded pos h
  have digits : (padded width n).all isDigit = true :=
    List.all_eq_true.2 fun c hc => isDigit_of_mem_padded c hc
  rw [digits?, List.take_left' length, List.drop_left' length, length, digits, digitsValue_padded]
  simp

theorem date?_render (h : t.OnCalendar) (rest : List Char) :
    date? (padded 4 t.year ++ '-' :: padded 2 t.month ++ '-' :: padded 2 t.day ++ rest) =
      some ((t.year, t.month, t.day), rest) := by
  obtain ⟨year, month, day, -⟩ := h
  have days := daysIn_le t.year t.month
  simp only [List.append_assoc, List.cons_append]
  rw [date?, digits?_padded (by decide) (by omega)]
  simp only
  rw [digits?_padded (by decide) (by omega)]
  simp only
  rw [digits?_padded (by decide) (by omega)]
  simp [year, month, day]

/-- What follows the seconds is no digit and no mark of a fraction. -/
theorem head?_renderOffset (offset : Option Int) :
    ∀ c ∈ (renderOffset offset).head?, isDigit c = false ∧ c ≠ '.' ∧ c ≠ ',' := by
  intro c hc
  rw [renderOffset.eq_def] at hc
  split at hc
  · cases hc
  · split at hc
    · cases hc
      decide
    · split at hc <;> cases hc <;> decide

theorem seconds?_render {second micros : Nat} (hs : second ≤ 59) (hm : micros ≤ 999999)
    (offset : Option Int) :
    seconds? (':' :: padded 2 second ++
        (if micros == 0 then [] else '.' :: padded 6 micros) ++ renderOffset offset) =
      some ((second, micros), renderOffset offset) := by
  have head := head?_renderOffset offset
  simp only [List.append_assoc, List.cons_append]
  rw [seconds?, digits?_padded (by decide) (by omega)]
  simp only [if_neg (by omega : ¬ 59 < second)]
  by_cases whole : micros = 0
  · subst whole
    cases hr : renderOffset offset with
    | nil => rfl
    | cons c more =>
      obtain ⟨-, dot, comma⟩ := head c (by rw [hr]; rfl)
      simp [dot, comma]
  · have digits : ∀ c ∈ padded 6 micros, isDigit c = true := isDigit_of_mem_padded
    have length := length_padded (by decide : 0 < 6) (by omega : micros < 10 ^ 6)
    have value : microsOf (padded 6 micros) = micros := by
      rw [microsOf, List.take_left' length, digitsValue_padded]
    have some : padded 6 micros ≠ [] := List.ne_nil_of_length_pos (by omega)
    simp only [beq_iff_eq, whole, if_false, List.cons_append, beq_self_eq_true, Bool.true_or,
      if_true]
    rw [takeWhile_isDigit digits _ fun c hc => (head c hc).1,
      dropWhile_isDigit digits _ fun c hc => (head c hc).1, value]
    simp [some]

theorem offset?_render {offset : Option Int} (h : ∀ minutes ∈ offset, minutes.natAbs < 1440) :
    offset? (renderOffset offset) = some offset := by
  cases offset with
  | none => rfl
  | some minutes =>
    by_cases utc : minutes = 0
    · subst utc
      rfl
    · obtain ⟨n, hn⟩ : ∃ n, n = minutes.natAbs := ⟨_, rfl⟩
      have small : n < 1440 := hn ▸ h minutes rfl
      have hours := digits?_padded (by decide : 0 < 2) (by omega : n / 60 < 10 ^ 2)
        (':' :: padded 2 (n % 60))
      have rest := digits?_padded (by decide : 0 < 2) (by omega : n % 60 < 10 ^ 2) []
      rw [List.append_nil] at rest
      have inRange : ¬ (59 < n % 60 ∨ 23 < n / 60) := by omega
      rw [renderOffset.eq_def]
      simp only [beq_iff_eq, utc, if_false, ← hn]
      by_cases west : minutes < 0
      · simp [offset?, west, hours, rest, inRange]
        omega
      · simp [offset?, west, hours, rest, inRange]
        omega

/-- A time of the calendar is read as it was written. -/
theorem ofText?_render (h : t.OnCalendar) (zone : ∀ minutes ∈ t.offset, minutes.natAbs < 1440) :
    ofText? t.render = some t := by
  have iso : ofIso? t.render.toList = some t := by
    have twoDigits : ∀ {n : Nat}, n ≤ 59 → ∀ rest,
        digits? 2 (padded 2 n ++ rest) = some (n, rest) :=
      fun small => digits?_padded (by decide) (Nat.lt_of_le_of_lt small (by decide))
    have hour := twoDigits (h.hour.trans (by decide))
    have minute := twoDigits h.minute
    have time : ¬ (23 < t.hour ∨ 59 < t.minute) := by
      rw [not_or, Nat.not_lt, Nat.not_lt]
      exact ⟨h.hour, h.minute⟩
    have date := date?_render h
    have seconds := seconds?_render h.second h.micros t.offset
    simp only [List.append_assoc, List.cons_append] at date seconds
    rw [render, String.toList_ofList, ofIso?]
    simp only [List.append_assoc, List.cons_append, date, hour, minute, seconds,
      offset?_render zone]
    simp [time]
  simp only [ofText?, iso]

end Timestamp

end Stepwise
