import Stepwise.Decimal.Reader

/-!
# Timestamps

A `Timestamp` is a date and a time of day with microseconds and, unless it is local, an offset from
UTC.  `ofText?` reads the ISO 8601 forms, a date alone, and Unix times; `render` writes the ISO
form.  `advance?` adds milliseconds, and fails outside the years 1 to 9999.
-/

namespace Stepwise

open Stepwise.Text

/-- A point in time as a calendar shows it.  The offset is in minutes; without one the time is
local to nowhere. -/
structure Timestamp where
  year : Nat
  month : Nat
  day : Nat
  hour : Nat
  minute : Nat
  second : Nat
  micros : Nat
  offset : Option Int
  deriving DecidableEq, Repr, Inhabited

namespace Timestamp

/-! ## The calendar -/

/-- A year with a 29 February. -/
def isLeap (year : Nat) : Bool :=
  year % 4 == 0 && (year % 100 != 0 || year % 400 == 0)

/-- The number of days of a month. -/
def daysIn (year month : Nat) : Nat :=
  if month == 2 then (if isLeap year then 29 else 28)
  else if month == 4 || month == 6 || month == 9 || month == 11 then 30
  else 31

/-- Days from 1970-01-01 to a date.  Years are counted from March, so a leap day ends its year. -/
def dayNumber (year month day : Nat) : Int :=
  let y : Int := if month ≤ 2 then (year : Int) - 1 else year
  let era := y / 400
  let yearOfEra := y - era * 400
  let shifted : Int := if 2 < month then (month : Int) - 3 else (month : Int) + 9
  let dayOfYear := (153 * shifted + 2) / 5 + day - 1
  let dayOfEra := yearOfEra * 365 + yearOfEra / 4 - yearOfEra / 100 + dayOfYear
  era * 146097 + dayOfEra - 719468

/-- The year, month and day of a day number. -/
def dateOf (days : Int) : Int × Nat × Nat :=
  let z := days + 719468
  let era := z / 146097
  let dayOfEra := z - era * 146097
  let yearOfEra :=
    (dayOfEra - dayOfEra / 1460 + dayOfEra / 36524 - dayOfEra / 146096) / 365
  let dayOfYear := dayOfEra - (365 * yearOfEra + yearOfEra / 4 - yearOfEra / 100)
  let shifted := (5 * dayOfYear + 2) / 153
  let day := dayOfYear - (153 * shifted + 2) / 5 + 1
  let month := if shifted < 10 then shifted + 3 else shifted - 9
  let year := yearOfEra + era * 400
  (if month ≤ 2 then year + 1 else year, month.toNat, day.toNat)

/-- Microseconds in a day. -/
def microsPerDay : Int := 86400000000

/-- Microseconds from the start of 1970 to what the calendar and the clock show. -/
def localMicros (t : Timestamp) : Int :=
  dayNumber t.year t.month t.day * microsPerDay +
    (((t.hour * 60 + t.minute) * 60 + t.second) * 1000000 + t.micros : Nat)

/-- The timestamp that shows a number of microseconds, within the years 1 to 9999. -/
def ofLocalMicros? (micros : Int) (offset : Option Int) : Option Timestamp :=
  let days := micros / microsPerDay
  let rest := (micros % microsPerDay).toNat
  let (year, month, day) := dateOf days
  if 1 ≤ year && year ≤ 9999 then
    some ⟨year.toNat, month, day, rest / 3600000000, rest / 60000000 % 60, rest / 1000000 % 60,
      rest % 1000000, offset⟩
  else none

/-- The timestamp a number of milliseconds later. -/
def advance? (t : Timestamp) (milliseconds : Int) : Option Timestamp :=
  ofLocalMicros? (t.localMicros + milliseconds * 1000) t.offset

/-- Microseconds since 1970 in UTC. -/
def instant? (t : Timestamp) : Option Int :=
  t.offset.map fun minutes => t.localMicros - minutes * 60000000

/-- The time on the service's clock, which starts with the year 2024. -/
def onClock? (milliseconds : Int) : Option Timestamp :=
  advance? ⟨2024, 1, 1, 0, 0, 0, 0, some 0⟩ milliseconds

/-! ## Writing -/

/-- A number with leading zeros. -/
def padded (width n : Nat) : List Char :=
  let ds := Nat.toDigits 10 n
  List.replicate (width - ds.length) '0' ++ ds

/-- The offset of a time zone: Z for UTC, nothing for a local time. -/
def renderOffset : Option Int → List Char
  | none => []
  | some minutes =>
    if minutes == 0 then ['Z'] else
    (if minutes < 0 then '-' else '+') ::
      (padded 2 (minutes.natAbs / 60) ++ ':' :: padded 2 (minutes.natAbs % 60))

/-- The ISO 8601 form, with six places of a second unless they are zero. -/
def render (t : Timestamp) : String :=
  String.ofList (padded 4 t.year ++ '-' :: padded 2 t.month ++ '-' :: padded 2 t.day ++
    'T' :: padded 2 t.hour ++ ':' :: padded 2 t.minute ++ ':' :: padded 2 t.second ++
    (if t.micros == 0 then [] else '.' :: padded 6 t.micros) ++ renderOffset t.offset)

/-! ## Reading -/

/-- A fixed number of digits at the head of a text. -/
def digits? (count : Nat) (cs : List Char) : Option (Nat × List Char) :=
  let ds := cs.take count
  if ds.length == count && ds.all isDigit then some (digitsValue ds, cs.drop count) else none

/-- A date at the head of a text. -/
def date? (cs : List Char) : Option ((Nat × Nat × Nat) × List Char) :=
  match digits? 4 cs with
  | some (year, '-' :: rest) =>
    match digits? 2 rest with
    | some (month, '-' :: rest) =>
      match digits? 2 rest with
      | some (day, rest) =>
        if 1 ≤ year && 1 ≤ month && month ≤ 12 && 1 ≤ day && day ≤ daysIn year month then
          some ((year, month, day), rest)
        else none
      | none => none
    | _ => none
  | _ => none

/-- Microseconds of a fraction of a second; digits after the sixth are dropped. -/
def microsOf (ds : List Char) : Nat :=
  digitsValue ((ds ++ List.replicate 6 '0').take 6)

/-- Seconds and microseconds, if the text goes on with them. -/
def seconds? : List Char → Option ((Nat × Nat) × List Char)
  | ':' :: rest =>
    match digits? 2 rest with
    | some (second, rest) =>
      if 59 < second then none else
      match rest with
      | c :: more =>
        if c == '.' || c == ',' then
          let ds := more.takeWhile isDigit
          if ds.isEmpty then none else some ((second, microsOf ds), more.dropWhile isDigit)
        else some ((second, 0), c :: more)
      | [] => some ((second, 0), [])
    | none => none
  | rest => some ((0, 0), rest)

/-- An offset from UTC that fills the rest of a text. -/
def offset? : List Char → Option (Option Int)
  | [] => some none
  | c :: rest =>
    if (c == 'Z' || c == 'z') && rest.isEmpty then some (some 0)
    else if c == '+' || c == '-' || c.toNat == 0x2212 then
      match digits? 2 rest with
      | some (hours, rest) =>
        let rest := match rest with
          | ':' :: more => more
          | more => more
        match digits? 2 rest with
        | some (minutes, []) =>
          if 59 < minutes || 23 < hours then none
          else
            let n : Int := hours * 60 + minutes
            some (some (if c == '+' then n else -n))
        | _ => none
      | none => none
    else none

/-- A date, alone or with a time of day. -/
def ofIso? (cs : List Char) : Option Timestamp :=
  match date? cs with
  | none => none
  | some ((year, month, day), []) => some ⟨year, month, day, 0, 0, 0, 0, none⟩
  | some ((year, month, day), mark :: rest) =>
    if mark == 'T' || mark == 't' || mark == ' ' || mark == '_' then
      match digits? 2 rest with
      | some (hour, ':' :: rest) =>
        match digits? 2 rest with
        | some (minute, rest) =>
          if 23 < hour || 59 < minute then none else
          match seconds? rest with
          | none => none
          | some ((second, micros), rest) =>
            (offset? rest).map fun offset =>
              ⟨year, month, day, hour, minute, second, micros, offset⟩
        | none => none
      | _ => none
    else none

/-- The start of 1600, before which a Unix time is refused. -/
def earliestUnix : Int := -11676096000

/-- The largest Unix time in seconds; a larger one is in milliseconds. -/
def largestUnixSeconds : Nat := 20000000000

/-- A Unix time in seconds or milliseconds, with further microseconds. -/
def ofUnix? (time : Int) (micros : Nat) : Option Timestamp :=
  let (seconds, extra) :=
    if largestUnixSeconds < time.natAbs then (time / 1000, (time % 1000).toNat * 1000)
    else (time, 0)
  if seconds < earliestUnix then none
  else ofLocalMicros? (seconds * 1000000 + (extra + micros : Nat)) (some 0)

/-- The microseconds in a part of a second, a half rounded up. -/
def microsIn (part : Float) : Nat :=
  match Decimal.decode (part * Decimal.ofInt 1000000) with
  | .finite _ m e =>
    if 0 ≤ e then m * Nat.pow 2 e.toNat
    else
      let den := Nat.pow 2 (-e).toNat
      (2 * m + den) / (2 * den)
  | _ => 0

/-- A Unix time with a fraction.  The fraction is a part of a second in any case, and counts
forward from the integer below. -/
def ofUnixFloat? (x : Float) : Option Timestamp :=
  match Decimal.truncate? x, Decimal.floor? x with
  | some whole, some floor => ofUnix? floor (microsIn (x - Decimal.ofInt whole).abs)
  | _, _ => none

/-- A Unix time with a fraction in writing, which is the rest of the seconds or milliseconds. -/
def ofWrittenUnix? (x : Float) : Option Timestamp :=
  let x := if Decimal.ofInt largestUnixSeconds < x.abs then x / Decimal.ofInt 1000 else x
  (Decimal.floor? x).bind fun floor => ofUnix? floor (microsIn (x - Decimal.ofInt floor))

/-- The timestamp that a text shows. -/
def ofText? (s : String) : Option Timestamp :=
  let cs := s.toList
  match ofIso? cs with
  | some t => some t
  | none =>
    match Decimal.intOfPlain? cs with
    | some n => ofUnix? n 0
    | none => (Decimal.ofPlain? cs).bind ofWrittenUnix?

end Timestamp

end Stepwise
