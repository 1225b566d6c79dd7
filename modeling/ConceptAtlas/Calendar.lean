import ConceptAtlas.Decimal.Layout

/-!
# Dates and times

Days of the Gregorian calendar from year 1 to year 9999 and times of day with microseconds, with or
without an offset from universal time. `Date.check?` and `Moment.check?` name the first field that
is out of range.
-/

namespace ConceptAtlas

/-- A day, by its year, month and day of the month. -/
structure Date where
  year : Nat
  month : Nat
  day : Nat
  deriving DecidableEq, Repr

/-- A time of day on a day; the offset from universal time is in minutes. -/
structure Moment where
  date : Date
  hour : Nat
  minute : Nat
  second : Nat
  microsecond : Nat
  offset : Option Int
  deriving DecidableEq, Repr

/-- The field of a date or time that is out of range. -/
inductive CalendarFault
  | year (n : Nat)
  | month
  | day
  | hour
  | minute
  | second
  | offset (minutes : Int)
  deriving DecidableEq, Repr

namespace Date

/-- Whether a year has a 29 February. -/
def isLeap (year : Nat) : Bool := year % 4 == 0 && (year % 100 != 0 || year % 400 == 0)

/-- The number of days of a month. -/
def daysIn (year month : Nat) : Nat :=
  if month = 2 then (if isLeap year then 29 else 28)
  else if month = 4 ∨ month = 6 ∨ month = 9 ∨ month = 11 then 30
  else 31

/-- The first field that is out of range. -/
def check? (d : Date) : Option CalendarFault :=
  if d.year = 0 ∨ 9999 < d.year then some (.year d.year)
  else if d.month = 0 ∨ 12 < d.month then some .month
  else if d.day = 0 ∨ daysIn d.year d.month < d.day then some .day
  else none

theorem check?_eq_none_iff {d : Date} :
    d.check? = none ↔ (1 ≤ d.year ∧ d.year ≤ 9999) ∧ (1 ≤ d.month ∧ d.month ≤ 12) ∧
      1 ≤ d.day ∧ d.day ≤ daysIn d.year d.month := by
  rw [check?]
  split
  · simp only [reduceCtorEq, false_iff]
    omega
  split
  · simp only [reduceCtorEq, false_iff]
    omega
  split
  · simp only [reduceCtorEq, false_iff]
    omega
  · simp only [true_iff]
    omega

/-- The number of days before a date, counted from 1 January of year 1. -/
def ordinal (d : Date) : Nat :=
  let y := d.year - 1
  let months := (List.range (d.month - 1)).foldl (fun n m ↦ n + daysIn d.year (m + 1)) 0
  365 * y + y / 4 - y / 100 + y / 400 + months + d.day - 1

/-- The date as `2020-01-02`. -/
def text (d : Date) : String :=
  s!"{Decimal.padded 4 d.year}-{Decimal.padded 2 d.month}-{Decimal.padded 2 d.day}"

end Date

namespace Moment

/-- The first field that is out of range; an offset is less than a day. -/
def check? (m : Moment) : Option CalendarFault :=
  match m.offset with
  | some o => if 1440 ≤ o.natAbs then some (.offset o) else clock? m
  | none => clock? m
where
  /-- The first field of the day and its time that is out of range. -/
  clock? (m : Moment) : Option CalendarFault :=
    match m.date.check? with
    | some fault => some fault
    | none =>
      if 23 < m.hour then some .hour
      else if 59 < m.minute then some .minute
      else if 59 < m.second then some .second
      else none

/-- Microseconds since the start of year 1, by the clock of the moment's own offset. -/
def localMicroseconds (m : Moment) : Int :=
  (((m.date.ordinal * 24 + m.hour) * 60 + m.minute) * 60 + m.second) * 1000000 + m.microsecond

/-- Whether two moments are the same time; one with an offset is never the same as one without. -/
def same (a b : Moment) : Bool :=
  match a.offset, b.offset with
  | none, none => a.localMicroseconds == b.localMicroseconds
  | some x, some y =>
    a.localMicroseconds - x * 60000000 == b.localMicroseconds - y * 60000000
  | _, _ => false

/-- An offset as `+05:30`. -/
def offsetText (minutes : Int) : String :=
  let n := minutes.natAbs
  let sign := if minutes < 0 then "-" else "+"
  s!"{sign}{Decimal.padded 2 (n / 60)}:{Decimal.padded 2 (n % 60)}"

/-- The moment with `separator` between day and time; microseconds only where they are not zero. -/
def text (separator : String) (m : Moment) : String :=
  let fraction := if m.microsecond = 0 then "" else s!".{Decimal.padded 6 m.microsecond}"
  let offset := (m.offset.map offsetText).getD ""
  let clock := s!"{Decimal.padded 2 m.hour}:{Decimal.padded 2 m.minute}:{Decimal.padded 2 m.second}"
  m.date.text ++ separator ++ clock ++ fraction ++ offset

end Moment

/-- The wording of a field that is out of range. -/
def CalendarFault.message : CalendarFault → String
  | .year n => s!"year {n} is out of range"
  | .month => "month must be in 1..12"
  | .day => "day is out of range for month"
  | .hour => "hour must be in 0..23"
  | .minute => "minute must be in 0..59"
  | .second => "second must be in 0..59"
  | .offset minutes =>
    let days := minutes / 1440
    let seconds := minutes % 1440 * 60
    let parts := (if days = 0 then [] else [s!"days={days}"]) ++
      (if seconds = 0 then [] else [s!"seconds={seconds}"])
    let length := ", ".intercalate parts
    "offset must be a timedelta strictly between -timedelta(hours=24) and timedelta(hours=24), " ++
      s!"not datetime.timedelta({length})."

end ConceptAtlas
