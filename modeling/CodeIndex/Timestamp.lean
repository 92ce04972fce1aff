import CodeIndex.Text.Blank
import CodeIndex.Text.Slice

/-!
# Points in time

A point in time as the fields of its civil date and clock in universal time.  A minute
may have a sixty-first second.  Texts are read in a relaxed form: blanks may stand
between the fields, a field may lack its leading zero, and a space may separate date and
clock; they are written in one strict form.

* `nextDay_of_lt` : within a month the next day is one more.
-/

namespace CodeIndex

/-- A calendar day. -/
structure Day where
  year : Int
  month : Nat
  day : Nat
  deriving DecidableEq, Repr, Inhabited

namespace Day

/-- Does the year have a leap day? -/
def isLeapYear (year : Int) : Bool := year % 4 == 0 && (year % 100 != 0 || year % 400 == 0)

/-- The number of days of a month. -/
def daysInMonth (year : Int) (month : Nat) : Nat :=
  if month == 2 then if isLeapYear year then 29 else 28
  else if month == 4 || month == 6 || month == 9 || month == 11 then 30
  else 31

/-- The calendar runs over these years. -/
def isCovered (year : Int) : Bool := -262143 ≤ year && year ≤ 262142

/-- Is this a day of the calendar? -/
def isValid (d : Day) : Bool :=
  isCovered d.year && 1 ≤ d.month && d.month ≤ 12 && 1 ≤ d.day &&
    d.day ≤ daysInMonth d.year d.month

/-- The day after. -/
def next (d : Day) : Day :=
  if d.day < daysInMonth d.year d.month then { d with day := d.day + 1 }
  else if d.month < 12 then ⟨d.year, d.month + 1, 1⟩
  else ⟨d.year + 1, 1, 1⟩

/-- The day before. -/
def previous (d : Day) : Day :=
  if 1 < d.day then { d with day := d.day - 1 }
  else if 1 < d.month then ⟨d.year, d.month - 1, daysInMonth d.year (d.month - 1)⟩
  else ⟨d.year - 1, 12, 31⟩

/-- Within a month the next day is one more. -/
theorem nextDay_of_lt {d : Day} (h : d.day < daysInMonth d.year d.month) :
    d.next = { d with day := d.day + 1 } := by
  simp [next, h]

end Day

/-- A point in time: a day, the minute of that day, the second of the minute and the
nanosecond of the second. -/
structure Timestamp where
  day : Day
  minute : Nat
  second : Nat
  nano : Nat
  deriving DecidableEq, Repr, Inhabited

namespace Timestamp

open Text

/-- The minutes of a day. -/
def minutesPerDay : Nat := 1440

/-- Move from local time to universal time, where local time is ahead by `offset` minutes,
less than a day. -/
def toUniversal (t : Timestamp) (offset : Int) : Timestamp :=
  let minute := (t.minute : Int) - offset
  if minute < 0 then { t with day := t.day.previous, minute := (minute + minutesPerDay).toNat }
  else if (minutesPerDay : Int) ≤ minute then
    { t with day := t.day.next, minute := (minute - minutesPerDay).toNat }
  else { t with minute := minute.toNat }

/-- The value of a run of digits. -/
def numberValue (ds : List Char) : Nat := ds.foldl (fun n d => n * 10 + (d.toNat - '0'.toNat)) 0

/-- A number of at most `width` digits, and the rest. -/
def number? (width : Nat) (cs : List Char) : Option (Nat × List Char) :=
  let ds := (cs.take width).takeWhile Char.isDigit
  if ds.isEmpty then none else some (numberValue ds, cs.drop ds.length)

/-- A number after optional blanks. -/
def field? (width : Nat) (cs : List Char) : Option (Nat × List Char) := number? width (trimStart cs)

/-- A year: four digits at most, or any number of them after a sign. -/
def year? (cs : List Char) : Option (Int × List Char) :=
  match trimStart cs with
  | '-' :: rest => (number? rest.length rest).map fun (n, rest) => (-(n : Int), rest)
  | '+' :: rest => (number? rest.length rest).map fun (n, rest) => ((n : Int), rest)
  | cs => (number? 4 cs).map fun (n, rest) => ((n : Int), rest)

/-- A separator after optional blanks. -/
def separator? (sep : Char) (cs : List Char) : Option (List Char) :=
  match trimStart cs with
  | c :: rest => if c = sep then some rest else none
  | [] => none

/-- A calendar day, and the rest. -/
def day? (cs : List Char) : Option (Day × List Char) := do
  let (year, cs) ← year? cs
  let (month, cs) ← field? 2 (← separator? '-' cs)
  let (day, cs) ← field? 2 (← separator? '-' cs)
  let d : Day := ⟨year, month, day⟩
  if d.isValid then some (d, cs) else none

/-- The fraction of a second in nanoseconds: nine digits count, further ones are skipped. -/
def fraction? : List Char → Option (Nat × List Char)
  | '.' :: cs =>
    let ds := (cs.take 9).takeWhile Char.isDigit
    if ds.isEmpty then none
    else some (numberValue ds * Nat.pow 10 (9 - ds.length), (cs.drop ds.length).dropWhile Char.isDigit)
  | cs => some (0, cs)

/-- The clock of a day: hour, minute, second and fraction. -/
def clock? (cs : List Char) : Option ((Nat × Nat × Nat) × List Char) := do
  let (hour, cs) ← field? 2 cs
  let (minute, cs) ← field? 2 (← separator? ':' cs)
  let (second, cs) ← field? 2 (← separator? ':' cs)
  let (nano, cs) ← fraction? cs
  if hour < 24 && minute < 60 && second ≤ 60 then some ((hour * 60 + minute, second, nano), cs)
  else none

/-- Two digits, the first below `limit`. -/
def twoDigits? (limit : Nat) : List Char → Option (Nat × List Char)
  | a :: b :: rest =>
    if a.isDigit && b.isDigit && a.toNat - '0'.toNat < limit then
      some (numberValue [a, b], rest)
    else none
  | _ => none

/-- The sign of an offset: true for behind. -/
def offsetSign? : List Char → Option (Bool × List Char)
  | '+' :: rest => some (false, rest)
  | '-' :: rest => some (true, rest)
  | '−' :: rest => some (true, rest)
  | _ => none

/-- The minutes by which local time is ahead of universal time. -/
def offset? (cs : List Char) : Option (Int × List Char) :=
  if sameIgnoringCase (cs.take 3) ['u', 't', 'c'] then some (0, cs.drop 3)
  else
    match cs with
    | 'z' :: rest => some (0, rest)
    | 'Z' :: rest => some (0, rest)
    | cs => do
      let (isBehind, cs) ← offsetSign? cs
      let (hours, cs) ← twoDigits? 10 cs
      let (minutes, cs) ← twoDigits? 6 (cs.dropWhile fun c => c == ':' || isBlank c)
      let total := hours * 60 + minutes
      if total < minutesPerDay then some (if isBehind then -(total : Int) else total, cs) else none

/-- Does this character separate date and clock? -/
def isDateEnd (c : Char) : Bool := c == 't' || c == 'T' || c == ' '

/-- Read a point in time. -/
def parse? (text : String) : Option Timestamp := do
  let (day, cs) ← day? text.toList
  let (sep, cs) ← match cs with
    | sep :: cs => some (sep, cs)
    | [] => none
  if !isDateEnd sep then none
  let ((minute, second, nano), cs) ← clock? cs
  let (offset, cs) ← offset? (trimStart cs)
  if !(trimStart cs).isEmpty then none
  let t := toUniversal ⟨day, minute, second, nano⟩ offset
  if t.day.isValid then some t else none

/-- A number padded with zeros to a width. -/
def padded (width n : Nat) : String :=
  let ds := Nat.toDigits 10 n
  String.ofList (List.replicate (width - ds.length) '0' ++ ds)

/-- A year: four digits, and a sign when four digits do not hold it. -/
def yearText (year : Int) : String :=
  if 0 ≤ year ∧ year ≤ 9999 then padded 4 year.toNat
  else (if year < 0 then "-" else "+") ++ padded 4 year.natAbs

/-- The date as year, month and day. -/
def dateText (t : Timestamp) : String :=
  yearText t.day.year ++ "-" ++ padded 2 t.day.month ++ "-" ++ padded 2 t.day.day

/-- The clock as hour, minute and second. -/
def clockText (t : Timestamp) : String :=
  padded 2 (t.minute / 60) ++ ":" ++ padded 2 (t.minute % 60) ++ ":" ++ padded 2 t.second

/-- The fraction of the second in groups of three digits, as few as hold it. -/
def fractionText (nano : Nat) : String :=
  if nano = 0 then ""
  else if nano % 1000000 = 0 then "." ++ padded 3 (nano / 1000000)
  else if nano % 1000 = 0 then "." ++ padded 6 (nano / 1000)
  else "." ++ padded 9 nano

/-- The one written form, in universal time. -/
def text (t : Timestamp) : String :=
  t.dateText ++ "T" ++ t.clockText ++ fractionText t.nano ++ "Z"

/-- The form shown to people: to the second, with the zone. -/
def display (t : Timestamp) : String := t.dateText ++ " " ++ t.clockText ++ " UTC"

/-- The start of the year 1970. -/
def epoch : Timestamp := ⟨⟨1970, 1, 1⟩, 0, 0, 0⟩

/-- The point in time so many seconds and nanoseconds after the start of the year 1970. -/
def ofSeconds (seconds nano : Nat) : Timestamp where
  day := Nat.repeat Day.next (seconds / 86400) epoch.day
  minute := seconds % 86400 / 60
  second := seconds % 60
  nano := nano

end Timestamp

end CodeIndex
