import Flowrun.Text.Blank

/-!
# Instants

An `Instant` is a point of universal time: whole seconds since 1970 and nanoseconds. During a leap
second the nanoseconds go past a second, so that second 60 is kept apart from the next minute.

Instants are written in the form `2023-11-14T22:13:20Z`, with 0, 3, 6 or 9 digits of a fraction, the
fewest that are exact. Years beyond 9999 have a plus sign and years before 0 a minus sign. Reading
is lenient: a field may have fewer digits and blanks in front of it, a blank may stand for the `T`,
and any offset is converted.
-/

namespace Flowrun

/-- A point of universal time. -/
structure Instant where
  /-- Since the start of 1970. -/
  seconds : Int
  /-- At least 10^9 during a leap second. -/
  nanos : Nat := 0
  deriving DecidableEq, Repr, Inhabited

namespace Instant

/-! ### The calendar -/

/-- The days from the start of 1970 to a date of the Gregorian calendar. Years are counted from
March, so that the leap day comes last. -/
def daysOfDate (year : Int) (month day : Nat) : Int :=
  let y := if month ≤ 2 then year - 1 else year
  let era := y / 400
  let yearOfEra := y % 400
  let monthFromMarch : Int := if month ≤ 2 then month + 9 else month - 3
  let dayOfYear := (153 * monthFromMarch + 2) / 5 + day - 1
  let dayOfEra := yearOfEra * 365 + yearOfEra / 4 - yearOfEra / 100 + dayOfYear
  era * 146097 + dayOfEra - 719468

/-- The date a number of days after the start of 1970: year, month and day. -/
def dateOfDays (days : Int) : Int × Nat × Nat :=
  let z := days + 719468
  let era := z / 146097
  let dayOfEra := z % 146097
  let yearOfEra := (dayOfEra - dayOfEra / 1460 + dayOfEra / 36524 - dayOfEra / 146096) / 365
  let dayOfYear := dayOfEra - (365 * yearOfEra + yearOfEra / 4 - yearOfEra / 100)
  let monthFromMarch := (5 * dayOfYear + 2) / 153
  let day := dayOfYear - (153 * monthFromMarch + 2) / 5 + 1
  let month := if monthFromMarch < 10 then monthFromMarch + 3 else monthFromMarch - 9
  let year := yearOfEra + era * 400 + (if month ≤ 2 then 1 else 0)
  (year, month.toNat, day.toNat)

def isLeapYear (year : Int) : Bool := year % 4 == 0 && (year % 100 != 0 || year % 400 == 0)

def daysInMonth (year : Int) (month : Nat) : Nat :=
  if month = 2 then (if isLeapYear year then 29 else 28)
  else if month = 4 ∨ month = 6 ∨ month = 9 ∨ month = 11 then 30
  else 31

/-- The first and the last second that an instant may have. -/
def firstSecond : Int := daysOfDate (-262143) 1 1 * 86400
def lastSecond : Int := daysOfDate 262142 12 31 * 86400 + 86399

def inRange (seconds : Int) : Bool := firstSecond ≤ seconds && seconds ≤ lastSecond

/-- The instant a number of seconds after the start of 1970, or the start of 1970 if that is out of
range. -/
def ofSeconds (seconds : Int) : Instant := if inRange seconds then ⟨seconds, 0⟩ else ⟨0, 0⟩

/-! ### Writing -/

/-- A number with zeros in front, up to a width. -/
def padded (width n : Nat) : List Char :=
  let ds := Nat.toDigits 10 n
  List.replicate (width - ds.length) '0' ++ ds

def yearText (year : Int) : List Char :=
  if year < 0 then '-' :: padded 4 year.natAbs
  else if 9999 < year then '+' :: padded 4 year.natAbs
  else padded 4 year.natAbs

/-- The fraction with the fewest groups of three digits. -/
def fractionText (nanos : Nat) : List Char :=
  if nanos = 0 then []
  else if nanos % 1000000 = 0 then '.' :: padded 3 (nanos / 1000000)
  else if nanos % 1000 = 0 then '.' :: padded 6 (nanos / 1000)
  else '.' :: padded 9 nanos

def text (t : Instant) : String :=
  let (year, month, day) := dateOfDays (t.seconds / 86400)
  let s := (t.seconds % 86400).toNat
  let leap := t.nanos / 1000000000
  String.ofList (yearText year ++ '-' :: padded 2 month ++ '-' :: padded 2 day ++ 'T' ::
    padded 2 (s / 3600) ++ ':' :: padded 2 (s / 60 % 60) ++ ':' :: padded 2 (s % 60 + leap) ++
    fractionText (t.nanos % 1000000000) ++ ['Z'])

/-! ### Reading -/

def digitsNumber (ds : List Char) : Nat := ds.foldl (fun n c => n * 10 + (c.toNat - 48)) 0

/-- A number of one to `width` digits, and what follows it. -/
def number? (width : Nat) (cs : List Char) : Option (Nat × List Char) :=
  let ds := (cs.take width).takeWhile Char.isDigit
  if ds.isEmpty then none else some (digitsNumber ds, cs.drop ds.length)

/-- A number with a least and a greatest value. -/
def bounded? (least greatest : Nat) (cs : List Char) : Option (Nat × List Char) := do
  let (n, rest) ← number? 2 (Text.trimStart cs)
  if least ≤ n ∧ n ≤ greatest then some (n, rest) else none

/-- A sign allows a year any number of digits. -/
def year? (cs : List Char) : Option (Int × List Char) :=
  match Text.trimStart cs with
  | '-' :: cs => (number? cs.length cs).map fun (n, rest) => (-(n : Int), rest)
  | '+' :: cs => (number? cs.length cs).map fun (n, rest) => ((n : Int), rest)
  | cs => (number? 4 cs).map fun (n, rest) => ((n : Int), rest)

def separator? (c : Char) (cs : List Char) : Option (List Char) :=
  match Text.trimStart cs with
  | d :: rest => if d = c then some rest else none
  | [] => none

/-- The nanoseconds after a point; digits beyond the ninth do not count. -/
def fraction? : List Char → Option (Nat × List Char)
  | '.' :: cs =>
    let ds := cs.takeWhile Char.isDigit
    if ds.isEmpty then none
    else
      let kept := ds.take 9
      some (digitsNumber kept * Nat.pow 10 (9 - kept.length), cs.dropWhile Char.isDigit)
  | cs => some (0, cs)

/-- The seconds of an offset from universal time. -/
def offset? (cs : List Char) : Option (Int × List Char) :=
  match cs with
  | c :: rest =>
    if c = 'Z' ∨ c = 'z' then some (0, rest)
    else if (cs.take 3).map Char.toLower = ['u', 't', 'c'] then some (0, cs.drop 3)
    else if c = '+' ∨ c = '-' ∨ c = '−' then
      match rest with
      | a :: b :: rest =>
        if a.isDigit ∧ b.isDigit then
          match rest.dropWhile fun c => c == ':' || Text.isBlank c with
          | m :: n :: rest =>
            if m.isDigit ∧ n.isDigit ∧ m < '6' then
              let size : Int := digitsNumber [a, b] * 3600 + digitsNumber [m, n] * 60
              some (if c = '+' then size else -size, rest)
            else none
          | _ => none
        else none
      | _ => none
    else none
  | [] => none

/-- The separator between the date and the time. -/
def timeMark? : List Char → Option (List Char)
  | c :: rest => if c = 'T' ∨ c = 't' ∨ c = ' ' then some rest else none
  | [] => none

def ofText? (s : String) : Option Instant := do
  let (year, cs) ← year? s.toList
  let cs ← separator? '-' cs
  let (month, cs) ← bounded? 1 12 cs
  let cs ← separator? '-' cs
  let (day, cs) ← bounded? 1 31 cs
  let cs ← timeMark? cs
  let (hour, cs) ← bounded? 0 23 cs
  let cs ← separator? ':' cs
  let (minute, cs) ← bounded? 0 59 cs
  let cs ← separator? ':' cs
  let (second, cs) ← bounded? 0 60 cs
  let (nanos, cs) ← fraction? cs
  let (offset, cs) ← offset? (Text.trimStart cs)
  if Text.trimStart cs ≠ [] ∨ daysInMonth year month < day ∨ 86400 ≤ offset.natAbs then none
  else
    let onClock := daysOfDate year month day * 86400 + hour * 3600 + minute * 60 + min second 59
    let utc := onClock - offset
    let leap := if second = 60 then 1000000000 else 0
    if inRange onClock ∧ inRange utc then some ⟨utc, nanos + leap⟩ else none

example : (ofText? "2023-11-14T22:13:20+02:00").map text = some "2023-11-14T20:13:20Z" := by
  decide +kernel
example : (ofText? "2023-11-14 22:13:60.5 UTC").map text = some "2023-11-14T22:13:60.500Z" := by
  decide +kernel
example : text (ofSeconds 253402300800) = "+10000-01-01T00:00:00Z" := by decide +kernel
example : text (ofSeconds (-62167219201)) = "-0001-12-31T23:59:59Z" := by decide +kernel

end Instant
end Flowrun
