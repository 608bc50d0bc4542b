import Vigil.Text.Blank
import Vigil.Text.Letter
import Vigil.Time.Calendar
import Vigil.Time.Instant

/-!
# Instants as text

An instant is written as date and time of day in UTC, in the form of RFC 3339, with no, three, six or
nine digits of a second, as few as hold it. Years outside 0 to 9999 carry a sign.

Reading is more generous: numbers need no leading zeros, blanks may stand before them, the date and
the time may be parted by a blank or a `t`, and the offset from UTC may lack its colon or be `UTC`.
Years of more than four digits carry a sign. A sixtieth second is the first of the next minute.
-/

namespace Vigil

namespace Stamp

open Vigil.Text (isBlank isAsciiDigit trimLeft)

def secondsPerDay : Int := 86400

/-- The digits of `n`, filled up with zeros in front. -/
def padded (width n : Nat) : String :=
  let digits := toString n
  String.ofList (List.replicate (width - digits.length) '0') ++ digits

/-- A year: four digits, and a sign outside 0 to 9999. -/
def yearText (year : Int) : String :=
  if 0 ≤ year ∧ year ≤ 9999 then padded 4 year.toNat
  else if year < 0 then "-" ++ padded 4 year.natAbs
  else "+" ++ padded 4 year.toNat

/-- The digits of a second after the point. -/
def fractionText (nanos : Nat) : String :=
  if nanos = 0 then ""
  else if nanos % 1000000 = 0 then "." ++ padded 3 (nanos / 1000000)
  else if nanos % 1000 = 0 then "." ++ padded 6 (nanos / 1000)
  else "." ++ padded 9 nanos

/-- The instant in UTC, followed by the given name of the zone. -/
def text (zone : String) (t : Instant) : String :=
  let date := Date.ofDays (t.seconds / secondsPerDay)
  let second := (t.seconds % secondsPerDay).toNat
  s!"{yearText date.year}-{padded 2 date.month.toNat}-{padded 2 date.day.toNat}T" ++
    s!"{padded 2 (second / 3600)}:{padded 2 (second / 60 % 60)}:{padded 2 (second % 60)}" ++
    fractionText t.subsecNanos ++ zone

/-- The time of day on a clock of twelve hours, such as `3:04PM`. -/
def clockText (t : Instant) : String :=
  let second := (t.seconds % secondsPerDay).toNat
  let hour := second / 3600
  let half := if hour < 12 then "AM" else "PM"
  s!"{if hour % 12 = 0 then 12 else hour % 12}:{padded 2 (second / 60 % 60)}{half}"

/-- The value of at least one and at most `most` digits, and what follows them. -/
def number? (most : Nat) (cs : List Char) : Option (Nat × List Char) :=
  let digits := (cs.take most).takeWhile isAsciiDigit
  if digits.isEmpty then none
  else some (digits.foldl (fun n c => n * 10 + (c.toNat - '0'.toNat)) 0, cs.drop digits.length)

/-- A number of two digits at most, after blanks. -/
def field? (cs : List Char) : Option (Nat × List Char) :=
  number? 2 (trimLeft cs)

/-- A year, after blanks. -/
def year? (cs : List Char) : Option (Int × List Char) :=
  match trimLeft cs with
  | '-' :: rest => (number? rest.length rest).map fun (n, rest) => (-(n : Int), rest)
  | '+' :: rest => (number? rest.length rest).map fun (n, rest) => ((n : Int), rest)
  | cs => (number? 4 cs).map fun (n, rest) => ((n : Int), rest)

/-- A mark, after blanks. -/
def mark? (c : Char) (cs : List Char) : Option (List Char) :=
  match trimLeft cs with
  | d :: rest => if d = c then some rest else none
  | [] => none

/-- Nanoseconds from the digits after a point, of which those beyond the ninth do not count. -/
def nanos? (cs : List Char) : Option (Nat × List Char) :=
  match cs with
  | '.' :: rest =>
    let digits := rest.takeWhile isAsciiDigit
    if digits.isEmpty then none
    else
      let kept := digits.take 9
      let n := kept.foldl (fun n c => n * 10 + (c.toNat - '0'.toNat)) 0
      some (n * Nat.pow 10 (9 - kept.length), rest.drop digits.length)
  | _ => some (0, cs)

/-- Hours and minutes of an offset from UTC, in seconds. -/
def offset? (cs : List Char) : Option (Nat × List Char) :=
  match cs with
  | a :: b :: rest =>
    match rest.dropWhile fun c => c == ':' || isBlank c with
    | c :: d :: rest =>
      if isAsciiDigit a && isAsciiDigit b && '0' ≤ c && c ≤ '5' && isAsciiDigit d then
        let hours := (a.toNat - '0'.toNat) * 10 + (b.toNat - '0'.toNat)
        let minutes := (c.toNat - '0'.toNat) * 10 + (d.toNat - '0'.toNat)
        some (hours * 3600 + minutes * 60, rest)
      else none
    | _ => none
  | _ => none

/-- The zone: UTC by name, or an offset with a sign. -/
def zone? (cs : List Char) : Option (Int × List Char) :=
  match cs with
  | 'Z' :: rest | 'z' :: rest => some (0, rest)
  | '+' :: rest => (offset? rest).map fun (n, rest) => ((n : Int), rest)
  | '-' :: rest | '−' :: rest => (offset? rest).map fun (n, rest) => (-(n : Int), rest)
  | a :: b :: c :: rest =>
    if [a.toUpper, b.toUpper, c.toUpper] = ['U', 'T', 'C'] then some (0, rest) else none
  | _ => none

def date? (cs : List Char) : Option (Date × List Char) := do
  let (year, cs) ← year? cs
  let (month, cs) ← field? (← mark? '-' cs)
  let (day, cs) ← field? (← mark? '-' cs)
  let date : Date := { year, month, day }
  if date.Valid then some (date, cs) else none

def read? (text : String) : Option Instant := do
  let (date, cs) ← date? text.toList
  let cs ← match cs with
    | c :: rest => if c = 'T' ∨ c = 't' ∨ c = ' ' then some rest else none
    | [] => none
  let (hour, cs) ← field? cs
  let (minute, cs) ← field? (← mark? ':' cs)
  let (second, cs) ← field? (← mark? ':' cs)
  let (nanos, cs) ← nanos? cs
  let (offset, cs) ← zone? (trimLeft cs)
  if (trimLeft cs).isEmpty && hour < 24 && minute < 60 && second ≤ 60 &&
      offset.natAbs < secondsPerDay.toNat then
    let seconds : Int :=
      date.toDays * secondsPerDay + hour * 3600 + minute * 60 + second - offset
    Instant.ofNanos? (seconds * nanosPerSecond + nanos)
  else none

end Stamp

end Vigil
