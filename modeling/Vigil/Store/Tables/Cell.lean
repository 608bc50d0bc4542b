import Vigil.Failure
import Vigil.Time.Instant

/-!
# Cells of tables

A column of numbers keeps whole numbers of 64 bits. A text that is put into it from outside becomes
the number that it writes, or stays a text where it writes none; reading such a cell as a number fails,
and in a sum it counts as the digits that it starts with.

Times and spans are kept in whole milliseconds: times rounded toward the past, spans cut off, and
spans too long for 64 bits kept as the longest.
-/

namespace Vigil

/-- A value in a column of numbers. -/
inductive Cell where
  | number (value : Int)
  | text (content : String)
  deriving DecidableEq, Repr

/-- The least whole number of 64 bits: `-2 ^ 63`. -/
def leastWord : Int := -9223372036854775808

/-- The greatest whole number of 64 bits: `2 ^ 63 - 1`. -/
def greatestWord : Int := 9223372036854775807

namespace Cell

def digitsValue (ds : List Char) : Nat :=
  ds.foldl (fun n c => n * 10 + (c.toNat - '0'.toNat)) 0

/-- Sign and value of the digits that a text starts with, and what follows them. -/
def leadingNumber (cs : List Char) : Int × List Char :=
  let (negative, rest) := match cs with
    | '-' :: rest => (true, rest)
    | '+' :: rest => (false, rest)
    | rest => (false, rest)
  let n : Int := digitsValue (rest.takeWhile Char.isDigit)
  (if negative then -n else n, rest.dropWhile Char.isDigit)

def isSpace (c : Char) : Bool :=
  c == ' ' || (9 ≤ c.toNat && c.toNat ≤ 13)

/-- The cell that a text becomes in a column of numbers. -/
def ofText (text : String) : Cell :=
  let cs := ((text.toList.dropWhile isSpace).reverse.dropWhile isSpace).reverse
  let (n, rest) := leadingNumber cs
  if rest.isEmpty && cs.any Char.isDigit && leastWord ≤ n && n ≤ greatestWord then number n
  else .text text

def ofBool (b : Bool) : Cell := number (if b then 1 else 0)

def int : Cell → Except StorageError Int
  | number n => .ok n
  | text content => .error (.queryFailed s!"'{content}' is no number")

/-- The truth value of a cell: any number but zero is true. -/
def bool (c : Cell) : Except StorageError Bool :=
  c.int.map (· ≠ 0)

/-- What a cell counts as in a sum. -/
def summand : Cell → Int
  | number n => n
  | text content => (leadingNumber (content.toList.dropWhile isSpace)).1

/-- The greater of a cell and a number; a text is greater than every number. -/
def atLeast (c : Cell) (least : Int) : Cell :=
  match c with
  | number n => number (max n least)
  | text content => text content

end Cell

/-- The whole number with 53 significant bits that is nearest; a tie goes to the even one. -/
def nearestRounded (n : Int) : Int :=
  let unit := Nat.pow 2 (n.natAbs.log2 - 52)
  let whole := n.natAbs / unit
  let rest := n.natAbs % unit
  let rounded := if unit < 2 * rest ∨ (2 * rest = unit ∧ whole % 2 = 1) then whole + 1 else whole
  n.sign * (rounded * unit)

/-- A sum of two whole numbers. One that 64 bits do not hold is a sum of rounded numbers. -/
def wordSum (a b : Int) : Int :=
  if leastWord ≤ a + b ∧ a + b ≤ greatestWord then a + b
  else nearestRounded (nearestRounded a + nearestRounded b)

def Instant.ofStored (millis : Int) : Except StorageError Instant :=
  match ofMillis? millis with
  | some t => .ok t
  | none => .error (.undecodable s!"timestamp out of range: {millis}")

/-- The number of milliseconds that a span is kept as. -/
def Span.stored (s : Span) : Int :=
  min s.millis greatestWord

/-- The span of a number of milliseconds; a negative one is no time at all. -/
def Span.ofStored (millis : Int) : Span :=
  .ofMillis millis.toNat

def Cell.instant (c : Cell) : Except StorageError Instant := do
  Instant.ofStored (← c.int)

end Vigil
