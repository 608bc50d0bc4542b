import Vigil.Decimal.Shortest
import Vigil.Text.Letter

/-!
# Reading a decimal

A number is an optional sign and either one of the words `inf`, `infinity` and `nan` in any case, or
decimal digits with at most one point and an optional power of ten. At least one digit stands before
or after the point and, where there is an exponent, at least one in it. The float nearest to the
written value is read; a value too large is infinite.
-/

namespace Vigil.Decimal

open Vigil.Text (isAsciiDigit)

def digitsValue (ds : List Char) : Nat :=
  ds.foldl (fun n c => n * 10 + (c.toNat - '0'.toNat)) 0

/-- The float nearest to `m * 10 ^ e`. Values far outside the range of floats are settled by their
magnitude, so that no power of ten grows beyond need. -/
def nearest (m : Nat) (e : Int) : Float :=
  if m = 0 then 0.0
  else
    let k := (digitCount m : Int) + e
    if 310 < k then 1.0 / 0.0
    else if k < -330 then 0.0
    else Float.ofScientific m (decide (e < 0)) e.natAbs

def readSign : List Char → Bool × List Char
  | '-' :: rest => (true, rest)
  | '+' :: rest => (false, rest)
  | cs => (false, cs)

/-- A power of ten, or nothing at all. -/
def readExponent : List Char → Option Int
  | [] => some 0
  | c :: rest =>
    if c = 'e' ∨ c = 'E' then
      let (negative, digits) := readSign rest
      if digits.isEmpty || !digits.all isAsciiDigit then none
      else some (if negative then -(digitsValue digits : Int) else digitsValue digits)
    else none

def readFraction : List Char → List Char × List Char
  | '.' :: rest => (rest.takeWhile isAsciiDigit, rest.dropWhile isAsciiDigit)
  | cs => ([], cs)

def readUnsigned? (cs : List Char) : Option Float :=
  let word := cs.map Char.toLower
  if word = "inf".toList ∨ word = "infinity".toList then some (1.0 / 0.0)
  else if word = "nan".toList then some (0.0 / 0.0)
  else
    let whole := cs.takeWhile isAsciiDigit
    let (fraction, rest) := readFraction (cs.dropWhile isAsciiDigit)
    if whole.isEmpty && fraction.isEmpty then none
    else do
      let e ← readExponent rest
      return nearest (digitsValue (whole ++ fraction)) (e - fraction.length)

def read? (s : String) : Option Float :=
  let (negative, cs) := readSign s.toList
  (readUnsigned? cs).map fun x => if negative then -x else x

end Vigil.Decimal
