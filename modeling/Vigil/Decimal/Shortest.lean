import Vigil.Decimal.Binary

/-!
# Shortest decimal text

The fewest decimal digits that read back as the float, the nearest such number when there are
several, and the upper one when two are equally near. They are written out in full, without an
exponent and without a fraction that is zero.
-/

namespace Vigil.Decimal

/-- A number of decimal digits in base ten, at least one. -/
def digitCount (n : Nat) : Nat :=
  (toString n).length

/-- How many times `num / den` must be multiplied by ten to reach one, counting up from `k`. -/
def scaleUp (num den : Nat) : Nat → Nat → Nat
  | 0, k => k
  | fuel + 1, k => if den ≤ num then k else scaleUp (num * 10) den fuel (k + 1)

/-- The power `k` of ten with `10 ^ (k - 1) ≤ num / den < 10 ^ k`, for a positive fraction no smaller
than the smallest float. -/
def magnitude (num den : Nat) : Int :=
  if den ≤ num then digitCount (num / den) else 1 - scaleUp num den 400 0

/-- A whole number of powers of ten, as a fraction. -/
def tenPower (e : Int) : Nat × Nat :=
  if e < 0 then (1, Nat.pow 10 e.natAbs) else (Nat.pow 10 e.toNat, 1)

/-- The reals that round to a float: between two fractions of one denominator, the ends counted in
when the significand is even. -/
structure Rounding where
  low : Nat
  value : Nat
  high : Nat
  den : Nat
  closed : Bool

/-- The interval around `significand * 2 ^ exponent`. It is narrower below a power of two, where the
floats lie closer. -/
def Rounding.of (significand : Nat) (exponent : Int) : Rounding :=
  let up := Nat.pow 2 exponent.toNat
  let below := if significand = leadingBit ∧ leastExponent < exponent then 1 else 2
  { low := (4 * significand - below) * up
    value := 4 * significand * up
    high := (4 * significand + 2) * up
    den := 4 * Nat.pow 2 (-exponent).toNat
    closed := significand % 2 = 0 }

/-- The fraction `num / den` rounds to the float. -/
def Rounding.holds (r : Rounding) (num den : Nat) : Bool :=
  let low := r.low * den
  let high := r.high * den
  let x := num * r.den
  if r.closed then low ≤ x && x ≤ high else low < x && x < high

/-- The nearer of the value's two neighbours on the grid of multiples of `10 ^ e`, among those that
round to the float. -/
def Rounding.onGrid (r : Rounding) (e : Int) : Option Nat :=
  let (num, den) := tenPower e
  let d := r.value * den / (r.den * num)
  let down := r.holds (d * num) den
  let up := r.holds ((d + 1) * num) den
  if down && up then
    -- twice the value against the sum of both neighbours
    if 2 * r.value * den < (2 * d + 1) * num * r.den then some d else some (d + 1)
  else if down then some d
  else if up then some (d + 1)
  else none

/-- The first of the given digit counts whose grid has a number that rounds to the float. -/
def Rounding.search (r : Rounding) (k : Int) : List Nat → Nat × Int
  | [] => (r.value / r.den, 0)
  | n :: rest =>
    match r.onGrid (k - n) with
    | some d => (d, k - n)
    | none => r.search k rest

def dropZeros : Nat → Nat × Int → Nat × Int
  | 0, de => de
  | fuel + 1, (d, e) => if d ≠ 0 ∧ d % 10 = 0 then dropZeros fuel (d / 10, e + 1) else (d, e)

/-- The digits and the power of ten of the shortest decimal of a positive value. -/
def shortest (significand : Nat) (exponent : Int) : Nat × Int :=
  let r := Rounding.of significand exponent
  dropZeros 20 (r.search (magnitude r.value r.den) ((List.range 17).map (· + 1)))

/-- `d * 10 ^ e` written out in full. -/
def positional (d : Nat) (e : Int) : String :=
  let digits := toString d
  if 0 ≤ e then digits ++ String.ofList (List.replicate e.toNat '0')
  else
    let places := e.natAbs
    let padded := String.ofList (List.replicate (places + 1 - digits.length) '0') ++ digits
    let whole := padded.length - places
    s!"{String.ofList (padded.toList.take whole)}.{String.ofList (padded.toList.drop whole)}"

/-- The shortest text of a float. -/
def text (x : Float) : String :=
  match parts x with
  | .nan => "NaN"
  | .infinite negative => if negative then "-inf" else "inf"
  | .finite negative m q =>
    let sign := if negative then "-" else ""
    if m = 0 then sign ++ "0"
    else
      let (d, e) := shortest m q
      sign ++ positional d e

end Vigil.Decimal
