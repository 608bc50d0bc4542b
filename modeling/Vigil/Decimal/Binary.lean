/-!
# Floats as exact binary numbers

Every finite float is a sign, a whole significand below `2 ^ 53` and a power of two no smaller than
`2 ^ (-1074)`. Text and remainders are computed on these three in whole-number arithmetic; the zero
significand stands for both zeros, told apart by the sign.
-/

namespace Vigil.Decimal

/-- What a float holds. -/
inductive Parts where
  | finite (negative : Bool) (significand : Nat) (exponent : Int)
  | infinite (negative : Bool)
  | nan
  deriving Repr, DecidableEq

/-- The first bit of a significand that has all of its 53: `2 ^ 52`. -/
def leadingBit : Nat := 4503599627370496

/-- The bit of the sign: `2 ^ 63`. -/
def signBit : Nat := 9223372036854775808

/-- The smallest power of two that a float counts in. -/
def leastExponent : Int := -1074

/-- The value of a float, taken from its bits. -/
def parts (x : Float) : Parts :=
  let bits : Nat := x.toBits.toNat
  let negative := decide (signBit ≤ bits)
  let field : Nat := bits / leadingBit % 2048
  let fraction : Nat := bits % leadingBit
  if field = 2047 then
    if fraction = 0 then .infinite negative else .nan
  else if field = 0 then .finite negative fraction leastExponent
  else .finite negative (leadingBit + fraction) ((field : Int) - 1075)

/-- The float of a value that has one: the significand is below `2 ^ 53`, the exponent not below
`leastExponent` and the value not beyond the largest float. -/
def ofFinite (negative : Bool) (significand : Nat) (exponent : Int) : Float :=
  let shift := min (52 - significand.log2) (exponent - leastExponent).toNat
  let m := significand * Nat.pow 2 shift
  let field := if m < leadingBit then 0 else (exponent - shift + 1075).toNat
  let sign := if negative then signBit else 0
  Float.ofBits (UInt64.ofNat (sign + field * leadingBit + m % leadingBit))

/-- The remainder of a division that rounds toward zero, with the sign of the dividend. Nothing is
left over from an infinite dividend or a zero divisor, so those give NaN. -/
def remainder (a b : Float) : Float :=
  match parts a, parts b with
  | .finite negative m p, .finite _ n q =>
    if n = 0 then 0.0 / 0.0
    else if p < q then ofFinite negative (m % (n * Nat.pow 2 (q - p).toNat)) p
    else ofFinite negative (m * Nat.pow 2 (p - q).toNat % n) q
  | .finite .., .infinite _ => a
  | _, _ => 0.0 / 0.0

end Vigil.Decimal
