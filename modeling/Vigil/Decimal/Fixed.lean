import Vigil.Decimal.Shortest

/-!
# Fixed decimal places

A float with a given number of decimal places: its exact value rounded to the nearest multiple of the
last place, a half going to the even neighbour. The sign is the float's own, so a negative number that
rounds to nothing keeps it.
-/

namespace Vigil.Decimal

/-- The whole number nearest to `num / den`, the even one of two that are equally near. -/
def roundDiv (num den : Nat) : Nat :=
  let q := num / den
  let r := num % den
  if 2 * r < den then q
  else if den < 2 * r then q + 1
  else if q % 2 = 0 then q else q + 1

def fixed (places : Nat) (x : Float) : String :=
  match parts x with
  | .nan => "NaN"
  | .infinite negative => if negative then "-inf" else "inf"
  | .finite negative m q =>
    let sign := if negative then "-" else ""
    let n := roundDiv (m * Nat.pow 2 q.toNat * Nat.pow 10 places) (Nat.pow 2 (-q).toNat)
    sign ++ positional n (-places)

end Vigil.Decimal
