/-!
# Whole numbers in templates

A whole number is held in 64 or in 128 bits, with or without a sign. A written number has no sign, a
computed one has; both take 64 bits if these suffice. Sums are sums of numbers with a sign: two
unsigned numbers of 128 bits enter them by their bits, any other number by its value, which has to fit.
-/

namespace Vigil.Template

/-- How a whole number is held. -/
inductive Width where
  | signed64
  | unsigned64
  | signed128
  | unsigned128
  deriving DecidableEq, Repr

namespace Width

def least : Width → Int
  | signed64 => -9223372036854775808
  | signed128 => -170141183460469231731687303715884105728
  | unsigned64 | unsigned128 => 0

def greatest : Width → Int
  | signed64 => 9223372036854775807
  | unsigned64 => 18446744073709551615
  | signed128 => 170141183460469231731687303715884105727
  | unsigned128 => 340282366920938463463374607431768211455

def has (w : Width) (n : Int) : Bool :=
  decide (w.least ≤ n ∧ n ≤ w.greatest)

end Width

/-- A whole number and how it is held. -/
structure Whole where
  width : Width
  value : Int
  deriving DecidableEq, Repr

namespace Whole

/-- A number in the first of some widths that has it. -/
def first? (widths : List Width) (n : Int) : Option Whole :=
  (widths.find? (·.has n)).map fun w => ⟨w, n⟩

def written? (n : Nat) : Option Whole :=
  first? [.unsigned64, .unsigned128] n

def computed? (n : Int) : Option Whole :=
  first? [.signed64, .signed128] n

def ofBool (b : Bool) : Whole :=
  ⟨.signed64, if b then 1 else 0⟩

/-- The number with a sign that has the same 128 bits: one from `2 ^ 127` on is `2 ^ 128` less. -/
def byBits (n : Whole) : Int :=
  n.value.bmod 340282366920938463463374607431768211456

/-- Two numbers as they enter a sum. -/
def signedPair? (a b : Whole) : Option (Int × Int) :=
  if a.width = .unsigned128 ∧ b.width = .unsigned128 then some (a.byBits, b.byBits)
  else if Width.signed128.has a.value && Width.signed128.has b.value then some (a.value, b.value)
  else none

def add? (a b : Whole) : Option Whole := do
  let (m, n) ← signedPair? a b
  computed? (m + n)

/-- The opposite of a number. The written `2 ^ 127` is its own opposite, as its bits are. -/
def negate? (a : Whole) : Option Whole :=
  if a = ⟨.unsigned128, 170141183460469231731687303715884105728⟩ then some a
  else if Width.signed128.has a.value then computed? (-a.value)
  else none

def toFloat (n : Whole) : Float :=
  Float.ofInt n.value

/-- The float nearest to a number that is not rounded by that. The greatest number of a width counts as
not rounded, because the float is cut back to it. -/
def exactFloat? (n : Whole) : Option Float :=
  let m := n.value.natAbs
  if m % Nat.pow 2 (m.log2 - 52) = 0 ∨ n.value = n.width.greatest then some n.toFloat else none

end Whole

end Vigil.Template
