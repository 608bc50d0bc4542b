import Vigil.Decimal.Binary
import Vigil.Failure

/-!
# Selectors

A selector reduces the values of one interval, given in order of time, to one number. None has a value
where there are no values. Sums start at negative zero, the neutral element of float addition; extremes
pass over values that are no number; the median is taken in the total order of floats, in which -0
comes before 0 and numbers come before NaN.
-/

namespace Vigil

/-- The ways to reduce an interval. -/
inductive Selector where
  | mean
  | max
  | min
  | sum
  | count
  | first
  | last
  | median
  | spread
  | stddev
  deriving DecidableEq, Repr

namespace Selector

def name : Selector → String
  | mean => "mean"
  | max => "max"
  | min => "min"
  | sum => "sum"
  | count => "count"
  | first => "first"
  | last => "last"
  | median => "median"
  | spread => "spread"
  | stddev => "stddev"

def all : List Selector :=
  [mean, max, min, sum, count, first, last, median, spread, stddev]

def ofName (s : String) : Except ConditionError Selector :=
  match all.find? fun selector => selector.name == s with
  | some selector => .ok selector
  | none => .error (.unknownSelector s)

/-- The sum of values, added up from left to right. -/
def total (values : List Float) : Float :=
  values.foldl (· + ·) (-0.0)

def larger (a b : Float) : Float :=
  if a.isNaN then b else if b.isNaN then a else if a < b then b else a

def smaller (a b : Float) : Float :=
  if a.isNaN then b else if b.isNaN then a else if b < a then b else a

/-- The largest number, or negative infinity. -/
def largest (values : List Float) : Float :=
  values.foldl larger (-(1.0 / 0.0))

/-- The smallest number, or infinity. -/
def smallest (values : List Float) : Float :=
  values.foldl smaller (1.0 / 0.0)

/-- The place of a float in the total order of floats. -/
def rank (x : Float) : Int :=
  let bits : Nat := x.toBits.toNat
  if bits < Decimal.signBit then bits else (Decimal.signBit : Int) - 1 - bits

/-- The middle value, or the mean of the two in the middle. -/
def middle (values : List Float) : Option Float :=
  let sorted := values.mergeSort fun a b => rank a ≤ rank b
  let half := sorted.length / 2
  if sorted.length % 2 = 0 then do
    return ((← sorted[half - 1]?) + (← sorted[half]?)) / 2.0
  else sorted[half]?

/-- The deviation of a sample from its mean; a single value has none. -/
def deviation (values : List Float) : Option Float :=
  if values.length < 2 then none
  else
    let n := Float.ofNat values.length
    let mean := total values / n
    some (total (values.map fun v => (v - mean) * (v - mean)) / (n - 1.0)).sqrt

/-- The number that stands for the values of one interval. -/
def apply (selector : Selector) (values : List Float) : Option Float :=
  if values.isEmpty then none
  else
    match selector with
    | mean => some (total values / Float.ofNat values.length)
    | max => some (largest values)
    | min => some (smallest values)
    | sum => some (total values)
    | count => some (Float.ofNat values.length)
    | first => values.head?
    | last => values.getLast?
    | median => middle values
    | spread => some (largest values - smallest values)
    | stddev => deviation values

end Selector

end Vigil
