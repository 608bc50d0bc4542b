import Vigil.Failure
import Vigil.Series.Point

/-!
# Transformations

A transformation makes a series of a series. Most outputs need inputs before their own: the lookback
counts the inputs that are used up before the first output.
-/

namespace Vigil

/-- The ways to make a series of a series. -/
inductive Transformation where
  | derivative
  | nonNegativeDerivative
  | difference
  | movingAverage
  | cumulativeSum
  deriving DecidableEq, Repr

namespace Transformation

def name : Transformation → String
  | derivative => "derivative"
  | nonNegativeDerivative => "non_negative_derivative"
  | difference => "difference"
  | movingAverage => "moving_average"
  | cumulativeSum => "cumulative_sum"

def all : List Transformation :=
  [derivative, nonNegativeDerivative, difference, movingAverage, cumulativeSum]

def ofName (s : String) : Except ConditionError Transformation :=
  match all.find? fun transformation => transformation.name == s with
  | some transformation => .ok transformation
  | none => .error (.unknownTransformation s)

def takesParam : Transformation → Bool
  | derivative | nonNegativeDerivative | movingAverage => true
  | difference | cumulativeSum => false

/-- The parameter, at least one; `default` without one. -/
def atLeastOne (param : Option Int) (default : Int) : Nat :=
  (max (param.getD default) 1).toNat

/-- The largest count of inputs used up before the first output: `2 ^ 32 - 1`. -/
def maxLookback : Nat := 4294967295

/-- The inputs used up before the first output. -/
def lookback (transformation : Transformation) (param : Option Int) : Nat :=
  match transformation with
  | derivative | nonNegativeDerivative | difference => 1
  | movingAverage => min (atLeastOne param 2 - 1) maxLookback
  | cumulativeSum => 0

/-- All runs of `n` points that follow each other. -/
def windows (n : Nat) : Series → List Series
  | [] => []
  | p :: rest => if (p :: rest).length < n then [] else (p :: rest).take n :: windows n rest

/-- Each point after the first, together with the one before it. -/
def neighbours (series : Series) : List (Point × Point) :=
  series.zip series.tail

/-- The change from one point to the next in `unit` seconds, if there is a millisecond between them. -/
def rate? (unit : Nat) (a b : Point) : Option Point :=
  let elapsed := (b.time.nanos - a.time.nanos).tdiv nanosPerMilli
  if elapsed ≤ 0 then none
  else some ⟨b.time, (b.value - a.value) * Float.ofNat unit * 1000.0 / Float.ofInt elapsed⟩

/-- The mean of a run of points, at the time of the last. -/
def mean? (n : Nat) (run : Series) : Option Point :=
  run.getLast?.map fun p => ⟨p.time, (run.map (·.value)).foldl (· + ·) (-0.0) / Float.ofNat n⟩

/-- The sums of all values so far, on top of `sum`. -/
def sums (sum : Float) : Series → Series
  | [] => []
  | p :: rest => ⟨p.time, sum + p.value⟩ :: sums (sum + p.value) rest

def apply (transformation : Transformation) (series : Series) (param : Option Int) : Series :=
  match transformation with
  | derivative => (neighbours series).filterMap fun (a, b) => rate? (atLeastOne param 1) a b
  | nonNegativeDerivative =>
    (neighbours series).filterMap fun (a, b) =>
      (rate? (atLeastOne param 1) a b).filter fun p => !decide (p.value < 0.0)
  | difference => (neighbours series).map fun (a, b) => ⟨b.time, b.value - a.value⟩
  | movingAverage =>
    let n := atLeastOne param 2
    (windows n series).filterMap (mean? n)
  | cumulativeSum => sums 0.0 series

end Transformation

end Vigil
