import Vigil.Series.Point

/-!
# Buckets

The seconds are cut into intervals of equal length, counted from the start of 1970. A bucket holds the
values whose times fall into one interval, in the order in which they were given; it is named by the
first second of the interval. Only points within a closed range of times count, and an interval
without points has no bucket.
-/

namespace Vigil.Bucket

/-- The first second of the interval that a time falls into. -/
def start (interval : Int) (t : Instant) : Int :=
  t.seconds / interval * interval

/-- Put neighbours with one start together. -/
def gather : List (Int × Float) → List (Int × List Float)
  | [] => []
  | (s, v) :: rest =>
    match gather rest with
    | (s', vs) :: more => if s = s' then (s, v :: vs) :: more else (s, [v]) :: (s', vs) :: more
    | [] => [(s, [v])]

def within (earliest latest : Instant) (raw : List Point) : List Point :=
  raw.filter fun p => earliest ≤ p.time && p.time ≤ latest

/-- The buckets of the points within a range of times, in ascending order. An interval lasts at least
one second. -/
def ofPoints (raw : List Point) (earliest latest : Instant) (interval : Int) :
    List (Int × List Float) :=
  let interval := max interval 1
  let placed := (within earliest latest raw).map fun p => (start interval p.time, p.value)
  gather (placed.mergeSort fun a b => a.1 ≤ b.1)

end Vigil.Bucket
