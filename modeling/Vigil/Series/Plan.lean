import Vigil.Series.Batch
import Vigil.Series.Retention

/-!
# Planning a read

A reader turns a request for `n` points between two times into a query: it picks the retention policy
that reaches back far enough, the distance of the points and their greatest number.
-/

namespace Vigil

/-- What limits the series that are read: the policies, and a number of points of at least one. -/
structure Reader where
  policies : List Policy
  maxPoints : Nat
  one_le : 1 ≤ maxPoints
  le_cap : maxPoints ≤ maxPointsCap

namespace Reader

/-- A reader of as many points as there may be. -/
def ofPolicies (policies : List Policy) : Reader :=
  ⟨policies, maxPointsCap, by decide, by decide⟩

/-- The same reader with at most `n` points, within one and the cap. -/
def withMaxPoints (r : Reader) (n : Nat) : Reader :=
  ⟨r.policies, min (max n 1) maxPointsCap, Nat.le_min.mpr ⟨Nat.le_max_right _ _, by decide⟩,
    Nat.min_le_right _ _⟩

/-- The distance of the points under a policy. -/
def interval (r : Reader) (policy : Policy) (start stop : Instant) (n : Nat) : Span :=
  (policy.interval? start stop n r.maxPoints).get (Policy.isSome_interval? r.le_cap)

/-- The query for a request made at the time `now`. -/
def plan (r : Reader) (source : Source) (filters : List Filter) (start stop : Instant) (n : Nat)
    (now : Instant) : Except AlarmError Query := do
  if stop < start then throw (.invalid .rangeReversed)
  let policy ← Policy.select r.policies start now
  return {
    source, filters, start, stop
    interval := r.interval policy start stop n
    limit := min n r.maxPoints
    retention := policy.name }

end Reader

end Vigil
