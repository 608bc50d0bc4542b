import Vigil.Failure
import Vigil.Time.Instant

/-!
# Retention policies

A policy keeps measurements for a while at a certain density. Policies stand in strictly ascending
order of the time that they keep measurements, so the first one that covers a range is the shortest.
The points of an answer lie as far apart as their number demands, but never closer than the policy
keeps them and never closer than a second.
-/

namespace Vigil

/-- The most points of one series. -/
def maxPointsCap : Nat := 300

/-- How long and how densely measurements are kept. -/
structure Policy where
  name : String
  duration : Span
  samplingRate : Span
  deriving DecidableEq

namespace Policy

def daySeconds : Nat := 24 * 60 * 60

/-- The policies that hold unless others are configured. -/
def defaults : List Policy :=
  [ ⟨"1-day", .ofSeconds daySeconds, .zero⟩,
    ⟨"6-months", .ofSeconds (182 * daySeconds), .ofSeconds (30 * 60)⟩,
    ⟨"3-years", .ofSeconds (3 * 365 * daySeconds), .ofSeconds daySeconds⟩ ]

/-- Refuse neighbours that are not in ascending order. -/
def validateNeighbours : List Policy → Except ValidationError Unit
  | a :: b :: rest =>
    if a.duration < b.duration then validateNeighbours (b :: rest)
    else .error (.policiesOutOfOrder a.name b.name)
  | _ => .ok ()

/-- Refuse an empty list, and one that is not in ascending order. -/
def validateOrder (policies : List Policy) : Except ValidationError Unit :=
  if policies.isEmpty then .error .noPolicies else validateNeighbours policies

/-- The first policy that reaches back to a time; its failure is the span that none covers. -/
def select (policies : List Policy) (start now : Instant) : Except AlarmError Policy :=
  let requested := start.spanTo now
  match policies.find? fun p => requested ≤ p.duration with
  | some p => .ok p
  | none => .error (.uncovered requested)

/-- The number of points to group a range into: `n`, within one and `maxPoints`, narrowed to 32 bits. -/
def pointCount (n maxPoints : Nat) : Nat :=
  min (max n 1) (max maxPoints 1) % 4294967296

/-- The distance of the points of an answer. There is none when the number of points narrows to
zero. -/
def interval? (policy : Policy) (start stop : Instant) (n maxPoints : Nat) : Option Span :=
  let points := pointCount n maxPoints
  if points = 0 then none
  else some ((((start.spanTo stop).part points).longer policy.samplingRate).longer (.ofSeconds 1))

theorem pointCount_ne_zero {n maxPoints : Nat} (h : maxPoints ≤ maxPointsCap) :
    pointCount n maxPoints ≠ 0 := by
  simp only [pointCount, maxPointsCap] at *
  omega

theorem isSome_interval? {policy : Policy} {start stop : Instant} {n maxPoints : Nat}
    (h : maxPoints ≤ maxPointsCap) : (policy.interval? start stop n maxPoints).isSome := by
  simp [interval?, pointCount_ne_zero h]

end Policy

end Vigil
