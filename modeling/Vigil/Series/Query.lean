import Vigil.Series.Bucket
import Vigil.Series.Selector
import Vigil.Series.Transformation

/-!
# Answering a query

A query asks for one series per filter. The points of a filter are grouped into buckets by the query's
interval; the selector makes one point of each bucket, at its start; the transformation, if any, makes
the series of these, and its outputs before the bucket of the query's start are dropped. For a
transformation the points are read from further back, by as many intervals as it uses up. Of the
series the most recent points are kept, as many as the query's limit.
-/

namespace Vigil

/-- A request for grouped series. -/
structure Query where
  source : Source
  filters : List Filter
  start : Instant
  stop : Instant
  interval : Span
  limit : Nat
  retention : String

namespace Filter

def selector? (f : Filter) : Except ConditionError Selector :=
  Selector.ofName f.selector

def transformation? (f : Filter) : Except ConditionError (Option Transformation) :=
  match f.transformation with
  | none => .ok none
  | some name => (Transformation.ofName name).map some

/-- Refuse unknown names, and parameters that mean nothing. -/
def validate (f : Filter) : Except ConditionError Unit := do
  let _ ← f.selector?
  match f.transformation with
  | none => return ()
  | some name =>
    let transformation ← Transformation.ofName name
    match f.param with
    | none => return ()
    | some param =>
      if !transformation.takesParam then throw (.parameterNotTaken name)
      else if param < 1 then throw (.parameterNotPositive name param)
      else return ()

/-- The intervals that the filter reads before the start of a query. -/
def lookback (f : Filter) : Nat :=
  match f.transformation? with
  | .ok (some transformation) => transformation.lookback f.param
  | _ => 0

end Filter

namespace Query

/-- The longest interval, in seconds: `2 ^ 63 - 1`. -/
def maxIntervalSeconds : Nat := 9223372036854775807

/-- The length of a bucket in whole seconds, at least one. -/
def bucketSeconds (q : Query) : Int :=
  max (min q.interval.seconds maxIntervalSeconds) 1

/-- The first time from which points are read for a filter. -/
def rawStart (q : Query) (f : Filter) : Instant :=
  q.start.back (q.interval.times f.lookback)

/-- One point per bucket. -/
def grouped (q : Query) (selector : Selector) (f : Filter) (raw : List Point) : Series :=
  (Bucket.ofPoints raw (q.rawStart f) q.stop q.bucketSeconds).filterMap fun (start, values) => do
    let time ← Instant.ofSeconds? start
    let value ← selector.apply values
    return ⟨time, value⟩

def lastOf {α : Type} (limit : Nat) (list : List α) : List α :=
  list.drop (list.length - limit)

/-- All points of the series of a filter, whatever the limit. -/
def unlimited (q : Query) (f : Filter) (raw : List Point) : Except ConditionError Series := do
  let selector ← f.selector?
  let transformation ← f.transformation?
  let grouped := q.grouped selector f raw
  match transformation with
  | none => return grouped
  | some transformation =>
    let firstBucket := Bucket.start q.bucketSeconds q.start
    return (transformation.apply grouped f.param).filter fun p => firstBucket ≤ p.time.seconds

/-- The series of a filter, made of points in order of time. -/
def answer (q : Query) (f : Filter) (raw : List Point) : Except ConditionError Series :=
  (q.unlimited f raw).map (lastOf q.limit)

end Query

end Vigil
