import Vigil.Proofs.Results
import Vigil.Proofs.Series.Spacing
import Vigil.Series.Plan

/-!
# What a plan settles

The points of a planned query lie as far apart as the range divided by their number, rounded down to a
nanosecond, unless the policy or the least interval of a second keeps them further apart. So that many
intervals are shorter than the range by less than a nanosecond each.
-/

namespace Vigil.Reader

variable {r : Reader} {policy : Policy} {source : Source} {filters : List Filter}
  {start stop now : Instant} {n : Nat} {q : Query}

/-- The range is divided by the number of points within one and the most that are read. -/
theorem nanos_interval_clamped (n : Nat) : (r.interval policy start stop n).nanos =
    max (max ((start.spanTo stop).nanos / min (max n 1) r.maxPoints) policy.samplingRate.nanos)
      nanosPerSecond := by
  have hfew : min n r.maxPoints < 4294967296 :=
    Nat.lt_of_le_of_lt (Nat.min_le_right _ _) (Nat.lt_of_le_of_lt r.le_cap (by decide))
  have hsome : policy.interval? start stop n r.maxPoints = some (r.interval policy start stop n) :=
    (Option.some_get _).symm
  rw [Policy.nanos_of_interval? hsome, Policy.pointCount_eq_iff.mpr hfew, Policy.wantedCount,
    Nat.max_eq_left r.one_le, Policy.spacing, Instant.nanos_spanTo, Nat.max_comm,
    Nat.max_comm policy.samplingRate.nanos]

theorem nanos_interval (hn : 1 ≤ n) : (r.interval policy start stop n).nanos =
    max (max ((start.spanTo stop).nanos / min n r.maxPoints) policy.samplingRate.nanos)
      nanosPerSecond := by
  rw [nanos_interval_clamped, Nat.max_eq_left hn]

theorem plan_of_select (hrange : start ≤ stop)
    (h : Policy.select r.policies start now = .ok policy) :
    r.plan source filters start stop n now =
      .ok { source, filters, start, stop, interval := r.interval policy start stop n,
            limit := min n r.maxPoints, retention := policy.name } := by
  have hforward : ¬ stop < start := Int.not_lt.mpr hrange
  rw [plan, if_neg hforward, h]
  rfl

theorem plan_of_select_error {cause : AlarmError} (hrange : start ≤ stop)
    (h : Policy.select r.policies start now = .error cause) :
    r.plan source filters start stop n now = .error cause := by
  have hforward : ¬ stop < start := Int.not_lt.mpr hrange
  rw [plan, if_neg hforward, h]
  rfl

/-- What a plan settles of a query: its range, at least one point, intervals of at least a second, and
how far as many of them as the limit reach. -/
structure Plans (q : Query) (start stop : Instant) : Prop where
  start_eq : q.start = start
  stop_eq : q.stop = stop
  range : start ≤ stop
  one_le_limit : 1 ≤ q.limit
  interval : Span.ofSeconds 1 ≤ q.interval
  span_lt : stop.nanos - start.nanos < q.limit * (q.interval.nanos + 1)

theorem plans (h : r.plan source filters start stop n now = .ok q) (hn : 1 ≤ n) :
    Plans q start stop := by
  unfold plan at h
  split at h
  · cases h
  · rename_i hrange
    obtain ⟨policy, -, h⟩ := bind_eq_ok_iff.mp h
    cases h
    have hone := r.one_le
    have hpoints : 1 ≤ min n r.maxPoints := by omega
    refine ⟨rfl, rfl, Int.not_lt.mp hrange, hpoints, ?_, ?_⟩
    · show nanosPerSecond ≤ (r.interval policy start stop n).nanos
      rw [nanos_interval hn]
      exact Nat.le_max_right _ _
    · show stop.nanos - start.nanos < (min n r.maxPoints : Nat) *
        ((r.interval policy start stop n).nanos + 1 : Int)
      have hpart : (start.spanTo stop).nanos / min n r.maxPoints ≤
          (r.interval policy start stop n).nanos := by
        rw [nanos_interval hn]
        exact Nat.le_trans (Nat.le_max_left _ _) (Nat.le_max_left _ _)
      have hspan : (start.spanTo stop).nanos <
          min n r.maxPoints * ((start.spanTo stop).nanos / min n r.maxPoints + 1) :=
        Nat.lt_mul_div_succ _ hpoints
      have hlong := Nat.lt_of_lt_of_le hspan
        (Nat.mul_le_mul_left (min n r.maxPoints) (Nat.succ_le_succ hpart))
      rw [Instant.nanos_spanTo] at hlong
      exact Int.lt_of_le_of_lt (Int.self_le_toNat _) (by exact_mod_cast hlong)

end Vigil.Reader
