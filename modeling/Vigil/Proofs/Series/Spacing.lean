import Mathlib.Data.List.Basic
import Vigil.Proofs.Time.Instants
import Vigil.Series.Retention

/-!
# How far apart points lie

A range is to be divided by the number of points that are wanted, which is at least one. The number is
counted in 64 bits, but only what its lower 32 hold is divided by. As long as fewer than `2 ^ 32` points
are wanted no bit is lost, and every range has its points as far apart as their number demands. Of a
greater number the remainder is divided by: the points are never closer than they are wanted, but some
range has them too far apart, and where nothing remains there is no distance.
-/

namespace Vigil.Policy

variable {policy : Policy} {start stop : Instant} {n maxPoints points divisor : Nat} {interval : Span}

/-- The number of points that are wanted: `n`, within one and `maxPoints`. -/
def wantedCount (n maxPoints : Nat) : Nat :=
  min (max n 1) (max maxPoints 1)

theorem pointCount_eq_mod (n maxPoints : Nat) :
    pointCount n maxPoints = wantedCount n maxPoints % 4294967296 := rfl

theorem one_le_wantedCount (n maxPoints : Nat) : 1 ≤ wantedCount n maxPoints := by
  rw [wantedCount]
  omega

theorem wantedCount_lt_iff : wantedCount n maxPoints < 4294967296 ↔ min n maxPoints < 4294967296 := by
  rw [wantedCount]
  omega

theorem pointCount_lt (n maxPoints : Nat) : pointCount n maxPoints < 4294967296 :=
  Nat.mod_lt _ (by decide)

theorem pointCount_le (n maxPoints : Nat) : pointCount n maxPoints ≤ wantedCount n maxPoints :=
  Nat.mod_le _ _

/-- No bit is lost of a number below `2 ^ 32`. -/
theorem pointCount_eq_iff :
    pointCount n maxPoints = wantedCount n maxPoints ↔ min n maxPoints < 4294967296 := by
  rw [← wantedCount_lt_iff]
  exact ⟨fun heq => heq ▸ pointCount_lt n maxPoints, Nat.mod_eq_of_lt⟩

/-- Nothing remains of a multiple of `2 ^ 32`. -/
theorem pointCount_eq_zero_iff :
    pointCount n maxPoints = 0 ↔ ∃ k, 0 < k ∧ min n maxPoints = k * 4294967296 := by
  have hone := one_le_wantedCount n maxPoints
  rw [pointCount_eq_mod, wantedCount] at *
  constructor
  · intro hzero
    exact ⟨min n maxPoints / 4294967296, by omega, by omega⟩
  · rintro ⟨k, hk, hmin⟩
    omega

/-- The number of points that are wanted, in 64 bits. -/
def wantedWord (n maxPoints : UInt64) : UInt64 :=
  min (max n 1) (max maxPoints 1)

/-- What the lower 32 bits of the wanted number hold. -/
def divisorWord (n maxPoints : UInt64) : UInt32 :=
  (wantedWord n maxPoints).toUInt32

theorem wantedCount_toNat (n maxPoints : UInt64) :
    wantedCount n.toNat maxPoints.toNat = (wantedWord n maxPoints).toNat := by
  rw [wantedWord, UInt64.toNat_min, UInt64.toNat_max, UInt64.toNat_max]
  rfl

theorem pointCount_toNat (n maxPoints : UInt64) :
    pointCount n.toNat maxPoints.toNat = (divisorWord n maxPoints).toNat := by
  rw [pointCount_eq_mod, wantedCount_toNat, divisorWord, UInt64.toNat_toUInt32]

theorem divisorWord_eq_zero_iff {n maxPoints : UInt64} :
    divisorWord n maxPoints = 0 ↔ pointCount n.toNat maxPoints.toNat = 0 := by
  rw [pointCount_toNat, ← UInt32.toNat_inj]
  exact Iff.rfl

/-- The nanoseconds between the points of a range: its part for each of them, rounded down, but no less
than a second and than the policy keeps them apart. -/
def spacing (policy : Policy) (start stop : Instant) (points : Nat) : Nat :=
  max nanosPerSecond (max policy.samplingRate.nanos ((stop.nanos - start.nanos).toNat / points))

theorem interval?_eq_none_iff :
    policy.interval? start stop n maxPoints = none ↔ pointCount n maxPoints = 0 := by
  unfold interval?
  dsimp only
  split
  · rename_i hzero
    exact iff_of_true rfl hzero
  · rename_i hsome
    exact iff_of_false nofun hsome

theorem pointCount_pos (h : policy.interval? start stop n maxPoints = some interval) :
    0 < pointCount n maxPoints := by
  refine Nat.pos_of_ne_zero fun hzero => ?_
  rw [interval?_eq_none_iff.mpr hzero] at h
  cases h

theorem exists_interval? (h : pointCount n maxPoints ≠ 0) :
    ∃ interval, policy.interval? start stop n maxPoints = some interval :=
  Option.ne_none_iff_exists'.mp fun hnone => h (interval?_eq_none_iff.mp hnone)

theorem nanos_of_interval? (h : policy.interval? start stop n maxPoints = some interval) :
    interval.nanos = policy.spacing start stop (pointCount n maxPoints) := by
  have hsecond : (Span.ofSeconds 1).nanos = nanosPerSecond := by decide
  unfold interval? at h
  dsimp only at h
  split at h
  · cases h
  · cases h
    rw [Span.nanos_longer, Span.nanos_longer, Span.nanos_part, Instant.nanos_spanTo, hsecond, spacing,
      Nat.max_comm, Nat.max_comm policy.samplingRate.nanos]

theorem second_le_spacing : nanosPerSecond ≤ policy.spacing start stop points :=
  Nat.le_max_left _ _

theorem samplingRate_le_spacing : policy.samplingRate.nanos ≤ policy.spacing start stop points :=
  Nat.le_trans (Nat.le_max_left _ _) (Nat.le_max_right _ _)

/-- Fewer points lie no closer. -/
theorem spacing_le_of_le (hdivisor : 0 < divisor) (h : divisor ≤ points) :
    policy.spacing start stop points ≤ policy.spacing start stop divisor := by
  have hpart : (stop.nanos - start.nanos).toNat / points ≤ (stop.nanos - start.nanos).toNat / divisor :=
    Nat.div_le_div_left h hdivisor
  rw [spacing, spacing]
  omega

/-- Under every policy every range has a distance, and it is the one of that many `points`. -/
def SpacesAll (n maxPoints points : Nat) : Prop :=
  ∀ (policy : Policy) (start stop : Instant), ∃ interval,
    policy.interval? start stop n maxPoints = some interval ∧
      interval.nanos = policy.spacing start stop points

def everyPoint : Policy :=
  ⟨"1-day", .ofSeconds daySeconds, .zero⟩

/-- The range of all instants tells each number of 32 bits from the greater ones. -/
theorem spacing_lt_of_narrowed (hpoints : 4294967296 ≤ points) (hdivisor : 0 < divisor)
    (hnarrow : divisor < 4294967296) :
    everyPoint.spacing .first .last points < everyPoint.spacing .first .last divisor := by
  have hrange : (Instant.last.nanos - Instant.first.nanos).toNat = 16544868105599999999999 := by decide
  have hrate : everyPoint.samplingRate.nanos = 0 := by decide
  -- the quotients by `2 ^ 32` and by one less differ, and both are longer than a second
  have hmore : 16544868105599999999999 / points ≤ 16544868105599999999999 / 4294967296 :=
    Nat.div_le_div_left hpoints (by decide)
  have hless : 16544868105599999999999 / 4294967295 ≤ 16544868105599999999999 / divisor :=
    Nat.div_le_div_left (by omega) hdivisor
  rw [spacing, spacing, hrange, hrate, nanosPerSecond]
  omega

/-- Every range has its wanted distance exactly if no bit of the number is lost. -/
theorem spacesAll_iff :
    SpacesAll n maxPoints (wantedCount n maxPoints) ↔ min n maxPoints < 4294967296 := by
  constructor
  · intro hall
    obtain ⟨interval, hsome, hnanos⟩ := hall everyPoint .first .last
    rw [nanos_of_interval? hsome] at hnanos
    refine wantedCount_lt_iff.mp (Nat.lt_of_not_le fun hmany => ?_)
    exact Nat.ne_of_gt (spacing_lt_of_narrowed hmany (pointCount_pos hsome) (pointCount_lt _ _)) hnanos
  · intro hfew policy start stop
    have hcount := pointCount_eq_iff.mpr hfew
    have hpos := one_le_wantedCount n maxPoints
    obtain ⟨interval, hsome⟩ : ∃ interval, policy.interval? start stop n maxPoints = some interval :=
      exists_interval? (by omega)
    exact ⟨interval, hsome, by rw [nanos_of_interval? hsome, hcount]⟩

/-- How far apart the points of a range lie, for all `n` and `maxPoints` of 64 bits. There is no distance
exactly if no bit remains of the number that is wanted, which then is a multiple of `2 ^ 32`. Otherwise the
range is divided by what remains: that puts the points no closer than they are wanted, than a second and
than the policy keeps them apart. The wanted number itself is divided by, and every range has the wanted
distance, exactly if fewer than `2 ^ 32` points are wanted. -/
theorem interval_of_words (n maxPoints : UInt64) :
    (∀ (policy : Policy) (start stop : Instant),
      (policy.interval? start stop n.toNat maxPoints.toNat = none ↔ divisorWord n maxPoints = 0) ∧
      ∀ interval, policy.interval? start stop n.toNat maxPoints.toNat = some interval →
        interval.nanos = policy.spacing start stop (divisorWord n maxPoints).toNat ∧
          policy.spacing start stop (wantedWord n maxPoints).toNat ≤ interval.nanos ∧
          Span.ofSeconds 1 ≤ interval ∧ policy.samplingRate ≤ interval) ∧
    (divisorWord n maxPoints = 0 ↔ ∃ k, 0 < k ∧ min n.toNat maxPoints.toNat = k * 4294967296) ∧
    ((divisorWord n maxPoints).toNat = (wantedWord n maxPoints).toNat ↔
      min n.toNat maxPoints.toNat < 4294967296) ∧
    (SpacesAll n.toNat maxPoints.toNat (wantedWord n maxPoints).toNat ↔
      min n.toNat maxPoints.toNat < 4294967296) := by
  rw [← wantedCount_toNat, ← pointCount_toNat, divisorWord_eq_zero_iff]
  refine ⟨fun policy start stop => ⟨interval?_eq_none_iff, fun interval hsome => ?_⟩,
    pointCount_eq_zero_iff, pointCount_eq_iff, spacesAll_iff⟩
  have hnanos := nanos_of_interval? hsome
  have hwider : policy.spacing start stop (wantedCount n.toNat maxPoints.toNat) ≤
      policy.spacing start stop (pointCount n.toNat maxPoints.toNat) :=
    spacing_le_of_le (pointCount_pos hsome) (pointCount_le _ _)
  rw [Span.le_def, Span.le_def, hnanos]
  exact ⟨rfl, hwider, second_le_spacing, samplingRate_le_spacing⟩

/-- Fifty minutes after the start of 1970. -/
def fiftyMinutes : Instant :=
  ⟨3000000000000, by decide, by decide⟩

/-- Ten thousand points are cut to three hundred, which lie ten seconds apart. Of `2 ^ 32 + 7` points seven
remain to divide by. -/
theorem interval_of_ten_thousand :
    (∃ interval, everyPoint.interval? .epoch fiftyMinutes 10000 300 = some interval ∧
      interval.nanos = 10000000000) ∧
    ∃ interval, everyPoint.interval? .epoch fiftyMinutes 18446744073709551615 4294967303 = some interval ∧
      interval.nanos = 428571428571 := by
  obtain ⟨-, -, -, hall⟩ := interval_of_words 10000 300
  obtain ⟨hsome, -⟩ := interval_of_words 18446744073709551615 4294967303
  obtain ⟨interval, hseven⟩ : ∃ interval, everyPoint.interval? .epoch fiftyMinutes 18446744073709551615
      4294967303 = some interval := exists_interval? (by decide)
  obtain ⟨hnanos, -⟩ := (hsome everyPoint .epoch fiftyMinutes).2 interval hseven
  exact ⟨hall.mpr (by decide) everyPoint .epoch fiftyMinutes, interval, hseven, hnanos⟩

/-- Of `2 ^ 32 + 1` points one remains to divide by: the points are as far apart as the whole range, though
a second is wanted. Of `2 ^ 32` points nothing remains, and there is no distance. -/
theorem interval_of_one_remaining :
    (∃ interval, everyPoint.interval? .epoch fiftyMinutes 4294967297 4294967297 = some interval ∧
      interval.nanos = 3000000000000) ∧
    everyPoint.spacing .epoch fiftyMinutes (wantedCount 4294967297 4294967297) = 1000000000 ∧
    everyPoint.interval? .epoch fiftyMinutes 4294967296 4294967296 = none ∧
    ¬ ∀ n maxPoints : UInt64,
      SpacesAll n.toNat maxPoints.toNat (wantedCount n.toNat maxPoints.toNat) := by
  refine ⟨⟨_, rfl, rfl⟩, by decide, rfl, fun hall => ?_⟩
  have hfew := spacesAll_iff.mp (hall 4294967297 4294967297)
  exact absurd hfew (by decide)

end Vigil.Policy
