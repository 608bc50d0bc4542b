import Vigil.Proofs.Series.Buckets
import Vigil.Proofs.Time.Instants
import Vigil.Series.Query

/-!
# The times of a series

A series of a filter has its points at starts of buckets, in strictly ascending order, so there is at
most one point at a time. The buckets are those that points of the filter's range fall into; a
transformation moves no point, and its first outputs are missing for want of inputs.
-/

namespace Vigil

def Series.times (series : Series) : List Instant :=
  series.map fun p => p.time

namespace Transformation

/-- The inputs that come before the one whose time an output has. -/
def before (transformation : Transformation) (param : Option Int) : Nat :=
  match transformation with
  | derivative | nonNegativeDerivative | difference => 1
  | movingAverage => atLeastOne param 2 - 1
  | cumulativeSum => 0

theorem one_le_atLeastOne (param : Option Int) (default : Int) : 1 ≤ atLeastOne param default := by
  unfold atLeastOne
  omega

/-- A filter reads back as many intervals as an output needs, up to the largest lookback. -/
theorem lookback_eq_min (transformation : Transformation) (param : Option Int) :
    transformation.lookback param = min (transformation.before param) maxLookback := by
  cases transformation <;> rfl

theorem map_snd_neighbours (series : Series) :
    (neighbours series).map Prod.snd = series.tail :=
  List.map_snd_zip (by simp)

theorem times_neighbours (series : Series) :
    ((neighbours series).map fun pair => pair.2.time) = series.times.drop 1 := by
  rw [Series.times, List.drop_one, ← List.map_tail, ← map_snd_neighbours, List.map_map]
  rfl

/-- Outputs made of pairs of neighbours have times of the second ones. -/
theorem times_filterMap_neighbours {make : Point × Point → Option Point}
    (h : ∀ a b p, make (a, b) = some p → p.time = b.time) (series : Series) :
    (Series.times ((neighbours series).filterMap make)).Sublist (series.times.drop 1) := by
  rw [← times_neighbours]
  induction neighbours series with
  | nil => exact .slnil
  | cons pair rest ih =>
    obtain ⟨a, b⟩ := pair
    rw [List.filterMap_cons]
    split
    · exact ih.cons _
    · rename_i p hp
      rw [Series.times, List.map_cons, List.map_cons, h a b p hp]
      exact ih.cons_cons _

theorem getLast?_windows (n : Nat) (series : Series) :
    (windows (n + 1) series).filterMap List.getLast? = series.drop n := by
  induction series with
  | nil => simp [windows]
  | cons p rest ih =>
    rw [windows]
    split
    · rename_i hshort
      rw [List.drop_of_length_le (Nat.le_of_lt_succ hshort)]
      rfl
    · rename_i hlong
      have hn : n < (p :: rest).length := by omega
      have hlast : ((p :: rest).take (n + 1)).getLast? = some (p :: rest)[n] := by
        rw [List.getLast?_eq_getElem?, List.length_take, Nat.min_eq_left (Nat.succ_le_of_lt hn),
          Nat.succ_sub_one, List.getElem?_take_of_lt (Nat.lt_succ_self n),
          List.getElem?_eq_getElem hn]
      rw [List.filterMap_cons_some hlast, ih, List.drop_eq_getElem_cons hn]
      rfl

theorem times_sums (sum : Float) (series : Series) :
    Series.times (sums sum series) = series.times := by
  induction series generalizing sum with
  | nil => rfl
  | cons p rest ih => exact congrArg (p.time :: ·) (ih (sum + p.value))

theorem times_apply_movingAverage (series : Series) (param : Option Int) :
    Series.times (movingAverage.apply series param) =
      series.times.drop (movingAverage.before param) := by
  have hwidth : atLeastOne param 2 = before movingAverage param + 1 :=
    (Nat.sub_add_cancel (one_le_atLeastOne param 2)).symm
  show Series.times ((windows (atLeastOne param 2) series).filterMap (mean? (atLeastOne param 2))) = _
  rw [hwidth, Series.times, Series.times, ← List.map_drop, ← getLast?_windows, List.map_filterMap,
    List.map_filterMap]
  refine List.filterMap_congr ?_
  intro run _
  cases h : run.getLast? <;> simp [mean?, h]

theorem time_of_rate? {unit : Nat} {a b p : Point} (h : rate? unit a b = some p) :
    p.time = b.time := by
  unfold rate? at h
  dsimp only at h
  split at h
  · cases h
  · cases h
    rfl

/-- Outputs have times of inputs, each with enough inputs before it. -/
theorem times_apply_sublist (transformation : Transformation) (series : Series)
    (param : Option Int) :
    (Series.times (transformation.apply series param)).Sublist
      (series.times.drop (transformation.before param)) := by
  cases transformation with
  | derivative => exact times_filterMap_neighbours (fun a b p h => time_of_rate? h) series
  | nonNegativeDerivative =>
    refine times_filterMap_neighbours (fun a b p h => ?_) series
    exact time_of_rate? (Option.filter_eq_some_iff.mp h).1
  | difference =>
    rw [apply, ← List.filterMap_eq_map]
    refine times_filterMap_neighbours (fun a b p h => ?_) series
    cases h
    rfl
  | movingAverage =>
    rw [times_apply_movingAverage]
  | cumulativeSum =>
    rw [apply, times_sums]
    exact .refl _

end Transformation

namespace Bucket

variable {interval : Int} {t u : Instant}

theorem start_mono (hinterval : 0 < interval) (h : t ≤ u) : start interval t ≤ start interval u := by
  refine Int.mul_le_mul_of_nonneg_right ?_ hinterval.le
  refine Int.ediv_le_ediv hinterval ?_
  exact Int.ediv_le_ediv (by decide) h

/-- The time is the start of a bucket that meets a range. -/
def Meets (interval : Int) (earliest latest t : Instant) : Prop :=
  ∃ u : Instant, earliest ≤ u ∧ u ≤ latest ∧ t.nanos = start interval u * nanosPerSecond

/-- A bucket of a longer range that is not before the first one of a range meets the range. -/
theorem meets_of_start_le {first earliest latest : Instant} (hinterval : 0 < interval)
    (hrange : earliest ≤ latest) (h : Meets interval first latest t)
    (hstart : start interval earliest ≤ t.seconds) : Meets interval earliest latest t := by
  obtain ⟨u, -, hlatest, htime⟩ := h
  rw [Instant.seconds_of_nanos htime] at hstart
  rcases Int.le_total earliest.nanos u.nanos with hle | hle
  · exact ⟨u, hle, hlatest, htime⟩
  · -- a bucket that starts before the range has to be that of its first time
    have hback := start_mono hinterval (t := u) (u := earliest) hle
    exact ⟨earliest, Int.le_refl _, hrange, by rw [htime, Int.le_antisymm hback hstart]⟩

end Bucket

/-- The inputs of the transformation of a filter that come before that of an output. -/
def Filter.before (f : Filter) : Nat :=
  match f.transformation? with
  | .ok (some transformation) => transformation.before f.param
  | _ => 0

namespace Query

variable {q : Query} {f : Filter} {raw : List Point} {series : Series} {selector : Selector}
  {t : Instant}

theorem one_le_bucketSeconds (q : Query) : 1 ≤ q.bucketSeconds :=
  Int.le_max_right _ _

theorem bucketSeconds_pos (q : Query) : 0 < q.bucketSeconds :=
  q.one_le_bucketSeconds

/-- The first second of the bucket that the range begins in. -/
def firstBucket (q : Query) : Int :=
  Bucket.start q.bucketSeconds q.start

/-- The point of a bucket, where the selector has a value. -/
def pointOf (selector : Selector) : Int × List Float → Option Point := fun (start, values) => do
  let time ← Instant.ofSeconds? start
  let value ← selector.apply values
  return ⟨time, value⟩

theorem grouped_eq (q : Query) (selector : Selector) (f : Filter) (raw : List Point) :
    q.grouped selector f raw =
      (Bucket.ofPoints raw (q.rawStart f) q.stop q.bucketSeconds).filterMap (pointOf selector) := rfl

theorem pointOf_eq_some_iff {b : Int × List Float} {p : Point} : pointOf selector b = some p ↔
    p.time.nanos = b.1 * nanosPerSecond ∧ selector.apply b.2 = some p.value := by
  constructor
  · intro h
    obtain ⟨t, ht, h⟩ := Option.bind_eq_some_iff.mp h
    obtain ⟨v, hv, h⟩ := Option.bind_eq_some_iff.mp h
    cases h
    exact ⟨Instant.ofSeconds?_eq_some.mp ht, hv⟩
  · rintro ⟨ht, hv⟩
    show (Instant.ofSeconds? b.1).bind _ = _
    rw [Instant.ofSeconds?_eq_some.mpr ht, Option.bind_some, hv]
    rfl

theorem seconds_of_pointOf {b : Int × List Float} {p : Point} (h : pointOf selector b = some p) :
    p.time.seconds = b.1 :=
  Instant.seconds_of_nanos (pointOf_eq_some_iff.mp h).1

/-- A point of one bucket each, where the selector has a value. -/
theorem mem_grouped {p : Point} (h : p ∈ q.grouped selector f raw) :
    ∃ s vs, (s, vs) ∈ Bucket.ofPoints raw (q.rawStart f) q.stop q.bucketSeconds ∧
      p.time.nanos = s * nanosPerSecond ∧ selector.apply vs = some p.value := by
  rw [grouped_eq] at h
  obtain ⟨⟨s, vs⟩, hmem, hs⟩ := List.mem_filterMap.mp h
  exact ⟨s, vs, hmem, pointOf_eq_some_iff.mp hs⟩

/-- Buckets in order make points in order. -/
theorem ascending_filterMap_pointOf {buckets : List (Int × List Float)}
    (h : Bucket.Ascending buckets) (selector : Selector) :
    (Series.times (buckets.filterMap (pointOf selector))).Pairwise (· < ·) := by
  refine List.pairwise_map.mpr (h.filterMap _ ?_)
  intro b c hlt p hp r hr
  rw [Instant.lt_def, (pointOf_eq_some_iff.mp hp).1, (pointOf_eq_some_iff.mp hr).1]
  exact Int.mul_lt_mul_of_pos_right hlt (by decide)

theorem ascending_grouped (q : Query) (selector : Selector) (f : Filter) (raw : List Point) :
    (q.grouped selector f raw).times.Pairwise (· < ·) :=
  ascending_filterMap_pointOf Bucket.ascending_ofPoints selector

theorem meets_of_mem_grouped (h : t ∈ (q.grouped selector f raw).times) :
    Bucket.Meets q.bucketSeconds (q.rawStart f) q.stop t := by
  obtain ⟨p, hp, rfl⟩ := List.mem_map.mp h
  obtain ⟨s, vs, hmem, htime, -⟩ := mem_grouped hp
  obtain ⟨r, -, hearliest, hlatest, hstart⟩ := Bucket.exists_mem_ofPoints_iff.mp ⟨vs, hmem⟩
  rw [Int.max_eq_left q.one_le_bucketSeconds] at hstart
  exact ⟨r.time, hearliest, hlatest, by rw [htime, hstart]⟩

/-- A series is made of one point per bucket, by the transformation if there is one. -/
theorem unlimited_cases (h : q.unlimited f raw = .ok series) :
    ∃ selector, f.selector? = .ok selector ∧
      ((f.transformation? = .ok none ∧ series = q.grouped selector f raw) ∨
        ∃ transformation, f.transformation? = .ok (some transformation) ∧
          series = (transformation.apply (q.grouped selector f raw) f.param).filter
            fun p => Bucket.start q.bucketSeconds q.start ≤ p.time.seconds) := by
  unfold unlimited at h
  cases hselector : f.selector? with
  | error cause =>
    rw [hselector] at h
    cases h
  | ok selector =>
    refine ⟨selector, rfl, ?_⟩
    rw [hselector] at h
    cases htransformation : f.transformation? with
    | error cause =>
      rw [htransformation] at h
      cases h
    | ok transformation =>
      rw [htransformation] at h
      cases transformation with
      | none =>
        cases h
        exact .inl ⟨rfl, rfl⟩
      | some transformation =>
        cases h
        exact .inr ⟨transformation, rfl, rfl⟩

/-- The series has times of buckets, each with as many buckets before it as its output needs. -/
theorem times_unlimited_sublist (h : q.unlimited f raw = .ok series) :
    ∃ selector, f.selector? = .ok selector ∧
      series.times.Sublist ((q.grouped selector f raw).times.drop f.before) := by
  obtain ⟨selector, hselector, ⟨hnone, rfl⟩ | ⟨transformation, hsome, rfl⟩⟩ := unlimited_cases h
  · refine ⟨selector, hselector, ?_⟩
    rw [Filter.before, hnone]
    exact .refl _
  · refine ⟨selector, hselector, ?_⟩
    have hkept := (List.filter_sublist (l := transformation.apply (q.grouped selector f raw) f.param)
      (p := fun p => Bucket.start q.bucketSeconds q.start ≤ p.time.seconds)).map fun p => p.time
    rw [Filter.before, hsome]
    exact hkept.trans (transformation.times_apply_sublist _ _)

theorem ascending_unlimited (h : q.unlimited f raw = .ok series) :
    series.times.Pairwise (· < ·) := by
  obtain ⟨selector, -, hsub⟩ := times_unlimited_sublist h
  exact (ascending_grouped q selector f raw).sublist (hsub.trans (List.drop_sublist _ _))

theorem rawStart_of_lookback_eq_zero (h : f.lookback = 0) : q.rawStart f = q.start := by
  refine Instant.back_of_nanos_eq_zero ?_
  rw [h]
  rfl

/-- The points of a series lie in buckets that the range of its filter meets, none before the first
bucket of the query. -/
theorem mem_unlimited (h : q.unlimited f raw = .ok series) (ht : t ∈ series.times) :
    Bucket.Meets q.bucketSeconds (q.rawStart f) q.stop t ∧
      q.firstBucket ≤ t.seconds := by
  obtain ⟨selector, -, ⟨hnone, rfl⟩ | ⟨transformation, hsome, rfl⟩⟩ := unlimited_cases h
  · have hmeets := meets_of_mem_grouped ht
    refine ⟨hmeets, ?_⟩
    have hlookback : f.lookback = 0 := by rw [Filter.lookback, hnone]
    rw [rawStart_of_lookback_eq_zero hlookback] at hmeets
    obtain ⟨u, hstart, -, htime⟩ := hmeets
    rw [Instant.seconds_of_nanos htime]
    exact Bucket.start_mono q.bucketSeconds_pos hstart
  · obtain ⟨p, hp, rfl⟩ := List.mem_map.mp ht
    obtain ⟨hp, hfirst⟩ := List.mem_filter.mp hp
    have hgrouped := (transformation.times_apply_sublist (q.grouped selector f raw) f.param).subset
      (List.mem_map_of_mem hp)
    exact ⟨meets_of_mem_grouped (List.mem_of_mem_drop hgrouped), of_decide_eq_true hfirst⟩

/-- The points of a series lie in buckets that meet the range of the query. -/
theorem meets_of_mem_unlimited (hrange : q.start ≤ q.stop) (h : q.unlimited f raw = .ok series)
    (ht : t ∈ series.times) : Bucket.Meets q.bucketSeconds q.start q.stop t := by
  obtain ⟨hmeets, hfirst⟩ := mem_unlimited h ht
  exact Bucket.meets_of_start_le q.bucketSeconds_pos hrange hmeets hfirst

end Query

end Vigil
