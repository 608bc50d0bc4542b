import Vigil.Proofs.Series.Trimming

/-!
# Looking back

A transformation other than the sum so far makes each output of a few inputs that stand together, so its
outputs from a second on need only the inputs that the first of them reaches back to. A query reads that
many intervals further back. What it reads may begin inside a bucket, or some buckets too early when the
interval is no whole number of seconds: as long as each bucket of the lookback has a value, the answer is
the end of the series that the transformation makes of all points.
-/

namespace Vigil

namespace Transformation

variable {transformation : Transformation} {series : Series} {param : Option Int}

/-- One more point before a series adds an output for the pair that it begins. -/
theorem filterMap_neighbours_cons {make : Point × Point → Option Point}
    (hmake : ∀ a b o, make (a, b) = some o → o.time = b.time) (p : Point) (rest : Series) :
    ∃ early : Option Point, (neighbours (p :: rest)).filterMap make =
        early.toList ++ (neighbours rest).filterMap make ∧
      ∀ o ∈ early, o.time ∈ (Series.times (p :: rest)).take 2 := by
  cases rest with
  | nil => exact ⟨none, rfl, fun o ho => absurd ho (Option.not_mem_none o)⟩
  | cons b rest =>
    refine ⟨make (p, b), ?_, ?_⟩
    · show ((p, b) :: neighbours (b :: rest)).filterMap make = _
      rw [List.filterMap_cons]
      cases make (p, b) <;> rfl
    · intro o ho
      rw [hmake p b o ho]
      exact List.mem_cons_of_mem _ List.mem_cons_self

theorem windows_of_short {n : Nat} (h : series.length < n) : windows n series = [] := by
  cases series with
  | nil => rfl
  | cons p rest => rw [windows, if_pos h]

/-- One more point before a series adds an output for the run that it begins. -/
theorem filterMap_windows_cons (n : Nat) (p : Point) (rest : Series) :
    ∃ early : Option Point, (windows n (p :: rest)).filterMap (mean? n) =
        early.toList ++ (windows n rest).filterMap (mean? n) ∧
      ∀ o ∈ early, o.time ∈ (Series.times (p :: rest)).take n := by
  rw [windows]
  split
  · rename_i hshort
    have hrest : rest.length < n := (Nat.lt_succ_self _).trans hshort
    exact ⟨none, by rw [windows_of_short hrest]; rfl, fun o ho => absurd ho (Option.not_mem_none o)⟩
  · refine ⟨mean? n ((p :: rest).take n), ?_, ?_⟩
    · rw [List.filterMap_cons]
      cases mean? n ((p :: rest).take n) <;> rfl
    · intro o ho
      obtain ⟨last, hlast, rfl⟩ := Option.map_eq_some_iff.mp ho
      rw [Series.times, ← List.map_take]
      exact List.mem_map.mpr ⟨last, List.mem_of_getLast? hlast, rfl⟩

/-- One more point before a series adds at most one output, among its first points, unless sums are
formed. -/
theorem apply_cons (h : transformation ≠ cumulativeSum) (param : Option Int) (p : Point)
    (rest : Series) :
    ∃ early : Option Point,
      transformation.apply (p :: rest) param = early.toList ++ transformation.apply rest param ∧
      ∀ o ∈ early, o.time ∈ (Series.times (p :: rest)).take (transformation.before param + 1) := by
  cases transformation with
  | derivative => exact filterMap_neighbours_cons (fun a b o ho => time_of_rate? ho) p rest
  | nonNegativeDerivative =>
    exact filterMap_neighbours_cons
      (fun a b o ho => time_of_rate? (Option.filter_eq_some_iff.mp ho).1) p rest
  | difference =>
    rw [apply, apply, ← List.filterMap_eq_map]
    refine filterMap_neighbours_cons (fun a b o ho => ?_) p rest
    cases ho
    rfl
  | movingAverage =>
    have hwidth : before movingAverage param + 1 = atLeastOne param 2 :=
      Nat.sub_add_cancel (one_le_atLeastOne param 2)
    rw [hwidth]
    exact filterMap_windows_cons (atLeastOne param 2) p rest
  | cumulativeSum => exact absurd rfl h

/-- Points before a series add outputs at their own times and at the first of the series. -/
theorem apply_append (h : transformation ≠ cumulativeSum) (param : Option Int)
    (front back : Series) :
    ∃ early, transformation.apply (front ++ back) param =
        early ++ transformation.apply back param ∧
      ∀ o ∈ early, o.time ∈ front.times ∨ o.time ∈ back.times.take (transformation.before param) := by
  induction front with
  | nil => exact ⟨[], rfl, fun o ho => absurd ho List.not_mem_nil⟩
  | cons p front ih =>
    obtain ⟨later, hlater, htimes⟩ := ih
    obtain ⟨early, hearly, hfirst⟩ := apply_cons h param p (front ++ back)
    refine ⟨early.toList ++ later, ?_, ?_⟩
    · rw [List.cons_append, hearly, hlater, List.append_assoc]
    · intro o ho
      rcases List.mem_append.mp ho with ho | ho
      · have hmem := hfirst o (Option.mem_toList.mp ho)
        rw [Series.times, List.map_cons, List.map_append, List.take_succ_cons,
          List.take_append] at hmem
        rcases List.mem_cons.mp hmem with heq | hmem
        · exact .inl (List.mem_cons.mpr (.inl heq))
        · rcases List.mem_append.mp hmem with hmem | hmem
          · exact .inl (List.mem_cons_of_mem _ (List.mem_of_mem_take hmem))
          · exact .inr ((List.take_subset_take_left _ (Nat.sub_le _ _)) hmem)
      · exact (htimes o ho).imp_left (List.mem_cons_of_mem _)

end Transformation

namespace Series

variable {series : Series} {bound : Int}

/-- The points from a second on. -/
def since (series : Series) (bound : Int) : Series :=
  series.filter fun p => bound ≤ p.time.seconds

/-- A series is its points before a second and those from it on. -/
theorem exists_before (h : series.times.Pairwise (· < ·)) (bound : Int) :
    ∃ early, series = early ++ series.since bound ∧ ∀ t ∈ early.times, t.seconds < bound := by
  induction series with
  | nil => exact ⟨[], rfl, fun t ht => absurd ht List.not_mem_nil⟩
  | cons p rest ih =>
    obtain ⟨hfirst, hrest⟩ := List.pairwise_cons.mp h
    by_cases hp : bound ≤ p.time.seconds
    · refine ⟨[], ?_, fun t ht => absurd ht List.not_mem_nil⟩
      rw [List.nil_append]
      refine (List.filter_eq_self.mpr ?_).symm
      intro q hq
      refine decide_eq_true ?_
      rcases List.mem_cons.mp hq with rfl | hq
      · exact hp
      · have hlt : p.time.nanos < q.time.nanos := hfirst _ (List.mem_map_of_mem hq)
        exact hp.trans (Int.ediv_le_ediv (by decide) hlt.le)
    · obtain ⟨early, heq, hearly⟩ := ih hrest
      refine ⟨p :: early, ?_, ?_⟩
      · rw [since, List.filter_cons_of_neg (by simpa using hp), List.cons_append]
        exact congrArg (p :: ·) heq
      · intro t ht
        rcases List.mem_cons.mp ht with rfl | ht
        · exact Int.not_le.mp hp
        · exact hearly t ht

/-- A series with points at `n` seconds before a bound begins with `n` points before it. -/
theorem take_times_lt (h : series.times.Pairwise (· < ·)) {seconds : List Int}
    (hnodup : seconds.Nodup)
    (hseconds : ∀ s ∈ seconds, s < bound ∧ ∃ t ∈ series.times, t.seconds = s) :
    ∀ t ∈ series.times.take seconds.length, t.seconds < bound := by
  obtain ⟨early, heq, hearly⟩ := exists_before h bound
  have hsplit : series.times = early.times ++ (series.since bound).times :=
    (congrArg times heq).trans List.map_append
  have hlength : seconds.length ≤ early.times.length := by
    rw [← List.length_map Instant.seconds]
    refine (List.subperm_of_subset hnodup fun s hs => ?_).length_le
    obtain ⟨hlt, t, ht, rfl⟩ := hseconds s hs
    rw [hsplit] at ht
    rcases List.mem_append.mp ht with ht | ht
    · exact List.mem_map_of_mem ht
    · obtain ⟨p, hp, rfl⟩ := List.mem_map.mp ht
      exact absurd (of_decide_eq_true (List.mem_filter.mp hp).2) (Int.not_le.mpr hlt)
  rw [hsplit, List.take_append_of_le_length hlength]
  exact fun t ht => hearly t (List.mem_of_mem_take ht)

end Series

/-- Outputs from a second on do not need the points that come before enough earlier ones. -/
theorem Transformation.since_apply_append {transformation : Transformation} {param : Option Int}
    {front back : Series} {bound : Int} (h : transformation ≠ .cumulativeSum)
    (hfront : ∀ t ∈ front.times, t.seconds < bound)
    (hback : ∀ t ∈ back.times.take (transformation.before param), t.seconds < bound) :
    (transformation.apply (front ++ back) param).since bound =
      (transformation.apply back param).since bound := by
  obtain ⟨early, hearly, htimes⟩ := apply_append h param front back
  have hnone : early.since bound = [] := by
    refine List.filter_eq_nil_iff.mpr fun o ho hkept => ?_
    refine absurd (of_decide_eq_true hkept) (Int.not_le.mpr ?_)
    exact (htimes o ho).elim (hfront _) (hback _)
  rw [hearly, Series.since, List.filter_append]
  exact congrArg (· ++ _) hnone

/-- Nor do they need anything before a bound that enough points stand behind. -/
theorem Transformation.since_apply_since {transformation : Transformation} {param : Option Int}
    {series : Series} {bound first : Int} (h : transformation ≠ .cumulativeSum)
    (hascending : series.times.Pairwise (· < ·)) (hle : bound ≤ first)
    (htake : ∀ t ∈ (Series.times (series.since bound)).take (transformation.before param),
      t.seconds < first) :
    (transformation.apply series param).since first =
      (transformation.apply (series.since bound) param).since first := by
  obtain ⟨early, heq, hearly⟩ := Series.exists_before hascending bound
  conv_lhs => rw [heq]
  exact since_apply_append h (fun t ht => (hearly t ht).trans_le hle) htake

/-- Within its bounds a parameter asks for as much lookback as the first output needs. -/
theorem Filter.lookback_eq_before {f : Filter} {transformation : Transformation}
    (htransformation : f.transformation? = .ok (some transformation))
    (hparam : ∀ p ∈ f.param, 1 ≤ p ∧ p ≤ 4294967296) :
    f.lookback = transformation.before f.param := by
  have hlookback : f.lookback = transformation.lookback f.param := by
    rw [Filter.lookback, htransformation]
  rw [hlookback, transformation.lookback_eq_min]
  refine Nat.min_eq_left ?_
  have hwidth : Transformation.atLeastOne f.param 2 ≤ 4294967296 := by
    unfold Transformation.atLeastOne
    cases hp : f.param with
    | none => decide
    | some p =>
      obtain ⟨-, hle⟩ := hparam p hp
      show (max p 1).toNat ≤ _
      omega
  rw [Transformation.maxLookback]
  cases transformation with
  | movingAverage =>
    show Transformation.atLeastOne f.param 2 - 1 ≤ _
    omega
  | _ => simp [Transformation.before]

namespace Query

variable {q : Query} {f : Filter} {raw : List Point} {selector : Selector}
  {transformation : Transformation}

/-- One point per bucket, of all points up to the end of the range. -/
def groupedAll (q : Query) (selector : Selector) (raw : List Point) : Series :=
  (Bucket.ofPoints raw .first q.stop q.bucketSeconds).filterMap (pointOf selector)

/-- Each of the buckets that a filter looks back on has a value. -/
def LooksBack (q : Query) (f : Filter) (selector : Selector) (raw : List Point) : Prop :=
  ∀ k : Nat, 1 ≤ k → k ≤ f.lookback → ∃ values,
    (q.firstBucket - k * q.bucketSeconds, values) ∈
      Bucket.ofPoints raw .first q.stop q.bucketSeconds ∧ (selector.apply values).isSome

theorem since_filterMap_pointOf (buckets : List (Int × List Float)) (bound : Int) :
    Series.since (buckets.filterMap (pointOf selector)) bound =
      (buckets.filter fun b => bound ≤ b.1).filterMap (pointOf selector) := by
  rw [Series.since, List.filter_filterMap, List.filterMap_filter]
  refine List.filterMap_congr fun b _ => ?_
  cases hp : pointOf selector b with
  | none => split <;> rfl
  | some p => rw [Option.filter_some, seconds_of_pointOf hp]

theorem bucketSeconds_nanos_le (hinterval : Span.ofSeconds 1 ≤ q.interval) :
    q.bucketSeconds * nanosPerSecond ≤ q.interval.nanos := by
  have hone : 1000000000 ≤ q.interval.nanos := hinterval
  simp only [bucketSeconds, Span.seconds, nanosPerSecond]
  omega

/-- The points of a filter are read from the first of all times on, or from as many buckets before the
range as the filter looks back. -/
theorem rawStart_cases (hinterval : Span.ofSeconds 1 ≤ q.interval)
    (hstart : q.start.nanos = q.firstBucket * nanosPerSecond) (f : Filter) :
    q.rawStart f = .first ∨
      (q.rawStart f).nanos ≤ (q.firstBucket - f.lookback * q.bucketSeconds) * nanosPerSecond := by
  have hwide : f.lookback * q.bucketSeconds * nanosPerSecond ≤
      (q.interval.nanos * f.lookback : Nat) := by
    have hle := Int.mul_le_mul_of_nonneg_left (bucketSeconds_nanos_le hinterval)
      (Int.natCast_nonneg f.lookback)
    rw [Int.mul_assoc, Nat.mul_comm, Int.natCast_mul]
    exact hle
  have hnanos : (q.rawStart f).nanos =
      max (q.start.nanos - (q.interval.times f.lookback).nanos) firstNano :=
    Instant.nanos_back q.start (q.interval.times f.lookback)
  have htimes : (q.interval.times f.lookback).nanos =
      min (q.interval.nanos * f.lookback) maxSpanNanos := rfl
  have hlast := q.start.le_last
  have hfirst : Instant.first.nanos = firstNano := rfl
  rcases Int.le_total (q.start.nanos - (q.interval.times f.lookback).nanos) firstNano with hle | hle
  · rw [Int.max_eq_right hle] at hnanos
    exact .inl (Instant.ext hnanos)
  · rw [Int.max_eq_left hle] at hnanos
    refine .inr ?_
    rw [hnanos, hstart, Int.sub_mul]
    have hmax : lastNano - maxSpanNanos < firstNano := by decide
    omega

/-- From the first bucket of the lookback on, the series of all points begins with a point in each bucket
of the lookback. -/
theorem take_since_lt {bound : Int} (hbound : bound = q.firstBucket - f.lookback * q.bucketSeconds)
    (hfirst : firstNano ≤ bound * nanosPerSecond)
    (hstart : q.start.nanos = q.firstBucket * nanosPerSecond)
    (hlookback : q.LooksBack f selector raw) :
    ∀ t ∈ (Series.times ((q.groupedAll selector raw).since bound)).take f.lookback,
      t.seconds < q.firstBucket := by
  have hwidth := q.bucketSeconds_pos
  have hascending : (Series.times ((q.groupedAll selector raw).since bound)).Pairwise (· < ·) := by
    rw [groupedAll, since_filterMap_pointOf]
    exact ascending_filterMap_pointOf (Bucket.ascending_ofPoints.filter _) selector
  have hcount : ((List.range f.lookback).map fun k : Nat =>
      q.firstBucket - (k + 1 : Nat) * q.bucketSeconds).length = f.lookback := by
    rw [List.length_map, List.length_range]
  rw [← hcount]
  refine Series.take_times_lt hascending ?_ ?_
  · refine List.Nodup.map ?_ List.nodup_range
    intro k l hkl
    have hsame : ((k + 1 : Nat) : Int) * q.bucketSeconds = (l + 1 : Nat) * q.bucketSeconds := by
      dsimp only at hkl
      omega
    have hsucc := Int.eq_of_mul_eq_mul_right hwidth.ne' hsame
    omega
  · intro s hs
    obtain ⟨k, hk, rfl⟩ := List.mem_map.mp hs
    rw [List.mem_range] at hk
    obtain ⟨values, hvalues, hvalue⟩ := hlookback (k + 1) (Nat.le_add_left 1 k) hk
    obtain ⟨value, hvalue⟩ := Option.isSome_iff_exists.mp hvalue
    have hpos := Int.mul_pos (show 0 < ((k + 1 : Nat) : Int) by omega) hwidth
    have hle : ((k + 1 : Nat) : Int) * q.bucketSeconds ≤ f.lookback * q.bucketSeconds :=
      Int.mul_le_mul_of_nonneg_right (Int.ofNat_le.mpr hk) hwidth.le
    generalize hs : q.firstBucket - (k + 1 : Nat) * q.bucketSeconds = s at hvalues ⊢
    obtain ⟨time, htime⟩ : ∃ time : Instant, time.nanos = s * nanosPerSecond := by
      have hlast := q.start.le_last
      rw [nanosPerSecond] at hfirst hstart
      refine ⟨⟨s * nanosPerSecond, ?_, ?_⟩, rfl⟩ <;> rw [nanosPerSecond] <;> omega
    refine ⟨by omega, time, ?_, Instant.seconds_of_nanos htime⟩
    rw [groupedAll, since_filterMap_pointOf]
    refine List.mem_map.mpr ⟨⟨time, value⟩, List.mem_filterMap.mpr ⟨(s, values), ?_, ?_⟩, rfl⟩
    · exact List.mem_filter.mpr ⟨hvalues, decide_eq_true (by omega)⟩
    · exact pointOf_eq_some_iff.mpr ⟨htime, hvalue⟩

/-- The lookback read for a transformation is enough: an answer is the end of the series that the
transformation makes of all points, as long as every bucket looked back on has a value. -/
theorem answer_eq_of_lookback (hselector : f.selector? = .ok selector)
    (htransformation : f.transformation? = .ok (some transformation))
    (hkind : transformation ≠ .cumulativeSum) (hparam : ∀ p ∈ f.param, 1 ≤ p ∧ p ≤ 4294967296)
    (hinterval : Span.ofSeconds 1 ≤ q.interval)
    (hstart : q.start.nanos = q.firstBucket * nanosPerSecond)
    (hlookback : q.LooksBack f selector raw) :
    q.answer f raw = .ok (lastOf q.limit
      ((transformation.apply (q.groupedAll selector raw) f.param).since q.firstBucket)) := by
  have hanswer : q.answer f raw = .ok (lastOf q.limit
      ((transformation.apply (q.grouped selector f raw) f.param).since q.firstBucket)) := by
    rw [answer, unlimited, hselector, htransformation]
    rfl
  rw [hanswer]
  rcases rawStart_cases hinterval hstart f with hfirst | hbefore
  · rw [groupedAll, ← hfirst]
    rfl
  · -- both series are the same from the first bucket of the lookback on
    generalize hbound : q.firstBucket - f.lookback * q.bucketSeconds = bound at hbefore
    have hfirst := (q.rawStart f).first_le.trans hbefore
    have hsame : (q.grouped selector f raw).since bound = (q.groupedAll selector raw).since bound := by
      rw [groupedAll, since_filterMap_pointOf, ← Bucket.ofPoints_filter hbefore hfirst,
        ← since_filterMap_pointOf]
      rfl
    have htake := take_since_lt hbound.symm hfirst hstart hlookback
    rw [Filter.lookback_eq_before htransformation hparam] at htake
    have hle : bound ≤ q.firstBucket := by
      have hwidth := Int.mul_nonneg (Int.natCast_nonneg f.lookback) q.bucketSeconds_pos.le
      omega
    have hall : (q.groupedAll selector raw).times.Pairwise (· < ·) :=
      ascending_filterMap_pointOf Bucket.ascending_ofPoints selector
    rw [Transformation.since_apply_since hkind (ascending_grouped q selector f raw) hle (hsame ▸ htake),
      hsame, ← Transformation.since_apply_since hkind hall hle htake]

/-- The mean of three minutes, on a grid of a minute and half a second. -/
def smooth : Filter := ⟨"mean", some "moving_average", "t", some 3⟩

/-- A query from the beginning of the fourth minute on. -/
def smoothQuery : Query where
  source := .group "g"
  filters := [smooth]
  start := second 180
  stop := second 320
  interval := .ofNanos 60500000000
  limit := 5
  retention := "1-day"

/-- The first minute is read in part, and the fifth has no value. -/
def smoothPoints : List Point :=
  [⟨second 30, 9.0⟩, ⟨second 59, 8.0⟩, ⟨second 70, 1.0⟩, ⟨second 130, 2.0⟩, ⟨second 190, 3.0⟩,
    ⟨second 310, 4.0⟩]

theorem looksBack_smooth : smoothQuery.LooksBack smooth .mean smoothPoints := by
  intro k hlow hhigh
  have hlookback : smooth.lookback = 2 := by decide
  rw [Bucket.ofPoints_of_pairwise (by decide)]
  obtain rfl | rfl : k = 1 ∨ k = 2 := by omega
  · exact ⟨[2.0], .tail _ (.tail _ (.head _)), rfl⟩
  · exact ⟨[1.0], .tail _ (.head _), rfl⟩

/-- Neither the part of the first minute nor the missing minute changes the answer. -/
theorem answer_of_smooth :
    smoothQuery.LooksBack smooth .mean smoothPoints ∧
      ∃ series, smoothQuery.answer smooth smoothPoints = .ok series ∧
        series.times = [second 180, second 300] ∧
        series = lastOf 5 ((Transformation.movingAverage.apply
          (smoothQuery.groupedAll .mean smoothPoints) (some 3)).since 180) := by
  have hselector : smooth.selector? = .ok .mean := rfl
  have htransformation : smooth.transformation? = .ok (some .movingAverage) := rfl
  have hanswer := answer_eq_of_lookback hselector htransformation (by decide) (by rintro p ⟨⟩; decide)
    (by decide) (by decide) looksBack_smooth
  refine ⟨looksBack_smooth, _, hanswer, ?_, rfl⟩
  rw [groupedAll, Bucket.ofPoints_of_pairwise (by decide)]
  rfl

end Query

end Vigil
