import Vigil.Proofs.Series.Filled
import Vigil.Proofs.Series.Lookback
import Vigil.Proofs.Series.Planning

/-!
# How far an answer reaches back

An answer keeps the last buckets of its range, as many as the query's limit. A bucket lasts the whole
seconds of the interval, while the interval is an exact part of the range: so many buckets may be shorter
than the range, and then the answer begins late. When every second of the range has a point, where an
answer begins follows from its end alone: it is the start of the first bucket that is kept, or the
beginning of the range when there are fewer buckets.
-/

namespace Vigil

/-- The members of an ascending list from some point on are its last ones. -/
theorem Instant.lastOf_eq_filter {times : List Instant} {p : Instant → Bool} {n : Nat}
    (hascending : times.Pairwise (· < ·)) (hup : ∀ t u : Instant, t < u → p t = true → p u = true)
    (hlength : (times.filter p).length = n) : Query.lastOf n times = times.filter p := by
  have hall : Query.lastOf n (times.filter p) = times.filter p := by
    rw [Query.lastOf, hlength, Nat.sub_self, List.drop_zero]
  rw [← hall]
  refine (Query.lastOf_of_sublist hascending.nodup List.filter_sublist fun t ht => ?_).symm
  obtain ⟨hmem, hfew⟩ := (mem_lastOf_iff hascending).mp ht
  refine List.mem_filter.mpr ⟨hmem, ?_⟩
  by_contra hp
  have hlater : laterIn (times.filter p) t = n := by
    refine (List.countP_eq_length.mpr fun u hu => decide_eq_true ?_).trans hlength
    have hpu := (List.mem_filter.mp hu).2
    rcases Int.lt_trichotomy t.nanos u.nanos with hlt | heq | hgt
    · exact hlt
    · exact absurd hpu (ext heq ▸ hp)
    · exact absurd (hup u t hgt hpu) hp
  have hle : laterIn (times.filter p) t ≤ laterIn times t := List.filter_sublist.countP_le
  omega

namespace Bucket

variable {interval bound : Int} {earliest latest t : Instant} {n : Nat}

theorem mem_slots_bounds (hinterval : 0 < interval) (hrange : earliest ≤ latest)
    (h : t ∈ slots interval earliest latest) :
    start interval earliest * nanosPerSecond ≤ t.nanos ∧
      t.nanos ≤ start interval latest * nanosPerSecond := by
  obtain ⟨u, hearliest, hlatest, htime⟩ := (mem_slots_iff hinterval hrange).mp h
  rw [htime]
  exact ⟨Int.mul_le_mul_of_nonneg_right (start_mono hinterval hearliest) (by decide),
    Int.mul_le_mul_of_nonneg_right (start_mono hinterval hlatest) (by decide)⟩

/-- The start of a bucket lies in it. -/
theorem start_of_nanos (hinterval : 0 < interval) {k : Int}
    (h : t.nanos = k * interval * nanosPerSecond) : start interval t = k * interval := by
  rw [start, Instant.seconds_of_nanos h, Int.mul_ediv_cancel _ hinterval.ne']

theorem length_slots_le (interval : Int) (earliest latest : Instant) :
    (slots interval earliest latest).length ≤
      (latest.seconds / interval - earliest.seconds / interval + 1).toNat := by
  rw [← length_starts]
  exact List.length_filterMap_le _ _

/-- A range that begins with a bucket has a slot for each bucket. -/
theorem length_slots_of_start (hinterval : 0 < interval) (hrange : earliest ≤ latest)
    (h : earliest.nanos = start interval earliest * nanosPerSecond) :
    (slots interval earliest latest).length =
      (latest.seconds / interval - earliest.seconds / interval + 1).toNat := by
  rw [← length_starts, slots, List.length_filterMap_eq_countP, List.countP_eq_length]
  intro s hs
  obtain ⟨u, hearliest, hlatest, rfl⟩ := (mem_starts_iff hinterval hrange).mp hs
  have hlow : earliest.nanos ≤ start interval u * nanosPerSecond := by
    rw [h]
    exact Int.mul_le_mul_of_nonneg_right (start_mono hinterval hearliest) (by decide)
  have htime : Instant.ofSeconds? (start interval u) = some ⟨start interval u * nanosPerSecond,
      earliest.first_le.trans hlow, (nanos_start_le hinterval u).trans u.le_last⟩ :=
    Instant.ofSeconds?_eq_some.mpr rfl
  rw [htime]
  rfl

/-- Of a range with few buckets all slots are among the last ones. -/
theorem lastOf_slots_of_few (hinterval : 0 < interval)
    (h : start interval latest - (n - 1) * interval ≤ start interval earliest) :
    Query.lastOf n (slots interval earliest latest) = slots interval earliest latest := by
  have hcount : latest.seconds / interval - (n - 1) ≤ earliest.seconds / interval := by
    rw [start, start, ← Int.sub_mul] at h
    exact Int.le_of_mul_le_mul_right h hinterval
  have hlength := length_slots_le interval earliest latest
  rw [Query.lastOf, show (slots interval earliest latest).length - n = 0 by omega, List.drop_zero]

/-- Of a range with many buckets the last slots are those of a range that begins with a bucket. -/
theorem exists_lastOf_slots (hinterval : 0 < interval) (hn : 1 ≤ n)
    (h : start interval earliest < start interval latest - (n - 1) * interval) :
    ∃ u : Instant, u.nanos = (start interval latest - (n - 1) * interval) * nanosPerSecond ∧
      start interval u * nanosPerSecond = u.nanos ∧ u ≤ latest ∧
      Query.lastOf n (slots interval earliest latest) = slots interval u latest := by
  have hfactor : start interval latest - (n - 1) * interval =
      (latest.seconds / interval - (n - 1)) * interval := (Int.sub_mul _ _ _).symm
  have hnext : earliest.seconds / interval + 1 ≤ latest.seconds / interval - (n - 1) := by
    rw [hfactor] at h
    exact Int.lt_of_mul_lt_mul_right h hinterval.le
  generalize hkept : start interval latest - (n - 1) * interval = kept at h hfactor ⊢
  have hearliest : earliest.nanos < kept * nanosPerSecond := by
    refine (nanos_lt_start_add hinterval earliest).trans_le
      (Int.mul_le_mul_of_nonneg_right ?_ (by decide))
    have hle := Int.mul_le_mul_of_nonneg_right hnext hinterval.le
    rwa [Int.add_mul, Int.one_mul, ← hfactor] at hle
  have hlatest : kept * nanosPerSecond ≤ latest.nanos := by
    refine (Int.mul_le_mul_of_nonneg_right ?_ (by decide)).trans (nanos_start_le hinterval latest)
    have hback : 0 ≤ ((n : Int) - 1) * interval := Int.mul_nonneg (by omega) hinterval.le
    omega
  obtain ⟨u, hu⟩ : ∃ u : Instant, u.nanos = kept * nanosPerSecond :=
    ⟨⟨_, earliest.first_le.trans hearliest.le, hlatest.trans latest.le_last⟩, rfl⟩
  have hstart : start interval u = kept := by
    rw [hfactor] at hu ⊢
    exact start_of_nanos hinterval hu
  have hquotient : u.seconds / interval = latest.seconds / interval - (n - 1) :=
    Int.eq_of_mul_eq_mul_right hinterval.ne' (hstart.trans hfactor)
  have hrange : u ≤ latest := hu.le.trans hlatest
  have hfilter := slots_filter hinterval (show earliest ≤ u from hearliest.le.trans hu.ge) hrange
  refine ⟨u, hu, by rw [hstart, hu], hrange, ?_⟩
  rw [← hfilter]
  refine Instant.lastOf_eq_filter (ascending_slots hinterval earliest latest) ?_ ?_
  · intro t v hlt ht
    have hseconds : t.seconds ≤ v.seconds := Int.ediv_le_ediv (by decide) (Int.le_of_lt hlt)
    exact decide_eq_true ((of_decide_eq_true ht).trans hseconds)
  · rw [hfilter, length_slots_of_start hinterval hrange (by rw [hstart, hu]), hquotient]
    omega

/-- A range that ends late enough for a slot has one by the end of its first whole interval. -/
theorem exists_slot_le (hinterval : 0 < interval) (hrange : earliest ≤ latest)
    (h : firstSecond ≤ start interval latest) :
    ∃ t ∈ slots interval earliest latest, t.nanos ≤ earliest.nanos + interval * nanosPerSecond := by
  have hbegin := nanos_start_le hinterval earliest
  have hpositive : 0 < interval * nanosPerSecond := Int.mul_pos hinterval (by decide)
  by_cases hwhole : firstSecond ≤ start interval earliest
  · have hlow : firstNano ≤ start interval earliest * nanosPerSecond :=
      Int.mul_le_mul_of_nonneg_right hwhole (by decide)
    refine ⟨⟨start interval earliest * nanosPerSecond, hlow, hbegin.trans earliest.le_last⟩, ?_, ?_⟩
    · exact (mem_slots_iff hinterval hrange).mpr ⟨earliest, Int.le_refl _, hrange, rfl⟩
    · show start interval earliest * nanosPerSecond ≤ _
      omega
  · -- the bucket that the range begins in starts before the first of all times, the next one does not
    have hnext : start interval earliest + interval ≤ start interval latest :=
      (start_eq_or_add_le hinterval hrange).resolve_left (by omega)
    have hlow := nanos_lt_start_add hinterval earliest
    have hhigh : (start interval earliest + interval) * nanosPerSecond ≤ latest.nanos :=
      (Int.mul_le_mul_of_nonneg_right hnext (by decide)).trans (nanos_start_le hinterval latest)
    obtain ⟨t, ht⟩ : ∃ t : Instant, t.nanos = (start interval earliest + interval) * nanosPerSecond :=
      ⟨⟨_, earliest.first_le.trans hlow.le, hhigh.trans latest.le_last⟩, rfl⟩
    have hstart : start interval t = start interval earliest + interval := by
      rw [start_add_eq] at ht ⊢
      exact start_of_nanos hinterval ht
    refine ⟨t, (mem_slots_iff hinterval hrange).mpr ⟨t, ?_, ?_, by rw [hstart, ht]⟩, ?_⟩
    · exact hlow.le.trans ht.ge
    · exact ht.le.trans hhigh
    · rw [ht, Int.add_mul]
      omega

/-- Where a range has a slot, its last bucket starts at an instant. -/
theorem firstSecond_le_start (hinterval : 0 < interval) (hrange : earliest ≤ latest)
    (h : t ∈ slots interval earliest latest) : firstSecond ≤ start interval latest :=
  Int.le_of_mul_le_mul_right (t.first_le.trans (mem_slots_bounds hinterval hrange h).2) (by decide)

/-- The last slots begin in time when the earliest bucket among them does. -/
theorem exists_lastOf_slots_le_iff (hinterval : 0 < interval) (hrange : earliest ≤ latest) (hn : 1 ≤ n)
    (hbound : earliest.nanos + interval * nanosPerSecond ≤ bound) :
    (∃ t ∈ Query.lastOf n (slots interval earliest latest), t.nanos ≤ bound) ↔
      firstSecond ≤ start interval latest ∧
        (start interval latest - (n - 1) * interval) * nanosPerSecond ≤ bound := by
  by_cases hfew : start interval latest - (n - 1) * interval ≤ start interval earliest
  · have hkept : (start interval latest - (n - 1) * interval) * nanosPerSecond ≤ earliest.nanos :=
      (Int.mul_le_mul_of_nonneg_right hfew (by decide)).trans (nanos_start_le hinterval earliest)
    have hpositive : 0 < interval * nanosPerSecond := Int.mul_pos hinterval (by decide)
    rw [lastOf_slots_of_few hinterval hfew, and_iff_left (by omega)]
    constructor
    · rintro ⟨t, ht, -⟩
      exact firstSecond_le_start hinterval hrange ht
    · intro hslot
      obtain ⟨t, ht, hle⟩ := exists_slot_le hinterval hrange hslot
      exact ⟨t, ht, hle.trans hbound⟩
  · obtain ⟨u, hu, hstart, hlatest, hlast⟩ := exists_lastOf_slots hinterval hn (Int.not_le.mp hfew)
    have hslot : u ∈ slots interval u latest :=
      (mem_slots_iff hinterval hlatest).mpr ⟨u, Int.le_refl _, hlatest, hstart.symm⟩
    rw [hlast, and_iff_right (firstSecond_le_start hinterval hlatest hslot), ← hu]
    constructor
    · rintro ⟨t, ht, hle⟩
      exact (hstart.ge.trans (mem_slots_bounds hinterval hlatest ht).1).trans hle
    · exact fun hle => ⟨u, hslot, hle⟩

end Bucket

/-- The first point of a series is there by a time. -/
def Series.BeginsBy (series : Series) (nanos : Int) : Prop :=
  ∃ p ∈ series.head?, p.time.nanos ≤ nanos

theorem Series.beginsBy_iff {series : Series} (h : series.times.Pairwise (· < ·)) {nanos : Int} :
    series.BeginsBy nanos ↔ ∃ t ∈ series.times, t.nanos ≤ nanos := by
  cases series with
  | nil => exact iff_of_false (by rintro ⟨p, ⟨⟩, -⟩) (by rintro ⟨t, ht, -⟩; cases ht)
  | cons p rest =>
    obtain ⟨hfirst, -⟩ := List.pairwise_cons.mp h
    constructor
    · rintro ⟨q, hq, hle⟩
      cases hq
      exact ⟨p.time, List.mem_cons_self, hle⟩
    · rintro ⟨t, ht, hle⟩
      refine ⟨p, rfl, ?_⟩
      rcases List.mem_cons.mp ht with rfl | ht
      · exact hle
      · exact (Int.le_of_lt (hfirst t ht)).trans hle

namespace Query

variable {q : Query} {f : Filter} {raw : List Point} {selector : Selector} {series : Series}

def EverySecond (q : Query) (raw : List Point) : Prop :=
  ∀ s, q.start.seconds ≤ s → s ≤ q.stop.seconds →
    ∃ p ∈ raw, p.time.seconds = s ∧ q.start ≤ p.time ∧ p.time ≤ q.stop

/-- Then every slot has an input. -/
theorem times_grouped_of_everySecond (hrange : q.start ≤ q.stop) (hkind : selector ≠ .stddev)
    (hlookback : f.lookback = 0) (hraw : q.EverySecond raw) :
    (q.grouped selector f raw).times = q.slots := by
  have hbegin : q.rawStart f = q.start := rawStart_of_lookback_eq_zero hlookback
  refine (ascending_grouped q selector f raw).eq_of_mem_iff
    (Bucket.ascending_slots q.bucketSeconds_pos _ _) fun t => ?_
  rw [slots, Bucket.mem_slots_iff q.bucketSeconds_pos hrange]
  constructor
  · intro ht
    rw [← hbegin]
    exact meets_of_mem_grouped ht
  · rintro ⟨u, hearliest, hlatest, htime⟩
    obtain ⟨p, hp, hseconds, hstart, hstop⟩ := hraw u.seconds
      (Int.ediv_le_ediv (by decide) hearliest) (Int.ediv_le_ediv (by decide) hlatest)
    have hbucket : Bucket.start (max q.bucketSeconds 1) p.time = Bucket.start q.bucketSeconds u := by
      rw [Int.max_eq_left q.one_le_bucketSeconds, Bucket.start, hseconds, Bucket.start]
    obtain ⟨vs, hvs⟩ := Bucket.exists_mem_ofPoints_iff.mpr
      ⟨p, hp, hbegin.symm ▸ hstart, hstop, hbucket⟩
    obtain ⟨value, hvalue⟩ := Selector.exists_apply hkind (Bucket.mem_ofPoints_iff.mp hvs).1
    refine List.mem_map.mpr ⟨⟨t, value⟩, ?_, rfl⟩
    rw [grouped_eq]
    exact List.mem_filterMap.mpr ⟨_, hvs, pointOf_eq_some_iff.mpr ⟨htime, hvalue⟩⟩

theorem exists_answer_of_everySecond (hrange : q.start ≤ q.stop) (hselector : f.selector? = .ok selector)
    (hsimple : f.transformation? = .ok none) (hkind : selector ≠ .stddev) (hraw : q.EverySecond raw) :
    ∃ series, q.answer f raw = .ok series ∧ series.times = lastOf q.limit q.slots := by
  have hlookback : f.lookback = 0 := by rw [Filter.lookback, hsimple]
  refine ⟨lastOf q.limit (q.grouped selector f raw), ?_, ?_⟩
  · rw [answer, unlimited, hselector, hsimple]
    rfl
  · rw [Batch.times_lastOf, times_grouped_of_everySecond hrange hkind hlookback hraw]

/-- The start of the bucket that the range ends in. -/
def lastBucket (q : Query) : Int :=
  Bucket.start q.bucketSeconds q.stop

/-- The start of the earliest of as many buckets as the limit up to the end of the range. -/
def keptBucket (q : Query) : Int :=
  q.lastBucket - (q.limit - 1) * q.bucketSeconds

/-- The kept buckets begin by as much before the end of the range as they last, less one. -/
theorem keptBucket_le (q : Query) : q.keptBucket * nanosPerSecond ≤
    q.stop.nanos - (q.limit - 1) * (q.bucketSeconds * nanosPerSecond) := by
  have hlast : q.lastBucket * nanosPerSecond ≤ q.stop.nanos :=
    Bucket.nanos_start_le q.bucketSeconds_pos q.stop
  rw [keptBucket, Int.sub_mul, Int.mul_assoc]
  omega

/-- A bucket is shorter than the interval by less than a second, unless the interval is longer than all
time. -/
theorem interval_lt_or_le (q : Query) :
    q.interval.nanos < q.bucketSeconds * nanosPerSecond + nanosPerSecond ∨
      lastNano - firstNano ≤ q.interval.nanos := by
  have hmax : lastNano - firstNano ≤ maxIntervalSeconds * nanosPerSecond := by decide
  simp only [bucketSeconds, Span.seconds, nanosPerSecond] at hmax ⊢
  omega

/-- For each further point the kept buckets begin less than a second later than the intervals would. -/
theorem keptBucket_le_of_span_lt (hlimit : 1 ≤ q.limit)
    (hspan : q.stop.nanos - q.start.nanos < q.limit * (q.interval.nanos + 1)) :
    q.keptBucket * nanosPerSecond ≤
      q.start.nanos + q.interval.nanos + (q.limit - 1) * nanosPerSecond := by
  have hkept := q.keptBucket_le
  have hfurther : (0 : Int) ≤ q.limit - 1 := by omega
  rcases q.interval_lt_or_le with hshort | hlong
  · have hlost := Int.mul_le_mul_of_nonneg_left (Int.add_one_le_of_lt hshort) hfurther
    rw [Int.mul_add (q.limit - 1) (q.bucketSeconds * nanosPerSecond)] at hlost
    have hsplit : (q.limit : Int) * (q.interval.nanos + 1) =
        (q.limit - 1) * (q.interval.nanos + 1) + (q.interval.nanos + 1) := by
      rw [Int.sub_mul, Int.one_mul]
      omega
    omega
  · have hpast := Int.mul_nonneg hfurther
      (Int.mul_nonneg q.bucketSeconds_pos.le (show 0 ≤ (nanosPerSecond : Int) by decide))
    have hdelay := Int.mul_nonneg hfurther (show 0 ≤ (nanosPerSecond : Int) by decide)
    have hfirst := q.start.first_le
    have hlast := q.stop.le_last
    omega

/-- When an answer has a point by a time, one that is not before the end of the first interval. -/
theorem beginsBy_iff (hrange : q.start ≤ q.stop) (hlimit : 1 ≤ q.limit)
    (hinterval : Span.ofSeconds 1 ≤ q.interval) (htimes : series.times = lastOf q.limit q.slots)
    {nanos : Int} (hnanos : q.start.nanos + q.interval.nanos ≤ nanos) :
    series.BeginsBy nanos ↔
      firstSecond ≤ q.lastBucket ∧ q.keptBucket * nanosPerSecond ≤ nanos := by
  have hascending : series.times.Pairwise (· < ·) := by
    rw [htimes]
    exact (Bucket.ascending_slots q.bucketSeconds_pos _ _).sublist (List.drop_sublist _ _)
  have hwidth := bucketSeconds_nanos_le hinterval
  rw [Series.beginsBy_iff hascending, htimes, keptBucket, lastBucket]
  exact Bucket.exists_lastOf_slots_le_iff q.bucketSeconds_pos hrange hlimit (by omega)

end Query

namespace Reader

variable {r : Reader} {source : Source} {filters : List Filter} {start stop now : Instant} {n : Nat}
  {q : Query} {f : Filter} {raw : List Point} {selector : Selector}

/-- Over a range with a point in every second the answer to a planned query holds the last slots. It
begins by the end of the first interval just when the kept buckets reach so far, and so when together they
last as long as the range. At worst it begins a second later for every further point. -/
theorem planned_answer_reaches (hplan : r.plan source filters start stop n now = .ok q) (hn : 1 ≤ n)
    (hselector : f.selector? = .ok selector) (hsimple : f.transformation? = .ok none)
    (hkind : selector ≠ .stddev) (hraw : q.EverySecond raw) :
    ∃ series, q.answer f raw = .ok series ∧ series.times = Query.lastOf q.limit q.slots ∧
      (series.BeginsBy (start.nanos + q.interval.nanos) ↔ firstSecond ≤ q.lastBucket ∧
        q.keptBucket * nanosPerSecond ≤ start.nanos + q.interval.nanos) ∧
      (firstSecond ≤ q.lastBucket →
        stop.nanos - start.nanos ≤ q.limit * (q.bucketSeconds * nanosPerSecond) →
        series.BeginsBy (start.nanos + q.interval.nanos)) ∧
      (firstSecond ≤ q.lastBucket →
        series.BeginsBy (start.nanos + q.interval.nanos + (q.limit - 1) * nanosPerSecond)) := by
  obtain ⟨rfl, rfl, hrange, hlimit, hinterval, hspan⟩ := plans hplan hn
  obtain ⟨series, hanswer, htimes⟩ :=
    Query.exists_answer_of_everySecond hrange hselector hsimple hkind hraw
  refine ⟨series, hanswer, htimes, ?_, ?_, ?_⟩
  · exact Query.beginsBy_iff hrange hlimit hinterval htimes (Int.le_refl _)
  · intro hslot hlong
    refine (Query.beginsBy_iff hrange hlimit hinterval htimes (Int.le_refl _)).mpr ⟨hslot, ?_⟩
    have hkept := q.keptBucket_le
    have hwidth := Query.bucketSeconds_nanos_le hinterval
    rw [Int.sub_mul, Int.one_mul] at hkept
    omega
  · intro hslot
    have hdelay := Int.mul_nonneg (show (0 : Int) ≤ q.limit - 1 by omega)
      (show 0 ≤ (nanosPerSecond : Int) by decide)
    exact (Query.beginsBy_iff hrange hlimit hinterval htimes (by omega)).mpr
      ⟨hslot, Query.keptBucket_le_of_span_lt hlimit hspan⟩

/-- The largest value. -/
def peak : Filter := ⟨"max", none, "t", none⟩

def ticksQuery (interval : Span) (limit : Nat) : Query where
  source := .group "g"
  filters := [peak]
  start := Query.second 0
  stop := Query.second 3
  interval := interval
  limit := limit
  retention := "1-day"

def ticks : List Point :=
  [⟨Query.second 0, 1.0⟩, ⟨Query.second 1, 2.0⟩, ⟨Query.second 2, 3.0⟩, ⟨Query.second 3, 4.0⟩]

theorem everySecond_ticks (interval : Span) (limit : Nat) :
    (ticksQuery interval limit).EverySecond ticks := by
  have hrange : ∀ p ∈ ticks, Query.second 0 ≤ p.time ∧ p.time ≤ Query.second 3 := by decide
  intro s hstart hstop
  have hfirst : 0 ≤ s := hstart
  have hlast : s ≤ 3 := hstop
  have hseconds : s ∈ ticks.map fun p => p.time.seconds := by
    show s ∈ [0, 1, 2, 3]
    simp only [List.mem_cons, List.not_mem_nil, or_false]
    omega
  obtain ⟨p, hp, rfl⟩ := List.mem_map.mp hseconds
  exact ⟨p, hp, rfl, hrange p hp⟩

/-- Three buckets of a second last as long as the range. -/
theorem planned_thirds_reach :
    (ofPolicies Policy.defaults).plan (.group "g") [peak] (Query.second 0) (Query.second 3) 3
        (Query.second 3) = .ok (ticksQuery (.ofSeconds 1) 3) ∧
      ∃ series, (ticksQuery (.ofSeconds 1) 3).answer peak ticks = .ok series ∧
        series.BeginsBy ((Query.second 0).nanos + 1000000000) := by
  have hplan : (ofPolicies Policy.defaults).plan (.group "g") [peak] (Query.second 0) (Query.second 3) 3
      (Query.second 3) = .ok (ticksQuery (.ofSeconds 1) 3) := rfl
  obtain ⟨series, hanswer, -, -, hreaches, -⟩ :=
    planned_answer_reaches hplan (by decide) (f := peak) rfl rfl (by decide) (everySecond_ticks _ _)
  exact ⟨hplan, series, hanswer, hreaches (by decide) (by decide)⟩

/-- Two buckets of a second are shorter than the range, so the first of the two halves is lost. -/
theorem planned_halves_late :
    (ofPolicies Policy.defaults).plan (.group "g") [peak] (Query.second 0) (Query.second 3) 2
        (Query.second 3) = .ok (ticksQuery (.ofMillis 1500) 2) ∧
      (ticksQuery (.ofMillis 1500) 2).EverySecond ticks ∧
      ∃ series, (ticksQuery (.ofMillis 1500) 2).answer peak ticks = .ok series ∧
        series.times = [Query.second 2, Query.second 3] ∧
        ¬ series.BeginsBy ((Query.second 0).nanos + (Span.ofMillis 1500).nanos) := by
  have hraw := everySecond_ticks (.ofMillis 1500) 2
  obtain ⟨series, hanswer, htimes⟩ :=
    Query.exists_answer_of_everySecond (f := peak) (by decide) rfl rfl (by decide) hraw
  refine ⟨rfl, hraw, series, hanswer, htimes.trans (by decide), fun hbegins => ?_⟩
  have hkept := ((Query.beginsBy_iff (by decide) (by decide) (by decide) htimes (Int.le_refl _)).mp
    hbegins).2
  exact absurd hkept (by decide)

end Reader

end Vigil
