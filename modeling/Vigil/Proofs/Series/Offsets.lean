import Vigil.Proofs.Series.Filled
import Vigil.Proofs.Series.Lookback

/-!
# Where in a bucket a range begins

The range that a filter reads is the range of the query moved back by whole intervals; it is not rounded
to buckets. So two queries whose ranges begin in one bucket, each at its own offset, begin to read in one
bucket too, and each reads only its own part of it. All later buckets they read alike. A transformation
makes at most one output with the bucket that reading begins in, the first one; its other outputs are
those of both queries.
-/

namespace Vigil

namespace Bucket

variable {interval : Int} {t u : Instant} {s : Span}

/-- The start of the bucket that a nanosecond falls into. -/
def floor (interval n : Int) : Int :=
  n / nanosPerSecond / interval * interval

theorem start_eq_floor (interval : Int) (t : Instant) : start interval t = floor interval t.nanos :=
  rfl

theorem floor_le_floor (hinterval : 0 < interval) {n m : Int} (h : n ≤ m) :
    floor interval n ≤ floor interval m := by
  refine Int.mul_le_mul_of_nonneg_right ?_ hinterval.le
  exact Int.ediv_le_ediv hinterval (Int.ediv_le_ediv (by decide) h)

theorem floor_max (hinterval : 0 < interval) (n m : Int) :
    floor interval (max n m) = max (floor interval n) (floor interval m) := by
  rcases Int.le_total n m with h | h
  · rw [Int.max_eq_right h, Int.max_eq_right (floor_le_floor hinterval h)]
  · rw [Int.max_eq_left h, Int.max_eq_left (floor_le_floor hinterval h)]

theorem floor_sub_buckets (hinterval : 0 < interval) (n count : Int) :
    floor interval (n - count * interval * nanosPerSecond) = floor interval n - count * interval := by
  rw [floor, Int.sub_mul_ediv_right _ _ (by decide), Int.sub_mul_ediv_right _ _ hinterval.ne',
    Int.sub_mul]
  rfl

/-- Going back by whole buckets leads from one bucket to one bucket. -/
theorem start_back_eq (hinterval : 0 < interval) {count : Int}
    (hs : (s.nanos : Int) = count * interval * nanosPerSecond)
    (h : start interval t = start interval u) :
    start interval (t.back s) = start interval (u.back s) := by
  have hback : ∀ v : Instant, start interval (v.back s) =
      max (start interval v - count * interval) (floor interval firstNano) := by
    intro v
    rw [start_eq_floor, Instant.nanos_back, floor_max hinterval, hs,
      floor_sub_buckets hinterval, start_eq_floor]
  rw [hback, hback, h]

end Bucket

namespace Query

variable {q q' : Query} {f : Filter} {raw : List Point} {selector : Selector}
  {transformation : Transformation}

/-- The start of the bucket that reading begins in. -/
def openingBucket (q : Query) (f : Filter) : Int :=
  Bucket.start q.bucketSeconds (q.rawStart f)

/-- The values that are read of the bucket that reading begins in. -/
def openingValues (q : Query) (f : Filter) (raw : List Point) : List Float :=
  ((Bucket.within (q.rawStart f) q.stop raw).filter fun p =>
    Bucket.start q.bucketSeconds p.time = q.openingBucket f).map Point.value

def opening (q : Query) (selector : Selector) (f : Filter) (raw : List Point) : Option Point :=
  pointOf selector (q.openingBucket f, q.openingValues f raw)

def later (q : Query) (selector : Selector) (f : Filter) (raw : List Point) : Series :=
  (q.grouped selector f raw).since (q.openingBucket f + q.bucketSeconds)

theorem mem_buckets_cases {s : Int} {vs : List Float}
    (h : (s, vs) ∈ Bucket.ofPoints raw (q.rawStart f) q.stop q.bucketSeconds) :
    (s = q.openingBucket f ∧ vs = q.openingValues f raw) ∨
      q.openingBucket f + q.bucketSeconds ≤ s := by
  have hwidth := q.bucketSeconds_pos
  obtain ⟨p, -, hearliest, -, hstart⟩ := Bucket.exists_mem_ofPoints_iff.mp ⟨vs, h⟩
  obtain ⟨-, hvalues⟩ := Bucket.mem_ofPoints_iff.mp h
  rw [Int.max_eq_left q.one_le_bucketSeconds] at hstart hvalues
  rcases Bucket.start_eq_or_add_le hwidth hearliest with hsame | hlater
  · have hs : s = q.openingBucket f := hstart.symm.trans hsame
    exact .inl ⟨hs, by rw [← hvalues, hs, openingValues]⟩
  · exact .inr (hstart ▸ hlater)

theorem opening_eq_none (h : q.openingValues f raw = []) : q.opening selector f raw = none := by
  rw [opening, h]
  show (Instant.ofSeconds? _).bind _ = none
  cases Instant.ofSeconds? (q.openingBucket f) <;> rfl

/-- The inputs of a filter are the point of the bucket that reading begins in and those of the later
ones. -/
theorem grouped_eq_opening (q : Query) (selector : Selector) (f : Filter) (raw : List Point) :
    q.grouped selector f raw = (q.opening selector f raw).toList ++ q.later selector f raw := by
  have hwidth := q.bucketSeconds_pos
  rw [later, grouped_eq, since_filterMap_pointOf]
  generalize hbuckets : Bucket.ofPoints raw (q.rawStart f) q.stop q.bucketSeconds = buckets
  have hcases : ∀ b ∈ buckets, b = (q.openingBucket f, q.openingValues f raw) ∨
      q.openingBucket f + q.bucketSeconds ≤ b.1 := by
    rintro ⟨s, vs⟩ hb
    rw [← hbuckets] at hb
    exact (mem_buckets_cases hb).imp_left fun ⟨hs, hvs⟩ => Prod.ext hs hvs
  have hascending : Bucket.Ascending buckets := hbuckets ▸ Bucket.ascending_ofPoints
  by_cases hnone : q.openingValues f raw = []
  · rw [opening_eq_none hnone, Option.toList_none, List.nil_append, List.filter_eq_self.mpr]
    intro b hb
    refine decide_eq_true ((hcases b hb).resolve_left ?_)
    rintro rfl
    rw [← hbuckets] at hb
    exact (Bucket.mem_ofPoints_iff.mp hb).1 hnone
  · have hsplit : buckets = (q.openingBucket f, q.openingValues f raw) ::
        buckets.filter fun b => q.openingBucket f + q.bucketSeconds ≤ b.1 := by
      refine hascending.eq_of_mem_iff (List.pairwise_cons.mpr ⟨?_, hascending.filter _⟩) ?_
      · intro b hb
        have hlater := of_decide_eq_true (List.mem_filter.mp hb).2
        show q.openingBucket f < b.1
        omega
      · intro b
        rw [List.mem_cons, List.mem_filter, decide_eq_true_iff]
        constructor
        · exact fun hb => (hcases b hb).imp_right fun hlater => ⟨hb, hlater⟩
        · rintro (rfl | ⟨hb, -⟩)
          · rw [← hbuckets, Bucket.mem_ofPoints_iff, Int.max_eq_left q.one_le_bucketSeconds]
            exact ⟨hnone, rfl⟩
          · exact hb
    conv_lhs => rw [hsplit]
    rw [opening, List.filterMap_cons]
    cases pointOf selector (q.openingBucket f, q.openingValues f raw) <;> rfl

/-- Going back by the lookback leads to the first of all times, or back by whole buckets. -/
theorem lookback_cases (hwhole : q.interval.subsecNanos = 0) (f : Filter) :
    (∀ t : Instant, t.back (q.interval.times f.lookback) = .first) ∨
      ∃ count : Int, ((q.interval.times f.lookback).nanos : Int) =
        count * q.bucketSeconds * nanosPerSecond := by
  have hinterval : q.interval.nanos = q.interval.seconds * nanosPerSecond := by
    rw [Span.subsecNanos] at hwhole
    exact (Nat.div_mul_cancel (Nat.dvd_of_mod_eq_zero hwhole)).symm
  have htimes : (q.interval.times f.lookback).nanos =
      min (q.interval.nanos * f.lookback) maxSpanNanos := rfl
  by_cases hshort : lastNano - firstNano < (q.interval.times f.lookback).nanos
  · refine .inl fun t => Instant.ext ?_
    have hlast := t.le_last
    rw [Instant.nanos_back]
    exact Int.max_eq_right (by omega)
  · -- the lookback fits between the first and the last of all times, so nothing was cut off
    have hrange : lastNano - firstNano < maxSpanNanos := by decide
    have hproduct : (q.interval.times f.lookback).nanos = q.interval.nanos * f.lookback := by omega
    refine .inr ?_
    rcases Nat.eq_zero_or_pos (q.interval.seconds * f.lookback) with hzero | hpos
    · refine ⟨0, ?_⟩
      rw [hproduct, hinterval, Nat.mul_right_comm, hzero]
      simp
    · have hlookback : 1 ≤ f.lookback := Nat.pos_of_mul_pos_left hpos
      have hseconds : 1 ≤ q.interval.seconds := Nat.pos_of_mul_pos_right hpos
      have hle : q.interval.seconds * nanosPerSecond ≤ q.interval.nanos * f.lookback :=
        hinterval ▸ Nat.le_mul_of_pos_right _ hlookback
      have hmax : lastNano - firstNano < maxIntervalSeconds * nanosPerSecond := by decide
      have hbucket : q.bucketSeconds = q.interval.seconds := by
        rw [nanosPerSecond] at hle hmax
        rw [bucketSeconds]
        omega
      refine ⟨f.lookback, ?_⟩
      rw [hproduct, hinterval, hbucket, Nat.mul_comm, ← Nat.mul_assoc, Int.natCast_mul, Int.natCast_mul]

/-- Two queries that differ only in where their range begins, and that within one bucket. -/
structure BeginsAlike (q q' : Query) : Prop where
  interval : q.interval = q'.interval
  stop : q.stop = q'.stop
  limit : q.limit = q'.limit
  firstBucket : q.firstBucket = q'.firstBucket

namespace BeginsAlike

theorem bucketSeconds (h : BeginsAlike q q') : q.bucketSeconds = q'.bucketSeconds := by
  rw [Query.bucketSeconds, Query.bucketSeconds, h.interval]

/-- They begin to read in one bucket. -/
theorem openingBucket (h : BeginsAlike q q') (hwhole : q.interval.subsecNanos = 0) (f : Filter) :
    q.openingBucket f = q'.openingBucket f := by
  have hstart : Bucket.start q.bucketSeconds q.start = Bucket.start q.bucketSeconds q'.start := by
    have hfirst := h.firstBucket
    rwa [Query.firstBucket, Query.firstBucket, ← h.bucketSeconds] at hfirst
  rw [Query.openingBucket, Query.openingBucket, ← h.bucketSeconds, rawStart, rawStart, ← h.interval]
  rcases lookback_cases hwhole f with hfirst | ⟨count, hcount⟩
  · rw [hfirst, hfirst]
  · exact Bucket.start_back_eq q.bucketSeconds_pos hcount hstart

/-- They read all later buckets alike. -/
theorem later (h : BeginsAlike q q') (hwhole : q.interval.subsecNanos = 0) (selector : Selector)
    (f : Filter) (raw : List Point) : q.later selector f raw = q'.later selector f raw := by
  have hbucket := h.openingBucket hwhole f
  have hbegin : (q.rawStart f).nanos ≤ (q.openingBucket f + q.bucketSeconds) * nanosPerSecond :=
    (Bucket.nanos_lt_start_add q.bucketSeconds_pos (q.rawStart f)).le
  have hbegin' : (q'.rawStart f).nanos ≤ (q'.openingBucket f + q'.bucketSeconds) * nanosPerSecond :=
    (Bucket.nanos_lt_start_add q'.bucketSeconds_pos (q'.rawStart f)).le
  rw [Query.later, Query.later, grouped_eq, grouped_eq, since_filterMap_pointOf, since_filterMap_pointOf,
    ← h.stop, ← hbucket, ← h.bucketSeconds]
  rw [← hbucket, ← h.bucketSeconds] at hbegin'
  rw [Bucket.ofPoints_filter hbegin hbegin']

end BeginsAlike

/-- Of the bucket that reading begins in both queries read the same points. -/
def OpensAlike (q q' : Query) (f : Filter) (raw : List Point) : Prop :=
  ∀ p ∈ raw, Bucket.start q.bucketSeconds p.time = q.openingBucket f →
    (q.rawStart f ≤ p.time ↔ q'.rawStart f ≤ p.time)

theorem opening_of_opensAlike (h : BeginsAlike q q') (hwhole : q.interval.subsecNanos = 0)
    (halike : q.OpensAlike q' f raw) (selector : Selector) :
    q.opening selector f raw = q'.opening selector f raw := by
  have hbucket := h.openingBucket hwhole f
  have hvalues : q.openingValues f raw = q'.openingValues f raw := by
    rw [openingValues, openingValues, ← h.stop, ← hbucket, ← h.bucketSeconds, Bucket.within,
      Bucket.within, List.filter_filter, List.filter_filter]
    congr 1
    refine List.filter_congr fun p hp => ?_
    by_cases hmem : Bucket.start q.bucketSeconds p.time = q.openingBucket f
    · rw [decide_eq_decide.mpr (halike p hp hmem)]
    · rw [decide_eq_false hmem, Bool.false_and, Bool.false_and]
  rw [opening, opening, hbucket, hvalues]

/-- The outputs that are made of the later buckets alone. -/
def laterOutputs (q : Query) (selector : Selector) (transformation : Transformation) (f : Filter)
    (raw : List Point) : Series :=
  (transformation.apply (q.later selector f raw) f.param).since q.firstBucket

theorem unlimited_eq_since (hselector : f.selector? = .ok selector)
    (htransformation : f.transformation? = .ok (some transformation)) (raw : List Point) :
    q.unlimited f raw =
      .ok ((transformation.apply (q.grouped selector f raw) f.param).since q.firstBucket) := by
  rw [unlimited, hselector, htransformation]
  rfl

/-- With the bucket that reading begins in there is one more output at most, in front. -/
theorem exists_unlimited (hselector : f.selector? = .ok selector)
    (htransformation : f.transformation? = .ok (some transformation))
    (hkind : transformation ≠ .cumulativeSum) (raw : List Point) :
    ∃ first : Option Point, q.unlimited f raw =
      .ok (first.toList ++ q.laterOutputs selector transformation f raw) := by
  rw [unlimited_eq_since hselector htransformation, grouped_eq_opening, laterOutputs]
  cases q.opening selector f raw with
  | none => exact ⟨none, rfl⟩
  | some p =>
    obtain ⟨early, hearly, -⟩ := Transformation.apply_cons hkind f.param p (q.later selector f raw)
    refine ⟨early.filter fun o => q.firstBucket ≤ o.time.seconds, ?_⟩
    rw [Option.toList_some, List.singleton_append, hearly, Series.since, List.filter_append,
      Option.toList_filter]
    rfl

theorem toList_inj {α : Type} {a b : Option α} : a.toList = b.toList ↔ a = b :=
  ⟨fun h => by simpa using congrArg List.head? h, congrArg Option.toList⟩

/-- One more member in front changes the last ones unless there are enough others. -/
theorem lastOf_toList_append_inj {α : Type} {limit : Nat} {a b : Option α} {rest : List α} :
    lastOf limit (a.toList ++ rest) = lastOf limit (b.toList ++ rest) ↔
      limit ≤ rest.length ∨ a = b := by
  have hdrop : ∀ c : Option α, lastOf limit (c.toList ++ rest) =
      if limit ≤ rest.length then lastOf limit rest else c.toList ++ rest := by
    intro c
    have hlength : c.toList.length ≤ 1 := by cases c <;> simp
    split
    · rename_i hmany
      rw [lastOf, lastOf, List.length_append, List.drop_append, List.drop_of_length_le (by omega),
        List.nil_append, show c.toList.length + rest.length - limit - c.toList.length =
          rest.length - limit by omega]
    · rw [lastOf, List.length_append, show c.toList.length + rest.length - limit = 0 by omega,
        List.drop_zero]
  rw [hdrop, hdrop]
  split
  · rename_i hmany
    exact iff_of_true rfl (.inl hmany)
  · rename_i hfew
    rw [List.append_left_inj, toList_inj, or_iff_right hfew]

/-- What a transformation makes for two queries that begin in one bucket differs in the first output
only, so the answers are the same just when that output is cut off or the same for both. -/
theorem answers_of_offsets (hselector : f.selector? = .ok selector)
    (htransformation : f.transformation? = .ok (some transformation))
    (hkind : transformation ≠ .cumulativeSum) (hwhole : q.interval.subsecNanos = 0)
    (h : BeginsAlike q q') (raw : List Point) :
    (q.openingBucket f = q'.openingBucket f ∧ q.later selector f raw = q'.later selector f raw) ∧
      ∃ first first' : Option Point,
        q.unlimited f raw = .ok (first.toList ++ q.laterOutputs selector transformation f raw) ∧
        q'.unlimited f raw = .ok (first'.toList ++ q.laterOutputs selector transformation f raw) ∧
        (q.answer f raw = q'.answer f raw ↔
          q.limit ≤ (q.laterOutputs selector transformation f raw).length ∨ first = first') ∧
        (q.opening selector f raw = q'.opening selector f raw → first = first') ∧
        (q.OpensAlike q' f raw → q.opening selector f raw = q'.opening selector f raw) := by
  have hbucket := h.openingBucket hwhole f
  have hlater := h.later hwhole selector f raw
  have houtputs : q'.laterOutputs selector transformation f raw =
      q.laterOutputs selector transformation f raw := by
    rw [laterOutputs, laterOutputs, hlater, h.firstBucket]
  obtain ⟨first, hfirst⟩ := exists_unlimited (q := q) hselector htransformation hkind raw
  obtain ⟨first', hfirst'⟩ := exists_unlimited (q := q') hselector htransformation hkind raw
  rw [houtputs] at hfirst'
  refine ⟨⟨hbucket, hlater⟩, first, first', hfirst, hfirst', ?_, ?_, ?_⟩
  · rw [answer, answer, hfirst, hfirst', ← h.limit, Except.map, Except.map, Except.ok.injEq,
      lastOf_toList_append_inj]
  · intro hopening
    have hgrouped : q.grouped selector f raw = q'.grouped selector f raw := by
      rw [grouped_eq_opening, grouped_eq_opening, hopening, hlater]
    have hsame : q.unlimited f raw = q'.unlimited f raw := by
      rw [unlimited_eq_since hselector htransformation, unlimited_eq_since hselector htransformation,
        hgrouped, h.firstBucket]
    rwa [hfirst, hfirst', Except.ok.injEq, List.append_left_inj, toList_inj] at hsame
  · exact fun halike => opening_of_opensAlike h hwhole halike selector

/-- The change of the sum over a minute. -/
def rise : Filter := ⟨"sum", some "difference", "t", none⟩

theorem selector?_rise : rise.selector? = .ok .sum := rfl

theorem transformation?_rise : rise.transformation? = .ok (some .difference) := rfl

/-- A query of minutes, from a second of the fourth minute on. -/
def riseQuery (n : Nat) : Query where
  source := .group "g"
  filters := [rise]
  start := second n
  stop := second 239
  interval := .ofSeconds 60
  limit := 10
  retention := "1-day"

/-- Between the beginnings of the two reads there is no point. -/
theorem answers_of_rise :
    (riseQuery 180).interval.subsecNanos = 0 ∧ BeginsAlike (riseQuery 180) (riseQuery 200) ∧
      (riseQuery 180).answer rise [⟨second 150, 1.0⟩, ⟨second 180, 5.0⟩] =
        (riseQuery 200).answer rise [⟨second 150, 1.0⟩, ⟨second 180, 5.0⟩] := by
  have hwhole : (riseQuery 180).interval.subsecNanos = 0 := by decide
  have hbegins : BeginsAlike (riseQuery 180) (riseQuery 200) := ⟨rfl, rfl, rfl, by decide⟩
  refine ⟨hwhole, hbegins, ?_⟩
  obtain ⟨-, first, first', -, -, hanswer, hfirst, hopening⟩ :=
    answers_of_offsets selector?_rise transformation?_rise (by decide) hwhole hbegins
      [⟨second 150, 1.0⟩, ⟨second 180, 5.0⟩]
  refine hanswer.mpr (.inr (hfirst (hopening ?_)))
  intro p hp _
  rcases List.mem_pair.mp hp with rfl | rfl <;> decide

/-- A point of the bucket that both begin to read in, which only one of two queries reads, makes an output
for that query alone. -/
theorem offset_changes_answer :
    rise.validate = .ok () ∧ (riseQuery 180).interval.subsecNanos = 0 ∧
      BeginsAlike (riseQuery 180) (riseQuery 181) ∧
      (riseQuery 180).answer rise [⟨second 120, 1.0⟩, ⟨second 180, 5.0⟩] =
        .ok [⟨second 180, 4.0⟩] ∧
      (riseQuery 181).answer rise [⟨second 120, 1.0⟩, ⟨second 180, 5.0⟩] = .ok [] := by
  have hunlimited (n : Nat) := unlimited_eq_since (q := riseQuery n) selector?_rise transformation?_rise
    [⟨second 120, 1.0⟩, ⟨second 180, 5.0⟩]
  refine ⟨rfl, by decide, ⟨rfl, rfl, rfl, by decide⟩, ?_, ?_⟩
  · rw [answer, hunlimited, grouped, Bucket.ofPoints_of_pairwise (by decide)]
    rfl
  · rw [answer, hunlimited, grouped, Bucket.ofPoints_of_pairwise (by decide)]
    rfl

end Query

end Vigil
