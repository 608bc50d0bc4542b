import Vigil.Proofs.Series.Steady
import Vigil.Proofs.Series.Windows

/-!
# Slots

The slots of a range are the times that a point can have there: the starts of the buckets that meet the
range, as far as there is an instant so early. A series of a filter has its points in the slots of the
query's range, and each of them has as many slots of the filter's range before it as its output needs.
So the slots bound the length of every series. When there is an input in every slot of the filter's
range and no output is missing, the series ends with the last slots of the query's range.
-/

namespace Vigil

namespace Bucket

variable {interval : Int} {earliest latest t : Instant}

def slots (interval : Int) (earliest latest : Instant) : List Instant :=
  (starts interval earliest latest).filterMap Instant.ofSeconds?

theorem mem_slots_iff (hinterval : 0 < interval) (hrange : earliest ≤ latest) :
    t ∈ slots interval earliest latest ↔ Meets interval earliest latest t := by
  rw [slots, List.mem_filterMap]
  constructor
  · rintro ⟨s, hs, ht⟩
    obtain ⟨u, hearliest, hlatest, rfl⟩ := (mem_starts_iff hinterval hrange).mp hs
    exact ⟨u, hearliest, hlatest, Instant.ofSeconds?_eq_some.mp ht⟩
  · rintro ⟨u, hearliest, hlatest, ht⟩
    exact ⟨_, start_mem_starts hinterval hearliest hlatest, Instant.ofSeconds?_eq_some.mpr ht⟩

/-- Slots lie at least a second apart. -/
theorem spaced_slots (hinterval : 0 < interval) (earliest latest : Instant) :
    (slots interval earliest latest).Pairwise fun t u : Instant => t.nanos + nanosPerSecond ≤ u.nanos := by
  refine (ascending_starts hinterval earliest latest).filterMap _ ?_
  intro s s' hlt t ht u hu
  rw [Instant.ofSeconds?_eq_some.mp ht, Instant.ofSeconds?_eq_some.mp hu, nanosPerSecond]
  omega

theorem ascending_slots (hinterval : 0 < interval) (earliest latest : Instant) :
    (slots interval earliest latest).Pairwise (· < ·) := by
  refine (spaced_slots hinterval earliest latest).imp ?_
  intro t u h
  rw [nanosPerSecond] at h
  rw [Instant.lt_def]
  omega

/-- Of the slots of a longer range those from the first bucket on are the slots of the range. -/
theorem slots_filter {first : Instant} (hinterval : 0 < interval) (hfirst : first ≤ earliest)
    (hrange : earliest ≤ latest) :
    (slots interval first latest).filter (fun t => start interval earliest ≤ t.seconds) =
      slots interval earliest latest := by
  refine ((ascending_slots hinterval first latest).filter _).eq_of_mem_iff
    (ascending_slots hinterval earliest latest) ?_
  intro t
  rw [List.mem_filter, mem_slots_iff hinterval (Int.le_trans hfirst hrange),
    mem_slots_iff hinterval hrange, decide_eq_true_iff]
  constructor
  · rintro ⟨hmeets, hkept⟩
    exact meets_of_start_le hinterval hrange hmeets hkept
  · rintro ⟨u, hearliest, hlatest, ht⟩
    refine ⟨⟨u, Int.le_trans hfirst hearliest, hlatest, ht⟩, ?_⟩
    rw [Instant.seconds_of_nanos ht]
    exact start_mono hinterval hearliest

end Bucket

namespace Query

variable {q : Query} {f : Filter} {raw : List Point} {series : Series} {n : Nat}

/-- What a filter of ascending times keeps ends alike when times before are dropped, as long as there
are enough behind them. -/
theorem lastOf_filter_drop {times : List Instant} {p : Instant → Bool} {k : Nat}
    (hascending : times.Pairwise (· < ·)) (hup : ∀ t u : Instant, t < u → p t = true → p u = true)
    (hlength : n + k ≤ times.length) :
    lastOf n ((times.drop k).filter p) = lastOf n (times.filter p) := by
  refine lastOf_of_sublist ((hascending.filter p).nodup)
    ((List.drop_sublist k times).filter p) ?_
  intro t ht
  obtain ⟨hmem, hfew⟩ := (Instant.mem_lastOf_iff (hascending.filter p)).mp ht
  obtain ⟨htimes, hp⟩ := List.mem_filter.mp hmem
  have hlater : Instant.laterIn (times.filter p) t = Instant.laterIn times t := by
    rw [Instant.laterIn, Instant.laterIn, List.countP_filter]
    refine List.countP_congr ?_
    intro u _
    simp only [Bool.and_eq_true, decide_eq_true_eq, and_iff_left_iff_imp]
    exact fun hlt => hup t u hlt hp
  have hdrop : times.drop k = lastOf (times.length - k) times := by
    rw [lastOf, show times.length - (times.length - k) = k by omega]
  refine List.mem_filter.mpr ⟨?_, hp⟩
  rw [hdrop, Instant.mem_lastOf_iff hascending]
  exact ⟨htimes, by omega⟩

def slots (q : Query) : List Instant :=
  Bucket.slots q.bucketSeconds q.start q.stop

def inputSlots (q : Query) (f : Filter) : List Instant :=
  Bucket.slots q.bucketSeconds (q.rawStart f) q.stop

theorem rawStart_le (q : Query) (f : Filter) : q.rawStart f ≤ q.start :=
  Instant.back_le _ _

theorem times_grouped_sublist (hrange : q.start ≤ q.stop) (selector : Selector) (f : Filter)
    (raw : List Point) : (q.grouped selector f raw).times.Sublist (q.inputSlots f) := by
  have hgrouped := ascending_grouped q selector f raw
  refine sublist_of_ascending hgrouped (Bucket.ascending_slots q.bucketSeconds_pos _ _) ?_
  intro t ht
  exact (Bucket.mem_slots_iff q.bucketSeconds_pos (Int.le_trans (q.rawStart_le f) hrange)).mpr
    (meets_of_mem_grouped ht)

theorem times_unlimited_sublist_slots (hrange : q.start ≤ q.stop)
    (h : q.unlimited f raw = .ok series) : series.times.Sublist q.slots := by
  have hseries := ascending_unlimited h
  refine sublist_of_ascending hseries (Bucket.ascending_slots q.bucketSeconds_pos _ _) ?_
  intro t ht
  exact (Bucket.mem_slots_iff q.bucketSeconds_pos hrange).mpr (meets_of_mem_unlimited hrange h ht)

/-- No series is longer than the slots allow. -/
theorem length_unlimited_le (hrange : q.start ≤ q.stop) (h : q.unlimited f raw = .ok series) :
    series.length ≤ q.slots.length ∧ series.length ≤ (q.inputSlots f).length - f.before := by
  have hlength : series.times.length = series.length := List.length_map _
  have hslots := (times_unlimited_sublist_slots hrange h).length_le
  obtain ⟨selector, -, hsub⟩ := times_unlimited_sublist h
  have hinputs := (times_grouped_sublist hrange selector f raw).length_le
  have hdrop := hsub.length_le
  rw [List.length_drop] at hdrop
  omega

/-- A series whose inputs are steady and fill all slots ends with the last slots of the range. -/
theorem lastOf_times_of_steady (hrange : q.start ≤ q.stop) (h : q.unlimited f raw = .ok series)
    (hinputs : ∀ selector, f.selector? = .ok selector →
      (q.grouped selector f raw).Steady ∧ (q.grouped selector f raw).times = q.inputSlots f)
    (hlength : n + f.before ≤ (q.inputSlots f).length) :
    lastOf n series.times = lastOf n q.slots := by
  obtain ⟨selector, hselector, ⟨hnone, rfl⟩ | ⟨transformation, hsome, rfl⟩⟩ := unlimited_cases h
  · have hlookback : f.lookback = 0 := by rw [Filter.lookback, hnone]
    rw [(hinputs selector hselector).2, inputSlots, rawStart_of_lookback_eq_zero hlookback, slots]
  · obtain ⟨hsteady, htimes⟩ := hinputs selector hselector
    have hbefore : f.before = transformation.before f.param := by rw [Filter.before, hsome]
    have hfilter : Series.times ((transformation.apply (q.grouped selector f raw) f.param).filter
        fun p => Bucket.start q.bucketSeconds q.start ≤ p.time.seconds) =
        ((q.inputSlots f).drop f.before).filter
          fun t => Bucket.start q.bucketSeconds q.start ≤ t.seconds := by
      rw [hbefore, ← htimes, ← transformation.times_apply_of_steady hsteady, Series.times, Series.times,
        List.filter_map]
      rfl
    have hup : ∀ t u : Instant, t < u →
        decide (Bucket.start q.bucketSeconds q.start ≤ t.seconds) = true →
        decide (Bucket.start q.bucketSeconds q.start ≤ u.seconds) = true := by
      intro t u hlt ht
      have hseconds : t.seconds ≤ u.seconds := Int.ediv_le_ediv (by decide) (Int.le_of_lt hlt)
      exact decide_eq_true (Int.le_trans (of_decide_eq_true ht) hseconds)
    have hascending : (q.inputSlots f).Pairwise (· < ·) :=
      Bucket.ascending_slots q.bucketSeconds_pos _ _
    rw [hfilter, lastOf_filter_drop hascending hup hlength, inputSlots,
      Bucket.slots_filter q.bucketSeconds_pos (q.rawStart_le f) hrange, slots]

end Query

end Vigil
