import Vigil.Proofs.Series.Trimming

/-!
# Places in a batch

Every answer to a query stands on the grid of its buckets: the times ascend, start buckets and lie
within the range. A batch keeps of each series the points at the times that all of them share, so a
place counted from the end is one time for all series, and an evaluation compares values of one bucket.
-/

namespace Vigil

namespace Series

variable {kept series : Series}

/-- What is left of an ascending series is known by its times. -/
theorem eq_filter_of_sublist (h : series.times.Pairwise (· < ·)) (hsub : kept.Sublist series) :
    kept = series.filter fun p => p.time ∈ kept.times := by
  have hkept : kept.Pairwise fun a b => a.time < b.time :=
    List.pairwise_map.mp (h.sublist (hsub.map fun p => p.time))
  have hnodup : series.times.Nodup := h.imp fun hlt heq => Int.ne_of_lt hlt (congrArg _ heq)
  refine hkept.eq_of_mem_iff ((List.pairwise_map.mp h).filter _) fun p => ?_
  rw [List.mem_filter, decide_eq_true_iff]
  constructor
  · exact fun hp => ⟨hsub.subset hp, List.mem_map_of_mem hp⟩
  · rintro ⟨hp, ht⟩
    obtain ⟨r, hr, hsame⟩ := List.mem_map.mp ht
    rwa [← List.inj_on_of_nodup_map hnodup (hsub.subset hr) hp hsame]

end Series

namespace Query

variable {q : Query} {f : Filter} {raw : List Point} {series : Series}

/-- The times of a series ascend on the grid of the query's buckets, within the range and the limit. -/
structure OnGrid (q : Query) (series : Series) : Prop where
  ascending : series.times.Pairwise (· < ·)
  multiple : ∀ t ∈ series.times, ∃ k : Int, t.nanos = k * q.bucketSeconds * nanosPerSecond
  first_le : ∀ t ∈ series.times, q.firstBucket ≤ t.seconds
  le_stop : ∀ t ∈ series.times, t ≤ q.stop
  length_le : series.length ≤ q.limit

theorem onGrid_of_answer (h : q.answer f raw = .ok series) : q.OnGrid series := by
  rw [answer] at h
  cases hwhole : q.unlimited f raw with
  | error cause =>
    rw [hwhole] at h
    cases h
  | ok whole =>
    rw [hwhole] at h
    cases h
    have hsub : (Series.times (lastOf q.limit whole)).Sublist whole.times := by
      rw [Batch.times_lastOf]
      exact List.drop_sublist _ _
    refine ⟨(ascending_unlimited hwhole).sublist hsub, ?_, ?_, ?_, ?_⟩
    · intro t ht
      obtain ⟨⟨u, -, -, htime⟩, -⟩ := mem_unlimited hwhole (hsub.subset ht)
      exact ⟨u.seconds / q.bucketSeconds, htime⟩
    · exact fun t ht => (mem_unlimited hwhole (hsub.subset ht)).2
    · intro t ht
      obtain ⟨⟨u, -, hstop, htime⟩, -⟩ := mem_unlimited hwhole (hsub.subset ht)
      have hback := Bucket.nanos_start_le q.bucketSeconds_pos u
      rw [← htime] at hback
      exact hback.trans hstop
    · rw [length_lastOf]
      exact Nat.min_le_left _ _

end Query

namespace Batch

variable {batch : Batch} {filters : List Filter} {all : List Series} {times : List Instant}

/-- The batch has one series for each filter, and each is that of the filter at the times that all
series share. -/
structure LinesUp (batch : Batch) (filters : List Filter) (all : List Series)
    (times : List Instant) : Prop where
  names : batch.names.Perm (filters.map Filter.identifier)
  ascending : times.Pairwise (· < ·)
  mem_times : ∀ t, t ∈ times ↔ all ≠ [] ∧ ∀ series ∈ all, t ∈ series.times
  times_eq : ∀ series ∈ batch.values, series.times = times
  get? : ∀ f series, (f, series) ∈ filters.zip all →
    batch.get? f.identifier = some (series.filter fun p => p.time ∈ times)

theorem exists_linesUp (hids : (filters.map Filter.identifier).Nodup)
    (hlength : filters.length = all.length)
    (hascending : ∀ series ∈ all, series.times.Pairwise (· < ·)) :
    ∃ batch, assemble filters all = .ok batch ∧ batch.LinesUp filters all (shared all) := by
  obtain ⟨batch, hbatch, hnames, htimes, hget⟩ := exists_assemble_times hids hlength hascending
  refine ⟨batch, hbatch, hnames, ascending_shared hascending, fun t => ?_, htimes, ?_⟩
  · rcases all with _ | ⟨series, rest⟩
    · simp [shared]
    · rw [mem_shared_iff (List.cons_ne_nil _ _)]
      exact (and_iff_right (List.cons_ne_nil _ _)).symm
  · intro f series hmem
    obtain ⟨kept, hkept, hsub⟩ := hget f series hmem
    have hvalue : kept ∈ batch.values := List.mem_map_of_mem (Named.get?_eq_some_iff.mp hkept)
    rw [hkept, ← htimes kept hvalue,
      ← Series.eq_filter_of_sublist (hascending series (List.of_mem_zip hmem).2) hsub]

/-- At one place an evaluation finds, for every filter, the value of its series at one time. -/
theorem LinesUp.lookup (h : batch.LinesUp filters all times) {limit i : Nat}
    (hlimit : limit ≤ times.length) (hi : i < limit) {f : Filter} {series : Series}
    (hmem : (f, series) ∈ filters.zip all) :
    ∃ p ∈ series, times[times.length - limit + i]? = some p.time ∧
      Valuation.lookup batch limit i f.identifier = some p.value := by
  have hget := h.get? f series hmem
  have htimes := h.times_eq _ (List.mem_map_of_mem (Named.get?_eq_some_iff.mp hget))
  generalize hkept : (series.filter fun p => p.time ∈ times) = kept at hget htimes
  have hsub : kept ⊆ series := by
    rw [← hkept]
    exact List.filter_subset_self _
  have hlength : times.length = kept.length := by rw [← htimes, Series.times, List.length_map]
  have hplace : kept.length - limit + i < kept.length := by omega
  refine ⟨kept[kept.length - limit + i], ?_, ?_, ?_⟩
  · exact hsub (List.getElem_mem hplace)
  · rw [hlength, ← htimes, Series.times, List.getElem?_map, List.getElem?_eq_getElem hplace]
    rfl
  · rw [Valuation.lookup, hget]
    show (kept[kept.length - limit + i]?).bind _ = _
    rw [List.getElem?_eq_getElem hplace]
    rfl

end Batch

namespace Query

/-- Answers to a query stand on its grid, and a batch of ascending series lines them up: an evaluation
finds in one place the values of one time, each from the series of its own filter. As many series as
filters are demanded. -/
theorem answers_line_up (q : Query) (filters : List Filter) (all : List Series) :
    (∀ f raw series, q.answer f raw = .ok series → q.OnGrid series) ∧
    (filters.length ≠ all.length →
      Batch.assemble filters all = .error (.inconsistent filters.length all.length)) ∧
    (filters.length = all.length → (filters.map Filter.identifier).Nodup →
      (∀ series ∈ all, series.times.Pairwise (· < ·)) →
      ∃ batch times, Batch.assemble filters all = .ok batch ∧ batch.LinesUp filters all times ∧
        ∀ limit i, limit ≤ times.length → i < limit →
          ∃ t, times[times.length - limit + i]? = some t ∧
            ∀ f series, (f, series) ∈ filters.zip all → ∃ p ∈ series, p.time = t ∧
              Valuation.lookup batch limit i f.identifier = some p.value) := by
  refine ⟨fun f raw series => onGrid_of_answer, fun hne => if_neg hne, ?_⟩
  intro hlength hids hascending
  obtain ⟨batch, hbatch, hlines⟩ := Batch.exists_linesUp hids hlength hascending
  refine ⟨batch, _, hbatch, hlines, fun limit i hlimit hi => ?_⟩
  generalize Batch.shared all = times at hlines hlimit ⊢
  have hplace : times.length - limit + i < times.length := by omega
  refine ⟨_, List.getElem?_eq_getElem hplace, fun f series hmem => ?_⟩
  obtain ⟨p, hp, htime, hvalue⟩ := hlines.lookup hlimit hi hmem
  rw [List.getElem?_eq_getElem hplace] at htime
  exact ⟨p, hp, (Option.some.inj htime).symm, hvalue⟩

/-- Series of three and two points, of two keys. -/
def gapSeries : List Series :=
  [[⟨second 120, 1.0⟩, ⟨second 180, 2.0⟩, ⟨second 240, 3.0⟩], [⟨second 120, 4.0⟩, ⟨second 240, 5.0⟩]]

/-- The second place from the end is one time for both keys, though one has a point between. -/
theorem line_up_at_gap :
    (∃ series, gapQuery.answer ⟨"mean", none, "a", none⟩ (gapPoints ⟨"mean", none, "a", none⟩) =
        .ok series ∧ gapQuery.OnGrid series ∧ series.times = [second 180, second 240]) ∧
      Batch.assemble gapQuery.filters [] = .error (.inconsistent 2 0) ∧
      ∃ batch times, Batch.assemble gapQuery.filters gapSeries = .ok batch ∧
        batch.LinesUp gapQuery.filters gapSeries times ∧ times = [second 120, second 240] ∧
        Valuation.lookup batch 2 0 "mean_a" = some 1.0 ∧
        Valuation.lookup batch 2 0 "mean_b" = some 4.0 := by
  obtain ⟨hgrid, -, hlines⟩ := answers_line_up gapQuery gapQuery.filters gapSeries
  refine ⟨?_, (answers_line_up gapQuery gapQuery.filters []).2.1 (by decide), ?_⟩
  · have hanswers := forall₂_answer (mapM_eq_ok_iff.mp unlimited_gap)
    have hanswer := (List.forall₂_cons.mp hanswers).1
    exact ⟨_, hanswer, hgrid _ _ _ hanswer, rfl⟩
  · obtain ⟨batch, times, hbatch, hlines, -⟩ := hlines rfl (by decide) (by decide)
    have hsame : Batch.assemble gapQuery.filters gapSeries =
        .ok ⟨[("mean_a", [⟨second 120, 1.0⟩, ⟨second 240, 3.0⟩]),
          ("mean_b", [⟨second 120, 4.0⟩, ⟨second 240, 5.0⟩])], by decide⟩ := rfl
    have htimes := hlines.times_eq [⟨second 120, 1.0⟩, ⟨second 240, 3.0⟩]
    cases hsame.symm.trans hbatch
    exact ⟨_, times, hbatch, hlines, (htimes (.head _)).symm, rfl, rfl⟩

end Query

end Vigil
