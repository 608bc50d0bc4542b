import Vigil.Proofs.Results
import Vigil.Proofs.Series.Alignment

/-!
# Batches of trimmed series

A query is answered filter by filter, and every answer is trimmed to the limit before the answers are
aligned. What a batch then holds, and when an evaluation finds too little, is said in terms of the
whole series.
-/

namespace Vigil

namespace Query

variable {q : Query} {raw : Filter → List Point} {all : List Series}

theorem answer_of_unlimited {f : Filter} {points : List Point} {series : Series}
    (h : q.unlimited f points = .ok series) : q.answer f points = .ok (lastOf q.limit series) := by
  rw [answer, h]
  rfl

theorem forall₂_answer
    (h : List.Forall₂ (fun f series => q.unlimited f (raw f) = .ok series) q.filters all) :
    List.Forall₂ (fun f series => q.answer f (raw f) = .ok series) q.filters
      (all.map (lastOf q.limit)) :=
  List.forall₂_map_right_iff.mpr (h.imp fun _ _ => answer_of_unlimited)

theorem ascending_of_forall₂
    (h : List.Forall₂ (fun f series => q.unlimited f (raw f) = .ok series) q.filters all) :
    ∀ series ∈ all, series.times.Pairwise (· < ·) := by
  intro series hseries
  obtain ⟨i, hi, rfl⟩ := List.mem_iff_getElem.mp hseries
  exact ascending_unlimited (h.get (by rw [h.length_eq]; exact hi) hi)

/-- In a batch of trimmed series there are exactly those of the last shared times that are among the
last of every series, and an evaluation finds too little exactly when these are too few. -/
theorem assemble_recentShared (hids : (q.filters.map Filter.identifier).Nodup)
    (hall : q.filters.mapM (fun f => q.unlimited f (raw f)) = .ok all) :
    ∃ trimmed batch, q.filters.mapM (fun f => q.answer f (raw f)) = .ok trimmed ∧
      Batch.assemble q.filters trimmed = .ok batch ∧
      batch.names.Perm (q.filters.map Filter.identifier) ∧
      (∀ series ∈ batch.values, series.times = Batch.recentShared q.limit all) ∧
      (∀ f series, (f, series) ∈ q.filters.zip all →
        ∃ kept, batch.get? f.identifier = some kept ∧ kept.Sublist series) ∧
      (q.filters ≠ [] → 0 < q.limit → ∀ e,
        (∃ needed found,
          Valuation.ofBatch e batch q.limit = .error (.insufficientData needed found)) ↔
        (Batch.recentShared q.limit all).length < q.limit) := by
  have hread := mapM_eq_ok_iff.mp hall
  have htrimmed := forall₂_answer hread
  have hascending := ascending_of_forall₂ hread
  obtain ⟨batch, hbatch, hnames, htimes, hget⟩ := Batch.exists_assemble_times hids
    htrimmed.length_eq (Batch.ascending_trimmed hascending)
  rw [Batch.shared_trimmed hascending] at htimes
  refine ⟨_, batch, mapM_eq_ok_iff.mpr htrimmed, hbatch, hnames, htimes, ?_, ?_⟩
  · intro f series hmem
    have hlast : (f, lastOf q.limit series) ∈ q.filters.zip (all.map (lastOf q.limit)) := by
      rw [List.zip_map_right]
      exact List.mem_map_of_mem hmem
    obtain ⟨kept, hkept, hsub⟩ := hget f _ hlast
    exact ⟨kept, hkept, hsub.trans (List.drop_sublist _ _)⟩
  · intro hne hlimit e
    have hnone : q.filters.map Filter.identifier ≠ [] := by simpa using hne
    rw [Valuation.insufficientData_iff hlimit, Valuation.available_of_times hnames hnone htimes]

/-- The start of a second after the start of 1970, or that start when there is no such second. -/
def second (n : Nat) : Instant :=
  (Instant.ofSeconds? n).getD .epoch

/-- A query for two points of two keys, over two minutes that meet three buckets. -/
def gapQuery : Query where
  source := .group "g"
  filters := [⟨"mean", none, "a", none⟩, ⟨"mean", none, "b", none⟩]
  start := second 125
  stop := second 245
  interval := .ofSeconds 60
  limit := 2
  retention := "1-day"

/-- The second key has no value in the middle minute. -/
def gapPoints (f : Filter) : List Point :=
  if f.key = "a" then [⟨second 150, 1.0⟩, ⟨second 200, 2.0⟩, ⟨second 240, 3.0⟩]
  else [⟨second 150, 1.0⟩, ⟨second 240, 3.0⟩]

theorem unlimited_gap :
    gapQuery.filters.mapM (fun f => gapQuery.unlimited f (gapPoints f)) =
      .ok [[⟨second 120, 1.0⟩, ⟨second 180, 2.0⟩, ⟨second 240, 3.0⟩],
        [⟨second 120, 1.0⟩, ⟨second 240, 3.0⟩]] := by
  have hsimple : ∀ key, gapQuery.unlimited ⟨"mean", none, key, none⟩
      (gapPoints ⟨"mean", none, key, none⟩) = .ok (gapQuery.grouped .mean
        ⟨"mean", none, key, none⟩ (gapPoints ⟨"mean", none, key, none⟩)) := fun _ => rfl
  refine mapM_eq_ok_iff.mpr (.cons ?_ (.cons ?_ .nil))
  · rw [hsimple, grouped, Bucket.ofPoints_of_pairwise (by decide)]
    rfl
  · rw [hsimple, grouped, Bucket.ofPoints_of_pairwise (by decide)]
    rfl

/-- What the gap leaves: the batch holds one of the two times that the keys share. -/
theorem recentShared_of_gap :
    ∃ all trimmed batch,
      (gapQuery.filters.map Filter.identifier).Nodup ∧
      gapQuery.filters.mapM (fun f => gapQuery.unlimited f (gapPoints f)) = .ok all ∧
      gapQuery.filters.mapM (fun f => gapQuery.answer f (gapPoints f)) = .ok trimmed ∧
      Batch.assemble gapQuery.filters trimmed = .ok batch ∧
      (∀ series ∈ batch.values, series.times = [second 240]) ∧
      ∀ e, ∃ needed found, Valuation.ofBatch e batch 2 = .error (.insufficientData needed found) := by
  have hids : (gapQuery.filters.map Filter.identifier).Nodup := by decide
  obtain ⟨trimmed, batch, htrimmed, hbatch, -, htimes, -, hfew⟩ :=
    assemble_recentShared hids unlimited_gap
  have hrecent : Batch.recentShared gapQuery.limit
      [[⟨second 120, 1.0⟩, ⟨second 180, 2.0⟩, ⟨second 240, 3.0⟩],
        [⟨second 120, 1.0⟩, ⟨second 240, 3.0⟩]] = [second 240] := by decide
  rw [hrecent] at htimes hfew
  exact ⟨_, trimmed, batch, hids, unlimited_gap, htrimmed, hbatch, htimes,
    fun e => (hfew (List.cons_ne_nil _ _) (by decide) e).mpr (by decide)⟩

/-- Two keys share as many times as are asked for, but the batch holds fewer: a time that both have
is trimmed from the series of one, and the evaluation finds too little. -/
theorem shared_time_lost :
    ∃ all trimmed batch,
      (gapQuery.filters.map Filter.identifier).Nodup ∧
      gapQuery.filters.mapM (fun f => gapQuery.unlimited f (gapPoints f)) = .ok all ∧
      gapQuery.filters.mapM (fun f => gapQuery.answer f (gapPoints f)) = .ok trimmed ∧
      Batch.assemble gapQuery.filters trimmed = .ok batch ∧
      lastOf gapQuery.limit (Batch.shared all) = [second 120, second 240] ∧
      batch.values.map Series.times = [[second 240], [second 240]] ∧
      ∀ e, Valuation.ofBatch e batch gapQuery.limit = .error (.insufficientData 2 1) := by
  have htrimmed := mapM_eq_ok_iff.mpr (forall₂_answer (mapM_eq_ok_iff.mp unlimited_gap))
  refine ⟨_, _, ⟨[("mean_a", [⟨second 240, 3.0⟩]), ("mean_b", [⟨second 240, 3.0⟩])], by decide⟩,
    by decide, unlimited_gap, htrimmed, ?_, by decide, rfl, fun e => rfl⟩
  rfl

end Query

end Vigil
