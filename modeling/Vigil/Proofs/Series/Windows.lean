import Mathlib.Data.List.Sort
import Vigil.Proofs.Series.Alignment

/-!
# Buckets that meet a range

The buckets that a range of times meets are counted by whole intervals since the start of 1970, before
it as well as after it, and whatever part of a bucket the range begins or ends in. A range of `n`
intervals meets `n + 1` of them. A series whose points lie in these buckets, and which has one in each of
the last `n`, is trimmed to exactly these.
-/

namespace Vigil

namespace Bucket

variable {interval : Int} {earliest latest : Instant} {s : Int}

/-- The starts of the buckets that meet a range, in order. -/
def starts (interval : Int) (earliest latest : Instant) : List Int :=
  (List.range (latest.seconds / interval - earliest.seconds / interval + 1).toNat).map fun k : Nat =>
    (earliest.seconds / interval + k) * interval

theorem length_starts (interval : Int) (earliest latest : Instant) :
    (starts interval earliest latest).length =
      (latest.seconds / interval - earliest.seconds / interval + 1).toNat := by
  simp [starts]

theorem ascending_starts (hinterval : 0 < interval) (earliest latest : Instant) :
    (starts interval earliest latest).Pairwise (· < ·) := by
  refine List.pairwise_map.mpr (List.pairwise_lt_range.imp ?_)
  intro k l hlt
  exact Int.mul_lt_mul_of_pos_right (by omega) hinterval

theorem ascending_nanos_starts (hinterval : 0 < interval) (earliest latest : Instant) :
    ((starts interval earliest latest).map fun s => s * (nanosPerSecond : Int)).Pairwise (· < ·) := by
  refine List.pairwise_map.mpr ((ascending_starts hinterval earliest latest).imp ?_)
  intro s s' hlt
  exact Int.mul_lt_mul_of_pos_right hlt (by decide)

theorem start_mem_starts (hinterval : 0 < interval) {t : Instant} (hearliest : earliest ≤ t)
    (hlatest : t ≤ latest) : start interval t ∈ starts interval earliest latest := by
  have hlow : earliest.seconds / interval ≤ t.seconds / interval :=
    Int.ediv_le_ediv hinterval (Int.ediv_le_ediv (by decide) hearliest)
  have hhigh : t.seconds / interval ≤ latest.seconds / interval :=
    Int.ediv_le_ediv hinterval (Int.ediv_le_ediv (by decide) hlatest)
  refine List.mem_map.mpr ⟨(t.seconds / interval - earliest.seconds / interval).toNat, ?_, ?_⟩
  · rw [List.mem_range]
    omega
  · show _ * interval = _ * interval
    congr 1
    omega

/-- A bucket meets a range when some time of the range falls into it. -/
theorem mem_starts_iff (hinterval : 0 < interval) (hrange : earliest ≤ latest) :
    s ∈ starts interval earliest latest ↔
      ∃ t : Instant, earliest ≤ t ∧ t ≤ latest ∧ start interval t = s := by
  constructor
  · intro hs
    obtain ⟨k, hk, rfl⟩ := List.mem_map.mp hs
    rw [List.mem_range] at hk
    rcases Nat.eq_zero_or_pos k with rfl | hpos
    · exact ⟨earliest, Int.le_refl _, hrange, by simp [start]⟩
    · -- the start of a later bucket lies in the range itself
      have hbelow : earliest.seconds < (earliest.seconds / interval + k) * interval := by
        have hnext := Int.lt_ediv_add_one_mul_self earliest.seconds hinterval
        refine lt_of_lt_of_le hnext (Int.mul_le_mul_of_nonneg_right (by omega) hinterval.le)
      have habove : (earliest.seconds / interval + k) * interval ≤ latest.seconds := by
        refine le_trans (Int.mul_le_mul_of_nonneg_right ?_ hinterval.le)
          (Int.ediv_mul_le latest.seconds hinterval.ne')
        omega
      have hcut : (earliest.seconds / interval + k) * interval / interval * interval =
          (earliest.seconds / interval + k) * interval := by
        rw [Int.mul_ediv_cancel _ hinterval.ne']
      generalize (earliest.seconds / interval + k) * interval = s at hbelow habove hcut
      have hfirst := earliest.first_le
      have hlast := latest.le_last
      rw [Instant.seconds, nanosPerSecond] at hbelow habove
      refine ⟨⟨s * nanosPerSecond, ?_, ?_⟩, ?_, ?_, ?_⟩
      · rw [nanosPerSecond]
        omega
      · rw [nanosPerSecond]
        omega
      · show earliest.nanos ≤ s * 1000000000
        omega
      · show s * 1000000000 ≤ latest.nanos
        omega
      · rw [start, Instant.seconds_of_nanos rfl]
        exact hcut
  · rintro ⟨t, hearliest, hlatest, rfl⟩
    exact start_mem_starts hinterval hearliest hlatest

/-- A range as long as `n` intervals meets one bucket more. -/
theorem length_starts_of_intervals {n : Nat} (hinterval : 0 < interval)
    (h : latest.nanos - earliest.nanos = n * (interval * nanosPerSecond)) :
    (starts interval earliest latest).length = n + 1 := by
  have hseconds : latest.seconds = earliest.seconds + n * interval := by
    have hshift : latest.nanos = earliest.nanos + n * interval * nanosPerSecond := by
      rw [Int.mul_assoc]
      omega
    rw [Instant.seconds, hshift, Int.add_mul_ediv_right _ _ (by decide)]
    rfl
  rw [length_starts, hseconds, Int.add_mul_ediv_right _ _ hinterval.ne']
  omega

end Bucket

namespace Query

variable {α : Type}

/-- Of two lists in strict order the one whose members the other has is a selection of it. -/
theorem sublist_of_ascending {r : α → α → Prop} [Std.Antisymm r] [Std.Irrefl r] {some all : List α}
    (hsome : some.Pairwise r) (hall : all.Pairwise r) (h : ∀ a ∈ some, a ∈ all) :
    some.Sublist all :=
  List.sublist_of_subperm_of_pairwise (List.subperm_of_subset hsome.nodup h) hsome hall

/-- A selection of a list that has the last `n` members ends with these. -/
theorem lastOf_of_sublist {n : Nat} {some all : List α} (hnodup : all.Nodup)
    (hsub : some.Sublist all) (hlast : ∀ a ∈ lastOf n all, a ∈ some) :
    lastOf n some = lastOf n all := by
  have hsplit : all = all.take (all.length - n) ++ lastOf n all := (List.take_append_drop _ _).symm
  have hlength := length_lastOf n all
  have hearly : (all.take (all.length - n)).length = all.length - min n all.length := by
    simp only [List.length_take]
    omega
  generalize lastOf n all = last at *
  generalize all.take (all.length - n) = first at *
  rw [hsplit] at hsub hnodup
  obtain ⟨early, late, rfl, hfirst, hlate⟩ := List.sublist_append_iff.mp hsub
  obtain ⟨-, hlastNodup, hdisjoint⟩ := List.nodup_append.mp hnodup
  have hall : last ⊆ late := by
    intro a ha
    rcases List.mem_append.mp (hlast a ha) with hmem | hmem
    · exact absurd rfl (hdisjoint a (hfirst.subset hmem) a ha)
    · exact hmem
  have hlateEq : late = last :=
    hlate.eq_of_length_le (List.subperm_of_subset hlastNodup hall).length_le
  have hearlyLength := hfirst.length_le
  subst hlateEq
  rw [lastOf, List.length_append]
  rcases Nat.le_total n all.length with hle | hle
  · rw [Nat.min_eq_left hle] at hlength
    rw [show early.length + late.length - n = early.length by omega, List.drop_left]
  · rw [Nat.min_eq_right hle] at hlength
    have hnone : early = [] := List.eq_nil_of_length_eq_zero (by omega)
    rw [hnone, show ([] : List α).length + late.length - n = 0 by simp; omega]
    rfl

variable {q : Query} {f : Filter} {raw : List Point} {series : Series} {n : Nat}

/-- A series lies in the buckets that meet the range of the query. -/
theorem nanos_unlimited_sublist (hrange : q.start ≤ q.stop) (h : q.unlimited f raw = .ok series) :
    (series.times.map Instant.nanos).Sublist
      ((Bucket.starts q.bucketSeconds q.start q.stop).map fun s => s * (nanosPerSecond : Int)) := by
  have hseries : (series.times.map Instant.nanos).Pairwise (· < ·) :=
    List.pairwise_map.mpr (ascending_unlimited h)
  have hstarts := Bucket.ascending_nanos_starts q.bucketSeconds_pos q.start q.stop
  refine sublist_of_ascending hseries hstarts ?_
  intro x hx
  obtain ⟨t, ht, rfl⟩ := List.mem_map.mp hx
  obtain ⟨u, hearliest, hlatest, htime⟩ := meets_of_mem_unlimited hrange h ht
  exact List.mem_map.mpr
    ⟨_, Bucket.start_mem_starts q.bucketSeconds_pos hearliest hlatest, htime.symm⟩

end Query

theorem Batch.shared_of_times {all : List Series} {times : List Instant} (hne : all ≠ [])
    (h : ∀ series ∈ all, series.times = times) : Batch.shared all = times := by
  rcases all with _ | ⟨series, rest⟩
  · exact absurd rfl hne
  · have hall : ∀ t ∈ series.times, Batch.inAll (series :: rest) t = true := by
      intro t ht
      rw [h series List.mem_cons_self] at ht
      exact Batch.inAll_iff.mpr fun other hother => by rwa [h other hother]
    rw [Batch.shared, List.filter_eq_self.mpr hall, h series List.mem_cons_self]

end Vigil
