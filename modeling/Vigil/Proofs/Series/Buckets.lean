import Mathlib.Data.List.Sort
import Vigil.Series.Bucket

/-!
# What buckets hold

Gathering puts points into runs of one start and loses none: spread out again, the buckets are the
points in their order. Of points sorted by their start the buckets strictly ascend, so there is one
bucket for each start, and it holds the values of all points of that start, in the order in which they
were given. No bucket is empty. So from some second on the buckets do not depend on where the range
begins before it.
-/

namespace Vigil.Bucket

def spread (buckets : List (Int × List Float)) : List (Int × Float) :=
  buckets.flatMap fun (s, vs) => vs.map fun v => (s, v)

def Ascending (buckets : List (Int × List Float)) : Prop :=
  buckets.Pairwise fun a b => a.1 < b.1

section Gathering

variable {points : List (Int × Float)} {s : Int} {v : Float}

theorem gather_of_nil (h : gather points = []) : gather ((s, v) :: points) = [(s, [v])] := by
  rw [gather, h]

theorem gather_of_same {vs : List Float} {more : List (Int × List Float)}
    (h : gather points = (s, vs) :: more) : gather ((s, v) :: points) = (s, v :: vs) :: more := by
  rw [gather, h]
  exact if_pos rfl

theorem gather_of_ne {s' : Int} {vs : List Float} {more : List (Int × List Float)} (hne : s ≠ s')
    (h : gather points = (s', vs) :: more) :
    gather ((s, v) :: points) = (s, [v]) :: (s', vs) :: more := by
  rw [gather, h]
  exact if_neg hne

/-- A point joins the first bucket, or makes one of its own before it. -/
theorem gather_cons_cases (s : Int) (v : Float) (points : List (Int × Float)) :
    (∃ vs more, gather points = (s, vs) :: more ∧
      gather ((s, v) :: points) = (s, v :: vs) :: more) ∨
    (gather ((s, v) :: points) = (s, [v]) :: gather points ∧
      ∀ b more, gather points = b :: more → s ≠ b.1) := by
  rcases hrest : gather points with _ | ⟨⟨s', vs⟩, more⟩
  · exact .inr ⟨gather_of_nil hrest, by rintro b more ⟨⟩⟩
  · by_cases hsame : s = s'
    · subst hsame
      exact .inl ⟨vs, more, rfl, gather_of_same hrest⟩
    · refine .inr ⟨gather_of_ne hsame hrest, ?_⟩
      rintro b more' ⟨⟩
      exact hsame

/-- Gathering loses no point and moves none. -/
theorem spread_gather (points : List (Int × Float)) : spread (gather points) = points := by
  induction points with
  | nil => rfl
  | cons p points ih =>
    obtain ⟨s, v⟩ := p
    rcases gather_cons_cases s v points with ⟨vs, more, hrest, hcons⟩ | ⟨hcons, -⟩
    · rw [hrest] at ih
      rw [hcons, ← ih]
      rfl
    · rw [hcons]
      exact congrArg ((s, v) :: ·) ih

theorem ne_nil_of_mem_gather {b : Int × List Float} (h : b ∈ gather points) : b.2 ≠ [] := by
  induction points with
  | nil => cases h
  | cons p points ih =>
    obtain ⟨s, v⟩ := p
    rcases gather_cons_cases s v points with ⟨vs, more, hrest, hcons⟩ | ⟨hcons, -⟩
    · rw [hcons] at h
      rcases List.mem_cons.mp h with rfl | h
      · exact List.cons_ne_nil _ _
      · exact ih (by rw [hrest]; exact List.mem_cons_of_mem _ h)
    · rw [hcons] at h
      rcases List.mem_cons.mp h with rfl | h
      · exact List.cons_ne_nil _ _
      · exact ih h

/-- There is a bucket exactly for each start of a point. -/
theorem exists_mem_gather_iff : (∃ vs, (s, vs) ∈ gather points) ↔ ∃ v, (s, v) ∈ points := by
  constructor
  · rintro ⟨vs, hmem⟩
    obtain ⟨v, hv⟩ := List.exists_mem_of_ne_nil _ (ne_nil_of_mem_gather hmem)
    rw [← spread_gather points]
    exact ⟨v, List.mem_flatMap.mpr ⟨_, hmem, List.mem_map.mpr ⟨v, hv, rfl⟩⟩⟩
  · rintro ⟨v, hv⟩
    rw [← spread_gather points] at hv
    obtain ⟨⟨s', vs⟩, hmem, hin⟩ := List.mem_flatMap.mp hv
    obtain ⟨u, -, heq⟩ := List.mem_map.mp hin
    cases heq
    exact ⟨vs, hmem⟩

theorem ascending_gather (h : points.Pairwise fun a b => a.1 ≤ b.1) :
    Ascending (gather points) := by
  induction points with
  | nil => exact .nil
  | cons p points ih =>
    obtain ⟨s, v⟩ := p
    obtain ⟨hfirst, hsorted⟩ := List.pairwise_cons.mp h
    have hrest := ih hsorted
    have hle : ∀ b ∈ gather points, s ≤ b.1 := by
      intro b hb
      obtain ⟨u, hu⟩ := exists_mem_gather_iff.mp ⟨b.2, hb⟩
      exact hfirst _ hu
    rcases gather_cons_cases s v points with ⟨vs, more, heq, hcons⟩ | ⟨hcons, hne⟩
    · rw [heq] at hrest
      rw [hcons]
      exact List.pairwise_cons.mpr (List.pairwise_cons.mp hrest)
    · rw [hcons]
      refine List.pairwise_cons.mpr ⟨?_, hrest⟩
      -- the first bucket differs from `s`, and the others lie behind it
      rcases hfound : gather points with _ | ⟨c, more⟩
      · intro b hb
        cases hb
      · rw [hfound] at hrest hle
        have hc : s < c.1 := lt_of_le_of_ne (hle c List.mem_cons_self) (hne c more hfound)
        intro b hb
        rcases List.mem_cons.mp hb with rfl | hb
        · exact hc
        · exact hc.trans ((List.pairwise_cons.mp hrest).1 b hb)

theorem gather_append {vs : List Float} (hvs : vs ≠ [])
    (h : ∀ b more, gather points = b :: more → s ≠ b.1) :
    gather (vs.map (fun v => (s, v)) ++ points) = (s, vs) :: gather points := by
  induction vs with
  | nil => exact absurd rfl hvs
  | cons v vs ih =>
    rw [List.map_cons, List.cons_append]
    cases vs with
    | nil =>
      rcases hrest : gather points with _ | ⟨⟨s', us⟩, more⟩
      · exact gather_of_nil hrest
      · exact gather_of_ne (h _ _ hrest) hrest
    | cons u vs => exact gather_of_same (ih (List.cons_ne_nil _ _))

/-- Buckets in order, none of them empty, are found again. -/
theorem gather_spread {buckets : List (Int × List Float)} (hasc : Ascending buckets)
    (hne : ∀ b ∈ buckets, b.2 ≠ []) : gather (spread buckets) = buckets := by
  induction buckets with
  | nil => rfl
  | cons b buckets ih =>
    obtain ⟨hfirst, hrest⟩ := List.pairwise_cons.mp hasc
    have hmore := ih hrest fun c hc => hne c (List.mem_cons_of_mem _ hc)
    have hb : gather (b.2.map (fun v => (b.1, v)) ++ spread buckets) =
        b :: gather (spread buckets) := by
      refine gather_append (hne b List.mem_cons_self) ?_
      rintro c more hc
      rw [hmore] at hc
      exact (hfirst c (by rw [hc]; exact List.mem_cons_self)).ne
    rw [hmore] at hb
    exact hb

theorem pairwise_spread {buckets : List (Int × List Float)} (hasc : Ascending buckets) :
    (spread buckets).Pairwise fun a b => a.1 ≤ b.1 := by
  refine List.pairwise_flatMap.mpr ⟨?_, hasc.imp ?_⟩
  · intro b _
    exact List.pairwise_map.mpr (List.pairwise_of_forall fun _ _ => Int.le_refl _)
  · intro b c hlt x hx y hy
    obtain ⟨_, -, rfl⟩ := List.mem_map.mp hx
    obtain ⟨_, -, rfl⟩ := List.mem_map.mp hy
    exact hlt.le

/-- Of the points of ascending buckets those of one start are the values of its bucket. -/
theorem filter_spread {buckets : List (Int × List Float)} {vs : List Float} (hasc : Ascending buckets)
    (hmem : (s, vs) ∈ buckets) : ((spread buckets).filter fun p => p.1 = s).map Prod.snd = vs := by
  induction buckets with
  | nil => cases hmem
  | cons b buckets ih =>
    obtain ⟨hfirst, hrest⟩ := List.pairwise_cons.mp hasc
    have hsplit : spread (b :: buckets) = b.2.map (fun v => (b.1, v)) ++ spread buckets := rfl
    rw [hsplit, List.filter_append, List.map_append]
    rcases List.mem_cons.mp hmem with rfl | hmem
    · have hself : (vs.map fun v => (s, v)).filter (fun p => p.1 = s) = vs.map fun v => (s, v) :=
        List.filter_eq_self.mpr (by simp)
      have hnone : (spread buckets).filter (fun p => p.1 = s) = [] := by
        refine List.filter_eq_nil_iff.mpr ?_
        intro p hp hsame
        obtain ⟨c, hc, hp⟩ := List.mem_flatMap.mp hp
        obtain ⟨u, -, rfl⟩ := List.mem_map.mp hp
        exact (hfirst c hc).ne' (of_decide_eq_true hsame)
      rw [hself, hnone, List.map_nil, List.append_nil, List.map_map]
      exact List.map_id _
    · have hnone : (b.2.map fun v => (b.1, v)).filter (fun p => p.1 = s) = [] := by
        refine List.filter_eq_nil_iff.mpr ?_
        intro p hp hsame
        obtain ⟨u, -, rfl⟩ := List.mem_map.mp hp
        exact (hfirst _ hmem).ne (of_decide_eq_true hsame)
      rw [hnone, ih hrest hmem]
      rfl

/-- A bucket of sorted points holds all values of its start, in their order. -/
theorem mem_gather_iff {vs : List Float} (h : points.Pairwise fun a b => a.1 ≤ b.1) :
    (s, vs) ∈ gather points ↔
      vs ≠ [] ∧ (points.filter fun p => p.1 = s).map Prod.snd = vs := by
  have hvalues : ∀ us, (s, us) ∈ gather points →
      (points.filter fun p => p.1 = s).map Prod.snd = us := by
    intro us hus
    have hspread := filter_spread (ascending_gather h) hus
    rwa [spread_gather] at hspread
  constructor
  · exact fun hmem => ⟨ne_nil_of_mem_gather hmem, hvalues vs hmem⟩
  · rintro ⟨hne, rfl⟩
    obtain ⟨v, hv⟩ := List.exists_mem_of_ne_nil _ hne
    obtain ⟨p, hp, -⟩ := List.mem_map.mp hv
    obtain ⟨hp, hs⟩ := List.mem_filter.mp hp
    obtain ⟨us, hus⟩ := exists_mem_gather_iff.mpr ⟨p.2, show (s, p.2) ∈ points by
      rw [← of_decide_eq_true hs]; exact hp⟩
    rwa [hvalues us hus]

/-- Sorting by starts leaves the points of one start in their order. -/
theorem filter_mergeSort_starts (points : List (Int × Float)) (s : Int) :
    ((points.mergeSort fun a b => a.1 ≤ b.1).filter fun p => p.1 = s) =
      points.filter fun p => p.1 = s := by
  have hone : (points.filter fun p => p.1 = s).Pairwise fun a b => decide (a.1 ≤ b.1) = true := by
    refine List.pairwise_of_forall_mem_list ?_
    intro a ha b hb
    have hsa := of_decide_eq_true (List.mem_filter.mp ha).2
    have hsb := of_decide_eq_true (List.mem_filter.mp hb).2
    exact decide_eq_true (hsa.trans hsb.symm).le
  have hsub := (List.sublist_mergeSort (by intro a b c; simpa using Int.le_trans)
    (by intro a b; simpa using Int.le_total a.1 b.1) hone List.filter_sublist).filter fun p => p.1 = s
  have hlength := ((List.mergeSort_perm points fun a b => a.1 ≤ b.1).filter
    fun p => p.1 = s).length_eq
  rw [List.filter_filter] at hsub
  simp only [Bool.and_self] at hsub
  exact (hsub.eq_of_length hlength.symm).symm

end Gathering

section Points

variable {raw : List Point} {earliest latest : Instant} {interval : Int} {s : Int}

/-- The points within a range, each with the start of its bucket. -/
def placed (raw : List Point) (earliest latest : Instant) (interval : Int) : List (Int × Float) :=
  (within earliest latest raw).map fun p => (start (max interval 1) p.time, p.value)

theorem ofPoints_eq (raw : List Point) (earliest latest : Instant) (interval : Int) :
    ofPoints raw earliest latest interval =
      gather ((placed raw earliest latest interval).mergeSort fun a b => a.1 ≤ b.1) := rfl

/-- Points that stand in the order of their buckets are gathered as they stand. -/
theorem ofPoints_of_pairwise
    (h : (placed raw earliest latest interval).Pairwise fun a b => a.1 ≤ b.1) :
    ofPoints raw earliest latest interval = gather (placed raw earliest latest interval) := by
  rw [ofPoints_eq, List.mergeSort_of_pairwise (h.imp fun hle => decide_eq_true hle)]

theorem pairwise_mergeSort_starts (points : List (Int × Float)) :
    (points.mergeSort fun a b => a.1 ≤ b.1).Pairwise fun a b => a.1 ≤ b.1 := by
  have hsorted : (points.mergeSort fun a b => a.1 ≤ b.1).Pairwise
      fun a b => decide (a.1 ≤ b.1) = true :=
    List.pairwise_mergeSort (by intro a b c; simpa using Int.le_trans)
      (by intro a b; simpa using Int.le_total a.1 b.1) _
  exact hsorted.imp of_decide_eq_true

/-- Points of one value are gathered into the buckets that they are the points of. -/
theorem ofPoints_of_perm {buckets : List (Int × List Float)} {v : Float}
    (hasc : Ascending buckets) (hne : ∀ b ∈ buckets, b.2 ≠ []) (hv : ∀ b ∈ buckets, ∀ u ∈ b.2, u = v)
    (h : (placed raw earliest latest interval).Perm (spread buckets)) :
    ofPoints raw earliest latest interval = buckets := by
  have hvalue : ∀ x ∈ spread buckets, x.2 = v := by
    intro x hx
    obtain ⟨b, hb, hx⟩ := List.mem_flatMap.mp hx
    obtain ⟨u, hu, rfl⟩ := List.mem_map.mp hx
    exact hv b hb u hu
  have hperm := (List.mergeSort_perm (placed raw earliest latest interval)
    fun a b => a.1 ≤ b.1).trans h
  rw [ofPoints_eq, List.Perm.eq_of_pairwise ?_ (pairwise_mergeSort_starts _) (pairwise_spread hasc)
    hperm, gather_spread hasc hne]
  intro x y hx hy hxy hyx
  exact Prod.ext (Int.le_antisymm hxy hyx)
    ((hvalue x (hperm.mem_iff.mp hx)).trans (hvalue y hy).symm)

theorem mem_within {p : Point} :
    p ∈ within earliest latest raw ↔ p ∈ raw ∧ earliest ≤ p.time ∧ p.time ≤ latest := by
  simp [within]

theorem ascending_ofPoints : Ascending (ofPoints raw earliest latest interval) := by
  rw [ofPoints_eq]
  exact ascending_gather (pairwise_mergeSort_starts _)

/-- There is a bucket exactly for each interval that a point of the range falls into. -/
theorem exists_mem_ofPoints_iff :
    (∃ vs, (s, vs) ∈ ofPoints raw earliest latest interval) ↔
      ∃ p ∈ raw, earliest ≤ p.time ∧ p.time ≤ latest ∧ start (max interval 1) p.time = s := by
  rw [ofPoints_eq, exists_mem_gather_iff]
  constructor
  · rintro ⟨v, hv⟩
    obtain ⟨p, hp, heq⟩ := List.mem_map.mp (List.mem_mergeSort.mp hv)
    cases heq
    obtain ⟨hraw, hearliest, hlatest⟩ := mem_within.mp hp
    exact ⟨p, hraw, hearliest, hlatest, rfl⟩
  · rintro ⟨p, hraw, hearliest, hlatest, rfl⟩
    exact ⟨p.value, List.mem_mergeSort.mpr
      (List.mem_map.mpr ⟨p, mem_within.mpr ⟨hraw, hearliest, hlatest⟩, rfl⟩)⟩

/-- A bucket holds the values of all points of the range that fall into its interval, in their
order. -/
theorem mem_ofPoints_iff {vs : List Float} : (s, vs) ∈ ofPoints raw earliest latest interval ↔
    vs ≠ [] ∧ ((within earliest latest raw).filter fun p => start (max interval 1) p.time = s).map
      Point.value = vs := by
  rw [ofPoints_eq, mem_gather_iff (pairwise_mergeSort_starts _), filter_mergeSort_starts, placed,
    List.filter_map, List.map_map]
  rfl

/-- A bucket starts at the multiple of the interval that the second of a time lies less than one interval
behind. -/
theorem start_eq_iff_dvd (hinterval : 0 < interval) {t : Instant} :
    start interval t = s ↔ interval ∣ s ∧ s ≤ t.seconds ∧ t.seconds < s + interval := by
  constructor
  · rintro rfl
    have hhigh := Int.lt_ediv_add_one_mul_self t.seconds hinterval
    rw [Int.add_mul, Int.one_mul] at hhigh
    exact ⟨Int.dvd_mul_left _ _, Int.ediv_mul_le _ hinterval.ne', hhigh⟩
  · rintro ⟨⟨n, rfl⟩, hlow, hhigh⟩
    rw [Int.mul_comm] at hlow hhigh ⊢
    rw [start, (Int.ediv_eq_iff_of_pos hinterval).mpr ⟨hlow, hhigh⟩]

theorem nanos_start_le (hinterval : 0 < interval) (t : Instant) :
    start interval t * nanosPerSecond ≤ t.nanos :=
  (Int.mul_le_mul_of_nonneg_right (Int.ediv_mul_le t.seconds hinterval.ne') (by decide)).trans
    (Int.ediv_mul_le t.nanos (by decide))

instance asymm_ascending : Std.Asymm fun a b : Int × List Float => a.1 < b.1 :=
  ⟨fun _ _ h h' => Int.lt_asymm h h'⟩

/-- From a second on, buckets are the same in all ranges that begin no later and end alike. -/
theorem ofPoints_filter {first : Instant} {bound : Int}
    (hearliest : earliest.nanos ≤ bound * nanosPerSecond) (hfirst : first.nanos ≤ bound * nanosPerSecond) :
    (ofPoints raw earliest latest interval).filter (fun b => bound ≤ b.1) =
      (ofPoints raw first latest interval).filter fun b => bound ≤ b.1 := by
  have hstart : ∀ t : Instant, bound ≤ start (max interval 1) t →
      bound * nanosPerSecond ≤ t.nanos := fun t hbound =>
    (Int.mul_le_mul_of_nonneg_right hbound (by decide)).trans
      (nanos_start_le (by omega) t)
  refine (ascending_ofPoints.filter _).eq_of_mem_iff (ascending_ofPoints.filter _) ?_
  rintro ⟨s, vs⟩
  rw [List.mem_filter, List.mem_filter, mem_ofPoints_iff, mem_ofPoints_iff, decide_eq_true_iff]
  refine and_congr_left fun hs => ?_
  have hsame : (within earliest latest raw).filter (fun p => start (max interval 1) p.time = s) =
      (within first latest raw).filter fun p => start (max interval 1) p.time = s := by
    rw [within, within, List.filter_filter, List.filter_filter]
    refine List.filter_congr fun p _ => ?_
    by_cases hp : start (max interval 1) p.time = s
    · have hbound := hstart p.time (by rw [hp]; exact hs)
      rw [decide_eq_true (show earliest ≤ p.time from hearliest.trans hbound),
        decide_eq_true (show first ≤ p.time from hfirst.trans hbound)]
    · rw [decide_eq_false hp, Bool.false_and, Bool.false_and]
  rw [hsame]

end Points

end Vigil.Bucket
