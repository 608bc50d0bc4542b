import Vigil.Proofs.Series.Slots

/-!
# Ranges that are filled

A range is filled when two measurements of one value fall into each of its buckets, as late as they can.
Then they fall into each bucket of every shorter range with the same end, whatever part of its first
bucket that range begins in. Two values are enough for every selector, so the inputs of a filter are
steady and there is one in every slot.
-/

namespace Vigil

namespace Bucket

variable {interval : Int} {first earliest latest t u : Instant} {raw : List Point}
  {time : Int → Instant} {v : Float}

/-- The time is the latest of its bucket up to the end of a range. -/
def IsLatest (interval : Int) (latest : Instant) (s : Int) (t : Instant) : Prop :=
  t ≤ latest ∧ start interval t = s ∧ ∀ u : Instant, u ≤ latest → start interval u = s → u ≤ t

/-- A time falls into the bucket that its second lies in. -/
theorem start_eq_iff (hinterval : 0 < interval) : start interval t = start interval u ↔
    start interval u ≤ t.seconds ∧ t.seconds < start interval u + interval :=
  (start_eq_iff_dvd hinterval).trans (and_iff_right (Int.dvd_mul_left _ _))

theorem nanos_lt_start_add (hinterval : 0 < interval) (t : Instant) :
    t.nanos < (start interval t + interval) * nanosPerSecond := by
  have hseconds := ((start_eq_iff (t := t) hinterval).mp rfl).2
  rw [Instant.seconds] at hseconds
  generalize start interval t + interval = bound at hseconds ⊢
  rw [nanosPerSecond] at *
  omega

theorem start_add_eq (interval : Int) (t : Instant) :
    start interval t + interval = (t.seconds / interval + 1) * interval := by
  rw [Int.add_mul, Int.one_mul]
  rfl

/-- A later bucket lies behind the whole of an earlier one. -/
theorem start_eq_or_add_le (hinterval : 0 < interval) (h : t ≤ u) :
    start interval u = start interval t ∨ start interval t + interval ≤ start interval u := by
  by_cases hlate : start interval t + interval ≤ u.seconds
  · refine .inr ?_
    rw [start_add_eq] at hlate ⊢
    exact Int.mul_le_mul_of_nonneg_right (Int.le_ediv_of_mul_le hinterval hlate) hinterval.le
  · have hseconds : t.seconds ≤ u.seconds := Int.ediv_le_ediv (by decide) h
    have hlow : start interval t ≤ t.seconds := ((start_eq_iff (t := t) hinterval).mp rfl).1
    exact .inl ((start_eq_iff hinterval).mpr ⟨by omega, by omega⟩)

theorem exists_isLatest (hinterval : 0 < interval) (h : u ≤ latest) :
    ∃ t, IsLatest interval latest (start interval u) t := by
  by_cases hsame : start interval latest = start interval u
  · exact ⟨latest, Int.le_refl _, hsame, fun v hv _ => hv⟩
  · -- the last nanosecond of the bucket, which ends before the range does
    obtain ⟨hlow, hhigh⟩ := (start_eq_iff (u := u) hinterval).mp rfl
    have hend : start interval u + interval ≤ latest.seconds := by
      have hseconds : u.seconds ≤ latest.seconds := Int.ediv_le_ediv (by decide) h
      have hbeyond := mt (start_eq_iff (t := latest) hinterval).mpr hsame
      omega
    have hfirst := u.first_le
    have hlast := latest.le_last
    rw [Instant.seconds, nanosPerSecond] at hlow hhigh hend
    refine ⟨⟨(start interval u + interval) * nanosPerSecond - 1, ?_, ?_⟩, ?_, ?_, ?_⟩
    · rw [nanosPerSecond]
      omega
    · rw [nanosPerSecond]
      omega
    · show (start interval u + interval) * 1000000000 - 1 ≤ latest.nanos
      omega
    · rw [start_eq_iff hinterval]
      show _ ≤ ((start interval u + interval) * 1000000000 - 1) / 1000000000 ∧
        ((start interval u + interval) * 1000000000 - 1) / 1000000000 < _
      omega
    · intro v _ hv
      have hvhigh := ((start_eq_iff hinterval).mp hv).2
      rw [Instant.seconds, nanosPerSecond] at hvhigh
      show v.nanos ≤ (start interval u + interval) * 1000000000 - 1
      omega

/-- Two points of one value fall into every bucket of a range, as late as they can. -/
def Filled (interval : Int) (first latest : Instant) (v : Float) (raw : List Point) : Prop :=
  ∃ time : Int → Instant,
    (∀ s ∈ starts interval first latest, IsLatest interval latest s (time s)) ∧
    raw.Perm ((starts interval first latest ++ starts interval first latest).map
      fun s => ⟨time s, v⟩)

theorem exists_filled (hinterval : 0 < interval) (first latest : Instant) (hrange : first ≤ latest) :
    ∃ times : List Instant, ∀ (v : Float) (raw : List Point),
      raw.Perm (times.map fun t => ⟨t, v⟩) → Filled interval first latest v raw := by
  have hlatest : ∀ s ∈ starts interval first latest, ∃ t, IsLatest interval latest s t := by
    intro s hs
    obtain ⟨u, -, hu, rfl⟩ := (mem_starts_iff hinterval hrange).mp hs
    exact exists_isLatest hinterval hu
  have : Nonempty Instant := ⟨first⟩
  choose! time htime using hlatest
  refine ⟨(starts interval first latest ++ starts interval first latest).map time, ?_⟩
  intro v raw hraw
  rw [List.map_map] at hraw
  exact ⟨time, htime, hraw⟩

/-- The latest times of buckets are within a shorter range when the buckets meet it. -/
theorem starts_filter (hinterval : 0 < interval) (hfirst : first ≤ earliest)
    (hrange : earliest ≤ latest)
    (htime : ∀ s ∈ starts interval first latest, IsLatest interval latest s (time s)) :
    (starts interval first latest).filter (fun s => earliest ≤ time s) =
      starts interval earliest latest := by
  have hascending := ascending_starts hinterval first latest
  refine (hascending.filter _).eq_of_mem_iff (ascending_starts hinterval earliest latest) ?_
  intro s
  rw [List.mem_filter, decide_eq_true_iff, mem_starts_iff hinterval hrange]
  constructor
  · rintro ⟨hs, hearliest⟩
    obtain ⟨hlatest, hstart, -⟩ := htime s hs
    exact ⟨time s, hearliest, hlatest, hstart⟩
  · rintro ⟨u, hearliest, hlatest, rfl⟩
    have hs := start_mem_starts hinterval (Int.le_trans hfirst hearliest) hlatest
    exact ⟨hs, Int.le_trans hearliest ((htime _ hs).2.2 u hlatest rfl)⟩

theorem perm_placed {raw' : List Point} (h : raw.Perm raw') (earliest latest : Instant)
    (interval : Int) :
    (placed raw earliest latest interval).Perm (placed raw' earliest latest interval) :=
  (h.filter _).map _

theorem placed_append (raw raw' : List Point) : placed (raw ++ raw') earliest latest interval =
    placed raw earliest latest interval ++ placed raw' earliest latest interval := by
  rw [placed, within, List.filter_append, List.map_append]
  rfl

/-- A filled range gives two values to each bucket of a shorter range with the same end. -/
theorem ofPoints_of_filled (hinterval : 0 < interval) (hfirst : first ≤ earliest)
    (hrange : earliest ≤ latest) (h : Filled interval first latest v raw) :
    ofPoints raw earliest latest interval =
      (starts interval earliest latest).map fun s => (s, [v, v]) := by
  obtain ⟨time, htime, hraw⟩ := h
  have hmax : max interval 1 = interval := Int.max_eq_left hinterval
  have honce : placed ((starts interval first latest).map fun s => ⟨time s, v⟩) earliest latest
      interval = (starts interval earliest latest).map fun s => (s, v) := by
    rw [← starts_filter hinterval hfirst hrange htime, placed, within, List.filter_map, List.map_map]
    have hkept : (starts interval first latest).filter
        ((fun p : Point => decide (earliest ≤ p.time) && decide (p.time ≤ latest)) ∘
          fun s => ⟨time s, v⟩) =
        (starts interval first latest).filter fun s => earliest ≤ time s := by
      refine List.filter_congr ?_
      intro s hs
      have hlatest := (htime s hs).1
      simp [hlatest]
    rw [hkept]
    refine List.map_congr_left ?_
    intro s hs
    have hstart := (htime s (List.mem_of_mem_filter hs)).2.1
    simp only [Function.comp_apply, hmax, hstart]
  have hspread : spread ((starts interval earliest latest).map fun s => (s, [v, v])) =
      (starts interval earliest latest).flatMap fun s => [(s, v), (s, v)] := by
    rw [spread, List.flatMap_map]
    rfl
  have hplaced := perm_placed hraw earliest latest interval
  rw [List.map_append, placed_append, honce] at hplaced
  refine ofPoints_of_perm (v := v) ?_ ?_ ?_ ?_
  · exact List.pairwise_map.mpr (ascending_starts hinterval earliest latest)
  · intro b hb
    obtain ⟨s, -, rfl⟩ := List.mem_map.mp hb
    exact List.cons_ne_nil _ _
  · intro b hb u hu
    obtain ⟨s, -, rfl⟩ := List.mem_map.mp hb
    simpa using hu
  · rw [hspread]
    refine hplaced.trans ?_
    have hpairs := List.map_append_flatMap_perm (starts interval earliest latest)
      (fun s => (s, v)) (fun s => [(s, v)])
    rwa [← List.map_eq_flatMap] at hpairs

end Bucket

/-- The middle of values that are not none. -/
theorem Selector.exists_middle {values : List Float} (h : values ≠ []) :
    ∃ x, Selector.middle values = some x := by
  have hpos : 0 < values.length := List.length_pos_iff.mpr h
  have hlength : (values.mergeSort fun a b => decide (rank a ≤ rank b)).length = values.length :=
    List.length_mergeSort _
  unfold middle
  dsimp only
  have hhalf : (values.mergeSort fun a b => decide (rank a ≤ rank b)).length / 2 <
      (values.mergeSort fun a b => decide (rank a ≤ rank b)).length := by omega
  have hbefore : (values.mergeSort fun a b => decide (rank a ≤ rank b)).length / 2 - 1 <
      (values.mergeSort fun a b => decide (rank a ≤ rank b)).length := by omega
  rw [List.getElem?_eq_getElem hhalf, List.getElem?_eq_getElem hbefore]
  split
  · exact ⟨_, rfl⟩
  · exact ⟨_, rfl⟩

/-- Only the deviation of a single value is left open. -/
theorem Selector.exists_apply {selector : Selector} (hselector : selector ≠ .stddev)
    {values : List Float} (h : values ≠ []) : ∃ x, selector.apply values = some x := by
  have hsome : values.isEmpty = false := List.isEmpty_eq_false_iff.mpr h
  unfold apply
  rw [hsome, if_neg Bool.false_ne_true]
  cases selector with
  | stddev => exact absurd rfl hselector
  | median => exact exists_middle h
  | first => exact ⟨_, List.head?_eq_some_head h⟩
  | last => exact ⟨_, List.getLast?_eq_some_getLast h⟩
  | _ => exact ⟨_, rfl⟩

/-- Two values are enough for every selector. -/
theorem Selector.exists_apply_pair (selector : Selector) :
    ∃ value, selector.apply [1.0, 1.0] = some value := by
  cases selector with
  | median =>
    refine ⟨(1.0 + 1.0) / 2.0, ?_⟩
    show middle [1.0, 1.0] = _
    rw [middle, List.mergeSort_of_pairwise (by simp)]
    rfl
  | _ => exact ⟨_, rfl⟩

namespace Query

variable {q : Query} {f : Filter} {raw : List Point} {first : Instant} {selector : Selector}

/-- The inputs of a filter over a filled range. -/
theorem grouped_of_filled (hfirst : first ≤ q.rawStart f) (hrange : q.start ≤ q.stop)
    (h : Bucket.Filled q.bucketSeconds first q.stop 1.0 raw) :
    (q.grouped selector f raw).Steady ∧ (q.grouped selector f raw).times = q.inputSlots f := by
  obtain ⟨value, hvalue⟩ := selector.exists_apply_pair
  have hgrouped : q.grouped selector f raw = (q.inputSlots f).map fun t => ⟨t, value⟩ := by
    rw [grouped, Bucket.ofPoints_of_filled q.bucketSeconds_pos hfirst
      (Int.le_trans (q.rawStart_le f) hrange) h, List.filterMap_map, inputSlots, Bucket.slots,
      List.map_filterMap]
    refine List.filterMap_congr ?_
    intro s _
    simp only [Function.comp_apply, hvalue]
    cases Instant.ofSeconds? s <;> rfl
  have hspaced := Bucket.spaced_slots q.bucketSeconds_pos (q.rawStart f) q.stop
  rw [hgrouped]
  refine ⟨List.pairwise_map.mpr (hspaced.imp fun hgap => ⟨rfl, hgap⟩), ?_⟩
  rw [Series.times, List.map_map]
  exact List.map_id _

end Query

end Vigil
