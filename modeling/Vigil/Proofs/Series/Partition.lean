import Vigil.Proofs.Series.Buckets
import Vigil.Proofs.Time.Instants
import Vigil.Store.Tables.Cell

/-!
# Buckets are a partition

Every point of the range is in one bucket, the one that its second falls into, and no other point is in
any. That settles what the buckets are. So it does not matter that the points are sorted by bucket
first: putting them into their buckets one by one, in the order in which they are given, makes the same
buckets. And no integer on the way needs more than 64 bits, however long an interval is.
-/

namespace Vigil

theorem Instant.seconds_bounds (t : Instant) : firstSecond ≤ t.seconds ∧ t.seconds ≤ lastSecond := by
  have hbounds := t.nanos_bounds
  simp only [seconds, firstSecond, lastSecond, nanosPerSecond]
  omega

namespace Bucket

section Putting

variable {points : List (Int × Float)} {buckets other : List (Int × List Float)} {s : Int} {v : Float}

/-- Put a value behind those of its bucket, in a new one if there is none. -/
def put (s : Int) (v : Float) : List (Int × List Float) → List (Int × List Float)
  | [] => [(s, [v])]
  | b :: more =>
    if s < b.1 then (s, [v]) :: b :: more
    else if s = b.1 then (s, b.2 ++ [v]) :: more
    else b :: put s v more

def valuesAt (s : Int) (points : List (Int × Float)) : List Float :=
  (points.filter fun p => p.1 = s).map Prod.snd

theorem valuesAt_append (s : Int) (points more : List (Int × Float)) :
    valuesAt s (points ++ more) = valuesAt s points ++ valuesAt s more := by
  rw [valuesAt, List.filter_append, List.map_append]
  rfl

theorem valuesAt_spread_of_lt (h : ∀ b ∈ buckets, s < b.1) : valuesAt s (spread buckets) = [] := by
  rw [valuesAt, List.map_eq_nil_iff, List.filter_eq_nil_iff]
  intro p hp hsame
  obtain ⟨b, hb, hp⟩ := List.mem_flatMap.mp hp
  obtain ⟨u, -, rfl⟩ := List.mem_map.mp hp
  exact (h b hb).ne' (of_decide_eq_true hsame)

/-- Buckets in order, none of them empty, hold the points that they are made of. -/
structure Holds (points : List (Int × Float)) (buckets : List (Int × List Float)) : Prop where
  ascending : Ascending buckets
  ne_nil : ∀ b ∈ buckets, b.2 ≠ []
  values : ∀ s, valuesAt s (spread buckets) = valuesAt s points

theorem Holds.mem_iff (h : Holds points buckets) {vs : List Float} :
    (s, vs) ∈ buckets ↔ vs ≠ [] ∧ valuesAt s points = vs := by
  have hmem : (s, vs) ∈ gather (spread buckets) ↔ vs ≠ [] ∧ valuesAt s (spread buckets) = vs :=
    mem_gather_iff (pairwise_spread h.ascending)
  rwa [gather_spread h.ascending h.ne_nil, h.values] at hmem

/-- Only one list of buckets holds some points. -/
theorem Holds.unique (h : Holds points buckets) (h' : Holds points other) : buckets = other := by
  refine List.Pairwise.eq_of_mem_iff h.ascending h'.ascending ?_
  rintro ⟨s, vs⟩
  rw [h.mem_iff, h'.mem_iff]

theorem mem_put {b : Int × List Float} (h : b ∈ put s v buckets) : b.1 = s ∨ b ∈ buckets := by
  induction buckets with
  | nil =>
    rw [List.mem_singleton.mp h]
    exact .inl rfl
  | cons c more ih =>
    rw [put] at h
    split at h
    · rcases List.mem_cons.mp h with rfl | h
      · exact .inl rfl
      · exact .inr h
    · split at h
      · rcases List.mem_cons.mp h with rfl | h
        · exact .inl rfl
        · exact .inr (List.mem_cons_of_mem c h)
      · rcases List.mem_cons.mp h with rfl | h
        · exact .inr List.mem_cons_self
        · exact (ih h).imp_right (List.mem_cons_of_mem c)

theorem ascending_put (h : Ascending buckets) : Ascending (put s v buckets) := by
  induction buckets with
  | nil => exact List.pairwise_singleton _ _
  | cons b more ih =>
    obtain ⟨hfirst, hmore⟩ := List.pairwise_cons.mp h
    rw [put]
    split
    · rename_i hless
      refine List.pairwise_cons.mpr ⟨fun c hc => ?_, h⟩
      rcases List.mem_cons.mp hc with rfl | hc
      · exact hless
      · exact hless.trans (hfirst c hc)
    · split
      · rename_i hsame
        exact List.pairwise_cons.mpr ⟨fun c hc => hsame ▸ hfirst c hc, hmore⟩
      · refine List.pairwise_cons.mpr ⟨fun c hc => ?_, ih hmore⟩
        rcases mem_put hc with hs | hc
        · omega
        · exact hfirst c hc

theorem ne_nil_put (h : ∀ b ∈ buckets, b.2 ≠ []) : ∀ b ∈ put s v buckets, b.2 ≠ [] := by
  induction buckets with
  | nil =>
    intro b hb
    rw [List.mem_singleton.mp hb]
    exact List.cons_ne_nil _ _
  | cons c more ih =>
    obtain ⟨hc, hmore⟩ := List.forall_mem_cons.mp h
    rw [put]
    split
    · exact List.forall_mem_cons.mpr ⟨List.cons_ne_nil _ _, h⟩
    · split
      · exact List.forall_mem_cons.mpr ⟨List.append_ne_nil_of_right_ne_nil _ (List.cons_ne_nil _ _), hmore⟩
      · exact List.forall_mem_cons.mpr ⟨hc, ih hmore⟩

/-- A point and later buckets have no values at one start, so their order does not matter. -/
theorem valuesAt_comm_of_lt (h : ∀ b ∈ buckets, s < b.1) (r : Int) :
    valuesAt r [(s, v)] ++ valuesAt r (spread buckets) =
      valuesAt r (spread buckets) ++ valuesAt r [(s, v)] := by
  by_cases hr : s = r
  · subst hr
    rw [valuesAt_spread_of_lt h, List.append_nil, List.nil_append]
  · have hnone : valuesAt r [(s, v)] = [] := by
      rw [valuesAt, List.filter_cons_of_neg (by simpa using hr)]
      rfl
    rw [hnone, List.append_nil, List.nil_append]

/-- A point that is put comes behind all points of its bucket. -/
theorem valuesAt_put (h : Ascending buckets) (r : Int) :
    valuesAt r (spread (put s v buckets)) = valuesAt r (spread buckets) ++ valuesAt r [(s, v)] := by
  induction buckets with
  | nil => rfl
  | cons b more ih =>
    obtain ⟨hfirst, hmore⟩ := List.pairwise_cons.mp h
    rw [put]
    split
    · rename_i hless
      show valuesAt r ([(s, v)] ++ spread (b :: more)) = _
      rw [valuesAt_append]
      exact valuesAt_comm_of_lt (List.forall_mem_cons.mpr ⟨hless, fun c hc => hless.trans (hfirst c hc)⟩) r
    · split
      · rename_i hsame
        subst hsame
        show valuesAt r ((b.2 ++ [v]).map (fun u => (b.1, u)) ++ spread more) =
          valuesAt r (b.2.map (fun u => (b.1, u)) ++ spread more) ++ _
        rw [List.map_append, List.append_assoc, valuesAt_append, valuesAt_append, valuesAt_append,
          List.append_assoc]
        exact congrArg _ (valuesAt_comm_of_lt hfirst r)
      · show valuesAt r (b.2.map (fun u => (b.1, u)) ++ spread (put s v more)) =
          valuesAt r (b.2.map (fun u => (b.1, u)) ++ spread more) ++ _
        rw [valuesAt_append, valuesAt_append, ih hmore, List.append_assoc]

theorem holds_nil : Holds [] [] :=
  ⟨.nil, fun _ h => absurd h List.not_mem_nil, fun _ => rfl⟩

/-- One point more is held when it is put. -/
theorem Holds.put (h : Holds points buckets) (s : Int) (v : Float) :
    Holds (points ++ [(s, v)]) (put s v buckets) :=
  ⟨ascending_put h.ascending, ne_nil_put h.ne_nil, fun r => by
    rw [valuesAt_put h.ascending, h.values, valuesAt_append]⟩

/-- The points that are put one after the other are held. -/
theorem Holds.foldl_put (h : Holds points buckets) (more : List (Int × Float)) :
    Holds (points ++ more) (more.foldl (fun buckets p => Bucket.put p.1 p.2 buckets) buckets) := by
  induction more generalizing points buckets with
  | nil =>
    rw [List.append_nil]
    exact h
  | cons p more ih =>
    have hrest := ih (h.put p.1 p.2)
    rwa [List.append_assoc, List.singleton_append] at hrest

/-- The points that are gathered in the order of their starts are held. -/
theorem holds_gather (points : List (Int × Float)) :
    Holds points (gather (points.mergeSort fun a b => a.1 ≤ b.1)) := by
  refine ⟨ascending_gather (pairwise_mergeSort_starts _), fun _ => ne_nil_of_mem_gather, fun s => ?_⟩
  rw [spread_gather, valuesAt, filter_mergeSort_starts]
  rfl

end Putting

/-- An integer that fits into 64 bits. -/
def word? (n : Int) : Option Int :=
  if leastWord ≤ n ∧ n ≤ greatestWord then some n else none

theorem word?_of_bounds {n : Int} (hleast : leastWord ≤ n) (hgreatest : n ≤ greatestWord) :
    word? n = some n :=
  if_pos ⟨hleast, hgreatest⟩

/-- Division toward the past in 64 bits: the quotient toward zero, one less if a negative remainder is left.
The divisor is positive. -/
def floorDiv? (n k : Int) : Option Int := do
  let quotient ← word? (n.tdiv k)
  let remainder ← word? (n.tmod k)
  if remainder < 0 then word? (quotient - 1) else some quotient

/-- The first second of a bucket, in 64 bits. -/
def start? (interval : Int) (t : Instant) : Option Int := do
  let floor ← floorDiv? t.seconds interval
  word? (floor * interval)

/-- The buckets of the points of a range, put one by one, if 64 bits are enough. -/
def fill? (raw : List Point) (earliest latest : Instant) (interval : Int) :
    Option (List (Int × List Float)) :=
  (within earliest latest raw).foldlM (fun buckets p => do
    let s ← start? (max interval 1) p.time
    return put s p.value buckets) []

section Words

variable {raw : List Point} {earliest latest : Instant} {interval : Int}

/-- The start of a bucket fits into 64 bits, however long the bucket is. -/
theorem start_bounds (hone : 1 ≤ interval) (hle : interval ≤ greatestWord) (t : Instant) :
    leastWord ≤ start interval t ∧ start interval t ≤ greatestWord := by
  have hpos : 0 < interval := hone
  obtain ⟨hfirst, hlast⟩ := t.seconds_bounds
  obtain ⟨-, hlow, hhigh⟩ := (start_eq_iff_dvd hpos (t := t)).mp rfl
  simp only [firstSecond, lastSecond] at hfirst hlast
  simp only [greatestWord, leastWord] at hle ⊢
  by_cases hlong : t.seconds < 0 ∧ -interval ≤ t.seconds
  · -- a negative time lies in the bucket before 1970 if that is long enough for it
    have hstart : start interval t = -interval :=
      (start_eq_iff_dvd hpos).mpr ⟨Int.dvd_neg.mpr (Int.dvd_refl _), hlong.2, by omega⟩
    omega
  · omega

theorem ediv_eq_ite_tdiv {n k : Int} (hk : 0 < k) :
    n / k = if n.tmod k < 0 then n.tdiv k - 1 else n.tdiv k := by
  have hsplit := Int.mul_tdiv_add_tmod n k
  have hless := Int.tmod_lt_of_pos n hk
  have hmore := Int.lt_tmod_of_pos n hk
  rw [Int.mul_comm] at hsplit
  refine (Int.ediv_eq_iff_of_pos hk).mpr ?_
  split
  · rw [Int.sub_mul, Int.one_mul]
    omega
  · omega

/-- Division toward the past does not leave the 64 bits. -/
theorem floorDiv?_eq {n k : Int} (hn : (n.natAbs : Int) ≤ greatestWord) (hk : 0 < k)
    (hle : k ≤ greatestWord) : floorDiv? n k = some (n / k) := by
  have hquotient := Int.natAbs_tdiv_le_natAbs n k
  have hless := Int.tmod_lt_of_pos n hk
  have hmore := Int.lt_tmod_of_pos n hk
  have hfits : leastWord ≤ n.tdiv k - 1 ∧ n.tdiv k ≤ greatestWord ∧ leastWord ≤ n.tmod k := by
    unfold leastWord greatestWord at *
    omega
  rw [floorDiv?, word?_of_bounds (by omega) hfits.2.1, word?_of_bounds hfits.2.2 (by omega),
    ediv_eq_ite_tdiv hk, apply_ite some, ← word?_of_bounds hfits.1 (by omega)]
  rfl

/-- Nothing on the way to the start of a bucket is too large. -/
theorem start?_eq (hone : 1 ≤ interval) (hle : interval ≤ greatestWord) (t : Instant) :
    start? interval t = some (start interval t) := by
  have hseconds : (t.seconds.natAbs : Int) ≤ greatestWord := by
    obtain ⟨hfirst, hlast⟩ := t.seconds_bounds
    simp only [firstSecond, lastSecond] at hfirst hlast
    unfold greatestWord
    omega
  obtain ⟨hleast, hgreatest⟩ := start_bounds hone hle t
  rw [start?, floorDiv?_eq hseconds hone hle]
  exact word?_of_bounds hleast hgreatest

example : start? greatestWord .first = some (-greatestWord) := by decide

/-- Put one by one in 64 bits, the points make the same buckets. -/
theorem fill?_eq (hle : interval ≤ greatestWord) :
    fill? raw earliest latest interval = some (ofPoints raw earliest latest interval) := by
  have hlong : max interval 1 ≤ greatestWord := by
    unfold greatestWord at *
    omega
  have hput : Holds (placed raw earliest latest interval)
      ((placed raw earliest latest interval).foldl (fun buckets p => put p.1 p.2 buckets) []) :=
    holds_nil.foldl_put _
  rw [ofPoints_eq, (holds_gather _).unique hput, placed, List.foldl_map]
  simp only [fill?, start?_eq (Int.le_max_right interval 1) hlong]
  exact List.foldlM_pure

end Words

/-- Buckets part the points of a range: they ascend, none is empty, each starts at a multiple of the interval
and holds the values of the points of the interval that begins there, in the order of the points; and every
point of the range is in one of them and no other. -/
structure Partitions (raw : List Point) (earliest latest : Instant) (interval : Int)
    (buckets : List (Int × List Float)) : Prop where
  ascending : Ascending buckets
  ne_nil : ∀ b ∈ buckets, b.2 ≠ []
  multiple : ∀ b ∈ buckets, interval ∣ b.1
  values : ∀ b ∈ buckets, b.2 = ((within earliest latest raw).filter fun p =>
    b.1 ≤ p.time.seconds ∧ p.time.seconds < b.1 + interval).map Point.value
  exactlyOne : ∀ p ∈ within earliest latest raw,
    ∃! b, b ∈ buckets ∧ b.1 ≤ p.time.seconds ∧ p.time.seconds < b.1 + interval

section Partition

variable {raw : List Point} {earliest latest : Instant} {interval : Int}
  {buckets : List (Int × List Float)}

theorem ne_nil_ofPoints : ∀ b ∈ ofPoints raw earliest latest interval, b.2 ≠ [] :=
  fun _ => ne_nil_of_mem_gather

/-- Two buckets of one start are one. -/
theorem Ascending.eq_of_fst_eq (h : Ascending buckets) {b c : Int × List Float} (hb : b ∈ buckets)
    (hc : c ∈ buckets) (hsame : b.1 = c.1) : b = c := by
  have hnodup : (buckets.map Prod.fst).Nodup := List.pairwise_map.mpr (h.imp fun hlt => hlt.ne)
  exact List.inj_on_of_nodup_map hnodup hb hc hsame

/-- The points of a bucket are those whose second lies in its interval. -/
theorem filter_start_eq {points : List Point} {s : Int} (hinterval : 0 < interval) (hs : interval ∣ s) :
    (points.filter fun p => start interval p.time = s) =
      points.filter fun p => s ≤ p.time.seconds ∧ p.time.seconds < s + interval := by
  refine List.filter_congr fun p _ => decide_eq_decide.mpr ?_
  rw [start_eq_iff_dvd hinterval, and_iff_right hs]

theorem partitions_ofPoints (raw : List Point) (earliest latest : Instant) (interval : Int) :
    Partitions raw earliest latest (max interval 1) (ofPoints raw earliest latest interval) := by
  have hpos : 0 < max interval 1 := by omega
  have hmultiple : ∀ b ∈ ofPoints raw earliest latest interval, max interval 1 ∣ b.1 := by
    intro b hb
    obtain ⟨p, -, -, -, hp⟩ := exists_mem_ofPoints_iff.mp ⟨b.2, hb⟩
    exact ((start_eq_iff_dvd hpos).mp hp).1
  refine ⟨ascending_ofPoints, ne_nil_ofPoints, hmultiple, fun b hb => ?_, fun p hp => ?_⟩
  · rw [← filter_start_eq hpos (hmultiple b hb)]
    exact (mem_ofPoints_iff.mp hb).2.symm
  · obtain ⟨hraw, hrange⟩ := mem_within.mp hp
    obtain ⟨vs, hmem⟩ := exists_mem_ofPoints_iff.mpr ⟨p, hraw, hrange.1, hrange.2, rfl⟩
    refine ⟨_, ⟨hmem, ((start_eq_iff_dvd hpos).mp rfl).2⟩, ?_⟩
    rintro c ⟨hc, hsecond⟩
    have hstart := (start_eq_iff_dvd hpos).mpr ⟨hmultiple c hc, hsecond⟩
    exact ascending_ofPoints.eq_of_fst_eq hc hmem hstart.symm

/-- There is only one way to part the points of a range. -/
theorem Partitions.unique (h : Partitions raw earliest latest (max interval 1) buckets) :
    buckets = ofPoints raw earliest latest interval := by
  have hpos : 0 < max interval 1 := by omega
  have hmem : ∀ b ∈ buckets, b ∈ ofPoints raw earliest latest interval := by
    intro b hb
    refine mem_ofPoints_iff.mpr ⟨h.ne_nil b hb, ?_⟩
    rw [filter_start_eq hpos (h.multiple b hb)]
    exact (h.values b hb).symm
  refine h.ascending.eq_of_mem_iff ascending_ofPoints fun b => ⟨hmem b, fun hb => ?_⟩
  -- a bucket has a point, and the bucket of this point is no other
  obtain ⟨p, hraw, hearliest, hlatest, hp⟩ := exists_mem_ofPoints_iff.mp ⟨b.2, hb⟩
  obtain ⟨c, ⟨hc, hsecond⟩, -⟩ := h.exactlyOne p (mem_within.mpr ⟨hraw, hearliest, hlatest⟩)
  have hsame : b.1 = c.1 := hp.symm.trans ((start_eq_iff_dvd hpos).mpr ⟨h.multiple c hc, hsecond⟩)
  rw [ascending_ofPoints.eq_of_fst_eq hb (hmem c hc) hsame]
  exact hc

/-- All values of a range are in the buckets, each as often as it was measured. -/
theorem perm_values_ofPoints (raw : List Point) (earliest latest : Instant) (interval : Int) :
    ((ofPoints raw earliest latest interval).flatMap Prod.snd).Perm
      ((within earliest latest raw).map Point.value) := by
  have hspread : (ofPoints raw earliest latest interval).flatMap Prod.snd =
      ((placed raw earliest latest interval).mergeSort fun a b => a.1 ≤ b.1).map Prod.snd := by
    rw [← spread_gather (List.mergeSort _ _), spread, List.map_flatMap, ← ofPoints_eq]
    congr 1
    funext b
    rw [List.map_map]
    exact (List.map_id _).symm
  rw [hspread]
  refine ((List.mergeSort_perm _ _).map Prod.snd).trans ?_
  rw [placed, List.map_map]
  exact List.Perm.refl _

/-- For points at any times, any range and any interval of 64 bits, one that is not positive counting as one
second: the buckets part the points of the range, and no other list does; they hold the values of the
range and no others; and they are what comes of putting the points one by one with every integer in 64
bits. -/
theorem ofPoints_partition (raw : List Point) (earliest latest : Instant) (interval : Int64) :
    Partitions raw earliest latest (max interval.toInt 1)
      (ofPoints raw earliest latest interval.toInt) ∧
    (∀ buckets, Partitions raw earliest latest (max interval.toInt 1) buckets →
      buckets = ofPoints raw earliest latest interval.toInt) ∧
    ((ofPoints raw earliest latest interval.toInt).flatMap Prod.snd).Perm
      ((within earliest latest raw).map Point.value) ∧
    fill? raw earliest latest interval.toInt =
      some (ofPoints raw earliest latest interval.toInt) := by
  have hword : interval.toInt ≤ greatestWord := by
    have hlt := interval.toInt_lt
    unfold greatestWord
    omega
  exact ⟨partitions_ofPoints _ _ _ _, fun _ h => h.unique, perm_values_ofPoints _ _ _ _, fill?_eq hword⟩

end Partition

end Bucket

end Vigil
