import Vigil.Proofs.Series.Trimming
import Vigil.Proofs.Store.Readings

/-!
# What memory keeps of a series

However measurements arrive, the points kept under a device and a name are the last ones of all that
were ever written there, put in order of time: a point that comes late goes to its place, and the point
that gives way is always the oldest. What is evicted never comes back, so the order of arrival does not
matter as long as no two points of a series have one time.
-/

namespace Vigil

abbrev Point.Precedes (p q : Point) : Prop := p.time ≤ q.time

/-- Points in order of time, those of one time in the order in which they came. -/
def inOrder (points : List Point) : Series :=
  points.mergeSort fun p q => decide (p.Precedes q)

section InOrder

variable {p q : Point} {points more : List Point} {series older : Series}

theorem Point.precedes_trans (p q r : Point) (hpq : decide (p.Precedes q) = true)
    (hqr : decide (q.Precedes r) = true) : decide (p.Precedes r) = true := by
  simp only [decide_eq_true_iff, Instant.le_def] at *
  omega

theorem Point.precedes_total (p q : Point) :
    (decide (p.Precedes q) || decide (q.Precedes p)) = true := by
  simp only [Bool.or_eq_true, decide_eq_true_iff, Instant.le_def]
  omega

theorem perm_inOrder (points : List Point) : (inOrder points).Perm points :=
  List.mergeSort_perm _ _

theorem pairwise_inOrder (points : List Point) : (inOrder points).Pairwise Point.Precedes :=
  (List.pairwise_mergeSort Point.precedes_trans Point.precedes_total points).imp of_decide_eq_true

theorem inOrder_of_pairwise (h : series.Pairwise Point.Precedes) : inOrder series = series :=
  List.mergeSort_of_pairwise (h.imp decide_eq_true)

/-- Points with times of their own have one order. -/
theorem inOrder_of_perm (h : more.Perm points) (htimes : (points.map Point.time).Nodup) :
    inOrder more = inOrder points := by
  have hperm : (inOrder more).Perm (inOrder points) :=
    (perm_inOrder more).trans (h.trans (perm_inOrder points).symm)
  refine hperm.eq_of_pairwise ?_ (pairwise_inOrder more) (pairwise_inOrder points)
  intro a b ha hb hab hba
  have hmem : a ∈ points := h.mem_iff.mp ((perm_inOrder more).mem_iff.mp ha)
  have htime : a.time = b.time := Instant.ext (Int.le_antisymm hab hba)
  exact List.inj_on_of_nodup_map htimes hmem ((perm_inOrder points).mem_iff.mp hb) htime

/-- A point that came before all others goes in front of those of its time. -/
theorem inOrder_cons (p : Point) (points : List Point) :
    inOrder (p :: points) = (inOrder points).orderedInsert Point.Precedes p := by
  obtain ⟨earlier, later, hwith, hwithout, hearlier⟩ :=
    List.mergeSort_cons Point.precedes_trans Point.precedes_total p points
  have hsorted := pairwise_inOrder (p :: points)
  rw [inOrder, hwith, List.pairwise_append, List.pairwise_cons] at hsorted
  obtain ⟨-, ⟨hlater, -⟩, -⟩ := hsorted
  rw [inOrder, inOrder, hwith, hwithout]
  clear hwith hwithout
  induction earlier with
  | nil =>
    cases later with
    | nil => rfl
    | cons q later =>
      exact (List.orderedInsert_cons_of_le Point.Precedes _ (hlater q List.mem_cons_self)).symm
  | cons q earlier ih =>
    have hafter : ¬ p.Precedes q := by simpa using hearlier q List.mem_cons_self
    have hrest := ih fun r hr => hearlier r (List.mem_cons_of_mem _ hr)
    rw [List.cons_append, List.cons_append, List.orderedInsert_of_not_le Point.Precedes _ hafter, hrest]

/-- It does not matter which is put in first, a point that came before the others or one that came
after them. -/
theorem insertPoint_orderedInsert (series : Series) :
    Memory.insertPoint q (series.orderedInsert Point.Precedes p) =
      (Memory.insertPoint q series).orderedInsert Point.Precedes p := by
  induction series with
  | nil =>
    by_cases hpq : p.time ≤ q.time <;> simp [Memory.insertPoint, hpq]
  | cons r rest ih =>
    by_cases hpr : p.time ≤ r.time <;> by_cases hrq : r.time ≤ q.time
    · have hpq : p.time ≤ q.time := Int.le_trans hpr hrq
      simp [Memory.insertPoint, hpr, hrq, hpq]
    · by_cases hpq : p.time ≤ q.time <;> simp [Memory.insertPoint, hpr, hrq, hpq]
    · simp [Memory.insertPoint, hpr, hrq, ih]
    · have hpq : ¬ p.time ≤ q.time := by
        simp only [Instant.le_def] at *
        omega
      simp [Memory.insertPoint, hpr, hrq, hpq]

/-- A point that came after all others goes behind those of its time. -/
theorem inOrder_concat (points : List Point) (q : Point) :
    inOrder (points ++ [q]) = Memory.insertPoint q (inOrder points) := by
  induction points with
  | nil => simp [inOrder, Memory.insertPoint]
  | cons p points ih =>
    rw [List.cons_append, inOrder_cons, ih, inOrder_cons, insertPoint_orderedInsert]

end InOrder

namespace Memory

variable {m m' : Memory} {w : Measurement} {ws : List Measurement} {device key name : String}
  {q : Point} {series older : Series}

/-- A point comes to stand among the later points, or they stay as they are. -/
theorem drop_insertPoint (h : (older ++ series).Pairwise Point.Precedes) (q : Point) :
    (insertPoint q (older ++ series)).drop (older.length + 1) = (insertPoint q series).tail := by
  induction older with
  | nil => exact List.drop_one
  | cons p older ih =>
    rw [List.cons_append, List.pairwise_cons] at h
    rw [List.cons_append, insertPoint, List.length_cons]
    by_cases hpq : p.time ≤ q.time
    · rw [if_pos hpq, List.drop_succ_cons, ih h.2]
    · rw [if_neg hpq, List.drop_succ_cons, List.drop_succ_cons, List.drop_left]
      cases series with
      | nil => rfl
      | cons r series =>
        -- the later points all come after one that comes after the new point
        have hrq : ¬ r.time ≤ q.time := fun hrq =>
          hpq (Int.le_trans (h.1 r (List.mem_append_right _ List.mem_cons_self)) hrq)
        rw [insertPoint, if_neg hrq, List.tail_cons]

theorem length_insertPoint (q : Point) (series : Series) :
    (insertPoint q series).length = series.length + 1 :=
  (perm_insertPoint q series).length_eq

/-- Of the last points and a new one the last points are kept. -/
theorem keepPoint_lastOf (h : series.Pairwise Point.Precedes) (q : Point) :
    keepPoint q (Query.lastOf capacity series) = Query.lastOf capacity (insertPoint q series) := by
  have hlength := Query.length_lastOf capacity series
  rw [keepPoint, length_insertPoint, hlength]
  by_cases hfull : capacity ≤ series.length
  · have hsplit := List.take_append_drop (series.length - capacity) series
    have holder : (series.take (series.length - capacity)).length = series.length - capacity :=
      List.length_take_of_le (Nat.sub_le _ _)
    have hdrop := drop_insertPoint (hsplit.symm ▸ h) q
    rw [hsplit, holder] at hdrop
    have hcount : series.length + 1 - capacity = series.length - capacity + 1 := Nat.succ_sub hfull
    rw [if_pos (by omega), Query.lastOf, Query.lastOf, length_insertPoint, hcount, hdrop]
  · have hall : Query.lastOf capacity series = series := by
      rw [Query.lastOf, Nat.sub_eq_zero_of_le (Nat.le_of_not_le hfull), List.drop_zero]
    rw [if_neg (by omega), hall, Query.lastOf, length_insertPoint,
      Nat.sub_eq_zero_of_le (by omega), List.drop_zero]

/-- The points kept of a device under a name. -/
def points (m : Memory) (device key : String) : Series :=
  ((m.devices.get? device).bind fun d => d.series.get? key).getD []

/-- The points that measurements make of a device under a name, in the order of their writing. -/
def written (ws : List Measurement) (device key : String) : List Point :=
  ((ws.flatMap Measurement.readings).filter (Reading.isUnder device key)).map Reading.point

def keepAll (points : List Point) (series : Series) : Series :=
  points.foldl (fun series p => keepPoint p series) series

/-- Of points that come one after the other the last ones in order of time are kept. -/
theorem keepAll_eq_lastOf (points : List Point) :
    keepAll points [] = Query.lastOf capacity (inOrder points) := by
  induction points using List.reverseRecOn with
  | nil => simp [keepAll, inOrder, Query.lastOf]
  | append_singleton points q ih =>
    have hstep : keepAll (points ++ [q]) [] = keepPoint q (keepAll points []) := List.foldl_concat ..
    rw [hstep, ih, keepPoint_lastOf (pairwise_inOrder points), inOrder_concat]

/-- The values of a measurement join the series of their names, and other series stay. -/
theorem getD_foldl_keepPoint (time : Instant) (values : List (String × Float)) (series : Named Series)
    (key : String) :
    ((values.foldl (fun series (name, value) =>
      series.insert name (keepPoint ⟨time, value⟩ ((series.get? name).getD []))) series).get? key).getD [] =
      keepAll ((values.filter fun e => e.1 = key).map fun e => ⟨time, e.2⟩)
        ((series.get? key).getD []) := by
  induction values generalizing series with
  | nil => rfl
  | cons e values ih =>
    rw [List.foldl_cons, ih]
    rw [List.filter_cons]
    by_cases hkey : e.1 = key
    · rw [if_pos (decide_eq_true hkey), List.map_cons, ← hkey, Named.get?_insert_self]
      rfl
    · rw [if_neg (by simpa using hkey), Named.get?_insert_of_ne (Ne.symm hkey)]

theorem written_singleton (w : Measurement) (key : String) :
    written [w] w.device key = (w.values.entries.filter fun e => e.1 = key).map fun e => ⟨w.time, e.2⟩ := by
  rw [written, List.flatMap_singleton, Measurement.readings, List.filter_map, List.map_map]
  refine congrArg (List.map _) (List.filter_congr ?_)
  intro e _
  simp [Reading.isUnder]

theorem written_of_ne (h : w.device ≠ device) (key : String) : written [w] device key = [] := by
  rw [written, List.flatMap_singleton, List.map_eq_nil_iff, List.filter_eq_nil_iff]
  intro r hr
  obtain ⟨e, -, rfl⟩ := List.mem_map.mp hr
  simp [Reading.isUnder, h]

theorem written_append (ws more : List Measurement) (device key : String) :
    written (ws ++ more) device key = written ws device key ++ written more device key := by
  rw [written, List.flatMap_append, List.filter_append, List.map_append]
  rfl

/-- A measurement adds its own points, to the series of its device alone. -/
theorem points_of_write (h : m.write w = .ok m') (device key : String) :
    m'.points device key = keepAll (written [w] device key) (m.points device key) := by
  cases h
  by_cases hdevice : w.device = device
  · rw [← hdevice, written_singleton]
    show (((m.devices.insert w.device _).get? w.device).bind fun d => d.series.get? key).getD [] = _
    rw [Named.get?_insert_self, Option.bind_some]
    refine (getD_foldl_keepPoint w.time w.values.entries _ key).trans ?_
    cases hfound : m.devices.get? w.device with
    | none =>
      rw [points, hfound]
      rfl
    | some d =>
      rw [points, hfound]
      rfl
  · rw [written_of_ne hdevice, points, Named.get?_insert_of_ne (Ne.symm hdevice)]
    rfl

/-- Measurements are always written, and each series keeps the points that they add to it. -/
theorem exists_writes_points (ws : List Measurement) (m : Memory) :
    ∃ m', ws.foldlM write m = .ok m' ∧ ∀ device key,
      m'.points device key = keepAll (written ws device key) (m.points device key) := by
  induction ws generalizing m with
  | nil => exact ⟨m, rfl, fun _ _ => rfl⟩
  | cons w ws ih =>
    obtain ⟨next, hnext⟩ : ∃ next, m.write w = .ok next := ⟨_, rfl⟩
    obtain ⟨m', hm', hpoints⟩ := ih next
    refine ⟨m', by rw [List.foldlM_cons]; exact bind_eq_ok_iff.mpr ⟨next, hnext, hm'⟩, ?_⟩
    intro device key
    have hall : written (w :: ws) device key = written [w] device key ++ written ws device key :=
      written_append [w] ws device key
    rw [hpoints, points_of_write hnext, hall]
    exact List.foldl_append.symm

/-- Of every series the last points are kept, in order of time. -/
theorem exists_writes_latest (ws : List Measurement) :
    ∃ m, ws.foldlM write .empty = .ok m ∧ ∀ device key,
      m.points device key = Query.lastOf capacity (inOrder (written ws device key)) := by
  obtain ⟨m, hm, hpoints⟩ := exists_writes_points ws .empty
  exact ⟨m, hm, fun device key => (hpoints device key).trans (keepAll_eq_lastOf _)⟩

/-- Points that are not too many are all among the last ones. -/
theorem perm_latest {points : List Point} (h : points.length ≤ capacity) :
    (Query.lastOf capacity (inOrder points)).Perm points := by
  have hall := (perm_inOrder points).length_eq
  rw [Query.lastOf, Nat.sub_eq_zero_of_le (by omega), List.drop_zero]
  exact perm_inOrder points

/-- A device is read as the points that are kept of it. -/
theorem raw_device (m : Memory) (device key : String) :
    m.raw (.device device) key = inOrder (m.points device key) := by
  have hothers : ∀ e ∈ m.devices.entries, e.1 ≠ device →
      (if isOf (.device device) e.1 e.2 then (e.2.series.get? key).getD [] else []) = [] := by
    intro e _ hne
    rw [isOf, if_neg (by simpa using hne)]
  have hflat : m.devices.entries.flatMap (fun e =>
      if isOf (.device device) e.1 e.2 then (e.2.series.get? key).getD [] else []) =
        m.points device key := by
    rw [Named.flatMap_of_name hothers, points]
    cases m.devices.get? device with
    | none => rfl
    | some d => simp [isOf]
  rw [raw, inOrder, ← hflat]

/-- What memory keeps of a series after any measurements: the last points, as many as it holds, of all
that were written, in order of time. So nothing is lost below the capacity, and where every point has a
time of its own the order of the measurements makes no difference. -/
theorem points_latest_of_writes (ws : List Measurement) :
    ∃ m, ws.foldlM write .empty = .ok m ∧
      (∀ device key,
        m.points device key = Query.lastOf capacity (inOrder (written ws device key)) ∧
        (m.points device key).Pairwise Point.Precedes ∧
        ((written ws device key).length ≤ capacity →
          (m.points device key).Perm (written ws device key)) ∧
        m.raw (.device device) key = m.points device key) ∧
      ∀ more : List Measurement, more.Perm ws →
        (∀ device key, ((written ws device key).map Point.time).Nodup) →
        ∃ m', more.foldlM write .empty = .ok m' ∧
          ∀ device key, m'.points device key = m.points device key := by
  obtain ⟨m, hm, hpoints⟩ := exists_writes_latest ws
  refine ⟨m, hm, ?_, ?_⟩
  · intro device key
    have hsorted : (m.points device key).Pairwise Point.Precedes := by
      rw [hpoints]
      exact (pairwise_inOrder _).sublist (List.drop_sublist _ _)
    refine ⟨hpoints device key, hsorted, ?_, ?_⟩
    · intro hroom
      rw [hpoints]
      exact perm_latest hroom
    · rw [raw_device, inOrder_of_pairwise hsorted]
  · intro more hmore htimes
    obtain ⟨m', hm', hpoints'⟩ := exists_writes_latest more
    refine ⟨m', hm', fun device key => ?_⟩
    have hwritten : (written more device key).Perm (written ws device key) :=
      ((hmore.flatMap_right _).filter _).map _
    rw [hpoints', hpoints, inOrder_of_perm hwritten (htimes device key)]

/-- Three values of one device, the last of which is the oldest, and the same in another order. -/
theorem points_latest_of_late_write :
    let at_ (nanos : Nat) : Instant := (Instant.ofNanos? nanos).getD .epoch
    let values (v : Float) : Named Float := .ofList [("t", v)]
    let ws : List Measurement :=
      [⟨"d", ["g"], values 1.5, at_ 5⟩, ⟨"d", [], values 2.5, at_ 7⟩, ⟨"d", ["g"], values 3.5, at_ 3⟩]
    (∀ device key, ((written ws device key).map Point.time).Nodup) ∧
      ∃ m m', ws.foldlM write .empty = .ok m ∧ ws.reverse.foldlM write .empty = .ok m' ∧
        m.points "d" "t" = [⟨at_ 3, 3.5⟩, ⟨at_ 5, 1.5⟩, ⟨at_ 7, 2.5⟩] ∧
        m'.points "d" "t" = m.points "d" "t" := by
  intro at_ values ws
  have htimes : ((ws.flatMap Measurement.readings).map fun r => r.point.time).Nodup := by decide
  have hnodup : ∀ device key, ((written ws device key).map Point.time).Nodup := by
    intro device key
    rw [written, List.map_map]
    exact htimes.sublist (List.filter_sublist.map _)
  obtain ⟨m, hm, hpoints, hperm⟩ := points_latest_of_writes ws
  obtain ⟨m', hm', hsame⟩ := hperm ws.reverse (List.reverse_perm ws) hnodup
  have hkept : m.points "d" "t" = [⟨at_ 3, 3.5⟩, ⟨at_ 5, 1.5⟩, ⟨at_ 7, 2.5⟩] := by
    rw [(hpoints "d" "t").1, ← keepAll_eq_lastOf]
    rfl
  exact ⟨hnodup, m, m', hm, hm', hkept, hsame "d" "t"⟩

end Memory

end Vigil
