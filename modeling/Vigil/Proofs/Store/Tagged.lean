import Vigil.Proofs.Store.Capacity
import Vigil.Proofs.Store.Points
import Vigil.Proofs.Store.Queries

/-!
# Points of a group

A device may be written with other groups than before. The store in tables keeps every value with the
groups of its own measurement, so a group is read as the values that were measured in it. The store in
memory keeps one list of groups for a device, the latest: a device that moves takes all its points along
into the groups where it is now, and out of those where it was.
-/

namespace Vigil

namespace Measurement

/-- The groups that a device was last written with, none if it never was. -/
def latestGroups (ws : List Measurement) (device : String) : List String :=
  ws.foldl (fun groups w => if w.device = device then w.groups else groups) []

/-- The readings under a name whose own measurement lists a group. -/
def tagged (ws : List Measurement) (group key : String) : List Reading :=
  (ws.flatMap readings).filter (Reading.isWanted (.group group) key)

/-- The readings under a name of devices whose latest measurement lists a group. -/
def stationed (ws : List Measurement) (group key : String) : List Reading :=
  (ws.flatMap readings).filter fun r => r.key = key && (latestGroups ws r.device).contains group

/-- While the latest groups of the devices say what each measurement said, both are the same readings. -/
theorem stationed_eq_tagged {ws : List Measurement} {group key : String}
    (h : ∀ r ∈ ws.flatMap readings, r.key = key →
      (group ∈ latestGroups ws r.device ↔ group ∈ r.groups)) :
    stationed ws group key = tagged ws group key := by
  refine List.filter_congr ?_
  intro r hr
  by_cases hkey : r.key = key
  · simp [Reading.isWanted, hkey, h r hr hkey]
  · simp [Reading.isWanted, hkey]

end Measurement

open Measurement (latestGroups tagged stationed)

/-- Readings device by device, for devices that are all different and leave none out. -/
theorem perm_flatMap_devices {names : List String} {rs : List Reading} (hnodup : names.Nodup)
    (hall : ∀ r ∈ rs, r.device ∈ names) :
    (names.flatMap fun name => rs.filter fun r => r.device = name).Perm rs := by
  induction names generalizing rs with
  | nil =>
    rw [List.eq_nil_iff_forall_not_mem.mpr fun r hr => List.not_mem_nil (hall r hr)]
    exact .refl _
  | cons name names ih =>
    rw [List.nodup_cons] at hnodup
    have hothers : ∀ r ∈ rs.filter (fun r => !decide (r.device = name)), r.device ∈ names := by
      intro r hr
      have hne : r.device ≠ name := by simpa using (List.mem_filter.mp hr).2
      exact (List.mem_cons.mp (hall r (List.mem_of_mem_filter hr))).resolve_left hne
    -- the readings of the other devices are not among those of the first
    have hrest : (names.flatMap fun other => rs.filter fun r => r.device = other) =
        names.flatMap fun other =>
          (rs.filter fun r => !decide (r.device = name)).filter fun r => r.device = other := by
      refine List.flatMap_congr ?_
      intro other hother
      have hne : other ≠ name := fun heq => hnodup.1 (heq ▸ hother)
      rw [List.filter_filter]
      refine List.filter_congr ?_
      intro r _
      by_cases hdevice : r.device = other <;> simp [hdevice, hne]
    rw [List.flatMap_cons, hrest]
    exact ((ih hnodup.2 hothers).append_left _).trans (List.filter_append_perm _ rs)

namespace Memory

variable {m m' : Memory} {w : Measurement} {ws : List Measurement} {device group key : String}

/-- The groups that a device is kept with. -/
def groupsOf (m : Memory) (device : String) : List String :=
  ((m.devices.get? device).map Device.groups).getD []

/-- A measurement replaces the groups of its device. -/
theorem groupsOf_of_write (h : m.write w = .ok m') (device : String) :
    m'.groupsOf device = if w.device = device then w.groups else m.groupsOf device := by
  cases h
  by_cases hdevice : w.device = device
  · rw [if_pos hdevice, groupsOf, ← hdevice, Named.get?_insert_self]
    rfl
  · rw [if_neg hdevice, groupsOf, Named.get?_insert_of_ne (Ne.symm hdevice)]
    rfl

theorem groupsOf_of_writes (h : ws.foldlM write m = .ok m') (device : String) :
    m'.groupsOf device =
      ws.foldl (fun groups w => if w.device = device then w.groups else groups) (m.groupsOf device) := by
  induction ws generalizing m with
  | nil =>
    cases h
    rfl
  | cons w ws ih =>
    rw [List.foldlM_cons] at h
    obtain ⟨next, hnext, hrest⟩ := bind_eq_ok_iff.mp h
    rw [ih hrest, groupsOf_of_write hnext, List.foldl_cons]

/-- The readings of a device under a name. -/
theorem written_eq (ws : List Measurement) (device key : String) :
    written ws device key = ((ws.flatMap Measurement.readings).filter fun r =>
      r.device = device && r.key = key).map Reading.point := rfl

/-- A group is read as the points of the devices that are in it now. -/
theorem perm_raw_stationed (h : ws.foldlM write .empty = .ok m)
    (hroom : ∀ device key, (written ws device key).length ≤ capacity) (group key : String) :
    (m.raw (.group group) key).Perm ((stationed ws group key).map Reading.point) := by
  obtain ⟨m', hm', hlatest⟩ := exists_writes_latest ws
  obtain rfl : m' = m := Except.ok.inj (hm'.symm.trans h)
  have hpoints : ∀ device, (m'.points device key).Perm (written ws device key) := by
    intro device
    rw [hlatest]
    exact perm_latest (hroom device key)
  have hgroups : ∀ device, m'.groupsOf device = latestGroups ws device :=
    groupsOf_of_writes h
  have hdevices : ∀ r ∈ stationed ws group key, r.device ∈ m'.devices.names := by
    intro r hr
    have hgroup : group ∈ m'.groupsOf r.device := by
      rw [hgroups]
      simpa using (Bool.and_eq_true_iff.mp (List.mem_filter.mp hr).2).2
    by_contra hnew
    rw [groupsOf, Named.get?_eq_none hnew] at hgroup
    exact List.not_mem_nil hgroup
  have hparts := (perm_flatMap_devices m'.devices.nodup_names hdevices).map Reading.point
  refine (List.mergeSort_perm _ _).trans (.trans ?_ hparts)
  rw [Named.names, List.flatMap_map, List.map_flatMap]
  refine List.Perm.flatMap_left _ ?_
  rintro ⟨name, d⟩ he
  have hget : m'.devices.get? name = some d := Named.get?_eq_some_iff.mpr he
  have hnow : d.groups = latestGroups ws name := by
    rw [← hgroups, groupsOf, hget]
    rfl
  have hpart : ((stationed ws group key).filter fun r => r.device = name) =
      (ws.flatMap Measurement.readings).filter fun r =>
        (r.device = name && r.key = key) && d.groups.contains group := by
    rw [stationed, List.filter_filter, hnow]
    refine List.filter_congr ?_
    intro r _
    by_cases hdevice : r.device = name <;> simp [hdevice]
  by_cases hin : group ∈ d.groups
  · have hkept := hpoints name
    rw [points, hget, written_eq] at hkept
    simpa [isOf, hin, hpart] using hkept
  · simp [isOf, hin, hpart]

end Memory

/-- What a query by group is computed from. Of tables these are the points within the range whose own
measurement lists the group, at the start of their millisecond and with zeros unsigned. Of memory they
are the points within the range of the devices whose latest measurement lists the group: the same points
as long as no device that is asked for has moved into the group or out of it. -/
theorem stores_read_groups (ws : List Measurement)
    (hnames : ∀ w ∈ ws, ∀ group ∈ w.groups, Groups.Proper group)
    (hnumbers : ∀ w ∈ ws, ∀ v ∈ w.values.values, v.isNaN = false)
    (honce : ((ws.flatMap Measurement.readings).map fun r => r.kept.place).Nodup)
    (hroom : ∀ device key, (Memory.written ws device key).length ≤ Memory.capacity)
    (q : Query) (group : String) (hsource : q.source = .group group) (hgroup : Groups.Proper group) :
    ∃ m t, ws.foldlM Memory.write .empty = .ok m ∧ ws.foldlM Tables.write .empty = .ok t ∧
      ∀ f : Filter,
        (∃ points, KeepsPoints.points t q f = .ok points ∧
          (Bucket.within (q.rawStart f) q.stop points).Perm (Bucket.within (q.rawStart f) q.stop
            ((tagged ws group f.key).map fun r => r.kept.point))) ∧
        (∃ points, KeepsPoints.points m q f = .ok points ∧
          (Bucket.within (q.rawStart f) q.stop points).Perm (Bucket.within (q.rawStart f) q.stop
            ((stationed ws group f.key).map Reading.point)) ∧
          ((∀ r ∈ ws.flatMap Measurement.readings, r.key = f.key →
              (group ∈ latestGroups ws r.device ↔ group ∈ r.groups)) →
            (Bucket.within (q.rawStart f) q.stop points).Perm (Bucket.within (q.rawStart f) q.stop
              ((tagged ws group f.key).map Reading.point)))) := by
  obtain ⟨m, hm, -⟩ := Memory.exists_writes_latest ws
  have hempty : Tables.empty.values =
      ((([] : List Measurement).flatMap Measurement.readings).map Reading.kept).map Reading.row := rfl
  obtain ⟨t, ht, hvalues⟩ := Tables.writes_kept hempty hnumbers (by rwa [List.nil_append, List.map_map])
  rw [List.nil_append] at hvalues
  refine ⟨m, t, hm, ht, fun f => ⟨?_, ?_⟩⟩
  · have htimes : ∀ r ∈ (ws.flatMap Measurement.readings).map Reading.kept, r.point.time.OnMillis := by
      intro r hr
      obtain ⟨s, -, rfl⟩ := List.mem_map.mp hr
      exact s.point.time.onMillis_floored
    have hfound : ∀ r ∈ (ws.flatMap Measurement.readings).map Reading.kept, ∀ g,
        Source.group group = .group g → Groups.segments g <:+: Groups.listed r.groups →
          g ∈ r.groups := by
      rintro r hr g ⟨⟩
      obtain ⟨s, hs, rfl⟩ := List.mem_map.mp hr
      obtain ⟨w, hw, hs⟩ := List.mem_flatMap.mp hs
      obtain ⟨e, -, rfl⟩ := List.mem_map.mp hs
      exact hgroup.mem_of_segments (hnames w hw)
    obtain ⟨points, hraw, hperm, -⟩ := Tables.raw_of_readings hvalues htimes hfound f.key
      (q.rawStart f) q.stop
    have hpoints : KeepsPoints.points t q f = .ok points := by
      show Tables.lift (t.raw q.source f.key (q.rawStart f) q.stop) = _
      rw [hsource, hraw]
      rfl
    have htagged : (((ws.flatMap Measurement.readings).map Reading.kept).filter
        (Reading.isWanted (.group group) f.key)).map Reading.point =
          (tagged ws group f.key).map fun r => r.kept.point := by
      rw [List.filter_map, List.map_map]
      rfl
    rw [htagged] at hperm
    refine ⟨points, hpoints, (hperm.filter _).trans (.of_eq ?_)⟩
    exact Bucket.within_filter_millis _
  · have hraw := Memory.perm_raw_stationed hm hroom group f.key
    rw [← hsource] at hraw
    refine ⟨m.raw q.source f.key, rfl, hraw.filter _, fun hsame => ?_⟩
    rw [← Measurement.stationed_eq_tagged hsame]
    exact hraw.filter _

/-- A device that moves from one group to another, and one that stays: the group of the latter. -/
theorem stores_read_groups_moved :
    let at_ (nanos : Nat) : Instant := (Instant.ofNanos? nanos).getD .epoch
    let values (v : Float) : Named Float := .ofList [("t", v)]
    let ws : List Measurement :=
      [⟨"d1", ["hall"], values 1.5, at_ 5000000⟩, ⟨"d2", ["site"], values 2.5, at_ 7300000⟩,
        ⟨"d1", ["roof"], values 3.5, at_ 9000000⟩]
    let f : Filter := ⟨"last", none, "t", none⟩
    let q : Query :=
      { source := .group "site", filters := [f], start := at_ 3500000, stop := at_ 8000000,
        interval := .ofSeconds 1, limit := 5, retention := "r" }
    ∃ m t points points', ws.foldlM Memory.write .empty = .ok m ∧
      ws.foldlM Tables.write .empty = .ok t ∧
      KeepsPoints.points t q f = .ok points ∧
        (Bucket.within (q.rawStart f) q.stop points).Perm [⟨at_ 7000000, 2.5⟩] ∧
      KeepsPoints.points m q f = .ok points' ∧
        (Bucket.within (q.rawStart f) q.stop points').Perm [⟨at_ 7300000, 2.5⟩] := by
  intro at_ values ws f q
  have honce : ((ws.flatMap Measurement.readings).map fun r => r.kept.place).Nodup := by decide
  have hroom : ∀ device key, (Memory.written ws device key).length ≤ Memory.capacity := by
    intro device key
    rw [Memory.written, List.length_map]
    exact (List.length_filter_le _ _).trans (by decide)
  obtain ⟨m, t, hm, ht, hread⟩ := stores_read_groups ws (by decide) (by decide) honce hroom q "site" rfl
    (by decide)
  obtain ⟨⟨points, hpoints, hperm⟩, points', hpoints', hperm', -⟩ := hread f
  have hkept : Bucket.within (q.rawStart f) q.stop ((tagged ws "site" "t").map fun r => r.kept.point) =
      [⟨at_ 7000000, if (2.5 : Float) == 0.0 then 0.0 else 2.5⟩] := rfl
  rw [if_neg (by decide)] at hkept
  exact ⟨m, t, points, points', hm, ht, hpoints, hkept ▸ hperm, hpoints', hperm'⟩

/-- A device that has left a group takes along what it measured there: a query by the group finds nothing
in memory. -/
theorem moved_device_forgotten :
    let at_ (second : Nat) : Instant := (Instant.ofNanos? (second * 1000000000)).getD .epoch
    let values (v : Float) : Named Float := .ofList [("t", v)]
    let ws : List Measurement :=
      [⟨"d1", ["g"], values 1, at_ 1700000040⟩, ⟨"d1", ["h"], values 3, at_ 1700000070⟩]
    let f : Filter := ⟨"sum", none, "t", none⟩
    let q : Query :=
      { source := .group "g", filters := [f], start := at_ 1700000040, stop := at_ 1700000099,
        interval := .ofSeconds 60, limit := 10, retention := "raw" }
    ∃ m, ws.foldlM Memory.write .empty = .ok m ∧ m.query q = .ok [[]] ∧
      KeepsPoints.points m q f = .ok [] ∧
      Bucket.within (q.rawStart f) q.stop ((tagged ws "g" "t").map Reading.point) =
        [⟨at_ 1700000040, 1⟩] := by
  intro at_ values ws f q
  obtain ⟨m, hm⟩ : ∃ m, ws.foldlM Memory.write .empty = .ok m := ⟨_, rfl⟩
  have hroom : ∀ device key, (Memory.written ws device key).length ≤ Memory.capacity := by
    intro device key
    rw [Memory.written, List.length_map]
    exact (List.length_filter_le _ _).trans (by decide)
  have hraw : m.raw q.source f.key = [] := (Memory.perm_raw_stationed hm hroom "g" "t").eq_nil
  have hnothing : q.answer f [] = .ok [] := by
    show Except.ok (Query.lastOf q.limit (q.grouped .sum f [])) = _
    rw [Query.grouped, Bucket.ofPoints_of_pairwise .nil]
    rfl
  have hanswer : m.query q = .ok [[]] := by
    show [f].mapM (fun f => (q.answer f (m.raw q.source f.key)).mapError AlarmError.condition) = _
    simp only [List.mapM_cons, List.mapM_nil, hraw, hnothing]
    rfl
  exact ⟨m, hm, hanswer, congrArg Except.ok hraw, rfl⟩

end Vigil
