import Vigil.Proofs.Named
import Vigil.Proofs.Results
import Vigil.Store.Memory

/-!
# Measurements in memory

What devices that measure for the first time leave in memory: each of them is kept with its groups and
one point for every value. So a group whose devices measure once each is read as exactly the points
that they measured.
-/

namespace Vigil

namespace Memory

variable {m : Memory} {w : Measurement} {ws : List Measurement} {group key : String} {v : Float}

/-- Values under new names begin series of a single point each. -/
theorem foldl_keepPoint (time : Instant) (values : List (String × Float)) (series : Named Series)
    (h : (values.map Prod.fst ++ series.names).Nodup) :
    values.foldl (fun series (name, value) =>
      series.insert name (keepPoint ⟨time, value⟩ ((series.get? name).getD []))) series =
    (values.map fun e => (e.1, [⟨time, e.2⟩])).foldl (fun series e => series.insert e.1 e.2)
      series := by
  induction values generalizing series with
  | nil => rfl
  | cons e rest ih =>
    obtain ⟨hnew, hrest⟩ := Named.nodup_insert h [⟨time, e.2⟩]
    have hkept : keepPoint ⟨time, e.2⟩ ((series.get? e.1).getD []) = [⟨time, e.2⟩] := by
      rw [Named.get?_eq_none hnew]
      rfl
    have hmore := ih (series.insert e.1 [⟨time, e.2⟩]) hrest
    rw [← hkept] at hmore
    rw [List.map_cons, List.foldl_cons, List.foldl_cons, ← hkept]
    exact hmore

/-- A device that measures for the first time has one point for each value. -/
theorem get?_keep_empty {values : Named Float} (time : Instant) (h : values.get? key = some v) :
    (Device.keep .empty values time).get? key = some [⟨time, v⟩] := by
  have hnodup : (values.entries.map Prod.fst).Nodup := values.nodup_names
  have hkeep : (Device.keep .empty values time).entries.Perm
      (values.entries.map fun e => (e.1, [⟨time, e.2⟩])) := by
    rw [Device.keep, foldl_keepPoint time values.entries .empty (by simpa [Named.names, Named.empty])]
    exact Named.perm_ofList (by rwa [List.map_map])
  rw [Named.get?_eq_some_iff, hkeep.mem_iff]
  exact List.mem_map.mpr ⟨_, Named.get?_eq_some_iff.mp h, rfl⟩

/-- What is kept of a device that measures for the first time. -/
def firstKept (w : Measurement) : String × Device :=
  (w.device, ⟨w.groups, Device.keep .empty w.values w.time⟩)

/-- New devices that measure once each are all kept. -/
theorem exists_writes (h : (ws.map Measurement.device ++ m.devices.names).Nodup) :
    ∃ m', ws.foldlM write m = .ok m' ∧
      m'.devices = (ws.map firstKept).foldl (fun devices e => devices.insert e.1 e.2) m.devices := by
  induction ws generalizing m with
  | nil => exact ⟨m, rfl, rfl⟩
  | cons w ws ih =>
    obtain ⟨hnew, hrest⟩ := Named.nodup_insert h (firstKept w).2
    have hwrite : m.write w = .ok { m with devices := m.devices.insert w.device (firstKept w).2 } := by
      rw [write, Named.get?_eq_none hnew]
      rfl
    obtain ⟨last, hlast, hdevices⟩ :=
      ih (m := { m with devices := m.devices.insert w.device (firstKept w).2 }) hrest
    refine ⟨last, ?_, hdevices⟩
    rw [List.foldlM_cons]
    exact bind_eq_ok_iff.mpr ⟨_, hwrite, hlast⟩

/-- Devices of a group that measure once each are read as what they measured. -/
theorem perm_raw_of_writes (hdevices : m.devices.entries.Perm (ws.map firstKept))
    (h : ∀ w ∈ ws, group ∈ w.groups ∧ w.values.get? key = some v) :
    (m.raw (.group group) key).Perm (ws.map fun w => ⟨w.time, v⟩) := by
  refine (List.mergeSort_perm _ _).trans ((hdevices.flatMap_right _).trans (.of_eq ?_))
  rw [List.flatMap_map, ← List.flatMap_pure_eq_map]
  refine List.flatMap_congr ?_
  intro w hw
  obtain ⟨hgroup, hvalue⟩ := h w hw
  have hof : w.groups.contains group = true := List.contains_iff_mem.mpr hgroup
  show (if w.groups.contains group then
    ((Device.keep .empty w.values w.time).get? key).getD [] else []) = _
  rw [if_pos hof, get?_keep_empty w.time hvalue]
  rfl

end Memory

/-- The name of a device, told from its number. -/
def Measurement.deviceName (n : Nat) : String :=
  String.ofList (List.replicate n 'd')

/-- Measurements of the same values at several times, each by a device of its own. -/
def Measurement.each (group : String) (values : Named Float) (times : List Instant) :
    List Measurement :=
  times.zipIdx.map fun (time, n) => ⟨deviceName n, [group], values, time⟩

namespace Measurement

theorem deviceName_injective : Function.Injective deviceName := by
  intro n k h
  have hlength := congrArg (fun name => name.toList.length) h
  simpa [deviceName] using hlength

theorem nodup_devices_each (group : String) (values : Named Float) (times : List Instant) :
    ((each group values times).map Measurement.device).Nodup := by
  have hdevices : (each group values times).map Measurement.device =
      (times.zipIdx.map Prod.snd).map deviceName := by
    rw [each, List.map_map, List.map_map]
    rfl
  rw [hdevices, List.zipIdx_map_snd]
  exact List.Nodup.map deviceName_injective List.nodup_range'

/-- A group can be given the same values at any times. -/
theorem exists_writes_each (group : String) (values : Named Float) (times : List Instant) :
    ∃ m, (each group values times).foldlM Memory.write .empty = .ok m ∧
      ∀ key v, values.get? key = some v →
        (m.raw (.group group) key).Perm (times.map fun time => ⟨time, v⟩) := by
  have hnodup := nodup_devices_each group values times
  obtain ⟨m, hm, hinsert⟩ := Memory.exists_writes (m := .empty)
    (by simpa [Memory.empty, Named.names, Named.empty] using hnodup)
  have hdevices : m.devices.entries.Perm ((each group values times).map Memory.firstKept) := by
    rw [hinsert]
    exact Named.perm_ofList (by rwa [List.map_map])
  refine ⟨m, hm, ?_⟩
  intro key v hvalue
  have hall : ∀ w ∈ each group values times,
      group ∈ w.groups ∧ w.values.get? key = some v := by
    intro w hw
    obtain ⟨⟨time, n⟩, -, rfl⟩ := List.mem_map.mp hw
    exact ⟨List.mem_singleton_self group, hvalue⟩
  have hraw := Memory.perm_raw_of_writes hdevices hall
  have htimes : (each group values times).map Measurement.time = times := by
    rw [each, List.map_map]
    exact List.zipIdx_map_fst 0 times
  have hpoints : ((each group values times).map fun w => (⟨w.time, v⟩ : Point)) =
      ((each group values times).map Measurement.time).map fun time => ⟨time, v⟩ := by
    rw [List.map_map]
    rfl
  rw [hpoints, htimes] at hraw
  exact hraw

end Measurement

end Vigil
