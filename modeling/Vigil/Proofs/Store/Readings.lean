import Vigil.Proofs.Named
import Vigil.Proofs.Series.Times
import Vigil.Proofs.Store.Groups
import Vigil.Proofs.Store.Rows
import Vigil.Store.Memory
import Vigil.Store.Tables

/-!
# Two stores of the same readings

A reading is one value of a measurement. The store in memory keeps readings by device and name, the one
in tables as rows. Of measurements in which no reading is made twice both keep all readings, so a query
finds the same points in both: memory hands out all of a source, the tables those whose millisecond lies
within the range of the query, and what the answer is made of are the points within that range.
-/

namespace Vigil

/-- One value that a device measured. -/
structure Reading where
  device : String
  groups : List String
  key : String
  point : Point

namespace Reading

def place (r : Reading) : String × String × Instant :=
  (r.device, r.key, r.point.time)

/-- The reading is one of a device under a name. -/
def isUnder (device key : String) (r : Reading) : Bool :=
  r.device = device && r.key = key

/-- The reading is one of a source under a name. -/
def isWanted (source : Source) (key : String) (r : Reading) : Bool :=
  r.key = key &&
    match source with
    | .device wanted => r.device = wanted
    | .group group => r.groups.contains group

/-- The reading as it is kept in a table: its time at the start of a millisecond, a zero without a
sign. -/
def kept (r : Reading) : Reading :=
  { r with point := ⟨r.point.time.floored, if r.point.value == 0.0 then 0.0 else r.point.value⟩ }

def row (r : Reading) : ValueRow where
  device := r.device
  groups := Groups.encode r.groups
  key := r.key
  timestamp := r.point.time.millis
  value := r.point.value

end Reading

namespace Measurement

def readings (w : Measurement) : List Reading :=
  w.values.entries.map fun e => ⟨w.device, w.groups, e.1, ⟨w.time, e.2⟩⟩

/-- Measurements that both stores keep without loss. -/
structure Regular (ws : List Measurement) : Prop where
  times : ∀ w ∈ ws, w.time.OnMillis
  once : ((ws.flatMap readings).map Reading.place).Nodup
  sameGroups : ∀ v ∈ ws, ∀ w ∈ ws, v.device = w.device → v.groups = w.groups
  names : ∀ w ∈ ws, ∀ group ∈ w.groups, Groups.Proper group
  values : ∀ w ∈ ws, ∀ v ∈ w.values.values, v.isNaN = false ∧ v ≠ -0.0
  room : ∀ device key,
    ((ws.flatMap readings).filter (Reading.isUnder device key)).length ≤ Memory.capacity

theorem Regular.of_append {ws more : List Measurement} (h : Regular (ws ++ more)) : Regular ws where
  times w hw := h.times w (List.mem_append_left _ hw)
  once := by
    have honce := h.once
    rw [List.flatMap_append, List.map_append, List.nodup_append] at honce
    exact honce.1
  sameGroups v hv w hw := h.sameGroups v (List.mem_append_left _ hv) w (List.mem_append_left _ hw)
  names w hw := h.names w (List.mem_append_left _ hw)
  values w hw := h.values w (List.mem_append_left _ hw)
  room device key := by
    have hroom := h.room device key
    rw [List.flatMap_append, List.filter_append, List.length_append] at hroom
    omega

end Measurement

open Measurement (Regular)

namespace Memory

variable {m : Memory} {ws : List Measurement} {w : Measurement} {name key : String} {d : Device}

theorem perm_insertPoint (p : Point) (series : Series) : (insertPoint p series).Perm (p :: series) := by
  induction series with
  | nil => exact .refl _
  | cons q rest ih =>
    rw [insertPoint]
    split
    · exact (ih.cons q).trans (.swap _ _ _)
    · exact .refl _

/-- A series with room keeps every point. -/
theorem perm_keepPoint {series : Series} (h : series.length < capacity) (p : Point) :
    (keepPoint p series).Perm (p :: series) := by
  have hperm := perm_insertPoint p series
  have hlength : ¬ capacity < (insertPoint p series).length := by
    rw [hperm.length_eq, List.length_cons]
    omega
  rw [keepPoint, if_neg hlength]
  exact hperm

/-- Values of one time join the series of their names. -/
theorem perm_keep {β : Type} (make : String → Point → β) (time : Instant)
    (values : List (String × Float)) (series : Named Series) (hnodup : (values.map Prod.fst).Nodup)
    (hroom : ∀ e ∈ values, ((series.get? e.1).getD []).length < capacity) :
    ((values.foldl (fun series (name, value) =>
      series.insert name (keepPoint ⟨time, value⟩ ((series.get? name).getD []))) series).entries.flatMap
        fun e => e.2.map (make e.1)).Perm
      (series.entries.flatMap (fun e => e.2.map (make e.1)) ++
        values.map fun e => make e.1 ⟨time, e.2⟩) := by
  induction values generalizing series with
  | nil => simp
  | cons e rest ih =>
    rw [List.map_cons, List.nodup_cons] at hnodup
    have hkept := perm_keepPoint (hroom e List.mem_cons_self) ⟨time, e.2⟩
    generalize hlonger : keepPoint ⟨time, e.2⟩ ((series.get? e.1).getD []) = longer at hkept
    have hinsert : ((series.insert e.1 longer).entries.flatMap fun e => e.2.map (make e.1)).Perm
        (series.entries.flatMap (fun e => e.2.map (make e.1)) ++ [make e.1 ⟨time, e.2⟩]) := by
      refine Named.perm_flatMap_insert ?_
      have hmade := hkept.map (make e.1)
      refine hmade.trans (.trans ?_ List.perm_append_comm)
      rw [List.map_cons, List.singleton_append]
      cases series.get? e.1 <;> exact .refl _
    have hmore := ih (series.insert e.1 longer) hnodup.2 ?_
    · rw [List.foldl_cons]
      show (List.flatMap _ (List.foldl _ (series.insert e.1 (keepPoint _ _)) rest).entries).Perm _
      rw [hlonger]
      refine hmore.trans ((hinsert.append_right _).trans ?_)
      rw [List.append_assoc, List.singleton_append, List.map_cons]
    · intro f hf
      have hne : f.1 ≠ e.1 := fun heq => hnodup.1 (heq ▸ List.mem_map_of_mem hf)
      rw [Named.get?_insert_of_ne hne]
      exact hroom f (List.mem_cons_of_mem _ hf)

/-- The readings kept of a device. -/
def deviceReadings (e : String × Device) : List Reading :=
  e.2.series.entries.flatMap fun s => s.2.map fun p => ⟨e.1, e.2.groups, s.1, p⟩

def readings (m : Memory) : List Reading :=
  m.devices.entries.flatMap deviceReadings

/-- The memory keeps the readings of the measurements, under the groups that they say. -/
structure Keeps (m : Memory) (ws : List Measurement) : Prop where
  readings : m.readings.Perm (ws.flatMap Measurement.readings)
  groups : ∀ e ∈ m.devices.entries, ∃ w ∈ ws, w.device = e.1 ∧ w.groups = e.2.groups

theorem keeps_empty : Keeps .empty [] :=
  ⟨.refl _, fun _ he => absurd he List.not_mem_nil⟩

/-- A series is as long as the readings under its name. -/
theorem Keeps.length_le (h : m.Keeps ws) (hd : m.devices.get? name = some d) :
    ((d.series.get? key).getD []).length ≤
      ((ws.flatMap Measurement.readings).filter (Reading.isUnder name key)).length := by
  rw [← (h.readings.filter _).length_eq]
  cases hseries : d.series.get? key with
  | none => exact Nat.zero_le _
  | some series =>
    have hperm := (m.devices.perm_flatMap_others name deviceReadings).filter (Reading.isUnder name key)
    have hdevice := (d.series.perm_flatMap_others key
      fun s => s.2.map fun p => (⟨name, d.groups, s.1, p⟩ : Reading)).filter (Reading.isUnder name key)
    have hall : (series.map fun p => (⟨name, d.groups, key, p⟩ : Reading)).filter
        (Reading.isUnder name key) = series.map fun p => ⟨name, d.groups, key, p⟩ := by
      refine List.filter_eq_self.mpr ?_
      intro r hr
      obtain ⟨p, -, rfl⟩ := List.mem_map.mp hr
      simp [Reading.isUnder]
    rw [hseries, Option.map_some, Option.getD_some, List.filter_append, hall] at hdevice
    rw [hd, Option.map_some, Option.getD_some, List.filter_append] at hperm
    have hlength := hperm.length_eq
    have hlength' := hdevice.length_eq
    rw [List.length_append] at hlength hlength'
    rw [List.length_map] at hlength'
    rw [Memory.readings, Option.getD_some, hlength, deviceReadings, hlength']
    omega

/-- A measurement adds its readings to those that are kept. -/
theorem Keeps.write (h : m.Keeps ws) (hregular : Regular (ws ++ [w])) :
    ∃ m', m.write w = .ok m' ∧ m'.Keeps (ws ++ [w]) := by
  refine ⟨_, rfl, ?_, ?_⟩
  · have hnames : (w.values.entries.map Prod.fst).Nodup := w.values.nodup_names
    have hroom : ∀ series : Named Series,
        (∀ e ∈ w.values.entries, ((series.get? e.1).getD []).length ≤
          ((ws.flatMap Measurement.readings).filter (Reading.isUnder w.device e.1)).length) →
        ∀ e ∈ w.values.entries, ((series.get? e.1).getD []).length < capacity := by
      intro series hle e he
      have hmore := hregular.room w.device e.1
      have hmem : (⟨w.device, w.groups, e.1, ⟨w.time, e.2⟩⟩ : Reading) ∈
          (w.readings.filter (Reading.isUnder w.device e.1)) :=
        List.mem_filter.mpr ⟨List.mem_map_of_mem he, by simp [Reading.isUnder]⟩
      have hpos := List.length_pos_of_mem hmem
      have hlength := hle e he
      rw [List.flatMap_append, List.flatMap_singleton, List.filter_append, List.length_append] at hmore
      omega
    have hmore : (ws ++ [w]).flatMap Measurement.readings =
        ws.flatMap Measurement.readings ++ w.readings := by
      rw [List.flatMap_append, List.flatMap_singleton]
    rw [hmore]
    refine .trans (Named.perm_flatMap_insert ?_) (h.readings.append_right _)
    cases hd : m.devices.get? w.device with
    | none =>
      refine perm_keep (fun key p => (⟨w.device, w.groups, key, p⟩ : Reading)) w.time
        w.values.entries .empty hnames (hroom .empty ?_)
      intro e _
      exact Nat.zero_le _
    | some d =>
      -- the device was written before, with the same groups
      have hgroups : d.groups = w.groups := by
        obtain ⟨v, hv, hdevice, hgroups⟩ := h.groups _ (Named.get?_eq_some_iff.mp hd)
        rw [← hgroups]
        exact hregular.sameGroups v (List.mem_append_left _ hv) w (by simp) hdevice
      have hkeep := perm_keep (fun key p => (⟨w.device, w.groups, key, p⟩ : Reading)) w.time
        w.values.entries d.series hnames (hroom d.series fun e _ => h.length_le hd)
      have hbefore : deviceReadings (w.device, d) = d.series.entries.flatMap fun s =>
          s.2.map fun p => ⟨w.device, w.groups, s.1, p⟩ := by
        rw [deviceReadings, hgroups]
      rw [Option.map_some, Option.getD_some, hbefore]
      exact hkeep
  · intro e he
    rcases (Named.mem_insertEntry_iff m.devices.ascending).mp he with rfl | ⟨he, -⟩
    · exact ⟨w, by simp, rfl, rfl⟩
    · obtain ⟨v, hv, hdevice, hgroups⟩ := h.groups e he
      exact ⟨v, List.mem_append_left _ hv, hdevice, hgroups⟩

theorem Keeps.writes {more : List Measurement} (h : m.Keeps ws) (hregular : Regular (ws ++ more)) :
    ∃ m', more.foldlM Memory.write m = .ok m' ∧ m'.Keeps (ws ++ more) := by
  induction more generalizing m ws with
  | nil => exact ⟨m, rfl, by rwa [List.append_nil]⟩
  | cons w more ih =>
    rw [List.append_cons] at hregular ⊢
    obtain ⟨m', hm', hkeeps⟩ := h.write hregular.of_append
    obtain ⟨last, hlast, hall⟩ := ih hkeeps hregular
    exact ⟨last, by rw [List.foldlM_cons]; exact bind_eq_ok_iff.mpr ⟨m', hm', hlast⟩, hall⟩

/-- The points of a source are those of its readings. -/
theorem perm_raw (m : Memory) (source : Source) (key : String) :
    (m.raw source key).Perm
      ((m.readings.filter (Reading.isWanted source key)).map Reading.point) := by
  refine (List.mergeSort_perm _ _).trans ?_
  rw [readings, List.filter_flatMap, List.map_flatMap]
  refine List.Perm.flatMap_left _ ?_
  rintro ⟨name, d⟩ -
  by_cases hof : isOf source name d
  · -- the readings of a device of the source are told apart by their names
    have hseries := d.series.perm_flatMap_others key
      fun s => s.2.map fun p => (⟨name, d.groups, s.1, p⟩ : Reading)
    have hparts := (hseries.filter (Reading.isWanted source key)).map Reading.point
    have hsource : ∀ s p, Reading.isWanted source key ⟨name, d.groups, s, p⟩ = decide (s = key) := by
      intro s p
      cases source <;> simp_all [Reading.isWanted, isOf]
    have hothers : ((d.series.entries.filter fun s => s.1 ≠ key).flatMap
        fun s => s.2.map fun p => (⟨name, d.groups, s.1, p⟩ : Reading)).filter
          (Reading.isWanted source key) = [] := by
      refine List.filter_eq_nil_iff.mpr ?_
      intro r hr
      obtain ⟨s, hs, hr⟩ := List.mem_flatMap.mp hr
      obtain ⟨p, -, rfl⟩ := List.mem_map.mp hr
      rw [hsource]
      simpa using (List.mem_filter.mp hs).2
    rw [List.filter_append, hothers, List.append_nil] at hparts
    simp only [hof, if_true]
    refine .trans (.of_eq ?_) hparts.symm
    cases hfound : d.series.get? key with
    | none => rfl
    | some series =>
      simp only [Option.map_some, Option.getD_some, List.filter_map, List.map_map]
      have hall : series.filter (Reading.isWanted source key ∘ fun p => ⟨name, d.groups, key, p⟩) =
          series := by
        refine List.filter_eq_self.mpr ?_
        intro p _
        rw [Function.comp_apply, hsource]
        exact decide_eq_true rfl
      rw [hall]
      exact (List.map_id series).symm
  · have hnone : (deviceReadings (name, d)).filter (Reading.isWanted source key) = [] := by
      refine List.filter_eq_nil_iff.mpr ?_
      intro r hr
      obtain ⟨s, -, hr⟩ := List.mem_flatMap.mp hr
      obtain ⟨p, -, rfl⟩ := List.mem_map.mp hr
      cases source <;> simp_all [Reading.isWanted, isOf]
    simp only [hof, hnone]
    exact .refl _

theorem sorted_raw (m : Memory) (source : Source) (key : String) :
    (m.raw source key).Pairwise fun p q => p.time ≤ q.time := by
  refine (List.pairwise_mergeSort ?_ ?_ _).imp fun h => of_decide_eq_true h
  · intro p q r hpq hqr
    simp only [decide_eq_true_iff, Instant.le_def] at *
    omega
  · intro p q
    simp only [Bool.or_eq_true, decide_eq_true_iff, Instant.le_def]
    omega

end Memory

section Zeros

open Float.Model (UnpackedFloat Format)

variable {v : Float}

theorem toNat_of_unpack_eq_zero {b : BitVec 64} {s : UnpackedFloat.Sign}
    (h : UnpackedFloat.unpack Format.binary64 b = .zero s) :
    b.toNat = 0 ∨ b.toNat = 9223372036854775808 := by
  have hb := b.isLt
  unfold UnpackedFloat.unpack at h
  dsimp only at h
  obtain ⟨-, h⟩ | ⟨-, h⟩ := ite_eq_iff.mp h
  · obtain ⟨-, h⟩ | ⟨-, h⟩ := ite_eq_iff.mp h <;> cases h
  · obtain ⟨hexponent, h⟩ | ⟨-, h⟩ := ite_eq_iff.mp h
    · obtain ⟨hmantissa, -⟩ | ⟨_, h⟩ := dite_eq_iff.mp h
      · -- only the bit of the sign is left
        have hmantissa := congrArg BitVec.toNat hmantissa
        have hexponent := congrArg BitVec.toNat hexponent
        simp only [UnpackedFloat.unpackMantissa, UnpackedFloat.unpackExponent, BitVec.toNat_cast,
          BitVec.extractLsb_toNat, BitVec.toNat_ofNat, Nat.shiftRight_eq_div_pow] at hmantissa hexponent
        omega
      · cases h
    · cases h

/-- A number that equals zero is zero with a sign or without. -/
theorem eq_zero_of_beq (h : (v == 0.0) = true) : v = 0.0 ∨ v = -0.0 := by
  have h : UnpackedFloat.beq v.toModel.unpack (0.0 : Float).toModel.unpack = true := h
  have hzero : (0.0 : Float).toModel.unpack = .zero .positive := by rfl
  rw [hzero] at h
  obtain ⟨sign, hsign⟩ : ∃ sign, v.toModel.unpack = .zero sign := by
    cases hv : v.toModel.unpack with
    | zero sign => exact ⟨sign, rfl⟩
    | notANumber =>
      rw [hv] at h
      cases h
    | infinity sign =>
      rw [hv] at h
      cases sign <;> cases h
    | finite sign =>
      rw [hv] at h
      cases sign <;> cases h
  obtain ⟨⟨⟨b⟩, hb⟩⟩ := v
  rcases toNat_of_unpack_eq_zero hsign with hb | hb
  · obtain rfl : b = 0#64 := BitVec.eq_of_toNat_eq hb
    exact .inl rfl
  · obtain rfl : b = 9223372036854775808#64 := BitVec.eq_of_toNat_eq hb
    exact .inr rfl

end Zeros

namespace Tables

variable {t : Tables} {ws : List Measurement} {w : Measurement}

/-- The rows of a measurement are those of its readings as they are kept. -/
theorem valueRows_eq (w : Measurement) : valueRows w = (w.readings.map Reading.kept).map Reading.row := by
  rw [valueRows, Measurement.readings, List.map_map, List.map_map]
  refine List.map_congr_left ?_
  intro e _
  simp only [Function.comp_apply, Reading.row, Reading.kept, Instant.millis_floored]

theorem putValue_of_new {row : ValueRow} {rows : List ValueRow}
    (h : ∀ r ∈ rows, sameKey r row = false) : putValue row rows = rows ++ [row] := by
  induction rows with
  | nil => rfl
  | cons r rest ih =>
    rw [putValue, h r List.mem_cons_self, ih fun s hs => h s (List.mem_cons_of_mem _ hs)]
    rfl

/-- Rows that are told apart are kept one behind the other. -/
theorem foldl_putValue {rows new : List ValueRow}
    (h : (rows ++ new).Pairwise fun r s => sameKey r s = false) :
    new.foldl (fun rows row => putValue row rows) rows = rows ++ new := by
  induction new generalizing rows with
  | nil => simp
  | cons row new ih =>
    have hrow : ∀ r ∈ rows, sameKey r row = false :=
      fun r hr => (List.pairwise_append.mp h).2.2 r hr row List.mem_cons_self
    rw [List.foldl_cons, putValue_of_new hrow, ih (by rwa [List.append_assoc]), List.append_assoc]
    rfl

/-- Rows of readings made at different places are told apart. -/
theorem pairwise_rows {rs : List Reading} (htimes : ∀ r ∈ rs, r.point.time.OnMillis)
    (h : (rs.map Reading.place).Nodup) :
    (rs.map Reading.row).Pairwise fun r s => sameKey r s = false := by
  refine List.pairwise_map.mpr ((List.pairwise_map.mp h).imp_of_mem ?_)
  intro r s hr hs hne
  rw [← Bool.not_eq_true]
  intro hsame
  simp only [sameKey, Bool.and_eq_true, decide_eq_true_iff] at hsame
  obtain ⟨⟨hdevice, hkey⟩, hmillis⟩ := hsame
  replace hdevice : r.device = s.device := hdevice
  replace hkey : r.key = s.key := hkey
  replace hmillis : r.point.time.millis = s.point.time.millis := hmillis
  have htime : r.point.time = s.point.time := by
    apply Instant.ext
    rw [(htimes r hr).nanos_eq, (htimes s hs).nanos_eq, hmillis]
  exact hne (by rw [Reading.place, Reading.place, hdevice, hkey, htime])

/-- The rows of all measurements, in the order of their writing, if no two are of one device, name and
millisecond. -/
theorem writes_kept {more : List Measurement}
    (hvalues : t.values = ((ws.flatMap Measurement.readings).map Reading.kept).map Reading.row)
    (hnumbers : ∀ w ∈ more, ∀ v ∈ w.values.values, v.isNaN = false)
    (honce : ((((ws ++ more).flatMap Measurement.readings).map Reading.kept).map Reading.place).Nodup) :
    ∃ t', more.foldlM write t = .ok t' ∧
      t'.values = (((ws ++ more).flatMap Measurement.readings).map Reading.kept).map Reading.row := by
  induction more generalizing t ws with
  | nil => exact ⟨t, rfl, by rwa [List.append_nil]⟩
  | cons w more ih =>
    rw [List.append_cons] at honce ⊢
    have hnumber : ¬ w.values.values.any Float.isNaN = true := by
      rw [List.any_eq_true]
      rintro ⟨v, hv, hnan⟩
      rw [hnumbers w List.mem_cons_self v hv] at hnan
      cases hnan
    have hrows : (valueRows w).foldl (fun rows row => putValue row rows) t.values =
        (((ws ++ [w]).flatMap Measurement.readings).map Reading.kept).map Reading.row := by
      have hnodup : ((((ws ++ [w]).flatMap Measurement.readings).map Reading.kept).map
          Reading.place).Nodup := by
        rw [List.flatMap_append, List.map_append, List.map_append, List.nodup_append] at honce
        exact honce.1
      have htimes : ∀ r ∈ ((ws ++ [w]).flatMap Measurement.readings).map Reading.kept,
          r.point.time.OnMillis := by
        intro r hr
        obtain ⟨s, -, rfl⟩ := List.mem_map.mp hr
        exact s.point.time.onMillis_floored
      have hpairs := pairwise_rows htimes hnodup
      rw [List.flatMap_append, List.flatMap_singleton, List.map_append, List.map_append] at hpairs ⊢
      rw [valueRows_eq, hvalues, foldl_putValue hpairs]
    have hwrite : t.write w = .ok { t with
        values := (valueRows w).foldl (fun rows row => putValue row rows) t.values } := if_neg hnumber
    obtain ⟨last, hlast, hall⟩ := ih (t := { t with values := _ }) hrows
      (fun v hv => hnumbers v (List.mem_cons_of_mem _ hv)) honce
    exact ⟨last, by rw [List.foldlM_cons]; exact bind_eq_ok_iff.mpr ⟨_, hwrite, hlast⟩, hall⟩

/-- Regular measurements are kept as they are. -/
theorem kept_of_regular (h : Regular ws) :
    (ws.flatMap Measurement.readings).map Reading.kept = ws.flatMap Measurement.readings := by
  refine (List.map_congr_left ?_).trans (List.map_id _)
  intro r hr
  obtain ⟨w, hw, hr⟩ := List.mem_flatMap.mp hr
  obtain ⟨e, he, rfl⟩ := List.mem_map.mp hr
  have hne : e.2 ≠ -0.0 := (h.values w hw e.2 (List.mem_map_of_mem he)).2
  have hvalue : (if e.2 == 0.0 then 0.0 else e.2) = e.2 := by
    split
    · rename_i hzero
      exact ((eq_zero_of_beq hzero).resolve_right hne).symm
    · rfl
  simp only [Reading.kept, (h.times w hw).floored_eq, hvalue, id_eq]

/-- The rows of regular measurements. -/
theorem writes {more : List Measurement}
    (hvalues : t.values = (ws.flatMap Measurement.readings).map Reading.row)
    (h : Regular (ws ++ more)) :
    ∃ t', more.foldlM write t = .ok t' ∧
      t'.values = ((ws ++ more).flatMap Measurement.readings).map Reading.row := by
  have honce := h.once
  rw [← kept_of_regular h.of_append] at hvalues
  rw [← kept_of_regular h] at honce ⊢
  refine writes_kept hvalues ?_ honce
  intro w hw v hv
  exact (h.values w (List.mem_append_right _ hw) v hv).1

theorem isOf_row {r : Reading} {source : Source} (hfound : ∀ g, source = .group g →
      Groups.segments g <:+: Groups.listed r.groups → g ∈ r.groups) (key : String) :
    (decide (r.key = key) && isOf source r.row) = Reading.isWanted source key r := by
  cases source with
  | device wanted => rfl
  | group group =>
    exact congrArg (decide (r.key = key) && ·) (Groups.holds_encode (hfound group rfl))

/-- Sorted rows are those of sorted readings. -/
theorem mergeSort_rows (rs : List Reading) :
    ∃ sorted : List Reading,
      (rs.map Reading.row).mergeSort (fun r s => decide (r.timestamp ≤ s.timestamp)) =
        sorted.map Reading.row ∧ sorted.Perm rs ∧
          sorted.Pairwise fun r s => r.point.time.millis ≤ s.point.time.millis := by
  refine ⟨rs.mergeSort fun r s => decide (r.point.time.millis ≤ s.point.time.millis), ?_,
    List.mergeSort_perm _ _, (List.pairwise_mergeSort ?_ ?_ rs).imp fun h => of_decide_eq_true h⟩
  · rw [List.map_mergeSort]
    intro r _ s _
    rfl
  · intro r s u hrs hsu
    simp only [decide_eq_true_iff] at *
    omega
  · intro r s
    simp only [Bool.or_eq_true, decide_eq_true_iff]
    omega

/-- The points that tables find are those of the source whose millisecond lies in the range, in order
of time. -/
theorem raw_of_readings {rs : List Reading} (hvalues : t.values = rs.map Reading.row)
    (htimes : ∀ r ∈ rs, r.point.time.OnMillis) {source : Source}
    (hfound : ∀ r ∈ rs, ∀ g, source = .group g →
      Groups.segments g <:+: Groups.listed r.groups → g ∈ r.groups)
    (key : String) (start stop : Instant) :
    ∃ points, t.raw source key start stop = .ok points ∧
      points.Perm (((rs.filter (Reading.isWanted source key)).map Reading.point).filter fun p =>
        start.millis ≤ p.time.millis && p.time.millis ≤ stop.millis) ∧
      points.Pairwise fun p q => p.time ≤ q.time := by
  have hfilter : t.values.filter (fun r => r.key = key && isOf source r &&
      start.millis ≤ r.timestamp && r.timestamp ≤ stop.millis) =
      (rs.filter fun r => Reading.isWanted source key r && (start.millis ≤ r.point.time.millis &&
        r.point.time.millis ≤ stop.millis)).map Reading.row := by
    rw [hvalues, List.filter_map]
    refine congrArg (List.map _) (List.filter_congr ?_)
    intro r hr
    show (decide (r.key = key) && isOf source r.row && _ && _) = _
    rw [isOf_row (hfound r hr), Bool.and_assoc]
    rfl
  generalize hfound : (rs.filter fun r => Reading.isWanted source key r &&
    (start.millis ≤ r.point.time.millis && r.point.time.millis ≤ stop.millis)) = found at hfilter
  obtain ⟨sorted, hsorted, hperm, hpairs⟩ := mergeSort_rows found
  have hmem : ∀ r ∈ sorted, r ∈ rs := by
    intro r hr
    rw [hperm.mem_iff, ← hfound] at hr
    exact List.mem_of_mem_filter hr
  refine ⟨sorted.map Reading.point, ?_, ?_, ?_⟩
  · unfold raw
    simp only [hfilter, hsorted]
    refine mapM_map_eq_ok (g := Reading.point) ?_
    intro r hr
    show (Instant.ofStored r.point.time.millis >>= _) = _
    rw [(htimes r (hmem r hr)).ofStored]
    rfl
  · have hsplit : ((rs.filter (Reading.isWanted source key)).map Reading.point).filter (fun p =>
        start.millis ≤ p.time.millis && p.time.millis ≤ stop.millis) = found.map Reading.point := by
      rw [List.filter_map, List.filter_filter, ← hfound]
      refine congrArg (List.map _) (List.filter_congr ?_)
      intro r _
      exact Bool.and_comm _ _
    rw [hsplit]
    exact hperm.map _
  · refine List.pairwise_map.mpr (hpairs.imp_of_mem ?_)
    intro r s hr hs hle
    exact ((htimes r (hmem r hr)).millis_le_iff (htimes s (hmem s hs))).mp hle

end Tables

end Vigil
