import Mathlib.Data.List.Nodup
import Vigil.Proofs.Runner.Passes
import Vigil.Proofs.Store.Rows
import Vigil.Store.Tables

/-!
# What a store keeps of its alarms

A store keeps the definition of an alarm as it was created, and the time of its last run. Creating adds
an alarm to the others, noting a run changes one time, and no other call changes what is kept. So an
alarm is handed out with the condition and the interval that it was created with; in tables, if these
can be written down.

An alarm is handed out for a run when its interval has passed since its last run. In memory both are
kept to the nanosecond; in tables they are cut off at milliseconds, and so is the present.
-/

namespace Vigil

/-- An alarm with the time of its last run, after a run was noted. -/
def noted (id : Uuid) (time : Instant) (k : Alarm × Instant) : Alarm × Instant :=
  if k.1.id = id then (k.1, time) else k

@[simp] theorem fst_noted (id : Uuid) (time : Instant) (k : Alarm × Instant) :
    (noted id time k).1 = k.1 := by
  unfold noted
  split <;> rfl

theorem noted_of_eq {id : Uuid} {k : Alarm × Instant} (h : k.1.id = id) (time : Instant) :
    noted id time k = (k.1, time) :=
  if_pos h

theorem noted_of_ne {id : Uuid} {k : Alarm × Instant} (h : k.1.id ≠ id) (time : Instant) :
    noted id time k = k :=
  if_neg h

/-- The alarm has the definition of another one, as far as that can be written down. -/
structure Alarm.Restores (a b : Alarm) : Prop where
  id : a.id = b.id
  rule : b.rule.Fits → a.rule = b.rule
  runInterval : b.runInterval.OnMillis → b.runInterval.millis ≤ greatestWord →
    a.runInterval = b.runInterval
  compiled : a.compiled = none ∨ a.compiled = b.compiled

/-- Stores that keep the definitions of alarms and the times of their last runs. -/
class Keeper (σ : Type) [Repository σ] where
  /-- The store keeps these alarms, in this order, each with the time of its last run. -/
  Lists : σ → List (Alarm × Instant) → Prop
  /-- To the store, an interval and the least interval have passed from a last run to the present. -/
  Passed : (interval least : Span) → (last now : Instant) → Prop
  ids : ∀ {store : σ} {kept : List (Alarm × Instant)}, Lists store kept →
    (kept.map fun k => k.1.id).Nodup
  of_createAlarm : ∀ {store after : σ} {kept : List (Alarm × Instant)} {a : Alarm},
    Lists store kept → Repository.createAlarm store a = .ok after →
      Lists after (kept ++ [(a, a.lastRun)])
  of_fire : ∀ {store after : σ} {kept : List (Alarm × Instant)} {id : Uuid} {value : String}
    {time : Instant} {entry : Entry}, Lists store kept →
      Repository.fire store id value time = .ok (entry, after) → Lists after kept
  of_clear : ∀ {store after : σ} {kept : List (Alarm × Instant)} {id : Uuid} {time : Instant}
    {entry : Entry}, Lists store kept → Repository.clear store id time = .ok (entry, after) →
      Lists after kept
  of_markPushed : ∀ {store after : σ} {kept : List (Alarm × Instant)} {output : Uuid}
    {success : Bool} {message : String} {time : Instant} {push : Push}, Lists store kept →
      Repository.markPushed store output success message time = .ok (push, after) → Lists after kept
  of_markRun : ∀ {store after : σ} {kept : List (Alarm × Instant)} {id : Uuid} {time : Instant},
    Lists store kept → Repository.markRun store id time = .ok after →
      Lists after (kept.map (noted id time))
  exists_markRun : ∀ {store : σ} {kept : List (Alarm × Instant)} {k : Alarm × Instant},
    Lists store kept → k ∈ kept → ∀ time, ∃ after, Repository.markRun store k.1.id time = .ok after
  of_alarm : ∀ {store : σ} {kept : List (Alarm × Instant)} {id : Uuid} {a : Alarm},
    Lists store kept → Repository.alarm store id = .ok a → ∃ k ∈ kept, a.Restores k.1
  of_dueAlarms : ∀ {store : σ} {kept : List (Alarm × Instant)} {least : Span} {now : Instant}
    {alarms : List Alarm}, Lists store kept → Repository.dueAlarms store least now = .ok alarms →
      ∃ due : List (Alarm × Instant), due.Sublist kept ∧
        List.Forall₂ (fun a k => a.Restores k.1) alarms due ∧
        ∀ k ∈ due, Passed k.1.runInterval least k.2 now

namespace Memory

variable {m after : Memory} {kept : List (Alarm × Instant)} {a b : Alarm} {id : Uuid}
  {time now : Instant} {least : Span} {alarms : List Alarm}

/-- An alarm is kept as it was created, but for the time of its last run. -/
structure KeptAs (a : Alarm) (k : Alarm × Instant) : Prop where
  id : a.id = k.1.id
  rule : a.rule = k.1.rule
  runInterval : a.runInterval = k.1.runInterval
  compiled : a.compiled = k.1.compiled
  lastRun : a.lastRun = k.2

theorem KeptAs.restores {k : Alarm × Instant} (h : KeptAs a k) : a.withoutHistory.Restores k.1 :=
  ⟨h.id, fun _ => h.rule, fun _ _ => h.runInterval, .inr h.compiled⟩

/-- The store keeps these alarms with these times of their last runs. -/
structure Lists (m : Memory) (kept : List (Alarm × Instant)) : Prop where
  alarms : List.Forall₂ KeptAs m.alarms kept
  ids : (m.alarms.map Alarm.id).Nodup

theorem Lists.map_id (h : m.Lists kept) : m.alarms.map Alarm.id = kept.map fun k => k.1.id :=
  map_eq_map_of_forall₂ h.alarms fun _ _ hk => hk.id

/-- A change of the alarms, one by one, that keeps each of them as something else. -/
theorem Lists.map (h : m.Lists kept) {change : Alarm → Alarm} {note : Alarm × Instant → Alarm × Instant}
    (hid : ∀ a, (change a).id = a.id)
    (hchange : ∀ a ∈ m.alarms, ∀ k, KeptAs a k → KeptAs (change a) (note k)) :
    Lists { m with alarms := m.alarms.map change } (kept.map note) := by
  constructor
  · rw [List.forall₂_map_left_iff, List.forall₂_map_right_iff]
    have hmem := (List.forall₂_and_left (p := (· ∈ m.alarms)) _ _).mpr ⟨fun _ ha => ha, h.alarms⟩
    exact hmem.imp fun a k hk => hchange a hk.1 k hk.2
  · have hids : (m.alarms.map change).map Alarm.id = m.alarms.map Alarm.id := by
      rw [List.map_map]
      exact List.map_congr_left fun a _ => hid a
    exact hids ▸ h.ids

/-- An alarm may take the place of another one with its definition and its last run. -/
theorem Lists.replace (h : m.Lists kept) (hstored : m.stored b.id = .ok b)
    (hsame : ∀ k, KeptAs b k → KeptAs a k) : (m.replace a).Lists kept := by
  have hid : a.id = b.id := (hsame (b, b.lastRun) ⟨rfl, rfl, rfl, rfl, rfl⟩).id
  have hmap : (m.replace a).Lists (kept.map id) := by
    refine h.map (fun c => id_ite a c) ?_
    intro c hc k hk
    split
    · rename_i hca
      rw [eq_of_stored h.ids hstored hc (hca.trans hid)] at hk
      exact hsame k hk
    · exact hk
  rwa [List.map_id] at hmap

theorem Lists.createAlarm (h : m.Lists kept) (hcreate : m.createAlarm a = .ok after) :
    after.Lists (kept ++ [(a, a.lastRun)]) := by
  obtain ⟨hnew, rfl⟩ := createAlarm_eq_ok hcreate
  constructor
  · exact List.rel_append h.alarms (.cons ⟨rfl, rfl, rfl, rfl, rfl⟩ .nil)
  · show ((m.alarms ++ [a]).map Alarm.id).Nodup
    rw [List.map_append, List.nodup_append]
    refine ⟨h.ids, List.nodup_singleton _, ?_⟩
    rintro _ hmem _ hlast rfl
    obtain ⟨b, hb, hid⟩ := List.mem_map.mp hmem
    exact hnew b hb (hid.trans (List.mem_singleton.mp hlast))

theorem Lists.fire {value : String} {entry : Entry} (h : m.Lists kept)
    (hfire : m.fire id value time = .ok (entry, after)) : after.Lists kept := by
  obtain ⟨a, hstored, -, -, rfl⟩ := fire_eq_ok hfire
  have hreplaced : (m.replace (a.opened (.ofNat m.entriesMade) value time)).Lists kept :=
    h.replace hstored fun _ hk => ⟨hk.id, hk.rule, hk.runInterval, hk.compiled, hk.lastRun⟩
  exact ⟨hreplaced.alarms, hreplaced.ids⟩

theorem Lists.clear {entry : Entry} (h : m.Lists kept)
    (hclear : m.clear id time = .ok (entry, after)) : after.Lists kept := by
  obtain ⟨a, hstored, -, -, rfl⟩ := clear_eq_ok hclear
  exact h.replace hstored fun _ hk => ⟨hk.id, hk.rule, hk.runInterval, hk.compiled, hk.lastRun⟩

theorem Lists.markRun (h : m.Lists kept) (hmark : m.markRun id time = .ok after) :
    after.Lists (kept.map (noted id time)) := by
  obtain ⟨a, hstored, rfl, rfl⟩ := markRun_eq_ok hmark
  refine h.map (fun c => id_ite { a with lastRun := time } c) ?_
  intro c hc j hj
  by_cases hca : c.id = a.id
  · rw [if_pos hca, noted_of_eq (hj.id.symm.trans hca)]
    rw [eq_of_stored h.ids hstored hc hca] at hj
    exact ⟨hj.id, hj.rule, hj.runInterval, hj.compiled, rfl⟩
  · rw [if_neg hca, noted_of_ne fun hja => hca (hj.id.trans hja)]
    exact hj

theorem Lists.exists_markRun {k : Alarm × Instant} (h : m.Lists kept) (hk : k ∈ kept)
    (time : Instant) : ∃ after, m.markRun k.1.id time = .ok after := by
  rcases stored_cases m k.1.id with ⟨a, hstored⟩ | ⟨-, hnone⟩
  · exact ⟨_, markRun_of_stored hstored time⟩
  · obtain ⟨a, ha, hak⟩ := exists_of_forall₂_right h.alarms hk
    exact absurd hak.id (hnone a ha)

theorem Lists.alarm (h : m.Lists kept) (halarm : m.alarm id = .ok a) :
    ∃ k ∈ kept, a.Restores k.1 := by
  unfold Memory.alarm at halarm
  rcases stored_cases m id with ⟨b, hstored⟩ | ⟨hnone, -⟩
  · rw [hstored] at halarm
    cases halarm
    obtain ⟨k, hk, hbk⟩ := exists_of_forall₂_left h.alarms (mem_of_stored hstored).1
    exact ⟨k, hk, hbk.restores⟩
  · rw [hnone] at halarm
    cases halarm

/-- The enabled alarms whose interval, or the least interval if that is longer, has passed since their
last run, in the order of their creation. -/
def dueIds (m : Memory) (least : Span) (now : Instant) : List Uuid :=
  (m.alarms.filter fun a => a.enabled = true ∧
    a.lastRun.nanos + (a.runInterval.longer least).nanos ≤ now.nanos).map Alarm.id

theorem map_id_dueAlarms (h : m.dueAlarms least now = .ok alarms) :
    alarms.map Alarm.id = m.dueIds least now := by
  cases h
  rw [List.map_map]
  refine congrArg (List.map Alarm.id) (List.filter_congr ?_)
  intro a _
  rw [Bool.eq_iff_iff, a.isDue_iff, decide_eq_true_iff]

theorem Lists.dueAlarms (h : m.Lists kept) (hdue : m.dueAlarms least now = .ok alarms) :
    ∃ due : List (Alarm × Instant), due.Sublist kept ∧
      List.Forall₂ (fun a k => a.Restores k.1) alarms due ∧
      ∀ k ∈ due, k.2.nanos + (k.1.runInterval.longer least).nanos ≤ now.nanos := by
  cases hdue
  obtain ⟨due, hsub, hpairs⟩ := exists_forall₂_of_sublist
    (List.filter_sublist (p := fun a => a.isDue now least)) h.alarms
  refine ⟨due, hsub, ?_, ?_⟩
  · rw [List.forall₂_map_left_iff]
    exact hpairs.imp fun _ _ hk => hk.restores
  · intro k hk
    obtain ⟨a, ha, hak⟩ := exists_of_forall₂_right hpairs hk
    have hpassed := ((a.isDue_iff now least).mp (List.mem_filter.mp ha).2).2
    rw [← hak.lastRun, ← hak.runInterval]
    exact hpassed

instance : Keeper Memory where
  Lists := Lists
  Passed interval least last now := last.nanos + (interval.longer least).nanos ≤ now.nanos
  ids h := h.map_id ▸ h.ids
  of_createAlarm := Lists.createAlarm
  of_fire := Lists.fire
  of_clear := Lists.clear
  of_markPushed h hpushed := by
    have halarms := alarms_of_markPushed hpushed
    exact ⟨halarms ▸ h.alarms, halarms ▸ h.ids⟩
  of_markRun := Lists.markRun
  exists_markRun := Lists.exists_markRun
  of_alarm := Lists.alarm
  of_dueAlarms := Lists.dueAlarms

end Memory

namespace Tables

variable {t after : Tables} {kept : List (Alarm × Instant)} {a : Alarm} {id : Uuid}
  {time now : Instant} {least : Span} {alarms : List Alarm}

theorem lift_eq_ok_iff {α : Type} {r : Except StorageError α} {x : α} : lift r = .ok x ↔ r = .ok x := by
  cases r with
  | error cause => exact iff_of_false nofun nofun
  | ok y => rw [lift, Except.mapError, Except.ok.injEq, Except.ok.injEq]

/-- A row is that of an alarm as it was created, but for the time of its last run. -/
structure KeptAs (r : AlarmRow) (k : Alarm × Instant) : Prop where
  id : r.id = k.1.id.text
  rule : r.rule = k.1.rule.toJson.text
  runInterval : r.runInterval = .number k.1.runInterval.stored
  lastRun : r.lastRun = .number k.2.millis

/-- The rows are those of these alarms with these times of their last runs. -/
structure Lists (t : Tables) (kept : List (Alarm × Instant)) : Prop where
  alarms : List.Forall₂ KeptAs t.alarms kept
  ids : (kept.map fun k => k.1.id).Nodup

/-- A change of the rows of an alarm that keeps each of them as something else. -/
theorem Lists.updateAlarm (h : t.Lists kept) {change : AlarmRow → AlarmRow}
    {note : Alarm × Instant → Alarm × Instant} (hnote : ∀ k, (note k).1 = k.1)
    (hchange : ∀ r k, KeptAs r k → KeptAs (if r.id = id.text then change r else r) (note k)) :
    (t.updateAlarm id change).Lists (kept.map note) := by
  constructor
  · have hrows : (t.updateAlarm id change).alarms =
        t.alarms.map fun r => if r.id = id.text then change r else r := rfl
    rw [hrows, List.forall₂_map_left_iff, List.forall₂_map_right_iff]
    exact h.alarms.imp hchange
  · have hids : (kept.map note).map (fun k => k.1.id) = kept.map fun k => k.1.id := by
      rw [List.map_map]
      exact List.map_congr_left fun k _ => congrArg Alarm.id (hnote k)
    exact hids ▸ h.ids

theorem Lists.setFired (h : t.Lists kept) (fired : Bool) : (t.setFired id fired time).Lists kept := by
  have hupdated : (t.setFired id fired time).Lists (kept.map fun k => k) := by
    refine h.updateAlarm (fun _ => rfl) ?_
    intro r k hk
    split
    · exact ⟨hk.id, hk.rule, hk.runInterval, hk.lastRun⟩
    · exact hk
  rwa [List.map_id'] at hupdated

theorem Lists.hasAlarm_iff (h : t.Lists kept) (id : Uuid) :
    t.hasAlarm id = true ↔ ∃ k ∈ kept, k.1.id = id := by
  have hids : t.alarms.map AlarmRow.id = kept.map fun k => k.1.id.text :=
    map_eq_map_of_forall₂ h.alarms fun _ _ hk => hk.id
  have hmem : t.hasAlarm id = true ↔ id.text ∈ t.alarms.map AlarmRow.id := by
    simp [hasAlarm, List.mem_map]
  rw [hmem, hids, List.mem_map]
  constructor
  · rintro ⟨k, hk, hid⟩
    exact ⟨k, hk, Uuid.text_injective hid⟩
  · rintro ⟨k, hk, rfl⟩
    exact ⟨k, hk, rfl⟩

theorem Lists.createAlarm (h : t.Lists kept) (hcreate : t.createAlarm a = .ok after) :
    after.Lists (kept ++ [(a, a.lastRun)]) := by
  unfold Tables.createAlarm at hcreate
  split at hcreate
  · cases hcreate
  · rename_i hnew
    injection hcreate with hcreate
    rw [← hcreate]
    constructor
    · exact List.rel_append h.alarms (.cons ⟨rfl, rfl, rfl, rfl⟩ .nil)
    · rw [List.map_append, List.nodup_append]
      refine ⟨h.ids, List.nodup_singleton _, ?_⟩
      rintro _ hmem _ hlast rfl
      obtain ⟨k, hk, hid⟩ := List.mem_map.mp hmem
      exact hnew ((h.hasAlarm_iff a.id).mpr ⟨k, hk, hid.trans (List.mem_singleton.mp hlast)⟩)

theorem Lists.fire {value : String} {entry : Entry} (h : t.Lists kept)
    (hfire : t.fire id value time = .ok (entry, after)) : after.Lists kept := by
  unfold Tables.fire at hfire
  split at hfire
  · cases hfire
  · split at hfire
    · cases hfire
    · cases hfire
      have hset : (t.setFired id true time).Lists kept := h.setFired true
      exact ⟨hset.alarms, hset.ids⟩

theorem Lists.clear {entry : Entry} (h : t.Lists kept)
    (hclear : t.clear id time = .ok (entry, after)) : after.Lists kept := by
  unfold Tables.clear at hclear
  split at hclear
  · cases hclear
  · obtain ⟨entry, -, hclear⟩ := bind_eq_ok_iff.mp hclear
    cases hclear
    have hset : (t.setFired id false time).Lists kept := h.setFired false
    exact ⟨hset.alarms, hset.ids⟩

theorem Lists.markPushed {output : Uuid} {success : Bool} {message : String} {push : Push}
    (h : t.Lists kept) (hpushed : t.markPushed output success message time = .ok (push, after)) :
    after.Lists kept := by
  unfold Tables.markPushed at hpushed
  split at hpushed
  · cases hpushed
  · cases hpushed
    exact ⟨h.alarms, h.ids⟩

theorem Lists.markRun (h : t.Lists kept) (hmark : t.markRun id time = .ok after) :
    after.Lists (kept.map (noted id time)) := by
  unfold Tables.markRun at hmark
  split at hmark
  · cases hmark
    refine h.updateAlarm (fst_noted id time) ?_
    intro r j hj
    by_cases hid : j.1.id = id
    · rw [if_pos (hj.id.trans (congrArg Uuid.text hid)), noted_of_eq hid]
      exact ⟨hj.id, hj.rule, hj.runInterval, rfl⟩
    · rw [if_neg fun hr => hid (Uuid.text_injective (hj.id.symm.trans hr)), noted_of_ne hid]
      exact hj
  · cases hmark

theorem Lists.exists_markRun {k : Alarm × Instant} (h : t.Lists kept) (hk : k ∈ kept)
    (time : Instant) : ∃ after, t.markRun k.1.id time = .ok after :=
  ⟨_, if_pos ((h.hasAlarm_iff k.1.id).mpr ⟨k, hk, rfl⟩)⟩

theorem KeptAs.restores {r : AlarmRow} {k : Alarm × Instant} (hk : KeptAs r k)
    (h : r.toAlarm = .ok a) : a.Restores k.1 := by
  obtain ⟨rule, hrule, h⟩ := bind_eq_ok_iff.mp h
  obtain ⟨interval, hinterval, h⟩ := bind_eq_ok_iff.mp h
  obtain ⟨id, hid, h⟩ := bind_eq_ok_iff.mp h
  rw [hk.runInterval] at hinterval
  rw [hk.id, Uuid.ofStored_text] at hid
  cases hinterval
  cases hid
  obtain ⟨_, -, h⟩ := bind_eq_ok_iff.mp h
  obtain ⟨_, -, h⟩ := bind_eq_ok_iff.mp h
  obtain ⟨_, -, h⟩ := bind_eq_ok_iff.mp h
  obtain ⟨_, -, h⟩ := bind_eq_ok_iff.mp h
  obtain ⟨_, -, h⟩ := bind_eq_ok_iff.mp h
  cases h
  refine ⟨rfl, ?_, fun hmillis hle => hmillis.ofStored hle, .inl rfl⟩
  intro hfits
  rw [hk.rule, Json.ofStored, Json.ofText?_text, Option.bind_some, Rule.ofJson?_toJson hfits] at hrule
  cases hrule
  rfl

theorem Lists.alarm (h : t.Lists kept) (halarm : t.alarm id = .ok a) :
    ∃ k ∈ kept, a.Restores k.1 := by
  unfold Tables.alarm at halarm
  split at halarm
  · rename_i r hr
    obtain ⟨k, hk, hrk⟩ := exists_of_forall₂_left h.alarms (List.mem_of_find?_eq_some hr)
    exact ⟨k, hk, hrk.restores (lift_eq_ok_iff.mp halarm)⟩
  · cases halarm

theorem passed_of_isDue {r : AlarmRow} {k : Alarm × Instant} (hk : KeptAs r k)
    (h : r.isDue least now = true) :
    k.2.millis + max k.1.runInterval.stored least.stored ≤ now.millis := by
  rw [AlarmRow.isDue, Bool.and_eq_true, decide_eq_true_iff] at h
  have hsum := of_decide_eq_true h.2
  rw [hk.lastRun, hk.runInterval] at hsum
  refine (wordSum_le_iff k.2.millis_bounds ?_ now.millis_bounds.2).mp hsum
  simp only [Span.stored, greatestWord]
  omega

theorem Lists.dueAlarms (h : t.Lists kept) (hdue : t.dueAlarms least now = .ok alarms) :
    ∃ due : List (Alarm × Instant), due.Sublist kept ∧
      List.Forall₂ (fun a k => a.Restores k.1) alarms due ∧
      ∀ k ∈ due, k.2.millis + max k.1.runInterval.stored least.stored ≤ now.millis := by
  obtain ⟨due, hsub, hpairs⟩ := exists_forall₂_of_sublist
    (List.filter_sublist (p := fun r : AlarmRow => r.isDue least now)) h.alarms
  refine ⟨due, hsub, ?_, ?_⟩
  · exact forall₂_trans (mapM_eq_ok_iff.mp (lift_eq_ok_iff.mp hdue)) hpairs
      fun _ _ _ hr hk => hk.restores hr
  · intro k hk
    obtain ⟨r, hr, hrk⟩ := exists_of_forall₂_right hpairs hk
    exact passed_of_isDue hrk (List.mem_filter.mp hr).2

instance : Keeper Tables where
  Lists := Lists
  Passed interval least last now :=
    last.millis + max interval.stored least.stored ≤ now.millis
  ids h := h.ids
  of_createAlarm := Lists.createAlarm
  of_fire := Lists.fire
  of_clear := Lists.clear
  of_markPushed := Lists.markPushed
  of_markRun := Lists.markRun
  exists_markRun := Lists.exists_markRun
  of_alarm := Lists.alarm
  of_dueAlarms := Lists.dueAlarms

end Tables

end Vigil
