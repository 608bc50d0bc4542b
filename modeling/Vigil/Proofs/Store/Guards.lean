import Mathlib.Data.List.Count
import Vigil.Proofs.Results
import Vigil.Proofs.Runner.Passes
import Vigil.Proofs.Store.Calls
import Vigil.Store.Tables

/-!
# What the guards of a store count

A store lets an alarm fire only when all entries of its history are cleared, and clears it only when one
is not. So its history can be seen through two numbers: the entries made and the entries cleared. No
call but firing and clearing changes them.
-/

namespace Vigil

/-- Stores whose guards decide by the entries of a history that are not cleared. -/
class Guarded (σ : Type) [Repository σ] where
  /-- The entries in the history of an alarm. -/
  entries : σ → Uuid → Nat
  /-- Those of them that are cleared. -/
  cleared : σ → Uuid → Nat
  of_fire : ∀ {store after : σ} {id : Uuid} {value : String} {time : Instant} {entry : Entry},
    Repository.fire store id value time = .ok (entry, after) →
      cleared store id = entries store id ∧ entries after id = entries store id + 1 ∧
        cleared after id = cleared store id
  of_clear : ∀ {store after : σ} {id : Uuid} {time : Instant} {entry : Entry},
    Repository.clear store id time = .ok (entry, after) →
      cleared store id < entries store id ∧ entries after id = entries store id ∧
        (entries store id = cleared store id + 1 → cleared after id = entries store id)
  of_markRun : ∀ {store after : σ} {id other : Uuid} {time : Instant},
    Repository.markRun store other time = .ok after →
      entries after id = entries store id ∧ cleared after id = cleared store id
  of_markPushed : ∀ {store after : σ} {id output : Uuid} {success : Bool} {message : String}
    {time : Instant} {push : Push},
    Repository.markPushed store output success message time = .ok (push, after) →
      entries after id = entries store id ∧ cleared after id = cleared store id

namespace Memory

variable {m after : Memory} {a : Alarm} {id other : Uuid} {time : Instant} {entry : Entry}

def clearedEntries (m : Memory) (id : Uuid) : Nat :=
  match m.stored id with
  | .ok a => a.history.countP Entry.cleared
  | .error _ => 0

theorem clearedEntries_of_stored (h : m.stored id = .ok a) :
    m.clearedEntries id = a.history.countP Entry.cleared := by
  unfold clearedEntries
  rw [h]

theorem counts_congr (h : after.stored id = m.stored id) :
    after.historyLength id = m.historyLength id ∧ after.clearedEntries id = m.clearedEntries id := by
  simp [historyLength, clearedEntries, h]

theorem counts_of_fire {value : String} (h : m.fire id value time = .ok (entry, after)) :
    m.clearedEntries id = m.historyLength id ∧ after.historyLength id = m.historyLength id + 1 ∧
      after.clearedEntries id = m.clearedEntries id := by
  obtain ⟨a, hstored, rfl, hopen, rfl⟩ := fire_eq_ok h
  have hafter : (m.opened a value time).stored a.id =
      .ok (a.opened (.ofNat m.entriesMade) value time) :=
    (stored_opened m a value time a.id).trans (stored_replace_self hstored)
  have hall : a.history.countP Entry.cleared = a.history.length := by
    refine List.countP_eq_length.mpr ?_
    intro e he
    by_contra hc
    exact hopen ⟨e, he, by simpa using hc⟩
  rw [clearedEntries_of_stored hstored, historyLength_of_stored hstored,
    clearedEntries_of_stored hafter, historyLength_of_stored hafter]
  simp [Alarm.opened, Entry.opened, hall]

theorem counts_of_clear (h : m.clear id time = .ok (entry, after)) :
    m.clearedEntries id < m.historyLength id ∧ after.historyLength id = m.historyLength id ∧
      after.clearedEntries id = m.clearedEntries id + 1 := by
  obtain ⟨a, hstored, rfl, hopen, rfl⟩ := clear_eq_ok h
  have hafter : (m.replace (a.closed time)).stored a.id = .ok (a.closed time) :=
    stored_replace_self hstored
  obtain ⟨e, he⟩ := Alarm.hasOpen_iff.mp hopen
  obtain ⟨hcleared, done, rest, hsplit, hdone⟩ := Alarm.openEntry?_eq_some he
  have hclosed : (a.closed time).history = done ++ e.close time :: rest := by
    show Alarm.closeFirst time a.history = _
    rw [hsplit, Alarm.closeFirst_append hdone hcleared]
  rw [clearedEntries_of_stored hstored, historyLength_of_stored hstored,
    clearedEntries_of_stored hafter, historyLength_of_stored hafter, hclosed, hsplit]
  have hle := List.countP_le_length (p := Entry.cleared) (l := done)
  have hle' := List.countP_le_length (p := Entry.cleared) (l := rest)
  simp only [List.countP_append, List.countP_cons, hcleared, List.length_append, List.length_cons,
    Entry.close, if_true, Bool.false_eq_true, if_false]
  exact ⟨by omega, trivial, by omega⟩

theorem counts_of_markRun (h : m.markRun other time = .ok after) :
    after.historyLength id = m.historyLength id ∧ after.clearedEntries id = m.clearedEntries id := by
  obtain ⟨a, hstored, rfl, rfl⟩ := markRun_eq_ok h
  by_cases hsame : id = a.id
  · subst hsame
    have hafter : (m.replace { a with lastRun := time }).stored a.id =
        .ok { a with lastRun := time } := stored_replace_self hstored
    rw [clearedEntries_of_stored hstored, historyLength_of_stored hstored,
      clearedEntries_of_stored hafter, historyLength_of_stored hafter]
    exact ⟨rfl, rfl⟩
  · exact counts_congr (stored_replace_of_ne hsame)

instance : Guarded Memory where
  entries := historyLength
  cleared := clearedEntries
  of_fire := counts_of_fire
  of_clear h := by
    obtain ⟨hless, hentries, hcleared⟩ := counts_of_clear h
    exact ⟨hless, hentries, fun hone => hcleared.trans hone.symm⟩
  of_markRun := counts_of_markRun
  of_markPushed h := counts_congr (stored_congr (alarms_of_markPushed h) _)

end Memory

namespace Tables

variable {t after : Tables} {id other : Uuid} {time : Instant} {entry : Entry}

/-- The open row that is found stands in the history. -/
theorem mem_entriesOf_of_find? {row : EntryRow} (h : t.entries.find? (isOpenOf id) = some row) :
    row.cleared = false ∧ row ∈ t.entriesOf id := by
  have hopen := List.find?_some h
  simp only [isOpenOf, Bool.and_eq_true, decide_eq_true_eq, Bool.not_eq_true'] at hopen
  exact ⟨hopen.2, List.mem_filter.mpr ⟨List.mem_of_find?_eq_some h, by simpa using hopen.1⟩⟩

theorem counts_of_fire {value : String} (h : t.fire id value time = .ok (entry, after)) :
    (t.entriesOf id).countP EntryRow.cleared = (t.entriesOf id).length ∧
      (after.entriesOf id).length = (t.entriesOf id).length + 1 ∧
      (after.entriesOf id).countP EntryRow.cleared = (t.entriesOf id).countP EntryRow.cleared := by
  unfold fire at h
  split at h
  · cases h
  · split at h
    · cases h
    · rename_i hnone
      cases h
      have hall : (t.entriesOf id).countP EntryRow.cleared = (t.entriesOf id).length := by
        refine List.countP_eq_length.mpr ?_
        intro r hr
        obtain ⟨hr, hid⟩ := List.mem_filter.mp hr
        by_contra hc
        exact hnone (List.any_eq_true.mpr ⟨r, hr, by simp_all [isOpenOf]⟩)
      refine ⟨hall, ?_, ?_⟩
      · simp [entriesOf, List.filter_append, EntryRow.ofEntry, Entry.opened]
      · simp [entriesOf, List.filter_append, EntryRow.ofEntry, Entry.opened]

/-- The row, closed at a time if it has the identifier. -/
def closeRow (entryId : String) (time : Instant) (r : EntryRow) : EntryRow :=
  if r.id = entryId then { r with cleared := true, clearedAt := some time.millis } else r

theorem alarmId_closeRow (entryId : String) (time : Instant) (r : EntryRow) :
    (closeRow entryId time r).alarmId = r.alarmId := by
  unfold closeRow
  split <;> rfl

theorem id_closeRow (entryId : String) (time : Instant) (r : EntryRow) :
    (closeRow entryId time r).id = r.id := by
  unfold closeRow
  split <;> rfl

theorem closeRow_of_ne {entryId : String} {r : EntryRow} (h : r.id ≠ entryId) (time : Instant) :
    closeRow entryId time r = r :=
  if_neg h

theorem closeRow_ofEntry (e : Entry) (time : Instant) :
    closeRow e.id.text time (.ofEntry e) = .ofEntry (e.close time) :=
  if_pos rfl

theorem entries_of_clear (h : t.clear id time = .ok (entry, after)) :
    ∃ row, t.entries.find? (isOpenOf id) = some row ∧
      after.entries = t.entries.map (closeRow row.id time) := by
  unfold clear at h
  cases hfound : t.entries.find? (isOpenOf id) with
  | none =>
    rw [hfound] at h
    cases h
  | some row =>
    rw [hfound] at h
    obtain ⟨found, -, h⟩ := bind_eq_ok_iff.mp h
    replace h : (Except.ok (found.close time,
        { t.setFired id false time with entries := t.entries.map (closeRow row.id time) }) :
        Except AlarmError _) = .ok (entry, after) := h
    injection h with h
    injection h with _ hafter
    rw [← hafter]
    exact ⟨row, rfl, rfl⟩

theorem entriesOf_of_map (close : EntryRow → EntryRow) (hid : ∀ r, (close r).alarmId = r.alarmId)
    (h : after.entries = t.entries.map close) : after.entriesOf id = (t.entriesOf id).map close := by
  rw [entriesOf, entriesOf, h, List.filter_map]
  refine congrArg (List.map close) (List.filter_congr ?_)
  intro r _
  rw [Function.comp_apply, hid]

theorem counts_of_clear (h : t.clear id time = .ok (entry, after)) :
    (t.entriesOf id).countP EntryRow.cleared < (t.entriesOf id).length ∧
      (after.entriesOf id).length = (t.entriesOf id).length ∧
      ((t.entriesOf id).length = (t.entriesOf id).countP EntryRow.cleared + 1 →
        (after.entriesOf id).countP EntryRow.cleared = (t.entriesOf id).length) := by
  obtain ⟨row, hfound, hentries⟩ := entries_of_clear h
  obtain ⟨hopen, hmem⟩ := mem_entriesOf_of_find? hfound
  rw [entriesOf_of_map _ (alarmId_closeRow row.id time) hentries]
  generalize t.entriesOf id = rows at hmem
  refine ⟨List.countP_lt_length_iff.mpr ⟨row, hmem, hopen⟩, List.length_map _, ?_⟩
  intro hone
  -- the found row is the only one that is open
  have hcount : (rows.filter fun r => !r.cleared).length = 1 := by
    have hsplit := List.length_eq_length_filter_add (l := rows) EntryRow.cleared
    rw [List.countP_eq_length_filter] at hone
    omega
  obtain ⟨only, honly⟩ := List.length_eq_one_iff.mp hcount
  have heq : ∀ r ∈ rows, r.cleared = false → r = only := by
    intro r hr hc
    have hin : r ∈ rows.filter fun r => !r.cleared := List.mem_filter.mpr ⟨hr, by simp [hc]⟩
    rw [honly] at hin
    exact List.mem_singleton.mp hin
  rw [List.countP_map]
  refine List.countP_eq_length.mpr ?_
  intro r hr
  rw [Function.comp_apply, closeRow]
  split
  · rfl
  · rename_i hne
    cases hc : r.cleared with
    | true => rfl
    | false => exact absurd (by rw [heq r hr hc, heq row hmem hopen]) hne

instance : Guarded Tables where
  entries t id := (t.entriesOf id).length
  cleared t id := (t.entriesOf id).countP EntryRow.cleared
  of_fire := counts_of_fire
  of_clear := counts_of_clear
  of_markRun {t after id other time} h := by
    replace h : t.markRun other time = .ok after := h
    unfold markRun at h
    split at h
    · cases h
      exact ⟨rfl, rfl⟩
    · cases h
  of_markPushed {t after id output success message time push} h := by
    replace h : t.markPushed output success message time = .ok (push, after) := h
    unfold markPushed at h
    split at h
    · cases h
    · cases h
      exact ⟨rfl, rfl⟩

end Tables

end Vigil
