import Mathlib.Data.List.Nodup
import Vigil.Proofs.Alarm.History
import Vigil.Store.Memory

/-!
# Alarms in a store

Looking an alarm up after a replacement gives the replacement under its own identifier and what was
there before under any other. From this follows what each call on an alarm does: it is refused, or
the store afterwards is the old one with that alarm replaced.
-/

namespace Vigil

namespace Memory

variable {m : Memory} {a b : Alarm} {id : Uuid}

theorem stored_eq_find? (m : Memory) (id : Uuid) :
    m.stored id = match m.alarms.find? (fun a => a.id = id) with
      | some a => .ok a
      | none => .error (.notFound (.alarm id)) := rfl

theorem mem_of_stored (h : m.stored id = .ok a) : a ∈ m.alarms ∧ a.id = id := by
  rw [stored_eq_find?] at h
  split at h
  · rename_i b hfind
    cases h
    exact ⟨List.mem_of_find?_eq_some hfind, by simpa using List.find?_some hfind⟩
  · cases h

theorem stored_of_forall_ne (h : ∀ a ∈ m.alarms, a.id ≠ id) :
    m.stored id = .error (.notFound (.alarm id)) := by
  rw [stored_eq_find?, List.find?_eq_none.mpr]
  intro a ha
  simpa using h a ha

/-- An alarm is stored under an identifier, or none has it. -/
theorem stored_cases (m : Memory) (id : Uuid) :
    (∃ a, m.stored id = .ok a) ∨
      (m.stored id = .error (.notFound (.alarm id)) ∧ ∀ a ∈ m.alarms, a.id ≠ id) := by
  rw [stored_eq_find?]
  split
  · exact .inl ⟨_, rfl⟩
  · rename_i hnone
    refine .inr ⟨rfl, ?_⟩
    intro a ha
    simpa using List.find?_eq_none.mp hnone a ha

/-- With unique identifiers the stored alarm is the only one of its identifier. -/
theorem eq_of_stored (hids : (m.alarms.map Alarm.id).Nodup) (h : m.stored id = .ok a)
    (hb : b ∈ m.alarms) (hid : b.id = id) : b = a := by
  obtain ⟨ha, haid⟩ := mem_of_stored h
  exact List.inj_on_of_nodup_map hids hb ha (hid.trans haid.symm)

theorem replace_alarms (m : Memory) (a : Alarm) :
    (m.replace a).alarms = m.alarms.map fun b => if b.id = a.id then a else b := rfl

theorem id_ite (a b : Alarm) : (if b.id = a.id then a else b).id = b.id := by
  split
  · rename_i h
    exact h.symm
  · rfl

/-- A replacement moves no alarm. -/
@[simp] theorem map_id_replace (m : Memory) (a : Alarm) :
    (m.replace a).alarms.map Alarm.id = m.alarms.map Alarm.id := by
  rw [replace_alarms, List.map_map]
  exact List.map_congr_left fun b _ => id_ite a b

theorem mem_replace (h : b ∈ (m.replace a).alarms) : b = a ∨ (b ∈ m.alarms ∧ b.id ≠ a.id) := by
  rw [replace_alarms, List.mem_map] at h
  obtain ⟨c, hc, rfl⟩ := h
  split
  · exact .inl rfl
  · rename_i hne
    exact .inr ⟨hc, hne⟩

/-- A replacement leaves every other alarm in its place. -/
theorem filter_replace (m : Memory) (a : Alarm) :
    (m.replace a).alarms.filter (fun b => b.id ≠ a.id) =
      m.alarms.filter (fun b => b.id ≠ a.id) := by
  rw [replace_alarms]
  induction m.alarms with
  | nil => rfl
  | cons b rest ih =>
    by_cases h : b.id = a.id
    · simpa [h] using ih
    · simpa [h] using ih

theorem stored_replace_self (h : m.stored a.id = .ok b) : (m.replace a).stored a.id = .ok a := by
  rw [stored_eq_find?] at h ⊢
  rw [replace_alarms, List.find?_map]
  have hsame : ((fun c : Alarm => decide (c.id = a.id)) ∘ fun c => if c.id = a.id then a else c) =
      fun c => decide (c.id = a.id) := by
    funext c
    rw [Function.comp_apply, id_ite]
  rw [hsame]
  split at h
  · rename_i c hfind
    have hid : c.id = a.id := by simpa using List.find?_some hfind
    simp only [hfind, Option.map_some, if_pos hid]
  · cases h

/-- Under other identifiers a replacement finds what was there. -/
theorem find?_replaced_of_ne (h : id ≠ a.id) (alarms : List Alarm) :
    (alarms.map fun b => if b.id = a.id then a else b).find? (fun c => c.id = id) =
      alarms.find? fun c => c.id = id := by
  induction alarms with
  | nil => rfl
  | cons b rest ih =>
    rw [List.map_cons, List.find?_cons, List.find?_cons, ih, id_ite]
    split
    · rename_i hid
      have hid : b.id = id := by simpa using hid
      rw [if_neg fun hb => h (hid.symm.trans hb)]
    · rfl

theorem stored_replace_of_ne (h : id ≠ a.id) : (m.replace a).stored id = m.stored id := by
  rw [stored_eq_find?, stored_eq_find?, replace_alarms, find?_replaced_of_ne h]

/-- With unique identifiers a stored alarm may be put in its own place. -/
theorem replace_stored (hids : (m.alarms.map Alarm.id).Nodup) (h : m.stored id = .ok a) :
    m.replace a = m := by
  have hsame : (m.replace a).alarms = m.alarms := by
    rw [replace_alarms]
    refine (List.map_congr_left ?_).trans (List.map_id _)
    intro b hb
    split
    · rename_i hid
      exact (eq_of_stored hids h hb (hid.trans (mem_of_stored h).2)).symm
    · rfl
  show { m with alarms := (m.replace a).alarms } = m
  rw [hsame]

section
variable {α : Type} {work : InPlace Alarm α}

theorem onAlarm_of_unknown (h : ∀ a ∈ m.alarms, a.id ≠ id) :
    onAlarm id work m = .error (.notFound (.alarm id)) m := by
  unfold onAlarm
  rw [stored_of_forall_ne h]

theorem onAlarm_of_ok {answer : α} (h : m.stored id = .ok a) (hwork : work a = .ok answer b) :
    onAlarm id work m = .ok answer (m.replace b) := by
  unfold onAlarm
  simp only [h, hwork]

theorem onAlarm_of_error {cause : AlarmError} (h : m.stored id = .ok a)
    (hwork : work a = .error cause b) : onAlarm id work m = .error cause (m.replace b) := by
  unfold onAlarm
  simp only [h, hwork]

end

/-- The store after an entry was opened in the history of an alarm. -/
def opened (m : Memory) (a : Alarm) (value : String) (time : Instant) : Memory :=
  { m.replace (a.opened (.ofNat m.entriesMade) value time) with entriesMade := m.entriesMade + 1 }

theorem stored_opened (m : Memory) (a : Alarm) (value : String) (time : Instant) (id : Uuid) :
    (m.opened a value time).stored id =
      (m.replace (a.opened (.ofNat m.entriesMade) value time)).stored id := rfl

theorem createInPlace_of_known (hb : b ∈ m.alarms) (hid : b.id = a.id) :
    createInPlace a m = .error (.conflict a.id.text) m := by
  have hany : m.alarms.any (fun b => b.id = a.id) = true :=
    List.any_eq_true.mpr ⟨b, hb, decide_eq_true hid⟩
  show (if m.alarms.any (fun b => b.id = a.id) then _ else _ : InPlace Memory Unit) m = _
  rw [if_pos hany]
  rfl

theorem createInPlace_of_unknown (h : ∀ b ∈ m.alarms, b.id ≠ a.id) :
    createInPlace a m = .ok () { m with alarms := m.alarms ++ [a] } := by
  have hany : ¬ m.alarms.any (fun b => b.id = a.id) = true := by
    intro hany
    obtain ⟨b, hb, hid⟩ := List.any_eq_true.mp hany
    exact h b hb (of_decide_eq_true hid)
  show (if m.alarms.any (fun b => b.id = a.id) then _ else _ : InPlace Memory Unit) m = _
  rw [if_neg hany]
  rfl

theorem fireInPlace_of_unknown (h : ∀ a ∈ m.alarms, a.id ≠ id) (value : String)
    (time : Instant) : fireInPlace id value time m = .error (.notFound (.alarm id)) m := by
  show (onAlarm id (Alarm.fireInPlace (.ofNat m.entriesMade) value time) >>= _) m = _
  exact InPlace.bind_of_error (onAlarm_of_unknown h)

theorem fireInPlace_of_hasOpen (h : m.stored id = .ok a) (hopen : a.HasOpen) (value : String)
    (time : Instant) :
    fireInPlace id value time m = .error (.conflict id.text) (m.replace a) := by
  show (onAlarm id (Alarm.fireInPlace (.ofNat m.entriesMade) value time) >>= _) m = _
  rw [InPlace.bind_of_error (onAlarm_of_error h (Alarm.fireInPlace_of_hasOpen hopen _ value time)),
    (mem_of_stored h).2]

theorem fireInPlace_of_not_hasOpen (h : m.stored id = .ok a) (hopen : ¬ a.HasOpen)
    (value : String) (time : Instant) :
    fireInPlace id value time m =
      .ok (Entry.opened (.ofNat m.entriesMade) a.id value time) (m.opened a value time) := by
  show (onAlarm id (Alarm.fireInPlace (.ofNat m.entriesMade) value time) >>= _) m = _
  rw [InPlace.bind_of_ok (onAlarm_of_ok h (Alarm.fireInPlace_of_not_hasOpen hopen _ value time))]
  rfl

theorem clearInPlace_of_not_hasOpen (h : m.stored id = .ok a) (hopen : ¬ a.HasOpen)
    (time : Instant) :
    clearInPlace id time m = .error (.notFound (.openEntry id)) (m.replace a) := by
  unfold clearInPlace
  rw [onAlarm_of_error h (Alarm.clearInPlace_of_not_hasOpen hopen time), (mem_of_stored h).2]

theorem clearInPlace_of_hasOpen (h : m.stored id = .ok a) (hopen : a.HasOpen) (time : Instant) :
    ∃ e, clearInPlace id time m = .ok (Entry.close e time) (m.replace (a.closed time)) := by
  obtain ⟨e, he⟩ := Alarm.hasOpen_iff.mp hopen
  exact ⟨e, onAlarm_of_ok h (Alarm.clearInPlace_of_openEntry? he time)⟩

theorem markRunInPlace_of_stored (h : m.stored id = .ok a) (time : Instant) :
    markRunInPlace id time m = .ok () (m.replace { a with lastRun := time }) :=
  onAlarm_of_ok h rfl

theorem createAlarm_eq_ok {m' : Memory} (h : m.createAlarm a = .ok m') :
    (∀ b ∈ m.alarms, b.id ≠ a.id) ∧ m' = { m with alarms := m.alarms ++ [a] } := by
  unfold createAlarm InPlace.outcome at h
  by_cases hknown : ∃ b ∈ m.alarms, b.id = a.id
  · obtain ⟨b, hb, hid⟩ := hknown
    rw [createInPlace_of_known hb hid] at h
    cases h
  · have hnew : ∀ b ∈ m.alarms, b.id ≠ a.id := fun b hb hid => hknown ⟨b, hb, hid⟩
    rw [createInPlace_of_unknown hnew] at h
    cases h
    exact ⟨hnew, rfl⟩

theorem stored_of_createAlarm {m' : Memory} (h : m.createAlarm a = .ok m') :
    m'.stored a.id = .ok a := by
  obtain ⟨hnew, rfl⟩ := createAlarm_eq_ok h
  have hnone : m.alarms.find? (fun b => b.id = a.id) = none := by
    rw [List.find?_eq_none]
    intro b hb hsame
    exact hnew b hb (of_decide_eq_true hsame)
  rw [stored_eq_find?, List.find?_append, hnone, Option.none_or]
  simp

theorem fire_of_unknown (h : ∀ a ∈ m.alarms, a.id ≠ id) (value : String) (time : Instant) :
    m.fire id value time = .error (.notFound (.alarm id)) := by
  unfold fire InPlace.outcome
  rw [fireInPlace_of_unknown h]

theorem fire_of_hasOpen (h : m.stored id = .ok a) (hopen : a.HasOpen) (value : String)
    (time : Instant) : m.fire id value time = .error (.conflict id.text) := by
  unfold fire InPlace.outcome
  rw [fireInPlace_of_hasOpen h hopen]

theorem fire_of_not_hasOpen (h : m.stored id = .ok a) (hopen : ¬ a.HasOpen) (value : String)
    (time : Instant) :
    m.fire id value time =
      .ok (Entry.opened (.ofNat m.entriesMade) a.id value time, m.opened a value time) := by
  unfold fire InPlace.outcome
  rw [fireInPlace_of_not_hasOpen h hopen]

theorem clear_of_unknown (h : ∀ a ∈ m.alarms, a.id ≠ id) (time : Instant) :
    m.clear id time = .error (.notFound (.alarm id)) := by
  unfold clear clearInPlace InPlace.outcome
  rw [onAlarm_of_unknown h]

theorem clear_of_not_hasOpen (h : m.stored id = .ok a) (hopen : ¬ a.HasOpen) (time : Instant) :
    m.clear id time = .error (.notFound (.openEntry id)) := by
  unfold clear InPlace.outcome
  rw [clearInPlace_of_not_hasOpen h hopen]

theorem clear_of_openEntry? (h : m.stored id = .ok a) {e : Entry} (he : a.openEntry? = some e)
    (time : Instant) : m.clear id time = .ok (e.close time, m.replace (a.closed time)) := by
  unfold clear clearInPlace InPlace.outcome
  rw [onAlarm_of_ok h (Alarm.clearInPlace_of_openEntry? he time)]

theorem clear_of_hasOpen (h : m.stored id = .ok a) (hopen : a.HasOpen) (time : Instant) :
    ∃ e, m.clear id time = .ok (Entry.close e time, m.replace (a.closed time)) := by
  obtain ⟨e, he⟩ := Alarm.hasOpen_iff.mp hopen
  exact ⟨e, clear_of_openEntry? h he time⟩

theorem markRun_of_stored (h : m.stored id = .ok a) (time : Instant) :
    m.markRun id time = .ok (m.replace { a with lastRun := time }) := by
  unfold markRun InPlace.outcome
  rw [markRunInPlace_of_stored h]
  rfl

theorem markRun_of_unknown (h : ∀ a ∈ m.alarms, a.id ≠ id) (time : Instant) :
    m.markRun id time = .error (.notFound (.alarm id)) := by
  unfold markRun markRunInPlace InPlace.outcome
  rw [onAlarm_of_unknown h]
  rfl

variable {m' : Memory} {value : String} {time : Instant} {entry : Entry}

theorem fire_eq_ok (h : m.fire id value time = .ok (entry, m')) :
    ∃ a, m.stored a.id = .ok a ∧ a.id = id ∧ ¬ a.HasOpen ∧ m' = m.opened a value time := by
  rcases stored_cases m id with ⟨a, hstored⟩ | ⟨-, hnone⟩
  · obtain rfl := (mem_of_stored hstored).2
    by_cases hopen : a.HasOpen
    · rw [fire_of_hasOpen hstored hopen] at h
      cases h
    · rw [fire_of_not_hasOpen hstored hopen] at h
      cases h
      exact ⟨a, hstored, rfl, hopen, rfl⟩
  · rw [fire_of_unknown hnone] at h
    cases h

theorem clear_eq_ok (h : m.clear id time = .ok (entry, m')) :
    ∃ a, m.stored a.id = .ok a ∧ a.id = id ∧ a.HasOpen ∧ m' = m.replace (a.closed time) := by
  rcases stored_cases m id with ⟨a, hstored⟩ | ⟨-, hnone⟩
  · obtain rfl := (mem_of_stored hstored).2
    by_cases hopen : a.HasOpen
    · obtain ⟨closed, hclosed⟩ := clear_of_hasOpen hstored hopen time
      rw [hclosed] at h
      cases h
      exact ⟨a, hstored, rfl, hopen, rfl⟩
    · rw [clear_of_not_hasOpen hstored hopen] at h
      cases h
  · rw [clear_of_unknown hnone] at h
    cases h

theorem markRun_eq_ok (h : m.markRun id time = .ok m') :
    ∃ a, m.stored a.id = .ok a ∧ a.id = id ∧ m' = m.replace { a with lastRun := time } := by
  rcases stored_cases m id with ⟨a, hstored⟩ | ⟨-, hnone⟩
  · obtain rfl := (mem_of_stored hstored).2
    rw [markRun_of_stored hstored] at h
    cases h
    exact ⟨a, hstored, rfl, rfl⟩
  · rw [markRun_of_unknown hnone] at h
    cases h

end Memory

end Vigil
