import Vigil.Proofs.Store.Alarms

/-!
# Sequences of calls on the alarms of a store

A store in memory answers calls one after the other. What a call does is said once, in `Step`; that
the store stays coherent and that its histories record the firings is one case analysis over it, and
then an induction over the sequence. The guards are stated for the store that any sequence leads to.
Only new alarms are created: not fired and without a history.
-/

namespace Vigil

/-- A call that may change an alarm. -/
inductive Call where
  | create (a : Alarm)
  | fire (id : Uuid) (value : String) (time : Instant)
  | clear (id : Uuid) (time : Instant)
  | markRun (id : Uuid) (time : Instant)

namespace Call

def alarmId : Call → Uuid
  | create a => a.id
  | fire id _ _ | clear id _ | markRun id _ => id

/-- The call asks to fire the alarm of an identifier. -/
def fires (id : Uuid) : Call → Bool
  | fire other _ _ => other = id
  | _ => false

/-- The value and the time of a call that asks to fire the alarm of an identifier. -/
def firing? (id : Uuid) : Call → Option (String × Instant)
  | fire other value time => if other = id then some (value, time) else none
  | _ => none

theorem isSome_firing? (id : Uuid) (c : Call) : (c.firing? id).isSome = c.fires id := by
  cases c with
  | fire other value time =>
    by_cases h : other = id
    · simp [firing?, fires, h]
    · simp [firing?, fires, h]
  | _ => rfl

end Call

namespace Memory

def call : Call → InPlace Memory Unit
  | .create a => createInPlace a
  | .fire id value time => do let _ ← fireInPlace id value time
  | .clear id time => do let _ ← clearInPlace id time
  | .markRun id time => markRunInPlace id time

def perform (m : Memory) (c : Call) : Memory :=
  match call c m with
  | .ok _ m' => m'
  | .error _ m' => m'

def after (m : Memory) : List Call → Memory
  | [] => m
  | c :: rest => (m.perform c).after rest

def accepted (m : Memory) : List Call → List Call
  | [] => []
  | c :: rest =>
    match call c m with
    | .ok _ m' => c :: m'.accepted rest
    | .error _ m' => m'.accepted rest

variable {m m' : Memory} {c : Call} {a : Alarm} {id : Uuid}

/-- What a call that succeeds does, and when it does. -/
inductive Step (m : Memory) : Call → Memory → Prop where
  | create {a : Alarm} (hid : ∀ b ∈ m.alarms, b.id ≠ a.id) :
      Step m (.create a) { m with alarms := m.alarms ++ [a] }
  | fire {a : Alarm} {value : String} {time : Instant} (hstored : m.stored a.id = .ok a)
      (hopen : ¬ a.HasOpen) : Step m (.fire a.id value time) (m.opened a value time)
  | clear {a : Alarm} {time : Instant} (hstored : m.stored a.id = .ok a) (hopen : a.HasOpen) :
      Step m (.clear a.id time) (m.replace (a.closed time))
  | markRun {a : Alarm} {time : Instant} (hstored : m.stored a.id = .ok a) :
      Step m (.markRun a.id time) (m.replace { a with lastRun := time })

/-- A call takes a step, or it is refused and leaves the store as it was. -/
theorem call_cases (hids : (m.alarms.map Alarm.id).Nodup) (c : Call) :
    (∃ m', call c m = .ok () m' ∧ Step m c m') ∨ ∃ cause, call c m = .error cause m := by
  cases c with
  | create a =>
    by_cases hknown : ∃ b ∈ m.alarms, b.id = a.id
    · obtain ⟨b, hb, hid⟩ := hknown
      exact .inr ⟨_, createInPlace_of_known hb hid⟩
    · have hnew : ∀ b ∈ m.alarms, b.id ≠ a.id := fun b hb hid => hknown ⟨b, hb, hid⟩
      exact .inl ⟨_, createInPlace_of_unknown hnew, .create hnew⟩
  | fire id value time =>
    rcases stored_cases m id with ⟨a, hstored⟩ | ⟨_, hnone⟩
    · obtain rfl := (mem_of_stored hstored).2
      by_cases hopen : a.HasOpen
      · have hfire := fireInPlace_of_hasOpen hstored hopen value time
        rw [replace_stored hids hstored] at hfire
        exact .inr ⟨_, InPlace.bind_of_error hfire⟩
      · have hfire := fireInPlace_of_not_hasOpen hstored hopen value time
        exact .inl ⟨_, InPlace.bind_of_ok hfire, .fire hstored hopen⟩
    · exact .inr ⟨_, InPlace.bind_of_error (fireInPlace_of_unknown hnone value time)⟩
  | clear id time =>
    rcases stored_cases m id with ⟨a, hstored⟩ | ⟨_, hnone⟩
    · obtain rfl := (mem_of_stored hstored).2
      by_cases hopen : a.HasOpen
      · obtain ⟨e, hclear⟩ := clearInPlace_of_hasOpen hstored hopen time
        exact .inl ⟨_, InPlace.bind_of_ok hclear, .clear hstored hopen⟩
      · have hclear := clearInPlace_of_not_hasOpen hstored hopen time
        rw [replace_stored hids hstored] at hclear
        exact .inr ⟨_, InPlace.bind_of_error hclear⟩
    · exact .inr ⟨_, InPlace.bind_of_error (onAlarm_of_unknown hnone)⟩
  | markRun id time =>
    rcases stored_cases m id with ⟨a, hstored⟩ | ⟨_, hnone⟩
    · obtain rfl := (mem_of_stored hstored).2
      exact .inl ⟨_, markRunInPlace_of_stored hstored time, .markRun hstored⟩
    · refine .inr ⟨.notFound (.alarm id), ?_⟩
      rw [call, markRunInPlace]
      exact onAlarm_of_unknown hnone

theorem perform_of_error {cause : AlarmError} (h : call c m = .error cause m') :
    m.perform c = m' := by
  unfold perform
  rw [h]

theorem perform_of_ok (h : call c m = .ok () m') : m.perform c = m' := by
  unfold perform
  rw [h]

/-- The identifiers are unique and every alarm is coherent. -/
structure Coherent (m : Memory) : Prop where
  ids : (m.alarms.map Alarm.id).Nodup
  alarms : ∀ a ∈ m.alarms, a.Coherent

/-- A call creates only alarms that have not fired yet. -/
def OnlyNew (c : Call) : Prop :=
  ∀ a, c = .create a → a.fired = false ∧ a.history = []

theorem coherent_empty : Coherent empty :=
  ⟨List.nodup_nil, fun _ h => absurd h List.not_mem_nil⟩

theorem Coherent.replace (h : m.Coherent) (ha : a.Coherent) : (m.replace a).Coherent := by
  constructor
  · rw [map_id_replace]
    exact h.ids
  · intro b hb
    rcases mem_replace hb with rfl | ⟨hb, _⟩
    · exact ha
    · exact h.alarms b hb

theorem Coherent.step (h : m.Coherent) (hnew : OnlyNew c) (hstep : Step m c m') :
    m'.Coherent := by
  cases hstep with
  | create hid =>
    obtain ⟨hfired, hhistory⟩ := hnew _ rfl
    constructor
    · rw [List.map_append, List.nodup_append]
      refine ⟨h.ids, by simp, ?_⟩
      intro i hi j hj
      obtain ⟨b, hb, rfl⟩ := List.mem_map.mp hi
      rw [List.map_singleton, List.mem_singleton] at hj
      rw [hj]
      exact hid b hb
    · intro b hb
      rcases List.mem_append.mp hb with hb | hb
      · exact h.alarms b hb
      · rw [List.mem_singleton.mp hb]
        exact Alarm.coherent_of_new hfired hhistory
  | fire hstored hopen =>
    have ha := (h.alarms _ (mem_of_stored hstored).1).opened hopen
    exact ⟨(h.replace (ha _ _ _)).ids, (h.replace (ha _ _ _)).alarms⟩
  | clear hstored hopen =>
    exact h.replace ((h.alarms _ (mem_of_stored hstored).1).closed hopen _)
  | markRun hstored =>
    exact h.replace ((h.alarms _ (mem_of_stored hstored).1).congr rfl rfl)

theorem Coherent.perform (h : m.Coherent) (hnew : OnlyNew c) : (m.perform c).Coherent := by
  rcases call_cases h.ids c with ⟨m', hcall, hstep⟩ | ⟨cause, hcall⟩
  · rw [perform_of_ok hcall]
    exact h.step hnew hstep
  · rw [perform_of_error hcall]
    exact h

theorem Coherent.after {calls : List Call} (h : m.Coherent) (hnew : ∀ c ∈ calls, OnlyNew c) :
    (m.after calls).Coherent := by
  induction calls generalizing m with
  | nil => exact h
  | cons c rest ih =>
    exact ih (h.perform (hnew c (by simp))) fun d hd => hnew d (List.mem_cons_of_mem _ hd)

def historyLength (m : Memory) (id : Uuid) : Nat :=
  match m.stored id with
  | .ok a => a.history.length
  | .error _ => 0

theorem historyLength_of_stored (h : m.stored id = .ok a) :
    m.historyLength id = a.history.length := by
  unfold historyLength
  rw [h]

theorem historyLength_of_unknown (h : ∀ a ∈ m.alarms, a.id ≠ id) : m.historyLength id = 0 := by
  unfold historyLength
  rw [stored_of_forall_ne h]

/-- The firings that are recorded under an identifier. -/
def firings (m : Memory) (id : Uuid) : List (String × Instant) :=
  match m.stored id with
  | .ok a => a.firings
  | .error _ => []

theorem firings_of_stored (h : m.stored id = .ok a) : m.firings id = a.firings := by
  unfold firings
  rw [h]

theorem length_firings (m : Memory) (id : Uuid) : (m.firings id).length = m.historyLength id := by
  unfold firings historyLength
  split
  · exact List.length_map _
  · rfl

theorem firings_replace {b : Alarm} (hstored : m.stored a.id = .ok b) (id : Uuid) :
    (m.replace a).firings id = if id = a.id then a.firings else m.firings id := by
  split
  · rename_i hid
    rw [hid, firings_of_stored (stored_replace_self hstored)]
  · rename_i hid
    unfold firings
    rw [stored_replace_of_ne hid]

theorem firings_create (hhistory : a.history = []) (id : Uuid) :
    firings { m with alarms := m.alarms ++ [a] } id = m.firings id := by
  unfold firings
  rw [stored_eq_find?, stored_eq_find?, List.find?_append]
  cases hfind : m.alarms.find? fun b => b.id = id with
  | some b => rfl
  | none =>
    by_cases ha : a.id = id
    · simp [ha, Alarm.firings, hhistory]
    · simp [ha]

/-- A replacement that records the same firings changes no record. -/
theorem firings_replace_of_eq {b : Alarm} (hstored : m.stored a.id = .ok b)
    (hsame : a.firings = b.firings) (id : Uuid) : (m.replace a).firings id = m.firings id := by
  rw [firings_replace hstored]
  split
  · rename_i hid
    rw [hid, firings_of_stored hstored, hsame]
  · rfl

/-- Only firing an alarm makes its record longer, and by that firing. -/
theorem firings_step (hnew : OnlyNew c) (hstep : Step m c m') (id : Uuid) :
    m'.firings id = m.firings id ++ (c.firing? id).toList := by
  cases hstep with
  | create hid =>
    rw [firings_create (hnew _ rfl).2]
    exact (List.append_nil _).symm
  | @fire a value time hstored hopen =>
    have hreplace := firings_replace (a := a.opened (.ofNat m.entriesMade) value time) hstored id
    show (m.replace (a.opened (.ofNat m.entriesMade) value time)).firings id = _
    rw [hreplace, Alarm.id_opened, Alarm.firings_opened]
    by_cases hid : id = a.id
    · subst hid
      rw [if_pos rfl, firings_of_stored hstored]
      simp [Call.firing?]
    · have hid' : a.id ≠ id := fun h => hid h.symm
      simp [Call.firing?, hid, hid']
  | @clear a time hstored hopen =>
    rw [firings_replace_of_eq (a := a.closed time) hstored (Alarm.firings_closed time)]
    exact (List.append_nil _).symm
  | @markRun a time hstored =>
    rw [firings_replace_of_eq (a := { a with lastRun := time }) hstored rfl]
    exact (List.append_nil _).symm

/-- A history records the calls that fired its alarm, in their order. -/
theorem firings_after {calls : List Call} (h : m.Coherent) (hnew : ∀ c ∈ calls, OnlyNew c)
    (id : Uuid) :
    (m.after calls).firings id =
      m.firings id ++ (m.accepted calls).filterMap (Call.firing? id) := by
  induction calls generalizing m with
  | nil => exact (List.append_nil _).symm
  | cons c rest ih =>
    have hperform := h.perform (hnew c List.mem_cons_self)
    have hrest := ih hperform fun d hd => hnew d (List.mem_cons_of_mem _ hd)
    unfold after accepted
    rw [hrest]
    rcases call_cases h.ids c with ⟨m', hcall, hstep⟩ | ⟨cause, hcall⟩
    · have hstep := firings_step (hnew c List.mem_cons_self) hstep id
      simp only [hcall, perform_of_ok hcall, hstep, List.append_assoc, List.filterMap_cons]
      cases c.firing? id with
      | none => rfl
      | some f => rfl
    · simp only [hcall, perform_of_error hcall]

/-- A history has one entry for each call that fired its alarm. -/
theorem historyLength_after {calls : List Call} (h : m.Coherent) (hnew : ∀ c ∈ calls, OnlyNew c)
    (id : Uuid) :
    (m.after calls).historyLength id =
      m.historyLength id + (m.accepted calls).countP (Call.fires id) := by
  have hfires : (fun c => (Call.firing? id c).isSome) = Call.fires id :=
    funext fun c => Call.isSome_firing? id c
  rw [← length_firings, firings_after h hnew, List.length_append, length_firings,
    List.length_filterMap_eq_countP, hfires]

/-- A refused call leaves no trace, so the accepted calls are some of all. -/
theorem accepted_sublist (m : Memory) (calls : List Call) : (m.accepted calls).Sublist calls := by
  induction calls generalizing m with
  | nil => exact .slnil
  | cons c rest ih =>
    unfold accepted
    split
    · exact (ih _).cons_cons c
    · exact (ih _).cons c

/-- Under an identifier firing and clearing each succeed, are refused by their guard, or find no
alarm, and it depends on the open entry alone which of these happens. -/
structure Guards (m : Memory) (id : Uuid) : Prop where
  fire_ok : ∀ value time, (∃ r, m.fire id value time = .ok r) ↔
    ∃ a ∈ m.alarms, a.id = id ∧ ¬ a.HasOpen
  fire_conflict : ∀ value time, m.fire id value time = .error (.conflict id.text) ↔
    ∃ a ∈ m.alarms, a.id = id ∧ a.HasOpen
  fire_unknown : ∀ value time, m.fire id value time = .error (.notFound (.alarm id)) ↔
    ∀ a ∈ m.alarms, a.id ≠ id
  clear_ok : ∀ time, (∃ r, m.clear id time = .ok r) ↔ ∃ a ∈ m.alarms, a.id = id ∧ a.HasOpen
  clear_refused : ∀ time, m.clear id time = .error (.notFound (.openEntry id)) ↔
    ∃ a ∈ m.alarms, a.id = id ∧ ¬ a.HasOpen
  clear_unknown : ∀ time, m.clear id time = .error (.notFound (.alarm id)) ↔
    ∀ a ∈ m.alarms, a.id ≠ id

/-- What holds of some alarm with an identifier holds of the stored one. -/
theorem exists_id_iff (hids : (m.alarms.map Alarm.id).Nodup) (h : m.stored id = .ok a)
    (p : Alarm → Prop) : (∃ b ∈ m.alarms, b.id = id ∧ p b) ↔ p a := by
  constructor
  · rintro ⟨b, hb, hid, hp⟩
    rw [← eq_of_stored hids h hb hid]
    exact hp
  · intro hp
    exact ⟨a, (mem_of_stored h).1, (mem_of_stored h).2, hp⟩

theorem guards_of_stored (hids : (m.alarms.map Alarm.id).Nodup) (h : m.stored id = .ok a) :
    m.Guards id := by
  have hknown : ¬ ∀ b ∈ m.alarms, b.id ≠ id :=
    fun hne => hne a (mem_of_stored h).1 (mem_of_stored h).2
  by_cases hopen : a.HasOpen
  · have hfire := fire_of_hasOpen h hopen
    have hclear := clear_of_hasOpen h hopen
    constructor
    · intro value time
      simp [exists_id_iff hids h, hfire, hopen]
    · intro value time
      simp [exists_id_iff hids h, hfire, hopen]
    · intro value time
      simp [hfire, hknown]
    · intro time
      obtain ⟨e, he⟩ := hclear time
      simp [exists_id_iff hids h, he, hopen]
    · intro time
      obtain ⟨e, he⟩ := hclear time
      simp [exists_id_iff hids h, he, hopen]
    · intro time
      obtain ⟨e, he⟩ := hclear time
      simp [he, hknown]
  · have hfire := fire_of_not_hasOpen h hopen
    have hclear := clear_of_not_hasOpen h hopen
    constructor
    · intro value time
      simp [exists_id_iff hids h, hfire, hopen]
    · intro value time
      simp [exists_id_iff hids h, hfire, hopen]
    · intro value time
      simp [hfire, hknown]
    · intro time
      simp [exists_id_iff hids h, hclear, hopen]
    · intro time
      simp [exists_id_iff hids h, hclear, hopen]
    · intro time
      simp [hclear, hknown]

theorem guards_of_unknown (h : ∀ a ∈ m.alarms, a.id ≠ id) : m.Guards id := by
  have hnone : ∀ p : Alarm → Prop, ¬ ∃ a ∈ m.alarms, a.id = id ∧ p a :=
    fun p ⟨a, ha, hid, _⟩ => h a ha hid
  constructor
  · intro value time
    simp [fire_of_unknown h, hnone]
  · intro value time
    simp [fire_of_unknown h, hnone]
  · intro value time
    simpa [fire_of_unknown h] using h
  · intro time
    simp [clear_of_unknown h, hnone]
  · intro time
    simp [clear_of_unknown h, hnone]
  · intro time
    simpa [clear_of_unknown h] using h

theorem Coherent.guards (h : m.Coherent) (id : Uuid) : m.Guards id := by
  rcases stored_cases m id with ⟨a, hstored⟩ | ⟨_, hnone⟩
  · exact guards_of_stored h.ids hstored
  · exact guards_of_unknown hnone

/-- Two stores differ in the alarm of an identifier at most. -/
structure SameBut (id : Uuid) (m m' : Memory) : Prop where
  alarms : m'.alarms.filter (fun a => a.id ≠ id) = m.alarms.filter (fun a => a.id ≠ id)
  channels : m'.channels = m.channels
  outputs : m'.outputs = m.outputs
  pushLog : m'.pushLog = m.pushLog
  devices : m'.devices = m.devices

/-- No alarm is lost, and its cleared entries stay as and where they are. -/
def KeepsEntries (m m' : Memory) : Prop :=
  ∀ a ∈ m.alarms, ∃ a' ∈ m'.alarms, a'.id = a.id ∧ Alarm.KeepsCleared a.history a'.history

theorem sameBut_replace (m : Memory) (a : Alarm) : SameBut a.id m (m.replace a) :=
  ⟨filter_replace m a, rfl, rfl, rfl, rfl⟩

theorem sameBut_step (hstep : Step m c m') : SameBut c.alarmId m m' := by
  cases hstep with
  | @create a hid =>
    refine ⟨?_, rfl, rfl, rfl, rfl⟩
    show (m.alarms ++ [a]).filter (fun b => b.id ≠ a.id) = m.alarms.filter fun b => b.id ≠ a.id
    rw [List.filter_append]
    simp
  | @fire a value time hstored hopen =>
    obtain ⟨halarms, _, _, _, _⟩ :=
      sameBut_replace m (a.opened (.ofNat m.entriesMade) value time)
    exact ⟨halarms, rfl, rfl, rfl, rfl⟩
  | @clear a time hstored hopen => exact sameBut_replace m (a.closed time)
  | @markRun a time hstored => exact sameBut_replace m { a with lastRun := time }

theorem keepsEntries_replace {b : Alarm} (hids : (m.alarms.map Alarm.id).Nodup)
    (hstored : m.stored a.id = .ok b) (hkeeps : Alarm.KeepsCleared b.history a.history) :
    KeepsEntries m (m.replace a) := by
  intro d hd
  by_cases hid : d.id = a.id
  · have hd' := eq_of_stored hids hstored hd hid
    subst hd'
    exact ⟨a, (mem_of_stored (stored_replace_self hstored)).1, hid.symm, hkeeps⟩
  · refine ⟨d, ?_, rfl, Alarm.keepsCleared_refl _⟩
    rw [replace_alarms, List.mem_map]
    exact ⟨d, hd, if_neg hid⟩

theorem keepsEntries_step (hids : (m.alarms.map Alarm.id).Nodup) (hstep : Step m c m') :
    KeepsEntries m m' := by
  cases hstep with
  | create hid =>
    intro a ha
    exact ⟨a, List.mem_append_left _ ha, rfl, Alarm.keepsCleared_refl _⟩
  | fire hstored hopen =>
    exact keepsEntries_replace hids hstored (Alarm.keepsCleared_opened _ _ _)
  | clear hstored hopen =>
    exact keepsEntries_replace hids hstored (Alarm.keepsCleared_closed hopen _)
  | markRun hstored =>
    exact keepsEntries_replace hids hstored (Alarm.keepsCleared_refl _)

/-- Whatever is asked of a store, its alarms stay coherent and their histories count the firings. In
the store that a sequence leads to the guards decide by the open entry, a refused call leaves
everything as it was, and any other changes its own alarm only and no entry that is cleared. -/
theorem coherent_after_calls (calls : List Call) (hnew : ∀ c ∈ calls, OnlyNew c) :
    (empty.after calls).Coherent ∧
    (∀ a ∈ (empty.after calls).alarms,
      a.history.length = (empty.accepted calls).countP (Call.fires a.id)) ∧
    (∀ id, (empty.after calls).Guards id) ∧
    (∀ c cause m', call c (empty.after calls) = .error cause m' → m' = empty.after calls) ∧
    (∀ c m', call c (empty.after calls) = .ok () m' →
      SameBut c.alarmId (empty.after calls) m' ∧ KeepsEntries (empty.after calls) m') := by
  have hcoherent : (empty.after calls).Coherent := coherent_empty.after hnew
  refine ⟨hcoherent, ?_, hcoherent.guards, ?_, ?_⟩
  · intro a ha
    have hlength := historyLength_after coherent_empty hnew a.id
    rcases stored_cases (empty.after calls) a.id with ⟨b, hstored⟩ | ⟨_, hnone⟩
    · rw [eq_of_stored hcoherent.ids hstored ha rfl, ← historyLength_of_stored hstored, hlength,
        historyLength_of_unknown fun _ h => absurd h List.not_mem_nil, Nat.zero_add,
        (mem_of_stored hstored).2]
    · exact absurd rfl (hnone a ha)
  · intro c cause m' hcall
    rcases call_cases hcoherent.ids c with ⟨m'', hok, _⟩ | ⟨cause', herror⟩
    · rw [hok] at hcall
      cases hcall
    · rw [herror] at hcall
      cases hcall
      rfl
  · intro c m' hcall
    rcases call_cases hcoherent.ids c with ⟨m'', hok, hstep⟩ | ⟨cause, herror⟩
    · rw [hok] at hcall
      cases hcall
      exact ⟨sameBut_step hstep, keepsEntries_step hcoherent.ids hstep⟩
    · rw [herror] at hcall
      cases hcall

/-- Two alarms: the first is fired, refuses to be fired again, is cleared and fired once more, while
the second is asked to clear without an open entry. -/
theorem coherent_after_two_firings :
    let alarm (n : Nat) : Alarm :=
      { id := .ofNat n, owner := "", name := "", info := "", message := "", group := "",
        enabled := true, fired := false, rule := ⟨[], "", 1⟩, runInterval := .ofSeconds 60,
        lastRun := .epoch, createdAt := .epoch, updatedAt := .epoch, history := [],
        compiled := none }
    let calls : List Call :=
      [.create (alarm 1), .fire (.ofNat 1) "t=3.00" .epoch, .create (alarm 2),
        .fire (.ofNat 1) "t=4.00" .epoch, .clear (.ofNat 2) .epoch, .clear (.ofNat 1) .epoch,
        .markRun (.ofNat 2) .last, .fire (.ofNat 1) "t=5.00" .last]
    (∀ c ∈ calls, OnlyNew c) ∧
      (empty.accepted calls).countP (Call.fires (.ofNat 1)) = 2 ∧
      (empty.after calls).alarms.map (·.history.length) = [2, 0] ∧
      (empty.after calls).Coherent ∧ (empty.after calls).Guards (.ofNat 1) := by
  intro alarm calls
  have hnew : ∀ c ∈ calls, OnlyNew c := by
    intro c hc a ha
    subst ha
    simp only [calls, alarm, List.mem_cons, Call.create.injEq, reduceCtorEq, false_or,
      List.not_mem_nil, or_false] at hc
    rcases hc with rfl | rfl <;> exact ⟨rfl, rfl⟩
  obtain ⟨hcoherent, _, hguards, _, _⟩ := coherent_after_calls calls hnew
  exact ⟨hnew, by decide, by decide, hcoherent, hguards _⟩

end Memory

end Vigil
