import Vigil.Proofs.Store.Alarms
import Vigil.Runner

/-!
# One pass over an alarm

Telling outputs records what became of them and changes no alarm. So of all that a pass does only
the state change and the time of the run reach the stored alarm, and the store refuses neither: the
flag that the pass decides by tells whether an entry is open.
-/

namespace Vigil

variable {id : Uuid}

namespace Memory

variable {m m' : Memory}

theorem stored_congr (h : m.alarms = m'.alarms) (id : Uuid) : m.stored id = m'.stored id := by
  rw [stored_eq_find?, stored_eq_find?, h]

theorem alarms_of_markPushed {p : Push} {success : Bool} {message : String} {time : Instant}
    (h : m.markPushed id success message time = .ok (p, m')) : m'.alarms = m.alarms := by
  unfold markPushed at h
  split at h
  · cases h
  · cases h
    rfl

theorem alarms_record (m : Memory) (outcome : PushOutcome) (time : Instant) :
    (Dispatch.record m outcome time).alarms = m.alarms := by
  unfold Dispatch.record
  split
  · rename_i p m' h
    exact alarms_of_markPushed h
  · rfl

theorem alarms_pushAll (notice : Notice) (time clock : Instant) (outputs : List Output)
    (world : Memory × Courier) :
    (Dispatch.pushAll notice time clock outputs world).2.1.alarms = world.1.alarms := by
  induction outputs generalizing world with
  | nil => rfl
  | cons o rest ih =>
    obtain ⟨m, network⟩ := world
    rw [Dispatch.pushAll]
    exact (ih _).trans (alarms_record m _ time)

end Memory

theorem Engine.alarms_tell (e : Engine Memory) (a : Alarm) (event : Event) (values : Named Float)
    (error : Option String) (now : Instant) :
    (e.tell a event values error now).store.alarms = e.store.alarms :=
  Memory.alarms_pushAll _ now now _ (e.store, e.network)

def Alarm.settled (a : Alarm) (entryId : Uuid) (now : Instant) :
    Except AlarmError Valuation → Alarm
  | .error _ => a
  | .ok v =>
    match a.fired, v.fired with
    | false, true => a.opened entryId (Valuation.valuesText v.values) now
    | true, false => a.closed now
    | _, _ => a

/-- The evaluation ended in an error that is nobody's to mend but the operator's. -/
def EndsInternally (result : Except AlarmError Valuation) : Prop :=
  ∃ cause, result = .error cause ∧ cause.isSoft = false ∧ cause.isUserFacing = false

def Alarm.ranAt (a : Alarm) (time : Instant) : Alarm :=
  { a with lastRun := time }

@[simp] theorem Alarm.id_ranAt (a : Alarm) (time : Instant) : (a.ranAt time).id = a.id := rfl

@[simp] theorem Alarm.id_settled (a : Alarm) (entryId : Uuid) (now : Instant)
    (result : Except AlarmError Valuation) : (a.settled entryId now result).id = a.id := by
  unfold settled
  split
  · rfl
  · split <;> rfl

theorem Alarm.state_withoutHistory {a : Alarm} {b : Bool} (h : a.fired = b) :
    a.withoutHistory.state = if b then .fired else .idle := by
  rw [← h]
  rfl

namespace Engine

variable {e : Engine Memory} {a : Alarm} {v : Valuation} {now : Instant} {entry : Entry}
  {store : Memory}

theorem apply_stay (h : a.state.transition v.fired = .stay) :
    e.apply a v now = (.unchanged, e) := by
  rw [apply_eq, h]

theorem apply_fire (h : a.state.transition v.fired = .fire)
    (hfire : Repository.fire e.store a.id (Valuation.valuesText v.values) now =
      .ok (entry, store)) :
    ∃ after, e.apply a v now = (.fired, after) ∧ after.store.alarms = store.alarms := by
  rw [apply_eq, h]
  simp only [hfire]
  exact ⟨_, rfl, alarms_tell { e with store } a .fire v.values none now⟩

theorem apply_clear (h : a.state.transition v.fired = .clear)
    (hclear : Repository.clear e.store a.id now = .ok (entry, store)) :
    ∃ after, e.apply a v now = (.cleared, after) ∧ after.store.alarms = store.alarms := by
  rw [apply_eq, h]
  simp only [hclear]
  exact ⟨_, rfl, alarms_tell { e with store } a .clear v.values none now⟩

/-- A change of state is never refused to a pass over a coherent alarm. -/
theorem apply_stored (h : e.store.stored id = .ok a) (hcoherent : a.Coherent) (v : Valuation)
    (now : Instant) :
    ∃ entryId outcome after, e.apply a.withoutHistory v now = (outcome, after) ∧
      after.store.stored id = .ok (a.settled entryId now (.ok v)) ∧ outcome ≠ .failed := by
  obtain rfl : a.id = id := (Memory.mem_of_stored h).2
  have hopen := hcoherent.fired_eq_true_iff
  cases hfired : a.fired with
  | false =>
    have hstate := Alarm.state_withoutHistory hfired
    have hclosed : ¬ a.HasOpen := by
      rw [← hopen, hfired]
      exact Bool.false_ne_true
    cases hholds : v.fired with
    | false =>
      have hstay : a.withoutHistory.state.transition v.fired = .stay := by rw [hstate, hholds]; rfl
      refine ⟨.ofNat e.store.entriesMade, .unchanged, e, apply_stay hstay, ?_, by decide⟩
      simp only [Alarm.settled, hfired, hholds, h]
    | true =>
      have hmove : a.withoutHistory.state.transition v.fired = .fire := by rw [hstate, hholds]; rfl
      have hfire := Memory.fire_of_not_hasOpen h hclosed (Valuation.valuesText v.values) now
      obtain ⟨after, hafter, halarms⟩ := apply_fire hmove hfire
      refine ⟨.ofNat e.store.entriesMade, .fired, after, hafter, ?_, by decide⟩
      rw [Memory.stored_congr halarms, Memory.stored_opened]
      simp only [Alarm.settled, hfired, hholds]
      exact Memory.stored_replace_self h
  | true =>
    have hstate := Alarm.state_withoutHistory hfired
    cases hholds : v.fired with
    | false =>
      have hmove : a.withoutHistory.state.transition v.fired = .clear := by rw [hstate, hholds]; rfl
      obtain ⟨entry, hclear⟩ := Memory.clear_of_hasOpen h (hopen.mp hfired) now
      obtain ⟨after, hafter, halarms⟩ := apply_clear hmove hclear
      refine ⟨.ofNat e.store.entriesMade, .cleared, after, hafter, ?_, by decide⟩
      rw [Memory.stored_congr halarms]
      simp only [Alarm.settled, hfired, hholds]
      exact Memory.stored_replace_self h
    | true =>
      have hstay : a.withoutHistory.state.transition v.fired = .stay := by rw [hstate, hholds]; rfl
      refine ⟨.ofNat e.store.entriesMade, .unchanged, e, apply_stay hstay, ?_, by decide⟩
      simp only [Alarm.settled, hfired, hholds, h]

/-- A failed evaluation changes no alarm, whatever its class. -/
theorem alarms_react_error (e : Engine Memory) (a : Alarm) (now : Instant) (cause : AlarmError) :
    (e.react a now (.error cause)).2.store.alarms = e.store.alarms := by
  rw [react.eq_def]
  show (if cause.isSoft then _ else if cause.isUserFacing then _ else _ :
    Outcome × Engine Memory).2.store.alarms = _
  split
  · rfl
  · split
    · exact alarms_tell e a .error .empty _ now
    · rfl

/-- An evaluation that failed makes a failed pass only for an internal cause. -/
theorem endsInternally_of_failed {cause : AlarmError}
    (h : (e.react a now (.error cause)).1 = .failed) : EndsInternally (.error cause) := by
  rw [react.eq_def] at h
  cases hsoft : cause.isSoft with
  | true =>
    simp only [hsoft, if_true] at h
    cases h
  | false =>
    cases hfacing : cause.isUserFacing with
    | true =>
      simp only [hsoft, hfacing, Bool.false_eq_true, if_false, if_true] at h
      cases h
    | false => exact ⟨cause, rfl, hsoft, hfacing⟩

theorem react_stored (h : e.store.stored id = .ok a) (hcoherent : a.Coherent) (now : Instant)
    (result : Except AlarmError Valuation) :
    ∃ entryId outcome after, e.react a.withoutHistory now result = (outcome, after) ∧
      after.store.stored id = .ok (a.settled entryId now result) ∧
      (outcome = .failed → EndsInternally result) := by
  cases result with
  | ok v =>
    obtain ⟨entryId, outcome, after, hafter, hstored, hne⟩ := apply_stored h hcoherent v now
    exact ⟨entryId, outcome, after, hafter, hstored, fun hfailed => absurd hfailed hne⟩
  | error cause =>
    refine ⟨.ofNat e.store.entriesMade, _, _, rfl, ?_, ?_⟩
    · exact (Memory.stored_congr (alarms_react_error e a.withoutHistory now cause) id).trans h
    · exact endsInternally_of_failed

theorem markRun_of_stored (h : e.store.stored id = .ok a) (now : Instant) :
    e.markRun id now = { e with store := e.store.replace (a.ranAt now) } := by
  have hmark : Repository.markRun e.store id now = .ok (e.store.replace (a.ranAt now)) :=
    Memory.markRun_of_stored h now
  rw [markRun, hmark]

/-- What a pass over a coherent alarm leaves in the store. -/
theorem conclude_stored (h : e.store.stored id = .ok a) (hcoherent : a.Coherent) (now : Instant)
    (result : Except AlarmError Valuation) :
    ∃ entryId outcome after, e.conclude a.withoutHistory now result = (outcome, after) ∧
      after.store.stored id = .ok ((a.settled entryId now result).ranAt now) ∧
      (outcome = .failed → EndsInternally result) := by
  obtain rfl : a.id = id := (Memory.mem_of_stored h).2
  obtain ⟨entryId, outcome, after, hafter, hstored, hinternal⟩ :=
    react_stored h hcoherent now result
  have hid : ((a.settled entryId now result).ranAt now).id = a.id := by simp
  refine ⟨entryId, outcome, (after.count .evaluated).markRun a.id now, ?_, ?_, hinternal⟩
  · rw [conclude, hafter]
    rfl
  · rw [markRun_of_stored (e := after.count .evaluated) hstored now]
    show (after.store.replace ((a.settled entryId now result).ranAt now)).stored a.id = _
    rw [← hid]
    exact Memory.stored_replace_self (by rw [hid]; exact hstored)

end Engine

end Vigil
