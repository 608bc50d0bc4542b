import Vigil.Store.Repository

/-!
# A store with faults

A store some of whose calls fail before they reach it, or answer a query with too few series. All other
calls go through unchanged.
-/

namespace Vigil

/-- What can go wrong with a store. -/
inductive Fault where
  | fire
  | clear
  | markRun
  | outputs
  | markPushed
  | query
  | shortQuery
  deriving DecidableEq, Repr

/-- A store and its faults. -/
structure Faulty (σ : Type) where
  store : σ
  faults : List Fault

namespace Faulty

variable {σ α : Type}

def sound (store : σ) : Faulty σ := ⟨store, []⟩

/-- A call on the store, unless it is one that fails. -/
def guarded (s : Faulty σ) (fault : Fault) (call : σ → Except AlarmError α) : Except AlarmError α :=
  if s.faults.contains fault then .error (.storage (.queryFailed "fault")) else call s.store

def after (s : Faulty σ) (store : σ) : Faulty σ := { s with store }

/-- An answer and the store after a call that changes it. -/
def answered (s : Faulty σ) : α × σ → α × Faulty σ
  | (a, store) => (a, s.after store)

instance [Repository σ] : Repository (Faulty σ) where
  createAlarm s a := (Repository.createAlarm s.store a).map s.after
  alarm s id := Repository.alarm s.store id
  dueAlarms s minInterval now := Repository.dueAlarms s.store minInterval now
  fire s id value time :=
    (s.guarded .fire fun store => Repository.fire store id value time).map s.answered
  clear s id time := (s.guarded .clear fun store => Repository.clear store id time).map s.answered
  markRun s id time := (s.guarded .markRun fun store => Repository.markRun store id time).map s.after
  history s id limit := Repository.history s.store id limit
  historySize s id := Repository.historySize s.store id
  createChannel s c := (Repository.createChannel s.store c).map s.after
  createOutput s o := (Repository.createOutput s.store o).map s.after
  outputs s alarmId selection :=
    s.guarded .outputs fun store => Repository.outputs store alarmId selection
  markPushed s id success message time :=
    (s.guarded .markPushed fun store => Repository.markPushed store id success message time).map
      s.answered
  pushes s id := Repository.pushes s.store id
  write s w := (Repository.write s.store w).map s.after
  query s q := do
    let series ← s.guarded .query fun store => Repository.query store q
    return if s.faults.contains .shortQuery then series.dropLast else series

end Faulty

end Vigil
