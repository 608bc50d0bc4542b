import Mathlib.Algebra.BigOperators.Group.List.Basic
import Vigil.Offline
import Vigil.Proofs.Runner.Orders
import Vigil.Proofs.Scheduler.Gating
import Vigil.Store.Faults

/-!
# The counters balance

Alarms are run in passes, over whatever copies of them are at hand, and between the passes anything may
happen to the store and the network. A reaction is said once, in `Reaction`: what the store was asked,
whether it refused, and what is counted. So what is counted are the outcomes that are reported; and as
long as only runs change the alarms of a store in memory, the counters give back its histories.
-/

namespace Vigil

def Outcome.counted (o : Outcome) : List Counter :=
  o.counters ++ [.evaluated]

theorem Metrics.count_foldl_increase (cs : List Counter) (counts : Counter → Nat) (c : Counter) :
    (cs.foldl (fun m c => m.increase c) (kept counts)).count c = counts c + cs.count c := by
  induction cs generalizing counts with
  | nil => rfl
  | cons d rest ih =>
    rw [List.foldl_cons, increase, ih, List.count_cons]
    by_cases h : c = d
    · subst h
      simp only [if_true, beq_self_eq_true]
      omega
    · have hne : (d == c) = false := beq_false_of_ne fun heq => h heq.symm
      simp [h, hne]

/-- Each run is counted as an evaluation, and by its outcome. -/
theorem Outcome.count_flatMap_counted (outcomes : List (Uuid × Outcome)) :
    let counted := fun c => (outcomes.flatMap fun x => x.2.counted).count c
    let reported := fun o => outcomes.countP fun x => x.2 = o
    counted .evaluated = outcomes.length ∧
      counted .fired = reported .fired ∧ counted .cleared = reported .cleared ∧
      counted .errored = reported .errored ∧
      counted .notified = reported .fired + reported .cleared + reported .errored := by
  induction outcomes with
  | nil => exact ⟨rfl, rfl, rfl, rfl, rfl⟩
  | cons x rest ih =>
    obtain ⟨id, outcome⟩ := x
    simp only [List.flatMap_cons, List.count_append, List.countP_cons, List.length_cons] at ih ⊢
    obtain ⟨hevaluated, hfired, hcleared, herrored, hnotified⟩ := ih
    rw [hevaluated, hfired, hcleared, herrored, hnotified]
    cases outcome <;> simp [counted, counters] <;> omega

namespace Engine

variable {σ : Type} [Repository σ] {e e' : Engine σ} {a : Alarm} {now : Instant} {outcome : Outcome}

/-- What the result of an evaluation may lead to, and where it leads. -/
inductive Reaction (e : Engine σ) (a : Alarm) (now : Instant) : Outcome → Engine σ → Prop where
  | nothing {outcome : Outcome} (uncounted : outcome.counters = []) : Reaction e a now outcome e
  | fired {value : String} {values : Named Float} {entry : Entry} {store : σ}
      (granted : Repository.fire e.store a.id value now = .ok (entry, store)) :
      Reaction e a now .fired
        ((({ e with store }.tell a .fire values none now).count .fired).count .notified)
  | cleared {values : Named Float} {entry : Entry} {store : σ}
      (granted : Repository.clear e.store a.id now = .ok (entry, store)) :
      Reaction e a now .cleared
        ((({ e with store }.tell a .clear values none now).count .cleared).count .notified)
  | errored {message : String} :
      Reaction e a now .errored
        (((e.tell a .error .empty (some message) now).count .errored).count .notified)

theorem reaction_apply (e : Engine σ) (a : Alarm) (v : Valuation) (now : Instant) :
    Reaction e a now (e.apply a v now).1 (e.apply a v now).2 := by
  rw [apply_eq]
  cases a.state.transition v.fired with
  | stay => exact .nothing rfl
  | fire =>
    dsimp only
    cases hfire : Repository.fire e.store a.id (Valuation.valuesText v.values) now with
    | error cause => exact .nothing rfl
    | ok answer => exact .fired hfire
  | clear =>
    dsimp only
    cases hclear : Repository.clear e.store a.id now with
    | error cause => exact .nothing rfl
    | ok answer => exact .cleared hclear

theorem reaction_react (e : Engine σ) (a : Alarm) (now : Instant) (result : Except AlarmError Valuation) :
    Reaction e a now (e.react a now result).1 (e.react a now result).2 := by
  cases result with
  | ok v => exact reaction_apply e a v now
  | error cause =>
    have hreact : e.react a now (.error cause) =
        if cause.isSoft then (.skipped, e)
        else if cause.isUserFacing then
          (.errored, ((e.tell a .error .empty (some cause.message) now).count .errored).count .notified)
        else (.failed, e) := rfl
    rw [hreact]
    split
    · exact .nothing rfl
    · split
      · exact .errored
      · exact .nothing rfl

theorem metrics_tell (e : Engine σ) (a : Alarm) (event : Event) (values : Named Float)
    (error : Option String) (now : Instant) : (e.tell a event values error now).metrics = e.metrics := by
  unfold tell
  split <;> rfl

theorem Reaction.metrics (h : Reaction e a now outcome e') :
    e'.metrics = outcome.counters.foldl (fun m c => m.increase c) e.metrics := by
  cases h with
  | nothing uncounted => rw [uncounted]; rfl
  | fired granted =>
    show ((tell _ a .fire _ none now).metrics.increase .fired).increase .notified = _
    rw [metrics_tell]
    rfl
  | cleared granted =>
    show ((tell _ a .clear _ none now).metrics.increase .cleared).increase .notified = _
    rw [metrics_tell]
    rfl
  | errored =>
    show ((tell _ a .error _ _ now).metrics.increase .errored).increase .notified = _
    rw [metrics_tell]
    rfl

theorem metrics_markRun (e : Engine σ) (id : Uuid) (now : Instant) :
    (e.markRun id now).metrics = e.metrics := by
  unfold markRun
  split <;> rfl

theorem metrics_run (e : Engine σ) (r : Reader) (a : Alarm) (now : Instant) :
    (e.run r a now).2.metrics =
      (e.run r a now).1.counted.foldl (fun m c => m.increase c) e.metrics := by
  show (markRun _ a.id now).metrics = List.foldl _ _ _
  rw [metrics_markRun, Outcome.counted, List.foldl_append]
  exact congrArg (Metrics.increase .evaluated) (reaction_react e a now _).metrics

theorem metrics_runAll (r : Reader) (now : Instant) (alarms : List Alarm) (e : Engine σ) :
    (runAll r now alarms e).2.metrics =
      ((runAll r now alarms e).1.flatMap fun x => x.2.counted).foldl (fun m c => m.increase c)
        e.metrics := by
  induction alarms generalizing e with
  | nil => rfl
  | cons a rest ih =>
    show (runAll r now rest (e.run r a now).2).2.metrics =
      (((a.id, (e.run r a now).1) :: (runAll r now rest (e.run r a now).2).1).flatMap
        fun x => x.2.counted).foldl _ _
    rw [List.flatMap_cons, List.foldl_append, ← metrics_run, ih]

end Engine

/-- A pass over some copies of alarms, or anything else that happens to the store and the network. -/
inductive Turn (σ : Type) where
  | pass (r : Reader) (now : Instant) (alarms : List Alarm)
  | other (store : σ) (network : Courier)

namespace Turn

variable {σ : Type}

def alarms : Turn σ → List Alarm
  | pass _ _ alarms => alarms
  | other _ _ => []

variable [Repository σ]

/-- The outcomes that a turn reports, and what it leaves. -/
def play (t : Turn σ) (e : Engine σ) : List (Uuid × Outcome) × Engine σ :=
  match t with
  | pass r now alarms => Engine.runAll r now alarms e
  | other store network => ([], { e with store, network })

def playAll : List (Turn σ) → Engine σ → List (Uuid × Outcome) × Engine σ
  | [], e => ([], e)
  | t :: rest, e => ((t.play e).1 ++ (playAll rest (t.play e).2).1, (playAll rest (t.play e).2).2)

theorem map_fst_play (t : Turn σ) (e : Engine σ) : (t.play e).1.map Prod.fst = t.alarms.map Alarm.id := by
  cases t with
  | pass r now alarms => exact Progress.map_fst_runAll r now alarms e
  | other store network => rfl

theorem map_fst_playAll (turns : List (Turn σ)) (e : Engine σ) :
    (playAll turns e).1.map Prod.fst = (turns.flatMap alarms).map Alarm.id := by
  induction turns generalizing e with
  | nil => rfl
  | cons t rest ih =>
    rw [playAll, List.map_append, List.flatMap_cons, List.map_append, map_fst_play, ih]

theorem metrics_play (t : Turn σ) (e : Engine σ) :
    (t.play e).2.metrics =
      ((t.play e).1.flatMap fun x => x.2.counted).foldl (fun m c => m.increase c) e.metrics := by
  cases t with
  | pass r now alarms => exact Engine.metrics_runAll r now alarms e
  | other store network => rfl

theorem metrics_playAll (turns : List (Turn σ)) (e : Engine σ) :
    (playAll turns e).2.metrics =
      ((playAll turns e).1.flatMap fun x => x.2.counted).foldl (fun m c => m.increase c) e.metrics := by
  induction turns generalizing e with
  | nil => rfl
  | cons t rest ih => rw [playAll, List.flatMap_append, List.foldl_append, ← metrics_play, ih]

end Turn

instance : DecidablePred Alarm.HasOpen := fun a =>
  inferInstanceAs (Decidable (∃ e ∈ a.history, e.cleared = false))

namespace Memory

variable {m m' : Memory} {a b : Alarm} {id : Uuid} {time : Instant} {fired cleared : Nat}

def entryCount (m : Memory) : Nat :=
  (m.alarms.map fun a => a.history.length).sum

def openCount (m : Memory) : Nat :=
  m.alarms.countP Alarm.HasOpen

/-- With unique identifiers a replacement takes the place of the one alarm. -/
theorem exists_replace_eq (hids : (m.alarms.map Alarm.id).Nodup) (h : m.stored a.id = .ok b) :
    ∃ front back, m.alarms = front ++ b :: back ∧ (m.replace a).alarms = front ++ a :: back := by
  obtain ⟨hb, hid⟩ := mem_of_stored h
  obtain ⟨front, back, hsplit⟩ := List.append_of_mem hb
  refine ⟨front, back, hsplit, ?_⟩
  rw [hsplit, List.map_append, List.map_cons, List.nodup_append, List.nodup_cons] at hids
  obtain ⟨-, ⟨hback, -⟩, happart⟩ := hids
  have hkept : ∀ alarms : List Alarm, b.id ∉ alarms.map Alarm.id →
      (alarms.map fun c => if c.id = a.id then a else c) = alarms := by
    intro alarms hnew
    refine (List.map_congr_left fun c hc => if_neg ?_).trans (List.map_id alarms)
    rintro hsame
    exact hnew (List.mem_map.mpr ⟨c, hc, hsame.trans hid.symm⟩)
  have hfront : b.id ∉ front.map Alarm.id :=
    fun hmem => happart _ hmem _ List.mem_cons_self rfl
  rw [replace_alarms, hsplit, List.map_append, List.map_cons, if_pos hid, hkept front hfront,
    hkept back hback]

theorem entryCount_replace (hids : (m.alarms.map Alarm.id).Nodup) (h : m.stored a.id = .ok b) :
    (m.replace a).entryCount + b.history.length = m.entryCount + a.history.length := by
  obtain ⟨front, back, hbefore, hafter⟩ := exists_replace_eq hids h
  simp only [entryCount, hbefore, hafter, List.map_append, List.map_cons, List.sum_append, List.sum_cons]
  omega

theorem openCount_replace (hids : (m.alarms.map Alarm.id).Nodup) (h : m.stored a.id = .ok b) :
    (m.replace a).openCount + (if b.HasOpen then 1 else 0) =
      m.openCount + if a.HasOpen then 1 else 0 := by
  obtain ⟨front, back, hbefore, hafter⟩ := exists_replace_eq hids h
  simp only [openCount, hbefore, hafter, List.countP_append, List.countP_cons, decide_eq_true_eq]
  omega

/-- A store in memory accounts for numbers of firings and clearings: each firing made an entry, and
what is not cleared is open. -/
structure Balanced (m : Memory) (fired cleared : Nat) : Prop where
  coherent : m.Coherent
  entries : m.entryCount = fired
  ongoing : m.openCount + cleared = fired

theorem balanced_of_new (hids : (m.alarms.map Alarm.id).Nodup)
    (hnew : ∀ a ∈ m.alarms, a.fired = false ∧ a.history = []) : m.Balanced 0 0 where
  coherent := ⟨hids, fun a ha => Alarm.coherent_of_new (hnew a ha).1 (hnew a ha).2⟩
  entries := by
    refine List.sum_eq_zero fun n hn => ?_
    obtain ⟨a, ha, rfl⟩ := List.mem_map.mp hn
    rw [(hnew a ha).2]
    rfl
  ongoing := by
    refine List.countP_eq_zero.mpr fun a ha => ?_
    rw [decide_eq_true_iff, Alarm.HasOpen, (hnew a ha).2]
    rintro ⟨e, he, -⟩
    exact List.not_mem_nil he

theorem Balanced.congr (h : m.Balanced fired cleared) (halarms : m'.alarms = m.alarms) :
    m'.Balanced fired cleared := by
  obtain ⟨⟨hids, hcoherent⟩, hentries, hongoing⟩ := h
  rw [entryCount, ← halarms] at hentries
  rw [openCount, ← halarms] at hongoing
  exact ⟨⟨halarms ▸ hids, halarms ▸ hcoherent⟩, hentries, hongoing⟩

theorem Balanced.created (h : m.Balanced fired cleared) (hfired : a.fired = false)
    (hhistory : a.history = []) (hcreate : m.createAlarm a = .ok m') : m'.Balanced fired cleared := by
  obtain ⟨hid, rfl⟩ := createAlarm_eq_ok hcreate
  have hnew : OnlyNew (.create a) := by
    rintro b hb
    cases hb
    exact ⟨hfired, hhistory⟩
  have hopen : ¬ a.HasOpen := by
    rw [Alarm.HasOpen, hhistory]
    rintro ⟨e, he, -⟩
    exact List.not_mem_nil he
  refine ⟨h.coherent.step hnew (.create hid), ?_, ?_⟩
  · rw [← h.entries]
    simp [entryCount, hhistory]
  · rw [← h.ongoing]
    simp [openCount, hopen]

theorem Balanced.fire {value : String} {entry : Entry} (h : m.Balanced fired cleared)
    (hfire : m.fire id value time = .ok (entry, m')) : m'.Balanced (fired + 1) cleared := by
  obtain ⟨a, hstored, rfl, hopen, rfl⟩ := fire_eq_ok hfire
  have hcoherent := (h.coherent.alarms a (mem_of_stored hstored).1).opened hopen
    (.ofNat m.entriesMade) value time
  have hentries := entryCount_replace (a := a.opened (.ofNat m.entriesMade) value time)
    h.coherent.ids hstored
  have hongoing := openCount_replace (a := a.opened (.ofNat m.entriesMade) value time)
    h.coherent.ids hstored
  rw [if_neg hopen, if_pos (hcoherent.fired_eq_true_iff.mp rfl)] at hongoing
  have hlength : (a.opened (.ofNat m.entriesMade) value time).history.length =
      a.history.length + 1 := List.length_append
  have hbefore := h.entries
  have hbefore' := h.ongoing
  refine ⟨h.coherent.step (fun b hb => by cases hb) (.fire hstored hopen), ?_, ?_⟩
  · show (m.replace (a.opened (.ofNat m.entriesMade) value time)).entryCount = _
    omega
  · show (m.replace (a.opened (.ofNat m.entriesMade) value time)).openCount + _ = _
    omega

theorem Balanced.clear {entry : Entry} (h : m.Balanced fired cleared)
    (hclear : m.clear id time = .ok (entry, m')) : m'.Balanced fired (cleared + 1) := by
  obtain ⟨a, hstored, rfl, hopen, rfl⟩ := clear_eq_ok hclear
  have hcoherent := (h.coherent.alarms a (mem_of_stored hstored).1).closed hopen time
  have hclosed : ¬ (a.closed time).HasOpen := by
    rw [← hcoherent.fired_eq_true_iff]
    exact Bool.false_ne_true
  have hentries := entryCount_replace (a := a.closed time) h.coherent.ids hstored
  have hongoing := openCount_replace (a := a.closed time) h.coherent.ids hstored
  rw [if_pos hopen, if_neg hclosed] at hongoing
  have hlength := Alarm.length_closed hopen time
  have hbefore := h.entries
  have hbefore' := h.ongoing
  exact ⟨h.coherent.step (fun b hb => by cases hb) (.clear hstored hopen), by omega, by omega⟩

theorem Balanced.markRun (h : m.Balanced fired cleared) (hmark : m.markRun id time = .ok m') :
    m'.Balanced fired cleared := by
  obtain ⟨a, hstored, rfl, rfl⟩ := markRun_eq_ok hmark
  have hentries := entryCount_replace (a := { a with lastRun := time }) h.coherent.ids hstored
  have hongoing := openCount_replace (a := { a with lastRun := time }) h.coherent.ids hstored
  refine ⟨h.coherent.step (fun b hb => by cases hb) (.markRun hstored), ?_, ?_⟩
  · rw [← h.entries]
    exact Nat.add_right_cancel hentries
  · rw [← h.ongoing]
    exact congrArg (· + cleared) (Nat.add_right_cancel hongoing)

end Memory

/-- Stores over one in memory. A call that succeeds is the call in memory; one that fails may fail for
reasons of its own. -/
class OverMemory (σ : Type) [Repository σ] where
  memory : σ → Memory
  of_fire : ∀ {store after : σ} {id : Uuid} {value : String} {time : Instant} {entry : Entry},
    Repository.fire store id value time = .ok (entry, after) →
      (memory store).fire id value time = .ok (entry, memory after)
  of_clear : ∀ {store after : σ} {id : Uuid} {time : Instant} {entry : Entry},
    Repository.clear store id time = .ok (entry, after) →
      (memory store).clear id time = .ok (entry, memory after)
  of_markRun : ∀ {store after : σ} {id : Uuid} {time : Instant},
    Repository.markRun store id time = .ok after →
      (memory store).markRun id time = .ok (memory after)
  of_markPushed : ∀ {store after : σ} {id : Uuid} {success : Bool} {message : String} {time : Instant}
    {push : Push}, Repository.markPushed store id success message time = .ok (push, after) →
      (memory store).markPushed id success message time = .ok (push, memory after)

instance : OverMemory Memory where
  memory := id
  of_fire h := h
  of_clear h := h
  of_markRun h := h
  of_markPushed h := h

/-- A call on a store with faults that succeeds is one that reaches the store. -/
theorem Faulty.of_guarded {σ α β : Type} {s : Faulty σ} {fault : Fault} {call : σ → Except AlarmError α}
    {answer : α → β} {b : β} (h : (s.guarded fault call).map answer = .ok b) :
    ∃ a, call s.store = .ok a ∧ answer a = b := by
  obtain ⟨a, ha, hb⟩ := map_eq_ok_iff.mp h
  unfold guarded at ha
  split at ha
  · cases ha
  · exact ⟨a, ha, hb⟩

instance {σ : Type} [Repository σ] [OverMemory σ] : OverMemory (Faulty σ) where
  memory s := OverMemory.memory s.store
  of_fire h := by
    obtain ⟨⟨entry, store⟩, hcall, heq⟩ := Faulty.of_guarded h
    cases heq
    exact OverMemory.of_fire hcall
  of_clear h := by
    obtain ⟨⟨entry, store⟩, hcall, heq⟩ := Faulty.of_guarded h
    cases heq
    exact OverMemory.of_clear hcall
  of_markRun h := by
    obtain ⟨store, hcall, rfl⟩ := Faulty.of_guarded h
    exact OverMemory.of_markRun hcall
  of_markPushed h := by
    obtain ⟨⟨push, store⟩, hcall, heq⟩ := Faulty.of_guarded h
    cases heq
    exact OverMemory.of_markPushed hcall

section OverMemory

open OverMemory (memory)

variable {σ : Type} [Repository σ] [OverMemory σ] {fired cleared : Nat}

theorem alarms_pushAll (notice : Notice) (time clock : Instant) (outputs : List Output)
    (world : σ × Courier) :
    (memory (Dispatch.pushAll notice time clock outputs world).2.1).alarms =
      (memory world.1).alarms := by
  induction outputs generalizing world with
  | nil => rfl
  | cons o rest ih =>
    obtain ⟨store, network⟩ := world
    rw [Dispatch.pushAll]
    refine (ih _).trans ?_
    show (memory (Dispatch.record store _ time)).alarms = _
    unfold Dispatch.record
    split
    · rename_i push after h
      exact Memory.alarms_of_markPushed (OverMemory.of_markPushed h)
    · rfl

namespace Engine

variable {e e' : Engine σ} {a : Alarm} {now : Instant} {outcome : Outcome}

/-- Telling outputs changes no alarm. -/
theorem alarms_memory_tell (e : Engine σ) (a : Alarm) (event : Event) (values : Named Float)
    (error : Option String) (now : Instant) :
    (memory (e.tell a event values error now).store).alarms = (memory e.store).alarms := by
  unfold tell
  split
  · rename_i pushes store network h
    unfold Occasion.dispatch at h
    obtain ⟨outputs, -, hpush⟩ := bind_eq_ok_iff.mp h
    have halarms := alarms_pushAll (Occasion.notice ⟨a, event, values, error, now⟩) now now outputs
      (e.store, e.network)
    rw [Except.ok.inj hpush] at halarms
    exact halarms
  · rfl

theorem Reaction.balanced (h : Reaction e a now outcome e')
    (hbalanced : (memory e.store).Balanced fired cleared) :
    (memory e'.store).Balanced (fired + if outcome = .fired then 1 else 0)
      (cleared + if outcome = .cleared then 1 else 0) := by
  cases h with
  | nothing uncounted =>
    have hfired : outcome ≠ .fired := by
      rintro rfl
      cases uncounted
    have hcleared : outcome ≠ .cleared := by
      rintro rfl
      cases uncounted
    rw [if_neg hfired, if_neg hcleared]
    exact hbalanced
  | fired granted =>
    exact (hbalanced.fire (OverMemory.of_fire granted)).congr (alarms_memory_tell _ a _ _ _ now)
  | cleared granted =>
    exact (hbalanced.clear (OverMemory.of_clear granted)).congr (alarms_memory_tell _ a _ _ _ now)
  | errored => exact hbalanced.congr (alarms_memory_tell e a _ _ _ now)

theorem balanced_markRun (h : (memory e.store).Balanced fired cleared) (id : Uuid) (now : Instant) :
    (memory (e.markRun id now).store).Balanced fired cleared := by
  unfold markRun
  split
  · rename_i store hmark
    exact h.markRun (OverMemory.of_markRun hmark)
  · exact h

theorem balanced_run (h : (memory e.store).Balanced fired cleared) (r : Reader) (a : Alarm)
    (now : Instant) :
    (memory (e.run r a now).2.store).Balanced
      (fired + if (e.run r a now).1 = .fired then 1 else 0)
      (cleared + if (e.run r a now).1 = .cleared then 1 else 0) :=
  balanced_markRun (e := (e.react a now _).2.count .evaluated)
    ((reaction_react e a now _).balanced h) a.id now

theorem balanced_runAll (h : (memory e.store).Balanced fired cleared) (r : Reader) (now : Instant)
    (alarms : List Alarm) :
    (memory (runAll r now alarms e).2.store).Balanced
      (fired + (runAll r now alarms e).1.countP fun x => x.2 = .fired)
      (cleared + (runAll r now alarms e).1.countP fun x => x.2 = .cleared) := by
  induction alarms generalizing e fired cleared with
  | nil => exact h
  | cons a rest ih =>
    have hrest := ih (balanced_run h r a now)
    rw [Nat.add_assoc, Nat.add_assoc] at hrest
    show (memory (runAll r now rest (e.run r a now).2).2.store).Balanced
      (fired + ((a.id, (e.run r a now).1) :: (runAll r now rest (e.run r a now).2).1).countP _)
      (cleared + ((a.id, (e.run r a now).1) :: (runAll r now rest (e.run r a now).2).1).countP _)
    simp only [List.countP_cons, decide_eq_true_eq, Nat.add_comm (List.countP _ _)]
    exact hrest

end Engine

namespace Turn

variable {e : Engine σ}

/-- Between passes the alarms stay as they are, or a new one is created that has not fired. -/
def LeavesAlarms (m m' : Memory) : Prop :=
  m'.alarms = m.alarms ∨
    ∃ a made, a.fired = false ∧ a.history = [] ∧ m.createAlarm a = .ok made ∧
      m'.alarms = made.alarms

/-- Only runs change alarms, apart from the creation of new ones. -/
def OnlyRuns : List (Turn σ) → Engine σ → Prop
  | [], _ => True
  | t :: rest, e =>
    (∀ store network, t = .other store network → LeavesAlarms (memory e.store) (memory store)) ∧
      OnlyRuns rest (t.play e).2

theorem balanced_play {t : Turn σ} (h : (memory e.store).Balanced fired cleared)
    (honly : ∀ store network, t = .other store network → LeavesAlarms (memory e.store) (memory store)) :
    (memory (t.play e).2.store).Balanced (fired + (t.play e).1.countP fun x => x.2 = .fired)
      (cleared + (t.play e).1.countP fun x => x.2 = .cleared) := by
  cases t with
  | pass r now alarms => exact Engine.balanced_runAll h r now alarms
  | other store network =>
    rcases honly store network rfl with halarms | ⟨a, made, hfired, hhistory, hcreate, halarms⟩
    · exact h.congr halarms
    · exact (h.created hfired hhistory hcreate).congr halarms

theorem balanced_playAll {turns : List (Turn σ)} (h : (memory e.store).Balanced fired cleared)
    (honly : OnlyRuns turns e) :
    (memory (playAll turns e).2.store).Balanced
      (fired + (playAll turns e).1.countP fun x => x.2 = .fired)
      (cleared + (playAll turns e).1.countP fun x => x.2 = .cleared) := by
  induction turns generalizing e fired cleared with
  | nil => exact h
  | cons t rest ih =>
    obtain ⟨hfirst, hrest⟩ := honly
    have hplayed := ih (balanced_play h hfirst) hrest
    rw [Nat.add_assoc, Nat.add_assoc] at hplayed
    rw [playAll, List.countP_append, List.countP_append]
    exact hplayed

end Turn

end OverMemory

namespace Turn

open OverMemory (memory)

variable {σ : Type} [Repository σ]

/-- Whatever is run and whatever happens in between, as many evaluations are counted as alarms are run
and as outcomes are reported, each notification is counted by its outcome, and no other is. In a store
in memory whose alarms start without a history and are changed by runs alone, as many alarms have an
open entry as firings are counted that are not cleared, and there is an entry for each firing. -/
theorem counters_balance {e : Engine σ} (hfresh : e.metrics = .fresh) (turns : List (Turn σ)) :
    let runs := turns.flatMap alarms
    let outcomes := (playAll turns e).1
    let after := (playAll turns e).2
    let counted := fun c => after.metrics.count c
    let reported := fun o => outcomes.countP fun x => x.2 = o
    outcomes.map Prod.fst = runs.map Alarm.id ∧
    counted .evaluated = runs.length ∧ counted .evaluated = outcomes.length ∧
    counted .fired = reported .fired ∧ counted .cleared = reported .cleared ∧
    counted .errored = reported .errored ∧
    counted .notified = counted .fired + counted .cleared + counted .errored ∧
    ∀ [OverMemory σ], ((memory e.store).alarms.map Alarm.id).Nodup →
      (∀ a ∈ (memory e.store).alarms, a.fired = false ∧ a.history = []) → OnlyRuns turns e →
      counted .fired = counted .cleared + (memory after.store).openCount ∧
      counted .fired = (memory after.store).entryCount := by
  intro runs outcomes after counted reported
  have hids : outcomes.map Prod.fst = runs.map Alarm.id := map_fst_playAll turns e
  have hlength : outcomes.length = runs.length := by
    rw [← List.length_map (f := Prod.fst), hids, List.length_map]
  have hcount : ∀ c, counted c = (outcomes.flatMap fun x => x.2.counted).count c := by
    intro c
    show (playAll turns e).2.metrics.count c = _
    rw [metrics_playAll, hfresh, Metrics.fresh, Metrics.count_foldl_increase, Nat.zero_add]
  obtain ⟨hevaluated, hfired, hcleared, herrored, hnotified⟩ := Outcome.count_flatMap_counted outcomes
  simp only [← hcount] at hevaluated hfired hcleared herrored hnotified
  refine ⟨hids, hevaluated.trans hlength, hevaluated, hfired, hcleared, herrored, ?_, ?_⟩
  · rw [hnotified, hfired, hcleared, herrored]
  · intro _ hnodup hnew honly
    obtain ⟨-, hentries, hongoing⟩ := balanced_playAll (Memory.balanced_of_new hnodup hnew) honly
    rw [Nat.zero_add] at hentries
    rw [Nat.zero_add, Nat.zero_add] at hongoing
    rw [hfired, hcleared]
    exact ⟨by rw [Nat.add_comm]; exact hongoing.symm, hentries.symm⟩

open Engine (alarmOn)

/-- A store with an alarm and a value to look at, that takes no note of runs. -/
def oneHeat : Engine (Faulty Memory) :=
  .ofStore ⟨{ Memory.empty with
    alarms := [alarmOn 2 1]
    devices := .ofList [("d", ⟨["g"], .ofList [("t", [⟨.epoch, 1⟩])]⟩)] }, [.markRun]⟩

/-- The alarm as it is after it fired, with a condition that does not hold. -/
def calm : Alarm :=
  { alarmOn 2 1 with fired := true, compiled := some ⟨"false", .truth false⟩ }

/-- The alarm is run twice from one copy, next to one that is broken, and once more after it fired. -/
def fourRuns : List (Turn (Faulty Memory)) :=
  [.pass (.ofPolicies Policy.defaults) .epoch [alarmOn 2 1, alarmOn 2 1, alarmOn 1 0],
    .pass (.ofPolicies Policy.defaults) .epoch [calm]]

/-- The second run of the old copy is refused and counts as an evaluation alone. -/
theorem counters_balance_of_four_runs :
    (playAll fourRuns oneHeat).1 =
        [(.ofNat 2, .fired), (.ofNat 2, .failed), (.ofNat 1, .errored), (.ofNat 2, .cleared)] ∧
      Counter.all.map (fun c => (playAll fourRuns oneHeat).2.metrics.count c) = [4, 3, 1, 1, 1] ∧
      (playAll fourRuns oneHeat).2.store.store.openCount = 0 ∧
      (playAll fourRuns oneHeat).2.store.store.entryCount = 1 := by
  have houtcomes : (playAll fourRuns oneHeat).1 =
      [(.ofNat 2, .fired), (.ofNat 2, .failed), (.ofNat 1, .errored), (.ofNat 2, .cleared)] := by decide +kernel
  obtain ⟨-, hruns, -, hfired, hcleared, herrored, hnotified, hstore⟩ :=
    counters_balance (e := oneHeat) rfl fourRuns
  beta_reduce at hruns hfired hcleared herrored hnotified hstore
  have honly : OnlyRuns fourRuns oneHeat := by
    refine ⟨?_, ?_, trivial⟩
    · rintro _ _ ⟨⟩
    · rintro _ _ ⟨⟩
  have hnew : ∀ a ∈ oneHeat.store.store.alarms, a.fired = false ∧ a.history = [] :=
    List.forall_mem_singleton.mpr ⟨rfl, rfl⟩
  obtain ⟨hopen, hentries⟩ := hstore (List.nodup_singleton _) hnew honly
  rw [houtcomes] at hfired hcleared herrored
  replace hfired := hfired.trans (show _ = 1 by decide)
  replace hcleared := hcleared.trans (show _ = 1 by decide)
  replace herrored := herrored.trans (show _ = 1 by decide)
  rw [hfired, hcleared] at hopen
  rw [hfired] at hentries
  refine ⟨houtcomes, ?_, (Nat.add_left_cancel hopen).symm, hentries.symm⟩
  simp only [Counter.all, List.map_cons, List.map_nil]
  rw [hnotified, hruns, hfired, hcleared, herrored]
  rfl

end Turn

end Vigil
