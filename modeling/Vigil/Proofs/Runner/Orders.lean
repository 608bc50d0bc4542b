import Mathlib.Data.List.Perm.Basic
import Vigil.Offline
import Vigil.Proofs.Runner.Deeds

/-!
# Runs stay apart

A run of one alarm leaves everything that decides what a run of another does. So in a pass every run
does what it would do alone, and as what two runs leave does not depend on which of them comes first,
neither does what a pass leaves depend on its order.
-/

namespace Vigil

namespace Engine

variable {e e' e'' : Engine Memory} {a b : Alarm} {id : Uuid} {now : Instant} {d : Deed}

/-- Two engines in which a run of an alarm does the same. -/
structure AlikeFor (e e' : Engine Memory) (id : Uuid) : Prop where
  record : e'.store.record id = e.store.record id
  outputs : e'.store.outputs.map Output.untouched = e.store.outputs.map Output.untouched
  devices : e'.store.devices = e.store.devices
  unsent : e'.network.unsent = e.network.unsent

theorem AlikeFor.trans (h : e.AlikeFor e' id) (h' : e'.AlikeFor e'' id) : e.AlikeFor e'' id :=
  ⟨h'.record.trans h.record, h'.outputs.trans h.outputs, h'.devices.trans h.devices,
    h'.unsent.trans h.unsent⟩

/-- The attempts on an occasion see nothing of earlier ones. -/
theorem attempts_eq (e : Engine Memory) (c : Occasion) :
    e.attempts c = ((e.store.outputs.map Output.untouched).filter fun o =>
      o.alarmId = c.alarm.id && (Selection.ofEvent c.event).admits o).map
        (Output.attempt c.notice e.network.unsent c.time) := by
  rw [attempts, List.filter_map, List.map_map]
  rfl

theorem AlikeFor.attempts (h : e.AlikeFor e' id) (c : Occasion) : e'.attempts c = e.attempts c := by
  rw [attempts_eq, attempts_eq, h.outputs, h.unsent]

theorem valuate_congr (h : e'.store.devices = e.store.devices) (r : Reader) (a : Alarm)
    (now : Instant) : a.valuate r e'.store now = a.valuate r e.store now := by
  have hquery : ∀ q, Repository.query e'.store q = Repository.query e.store q := by
    intro q
    show e'.store.query q = e.store.query q
    unfold Memory.query Memory.raw
    rw [h]
  unfold Alarm.valuate Reader.read
  simp only [hquery]

theorem AlikeFor.deed (h : e.AlikeFor e' a.id) (r : Reader) (now : Instant) :
    e'.deed r a now = e.deed r a now := by
  unfold Engine.deed
  rw [valuate_congr h.devices]
  unfold deedOf
  simp only [h.record, h.attempts]

theorem Ran.steady (h : e.Ran e' id now d) (hsteady : e.network.Steady) : e'.network.Steady :=
  Courier.steady_of_unsent hsteady h.unsent

theorem Ran.id_record (h : e.Ran e' id now d) (hd : d.record = some b) : b.id = id := by
  have hrecord := h.record
  rw [hd] at hrecord
  exact Memory.id_of_record (a := b.ranAt now) hrecord

/-- A run of one alarm makes no difference to a run of another. -/
theorem Ran.alikeFor (h : e.Ran e' id now d) {other : Uuid} (hne : other ≠ id) :
    e.AlikeFor e' other where
  record := by
    have hrecords : e'.store.records = Memory.putRun now d.record e.store.records :=
      congrArg Standing.records h.standing
    unfold Memory.record
    rw [hrecords]
    cases hd : d.record with
    | none => rfl
    | some b =>
      refine Memory.find?_replaced_of_ne ?_ _
      rw [Alarm.id_ranAt, h.id_record hd]
      exact hne
  outputs := by
    have houtputs : e'.store.outputs = _ := congrArg Standing.outputs h.standing
    rw [houtputs]
    exact Output.map_untouched_foldl_touched now d.pushes e.store.outputs
  devices := h.devices
  unsent := h.unsent

end Engine

theorem Metrics.increase_comm (c d : Counter) (m : Metrics) :
    (m.increase c).increase d = (m.increase d).increase c := by
  cases m with
  | discarded => rfl
  | kept counts =>
    unfold increase
    dsimp only
    congr 1
    funext x
    split_ifs <;> rfl

instance : RightCommutative fun (m : Metrics) (c : Counter) => m.increase c :=
  ⟨fun m c d => m.increase_comm c d⟩

instance (now : Instant) :
    RightCommutative fun (outputs : List Output) (p : Push) => Memory.touched now outputs p.outputId :=
  ⟨fun outputs p q => Memory.touched_comm now outputs p.outputId q.outputId⟩

/-- What can be folded in any order can be folded list after list in any order. -/
theorem foldl_foldl_comm {α β : Type} (f : β → α → β) [RightCommutative f] (l l' : List α) (b : β) :
    l'.foldl f (l.foldl f b) = l.foldl f (l'.foldl f b) := by
  rw [← List.foldl_append, ← List.foldl_append]
  exact List.perm_append_comm.foldl_eq b

theorem Memory.putRun_comm {now : Instant} {record record' : Option Alarm}
    (h : ∀ a b, record = some a → record' = some b → a.id ≠ b.id) (records : List Alarm) :
    putRun now record' (putRun now record records) =
      putRun now record (putRun now record' records) := by
  cases record with
  | none => rfl
  | some a =>
    cases record' with
    | none => rfl
    | some b =>
      have hne : (b.ranAt now).id ≠ (a.ranAt now).id := Ne.symm (h a b rfl rfl)
      exact putRecord_comm hne records

/-- Deeds about two alarms may be done in either order. -/
theorem Standing.after_comm {now : Instant} {d d' : Deed}
    (h : ∀ a b, d.record = some a → d'.record = some b → a.id ≠ b.id) (s : Standing) :
    (s.after now d).after now d' = (s.after now d').after now d := by
  unfold after
  congr 1
  · exact Memory.putRun_comm h s.records
  · exact foldl_foldl_comm _ _ _ _
  · exact foldl_foldl_comm _ _ _ _

namespace Engine

variable {e : Engine Memory} {a : Alarm} {alarms other : List Alarm} {r : Reader} {now : Instant}

/-- A pass over other alarms makes no difference to a run. -/
theorem alikeFor_runAll (h : e.network.Steady) (r : Reader) (now : Instant) {id : Uuid}
    (hid : id ∉ alarms.map Alarm.id) : e.AlikeFor (runAll r now alarms e).2 id := by
  induction alarms generalizing e with
  | nil => exact ⟨rfl, rfl, rfl, rfl⟩
  | cons a rest ih =>
    rw [List.map_cons, List.mem_cons, not_or] at hid
    obtain ⟨-, hran⟩ := ran_of_steady h r a now
    exact (hran.alikeFor hid.1).trans (ih (hran.steady h) hid.2)

/-- In a pass over alarms with different identifiers every run does its deed, and one after the other
they leave what the pass leaves. -/
theorem runAll_eq_deeds (h : e.network.Steady) (hids : (alarms.map Alarm.id).Nodup) (r : Reader)
    (now : Instant) :
    (runAll r now alarms e).1 = alarms.map (fun a => (a.id, (e.deed r a now).outcome)) ∧
    (runAll r now alarms e).2.standing =
      alarms.foldl (fun s a => s.after now (e.deed r a now)) e.standing ∧
    (runAll r now alarms e).2.store.pushLog =
      e.store.pushLog ++ alarms.flatMap fun a => (e.deed r a now).pushes := by
  induction alarms generalizing e with
  | nil => exact ⟨rfl, rfl, by simp [runAll]⟩
  | cons a rest ih =>
    obtain ⟨hnew, hrest⟩ := List.nodup_cons.mp hids
    obtain ⟨houtcome, hran⟩ := ran_of_steady h r a now
    obtain ⟨houtcomes, hstanding, hpushLog⟩ := ih (hran.steady h) hrest
    -- the deeds of the others are the same before and after this one
    have hdeed : ∀ b ∈ rest, (e.run r a now).2.deed r b now = e.deed r b now := by
      intro b hb
      refine (hran.alikeFor ?_).deed r now
      intro hid
      exact hnew (hid ▸ List.mem_map_of_mem hb)
    refine ⟨?_, ?_, ?_⟩
    · show (a.id, (e.run r a now).1) :: (runAll r now rest (e.run r a now).2).1 = _
      rw [houtcome, houtcomes, List.map_cons]
      refine congrArg _ (List.map_congr_left ?_)
      intro b hb
      rw [hdeed b hb]
    · show (runAll r now rest (e.run r a now).2).2.standing = _
      rw [hstanding, hran.standing, List.foldl_cons]
      exact List.foldl_ext _ _ _ fun s b hb => by rw [hdeed b hb]
    · show (runAll r now rest (e.run r a now).2).2.store.pushLog = _
      rw [hpushLog, hran.pushLog, List.append_assoc, List.flatMap_cons]
      have hpushes : (rest.flatMap fun b => ((e.run r a now).2.deed r b now).pushes) =
          rest.flatMap fun b => (e.deed r b now).pushes :=
        List.flatMap_congr fun b hb => by rw [hdeed b hb]
      rw [hpushes]

/-- In a pass a run leaves the record that it leaves alone. -/
theorem record_runAll (h : e.network.Steady) (hids : (alarms.map Alarm.id).Nodup) (r : Reader)
    (now : Instant) (ha : a ∈ alarms) :
    (runAll r now alarms e).2.store.record a.id = (e.run r a now).2.store.record a.id := by
  induction alarms generalizing e with
  | nil => cases ha
  | cons b rest ih =>
    obtain ⟨hnew, hrest⟩ := List.nodup_cons.mp hids
    obtain ⟨-, hran⟩ := ran_of_steady h r b now
    show (runAll r now rest (e.run r b now).2).2.store.record a.id = _
    rcases List.mem_cons.mp ha with rfl | ha
    · exact (alikeFor_runAll (hran.steady h) r now hnew).record
    · have hne : a.id ≠ b.id := fun hid => hnew (hid ▸ List.mem_map_of_mem ha)
      obtain ⟨-, hbehind⟩ := ran_of_steady (hran.steady h) r a now
      obtain ⟨-, halone⟩ := ran_of_steady h r a now
      rw [ih (hran.steady h) hrest ha, hbehind.record, (hran.alikeFor hne).deed, halone.record]

theorem owner_of_mem_attempts {c : Occasion} {p : Push} (hp : p ∈ e.attempts c) :
    ∃ o ∈ e.store.outputs, o.id = p.outputId ∧ o.alarmId = c.alarm.id := by
  obtain ⟨o, ho, rfl⟩ := List.mem_map.mp hp
  obtain ⟨ho, howner⟩ := List.mem_filter.mp ho
  rw [Bool.and_eq_true, decide_eq_true_eq] at howner
  exact ⟨o, ho, (o.outputId_attempt _ _ _).symm, howner.1⟩

/-- A run pushes to outputs of its alarm. -/
theorem owner_of_mem_deed {p : Push} (hp : p ∈ (e.deed r a now).pushes) :
    ∃ o ∈ e.store.outputs, o.id = p.outputId ∧ o.alarmId = a.id := by
  unfold deed deedOf at hp
  split at hp
  · split_ifs at hp with _ hfacing
    · cases hp
    · exact owner_of_mem_attempts hp
    · cases hp
  · split at hp
    · cases hp
    all_goals
      split at hp
      · cases hp
      · exact owner_of_mem_attempts hp

end Engine

/-- The outputs under an identifier are of one alarm. -/
def Memory.OneOwner (m : Memory) (id : Uuid) : Prop :=
  ∀ o ∈ m.outputs, ∀ o' ∈ m.outputs, o.id = id → o'.id = id → o.alarmId = o'.alarmId

/-- Lists of which at most one is not empty may be joined in any order. -/
theorem flatMap_eq_of_perm {α β : Type} {g : α → List β} {l l' : List α} (h : l.Perm l')
    (hone : ∀ x ∈ l, ∀ y ∈ l, x = y ∨ g x = [] ∨ g y = []) : l.flatMap g = l'.flatMap g := by
  rw [List.flatMap_eq_foldl, List.flatMap_eq_foldl]
  refine h.foldl_eq' ?_ []
  intro x hx y hy z
  rcases hone x hx y hy with rfl | hempty | hempty
  · rfl
  · rw [hempty, List.append_nil, List.append_nil]
  · rw [hempty, List.append_nil, List.append_nil]

namespace Engine

variable {e : Engine Memory} {alarms other : List Alarm}

/-- What deeds leave does not depend on their order. -/
theorem foldl_after_of_perm (hsteady : e.network.Steady) (hids : (alarms.map Alarm.id).Nodup)
    (horder : alarms.Perm other) (r : Reader) (now : Instant) (s : Standing) :
    alarms.foldl (fun s a => s.after now (e.deed r a now)) s =
      other.foldl (fun s a => s.after now (e.deed r a now)) s := by
  refine horder.foldl_eq' ?_ s
  intro a ha b hb s
  by_cases hid : a.id = b.id
  · rw [List.inj_on_of_nodup_map hids ha hb hid]
  · refine Standing.after_comm ?_ s
    intro c c' hc hc'
    rw [(ran_of_steady hsteady r a now).2.id_record hc,
      (ran_of_steady hsteady r b now).2.id_record hc']
    exact hid

/-- The pushes to the outputs of one alarm come from one deed, wherever it stands. -/
theorem filter_pushes_of_perm (hids : (alarms.map Alarm.id).Nodup) (horder : alarms.Perm other)
    (r : Reader) (now : Instant) {id : Uuid} (howner : e.store.OneOwner id) :
    (alarms.flatMap fun a => (e.deed r a now).pushes).filter (fun p => p.outputId = id) =
      (other.flatMap fun a => (e.deed r a now).pushes).filter fun p => p.outputId = id := by
  rw [List.filter_flatMap, List.filter_flatMap]
  refine flatMap_eq_of_perm horder ?_
  intro a ha b hb
  by_contra hboth
  rw [not_or, not_or] at hboth
  obtain ⟨hne, hpushed, hpushed'⟩ := hboth
  have howned : ∀ c, ((e.deed r c now).pushes.filter fun p => p.outputId = id) ≠ [] →
      ∃ o ∈ e.store.outputs, o.id = id ∧ o.alarmId = c.id := by
    intro c hpushed
    obtain ⟨p, hp⟩ := List.exists_mem_of_ne_nil _ hpushed
    obtain ⟨hp, hid⟩ := List.mem_filter.mp hp
    obtain ⟨o, ho, hoid, hoc⟩ := owner_of_mem_deed hp
    exact ⟨o, ho, hoid.trans (of_decide_eq_true hid), hoc⟩
  obtain ⟨o, ho, hoid, hoa⟩ := howned a hpushed
  obtain ⟨o', ho', hoid', hob⟩ := howned b hpushed'
  have hsame : a.id = b.id := hoa ▸ hob ▸ howner o ho o' ho' hoid hoid'
  exact hne (List.inj_on_of_nodup_map hids ha hb hsame)

/-- An alarm for points named `t` with a condition that holds. -/
def alarmOn (id trigger : Nat) : Alarm :=
  { id := .ofNat id, owner := "", name := "heat", info := "", message := "", group := "g",
    enabled := true, fired := false, rule := ⟨[⟨"last", none, "t", none⟩], "true", trigger⟩,
    runInterval := .ofSeconds 60, lastRun := .epoch, createdAt := .epoch, updatedAt := .epoch,
    history := [], compiled := some ⟨"true", .truth true⟩ }

/-- An alarm that cannot be evaluated and one that fires, each with an output, on a network that accepts
nothing. -/
def brokenAndHeat : Engine Memory :=
  let hook : Channel := ⟨.ofNat 5, "", "hook", .webhook ⟨"http://localhost/", "POST", .empty, none⟩⟩
  { store := { Memory.empty with
      alarms := [alarmOn 1 0, alarmOn 2 1]
      outputs := [.ofChannel (.ofNat 3) (.ofNat 1) "" hook, .ofChannel (.ofNat 4) (.ofNat 2) "" hook]
      devices := .ofList [("d", ⟨["g"], .ofList [("t", [⟨.epoch, 1⟩])]⟩)] }
    network := .steady fun _ => .carried [] (.answered 500 "")
    metrics := .fresh }

end Engine

end Vigil
