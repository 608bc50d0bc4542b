import Mathlib.Logic.Relation
import Vigil.Offline
import Vigil.Proofs.Runner.Races
import Vigil.Proofs.Store.Kept

/-!
# Evaluations keep their distance

Passes follow each other while the clock goes on. A pass looks up the alarms that are due and runs them
one after the other; whatever the evaluation of an alarm gives, the time at which its run ended is
noted. Between all this alarms are created and anything else happens that leaves the times of the last
runs alone.

The next look-up that finds an alarm compares with the time that was noted at its last run, which is
not before the beginning of that run. So two evaluations of one alarm begin at least its interval, or
the least interval if that is longer, apart; a store that counts in milliseconds may lose less than one.
-/

namespace Vigil

open Keeper

namespace Engine

variable {σ : Type} [Repository σ] [Keeper σ] {e : Engine σ} {kept : List (Alarm × Instant)}

theorem lists_record {store : σ} (h : Lists store kept) (outcome : PushOutcome) (time : Instant) :
    Lists (Dispatch.record store outcome time) kept := by
  unfold Dispatch.record
  split
  · rename_i after hpushed
    exact of_markPushed h hpushed
  · exact h

theorem lists_pushAll (notice : Notice) (time clock : Instant) (outputs : List Output)
    {world : σ × Courier} (h : Lists world.1 kept) :
    Lists (Dispatch.pushAll notice time clock outputs world).2.1 kept := by
  induction outputs generalizing world with
  | nil => exact h
  | cons o rest ih => exact ih (lists_record h _ time)

theorem lists_tell (h : Lists e.store kept) (a : Alarm) (event : Event) (values : Named Float)
    (error : Option String) (now : Instant) :
    Lists (e.tell a event values error now).store kept := by
  unfold tell Occasion.dispatch
  cases houtputs : Repository.outputs e.store a.id (.ofEvent event) with
  | error cause => exact h
  | ok outputs =>
    have hstart : Lists (e.store, e.network).1 kept := h
    exact lists_pushAll _ now now outputs hstart

theorem lists_apply (h : Lists e.store kept) (a : Alarm) (v : Valuation) (now : Instant) :
    Lists (e.apply a v now).2.store kept := by
  rw [apply_eq]
  split
  · exact h
  · split
    · exact h
    · rename_i hfire
      exact lists_tell (e := { e with store := _ }) (of_fire h hfire) a .fire v.values none now
  · split
    · exact h
    · rename_i hclear
      exact lists_tell (e := { e with store := _ }) (of_clear h hclear) a .clear v.values none now

theorem lists_react (h : Lists e.store kept) (a : Alarm) (now : Instant)
    (result : Except AlarmError Valuation) : Lists (e.react a now result).2.store kept := by
  cases result with
  | ok v => exact lists_apply h a v now
  | error cause =>
    rw [react.eq_def]
    show Lists (if cause.isSoft then _ else if cause.isUserFacing then _ else _ :
      Outcome × Engine σ).2.store kept
    split
    · exact h
    · split
      · exact lists_tell h a .error .empty _ now
      · exact h

/-- Whatever an evaluation gave, the time of the run is noted. -/
theorem lists_markRun (h : Lists e.store kept) {id : Uuid} (hid : id ∈ kept.map fun k => k.1.id)
    (time : Instant) : Lists (e.markRun id time).store (kept.map (noted id time)) := by
  obtain ⟨k, hk, rfl⟩ := List.mem_map.mp hid
  obtain ⟨after, hmark⟩ := exists_markRun h hk time
  rw [markRun, hmark]
  exact of_markRun h hmark

end Engine

/-- An evaluation of an alarm, with the time at which it began. -/
structure Evaluation where
  alarmId : Uuid
  began : Instant

/-- A pass: the store and the time at which the alarms were looked up, the evaluations so far, the
earliest first, and the alarms that are still to be run. -/
structure Pass (σ : Type) where
  store : σ
  time : Instant
  evaluated : List Evaluation
  pending : List Alarm

/-- How far the passes have come: the time up to which everything has happened, the alarms created so
far, and the passes, the latest first. -/
structure Progress (σ : Type) where
  clock : Instant
  engine : Engine σ
  created : List Alarm
  passes : List (Pass σ)

namespace Progress

section Steps

variable {σ : Type}

def evaluations (s : Progress σ) : List Evaluation :=
  s.passes.reverse.flatMap Pass.evaluated

def evaluationsOf (s : Progress σ) (id : Uuid) : List Evaluation :=
  s.evaluations.filter fun x => x.alarmId = id

def Idle (s : Progress σ) : Prop :=
  ∀ p ∈ s.passes, p.pending = []

variable [Repository σ] [Keeper σ]

/-- What can happen next. An evaluation begins, changes the state of the alarm as its result says, and
is noted, each not before the other. -/
inductive Step (least : Span) : Progress σ → Progress σ → Prop
  | create (s : Progress σ) {a : Alarm} {store : σ}
      (h : Repository.createAlarm s.engine.store a = .ok store) :
      Step least s { s with engine := { s.engine with store }, created := s.created ++ [a] }
  | others (s : Progress σ) {e : Engine σ} (h : ∀ kept, Lists s.engine.store kept → Lists e.store kept) :
      Step least s { s with engine := e }
  | lookUp (s : Progress σ) {now : Instant} {alarms : List Alarm} (hidle : s.Idle)
      (hnow : s.clock ≤ now) (h : Repository.dueAlarms s.engine.store least now = .ok alarms) :
      Step least s { s with clock := now, passes := ⟨s.engine.store, now, [], alarms⟩ :: s.passes }
  | evaluate (s : Progress σ) {p : Pass σ} {older : List (Pass σ)} {a : Alarm} {rest : List Alarm}
      {began changed ended : Instant} (result : Except AlarmError Valuation)
      (hpasses : s.passes = p :: older) (hpending : p.pending = a :: rest) (hbegan : s.clock ≤ began)
      (hchanged : began ≤ changed) (hended : changed ≤ ended) :
      Step least s
        { s with
          clock := ended
          engine := ((s.engine.react a changed result).2.count .evaluated).markRun a.id ended
          passes := { p with evaluated := p.evaluated ++ [⟨a.id, began⟩], pending := rest } :: older }

/-- What can happen to an engine whose store keeps no alarms yet. -/
inductive Reached (least : Span) : Progress σ → Prop
  | start {e : Engine σ} (clock : Instant) (h : Lists e.store []) : Reached least ⟨clock, e, [], []⟩
  | step {s s' : Progress σ} (h : Reached least s) (hstep : Step least s s') : Reached least s'

end Steps

section Pace

variable {σ : Type} [Repository σ] [Keeper σ] {least : Span} {s s' : Progress σ}

/-- To the store, the interval of an alarm has passed between two times. -/
def Waited (σ : Type) [Repository σ] [Keeper σ] (least : Span) (a : Alarm) (earlier later : Instant) :
    Prop :=
  ∃ last now, earlier ≤ last ∧ now ≤ later ∧ Passed σ a.runInterval least last now

theorem Waited.mono {a : Alarm} {earlier later later' : Instant}
    (h : Waited σ least a earlier later) (hle : later ≤ later') : Waited σ least a earlier later' := by
  obtain ⟨last, now, hlast, hnow, hpassed⟩ := h
  exact ⟨last, now, hlast, Int.le_trans hnow hle, hpassed⟩

/-- The alarms created so far, with the times of their last runs; no evaluation of an alarm began after
its last run. -/
structure KeepsUp (s : Progress σ) (kept : List (Alarm × Instant)) : Prop where
  lists : Lists s.engine.store kept
  created : kept.map Prod.fst = s.created
  began_le : ∀ k ∈ kept, ∀ x ∈ s.evaluations, x.alarmId = k.1.id → x.began ≤ k.2

/-- The alarms of a list are different ones that were created, and every one of them has waited. -/
structure Ready (least : Span) (s : Progress σ) (pending : List Alarm) : Prop where
  ids : (pending.map Alarm.id).Nodup
  waited : ∀ a ∈ pending, ∃ b ∈ s.created, b.id = a.id ∧
    ∀ x ∈ s.evaluations, x.alarmId = b.id → Waited σ least b x.began s.clock

/-- What holds at all times: the evaluations made so far keep their distance, and so will the pending
ones. -/
structure Paced (least : Span) (s : Progress σ) : Prop where
  kept : ∃ kept, s.KeepsUp kept
  known : ∀ x ∈ s.evaluations, x.alarmId ∈ s.created.map Alarm.id ∧ x.began ≤ s.clock
  ready : ∀ p ∈ s.passes.head?, s.Ready least p.pending
  apart : ∀ a ∈ s.created, (s.evaluationsOf a.id).Pairwise fun x y =>
    Waited σ least a x.began y.began

theorem KeepsUp.ids {kept : List (Alarm × Instant)} (h : s.KeepsUp kept) :
    (s.created.map Alarm.id).Nodup := by
  rw [← h.created, List.map_map]
  exact Keeper.ids h.lists

theorem paced_start {e : Engine σ} (clock : Instant) (h : Lists e.store []) :
    Paced least ⟨clock, e, [], []⟩ where
  kept := ⟨[], h, rfl, fun _ hk => absurd hk List.not_mem_nil⟩
  known _ hx := absurd hx List.not_mem_nil
  ready _ hp := absurd hp (Option.not_mem_none _)
  apart _ ha := absurd ha List.not_mem_nil

/-- A new alarm has not been evaluated yet. -/
theorem Paced.create (h : s.Paced least) {a : Alarm} {store : σ}
    (hcreate : Repository.createAlarm s.engine.store a = .ok store) :
    Paced least { s with engine := { s.engine with store }, created := s.created ++ [a] } := by
  obtain ⟨kept, hkept⟩ := h.kept
  have hlists := of_createAlarm hkept.lists hcreate
  have hnew : ∀ x ∈ s.evaluations, x.alarmId ≠ a.id := by
    intro x hx hid
    have hnodup := Keeper.ids hlists
    rw [List.map_append, List.nodup_append] at hnodup
    have hknown := (h.known x hx).1
    rw [← hkept.created, List.map_map] at hknown
    exact hnodup.2.2 _ hknown _ (List.mem_singleton_self _) hid
  constructor
  · refine ⟨kept ++ [(a, a.lastRun)], hlists, ?_, ?_⟩
    · rw [List.map_append, hkept.created]
      rfl
    · intro k hk x hx hid
      rcases List.mem_append.mp hk with hk | hk
      · exact hkept.began_le k hk x hx hid
      · rw [List.mem_singleton.mp hk] at hid
        exact absurd hid (hnew x hx)
  · intro x hx
    obtain ⟨hid, hle⟩ := h.known x hx
    rw [List.map_append]
    exact ⟨List.mem_append_left _ hid, hle⟩
  · intro p hp
    obtain ⟨hids, hwaited⟩ := h.ready p hp
    refine ⟨hids, ?_⟩
    intro c hc
    obtain ⟨b, hb, hrest⟩ := hwaited c hc
    exact ⟨b, List.mem_append_left _ hb, hrest⟩
  · intro c hc
    rcases List.mem_append.mp hc with hc | hc
    · exact h.apart c hc
    · have hnone : s.evaluationsOf a.id = [] :=
        List.filter_eq_nil_iff.mpr fun x hx => by simpa using hnew x hx
      rw [List.mem_singleton.mp hc]
      show (s.evaluationsOf a.id).Pairwise _
      rw [hnone]
      exact .nil

/-- The alarms that a look-up finds have waited since the evaluations before. -/
theorem Paced.lookUp (h : s.Paced least) {now : Instant} {alarms : List Alarm} (hnow : s.clock ≤ now)
    (hdue : Repository.dueAlarms s.engine.store least now = .ok alarms) :
    Paced least
      { s with clock := now, passes := ⟨s.engine.store, now, [], alarms⟩ :: s.passes } := by
  have hevaluations : evaluations { s with
      clock := now, passes := ⟨s.engine.store, now, [], alarms⟩ :: s.passes } = s.evaluations := by
    simp [evaluations]
  obtain ⟨kept, hkept⟩ := h.kept
  obtain ⟨due, hsub, hrestores, hpassed⟩ := of_dueAlarms hkept.lists hdue
  have hids : alarms.map Alarm.id = due.map fun k => k.1.id :=
    map_eq_map_of_forall₂ hrestores fun _ _ hk => hk.id
  constructor
  · refine ⟨kept, hkept.lists, hkept.created, ?_⟩
    rw [hevaluations]
    exact hkept.began_le
  · rw [hevaluations]
    exact fun x hx => ⟨(h.known x hx).1, Int.le_trans (h.known x hx).2 hnow⟩
  · rintro p ⟨⟩
    refine ⟨?_, ?_⟩
    · rw [hids]
      exact (Keeper.ids hkept.lists).sublist (hsub.map _)
    · intro a ha
      have hid : a.id ∈ due.map fun k => k.1.id := hids ▸ List.mem_map_of_mem ha
      obtain ⟨k, hk, hka⟩ := List.mem_map.mp hid
      have hcreated : k.1 ∈ s.created := hkept.created ▸ List.mem_map_of_mem (hsub.subset hk)
      refine ⟨k.1, hcreated, hka, ?_⟩
      rw [hevaluations]
      intro x hx hxk
      exact ⟨k.2, now, hkept.began_le k (hsub.subset hk) x hx hxk, Int.le_refl _, hpassed k hk⟩
  · unfold evaluationsOf
    rw [hevaluations]
    exact h.apart

section Evaluation

variable {a : Alarm} {rest : List Alarm} {began ended : Instant}

/-- The time at which an evaluation ended is not before the time at which it began. -/
theorem KeepsUp.evaluate {kept : List (Alarm × Instant)} (h : s.KeepsUp kept)
    (hknown : ∀ x ∈ s.evaluations, x.began ≤ ended)
    (hlists : Lists s'.engine.store (kept.map (noted a.id ended))) (hcreated : s'.created = s.created)
    (hevaluations : s'.evaluations = s.evaluations ++ [⟨a.id, began⟩]) (hle : began ≤ ended) :
    s'.KeepsUp (kept.map (noted a.id ended)) := by
  refine ⟨hlists, ?_, ?_⟩
  · rw [hcreated, List.map_map]
    exact (List.map_congr_left fun k _ => fst_noted a.id ended k).trans h.created
  · intro k' hk' x hx hid
    obtain ⟨k, hk, rfl⟩ := List.mem_map.mp hk'
    rw [fst_noted] at hid
    rw [hevaluations, List.mem_append, List.mem_singleton] at hx
    by_cases hka : k.1.id = a.id
    · rw [noted_of_eq hka]
      rcases hx with hx | rfl
      · exact hknown x hx
      · exact hle
    · rw [noted_of_ne hka]
      rcases hx with hx | rfl
      · exact h.began_le k hk x hx hid
      · exact absurd hid.symm hka

/-- The evaluation of one pending alarm is none of another. -/
theorem Ready.evaluate (h : s.Ready least (a :: rest)) (hcreated : s'.created = s.created)
    (hevaluations : s'.evaluations = s.evaluations ++ [⟨a.id, began⟩]) (hclock : s.clock ≤ s'.clock) :
    s'.Ready least rest := by
  obtain ⟨hother, hids⟩ := List.nodup_cons.mp h.ids
  refine ⟨hids, ?_⟩
  intro c hc
  obtain ⟨d, hd, hdc, hdwaited⟩ := h.waited c (List.mem_cons_of_mem a hc)
  refine ⟨d, hcreated ▸ hd, hdc, ?_⟩
  intro x hx hid
  rw [hevaluations, List.mem_append, List.mem_singleton] at hx
  rcases hx with hx | rfl
  · exact (hdwaited x hx hid).mono hclock
  · exact absurd (List.mem_map.mpr ⟨c, hc, hdc.symm.trans hid.symm⟩) hother

/-- An evaluation that begins when its alarm has waited keeps its distance from those before. -/
theorem Paced.apart_evaluate (h : s.Paced least) (hready : s.Ready least (a :: rest))
    (hbegan : s.clock ≤ began) (hevaluations : s'.evaluations = s.evaluations ++ [⟨a.id, began⟩]) :
    ∀ c ∈ s.created, (s'.evaluationsOf c.id).Pairwise fun x y =>
      Waited σ least c x.began y.began := by
  obtain ⟨kept, hkept⟩ := h.kept
  obtain ⟨b, hb, hba, hbwaited⟩ := hready.waited a List.mem_cons_self
  intro c hc
  have hevaluationsOf : s'.evaluationsOf c.id =
      s.evaluationsOf c.id ++ [⟨a.id, began⟩].filter fun x => x.alarmId = c.id := by
    unfold evaluationsOf
    rw [hevaluations, List.filter_append]
  rw [hevaluationsOf, List.pairwise_append]
  refine ⟨h.apart c hc, List.Pairwise.filter _ (List.pairwise_singleton _ _), ?_⟩
  intro x hx y hy
  obtain ⟨hx, hxc⟩ := List.mem_filter.mp hx
  obtain ⟨hy, hyc⟩ := List.mem_filter.mp hy
  rw [List.mem_singleton.mp hy] at hyc ⊢
  have hac : a.id = c.id := of_decide_eq_true hyc
  -- the alarm that has waited is this one, as identifiers are unique
  have hbc : b = c := List.inj_on_of_nodup_map hkept.ids hb hc (hba.trans hac)
  rw [← hbc]
  exact (hbwaited x hx ((of_decide_eq_true hxc).trans (hac.symm.trans hba.symm))).mono hbegan

/-- The evaluation of a pending alarm begins when the alarm has waited, and its run is noted after its
beginning. -/
theorem Paced.evaluate (h : s.Paced least) {p : Pass σ} {older : List (Pass σ)} {changed : Instant}
    (result : Except AlarmError Valuation) (hpasses : s.passes = p :: older)
    (hpending : p.pending = a :: rest) (hbegan : s.clock ≤ began) (hchanged : began ≤ changed)
    (hended : changed ≤ ended) :
    Paced least
      { s with
        clock := ended
        engine := ((s.engine.react a changed result).2.count .evaluated).markRun a.id ended
        passes := { p with evaluated := p.evaluated ++ [⟨a.id, began⟩], pending := rest } ::
          older } := by
  have hle : began ≤ ended := Int.le_trans hchanged hended
  have hclock : s.clock ≤ ended := Int.le_trans hbegan hle
  have hknown : ∀ x ∈ s.evaluations, x.began ≤ ended := fun x hx =>
    Int.le_trans (h.known x hx).2 hclock
  set s' : Progress σ := { s with
    clock := ended
    engine := ((s.engine.react a changed result).2.count .evaluated).markRun a.id ended
    passes := { p with evaluated := p.evaluated ++ [⟨a.id, began⟩], pending := rest } :: older }
  have hevaluations : s'.evaluations = s.evaluations ++ [⟨a.id, began⟩] := by
    simp [evaluations, s', hpasses]
  obtain ⟨kept, hkept⟩ := h.kept
  have hready : s.Ready least (a :: rest) := hpending ▸ h.ready p (by rw [hpasses]; rfl)
  obtain ⟨b, hb, hba, -⟩ := hready.waited a List.mem_cons_self
  constructor
  · refine ⟨kept.map (noted a.id ended), hkept.evaluate hknown ?_ rfl hevaluations hle⟩
    refine Engine.lists_markRun ?_ ?_ ended
    · exact Engine.lists_react hkept.lists a changed result
    · rw [← hkept.created] at hb
      obtain ⟨k, hk, rfl⟩ := List.mem_map.mp hb
      rw [← hba]
      exact List.mem_map_of_mem (f := fun k : Alarm × Instant => k.1.id) hk
  · intro x hx
    rw [hevaluations, List.mem_append, List.mem_singleton] at hx
    rcases hx with hx | rfl
    · exact ⟨(h.known x hx).1, hknown x hx⟩
    · exact ⟨hba ▸ List.mem_map_of_mem hb, hle⟩
  · rintro q ⟨⟩
    exact hready.evaluate rfl hevaluations hclock
  · exact h.apart_evaluate hready hbegan hevaluations

end Evaluation

theorem Paced.step (h : s.Paced least) (hstep : Step least s s') : s'.Paced least := by
  cases hstep with
  | create hcreate => exact h.create hcreate
  | others hlists =>
    obtain ⟨kept, hkept⟩ := h.kept
    exact ⟨⟨kept, hlists kept hkept.lists, hkept.created, hkept.began_le⟩, h.known,
      fun p hp => ⟨(h.ready p hp).ids, (h.ready p hp).waited⟩, h.apart⟩
  | lookUp _ hnow hdue => exact h.lookUp hnow hdue
  | evaluate result hpasses hpending hbegan hchanged hended =>
    exact h.evaluate result hpasses hpending hbegan hchanged hended

theorem Reached.paced (h : Reached least s) : s.Paced least := by
  induction h with
  | start clock h => exact paced_start clock h
  | step _ hstep ih => exact ih.step hstep

end Pace

section Moment

variable {σ : Type} [Repository σ] [Keeper σ] {least : Span} {s : Progress σ}

/-- What is reached when given alarms are looked up and run while the clock stands still. -/
def passAt (s : Progress σ) (r : Reader) (now : Instant) (alarms : List Alarm) : Progress σ where
  clock := now
  engine := (Engine.runAll r now alarms s.engine).2
  created := s.created
  passes := ⟨s.engine.store, now, alarms.map fun a => ⟨a.id, now⟩, []⟩ :: s.passes

/-- Running the pending alarms at one moment is a sequence of evaluations. -/
theorem Reached.runAll {p : Pass σ} {older : List (Pass σ)} (h : Reached least s) (r : Reader)
    (hpasses : s.passes = p :: older) :
    Reached least
      { s with
        engine := (Engine.runAll r s.clock p.pending s.engine).2
        passes := { p with evaluated := p.evaluated ++ p.pending.map fun a => ⟨a.id, s.clock⟩
                           pending := [] } :: older } := by
  generalize hpending : p.pending = pending
  induction pending generalizing s p with
  | nil =>
    obtain ⟨store, time, evaluated, pending⟩ := p
    cases hpending
    rw [List.map_nil, List.append_nil, ← hpasses]
    exact h
  | cons a rest ih =>
    have hstep := h.step (.evaluate s (a.valuate r s.engine.store s.clock) hpasses hpending
      (Int.le_refl _) (Int.le_refl _) (Int.le_refl _))
    have hrest := ih hstep rfl rfl
    rw [List.append_assoc] at hrest
    exact hrest

theorem Reached.passAt (h : Reached least s) (hidle : s.Idle) (r : Reader) {now : Instant}
    (hnow : s.clock ≤ now) {alarms : List Alarm}
    (hdue : Repository.dueAlarms s.engine.store least now = .ok alarms) :
    Reached least (s.passAt r now alarms) :=
  (h.step (.lookUp s hidle hnow hdue)).runAll r rfl

omit [Keeper σ] in
theorem map_fst_runAll (r : Reader) (now : Instant) (alarms : List Alarm) (e : Engine σ) :
    (Engine.runAll r now alarms e).1.map Prod.fst = alarms.map Alarm.id := by
  induction alarms generalizing e with
  | nil => rfl
  | cons a rest ih => exact congrArg (a.id :: ·) (ih (e.run r a now).2)

theorem map_alarmId_begun (alarms : List Alarm) (now : Instant) :
    (alarms.map fun a => (⟨a.id, now⟩ : Evaluation)).map Evaluation.alarmId = alarms.map Alarm.id := by
  rw [List.map_map]
  rfl

end Moment

section Exact

variable {least : Span} {s s' : Progress Memory}

theorem Reached.map_id_created (h : Reached least s) :
    s.engine.store.alarms.map Alarm.id = s.created.map Alarm.id := by
  obtain ⟨kept, hkept⟩ := h.paced.kept
  rw [← hkept.created, List.map_map]
  exact Memory.Lists.map_id hkept.lists

/-- A pass over a store in memory evaluates the alarms that were due at its look-up. -/
theorem Reached.evaluated_eq (h : Reached least s) : ∀ p ∈ s.passes,
    p.store.alarms.map Alarm.id <+: s.created.map Alarm.id ∧
      p.evaluated.map Evaluation.alarmId ++ p.pending.map Alarm.id = p.store.dueIds least p.time := by
  induction h with
  | start clock _ => exact fun p hp => absurd hp List.not_mem_nil
  | step hreached hstep ih =>
    intro p hp
    cases hstep with
    | create _ =>
      obtain ⟨hfront, hdue⟩ := ih p hp
      refine ⟨hfront.trans ?_, hdue⟩
      rw [List.map_append]
      exact List.prefix_append _ _
    | others _ => exact ih p hp
    | lookUp _ _ hdue =>
      rcases List.mem_cons.mp hp with rfl | hp
      · exact ⟨hreached.map_id_created ▸ List.prefix_rfl, Memory.map_id_dueAlarms hdue⟩
      · exact ih p hp
    | evaluate _ hpasses hpending =>
      rcases List.mem_cons.mp hp with rfl | hp
      · obtain ⟨hfront, hdue⟩ := ih _ (hpasses ▸ List.mem_cons_self)
        refine ⟨hfront, ?_⟩
        rw [← hdue, hpending, List.map_append, List.append_assoc]
        rfl
      · exact ih p (hpasses ▸ List.mem_cons_of_mem _ hp)

end Exact

section Distance

variable {least : Span} {a : Alarm} {x y : Instant}

theorem Waited.nanos_of_memory (h : Waited Memory least a x y) :
    x.nanos + (a.runInterval.longer least).nanos ≤ y.nanos := by
  obtain ⟨last, now, hlast, hnow, hpassed⟩ := h
  replace hpassed : last.nanos + (a.runInterval.longer least).nanos ≤ now.nanos := hpassed
  rw [Instant.le_def] at hlast hnow
  omega

theorem Waited.nanos_of_tables (h : Waited Tables least a x y) (hinterval : a.runInterval.OnMillis)
    (hleast : least.OnMillis) :
    x.nanos + (a.runInterval.longer least).nanos < y.nanos + nanosPerMilli := by
  obtain ⟨last, now, hlast, hnow, hpassed⟩ := h
  replace hpassed : last.millis + max a.runInterval.stored least.stored ≤ now.millis := hpassed
  have hlower := last.millis_bounds
  have hupper := now.millis_bounds
  rw [Instant.le_def] at hlast hnow
  rw [Span.nanos_longer, hinterval.nanos_eq, hleast.nanos_eq]
  -- the store keeps an interval beyond 64 bits as the longest one, which no two times are apart
  simp only [Span.stored, greatestWord] at hpassed
  simp only [Instant.millis, nanosPerMilli] at hpassed hlower hupper ⊢
  omega

end Distance

/-- Over a store in memory every pass runs the alarms that are due, each once and in the order of their
creation, and two evaluations of one alarm begin at least its interval, or the least interval, apart.
Over tables, with intervals of whole milliseconds, they begin less than one millisecond earlier. -/
theorem evaluations_keep_distance {least : Span} {s : Progress Memory} (hs : Reached least s)
    {t : Progress Tables} (ht : Reached least t) :
    ((s.created.map Alarm.id).Nodup ∧
      (∀ p ∈ s.passes, p.store.alarms.map Alarm.id <+: s.created.map Alarm.id ∧
        p.evaluated.map Evaluation.alarmId ++ p.pending.map Alarm.id =
          p.store.dueIds least p.time) ∧
      (∀ r now, s.Idle → s.clock ≤ now → ∃ summary p s',
        s.engine.runDue r least now = (.ok summary, s'.engine) ∧ Reached least s' ∧
          s'.passes = p :: s.passes ∧ p.store = s.engine.store ∧ p.time = now ∧ p.pending = [] ∧
          summary.outcomes.map Prod.fst = p.evaluated.map Evaluation.alarmId) ∧
      ∀ a ∈ s.created, (s.evaluationsOf a.id).Pairwise fun x y : Evaluation =>
        x.began.nanos + ((a.runInterval.longer least).nanos : Int) ≤ y.began.nanos) ∧
    ∀ a ∈ t.created, a.runInterval.OnMillis → least.OnMillis →
      (t.evaluationsOf a.id).Pairwise fun x y : Evaluation =>
        x.began.nanos + ((a.runInterval.longer least).nanos : Int) <
          y.began.nanos + (nanosPerMilli : Int) := by
  refine ⟨⟨?_, hs.evaluated_eq, ?_, ?_⟩, ?_⟩
  · obtain ⟨kept, hkept⟩ := hs.paced.kept
    exact hkept.ids
  · intro r now hidle hnow
    let due := (s.engine.store.alarms.filter fun a => a.isDue now least).map Alarm.withoutHistory
    have hreached : Reached least (s.passAt r now due) := hs.passAt hidle r hnow rfl
    refine ⟨⟨(Engine.runAll r now due s.engine).1⟩, _, _, rfl, hreached, rfl, rfl, rfl, rfl, ?_⟩
    exact (map_fst_runAll r now due s.engine).trans (map_alarmId_begun due now).symm
  · intro a ha
    exact (hs.paced.apart a ha).imp fun h => h.nanos_of_memory
  · intro a ha hinterval hleast
    exact (ht.paced.apart a ha).imp fun h => h.nanos_of_tables hinterval hleast

section Minute

variable {σ : Type} [Repository σ] {least : Span} {s : Progress σ}

/-- What is reached when one alarm is looked up and passed over for want of points. -/
def skipAt (s : Progress σ) (a : Alarm) (now : Instant) : Progress σ where
  clock := now
  engine := ((s.engine.react a now (.error (.insufficientData 1 0))).2.count .evaluated).markRun a.id now
  created := s.created
  passes := ⟨s.engine.store, now, [⟨a.id, now⟩], []⟩ :: s.passes

theorem Reached.skipAt [Keeper σ] (h : Reached least s) (hidle : s.Idle) {now : Instant}
    (hnow : s.clock ≤ now) {a : Alarm}
    (hdue : Repository.dueAlarms s.engine.store least now = .ok [a]) :
    Reached least (s.skipAt a now) := by
  have hevaluate : Step least _ _ := .evaluate
    { s with clock := now, passes := ⟨s.engine.store, now, [], [a]⟩ :: s.passes }
    (.error (.insufficientData 1 0)) rfl rfl (Int.le_refl _) (Int.le_refl _) (Int.le_refl _)
  exact (h.step (.lookUp s hidle hnow hdue)).step hevaluate

/-- A time after the start of 1970, in microseconds, or that start when there is no such time. -/
def micros (n : Nat) : Instant :=
  (Instant.ofNanos? (n * 1000)).getD .epoch

/-- An alarm that is run every minute, created at the start of 1970. -/
def minutely : Alarm := Race.watched false

/-- The alarm is created and then run twice; at the second look-up the store knows one time as that of
the run before. -/
def twice (store : σ) (first known second : Instant) : Progress σ :=
  ((⟨.epoch, .ofStore store, [minutely], []⟩ : Progress σ).skipAt minutely first).skipAt
    (minutely.ranAt known) second

theorem reached_twice [Keeper σ] {empty store : σ} {first known second : Instant}
    (hempty : Lists empty []) (hcreate : Repository.createAlarm empty minutely = .ok store)
    (hfirst : Instant.epoch ≤ first) (hsecond : first ≤ second)
    (hdue : Repository.dueAlarms store least first = .ok [minutely])
    (hagain : Repository.dueAlarms
      ((⟨.epoch, .ofStore store, [minutely], []⟩ : Progress σ).skipAt minutely first).engine.store least
        second = .ok [minutely.ranAt known]) :
    Reached least (twice store first known second) := by
  have hcreated : Reached least (⟨.epoch, .ofStore store, [minutely], []⟩ : Progress σ) :=
    (Reached.start (e := .ofStore empty) .epoch hempty).step (.create _ hcreate)
  have hran := hcreated.skipAt (fun _ hp => absurd hp List.not_mem_nil) hfirst hdue
  exact hran.skipAt (List.forall_mem_singleton.mpr rfl) hsecond hagain

/-- In memory, with an evaluation after one minute and one after two. -/
def inMemory : Progress Memory :=
  twice { Memory.empty with alarms := [minutely] } (micros 60000000) (micros 60000000)
    (micros 120000000)

/-- In tables, with evaluations that are 800 microseconds less than a minute apart. -/
def inTables : Progress Tables :=
  twice { Tables.empty with alarms := [.ofAlarm minutely] } (micros 60000900) (micros 60000000)
    (micros 120000100)

theorem reached_inMemory : Reached (.ofSeconds 15) inMemory :=
  have hempty : Lists Memory.empty [] := ⟨.nil, List.nodup_nil⟩
  reached_twice hempty rfl (by decide) (by decide) rfl rfl

theorem keepable_minutely : minutely.Keepable where
  rule := ⟨fun _ hf => absurd hf List.not_mem_nil, by decide⟩
  runInterval := by decide
  runInterval_le := by decide
  lastRun := by decide
  createdAt := by decide
  updatedAt := by decide
  history _ he := absurd he List.not_mem_nil

theorem dueAlarms_minutely (time : Instant) {now : Instant} (h : time.OnMillis)
    (hdue : (AlarmRow.ofAlarm (minutely.ranAt time)).isDue least now = true) :
    Tables.dueAlarms { Tables.empty with alarms := [.ofAlarm (minutely.ranAt time)] } least now =
      .ok [minutely.ranAt time] := by
  have hkeepable : (minutely.ranAt time).Keepable := { keepable_minutely with lastRun := h }
  have hread : (AlarmRow.ofAlarm (minutely.ranAt time)).toAlarm = .ok (minutely.ranAt time) :=
    AlarmRow.toAlarm_ofAlarm hkeepable
  have hfilter : [AlarmRow.ofAlarm (minutely.ranAt time)].filter (fun r => r.isDue least now) =
      [.ofAlarm (minutely.ranAt time)] :=
    List.filter_cons_of_pos (p := fun r : AlarmRow => r.isDue least now) hdue
  show Tables.lift (([AlarmRow.ofAlarm (minutely.ranAt time)].filter fun r => r.isDue least now).mapM
    AlarmRow.toAlarm) = _
  rw [hfilter, List.mapM_cons, hread]
  rfl

theorem reached_inTables : Reached (.ofSeconds 15) inTables :=
  have hempty : Lists Tables.empty [] := ⟨.nil, List.nodup_nil⟩
  reached_twice hempty rfl (by decide) (by decide) (dueAlarms_minutely .epoch (by decide) (by decide))
    (dueAlarms_minutely (micros 60000000) (by decide) (by decide))

/-- In tables the loss of less than a millisecond does occur. -/
theorem distances_of_twice :
    inMemory.evaluations.map (fun x => x.began.nanos) = [60000000000, 120000000000] ∧
    inTables.evaluations.map (fun x => x.began.nanos) = [60000900000, 120000100000] ∧
    ((inMemory.evaluationsOf minutely.id).Pairwise fun x y : Evaluation =>
      x.began.nanos + 60000000000 ≤ y.began.nanos) ∧
    (inTables.evaluationsOf minutely.id).Pairwise fun x y : Evaluation =>
      x.began.nanos + 60000000000 < y.began.nanos + (nanosPerMilli : Int) := by
  obtain ⟨⟨-, -, -, hmemory⟩, htables⟩ :=
    evaluations_keep_distance reached_inMemory reached_inTables
  have hcreated : minutely ∈ [minutely] := List.mem_cons_self
  have hlonger : ((minutely.runInterval.longer (.ofSeconds 15)).nanos : Int) = 60000000000 := by decide
  rw [← hlonger]
  exact ⟨rfl, rfl, hmemory minutely hcreated,
    htables minutely hcreated (by decide) (by decide)⟩

end Minute

end Progress

end Vigil
