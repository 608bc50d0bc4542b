import Mathlib.Logic.Function.Basic
import Mathlib.Data.List.Count
import Vigil.Offline
import Vigil.Proofs.Runner.Steps

/-!
# Runs that overlap

Any number of runs of one alarm work on one store, each over a copy of the alarm that may be out of date,
and take their steps in any order. The decision is taken on the copy, but the store has the last word:
an entry is opened only when none is open, and cleared only when one is. So whatever the order, the
changes of state that the store takes alternate, and others are told of each at most once, by the run
that made it.
-/

namespace Vigil

namespace Act

def change? : Act → Option Event
  | changed event => some event
  | _ => none

end Act

theorem Engine.store_counted {σ : Type} (counters : List Counter) (e : Engine σ) :
    (counters.foldl Engine.count e).store = e.store := by
  induction counters generalizing e with
  | nil => rfl
  | cons c rest ih => exact ih (e.count c)

namespace Stage

variable {σ : Type} [Repository σ] {a : Alarm} {result : Except AlarmError Valuation} {now : Instant}
  {e e' : Engine σ} {acts : List Act} {stage stage' : Stage} {event : Event}

section Effects

variable [Guarded σ]

/-- What a step does to the history of an alarm. -/
inductive Effect (id : Uuid) (before after : σ) : List Event → Prop where
  | none (entries : Guarded.entries after id = Guarded.entries before id)
      (cleared : Guarded.cleared after id = Guarded.cleared before id) : Effect id before after []
  | fire (closed : Guarded.cleared before id = Guarded.entries before id)
      (entries : Guarded.entries after id = Guarded.entries before id + 1)
      (cleared : Guarded.cleared after id = Guarded.cleared before id) :
      Effect id before after [.fire]
  | clear (opened : Guarded.cleared before id < Guarded.entries before id)
      (entries : Guarded.entries after id = Guarded.entries before id)
      (cleared : Guarded.entries before id = Guarded.cleared before id + 1 →
        Guarded.cleared after id = Guarded.entries before id) :
      Effect id before after [.clear]

theorem effect_record (id : Uuid) (store : σ) (outcome : PushOutcome) (time : Instant) :
    Effect id store (Dispatch.record store outcome time) [] := by
  unfold Dispatch.record
  split
  · rename_i push after h
    have hsame : Guarded.entries after id = Guarded.entries store id ∧
        Guarded.cleared after id = Guarded.cleared store id := Guarded.of_markPushed h
    exact .none hsame.1 hsame.2
  · exact .none rfl rfl

theorem effect_markRun (id other : Uuid) (e : Engine σ) (now : Instant) :
    Effect id e.store (e.markRun other now).store [] := by
  unfold Engine.markRun
  split
  · rename_i after h
    have hsame : Guarded.entries after id = Guarded.entries e.store id ∧
        Guarded.cleared after id = Guarded.cleared e.store id := Guarded.of_markRun h
    exact .none hsame.1 hsame.2
  · exact .none rfl rfl

/-- A step changes the history of the alarm only by an accepted change of state. -/
theorem effect_advance (h : stage.advance a result now e = (acts, stage', e')) :
    Effect a.id e.store e'.store (acts.filterMap Act.change?) := by
  cases stage with
  | evaluate =>
    cases h
    exact .none rfl rfl
  | change v =>
    rw [advance, afterChange] at h
    split at h
    · cases h
      exact .none rfl rfl
    · split at h
      · cases h
        exact .none rfl rfl
      · rename_i hfire
        cases h
        obtain ⟨hclosed, hentries, hcleared⟩ := Guarded.of_fire hfire
        exact .fire hclosed hentries hcleared
    · split at h
      · cases h
        exact .none rfl rfl
      · rename_i hclear
        cases h
        obtain ⟨hopened, hentries, hcleared⟩ := Guarded.of_clear hclear
        exact .clear hopened hentries hcleared
  | tell event values error outcome =>
    rw [advance] at h
    split at h
    · cases h
      exact .none rfl rfl
    · cases h
      exact .none rfl rfl
  | push notice time outputs outcome =>
    cases outputs with
    | nil =>
      cases h
      exact .none rfl rfl
    | cons o rest =>
      cases h
      exact effect_record a.id e.store _ time
  | finish outcome =>
    cases h
    have hnone : (outcome.counters.map Act.counted ++ [Act.counted .evaluated]).filterMap Act.change? =
        [] := by
      cases outcome <;> rfl
    rw [hnone]
    have hmark := effect_markRun a.id a.id ((outcome.counters.foldl Engine.count e).count .evaluated) now
    rwa [show ((outcome.counters.foldl Engine.count e).count .evaluated).store = e.store from
      Engine.store_counted outcome.counters e] at hmark
  | ended outcome =>
    cases h
    exact .none rfl rfl

end Effects

/-- What has to happen before others are told of an event. -/
def heralds (event : Event) : List Act :=
  if event = .error then [] else [.changed event]

/-- Telling others of an event, and pushing it to outputs. -/
def telling (event : Event) (ids : List Uuid) : List Act :=
  heralds event ++ .told event :: ids.map (.pushed event)

/-- The acts of a run that has come to a stage. -/
inductive Traced : Stage → List Act → Prop where
  | evaluate : Traced evaluate []
  | change (v : Valuation) : Traced (change v) []
  | tell (event : Event) (values : Named Float) (error : Option String) (outcome : Outcome) :
      Traced (tell event values error outcome) (heralds event)
  | push (notice : Notice) (time : Instant) (outputs : List Output) (outcome : Outcome)
      (ids : List Uuid) :
      Traced (push notice time outputs outcome) (telling notice.event ids)
  | finish (event : Event) (ids : List Uuid) (outcome : Outcome) :
      Traced (finish outcome) (telling event ids)
  | refused (event : Event) : Traced (finish .failed) [.refused event]
  | quiet {outcome : Outcome} (h : outcome.counters = []) : Traced (finish outcome) []
  | ended {outcome : Outcome} {acts : List Act} (h : Traced (finish outcome) acts) :
      Traced (ended outcome) (acts ++ (outcome.counters.map .counted ++ [.counted .evaluated]))

theorem traced_afterEvaluation (result : Except AlarmError Valuation) :
    Traced (afterEvaluation result) [] := by
  cases result with
  | ok v => exact .change v
  | error cause =>
    unfold afterEvaluation
    dsimp only
    split
    · exact .quiet rfl
    · split
      · exact .tell .error _ _ _
      · exact .quiet rfl

theorem traced_afterChange {v : Valuation} (h : afterChange a v now e = (acts, stage', e')) :
    Traced stage' acts := by
  unfold afterChange at h
  split at h
  · cases h
    exact .quiet rfl
  · split at h
    · cases h
      exact .refused .fire
    · cases h
      exact .tell .fire _ _ _
  · split at h
    · cases h
      exact .refused .clear
    · cases h
      exact .tell .clear _ _ _

theorem Traced.advance {done : List Act} (hdone : Traced stage done)
    (h : stage.advance a result now e = (acts, stage', e')) : Traced stage' (done ++ acts) := by
  cases hdone with
  | evaluate =>
    cases h
    exact traced_afterEvaluation result
  | change v => exact traced_afterChange h
  | tell event values error outcome =>
    rw [Stage.advance] at h
    split at h
    · cases h
      exact .finish event [] outcome
    · cases h
      exact .push (Occasion.notice ⟨a, event, values, error, now⟩) now _ outcome []
  | push notice time outputs outcome ids =>
    cases outputs with
    | nil =>
      cases h
      rw [List.append_nil]
      exact .finish notice.event ids outcome
    | cons o rest =>
      cases h
      have hmore := Traced.push notice time rest outcome (ids ++ [o.id])
      simpa [telling] using hmore
  | finish event ids outcome =>
    cases h
    exact .ended (.finish event ids outcome)
  | refused event =>
    cases h
    exact .ended (.refused event)
  | quiet hquiet =>
    cases h
    exact .ended (.quiet hquiet)
  | ended hfinish =>
    cases h
    rw [List.append_nil]
    exact .ended hfinish

theorem filter_telling (hevent : event ≠ .error) (other : Event) (ids : List Uuid) :
    (telling other ids).filter (fun act => act = .changed event ∨ act = .told event) <+:
      [.changed event, .told event] := by
  have hpushed : (ids.map (Act.pushed other)).filter
      (fun act => act = .changed event ∨ act = .told event) = [] := by
    simp [List.filter_eq_nil_iff]
  rw [telling, List.filter_append, List.filter_cons, hpushed, heralds]
  by_cases hsame : other = event
  · simp [hsame, hevent]
  · by_cases herror : other = .error
    · simp [herror, Ne.symm hevent]
    · simp [herror, hsame]

/-- Of changing the state and telling of it, a run does both in this order, or the first, or neither. -/
theorem Traced.prefix_changed_told (h : Traced stage acts) (hevent : event ≠ .error) :
    acts.filter (fun act => act = .changed event ∨ act = .told event) <+:
      [.changed event, .told event] := by
  induction h with
  | evaluate => exact List.nil_prefix
  | change v => exact List.nil_prefix
  | tell other values error outcome =>
    have hmore := filter_telling hevent other []
    rw [telling, List.filter_append] at hmore
    exact (List.prefix_append _ _).trans hmore
  | push notice time outputs outcome ids => exact filter_telling hevent notice.event ids
  | finish other ids outcome => exact filter_telling hevent other ids
  | refused other => exact List.nil_prefix
  | quiet hquiet => exact List.nil_prefix
  | @ended outcome acts hfinish ih =>
    have hcounted : (outcome.counters.map Act.counted ++ [Act.counted .evaluated]).filter
        (fun act => act = .changed event ∨ act = .told event) = [] := by
      simp [List.filter_eq_nil_iff]
    rwa [List.filter_append, hcounted, List.append_nil]

/-- Nothing is pushed but in telling. -/
theorem Traced.told_of_pushed {output : Uuid} (h : Traced stage acts)
    (hpushed : .pushed event output ∈ acts) : .told event ∈ acts := by
  have hheralds : ∀ other, .pushed event output ∉ heralds other := by
    intro other
    unfold heralds
    split <;> simp
  have htelling : ∀ other ids, .pushed event output ∈ telling other ids →
      .told event ∈ telling other ids := by
    intro other ids hmem
    rw [telling, List.mem_append, List.mem_cons, List.mem_map] at hmem
    rcases hmem with hmem | hmem | ⟨output', -, heq⟩
    · exact absurd hmem (hheralds other)
    · cases hmem
    · cases heq
      simp [telling]
  induction h with
  | evaluate => simp at hpushed
  | change v => simp at hpushed
  | tell other values error outcome => exact absurd hpushed (hheralds other)
  | push notice time outputs outcome ids => exact htelling _ ids hpushed
  | finish other ids outcome => exact htelling other ids hpushed
  | refused other => simp at hpushed
  | quiet hquiet => simp at hpushed
  | ended hfinish ih => exact List.mem_append_left _ (ih (by simpa using hpushed))

theorem refused_notMem_heralds (other : Event) : .refused event ∉ heralds other := by
  unfold heralds
  split <;> simp

theorem refused_notMem_telling (other : Event) (ids : List Uuid) :
    .refused event ∉ telling other ids := by
  simp [telling, refused_notMem_heralds]

/-- A run that was refused did nothing before, and has nothing to do but to count the evaluation. -/
theorem Traced.of_refused (h : Traced stage acts) (hrefused : .refused event ∈ acts) :
    (stage = Stage.finish .failed ∧ acts = [.refused event]) ∨
      (stage = Stage.ended .failed ∧ acts = [.refused event, .counted .evaluated]) := by
  induction h with
  | evaluate => simp at hrefused
  | change v => simp at hrefused
  | tell other values error outcome => exact absurd hrefused (refused_notMem_heralds other)
  | push notice time outputs outcome ids => exact absurd hrefused (refused_notMem_telling _ ids)
  | finish other ids outcome => exact absurd hrefused (refused_notMem_telling other ids)
  | refused other =>
    obtain rfl : event = other := by simpa using hrefused
    exact .inl ⟨rfl, rfl⟩
  | quiet hquiet => simp at hrefused
  | @ended outcome acts hfinish ih =>
    have hbefore : .refused event ∈ acts := by simpa using hrefused
    rcases ih hbefore with ⟨hstage, rfl⟩ | ⟨hstage, -⟩
    · cases hstage
      exact .inr ⟨rfl, rfl⟩
    · cases hstage

theorem Traced.count_told_le (h : Traced stage acts) (hevent : event ≠ .error) :
    acts.count (.told event) ≤ acts.count (.changed event) := by
  have hprefix := h.prefix_changed_told hevent
  have htold := List.count_filter (a := Act.told event) (l := acts)
    (p := fun act => act = .changed event ∨ act = .told event) (by simp)
  have hchanged := List.count_filter (a := Act.changed event) (l := acts)
    (p := fun act => act = .changed event ∨ act = .told event) (by simp)
  rw [← htold, ← hchanged]
  generalize acts.filter (fun act => act = .changed event ∨ act = .told event) = done at hprefix
  rcases List.prefix_cons_iff.mp hprefix with rfl | ⟨more, rfl, hmore⟩
  · simp
  · rcases List.prefix_cons_iff.mp hmore with rfl | ⟨rest, rfl, hrest⟩
    · simp
    · rw [List.prefix_nil.mp hrest]
      simp

end Stage

/-- Runs by number, what they work on, and what they did so far, in order. -/
structure Race (σ : Type) where
  stages : Nat → Stage
  engine : Engine σ
  log : List (Nat × Act)

namespace Race

variable {σ : Type} {race : Race σ} {event : Event} {i : Nat}

def actsOf (race : Race σ) (i : Nat) : List Act :=
  race.log.filterMap fun x => if x.1 = i then some x.2 else none

/-- The runs that did something, as often as they did it. -/
def doers (race : Race σ) (act : Act) : List Nat :=
  race.log.filterMap fun x => if x.2 = act then some x.1 else none

def changes (race : Race σ) : List Event :=
  race.log.filterMap fun x => x.2.change?

/-- How often others were told of an event. -/
def tellings (race : Race σ) (event : Event) : Nat :=
  (race.doers (.told event)).length

theorem count_doers (race : Race σ) (act : Act) (i : Nat) :
    (race.doers act).count i = (race.actsOf i).count act := by
  rw [doers, actsOf]
  induction race.log with
  | nil => rfl
  | cons x log ih =>
    obtain ⟨j, other⟩ := x
    by_cases hact : other = act
    · by_cases hi : j = i
      · simp [hact, hi, ih]
      · simp [hact, hi, ih]
    · by_cases hi : j = i
      · simp [hact, hi, ih]
      · simp [hact, hi, ih]

theorem length_doers_changed (race : Race σ) (event : Event) :
    (race.doers (.changed event)).length = race.changes.count event := by
  rw [doers, changes]
  induction race.log with
  | nil => rfl
  | cons x log ih =>
    obtain ⟨j, act⟩ := x
    cases act with
    | changed other =>
      by_cases hsame : other = event
      · simp [Act.change?, hsame, ih]
      · simp [Act.change?, hsame, ih]
    | _ => simp [Act.change?, ih]

/-- Events that alternate, beginning with firing. -/
def alternating : Nat → List Event
  | 0 => []
  | n + 1 => alternating n ++ [if n % 2 = 0 then .fire else .clear]

theorem length_alternating (n : Nat) : (alternating n).length = n := by
  induction n with
  | zero => rfl
  | succ n ih => simp [alternating, ih]

theorem getElem?_alternating {n k : Nat} (h : (alternating n)[k]? = some event) :
    event = if k % 2 = 0 then .fire else .clear := by
  induction n with
  | zero => simp [alternating] at h
  | succ n ih =>
    rw [alternating, List.getElem?_append, length_alternating] at h
    split at h
    · exact ih h
    · rename_i hk
      obtain ⟨hlt, heq⟩ := List.getElem?_eq_some_iff.mp h
      have hlast : k = n := by
        simp at hlt
        omega
      subst hlast
      simpa using heq.symm

theorem count_alternating (n : Nat) :
    (alternating n).count .fire = (n + 1) / 2 ∧ (alternating n).count .clear = n / 2 := by
  induction n with
  | zero => exact ⟨rfl, rfl⟩
  | succ n ih =>
    obtain ⟨hfire, hclear⟩ := ih
    rw [alternating, List.count_append, List.count_append, hfire, hclear]
    by_cases heven : n % 2 = 0
    · simp [heven]
      omega
    · simp [heven]
      omega

/-- One run takes a step, over its copy of the alarm, with whatever its evaluation gave. -/
def step [Repository σ] (race : Race σ) (copies : Nat → Alarm) (i : Nat) (result : Except AlarmError Valuation)
    (now : Instant) : Race σ :=
  let (acts, stage, engine) := (race.stages i).advance (copies i) result now race.engine
  ⟨Function.update race.stages i stage, engine, race.log ++ acts.map fun act => (i, act)⟩

theorem actsOf_append (stages : Nat → Stage) (engine : Engine σ) (log : List (Nat × Act)) (i : Nat)
    (acts : List Act) (j : Nat) :
    actsOf ⟨stages, engine, log ++ acts.map fun act => (i, act)⟩ j =
      actsOf ⟨stages, engine, log⟩ j ++ if i = j then acts else [] := by
  rw [actsOf, List.filterMap_append, List.filterMap_map, actsOf]
  by_cases hsame : i = j
  · simp [hsame]
  · simp [hsame]

/-- Runs of one alarm, each over a copy of its own, on one engine. Between their steps anything may
happen that leaves the history of the alarm as it is. -/
inductive Interleaved [Repository σ] [Guarded σ] (copies : Nat → Alarm) (id : Uuid) (start : Engine σ) :
    Race σ → Prop where
  | start : Interleaved copies id start ⟨fun _ => .evaluate, start, []⟩
  | step {race : Race σ} (earlier : Interleaved copies id start race) (i : Nat)
      (result : Except AlarmError Valuation) (now : Instant) :
      Interleaved copies id start (race.step copies i result now)
  | others {race : Race σ} {engine : Engine σ} (earlier : Interleaved copies id start race)
      (entries : Guarded.entries engine.store id = Guarded.entries race.engine.store id)
      (cleared : Guarded.cleared engine.store id = Guarded.cleared race.engine.store id) :
      Interleaved copies id start { race with engine }

section Order

variable [Repository σ] [Guarded σ] {copies : Nat → Alarm} {id : Uuid} {start : Engine σ}

/-- The changes of state alternate, and the history of the alarm has grown by them. -/
structure Counted (id : Uuid) (first : σ) (store : σ) (changes : List Event) : Prop where
  changes_eq : changes = alternating changes.length
  entries_eq : Guarded.entries store id = Guarded.entries first id + (changes.length + 1) / 2
  cleared_eq : Guarded.cleared store id = Guarded.entries first id + changes.length / 2

/-- The store takes a change of state only when it is the next in turn. -/
theorem Counted.effect {first before after : σ} {changes more : List Event}
    (h : Counted id first before changes) (heffect : Stage.Effect id before after more) :
    Counted id first after (changes ++ more) := by
  obtain ⟨hchanges, hentries, hcleared⟩ := h
  cases heffect with
  | none hentries' hcleared' =>
    rw [List.append_nil]
    exact ⟨hchanges, by omega, by omega⟩
  | fire hclosed hentries' hcleared' =>
    have heven : changes.length % 2 = 0 := by omega
    refine ⟨?_, ?_, ?_⟩
    · rw [List.length_append, List.length_singleton, alternating, if_pos heven, ← hchanges]
    · rw [List.length_append, List.length_singleton]
      omega
    · rw [List.length_append, List.length_singleton]
      omega
  | clear hopened hentries' hcleared' =>
    have hodd : ¬ changes.length % 2 = 0 := by omega
    have hall := hcleared' (by omega)
    refine ⟨?_, ?_, ?_⟩
    · rw [List.length_append, List.length_singleton, alternating, if_neg hodd, ← hchanges]
    · rw [List.length_append, List.length_singleton]
      omega
    · rw [List.length_append, List.length_singleton]
      omega

/-- Every run has done what belongs to its stage, and the store has counted the changes. -/
structure Orderly (id : Uuid) (start : Engine σ) (race : Race σ) : Prop where
  traced : ∀ i, (race.stages i).Traced (race.actsOf i)
  counted : Counted id start.store race.engine.store race.changes

theorem Orderly.step (h : Orderly id start race) (hid : (copies i).id = id)
    (result : Except AlarmError Valuation) (now : Instant) :
    Orderly id start (race.step copies i result now) := by
  obtain ⟨acts, stage, engine, hadvance⟩ :
      ∃ acts stage engine, (race.stages i).advance (copies i) result now race.engine =
        (acts, stage, engine) := ⟨_, _, _, rfl⟩
  rw [Race.step, hadvance]
  constructor
  · intro j
    rw [actsOf_append]
    by_cases hsame : i = j
    · subst hsame
      rw [if_pos rfl]
      show (Function.update race.stages i stage i).Traced _
      rw [Function.update_self]
      exact (h.traced i).advance hadvance
    · rw [if_neg hsame, List.append_nil]
      show (Function.update race.stages i stage j).Traced _
      rw [Function.update_of_ne (Ne.symm hsame)]
      exact h.traced j
  · have heffect := Stage.effect_advance hadvance
    rw [hid] at heffect
    rw [changes, List.filterMap_append, List.filterMap_map]
    exact h.counted.effect heffect

theorem Interleaved.orderly (hcopies : ∀ i, (copies i).id = id)
    (hstart : Guarded.cleared start.store id = Guarded.entries start.store id)
    (h : Interleaved copies id start race) : Orderly id start race := by
  induction h with
  | start =>
    refine ⟨fun _ => .evaluate, rfl, ?_, ?_⟩
    · simp [changes]
    · simpa [changes] using hstart
  | step earlier i result now ih => exact ih.step (hcopies i) result now
  | others earlier hentries hcleared ih =>
    obtain ⟨htraced, hchanges, hmade, hclosed⟩ := ih
    exact ⟨htraced, hchanges, hentries.trans hmade, hcleared.trans hclosed⟩

/-- Others are told of an event at most as often as the store took it. -/
theorem Orderly.tellings_le (h : Orderly id start race) (event : Event) (hevent : event ≠ .error) :
    race.tellings event ≤ race.changes.count event := by
  rw [← length_doers_changed, tellings]
  refine List.Subperm.length_le (List.subperm_ext_iff.mpr ?_)
  intro i _
  rw [count_doers, count_doers]
  exact (h.traced i).count_told_le hevent

/-- However runs of one alarm overlap, the changes of state that the store takes alternate, beginning
with firing; of changing the state and telling of it each run does both in this order, or the first, or
neither, and pushes nothing of which it does not tell; a run that is refused tells nobody, counts
nothing but the evaluation, and fails. So others are told of a firing at most as often as the history
has grown, and of a clearing at most as often as entries were cleared. -/
theorem alternates_and_tells_once (hcopies : ∀ i, (copies i).id = id)
    (hstart : Guarded.cleared start.store id = Guarded.entries start.store id)
    (h : Interleaved copies id start race) :
    (∀ k event, race.changes[k]? = some event → event = if k % 2 = 0 then .fire else .clear) ∧
    (∀ i event, event ≠ .error →
      (race.actsOf i).filter (fun act => act = .changed event ∨ act = .told event) <+:
        [.changed event, .told event]) ∧
    (∀ i event output, .pushed event output ∈ race.actsOf i → .told event ∈ race.actsOf i) ∧
    (∀ i event, .refused event ∈ race.actsOf i →
      (race.stages i = .finish .failed ∧ race.actsOf i = [.refused event]) ∨
      (race.stages i = .ended .failed ∧ race.actsOf i = [.refused event, .counted .evaluated])) ∧
    Guarded.entries start.store id + race.tellings .fire ≤ Guarded.entries race.engine.store id ∧
    Guarded.cleared start.store id + race.tellings .clear ≤ Guarded.cleared race.engine.store id := by
  have horderly := h.orderly hcopies hstart
  obtain ⟨hchanges, hentries, hcleared⟩ := horderly.counted
  obtain ⟨hfires, hclears⟩ := count_alternating race.changes.length
  rw [← hchanges] at hfires hclears
  have htoldFire := horderly.tellings_le .fire (by decide)
  have htoldClear := horderly.tellings_le .clear (by decide)
  refine ⟨?_, ?_, ?_, ?_, by omega, by omega⟩
  · intro k event hk
    rw [hchanges] at hk
    exact getElem?_alternating hk
  · intro i event hevent
    exact (horderly.traced i).prefix_changed_told hevent
  · intro i event output hpushed
    exact (horderly.traced i).told_of_pushed hpushed
  · intro i event hrefused
    exact (horderly.traced i).of_refused hrefused

end Order

/-- An alarm with one number for an identifier, and a flag. -/
def watched (fired : Bool) : Alarm :=
  { id := .ofNat 1, owner := "", name := "heat", info := "", message := "", group := "g",
    enabled := true, fired, rule := ⟨[], "", 1⟩, runInterval := .ofSeconds 60, lastRun := .epoch,
    createdAt := .epoch, updatedAt := .epoch, history := [], compiled := none }

/-- Two copies of the alarm from before it fired, and one from after. -/
def threeCopies (i : Nat) : Alarm := watched (i == 2)

def oneAlarm : Memory := { Memory.empty with alarms := [watched false] }

/-- Steps of the given runs, each with what its evaluation gave. -/
def steps (race : Race Memory) (order : List (Nat × Valuation)) : Race Memory :=
  order.foldl (fun race x => race.step threeCopies x.1 (.ok x.2) .epoch) race

theorem Interleaved.steps {start : Engine Memory} {race : Race Memory}
    (h : Interleaved threeCopies (.ofNat 1) start race) (order : List (Nat × Valuation)) :
    Interleaved threeCopies (.ofNat 1) start (race.steps order) := by
  induction order generalizing race with
  | nil => exact h
  | cons x rest ih => exact ih (h.step x.1 (.ok x.2) .epoch)

/-- The condition holds for the first two runs, and the second asks the store to fire after the first
did. It no longer holds for the third. -/
def overlapping : Race Memory :=
  let holds : Valuation := ⟨true, .empty⟩
  steps ⟨fun _ => .evaluate, .ofStore oneAlarm, []⟩
    [(0, holds), (1, holds), (0, holds), (1, holds), (1, holds), (0, holds), (0, holds), (2, .quiet),
      (2, .quiet), (2, .quiet)]

/-- The second run is refused; others are told once of the firing and once of the clearing. -/
theorem tells_once_when_overlapping :
    overlapping.log =
        [(0, .changed .fire), (1, .refused .fire), (1, .counted .evaluated), (0, .told .fire),
          (2, .changed .clear), (2, .told .clear)] ∧
      overlapping.stages 1 = .ended .failed ∧
      overlapping.tellings .fire ≤ Guarded.entries overlapping.engine.store (.ofNat 1) ∧
      overlapping.tellings .clear ≤ Guarded.cleared overlapping.engine.store (.ofNat 1) := by
  have hcopies : ∀ i, (threeCopies i).id = .ofNat 1 := fun _ => rfl
  have hclosed : Guarded.cleared (Engine.ofStore oneAlarm).store (.ofNat 1) =
      Guarded.entries (Engine.ofStore oneAlarm).store (.ofNat 1) := rfl
  have hinterleaved : Interleaved threeCopies (.ofNat 1) (.ofStore oneAlarm) overlapping :=
    Interleaved.start.steps _
  obtain ⟨-, -, -, hrefused, hfires, hclears⟩ :=
    alternates_and_tells_once hcopies hclosed hinterleaved
  have hlog : overlapping.log =
      [(0, .changed .fire), (1, .refused .fire), (1, .counted .evaluated), (0, .told .fire),
        (2, .changed .clear), (2, .told .clear)] := rfl
  have hacts : overlapping.actsOf 1 = [.refused .fire, .counted .evaluated] := by
    rw [actsOf, hlog]
    rfl
  refine ⟨hlog, ?_, Nat.le_trans (Nat.le_add_left _ _) hfires,
    Nat.le_trans (Nat.le_add_left _ _) hclears⟩
  rcases hrefused 1 .fire (by rw [hacts]; simp) with ⟨-, honly⟩ | ⟨hstage, -⟩
  · rw [hacts] at honly
    cases honly
  · exact hstage

end Race

end Vigil
