import Vigil.Proofs.Runner.Steps

/-!
# What a run does

On a store in memory, while the reply of the network depends on the request alone, what a run of an alarm
does is determined by little: the measurements, the record of the alarm, its outputs, and the network. It
changes that record, pushes to those outputs, and counts. Identifiers of entries, the times of earlier
pushes and what was sent before make no difference.
-/

namespace Vigil

/-- What becomes of a request depends on the request alone. -/
def Network.Steady (n : Network) : Prop :=
  ∀ i r, n.exchange i r = n.exchange 0 r

/-- The courier as if nothing had been sent. -/
def Courier.unsent (p : Courier) : Courier :=
  { p with sent := [] }

namespace Memory

variable {m : Memory} {id other : Uuid} {time : Instant} {outputs : List Output}

/-- The outputs once a push to one of them has been recorded. -/
def touched (time : Instant) (outputs : List Output) (id : Uuid) : List Output :=
  (touch id time outputs).getD outputs

/-- The store once pushes at one time have been recorded. -/
def pushed (m : Memory) (time : Instant) (ps : List Push) : Memory :=
  { m with
    outputs := ps.foldl (fun outputs p => touched time outputs p.outputId) m.outputs
    pushLog := m.pushLog ++ ps }

theorem touched_cons (time : Instant) (o : Output) (rest : List Output) (id : Uuid) :
    touched time (o :: rest) id =
      if o.id = id then { o with lastPushed := some time } :: rest
      else o :: touched time rest id := by
  unfold touched
  rw [touch]
  split
  · rfl
  · cases touch id time rest <;> rfl

/-- Pushes at one time may be recorded in any order. -/
theorem touched_comm (time : Instant) (outputs : List Output) (id other : Uuid) :
    touched time (touched time outputs id) other = touched time (touched time outputs other) id := by
  induction outputs with
  | nil => rfl
  | cons o rest ih =>
    rw [touched_cons, touched_cons]
    by_cases hid : o.id = id
    · by_cases hother : o.id = other
      · simp only [if_pos hid, if_pos hother, touched_cons]
      · simp only [if_pos hid, if_neg hother, touched_cons]
    · by_cases hother : o.id = other
      · simp only [if_neg hid, if_pos hother, touched_cons]
      · simp only [if_neg hid, if_neg hother, touched_cons, ih]

theorem isSome_touch (h : ∃ o ∈ outputs, o.id = id) (time : Instant) :
    (touch id time outputs).isSome = true := by
  induction outputs with
  | nil => simp at h
  | cons o rest ih =>
    rw [touch]
    split
    · rfl
    · rename_i hne
      obtain ⟨p, hp, hid⟩ := h
      rcases List.mem_cons.mp hp with rfl | hp
      · exact absurd hid hne
      · rw [Option.isSome_map]
        exact ih ⟨p, hp, hid⟩

theorem touch_eq_touched (h : ∃ o ∈ outputs, o.id = id) :
    touch id time outputs = some (touched time outputs id) := by
  obtain ⟨after, hafter⟩ := Option.isSome_iff_exists.mp (isSome_touch h time)
  rw [touched, hafter]
  rfl

end Memory

def PushOutcome.record (p : PushOutcome) (time : Instant) : Push :=
  ⟨p.outputId, p.success, p.message, time⟩

namespace Output

/-- The output as if nothing had been pushed to it. -/
def untouched (o : Output) : Output :=
  { o with lastPushed := none }

/-- The record of an attempt to push to an output. -/
def attempt (notice : Notice) (p : Courier) (time : Instant) (o : Output) : Push :=
  (PushOutcome.ofResult o.id (o.push notice p time time).1).record time

theorem outputId_attempt (notice : Notice) (p : Courier) (time : Instant) (o : Output) :
    (o.attempt notice p time).outputId = o.id :=
  PushOutcome.outputId_ofResult _ _

theorem map_untouched_touched (time : Instant) (outputs : List Output) (id : Uuid) :
    (Memory.touched time outputs id).map untouched = outputs.map untouched := by
  induction outputs with
  | nil => rfl
  | cons o rest ih =>
    rw [Memory.touched_cons]
    split
    · rfl
    · rw [List.map_cons, List.map_cons, ih]

theorem map_id_touched (time : Instant) (outputs : List Output) (id : Uuid) :
    (Memory.touched time outputs id).map Output.id = outputs.map Output.id := by
  have huntouched := congrArg (List.map Output.id) (map_untouched_touched time outputs id)
  rwa [List.map_map, List.map_map] at huntouched

theorem map_untouched_foldl_touched (time : Instant) (ps : List Push) (outputs : List Output) :
    (ps.foldl (fun outputs p => Memory.touched time outputs p.outputId) outputs).map untouched =
      outputs.map untouched := by
  induction ps generalizing outputs with
  | nil => rfl
  | cons p rest ih =>
    rw [List.foldl_cons, ih]
    exact map_untouched_touched time outputs p.outputId

/-- Records of pushes leave the identifiers of outputs as they are. -/
theorem map_id_pushed (m : Memory) (time : Instant) (ps : List Push) :
    (m.pushed time ps).outputs.map Output.id = m.outputs.map Output.id := by
  have huntouched := congrArg (List.map Output.id) (map_untouched_foldl_touched time ps m.outputs)
  rwa [List.map_map, List.map_map] at huntouched

end Output

/-- On a steady network what was sent before makes no difference. -/
theorem Network.Steady.send {n : Network} (h : n.Steady) (r : Request) :
    (n.send r).1 = (Network.send { n with sent := [] } r).1 :=
  h n.sent.length r

theorem Service.deliver_of_steady {n : Network} (h : n.Steady) (s : Service) (transaction text : String)
    (now : Instant) :
    (s.deliver n transaction text now).1 = (s.deliver { n with sent := [] } transaction text now).1 ∧
      { (s.deliver n transaction text now).2 with sent := [] } = { n with sent := [] } := by
  unfold deliver
  cases s.validate with
  | error cause => exact ⟨rfl, rfl⟩
  | ok =>
    cases s.checkMethod n.client with
    | error cause => exact ⟨rfl, rfl⟩
    | ok =>
      dsimp only
      cases n.client.form? (s.order transaction text now) with
      | none => exact ⟨rfl, rfl⟩
      | some r => exact ⟨congrArg (fun x => s.outcome x.reply) (h.send r), rfl⟩

theorem Output.push_of_steady {p : Courier} (h : p.Steady) (notice : Notice) (time : Instant)
    (o : Output) :
    (o.push notice p time time).1 = (o.push notice p.unsent time time).1 ∧
      (o.push notice p time time).2.unsent = p.unsent := by
  unfold push
  dsimp only [Courier.unsent]
  cases notice.message p.renderer (o.templates.get notice.event) with
  | error cause => exact ⟨rfl, rfl⟩
  | ok text =>
    obtain ⟨hresult, hunsent⟩ :=
      Service.deliver_of_steady h o.channel.service (o.transaction time) text time
    exact ⟨hresult, congrArg (fun n => Courier.mk n p.renderer) hunsent⟩

theorem Courier.steady_of_unsent {p p' : Courier} (h : p.Steady) (hsame : p'.unsent = p.unsent) :
    p'.Steady := by
  have hsteady : p.unsent.Steady := h
  rw [← hsame] at hsteady
  exact hsteady

namespace Dispatch

theorem record_eq {m : Memory} {outcome : PushOutcome} (h : outcome.outputId ∈ m.outputs.map Output.id)
    (time : Instant) : record m outcome time = m.pushed time [outcome.record time] := by
  have hmark : Repository.markPushed m outcome.outputId outcome.success outcome.message time =
      .ok (outcome.record time, m.pushed time [outcome.record time]) := by
    show m.markPushed _ _ _ _ = _
    rw [Memory.markPushed, Memory.touch_eq_touched (List.mem_map.mp h)]
    rfl
  rw [record, hmark]

/-- Pushing to outputs that are there records one attempt for each. -/
theorem pushAll_of_steady (notice : Notice) (time : Instant) (outputs : List Output) {m : Memory}
    {p : Courier} (h : p.Steady) (hthere : ∀ o ∈ outputs, o.id ∈ m.outputs.map Output.id) :
    ∃ p', (pushAll notice time time outputs (m, p)).2 =
      (m.pushed time (outputs.map (Output.attempt notice p.unsent time)), p') ∧ p'.unsent = p.unsent := by
  induction outputs generalizing m p with
  | nil => exact ⟨p, by simp [pushAll, Memory.pushed], rfl⟩
  | cons o rest ih =>
    obtain ⟨hresult, hunsent⟩ := o.push_of_steady h notice time
    have hrecord : record m (PushOutcome.ofResult o.id (o.push notice p time time).1) time =
        m.pushed time [o.attempt notice p.unsent time] := by
      rw [hresult]
      refine record_eq ?_ time
      rw [PushOutcome.outputId_ofResult]
      exact hthere o List.mem_cons_self
    obtain ⟨p', hpush, hp'⟩ := ih (m := m.pushed time [o.attempt notice p.unsent time])
      (Courier.steady_of_unsent h hunsent) fun q hq => by
        rw [Output.map_id_pushed]
        exact hthere q (List.mem_cons_of_mem _ hq)
    refine ⟨p', ?_, hp'.trans hunsent⟩
    show (pushAll notice time time rest (record m (.ofResult o.id (o.push notice p time time).1) time,
      (o.push notice p time time).2)).2 = _
    rw [hrecord, hpush, hunsent]
    simp [Memory.pushed]

end Dispatch

namespace Engine

/-- The attempts to push to outputs on an occasion. -/
def attempts (e : Engine Memory) (c : Occasion) : List Push :=
  (e.store.outputs.filter fun o =>
    o.alarmId = c.alarm.id && (Selection.ofEvent c.event).admits o).map
      (Output.attempt c.notice e.network.unsent c.time)

/-- Telling of an event records the attempts, and nothing else. -/
theorem tell_of_steady {e : Engine Memory} (h : e.network.Steady) (a : Alarm) (event : Event)
    (values : Named Float) (error : Option String) (now : Instant) :
    ∃ p, e.tell a event values error now =
      { e with store := e.store.pushed now (e.attempts ⟨a, event, values, error, now⟩), network := p } ∧
        p.unsent = e.network.unsent := by
  obtain ⟨p, hpush, hunsent⟩ := Dispatch.pushAll_of_steady
    (Occasion.notice ⟨a, event, values, error, now⟩) now (e.store.outputs.filter fun o => o.alarmId = a.id && (Selection.ofEvent event).admits o)
    (m := e.store) h fun o ho => List.mem_map_of_mem (List.mem_of_mem_filter ho)
  refine ⟨p, ?_, hunsent⟩
  show { e with
    store := (Dispatch.pushAll _ now now _ (e.store, e.network)).2.1
    network := (Dispatch.pushAll _ now now _ (e.store, e.network)).2.2 } = _
  rw [hpush]
  rfl

end Engine

namespace Memory

variable {m : Memory} {a b : Alarm} {id : Uuid}

/-- The alarms, apart from the identifiers of their entries. -/
def records (m : Memory) : List Alarm :=
  m.alarms.map Alarm.unnumbered

/-- The record of an alarm, apart from the identifiers of its entries. -/
def record (m : Memory) (id : Uuid) : Option Alarm :=
  m.records.find? fun a => a.id = id

/-- Put a record in place of the one of its identifier. -/
def putRecord (a : Alarm) (records : List Alarm) : List Alarm :=
  records.map fun b => if b.id = a.id then a else b

theorem record_of_stored (h : m.stored id = .ok a) : m.record id = some a.unnumbered := by
  rw [stored_eq_find?] at h
  rw [record, records, List.find?_map]
  split at h
  · rename_i hfound
    cases h
    exact congrArg (Option.map Alarm.unnumbered) hfound
  · cases h

theorem id_of_record (h : m.record id = some a) : a.id = id := by
  simpa using List.find?_some h

theorem record_of_unknown (h : ∀ a ∈ m.alarms, a.id ≠ id) : m.record id = none := by
  rw [record, records, List.find?_map, Option.map_eq_none_iff, List.find?_eq_none]
  intro a ha hid
  exact h a ha (of_decide_eq_true hid)

theorem records_replace (m : Memory) (a : Alarm) :
    (m.replace a).records = putRecord a.unnumbered m.records := by
  rw [records, replace_alarms, records, putRecord, List.map_map, List.map_map]
  refine List.map_congr_left ?_
  intro b _
  simp only [Function.comp_apply, Alarm.id_unnumbered]
  exact apply_ite Alarm.unnumbered _ a b

theorem putRecord_of_unknown {records : List Alarm} (h : ∀ b ∈ records, b.id ≠ a.id) :
    putRecord a records = records := by
  refine (List.map_congr_left ?_).trans (List.map_id _)
  intro b hb
  exact if_neg (h b hb)

/-- Of two records of one identifier the later stays. -/
theorem putRecord_putRecord (h : a.id = b.id) (records : List Alarm) :
    putRecord a (putRecord b records) = putRecord a records := by
  rw [putRecord, putRecord, putRecord, List.map_map]
  refine List.map_congr_left ?_
  intro c _
  rw [Function.comp_apply, h]
  by_cases hc : c.id = b.id
  · rw [if_pos hc, if_pos rfl, if_pos hc]
  · rw [if_neg hc, if_neg hc]

/-- Records of different identifiers may be put in any order. -/
theorem putRecord_comm (h : a.id ≠ b.id) (records : List Alarm) :
    putRecord a (putRecord b records) = putRecord b (putRecord a records) := by
  simp only [putRecord, List.map_map]
  refine List.map_congr_left ?_
  intro c _
  simp only [Function.comp_apply]
  by_cases ha : c.id = a.id
  · simp only [ha, if_true, h, if_false]
  · by_cases hb : c.id = b.id
    · simp only [hb, if_true, Ne.symm h, if_false]
    · simp only [ha, hb, if_false]

theorem map_id_putRecord (a : Alarm) (records : List Alarm) :
    (putRecord a records).map Alarm.id = records.map Alarm.id := by
  rw [putRecord, List.map_map]
  exact List.map_congr_left fun b _ => id_ite a b

end Memory

namespace Alarm

/-- The alarm that firing makes, unless an entry is open. -/
def opened? (a : Alarm) (value : String) (time : Instant) : Option Alarm :=
  if a.openEntry?.isNone then some (a.opened (.ofNat 0) value time) else none

/-- The alarm that clearing makes, unless no entry is open. -/
def closed? (a : Alarm) (time : Instant) : Option Alarm :=
  if a.openEntry?.isSome then some (a.closed time) else none

end Alarm

namespace Memory

variable {m after : Memory} {a b : Alarm} {id : Uuid} {time : Instant} {value : String}

/-- The second store has a record in place of that of an alarm, and is otherwise the first. -/
structure Alters (m after : Memory) (id : Uuid) (record : Option Alarm) : Prop where
  record : after.record id = record
  records : ∀ c : Alarm, c.id = id → putRecord c after.records = putRecord c m.records
  outputs : after.outputs = m.outputs
  pushLog : after.pushLog = m.pushLog
  devices : after.devices = m.devices

theorem Alters.refl (m : Memory) (id : Uuid) : m.Alters m id (m.record id) :=
  ⟨rfl, fun _ _ => rfl, rfl, rfl, rfl⟩

theorem alters_replace (h : m.stored a.id = .ok b) : m.Alters (m.replace a) a.id a.unnumbered where
  record := record_of_stored (stored_replace_self h)
  records c hc := by
    rw [records_replace]
    exact putRecord_putRecord (b := a.unnumbered) hc _
  outputs := rfl
  pushLog := rfl
  devices := rfl

/-- Firing is refused where the record has an open entry, or is not there. -/
theorem alters_fire (m : Memory) (id : Uuid) (value : String) (time : Instant) :
    (∃ cause, m.fire id value time = .error cause ∧
      (m.record id).bind (·.opened? value time) = none) ∨
    ∃ entry after c, m.fire id value time = .ok (entry, after) ∧
      (m.record id).bind (·.opened? value time) = some c ∧ m.Alters after id c := by
  rcases stored_cases m id with ⟨a, hstored⟩ | ⟨-, hnone⟩
  · obtain rfl := (mem_of_stored hstored).2
    by_cases hopen : a.HasOpen
    · obtain ⟨e, he⟩ := Alarm.hasOpen_iff.mp (Alarm.hasOpen_unnumbered.mpr hopen)
      refine .inl ⟨_, fire_of_hasOpen hstored hopen value time, ?_⟩
      rw [record_of_stored hstored, Option.bind_some, Alarm.opened?, he]
      rfl
    · have hclosed := Alarm.openEntry?_eq_none_iff.mpr (mt Alarm.hasOpen_unnumbered.mp hopen)
      refine .inr ⟨_, _, a.unnumbered.opened (.ofNat 0) value time,
        fire_of_not_hasOpen hstored hopen value time, ?_, ?_⟩
      · rw [record_of_stored hstored, Option.bind_some, Alarm.opened?, hclosed]
        rfl
      · rw [← Alarm.unnumbered_opened (.ofNat m.entriesMade)]
        have halters := alters_replace (a := a.opened (.ofNat m.entriesMade) value time) hstored
        exact ⟨halters.record, halters.records, rfl, rfl, rfl⟩
  · refine .inl ⟨_, fire_of_unknown hnone value time, ?_⟩
    rw [record_of_unknown hnone]
    rfl

/-- Clearing is refused where the record has no open entry, or is not there. -/
theorem alters_clear (m : Memory) (id : Uuid) (time : Instant) :
    (∃ cause, m.clear id time = .error cause ∧ (m.record id).bind (·.closed? time) = none) ∨
    ∃ entry after c, m.clear id time = .ok (entry, after) ∧
      (m.record id).bind (·.closed? time) = some c ∧ m.Alters after id c := by
  rcases stored_cases m id with ⟨a, hstored⟩ | ⟨-, hnone⟩
  · obtain rfl := (mem_of_stored hstored).2
    by_cases hopen : a.HasOpen
    · obtain ⟨e, he⟩ := Alarm.hasOpen_iff.mp (Alarm.hasOpen_unnumbered.mpr hopen)
      obtain ⟨entry, hclear⟩ := clear_of_hasOpen hstored hopen time
      refine .inr ⟨_, _, a.unnumbered.closed time, hclear, ?_, ?_⟩
      · rw [record_of_stored hstored, Option.bind_some, Alarm.closed?, he]
        rfl
      · rw [← Alarm.unnumbered_closed]
        exact alters_replace (a := a.closed time) hstored
    · have hclosed := Alarm.openEntry?_eq_none_iff.mpr (mt Alarm.hasOpen_unnumbered.mp hopen)
      refine .inl ⟨_, clear_of_not_hasOpen hstored hopen time, ?_⟩
      rw [record_of_stored hstored, Option.bind_some, Alarm.closed?, hclosed]
      rfl
  · refine .inl ⟨_, clear_of_unknown hnone time, ?_⟩
    rw [record_of_unknown hnone]
    rfl

end Memory

/-- What a run does: what happened, the record of the alarm before the run is noted, and the attempts to
push. -/
structure Deed where
  outcome : Outcome
  record : Option Alarm
  pushes : List Push

namespace Engine

/-- What a run of an alarm does about the result of an evaluation. -/
def deedOf (e : Engine Memory) (a : Alarm) (now : Instant) : Except AlarmError Valuation → Deed
  | .error cause =>
    if cause.isSoft then ⟨.skipped, e.store.record a.id, []⟩
    else if cause.isUserFacing then
      ⟨.errored, e.store.record a.id, e.attempts ⟨a, .error, .empty, some cause.message, now⟩⟩
    else ⟨.failed, e.store.record a.id, []⟩
  | .ok v =>
    match a.state.transition v.fired with
    | .stay => ⟨.unchanged, e.store.record a.id, []⟩
    | .fire =>
      match (e.store.record a.id).bind (·.opened? (Valuation.valuesText v.values) now) with
      | none => ⟨.failed, e.store.record a.id, []⟩
      | some after => ⟨.fired, after, e.attempts ⟨a, .fire, v.values, none, now⟩⟩
    | .clear =>
      match (e.store.record a.id).bind (·.closed? now) with
      | none => ⟨.failed, e.store.record a.id, []⟩
      | some after => ⟨.cleared, after, e.attempts ⟨a, .clear, v.values, none, now⟩⟩

def deed (e : Engine Memory) (r : Reader) (a : Alarm) (now : Instant) : Deed :=
  e.deedOf a now (a.valuate r e.store now)

/-- The engine has done to an alarm what a deed says, but for noting and counting the run. -/
structure Reacted (e e' : Engine Memory) (id : Uuid) (now : Instant) (d : Deed) : Prop where
  record : e'.store.record id = d.record
  records : ∀ c : Alarm, c.id = id →
    Memory.putRecord c e'.store.records = Memory.putRecord c e.store.records
  outputs : e'.store.outputs = (e.store.pushed now d.pushes).outputs
  pushLog : e'.store.pushLog = e.store.pushLog ++ d.pushes
  devices : e'.store.devices = e.store.devices
  unsent : e'.network.unsent = e.network.unsent
  metrics : e'.metrics = d.outcome.counters.foldl (fun m c => m.increase c) e.metrics

section

variable {e e' : Engine Memory} {a : Alarm} {now : Instant} {outcome : Outcome}

/-- Doing nothing is the deed of an outcome that is not counted. -/
theorem reacted_nothing (e : Engine Memory) (id : Uuid) (now : Instant) (h : outcome.counters = []) :
    e.Reacted e id now ⟨outcome, e.store.record id, []⟩ :=
  ⟨rfl, fun _ _ => rfl, rfl, (List.append_nil _).symm, rfl, rfl, by rw [h]; rfl⟩

theorem attempts_of_alters {after : Memory} {id : Uuid} {record : Option Alarm}
    (h : e.store.Alters after id record) (c : Occasion) :
    { e with store := after }.attempts c = e.attempts c := by
  rw [attempts, attempts, h.outputs]

/-- A change of the alarm, the attempts to tell of it, and two counts. -/
theorem reacted_of_told {after : Memory} {record : Option Alarm} {c : Counter}
    (h : e.network.Steady) (hafter : e.store.Alters after a.id record)
    (hcounters : outcome.counters = [c, .notified]) (event : Event) (values : Named Float)
    (error : Option String) (now : Instant) :
    e.Reacted ((({ e with store := after }.tell a event values error now).count c).count .notified)
      a.id now ⟨outcome, record, e.attempts ⟨a, event, values, error, now⟩⟩ := by
  obtain ⟨p, htell, hunsent⟩ :=
    tell_of_steady (e := { e with store := after }) h a event values error now
  rw [htell, attempts_of_alters hafter]
  constructor
  · exact hafter.record
  · exact hafter.records
  · show List.foldl _ after.outputs _ = _
    rw [hafter.outputs]
    rfl
  · show after.pushLog ++ _ = _
    rw [hafter.pushLog]
  · exact hafter.devices
  · exact hunsent
  · rw [hcounters]
    rfl

theorem reacted_apply (h : e.network.Steady) (a : Alarm) (v : Valuation) (now : Instant) :
    (e.apply a v now).1 = (e.deedOf a now (.ok v)).outcome ∧
      e.Reacted (e.apply a v now).2 a.id now (e.deedOf a now (.ok v)) := by
  cases hmove : a.state.transition v.fired with
  | stay =>
    simp only [apply_eq, deedOf, hmove]
    exact ⟨trivial, reacted_nothing e a.id now rfl⟩
  | fire =>
    rcases Memory.alters_fire e.store a.id (Valuation.valuesText v.values) now with
      ⟨cause, hfire, hrecord⟩ | ⟨entry, after, b, hfire, hrecord, halters⟩
    · replace hfire : Repository.fire e.store a.id (Valuation.valuesText v.values) now =
          .error cause := hfire
      simp only [apply_eq, deedOf, hmove, hfire, hrecord]
      exact ⟨trivial, reacted_nothing e a.id now rfl⟩
    · replace hfire : Repository.fire e.store a.id (Valuation.valuesText v.values) now =
          .ok (entry, after) := hfire
      simp only [apply_eq, deedOf, hmove, hfire, hrecord]
      exact ⟨trivial, reacted_of_told h halters rfl .fire v.values none now⟩
  | clear =>
    rcases Memory.alters_clear e.store a.id now with
      ⟨cause, hclear, hrecord⟩ | ⟨entry, after, b, hclear, hrecord, halters⟩
    · replace hclear : Repository.clear e.store a.id now = .error cause := hclear
      simp only [apply_eq, deedOf, hmove, hclear, hrecord]
      exact ⟨trivial, reacted_nothing e a.id now rfl⟩
    · replace hclear : Repository.clear e.store a.id now = .ok (entry, after) := hclear
      simp only [apply_eq, deedOf, hmove, hclear, hrecord]
      exact ⟨trivial, reacted_of_told h halters rfl .clear v.values none now⟩

theorem reacted_react (h : e.network.Steady) (a : Alarm) (now : Instant)
    (result : Except AlarmError Valuation) :
    (e.react a now result).1 = (e.deedOf a now result).outcome ∧
      e.Reacted (e.react a now result).2 a.id now (e.deedOf a now result) := by
  cases result with
  | ok v => exact reacted_apply h a v now
  | error cause =>
    unfold react deedOf
    dsimp only
    split
    · exact ⟨rfl, reacted_nothing e a.id now rfl⟩
    · split
      · exact ⟨rfl, reacted_of_told h (.refl e.store a.id) rfl .error .empty _ now⟩
      · exact ⟨rfl, reacted_nothing e a.id now rfl⟩

end

end Engine

namespace Memory

/-- Note a run in the record of an alarm. -/
def putRun (now : Instant) (record : Option Alarm) (records : List Alarm) : List Alarm :=
  match record with
  | some a => putRecord (a.ranAt now) records
  | none => records

end Memory

/-- What stands after runs, apart from the log of pushes: the records, the outputs and the counters. -/
structure Standing where
  records : List Alarm
  outputs : List Output
  metrics : Metrics

def Standing.after (now : Instant) (s : Standing) (d : Deed) : Standing where
  records := Memory.putRun now d.record s.records
  outputs := d.pushes.foldl (fun outputs p => Memory.touched now outputs p.outputId) s.outputs
  metrics := (d.outcome.counters ++ [Counter.evaluated]).foldl (fun m c => m.increase c) s.metrics

namespace Engine

def standing (e : Engine Memory) : Standing :=
  ⟨e.store.records, e.store.outputs, e.metrics⟩

/-- The engine has run an alarm, with a deed. -/
structure Ran (e e' : Engine Memory) (id : Uuid) (now : Instant) (d : Deed) : Prop where
  record : e'.store.record id = d.record.map (·.ranAt now)
  standing : e'.standing = e.standing.after now d
  pushLog : e'.store.pushLog = e.store.pushLog ++ d.pushes
  devices : e'.store.devices = e.store.devices
  unsent : e'.network.unsent = e.network.unsent

section

variable {e e' : Engine Memory} {a : Alarm} {now : Instant} {d : Deed}

theorem markRun_eq (e : Engine Memory) (id : Uuid) (now : Instant) :
    ∃ m, e.markRun id now = { e with store := m } ∧
      m.record id = (e.store.record id).map (·.ranAt now) ∧
      m.records = Memory.putRun now (e.store.record id) e.store.records ∧
      m.outputs = e.store.outputs ∧ m.pushLog = e.store.pushLog ∧ m.devices = e.store.devices := by
  rcases Memory.stored_cases e.store id with ⟨a, hstored⟩ | ⟨-, hnone⟩
  · obtain rfl := (Memory.mem_of_stored hstored).2
    refine ⟨_, markRun_of_stored hstored now, ?_, ?_, rfl, rfl, rfl⟩
    · rw [Memory.record_of_stored hstored]
      exact Memory.record_of_stored (Memory.stored_replace_self (a := a.ranAt now) hstored)
    · rw [Memory.record_of_stored hstored, Memory.records_replace]
      rfl
  · refine ⟨e.store, ?_, ?_, ?_, rfl, rfl, rfl⟩
    · have hmark : Repository.markRun e.store id now = .error (.notFound (.alarm id)) :=
        Memory.markRun_of_unknown hnone now
      rw [markRun, hmark]
    · rw [Memory.record_of_unknown hnone]
      rfl
    · rw [Memory.record_of_unknown hnone]
      rfl

/-- A reaction moves no record, and without a record changes none. -/
theorem Reacted.putRun (h : e.Reacted e' a.id now d) :
    Memory.putRun now d.record e'.store.records = Memory.putRun now d.record e.store.records := by
  cases hrecord : d.record with
  | some b =>
    have hid : b.id = a.id := Memory.id_of_record (h.record.trans hrecord)
    exact h.records (b.ranAt now) hid
  | none =>
    have hids : e'.store.records.map Alarm.id = e.store.records.map Alarm.id := by
      rw [← Memory.map_id_putRecord a, h.records a rfl, Memory.map_id_putRecord]
    have hunknown : ∀ b ∈ e'.store.records, b.id ≠ a.id := by
      intro b hb hid
      exact List.find?_eq_none.mp (h.record.trans hrecord) b hb (decide_eq_true hid)
    have hunknown' : ∀ b ∈ e.store.records, b.id ≠ a.id := by
      intro b hb hid
      have hmem : a.id ∈ e'.store.records.map Alarm.id := by
        rw [hids, ← hid]
        exact List.mem_map_of_mem hb
      obtain ⟨c, hc, hcid⟩ := List.mem_map.mp hmem
      exact hunknown c hc hcid
    have hsame := h.records a rfl
    rwa [Memory.putRecord_of_unknown hunknown, Memory.putRecord_of_unknown hunknown'] at hsame

/-- What a run does, while replies depend on requests alone. -/
theorem ran_of_steady (h : e.network.Steady) (r : Reader) (a : Alarm) (now : Instant) :
    (e.run r a now).1 = (e.deed r a now).outcome ∧
      e.Ran (e.run r a now).2 a.id now (e.deed r a now) := by
  obtain ⟨houtcome, hreacted⟩ := reacted_react h a now (a.valuate r e.store now)
  refine ⟨houtcome, ?_⟩
  change e.Ran (((e.react a now (a.valuate r e.store now)).2.count .evaluated).markRun a.id now)
    a.id now _
  unfold deed
  generalize (e.react a now (a.valuate r e.store now)).2 = e' at hreacted ⊢
  generalize e.deedOf a now (a.valuate r e.store now) = d at hreacted ⊢
  obtain ⟨m, hmark, hrecord, hrecords, houtputs, hpushLog, hdevices⟩ :=
    markRun_eq (e'.count .evaluated) a.id now
  rw [hmark]
  refine ⟨hrecord.trans (congrArg (Option.map _) hreacted.record), ?_,
    hpushLog.trans hreacted.pushLog, hdevices.trans hreacted.devices, hreacted.unsent⟩
  show Standing.mk m.records m.outputs (e'.metrics.increase .evaluated) = _
  unfold Standing.after
  congr 1
  · exact hrecords.trans ((congrArg (Memory.putRun now · _) hreacted.record).trans hreacted.putRun)
  · exact houtputs.trans hreacted.outputs
  · rw [hreacted.metrics, List.foldl_append]
    rfl

end

end Engine

end Vigil
