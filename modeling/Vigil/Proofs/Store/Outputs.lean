import Vigil.Proofs.Store.Readback

/-!
# Outputs in two stores

The store in tables joins each output with the channel that is kept under its identifier, and refuses a
channel or an output whose identifier is taken. The store in memory keeps each output with the channel
that it brought, puts a channel in place of the one with its identifier, and takes every output of a
known alarm. Until a request meets such a difference both stores keep the same and answer alike; the
request that meets one is answered differently.
-/

namespace Vigil

/-- What a store is asked about channels and outputs. -/
inductive OutputRequest where
  | createChannel (c : Channel)
  | createOutput (o : Output)
  | markPushed (id : Uuid) (success : Bool) (message : String) (time : Instant)
  | outputs (alarmId : Uuid) (s : Selection)
  | pushes (id : Uuid)

/-- What a store answers. -/
inductive OutputAnswer where
  | channel (c : Channel)
  | outputs (os : List Output)
  | pushes (ps : List Push)

/-- The answers are the same, or both requests fail with one kind of failure. -/
def OutputAnswer.Alike : Except AlarmError OutputAnswer → Except AlarmError OutputAnswer → Prop
  | .ok x, .ok y => x = y
  | .error e, .error f => e.Alike f
  | _, _ => False

namespace OutputRequest

section

variable {σ : Type} [Repository σ]

def ask (store : σ) : OutputRequest → Except AlarmError (OutputAnswer × σ)
  | createChannel c => (Repository.createChannel store c).map fun after => (.channel c, after)
  | createOutput o => (Repository.createOutput store o).map fun after => (.outputs [o], after)
  | markPushed id success message time =>
    (Repository.markPushed store id success message time).map fun r => (.pushes [r.1], r.2)
  | outputs alarmId s => (Repository.outputs store alarmId s).map fun os => (.outputs os, store)
  | pushes id => (Repository.pushes store id).map fun ps => (.pushes ps, store)

/-- The store that a request leaves. A request that fails changes nothing. -/
def left (store : σ) (r : OutputRequest) : σ :=
  match ask store r with
  | .ok (_, after) => after
  | .error _ => store

def answers (store : σ) : List OutputRequest → List (Except AlarmError OutputAnswer)
  | [] => []
  | r :: rest => (ask store r).map Prod.fst :: answers (left store r) rest

theorem left_of_ok {store after : σ} {r : OutputRequest} {x : OutputAnswer}
    (h : ask store r = .ok (x, after)) : left store r = after := by
  rw [left, h]

theorem left_of_error {store : σ} {r : OutputRequest} {cause : AlarmError}
    (h : ask store r = .error cause) : left store r = store := by
  rw [left, h]

end

/-- The times of a request are on whole milliseconds, and what is counted in a service fits into its
type. -/
def Regular : OutputRequest → Prop
  | createChannel c => c.service.Fits
  | createOutput o => ∀ time ∈ o.lastPushed, time.OnMillis
  | markPushed _ _ _ time => time.OnMillis
  | outputs _ _ | pushes _ => True

/-- The request meets a difference of the stores: it creates a channel or an output whose identifier is
taken, or it asks for an output that brought a channel other than the one that is kept. -/
def Parts (m : Memory) : OutputRequest → Prop
  | createChannel c => ∃ d ∈ m.channels, d.id = c.id
  | createOutput o =>
    m.Knows o.alarmId ∧ (∃ c ∈ m.channels, c.id = o.channel.id) ∧ ∃ p ∈ m.outputs, p.id = o.id
  | outputs alarmId s =>
    ∃ o ∈ m.outputs, o.alarmId = alarmId ∧ s.admits o = true ∧ o.channel ∉ m.channels
  | markPushed _ _ _ _ | pushes _ => False

end OutputRequest

open OutputRequest (ask left answers left_of_ok left_of_error)

theorem map_eq_self_iff {α : Type} {change : α → α} {as : List α} :
    as.map change = as ↔ ∀ a ∈ as, change a = a := by
  conv_lhs => rw [← List.map_id as, List.map_map]
  exact List.map_inj_left

namespace Memory

variable {m : Memory} {os : List Output} {id : Uuid}

theorem touch_eq_none (h : ∀ o ∈ os, o.id ≠ id) (time : Instant) : touch id time os = none := by
  induction os with
  | nil => rfl
  | cons o rest ih =>
    have hrest := ih fun p hp => h p (List.mem_cons_of_mem _ hp)
    rw [touch, if_neg (h o List.mem_cons_self), hrest]
    rfl

/-- Where identifiers are unique, all outputs with an identifier are the first. -/
theorem touch_eq_map (hids : (os.map Output.id).Nodup) (h : ∃ o ∈ os, o.id = id) (time : Instant) :
    touch id time os =
      some (os.map fun o => if o.id = id then { o with lastPushed := some time } else o) := by
  induction os with
  | nil =>
    obtain ⟨o, ho, -⟩ := h
    cases ho
  | cons o rest ih =>
    rw [List.map_cons, List.nodup_cons] at hids
    by_cases hid : o.id = id
    · have hrest : (rest.map fun p => if p.id = id then { p with lastPushed := some time } else p) =
          rest := by
        refine map_eq_self_iff.mpr ?_
        intro p hp
        refine if_neg fun hpid => hids.1 ?_
        rw [hid, ← hpid]
        exact List.mem_map_of_mem hp
      rw [touch, if_pos hid, List.map_cons, if_pos hid, hrest]
    · have hmem : ∃ p ∈ rest, p.id = id := by
        obtain ⟨p, hp, hpid⟩ := h
        rcases List.mem_cons.mp hp with rfl | hp
        · exact absurd hpid hid
        · exact ⟨p, hp, hpid⟩
      rw [touch, if_neg hid, ih hids.2 hmem, List.map_cons, if_neg hid]
      rfl

theorem createOutput_of_unknown {o : Output} (h : ¬ m.Knows o.alarmId) :
    m.createOutput o = .error (.notFound (.alarm o.alarmId)) := by
  rw [createOutput, stored_of_forall_ne fun a ha hid => h ⟨a, ha, hid⟩]
  rfl

theorem createOutput_of_known {o : Output} (h : m.Knows o.alarmId) :
    m.createOutput o =
      if ∃ c ∈ m.channels, c.id = o.channel.id then .ok { m with outputs := m.outputs ++ [o] }
      else .error (.notFound (.channel o.channel.id)) := by
  obtain ⟨a, hstored⟩ := h.stored
  have hany : (m.channels.any fun c => c.id = o.channel.id) = true ↔
      ∃ c ∈ m.channels, c.id = o.channel.id := by
    rw [List.any_eq_true]
    simp only [decide_eq_true_iff]
  rw [createOutput, hstored]
  show (if (m.channels.any fun c => c.id = o.channel.id) = true then _ else _) = _
  simp only [hany]
  rfl

/-- What the memory holds apart from histories. -/
def noted (m : Memory) : Written :=
  ⟨m.alarms, [], m.channels, m.outputs, m.pushLog⟩

end Memory

theorem Output.kept_channel {o : Output} (h : ∀ time ∈ o.lastPushed, time.OnMillis) :
    o.kept o.channel = o := by
  have hpushed : o.lastPushed.map Instant.floored = o.lastPushed := by
    cases hlast : o.lastPushed with
    | none => rfl
    | some time => rw [Option.map_some, (h time hlast).floored_eq]
  rw [kept, hpushed]

theorem Push.kept_eq {p : Push} (h : p.timestamp.OnMillis) : p.kept = p := by
  rw [kept, h.floored_eq]

/-- The tables hold the rows of what the memory holds, in which outputs have identifiers of their own
and times are on whole milliseconds. -/
structure Beside (m : Memory) (t : Tables) : Prop where
  records : t.Records m.noted
  outputIds : (m.outputs.map Output.id).Nodup
  pushed : ∀ o ∈ m.outputs, ∀ time ∈ o.lastPushed, time.OnMillis
  stamped : ∀ p ∈ m.pushLog, p.timestamp.OnMillis

/-- What a request does to two stores beside each other. -/
structure Met (m : Memory) (t : Tables) (r : OutputRequest) : Prop where
  alike_iff : OutputAnswer.Alike ((ask m r).map Prod.fst) ((ask t r).map Prod.fst) ↔ ¬ r.Parts m
  beside : ¬ r.Parts m → Beside (left m r) (left t r)

section

variable {m m' : Memory} {t t' : Tables} {r : OutputRequest} {x : OutputAnswer} {e : AlarmError}

theorem met_of_ok (hm : ask m r = .ok (x, m')) (ht : ask t r = .ok (x, t')) (hsame : ¬ r.Parts m)
    (hbeside : Beside m' t') : Met m t r := by
  constructor
  · rw [hm, ht]
    exact ⟨fun _ => hsame, fun _ => rfl⟩
  · intro _
    rw [left_of_ok hm, left_of_ok ht]
    exact hbeside

theorem met_of_error (h : Beside m t) (hm : ask m r = .error e) (ht : ask t r = .error e)
    (hsame : ¬ r.Parts m) : Met m t r := by
  constructor
  · rw [hm, ht]
    exact ⟨fun _ => hsame, fun _ => .inl rfl⟩
  · intro _
    rw [left_of_error hm, left_of_error ht]
    exact h

/-- A request that only the tables refuse parts the stores. -/
theorem met_of_refused (hm : ask m r = .ok (x, m')) (ht : ask t r = .error e) (hparts : r.Parts m) :
    Met m t r := by
  constructor
  · rw [hm, ht]
    exact ⟨fun h => h.elim, fun h => absurd hparts h⟩
  · exact fun h => absurd hparts h

end

namespace Beside

variable {m : Memory} {t t' : Tables} {id : Uuid}

theorem lacksAlarm_iff (h : Beside m t) : (!t.hasAlarm id) = true ↔ ¬ m.Knows id := by
  rw [Bool.not_eq_true', ← Bool.not_eq_true, Tables.hasAlarm, h.records.alarms]
  exact not_congr (any_rows_iff AlarmRow.ofAlarm AlarmRow.id Alarm.id (fun _ => rfl) m.alarms id)

theorem lacksChannel_iff (h : Beside m t) :
    (!t.channels.any fun r => r.id = id.text) = true ↔ ¬ ∃ c ∈ m.channels, c.id = id := by
  rw [Bool.not_eq_true', ← Bool.not_eq_true]
  exact not_congr (h.records.any_channel_iff id)

theorem any_output_iff (h : Beside m t) :
    t.outputs.any (fun r => r.id = id.text) = true ↔ ∃ o ∈ m.outputs, o.id = id := by
  rw [h.records.outputs]
  exact any_rows_iff OutputRow.ofOutput OutputRow.id Output.id (fun _ => rfl) m.outputs id

theorem lacksOutput_iff (h : Beside m t) :
    (!t.outputs.any fun r => r.id = id.text) = true ↔ ¬ ∃ o ∈ m.outputs, o.id = id := by
  rw [Bool.not_eq_true', ← Bool.not_eq_true]
  exact not_congr h.any_output_iff

/-- The tables give an output back as it was given just when it brought the channel that is kept. -/
theorem restored_eq_iff (h : Beside m t) {o : Output} (ho : o ∈ m.outputs) :
    m.noted.restored o = o ↔ o.channel ∈ m.channels := by
  constructor
  · intro hsame
    have hfound := Tables.Records.find?_channelOf (h.records.linked o ho)
    have hchannel : m.noted.channelOf o = o.channel := congrArg Output.channel hsame
    rw [← hchannel]
    exact List.mem_of_find?_eq_some hfound
  · intro hchannel
    rw [h.records.restored_eq hchannel, Output.kept_channel (h.pushed o ho)]

theorem createChannel (h : Beside m t) {c : Channel} (hfits : c.service.Fits)
    (hfree : ¬ ∃ d ∈ m.channels, d.id = c.id) (hcreate : t.createChannel c = .ok t') :
    Beside { m with channels := (m.channels.filter fun d => d.id ≠ c.id) ++ [c] } t' := by
  have hkept : (m.channels.filter fun d => d.id ≠ c.id) = m.channels := by
    refine List.filter_eq_self.mpr ?_
    intro d hd
    exact decide_eq_true fun hid => hfree ⟨d, hd, hid⟩
  rw [hkept]
  exact { h with records := h.records.createChannel hfits hcreate }

theorem createOutput (h : Beside m t) {o : Output} (htime : ∀ time ∈ o.lastPushed, time.OnMillis)
    (hfree : ¬ ∃ p ∈ m.outputs, p.id = o.id) (hcreate : t.createOutput o = .ok t') :
    Beside { m with outputs := m.outputs ++ [o] } t' := by
  refine { h with records := h.records.createOutput hcreate, outputIds := ?_, pushed := ?_ }
  · show ((m.outputs ++ [o]).map Output.id).Nodup
    rw [List.map_append, List.nodup_append]
    refine ⟨h.outputIds, List.nodup_singleton _, ?_⟩
    intro id hid id' hid' heq
    obtain ⟨p, hp, rfl⟩ := List.mem_map.mp hid
    rw [List.map_singleton, List.mem_singleton] at hid'
    exact hfree ⟨p, hp, heq.trans hid'⟩
  · intro p hp
    rcases List.mem_append.mp hp with hp | hp
    · exact h.pushed p hp
    · rw [List.mem_singleton.mp hp]
      exact htime

theorem markPushed (h : Beside m t) {success : Bool} {message : String} {time : Instant}
    (htime : time.OnMillis) (hmark : (t.markPushed id success message time).map Prod.snd = .ok t') :
    Beside { m with
      outputs := m.outputs.map fun o => if o.id = id then { o with lastPushed := some time } else o
      pushLog := m.pushLog ++ [⟨id, success, message, time⟩] } t' where
  records := h.records.markPushed hmark
  outputIds := by
    have hids : (m.outputs.map fun o =>
        if o.id = id then { o with lastPushed := some time } else o).map Output.id =
          m.outputs.map Output.id := by
      rw [List.map_map]
      refine List.map_congr_left ?_
      intro o _
      rw [Function.comp_apply]
      split <;> rfl
    show ((m.outputs.map _).map Output.id).Nodup
    rw [hids]
    exact h.outputIds
  pushed := by
    intro o ho
    obtain ⟨p, hp, rfl⟩ := List.mem_map.mp ho
    split
    · rintro _ ⟨⟩
      exact htime
    · exact h.pushed p hp
  stamped := by
    intro p hp
    rcases List.mem_append.mp hp with hp | hp
    · exact h.stamped p hp
    · rw [List.mem_singleton.mp hp]
      exact htime

theorem met_createChannel (h : Beside m t) {c : Channel} (hfits : c.service.Fits) :
    Met m t (.createChannel c) := by
  have hm : m.createChannel c =
    .ok { m with channels := (m.channels.filter fun d => d.id ≠ c.id) ++ [c] } := rfl
  have htaken := h.records.any_channel_iff c.id
  by_cases hparts : ∃ d ∈ m.channels, d.id = c.id
  · have ht : t.createChannel c =
        .error (.storage (.queryFailed s!"channel {c.id.text} is there already")) :=
      if_pos (htaken.mpr hparts)
    exact met_of_refused (congrArg (Except.map _) hm) (congrArg (Except.map _) ht) hparts
  · have ht : t.createChannel c = .ok { t with channels := t.channels ++ [.ofChannel c] } :=
      if_neg (mt htaken.mp hparts)
    exact met_of_ok (congrArg (Except.map _) hm) (congrArg (Except.map _) ht) hparts
      (h.createChannel hfits hparts ht)

theorem met_createOutput (h : Beside m t) {o : Output} (htime : ∀ time ∈ o.lastPushed, time.OnMillis) :
    Met m t (.createOutput o) := by
  by_cases hknown : m.Knows o.alarmId
  · have hm := Memory.createOutput_of_known hknown
    have hthere : ¬ (!t.hasAlarm o.alarmId) = true := mt h.lacksAlarm_iff.mp (not_not_intro hknown)
    by_cases hchannel : ∃ c ∈ m.channels, c.id = o.channel.id
    · rw [if_pos hchannel] at hm
      have hlinked : ¬ (!t.channels.any fun r => r.id = o.channel.id.text) = true :=
        mt h.lacksChannel_iff.mp (not_not_intro hchannel)
      by_cases htaken : ∃ p ∈ m.outputs, p.id = o.id
      · have ht : t.createOutput o =
            .error (.storage (.queryFailed s!"output {o.id.text} is there already")) := by
          rw [Tables.createOutput, if_neg hthere, if_neg hlinked, if_pos (h.any_output_iff.mpr htaken)]
        exact met_of_refused (congrArg (Except.map _) hm) (congrArg (Except.map _) ht)
          ⟨hknown, hchannel, htaken⟩
      · have ht : t.createOutput o = .ok { t with outputs := t.outputs ++ [.ofOutput o] } := by
          rw [Tables.createOutput, if_neg hthere, if_neg hlinked, if_neg (mt h.any_output_iff.mp htaken)]
        exact met_of_ok (congrArg (Except.map _) hm) (congrArg (Except.map _) ht)
          (fun hparts => htaken hparts.2.2) (h.createOutput htime htaken ht)
    · rw [if_neg hchannel] at hm
      have ht : t.createOutput o = .error (.notFound (.channel o.channel.id)) := by
        rw [Tables.createOutput, if_neg hthere, if_pos (h.lacksChannel_iff.mpr hchannel)]
      exact met_of_error h (congrArg (Except.map _) hm) (congrArg (Except.map _) ht)
        (fun hparts => hchannel hparts.2.1)
  · have hm := Memory.createOutput_of_unknown hknown
    have ht : t.createOutput o = .error (.notFound (.alarm o.alarmId)) := by
      rw [Tables.createOutput, if_pos (h.lacksAlarm_iff.mpr hknown)]
    exact met_of_error h (congrArg (Except.map _) hm) (congrArg (Except.map _) ht)
      (fun hparts => hknown hparts.1)

theorem met_markPushed (h : Beside m t) (id : Uuid) (success : Bool) (message : String) {time : Instant}
    (htime : time.OnMillis) : Met m t (.markPushed id success message time) := by
  by_cases hknown : ∃ o ∈ m.outputs, o.id = id
  · have hm : m.markPushed id success message time = .ok (⟨id, success, message, time⟩,
        { m with
          outputs := m.outputs.map fun o => if o.id = id then { o with lastPushed := some time } else o
          pushLog := m.pushLog ++ [⟨id, success, message, time⟩] }) := by
      rw [Memory.markPushed, Memory.touch_eq_map h.outputIds hknown]
    have ht : t.markPushed id success message time = .ok (⟨id, success, message, time⟩,
        { t with
          outputs := t.outputs.map fun r =>
            if r.id = id.text then { r with lastPushed := some (.number time.millis) } else r
          pushes := t.pushes ++ [.ofPush ⟨id, success, message, time⟩] }) := by
      rw [Tables.markPushed, if_neg (mt h.lacksOutput_iff.mp (not_not_intro hknown))]
    exact met_of_ok (congrArg (Except.map _) hm) (congrArg (Except.map _) ht) (fun hparts => hparts)
      (h.markPushed htime (congrArg (Except.map Prod.snd) ht))
  · have hm : m.markPushed id success message time = .error (.notFound (.output id)) := by
      rw [Memory.markPushed, Memory.touch_eq_none fun o ho hid => hknown ⟨o, ho, hid⟩]
    have ht : t.markPushed id success message time = .error (.notFound (.output id)) := by
      rw [Tables.markPushed, if_pos (h.lacksOutput_iff.mpr hknown)]
    exact met_of_error h (congrArg (Except.map _) hm) (congrArg (Except.map _) ht)
      (fun hparts => hparts)

/-- The tables answer with the same outputs as the memory, each as it is read back. -/
theorem selectOutputs_eq (h : Beside m t) (alarmId : Uuid) (s : Selection) :
    t.selectOutputs alarmId s =
      .ok ((m.outputs.filter fun o => o.alarmId = alarmId && s.admits o).map m.noted.restored) := by
  have hadmits : s.admits ∘ m.noted.restored = s.admits := rfl
  rw [h.records.selectOutputs_eq, List.filter_map, hadmits, List.filter_filter]
  refine congrArg (fun os => Except.ok (os.map m.noted.restored)) (List.filter_congr ?_)
  intro o _
  exact Bool.and_comm _ _

theorem met_outputs (h : Beside m t) (alarmId : Uuid) (s : Selection) :
    Met m t (.outputs alarmId s) := by
  have hm : ask m (.outputs alarmId s) =
    .ok (.outputs (m.outputs.filter fun o => o.alarmId = alarmId && s.admits o), m) := rfl
  have ht : ask t (.outputs alarmId s) = .ok (.outputs
      ((m.outputs.filter fun o => o.alarmId = alarmId && s.admits o).map m.noted.restored), t) :=
    congrArg (Except.map _) (h.selectOutputs_eq alarmId s)
  constructor
  · rw [hm, ht]
    show OutputAnswer.outputs _ = .outputs _ ↔ _
    rw [OutputAnswer.outputs.injEq, eq_comm, map_eq_self_iff]
    constructor
    · rintro hsame ⟨o, ho, howner, hadmits, hchannel⟩
      have hasked : (decide (o.alarmId = alarmId) && s.admits o) = true := by
        rw [decide_eq_true howner, hadmits]
        rfl
      exact hchannel ((h.restored_eq_iff ho).mp (hsame o (List.mem_filter.mpr ⟨ho, hasked⟩)))
    · intro hparts o ho
      obtain ⟨ho, hasked⟩ := List.mem_filter.mp ho
      rw [Bool.and_eq_true, decide_eq_true_iff] at hasked
      refine (h.restored_eq_iff ho).mpr ?_
      by_contra hchannel
      exact hparts ⟨o, ho, hasked.1, hasked.2, hchannel⟩
  · intro _
    rw [left_of_ok hm, left_of_ok ht]
    exact h

theorem met_pushes (h : Beside m t) (id : Uuid) : Met m t (.pushes id) := by
  have hm : ask m (.pushes id) = .ok (.pushes (m.pushLog.filter fun p => p.outputId = id), m) := rfl
  have ht : t.pushesOf id = .ok (m.pushLog.filter fun p => p.outputId = id) := by
    have hkept : (m.pushLog.filter fun p => p.outputId = id).map Push.kept =
        m.pushLog.filter fun p => p.outputId = id := by
      refine map_eq_self_iff.mpr ?_
      intro p hp
      exact Push.kept_eq (h.stamped p (List.mem_of_mem_filter hp))
    exact (h.records.pushesOf_eq id).trans (congrArg Except.ok hkept)
  exact met_of_ok hm (congrArg (Except.map _) ht) (fun hparts => hparts) h

/-- Stores beside each other answer a request alike just when it meets none of their differences, and
stay beside each other then. -/
theorem met (h : Beside m t) {r : OutputRequest} (hr : r.Regular) : Met m t r := by
  cases r with
  | createChannel c => exact h.met_createChannel hr
  | createOutput o => exact h.met_createOutput hr
  | markPushed id success message time => exact h.met_markPushed id success message hr
  | outputs alarmId s => exact h.met_outputs alarmId s
  | pushes id => exact h.met_pushes id

end Beside

/-- Something holds wherever a list is split when it holds before its head, and wherever the tail is
split. -/
theorem forall_split_cons {α : Type} {P : List α → α → Prop} {a : α} {as : List α} :
    (∀ before b rest, a :: as = before ++ b :: rest → P before b) ↔
      P [] a ∧ ∀ before b rest, as = before ++ b :: rest → P (a :: before) b := by
  constructor
  · intro h
    exact ⟨h [] a as rfl, fun before b rest hsplit => h (a :: before) b rest (by rw [hsplit]; rfl)⟩
  · rintro ⟨hhead, htail⟩ before b rest hsplit
    cases before with
    | nil =>
      cases hsplit
      exact hhead
    | cons first before =>
      cases hsplit
      exact htail before b rest rfl

theorem Beside.answers_alike_iff {m : Memory} {t : Tables} {requests : List OutputRequest}
    (h : Beside m t) (hregular : ∀ r ∈ requests, r.Regular) :
    List.Forall₂ OutputAnswer.Alike (answers m requests) (answers t requests) ↔
      ∀ before r rest, requests = before ++ r :: rest → ¬ r.Parts (before.foldl left m) := by
  induction requests generalizing m t with
  | nil => simp [answers]
  | cons r rest ih =>
    have hmet := h.met (hregular r List.mem_cons_self)
    have hrest : ∀ s ∈ rest, s.Regular := fun s hs => hregular s (List.mem_cons_of_mem _ hs)
    rw [answers, answers, List.forall₂_cons, hmet.alike_iff, forall_split_cons]
    exact and_congr_right fun hsame => ih (hmet.beside hsame) hrest

/-- Stores of the same alarms, without channels and outputs, are beside each other. -/
theorem beside_of_alarms {alarms : List Alarm} (h : ∀ a ∈ alarms, a.rule.Fits) :
    Beside { Memory.empty with alarms } { Tables.empty with alarms := alarms.map .ofAlarm } where
  records := { Tables.Records.nothing with alarms := rfl, rules := h }
  outputIds := List.nodup_nil
  pushed _ ho := absurd ho List.not_mem_nil
  stamped _ hp := absurd hp List.not_mem_nil

/-- Both stores of the same alarms answer a sequence of requests about channels and outputs alike just
when none of them meets a difference of the stores: each channel and each output of a known alarm and
channel has an identifier of its own, and an output that is asked for brought the channel that is kept
under its identifier. Then they answer with the same outputs and attempts in the same order, and the same
requests fail, with one kind of failure. -/
theorem outputs_alike_iff (alarms : List Alarm) (requests : List OutputRequest)
    (hrules : ∀ a ∈ alarms, a.rule.Fits) (hregular : ∀ r ∈ requests, r.Regular) :
    List.Forall₂ OutputAnswer.Alike (answers { Memory.empty with alarms } requests)
        (answers { Tables.empty with alarms := alarms.map .ofAlarm } requests) ↔
      ∀ before r rest, requests = before ++ r :: rest →
        ¬ r.Parts (before.foldl left { Memory.empty with alarms }) :=
  (beside_of_alarms hrules).answers_alike_iff hregular

/-- An output for a known alarm and one for an unknown alarm; an attempt to push by the first, which is
read back. -/
theorem outputs_alike_of_one_channel :
    let alarm : Alarm :=
      { id := .ofNat 7, owner := "owner", name := "heat", info := "", message := "", group := "g",
        enabled := true, fired := false, rule := ⟨[⟨"max", none, "t", none⟩], "max_t>3", 1⟩,
        runInterval := .ofSeconds 60, lastRun := .epoch, createdAt := .epoch, updatedAt := .epoch,
        history := [], compiled := none }
    let hook : Channel := ⟨.ofNat 1, "owner", "hook", .ofUrl "http://hooks.test/a"⟩
    let requests : List OutputRequest :=
      [.createChannel hook, .createOutput (.ofChannel (.ofNat 1) alarm.id "ops" hook),
        .createOutput (.ofChannel (.ofNat 2) (.ofNat 8) "ops" hook), .markPushed (.ofNat 1) true "m" .epoch,
        .outputs alarm.id (.ofEvent .fire), .pushes (.ofNat 1)]
    let memory : Memory := { Memory.empty with alarms := [alarm] }
    let tables : Tables := { Tables.empty with alarms := [alarm].map .ofAlarm }
    ((answers memory requests).map fun r => r.toBool) = [true, true, false, true, true, true] ∧
      List.Forall₂ OutputAnswer.Alike (answers memory requests) (answers tables requests) := by
  intro alarm hook requests memory tables
  have hfits : hook.service.Fits := by
    rintro status ⟨⟩
  refine ⟨by decide, (outputs_alike_iff [alarm] requests ?_ ?_).mpr ?_⟩
  · intro a ha
    rw [List.mem_singleton.mp ha]
    exact ⟨by simp [alarm, Filter.Fits], by decide⟩
  · have hepoch : Instant.epoch.OnMillis := by decide
    simp [requests, OutputRequest.Regular, Output.ofChannel, hfits, hepoch]
  · simp only [requests, forall_split_cons, List.foldl_cons, List.foldl_nil]
    refine ⟨?_, ?_, ?_, fun hparts => hparts, ?_, fun hparts => hparts, ?_⟩
    · rintro ⟨c, hc, -⟩
      exact absurd hc List.not_mem_nil
    · rintro ⟨-, -, o, ho, -⟩
      exact absurd ho List.not_mem_nil
    · rintro ⟨⟨a, ha, hid⟩, -⟩
      rw [List.mem_singleton.mp ha] at hid
      exact absurd hid (by decide)
    · rintro ⟨o, ho, -, -, hchannel⟩
      obtain rfl := List.mem_singleton.mp ho
      exact hchannel (List.mem_singleton_self hook)
    · intro before r rest hsplit
      cases before <;> cases hsplit

/-- The requests that part the stores: an output is created a second time, which the tables refuse; a
channel is; an output is asked for that brought another channel under the identifier of the one that was
created. -/
theorem outputs_not_alike_of_taken_identifiers :
    let alarm : Alarm :=
      { id := .ofNat 7, owner := "owner", name := "heat", info := "", message := "", group := "g",
        enabled := true, fired := false, rule := ⟨[⟨"max", none, "t", none⟩], "max_t>3", 1⟩,
        runInterval := .ofSeconds 60, lastRun := .epoch, createdAt := .epoch, updatedAt := .epoch,
        history := [], compiled := none }
    let hook : Channel := ⟨.ofNat 1, "owner", "hook", .ofUrl "http://hooks.test/a"⟩
    let output := Output.ofChannel (.ofNat 1) alarm.id "ops" hook
    let other := Output.ofChannel (.ofNat 1) alarm.id "ops" { hook with name := "other" }
    let memory : Memory := { Memory.empty with alarms := [alarm] }
    let tables : Tables := { Tables.empty with alarms := [alarm].map .ofAlarm }
    let twice : List OutputRequest := [.createChannel hook, .createOutput output, .createOutput output]
    let replaced : List OutputRequest := [.createChannel hook, .createChannel hook]
    let brought : List OutputRequest :=
      [.createChannel hook, .createOutput other, .outputs alarm.id ⟨false, none⟩]
    ((answers memory twice).map fun r => r.toBool) = [true, true, true] ∧
      ((answers tables twice).map fun r => r.toBool) = [true, true, false] ∧
      ¬ List.Forall₂ OutputAnswer.Alike (answers memory twice) (answers tables twice) ∧
      ¬ List.Forall₂ OutputAnswer.Alike (answers memory replaced) (answers tables replaced) ∧
      ¬ List.Forall₂ OutputAnswer.Alike (answers memory brought) (answers tables brought) := by
  intro alarm hook output other memory tables twice replaced brought
  have hbeside : Beside memory tables := beside_of_alarms (by
    intro a ha
    rw [List.mem_singleton.mp ha]
    exact ⟨by simp [alarm, Filter.Fits], by decide⟩)
  have hfits : hook.service.Fits := by
    rintro status ⟨⟩
  have hparted : ∀ before r, (∀ s ∈ before ++ [r], s.Regular) → r.Parts (before.foldl left memory) →
      ¬ List.Forall₂ OutputAnswer.Alike (answers memory (before ++ [r])) (answers tables (before ++ [r])) :=
    fun before r hregular hparts halike =>
      (hbeside.answers_alike_iff hregular).mp halike before r [] rfl hparts
  refine ⟨by decide, by decide, ?_, ?_, ?_⟩
  · refine hparted [.createChannel hook, .createOutput output] (.createOutput output) ?_ ?_
    · simp [OutputRequest.Regular, output, Output.ofChannel, hfits]
    · exact ⟨⟨alarm, List.mem_singleton_self _, rfl⟩, ⟨hook, List.mem_singleton_self _, rfl⟩,
        output, List.mem_singleton_self _, rfl⟩
  · refine hparted [.createChannel hook] (.createChannel hook) ?_ ?_
    · simp [OutputRequest.Regular,  hfits]
    · exact ⟨hook, List.mem_singleton_self _, rfl⟩
  · refine hparted [.createChannel hook, .createOutput other] (.outputs alarm.id ⟨false, none⟩) ?_ ?_
    · simp [OutputRequest.Regular, other, Output.ofChannel, hfits]
    · refine ⟨other, List.mem_singleton_self _, rfl, rfl, ?_⟩
      intro hmem
      have hname := congrArg Channel.name (List.mem_singleton.mp hmem)
      exact absurd hname (by decide)

end Vigil
