import Vigil.Proofs.Store.Interchange
import Vigil.Proofs.Store.Rounded

/-!
# Whatever was accepted can be read

What tables were told is kept here beside them, in full precision: a change that they do not refuse is
noted as it was given. The rows are always those of what was noted. Hence every row is read back, none
fails the calls that meet it, and what comes back is what was noted, its times and spans rounded to
milliseconds.
-/

namespace Vigil

/-- A call that may change records in tables. -/
inductive Change where
  | call (c : Call)
  | createChannel (c : Channel)
  | createOutput (o : Output)
  | markPushed (id : Uuid) (success : Bool) (message : String) (time : Instant)

/-- What is counted in a condition or in a service fits into its type. -/
def Change.Fits : Change → Prop
  | call (.create a) => a.rule.Fits
  | createChannel c => c.service.Fits
  | _ => True

def Tables.change (t : Tables) : Change → Except AlarmError Tables
  | .call (.create a) => t.createAlarm a
  | .call (.fire id value time) => (t.fire id value time).map Prod.snd
  | .call (.clear id time) => (t.clear id time).map Prod.snd
  | .call (.markRun id time) => t.markRun id time
  | .createChannel c => t.createChannel c
  | .createOutput o => t.createOutput o
  | .markPushed id success message time => (t.markPushed id success message time).map Prod.snd

/-- What was written, as it was given. -/
structure Written where
  alarms : List Alarm
  entries : List Entry
  channels : List Channel
  outputs : List Output
  pushes : List Push

namespace Written

def nothing : Written := ⟨[], [], [], [], []⟩

def onAlarm (w : Written) (id : Uuid) (change : Alarm → Alarm) : Written :=
  { w with alarms := w.alarms.map fun a => if a.id = id then change a else a }

def note (w : Written) : Change → Written
  | .call (.create a) => { w with alarms := w.alarms ++ [a] }
  | .call (.fire id value time) =>
    { w.onAlarm id fun a => { a with fired := true, updatedAt := time } with
      entries := w.entries ++ [.opened (.ofNat w.entries.length) id value time] }
  | .call (.clear id time) =>
    { w.onAlarm id fun a => { a with fired := false, updatedAt := time } with
      entries := w.entries.map fun e =>
        if e.alarmId = id ∧ e.cleared = false then e.close time else e }
  | .call (.markRun id time) => w.onAlarm id fun a => { a with lastRun := time }
  | .createChannel c => { w with channels := w.channels ++ [c] }
  | .createOutput o => { w with outputs := w.outputs ++ [o] }
  | .markPushed id success message time =>
    { w with
      outputs := w.outputs.map fun o => if o.id = id then { o with lastPushed := some time } else o
      pushes := w.pushes ++ [⟨id, success, message, time⟩] }

/-- The channel that was written under the identifier of the channel of an output. -/
def channelOf (w : Written) (o : Output) : Channel :=
  (w.channels.find? fun c => c.id = o.channel.id).getD o.channel

/-- The output that is read back from the row of an output. -/
def restored (w : Written) (o : Output) : Output := o.kept (w.channelOf o)

end Written

/-- Tables and what was written into them after a sequence of changes. One that is refused changes
nothing. -/
def Tables.changes (s : Tables × Written) (cs : List Change) : Tables × Written :=
  cs.foldl (fun s c => match s.1.change c with
    | .ok t => (t, s.2.note c)
    | .error _ => s) s

/-- The rows are those of what was written. Entries are told apart, of each alarm at most one is open,
and an output has its channel. -/
structure Tables.Records (t : Tables) (w : Written) : Prop where
  alarms : t.alarms = w.alarms.map AlarmRow.ofAlarm
  entries : t.entries = w.entries.map EntryRow.ofEntry
  channels : t.channels = w.channels.map ChannelRow.ofChannel
  outputs : t.outputs = w.outputs.map OutputRow.ofOutput
  pushes : t.pushes = w.pushes.map PushRow.ofPush
  rules : ∀ a ∈ w.alarms, a.rule.Fits
  services : ∀ c ∈ w.channels, c.service.Fits
  numbered : w.entries.map Entry.id = (List.range w.entries.length).map Uuid.ofNat
  oneOpen : ∀ e ∈ w.entries, ∀ f ∈ w.entries, e.alarmId = f.alarmId →
    e.cleared = false → f.cleared = false → e.id = f.id
  channelIds : (w.channels.map Channel.id).Nodup
  linked : ∀ o ∈ w.outputs, ∃ c ∈ w.channels, c.id = o.channel.id

namespace Tables.Records

variable {t t' : Tables} {w : Written} {a : Alarm} {id : Uuid} {time : Instant}

theorem nothing : Tables.empty.Records .nothing where
  alarms := rfl
  entries := rfl
  channels := rfl
  outputs := rfl
  pushes := rfl
  rules _ h := absurd h List.not_mem_nil
  services _ h := absurd h List.not_mem_nil
  numbered := rfl
  oneOpen _ h := absurd h List.not_mem_nil
  channelIds := List.nodup_nil
  linked _ h := absurd h List.not_mem_nil

theorem isOpenOf_iff {e : Entry} :
    isOpenOf id (.ofEntry e) = true ↔ e.alarmId = id ∧ e.cleared = false := by
  simp [isOpenOf, EntryRow.ofEntry, Uuid.text_eq_iff]

/-- No two entries have one identifier. -/
theorem nodup_entries (h : t.Records w) (hcount : w.entries.length ≤ idLimit) :
    (w.entries.map Entry.id).Nodup := by
  rw [h.numbered]
  exact Uuid.nodup_numbered hcount

/-- Changing the rows of an alarm is changing the alarm. -/
theorem onAlarm (h : t.Records w) (change : Alarm → Alarm) {changeRow : AlarmRow → AlarmRow}
    (hrow : ∀ a, changeRow (.ofAlarm a) = .ofAlarm (change a)) (hrule : ∀ a, (change a).rule = a.rule)
    (id : Uuid) : (t.updateAlarm id changeRow).Records (w.onAlarm id change) := by
  refine { h with alarms := ?_, rules := ?_ }
  · show t.alarms.map _ = (w.alarms.map _).map _
    rw [h.alarms, List.map_map, List.map_map]
    refine List.map_congr_left ?_
    intro a _
    by_cases hid : a.id = id
    · have htext : (AlarmRow.ofAlarm a).id = id.text := congrArg Uuid.text hid
      rw [Function.comp_apply, Function.comp_apply, if_pos hid, if_pos htext, hrow]
    · have htext : (AlarmRow.ofAlarm a).id ≠ id.text := fun htext => hid (Uuid.text_injective htext)
      rw [Function.comp_apply, Function.comp_apply, if_neg hid, if_neg htext]
  · intro a ha
    obtain ⟨b, hb, rfl⟩ := List.mem_map.mp ha
    by_cases hid : b.id = id
    · rw [if_pos hid, hrule]
      exact h.rules b hb
    · rw [if_neg hid]
      exact h.rules b hb

theorem setFired (h : t.Records w) (id : Uuid) (fired : Bool) (time : Instant) :
    (t.setFired id fired time).Records
      (w.onAlarm id fun a => { a with fired := fired, updatedAt := time }) :=
  h.onAlarm (fun a => { a with fired := fired, updatedAt := time }) (fun _ => rfl) (fun _ => rfl) id

theorem createAlarm (h : t.Records w) (hfits : a.rule.Fits) (hchange : t.createAlarm a = .ok t') :
    t'.Records (w.note (.call (.create a))) := by
  unfold Tables.createAlarm at hchange
  split at hchange
  · cases hchange
  · cases hchange
    refine { h with alarms := ?_, rules := ?_ }
    · show t.alarms ++ [_] = (w.alarms ++ [a]).map _
      rw [h.alarms, List.map_append, List.map_singleton]
    · intro b hb
      rcases List.mem_append.mp hb with hb | hb
      · exact h.rules b hb
      · rw [List.mem_singleton.mp hb]
        exact hfits

theorem fire {value : String} (h : t.Records w)
    (hchange : (t.fire id value time).map Prod.snd = .ok t') :
    t'.Records (w.note (.call (.fire id value time))) := by
  unfold Tables.fire at hchange
  split at hchange
  · cases hchange
  · split at hchange
    · cases hchange
    · rename_i hclosed
      cases hchange
      have hlength : t.entries.length = w.entries.length := by rw [h.entries, List.length_map]
      have hfired := h.setFired id true time
      refine { hfired with entries := ?_, numbered := ?_, oneOpen := ?_ }
      · show t.entries ++ [_] = (w.entries ++ [_]).map _
        rw [hlength, h.entries, List.map_append, List.map_singleton]
      · show (w.entries ++ [_]).map Entry.id = (List.range (w.entries ++ [_]).length).map Uuid.ofNat
        rw [List.map_append, h.numbered, List.length_append, List.length_singleton, List.range_succ,
          List.map_append]
        rfl
      · have hno : ∀ e ∈ w.entries, e.alarmId = id → e.cleared = true := by
          intro e he howner
          by_contra hopen
          refine hclosed (List.any_eq_true.mpr ⟨.ofEntry e, ?_, ?_⟩)
          · rw [h.entries]
            exact List.mem_map_of_mem he
          · exact isOpenOf_iff.mpr ⟨howner, by simpa using hopen⟩
        intro e he f hf howner hopen hopen'
        rcases List.mem_append.mp he with he | he <;> rcases List.mem_append.mp hf with hf | hf
        · exact h.oneOpen e he f hf howner hopen hopen'
        · rw [List.mem_singleton.mp hf] at howner
          rw [hno e he howner] at hopen
          cases hopen
        · rw [List.mem_singleton.mp he] at howner
          rw [hno f hf howner.symm] at hopen'
          cases hopen'
        · rw [List.mem_singleton.mp he, List.mem_singleton.mp hf]

theorem clear (h : t.Records w) (hcount : w.entries.length ≤ idLimit)
    (hchange : (t.clear id time).map Prod.snd = .ok t') :
    t'.Records (w.note (.call (.clear id time))) := by
  unfold Tables.clear at hchange
  cases hfound : t.entries.find? (isOpenOf id) with
  | none =>
    rw [hfound] at hchange
    cases hchange
  | some row =>
    have hopen := List.find?_some hfound
    have hmem := List.mem_of_find?_eq_some hfound
    rw [h.entries] at hmem
    obtain ⟨e, he, rfl⟩ := List.mem_map.mp hmem
    obtain ⟨howner, hcleared⟩ := isOpenOf_iff.mp hopen
    rw [hfound] at hchange
    have hentry : (EntryRow.ofEntry e).toEntry = .ok e.kept := EntryRow.toEntry_eq_kept e
    simp only [hentry] at hchange
    cases hchange
    -- the open entry of the alarm is the one that was found
    have honly : ∀ f ∈ w.entries, (f.alarmId = id ∧ f.cleared = false ↔ f.id = e.id) := by
      intro f hf
      constructor
      · rintro ⟨howner', hopen'⟩
        exact h.oneOpen f hf e he (howner'.trans howner.symm) hopen' hcleared
      · intro hid
        obtain rfl : f = e := List.inj_on_of_nodup_map (h.nodup_entries hcount) hf he hid
        exact ⟨howner, hcleared⟩
    have hfired := h.setFired id false time
    refine { hfired with entries := ?_, numbered := ?_, oneOpen := ?_ }
    · show t.entries.map (closeRow e.id.text time) = (w.entries.map _).map _
      rw [h.entries, List.map_map, List.map_map]
      refine List.map_congr_left ?_
      intro f hf
      rw [Function.comp_apply, Function.comp_apply]
      by_cases hid : f.id = e.id
      · rw [if_pos ((honly f hf).mpr hid), ← hid, closeRow_ofEntry]
      · have htext : (EntryRow.ofEntry f).id ≠ e.id.text := fun htext => hid (Uuid.text_injective htext)
        rw [if_neg fun hopen => hid ((honly f hf).mp hopen), closeRow_of_ne htext]
    · show (w.entries.map _).map Entry.id = (List.range (w.entries.map _).length).map Uuid.ofNat
      rw [List.length_map, ← h.numbered, List.map_map]
      refine List.map_congr_left ?_
      intro f _
      rw [Function.comp_apply]
      split <;> rfl
    · intro f hf g hg howner hopen hopen'
      obtain ⟨f, hmem, rfl⟩ := List.mem_map.mp hf
      obtain ⟨g, hmem', rfl⟩ := List.mem_map.mp hg
      by_cases hclosed : f.alarmId = id ∧ f.cleared = false
      · rw [if_pos hclosed] at hopen
        cases hopen
      · by_cases hclosed' : g.alarmId = id ∧ g.cleared = false
        · rw [if_pos hclosed'] at hopen'
          cases hopen'
        · rw [if_neg hclosed, if_neg hclosed'] at howner ⊢
          rw [if_neg hclosed] at hopen
          rw [if_neg hclosed'] at hopen'
          exact h.oneOpen f hmem g hmem' howner hopen hopen'

theorem markRun (h : t.Records w) (hchange : t.markRun id time = .ok t') :
    t'.Records (w.note (.call (.markRun id time))) := by
  unfold Tables.markRun at hchange
  split at hchange
  · cases hchange
    exact h.onAlarm (fun a => { a with lastRun := time }) (fun _ => rfl) (fun _ => rfl) id
  · cases hchange

theorem any_channel_iff (h : t.Records w) (id : Uuid) :
    t.channels.any (fun r => r.id = id.text) = true ↔ ∃ c ∈ w.channels, c.id = id := by
  rw [h.channels]
  exact any_rows_iff ChannelRow.ofChannel ChannelRow.id Channel.id (fun _ => rfl) w.channels id

theorem createChannel {c : Channel} (h : t.Records w) (hfits : c.service.Fits)
    (hchange : t.createChannel c = .ok t') : t'.Records (w.note (.createChannel c)) := by
  unfold Tables.createChannel at hchange
  split at hchange
  · cases hchange
  · rename_i hnew
    cases hchange
    refine { h with channels := ?_, services := ?_, channelIds := ?_, linked := ?_ }
    · show t.channels ++ [_] = (w.channels ++ [c]).map _
      rw [h.channels, List.map_append, List.map_singleton]
    · intro d hd
      rcases List.mem_append.mp hd with hd | hd
      · exact h.services d hd
      · rw [List.mem_singleton.mp hd]
        exact hfits
    · show ((w.channels ++ [c]).map Channel.id).Nodup
      rw [List.map_append, List.nodup_append]
      refine ⟨h.channelIds, List.nodup_singleton _, ?_⟩
      intro id hid id' hid' heq
      obtain ⟨d, hd, rfl⟩ := List.mem_map.mp hid
      rw [List.map_singleton, List.mem_singleton] at hid'
      exact hnew ((h.any_channel_iff c.id).mpr ⟨d, hd, heq.trans hid'⟩)
    · intro o ho
      obtain ⟨d, hd, hid⟩ := h.linked o ho
      exact ⟨d, List.mem_append_left _ hd, hid⟩

theorem createOutput {o : Output} (h : t.Records w) (hchange : t.createOutput o = .ok t') :
    t'.Records (w.note (.createOutput o)) := by
  unfold Tables.createOutput at hchange
  split at hchange
  · cases hchange
  · split at hchange
    · cases hchange
    · rename_i hchannel
      split at hchange
      · cases hchange
      · cases hchange
        refine { h with outputs := ?_, linked := ?_ }
        · show t.outputs ++ [_] = (w.outputs ++ [o]).map _
          rw [h.outputs, List.map_append, List.map_singleton]
        · intro p hp
          rcases List.mem_append.mp hp with hp | hp
          · exact h.linked p hp
          · rw [List.mem_singleton.mp hp]
            exact (h.any_channel_iff o.channel.id).mp (by simpa using hchannel)

theorem markPushed {success : Bool} {message : String} (h : t.Records w)
    (hchange : (t.markPushed id success message time).map Prod.snd = .ok t') :
    t'.Records (w.note (.markPushed id success message time)) := by
  unfold Tables.markPushed at hchange
  split at hchange
  · cases hchange
  · cases hchange
    refine { h with outputs := ?_, pushes := ?_, linked := ?_ }
    · show t.outputs.map _ = (w.outputs.map _).map _
      rw [h.outputs, List.map_map, List.map_map]
      refine List.map_congr_left ?_
      intro o _
      by_cases hid : o.id = id
      · have htext : (OutputRow.ofOutput o).id = id.text := congrArg Uuid.text hid
        rw [Function.comp_apply, Function.comp_apply, if_pos hid, if_pos htext]
        rfl
      · have htext : (OutputRow.ofOutput o).id ≠ id.text := fun htext => hid (Uuid.text_injective htext)
        rw [Function.comp_apply, Function.comp_apply, if_neg hid, if_neg htext]
    · show t.pushes ++ [_] = (w.pushes ++ [_]).map _
      rw [h.pushes, List.map_append, List.map_singleton]
    · intro o ho
      obtain ⟨p, hp, rfl⟩ := List.mem_map.mp ho
      by_cases hid : p.id = id
      · rw [if_pos hid]
        exact h.linked p hp
      · rw [if_neg hid]
        exact h.linked p hp

/-- A change that is not refused keeps the rows those of what was written. -/
theorem change {c : Change} (h : t.Records w) (hfits : c.Fits) (hcount : w.entries.length ≤ idLimit)
    (hchange : t.change c = .ok t') : t'.Records (w.note c) := by
  cases c with
  | call c =>
    cases c with
    | create a => exact h.createAlarm hfits hchange
    | fire id value time => exact h.fire hchange
    | clear id time => exact h.clear hcount hchange
    | markRun id time => exact h.markRun hchange
  | createChannel c => exact h.createChannel hfits hchange
  | createOutput o => exact h.createOutput hchange
  | markPushed id success message time => exact h.markPushed hchange

end Tables.Records

/-- A change adds at most one entry. -/
theorem Written.length_entries_note (w : Written) (c : Change) :
    (w.note c).entries.length ≤ w.entries.length + 1 := by
  cases c with
  | call c =>
    cases c with
    | fire id value time => exact (List.length_append ..).le
    | clear id time => exact (List.length_map _).le.trans (Nat.le_succ _)
    | _ => exact Nat.le_succ _
  | _ => exact Nat.le_succ _

/-- The rows are those of what was written after every sequence of changes. -/
theorem Tables.Records.changes {t : Tables} {w : Written} {cs : List Change} (h : t.Records w)
    (hfits : ∀ c ∈ cs, c.Fits) (hcount : w.entries.length + cs.length ≤ idLimit) :
    (Tables.changes (t, w) cs).1.Records (Tables.changes (t, w) cs).2 := by
  induction cs generalizing t w with
  | nil => exact h
  | cons c cs ih =>
    rw [List.length_cons] at hcount
    have hrest : ∀ d ∈ cs, d.Fits := fun d hd => hfits d (List.mem_cons_of_mem _ hd)
    cases hchange : t.change c with
    | error cause =>
      have hskip : Tables.changes (t, w) (c :: cs) = Tables.changes (t, w) cs := by
        simp only [Tables.changes, List.foldl_cons, hchange]
      rw [hskip]
      exact ih h hrest (by omega)
    | ok t' =>
      have hstep : Tables.changes (t, w) (c :: cs) = Tables.changes (t', w.note c) cs := by
        simp only [Tables.changes, List.foldl_cons, hchange]
      have hmore := w.length_entries_note c
      rw [hstep]
      exact ih (h.change (hfits c List.mem_cons_self) (by omega) hchange) hrest (by omega)

/-- Every call that reads records reads all rows that it meets, and answers with what was written, as
rows keep it: an alarm without its history, entries newest first, outputs with the channels that were
written for them. -/
structure Tables.ReadsBack (t : Tables) (w : Written) : Prop where
  alarm : ∀ id, t.alarm id = match w.alarms.find? fun a => a.id = id with
    | some a => .ok a.kept
    | none => .error (.notFound (.alarm id))
  dueAlarms : ∀ least now, t.dueAlarms least now =
    .ok ((w.alarms.map Alarm.kept).filter fun a => a.isDue now.floored least.kept)
  history : ∀ id limit, t.history id limit =
    .ok ((((w.entries.filter fun e => e.alarmId = id).map Entry.kept).mergeSort
      fun e f => Instant.newerFirst e.firedAt f.firedAt).take limit)
  outputs : ∀ id selection, t.selectOutputs id selection =
    .ok (((w.outputs.filter fun o => o.alarmId = id).map w.restored).filter selection.admits)
  pushes : ∀ id, t.pushesOf id = .ok ((w.pushes.filter fun p => p.outputId = id).map Push.kept)

namespace Tables.Records

variable {t : Tables} {w : Written}

theorem alarm_eq (h : t.Records w) (id : Uuid) :
    t.alarm id = match w.alarms.find? fun a => a.id = id with
      | some a => .ok a.kept
      | none => .error (.notFound (.alarm id)) := by
  have hfind : t.alarms.find? (fun r => r.id = id.text) =
      (w.alarms.find? fun a => a.id = id).map AlarmRow.ofAlarm := by
    rw [h.alarms]
    exact find?_rows AlarmRow.ofAlarm AlarmRow.id Alarm.id (fun _ => rfl) w.alarms id
  rw [Tables.alarm, hfind]
  cases hfound : w.alarms.find? fun a => a.id = id with
  | none => rfl
  | some a =>
    have hrow := AlarmRow.toAlarm_eq_kept (h.rules a (List.mem_of_find?_eq_some hfound))
    show Tables.lift (AlarmRow.ofAlarm a).toAlarm = _
    rw [hrow]
    rfl

theorem dueAlarms_eq (h : t.Records w) (least : Span) (now : Instant) : t.dueAlarms least now =
    .ok ((w.alarms.map Alarm.kept).filter fun a => a.isDue now.floored least.kept) := by
  have hdue : t.alarms.filter (fun r => r.isDue least now) =
      (w.alarms.filter fun a => a.kept.isDue now.floored least.kept).map AlarmRow.ofAlarm := by
    rw [h.alarms, List.filter_map]
    refine congrArg (List.map AlarmRow.ofAlarm) (List.filter_congr ?_)
    intro a ha
    exact AlarmRow.isDue_eq_kept (h.rules a ha) least now
  have hread : (t.alarms.filter fun r => r.isDue least now).mapM AlarmRow.toAlarm =
      .ok ((w.alarms.filter fun a => a.kept.isDue now.floored least.kept).map Alarm.kept) := by
    rw [hdue]
    refine mapM_map_eq_ok ?_
    intro a ha
    exact AlarmRow.toAlarm_eq_kept (h.rules a (List.mem_of_mem_filter ha))
  rw [Tables.dueAlarms, hread, List.filter_map]
  rfl

theorem history_eq (h : t.Records w) (id : Uuid) (limit : Nat) : t.history id limit =
    .ok ((((w.entries.filter fun e => e.alarmId = id).map Entry.kept).mergeSort
      fun e f => Instant.newerFirst e.firedAt f.firedAt).take limit) := by
  have hrows : t.entriesOf id =
      ((w.entries.filter fun e => e.alarmId = id).map Entry.kept).map EntryRow.ofEntry := by
    have howned : t.entriesOf id = (w.entries.filter fun e => e.alarmId = id).map EntryRow.ofEntry := by
      rw [entriesOf, h.entries]
      exact filter_rows EntryRow.ofEntry EntryRow.alarmId Entry.alarmId (fun _ => rfl) w.entries id
    rw [howned, List.map_map]
    exact List.map_congr_left fun e _ => (EntryRow.ofEntry_kept e).symm
  have hkept : ∀ e ∈ (w.entries.filter fun e => e.alarmId = id).map Entry.kept, e.OnMillis := by
    intro e he
    obtain ⟨f, -, rfl⟩ := List.mem_map.mp he
    exact f.onMillis_kept
  generalize (w.entries.filter fun e => e.alarmId = id).map Entry.kept = entries at hrows hkept
  have hsorted : (t.entriesOf id).mergeSort (fun r s => decide (s.firedAt ≤ r.firedAt)) =
      (entries.mergeSort fun e f => Instant.newerFirst e.firedAt f.firedAt).map EntryRow.ofEntry := by
    rw [hrows]
    refine (List.map_mergeSort ?_).symm
    intro e he f hf
    exact decide_eq_decide.mpr ((hkept f hf).firedAt.millis_le_iff (hkept e he).firedAt).symm
  have hread : (((t.entriesOf id).mergeSort fun r s => decide (s.firedAt ≤ r.firedAt)).take
      limit).mapM EntryRow.toEntry =
        .ok ((entries.mergeSort fun e f => Instant.newerFirst e.firedAt f.firedAt).take limit) := by
    rw [hsorted, ← List.map_take, mapM_map_eq_ok (g := fun e => e), List.map_id']
    intro e he
    exact EntryRow.toEntry_ofEntry (hkept e (List.mem_mergeSort.mp (List.mem_of_mem_take he)))
  rw [Tables.history, hread]
  rfl

theorem find?_channelOf {o : Output} (h : ∃ c ∈ w.channels, c.id = o.channel.id) :
    (w.channels.find? fun c => c.id = o.channel.id) = some (w.channelOf o) := by
  obtain ⟨c, hc, hid⟩ := h
  obtain ⟨d, hd⟩ : ∃ d, (w.channels.find? fun c => c.id = o.channel.id) = some d := by
    rw [← Option.isSome_iff_exists, List.find?_isSome]
    exact ⟨c, hc, decide_eq_true hid⟩
  rw [Written.channelOf, hd]
  rfl

/-- Each row of an output is joined with the row of its channel. -/
theorem outputsOf_eq (h : t.Records w) (id : Uuid) :
    t.outputsOf id = (w.outputs.filter fun o => o.alarmId = id).map fun o =>
      (OutputRow.ofOutput o, ChannelRow.ofChannel (w.channelOf o)) := by
  have hrows : t.outputs.filter (fun r => r.alarmId = id.text) =
      (w.outputs.filter fun o => o.alarmId = id).map OutputRow.ofOutput := by
    rw [h.outputs]
    exact filter_rows OutputRow.ofOutput OutputRow.alarmId Output.alarmId (fun _ => rfl) w.outputs id
  rw [Tables.outputsOf, hrows, List.filterMap_map, ← List.filterMap_eq_map]
  refine List.filterMap_congr ?_
  intro o ho
  have hfind : t.channels.find? (fun c => c.id = o.channel.id.text) =
      (w.channels.find? fun c => c.id = o.channel.id).map ChannelRow.ofChannel := by
    rw [h.channels]
    exact find?_rows ChannelRow.ofChannel ChannelRow.id Channel.id (fun _ => rfl) w.channels o.channel.id
  show (t.channels.find? fun c => c.id = o.channel.id.text).map _ = _
  rw [hfind, find?_channelOf (h.linked o (List.mem_of_mem_filter ho))]
  rfl

theorem selectOutputs_eq (h : t.Records w) (id : Uuid) (selection : Selection) :
    t.selectOutputs id selection =
      .ok (((w.outputs.filter fun o => o.alarmId = id).map w.restored).filter selection.admits) := by
  have hread : (t.outputsOf id).mapM (fun r => r.1.toOutput r.2) =
      .ok ((w.outputs.filter fun o => o.alarmId = id).map w.restored) := by
    rw [h.outputsOf_eq]
    refine mapM_map_eq_ok ?_
    intro o ho
    have hchannel := find?_channelOf (h.linked o (List.mem_of_mem_filter ho))
    exact OutputRow.toOutput_eq_kept o (h.services _ (List.mem_of_find?_eq_some hchannel))
  show (Tables.lift ((t.outputsOf id).mapM fun r => r.1.toOutput r.2)).map _ = _
  rw [hread]
  rfl

/-- An output that brought a channel which was written is read back with it. -/
theorem restored_eq (h : t.Records w) {o : Output} (hchannel : o.channel ∈ w.channels) :
    w.restored o = o.kept o.channel := by
  have hfound := find?_channelOf ⟨o.channel, hchannel, rfl⟩
  have hid : (w.channelOf o).id = o.channel.id := by simpa using List.find?_some hfound
  rw [Written.restored,
    List.inj_on_of_nodup_map h.channelIds (List.mem_of_find?_eq_some hfound) hchannel hid]

theorem pushesOf_eq (h : t.Records w) (id : Uuid) :
    t.pushesOf id = .ok ((w.pushes.filter fun p => p.outputId = id).map Push.kept) := by
  have hrows : t.pushes.filter (fun r => r.outputId = id.text) =
      (w.pushes.filter fun p => p.outputId = id).map PushRow.ofPush := by
    rw [h.pushes]
    exact filter_rows PushRow.ofPush PushRow.outputId Push.outputId (fun _ => rfl) w.pushes id
  rw [pushesOf, hrows, mapM_map_eq_ok fun p _ => PushRow.toPush_eq_kept p]
  rfl

theorem readsBack (h : t.Records w) : t.ReadsBack w where
  alarm := h.alarm_eq
  dueAlarms := h.dueAlarms_eq
  history := h.history_eq
  outputs := h.selectOutputs_eq
  pushes := h.pushesOf_eq

end Tables.Records

/-- No record that was accepted fails a read. After every sequence of changes, refused ones among them,
each call that reads records answers with exactly what was written, as rows keep it: times at the start
of their millisecond, spans in whole milliseconds up to the most that 64 bits hold, alarms without their
history. An output that brought the channel that was written is read back with it. The numbers of
conditions and services have to fit into their types; the count of changes keeps the identifiers of the
entries apart. -/
theorem reads_back_after_changes (cs : List Change) (hfits : ∀ c ∈ cs, c.Fits)
    (hlength : cs.length ≤ idLimit) :
    let s := Tables.changes (.empty, .nothing) cs
    s.1.ReadsBack s.2 ∧ ∀ o ∈ s.2.outputs, o.channel ∈ s.2.channels → s.2.restored o = o.kept o.channel := by
  have hrecords := Tables.Records.nothing.changes hfits (by simpa [Written.nothing] using hlength)
  exact ⟨hrecords.readsBack, fun o _ hchannel => hrecords.restored_eq hchannel⟩

/-- An alarm of long before, with the longest span; its output comes too early at first, and it is fired
twice. -/
theorem reads_back_after_early_times :
    let at_ (nanos : Int) : Instant := (Instant.ofNanos? nanos).getD .epoch
    let alarm : Alarm :=
      { id := .ofNat 7, owner := "o", name := "n", info := "", message := "", group := "g",
        enabled := true, fired := false,
        rule := ⟨[⟨"max", some "moving_average", "t", some 5⟩], "t > 3", 2⟩,
        runInterval := .longest, lastRun := at_ (-1500001), createdAt := .first, updatedAt := .last,
        history := [], compiled := none }
    let channel : Channel := ⟨.ofNat 8, "o", "c", .ofUrl "http://localhost"⟩
    let output := Output.ofChannel (.ofNat 9) (.ofNat 7) "out" channel
    let cs : List Change :=
      [.createOutput output, .call (.create alarm), .createChannel channel, .createOutput output,
        .call (.fire (.ofNat 7) "t=4.00" (at_ (-1))), .call (.fire (.ofNat 7) "t=5.00" (at_ 1)),
        .markPushed (.ofNat 9) true "m" (at_ 999999), .call (.clear (.ofNat 7) (at_ 1000001))]
    let s := Tables.changes (.empty, .nothing) cs
    (∀ c ∈ cs, c.Fits) ∧ cs.length ≤ idLimit ∧ s.1.ReadsBack s.2 ∧
      (s.2.alarms.length, s.2.entries.length, s.2.outputs.length, s.2.pushes.length) = (1, 1, 1, 1) ∧
      (∃ a, s.1.alarm (.ofNat 7) = .ok a ∧ a.lastRun = at_ (-2000000) ∧
        a.runInterval.nanos = 9223372036854775807000000 ∧ a.createdAt = .first) ∧
      s.1.history (.ofNat 7) 20 =
        .ok [⟨.ofNat 0, .ofNat 7, "t=4.00", true, at_ (-1000000), some (at_ 1000000)⟩] := by
  intro at_ alarm channel output cs s
  have hfits : ∀ c ∈ cs, c.Fits := by
    have hrule : alarm.rule.Fits := ⟨by simp [alarm, Filter.Fits], by decide⟩
    have hservice : channel.service.Fits := by
      rintro status ⟨⟩
    simp [cs, Change.Fits, hrule, hservice]
  have hlength : cs.length ≤ idLimit := by decide
  have hreads : s.1.ReadsBack s.2 := (reads_back_after_changes cs hfits hlength).1
  have halarms : s.2.alarms.map (fun a => (a.id, a.lastRun, a.runInterval, a.createdAt)) =
      [(.ofNat 7, at_ (-1500001), .longest, .first)] := by decide +kernel
  have hentries : s.2.entries =
      [⟨.ofNat 0, .ofNat 7, "t=4.00", true, at_ (-1), some (at_ 1000001)⟩] := by decide +kernel
  have hcounts : (s.2.alarms.length, s.2.entries.length, s.2.outputs.length, s.2.pushes.length) =
      (1, 1, 1, 1) := by decide +kernel
  -- what follows does not look into the changes again
  clear_value s
  refine ⟨hfits, hlength, hreads, hcounts, ?_, ?_⟩
  · obtain ⟨a, ha, hfields⟩ := List.map_eq_singleton_iff.mp halarms
    injection hfields with hid hfields
    injection hfields with hlast hfields
    injection hfields with hrun hcreated
    have halarm := hreads.alarm (.ofNat 7)
    have hfind : ([a].find? fun b => b.id = .ofNat 7) = some a :=
      List.find?_cons_of_pos (decide_eq_true hid)
    rw [ha, hfind] at halarm
    refine ⟨a.kept, halarm, ?_, ?_, ?_⟩
    · show a.lastRun.floored = _
      rw [hlast]
      decide
    · show a.runInterval.kept.nanos = _
      rw [hrun]
      decide
    · show a.createdAt.floored = _
      rw [hcreated]
      decide
  · have hhistory := hreads.history (.ofNat 7) 20
    rw [hentries] at hhistory
    refine hhistory.trans ?_
    show Except.ok (List.take 20 (List.mergeSort [_] _)) = _
    rw [List.mergeSort_singleton]
    rfl

end Vigil
