import Vigil.Proofs.Delivery.Document
import Vigil.Proofs.Store.Rows

/-!
# Records as tables keep them

Rows know times and spans in milliseconds only. So the row of a record is also that of the record with
its times at the start of their milliseconds, and with its span cut off to milliseconds, as many as 64
bits hold: this is the record that is read back. It is read whatever its times and spans are; only what
is counted in conditions and services has to fit into its type.
-/

namespace Vigil

namespace Span

theorem min_millis_le (s : Span) :
    min s.millis 9223372036854775807 * nanosPerMilli ≤ maxSpanNanos := by
  simp only [maxSpanNanos, nanosPerSecond, nanosPerMilli]
  omega

/-- The span in whole milliseconds, at most `2 ^ 63 - 1` of them. -/
def kept (s : Span) : Span where
  nanos := min s.millis 9223372036854775807 * nanosPerMilli
  le_max := s.min_millis_le

theorem onMillis_kept (s : Span) : s.kept.OnMillis :=
  Nat.mul_mod_left _ _

theorem millis_kept (s : Span) : s.kept.millis = min s.millis 9223372036854775807 :=
  Nat.mul_div_cancel _ (by decide)

theorem stored_kept (s : Span) : s.kept.stored = s.stored := by
  simp only [stored, millis_kept, greatestWord]
  omega

theorem millis_kept_le (s : Span) : (s.kept.millis : Int) ≤ greatestWord := by
  simp only [millis_kept, greatestWord]
  omega

end Span

/-- The alarm that is read back from the row of an alarm. -/
def Alarm.kept (a : Alarm) : Alarm :=
  { a with
    runInterval := a.runInterval.kept
    lastRun := a.lastRun.floored
    createdAt := a.createdAt.floored
    updatedAt := a.updatedAt.floored
    history := []
    compiled := none }

theorem Alarm.keepable_kept {a : Alarm} (h : a.rule.Fits) : a.kept.Keepable where
  rule := h
  runInterval := a.runInterval.onMillis_kept
  runInterval_le := a.runInterval.millis_kept_le
  lastRun := a.lastRun.onMillis_floored
  createdAt := a.createdAt.onMillis_floored
  updatedAt := a.updatedAt.onMillis_floored
  history _ he := absurd he List.not_mem_nil

namespace AlarmRow

variable {a : Alarm}

theorem ofAlarm_kept (a : Alarm) : ofAlarm a.kept = ofAlarm a := by
  simp only [ofAlarm, Alarm.kept, Span.stored_kept, Instant.millis_floored]

/-- Every row of an alarm is read back. -/
theorem toAlarm_eq_kept (h : a.rule.Fits) : (ofAlarm a).toAlarm = .ok a.kept := by
  rw [← ofAlarm_kept]
  exact toAlarm_ofAlarm (Alarm.keepable_kept h)

/-- The row says that the alarm is due when the alarm that is read back says so, at the start of the
millisecond. -/
theorem isDue_eq_kept (h : a.rule.Fits) (least : Span) (now : Instant) :
    (ofAlarm a).isDue least now = a.kept.isDue now.floored least.kept := by
  have hdue := isDue_ofAlarm (Alarm.keepable_kept h) least.onMillis_kept now.onMillis_floored
  rw [← hdue, ofAlarm_kept, isDue, isDue, Span.stored_kept, Instant.millis_floored]

end AlarmRow

/-- The entry that is read back from the row of an entry. -/
def Entry.kept (e : Entry) : Entry :=
  { e with firedAt := e.firedAt.floored, clearedAt := e.clearedAt.map Instant.floored }

theorem Entry.onMillis_kept (e : Entry) : e.kept.OnMillis where
  firedAt := e.firedAt.onMillis_floored
  clearedAt t ht := by
    obtain ⟨s, -, rfl⟩ := Option.mem_map.mp ht
    exact s.onMillis_floored

namespace EntryRow

theorem ofEntry_kept (e : Entry) : ofEntry e.kept = ofEntry e := by
  have hcleared : (e.clearedAt.map Instant.floored).map Instant.millis = e.clearedAt.map Instant.millis := by
    rw [Option.map_map]
    exact congrArg (Option.map · e.clearedAt) (funext Instant.millis_floored)
  simp only [ofEntry, Entry.kept, Instant.millis_floored, hcleared]

/-- Every row of an entry is read back. -/
theorem toEntry_eq_kept (e : Entry) : (ofEntry e).toEntry = .ok e.kept := by
  rw [← ofEntry_kept]
  exact toEntry_ofEntry e.onMillis_kept

end EntryRow

theorem Instant.ofStored_millis (t : Instant) : Instant.ofStored t.millis = .ok t.floored := by
  rw [← t.millis_floored]
  exact t.onMillis_floored.ofStored

theorem ChannelRow.toChannel_ofChannel {c : Channel} (h : c.service.Fits) :
    (ofChannel c).toChannel = .ok c := by
  have hservice : Json.ofStored Service.ofJson? "config" c.service.toJson.text = .ok c.service := by
    rw [Json.ofStored, Json.ofText?_text, Option.bind_some, Service.ofJson?_toJson h]
  simp only [toChannel, ofChannel, Uuid.ofStored_text, hservice]
  rfl

/-- The output that is read back from the row of an output, with the channel that was kept under the
identifier of its channel. -/
def Output.kept (o : Output) (c : Channel) : Output :=
  { o with channel := c, lastPushed := o.lastPushed.map Instant.floored }

/-- Every row of an output is read back. -/
theorem OutputRow.toOutput_eq_kept (o : Output) {c : Channel} (h : c.service.Fits) :
    (ofOutput o).toOutput (.ofChannel c) = .ok (o.kept c) := by
  have hpushed : (o.lastPushed.map fun t => Cell.number t.millis).mapM Cell.instant =
      .ok (o.lastPushed.map Instant.floored) := by
    cases o.lastPushed with
    | none => rfl
    | some t =>
      have htime : (Cell.number t.millis).instant = .ok t.floored := t.ofStored_millis
      simp only [Option.map_some, Option.mapM_some, htime]
      rfl
  simp only [toOutput, ofOutput, ChannelRow.toChannel_ofChannel h, Uuid.ofStored_text, bool_ofBool,
    hpushed]
  rfl

/-- The attempt that is read back from the row of an attempt. -/
def Push.kept (p : Push) : Push :=
  { p with timestamp := p.timestamp.floored }

/-- Every row of an attempt is read back. -/
theorem PushRow.toPush_eq_kept (p : Push) : (ofPush p).toPush = .ok p.kept := by
  simp only [toPush, ofPush, Uuid.ofStored_text, p.timestamp.ofStored_millis]
  rfl

end Vigil
