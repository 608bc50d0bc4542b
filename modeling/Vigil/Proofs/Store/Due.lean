import Vigil.Proofs.Store.Rows
import Vigil.Store.Tables

/-!
# When an alarm is due

Multiples of spans stop at the longest span, moves in time at the longest move, and sums of 64 bits are
rounded where they are too large; yet none of these bounds is ever seen. Whatever is cut off lies beyond
all instants, so that due times and windows are those of exact arithmetic, in nanoseconds for an alarm and
in whole milliseconds for its row.
-/

namespace Vigil

namespace Alarm

variable {a : Alarm} {now later : Instant} {least : Span}

/-- An alarm that is due stays due. -/
theorem isDue_of_le (hle : now ≤ later) (h : a.isDue now least = true) :
    a.isDue later least = true := by
  rw [isDue_iff] at h ⊢
  exact h.imp_right fun hpassed => Int.le_trans hpassed hle

/-- A window is as many run intervals long as points are needed, unless there are no instants so
early. -/
theorem nanos_window_start (a : Alarm) (now : Instant) (h : a.rule.trigger ≤ maxWindowTrigger) :
    (a.window now).1.nanos = max firstNano (now.nanos - a.runInterval.nanos * a.rule.trigger) := by
  have hbounds := now.nanos_bounds
  have htimes : (a.runInterval.times a.rule.trigger).nanos =
      min (a.runInterval.nanos * a.rule.trigger) maxSpanNanos := rfl
  rw [window, Nat.min_eq_left h, Instant.nanos_back, htimes, ← Nat.cast_mul]
  simp only [maxSpanNanos, firstNano, firstSecond, nanosPerSecond]
  omega

end Alarm

namespace Tables

variable {t : Tables} {alarms : List Alarm}

/-- The table hands out the alarms whose milliseconds have passed, if their rows can be read. -/
theorem dueAlarms_eq (h : t.alarms = alarms.map .ofAlarm) (least : Span) (now : Instant) :
    t.dueAlarms least now =
      lift (((alarms.filter fun a => a.enabled && decide (a.lastRun.millis +
        max (a.runInterval.millis : Int) least.millis ≤ now.millis)).map .ofAlarm).mapM
          AlarmRow.toAlarm) := by
  have hdue : ∀ a ∈ alarms, (AlarmRow.ofAlarm a).isDue least now = (a.enabled && decide
      (a.lastRun.millis + max (a.runInterval.millis : Int) least.millis ≤ now.millis)) := by
    intro a _
    rw [Bool.eq_iff_iff, AlarmRow.isDue_ofAlarm_iff, Bool.and_eq_true, decide_eq_true_iff]
  rw [dueAlarms, h, List.filter_map, ← List.filter_congr hdue]
  rfl

end Tables

/-- Due times and windows are exact: an alarm is due when the longer of its interval and the least one has
passed since its last run, and from then on; its row is due when it has passed in whole milliseconds, and
the table hands out the alarms of these rows; and the window for as many points as 32 bits can count is so
many run intervals long or begins at the first instant. -/
theorem due_and_window_exact (a : Alarm) (now : Instant) (least : Span) :
    (a.isDue now least = true ↔ a.enabled = true ∧
      a.lastRun.nanos + max (a.runInterval.nanos : Int) least.nanos ≤ now.nanos) ∧
    (∀ later, now ≤ later → a.isDue now least = true → a.isDue later least = true) ∧
    ((AlarmRow.ofAlarm a).isDue least now = true ↔ a.enabled = true ∧
      a.lastRun.millis + max (a.runInterval.millis : Int) least.millis ≤ now.millis) ∧
    (∀ (t : Tables) (alarms : List Alarm), t.alarms = alarms.map .ofAlarm →
      t.dueAlarms least now =
        Tables.lift (((alarms.filter fun b => b.enabled && decide (b.lastRun.millis +
          max (b.runInterval.millis : Int) least.millis ≤ now.millis)).map .ofAlarm).mapM
            AlarmRow.toAlarm)) ∧
    (a.rule.trigger ≤ 4294967295 → ∃ start, a.window now = (start, now) ∧
      start.nanos = max Instant.first.nanos (now.nanos - a.runInterval.nanos * a.rule.trigger)) := by
  refine ⟨?_, fun later hle hdue => Alarm.isDue_of_le hle hdue, AlarmRow.isDue_ofAlarm_iff a least now,
    fun t alarms h => Tables.dueAlarms_eq h least now, fun htrigger => ⟨_, rfl, ?_⟩⟩
  · rw [Alarm.isDue_iff, Span.nanos_longer, Nat.cast_max]
  · exact a.nanos_window_start now htrigger

/-- An alarm that was run at the first instant and waits until the last one, with the largest number of
points. -/
def onceInAllTime : Alarm :=
  { id := .ofNat 1, owner := "", name := "", info := "", message := "", group := "", enabled := true
    fired := false, rule := ⟨[], "", 4294967295⟩
    runInterval := .ofNanos (lastNano - firstNano).toNat, lastRun := .first, createdAt := .first
    updatedAt := .first, history := [], compiled := none }

/-- At the last instant the alarm is due, and so is its row, its window begins at the first instant, and with
the longest of all spans as the least interval neither is due. -/
theorem onceInAllTime_due_at_last :
    onceInAllTime.isDue .last .zero = true ∧
    (AlarmRow.ofAlarm onceInAllTime).isDue .zero .last = true ∧
    onceInAllTime.isDue .last .longest ≠ true ∧
    (AlarmRow.ofAlarm onceInAllTime).isDue .longest .last ≠ true ∧
    onceInAllTime.rule.trigger ≤ 4294967295 ∧
    ∃ start, onceInAllTime.window .last = (start, .last) ∧ start.nanos = Instant.first.nanos := by
  obtain ⟨hdue, -, hrow, -, hwindow⟩ := due_and_window_exact onceInAllTime .last .zero
  obtain ⟨hlong, -, hlongRow, -⟩ := due_and_window_exact onceInAllTime .last .longest
  have htrigger : onceInAllTime.rule.trigger ≤ 4294967295 := by decide
  obtain ⟨start, hsame, hstart⟩ := hwindow htrigger
  refine ⟨hdue.mpr (by decide), hrow.mpr (by decide), mt hlong.mp (by decide), mt hlongRow.mp (by decide),
    htrigger, start, hsame, hstart.trans (by decide)⟩

end Vigil
