import Vigil.Proofs.Alarm.Document
import Vigil.Proofs.Document.Text
import Vigil.Proofs.Results
import Vigil.Proofs.Time.Instants
import Vigil.Proofs.Uuid
import Vigil.Store.Tables.Row

/-!
# Rows read back

Times and spans on whole milliseconds are kept without loss, as long as a span fits into 64 bits. So
the row of such an alarm or entry is read back as that alarm or entry, and the row says that an alarm is
due when the alarm itself does. In the sum of the last run and the interval, a number that 64 bits do
not hold is rounded; it stays beyond every instant.
-/

namespace Vigil

def Instant.OnMillis (t : Instant) : Prop := t.nanos % nanosPerMilli = 0

def Span.OnMillis (s : Span) : Prop := s.nanos % nanosPerMilli = 0

instance : DecidablePred Instant.OnMillis := fun _ => inferInstanceAs (Decidable (_ = _))

instance : DecidablePred Span.OnMillis := fun _ => inferInstanceAs (Decidable (_ = _))

namespace Instant

variable {t u : Instant}

theorem OnMillis.nanos_eq (h : t.OnMillis) : t.nanos = t.millis * nanosPerMilli := by
  simp only [OnMillis, millis, nanosPerMilli] at h ⊢
  omega

theorem OnMillis.ofStored (h : t.OnMillis) : Instant.ofStored t.millis = .ok t := by
  have hsome : ofMillis? t.millis = some t := ofNanos?_eq_some.mpr h.nanos_eq
  rw [Instant.ofStored, hsome]

theorem OnMillis.millis_le_iff (ht : t.OnMillis) (hu : u.OnMillis) :
    t.millis ≤ u.millis ↔ t ≤ u := by
  rw [le_def, ht.nanos_eq, hu.nanos_eq, nanosPerMilli]
  omega

theorem millis_bounds (t : Instant) : -8334601228800000 ≤ t.millis ∧ t.millis ≤ 8210266876799999 := by
  have hbounds := t.nanos_bounds
  simp only [millis, nanosPerMilli]
  omega

theorem firstNano_le_millis (t : Instant) : firstNano ≤ t.millis * nanosPerMilli := by
  have hbounds := t.millis_bounds
  simp only [firstNano, firstSecond, nanosPerSecond, nanosPerMilli]
  omega

theorem millis_le_lastNano (t : Instant) : t.millis * nanosPerMilli ≤ lastNano := by
  have hbounds := t.millis_bounds
  simp only [lastNano, lastSecond, nanosPerSecond, nanosPerMilli]
  omega

/-- The start of the millisecond. -/
def floored (t : Instant) : Instant where
  nanos := t.millis * nanosPerMilli
  first_le := t.firstNano_le_millis
  le_last := t.millis_le_lastNano

theorem onMillis_floored (t : Instant) : t.floored.OnMillis :=
  Int.mul_emod_left _ _

theorem millis_floored (t : Instant) : t.floored.millis = t.millis :=
  Int.mul_ediv_cancel _ (by decide)

theorem OnMillis.floored_eq (h : t.OnMillis) : t.floored = t :=
  ext h.nanos_eq.symm

end Instant

namespace Span

variable {s r : Span}

theorem OnMillis.nanos_eq (h : s.OnMillis) : s.nanos = s.millis * nanosPerMilli := by
  simp only [OnMillis, millis, nanosPerMilli] at h ⊢
  omega

theorem stored_of_le (h : s.millis ≤ greatestWord) : s.stored = s.millis := by
  rw [stored]
  omega

theorem OnMillis.ofStored (h : s.OnMillis) (hle : s.millis ≤ greatestWord) :
    Span.ofStored s.stored = s := by
  apply ext
  rw [stored_of_le hle, Span.ofStored, Int.toNat_natCast, ofMillis, ← h.nanos_eq]
  exact nanos_ofNanos s.le_max

end Span

/-- Rounding at most halves a number. -/
theorem le_two_mul_nearestRounded {n : Int} (h : 0 ≤ n) : n ≤ 2 * nearestRounded n := by
  obtain ⟨k, rfl⟩ := Int.eq_ofNat_of_zero_le h
  rcases Nat.eq_zero_or_pos k with rfl | hpos
  · exact Int.le_refl 0
  have hunit : Nat.pow 2 (k.log2 - 52) ≤ k :=
    (Nat.pow_le_pow_right (by decide) (Nat.sub_le _ _)).trans (Nat.log2_self_le (by omega))
  have hone : 0 < Nat.pow 2 (k.log2 - 52) := Nat.pow_pos (by decide)
  rw [nearestRounded]
  simp only [Int.natAbs_natCast, Int.sign_natCast_of_ne_zero (Nat.ne_of_gt hpos), Int.one_mul]
  generalize Nat.pow 2 (k.log2 - 52) = unit at hunit hone
  have hwhole : 1 ≤ k / unit := (Nat.one_le_div_iff hone).mpr hunit
  have hsplit := Nat.div_add_mod k unit
  have hrest := Nat.mod_lt k hone
  have hleast : unit * 1 ≤ unit * (k / unit) := Nat.mul_le_mul_left unit hwhole
  have hup : ∀ rounded, k / unit ≤ rounded → (k : Int) ≤ 2 * (rounded * unit) := by
    intro rounded hle
    have hmul : unit * (k / unit) ≤ rounded * unit := by
      rw [Nat.mul_comm rounded]
      exact Nat.mul_le_mul_left unit hle
    have hnat : k ≤ 2 * (rounded * unit) := by omega
    exact_mod_cast hnat
  split
  · exact hup _ (Nat.le_succ _)
  · exact hup _ (Nat.le_refl _)

/-- A time and a span add up to at most another time, whether 64 bits hold the sum or not. -/
theorem wordSum_le_iff {a b now : Int} (ha : -8334601228800000 ≤ a ∧ a ≤ 8210266876799999)
    (hb : 0 ≤ b ∧ b ≤ greatestWord) (hnow : now ≤ 8210266876799999) :
    wordSum a b ≤ now ↔ a + b ≤ now := by
  simp only [greatestWord] at hb
  unfold wordSum
  split
  · exact Iff.rfl
  · rename_i hover
    simp only [leastWord, greatestWord] at hover
    -- an overflow needs a time after 1970
    have hround := le_two_mul_nearestRounded (n := a) (by omega)
    have hround' := le_two_mul_nearestRounded (n := b) (by omega)
    have hsum := le_two_mul_nearestRounded (n := nearestRounded a + nearestRounded b) (by omega)
    constructor <;> intro h <;> omega

/-- The times of an entry are on whole milliseconds. -/
structure Entry.OnMillis (e : Entry) : Prop where
  firedAt : e.firedAt.OnMillis
  clearedAt : ∀ t ∈ e.clearedAt, t.OnMillis

/-- A table keeps the alarm without loss: its numbers fit into 64 bits and its times are on whole
milliseconds. -/
structure Alarm.Keepable (a : Alarm) : Prop where
  rule : a.rule.Fits
  runInterval : a.runInterval.OnMillis
  runInterval_le : a.runInterval.millis ≤ greatestWord
  lastRun : a.lastRun.OnMillis
  createdAt : a.createdAt.OnMillis
  updatedAt : a.updatedAt.OnMillis
  history : ∀ e ∈ a.history, e.OnMillis

/-- The fields of an alarm that are kept in its row. -/
def Alarm.recorded (a : Alarm) : Alarm :=
  { a with history := [], compiled := none }

theorem Uuid.ofStored_text (column : String) (id : Uuid) : Uuid.ofStored column id.text = .ok id := by
  rw [ofStored, read?_text]

theorem bool_ofBool (b : Bool) : (Cell.ofBool b).bool = .ok b := by
  cases b <;> rfl

theorem instant_number {t : Instant} (h : t.OnMillis) : (Cell.number t.millis).instant = .ok t :=
  h.ofStored

/-- Exactly when an alarm is due, to the nanosecond. -/
theorem Alarm.isDue_iff (a : Alarm) (now : Instant) (least : Span) :
    a.isDue now least = true ↔ a.enabled = true ∧
      a.lastRun.nanos + (a.runInterval.longer least).nanos ≤ now.nanos := by
  have hfirst := a.lastRun.first_le
  have hlast := now.le_last
  rw [isDue, Bool.and_eq_true, and_congr_right_iff, Instant.add?_eq]
  intro _
  unfold Instant.ofNanos?
  split
  · rename_i next hnext
    split at hnext
    · cases hnext
      rw [decide_eq_true_iff]
      exact Iff.rfl
    · cases hnext
  · rename_i hnext
    split at hnext
    · cases hnext
    · rw [Bool.false_eq_true, false_iff]
      omega

namespace AlarmRow

variable {a : Alarm}

theorem toAlarm_ofAlarm (h : a.Keepable) : (ofAlarm a).toAlarm = .ok a.recorded := by
  have hrule : Json.ofStored Rule.ofJson? "filter" a.rule.toJson.text = .ok a.rule := by
    rw [Json.ofStored, Json.ofText?_text, Option.bind_some, Rule.ofJson?_toJson h.rule]
  simp only [toAlarm, ofAlarm, hrule, Uuid.ofStored_text, bool_ofBool, instant_number h.lastRun,
    instant_number h.createdAt, instant_number h.updatedAt]
  show Except.ok { a.recorded with runInterval := Span.ofStored a.runInterval.stored } = _
  rw [h.runInterval.ofStored h.runInterval_le]
  rfl

/-- The next run is a sum of milliseconds, where it has an instant. -/
theorem isDue_alarm (h : a.Keepable) {minInterval : Span} {now : Instant}
    (hmin : minInterval.OnMillis) (hnow : now.OnMillis) :
    a.isDue now minInterval = true ↔ a.enabled = true ∧
      a.lastRun.millis + max a.runInterval.millis minInterval.millis ≤ now.millis := by
  have hlast := h.lastRun.nanos_eq
  have hrun := h.runInterval.nanos_eq
  have hmin := hmin.nanos_eq
  have hnow := hnow.nanos_eq
  simp only [nanosPerMilli] at hlast hrun hmin hnow
  rw [Alarm.isDue_iff, Span.nanos_longer]
  refine and_congr_right fun _ => ?_
  omega

/-- A row is due when the milliseconds add up so, be the numbers as large as they may: a span that 64
bits do not hold is beyond all times, and so is what is kept of it. -/
theorem isDue_ofAlarm_iff (a : Alarm) (minInterval : Span) (now : Instant) :
    (ofAlarm a).isDue minInterval now = true ↔ a.enabled = true ∧
      a.lastRun.millis + max (a.runInterval.millis : Int) minInterval.millis ≤ now.millis := by
  have hlast := a.lastRun.millis_bounds
  have hnow := now.millis_bounds
  have henabled : Cell.ofBool a.enabled = .number 1 ↔ a.enabled = true := by
    cases a.enabled <;> decide
  rw [isDue, Bool.and_eq_true, decide_eq_true_iff, decide_eq_true_iff]
  refine and_congr henabled ?_
  simp only [ofAlarm, Cell.summand, Cell.atLeast]
  rw [wordSum_le_iff hlast (by simp only [Span.stored, greatestWord]; omega) hnow.2]
  simp only [Span.stored, greatestWord]
  omega

theorem isDue_ofAlarm (h : a.Keepable) {minInterval : Span} {now : Instant}
    (hmin : minInterval.OnMillis) (hnow : now.OnMillis) :
    (ofAlarm a).isDue minInterval now = a.isDue now minInterval := by
  rw [Bool.eq_iff_iff, isDue_alarm h hmin hnow, isDue_ofAlarm_iff, Nat.cast_max]

end AlarmRow

theorem EntryRow.toEntry_ofEntry {e : Entry} (h : e.OnMillis) : (ofEntry e).toEntry = .ok e := by
  have hcleared : Instant.ofStored? (e.clearedAt.map Instant.millis) = .ok e.clearedAt := by
    cases htime : e.clearedAt with
    | none => rfl
    | some t =>
      rw [Option.map_some, Instant.ofStored?, (h.clearedAt t htime).ofStored]
      rfl
  simp only [toEntry, ofEntry, Uuid.ofStored_text, h.firedAt.ofStored, hcleared]
  rfl

end Vigil
