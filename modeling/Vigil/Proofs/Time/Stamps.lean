import Vigil.Proofs.Decimal.Digits
import Vigil.Proofs.Time.Calendar
import Vigil.Proofs.Time.Instants
import Vigil.Time.Stamp

/-!
# Instants read back

The text of an instant in UTC names that instant, whatever its year and however many digits of a second
it needs. Each number of a text is a run of digits that ends where its width is used up, or before a
character that is no digit.
-/

namespace Vigil.Stamp

open Vigil.Decimal (digitsValue)
open Vigil.Text (isBlank isAsciiDigit trimLeft)

variable {ds rest : List Char} {c : Char} {n most width : Nat}

/-- The characters are digits, at least one, and write a number. -/
structure Writes (ds : List Char) (n : Nat) : Prop where
  digits : ∀ c ∈ ds, isAsciiDigit c = true
  value : digitsValue ds = n
  ne_nil : ds ≠ []

theorem toList_padded (width n : Nat) : (padded width n).toList =
    List.replicate (width - (Nat.toDigits 10 n).length) '0' ++ Nat.toDigits 10 n := by
  have hdigits : (toString n).toList = Nat.toDigits 10 n := Nat.toList_repr
  rw [padded, String.toList_append, String.toList_ofList, ← String.length_toList, hdigits]

theorem digitsValue_replicate_zero (k : Nat) (ds : List Char) :
    digitsValue (List.replicate k '0' ++ ds) = digitsValue ds := by
  induction k with
  | zero => rfl
  | succ k ih =>
    rw [List.replicate_succ, List.cons_append]
    exact ih

theorem writes_padded (width n : Nat) : Writes (padded width n).toList n := by
  rw [toList_padded]
  refine ⟨?_, ?_, ?_⟩
  · intro c hc
    rcases List.mem_append.mp hc with hc | hc
    · rw [List.eq_of_mem_replicate hc]
      decide
    · exact Decimal.isAsciiDigit_of_mem_toDigits hc
  · rw [digitsValue_replicate_zero, Decimal.digitsValue_toDigits]
  · simp [Nat.toDigits_ne_nil]

theorem length_padded (hwidth : 0 < width) (h : n < 10 ^ width) :
    (padded width n).toList.length = width := by
  have hle := (Nat.length_toDigits_le_iff (b := 10) (by decide) hwidth).mpr h
  rw [toList_padded, List.length_append, List.length_replicate]
  omega

theorem not_blank_of_digit (h : isAsciiDigit c = true) : isBlank c = false := by
  have hbounds : 48 ≤ c.toNat ∧ c.toNat ≤ 57 := by
    simpa [isAsciiDigit, Char.le_def, UInt32.le_iff_toNat_le] using h
  simp [isBlank]
  omega

theorem trimLeft_cons (h : isBlank c = false) (cs : List Char) : trimLeft (c :: cs) = c :: cs :=
  List.dropWhile_cons_of_neg (ne_true_of_eq_false h)

theorem Writes.trimLeft_append (h : Writes ds n) (rest : List Char) :
    trimLeft (ds ++ rest) = ds ++ rest := by
  obtain ⟨c, cs, rfl⟩ := List.exists_cons_of_ne_nil h.ne_nil
  exact trimLeft_cons (not_blank_of_digit (h.digits c List.mem_cons_self)) _

/-- A run of digits is read up to where it ends. -/
theorem Writes.number? (h : Writes ds n) (hle : ds.length ≤ most)
    (hstop : most ≤ ds.length ∨ ∀ c ∈ rest.head?, isAsciiDigit c = false) :
    Stamp.number? most (ds ++ rest) = some (n, rest) := by
  have hhead : ∀ c ∈ (rest.take (most - ds.length)).head?, isAsciiDigit c = false := by
    intro c hc
    rw [List.head?_take] at hc
    split at hc
    · cases hc
    · rename_i hmore
      exact hstop.resolve_left (by omega) c hc
  have hdigits : ((ds ++ rest).take most).takeWhile isAsciiDigit = ds := by
    rw [List.take_append, List.take_of_length_le hle]
    exact (Text.scan_append h.digits hhead).1
  have hnonempty : ds.isEmpty = false := by simpa using h.ne_nil
  rw [Stamp.number?, hdigits]
  simp only [hnonempty, List.drop_left]
  exact congrArg (fun k => some (k, rest)) h.value

theorem field?_padded (h : n < 100) (rest : List Char) :
    field? ((padded 2 n).toList ++ rest) = some (n, rest) := by
  have hlength : (padded 2 n).toList.length = 2 := length_padded (by decide) h
  rw [field?, (writes_padded 2 n).trimLeft_append]
  exact (writes_padded 2 n).number? hlength.le (.inl hlength.ge)

theorem mark?_cons (h : isBlank c = false) (rest : List Char) : mark? c (c :: rest) = some rest := by
  rw [mark?, trimLeft_cons h]
  exact if_pos rfl

theorem year?_of_digit (hc : isAsciiDigit c = true) (cs : List Char) :
    year? (c :: cs) = (Stamp.number? 4 (c :: cs)).map fun (n, rest) => ((n : Int), rest) := by
  rw [year?, trimLeft_cons (not_blank_of_digit hc)]
  split
  · rename_i heq
    cases heq
    cases hc
  · rename_i heq
    cases heq
    cases hc
  · rfl

theorem year?_minus (cs : List Char) :
    year? ('-' :: cs) = (Stamp.number? cs.length cs).map fun (n, rest) => (-(n : Int), rest) := rfl

theorem year?_plus (cs : List Char) :
    year? ('+' :: cs) = (Stamp.number? cs.length cs).map fun (n, rest) => ((n : Int), rest) := rfl

/-- A year ends at the hyphen after it. -/
theorem year?_yearText (year : Int) (rest : List Char) :
    year? ((yearText year).toList ++ '-' :: rest) = some (year, '-' :: rest) := by
  have hstop : ∀ c ∈ ('-' :: rest).head?, isAsciiDigit c = false := by
    rintro c ⟨⟩
    decide
  have hsigned (n : Nat) : Stamp.number? ((padded 4 n).toList ++ '-' :: rest).length
      ((padded 4 n).toList ++ '-' :: rest) = some (n, '-' :: rest) :=
    (writes_padded 4 n).number? (by simp) (.inr hstop)
  by_cases hfour : 0 ≤ year ∧ year ≤ 9999
  · have hyear : (year.toNat : Int) = year := Int.toNat_of_nonneg hfour.1
    have hwrites := writes_padded 4 year.toNat
    have hlength : (padded 4 year.toNat).toList.length = 4 := length_padded (by decide) (by omega)
    have hnumber : Stamp.number? 4 ((padded 4 year.toNat).toList ++ '-' :: rest) =
        some (year.toNat, '-' :: rest) := hwrites.number? hlength.le (.inl hlength.ge)
    obtain ⟨d, digits, hdigits⟩ := List.exists_cons_of_ne_nil hwrites.ne_nil
    have hdigit : isAsciiDigit d = true := hwrites.digits d (hdigits ▸ List.mem_cons_self)
    rw [yearText, if_pos hfour]
    rw [hdigits, List.cons_append] at hnumber ⊢
    rw [year?_of_digit hdigit, hnumber]
    simp only [Option.map_some, hyear]
  · by_cases hneg : year < 0
    · have hyear : -(year.natAbs : Int) = year := by omega
      have htext : (yearText year).toList = '-' :: (padded 4 year.natAbs).toList := by
        rw [yearText, if_neg hfour, if_pos hneg, String.toList_append]
        rfl
      rw [htext, List.cons_append, year?_minus, hsigned]
      simp only [Option.map_some, hyear]
    · have hyear : (year.toNat : Int) = year := by omega
      have htext : (yearText year).toList = '+' :: (padded 4 year.toNat).toList := by
        rw [yearText, if_neg hfour, if_neg hneg, String.toList_append]
        rfl
      rw [htext, List.cons_append, year?_plus, hsigned]
      simp only [Option.map_some, hyear]

/-- The digits after the point of a second are read up to what is no digit. -/
theorem Writes.nanos? (h : Writes ds n) (hle : ds.length ≤ 9)
    (hstop : ∀ c ∈ rest.head?, isAsciiDigit c = false) :
    Stamp.nanos? ('.' :: (ds ++ rest)) = some (n * 10 ^ (9 - ds.length), rest) := by
  have hdigits : (ds ++ rest).takeWhile isAsciiDigit = ds := (Text.scan_append h.digits hstop).1
  have hnonempty : ds.isEmpty = false := by simpa using h.ne_nil
  rw [Stamp.nanos?]
  simp only [hdigits, hnonempty, List.take_of_length_le hle, List.drop_left]
  exact congrArg (fun k => some (k * 10 ^ (9 - ds.length), rest)) h.value

/-- A fraction is left out, or `width` digits hold the nanoseconds without their last zeros. -/
theorem fractionText_cases (h : n < 1000000000) :
    (n = 0 ∧ (fractionText n).toList = []) ∨
      ∃ width m, (width = 3 ∨ width = 6 ∨ width = 9) ∧ m < 10 ^ width ∧ m * 10 ^ (9 - width) = n ∧
        (fractionText n).toList = '.' :: (padded width m).toList := by
  have htext (width m : Nat) : ("." ++ padded width m).toList = '.' :: (padded width m).toList := by
    rw [String.toList_append]
    rfl
  by_cases hzero : n = 0
  · refine .inl ⟨hzero, ?_⟩
    rw [fractionText, if_pos hzero]
    rfl
  · by_cases hmillis : n % 1000000 = 0
    · refine .inr ⟨3, n / 1000000, by omega, by omega, by omega, ?_⟩
      rw [fractionText, if_neg hzero, if_pos hmillis, htext]
    · by_cases hmicros : n % 1000 = 0
      · refine .inr ⟨6, n / 1000, by omega, by omega, by omega, ?_⟩
        rw [fractionText, if_neg hzero, if_neg hmillis, if_pos hmicros, htext]
      · refine .inr ⟨9, n, by omega, by omega, by omega, ?_⟩
        rw [fractionText, if_neg hzero, if_neg hmillis, if_neg hmicros, htext]

theorem nanos?_fractionText (h : n < 1000000000) (rest : List Char) :
    Stamp.nanos? ((fractionText n).toList ++ 'Z' :: rest) = some (n, 'Z' :: rest) := by
  have hstop : ∀ c ∈ ('Z' :: rest).head?, isAsciiDigit c = false := by
    rintro c ⟨⟩
    decide
  rcases fractionText_cases h with ⟨rfl, hnone⟩ | ⟨width, m, hwidth, hm, hn, htext⟩
  · rw [hnone]
    rfl
  · have hlength : (padded width m).toList.length = width := length_padded (by omega) hm
    have hread := (writes_padded width m).nanos? (by omega) hstop
    rw [htext, List.cons_append, hread, hlength, hn]

/-- The characters of a date that follow its year, and what stands after it. -/
theorem date?_append {d : Date} (h : d.Valid) (rest : List Char) :
    date? ((yearText d.year).toList ++ '-' :: ((padded 2 d.month.toNat).toList ++
      '-' :: ((padded 2 d.day.toNat).toList ++ rest))) = some (d, rest) := by
  have hvalid := h
  obtain ⟨hmonthFirst, hmonthLast, hdayFirst, hdayLast⟩ := hvalid
  have hdays := Date.daysInMonth_le d.year d.month
  have hmonth : (d.month.toNat : Int) = d.month := by omega
  have hday : (d.day.toNat : Int) = d.day := by omega
  rw [date?, year?_yearText]
  simp only [Option.bind_eq_bind, Option.bind_some, mark?_cons (by decide : isBlank '-' = false)]
  rw [field?_padded (by omega)]
  simp only [Option.bind_some, mark?_cons (by decide : isBlank '-' = false)]
  rw [field?_padded (by omega)]
  simp only [Option.bind_some, hmonth, hday]
  exact if_pos h

theorem toList_text (t : Instant) :
    let date := Date.ofDays (t.seconds / secondsPerDay)
    let second := (t.seconds % secondsPerDay).toNat
    (text "Z" t).toList = (yearText date.year).toList ++ '-' :: ((padded 2 date.month.toNat).toList ++
      '-' :: ((padded 2 date.day.toNat).toList ++ 'T' :: ((padded 2 (second / 3600)).toList ++
      ':' :: ((padded 2 (second / 60 % 60)).toList ++ ':' :: ((padded 2 (second % 60)).toList ++
      ((fractionText t.subsecNanos).toList ++ 'Z' :: [])))))) := by
  have hstring (s : String) : toString s = s := rfl
  simp [text, hstring]

theorem subsecNanos_lt (t : Instant) : t.subsecNanos < 1000000000 := by
  rw [Instant.subsecNanos, nanosPerSecond]
  omega

/-- The seconds of an instant are those of its day, its hour, its minute and what is left. -/
theorem seconds_eq_sum (t : Instant) :
    let second := (t.seconds % secondsPerDay).toNat
    (Date.ofDays (t.seconds / secondsPerDay)).toDays * secondsPerDay + (second / 3600 : Nat) * 3600 +
      (second / 60 % 60 : Nat) * 60 + (second % 60 : Nat) = t.seconds := by
  rw [Date.toDays_ofDays, secondsPerDay]
  omega

theorem second_lt (t : Instant) : (t.seconds % secondsPerDay).toNat < 86400 := by
  rw [secondsPerDay]
  omega

/-- The text of an instant names it. -/
theorem read?_text (t : Instant) : read? (text "Z" t) = some t := by
  have hsum := seconds_eq_sum t
  have hsecond := second_lt t
  rw [read?, toList_text, date?_append (Date.valid_ofDays _)]
  generalize (t.seconds % secondsPerDay).toNat = second at hsum hsecond ⊢
  simp only [Option.bind_eq_bind, Option.bind_some, true_or, if_true]
  rw [field?_padded (by omega)]
  simp only [Option.bind_some, mark?_cons (by decide : isBlank ':' = false)]
  rw [field?_padded (by omega)]
  simp only [Option.bind_some, mark?_cons (by decide : isBlank ':' = false)]
  rw [field?_padded (by omega), Option.bind_some, nanos?_fractionText (subsecNanos_lt t), Option.bind_some]
  have hzone : zone? (trimLeft ['Z']) = some (0, []) := rfl
  have hin : ((trimLeft []).isEmpty && decide (second / 3600 < 24) && decide (second / 60 % 60 < 60) &&
      decide (second % 60 ≤ 60) && decide ((0 : Int).natAbs < secondsPerDay.toNat)) = true := by
    simp only [Bool.and_eq_true, decide_eq_true_eq]
    exact ⟨⟨⟨⟨rfl, by omega⟩, by omega⟩, by omega⟩, by decide⟩
  simp only [hzone, Option.bind_some, if_pos hin]
  rw [Instant.ofNanos?_eq_some, Int.sub_zero, hsum, Instant.seconds, Instant.subsecNanos, nanosPerSecond]
  omega

/-- That many digits. -/
def Digits (width : Nat) (cs : List Char) : Prop :=
  cs.length = width ∧ ∀ c ∈ cs, isAsciiDigit c = true

theorem digits_padded (hwidth : 0 < width) (h : n < 10 ^ width) : Digits width (padded width n).toList :=
  ⟨length_padded hwidth h, (writes_padded width n).digits⟩

/-- No digits of a second, or a point and three, six or nine of them. -/
def IsFraction (cs : List Char) : Prop :=
  cs = [] ∨ ∃ digits, cs = '.' :: digits ∧ (Digits 3 digits ∨ Digits 6 digits ∨ Digits 9 digits)

theorem isFraction_fractionText (h : n < 1000000000) : IsFraction (fractionText n).toList := by
  rcases fractionText_cases h with ⟨-, hnone⟩ | ⟨width, m, hwidth, hm, -, htext⟩
  · exact .inl hnone
  · have hdigits : Digits width (padded width m).toList := digits_padded (by omega) hm
    refine .inr ⟨_, htext, ?_⟩
    rcases hwidth with rfl | rfl | rfl
    · exact .inl hdigits
    · exact .inr (.inl hdigits)
    · exact .inr (.inr hdigits)

/-- Date and time of day in UTC: numbers of fixed widths between their marks, and `Z` at the end. -/
def IsRfc3339 (cs : List Char) : Prop :=
  ∃ year month day hour minute second fraction : List Char,
    Digits 4 year ∧ Digits 2 month ∧ Digits 2 day ∧ Digits 2 hour ∧ Digits 2 minute ∧
      Digits 2 second ∧ IsFraction fraction ∧
      cs = year ++ '-' :: (month ++ '-' :: (day ++ 'T' :: (hour ++ ':' :: (minute ++ ':' ::
        (second ++ (fraction ++ ['Z']))))))

def year (t : Instant) : Int :=
  (Date.ofDays (t.seconds / secondsPerDay)).year

/-- In the years from 0000 to 9999 the text of an instant has the form of RFC 3339. -/
theorem isRfc3339_text {t : Instant} (h : 0 ≤ year t ∧ year t ≤ 9999) :
    IsRfc3339 (text "Z" t).toList := by
  obtain ⟨hmonthFirst, hmonthLast, hdayFirst, hdayLast⟩ :=
    Date.valid_ofDays (t.seconds / secondsPerDay)
  have hdays := Date.daysInMonth_le (Date.ofDays (t.seconds / secondsPerDay)).year
    (Date.ofDays (t.seconds / secondsPerDay)).month
  have hsecond := second_lt t
  have hyear : (yearText (year t)) = padded 4 (year t).toNat := if_pos h
  refine ⟨_, _, _, _, _, _, _, ?_, ?_, ?_, ?_, ?_, ?_, isFraction_fractionText (subsecNanos_lt t),
    toList_text t⟩
  · show Digits 4 (yearText (year t)).toList
    rw [hyear]
    exact digits_padded (by decide) (by omega)
  all_goals exact digits_padded (by decide) (by omega)

end Vigil.Stamp
