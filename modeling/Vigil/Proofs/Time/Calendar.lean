import Mathlib.Tactic.NormNum
import Vigil.Time.Calendar

/-!
# Days and dates

Each day has a date that exists, and the date leads back to the day. In an era of 400 years the days are
cut into centuries, these into four years each, these into years: the last century and the last year are
one day longer, since the leap day comes last in its year.
-/

namespace Vigil.Date

/-- A day of an era by centuries, spans of four years and years since its start. -/
structure Within (dayOfEra century four year day : Int) : Prop where
  sum : dayOfEra = century * 36524 + four * 1461 + year * 365 + day
  centuries : 0 ≤ century ∧ century ≤ 3
  fours : 0 ≤ four ∧ four ≤ 24
  years : 0 ≤ year ∧ year ≤ 3
  days : 0 ≤ day ∧ day ≤ 365
  leap : day = 365 → year = 3 ∧ (four < 24 ∨ century = 3)

theorem exists_within {dayOfEra : Int} (h : 0 ≤ dayOfEra ∧ dayOfEra < eraDays) :
    ∃ century four year day, Within dayOfEra century four year day := by
  obtain ⟨hfirst, hlast⟩ := h
  rw [eraDays] at hlast
  obtain ⟨c, hc⟩ : ∃ c, c = min (dayOfEra / 36524) 3 := ⟨_, rfl⟩
  obtain ⟨r, hr⟩ : ∃ r, r = dayOfEra - c * 36524 := ⟨_, rfl⟩
  obtain ⟨q, hq⟩ : ∃ q, q = r / 1461 := ⟨_, rfl⟩
  obtain ⟨s, hs⟩ : ∃ s, s = r - q * 1461 := ⟨_, rfl⟩
  obtain ⟨p, hp⟩ : ∃ p, p = min (s / 365) 3 := ⟨_, rfl⟩
  have hcentury : 0 ≤ c ∧ c ≤ 3 := by omega
  have hrest : 0 ≤ r ∧ r ≤ 36524 ∧ (r = 36524 → c = 3) := by omega
  have hfour : 0 ≤ q ∧ q ≤ 24 := by omega
  have hfew : 0 ≤ s ∧ s ≤ 1460 ∧ (s = 1460 → q < 24 ∨ c = 3) := by omega
  have hyear : 0 ≤ p ∧ p ≤ 3 := by omega
  refine ⟨c, q, p, s - p * 365, ?_, hcentury, hfour, hyear, ?_, ?_⟩ <;> omega

namespace Within

variable {dayOfEra century four year day : Int}

/-- The year of a day within its era. -/
theorem yearOfEra_eq (h : Within dayOfEra century four year day) :
    (dayOfEra - dayOfEra / 1460 + dayOfEra / 36524 - dayOfEra / 146096) / 365 =
      century * 100 + four * 4 + year := by
  obtain ⟨heq, hcentury, hfour, hyear, hday, hleap⟩ := h
  -- on the last day of the era the count of centuries is too high, and so is that of eras
  have hends : dayOfEra / 36524 - dayOfEra / 146096 = century := by
    by_cases hlast : dayOfEra = 146096
    · omega
    · have hcenturies : dayOfEra / 36524 = century := by omega
      have heras : dayOfEra / 146096 = 0 := by omega
      omega
  have hfours : dayOfEra / 1460 =
      century * 25 + four + (century * 24 + four + year * 365 + day) / 1460 := by omega
  omega

theorem dayOfYear_eq (h : Within dayOfEra century four year day) :
    dayOfEra - (365 * (century * 100 + four * 4 + year) + (century * 100 + four * 4 + year) / 4 -
      (century * 100 + four * 4 + year) / 100) = day := by
  obtain ⟨heq, hcentury, hfour, hyear, hday, hleap⟩ := h
  omega

end Within

/-- The parts that the date of a day is made of: its era, the year in it, the month from March on, and
the day of the year. -/
theorem exists_parts (n : Int) :
    ∃ era yearOfEra m dayOfYear : Int,
      n = era * eraDays + yearOfEra * 365 + yearOfEra / 4 - yearOfEra / 100 + dayOfYear - epochOffset ∧
      (0 ≤ yearOfEra ∧ yearOfEra ≤ 399) ∧ (0 ≤ dayOfYear ∧ dayOfYear ≤ 365) ∧
      (dayOfYear = 365 → isLeapYear (yearOfEra + era * 400 + 1) = true) ∧
      m = (5 * dayOfYear + 2) / 153 ∧
      ofDays n =
        let month := if m < 10 then m + 3 else m - 9
        let year := yearOfEra + era * 400
        ⟨if month ≤ 2 then year + 1 else year, month, dayOfYear - (153 * m + 2) / 5 + 1⟩ := by
  have hera : 0 ≤ (n + epochOffset) % eraDays ∧ (n + epochOffset) % eraDays < eraDays :=
    ⟨Int.emod_nonneg _ (by decide), Int.emod_lt_of_pos _ (by decide)⟩
  obtain ⟨century, four, year, day, h⟩ := exists_within hera
  refine ⟨(n + epochOffset) / eraDays, century * 100 + four * 4 + year, (5 * day + 2) / 153, day,
    ?_, ?_, h.days, ?_, rfl, ?_⟩
  · have hsplit := Int.mul_ediv_add_emod (n + epochOffset) eraDays
    have hday := h.dayOfYear_eq
    rw [Int.mul_comm] at hsplit
    omega
  · have hcentury := h.centuries
    have hfour := h.fours
    have hyear := h.years
    omega
  · intro hlast
    have hleap := h.leap hlast
    have hcentury := h.centuries
    have hfour := h.fours
    simp only [isLeapYear, Bool.and_eq_true, Bool.or_eq_true, beq_iff_eq, bne_iff_ne]
    omega
  · rw [ofDays, h.yearOfEra_eq, h.dayOfYear_eq]

/-- The date of a day leads back to it. -/
theorem toDays_ofDays (n : Int) : (ofDays n).toDays = n := by
  obtain ⟨era, yearOfEra, m, dayOfYear, hn, hyear, hday, -, hm, hdate⟩ := exists_parts n
  have hmonth : 0 ≤ m ∧ m ≤ 11 := by omega
  have hera : (yearOfEra + era * 400) / 400 = era := by omega
  have hrest : (yearOfEra + era * 400) % 400 = yearOfEra := by omega
  rw [hdate]
  by_cases hspring : m < 10
  · have hlate : ¬ m + 3 ≤ 2 := by omega
    have hback : m + 3 - 3 = m := by omega
    simp only [toDays, if_pos hspring, if_neg hlate, hback, hera, hrest]
    omega
  · have hearly : m - 9 ≤ 2 := by omega
    have hback : m - 9 + 9 = m := by omega
    have hyear : yearOfEra + era * 400 + 1 - 1 = yearOfEra + era * 400 := by omega
    simp only [toDays, if_neg hspring, if_pos hearly, hback, hyear, hera, hrest]
    omega

/-- The date of a day exists. -/
theorem valid_ofDays (n : Int) : (ofDays n).Valid := by
  obtain ⟨era, yearOfEra, m, dayOfYear, -, -, hday, hleap, hm, hdate⟩ := exists_parts n
  rw [hdate]
  generalize yearOfEra + era * 400 = year at hleap ⊢
  by_cases hfebruary : m = 11
  · -- February comes last, and only a leap year has a day 365
    subst hfebruary
    simp only [Valid, daysInMonth]
    norm_num
    by_cases hlast : dayOfYear = 365
    · rw [if_pos (hleap hlast)]
      omega
    · split <;> omega
  · have hmonth : m = 0 ∨ m = 1 ∨ m = 2 ∨ m = 3 ∨ m = 4 ∨ m = 5 ∨ m = 6 ∨ m = 7 ∨ m = 8 ∨ m = 9 ∨
        m = 10 := by omega
    rcases hmonth with rfl | rfl | rfl | rfl | rfl | rfl | rfl | rfl | rfl | rfl | rfl
    all_goals
      simp only [Valid, daysInMonth]
      norm_num
      omega

theorem daysInMonth_le (year month : Int) : daysInMonth year month ≤ 31 := by
  rw [daysInMonth]
  split <;> split <;> decide

end Vigil.Date
