import Vigil.Decimal.Reading

/-!
# Digits

The digits of a number write it: they are read back as that number, and a scan for digits takes all of
them. Of all digits with one value only those without a zero in front are the ones that the number is
printed with. What begins with a digit has no sign and is no word.
-/

namespace Vigil.Text

variable {cs ds : List Char}

/-- A scan takes a run of characters up to the first one that stops it. -/
theorem scan_append {p : Char → Bool} (hcs : ∀ c ∈ cs, p c = true)
    (hds : ∀ c ∈ ds.head?, p c = false) :
    (cs ++ ds).takeWhile p = cs ∧ (cs ++ ds).dropWhile p = ds := by
  rw [List.takeWhile_append_of_pos hcs, List.dropWhile_append_of_pos hcs]
  cases ds with
  | nil => exact ⟨List.append_nil cs, rfl⟩
  | cons d ds =>
    have hstop : ¬ p d = true := ne_true_of_eq_false (hds d rfl)
    rw [List.takeWhile_cons_of_neg hstop, List.dropWhile_cons_of_neg hstop, List.append_nil]
    exact ⟨rfl, rfl⟩

/-- Where a scan stops there is one way to cut a text in two. -/
theorem stop_inj {p : Char → Bool} {c d : Char} {cs' ds' : List Char} (hcs : ∀ c ∈ cs, p c = true)
    (hcs' : ∀ c ∈ cs', p c = true) (hc : p c = false) (hd : p d = false)
    (h : cs ++ c :: ds = cs' ++ d :: ds') : cs = cs' ∧ c = d ∧ ds = ds' := by
  obtain ⟨htake, hdrop⟩ := scan_append hcs (show ∀ e ∈ (c :: ds).head?, p e = false by
    rintro e ⟨⟩
    exact hc)
  obtain ⟨htake', hdrop'⟩ := scan_append hcs' (show ∀ e ∈ (d :: ds').head?, p e = false by
    rintro e ⟨⟩
    exact hd)
  rw [h, htake'] at htake
  rw [h, hdrop'] at hdrop
  obtain ⟨hsame, hrest⟩ := List.cons.inj hdrop
  exact ⟨htake.symm, hsame.symm, hrest.symm⟩

end Vigil.Text

namespace Vigil.Decimal

open Vigil.Text (isAsciiDigit)

theorem isAsciiDigit_of_mem_toDigits {n : Nat} {c : Char} (h : c ∈ Nat.toDigits 10 n) :
    isAsciiDigit c = true :=
  Nat.isDigit_of_mem_toDigits (by decide) (by decide) h

theorem toList_toString (n : Nat) : (toString (n : Int)).toList = Nat.toDigits 10 n :=
  Nat.toList_repr

theorem digitsValue_toDigits (n : Nat) : digitsValue (Nat.toDigits 10 n) = n := by
  have h := Nat.ofDigitChars_ten_toDigits (n := n)
  rw [Nat.ofDigitChars] at h
  simp only [Nat.mul_comm 10] at h
  exact h

variable {c d : Char} {cs : List Char}

/-- Digits as a number is printed: at least one, and no zero before others. -/
def IsPrinted (cs : List Char) : Prop :=
  cs ≠ [] ∧ (cs.head? = some '0' → cs = ['0'])

theorem digitChar_of_digit (hc : isAsciiDigit c = true) :
    c.toNat - '0'.toNat < 10 ∧ Nat.digitChar (c.toNat - '0'.toNat) = c := by
  obtain ⟨hlow, hhigh⟩ := Bool.and_eq_true_iff.mp hc
  have hlow : 48 ≤ c.toNat := of_decide_eq_true hlow
  have hhigh : c.toNat ≤ 57 := of_decide_eq_true hhigh
  have hzero : '0'.toNat = 48 := rfl
  refine ⟨by omega, ?_⟩
  rw [← Char.toNat_inj, Nat.toNat_digitChar_of_lt_ten (by omega), hzero]
  omega

/-- Digits behind a number that is not zero are its last digits. -/
theorem toDigits_foldl {n : Nat} (hn : 0 < n) (hcs : ∀ c ∈ cs, isAsciiDigit c = true) :
    Nat.toDigits 10 (cs.foldl (fun n c => n * 10 + (c.toNat - '0'.toNat)) n) =
      Nat.toDigits 10 n ++ cs := by
  induction cs generalizing n with
  | nil => exact (List.append_nil _).symm
  | cons c cs ih =>
    obtain ⟨hlt, hchar⟩ := digitChar_of_digit (hcs c List.mem_cons_self)
    have hlast := Nat.toDigits_append_toDigits (b := 10) (by decide) hn hlt
    rw [Nat.toDigits_of_lt_base hlt, hchar, Nat.mul_comm] at hlast
    rw [List.foldl_cons, ih (by omega) fun d hd => hcs d (List.mem_cons_of_mem c hd), ← hlast,
      List.append_assoc, List.singleton_append]

/-- Printed digits are printed again. -/
theorem toDigits_digitsValue (h : IsPrinted cs) (hcs : ∀ c ∈ cs, isAsciiDigit c = true) :
    Nat.toDigits 10 (digitsValue cs) = cs := by
  obtain ⟨hne, hzero⟩ := h
  cases cs with
  | nil => exact absurd rfl hne
  | cons c cs =>
    obtain ⟨hlt, hchar⟩ := digitChar_of_digit (hcs c List.mem_cons_self)
    by_cases hc : c = '0'
    · rw [hzero (by rw [hc]; rfl)]
      rfl
    · have hpos : 0 < c.toNat - '0'.toNat := by
        refine Nat.pos_of_ne_zero fun h0 => hc ?_
        rw [← hchar, h0]
        rfl
      have hfirst : 0 * 10 + (c.toNat - '0'.toNat) = c.toNat - '0'.toNat := by omega
      rw [digitsValue, List.foldl_cons, hfirst,
        toDigits_foldl hpos fun d hd => hcs d (List.mem_cons_of_mem c hd),
        Nat.toDigits_of_lt_base hlt, hchar, List.singleton_append]

theorem isPrinted_toDigits (n : Nat) : IsPrinted (Nat.toDigits 10 n) := by
  induction n using Nat.strongRecOn with
  | ind n ih =>
    refine ⟨Nat.toDigits_ne_nil, fun hzero => ?_⟩
    rcases Nat.lt_or_ge n 10 with hlt | hle
    · rw [Nat.toDigits_of_lt_base hlt] at hzero ⊢
      rw [Option.some.inj hzero]
    · have hfirst : (Nat.toDigits 10 (n / 10)).head? = some '0' := by
        rw [Nat.toDigits_of_base_le (by decide) hle, List.head?_append] at hzero
        rwa [Option.or_of_isSome (List.isSome_head?.mpr Nat.toDigits_ne_nil)] at hzero
      -- the digits before the last would be those of zero
      have hvalue := digitsValue_toDigits (n / 10)
      rw [(ih (n / 10) (by omega)).2 hfirst] at hvalue
      have hnone : digitsValue ['0'] = 0 := rfl
      omega

theorem readSign_of_digit (hc : isAsciiDigit c = true) (cs : List Char) :
    readSign (c :: cs) = (false, c :: cs) := by
  rw [readSign]
  · rintro rest h
    cases h
    exact absurd hc (by decide)
  · rintro rest h
    cases h
    exact absurd hc (by decide)

theorem toLower_of_digit (hc : isAsciiDigit c = true) : c.toLower = c := by
  have hle : c ≤ '9' := of_decide_eq_true (Bool.and_eq_true_iff.mp hc).2
  have hval : c.val ≤ 57 := hle
  refine dif_neg ?_
  rintro ⟨hupper, -⟩
  exact absurd (UInt32.le_trans hupper hval) (by decide)

/-- What begins with a digit is no word in lower case. -/
theorem map_toLower_ne (hc : isAsciiDigit c = true) (hd : isAsciiDigit d = false)
    {ds : List Char} : (c :: cs).map Char.toLower ≠ d :: ds := by
  intro h
  have hcd : c.toLower = d := (List.cons.inj h).1
  rw [toLower_of_digit hc] at hcd
  rw [hcd, hd] at hc
  cases hc

end Vigil.Decimal
