import Vigil.Proofs.Document.Text
import Vigil.Uuid

/-!
# Identifiers read back

The last hexadecimal digits of a number are its remainder, so the 32 digits of an identifier, with their
hyphens, are read back as the identifier, and no two identifiers have one text.
-/

namespace Vigil.Uuid

open Vigil.Json (hexValue?)

theorem length_hexDigits (count n : Nat) : (hexDigits count n).length = count := by
  induction count generalizing n with
  | zero => rfl
  | succ count ih => rw [hexDigits, List.length_append, ih, List.length_singleton]

/-- The last digits of a number are its remainder. -/
theorem foldlM_hexDigits (count n start : Nat) :
    (hexDigits count n).foldlM (fun n c => (hexValue? c).map (n * 16 + ·)) start =
      some (start * Nat.pow 16 count + n % Nat.pow 16 count) := by
  induction count generalizing n with
  | zero => simp [hexDigits]; omega
  | succ count ih =>
    have hdigit := Json.hexValue?_hexDigit (n % 16) (Nat.mod_lt _ (by decide))
    have hpow : Nat.pow 16 (count + 1) = 16 * Nat.pow 16 count := Nat.mul_comm _ 16
    have hstart : start * (16 * Nat.pow 16 count) = 16 * (start * Nat.pow 16 count) :=
      Nat.mul_left_comm _ _ _
    rw [hexDigits, List.foldlM_append, ih]
    simp only [Option.bind_eq_bind, Option.bind_some, List.foldlM_cons, hdigit, Option.map_some,
      List.foldlM_nil, Option.pure_def, Option.some.injEq]
    rw [hpow, hstart, Nat.mod_mul]
    omega

theorem ofDigits?_digits (id : Uuid) : ofDigits? id.digits = some id := by
  have hpow : Nat.pow 16 32 = idLimit := by decide
  rw [ofDigits?, digits, if_pos (length_hexDigits 32 _), foldlM_hexDigits, hpow, Nat.zero_mul,
    Nat.zero_add, Option.map_some, Nat.mod_eq_of_lt id.bounded]
  obtain ⟨value, hvalue⟩ := id
  simp only [ofNat, Nat.mod_eq_of_lt hvalue]

theorem length_hyphenated {ds : List Char} (h : ds.length = 32) : (hyphenated ds).length = 36 := by
  simp [hyphenated, h]

theorem ofHyphenated?_hyphenated {ds : List Char} (h : ds.length = 32) :
    ofHyphenated? (hyphenated ds) = ofDigits? ds := by
  have hds : (hyphenated ds).take 8 ++ ((hyphenated ds).drop 9).take 4 ++
      ((hyphenated ds).drop 14).take 4 ++ ((hyphenated ds).drop 19).take 4 ++
        (hyphenated ds).drop 24 = ds := by
    have hjoin : ∀ n, (ds.drop n).take 4 ++ ds.drop (n + 4) = ds.drop n := by
      intro n
      rw [← List.drop_drop, List.take_append_drop]
    have hparts : (hyphenated ds).take 8 ++ ((hyphenated ds).drop 9).take 4 ++
        ((hyphenated ds).drop 14).take 4 ++ ((hyphenated ds).drop 19).take 4 ++
          (hyphenated ds).drop 24 = ds.take 8 ++ ((ds.drop 8).take 4 ++ ((ds.drop 12).take 4 ++
            ((ds.drop 16).take 4 ++ ds.drop 20))) := by
      simp [hyphenated, List.drop_append, List.drop_take, h]
    rw [hparts, hjoin 16, hjoin 12, hjoin 8, List.take_append_drop]
  rw [ofHyphenated?]
  simp only [hds, if_true]

theorem read?_text (id : Uuid) : read? id.text = some id := by
  have hlength : id.digits.length = 32 := length_hexDigits 32 _
  have htext : id.text.toList = hyphenated id.digits := String.toList_ofList
  rw [read?]
  simp only [htext, length_hyphenated hlength]
  rw [if_neg (by decide), if_pos trivial, ofHyphenated?_hyphenated hlength, ofDigits?_digits]

theorem text_injective {a b : Uuid} (h : a.text = b.text) : a = b := by
  have hread := read?_text a
  rw [h, read?_text] at hread
  exact (Option.some.inj hread).symm

end Vigil.Uuid
