import Mathlib.Tactic.IntervalCases
import Vigil.Document.Reader
import Vigil.Document.Writer
import Vigil.Proofs.Decimal.Digits

/-!
# Reading what was written

Every JSON value is read back from its text. The reader takes from the front of a text exactly what the
writer put there, as long as nothing follows that a number could go on with: inside a text only a
comma, a bracket or a brace does. A value uses up no more than two units of fuel for each of its
characters.
-/

namespace Vigil.Json

open Vigil.Decimal (digitsValue_toDigits isAsciiDigit_of_mem_toDigits)
open Vigil.Text (isAsciiDigit)

variable {c : Char} {cs rest : List Char}

theorem hexValue?_hexDigit : ∀ n < 16, hexValue? (hexDigit n) = some n := by decide

theorem hex4?_of_lt {n : Nat} (h : n < 32) :
    hex4? '0' '0' (hexDigit (n / 16)) (hexDigit (n % 16)) = some n := by
  have hzero : hexValue? '0' = some 0 := rfl
  rw [hex4?, hzero, hexValue?_hexDigit (n / 16) (by omega), hexValue?_hexDigit (n % 16) (by omega)]
  simp only [Option.bind_eq_bind, Option.bind_some, Option.pure_def, Option.some.injEq]
  omega

theorem readQuoted_escape {letter e : Char} (he : escape? letter = some e) (hu : letter ≠ 'u')
    (cs : List Char) : readQuoted ('\\' :: letter :: cs) = (readQuoted cs).map (.push e) := by
  rw [readQuoted, he]
  rintro a b c d rest h
  simp_all

theorem readQuoted_code {n : Nat} (h : n < 32) (cs : List Char) :
    readQuoted ('\\' :: 'u' :: '0' :: '0' :: hexDigit (n / 16) :: hexDigit (n % 16) :: cs) =
      (readQuoted cs).map (.push (Char.ofNat n)) := by
  have hhigh : isHighSurrogate n = false := by
    simp only [isHighSurrogate, Bool.and_eq_false_iff, decide_eq_false_iff_not]
    omega
  have hlow : isLowSurrogate n = false := by
    simp only [isLowSurrogate, Bool.and_eq_false_iff, decide_eq_false_iff_not]
    omega
  rw [readQuoted, hex4?_of_lt h]
  simp only [hhigh, hlow, Bool.false_eq_true, if_false]

theorem readQuoted_plain (hquote : c ≠ '"') (hback : c ≠ '\\') (h : ¬ c.toNat < 32)
    (cs : List Char) : readQuoted (c :: cs) = (readQuoted cs).map (.push c) := by
  rw [readQuoted, if_neg h]
  · exact hquote
  · rintro a b d e rest rfl
    exact absurd rfl hback
  · rintro d rest rfl
    exact absurd rfl hback


/-- A character is read back from inside quotes. -/
theorem readQuoted_writeChar (c : Char) (cs : List Char) :
    readQuoted (writeChar c ++ cs) = (readQuoted cs).map (.push c) := by
  have hcode : ∀ n, c.toNat = n → c = Char.ofNat n := by
    rintro n rfl
    exact (Char.ofNat_toNat c).symm
  unfold writeChar
  split
  · rename_i h
    rw [h]
    exact readQuoted_escape rfl (by decide) cs
  split
  · rename_i h
    rw [h]
    exact readQuoted_escape rfl (by decide) cs
  split
  · rename_i h
    rw [hcode _ h]
    exact readQuoted_escape rfl (by decide) cs
  split
  · rename_i h
    rw [hcode _ h]
    exact readQuoted_escape rfl (by decide) cs
  split
  · rename_i h
    rw [hcode _ h]
    exact readQuoted_escape rfl (by decide) cs
  split
  · rename_i h
    rw [hcode _ h]
    exact readQuoted_escape rfl (by decide) cs
  split
  · rename_i h
    rw [hcode _ h]
    exact readQuoted_escape rfl (by decide) cs
  split
  · rename_i h
    refine (readQuoted_code h cs).trans ?_
    rw [Char.ofNat_toNat]
  · rename_i hquote hback _ _ _ _ _ h
    exact readQuoted_plain hquote hback h cs

theorem readQuoted_writeString (text : List Char) (rest : List Char) :
    readQuoted (text.flatMap writeChar ++ '"' :: rest) = some ⟨text, true, rest⟩ := by
  induction text with
  | nil => rw [List.flatMap_nil, List.nil_append, readQuoted]
  | cons c text ih =>
    rw [List.flatMap_cons, List.append_assoc, readQuoted_writeChar, ih]
    rfl

theorem write_int (n : Int) : write (.int n) = (toString n).toList := rfl

theorem write_real (negative : Bool) (digits : Nat) (exponent : Int) :
    write (.real negative digits exponent) = (if negative then ['-'] else []) ++
      (toString digits).toList ++ 'e' :: (toString exponent).toList := rfl

theorem write_string (text : String) : write (.string text) = writeString text := rfl

theorem write_array (items : List Json) :
    write (.array items) = '[' :: (writeItems items ++ [']']) := rfl

theorem write_object (members : List (String × Json)) :
    write (.object members) = '\x7b' :: (writeMembers members ++ ['\x7d']) := rfl

theorem writeItems_cons (item next : Json) (items : List Json) :
    writeItems (item :: next :: items) = write item ++ ',' :: writeItems (next :: items) := rfl

theorem writeMembers_cons (name : String) (value : Json) (next : String × Json)
    (members : List (String × Json)) :
    writeMembers ((name, value) :: next :: members) =
      writeString name ++ ':' :: (write value ++ ',' :: writeMembers (next :: members)) := rfl

/-- No number goes on with what the text starts with. -/
def Stops (rest : List Char) : Prop :=
  ∀ c ∈ rest.head?, isAsciiDigit c = false ∧ c ≠ '.' ∧ c ≠ 'e' ∧ c ≠ 'E'

theorem exists_toDigits (n : Nat) :
    ∃ d ds, Nat.toDigits 10 n = d :: ds ∧ isAsciiDigit d = true := by
  cases hdigits : Nat.toDigits 10 n with
  | nil => exact absurd hdigits Nat.toDigits_ne_nil
  | cons d ds =>
    exact ⟨d, ds, rfl, isAsciiDigit_of_mem_toDigits (n := n) (by rw [hdigits]; exact List.mem_cons_self)⟩

theorem head?_toDigits_ne_zero {n : Nat} (h : 0 < n) : (Nat.toDigits 10 n).head? ≠ some '0' := by
  induction n using Nat.strongRecOn with
  | _ n ih =>
    by_cases hlt : n < 10
    · rw [Nat.toDigits_of_lt_base hlt]
      interval_cases n <;> decide
    · rw [Nat.toDigits_of_base_le (by decide) (by omega), List.head?_append]
      have hrec := ih (n / 10) (by omega) (by omega)
      obtain ⟨d, ds, hdigits, -⟩ := exists_toDigits (n / 10)
      rw [hdigits] at hrec ⊢
      exact hrec


theorem readWhole?_toDigits (n : Nat) (h : ∀ c ∈ rest.head?, isAsciiDigit c = false) :
    readWhole? (Nat.toDigits 10 n ++ rest) = some (Nat.toDigits 10 n, rest) := by
  obtain ⟨htake, hdrop⟩ := Text.scan_append
    (fun c hc => isAsciiDigit_of_mem_toDigits (n := n) hc) h
  rcases Nat.eq_zero_or_pos n with rfl | hpos
  · rfl
  · have hzero := head?_toDigits_ne_zero hpos
    obtain ⟨d, ds, hdigits, hd⟩ := exists_toDigits n
    rw [hdigits] at hzero htake hdrop ⊢
    rw [List.cons_append] at htake hdrop ⊢
    rw [readWhole?, if_pos hd, htake, hdrop]
    rintro rfl
    exact hzero rfl

theorem readPoint?_of_stops (h : ∀ c ∈ cs.head?, c ≠ '.') : readPoint? cs = some (none, cs) := by
  rw [readPoint?]
  rintro more rfl
  exact h '.' rfl rfl

theorem readPower?_of_stops (h : ∀ c ∈ cs.head?, c ≠ 'e' ∧ c ≠ 'E') :
    readPower? cs = some (none, cs) := by
  cases cs with
  | nil => rfl
  | cons c cs =>
    obtain ⟨hlower, hupper⟩ := h c rfl
    rw [readPower?, if_neg (by simp [hlower, hupper])]

theorem readUnsigned?_toDigits (negative : Bool) (n : Nat) (h : Stops rest) :
    readUnsigned? negative (Nat.toDigits 10 n ++ rest) =
      some (if negative && n == 0 then .real true 0 0 else .int (if negative then -(n : Int) else n),
        rest) := by
  rw [readUnsigned?, readWhole?_toDigits n fun c hc => (h c hc).1]
  simp only [Option.bind_eq_bind, Option.bind_some, readPoint?_of_stops fun c hc => (h c hc).2.1,
    readPower?_of_stops fun c hc => (h c hc).2.2, digitsValue_toDigits, Option.pure_def]
  split <;> rfl

theorem isAsciiDigit_head (n : Nat) (rest : List Char) :
    ∀ c ∈ (Nat.toDigits 10 n ++ rest).head?, isAsciiDigit c = true := by
  intro c hc
  obtain ⟨d, ds, hdigits, hd⟩ := exists_toDigits n
  rw [hdigits] at hc
  cases hc
  exact hd

theorem readSign_of_head (h : ∀ c ∈ cs.head?, isAsciiDigit c = true) :
    Decimal.readSign cs = (false, cs) := by
  cases cs with
  | nil => rfl
  | cons c cs => exact Decimal.readSign_of_digit (h c rfl) cs

theorem readNumber?_of_head (h : ∀ c ∈ cs.head?, isAsciiDigit c = true) :
    readNumber? cs = readUnsigned? false cs := by
  rw [readNumber?]
  rintro more rfl
  exact absurd (h '-' rfl) (by decide)

theorem toList_toString_negSucc (n : Nat) :
    (toString (Int.negSucc n)).toList = '-' :: Nat.toDigits 10 (n + 1) := by
  show ("-" ++ toString (n + 1)).toList = _
  rw [String.toList_append]
  exact congrArg ('-' :: ·) Nat.toList_repr

theorem readNumber?_int (n : Int) (h : Stops rest) :
    readNumber? ((toString n).toList ++ rest) = some (.int n, rest) := by
  cases n with
  | ofNat k =>
    rw [Int.ofNat_eq_natCast, Decimal.toList_toString, readNumber?_of_head (isAsciiDigit_head k rest),
      readUnsigned?_toDigits false k h]
    rfl
  | negSucc k =>
    rw [toList_toString_negSucc]
    exact readUnsigned?_toDigits true (k + 1) h

theorem readPower?_int (n : Int) (h : ∀ c ∈ rest.head?, isAsciiDigit c = false) :
    readPower? ('e' :: ((toString n).toList ++ rest)) = some (some n, rest) := by
  have hdigits : ∀ k : Nat, (Nat.toDigits 10 k ++ rest).takeWhile isAsciiDigit = Nat.toDigits 10 k ∧
      (Nat.toDigits 10 k ++ rest).dropWhile isAsciiDigit = rest :=
    fun k => Text.scan_append (fun c hc => isAsciiDigit_of_mem_toDigits (n := k) hc) h
  have hne : ∀ k : Nat, (Nat.toDigits 10 k).isEmpty = false :=
    fun k => List.isEmpty_eq_false_iff.mpr Nat.toDigits_ne_nil
  rw [readPower?, if_pos (.inl rfl)]
  cases n with
  | ofNat k =>
    rw [Int.ofNat_eq_natCast, Decimal.toList_toString, readSign_of_head (isAsciiDigit_head k rest)]
    simp only [(hdigits k).1, (hdigits k).2, hne, digitsValue_toDigits, Bool.false_eq_true, if_false]
  | negSucc k =>
    rw [toList_toString_negSucc]
    simp only [List.cons_append, Decimal.readSign, (hdigits (k + 1)).1, (hdigits (k + 1)).2, hne,
      digitsValue_toDigits, Bool.false_eq_true, if_false, if_true]
    rfl

theorem readUnsigned?_real (negative : Bool) (n : Nat) (exponent : Int)
    (h : ∀ c ∈ rest.head?, isAsciiDigit c = false) :
    readUnsigned? negative (Nat.toDigits 10 n ++ 'e' :: ((toString exponent).toList ++ rest)) =
      some (.real negative n exponent, rest) := by
  have hstop : ∀ c ∈ ('e' :: ((toString exponent).toList ++ rest)).head?, isAsciiDigit c = false := by
    rintro c ⟨⟩
    rfl
  have hpoint : readPoint? ('e' :: ((toString exponent).toList ++ rest)) = some (none, _) :=
    readPoint?_of_stops (by rintro c ⟨⟩; decide)
  rw [readUnsigned?, readWhole?_toDigits n hstop]
  simp only [Option.bind_eq_bind, Option.bind_some, hpoint, readPower?_int exponent h,
    Option.pure_def, Option.getD_none, Option.getD_some, List.append_nil, digitsValue_toDigits,
    List.length_nil]
  simp

theorem readNumber?_real (negative : Bool) (n : Nat) (exponent : Int)
    (h : ∀ c ∈ rest.head?, isAsciiDigit c = false) :
    readNumber? (write (.real negative n exponent) ++ rest) =
      some (.real negative n exponent, rest) := by
  have htext : write (.real negative n exponent) ++ rest = (if negative then ['-'] else []) ++
      (Nat.toDigits 10 n ++ 'e' :: ((toString exponent).toList ++ rest)) := by
    have hdigits : (toString n).toList = Nat.toDigits 10 n := Nat.toList_repr
    rw [write_real, hdigits, List.append_assoc, List.append_assoc, List.cons_append]
  rw [htext]
  cases negative with
  | true => exact readUnsigned?_real true n exponent h
  | false =>
    rw [if_neg (by decide), List.nil_append, readNumber?_of_head (isAsciiDigit_head n _)]
    exact readUnsigned?_real false n exponent h

/-- A number begins with a digit or with a minus. -/
def Begins (cs : List Char) : Prop :=
  ∃ c rest, cs = c :: rest ∧ (isAsciiDigit c = true ∨ c = '-')

theorem begins_toDigits (n : Nat) (rest : List Char) : Begins (Nat.toDigits 10 n ++ rest) := by
  obtain ⟨d, ds, hdigits, hd⟩ := exists_toDigits n
  exact ⟨d, ds ++ rest, by rw [hdigits, List.cons_append], .inl hd⟩

theorem begins_int (n : Int) (rest : List Char) : Begins (write (.int n) ++ rest) := by
  rw [write_int]
  cases n with
  | ofNat k =>
    rw [Int.ofNat_eq_natCast, Decimal.toList_toString]
    exact begins_toDigits k rest
  | negSucc k =>
    rw [toList_toString_negSucc]
    exact ⟨'-', _, rfl, .inr rfl⟩

theorem begins_real (negative : Bool) (n : Nat) (exponent : Int) (rest : List Char) :
    Begins (write (.real negative n exponent) ++ rest) := by
  have hdigits : (toString n).toList = Nat.toDigits 10 n := Nat.toList_repr
  rw [write_real, hdigits, List.append_assoc, List.append_assoc]
  cases negative with
  | true => exact ⟨'-', _, rfl, .inr rfl⟩
  | false => exact begins_toDigits n _

theorem Begins.ne (h : Begins cs) {d : Char} (hd : isAsciiDigit d = false) (hminus : d ≠ '-')
    (more : List Char) : cs ≠ d :: more := by
  obtain ⟨c, rest, rfl, hc⟩ := h
  intro heq
  obtain ⟨rfl, -⟩ := List.cons.inj heq
  rcases hc with hc | rfl
  · rw [hd] at hc
    cases hc
  · exact hminus rfl

/-- A character that is no blank and closes nothing. -/
def IsFirst (c : Char) : Prop :=
  c ≠ ' ' ∧ c ≠ '\t' ∧ c ≠ '\n' ∧ c ≠ '\r' ∧ c ≠ ']'

instance : DecidablePred IsFirst := fun _ => inferInstanceAs (Decidable (_ ∧ _))

theorem Begins.exists_first (h : Begins cs) : ∃ c rest, cs = c :: rest ∧ IsFirst c := by
  obtain ⟨c, rest, rfl, hc⟩ := id h
  refine ⟨c, rest, rfl, ?_, ?_, ?_, ?_, ?_⟩ <;>
  · rintro rfl
    exact h.ne (by decide) (by decide) rest rfl

theorem exists_write (j : Json) : ∃ c cs, write j = c :: cs ∧ IsFirst c := by
  cases j with
  | null => exact ⟨'n', _, rfl, by decide⟩
  | bool value =>
    cases value with
    | true => exact ⟨'t', _, rfl, by decide⟩
    | false => exact ⟨'f', _, rfl, by decide⟩
  | int n => simpa using (begins_int n []).exists_first
  | real negative digits exponent => simpa using (begins_real negative digits exponent []).exists_first
  | string text => exact ⟨'"', _, rfl, by decide⟩
  | unreadable => exact ⟨'"', _, rfl, by decide⟩
  | array items => exact ⟨'[', _, rfl, by decide⟩
  | object members => exact ⟨'\x7b', _, rfl, by decide⟩

theorem skip_of_first (h : IsFirst c) : skip (c :: cs) = c :: cs := by
  obtain ⟨hspace, htab, hline, hreturn, -⟩ := h
  rw [skip, List.dropWhile_cons_of_neg]
  simp [hspace, htab, hline, hreturn]

theorem readValue_of_begins (fuel : Nat) (h : Begins cs) :
    readValue (fuel + 1) cs = readNumber? cs := by
  have hskip : skip cs = cs := by
    obtain ⟨c, rest, rfl, hc⟩ := h.exists_first
    exact skip_of_first hc
  rw [readValue, hskip]
  split
  · exact absurd rfl (h.ne (by decide) (by decide) _)
  · exact absurd rfl (h.ne (by decide) (by decide) _)
  · exact absurd rfl (h.ne (by decide) (by decide) _)
  · exact absurd rfl (h.ne (by decide) (by decide) _)
  · exact absurd rfl (h.ne (by decide) (by decide) _)
  · exact absurd rfl (h.ne (by decide) (by decide) _)
  · rfl

theorem stops_of_mark (h : c = ',' ∨ c = ']' ∨ c = '\x7d') (cs : List Char) : Stops (c :: cs) := by
  rintro d ⟨⟩
  rcases h with rfl | rfl | rfl <;> decide

theorem stops_nil : Stops [] := by
  rintro d ⟨⟩

theorem readValue_quote (fuel : Nat) (cs : List Char) :
    readValue (fuel + 1) ('"' :: cs) = (readQuoted cs).map fun q =>
      (if q.readable then .string (String.ofList q.chars) else .unreadable, q.rest) := rfl

theorem readValue_bracket (fuel : Nat) (hskip : skip cs = cs) (hne : ∀ more, cs ≠ ']' :: more) :
    readValue (fuel + 1) ('[' :: cs) =
      (readItems fuel cs).map fun (items, after) => (.array items, after) := by
  have hopen : skip ('[' :: cs) = '[' :: cs := rfl
  rw [readValue, hopen]
  simp only [hskip]

theorem readValue_brace (fuel : Nat) (cs : List Char) :
    readValue (fuel + 1) ('\x7b' :: '"' :: cs) =
      (readMembers fuel ('"' :: cs)).map fun (members, after) => (.object members, after) := rfl

theorem readItems_last {fuel : Nat} {item : Json} {after : List Char}
    (h : readValue fuel cs = some (item, ']' :: after)) :
    readItems (fuel + 1) cs = some ([item], after) := by
  rw [readItems, h]
  rfl

theorem readItems_next {fuel : Nat} {item : Json} {more : List Char}
    (h : readValue fuel cs = some (item, ',' :: more)) :
    readItems (fuel + 1) cs = (readItems fuel more).map fun (items, after) => (item :: items, after) := by
  rw [readItems, h]
  rfl

theorem writeString_append (text : String) (rest : List Char) :
    writeString text ++ rest = '"' :: (text.toList.flatMap writeChar ++ '"' :: rest) := by
  rw [writeString, List.cons_append, List.append_assoc, List.singleton_append]

theorem readMembers_last {fuel : Nat} {name : String} {value : Json} {after : List Char}
    (h : readValue fuel cs = some (value, '\x7d' :: after)) :
    readMembers (fuel + 1) (writeString name ++ ':' :: cs) = some ([(name, value)], after) := by
  have hskip : skip ('"' :: (name.toList.flatMap writeChar ++ '"' :: ':' :: cs)) =
      '"' :: (name.toList.flatMap writeChar ++ '"' :: ':' :: cs) := rfl
  have hcolon : skip (':' :: cs) = ':' :: cs := rfl
  have hbrace : skip ('\x7d' :: after) = '\x7d' :: after := rfl
  rw [writeString_append, readMembers, hskip]
  simp only [readQuoted_writeString, hcolon, h, hbrace, String.ofList_toList]

theorem readMembers_next {fuel : Nat} {name : String} {value : Json} {more : List Char}
    (h : readValue fuel cs = some (value, ',' :: more)) :
    readMembers (fuel + 1) (writeString name ++ ':' :: cs) =
      (readMembers fuel more).map fun (members, after) => ((name, value) :: members, after) := by
  have hskip : skip ('"' :: (name.toList.flatMap writeChar ++ '"' :: ':' :: cs)) =
      '"' :: (name.toList.flatMap writeChar ++ '"' :: ':' :: cs) := rfl
  have hcolon : skip (':' :: cs) = ':' :: cs := rfl
  have hcomma : skip (',' :: more) = ',' :: more := rfl
  rw [writeString_append, readMembers, hskip]
  simp only [readQuoted_writeString, hcolon, h, hcomma, String.ofList_toList]

/-- An array that holds something goes on with an item. -/
theorem exists_writeItems (item : Json) (items : List Json) :
    ∃ c cs, writeItems (item :: items) = c :: cs ∧ IsFirst c := by
  obtain ⟨c, cs, hwrite, hc⟩ := exists_write item
  cases items with
  | nil => exact ⟨c, cs, hwrite, hc⟩
  | cons next items => exact ⟨c, _, by rw [writeItems_cons, hwrite, List.cons_append], hc⟩

/-- An object that holds something goes on with a name in quotes. -/
theorem exists_writeMembers (member : String × Json) (members : List (String × Json)) :
    ∃ cs, writeMembers (member :: members) = '"' :: cs := by
  obtain ⟨name, value⟩ := member
  cases members with
  | nil => exact ⟨_, writeString_append name _⟩
  | cons next members =>
    exact ⟨_, (writeMembers_cons name value next members).trans (writeString_append name _)⟩

mutual

theorem readValue_write : ∀ (j : Json) (fuel : Nat) (rest : List Char), Stops rest →
    2 * (write j).length ≤ fuel → readValue fuel (write j ++ rest) = some (j, rest)
  | .null, fuel + 1, rest, _, _ => rfl
  | .bool true, fuel + 1, rest, _, _ => rfl
  | .bool false, fuel + 1, rest, _, _ => rfl
  | .int n, fuel + 1, rest, h, _ => by
    rw [readValue_of_begins fuel (begins_int n rest)]
    exact readNumber?_int n h
  | .real negative digits exponent, fuel + 1, rest, h, _ => by
    rw [readValue_of_begins fuel (begins_real negative digits exponent rest)]
    exact readNumber?_real negative digits exponent fun c hc => (h c hc).1
  | .string text, fuel + 1, rest, _, _ => by
    rw [write_string, writeString_append, readValue_quote, readQuoted_writeString, Option.map_some,
      if_pos rfl, String.ofList_toList]
  | .unreadable, fuel + 1, rest, _, _ => by
    have hquoted : readQuoted ('\\' :: 'u' :: 'd' :: '8' :: '0' :: '0' :: '"' :: rest) =
        some ⟨[], false, rest⟩ := by
      have hcode : hex4? 'd' '8' '0' '0' = some 0xD800 := rfl
      have hsingle : lowSurrogate? ('"' :: rest) = none := rfl
      rw [readQuoted, hcode]
      simp only [show isHighSurrogate 0xD800 = true from rfl, if_true, hsingle]
      rw [readQuoted]
      rfl
    refine (readValue_quote fuel _).trans ?_
    show (readQuoted ('\\' :: 'u' :: 'd' :: '8' :: '0' :: '0' :: '"' :: rest)).map _ = _
    rw [hquoted]
    rfl
  | .array [], fuel + 1, rest, _, _ => rfl
  | .array (item :: items), fuel + 1, rest, _, hfuel => by
    rw [write_array, List.length_cons, List.length_append, List.length_singleton] at hfuel
    have hitems := readItems_write (item :: items) fuel rest (List.cons_ne_nil _ _) (by omega)
    obtain ⟨c, cs, hwrite, hc⟩ := exists_writeItems item items
    rw [write_array, List.cons_append, List.append_assoc, List.singleton_append, readValue_bracket,
      hitems]
    · rfl
    · rw [hwrite]
      exact skip_of_first hc
    · intro more hmore
      rw [hwrite] at hmore
      exact hc.2.2.2.2 (List.cons.inj hmore).1
  | .object [], fuel + 1, rest, _, _ => rfl
  | .object (member :: members), fuel + 1, rest, _, hfuel => by
    rw [write_object, List.length_cons, List.length_append, List.length_singleton] at hfuel
    have hmembers := readMembers_write (member :: members) fuel rest (List.cons_ne_nil _ _) (by omega)
    obtain ⟨cs, hwrite⟩ := exists_writeMembers member members
    rw [write_object, List.cons_append, List.append_assoc, List.singleton_append, hwrite,
      List.cons_append, readValue_brace, ← List.cons_append, ← hwrite, hmembers]
    rfl
  | j, 0, rest, _, hfuel => by
    obtain ⟨c, cs, hwrite, -⟩ := exists_write j
    rw [hwrite] at hfuel
    simp at hfuel

theorem readItems_write : ∀ (items : List Json) (fuel : Nat) (rest : List Char), items ≠ [] →
    2 * (writeItems items).length + 1 ≤ fuel →
    readItems fuel (writeItems items ++ ']' :: rest) = some (items, rest)
  | [], _, _, hne, _ => absurd rfl hne
  | [item], fuel + 1, rest, _, hfuel => by
    have hitem := readValue_write item fuel (']' :: rest) (stops_of_mark (by simp) rest)
      (Nat.le_of_succ_le_succ hfuel)
    exact readItems_last hitem
  | item :: next :: items, fuel + 1, rest, _, hfuel => by
    rw [writeItems_cons, List.length_append, List.length_cons] at hfuel
    have hitem := readValue_write item fuel (',' :: (writeItems (next :: items) ++ ']' :: rest))
      (stops_of_mark (by simp) _) (by omega)
    have hitems := readItems_write (next :: items) fuel rest (List.cons_ne_nil _ _) (by omega)
    rw [writeItems_cons, List.append_assoc, List.cons_append]
    rw [readItems_next hitem, hitems]
    rfl
  | _ :: _, 0, _, _, hfuel => absurd hfuel (Nat.not_succ_le_zero _)

theorem readMembers_write : ∀ (members : List (String × Json)) (fuel : Nat) (rest : List Char),
    members ≠ [] → 2 * (writeMembers members).length + 1 ≤ fuel →
    readMembers fuel (writeMembers members ++ '\x7d' :: rest) = some (members, rest)
  | [], _, _, hne, _ => absurd rfl hne
  | [(name, value)], fuel + 1, rest, _, hfuel => by
    have hone : writeMembers [(name, value)] = writeString name ++ ':' :: write value := rfl
    rw [hone, List.length_append, List.length_cons] at hfuel
    have hvalue := readValue_write value fuel ('\x7d' :: rest) (stops_of_mark (by simp) _) (by omega)
    rw [hone, List.append_assoc, List.cons_append]
    exact readMembers_last hvalue
  | (name, value) :: next :: members, fuel + 1, rest, _, hfuel => by
    rw [writeMembers_cons, List.length_append, List.length_cons, List.length_append,
      List.length_cons] at hfuel
    have hvalue := readValue_write value fuel (',' :: (writeMembers (next :: members) ++ '\x7d' :: rest))
      (stops_of_mark (by simp) _) (by omega)
    have hmembers := readMembers_write (next :: members) fuel rest (List.cons_ne_nil _ _) (by omega)
    rw [writeMembers_cons, List.append_assoc, List.cons_append, List.append_assoc, List.cons_append,
      readMembers_next hvalue, hmembers]
    rfl
  | _ :: _, 0, _, _, hfuel => absurd hfuel (Nat.not_succ_le_zero _)

end

/-- What is written is read back. -/
theorem ofText?_text (j : Json) : ofText? j.text = some j := by
  have hread := readValue_write j (2 * (write j).length + 2) [] stops_nil (by omega)
  rw [List.append_nil] at hread
  rw [ofText?, text]
  simp only [String.toList_ofList, hread]
  rfl

end Vigil.Json
