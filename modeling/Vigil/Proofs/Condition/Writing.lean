import Vigil.Proofs.Condition.Patterns
import Vigil.Proofs.Expression.Lexing

/-!
# Filters and decimals as they are written

A filter whose names are made of ASCII letters, digits and `_` is one that a condition can spell, and
its variable is a name. A decimal without a sign is told from a filter by its first character.
-/

namespace Vigil.Text

def isAsciiWordChar (c : Char) : Bool :=
  isAsciiLetter c || isAsciiDigit c || c == '_'

/-- An ASCII letter or `_`, and ASCII word characters after it. -/
def isName : List Char → Bool
  | [] => false
  | c :: cs => (isAsciiLetter c || c == '_') && cs.all isAsciiWordChar

def isKey (cs : List Char) : Bool :=
  !cs.isEmpty && cs.all isAsciiWordChar

variable {c : Char} {cs ds : List Char}

theorem isWordChar_of_ascii (h : isAsciiWordChar c = true) : isWordChar c = true := by
  unfold isAsciiWordChar at h
  unfold isWordChar isAlphabetic
  cases hletter : isAsciiLetter c with
  | true => rw [Bool.true_or, Bool.true_or, Bool.true_or, Bool.true_or]
  | false =>
    rw [hletter, Bool.false_or] at h
    rw [Bool.false_or, Bool.or_assoc _ (isAsciiDigit c), h, Bool.or_true, Bool.true_or]

theorem isAsciiWordChar_of_first (h : (isAsciiLetter c || c == '_') = true) :
    isAsciiWordChar c = true := by
  unfold isAsciiWordChar
  rcases Bool.or_eq_true_iff.mp h with h | h
  · rw [h, Bool.true_or, Bool.true_or]
  · rw [h, Bool.or_true]

/-- A digit begins no name. -/
theorem not_first_of_digit (h : isAsciiDigit c = true) :
    ¬ (isAsciiLetter c || c == '_') = true := by
  have hle : c ≤ '9' := of_decide_eq_true (Bool.and_eq_true_iff.mp h).2
  intro hfirst
  rcases Bool.or_eq_true_iff.mp hfirst with hletter | hline
  · rcases Bool.or_eq_true_iff.mp hletter with hlower | hupper
    · have hge : 'a' ≤ c := of_decide_eq_true (Bool.and_eq_true_iff.mp hlower).1
      exact absurd (Char.le_trans hge hle) (by decide)
    · have hge : 'A' ≤ c := of_decide_eq_true (Bool.and_eq_true_iff.mp hupper).1
      exact absurd (Char.le_trans hge hle) (by decide)
  · rw [eq_of_beq hline] at hle
    exact absurd hle (by decide)

/-- A name has a first character, and is made of word characters. -/
theorem exists_cons_of_isName (h : isName cs = true) :
    ∃ c rest, cs = c :: rest ∧ (isAsciiLetter c || c == '_') = true ∧
      ∀ d ∈ rest, isAsciiWordChar d = true := by
  cases cs with
  | nil => cases h
  | cons c rest =>
    obtain ⟨hfirst, hrest⟩ := Bool.and_eq_true_iff.mp h
    exact ⟨c, rest, rfl, hfirst, List.all_eq_true.mp hrest⟩

theorem isAsciiWordChar_of_isName (h : isName cs = true) : ∀ c ∈ cs, isAsciiWordChar c = true := by
  obtain ⟨c, rest, rfl, hfirst, hrest⟩ := exists_cons_of_isName h
  intro d hd
  rcases List.mem_cons.mp hd with rfl | hd
  · exact isAsciiWordChar_of_first hfirst
  · exact hrest d hd

theorem isAsciiWordChar_of_isKey (h : isKey cs = true) : ∀ c ∈ cs, isAsciiWordChar c = true :=
  List.all_eq_true.mp (Bool.and_eq_true_iff.mp h).2

theorem ne_nil_of_isKey (h : isKey cs = true) : cs ≠ [] := by
  rintro rfl
  cases h

theorem isLabel_of_isName (h : isName cs = true) : IsLabel cs := by
  obtain ⟨c, rest, rfl, hfirst, hrest⟩ := exists_cons_of_isName h
  exact ⟨c, rest, rfl, hfirst, fun d hd => isWordChar_of_ascii (hrest d hd)⟩

theorem isName_append (h : isName cs = true) (hds : ∀ c ∈ ds, isAsciiWordChar c = true) :
    isName (cs ++ ds) = true := by
  obtain ⟨c, rest, rfl, hfirst, hrest⟩ := exists_cons_of_isName h
  refine Bool.and_eq_true_iff.mpr ⟨hfirst, List.all_eq_true.mpr ?_⟩
  intro d hd
  rcases List.mem_append.mp hd with hd | hd
  · exact hrest d hd
  · exact hds d hd

end Vigil.Text

namespace Vigil.Filter

open Vigil.Text (isName isKey)

/-- A filter as a condition can spell it: ASCII names, and a parameter only behind a
transformation. -/
structure Written (f : Filter) : Prop where
  selector : isName f.selector.toList = true
  transformation : ∀ t ∈ f.transformation, isName t.toList = true
  key : isKey f.key.toList = true
  param : ∀ p ∈ f.param, f.transformation.isSome ∧ 0 ≤ p ∧ p ≤ Condition.maxParam

variable {f : Filter}

/-- What is written in ASCII can be spelt. -/
theorem Written.spelt (h : f.Written) : f.Spelt :=
  ⟨Text.isLabel_of_isName h.selector, fun t ht => Text.isLabel_of_isName (h.transformation t ht),
    ⟨Text.ne_nil_of_isKey h.key,
      fun c hc => Text.isWordChar_of_ascii (Text.isAsciiWordChar_of_isKey h.key c hc)⟩, h.param⟩

/-- The variable that stands for a filter is a name. -/
theorem Written.isName_identifier (h : f.Written) : isName f.identifier.toList = true := by
  have hkey : ∀ c ∈ '_' :: f.key.toList, Text.isAsciiWordChar c = true := by
    intro c hc
    rcases List.mem_cons.mp hc with rfl | hc
    · rfl
    · exact Text.isAsciiWordChar_of_isKey h.key c hc
  cases ht : f.transformation with
  | none =>
    rw [toList_identifier_of_none ht]
    exact Text.isName_append h.selector hkey
  | some t =>
    rw [toList_identifier_of_some ht]
    apply Text.isName_append (h.transformation t ht)
    intro c hc
    rcases List.mem_cons.mp hc with rfl | hc
    · rfl
    · rcases List.mem_append.mp hc with hc | hc
      · exact Text.isAsciiWordChar_of_isName h.selector c hc
      · exact hkey c hc

end Vigil.Filter

namespace Vigil.Condition

open Vigil.Text (isAsciiDigit)
open Vigil.Expression (isPlain isPlain_of_digit startsNumber)

/-- A power of ten: its letter and digits. -/
def IsPower (cs : List Char) : Prop :=
  ∃ e digits, cs = e :: digits ∧ (e = 'e' ∨ e = 'E') ∧ digits ≠ [] ∧
    ∀ c ∈ digits, isAsciiDigit c = true

/-- Digits and points, and perhaps a power of ten behind them. -/
def IsNumeral (cs : List Char) : Prop :=
  ∃ front power, cs = front ++ power ∧ front ≠ [] ∧ (∀ c ∈ front, startsNumber c = true) ∧
    (power = [] ∨ IsPower power)

theorem isPlain_of_startsNumber {c : Char} (h : startsNumber c = true) : isPlain c = true := by
  unfold startsNumber at h
  unfold isPlain
  rw [h, Bool.true_or, Bool.true_or]

namespace IsNumeral

variable {cs : List Char}

theorem exists_cons (h : IsNumeral cs) : ∃ c rest, cs = c :: rest ∧ startsNumber c = true := by
  obtain ⟨front, power, rfl, hne, hfront, -⟩ := h
  cases front with
  | nil => exact absurd rfl hne
  | cons c front => exact ⟨c, front ++ power, rfl, hfront c List.mem_cons_self⟩

theorem isPlain_of_mem (h : IsNumeral cs) : ∀ c ∈ cs, isPlain c = true := by
  obtain ⟨front, power, rfl, -, hfront, hpower⟩ := h
  intro c hc
  rcases List.mem_append.mp hc with hc | hc
  · exact isPlain_of_startsNumber (hfront c hc)
  · rcases hpower with rfl | ⟨e, digits, rfl, hletter, -, hdigits⟩
    · cases hc
    · rcases List.mem_cons.mp hc with rfl | hc
      · rcases hletter with rfl | rfl
        · rfl
        · rfl
      · exact isPlain_of_digit (hdigits c hc)

/-- The last character is a digit or the point. -/
theorem startsNumber_getLast (h : IsNumeral cs) : ∀ c ∈ cs.getLast?, startsNumber c = true := by
  obtain ⟨front, power, rfl, -, hfront, hpower⟩ := h
  intro c hc
  rcases hpower with rfl | ⟨e, digits, rfl, -, hne, hdigits⟩
  · rw [List.append_nil] at hc
    exact hfront c (List.mem_of_getLast? hc)
  · cases digits with
    | nil => exact absurd rfl hne
    | cons d digits =>
      rw [List.getLast?_append, List.getLast?_cons_cons, List.getLast?_cons] at hc
      have hlast := hdigits c (List.mem_of_getLast? (List.getLast?_cons.trans hc))
      unfold startsNumber
      rw [hlast, Bool.true_or]

theorem paren_not_mem (h : IsNumeral cs) : '(' ∉ cs :=
  fun hmem => absurd (h.isPlain_of_mem '(' hmem) (by decide)

end IsNumeral

/-- A decimal without signs: digits, perhaps a point with digits behind it, perhaps a power of
ten. -/
structure Literal where
  whole : List Char
  fraction : Option (List Char)
  exponent : Option (Char × List Char)
  whole_ne_nil : whole ≠ []
  whole_digits : ∀ c ∈ whole, isAsciiDigit c = true
  fraction_digits : ∀ ds ∈ fraction, ∀ c ∈ ds, isAsciiDigit c = true
  exponent_digits : ∀ e ∈ exponent,
    (e.1 = 'e' ∨ e.1 = 'E') ∧ e.2 ≠ [] ∧ ∀ c ∈ e.2, isAsciiDigit c = true

namespace Literal

def fractionText (l : Literal) : List Char :=
  match l.fraction with
  | none => []
  | some ds => '.' :: ds

def exponentText (l : Literal) : List Char :=
  match l.exponent with
  | none => []
  | some (e, ds) => e :: ds

def text (l : Literal) : List Char :=
  l.whole ++ (l.fractionText ++ l.exponentText)

variable (l : Literal)

theorem exists_cons_text : ∃ c cs, l.text = c :: cs ∧ isAsciiDigit c = true := by
  cases h : l.whole with
  | nil => exact absurd h l.whole_ne_nil
  | cons c cs =>
    refine ⟨c, cs ++ (l.fractionText ++ l.exponentText), ?_, ?_⟩
    · rw [text, h, List.cons_append]
    · exact l.whole_digits c (by rw [h]; exact List.mem_cons_self)

theorem text_ne_nil : l.text ≠ [] := by
  obtain ⟨c, cs, hcs, -⟩ := l.exists_cons_text
  rw [hcs]
  exact List.cons_ne_nil c cs

theorem head_exponentText :
    ∀ c ∈ l.exponentText.head?, isAsciiDigit c = false ∧ c ≠ '.' := by
  intro c hc
  rw [exponentText] at hc
  split at hc
  · cases hc
  · rename_i e ds he
    rw [← Option.some.inj hc]
    rcases (l.exponent_digits _ he).1 with rfl | rfl
    · decide
    · decide

theorem isNumeral : IsNumeral l.text := by
  refine ⟨l.whole ++ l.fractionText, l.exponentText, (List.append_assoc _ _ _).symm, ?_, ?_, ?_⟩
  · exact List.append_ne_nil_of_left_ne_nil l.whole_ne_nil _
  · have hdigit : ∀ c, isAsciiDigit c = true → startsNumber c = true := by
      intro c hc
      unfold startsNumber
      rw [hc, Bool.true_or]
    intro c hc
    rcases List.mem_append.mp hc with hc | hc
    · exact hdigit c (l.whole_digits c hc)
    · rw [fractionText] at hc
      split at hc
      · cases hc
      · rename_i ds hds
        rcases List.mem_cons.mp hc with rfl | hc
        · rfl
        · exact hdigit c (l.fraction_digits ds hds c hc)
  · rw [exponentText]
    split
    · exact .inl rfl
    · rename_i e ds he
      exact .inr ⟨e, ds, rfl, l.exponent_digits _ he⟩

theorem readFraction_eq :
    Decimal.readFraction (l.fractionText ++ l.exponentText) =
      (l.fraction.getD [], l.exponentText) := by
  rw [fractionText]
  split
  · rename_i hnone
    rw [List.nil_append, hnone, Decimal.readFraction]
    · rfl
    · intro rest hrest
      exact absurd rfl (l.head_exponentText '.' (by rw [hrest]; rfl)).2
  · rename_i ds hsome
    obtain ⟨htake, hdrop⟩ := Text.scan_append (l.fraction_digits ds hsome)
      fun c hc => (l.head_exponentText c hc).1
    rw [List.cons_append, Decimal.readFraction, htake, hdrop, hsome]
    rfl

theorem exists_readExponent : ∃ e, Decimal.readExponent l.exponentText = some e := by
  rw [exponentText]
  split
  · exact ⟨0, rfl⟩
  · rename_i e ds he
    obtain ⟨hletter, hne, hdigits⟩ := l.exponent_digits _ he
    cases ds with
    | nil => exact absurd rfl hne
    | cons d ds =>
      have hall : (d :: ds).all isAsciiDigit = true := List.all_eq_true.mpr hdigits
      rw [Decimal.readExponent, if_pos hletter,
        Decimal.readSign_of_digit (hdigits d List.mem_cons_self)]
      refine ⟨_, if_neg ?_⟩
      rw [hall]
      exact Bool.false_ne_true

/-- A decimal is a number. -/
theorem exists_read : ∃ x, Decimal.read? (String.ofList l.text) = some x := by
  obtain ⟨c, cs, hcs, hc⟩ := l.exists_cons_text
  have hwhole : l.whole.isEmpty = false := List.isEmpty_eq_false_iff.mpr l.whole_ne_nil
  have hstop : ∀ d ∈ (l.fractionText ++ l.exponentText).head?, isAsciiDigit d = false := by
    intro d hd
    rw [fractionText] at hd
    split at hd
    · exact (l.head_exponentText d hd).1
    · rw [← Option.some.inj hd]
      rfl
  obtain ⟨htake, hdrop⟩ := Text.scan_append l.whole_digits hstop
  obtain ⟨e, he⟩ := l.exists_readExponent
  have hunsigned : ∃ x, Decimal.readUnsigned? l.text = some x := by
    rw [Decimal.readUnsigned?, if_neg, if_neg]
    · rw [text, htake, hdrop, l.readFraction_eq]
      simp only [hwhole, Bool.false_and, Bool.false_eq_true, if_false, he]
      exact ⟨_, rfl⟩
    · rw [hcs]
      exact Decimal.map_toLower_ne hc rfl
    · rw [hcs]
      exact not_or.mpr ⟨Decimal.map_toLower_ne hc rfl, Decimal.map_toLower_ne hc rfl⟩
  obtain ⟨x, hx⟩ := hunsigned
  rw [Decimal.read?, String.toList_ofList, hcs, Decimal.readSign_of_digit hc, ← hcs]
  show ∃ y, (Decimal.readUnsigned? l.text).map _ = some y
  rw [hx]
  exact ⟨_, rfl⟩

/-- A decimal does not begin like a filter. -/
theorem filter?_text : filter? l.text = .ok none := by
  obtain ⟨c, cs, hcs, hc⟩ := l.exists_cons_text
  have hname : name? (c :: cs) = none := if_neg (Text.not_first_of_digit hc)
  rw [hcs, filter?, transformed?, simple?, hname]
  rfl

end Literal

end Vigil.Condition
