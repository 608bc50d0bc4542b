import Vigil.Proofs.Condition.Pieces
import Vigil.Proofs.Decimal.Digits
import Vigil.Proofs.Results

/-!
# The two patterns of filters

A piece of a condition is a filter when it matches one of two patterns: here they are what they say,
without the scanner. What matches need not be the text of the filter, for the comma may be missing or
stand before nothing, and the digits of the parameter may begin with zeros; but the text of a filter
that was read is read back as that filter, so two different ones have different texts.
-/

namespace Vigil.Text

/-- An ASCII letter or `_`, and word characters after it. -/
def IsLabel (cs : List Char) : Prop :=
  ∃ c rest, cs = c :: rest ∧ (isAsciiLetter c || c == '_') = true ∧ ∀ d ∈ rest, isWordChar d = true

def IsWord (cs : List Char) : Prop :=
  cs ≠ [] ∧ ∀ c ∈ cs, isWordChar c = true

variable {c : Char} {cs ds : List Char}

theorem isWordChar_of_first (h : (isAsciiLetter c || c == '_') = true) : isWordChar c = true := by
  unfold isWordChar isAlphabetic
  rcases Bool.or_eq_true_iff.mp h with h | h
  · rw [h, Bool.true_or, Bool.true_or, Bool.true_or, Bool.true_or]
  · rw [h, Bool.or_true, Bool.true_or]

theorem IsLabel.isWord (h : IsLabel cs) : IsWord cs := by
  obtain ⟨c, rest, rfl, hfirst, hrest⟩ := h
  refine ⟨List.cons_ne_nil c rest, ?_⟩
  intro d hd
  rcases List.mem_cons.mp hd with rfl | hd
  · exact isWordChar_of_first hfirst
  · exact hrest d hd

theorem IsLabel.append (h : IsLabel cs) (hds : ∀ c ∈ ds, isWordChar c = true) :
    IsLabel (cs ++ ds) := by
  obtain ⟨c, rest, rfl, hfirst, hrest⟩ := h
  refine ⟨c, rest ++ ds, rfl, hfirst, ?_⟩
  intro d hd
  rcases List.mem_append.mp hd with hd | hd
  · exact hrest d hd
  · exact hds d hd

/-- A character that is no word character is in no word. -/
theorem IsWord.not_mem (h : IsWord cs) (hc : isWordChar c = false) : c ∉ cs := by
  intro hmem
  rw [h.2 c hmem] at hc
  cases hc

theorem head_dropWhile (p : Char → Bool) (cs : List Char) :
    ∀ d ∈ (cs.dropWhile p).head?, p d = false := by
  intro d hd
  have hnot := List.head?_dropWhile_not p cs
  rw [hd] at hnot
  exact hnot

end Vigil.Text

namespace Vigil.Filter

open Vigil.Text (IsLabel IsWord)

/-- A filter as a piece can spell it, and a parameter only behind a transformation. -/
structure Spelt (f : Filter) : Prop where
  selector : IsLabel f.selector.toList
  transformation : ∀ t ∈ f.transformation, IsLabel t.toList
  key : IsWord f.key.toList
  param : ∀ p ∈ f.param, f.transformation.isSome ∧ 0 ≤ p ∧ p ≤ Condition.maxParam

def paramDigits : Option Int → List Char
  | none => []
  | some p => (toString p).toList

/-- A parameter with the comma before it. -/
def paramText : Option Int → List Char
  | none => []
  | some p => ',' :: (toString p).toList

variable {f : Filter} {t : String}

theorem toList_text_of_none (h : f.transformation = none) :
    f.text.toList = f.selector.toList ++ '(' :: (f.key.toList ++ [')']) := by
  simp only [text, withKey, h, String.toList_append, List.append_assoc]
  rfl

theorem toList_text_of_some (h : f.transformation = some t) :
    f.text.toList = t.toList ++ '(' :: (f.selector.toList ++
      '(' :: (f.key.toList ++ ')' :: (paramText f.param ++ [')']))) := by
  cases hp : f.param <;>
    simp only [text, withKey, h, hp, String.toList_append, List.append_assoc] <;> rfl

theorem toList_identifier_of_none (h : f.transformation = none) :
    f.identifier.toList = f.selector.toList ++ '_' :: f.key.toList := by
  simp only [identifier, h, String.toList_append, List.append_assoc]
  rfl

theorem toList_identifier_of_some (h : f.transformation = some t) :
    f.identifier.toList = t.toList ++ '_' :: (f.selector.toList ++ '_' :: f.key.toList) := by
  simp only [identifier, h, String.toList_append, List.append_assoc]
  rfl

theorem paren_mem_text (f : Filter) : '(' ∈ f.text.toList := by
  cases ht : f.transformation with
  | none =>
    rw [toList_text_of_none ht]
    exact List.mem_append_right _ List.mem_cons_self
  | some t =>
    rw [toList_text_of_some ht]
    exact List.mem_append_right _ List.mem_cons_self

theorem text_ne_nil (f : Filter) : f.text.toList ≠ [] :=
  List.ne_nil_of_mem (paren_mem_text f)

/-- The variable that stands for a filter is a label. -/
theorem Spelt.isLabel_identifier (h : f.Spelt) : IsLabel f.identifier.toList := by
  have hkey : ∀ c ∈ '_' :: f.key.toList, Text.isWordChar c = true := by
    intro c hc
    rcases List.mem_cons.mp hc with rfl | hc
    · decide
    · exact h.key.2 c hc
  cases ht : f.transformation with
  | none =>
    rw [toList_identifier_of_none ht]
    exact h.selector.append hkey
  | some t =>
    rw [toList_identifier_of_some ht]
    apply (h.transformation t ht).append
    intro c hc
    rcases List.mem_cons.mp hc with rfl | hc
    · decide
    · rcases List.mem_append.mp hc with hc | hc
      · exact h.selector.isWord.2 c hc
      · exact hkey c hc

theorem Spelt.paren_not_mem_identifier (h : f.Spelt) : '(' ∉ f.identifier.toList :=
  h.isLabel_identifier.isWord.not_mem (by decide)

end Vigil.Filter

namespace Vigil.Condition

open Vigil.Text (IsLabel IsWord isWordChar isAsciiDigit isDecimalDigit)

section Scan

variable {c : Char} {cs word rest : List Char}

theorem name?_eq_some_iff : name? cs = some (word, rest) ↔
    cs = word ++ rest ∧ IsLabel word ∧ ∀ d ∈ rest.head?, isWordChar d = false := by
  constructor
  · intro h
    cases cs with
    | nil => cases h
    | cons c cs =>
      rw [name?] at h
      split at h
      · rename_i hfirst
        cases h
        refine ⟨List.takeWhile_append_dropWhile.symm, ?_, Text.head_dropWhile _ _⟩
        rw [List.takeWhile_cons_of_pos (Text.isWordChar_of_first hfirst)]
        exact ⟨c, _, rfl, hfirst, List.all_eq_true.mp List.all_takeWhile⟩
      · cases h
  · rintro ⟨rfl, hword, hrest⟩
    obtain ⟨htake, hdrop⟩ := Text.scan_append hword.isWord.2 hrest
    obtain ⟨c, cs, rfl, hfirst, -⟩ := hword
    rw [List.cons_append] at htake hdrop ⊢
    rw [name?, if_pos hfirst, htake, hdrop]

theorem word?_eq_some_iff : word? cs = some (word, rest) ↔
    cs = word ++ rest ∧ IsWord word ∧ ∀ d ∈ rest.head?, isWordChar d = false := by
  constructor
  · intro h
    unfold word? at h
    split at h
    · cases h
    · rename_i hsome
      cases h
      refine ⟨?_, ⟨hsome, ?_⟩, Text.head_dropWhile _ _⟩
      · exact List.takeWhile_append_dropWhile.symm
      · exact List.all_eq_true.mp List.all_takeWhile
  · rintro ⟨rfl, hword, hrest⟩
    obtain ⟨htake, hdrop⟩ := Text.scan_append hword.2 hrest
    rw [word?, htake, hdrop]
    split
    · exact absurd rfl hword.1
    · rfl

theorem after?_eq_some_iff : after? c cs = some rest ↔ cs = c :: rest := by
  cases cs with
  | nil => exact iff_of_false nofun nofun
  | cons d cs =>
    rw [after?]
    split
    · rename_i h
      rw [h, Option.some.injEq, List.cons.injEq]
      exact (and_iff_right rfl).symm
    · rename_i h
      refine iff_of_false nofun ?_
      rintro ⟨⟩
      exact h rfl

end Scan

section Forms

variable {piece transformation selector key digits : List Char}

theorem simple?_eq_some_iff : simple? piece = some (selector, key) ↔
    piece = selector ++ '(' :: (key ++ [')']) ∧ IsLabel selector ∧ IsWord key := by
  simp only [simple?, Option.bind_eq_bind, Option.bind_eq_some_iff, Prod.exists,
    name?_eq_some_iff, word?_eq_some_iff, after?_eq_some_iff]
  constructor
  · rintro ⟨_, _, ⟨rfl, hselector, -⟩, _, rfl, _, _, ⟨rfl, hkey, -⟩, rest, rfl, h⟩
    split at h
    · rename_i hnil
      cases h
      exact ⟨by rw [List.isEmpty_iff.mp hnil], hselector, hkey⟩
    · cases h
  · rintro ⟨rfl, hselector, hkey⟩
    refine ⟨_, _, ⟨rfl, hselector, ?_⟩, _, rfl, _, _, ⟨rfl, hkey, ?_⟩, _, rfl, rfl⟩
    · rintro d ⟨⟩
      decide
    · rintro d ⟨⟩
      decide

/-- The digits of a parameter, and the comma that may stand before them. -/
theorem after?_comma {cs : List Char} {comma : List Char} (hcomma : comma = [] ∨ comma = [','])
    (hcs : ∀ d ∈ cs.head?, d ≠ ',') : (after? ',' (comma ++ cs)).getD (comma ++ cs) = cs := by
  rcases hcomma with rfl | rfl
  · cases hfound : after? ',' cs with
    | none =>
      rw [List.nil_append, hfound]
      rfl
    | some rest =>
      rw [after?_eq_some_iff] at hfound
      exact absurd rfl (hcs ',' (by rw [hfound]; rfl))
  · rfl

theorem exists_comma (cs : List Char) :
    ∃ comma, (comma = [] ∨ comma = [',']) ∧ cs = comma ++ (after? ',' cs).getD cs := by
  cases hfound : after? ',' cs with
  | none => exact ⟨[], .inl rfl, rfl⟩
  | some rest => exact ⟨[','], .inr rfl, after?_eq_some_iff.mp hfound⟩

theorem transformed?_eq_some_iff :
    transformed? piece = some (transformation, selector, key, digits) ↔
      IsLabel transformation ∧ IsLabel selector ∧ IsWord key ∧
        (∀ c ∈ digits, isDecimalDigit c = true) ∧
        ∃ comma, (comma = [] ∨ comma = [',']) ∧
          piece = transformation ++ '(' :: (selector ++
            '(' :: (key ++ ')' :: (comma ++ (digits ++ [')'])))) := by
  simp only [transformed?, Option.bind_eq_bind, Option.bind_eq_some_iff, Prod.exists,
    name?_eq_some_iff, word?_eq_some_iff, after?_eq_some_iff]
  constructor
  · rintro ⟨_, _, ⟨rfl, htransformation, -⟩, _, rfl, _, _, ⟨rfl, hselector, -⟩, _, rfl, _, _,
      ⟨rfl, hkey, -⟩, rest, rfl, more, hmore, h⟩
    split at h
    · rename_i hnil
      rw [List.isEmpty_iff.mp hnil] at hmore
      cases h
      obtain ⟨comma, hcomma, hrest⟩ := exists_comma rest
      refine ⟨htransformation, hselector, hkey, List.all_eq_true.mp List.all_takeWhile, comma,
        hcomma, ?_⟩
      rw [← hmore, List.takeWhile_append_dropWhile, ← hrest]
    · cases h
  · rintro ⟨htransformation, hselector, hkey, hdigits, comma, hcomma, rfl⟩
    have hstop : ∀ d ∈ [')'].head?, isDecimalDigit d = false := by
      rintro d ⟨⟩
      decide
    have hhead : ∀ d ∈ (digits ++ [')']).head?, d ≠ ',' := by
      intro d hd hcomma
      cases digits with
      | nil =>
        cases hd
        cases hcomma
      | cons e digits =>
        cases hd
        exact absurd (hdigits d List.mem_cons_self) (by rw [hcomma]; decide)
    obtain ⟨htake, hdrop⟩ := Text.scan_append hdigits hstop
    refine ⟨_, _, ⟨rfl, htransformation, ?_⟩, _, rfl, _, _, ⟨rfl, hselector, ?_⟩, _, rfl, _, _,
      ⟨rfl, hkey, ?_⟩, _, rfl, ?_⟩
    · rintro d ⟨⟩
      decide
    · rintro d ⟨⟩
      decide
    · rintro d ⟨⟩
      decide
    · rw [after?_comma hcomma hhead, htake, hdrop]
      exact ⟨[], rfl, rfl⟩

end Forms

/-- The piece matches one of the patterns, with the parts of the filter. -/
inductive Spells : List Char → Filter → Prop where
  | simple {selector key : List Char} (hselector : IsLabel selector) (hkey : IsWord key) :
      Spells (selector ++ '(' :: (key ++ [')']))
        ⟨String.ofList selector, none, String.ofList key, none⟩
  | transformed {transformation selector key comma digits : List Char} {param : Option Int}
      (htransformation : IsLabel transformation) (hselector : IsLabel selector) (hkey : IsWord key)
      (hcomma : comma = [] ∨ comma = [',']) (hdigits : ∀ c ∈ digits, isDecimalDigit c = true)
      (hparam : param? digits = .ok param) :
      Spells (transformation ++ '(' :: (selector ++
          '(' :: (key ++ ')' :: (comma ++ (digits ++ [')'])))))
        ⟨String.ofList selector, some (String.ofList transformation), String.ofList key, param⟩

variable {piece : List Char} {f g : Filter}

theorem filter?_eq_none_iff :
    filter? piece = .ok none ↔ transformed? piece = none ∧ simple? piece = none := by
  unfold filter?
  split
  · rename_i hfound
    rw [hfound]
    refine iff_of_false ?_ (fun h => nomatch h.1)
    intro h
    obtain ⟨param, -, ⟨⟩⟩ := bind_eq_ok_iff.mp h
  · rename_i hnone
    rw [and_iff_right hnone, Except.ok.injEq, Option.map_eq_none_iff]

/-- What matches the short pattern does not match the long one. -/
theorem transformed?_of_simple {selector key : List Char} (hselector : IsLabel selector)
    (hkey : IsWord key) : transformed? (selector ++ '(' :: (key ++ [')'])) = none := by
  cases hfound : transformed? (selector ++ '(' :: (key ++ [')'])) with
  | none => rfl
  | some parts =>
    obtain ⟨transformation, selector', key', digits⟩ := parts
    obtain ⟨htransformation, hselector', -, -, comma, -, hpiece⟩ :=
      transformed?_eq_some_iff.mp hfound
    -- the second parenthesis of the long pattern would stand in the key
    have hname : name? (selector ++ '(' :: (key ++ [')'])) = some (selector, '(' :: (key ++ [')'])) :=
      name?_eq_some_iff.mpr ⟨rfl, hselector, by rintro d ⟨⟩; decide⟩
    rw [hpiece, name?_eq_some_iff.mpr ⟨rfl, htransformation, by rintro d ⟨⟩; decide⟩] at hname
    have hinner : selector' ++ '(' :: (key' ++ ')' :: (comma ++ (digits ++ [')']))) =
        key ++ [')'] := by
      injection hname with hname
      injection hname with _ hname
      exact (List.cons.inj hname).2
    have hmem : '(' ∈ key ++ [')'] :=
      hinner ▸ List.mem_append_right selector' List.mem_cons_self
    rcases List.mem_append.mp hmem with hmem | hmem
    · exact absurd hmem (hkey.not_mem (by decide))
    · exact absurd hmem (by decide)

/-- A piece is read as a filter exactly when it spells it. -/
theorem filter?_eq_some_iff : filter? piece = .ok (some f) ↔ Spells piece f := by
  constructor
  · intro h
    unfold filter? at h
    split at h
    · rename_i hfound
      obtain ⟨htransformation, hselector, hkey, hdigits, comma, hcomma, rfl⟩ :=
        transformed?_eq_some_iff.mp hfound
      obtain ⟨param, hparam, ⟨⟩⟩ := bind_eq_ok_iff.mp h
      exact .transformed htransformation hselector hkey hcomma hdigits hparam
    · obtain ⟨⟨selector, key⟩, hfound, ⟨⟩⟩ := Option.map_eq_some_iff.mp (Except.ok.inj h)
      obtain ⟨rfl, hselector, hkey⟩ := simple?_eq_some_iff.mp hfound
      exact .simple hselector hkey
  · rintro (⟨hselector, hkey⟩ | ⟨htransformation, hselector, hkey, hcomma, hdigits, hparam⟩)
    · rw [filter?, transformed?_of_simple hselector hkey,
        simple?_eq_some_iff.mpr ⟨rfl, hselector, hkey⟩]
      rfl
    · rw [filter?, transformed?_eq_some_iff.mpr
        ⟨htransformation, hselector, hkey, hdigits, _, hcomma, rfl⟩]
      exact bind_eq_ok_iff.mpr ⟨_, hparam, rfl⟩

theorem not_mark_of_wordChar {c : Char} (h : isWordChar c = true) : isOperatorChar c = false := by
  cases hmark : isOperatorChar c with
  | false => rfl
  | true =>
    rcases mark_cases hmark with rfl | rfl | rfl | rfl | rfl | rfl | rfl | rfl | rfl | rfl | rfl <;>
      exact absurd h (by decide)

theorem not_mark_of_digit {c : Char} (h : isDecimalDigit c = true) : isOperatorChar c = false := by
  cases hmark : isOperatorChar c with
  | false => rfl
  | true =>
    rcases mark_cases hmark with rfl | rfl | rfl | rfl | rfl | rfl | rfl | rfl | rfl | rfl | rfl <;>
      exact absurd h (by decide)

/-- A filter has no mark in it. -/
theorem Spells.not_mark (h : Spells piece f) : ∀ c ∈ piece, isOperatorChar c = false := by
  have hword : ∀ {cs}, IsWord cs → ∀ c ∈ cs, isOperatorChar c = false :=
    fun h c hc => not_mark_of_wordChar (h.2 c hc)
  intro c hc
  cases h with
  | simple hselector hkey =>
    simp only [List.mem_append, List.mem_cons, List.not_mem_nil, or_false] at hc
    rcases hc with hc | rfl | hc | rfl
    · exact hword hselector.isWord c hc
    · decide
    · exact hword hkey c hc
    · decide
  | transformed htransformation hselector hkey hcomma hdigits _ =>
    simp only [List.mem_append, List.mem_cons, List.not_mem_nil, or_false] at hc
    rcases hc with hc | rfl | hc | rfl | hc | rfl | hc | hc | rfl
    · exact hword htransformation.isWord c hc
    · decide
    · exact hword hselector.isWord c hc
    · decide
    · exact hword hkey c hc
    · decide
    · rcases hcomma with rfl | rfl
      · cases hc
      · rw [List.mem_singleton.mp hc]
        decide
    · exact not_mark_of_digit (hdigits c hc)
    · decide

theorem param?_bounds {digits : List Char} {param : Option Int} (h : param? digits = .ok param) :
    ∀ p ∈ param, 0 ≤ p ∧ p ≤ maxParam := by
  unfold param? at h
  split at h
  · cases h
    exact fun p hp => absurd hp (Option.not_mem_none p)
  · split at h
    · rename_i hbound
      cases h
      rw [Bool.and_eq_true, decide_eq_true_iff] at hbound
      rintro p ⟨⟩
      omega
    · cases h

theorem isDecimalDigit_of_mem_paramDigits {p : Option Int} (hp : ∀ i ∈ p, 0 ≤ i) {c : Char}
    (h : c ∈ Filter.paramDigits p) : isDecimalDigit c = true := by
  cases p with
  | none => cases h
  | some i =>
    obtain ⟨n, rfl⟩ := Int.eq_ofNat_of_zero_le (hp i rfl)
    rw [Filter.paramDigits, Decimal.toList_toString] at h
    unfold isDecimalDigit
    rw [Decimal.isAsciiDigit_of_mem_toDigits h, Bool.true_or]

/-- The digits of a parameter say what it is. -/
theorem param?_paramDigits {p : Option Int} (hp : ∀ i ∈ p, 0 ≤ i ∧ i ≤ maxParam) :
    param? (Filter.paramDigits p) = .ok p := by
  cases p with
  | none => rfl
  | some i =>
    obtain ⟨hlow, hhigh⟩ := hp i rfl
    obtain ⟨n, rfl⟩ := Int.eq_ofNat_of_zero_le hlow
    have hne : (Nat.toDigits 10 n).isEmpty = false :=
      List.isEmpty_eq_false_iff.mpr Nat.toDigits_ne_nil
    have hall : (Nat.toDigits 10 n).all isAsciiDigit = true :=
      List.all_eq_true.mpr fun c hc => Decimal.isAsciiDigit_of_mem_toDigits hc
    rw [Filter.paramDigits, Decimal.toList_toString, param?, hne, hall, Decimal.digitsValue_toDigits]
    rw [if_neg Bool.false_ne_true, if_pos]
    rw [Bool.true_and]
    exact decide_eq_true (Int.ofNat_le.mp hhigh)

/-- The text of a filter matches its pattern. -/
theorem spells_text (h : f.Spelt) : Spells f.text.toList f := by
  obtain ⟨selector, transformation, key, param⟩ := f
  cases transformation with
  | none =>
    have hparam : param = none := by
      cases param with
      | none => rfl
      | some p => exact absurd (h.param p rfl).1 Bool.false_ne_true
    rw [Filter.toList_text_of_none rfl, hparam]
    have hspells := Spells.simple h.selector h.key
    simp only [String.ofList_toList] at hspells
    exact hspells
  | some t =>
    have hdigits : ∀ c ∈ Filter.paramDigits param, isDecimalDigit c = true :=
      fun c hc => isDecimalDigit_of_mem_paramDigits (fun i hi => (h.param i hi).2.1) hc
    have hparam := param?_paramDigits fun i hi => (h.param i hi).2
    have hcomma : ∃ comma, (comma = [] ∨ comma = [',']) ∧
        Filter.paramText param = comma ++ Filter.paramDigits param := by
      cases param with
      | none => exact ⟨[], .inl rfl, rfl⟩
      | some p => exact ⟨[','], .inr rfl, rfl⟩
    obtain ⟨comma, hcomma, htext⟩ := hcomma
    rw [Filter.toList_text_of_some rfl, htext]
    have hspells := Spells.transformed (h.transformation t rfl) h.selector h.key hcomma hdigits hparam
    simp only [String.ofList_toList] at hspells
    rw [List.append_assoc]
    exact hspells

/-- A filter is read back from its text. -/
theorem filter?_text (h : f.Spelt) : filter? f.text.toList = .ok (some f) :=
  filter?_eq_some_iff.mpr (spells_text h)

theorem Spells.spelt (h : Spells piece f) : f.Spelt := by
  cases h with
  | simple hselector hkey =>
    exact ⟨by rwa [String.toList_ofList], nofun, by rwa [String.toList_ofList], nofun⟩
  | transformed htransformation hselector hkey _ _ hparam =>
    refine ⟨by rwa [String.toList_ofList], ?_, by rwa [String.toList_ofList], ?_⟩
    · rintro t ⟨⟩
      rwa [String.toList_ofList]
    · exact fun p hp => ⟨rfl, param?_bounds hparam p hp⟩

/-- Two filters with one text are one filter. -/
theorem eq_of_text_eq (hf : f.Spelt) (hg : g.Spelt) (h : f.text = g.text) : f = g := by
  have hread := filter?_text hf
  rw [h, filter?_text hg] at hread
  exact (Option.some.inj (Except.ok.inj hread)).symm

end Vigil.Condition
