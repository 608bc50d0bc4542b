import Vigil.Proofs.Condition.Misspelt

/-!
# Filters as they are printed

The pattern of a transformed filter takes more spellings than a filter is printed in: the comma may be
left out or stand before nothing, and zeros may stand before the parameter. Only a piece in the printed
form is the text of its filter, and only such a piece gives way to the identifier. Any other keeps a
parenthesis behind a word, so that the expression does not compile.
-/

namespace Vigil.Condition

open Vigil.Expression
open Vigil.Text (IsLabel IsWord isAsciiDigit isDecimalDigit)

/-- The comma and the digits of a parameter as they are printed, or neither. -/
inductive PrintedEnd : List Char → List Char → Prop where
  | none : PrintedEnd [] []
  | param {digits : List Char} (h : Decimal.IsPrinted digits) : PrintedEnd [','] digits

/-- The piece has the form that a filter is printed in. -/
inductive Printed : List Char → Prop where
  | simple {selector key : List Char} (hselector : IsLabel selector) (hkey : IsWord key) :
      Printed (selector ++ '(' :: (key ++ [')']))
  | transformed {transformation selector key comma digits : List Char}
      (htransformation : IsLabel transformation) (hselector : IsLabel selector) (hkey : IsWord key)
      (hdigits : ∀ c ∈ digits, isDecimalDigit c = true) (hend : PrintedEnd comma digits) :
      Printed (transformation ++ '(' :: (selector ++
        '(' :: (key ++ ')' :: (comma ++ (digits ++ [')'])))))

section Ends

variable {comma digits : List Char} {param : Option Int}

theorem PrintedEnd.comma_cases (h : PrintedEnd comma digits) : comma = [] ∨ comma = [','] := by
  cases h with
  | none => exact .inl rfl
  | param => exact .inr rfl

theorem param?_of_ne_nil (hne : digits ≠ []) (h : param? digits = .ok param) :
    (∀ c ∈ digits, isAsciiDigit c = true) ∧ param = some (Decimal.digitsValue digits : Int) := by
  rw [param?, List.isEmpty_eq_false_iff.mpr hne, if_neg Bool.false_ne_true] at h
  split at h
  · rename_i hread
    exact ⟨List.all_eq_true.mp (Bool.and_eq_true_iff.mp hread).1, (Except.ok.inj h).symm⟩
  · cases h

/-- A parameter is printed with the comma and the digits that it was read from if these are printed
ones. -/
theorem paramText_eq_iff (hcomma : comma = [] ∨ comma = [','])
    (hdigits : ∀ c ∈ digits, isDecimalDigit c = true) (hparam : param? digits = .ok param) :
    Filter.paramText param = comma ++ digits ↔ PrintedEnd comma digits := by
  constructor
  · intro h
    cases param with
    | none =>
      obtain ⟨rfl, rfl⟩ := List.append_eq_nil_iff.mp h.symm
      exact .none
    | some i =>
      rcases hcomma with rfl | rfl
      · have hdigit : ',' :: (toString i).toList = digits := h
        exact absurd (hdigits ',' (hdigit ▸ List.mem_cons_self)) (by decide)
      · obtain ⟨n, rfl⟩ := Int.eq_ofNat_of_zero_le (param?_bounds hparam i rfl).1
        obtain rfl : (toString (n : Int)).toList = digits := (List.cons.inj h).2
        rw [Decimal.toList_toString]
        exact .param (Decimal.isPrinted_toDigits n)
  · intro h
    cases h with
    | none =>
      obtain rfl : none = param := Except.ok.inj hparam
      rfl
    | param hprinted =>
      obtain ⟨hascii, rfl⟩ := param?_of_ne_nil hprinted.1 hparam
      rw [Filter.paramText, Decimal.toList_toString, Decimal.toDigits_digitsValue hprinted hascii]
      rfl

end Ends

section Pieces

variable {piece : List Char} {f : Filter}

/-- A printed piece with the long pattern ends as it is printed. -/
theorem Printed.printedEnd {transformation selector key comma digits : List Char}
    (htransformation : IsLabel transformation) (hselector : IsLabel selector) (hkey : IsWord key)
    (hcomma : comma = [] ∨ comma = [',']) (hdigits : ∀ c ∈ digits, isDecimalDigit c = true)
    (h : Printed (transformation ++ '(' :: (selector ++
      '(' :: (key ++ ')' :: (comma ++ (digits ++ [')'])))))) : PrintedEnd comma digits := by
  have hparts := transformed?_eq_some_iff.mpr
    ⟨htransformation, hselector, hkey, hdigits, comma, hcomma, rfl⟩
  generalize hpiece : transformation ++ '(' :: (selector ++
    '(' :: (key ++ ')' :: (comma ++ (digits ++ [')'])))) = piece at h hparts
  cases h with
  | simple hselector hkey =>
    rw [transformed?_of_simple hselector hkey] at hparts
    cases hparts
  | transformed htransformation' hselector' hkey' hdigits' hend =>
    rw [transformed?_eq_some_iff.mpr
      ⟨htransformation', hselector', hkey', hdigits', _, hend.comma_cases, rfl⟩] at hparts
    cases hparts
    simp only [List.append_cancel_left_eq, List.cons.injEq, true_and, List.append_cancel_right_eq]
      at hpiece
    rwa [hpiece]

/-- A piece is the text of the filter that it spells if it is printed. -/
theorem text_eq_iff (h : Spells piece f) : f.text.toList = piece ↔ Printed piece := by
  cases h with
  | simple hselector hkey =>
    rw [Filter.toList_text_of_none rfl, String.toList_ofList, String.toList_ofList]
    exact iff_of_true rfl (.simple hselector hkey)
  | transformed htransformation hselector hkey hcomma hdigits hparam =>
    rw [Filter.toList_text_of_some rfl, String.toList_ofList, String.toList_ofList,
      String.toList_ofList, ← List.append_assoc _ _ [')']]
    simp only [List.append_cancel_left_eq, List.cons.injEq, true_and, List.append_cancel_right_eq]
    rw [paramText_eq_iff hcomma hdigits hparam, List.append_assoc]
    exact ⟨.transformed htransformation hselector hkey hdigits,
      Printed.printedEnd htransformation hselector hkey hcomma hdigits⟩

end Pieces

section Parse

variable {input : String} {c : Condition} {piece : List Char} {f : Filter} {filters : List Filter}

/-- Filters give way to names, so no mark comes in. -/
theorem not_mark_rewritten (hspelt : ∀ f ∈ filters, f.Spelt)
    (hpiece : ∀ c ∈ piece, isOperatorChar c = false) :
    ∀ c ∈ rewritten filters piece, isOperatorChar c = false := by
  induction filters generalizing piece with
  | nil => rwa [rewritten_nil]
  | cons f filters ih =>
    obtain ⟨p, ps, -, hcons⟩ := exists_rewritten_cons f filters
    rw [hcons]
    refine ih (fun g hg => hspelt g (List.mem_cons_of_mem f hg)) fun c hc => ?_
    rcases Text.mem_replaceAll hc with hc | hc
    · exact hpiece c hc
    · exact not_mark_of_wordChar ((hspelt f List.mem_cons_self).isLabel_identifier.isWord.2 c hc)

/-- The pieces of the expression are those of the condition, each rewritten. -/
theorem pieces_expression (h : parse input = .ok c) : pieces c.expression.toList =
    (pieces (Text.strip input).toList).map (rewritten (longestFirst c.filters)) := by
  obtain ⟨-, -, -, -, hexpression, -⟩ := parse_eq_ok_iff.mp h
  have hspelt := spelt_longestFirst h
  have htext : c.expression.toList =
      rewritten (longestFirst c.filters) (Text.strip input).toList := by
    rw [hexpression, rewritten, String.ofList_toList]
  rw [htext, rewritten_pieces hspelt]
  refine pieces_weave ?_ (fun _ hc => isOperatorChar_of_mem_marks hc) ?_
  · intro image himage
    obtain ⟨piece, hpiece, rfl⟩ := List.mem_map.mp himage
    exact not_mark_rewritten hspelt (not_mark_of_mem_pieces hpiece)
  · rw [List.length_map, length_pieces]

/-- A piece that is a filter is the text of that filter exactly if it is in the printed form; exactly then
the expression has the identifier of the filter in its place, and else the expression does not
compile. -/
theorem rewritten_iff_printed {before after : List (List Char)}
    (hpieces : pieces (Text.strip input).toList = before ++ piece :: after)
    (hfilter : filter? piece = .ok (some f)) :
    (f.text.toList = piece ↔ Printed piece) ∧
      ∀ c, parse input = .ok c →
        ((pieces c.expression.toList)[before.length]? = some f.identifier.toList ↔ Printed piece) ∧
        (¬ Printed piece → ∀ e, compile c.expression ≠ .ok e) := by
  have hspells := filter?_eq_some_iff.mp hfilter
  refine ⟨text_eq_iff hspells, fun c h => ?_⟩
  have hnil : piece ≠ [] := by
    rintro rfl
    cases hfilter
  have hwhole : piece ∈ wholePieces input := by
    rw [mem_wholePieces, hpieces]
    exact ⟨List.mem_append_right _ List.mem_cons_self, hnil⟩
  have hmem := (mem_filters_iff h).mpr ⟨piece, hwhole, hfilter⟩
  have hplace : (pieces c.expression.toList)[before.length]? =
      some (rewritten (longestFirst c.filters) piece) := by
    rw [pieces_expression h, hpieces, List.map_append, List.map_cons,
      List.getElem?_append_right (by rw [List.length_map]), List.length_map, Nat.sub_self]
    rfl
  rw [hplace, Option.some.injEq]
  rcases rewritten_of_spells (spelt_longestFirst h) (pairwise_longestFirst _)
      (List.mem_mergeSort.mpr hmem) hspells with ⟨htext, hname⟩ | ⟨htext, label, cs, hlabel, hstuck⟩
  · have hprinted := (text_eq_iff hspells).mp htext.symm
    exact ⟨iff_of_true hname hprinted, fun hnot => absurd hprinted hnot⟩
  · have hprinted : ¬ Printed piece := fun hp => htext ((text_eq_iff hspells).mpr hp).symm
    refine ⟨iff_of_false ?_ hprinted, fun _ e he => ?_⟩
    · intro hname
      have hparen := (spelt_of_parse h f hmem).paren_not_mem_identifier
      rw [← hname, hstuck] at hparen
      exact hparen (List.mem_append_right label List.mem_cons_self)
    · have hinfix := isInfix_weave (List.mem_of_getElem? hplace)
        (le_of_eq (length_pieces c.expression.toList))
      rw [weave_pieces, hstuck] at hinfix
      exact not_isInfix_of_compile he hlabel hinfix

end Parse

/-- A rate per ten seconds. -/
def rate : Filter := ⟨"max", some "derivative", "t", some 10⟩

/-- A comparison of a filter with one. -/
theorem parse_against_one {input expression : String} {piece : List Char} {f : Filter}
    (hwhole : wholePieces input = [piece, "1".toList]) (hfilter : filter? piece = .ok (some f))
    (hexpression : substitute [f] (Text.strip input) = expression) :
    parse input = .ok ⟨[f], expression, []⟩ := by
  have hone : filter? "1".toList = .ok none := rfl
  refine parse_eq_ok_iff.mpr ⟨?_, List.cons_ne_nil _ _, rfl, ?_, ?_, ?_⟩
  · rw [hwhole]
    intro other hother
    rcases List.mem_pair.mp hother with rfl | rfl
    · exact ⟨_, hfilter⟩
    · exact ⟨_, hone⟩
  · rw [hwhole, filtersIn, List.filterMap_cons_some (filterOf?_eq_some_iff.mpr hfilter)]
    rfl
  · have hlongest : longestFirst [f] = [f] := List.mergeSort_singleton _
    rw [hlongest, hexpression]
  · rw [hwhole, List.map_cons, kindOf, filterOf?_eq_some_iff.mpr hfilter]
    rfl

theorem parse_printed_rate : parse "derivative(max(t),10) > 1" =
    .ok ⟨[rate], "derivative_max_t>1", []⟩ := by
  have hwhole : wholePieces "derivative(max(t),10) > 1" =
      ["derivative(max(t),10)".toList, "1".toList] := rfl
  exact parse_against_one hwhole rfl (by cbv)

theorem parse_zero_rate : parse "derivative(max(t),010) > 1" =
    .ok ⟨[rate], "derivative(max(t),010)>1", []⟩ := by
  have hwhole : wholePieces "derivative(max(t),010) > 1" =
      ["derivative(max(t),010)".toList, "1".toList] := rfl
  exact parse_against_one hwhole rfl (by cbv)

/-- The printed form gives way to the identifier; with a zero before the parameter the expression does
not compile. -/
theorem rewritten_of_rate :
    (∃ c, parse "derivative(max(t),10) > 1" = .ok c ∧
      rate.text.toList = "derivative(max(t),10)".toList ∧
      (pieces c.expression.toList)[0]? = some rate.identifier.toList) ∧
    ∃ c, parse "derivative(max(t),010) > 1" = .ok c ∧
      rate.text.toList ≠ "derivative(max(t),010)".toList ∧ ∀ e, compile c.expression ≠ .ok e := by
  have hpieces : pieces (Text.strip "derivative(max(t),10) > 1").toList =
      [] ++ "derivative(max(t),10)".toList :: ["1".toList] := rfl
  have hpieces' : pieces (Text.strip "derivative(max(t),010) > 1").toList =
      [] ++ "derivative(max(t),010)".toList :: ["1".toList] := rfl
  have hfilter : filter? "derivative(max(t),10)".toList = .ok (some rate) := rfl
  have hfilter' : filter? "derivative(max(t),010)".toList = .ok (some rate) := rfl
  obtain ⟨htext, hplace⟩ := rewritten_iff_printed hpieces hfilter
  obtain ⟨htext', hplace'⟩ := rewritten_iff_printed hpieces' hfilter'
  have hsame : rate.text.toList = "derivative(max(t),10)".toList := rfl
  have hdiffers : rate.text.toList ≠ "derivative(max(t),010)".toList := by decide
  exact ⟨⟨_, parse_printed_rate, hsame, (hplace _ parse_printed_rate).1.mpr (htext.mp hsame)⟩,
    _, parse_zero_rate, hdiffers, (hplace' _ parse_zero_rate).2 (htext'.not.mp hdiffers)⟩

/-- A piece is read as a filter whose text is not the piece, and the expression keeps the piece. -/
theorem zero_before_parameter :
    ∃ c piece f, parse "derivative(max(t),010) > 1" = .ok c ∧
      piece ∈ pieces (Text.strip "derivative(max(t),010) > 1").toList ∧
      filter? piece = .ok (some f) ∧ f.text.toList ≠ piece ∧
      (pieces c.expression.toList)[0]? = some piece ∧
      f.identifier.toList ∉ pieces c.expression.toList :=
  ⟨_, "derivative(max(t),010)".toList, rate, parse_zero_rate, .head _, rfl, by decide, rfl, by decide⟩

end Vigil.Condition
