import Vigil.Proofs.Condition.Brackets
import Vigil.Proofs.Runner.Windows

/-!
# Conditions in parentheses

The grammar of expressions knows parentheses as grouping, but the cutting into pieces does not: in a
condition in parentheses the first and the last piece have a parenthesis too many, and their filters are
not found. Everything else is read and rewritten as before. Only a word before a parenthesis that is
never closed could be taken for a filter once there is one more parenthesis behind it; but no replacement
removes such a word, and no text with one compiles.
-/

namespace Vigil.Condition

open Vigil.Expression
open Vigil.Text (IsLabel IsWord isWordChar replaceAll)

/-- At some place more parentheses have been closed than opened, counting `n` that were open before. -/
def closes : Nat → List Char → Bool
  | _, [] => false
  | n, c :: cs =>
    if c = '(' then closes (n + 1) cs
    else if c = ')' then n = 0 || closes (n - 1) cs
    else closes n cs

/-- A word stands before a parenthesis that is never closed. -/
def Unclosed (cs : List Char) : Prop :=
  ∃ before c after, cs = before ++ c :: '(' :: after ∧ isWordChar c = true ∧ closes 0 after = false

section Closes

variable {n : Nat} {cs ds : List Char}

theorem closes_openParen (n : Nat) (cs : List Char) : closes n ('(' :: cs) = closes (n + 1) cs := rfl

theorem closes_closeParen (n : Nat) (cs : List Char) : closes (n + 1) (')' :: cs) = closes n cs := rfl

theorem closes_append (h : ∀ c ∈ cs, isParen c = false) (n : Nat) (ds : List Char) :
    closes n (cs ++ ds) = closes n ds := by
  induction cs with
  | nil => rfl
  | cons c cs ih =>
    obtain ⟨hopen, hclose⟩ := Bool.or_eq_false_iff.mp (h c List.mem_cons_self)
    rw [List.cons_append, closes, if_neg (beq_eq_false_iff_ne.mp hopen),
      if_neg (beq_eq_false_iff_ne.mp hclose), ih fun d hd => h d (List.mem_cons_of_mem _ hd)]

theorem closes_cons_congr (c : Char) (h : ∀ n, closes n cs = closes n ds) :
    closes n (c :: cs) = closes n (c :: ds) := by
  rw [closes, closes, h (n + 1), h n, h (n - 1)]

theorem Unclosed.of_suffix (h : Unclosed cs) (hsuffix : cs <:+ ds) : Unclosed ds := by
  obtain ⟨first, rfl⟩ := hsuffix
  obtain ⟨before, c, after, rfl, hc, hafter⟩ := h
  exact ⟨first ++ before, c, after, (List.append_assoc _ _ _).symm, hc, hafter⟩

theorem unclosed_of_isLabel {label after : List Char} (h : IsLabel label)
    (hafter : closes 0 after = false) : Unclosed (label ++ '(' :: after) := by
  rcases List.eq_nil_or_concat' label with rfl | ⟨before, c, rfl⟩
  · exact absurd rfl h.isWord.1
  · refine ⟨before, c, after, by rw [List.append_assoc]; rfl, ?_, hafter⟩
    exact h.isWord.2 c (List.mem_append_right _ (List.mem_singleton_self c))

/-- No text that compiles has an unclosed parenthesis behind a word. -/
theorem not_unclosed_of_compile {text : String} {e : Expression} (h : compile text = .ok e) :
    ¬ Unclosed text.toList := by
  rintro ⟨before, c, after, htext, hc, -⟩
  exact not_word_before_paren h hc htext

end Closes

theorem not_paren_of_isWord {cs : List Char} (h : IsWord cs) : ∀ c ∈ cs, isParen c = false := by
  intro c hc
  cases hparen : isParen c with
  | false => rfl
  | true =>
    rcases paren_cases hparen with rfl | rfl <;> exact absurd (h.2 _ hc) (by decide)

theorem not_paren_of_comma {comma : List Char} (h : comma = [] ∨ comma = [',']) :
    ∀ c ∈ comma, isParen c = false := by
  rcases h with rfl | rfl
  · exact fun c hc => absurd hc List.not_mem_nil
  · intro c hc
    rw [List.mem_singleton.mp hc]
    decide

theorem not_paren_of_digits {digits : List Char}
    (h : ∀ c ∈ digits, Text.isDecimalDigit c = true) : ∀ c ∈ digits, isParen c = false := by
  intro c hc
  cases hparen : isParen c with
  | false => rfl
  | true =>
    rcases paren_cases hparen with rfl | rfl <;> exact absurd (h _ hc) (by decide)

/-- Where a parenthesis can stand behind one that is the first of its text. -/
theorem paren_append_cases {first rest before after : List Char} (hfirst : '(' ∉ first)
    (h : first ++ '(' :: rest = before ++ '(' :: after) :
    (before = first ∧ after = rest) ∨ ∃ between, rest = between ++ '(' :: after := by
  rcases List.append_eq_append_iff.mp h with ⟨between, rfl, hrest⟩ | ⟨between, rfl, hafter⟩
  · cases between with
    | nil => exact .inl ⟨List.append_nil first, (List.cons.inj hrest).2.symm⟩
    | cons c between => exact .inr ⟨between, (List.cons.inj hrest).2⟩
  · cases between with
    | nil => exact .inl ⟨(List.append_nil before).symm, (List.cons.inj hafter).2⟩
    | cons c between =>
      obtain ⟨rfl, -⟩ := List.cons.inj hafter
      exact absurd (List.mem_append_right before List.mem_cons_self) hfirst

section Spells

variable {n : Nat} {piece before after : List Char} {f : Filter}

/-- A filter closes what it opens, and nothing else. -/
theorem closes_piece (h : Spells piece f) (n : Nat) (rest : List Char) :
    closes n (piece ++ rest) = closes n rest := by
  cases h with
  | simple hselector hkey =>
    simp only [List.append_assoc, List.cons_append, List.nil_append]
    rw [closes_append (not_paren_of_isWord hselector.isWord), closes_openParen,
      closes_append (not_paren_of_isWord hkey), closes_closeParen]
  | transformed htransformation hselector hkey hcomma hdigits hparam =>
    simp only [List.append_assoc, List.cons_append, List.nil_append]
    rw [closes_append (not_paren_of_isWord htransformation.isWord), closes_openParen,
      closes_append (not_paren_of_isWord hselector.isWord), closes_openParen,
      closes_append (not_paren_of_isWord hkey), closes_closeParen,
      closes_append (not_paren_of_comma hcomma), closes_append (not_paren_of_digits hdigits),
      closes_closeParen]

theorem closes_of_word {word : List Char} (h : IsWord word) (rest : List Char) :
    closes 0 (word ++ ')' :: rest) = true := by
  rw [closes_append (not_paren_of_isWord h)]
  rfl

/-- Every parenthesis that a filter opens is closed in it. -/
theorem closes_of_piece (h : Spells piece f) (hpiece : piece = before ++ '(' :: after)
    (rest : List Char) : closes 0 (after ++ rest) = true := by
  have hopen : ∀ {cs : List Char}, (∀ c ∈ cs, isParen c = false) → '(' ∉ cs := by
    intro cs hcs hmem
    exact absurd (hcs _ hmem) (by decide)
  cases h with
  | @simple selector key hselector hkey =>
    rcases paren_append_cases (hopen (not_paren_of_isWord hselector.isWord)) hpiece with
      ⟨-, rfl⟩ | ⟨between, hinner⟩
    · rw [List.append_assoc]
      exact closes_of_word hkey _
    · have hmem : '(' ∈ key ++ [')'] := hinner ▸ List.mem_append_right between List.mem_cons_self
      simp [hopen (not_paren_of_isWord hkey)] at hmem
  | @transformed transformation selector key comma digits _ htransformation hselector hkey hcomma
      hdigits _ =>
    have hend : ∀ more, closes 0 (comma ++ (digits ++ ')' :: more)) = true := by
      intro more
      rw [closes_append (not_paren_of_comma hcomma), closes_append (not_paren_of_digits hdigits)]
      rfl
    rcases paren_append_cases (hopen (not_paren_of_isWord htransformation.isWord)) hpiece with
      ⟨-, rfl⟩ | ⟨between, hinner⟩
    · simp only [List.append_assoc, List.cons_append, List.nil_append]
      rw [closes_append (not_paren_of_isWord hselector.isWord), closes_openParen,
        closes_append (not_paren_of_isWord hkey), closes_closeParen]
      exact hend rest
    · rcases paren_append_cases (hopen (not_paren_of_isWord hselector.isWord)) hinner with
        ⟨-, rfl⟩ | ⟨between, hkeyText⟩
      · rw [List.append_assoc]
        exact closes_of_word hkey _
      · have hmem : '(' ∈ key ++ ')' :: (comma ++ (digits ++ [')'])) :=
          hkeyText ▸ List.mem_append_right between List.mem_cons_self
        simp [hopen (not_paren_of_isWord hkey), hopen (not_paren_of_comma hcomma),
          hopen (not_paren_of_digits hdigits)] at hmem

theorem not_openParen_of_spells {c : Char} {cs : List Char} (h : Spells piece f)
    (hpiece : piece = c :: cs) : c ≠ '(' := by
  have hlabel : ∀ {label rest : List Char}, IsLabel label → label ++ rest = c :: cs → c ≠ '(' := by
    rintro label rest ⟨d, label, rfl, hd, -⟩ ⟨⟩ rfl
    exact absurd hd (by decide)
  cases h with
  | simple hselector _ => exact hlabel hselector hpiece
  | transformed htransformation _ _ _ _ _ => exact hlabel htransformation hpiece

theorem exists_front (h : Spells piece f) : ∃ front, piece = front ++ [')'] := by
  cases h with
  | @simple selector key _ _ =>
    exact ⟨selector ++ '(' :: key, by rw [List.append_assoc, List.cons_append]⟩
  | @transformed transformation selector key comma digits _ _ _ _ _ _ _ =>
    refine ⟨transformation ++ '(' :: (selector ++ '(' :: (key ++ ')' :: (comma ++ digits))), ?_⟩
    simp only [List.append_assoc, List.cons_append]

/-- What a closing parenthesis would make a filter of has one that is never closed. -/
theorem unclosed_of_filter? {cs : List Char} (h : filter? (cs ++ [')']) ≠ .ok none) :
    Unclosed cs := by
  rcases Option.eq_none_or_eq_some (transformed? (cs ++ [')'])) with hnone | ⟨parts, hsome⟩
  · rcases Option.eq_none_or_eq_some (simple? (cs ++ [')'])) with hnone' | ⟨parts, hsome⟩
    · exact absurd (filter?_eq_none_iff.mpr ⟨hnone, hnone'⟩) h
    · obtain ⟨selector, key⟩ := parts
      obtain ⟨hpiece, hselector, hkey⟩ := simple?_eq_some_iff.mp hsome
      rw [← List.cons_append, ← List.append_assoc] at hpiece
      rw [List.append_cancel_right hpiece]
      apply unclosed_of_isLabel hselector
      rw [← List.append_nil key, closes_append (not_paren_of_isWord hkey)]
      rfl
  · obtain ⟨transformation, selector, key, digits⟩ := parts
    obtain ⟨htransformation, hselector, hkey, hdigits, comma, hcomma, hpiece⟩ :=
      transformed?_eq_some_iff.mp hsome
    have hcs : cs = transformation ++ '(' ::
        (selector ++ '(' :: (key ++ ')' :: (comma ++ digits))) := by
      have hclosed : cs ++ [')'] = transformation ++ '(' ::
          (selector ++ '(' :: (key ++ ')' :: (comma ++ digits))) ++ [')'] := by
        rw [hpiece]
        simp only [List.append_assoc, List.cons_append]
      exact List.append_cancel_right hclosed
    rw [hcs]
    apply unclosed_of_isLabel htransformation
    rw [closes_append (not_paren_of_isWord hselector.isWord), closes_openParen,
      closes_append (not_paren_of_isWord hkey), closes_closeParen,
      closes_append (not_paren_of_comma hcomma), ← List.append_nil digits,
      closes_append (not_paren_of_digits hdigits)]
    rfl

end Spells

section Replacing

variable {n : Nat} {f : Filter} {p : Char} {ps cs : List Char}

/-- Replacing closes no parenthesis and opens none. -/
theorem closes_replaceAll (hf : f.Spelt) (hpattern : f.text.toList = p :: ps) (n : Nat)
    (cs : List Char) : closes n (replaceAll p ps f.identifier.toList cs) = closes n cs := by
  induction cs using Vigil.Text.replaceAll.induct p ps generalizing n with
  | case1 => rw [Text.replaceAll_nil]
  | case2 c rest after hafter ih =>
    rw [Text.replaceAll_of_some hafter, Text.eq_append_of_afterPrefix? hafter, ← hpattern,
      closes_piece (spells_text hf),
      closes_append (not_paren_of_isWord hf.isLabel_identifier.isWord), ih]
  | case3 c rest hnone ih =>
    rw [Text.replaceAll_of_none hnone]
    exact closes_cons_congr c ih

theorem replaceAll_openParen (hf : f.Spelt) (hpattern : f.text.toList = p :: ps) (cs : List Char) :
    replaceAll p ps f.identifier.toList ('(' :: cs) =
      '(' :: replaceAll p ps f.identifier.toList cs :=
  Text.replaceAll_cons_of_ne (not_openParen_of_spells (spells_text hf) hpattern).symm cs

/-- A character at the end of a text stays, unless an occurrence ends with it. -/
theorem replaceAll_concat (hpattern : f.text.toList = p :: ps) {c : Char} (hc : c ≠ '(')
    (h : ∀ front, f.text.toList = front ++ [c] → ¬ front <:+ cs) :
    replaceAll p ps f.identifier.toList (cs ++ [c]) =
      replaceAll p ps f.identifier.toList cs ++ [c] := by
  have hlast : '(' ∉ [c] := fun h => hc (List.mem_singleton.mp h).symm
  rw [Text.replaceAll_append, replaceAll_of_no_paren hpattern hlast]
  · intro before after _ hafter htext hsuffix hfront
    cases after with
    | nil => exact hafter rfl
    | cons d after =>
      obtain ⟨hd, hnil⟩ := List.cons_prefix_cons.mp hfront
      rw [hd, List.prefix_nil.mp hnil] at htext
      exact h before (hpattern.trans htext.symm) hsuffix

theorem unclosed_replaceAll (hf : f.Spelt) (hpattern : f.text.toList = p :: ps)
    (h : Unclosed cs) : Unclosed (replaceAll p ps f.identifier.toList cs) := by
  obtain ⟨before, c, after, rfl, hc, hafter⟩ := h
  have hspells := spells_text hf
  have hne : ∀ d, isWordChar d = false → c ≠ d := by
    rintro d hd rfl
    rw [hc] at hd
    cases hd
  have hconcat : replaceAll p ps f.identifier.toList (before ++ [c]) =
      replaceAll p ps f.identifier.toList before ++ [c] := by
    apply replaceAll_concat hpattern (hne '(' (by decide))
    intro front htext
    obtain ⟨front', htext'⟩ := exists_front hspells
    exact absurd (List.append_inj_right' (htext.symm.trans htext') rfl)
      fun h => hne ')' (by decide) (List.singleton_inj.mp h)
  have happend : replaceAll p ps f.identifier.toList ((before ++ [c]) ++ '(' :: after) =
      replaceAll p ps f.identifier.toList (before ++ [c]) ++
        '(' :: replaceAll p ps f.identifier.toList after := by
    rw [Text.replaceAll_append, replaceAll_openParen hf hpattern]
    intro front back _ hback htext _ hfront
    -- an occurrence with the parenthesis in it would close it
    cases back with
    | nil => exact hback rfl
    | cons d back =>
      obtain ⟨rfl, rest, rfl⟩ := List.cons_prefix_cons.mp hfront
      rw [closes_of_piece hspells (hpattern.trans htext.symm)] at hafter
      cases hafter
  refine ⟨replaceAll p ps f.identifier.toList before, c, _, ?_, hc,
    (closes_replaceAll hf hpattern 0 after).trans hafter⟩
  rw [hconcat, List.append_assoc, List.append_assoc] at happend
  exact happend

end Replacing

/-- The text in parentheses. -/
def grouped (text : String) : String :=
  "(" ++ text ++ ")"

theorem toList_grouped (text : String) : (grouped text).toList = '(' :: (text.toList ++ [')']) := by
  rw [grouped, String.toList_append, String.toList_append]
  rfl

theorem strip_grouped (text : String) : Text.strip (grouped text) = grouped (Text.strip text) := by
  rw [← String.toList_inj, toList_grouped, Text.strip, toList_grouped, Text.strip,
    String.toList_ofList, String.toList_ofList, List.filter_cons_of_pos (by decide),
    List.filter_append, List.filter_cons_of_pos (by decide), List.filter_nil]

section Substitute

variable {f : Filter} {filters : List Filter} {text : String}

theorem unclosed_replace (hf : f.Spelt) (h : Unclosed text.toList) :
    Unclosed (Text.replace f.text f.identifier text).toList := by
  unfold Text.replace
  split
  · exact h
  · rename_i p ps hpattern
    rw [String.toList_ofList]
    exact unclosed_replaceAll hf hpattern h

theorem unclosed_substitute (hspelt : ∀ f ∈ filters, f.Spelt) (h : Unclosed text.toList) :
    Unclosed (substitute filters text).toList := by
  induction filters generalizing text with
  | nil => exact h
  | cons f filters ih =>
    exact ih (fun g hg => hspelt g (List.mem_cons_of_mem _ hg))
      (unclosed_replace (hspelt f List.mem_cons_self) h)

theorem replace_grouped (hf : f.Spelt) (h : ¬ Unclosed text.toList) :
    Text.replace f.text f.identifier (grouped text) =
      grouped (Text.replace f.text f.identifier text) := by
  unfold Text.replace
  split
  · rfl
  · rename_i p ps hpattern
    rw [← String.toList_inj, toList_grouped, String.toList_ofList, toList_grouped,
      String.toList_ofList, replaceAll_openParen hf hpattern,
      replaceAll_concat hpattern (by decide)]
    intro front htext hsuffix
    have hread : filter? (front ++ [')']) ≠ .ok none := by
      rw [← htext, filter?_text hf]
      simp
    exact h ((unclosed_of_filter? hread).of_suffix hsuffix)

/-- In a text without an unclosed parenthesis filters are replaced as without the outer ones. -/
theorem substitute_grouped (hspelt : ∀ f ∈ filters, f.Spelt)
    (h : ¬ Unclosed (substitute filters text).toList) :
    substitute filters (grouped text) = grouped (substitute filters text) := by
  induction filters generalizing text with
  | nil => rfl
  | cons f filters ih =>
    have hrest : ∀ g ∈ filters, g.Spelt := fun g hg => hspelt g (List.mem_cons_of_mem _ hg)
    have hstep := replace_grouped (hspelt f List.mem_cons_self)
      fun hopen => h (unclosed_substitute hspelt hopen)
    rw [substitute, List.foldl_cons, hstep]
    exact ih hrest h

end Substitute

/-- A character that is no mark joins the last piece before it. -/
theorem pieces_concat {c : Char} (hc : isOperatorChar c = false) {cs last : List Char}
    (front : List (List Char)) (h : pieces cs = front ++ [last]) :
    pieces (cs ++ [c]) = front ++ [last ++ [c]] := by
  induction cs generalizing front last with
  | nil =>
    cases front with
    | nil =>
      cases h
      rw [List.nil_append, pieces, if_neg (ne_true_of_eq_false hc)]
      rfl
    | cons first front =>
      have hnil : [] = front ++ [last] := (List.cons.inj h).2
      cases front <;> cases hnil
  | cons d cs ih =>
    cases hd : isOperatorChar d with
    | true =>
      rw [pieces_of_mark hd] at h
      rw [List.cons_append, pieces_of_mark hd]
      cases front with
      | nil => exact absurd (List.cons.inj h).2 (pieces_ne_nil cs)
      | cons first front =>
        obtain ⟨rfl, hmore⟩ := List.cons.inj h
        rw [ih front hmore]
        rfl
    | false =>
      obtain ⟨piece, more, hpieces, hcons⟩ := pieces_of_not_mark hd cs
      obtain ⟨piece', more', hpieces', hcons'⟩ := pieces_of_not_mark hd (cs ++ [c])
      rw [hcons] at h
      rw [List.cons_append, hcons']
      cases front with
      | nil =>
        cases h
        rw [ih [] hpieces] at hpieces'
        cases hpieces'
        rfl
      | cons first front =>
        obtain ⟨rfl, hmore⟩ := List.cons.inj h
        rw [ih (piece :: front) (hpieces.trans (congrArg _ hmore))] at hpieces'
        cases hpieces'
        rfl

/-- The filters of the pieces between the first and the last. -/
def innerFilters (input : String) : List Filter :=
  filtersIn (pieces (Text.strip input).toList).tail.dropLast

theorem filter?_openParen (cs : List Char) : filter? ('(' :: cs) = .ok none := by
  have hname : name? ('(' :: cs) = none := by
    rw [name?, if_neg (by decide)]
  rw [filter?, transformed?, simple?, hname]
  rfl

theorem pieces_grouped (text : String) :
    (∃ piece, pieces text.toList = [piece] ∧
      pieces (grouped text).toList = ['(' :: (piece ++ [')'])]) ∨
    ∃ first inner last, pieces text.toList = first :: (inner ++ [last]) ∧
      pieces (grouped text).toList = ('(' :: first) :: (inner ++ [last ++ [')']]) := by
  have hclose : isOperatorChar ')' = false := by decide
  obtain ⟨first, more, hmore, hgrouped⟩ :=
    pieces_of_not_mark (show isOperatorChar '(' = false by decide) (text.toList ++ [')'])
  rw [toList_grouped, hgrouped]
  cases hpieces : pieces text.toList with
  | nil => exact absurd hpieces (pieces_ne_nil _)
  | cons piece rest =>
    rcases List.eq_nil_or_concat' rest with rfl | ⟨inner, last, rfl⟩
    · rw [pieces_concat hclose [] hpieces] at hmore
      cases hmore
      exact .inl ⟨_, rfl, rfl⟩
    · rw [pieces_concat hclose (piece :: inner) hpieces] at hmore
      cases hmore
      exact .inr ⟨_, inner, last, rfl, rfl⟩

section Pieces

variable {text : String}

/-- The last piece stands at the end of the text. -/
theorem suffix_of_pieces {cs last : List Char} {front : List (List Char)}
    (h : pieces cs = front ++ [last]) : last <:+ cs := by
  have hlength := length_pieces cs
  rw [h, List.length_append, List.length_singleton] at hlength
  have hweave := weave_append front [] last (marks cs) (by omega)
  rw [← h, weave_pieces, trail, List.zip_nil_right, List.flatMap_nil, List.append_nil] at hweave
  exact ⟨_, hweave.symm⟩

/-- Without an unclosed parenthesis the last piece is no filter with another parenthesis behind it. -/
theorem filter?_closeParen (h : ¬ Unclosed text.toList) {last : List Char}
    (front : List (List Char)) (hpieces : pieces text.toList = front ++ [last]) :
    filter? (last ++ [')']) = .ok none := by
  by_contra hsome
  exact h ((unclosed_of_filter? hsome).of_suffix (suffix_of_pieces hpieces))

/-- In parentheses the first and the last piece are no filters, and the others are as they are. -/
theorem filterMap_grouped (h : ¬ Unclosed text.toList) :
    (pieces (grouped text).toList).filterMap filterOf? =
      (pieces text.toList).tail.dropLast.filterMap filterOf? := by
  have hnone : ∀ {piece}, filter? piece = .ok none → filterOf? piece = none := by
    intro piece hread
    rw [filterOf?, hread]
  rcases pieces_grouped text with ⟨piece, hpieces, hgrouped⟩ | ⟨first, inner, last, hpieces, hgrouped⟩
  · rw [hgrouped, hpieces, List.filterMap_cons_none (hnone (filter?_openParen _))]
    rfl
  · rw [hgrouped, hpieces, List.filterMap_cons_none (hnone (filter?_openParen _)),
      List.filterMap_append,
      List.filterMap_cons_none (hnone (filter?_closeParen h (first :: inner) hpieces)),
      List.filterMap_nil, List.append_nil, List.tail_cons, List.dropLast_concat]

/-- In parentheses every piece can be told if it can be told without. -/
theorem told_grouped (h : ¬ Unclosed text.toList)
    (htold : ∀ piece ∈ pieces text.toList, ∃ read, filter? piece = .ok read) :
    ∀ piece ∈ pieces (grouped text).toList, ∃ read, filter? piece = .ok read := by
  rcases pieces_grouped text with ⟨piece, hpieces, hgrouped⟩ | ⟨first, inner, last, hpieces, hgrouped⟩
  · rw [hgrouped]
    intro other hother
    rw [List.mem_singleton.mp hother]
    exact ⟨none, filter?_openParen _⟩
  · rw [hgrouped]
    rw [hpieces] at htold
    intro other hother
    rcases List.mem_cons.mp hother with rfl | hother
    · exact ⟨none, filter?_openParen _⟩
    · rcases List.mem_append.mp hother with hinner | hlast
      · exact htold other (List.mem_cons_of_mem _ (List.mem_append_left _ hinner))
      · rw [List.mem_singleton.mp hlast]
        exact ⟨none, filter?_closeParen h (first :: inner) hpieces⟩

end Pieces

section Parse

variable {input : String} {c : Condition} {e : Expression}

theorem spelt_of_parse (h : parse input = .ok c) : ∀ f ∈ c.filters, f.Spelt := by
  intro f hf
  obtain ⟨piece, -, hpiece⟩ := (mem_filters_iff h).mp hf
  exact (filter?_eq_some_iff.mp hpiece).spelt

theorem spelt_longestFirst (h : parse input = .ok c) : ∀ f ∈ longestFirst c.filters, f.Spelt :=
  fun f hf => spelt_of_parse h f (List.mem_mergeSort.mp hf)

/-- A condition whose expression compiles has no unclosed parenthesis behind a word. -/
theorem not_unclosed_of_parse (h : parse input = .ok c) (he : compile c.expression = .ok e) :
    ¬ Unclosed (Text.strip input).toList := by
  obtain ⟨-, -, -, -, hexpression, -⟩ := parse_eq_ok_iff.mp h
  intro hopen
  apply not_unclosed_of_compile he
  rw [hexpression]
  exact unclosed_substitute (spelt_longestFirst h) hopen

/-- In parentheses a condition has the filters of its inner pieces. -/
theorem filtersIn_grouped (h : parse input = .ok c) (he : compile c.expression = .ok e) :
    filtersIn (wholePieces (grouped input)) = innerFilters input := by
  rw [filtersIn_wholePieces, strip_grouped, filtersIn,
    filterMap_grouped (not_unclosed_of_parse h he), innerFilters, filtersIn]

/-- If those are all filters, the expression is the one without parentheses, in parentheses. -/
theorem exists_parse_grouped (h : parse input = .ok c) (he : compile c.expression = .ok e)
    (hsame : innerFilters input = c.filters) :
    ∃ c', parse (grouped input) = .ok c' ∧ c'.filters = c.filters ∧
      c'.expression = grouped c.expression := by
  have hopen := not_unclosed_of_parse h he
  obtain ⟨htold, hsome, hclash, -, hexpression, -⟩ := parse_eq_ok_iff.mp h
  refine ⟨⟨c.filters, grouped c.expression,
    ((wholePieces (grouped input)).map kindOf).filterMap Piece.dropped?⟩, ?_, rfl, rfl⟩
  rw [parse_eq_ok_iff]
  dsimp only
  refine ⟨?_, hsome, hclash, ?_, ?_, rfl⟩
  · rw [told_wholePieces, strip_grouped]
    exact told_grouped hopen (told_wholePieces.mp htold)
  · rw [filtersIn_grouped h he, hsame]
  · rw [strip_grouped, substitute_grouped (spelt_longestFirst h), ← hexpression]
    rw [← hexpression]
    exact not_unclosed_of_compile he

end Parse

end Vigil.Condition

namespace Vigil.Draft

open Condition (innerFilters)

/-- The definition with its condition in parentheses. -/
def grouped (d : Draft) : Draft :=
  { d with condition := Condition.grouped d.condition }

/-- Parentheses around the condition of an accepted definition leave its filters and its tree as they
are exactly when every filter stands somewhere between the first mark and the last, in the same order;
otherwise the definition is refused, or filters are missing. -/
theorem grouped_same_iff {d : Draft} {owner : String} {id : Uuid} {made : Instant} {a : Alarm}
    (hmade : d.alarm owner id made = .ok a) :
    (∃ b, d.grouped.alarm owner id made = .ok b ∧ b.rule.filters = a.rule.filters ∧
      b.compiled.map Expression.tree = a.compiled.map Expression.tree) ↔
        innerFilters d.condition = a.rule.filters := by
  obtain ⟨hname, hinterval, htrigger, -, e, hrule, hcompiled⟩ := makes_of_alarm hmade
  obtain ⟨c, hparse, hvalid, hcompile, hc⟩ := rule_eq_ok_iff.mp hrule
  rw [hc]
  constructor
  · rintro ⟨b, hb, hsame, -⟩
    obtain ⟨e', hrule', -⟩ := (makes_of_alarm hb).rule
    obtain ⟨c', hparse', -, -, hc'⟩ := rule_eq_ok_iff.mp hrule'
    rw [hc'] at hsame
    obtain ⟨-, -, -, hfilters, -⟩ := Condition.parse_eq_ok_iff.mp hparse'
    exact (Condition.filtersIn_grouped hparse hcompile).symm.trans (hfilters.symm.trans hsame)
  · intro hinner
    obtain ⟨c', hparse', hfilters, hexpression⟩ :=
      Condition.exists_parse_grouped hparse hcompile hinner
    obtain ⟨e', hcompile', htree⟩ := Condition.exists_compile_of_group hcompile
    have hrule' : d.grouped.rule = .ok (⟨c'.filters, c'.expression, d.trigger⟩, e') :=
      rule_eq_ok_iff.mpr ⟨c', hparse', hfilters ▸ hvalid, hexpression ▸ hcompile', rfl⟩
    refine ⟨_, alarm_eq_ok (d := d.grouped) hname hinterval htrigger hrule' owner id made,
      hfilters, ?_⟩
    rw [hcompiled, Option.map_some, Option.map_some, htree]

/-- The definition of an alarm that compares a reading with its square. -/
def square : Draft :=
  { name := "part", info := "", group := "g", message := "", enabled := true, interval := 60,
    trigger := 1, condition := "max(t)>max(t)*max(t)" }

def squareRule : Rule :=
  ⟨[⟨"max", none, "t", none⟩], "max_t>max_t*max_t", 1⟩

open Expression in
theorem exists_square_rule : ∃ e, square.rule = .ok (squareRule, e) := by
  have hmax : Filter.Written ⟨"max", none, "t", none⟩ :=
    ⟨by decide, by rintro t ⟨⟩, by decide, by rintro p ⟨⟩⟩
  have hpieces : Condition.pieces (Text.strip "max(t)>max(t)*max(t)").toList =
      [.filter _ hmax, .filter _ hmax, .filter _ hmax].map Condition.Part.source := rfl
  have hidentifiers : ∀ f ∈ List.replicate 3 (⟨"max", none, "t", none⟩ : Filter),
      ∀ g ∈ List.replicate 3 (⟨"max", none, "t", none⟩ : Filter),
        f.identifier = g.identifier → f = g := by decide
  have hparse : Condition.parse square.condition = .ok ⟨squareRule.filters, squareRule.expression, []⟩ :=
    Condition.parse_of_parts hpieces (List.cons_ne_nil _ _) hidentifiers
  have hlexemes : lexemes "max_t>max_t*max_t" =
      .ok [⟨.name "max_t", 0⟩, ⟨.greater, 5⟩, ⟨.name "max_t", 6⟩, ⟨.star, 11⟩, ⟨.name "max_t", 12⟩] := by
    show lexemesFrom 0 ['m', 'a', 'x', '_', 't', '>', 'm', 'a', 'x', '_', 't', '*', 'm', 'a', 'x', '_',
      't'] = _
    repeat refine lexemesFrom_eq_ok rfl rfl ?_
    exact lexemesFrom_nil _
  have hname : Derives .operand [.name "max_t"] (.variable "max_t") :=
    .named (by decide) (by decide)
  have hsquare := Derives.joined .mul (hname.loosen (by decide)) (hname.loosen (by decide))
  have hwhole := Derives.joined .greater (hname.loosen (by decide)) (hsquare.loosen (by decide))
  have hcompile := (Condition.compile_eq_ok_iff (e := ⟨"max_t>max_t*max_t", _⟩)).mpr
    ⟨_, hlexemes, hwhole.loosen (a := .disjunction) (by decide), rfl⟩
  exact ⟨_, rule_eq_ok_iff.mpr ⟨_, hparse, rfl, hcompile, rfl⟩⟩

/-- The square stands in the middle, so parentheses do no harm. -/
theorem grouped_square :
    ∃ a, square.alarm "" (.ofNat 1) .epoch = .ok a ∧
      ∃ b, square.grouped.alarm "" (.ofNat 1) .epoch = .ok b ∧ b.rule.filters = a.rule.filters ∧
        b.compiled.map Expression.tree = a.compiled.map Expression.tree := by
  obtain ⟨e, hrule⟩ := exists_square_rule
  have hname : Text.isBlankText square.name = false := by
    show Text.isBlankText "part" = false
    decide
  have hmade := alarm_eq_ok hname (by decide) (by decide) hrule "" (.ofNat 1) .epoch
  have hinner : innerFilters square.condition = squareRule.filters := by rfl
  exact ⟨_, hmade, (grouped_same_iff hmade).mpr hinner⟩

/-- A comparison of two filters is accepted, and refused in parentheses. -/
theorem grouped_comparison_refused :
    (∃ a, (heat 60 1).alarm "" (.ofNat 1) .epoch = .ok a) ∧
      (heat 60 1).grouped.alarm "" (.ofNat 1) .epoch = .error (.condition .noFilters) := by
  obtain ⟨a, hmade, -⟩ := exists_heat 60 1 (by decide) (by decide)
  exact ⟨⟨a, hmade⟩, by rfl⟩

end Vigil.Draft
