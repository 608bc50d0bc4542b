import Vigil.Proofs.Condition.Grouping

/-!
# Filters that are not spelt as their texts

A piece may match the long pattern without being the text of its filter: the comma may be missing, or
stand before nothing, or zeros stand before the parameter. The text of its filter does not occur in it,
and no other filter reaches over its first parenthesis: where an inner filter has given way to a word,
a filter with that word in its key would be longer, and its turn is over. So a word stays before that
parenthesis whatever is replaced.
-/

namespace Vigil

namespace Condition

open Vigil.Text (IsLabel IsWord isWordChar replaceAll)

section Behind

variable {g : Filter} {p : Char} {ps label after : List Char}

/-- A parenthesis over which no filter reaches stays, with what is before it. -/
theorem replaceAll_before_paren (hg : g.Spelt) (hpattern : g.text.toList = p :: ps)
    (hlabel : '(' ∉ label)
    (h : ∀ before inner, before ≠ [] → g.text.toList = before ++ '(' :: inner →
      before <:+ label → ¬ inner <+: after) :
    replaceAll p ps g.identifier.toList (label ++ '(' :: after) =
      label ++ '(' :: replaceAll p ps g.identifier.toList after := by
  rw [Text.replaceAll_append, replaceAll_of_no_paren hpattern hlabel,
    replaceAll_openParen hg hpattern]
  intro before inner hbefore hinner htext hsuffix hfront
  cases inner with
  | nil => exact hinner rfl
  | cons c inner =>
    obtain ⟨rfl, hrest⟩ := List.cons_prefix_cons.mp hfront
    exact h before inner hbefore (hpattern.trans htext.symm) hsuffix hrest

theorem isWord_of_suffix {before : List Char} (hlabel : IsWord label) (hbefore : before ≠ [])
    (h : before <:+ label) : IsWord before :=
  ⟨hbefore, fun c hc => hlabel.2 c (h.subset hc)⟩

/-- What stands behind the first parenthesis of a filter, and before it. -/
theorem text_cases (hg : g.Spelt) {before inner : List Char} (hbefore : IsWord before)
    (h : g.text.toList = before ++ '(' :: inner) :
    (g.transformation = none ∧ before = g.selector.toList ∧ inner = g.key.toList ++ [')']) ∨
      ((∃ t, g.transformation = some t ∧ before = t.toList) ∧
        inner = g.selector.toList ++ '(' :: (g.key.toList ++
          ')' :: (Filter.paramText g.param ++ [')']))) := by
  have hparen : isWordChar '(' = false := by decide
  cases ht : g.transformation with
  | none =>
    rw [Filter.toList_text_of_none ht] at h
    obtain ⟨hselector, -, hinner⟩ := Text.stop_inj hg.selector.isWord.2 hbefore.2 hparen hparen h
    exact .inl ⟨rfl, hselector.symm, hinner.symm⟩
  | some t =>
    rw [Filter.toList_text_of_some ht] at h
    obtain ⟨hlabel, -, hinner⟩ :=
      Text.stop_inj (hg.transformation t ht).isWord.2 hbefore.2 hparen hparen h
    exact .inr ⟨⟨t, rfl, hlabel.symm⟩, hinner.symm⟩

end Behind

/-- The inner filter and the end of the piece, or a word in place of the filter; no text of a filter
still to come is longer than the word by more than one byte. -/
inductive Held (filters : List Filter) (selector key tail : List Char) : List Char → Prop where
  | whole : Held filters selector key tail (selector ++ '(' :: (key ++ ')' :: tail))
  | word {w : List Char} (hw : IsWord w)
      (hsize : ∀ g ∈ filters, g.text.utf8ByteSize ≤ (String.ofList w).utf8ByteSize + 1) :
      Held filters selector key tail (w ++ tail)

/-- No filter ends in the end of the piece. -/
structure Blocks (filters : List Filter) (tail : List Char) : Prop where
  paren : '(' ∉ tail
  param : ∀ g ∈ filters, ¬ (Filter.paramText g.param ++ [')']) <+: tail

section Held

variable {g : Filter} {filters : List Filter} {p : Char} {ps label selector key tail cs : List Char}

theorem Blocks.of_cons (h : Blocks (g :: filters) tail) : Blocks filters tail :=
  ⟨h.paren, fun f hf => h.param f (List.mem_cons_of_mem g hf)⟩

theorem paren_not_mem_held (h : '(' ∉ tail) {w : List Char} (hw : IsWord w) : '(' ∉ w ++ tail := by
  rw [List.mem_append, not_or]
  exact ⟨hw.not_mem (by decide), h⟩

theorem utf8ByteSize_ofList_append (cs ds : List Char) : (String.ofList (cs ++ ds)).utf8ByteSize =
    (String.ofList cs).utf8ByteSize + (String.ofList ds).utf8ByteSize := by
  rw [String.ofList_append, String.utf8ByteSize_append]

theorem utf8ByteSize_text (h : g.transformation = none) :
    g.text.utf8ByteSize = g.selector.utf8ByteSize + g.key.utf8ByteSize + 2 := by
  have htext : g.text = g.selector ++ "(" ++ g.key ++ ")" := by
    rw [← String.toList_inj, Filter.toList_text_of_none h]
    simp
  have hopen : "(".utf8ByteSize = 1 := rfl
  have hclose : ")".utf8ByteSize = 1 := rfl
  rw [htext, String.utf8ByteSize_append, String.utf8ByteSize_append, String.utf8ByteSize_append,
    hopen, hclose]
  omega

theorem utf8ByteSize_identifier (h : g.transformation = none) :
    g.identifier.utf8ByteSize = g.selector.utf8ByteSize + g.key.utf8ByteSize + 1 := by
  have htext : g.identifier = g.selector ++ "_" ++ g.key := by
    rw [← String.toList_inj, Filter.toList_identifier_of_none h]
    simp
  have hline : "_".utf8ByteSize = 1 := rfl
  rw [htext, String.utf8ByteSize_append, String.utf8ByteSize_append, hline]
  omega

/-- Behind the first parenthesis a filter leaves a word where it is replaced. -/
theorem held_replaceAll (hg : g.Spelt) (hpattern : g.text.toList = p :: ps)
    (hlongest : ∀ f ∈ filters, f.text.utf8ByteSize ≤ g.text.utf8ByteSize) (hselector : IsWord selector)
    (hkey : IsWord key) (htail : '(' ∉ tail) (h : Held (g :: filters) selector key tail cs) :
    Held filters selector key tail (replaceAll p ps g.identifier.toList cs) := by
  have hparen : isWordChar ')' = false := by decide
  cases h with
  | word hw hsize =>
    rw [replaceAll_of_no_paren hpattern (paren_not_mem_held htail hw)]
    exact .word hw fun f hf => hsize f (List.mem_cons_of_mem g hf)
  | whole =>
    have hrest : '(' ∉ key ++ ')' :: tail := by
      simp [hkey.not_mem (show isWordChar '(' = false by decide), htail]
    by_cases hinside : ∃ before inner, before ≠ [] ∧ g.text.toList = before ++ '(' :: inner ∧
        before <:+ selector ∧ inner <+: key ++ ')' :: tail
    · obtain ⟨before, inner, hbefore, htext, hsuffix, hfront⟩ := hinside
      rcases text_cases hg (isWord_of_suffix hselector hbefore hsuffix) htext with
        ⟨hnone, -, rfl⟩ | ⟨-, rfl⟩
      · obtain ⟨rest, hrest'⟩ := hfront
        rw [List.append_assoc] at hrest'
        obtain ⟨hkeys, -, -⟩ := Text.stop_inj hg.key.2 hkey.2 hparen hparen hrest'
        obtain ⟨first, rfl⟩ := hsuffix
        have hfirst : '(' ∉ first :=
          fun h => hselector.not_mem (by decide) (List.mem_append_left before h)
        have hmiddle : replaceAll p ps g.identifier.toList (first ++ (p :: ps ++ tail)) =
            first ++ (g.identifier.toList ++ tail) :=
          Text.replaceAll_middle (hpattern ▸ g.paren_mem_text) hfirst htail
        rw [← hpattern, htext, hkeys] at hmiddle
        simp only [List.append_assoc, List.cons_append, List.nil_append] at hmiddle ⊢
        rw [hmiddle, ← List.append_assoc]
        refine .word ⟨List.append_ne_nil_of_right_ne_nil _ hg.isLabel_identifier.isWord.1, ?_⟩ ?_
        · intro c hc
          rcases List.mem_append.mp hc with hc | hc
          · exact hselector.2 c (List.mem_append_left _ hc)
          · exact hg.isLabel_identifier.isWord.2 c hc
        · intro f hf
          have hsize := hlongest f hf
          rw [utf8ByteSize_text hnone] at hsize
          rw [utf8ByteSize_ofList_append, String.ofList_toList, utf8ByteSize_identifier hnone]
          omega
      · exact absurd (hfront.subset (List.mem_append_right _ List.mem_cons_self)) hrest
    · rw [replaceAll_before_paren hg hpattern (hselector.not_mem (by decide)),
        replaceAll_of_no_paren hpattern hrest]
      · exact .whole
      · exact fun before inner hbefore htext hsuffix hfront =>
          hinside ⟨before, inner, hbefore, htext, hsuffix, hfront⟩

/-- A key that ends behind a word begins with it. -/
theorem prefix_key {w : List Char} (hw : IsWord w) (h : key ++ [')'] <+: w ++ tail) : w <+: key := by
  have hclose : ')' ∉ w := hw.not_mem (by decide)
  rcases List.prefix_or_prefix_of_prefix h (List.prefix_append w tail) with hkey | hw'
  · exact absurd (hkey.subset (List.mem_append_right _ (List.mem_singleton_self _))) hclose
  · rcases List.prefix_concat_iff.mp hw' with rfl | hprefix
    · exact absurd (List.mem_append_right _ (List.mem_singleton_self _)) hclose
    · exact hprefix

/-- No filter reaches over the first parenthesis. -/
theorem Blocks.not_prefix (hblocks : Blocks filters tail) (hg : g ∈ filters) (hspelt : g.Spelt)
    (hlabel : IsWord label) (hselector : IsWord selector) (hkey : IsWord key)
    (h : Held filters selector key tail cs) {before inner : List Char} (hbefore : before ≠ [])
    (htext : g.text.toList = before ++ '(' :: inner) (hsuffix : before <:+ label) :
    ¬ inner <+: cs := by
  have hopen : isWordChar '(' = false := by decide
  have hclose : isWordChar ')' = false := by decide
  intro hfront
  rcases text_cases hspelt (isWord_of_suffix hlabel hbefore hsuffix) htext with
    ⟨hnone, rfl, rfl⟩ | ⟨-, rfl⟩
  · cases h with
    | whole =>
      obtain ⟨rest, hrest⟩ := hfront
      rw [List.append_assoc] at hrest
      exact absurd (Text.stop_inj hspelt.key.2 hselector.2 hclose hopen hrest).2.1 (by decide)
    | word hw hsize =>
      -- its key would hold the whole word, so it would be longer than is left
      obtain ⟨more, hmore⟩ := prefix_key hw hfront
      have hshort := hsize g hg
      rw [utf8ByteSize_text hnone, ← String.ofList_toList (s := g.key), ← hmore,
        utf8ByteSize_ofList_append] at hshort
      omega
  · cases h with
    | whole =>
      obtain ⟨rest, hrest⟩ := hfront
      simp only [List.append_assoc, List.cons_append] at hrest
      obtain ⟨-, -, hrest⟩ := Text.stop_inj hspelt.selector.isWord.2 hselector.2 hopen hopen hrest
      obtain ⟨-, -, hrest⟩ := Text.stop_inj hspelt.key.2 hkey.2 hclose hclose hrest
      exact hblocks.param g hg ⟨rest, (List.append_assoc _ _ _).trans hrest⟩
    | word hw =>
      exact paren_not_mem_held hblocks.paren hw
        (hfront.subset (List.mem_append_right _ List.mem_cons_self))

/-- Whatever is replaced, the first parenthesis stays with the word before it. -/
theorem exists_rewritten_of_held (hspelt : ∀ g ∈ filters, g.Spelt)
    (hsorted : filters.Pairwise fun f g => g.text.utf8ByteSize ≤ f.text.utf8ByteSize)
    (hblocks : Blocks filters tail) (hlabel : IsWord label) (hselector : IsWord selector)
    (hkey : IsWord key) (h : Held filters selector key tail cs) :
    ∃ cs', rewritten filters (label ++ '(' :: cs) = label ++ '(' :: cs' := by
  induction filters generalizing cs with
  | nil => exact ⟨cs, rewritten_nil _⟩
  | cons g filters ih =>
    obtain ⟨hlongest, hsorted⟩ := List.pairwise_cons.mp hsorted
    have hg := hspelt g List.mem_cons_self
    obtain ⟨p, ps, hpattern, hcons⟩ := exists_rewritten_cons g filters
    rw [hcons, replaceAll_before_paren hg hpattern (hlabel.not_mem (by decide))]
    · exact ih (fun e he => hspelt e (List.mem_cons_of_mem g he)) hsorted hblocks.of_cons
        (held_replaceAll hg hpattern hlongest hselector hkey hblocks.paren h)
    · exact fun before inner hbefore htext hsuffix =>
        hblocks.not_prefix List.mem_cons_self hg hlabel hselector hkey h hbefore htext hsuffix

end Held

section Pieces

variable {f : Filter} {filters : List Filter} {piece : List Char}

/-- Digits and a comma that are the parameter of some filter are that parameter. -/
theorem param_of_paramText {comma digits : List Char} {param q : Option Int}
    (hcomma : comma = [] ∨ comma = [',']) (hdigits : ∀ c ∈ digits, Text.isDecimalDigit c = true)
    (hparam : param? digits = .ok param) (hq : ∀ i ∈ q, 0 ≤ i ∧ i ≤ maxParam)
    (h : Filter.paramText q = comma ++ digits) : param = q := by
  have hsame : digits = Filter.paramDigits q := by
    cases q with
    | none =>
      rcases hcomma with rfl | rfl
      · exact h.symm
      · cases h
    | some i =>
      rcases hcomma with rfl | rfl
      · have hdigit : ',' :: (toString i).toList = digits := h
        exact absurd (hdigits ',' (hdigit ▸ List.mem_cons_self)) (by decide)
      · exact (List.cons.inj h).2.symm
  rw [hsame, param?_paramDigits hq] at hparam
  exact (Except.ok.inj hparam).symm

theorem not_paren_of_paramText {q : Option Int} (hq : ∀ i ∈ q, 0 ≤ i) :
    ∀ c ∈ Filter.paramText q, isParen c = false := by
  intro c hc
  cases q with
  | none => cases hc
  | some i =>
    rcases List.mem_cons.mp hc with rfl | hc
    · decide
    · exact not_paren_of_digits (fun d hd => isDecimalDigit_of_mem_paramDigits hq hd) c hc

/-- The end of a piece that is not the text of its filter is the end of no filter. -/
theorem blocks_of_ne (hspelt : ∀ g ∈ filters, g.Spelt) {comma digits : List Char}
    (hcomma : comma = [] ∨ comma = [','])
    (hdigits : ∀ c ∈ digits, Text.isDecimalDigit c = true)
    (hne : ∀ q : Option Int, (∀ i ∈ q, 0 ≤ i ∧ i ≤ maxParam) → Filter.paramText q ≠ comma ++ digits) :
    Blocks filters (comma ++ (digits ++ [')'])) := by
  have hend : ∀ c ∈ comma ++ digits, isParen c = false := by
    intro c hc
    rcases List.mem_append.mp hc with hc | hc
    · exact not_paren_of_comma hcomma c hc
    · exact not_paren_of_digits hdigits c hc
  refine ⟨?_, ?_⟩
  · rw [← List.append_assoc, List.mem_append, not_or]
    exact ⟨fun hmem => absurd (hend _ hmem) (by decide), by decide⟩
  · rintro g hg ⟨rest, hrest⟩
    have hbounds := fun i hi => ((hspelt g hg).param i hi).2
    have hclose : (!isParen ')') = false := by decide
    rw [List.append_assoc, ← List.append_assoc comma] at hrest
    obtain ⟨hsame, -, -⟩ := Text.stop_inj (p := fun c => !isParen c)
      (fun c hc => by rw [not_paren_of_paramText (fun i hi => (hbounds i hi).1) c hc]; rfl)
      (fun c hc => by rw [hend c hc]; rfl) hclose hclose hrest
    exact hne g.param hbounds hsame

/-- A piece that spells a filter is replaced by its variable if it is the text of the filter, and else
keeps a parenthesis behind a word. -/
theorem rewritten_of_spells (hspelt : ∀ g ∈ filters, g.Spelt)
    (hsorted : filters.Pairwise fun f g => g.text.utf8ByteSize ≤ f.text.utf8ByteSize)
    (hf : f ∈ filters) (h : Spells piece f) :
    (piece = f.text.toList ∧ rewritten filters piece = f.identifier.toList) ∨
      (piece ≠ f.text.toList ∧
        ∃ label cs, IsWord label ∧ rewritten filters piece = label ++ '(' :: cs) := by
  by_cases htext : piece = f.text.toList
  · refine .inl ⟨htext, ?_⟩
    rw [htext]
    exact rewritten_text hspelt hsorted hf
  · refine .inr ⟨htext, ?_⟩
    cases h with
    | simple hselector hkey =>
      refine absurd ?_ htext
      rw [Filter.toList_text_of_none rfl, String.toList_ofList, String.toList_ofList]
    | @transformed transformation selector key comma digits param htransformation hselector hkey hcomma
        hdigits hparam =>
      have hblocks := blocks_of_ne hspelt hcomma hdigits (by
        intro q hq hsame
        apply htext
        rw [Filter.toList_text_of_some rfl, String.toList_ofList, String.toList_ofList,
          String.toList_ofList, param_of_paramText hcomma hdigits hparam hq hsame, hsame,
          List.append_assoc])
      obtain ⟨cs, hcs⟩ := exists_rewritten_of_held hspelt hsorted hblocks htransformation.isWord
        hselector.isWord hkey .whole
      exact ⟨transformation, cs, htransformation.isWord, hcs⟩

end Pieces

end Condition

end Vigil
