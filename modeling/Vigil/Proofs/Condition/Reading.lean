import Vigil.Proofs.Condition.Pieces
import Vigil.Proofs.Condition.Writing

/-!
# Reading a condition

A condition made of nothing but filters and decimals is read without loss. What makes the rewriting
exact is the order: a filter that is still to come is no longer than the one being replaced, so the
text of one can lie inside the other only as the whole.
-/

namespace Vigil.Condition

open Vigil.Text (replaceAll)

/-- What may stand between two operators. -/
inductive Part where
  | empty
  | literal (l : Literal)
  | filter (f : Filter) (written : f.Written)

namespace Part

def source : Part → List Char
  | .empty => []
  | .literal l => l.text
  | .filter f _ => f.text.toList

def image : Part → List Char
  | .empty => []
  | .literal l => l.text
  | .filter f _ => f.identifier.toList

def filter? : Part → Option Filter
  | .filter f _ => some f
  | _ => none

def piece? : Part → Option Piece
  | .empty => none
  | .literal _ => some .number
  | .filter f _ => some (.filter f)

end Part

theorem classify_literal (l : Literal) : classify l.text = .ok .number := by
  obtain ⟨x, hx⟩ := l.exists_read
  rw [classify, l.filter?_text]
  show Except.ok (if (Decimal.read? (String.ofList l.text)).isSome then _ else _) = _
  rw [hx]
  rfl

theorem classify_filter {f : Filter} (h : f.Written) :
    classify f.text.toList = .ok (.filter f) := by
  rw [classify, filter?_text h.spelt]
  rfl

theorem filter_cons_of_ne_nil {piece : List Char} (h : piece ≠ []) (more : List (List Char)) :
    (piece :: more).filter (!·.isEmpty) = piece :: more.filter (!·.isEmpty) := by
  apply List.filter_cons_of_pos
  rw [List.isEmpty_eq_false_iff.mpr h]
  rfl

/-- Every part is found to be what it is; empty ones are passed over. -/
theorem mapM_classify (parts : List Part) :
    ((parts.map Part.source).filter (!·.isEmpty)).mapM classify =
      .ok (parts.filterMap Part.piece?) := by
  induction parts with
  | nil => rfl
  | cons part parts ih =>
    rw [List.map_cons]
    cases part with
    | empty => exact ih
    | literal l =>
      rw [Part.source, filter_cons_of_ne_nil l.text_ne_nil, List.mapM_cons, classify_literal, ih]
      rfl
    | filter f written =>
      rw [Part.source, filter_cons_of_ne_nil f.text_ne_nil, List.mapM_cons,
        classify_filter written, ih]
      rfl

section Distinct

variable {α : Type} [DecidableEq α]

theorem mem_distinct {a : α} {as : List α} : a ∈ distinct as ↔ a ∈ as := by
  induction as with
  | nil => exact Iff.rfl
  | cons b as ih =>
    rw [distinct, List.mem_cons, List.mem_cons, List.mem_filter, ih, decide_eq_true_iff]
    by_cases h : a = b
    · exact ⟨fun _ => .inl h, fun _ => .inl h⟩
    · exact ⟨fun hmem => hmem.imp id And.left, fun hmem => hmem.imp id fun ha => ⟨ha, h⟩⟩

theorem nodup_distinct (as : List α) : (distinct as).Nodup := by
  induction as with
  | nil => exact List.nodup_nil
  | cons a as ih =>
    refine List.nodup_cons.mpr ⟨?_, ih.filter _⟩
    intro hmem
    exact of_decide_eq_true (List.mem_filter.mp hmem).2 rfl

theorem distinct_filter (p : α → Bool) (as : List α) :
    distinct (as.filter p) = (distinct as).filter p := by
  induction as with
  | nil => rfl
  | cons a as ih =>
    cases ha : p a with
    | true =>
      rw [List.filter_cons_of_pos ha, distinct, distinct, List.filter_cons_of_pos ha, ih,
        List.filter_filter, List.filter_filter]
      simp only [Bool.and_comm]
    | false =>
      have hneg : ¬ p a = true := ne_true_of_eq_false ha
      rw [List.filter_cons_of_neg hneg, distinct, List.filter_cons_of_neg hneg, ih,
        List.filter_filter]
      apply List.filter_congr
      intro b _
      by_cases hb : b = a
      · rw [hb, ha, Bool.false_and]
      · rw [decide_eq_true hb, Bool.and_true]

/-- The members in the order of their first appearance. -/
theorem distinct_eq_eraseDups (as : List α) : distinct as = as.eraseDups := by
  induction hlength : as.length using Nat.strongRecOn generalizing as with
  | ind n ih =>
    cases as with
    | nil => rfl
    | cons a as =>
      have hshort : (as.filter fun b => !b == a).length < n := by
        rw [← hlength, List.length_cons]
        exact Nat.lt_succ_of_le (List.length_filter_le _ _)
      rw [distinct, List.eraseDups_cons, ← ih _ hshort _ rfl, distinct_filter]
      congr 2
      funext b
      exact decide_not

end Distinct

/-- Filters with identifiers of their own do not clash. -/
theorem clash?_eq_none {earlier filters : List Filter}
    (h : (earlier ++ filters).Pairwise fun f g => f.identifier ≠ g.identifier) :
    clash? earlier filters = none := by
  induction filters generalizing earlier with
  | nil => rfl
  | cons f rest ih =>
    have hnone : (earlier.find? fun e => e.identifier == f.identifier) = none := by
      rw [List.find?_eq_none]
      intro e he hsame
      exact (List.pairwise_append.mp h).2.2 e he f List.mem_cons_self (eq_of_beq hsame)
    rw [clash?, hnone]
    apply ih
    rwa [List.append_assoc, List.singleton_append]

theorem pairwise_longestFirst (filters : List Filter) :
    (longestFirst filters).Pairwise fun f g => g.text.utf8ByteSize ≤ f.text.utf8ByteSize := by
  have hsorted : (longestFirst filters).Pairwise fun f g =>
      decide (g.text.utf8ByteSize ≤ f.text.utf8ByteSize) = true := by
    apply List.pairwise_mergeSort
    · intro f g h hfg hgh
      exact decide_eq_true (Nat.le_trans (of_decide_eq_true hgh) (of_decide_eq_true hfg))
    · intro f g
      exact Bool.or_eq_true_iff.mpr ((Nat.le_total _ _).imp decide_eq_true decide_eq_true)
  exact hsorted.imp of_decide_eq_true

/-- A text inside one that is no longer is that text. -/
theorem eq_of_isInfix {s t : String} (h : s.toList <:+: t.toList)
    (hsize : t.utf8ByteSize ≤ s.utf8ByteSize) : s = t := by
  obtain ⟨before, after, hparts⟩ := h
  have ht : t = String.ofList before ++ s ++ String.ofList after := by
    rw [← String.toList_inj, String.toList_append, String.toList_append, String.toList_ofList,
      String.toList_ofList, hparts]
  have hsum := congrArg String.utf8ByteSize ht
  rw [String.utf8ByteSize_append, String.utf8ByteSize_append] at hsum
  have hbefore : String.ofList before = "" := String.utf8ByteSize_eq_zero_iff.mp (by omega)
  have hafter : String.ofList after = "" := String.utf8ByteSize_eq_zero_iff.mp (by omega)
  rw [ht, hbefore, hafter, String.empty_append, String.append_empty]

/-- A text in which filters have given way to their identifiers. -/
def rewritten (filters : List Filter) (cs : List Char) : List Char :=
  (substitute filters (String.ofList cs)).toList

section Rewritten

variable {f : Filter} {filters : List Filter} {p : Char} {ps cs : List Char}

/-- Without a parenthesis there is no filter. -/
theorem replaceAll_of_no_paren {image : List Char} (hf : f.text.toList = p :: ps)
    (h : '(' ∉ cs) : replaceAll p ps image cs = cs := by
  apply Text.replaceAll_of_not_isInfix
  intro hinside
  rw [← hf] at hinside
  exact h (hinside.subset f.paren_mem_text)

theorem rewritten_nil (cs : List Char) : rewritten [] cs = cs :=
  String.toList_ofList

theorem rewritten_cons (hpattern : f.text.toList = p :: ps) (filters : List Filter)
    (cs : List Char) :
    rewritten (f :: filters) cs = rewritten filters (replaceAll p ps f.identifier.toList cs) := by
  simp only [rewritten, substitute, List.foldl_cons, Text.replace, hpattern, String.toList_ofList]

/-- The first filter gives way before the others. -/
theorem exists_rewritten_cons (f : Filter) (filters : List Filter) :
    ∃ p ps, f.text.toList = p :: ps ∧ ∀ cs,
      rewritten (f :: filters) cs = rewritten filters (replaceAll p ps f.identifier.toList cs) := by
  cases hpattern : f.text.toList with
  | nil => exact absurd hpattern f.text_ne_nil
  | cons p ps => exact ⟨p, ps, rfl, rewritten_cons hpattern filters⟩

theorem rewritten_of_no_paren (filters : List Filter) (h : '(' ∉ cs) :
    rewritten filters cs = cs := by
  induction filters with
  | nil => exact rewritten_nil cs
  | cons f filters ih =>
    obtain ⟨p, ps, hpattern, hcons⟩ := exists_rewritten_cons f filters
    rw [hcons, replaceAll_of_no_paren hpattern h, ih]

/-- Replaced longest first, a filter gives way as a whole. -/
theorem rewritten_text (hspelt : ∀ f ∈ filters, f.Spelt)
    (hsorted : filters.Pairwise fun f g => g.text.utf8ByteSize ≤ f.text.utf8ByteSize)
    (hf : f ∈ filters) : rewritten filters f.text.toList = f.identifier.toList := by
  induction filters with
  | nil => cases hf
  | cons g filters ih =>
    obtain ⟨hlongest, hsorted⟩ := List.pairwise_cons.mp hsorted
    obtain ⟨p, ps, hpattern, hcons⟩ := exists_rewritten_cons g filters
    rw [hcons]
    by_cases hgf : g = f
    · rw [← hgf, hpattern, Text.replaceAll_self]
      exact rewritten_of_no_paren filters (hspelt g List.mem_cons_self).paren_not_mem_identifier
    · have hf : f ∈ filters := (List.mem_cons.mp hf).resolve_left (Ne.symm hgf)
      rw [Text.replaceAll_of_not_isInfix]
      · exact ih (fun e he => hspelt e (List.mem_cons_of_mem g he)) hsorted hf
      · intro hinside
        rw [← hpattern] at hinside
        exact hgf (eq_of_text_eq (hspelt g List.mem_cons_self)
          (hspelt f (List.mem_cons_of_mem g hf)) (eq_of_isInfix hinside (hlongest f hf)))

/-- Filters give way in each piece on its own. -/
theorem rewritten_weave {marks : List Char} (hspelt : ∀ f ∈ filters, f.Spelt)
    (hmarks : ∀ c ∈ marks, isOperatorChar c = true) (pieces : List (List Char)) :
    rewritten filters (weave pieces marks) = weave (pieces.map (rewritten filters)) marks := by
  induction filters generalizing pieces with
  | nil =>
    have hsame : rewritten [] = id := funext rewritten_nil
    rw [hsame, List.map_id, id]
  | cons f filters ih =>
    obtain ⟨p, ps, hpattern, hcons⟩ := exists_rewritten_cons f filters
    have hfirst : ∀ c ∈ marks, c ∉ p :: ps := by
      intro c hc hpc
      have hmark := (spells_text (hspelt f List.mem_cons_self)).not_mark c (hpattern ▸ hpc)
      rw [hmarks c hc] at hmark
      cases hmark
    rw [hcons, replaceAll_weave hfirst, ih fun g hg => hspelt g (List.mem_cons_of_mem f hg),
      List.map_map]
    congr 2
    exact (funext hcons).symm

theorem rewritten_pieces (hspelt : ∀ f ∈ filters, f.Spelt) (cs : List Char) :
    rewritten filters cs = weave ((pieces cs).map (rewritten filters)) (marks cs) := by
  conv => lhs; rw [← weave_pieces cs]
  exact rewritten_weave hspelt (fun _ hc => isOperatorChar_of_mem_marks hc) (pieces cs)

end Rewritten

section Parse

variable {input : String} {parts : List Part}

theorem mem_filters {f : Filter} :
    f ∈ parts.filterMap Part.filter? ↔ ∃ h, Part.filter f h ∈ parts := by
  rw [List.mem_filterMap]
  constructor
  · rintro ⟨part, hpart, hf⟩
    cases part with
    | empty => cases hf
    | literal l => cases hf
    | filter g written =>
      cases hf
      exact ⟨written, hpart⟩
  · rintro ⟨written, hpart⟩
    exact ⟨_, hpart, rfl⟩

theorem found_filters {g : Piece → Option Filter} (hfilter : ∀ f, g (.filter f) = some f)
    (hnumber : g .number = none) (parts : List Part) :
    (parts.filterMap Part.piece?).filterMap g = parts.filterMap Part.filter? := by
  rw [List.filterMap_filterMap]
  congr 1
  funext part
  cases part with
  | empty => rfl
  | literal l => exact hnumber
  | filter f written => exact hfilter f

theorem found_dropped {g : Piece → Option String} (hfilter : ∀ f, g (.filter f) = none)
    (hnumber : g .number = none) (parts : List Part) :
    (parts.filterMap Part.piece?).filterMap g = [] := by
  rw [List.filterMap_filterMap, List.filterMap_eq_nil_iff]
  intro part _
  cases part with
  | empty => rfl
  | literal l => exact hnumber
  | filter f written => exact hfilter f

/-- The expression is the condition with each filter in its place rewritten. -/
theorem substitute_filters (hpieces : pieces (Text.strip input).toList = parts.map Part.source) :
    substitute (longestFirst (distinct (parts.filterMap Part.filter?))) (Text.strip input) =
      String.ofList (weave (parts.map Part.image) (marks (Text.strip input).toList)) := by
  generalize hfilters : longestFirst (distinct (parts.filterMap Part.filter?)) = filters
  have hmem : ∀ f, f ∈ filters ↔ f ∈ parts.filterMap Part.filter? := by
    intro f
    rw [← hfilters]
    exact List.mem_mergeSort.trans mem_distinct
  have hspelt : ∀ f ∈ filters, f.Spelt := by
    intro f hf
    exact (mem_filters.mp ((hmem f).mp hf)).1.spelt
  have hsorted : filters.Pairwise fun f g => g.text.utf8ByteSize ≤ f.text.utf8ByteSize :=
    hfilters ▸ pairwise_longestFirst _
  have himage : ∀ part ∈ parts, (rewritten filters ∘ Part.source) part = part.image := by
    intro part hpart
    cases part with
    | empty => exact rewritten_of_no_paren filters List.not_mem_nil
    | literal l => exact rewritten_of_no_paren filters l.isNumeral.paren_not_mem
    | filter f written =>
      exact rewritten_text hspelt hsorted ((hmem f).mpr (mem_filters.mpr ⟨written, hpart⟩))
  have hpiecewise := rewritten_pieces hspelt (Text.strip input).toList
  rw [hpieces, List.map_map, List.map_congr_left himage] at hpiecewise
  rw [← String.toList_inj, String.toList_ofList, ← hpiecewise, rewritten, String.ofList_toList]

/-- What a condition made of filters and decimals says. -/
theorem parse_of_parts (hpieces : pieces (Text.strip input).toList = parts.map Part.source)
    (hsome : parts.filterMap Part.filter? ≠ [])
    (hidentifiers : ∀ f ∈ parts.filterMap Part.filter?, ∀ g ∈ parts.filterMap Part.filter?,
      f.identifier = g.identifier → f = g) :
    parse input = .ok
      { filters := (parts.filterMap Part.filter?).eraseDups
        expression := String.ofList
          (weave (parts.map Part.image) (marks (Text.strip input).toList))
        dropped := [] } := by
  have hempty : (distinct (parts.filterMap Part.filter?)).isEmpty = false := by
    obtain ⟨f, hf⟩ := List.exists_mem_of_ne_nil _ hsome
    exact List.isEmpty_eq_false_iff.mpr (List.ne_nil_of_mem (mem_distinct.mpr hf))
  have hclash : clash? [] (distinct (parts.filterMap Part.filter?)) = none := by
    apply clash?_eq_none
    rw [List.nil_append]
    refine (nodup_distinct _).imp_of_mem ?_
    intro f g hf hg hne hsame
    exact hne (hidentifiers f (mem_distinct.mp hf) g (mem_distinct.mp hg) hsame)
  rw [parse, hpieces, mapM_classify]
  show (if (distinct (List.filterMap _ (parts.filterMap Part.piece?))).isEmpty then _ else _) = _
  rw [found_filters, found_dropped, hempty, hclash, substitute_filters hpieces,
    distinct_eq_eraseDups]
  · rfl
  all_goals intros; rfl

end Parse

end Vigil.Condition
