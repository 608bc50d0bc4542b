import Vigil.Proofs.Condition.Misspelt
import Vigil.Proofs.Condition.PieceTokens
import Vigil.Proofs.Runner.Contained

/-!
# Variables of a condition

Where nothing is dropped every piece of a condition is a filter or is read as a number. Of the latter
infinity and the like are words, which the expression takes for variables: its variables are the
identifiers of the filters and those words, and no batch has a value for one of the words.
-/

namespace Vigil.Condition

open Vigil.Expression
open Vigil.Text (IsLabel)

/-- The variable that stands for a piece in the expression. -/
def variableOf (piece : List Char) : Option String :=
  match filterOf? piece with
  | some f => some f.identifier
  | none => if isFloatWord piece then some (String.ofList piece) else none

/-- The words of a condition that are read as numbers. -/
def floatWords (input : String) : List String :=
  ((wholePieces input).filter isFloatWord).map String.ofList

section Parse

variable {input name : String} {c : Condition} {e : Expression} {piece : List Char} {f : Filter}

theorem Spells.paren_mem (h : Spells piece f) : '(' ∈ piece := by
  cases h <;> exact List.mem_append_right _ List.mem_cons_self

/-- A word that is read as a number is no filter. -/
theorem filterOf?_of_isFloatWord (h : isFloatWord piece = true) : filterOf? piece = none := by
  rw [Option.eq_none_iff_forall_ne_some]
  intro f hf
  have hparen := (filter?_eq_some_iff.mp (filterOf?_eq_some_iff.mp hf)).paren_mem
  exact (isLabel_of_isFloatWord h).isWord.not_mem (by decide) hparen

theorem line_mem_identifier (f : Filter) : '_' ∈ f.identifier.toList := by
  cases ht : f.transformation with
  | none =>
    rw [Filter.toList_identifier_of_none ht]
    exact List.mem_append_right _ List.mem_cons_self
  | some t =>
    rw [Filter.toList_identifier_of_some ht]
    exact List.mem_append_right _ List.mem_cons_self

/-- The variable of a filter is none of the words without a line in them. -/
theorem identifier_ne (f : Filter) {word : String} (hword : '_' ∉ word.toList) :
    f.identifier ≠ word :=
  fun h => hword (h ▸ line_mem_identifier f)

theorem isFloatWord_of_mem_floatWords (h : name ∈ floatWords input) :
    isFloatWord name.toList = true := by
  obtain ⟨piece, hpiece, rfl⟩ := List.mem_map.mp h
  rw [String.toList_ofList]
  exact (List.mem_filter.mp hpiece).2

theorem identifier_ne_of_isFloatWord (f : Filter) (h : isFloatWord name.toList = true) :
    f.identifier ≠ name := by
  apply identifier_ne
  intro hline
  have hletter := List.mem_map_of_mem (f := Char.toLower) hline
  have hnot : ∀ word ∈ ["inf", "infinity", "nan"], '_' ∉ word.toList := by decide
  have hword := hnot _ (List.contains_iff_mem.mp h)
  rw [String.toList_ofList] at hword
  exact hword hletter

/-- A filter is rewritten to its variable, as a rest with a parenthesis behind a word does not
compile. -/
theorem reads_of_filter (h : parse input = .ok c) (he : compile c.expression = .ok e)
    (hpiece : piece ∈ wholePieces input) (hread : filter? piece = .ok (some f)) :
    Reads (rewritten (longestFirst c.filters) piece) (variableOf piece) := by
  obtain ⟨-, -, -, -, hexpression, -⟩ := parse_eq_ok_iff.mp h
  have hmem := (mem_filters_iff h).mpr ⟨piece, hpiece, hread⟩
  have hspelt := spelt_longestFirst h
  rcases rewritten_of_spells hspelt (pairwise_longestFirst _) (List.mem_mergeSort.mpr hmem)
      (filter?_eq_some_iff.mp hread) with
    ⟨-, hwhole⟩ | ⟨-, label, cs, hlabel, hstuck⟩
  · have hreads := Reads.label (spelt_of_parse h f hmem).isLabel_identifier
      (by rw [String.ofList_toList]; exact identifier_ne f (by decide))
      (by rw [String.ofList_toList]; exact identifier_ne f (by decide))
    rw [String.ofList_toList] at hreads
    rw [hwhole, variableOf, filterOf?_eq_some_iff.mpr hread]
    exact hreads
  · have hlength := length_pieces (Text.strip input).toList
    have hinfix : rewritten (longestFirst c.filters) piece <:+:
        weave ((pieces (Text.strip input).toList).map (rewritten (longestFirst c.filters)))
          (marks (Text.strip input).toList) :=
      isInfix_weave (List.mem_map_of_mem (mem_wholePieces.mp hpiece).1)
        (by rw [List.length_map]; omega)
    rw [← rewritten_pieces hspelt, hstuck, rewritten, String.ofList_toList, ← hexpression] at hinfix
    exact absurd hinfix (not_isInfix_of_compile he hlabel)

/-- What is read as a number stays as it is; only a word among these is a variable. -/
theorem reads_of_number (filters : List Filter) {x : Float} (hnone : filterOf? piece = none)
    (hmark : ∀ c ∈ piece, isOperatorChar c = false)
    (hx : Decimal.read? (String.ofList piece) = some x) :
    Reads (rewritten filters piece) (variableOf piece) := by
  rw [variableOf, hnone]
  dsimp only
  cases hword : isFloatWord piece with
  | true =>
    have hlabel := isLabel_of_isFloatWord hword
    rw [rewritten_of_no_paren _ (hlabel.isWord.not_mem (by decide)), if_pos rfl]
    have hne : ∀ word : String, isFloatWord word.toList = false → String.ofList piece ≠ word := by
      rintro word hfalse rfl
      rw [String.toList_ofList, hword] at hfalse
      cases hfalse
    exact .label hlabel (hne "true" (by decide)) (hne "false" (by decide))
  | false =>
    have hnumeral := isNumeral_of_read? (fun hmem => absurd (hmark _ hmem) (by decide))
      (fun hmem => absurd (hmark _ hmem) (by decide)) hword hx
    rw [rewritten_of_no_paren _ hnumeral.paren_not_mem, if_neg Bool.false_ne_true]
    exact .numeral hnumeral hx

/-- Where nothing is dropped, each piece is rewritten to the variable that stands for it, if any. -/
theorem reads_of_piece (h : parse input = .ok c) (hdropped : c.dropped = [])
    (he : compile c.expression = .ok e) (hpiece : piece ∈ pieces (Text.strip input).toList) :
    Reads (rewritten (longestFirst c.filters) piece) (variableOf piece) := by
  obtain ⟨htold, -⟩ := parse_eq_ok_iff.mp h
  by_cases hnil : piece = []
  · rw [hnil, rewritten_of_no_paren _ List.not_mem_nil]
    exact .empty
  have hwhole := mem_wholePieces.mpr ⟨hpiece, hnil⟩
  obtain ⟨read, hread⟩ := htold piece hwhole
  cases read with
  | some f => exact reads_of_filter h he hwhole hread
  | none =>
    have hnone : filterOf? piece = none := by rw [filterOf?, hread]
    obtain ⟨x, hx⟩ : ∃ x, Decimal.read? (String.ofList piece) = some x := by
      rw [← Option.ne_none_iff_exists']
      intro hnumber
      have hmem := mem_dropped_of_piece h hwhole hread hnumber
      rw [hdropped] at hmem
      cases hmem
    exact reads_of_number _ hnone (not_mark_of_mem_pieces hpiece) hx

/-- The variables of the expression stand in the places of the filters and of the words that are read
as numbers. -/
theorem names_of_parse (h : parse input = .ok c) (hdropped : c.dropped = [])
    (he : compile c.expression = .ok e) :
    e.tree.names = (wholePieces input).filterMap variableOf := by
  obtain ⟨-, -, -, -, hexpression, -⟩ := parse_eq_ok_iff.mp h
  obtain ⟨ls, hls, hderives, -⟩ := compile_eq_ok_iff.mp he
  have hreads : List.Forall₂ Reads
      ((pieces (Text.strip input).toList).map (rewritten (longestFirst c.filters)))
      ((pieces (Text.strip input).toList).map variableOf) := by
    rw [List.forall₂_map_left_iff, List.forall₂_map_right_iff]
    exact List.forall₂_same.mpr fun piece hpiece => reads_of_piece h hdropped he hpiece
  have htext : c.expression.toList =
      weave ((pieces (Text.strip input).toList).map (rewritten (longestFirst c.filters)))
        (marks (Text.strip input).toList) := by
    rw [← rewritten_pieces (spelt_longestFirst h), hexpression, rewritten, String.ofList_toList]
  have hlength := length_pieces (Text.strip input).toList
  rw [lexemes, htext] at hls
  have hmarks : ∀ c ∈ marks (Text.strip input).toList, isOperatorChar c = true :=
    fun _ hc => isOperatorChar_of_mem_marks hc
  have htold := told_of_reads hreads hmarks (by rw [List.length_map]; omega)
  rw [names_of_derives hderives, htold 0 ls hls, List.filterMap_map, wholePieces,
    List.filterMap_filter]
  apply List.filterMap_congr
  intro piece _
  cases piece with
  | nil => rfl
  | cons d piece => rfl

/-- The variables of the expression are the identifiers of the filters and those words. -/
theorem mem_names_of_parse (h : parse input = .ok c) (hdropped : c.dropped = [])
    (he : compile c.expression = .ok e) :
    name ∈ e.names ↔ name ∈ c.filters.map Filter.identifier ∨ name ∈ floatWords input := by
  rw [mem_names_iff, names_of_parse h hdropped he, List.mem_filterMap, List.mem_map]
  constructor
  · rintro ⟨piece, hpiece, hname⟩
    unfold variableOf at hname
    split at hname
    · rename_i f hf
      exact .inl ⟨f, (mem_filters_iff h).mpr ⟨piece, hpiece, filterOf?_eq_some_iff.mp hf⟩,
        Option.some.inj hname⟩
    · split at hname
      · rename_i hword
        exact .inr (List.mem_map.mpr
          ⟨piece, List.mem_filter.mpr ⟨hpiece, hword⟩, Option.some.inj hname⟩)
      · cases hname
  · rintro (⟨f, hf, rfl⟩ | hname)
    · obtain ⟨piece, hpiece, hread⟩ := (mem_filters_iff h).mp hf
      refine ⟨piece, hpiece, ?_⟩
      rw [variableOf, filterOf?_eq_some_iff.mpr hread]
    · obtain ⟨piece, hpiece, rfl⟩ := List.mem_map.mp hname
      obtain ⟨hwhole, hword⟩ := List.mem_filter.mp hpiece
      refine ⟨piece, hwhole, ?_⟩
      rw [variableOf, filterOf?_of_isFloatWord hword]
      exact if_pos hword

end Parse

end Vigil.Condition

namespace Vigil

theorem Batch.mem_names_of_assemble {filters : List Filter} {all : List Series} {batch : Batch}
    {name : String} (h : assemble filters all = .ok batch) :
    name ∈ batch.names ↔ name ∈ filters.map Filter.identifier := by
  unfold assemble at h
  split at h
  · rename_i hlength
    cases h
    have hnames : ∀ b : Batch, (align b).names = b.names := by
      intro b
      exact List.map_map.trans rfl
    rw [hnames, Named.mem_names_ofList, List.map_fst_zip (by rw [List.length_map, hlength])]
  · cases h

namespace Valuation

variable {e : Expression} {batch : Batch} {limit : Nat} {name : String}

theorem exists_of_holdsAt {cause : Expression.EvaluationError} {places : List Nat}
    (h : holdsAt e batch limit places = .error cause) :
    ∃ i ∈ places, e.evaluateBool (lookup batch limit i) = .error cause := by
  induction places with
  | nil => cases h
  | cons i rest ih =>
    rw [holdsAt] at h
    cases hfirst : e.evaluateBool (lookup batch limit i) with
    | error found =>
      rw [hfirst] at h
      exact ⟨i, List.mem_cons_self, hfirst.trans (congrArg Except.error (Except.error.inj h))⟩
    | ok holds =>
      rw [hfirst] at h
      cases holds with
      | true =>
        obtain ⟨j, hj, hcause⟩ := ih h
        exact ⟨j, List.mem_cons_of_mem i hj, hcause⟩
      | false => cases h

/-- A variable is unknown to an evaluation only if the batch has no series for it. -/
theorem unknown_of_ofBatch (h : ofBatch e batch limit = .error (.evaluation (.unknownVariable name))) :
    name ∈ e.names ∧ name ∉ batch.names := by
  unfold ofBatch at h
  split at h
  · cases h
  · split at h
    · cases h
    · rename_i havailable
      split at h
      · rename_i cause hholds
        cases h
        obtain ⟨i, hi, hcause⟩ := exists_of_holdsAt hholds
        obtain ⟨hname, hnone⟩ := Expression.unknown_of_evaluateBool hcause
        refine ⟨hname, fun hmem => ?_⟩
        obtain ⟨x, hx⟩ := exists_lookup (Nat.not_lt.mp havailable) hmem (List.mem_range.mp hi)
        rw [hnone] at hx
        cases hx
      · cases h
      · cases h

end Valuation

namespace Draft

open Condition (floatWords)

/-- Where nothing of the condition is dropped, the variables of an accepted definition are the identifiers
of its filters, and with them the words that are read as numbers. So the two agree exactly when there is
no such word, and no other variable is unknown to an evaluation over the series of the filters. -/
theorem variables_of_accepted {d : Draft} {owner : String} {id : Uuid} {made : Instant} {a : Alarm}
    {c : Condition} (hmade : d.alarm owner id made = .ok a)
    (hparse : Condition.parse d.condition = .ok c) (hdropped : c.dropped = []) :
    ∃ e, a.compiled = some e ∧
      (∀ name, name ∈ e.names ↔
        name ∈ a.rule.filters.map Filter.identifier ∨ name ∈ floatWords d.condition) ∧
      ((∀ name, name ∈ e.names ↔ name ∈ a.rule.filters.map Filter.identifier) ↔
        floatWords d.condition = []) ∧
      ∀ all batch, Batch.assemble a.rule.filters all = .ok batch → ∀ limit name,
        Valuation.ofBatch e batch limit = .error (.evaluation (.unknownVariable name)) →
          name ∈ floatWords d.condition := by
  obtain ⟨e, hrule, hcompiled⟩ := (makes_of_alarm hmade).rule
  obtain ⟨c', hparse', -, hcompile, hc⟩ := rule_eq_ok_iff.mp hrule
  obtain rfl : c' = c := Except.ok.inj (hparse'.symm.trans hparse)
  rw [hc]
  have hnames : ∀ name, name ∈ e.names ↔
      name ∈ c'.filters.map Filter.identifier ∨ name ∈ floatWords d.condition :=
    fun name => Condition.mem_names_of_parse hparse hdropped hcompile
  refine ⟨e, hcompiled, hnames, ⟨?_, ?_⟩, ?_⟩
  · intro hsame
    rw [List.eq_nil_iff_forall_not_mem]
    intro word hword
    obtain ⟨f, -, hf⟩ := List.mem_map.mp ((hsame word).mp ((hnames word).mpr (.inr hword)))
    exact Condition.identifier_ne_of_isFloatWord f (Condition.isFloatWord_of_mem_floatWords hword) hf
  · intro hnone name
    rw [hnames, hnone]
    exact or_iff_left List.not_mem_nil
  · intro all batch hbatch limit name hunknown
    obtain ⟨hname, hmissing⟩ := Valuation.unknown_of_ofBatch hunknown
    rw [Batch.mem_names_of_assemble hbatch] at hmissing
    exact ((hnames name).mp hname).resolve_left hmissing

/-- Two filters and no word: every variable has a series. -/
theorem variables_of_heat :
    ∃ a e, (heat 60 1).alarm "" (.ofNat 1) .epoch = .ok a ∧ a.compiled = some e ∧
      (∀ name, name ∈ e.names ↔ name ∈ a.rule.filters.map Filter.identifier) ∧
      ∀ all batch, Batch.assemble a.rule.filters all = .ok batch → ∀ limit name,
        Valuation.ofBatch e batch limit ≠ .error (.evaluation (.unknownVariable name)) := by
  obtain ⟨a, hmade, -⟩ := exists_heat 60 1 (by decide) (by decide)
  obtain ⟨_, hrule, -⟩ := (makes_of_alarm hmade).rule
  obtain ⟨c, hparse, -⟩ := rule_eq_ok_iff.mp hrule
  have hdropped : c.dropped = [] := by
    obtain ⟨-, -, -, -, -, hdropped⟩ := Condition.parse_eq_ok_iff.mp hparse
    rw [hdropped]
    rfl
  have hwords : floatWords (heat 60 1).condition = [] := by rfl
  obtain ⟨e, hcompiled, -, hsame, hknown⟩ := variables_of_accepted hmade hparse hdropped
  refine ⟨a, e, hmade, hcompiled, hsame.mpr hwords, ?_⟩
  intro all batch hbatch limit name hunknown
  have hword := hknown all batch hbatch limit name hunknown
  rw [hwords] at hword
  cases hword

/-- The definition of an alarm that waits for infinity. -/
def boundless : Draft :=
  { heat 60 1 with condition := "max(t)>inf" }

def boundlessRule : Rule :=
  ⟨[⟨"max", none, "t", none⟩], "max_t>inf", 1⟩

theorem parse_boundless : Condition.parse boundless.condition =
    .ok ⟨boundlessRule.filters, boundlessRule.expression, []⟩ := by
  have hspelt : ∀ f ∈ boundlessRule.filters, f.Spelt := by
    intro f hf
    rw [List.mem_singleton.mp hf]
    exact Filter.Written.spelt ⟨by decide, by rintro t ⟨⟩, by decide, by rintro p ⟨⟩⟩
  have hpieces : Condition.wholePieces "max(t)>inf" = ["max(t)".toList, "inf".toList] := by rfl
  refine Condition.parse_eq_ok_iff.mpr ⟨?_, List.cons_ne_nil _ _, by rfl, by rfl, ?_, by rfl⟩
  · rw [show boundless.condition = "max(t)>inf" from rfl, hpieces]
    intro piece hpiece
    rcases List.mem_pair.mp hpiece with rfl | rfl
    · exact ⟨_, rfl⟩
    · exact ⟨_, rfl⟩
  · have hmax := Condition.rewritten_text hspelt (List.pairwise_singleton _ _)
      (List.mem_singleton_self _)
    rw [(by decide : Filter.text ⟨"max", none, "t", none⟩ = "max(t)"),
      (by decide : Filter.identifier ⟨"max", none, "t", none⟩ = "max_t")] at hmax
    have hinf : Condition.rewritten boundlessRule.filters "inf".toList = "inf".toList :=
      Condition.rewritten_of_no_paren _ (by decide)
    have hstripped : Condition.pieces (Text.strip "max(t)>inf").toList =
        ["max(t)".toList, "inf".toList] := by rfl
    have hrewritten := Condition.rewritten_pieces hspelt (Text.strip "max(t)>inf").toList
    rw [hstripped, List.map_cons, List.map_cons, List.map_nil, hmax, hinf, Condition.rewritten,
      String.ofList_toList] at hrewritten
    have hwhole : Condition.weave ["max_t".toList, "inf".toList]
        (Condition.marks (Text.strip "max(t)>inf").toList) = boundlessRule.expression.toList := by rfl
    have hlongest : Condition.longestFirst boundlessRule.filters = boundlessRule.filters :=
      List.mergeSort_singleton _
    dsimp only
    rw [← String.toList_inj, ← hwhole, ← hrewritten, hlongest]
    rfl

open Expression in
theorem exists_boundless_rule : ∃ e, boundless.rule = .ok (boundlessRule, e) ∧
    e.tree = .apply .greater (.variable "max_t") (.variable "inf") := by
  have hlexemes : lexemes "max_t>inf" =
      .ok [⟨.name "max_t", 0⟩, ⟨.greater, 5⟩, ⟨.name "inf", 6⟩] := by
    show lexemesFrom 0 ['m', 'a', 'x', '_', 't', '>', 'i', 'n', 'f'] = _
    repeat refine lexemesFrom_eq_ok rfl rfl ?_
    exact lexemesFrom_nil _
  have hmax : Derives .operand [.name "max_t"] (.variable "max_t") := .named (by decide) (by decide)
  have hinf : Derives .operand [.name "inf"] (.variable "inf") := .named (by decide) (by decide)
  have hwhole := Derives.joined .greater (hmax.loosen (by decide)) (hinf.loosen (by decide))
  have hcompile := (Condition.compile_eq_ok_iff (e := ⟨"max_t>inf", _⟩)).mpr
    ⟨_, hlexemes, hwhole.loosen (a := .disjunction) (by decide), rfl⟩
  exact ⟨_, rule_eq_ok_iff.mpr ⟨_, parse_boundless, rfl, hcompile, rfl⟩, rfl⟩

/-- Infinity is dropped from no condition, and yet an evaluation knows no variable of this name. -/
theorem boundless_variable_unknown :
    ∃ a c e batch, boundless.alarm "" (.ofNat 1) .epoch = .ok a ∧
      Condition.parse boundless.condition = .ok c ∧ c.dropped = [] ∧ a.compiled = some e ∧
      "inf" ∈ e.names ∧ "inf" ∉ a.rule.filters.map Filter.identifier ∧
      Batch.assemble a.rule.filters [[⟨.epoch, 1.0⟩]] = .ok batch ∧
      Valuation.ofBatch e batch a.rule.trigger = .error (.evaluation (.unknownVariable "inf")) := by
  obtain ⟨e, hrule, htree⟩ := exists_boundless_rule
  have hname : Text.isBlankText boundless.name = false := by
    show Text.isBlankText "heat" = false
    decide
  have hmade := alarm_eq_ok hname (by decide) (by decide) hrule "" (.ofNat 1) .epoch
  have hmem : "inf" ∈ e.names := by
    rw [Expression.mem_names_iff, htree]
    exact List.mem_cons_of_mem _ (List.mem_singleton_self _)
  have hnot : "inf" ∉ boundlessRule.filters.map Filter.identifier := by decide
  refine ⟨_, _, e, _, hmade, parse_boundless, rfl, rfl, hmem, hnot, rfl, ?_⟩
  obtain ⟨source, tree⟩ := e
  cases htree
  rfl

end Draft

end Vigil
