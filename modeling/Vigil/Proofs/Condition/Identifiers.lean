import Mathlib.Data.List.Nodup
import Vigil.Proofs.Alarm.Definition
import Vigil.Series.Query

/-!
# Identifiers of filters

The identifier of a filter joins its names with lines, and lines stand in names and keys as well. It can
still be taken apart: the name of a function with a line behind it is never the beginning of another such
name, so an identifier that begins with two of them begins with one. What cannot be read off an identifier
is the parameter alone. So two filters of a condition share an identifier only when they are one
transformed filter with two parameters.
-/

namespace Vigil

namespace Selector

theorem mem_all (selector : Selector) : selector ∈ all := by
  cases selector <;> decide

theorem name_of_ofName {s : String} {selector : Selector} (h : ofName s = .ok selector) :
    s = selector.name := by
  unfold ofName at h
  split at h
  · rename_i found hfound
    cases h
    have hname := List.find?_some hfound
    exact (eq_of_beq hname).symm
  · cases h

end Selector

namespace Transformation

theorem mem_all (transformation : Transformation) : transformation ∈ all := by
  cases transformation <;> decide

theorem name_of_ofName {s : String} {transformation : Transformation}
    (h : ofName s = .ok transformation) : s = transformation.name := by
  unfold ofName at h
  split at h
  · rename_i found hfound
    cases h
    have hname := List.find?_some hfound
    exact (eq_of_beq hname).symm
  · cases h

end Transformation

namespace Filter

/-- The name of a function with a line behind it. -/
def head : Selector ⊕ Transformation → List Char
  | .inl selector => selector.name.toList ++ ['_']
  | .inr transformation => transformation.name.toList ++ ['_']

def functions : List (Selector ⊕ Transformation) :=
  Selector.all.map .inl ++ Transformation.all.map .inr

theorem mem_functions (a : Selector ⊕ Transformation) : a ∈ functions := by
  cases a with
  | inl selector => exact List.mem_append_left _ (List.mem_map_of_mem selector.mem_all)
  | inr transformation => exact List.mem_append_right _ (List.mem_map_of_mem transformation.mem_all)

/-- Among known functions no name with its line begins another. -/
theorem eq_of_head_begins {a b : Selector ⊕ Transformation} (h : head a <+: head b) : a = b := by
  have hall : ∀ a ∈ functions, ∀ b ∈ functions, head a <+: head b → a = b := by decide +kernel
  exact hall a (mem_functions a) b (mem_functions b) h

/-- A text begins with one name at most. -/
theorem head_append_inj {a b : Selector ⊕ Transformation} {cs ds : List Char} :
    head a ++ cs = head b ++ ds ↔ a = b ∧ cs = ds := by
  constructor
  · intro h
    have hsame : a = b := by
      rcases List.prefix_or_prefix_of_prefix (List.prefix_append (head a) cs)
        (h ▸ List.prefix_append (head b) ds) with hbegins | hbegins
      · exact eq_of_head_begins hbegins
      · exact (eq_of_head_begins hbegins).symm
    subst hsame
    exact ⟨rfl, List.append_cancel_left h⟩
  · rintro ⟨rfl, rfl⟩
    rfl

variable {f g : Filter}

/-- A valid filter names known functions. -/
theorem names_of_validate (h : f.validate = .ok ()) :
    ∃ (selector : Selector) (transformation : Option Transformation),
      f.selector = selector.name ∧ f.transformation = transformation.map Transformation.name := by
  obtain ⟨selector, hselector, h⟩ := bind_eq_ok_iff.mp h
  have hselector := Selector.name_of_ofName hselector
  split at h
  · rename_i hnone
    exact ⟨selector, none, hselector, hnone⟩
  · rename_i name hsome
    obtain ⟨transformation, htransformation, -⟩ := bind_eq_ok_iff.mp h
    rw [Transformation.name_of_ofName htransformation] at hsome
    exact ⟨selector, some transformation, hselector, hsome⟩

/-- An identifier is made of the heads of its functions, and the key. -/
theorem toList_identifier {selector : Selector} {transformation : Option Transformation}
    (hselector : f.selector = selector.name)
    (htransformation : f.transformation = transformation.map Transformation.name) :
    f.identifier.toList = (transformation.map fun t => head (.inr t)).getD [] ++
      (head (.inl selector) ++ f.key.toList) := by
  cases transformation with
  | none =>
    rw [toList_identifier_of_none htransformation, hselector]
    simp [head]
  | some transformation =>
    rw [toList_identifier_of_some htransformation, hselector]
    simp [head]

/-- Valid filters share an identifier when they are the same but for the parameter. -/
theorem identifier_eq_iff (hf : f.validate = .ok ()) (hg : g.validate = .ok ()) :
    f.identifier = g.identifier ↔
      f.transformation = g.transformation ∧ f.selector = g.selector ∧ f.key = g.key := by
  constructor
  · intro h
    obtain ⟨s, t, hs, ht⟩ := names_of_validate hf
    obtain ⟨s', t', hs', ht'⟩ := names_of_validate hg
    have h := congrArg String.toList h
    rw [toList_identifier hs ht, toList_identifier hs' ht'] at h
    rw [ht, ht', hs, hs']
    -- the first name tells whether there is a transformation
    cases t with
    | none =>
      cases t' with
      | none =>
        obtain ⟨hselector, hkey⟩ := head_append_inj.mp h
        rw [Sum.inl.inj hselector]
        exact ⟨rfl, rfl, String.toList_inj.mp hkey⟩
      | some t' => exact absurd (head_append_inj.mp h).1 Sum.inl_ne_inr
    | some t =>
      cases t' with
      | none => exact absurd (head_append_inj.mp h).1 Sum.inr_ne_inl
      | some t' =>
        have h : head (.inr t) ++ (head (.inl s) ++ f.key.toList) =
            head (.inr t') ++ (head (.inl s') ++ g.key.toList) := h
        obtain ⟨htransformation, h⟩ := head_append_inj.mp h
        obtain ⟨hselector, hkey⟩ := head_append_inj.mp h
        rw [Sum.inr.inj htransformation, Sum.inl.inj hselector]
        exact ⟨rfl, rfl, String.toList_inj.mp hkey⟩
  · rintro ⟨htransformation, hselector, hkey⟩
    unfold identifier
    rw [htransformation, hselector, hkey]

/-- Two filters are one transformed filter with two parameters; to have none is to have one of its own. -/
structure DifferInParam (f g : Filter) : Prop where
  transformed : f.transformation.isSome = true
  same : g = { f with param := g.param }
  param : f.param ≠ g.param

end Filter

namespace Condition

variable {input : String} {f g : Filter} {earlier filters : List Filter}

/-- The pair that clashes shares an identifier, and the first of it stands before the second. -/
theorem of_clash?_eq_some (h : clash? earlier filters = some (f, g)) :
    f.identifier = g.identifier ∧
      ∃ before after, filters = before ++ g :: after ∧ f ∈ earlier ++ before := by
  induction filters generalizing earlier with
  | nil => cases h
  | cons d rest ih =>
    rw [clash?] at h
    split at h
    · rename_i e hfound
      cases h
      have hsame := List.find?_some hfound
      exact ⟨eq_of_beq hsame, [], rest, rfl,
        List.mem_append_left _ (List.mem_of_find?_eq_some hfound)⟩
    · obtain ⟨hsame, before, after, hsplit, hmem⟩ := ih h
      refine ⟨hsame, d :: before, after, ?_, ?_⟩
      · rw [hsplit, List.cons_append]
      · rwa [List.append_assoc, List.singleton_append] at hmem

/-- A condition uses a filter: one of its pieces spells it. -/
def Uses (input : String) (f : Filter) : Prop :=
  ∃ piece ∈ wholePieces input, filter? piece = .ok (some f)

/-- All that is asked of a condition but identifiers of their own for its filters. -/
structure Sensible (input : String) : Prop where
  told : ∀ piece ∈ wholePieces input, ∃ read, filter? piece = .ok read
  exists_uses : ∃ f, Uses input f
  valid : ∀ f, Uses input f → f.validate = .ok ()

theorem uses_iff : Uses input f ↔ f ∈ filtersIn (wholePieces input) := by
  rw [filtersIn, mem_distinct, List.mem_filterMap]
  simp only [filterOf?_eq_some_iff, Uses]

/-- A filter that a condition uses has a parameter only behind a transformation. -/
theorem Uses.param_eq_none (h : Uses input f) (hsimple : f.transformation = none) : f.param = none := by
  obtain ⟨piece, -, hpiece⟩ := h
  rw [Option.eq_none_iff_forall_ne_some]
  intro p hp
  obtain ⟨htransformed, -⟩ := (filter?_eq_some_iff.mp hpiece).spelt.param p hp
  rw [hsimple] at htransformed
  cases htransformed

/-- Different filters of a sensible condition share an identifier when they differ in the parameter only. -/
theorem Sensible.identifier_eq_iff (h : Sensible input) (hf : Uses input f) (hg : Uses input g) :
    f.identifier = g.identifier ∧ f ≠ g ↔ f.DifferInParam g := by
  rw [Filter.identifier_eq_iff (h.valid f hf) (h.valid g hg)]
  obtain ⟨selector, transformation, key, param⟩ := f
  obtain ⟨selector', transformation', key', param'⟩ := g
  dsimp only
  constructor
  · rintro ⟨⟨rfl, rfl, rfl⟩, hne⟩
    have hparam : param ≠ param' := fun hsame => hne (by rw [hsame])
    refine ⟨?_, rfl, hparam⟩
    cases transformation with
    | none => exact absurd ((hf.param_eq_none rfl).trans (hg.param_eq_none rfl).symm) hparam
    | some t => rfl
  · rintro ⟨-, hsame, hparam⟩
    cases hsame
    exact ⟨⟨rfl, rfl, rfl⟩, fun hsame => hparam (congrArg Filter.param hsame)⟩

/-- A sensible condition is read, or it is refused for two filters that differ in the parameter only. -/
theorem Sensible.parse_cases (h : Sensible input) :
    ((∃ c, parse input = .ok c) ∧ ∀ f g, Uses input f → Uses input g → ¬ f.DifferInParam g) ∨
      ∃ f g, parse input = .error (.ambiguous f g) ∧ Uses input f ∧ Uses input g ∧
        f.DifferInParam g := by
  have hnodup : (filtersIn (wholePieces input)).Nodup := nodup_distinct _
  have hsome : ¬ (filtersIn (wholePieces input)).isEmpty = true := by
    obtain ⟨f, hf⟩ := h.exists_uses
    rw [List.isEmpty_iff]
    exact List.ne_nil_of_mem (uses_iff.mp hf)
  have hparse := parse_of_told h.told
  rw [if_neg hsome] at hparse
  cases hclash : clash? [] (filtersIn (wholePieces input)) with
  | none =>
    rw [hclash] at hparse
    refine .inl ⟨⟨_, hparse⟩, fun f g hf hg hdiffer => ?_⟩
    obtain ⟨hsame, hne⟩ := (h.identifier_eq_iff hf hg).mpr hdiffer
    exact hne (List.inj_on_of_nodup_map (nodup_of_clash? hclash) (uses_iff.mp hf) (uses_iff.mp hg) hsame)
  | some pair =>
    obtain ⟨f, g⟩ := pair
    rw [hclash] at hparse
    obtain ⟨hsame, before, after, hsplit, hmem⟩ := of_clash?_eq_some hclash
    rw [List.nil_append] at hmem
    have hf : Uses input f := uses_iff.mpr (by rw [hsplit]; exact List.mem_append_left _ hmem)
    have hg : Uses input g := uses_iff.mpr (by rw [hsplit]; simp)
    have hne : f ≠ g := by
      rintro rfl
      rw [hsplit, List.nodup_append] at hnodup
      exact hnodup.2.2 f hmem f List.mem_cons_self rfl
    exact .inr ⟨f, g, hparse, hf, hg, (h.identifier_eq_iff hf hg).mp ⟨hsame, hne⟩⟩

/-- Valid filters share an identifier exactly when transformation, selector and key are the same. So a
condition of which nothing else is wrong is refused for a shared identifier exactly when it uses one
transformed filter with two parameters, where to have none is one of them; the error names two filters
like that. Otherwise it is read. -/
theorem shared_identifier_iff :
    (∀ f g : Filter, f.validate = .ok () → g.validate = .ok () → (f.identifier = g.identifier ↔
      f.transformation = g.transformation ∧ f.selector = g.selector ∧ f.key = g.key)) ∧
    ∀ input, Sensible input →
      ((∃ f g, parse input = .error (.ambiguous f g)) ↔
        ∃ f g, Uses input f ∧ Uses input g ∧ f.DifferInParam g) ∧
      (∀ f g, parse input = .error (.ambiguous f g) →
        Uses input f ∧ Uses input g ∧ f.DifferInParam g) ∧
      ((∃ c, parse input = .ok c) ↔ ∀ f g, Uses input f → Uses input g → ¬ f.DifferInParam g) := by
  refine ⟨fun f g hf hg => Filter.identifier_eq_iff hf hg, fun input h => ?_⟩
  rcases h.parse_cases with ⟨⟨c, hparse⟩, hnone⟩ | ⟨f, g, hparse, hf, hg, hdiffer⟩
  · rw [hparse]
    refine ⟨iff_of_false ?_ ?_, ?_, iff_of_true ⟨c, rfl⟩ hnone⟩
    · rintro ⟨f, g, hcause⟩
      cases hcause
    · rintro ⟨f, g, hf, hg, hdiffer⟩
      exact hnone f g hf hg hdiffer
    · intro f g hcause
      cases hcause
  · rw [hparse]
    refine ⟨iff_of_true ⟨f, g, rfl⟩ ⟨f, g, hf, hg, hdiffer⟩, ?_, iff_of_false ?_ ?_⟩
    · intro f' g' hcause
      cases hcause
      exact ⟨hf, hg, hdiffer⟩
    · rintro ⟨c, hc⟩
      cases hc
    · intro hnone
      exact hnone f g hf hg hdiffer

/-- An average without a parameter and one over ten, of a key with a line. -/
theorem shared_identifier_average :
    let f : Filter := ⟨"max", some "moving_average", "a_b", none⟩
    let g : Filter := { f with param := some 10 }
    let input := "moving_average(max(a_b)) > moving_average(max(a_b),10)"
    f.validate = .ok () ∧ g.validate = .ok () ∧ f.identifier = g.identifier ∧ Sensible input ∧
      ∃ f g, parse input = .error (.ambiguous f g) := by
  intro f g input
  have hpieces : wholePieces input =
      ["moving_average(max(a_b))".toList, "moving_average(max(a_b),10)".toList] := by decide
  have hf : filter? "moving_average(max(a_b))".toList = .ok (some f) := rfl
  have hg : filter? "moving_average(max(a_b),10)".toList = .ok (some g) := rfl
  have huses : ∀ d, Uses input d ↔ d = f ∨ d = g := by
    intro d
    simp only [Uses, hpieces, List.mem_cons, List.not_mem_nil, or_false, exists_eq_or_imp, hf, hg,
      exists_eq_left, Except.ok.injEq, Option.some.injEq, eq_comm]
  have hsensible : Sensible input := by
    refine ⟨fun piece hpiece => ?_, ⟨f, (huses f).mpr (.inl rfl)⟩, fun d hd => ?_⟩
    · rw [hpieces] at hpiece
      rcases List.mem_pair.mp hpiece with rfl | rfl
      · exact ⟨_, hf⟩
      · exact ⟨_, hg⟩
    · rcases (huses d).mp hd with rfl | rfl
      · rfl
      · rfl
  have hdiffer : f.DifferInParam g := ⟨rfl, rfl, by decide⟩
  obtain ⟨hidentifiers, hconditions⟩ := shared_identifier_iff
  exact ⟨rfl, rfl, (hidentifiers f g rfl rfl).mpr ⟨rfl, rfl, rfl⟩, hsensible,
    (hconditions input hsensible).1.mpr
      ⟨f, g, (huses f).mpr (.inl rfl), (huses g).mpr (.inr rfl), hdiffer⟩⟩

end Condition

end Vigil
