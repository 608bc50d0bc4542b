import Vigil.Proofs.Condition.Tokens

/-!
# Rewriting a condition

A condition of filters, decimals and operators turns into an expression in which each filter, and
nothing else, has given way to its identifier, and each identifier is one token. It does not matter
how many filters there are, or how their texts lie inside each other.
-/

namespace Vigil.Condition

open Vigil.Expression

/-- A name stands in a text as a token of its own, between the tokens of what surrounds it. -/
def StandsAlone (text : String) (before : List Char) (name : String) (after : List Char) : Prop :=
  text.toList = before ++ name.toList ++ after ∧
    lexemes text = do
      let earlier ← lexemesFrom 0 before
      let later ← lexemesFrom (byteLength (before ++ name.toList)) after
      return earlier ++ ⟨.name name, byteLength before⟩ :: later

theorem head_trail (marks : List Char) (pieces : List (List Char)) :
    ∀ c ∈ (trail marks pieces).head?, c ∈ marks := by
  intro c hc
  cases marks with
  | nil => cases hc
  | cons mark marks =>
    cases pieces with
    | nil => cases hc
    | cons piece pieces =>
      rw [← Option.some.inj hc]
      exact List.mem_cons_self

/-- A name at the head of a text is one token when a mark or nothing follows it. -/
theorem lexemesFrom_isName {name : String} {rest : List Char} (position : Nat)
    (hname : Text.isName name.toList = true)
    (hrest : ∀ d ∈ rest.head?, isOperatorChar d = true) :
    lexemesFrom position (name.toList ++ rest) =
      (lexemesFrom (position + byteLength name.toList) rest).map
        (⟨.name name, position⟩ :: ·) := by
  obtain ⟨c, word, hcons, hfirst, hword⟩ := Text.exists_cons_of_isName hname
  obtain ⟨hblank, -, -⟩ := wordChar_facts (Text.isAsciiWordChar_of_first hfirst)
  obtain ⟨hnumber, hstart⟩ := name_start hfirst
  have hread := lexemesFrom_name position hblank hnumber hstart
    (fun d hd => (wordChar_facts (hword d hd)).2.2)
    (fun d hd => (separates_of_mark (hrest d hd)).continues)
  rwa [← hcons, String.ofList_toList] at hread

theorem not_mark_of_head_isName {cs rest : List Char} (h : Text.isName cs = true) :
    ∀ d ∈ (cs ++ rest).head?, isOperatorChar d = false := by
  obtain ⟨c, word, rfl, hfirst, -⟩ := Text.exists_cons_of_isName h
  intro d hd
  rw [← Option.some.inj hd]
  exact (wordChar_facts (Text.isAsciiWordChar_of_first hfirst)).2.1

/-- A name between pieces and marks stands alone. -/
theorem standsAlone_weave {marks : List Char} {name : String} (before after : List Part)
    (hmarks : ∀ c ∈ marks, isOperatorChar c = true) (hlength : before.length ≤ marks.length)
    (hname : Text.isName name.toList = true) :
    StandsAlone
      (String.ofList (weave (before.map Part.image ++ name.toList :: after.map Part.image) marks))
      (lead (before.map Part.image) marks) name
      (trail (marks.drop before.length) (after.map Part.image)) := by
  have htext := weave_append (before.map Part.image) (after.map Part.image) name.toList marks
    (by rw [List.length_map]; exact hlength)
  rw [List.length_map] at htext
  have hsplit : Splits 0 (lead (before.map Part.image) marks)
      (name.toList ++ trail (marks.drop before.length) (after.map Part.image)) := by
    apply splits_segments 0 (not_mark_of_head_isName hname)
    intro s hs
    obtain ⟨hpiece, hmark⟩ := List.of_mem_zip hs
    obtain ⟨part, -, himage⟩ := List.mem_map.mp hpiece
    rw [← himage]
    exact ⟨image_cases part, hmarks _ hmark⟩
  have hafter : ∀ d ∈ (trail (marks.drop before.length) (after.map Part.image)).head?,
      isOperatorChar d = true :=
    fun d hd => hmarks d (List.mem_of_mem_drop (head_trail _ _ d hd))
  unfold Splits at hsplit
  unfold StandsAlone lexemes
  rw [String.toList_ofList, htext]
  refine ⟨rfl, ?_⟩
  rw [List.append_assoc, hsplit, lexemesFrom_isName _ hname hafter, Nat.zero_add, byteLength_append]
  cases lexemesFrom 0 (lead (before.map Part.image) marks) with
  | error cause => rfl
  | ok earlier =>
    cases lexemesFrom (byteLength (lead (before.map Part.image) marks) + byteLength name.toList)
        (trail (marks.drop before.length) (after.map Part.image)) <;> rfl

/-- Rewriting replaces the filters of a condition in their places, and nothing else. -/
theorem parse_rewrites {input : String} {parts : List Part}
    (hpieces : pieces (Text.strip input).toList = parts.map Part.source)
    (hsome : parts.filterMap Part.filter? ≠ [])
    (hidentifiers : ∀ f ∈ parts.filterMap Part.filter?, ∀ g ∈ parts.filterMap Part.filter?,
      f.identifier = g.identifier → f = g) :
    ∃ c, parse input = .ok c ∧
      c.filters = (parts.filterMap Part.filter?).eraseDups ∧
      c.dropped = [] ∧
      (Text.strip input).toList =
        weave (parts.map Part.source) (marks (Text.strip input).toList) ∧
      c.expression.toList = weave (parts.map Part.image) (marks (Text.strip input).toList) ∧
      ∀ before f h after, parts = before ++ .filter f h :: after →
        StandsAlone c.expression
          (lead (before.map Part.image) (marks (Text.strip input).toList)) f.identifier
          (trail ((marks (Text.strip input).toList).drop before.length)
            (after.map Part.image)) := by
  refine ⟨_, parse_of_parts hpieces hsome hidentifiers, rfl, rfl, ?_, String.toList_ofList, ?_⟩
  · rw [← hpieces, weave_pieces]
  · intro before f written after hparts
    have hlength : before.length ≤ (marks (Text.strip input).toList).length := by
      have hcount := length_pieces (Text.strip input).toList
      rw [hpieces, List.length_map, hparts, List.length_append, List.length_cons] at hcount
      omega
    have halone := standsAlone_weave before after
      (fun c hc => isOperatorChar_of_mem_marks hc) hlength written.isName_identifier
    rw [hparts, List.map_append, List.map_cons]
    exact halone

/-- One filter inside another, blanks, and a decimal. -/
theorem parse_nested_filters :
    ∃ c, parse "derivative(max(t),10) > max(t) + 1.5e3" = .ok c ∧
      c.filters = [⟨"max", some "derivative", "t", some 10⟩, ⟨"max", none, "t", none⟩] ∧
      c.dropped = [] ∧ c.expression = "derivative_max_t>max_t+1.5e3" := by
  have hlong : Filter.Written ⟨"max", some "derivative", "t", some 10⟩ :=
    ⟨by decide, by rintro t ⟨⟩; decide, by decide, by rintro p ⟨⟩; decide⟩
  have hshort : Filter.Written ⟨"max", none, "t", none⟩ :=
    ⟨by decide, by rintro t ⟨⟩, by decide, by rintro p ⟨⟩⟩
  let number : Literal :=
    { whole := ['1'], fraction := some ['5'], exponent := some ('e', ['3'])
      whole_ne_nil := List.cons_ne_nil _ _
      whole_digits := List.all_eq_true.mp rfl
      fraction_digits := by
        rintro ds ⟨⟩
        exact List.all_eq_true.mp rfl
      exponent_digits := by
        rintro e ⟨⟩
        exact ⟨.inl rfl, List.cons_ne_nil _ _, List.all_eq_true.mp rfl⟩ }
  have hpieces : pieces (Text.strip "derivative(max(t),10) > max(t) + 1.5e3").toList =
      [.filter _ hlong, .filter _ hshort, .literal number].map Part.source := rfl
  have hidentifiers :
      ∀ f ∈ ([⟨"max", some "derivative", "t", some 10⟩, ⟨"max", none, "t", none⟩] : List Filter),
      ∀ g ∈ ([⟨"max", some "derivative", "t", some 10⟩, ⟨"max", none, "t", none⟩] : List Filter),
        f.identifier = g.identifier → f = g := by decide
  obtain ⟨c, hparse, hfilters, hdropped, -, hexpression, -⟩ :=
    parse_rewrites hpieces (List.cons_ne_nil _ _) hidentifiers
  exact ⟨c, hparse, hfilters, hdropped, String.toList_inj.mp hexpression⟩

end Vigil.Condition
