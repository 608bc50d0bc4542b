import Vigil.Proofs.Condition.Reading
import Vigil.Proofs.Results

/-!
# What is found in a condition

Every piece of a condition is told apart on its own. The filters of a condition are those that its
pieces spell, and what is dropped are the other pieces that no number reads.
-/

namespace Vigil.Condition

def filterOf? (piece : List Char) : Option Filter :=
  match filter? piece with
  | .ok read => read
  | .error _ => none

/-- What a piece is, be its parameter readable or not. -/
def kindOf (piece : List Char) : Piece :=
  match filterOf? piece with
  | some f => .filter f
  | none =>
    if (Decimal.read? (String.ofList piece)).isSome then .number else .dropped (String.ofList piece)

def Piece.filter? : Piece → Option Filter
  | .filter f => some f
  | _ => none

def Piece.dropped? : Piece → Option String
  | .dropped text => some text
  | _ => none

/-- The filters of a text, each where it first appears. -/
def filtersIn (pieces : List (List Char)) : List Filter :=
  distinct (pieces.filterMap filterOf?)

variable {input : String} {c : Condition} {piece : List Char} {f : Filter}

theorem filterOf?_eq_some_iff : filterOf? piece = some f ↔ filter? piece = .ok (some f) := by
  unfold filterOf?
  split
  · rename_i read hread
    rw [hread, Except.ok.injEq]
  · rename_i cause hread
    rw [hread]
    exact iff_of_false nofun nofun

theorem classify_eq_ok_iff {p : Piece} :
    classify piece = .ok p ↔ (∃ read, filter? piece = .ok read) ∧ p = kindOf piece := by
  unfold classify kindOf filterOf?
  cases filter? piece with
  | error cause => exact iff_of_false nofun (fun h => nomatch h.1)
  | ok read =>
    rw [and_iff_right ⟨read, rfl⟩]
    constructor
    · intro h
      cases read <;> exact (Except.ok.inj h).symm
    · rintro rfl
      cases read <;> rfl

theorem mapM_classify_eq_ok_iff {pieces : List (List Char)} {found : List Piece} :
    pieces.mapM classify = .ok found ↔
      (∀ piece ∈ pieces, ∃ read, filter? piece = .ok read) ∧ found = pieces.map kindOf := by
  rw [mapM_eq_ok_iff]
  simp only [classify_eq_ok_iff]
  rw [List.forall₂_and_left, ← List.forall₂_eq_eq_eq, List.forall₂_map_right_iff]
  exact and_congr_right' ⟨List.Forall₂.flip, List.Forall₂.flip⟩

theorem filter?_kindOf (piece : List Char) : (kindOf piece).filter? = filterOf? piece := by
  unfold kindOf
  split
  · rename_i f hf
    exact hf.symm
  · rename_i hnone
    rw [hnone]
    split <;> rfl

def wholePieces (input : String) : List (List Char) :=
  (pieces (Text.strip input).toList).filter (!·.isEmpty)

theorem mem_wholePieces : piece ∈ wholePieces input ↔
    piece ∈ pieces (Text.strip input).toList ∧ piece ≠ [] := by
  rw [wholePieces, List.mem_filter, Bool.not_eq_true', List.isEmpty_eq_false_iff]

theorem filter?_nil : filter? [] = .ok none := rfl

theorem told_wholePieces : (∀ piece ∈ wholePieces input, ∃ read, filter? piece = .ok read) ↔
    ∀ piece ∈ pieces (Text.strip input).toList, ∃ read, filter? piece = .ok read := by
  constructor
  · intro h piece hpiece
    cases piece with
    | nil => exact ⟨none, filter?_nil⟩
    | cons d piece => exact h _ (mem_wholePieces.mpr ⟨hpiece, List.cons_ne_nil d piece⟩)
  · exact fun h piece hpiece => h piece (mem_wholePieces.mp hpiece).1

theorem filterOf?_nil : filterOf? [] = none := rfl

theorem filtersIn_wholePieces (input : String) :
    filtersIn (wholePieces input) = filtersIn (pieces (Text.strip input).toList) := by
  unfold filtersIn wholePieces
  rw [List.filterMap_filter]
  congr 2
  funext piece
  cases piece with
  | nil => exact filterOf?_nil.symm
  | cons d piece => rfl

theorem distinct_filters_kindOf (pieces : List (List Char)) :
    distinct ((pieces.map kindOf).filterMap Piece.filter?) = filtersIn pieces := by
  rw [filtersIn, List.filterMap_map]
  congr 2
  funext piece
  exact filter?_kindOf piece

/-- What is made of the pieces once they are told. -/
theorem parse_of_told (htold : ∀ piece ∈ wholePieces input, ∃ read, filter? piece = .ok read) :
    parse input =
      (if (filtersIn (wholePieces input)).isEmpty then .error .noFilters
      else match clash? [] (filtersIn (wholePieces input)) with
      | some (first, second) => .error (.ambiguous first second)
      | none => .ok
        { filters := filtersIn (wholePieces input)
          expression := substitute (longestFirst (filtersIn (wholePieces input))) (Text.strip input)
          dropped := ((wholePieces input).map kindOf).filterMap Piece.dropped? }) := by
  obtain ⟨found, hfound⟩ : ∃ found, (wholePieces input).mapM classify = .ok found :=
    ⟨_, mapM_classify_eq_ok_iff.mpr ⟨htold, rfl⟩⟩
  rw [← distinct_filters_kindOf, ← (mapM_classify_eq_ok_iff.mp hfound).2]
  rw [wholePieces] at hfound
  rw [parse, hfound]
  rfl

/-- A condition is read when every piece can be told, some are filters, and no two filters share an
identifier. -/
theorem parse_eq_ok_iff : parse input = .ok c ↔
    (∀ piece ∈ wholePieces input, ∃ read, filter? piece = .ok read) ∧
      c.filters ≠ [] ∧ clash? [] c.filters = none ∧ c.filters = filtersIn (wholePieces input) ∧
      c.expression = substitute (longestFirst c.filters) (Text.strip input) ∧
      c.dropped = ((wholePieces input).map kindOf).filterMap Piece.dropped? := by
  obtain ⟨filters, expression, dropped⟩ := c
  dsimp only
  constructor
  · intro h
    obtain ⟨found, hfound, -⟩ := bind_eq_ok_iff.mp h
    have htold : ∀ piece ∈ wholePieces input, ∃ read, filter? piece = .ok read :=
      (mapM_classify_eq_ok_iff.mp hfound).1
    rw [parse_of_told htold] at h
    generalize filtersIn (wholePieces input) = found at h ⊢
    split at h
    · cases h
    · rename_i hsome
      split at h
      · cases h
      · rename_i hclash
        injection h with h
        injection h with hfound hexpression hdropped
        rw [← hfound, ← hexpression, ← hdropped]
        exact ⟨htold, fun hnil => hsome (List.isEmpty_iff.mpr hnil), hclash, rfl, rfl, rfl⟩
  · rintro ⟨htold, hsome, hclash, hfound, hexpression, hdropped⟩
    rw [parse_of_told htold, ← hfound, if_neg (fun hnil => hsome (List.isEmpty_iff.mp hnil)), hclash,
      hexpression, hdropped]

theorem mem_filters_iff (h : parse input = .ok c) :
    f ∈ c.filters ↔ ∃ piece ∈ wholePieces input, filter? piece = .ok (some f) := by
  obtain ⟨-, -, -, hfilters, -⟩ := parse_eq_ok_iff.mp h
  rw [hfilters, filtersIn, mem_distinct, List.mem_filterMap]
  simp only [filterOf?_eq_some_iff]

/-- A piece that is neither a filter nor a number is dropped. -/
theorem mem_dropped_of_piece (h : parse input = .ok c) (hpiece : piece ∈ wholePieces input)
    (hfilter : filter? piece = .ok none) (hnumber : Decimal.read? (String.ofList piece) = none) :
    String.ofList piece ∈ c.dropped := by
  obtain ⟨-, -, -, -, -, hdropped⟩ := parse_eq_ok_iff.mp h
  rw [hdropped]
  refine List.mem_filterMap.mpr ⟨_, List.mem_map_of_mem hpiece, ?_⟩
  rw [kindOf, filterOf?, hfilter, hnumber]
  rfl

end Vigil.Condition
