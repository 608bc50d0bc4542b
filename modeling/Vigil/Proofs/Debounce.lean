import Vigil.Proofs.Runner.Contained

/-!
# Which point decides an evaluation

An evaluation goes through the last points of every series side by side, from the oldest on, and the
first place at which the condition does not hold, or has no value, decides. So it sees nothing of a
series but its last points, and it looks only at points that are there.
-/

namespace Vigil

theorem Named.get?_map {α β : Type} (f : α → β) (m : Named α) (name : String) :
    (m.map f).get? name = (m.get? name).map f := by
  rw [get?, get?, map, List.find?_map, Option.map_map, Option.map_map]
  rfl

namespace Query

theorem getElem?_lastOf {α : Type} (limit : Nat) (list : List α) (i : Nat) :
    (lastOf limit list)[i]? = list[list.length - limit + i]? :=
  List.getElem?_drop

theorem getLast?_lastOf {α : Type} {limit : Nat} (h : 1 ≤ limit) (list : List α) :
    (lastOf limit list).getLast? = list.getLast? := by
  cases list with
  | nil => rw [lastOf, List.drop_nil]
  | cons a rest => exact List.getLast?_drop.trans (if_neg (by simp only [List.length_cons]; omega))

theorem lastOf_lastOf {α : Type} (limit : Nat) (list : List α) :
    lastOf limit (lastOf limit list) = lastOf limit list := by
  have hnone : (lastOf limit list).length - limit = 0 := by
    rw [length_lastOf]
    omega
  rw [lastOf, hnone, List.drop_zero]

end Query

namespace Batch

/-- The last points of every series, as many as `limit`. -/
def recent (batch : Batch) (limit : Nat) : Batch :=
  batch.map (Query.lastOf limit)

def row (batch : Batch) (i : Nat) (name : String) : Option Float :=
  (batch.get? name).bind fun series => series[i]?.map Point.value

theorem values_recent (batch : Batch) (limit : Nat) :
    (batch.recent limit).values = batch.values.map (Query.lastOf limit) := by
  rw [recent, Named.map, Named.values, Named.values, List.map_map, List.map_map]
  rfl

theorem recent_recent (batch : Batch) (limit : Nat) :
    (batch.recent limit).recent limit = batch.recent limit := by
  simp only [recent, Named.map, List.map_map, Function.comp_def, Query.lastOf_lastOf]

end Batch

namespace Valuation

variable {e : Expression} {batch other : Batch} {limit i : Nat} {name : String} {series : Series}

/-- The truth value of the condition at a place among the last points. -/
def verdict (e : Expression) (batch : Batch) (limit i : Nat) : Except Expression.EvaluationError Bool :=
  e.evaluateBool ((batch.recent limit).row i)

theorem lookup_eq_row (batch : Batch) (limit i : Nat) :
    lookup batch limit i = (batch.recent limit).row i := by
  funext name
  rw [lookup, Batch.row, Batch.recent, Named.get?_map]
  cases batch.get? name with
  | none => rfl
  | some series =>
    rw [Option.map_some, Option.bind_some, Query.getElem?_lastOf]
    show (series[series.length - limit + i]? >>= fun p => some p.value) = _
    cases series[series.length - limit + i]? <;> rfl

/-- Places at which the condition holds do not decide. -/
theorem holdsAt_append {before rest : List Nat} (h : ∀ j ∈ before, verdict e batch limit j = .ok true) :
    holdsAt e batch limit (before ++ rest) = holdsAt e batch limit rest := by
  induction before with
  | nil => rfl
  | cons j before ih =>
    have hj : e.evaluateBool (lookup batch limit j) = .ok true := by
      rw [lookup_eq_row]
      exact h j List.mem_cons_self
    rw [List.cons_append, holdsAt, hj]
    exact ih fun k hk => h k (List.mem_cons_of_mem j hk)

/-- The first place at which the condition does not hold gives the result. -/
theorem holdsAt_of_first (hi : i < limit) (hbefore : ∀ j < i, verdict e batch limit j = .ok true)
    (h : verdict e batch limit i ≠ .ok true) :
    holdsAt e batch limit (List.range limit) = verdict e batch limit i := by
  obtain ⟨k, rfl⟩ := Nat.exists_eq_add_of_lt hi
  rw [Nat.add_assoc, List.range_add, List.range_succ_eq_map, List.map_cons, Nat.add_zero,
    ← Nat.add_assoc, holdsAt_append fun j hj => hbefore j (List.mem_range.mp hj), holdsAt, lookup_eq_row]
  change verdict e batch _ i ≠ _ at h
  show (verdict e batch _ i >>= _) = _
  cases hi : verdict e batch (i + k + 1) i with
  | error cause => rfl
  | ok holds =>
    cases holds with
    | false => rfl
    | true => exact absurd hi h

theorem holdsAt_throughout (h : ∀ j < limit, verdict e batch limit j = .ok true) :
    holdsAt e batch limit (List.range limit) = .ok true := by
  rw [← List.append_nil (List.range limit), holdsAt_append fun j hj => h j (List.mem_range.mp hj)]
  rfl

/-- The length of the shortest series, or zero without series. -/
def shortest (batch : Batch) : Nat :=
  (batch.values.map List.length).min?.getD 0

theorem available_eq_shortest (batch : Batch) : available batch = shortest batch := by
  unfold available shortest
  cases batch.values with
  | nil => rfl
  | cons first rest => rw [List.map_cons, List.min?_cons']; rfl

theorem le_length_of_le_shortest (h : limit ≤ shortest batch) (hname : batch.get? name = some series) :
    limit ≤ series.length := by
  rw [← available_eq_shortest] at h
  exact h.trans (available_le_length (List.mem_map_of_mem (Named.get?_eq_some_iff.mp hname)))

/-- Every name of the batch is reported with the last value of its series. -/
theorem get?_lastValues (batch : Batch) (name : String) :
    (lastValues batch).get? name =
      (batch.get? name).bind fun series => series.getLast?.map Point.value := by
  refine Option.ext fun v => ?_
  rw [Named.get?_eq_some_iff, lastValues, (Named.perm_ofList ?names).mem_iff, List.mem_filterMap,
    Option.bind_eq_some_iff]
  case names =>
    refine List.pairwise_map.mpr (List.pairwise_filterMap.mpr (batch.ascending.imp ?_))
    rintro ⟨a, first⟩ ⟨b, second⟩ hlt e he f hf heq
    obtain ⟨p, -, rfl⟩ := Option.map_eq_some_iff.mp he
    obtain ⟨q, -, rfl⟩ := Option.map_eq_some_iff.mp hf
    exact String.lt_irrefl _ (show a < a from (show a = b from heq) ▸ hlt)
  constructor
  · rintro ⟨⟨key, series⟩, hmem, hlast⟩
    obtain ⟨p, hp, heq⟩ := Option.map_eq_some_iff.mp hlast
    cases heq
    exact ⟨series, Named.get?_eq_some_iff.mpr hmem, by rw [hp]; rfl⟩
  · rintro ⟨series, hseries, hlast⟩
    obtain ⟨p, hp, rfl⟩ := Option.map_eq_some_iff.mp hlast
    exact ⟨(name, series), Named.get?_eq_some_iff.mp hseries, Option.map_eq_some_iff.mpr ⟨p, hp, rfl⟩⟩

theorem lastValues_recent (h : 1 ≤ limit) (batch : Batch) :
    lastValues (batch.recent limit) = lastValues batch := by
  simp only [lastValues, Batch.recent, Named.map, List.filterMap_map, Function.comp_def,
    Query.getLast?_lastOf h]

theorem holdsAt_congr (h : ∀ j, lookup other limit j = lookup batch limit j) (places : List Nat) :
    holdsAt e other limit places = holdsAt e batch limit places := by
  induction places with
  | nil => rfl
  | cons j rest ih => rw [holdsAt, holdsAt, h j, ih]

theorem available_recent (batch : Batch) (limit : Nat) :
    available (batch.recent limit) = min limit (available batch) := by
  have hfold : ∀ (lengths : List Nat) (n : Nat),
      (lengths.map (min limit)).foldl min (min limit n) = min limit (lengths.foldl min n) := by
    intro lengths
    induction lengths with
    | nil => exact fun n => rfl
    | cons l rest ih =>
      intro n
      rw [List.map_cons, List.foldl_cons, List.foldl_cons, ← ih]
      congr 1
      omega
  have hlengths : (batch.recent limit).values.map List.length =
      (batch.values.map List.length).map (min limit) := by
    rw [Batch.values_recent, List.map_map, List.map_map]
    exact List.map_congr_left fun series _ => Query.length_lastOf limit series
  unfold available
  rw [hlengths]
  cases batch.values.map List.length with
  | nil => exact (Nat.min_zero limit).symm
  | cons n rest => exact hfold rest n

/-- An evaluation sees the last points of the series alone. -/
theorem ofBatch_recent (h : 1 ≤ limit) : ofBatch e (batch.recent limit) limit = ofBatch e batch limit := by
  have hlookup : ∀ j, lookup (batch.recent limit) limit j = lookup batch limit j := by
    intro j
    rw [lookup_eq_row, lookup_eq_row, Batch.recent_recent]
  unfold ofBatch
  rw [holdsAt_congr hlookup, lastValues_recent h, available_recent]
  by_cases hfew : available batch < limit
  · rw [Nat.min_eq_right hfew.le]
  · rw [Nat.min_eq_left (Nat.not_lt.mp hfew), if_neg (Nat.lt_irrefl limit), if_neg hfew]

theorem ofBatch_of_long (hlimit : 1 ≤ limit) (hlong : limit ≤ shortest batch) :
    ofBatch e batch limit =
      match holdsAt e batch limit (List.range limit) with
      | .error cause => .error (.evaluation cause)
      | .ok false => .ok quiet
      | .ok true => .ok ⟨true, lastValues batch⟩ := by
  have henough : ¬ available batch < limit := by
    rw [available_eq_shortest]
    omega
  exact (if_neg (by omega)).trans (if_neg henough)

theorem ofBatch_eq_insufficientData_iff (hlimit : 1 ≤ limit) (needed found : Nat) :
    ofBatch e batch limit = .error (.insufficientData needed found) ↔
      shortest batch < limit ∧ needed = limit ∧ found = shortest batch := by
  by_cases hfew : shortest batch < limit
  · rw [ofBatch, if_neg (by omega), available_eq_shortest, if_pos hfew]
    constructor
    · intro h
      cases h
      exact ⟨hfew, rfl, rfl⟩
    · rintro ⟨-, rfl, rfl⟩
      rfl
  · rw [ofBatch_of_long hlimit (Nat.not_lt.mp hfew)]
    refine ⟨fun h => ?_, fun h => absurd h.1 hfew⟩
    split at h <;> cases h

theorem exists_row (hlong : limit ≤ shortest batch) (hname : batch.get? name = some series)
    (hi : i < limit) :
    ∃ p, series[series.length - limit + i]? = some p ∧
      (batch.recent limit).row i name = some p.value := by
  have hlength := le_length_of_le_shortest hlong hname
  have hplace : series.length - limit + i < series.length := by omega
  refine ⟨series[series.length - limit + i], List.getElem?_eq_getElem hplace, ?_⟩
  rw [Batch.row, Batch.recent, Named.get?_map, hname, Option.map_some, Option.bind_some,
    Query.getElem?_lastOf, List.getElem?_eq_getElem hplace]
  rfl

/-- An evaluation finds too little data exactly when the shortest series is too short, whatever the
condition is. Otherwise the first of the last places at which the condition is not true decides, and
every series has a point at all of these; without such a place the alarm fires with the last value of
every series. Batches with the same last points give the same result. -/
theorem first_place_decides (e : Expression) (batch : Batch) (limit : Nat) (hlimit : 1 ≤ limit) :
    (∀ needed found, ofBatch e batch limit = .error (.insufficientData needed found) ↔
      shortest batch < limit ∧ needed = limit ∧ found = shortest batch) ∧
    (limit ≤ shortest batch →
      (∀ name series, batch.get? name = some series → limit ≤ series.length ∧
        ∀ i < limit, ∃ p, series[series.length - limit + i]? = some p ∧
          (batch.recent limit).row i name = some p.value) ∧
      (∀ i < limit, (∀ j < i, verdict e batch limit j = .ok true) →
        (∀ cause, verdict e batch limit i = .error cause →
          ofBatch e batch limit = .error (.evaluation cause)) ∧
        (verdict e batch limit i = .ok false → ofBatch e batch limit = .ok ⟨false, .empty⟩)) ∧
      ((∀ i < limit, verdict e batch limit i = .ok true) →
        ∃ values, ofBatch e batch limit = .ok ⟨true, values⟩ ∧
          ∀ name, values.get? name =
            (batch.get? name).bind fun series => series.getLast?.map Point.value)) ∧
    ∀ other : Batch, other.recent limit = batch.recent limit →
      ofBatch e other limit = ofBatch e batch limit := by
  refine ⟨ofBatch_eq_insufficientData_iff hlimit, fun hlong => ⟨?_, ?_, ?_⟩, ?_⟩
  · intro name series hname
    exact ⟨le_length_of_le_shortest hlong hname, fun i hi => exists_row hlong hname hi⟩
  · intro i hi hbefore
    refine ⟨fun cause hcause => ?_, fun hfalse => ?_⟩
    · have hdecides := holdsAt_of_first hi hbefore (by simp [hcause])
      rw [ofBatch_of_long hlimit hlong, hdecides, hcause]
    · have hdecides := holdsAt_of_first hi hbefore (by simp [hfalse])
      rw [ofBatch_of_long hlimit hlong, hdecides, hfalse]
      rfl
  · intro hall
    refine ⟨lastValues batch, ?_, get?_lastValues batch⟩
    rw [ofBatch_of_long hlimit hlong, holdsAt_throughout hall]
  · intro other hrecent
    rw [← ofBatch_recent hlimit, hrecent, ofBatch_recent hlimit]

open Query (second)

/-- Two series of two and three points, the second with a given oldest point. -/
def twoSeries (oldest : Float) : Batch :=
  .ofList [("a", [⟨second 60, 1⟩, ⟨second 120, 2⟩]),
    ("b", [⟨second 0, oldest⟩, ⟨second 60, 3⟩, ⟨second 120, 4⟩])]

/-- Of the two series the last two points count: three are too many, an unknown name has no value at
the first of them, and a condition that holds at both fires with the two last values. -/
theorem two_places_decide :
    ofBatch ⟨"c", .variable "c"⟩ (twoSeries 9) 3 = .error (.insufficientData 3 2) ∧
      ofBatch ⟨"c", .variable "c"⟩ (twoSeries 9) 2 =
        .error (.evaluation (.unknownVariable "c")) ∧
      ofBatch ⟨"false", .truth false⟩ (twoSeries 9) 2 = .ok ⟨false, .empty⟩ ∧
      (∃ values, ofBatch ⟨"true", .truth true⟩ (twoSeries 9) 2 = .ok ⟨true, values⟩ ∧
        values.get? "a" = some 2 ∧ values.get? "b" = some 4) ∧
      ofBatch ⟨"a>b", .apply .greater (.variable "a") (.variable "b")⟩ (twoSeries 8) 2 =
        ofBatch ⟨"a>b", .apply .greater (.variable "a") (.variable "b")⟩ (twoSeries 9) 2 := by
  have hlong : 2 ≤ shortest (twoSeries 9) := by decide
  have hdecides := fun e => (first_place_decides e (twoSeries 9) 2 (by decide)).2
  refine ⟨?_, ?_, ?_, ?_, ?_⟩
  · exact ((first_place_decides _ (twoSeries 9) 3 (by decide)).1 3 2).mpr (by decide)
  · obtain ⟨-, hfirst, -⟩ := (hdecides ⟨"c", .variable "c"⟩).1 hlong
    exact (hfirst 0 (by decide) (by simp)).1 _ rfl
  · obtain ⟨-, hfirst, -⟩ := (hdecides ⟨"false", .truth false⟩).1 hlong
    exact (hfirst 0 (by decide) (by simp)).2 rfl
  · obtain ⟨-, -, hfires⟩ := (hdecides ⟨"true", .truth true⟩).1 hlong
    obtain ⟨values, hvalues, hlast⟩ := hfires fun _ _ => rfl
    exact ⟨values, hvalues, hlast "a", hlast "b"⟩
  · exact (hdecides _).2 (twoSeries 8) rfl

end Valuation

end Vigil
