import Vigil.Proofs.Results
import Vigil.Proofs.Series.Windows
import Vigil.Runner
import Vigil.Store.Memory
import Vigil.Store.Tables

/-!
# The points behind an answer

Every store answers a query in one way: it looks up the points of each filter and makes a trimmed
series of them. What a store is said to hold for a filter is the whole series, before it is trimmed.
-/

namespace Vigil

/-- Stores that answer a query filter by filter, each from the points that they keep for it. -/
class KeepsPoints (σ : Type) [Repository σ] where
  /-- The points that a query reads for a filter. -/
  points : σ → Query → Filter → Except AlarmError (List Point)
  query_eq : ∀ store q, Repository.query store q = q.filters.mapM fun f => do
    let raw ← points store q f
    (q.answer f raw).mapError .condition

instance : KeepsPoints Memory where
  points m q f := .ok (m.raw q.source f.key)
  query_eq _ _ := rfl

instance : KeepsPoints Tables where
  points t q f := Tables.lift (t.raw q.source f.key (q.rawStart f) q.stop)
  query_eq _ _ := rfl

namespace KeepsPoints

variable {σ : Type} [Repository σ] [KeepsPoints σ] {store : σ} {q : Query} {f : Filter} {series : Series}

/-- The series of a filter in a store, whatever the limit. -/
def wholeSeries (store : σ) (q : Query) (f : Filter) : Except AlarmError Series := do
  let raw ← points store q f
  (q.unlimited f raw).mapError .condition

theorem wholeSeries_eq_ok_iff : wholeSeries store q f = .ok series ↔
    ∃ raw, points store q f = .ok raw ∧ q.unlimited f raw = .ok series := by
  unfold wholeSeries
  rw [bind_eq_ok_iff]
  refine exists_congr fun raw => and_congr_right fun _ => ?_
  cases q.unlimited f raw <;> simp [Except.mapError]

/-- An answer has the last points of every series. -/
theorem query_of_wholeSeries {all : List Series}
    (h : List.Forall₂ (fun f series => wholeSeries store q f = .ok series) q.filters all) :
    Repository.query store q = .ok (all.map (Query.lastOf q.limit)) := by
  rw [query_eq, mapM_eq_ok_iff]
  refine List.forall₂_map_right_iff.mpr (h.imp ?_)
  intro f series hseries
  obtain ⟨raw, hraw, hunlimited⟩ := wholeSeries_eq_ok_iff.mp hseries
  refine bind_eq_ok_iff.mpr ⟨raw, hraw, ?_⟩
  rw [Query.answer, hunlimited]
  rfl

end KeepsPoints

end Vigil
