import Vigil.Alarm.Document

/-!
# Conditions read back

The condition of an alarm is read back from its JSON form, as long as its trigger and the parameters of
its filters fit into 64 bits.
-/

namespace Vigil

/-- The parameter of a filter is a whole number of 64 bits with a sign. -/
def Filter.Fits (f : Filter) : Prop :=
  ∀ p ∈ f.param, -9223372036854775808 ≤ p ∧ p ≤ 9223372036854775807

/-- What a condition counts fits into 64 bits. -/
structure Rule.Fits (r : Rule) : Prop where
  filters : ∀ f ∈ r.filters, f.Fits
  trigger : r.trigger < countLimit

theorem optional?_paramOfJson? {p : Int}
    (h : -9223372036854775808 ≤ p ∧ p ≤ 9223372036854775807) :
    Json.optional? paramOfJson? (.int p) = some (some p) :=
  congrArg (Option.map some) (if_pos h)

theorem Filter.ofJson?_toJson {f : Filter} (h : f.Fits) : Filter.ofJson? f.toJson = some f := by
  obtain ⟨selector, transformation, key, param⟩ := f
  cases param with
  | none =>
    cases transformation with
    | none => rfl
    | some t => rfl
  | some p =>
    have hp := optional?_paramOfJson? (h p rfl)
    cases transformation with
    | none =>
      show (Json.optional? paramOfJson? (.int p)).bind (fun param => some _) = _
      rw [hp]
      rfl
    | some t =>
      show (Json.optional? paramOfJson? (.int p)).bind (fun param => some _) = _
      rw [hp]
      rfl

theorem list?_array {α : Type} {read : Json → Option α} {write : α → Json} {as : List α}
    (h : ∀ a ∈ as, read (write a) = some a) :
    Json.list? read (.array (as.map write)) = some as := by
  show (as.map write).mapM read = some as
  induction as with
  | nil => rfl
  | cons a as ih =>
    rw [List.map_cons, List.mapM_cons, h a List.mem_cons_self,
      ih fun b hb => h b (List.mem_cons_of_mem _ hb)]
    rfl

theorem nat?_int {n limit : Nat} (h : n < limit) : Json.nat? limit (.int n) = some n :=
  if_pos h

theorem Rule.ofJson?_toJson {r : Rule} (h : r.Fits) : Rule.ofJson? r.toJson = some r := by
  obtain ⟨filters, expression, trigger⟩ := r
  have hfilters : Json.list? Filter.ofJson? (.array (filters.map Filter.toJson)) = some filters :=
    list?_array fun f hf => Filter.ofJson?_toJson (h.filters f hf)
  have htrigger : Json.nat? countLimit (.int trigger) = some trigger := nat?_int h.trigger
  show (Json.list? Filter.ofJson? (.array (filters.map Filter.toJson))).bind (fun filters =>
    (some expression).bind fun expression =>
      (Json.nat? countLimit (.int trigger)).bind fun trigger => some _) = _
  rw [hfilters, htrigger]
  rfl

end Vigil
