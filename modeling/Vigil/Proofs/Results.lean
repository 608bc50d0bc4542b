import Mathlib.Data.List.Forall2

/-!
# Readings that can fail

A reading made of two succeeds when both do; a reading for each member of a list succeeds when every
single one does. Then the list and the results are related member by member.
-/

namespace Vigil

variable {ε α β : Type}

theorem bind_eq_ok_iff {first : Except ε α} {next : α → Except ε β} {b : β} :
    (first >>= next) = .ok b ↔ ∃ a, first = .ok a ∧ next a = .ok b := by
  cases first with
  | error cause =>
    constructor
    · intro h
      cases h
    · rintro ⟨a, ⟨⟩, h⟩
  | ok a =>
    constructor
    · intro h
      exact ⟨a, rfl, h⟩
    · rintro ⟨a, ⟨⟩, h⟩
      exact h

theorem map_eq_ok_iff {first : Except ε α} {g : α → β} {b : β} :
    first.map g = .ok b ↔ ∃ a, first = .ok a ∧ g a = b := by
  cases first with
  | error cause =>
    constructor
    · intro h
      cases h
    · rintro ⟨a, ⟨⟩, h⟩
  | ok a =>
    constructor
    · intro h
      exact ⟨a, rfl, Except.ok.inj h⟩
    · rintro ⟨a, ⟨⟩, rfl⟩
      rfl

theorem bind_eq_error_iff {first : Except ε α} {next : α → Except ε β} {cause : ε} :
    (first >>= next) = .error cause ↔
      first = .error cause ∨ ∃ a, first = .ok a ∧ next a = .error cause := by
  cases first with
  | error other =>
    constructor
    · intro h
      cases h
      exact .inl rfl
    · rintro (⟨⟨⟩⟩ | ⟨a, ⟨⟩, h⟩)
      rfl
  | ok a =>
    constructor
    · intro h
      exact .inr ⟨a, rfl, h⟩
    · rintro (⟨⟨⟩⟩ | ⟨a, ⟨⟩, h⟩)
      exact h

theorem map_eq_error_iff {first : Except ε α} {g : α → β} {cause : ε} :
    first.map g = .error cause ↔ first = .error cause := by
  cases first with
  | error other =>
    constructor
    · rintro ⟨⟩
      rfl
    · rintro ⟨⟩
      rfl
  | ok a => exact ⟨nofun, nofun⟩

theorem mapError_eq_ok_iff {ε' : Type} {first : Except ε α} {g : ε → ε'} {a : α} :
    first.mapError g = .ok a ↔ first = .ok a := by
  cases first with
  | error cause => exact ⟨nofun, nofun⟩
  | ok b =>
    constructor
    · rintro ⟨⟩
      rfl
    · rintro ⟨⟩
      rfl

/-- Results of readings are a list when each reading succeeds, with its own result. -/
theorem mapM_eq_ok_iff {read : α → Except ε β} {as : List α} {bs : List β} :
    as.mapM read = .ok bs ↔ List.Forall₂ (fun a b => read a = .ok b) as bs := by
  induction as generalizing bs with
  | nil =>
    rw [List.forall₂_nil_left_iff]
    exact ⟨fun h => (Except.ok.inj h).symm, fun h => by rw [h]; rfl⟩
  | cons a as ih =>
    rw [List.mapM_cons, List.forall₂_cons_left_iff]
    constructor
    · intro h
      obtain ⟨b, hb, h⟩ := bind_eq_ok_iff.mp h
      obtain ⟨rest, hrest, h⟩ := bind_eq_ok_iff.mp h
      cases h
      exact ⟨b, rest, hb, ih.mp hrest, rfl⟩
    · rintro ⟨b, rest, hb, hrest, rfl⟩
      rw [hb, ih.mpr hrest]
      rfl

/-- Readings of what was written give back what `g` says. -/
theorem mapM_map_eq_ok {γ : Type} {write : α → β} {read : β → Except ε γ} {g : α → γ} {as : List α}
    (h : ∀ a ∈ as, read (write a) = .ok (g a)) : (as.map write).mapM read = .ok (as.map g) := by
  rw [mapM_eq_ok_iff, List.forall₂_map_left_iff, List.forall₂_map_right_iff]
  exact List.forall₂_same.mpr h

/-- A check of every member succeeds when each single one does. -/
theorem eq_ok_of_forM {check : α → Except ε Unit} {as : List α} (h : as.forM check = .ok ()) :
    ∀ a ∈ as, check a = .ok () := by
  induction as with
  | nil =>
    intro a ha
    cases ha
  | cons b as ih =>
    rw [List.forM_eq_forM, List.forM_cons] at h
    obtain ⟨⟨⟩, hb, h⟩ := bind_eq_ok_iff.mp h
    intro a ha
    rcases List.mem_cons.mp ha with rfl | ha
    · exact hb
    · exact ih h a ha

section Related

variable {γ : Type} {R : α → β → Prop} {as : List α} {bs : List β}

/-- What is related member by member stays so for some of the members. -/
theorem exists_forall₂_of_sublist {some : List α} (hsub : some.Sublist as) (h : List.Forall₂ R as bs) :
    ∃ bs' : List β, bs'.Sublist bs ∧ List.Forall₂ R some bs' := by
  induction hsub generalizing bs with
  | slnil => exact ⟨[], List.nil_sublist bs, .nil⟩
  | cons a _ ih =>
    cases h with
    | cons _ hrest =>
      obtain ⟨bs', hbs', hsome⟩ := ih hrest
      exact ⟨bs', hbs'.cons _, hsome⟩
  | cons_cons a _ ih =>
    cases h with
    | cons hab hrest =>
      obtain ⟨bs', hbs', hsome⟩ := ih hrest
      exact ⟨_, hbs'.cons_cons _, .cons hab hsome⟩

theorem map_eq_map_of_forall₂ {f : α → γ} {g : β → γ} (h : List.Forall₂ R as bs)
    (hfg : ∀ a b, R a b → f a = g b) : as.map f = bs.map g := by
  induction h with
  | nil => rfl
  | cons hab _ ih => rw [List.map_cons, List.map_cons, hfg _ _ hab, ih]

theorem exists_of_forall₂_right {b : β} (h : List.Forall₂ R as bs) (hb : b ∈ bs) :
    ∃ a ∈ as, R a b := by
  obtain ⟨i, hi, rfl⟩ := List.mem_iff_getElem.mp hb
  have hi' : i < as.length := h.length_eq ▸ hi
  exact ⟨as[i], List.getElem_mem hi', h.get hi' hi⟩

theorem exists_of_forall₂_left {a : α} (h : List.Forall₂ R as bs) (ha : a ∈ as) :
    ∃ b ∈ bs, R a b :=
  exists_of_forall₂_right (h.flip : List.Forall₂ (flip R) bs as) ha

theorem forall₂_trans {S : α → γ → Prop} {T : β → γ → Prop} {cs : List γ}
    (h : List.Forall₂ R as bs) (h' : List.Forall₂ S as cs)
    (htrans : ∀ a b c, R a b → S a c → T b c) : List.Forall₂ T bs cs := by
  induction h generalizing cs with
  | nil =>
    cases h'
    exact .nil
  | cons hab _ ih =>
    cases h' with
    | cons hac hrest => exact .cons (htrans _ _ _ hab hac) (ih hrest)

end Related

end Vigil
