import Mathlib.Data.List.Nodup
import Mathlib.Data.List.Perm.Basic
import Vigil.Named

/-!
# Maps of distinct names

A map made of entries with distinct names holds exactly these, in the order of their names, and a name
has at most one value.
-/

namespace Vigil.Named

variable {α β : Type} {m : Named α} {name : String} {value : α} {entries : List (String × α)}

theorem perm_insertEntry (h : name ∉ entries.map Prod.fst) :
    (insertEntry name value entries).Perm ((name, value) :: entries) := by
  induction entries with
  | nil => exact .refl _
  | cons e rest ih =>
    rw [List.map_cons, List.mem_cons, not_or] at h
    obtain ⟨hne, hrest⟩ := h
    rw [insertEntry]
    split
    · exact .refl _
    · rename_i hle
      split
      · exact ((ih hrest).cons e).trans (.swap _ _ _)
      · rename_i hge
        exact (hne (String.le_antisymm (String.not_lt.mp hge) (String.not_lt.mp hle))).elim

/-- A new name is put beside those that are there. -/
theorem perm_insert (h : name ∉ m.names) :
    (m.insert name value).entries.Perm ((name, value) :: m.entries) :=
  perm_insertEntry h

/-- Once the first of some new names is put in, the others are still new. -/
theorem nodup_insert {names : List String} (h : (name :: names ++ m.names).Nodup) (value : α) :
    name ∉ m.names ∧ (names ++ (m.insert name value).names).Nodup := by
  rw [List.cons_append, List.nodup_cons, List.mem_append, not_or] at h
  obtain ⟨⟨hnames, hm⟩, hnodup⟩ := h
  have hperm : (names ++ (m.insert name value).names).Perm (name :: (names ++ m.names)) :=
    (((perm_insert hm).map Prod.fst).append_left _).trans List.perm_middle
  have hfresh : name ∉ names ++ m.names := by
    rw [List.mem_append, not_or]
    exact ⟨hnames, hm⟩
  exact ⟨hm, hperm.nodup_iff.mpr (List.nodup_cons.mpr ⟨hfresh, hnodup⟩)⟩

theorem perm_foldl_insert (entries : List (String × α)) (m : Named α)
    (h : (entries.map Prod.fst ++ m.names).Nodup) :
    (entries.foldl (fun m e => m.insert e.1 e.2) m).entries.Perm (entries ++ m.entries) := by
  induction entries generalizing m with
  | nil => exact .refl _
  | cons e rest ih =>
    obtain ⟨hnew, hrest⟩ := nodup_insert h e.2
    have hinsert : (m.insert e.1 e.2).entries.Perm (e :: m.entries) := perm_insert hnew
    exact ((ih (m.insert e.1 e.2) hrest).trans (hinsert.append_left rest)).trans List.perm_middle

/-- Entries with distinct names are all kept. -/
theorem perm_ofList (h : (entries.map Prod.fst).Nodup) : (ofList entries).entries.Perm entries := by
  have hfold := perm_foldl_insert entries empty (by rw [names, empty]; simpa using h)
  rw [empty, List.append_nil] at hfold
  exact hfold

theorem nodup_names (m : Named α) : m.names.Nodup := by
  refine List.pairwise_map.mpr (m.ascending.imp ?_)
  intro a b hlt heq
  rw [heq] at hlt
  exact String.lt_irrefl _ hlt

theorem get?_eq_none (h : name ∉ m.names) : m.get? name = none := by
  rw [get?, Option.map_eq_none_iff, List.find?_eq_none]
  intro e he
  have hne : e.1 ≠ name := by
    rintro rfl
    exact h (List.mem_map_of_mem he)
  simpa using hne

/-- A name has the value that its entry says. -/
theorem get?_eq_some_iff : m.get? name = some value ↔ (name, value) ∈ m.entries := by
  constructor
  · intro h
    obtain ⟨e, he, rfl⟩ := Option.map_eq_some_iff.mp h
    have hname : e.1 = name := by simpa using List.find?_some he
    rw [← hname]
    exact List.mem_of_find?_eq_some he
  · intro h
    have hnodup := m.nodup_names
    rw [get?]
    cases hfind : m.entries.find? (fun e => e.1 == name) with
    | none =>
      exact absurd (beq_self_eq_true name) (List.find?_eq_none.mp hfind _ h)
    | some e =>
      have hname : e.1 = name := by simpa using List.find?_some hfind
      have heq : e = (name, value) :=
        List.inj_on_of_nodup_map hnodup (List.mem_of_find?_eq_some hfind) h hname
      rw [heq]
      rfl

theorem mem_insertEntry_iff (h : entries.Pairwise fun a b => a.1 < b.1) {e : String × α} :
    e ∈ insertEntry name value entries ↔ e = (name, value) ∨ (e ∈ entries ∧ e.1 ≠ name) := by
  induction entries with
  | nil => simp [insertEntry]
  | cons head rest ih =>
    obtain ⟨hhead, hrest⟩ := List.pairwise_cons.mp h
    rw [insertEntry]
    split
    · rename_i hlt
      have hne : ∀ f ∈ head :: rest, f.1 ≠ name := by
        intro f hf heq
        rcases List.mem_cons.mp hf with rfl | hf
        · exact String.lt_irrefl _ (heq ▸ hlt)
        · exact String.lt_irrefl _ (heq ▸ String.lt_trans hlt (hhead f hf))
      rw [List.mem_cons]
      exact or_congr_right ⟨fun hmem => ⟨hmem, hne e hmem⟩, And.left⟩
    · rename_i hle
      split
      · rename_i hlt
        have hne : head.1 ≠ name := fun heq => String.lt_irrefl _ (heq ▸ hlt)
        rw [List.mem_cons, List.mem_cons, ih hrest]
        constructor
        · rintro (rfl | rfl | ⟨hmem, hname⟩)
          · exact .inr ⟨.inl rfl, hne⟩
          · exact .inl rfl
          · exact .inr ⟨.inr hmem, hname⟩
        · rintro (rfl | ⟨rfl | hmem, hname⟩)
          · exact .inr (.inl rfl)
          · exact .inl rfl
          · exact .inr (.inr ⟨hmem, hname⟩)
      · rename_i hge
        have heq : head.1 = name := String.le_antisymm (String.not_lt.mp hle) (String.not_lt.mp hge)
        have hne : ∀ f ∈ rest, f.1 ≠ name := by
          intro f hf hname
          exact String.lt_irrefl _ (hname.trans heq.symm ▸ hhead f hf)
        rw [List.mem_cons, List.mem_cons]
        constructor
        · rintro (rfl | hmem)
          · exact .inl rfl
          · exact .inr ⟨.inr hmem, hne e hmem⟩
        · rintro (rfl | ⟨rfl | hmem, hname⟩)
          · exact .inl rfl
          · exact absurd heq hname
          · exact .inr hmem

theorem nodup_entries (m : Named α) : m.entries.Nodup :=
  List.Nodup.of_map Prod.fst m.nodup_names

theorem nodup_others (m : Named α) (name : String) (value : α) :
    ((name, value) :: m.entries.filter fun e => e.1 ≠ name).Nodup := by
  refine List.nodup_cons.mpr ⟨fun hmem => ?_, m.nodup_entries.filter _⟩
  simp at hmem

/-- A value takes the place of the one that its name had. -/
theorem perm_insert_others (m : Named α) (name : String) (value : α) :
    (m.insert name value).entries.Perm ((name, value) :: m.entries.filter fun e => e.1 ≠ name) := by
  refine (List.perm_ext_iff_of_nodup (nodup_entries _) (m.nodup_others name value)).mpr ?_
  intro e
  rw [insert, mem_insertEntry_iff m.ascending]
  simp

theorem perm_of_get? (h : m.get? name = some value) :
    m.entries.Perm ((name, value) :: m.entries.filter fun e => e.1 ≠ name) := by
  have hmem := get?_eq_some_iff.mp h
  refine (List.perm_ext_iff_of_nodup (nodup_entries _) (m.nodup_others name value)).mpr ?_
  intro e
  rw [List.mem_cons, List.mem_filter, decide_eq_true_iff]
  constructor
  · intro he
    by_cases hname : e.1 = name
    · exact .inl (List.inj_on_of_nodup_map m.nodup_names he hmem hname)
    · exact .inr ⟨he, hname⟩
  · rintro (rfl | ⟨he, -⟩)
    · exact hmem
    · exact he

theorem others_of_get?_eq_none (h : m.get? name = none) :
    (m.entries.filter fun e => e.1 ≠ name) = m.entries := by
  rw [List.filter_eq_self]
  intro e he
  rw [decide_eq_true_iff]
  rintro rfl
  rw [get?_eq_some_iff.mpr he] at h
  cases h

/-- What is made of the entries is the part of one name and the rest. -/
theorem perm_flatMap_others (m : Named α) (name : String) (g : String × α → List β) :
    (m.entries.flatMap g).Perm (((m.get? name).map fun v => g (name, v)).getD [] ++
      (m.entries.filter fun e => e.1 ≠ name).flatMap g) := by
  cases h : m.get? name with
  | none =>
    rw [others_of_get?_eq_none h]
    exact .refl _
  | some value => exact (perm_of_get? h).flatMap_right g

/-- What is made of the entry of one name alone. -/
theorem flatMap_of_name {g : String × α → List β} (h : ∀ e ∈ m.entries, e.1 ≠ name → g e = []) :
    m.entries.flatMap g = ((m.get? name).map fun v => g (name, v)).getD [] := by
  have hnodup := m.nodup_names
  rw [names] at hnodup
  rw [get?]
  generalize m.entries = entries at h hnodup
  induction entries with
  | nil => rfl
  | cons e rest ih =>
    rw [List.map_cons, List.nodup_cons] at hnodup
    have hrest := ih (fun f hf => h f (List.mem_cons_of_mem _ hf)) hnodup.2
    rw [List.flatMap_cons]
    by_cases hname : e.1 = name
    · have hnone : rest.flatMap g = [] := by
        rw [List.flatMap_eq_nil_iff]
        intro f hf
        refine h f (List.mem_cons_of_mem _ hf) ?_
        rintro rfl
        exact hnodup.1 (hname ▸ List.mem_map_of_mem hf)
      rw [hnone, List.append_nil, List.find?_cons_of_pos (by simpa using hname), ← hname]
      rfl
    · rw [h e List.mem_cons_self hname, List.nil_append, hrest,
        List.find?_cons_of_neg (by simpa using hname)]

/-- What is made of the entries grows by what the new value adds to the old one. -/
theorem perm_flatMap_insert {g : String × α → List β} {more : List β}
    (h : (g (name, value)).Perm (((m.get? name).map fun v => g (name, v)).getD [] ++ more)) :
    ((m.insert name value).entries.flatMap g).Perm (m.entries.flatMap g ++ more) := by
  have hnew := (m.perm_insert_others name value).flatMap_right g
  have hold := (m.perm_flatMap_others name g).append_right more
  rw [List.append_assoc] at hold
  refine hnew.trans (List.Perm.trans ?_ hold.symm)
  rw [List.flatMap_cons]
  refine (h.append_right _).trans ?_
  rw [List.append_assoc]
  exact List.perm_append_comm.append_left _

theorem get?_insert_self : (m.insert name value).get? name = some value := by
  rw [get?_eq_some_iff, insert, mem_insertEntry_iff m.ascending]
  exact .inl rfl

theorem get?_insert_of_ne {other : String} (h : other ≠ name) :
    (m.insert name value).get? other = m.get? other := by
  refine Option.ext fun v => ?_
  rw [get?_eq_some_iff, get?_eq_some_iff, insert, mem_insertEntry_iff m.ascending]
  constructor
  · rintro (heq | ⟨hmem, -⟩)
    · exact absurd (congrArg Prod.fst heq) h
    · exact hmem
  · exact fun hmem => .inr ⟨hmem, h⟩

theorem mem_names_insert {other : String} :
    other ∈ (m.insert name value).names ↔ other = name ∨ other ∈ m.names := by
  simp only [names, insert, List.mem_map, mem_insertEntry_iff m.ascending]
  constructor
  · rintro ⟨e, rfl | ⟨hmem, -⟩, rfl⟩
    · exact .inl rfl
    · exact .inr ⟨e, hmem, rfl⟩
  · rintro (rfl | ⟨e, hmem, rfl⟩)
    · exact ⟨_, .inl rfl, rfl⟩
    · by_cases hname : e.1 = name
      · exact ⟨_, .inl rfl, hname.symm⟩
      · exact ⟨e, .inr ⟨hmem, hname⟩, rfl⟩

/-- A map has the names of the entries that it is made of, distinct or not. -/
theorem mem_names_ofList : name ∈ (ofList entries).names ↔ name ∈ entries.map Prod.fst := by
  have hfold : ∀ m : Named α, name ∈ (entries.foldl (fun m e => m.insert e.1 e.2) m).names ↔
      name ∈ entries.map Prod.fst ∨ name ∈ m.names := by
    induction entries with
    | nil => exact fun m => (or_iff_right List.not_mem_nil).symm
    | cons e rest ih =>
      intro m
      rw [List.foldl_cons, ih, mem_names_insert, List.map_cons, List.mem_cons, ← or_assoc,
        or_comm (a := name ∈ rest.map Prod.fst)]
  exact (hfold empty).trans (or_iff_left List.not_mem_nil)

end Vigil.Named
