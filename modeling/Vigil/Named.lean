/-!
# Values by name

A finite map from names to values, kept as a list in ascending order of names. Names are ordered by
their code points, so two maps with the same entries are the same list. Inserting under a name that is
already there replaces its value.
-/

namespace Vigil

/-- Values by name, in ascending order of names. -/
structure Named (α : Type) where
  entries : List (String × α)
  ascending : entries.Pairwise fun a b => a.1 < b.1

namespace Named

variable {α β : Type}

/-- Put an entry at its place in an ascending list. -/
def insertEntry (name : String) (value : α) : List (String × α) → List (String × α)
  | [] => [(name, value)]
  | (n, v) :: rest =>
    if name < n then (name, value) :: (n, v) :: rest
    else if n < name then (n, v) :: insertEntry name value rest
    else (name, value) :: rest

theorem fst_mem_of_mem_insertEntry {name : String} {value : α} {entries : List (String × α)}
    {e : String × α} (h : e ∈ insertEntry name value entries) :
    e = (name, value) ∨ e ∈ entries := by
  induction entries with
  | nil => simpa [insertEntry] using h
  | cons head rest ih =>
    simp only [insertEntry] at h
    split at h
    · simpa using h
    · split at h
      · rcases List.mem_cons.1 h with h | h
        · exact .inr (by simp [h])
        · exact (ih h).imp_right (List.mem_cons_of_mem _)
      · rcases List.mem_cons.1 h with h | h
        · exact .inl h
        · exact .inr (List.mem_cons_of_mem _ h)

theorem pairwise_insertEntry {name : String} {value : α} {entries : List (String × α)}
    (h : entries.Pairwise fun a b => a.1 < b.1) :
    (insertEntry name value entries).Pairwise fun a b => a.1 < b.1 := by
  induction entries with
  | nil => simp [insertEntry]
  | cons head rest ih =>
    obtain ⟨hhead, hrest⟩ := List.pairwise_cons.1 h
    simp only [insertEntry]
    split
    · rename_i hlt
      refine List.pairwise_cons.2 ⟨fun e he => ?_, h⟩
      rcases List.mem_cons.1 he with rfl | he
      · exact hlt
      · exact String.lt_trans hlt (hhead e he)
    · rename_i hle
      split
      · rename_i hlt
        refine List.pairwise_cons.2 ⟨fun e he => ?_, ih hrest⟩
        rcases fst_mem_of_mem_insertEntry he with rfl | he
        · exact hlt
        · exact hhead e he
      · rename_i hge
        have heq : name = head.1 := String.le_antisymm (String.not_lt.1 hge) (String.not_lt.1 hle)
        exact List.pairwise_cons.2 ⟨fun e he => heq ▸ hhead e he, hrest⟩

def empty : Named α := ⟨[], .nil⟩

instance : Inhabited (Named α) := ⟨empty⟩

/-- Give a name a value, in place of one that it had. -/
def insert (m : Named α) (name : String) (value : α) : Named α :=
  ⟨insertEntry name value m.entries, pairwise_insertEntry m.ascending⟩

/-- The entries of a list; of two with one name the later counts. -/
def ofList (entries : List (String × α)) : Named α :=
  entries.foldl (fun m e => m.insert e.1 e.2) empty

def get? (m : Named α) (name : String) : Option α :=
  (m.entries.find? fun e => e.1 == name).map (·.2)

def names (m : Named α) : List String :=
  m.entries.map (·.1)

def values (m : Named α) : List α :=
  m.entries.map (·.2)

def map (f : α → β) (m : Named α) : Named β :=
  ⟨m.entries.map fun e => (e.1, f e.2), List.pairwise_map.2 m.ascending⟩

end Named

end Vigil
