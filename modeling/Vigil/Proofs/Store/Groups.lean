import Mathlib.Data.List.Infix
import Vigil.Proofs.Text.Replace
import Vigil.Store.Tables.Groups

/-!
# Groups found in the text of a list

Cut at its commas, a name falls into segments, and so does the text of a list. A name between commas
stands in that text exactly where its segments stand in a row among those of the list. So the groups of
the list are always found. Nothing else is found that has no comma, as long as the names of the list have
none either and the list is not empty: without groups it has the same text as the list of the empty name.
-/

namespace Vigil

namespace Text

section Occurrences

variable {α : Type} [DecidableEq α] {ps cs : List α}

theorem isSome_afterPrefix?_iff : (afterPrefix? ps cs).isSome = true ↔ ps <+: cs := by
  constructor
  · intro h
    obtain ⟨rest, hrest⟩ := Option.isSome_iff_exists.mp h
    exact ⟨rest, (eq_append_of_afterPrefix? hrest).symm⟩
  · rintro ⟨rest, rfl⟩
    rw [afterPrefix?_append]
    rfl

/-- A text occurs where it stands between something before it and something after it. -/
theorem occurs_iff_isInfix : occurs ps cs = true ↔ ps <:+: cs := by
  induction cs with
  | nil => rw [occurs, List.isEmpty_iff, List.infix_nil]
  | cons c cs ih =>
    rw [occurs, Bool.or_eq_true, isSome_afterPrefix?_iff, ih, List.infix_cons_iff]

end Occurrences

section Separators

variable {α : Type} {c : α}

theorem intercalate_append {xs ys : List (List α)} (hxs : xs ≠ []) (hys : ys ≠ []) :
    [c].intercalate (xs ++ ys) = [c].intercalate xs ++ c :: [c].intercalate ys := by
  induction xs with
  | nil => exact absurd rfl hxs
  | cons x xs ih =>
    cases xs with
    | nil =>
      obtain ⟨y, ys, rfl⟩ := List.exists_cons_of_ne_nil hys
      simp [List.intercalate_cons_cons]
    | cons x' xs =>
      have hrest := ih (List.cons_ne_nil x' xs)
      rw [List.cons_append] at hrest
      rw [List.cons_append, List.cons_append, List.intercalate_cons_cons, hrest,
        List.intercalate_cons_cons]
      simp

variable [DecidableEq α]

theorem splitOn_append_cons (xs ys : List α) :
    (xs ++ c :: ys).splitOn c = xs.splitOn c ++ ys.splitOn c :=
  List.splitOnP_append_cons xs ys (beq_self_eq_true c)

theorem splitOn_of_not_mem {xs : List α} (h : c ∉ xs) : xs.splitOn c = [xs] :=
  List.splitOnP_eq_singleton fun _ hx => beq_eq_false_iff_ne.mpr fun heq => h (heq ▸ hx)

/-- Parts that are joined by a separator fall into all their segments. -/
theorem splitOn_join {xs : List (List α)} (h : xs ≠ []) :
    ([c].intercalate xs).splitOn c = xs.flatMap (List.splitOn c) := by
  induction xs with
  | nil => exact absurd rfl h
  | cons x xs ih =>
    cases xs with
    | nil => simp
    | cons x' xs =>
      rw [List.flatMap_cons, ← ih (List.cons_ne_nil x' xs), List.intercalate_cons_cons,
        List.append_assoc, List.singleton_append, splitOn_append_cons]

/-- A text between separators stands in another exactly where its segments stand in a row. -/
theorem isInfix_fenced_iff {g t : List α} :
    c :: (g ++ [c]) <:+: c :: (t ++ [c]) ↔ g.splitOn c <:+: t.splitOn c := by
  have hsplit : (c :: (t ++ [c])).splitOn c = [] :: (t.splitOn c ++ [[]]) := by
    have hfirst := splitOn_append_cons (c := c) [] (t ++ [c])
    have hlast := splitOn_append_cons (c := c) t []
    rw [List.nil_append] at hfirst
    rw [hfirst, hlast]
    rfl
  constructor
  · rintro ⟨front, back, h⟩
    have hparts : front.splitOn c ++ (g.splitOn c ++ back.splitOn c) =
        [] :: (t.splitOn c ++ [[]]) := by
      rw [← hsplit, ← h, ← splitOn_append_cons, ← splitOn_append_cons]
      simp
    -- the outermost segments are the empty ones before the first separator and after the last
    obtain ⟨x, before, hbefore⟩ := List.exists_cons_of_ne_nil (List.splitOn_ne_nil c front)
    obtain ⟨after, y, hafter⟩ : ∃ after y, back.splitOn c = after ++ [y] :=
      ⟨_, _, (List.dropLast_append_getLast (List.splitOn_ne_nil c back)).symm⟩
    rw [hbefore, hafter, List.cons_append, ← List.append_assoc, ← List.append_assoc] at hparts
    exact ⟨before, after, by simpa using (List.append_inj' (List.cons.inj hparts).2 rfl).1⟩
  · rintro ⟨before, after, h⟩
    have hjoin : [c].intercalate ((c :: (t ++ [c])).splitOn c) = c :: (t ++ [c]) :=
      List.intercalate_splitOn c
    rw [hsplit, ← h, List.append_assoc, List.append_assoc, ← List.cons_append,
      intercalate_append (List.cons_ne_nil _ _) (by simp),
      intercalate_append (List.splitOn_ne_nil c g) (by simp), List.intercalate_splitOn] at hjoin
    rw [← hjoin]
    exact ⟨[c].intercalate ([] :: before), [c].intercalate (after ++ [[]]), by simp⟩

end Separators

end Text

namespace Groups

/-- What a name falls into, cut at its commas. -/
def segments (name : String) : List (List Char) :=
  name.toList.splitOn ','

/-- What a list of groups falls into; without groups it is one empty segment. -/
def listed (groups : List String) : List (List Char) :=
  if groups.isEmpty then [[]] else groups.flatMap segments

def Whole (name : String) : Prop :=
  ',' ∉ name.toList

/-- A name that keeps its place in the text of a list: not empty and without a comma. -/
def Proper (name : String) : Prop :=
  name ≠ "" ∧ ',' ∉ name.toList

instance : DecidablePred Whole := fun _ => inferInstanceAs (Decidable (¬ _))

instance : DecidablePred Proper := fun _ => inferInstanceAs (Decidable (_ ∧ _))

variable {groups : List String} {g : String}

theorem toList_needle (g : String) : (needle g).toList = ',' :: (g.toList ++ [',']) := by
  simp [needle]

theorem exists_toList_encode (groups : List String) :
    ∃ t, (encode groups).toList = ',' :: (t ++ [',']) ∧ t.splitOn ',' = listed groups := by
  refine ⟨[','].intercalate (groups.map String.toList), ?_, ?_⟩
  · simp [encode, String.toList_intercalate]
  · cases groups with
    | nil => rfl
    | cons h rest =>
      rw [Text.splitOn_join (by simp), List.flatMap_map]
      rfl

/-- A text has the names whose segments stand in a row among those of its list. -/
theorem holds_encode_iff (groups : List String) (g : String) :
    holds (encode groups) g = true ↔ segments g <:+: listed groups := by
  obtain ⟨t, htext, hsplit⟩ := exists_toList_encode groups
  rw [holds, toList_needle, htext, Text.occurs_iff_isInfix, Text.isInfix_fenced_iff, hsplit]
  rfl

/-- The text of a list has every group of the list. -/
theorem holds_encode_of_mem (h : g ∈ groups) : holds (encode groups) g = true := by
  obtain ⟨before, after, rfl⟩ := List.append_of_mem h
  refine (holds_encode_iff _ _).mpr ⟨before.flatMap segments, after.flatMap segments, ?_⟩
  simp [listed]

theorem segments_of_whole (h : Whole g) : segments g = [g.toList] :=
  Text.splitOn_of_not_mem h

/-- Of whole names the text of a list has those of the list and no others, the empty name apart when
there are none. -/
theorem holds_encode_iff_mem (hgroups : ∀ name ∈ groups, Whole name) (hg : Whole g)
    (hne : groups = [] → g ≠ "") : holds (encode groups) g = true ↔ g ∈ groups := by
  rw [holds_encode_iff, segments_of_whole hg, List.singleton_infix_iff]
  cases groups with
  | nil =>
    have hfilled : g.toList ≠ [] := fun h => hne rfl (String.toList_eq_nil_iff.mp h)
    simp [listed, hfilled]
  | cons name rest =>
    have hparts : listed (name :: rest) = (name :: rest).map String.toList := by
      rw [List.map_eq_flatMap]
      exact List.flatMap_congr fun h hh => segments_of_whole (hgroups h hh)
    rw [hparts, List.mem_map]
    simp only [String.toList_inj, exists_eq_right]

/-- A proper name is in the text of a list of proper names only where it is one of them. -/
theorem Proper.mem_of_segments (hg : Proper g) (hgroups : ∀ name ∈ groups, Proper name)
    (h : segments g <:+: listed groups) : g ∈ groups :=
  (holds_encode_iff_mem (fun name hname => (hgroups name hname).2) hg.2 fun _ => hg.1).mp
    ((holds_encode_iff groups g).mpr h)

/-- A text has the groups of its list, unless it has a name that is none of them. -/
theorem holds_encode (h : segments g <:+: listed groups → g ∈ groups) :
    holds (encode groups) g = groups.contains g := by
  rw [Bool.eq_iff_iff, List.contains_iff_mem, holds_encode_iff]
  exact ⟨h, fun hmem => (holds_encode_iff groups g).mp (holds_encode_of_mem hmem)⟩

end Groups

end Vigil
