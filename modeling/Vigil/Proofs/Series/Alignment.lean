import Vigil.Proofs.Named
import Vigil.Proofs.Series.Times
import Vigil.Valuation

/-!
# Trimmed and aligned series

Each series is trimmed to its own last points before the series are aligned. So a batch holds those
times that all filters have a point for and that are among the last of every single series. These are
among the last shared times, but not always all of them: a time that all series share is lost when one
series has as many later points as the limit allows.
-/

namespace Vigil

namespace Instant

variable {times : List Instant} {t : Instant} {n : Nat}

def laterIn (times : List Instant) (t : Instant) : Nat :=
  times.countP fun u => t < u

/-- Of ascending times those are among the last `n` that have fewer than `n` times behind them. -/
theorem mem_lastOf_iff (h : times.Pairwise (· < ·)) :
    t ∈ Query.lastOf n times ↔ t ∈ times ∧ laterIn times t < n := by
  rw [Query.lastOf]
  have hsplit := List.take_append_drop (times.length - n) times
  generalize hfirst : times.take (times.length - n) = first at hsplit
  generalize hlast : times.drop (times.length - n) = last at hsplit
  have hlength : last.length = min n times.length := by
    rw [← hlast, List.length_drop]
    omega
  subst hsplit
  obtain ⟨-, hascending, hbefore⟩ := List.pairwise_append.mp h
  have hcount : laterIn (first ++ last) t = laterIn first t + laterIn last t := List.countP_append
  constructor
  · intro ht
    refine ⟨List.mem_append_right _ ht, ?_⟩
    have hnone : laterIn first t = 0 := by
      refine List.countP_eq_zero.mpr ?_
      intro u hu hlt
      exact Std.Asymm.asymm (r := fun t u : Instant => t < u) _ _ (of_decide_eq_true hlt)
        (hbefore u hu t ht)
    have hself : laterIn last t < last.length := by
      refine lt_of_le_of_ne List.countP_le_length ?_
      intro hall
      have hlt := List.countP_eq_length.mp hall t ht
      exact Int.lt_irrefl _ (of_decide_eq_true hlt)
    omega
  · rintro ⟨ht, hfew⟩
    rcases List.mem_append.mp ht with hearly | hlate
    · have hall : laterIn last t = last.length := by
        refine List.countP_eq_length.mpr ?_
        intro u hu
        exact decide_eq_true (hbefore t hearly u hu)
      have hpos := List.length_pos_of_mem hearly
      rw [← hfirst, List.length_take] at hpos
      omega
    · exact hlate

end Instant

namespace Query

variable {α : Type}

theorem length_lastOf (n : Nat) (list : List α) : (lastOf n list).length = min n list.length := by
  simp only [lastOf, List.length_drop]
  omega

theorem map_lastOf {β : Type} (f : α → β) (n : Nat) (list : List α) :
    (lastOf n list).map f = lastOf n (list.map f) := by
  rw [lastOf, lastOf, List.map_drop, List.length_map]

end Query

namespace Batch

variable {filters : List Filter} {all : List Series} {series : Series} {batch : Batch}
  {t : Instant} {limit : Nat}

/-- Every series has a point at the time. -/
def inAll (all : List Series) (t : Instant) : Bool :=
  all.all fun series => hasTime series t

def shared : List Series → List Instant
  | [] => []
  | series :: rest => series.times.filter (inAll (series :: rest))

theorem hasTime_iff : hasTime series t = true ↔ t ∈ series.times := by
  simp [hasTime, Series.times]

theorem inAll_iff : inAll all t = true ↔ ∀ series ∈ all, t ∈ series.times := by
  rw [inAll, List.all_eq_true]
  exact forall₂_congr fun _ _ => hasTime_iff

theorem mem_shared_iff (hne : all ≠ []) : t ∈ shared all ↔ ∀ series ∈ all, t ∈ series.times := by
  rcases all with _ | ⟨series, rest⟩
  · exact absurd rfl hne
  · rw [shared, List.mem_filter, inAll_iff]
    exact ⟨fun h => h.2, fun h => ⟨h _ List.mem_cons_self, h⟩⟩

theorem ascending_shared (h : ∀ series ∈ all, series.times.Pairwise (· < ·)) :
    (shared all).Pairwise (· < ·) := by
  rcases all with _ | ⟨series, rest⟩
  · exact .nil
  · exact (h series List.mem_cons_self).filter _

/-- What is left of an ascending series in an aligned batch has exactly the shared times. -/
theorem times_filter_inAll (h : ∀ series ∈ all, series.times.Pairwise (· < ·)) (hs : series ∈ all) :
    Series.times (series.filter fun p => inAll all p.time) = shared all := by
  have hfilter : Series.times (series.filter fun p => inAll all p.time) =
      series.times.filter (inAll all) := by
    rw [Series.times, Series.times, List.filter_map]
    rfl
  rw [hfilter]
  refine ((h series hs).filter _).eq_of_mem_iff (ascending_shared h) ?_
  intro t
  rw [List.mem_filter, inAll_iff, mem_shared_iff (List.ne_nil_of_mem hs)]
  exact ⟨fun ht => ht.2, fun ht => ⟨ht series hs, ht⟩⟩

/-- Aligning keeps every entry, and of its series the points at times of all series. -/
theorem perm_entries_align {entries : List (String × Series)} (h : (entries.map Prod.fst).Nodup) :
    (align (.ofList entries)).entries.Perm (entries.map fun e =>
      (e.1, e.2.filter fun p => inAll (entries.map Prod.snd) p.time)) := by
  have hentries := Named.perm_ofList h
  have hvalues : (Named.ofList entries).values.Perm (entries.map Prod.snd) := hentries.map Prod.snd
  have hall : ∀ t, ((Named.ofList entries).values.all fun other => hasTime other t) =
      inAll (entries.map Prod.snd) t := by
    intro t
    rw [inAll, Bool.eq_iff_iff, List.all_eq_true, List.all_eq_true]
    exact forall_congr' fun series => by rw [hvalues.mem_iff]
  refine List.Perm.trans (.of_eq ?_) (hentries.map _)
  refine List.map_congr_left ?_
  rintro ⟨name, series⟩ -
  simp only [hall]

/-- Assembled from filters with distinct identifiers, a batch has one series for each of them, and
every series keeps the points at shared times. -/
theorem exists_assemble (hids : (filters.map Filter.identifier).Nodup)
    (hlength : filters.length = all.length) :
    ∃ batch, assemble filters all = .ok batch ∧
      batch.entries.Perm ((filters.zip all).map fun (f, series) =>
        (f.identifier, series.filter fun p => inAll all p.time)) := by
  refine ⟨_, if_pos hlength, ?_⟩
  have hfst : ((filters.map Filter.identifier).zip all).map Prod.fst =
      filters.map Filter.identifier := List.map_fst_zip (by simp [hlength])
  have hsnd : ((filters.map Filter.identifier).zip all).map Prod.snd = all :=
    List.map_snd_zip (by simp [hlength])
  have halign := perm_entries_align (by rw [hfst]; exact hids)
  rw [hsnd, List.zip_map_left, List.map_map] at halign
  rwa [List.zip_map_left]

/-- The series of a batch of ascending series have exactly the shared times. -/
theorem exists_assemble_times (hids : (filters.map Filter.identifier).Nodup)
    (hlength : filters.length = all.length)
    (hascending : ∀ series ∈ all, series.times.Pairwise (· < ·)) :
    ∃ batch, assemble filters all = .ok batch ∧
      batch.names.Perm (filters.map Filter.identifier) ∧
      (∀ series ∈ batch.values, series.times = shared all) ∧
      ∀ f series, (f, series) ∈ filters.zip all →
        ∃ kept, batch.get? f.identifier = some kept ∧ kept.Sublist series := by
  obtain ⟨batch, hbatch, hentries⟩ := exists_assemble hids hlength
  refine ⟨batch, hbatch, ?_, ?_, ?_⟩
  · have hnames := hentries.map Prod.fst
    rw [List.map_map] at hnames
    have hfst : (filters.zip all).map Prod.fst = filters := List.map_fst_zip (by rw [hlength])
    refine hnames.trans (.of_eq ?_)
    rw [← hfst, List.map_map, hfst]
    rfl
  · intro series hseries
    obtain ⟨e, he, rfl⟩ := List.mem_map.mp hseries
    obtain ⟨⟨f, series⟩, hmem, rfl⟩ := List.mem_map.mp (hentries.mem_iff.mp he)
    exact times_filter_inAll hascending (List.of_mem_zip hmem).2
  · intro f series hmem
    refine ⟨series.filter fun p => inAll all p.time, ?_, List.filter_sublist⟩
    exact Named.get?_eq_some_iff.mpr (hentries.mem_iff.mpr (List.mem_map.mpr ⟨_, hmem, rfl⟩))

theorem times_lastOf (limit : Nat) (series : Series) :
    Series.times (Query.lastOf limit series) = Query.lastOf limit series.times :=
  Query.map_lastOf _ limit series

/-- The times among the last `limit` shared ones that no series has `limit` times behind. -/
def recentShared (limit : Nat) (all : List Series) : List Instant :=
  (Query.lastOf limit (shared all)).filter fun t =>
    all.all fun series => Instant.laterIn series.times t < limit

theorem shared_sublist (h : ∀ series ∈ all, series.times.Pairwise (· < ·)) (hs : series ∈ all) :
    (shared all).Sublist series.times := by
  rw [← times_filter_inAll h hs]
  exact List.filter_sublist.map _

theorem ascending_trimmed (h : ∀ series ∈ all, series.times.Pairwise (· < ·)) :
    ∀ series ∈ all.map (Query.lastOf limit), (Series.times series).Pairwise (· < ·) := by
  intro series hseries
  obtain ⟨whole, hwhole, rfl⟩ := List.mem_map.mp hseries
  rw [times_lastOf]
  exact (h whole hwhole).sublist (List.drop_sublist _ _)

/-- What trimmed series share. -/
theorem shared_trimmed (h : ∀ series ∈ all, series.times.Pairwise (· < ·)) :
    shared (all.map (Query.lastOf limit)) = recentShared limit all := by
  have hlast : (Query.lastOf limit (shared all)).Pairwise (· < ·) :=
    (ascending_shared h).sublist (List.drop_sublist _ _)
  refine (ascending_shared (ascending_trimmed h)).eq_of_mem_iff (hlast.filter _) ?_
  intro t
  by_cases hne : all = []
  · simp [hne, shared, recentShared, Query.lastOf]
  · obtain ⟨series, hseries⟩ := List.exists_mem_of_ne_nil all hne
    have hkept : t ∈ shared (all.map (Query.lastOf limit)) ↔
        ∀ s ∈ all, t ∈ s.times ∧ Instant.laterIn s.times t < limit := by
      rw [mem_shared_iff (by simpa using hne), List.forall_mem_map]
      exact forall₂_congr fun s hs => by rw [times_lastOf, Instant.mem_lastOf_iff (h s hs)]
    rw [hkept, recentShared, List.mem_filter, List.all_eq_true, Instant.mem_lastOf_iff (ascending_shared h),
      mem_shared_iff hne]
    constructor
    · intro hmem
      refine ⟨⟨fun s hs => (hmem s hs).1, ?_⟩, fun s hs => decide_eq_true (hmem s hs).2⟩
      exact lt_of_le_of_lt (List.Sublist.countP_le (shared_sublist h hseries)) (hmem series hseries).2
    · rintro ⟨⟨hall, -⟩, hfew⟩ s hs
      exact ⟨hall s hs, of_decide_eq_true (hfew s hs)⟩

end Batch

namespace Valuation

variable {batch : Batch} {e : Expression} {limit n : Nat}

theorem available_of_forall_length (hne : batch.values ≠ [])
    (h : ∀ series ∈ batch.values, series.length = n) : available batch = n := by
  have hfold : ∀ lengths : List Nat, (∀ l ∈ lengths, l = n) → lengths.foldl min n = n := by
    intro lengths hlengths
    induction lengths with
    | nil => rfl
    | cons l rest ih =>
      rw [List.foldl_cons, hlengths l List.mem_cons_self, Nat.min_self]
      exact ih fun l hl => hlengths l (List.mem_cons_of_mem _ hl)
  unfold available
  rcases hvalues : batch.values with _ | ⟨series, rest⟩
  · exact absurd hvalues hne
  · rw [hvalues] at h
    rw [List.map_cons, h series List.mem_cons_self]
    refine hfold _ ?_
    intro l hl
    obtain ⟨other, hother, rfl⟩ := List.mem_map.mp hl
    exact h other (List.mem_cons_of_mem _ hother)

/-- Where all series have the same times, there are as many points as times. -/
theorem available_of_times {names : List String} {times : List Instant}
    (hnames : batch.names.Perm names) (hne : names ≠ [])
    (h : ∀ series ∈ batch.values, series.times = times) : available batch = times.length := by
  refine available_of_forall_length ?_ ?_
  · intro hvalues
    have hentries : batch.entries = [] := List.map_eq_nil_iff.mp hvalues
    rw [Named.names, hentries] at hnames
    exact hne hnames.symm.eq_nil
  · intro series hseries
    rw [← h series hseries, Series.times, List.length_map]

/-- An evaluation finds too little data exactly when it has fewer points than it needs. -/
theorem insufficientData_iff (hlimit : 0 < limit) :
    (∃ needed found, ofBatch e batch limit = .error (.insufficientData needed found)) ↔
      available batch < limit := by
  unfold ofBatch
  rw [if_neg hlimit.ne']
  split
  · rename_i hfew
    exact ⟨fun _ => hfew, fun _ => ⟨_, _, rfl⟩⟩
  · rename_i henough
    refine ⟨?_, fun hfew => absurd hfew henough⟩
    rintro ⟨needed, found, h⟩
    split at h <;> cases h

end Valuation

end Vigil
