import Vigil.Proofs.Store.Repeated

/-!
# What a query by group reads

Every row of a table is one of some measurement and carries the text of its list of groups. A query by
group reads the rows whose text has the name that is asked for. So it reads all rows of the group, and in
addition those of lists among whose segments the segments of the name stand in a row: of names without
commas these are the rows of the group alone, but a list with the name `a,b` is read under `a` as well.
-/

namespace Vigil

open Repository (receive receiveAll)

namespace Tables

variable {t : Tables} {w : Measurement} {r row : ValueRow} {rows new : List ValueRow}

theorem mem_putValue (h : r ∈ putValue row rows) : r = row ∨ r ∈ rows := by
  induction rows with
  | nil => exact .inl (List.mem_singleton.mp h)
  | cons s rest ih =>
    rw [putValue] at h
    split at h
    · exact (List.mem_cons.mp h).imp_right (List.mem_cons_of_mem s)
    · rcases List.mem_cons.mp h with rfl | h
      · exact .inr List.mem_cons_self
      · exact (ih h).imp_right (List.mem_cons_of_mem s)

theorem mem_foldl_putValue (h : r ∈ new.foldl (fun rows row => putValue row rows) rows) :
    r ∈ new ∨ r ∈ rows := by
  induction new generalizing rows with
  | nil => exact .inr h
  | cons row new ih =>
    rcases ih h with h | h
    · exact .inl (List.mem_cons_of_mem row h)
    · rcases mem_putValue h with rfl | h
      · exact .inl List.mem_cons_self
      · exact .inr h

/-- A measurement adds no rows but its own. -/
theorem mem_receive (h : r ∈ (receive t w).values) : r ∈ valueRows w ∨ r ∈ t.values := by
  cases hwrite : Repository.write t w with
  | error cause =>
    rw [receive, hwrite] at h
    exact .inr h
  | ok after =>
    rw [receive, hwrite] at h
    have hafter : t.write w = .ok after := hwrite
    unfold write at hafter
    split at hafter
    · cases hafter
    · cases hafter
      exact mem_foldl_putValue h

/-- Every row is one of a measurement that was received. -/
theorem exists_of_mem_receiveAll {ws : List Measurement} (h : r ∈ (receiveAll t ws).values) :
    r ∈ t.values ∨ ∃ w ∈ ws, r ∈ valueRows w := by
  induction ws generalizing t with
  | nil => exact .inl h
  | cons w ws ih =>
    rcases ih h with h | ⟨v, hv, hr⟩
    · rcases mem_receive h with h | h
      · exact .inr ⟨w, List.mem_cons_self, h⟩
      · exact .inl h
    · exact .inr ⟨v, List.mem_cons_of_mem w hv, hr⟩

theorem of_mem_valueRows (h : r ∈ valueRows w) :
    r.groups = Groups.encode w.groups ∧ r.timestamp = w.time.millis := by
  obtain ⟨e, -, rfl⟩ := List.mem_map.mp h
  exact ⟨rfl, rfl⟩

/-- The point of a row, at the start of a millisecond. -/
def pointOf (r : ValueRow) : Point :=
  ⟨(Instant.ofMillis? r.timestamp).getD .epoch, r.value⟩

theorem ofMillis?_millis (time : Instant) : Instant.ofMillis? time.millis = some time.floored :=
  Instant.ofNanos?_eq_some (n := time.millis * nanosPerMilli) (t := time.floored) |>.mpr rfl

/-- The points that are read of a source are those of its rows in the range. -/
theorem exists_raw (source : Source) (key : String) (start stop : Instant)
    (htimes : ∀ r ∈ t.values, ∃ time : Instant, r.timestamp = time.millis) :
    ∃ points, t.raw source key start stop = .ok points ∧ ∀ p, p ∈ points ↔
      ∃ r ∈ t.values, r.key = key ∧ isOf source r = true ∧ start.millis ≤ r.timestamp ∧
        r.timestamp ≤ stop.millis ∧ pointOf r = p := by
  obtain ⟨rows, hrows⟩ : ∃ rows, rows = (t.values.filter fun r => r.key = key && isOf source r &&
      start.millis ≤ r.timestamp && r.timestamp ≤ stop.millis).mergeSort
        fun r s => decide (r.timestamp ≤ s.timestamp) := ⟨_, rfl⟩
  have hmem : ∀ r, r ∈ rows ↔ r ∈ t.values ∧ r.key = key ∧ isOf source r = true ∧
      start.millis ≤ r.timestamp ∧ r.timestamp ≤ stop.millis := by
    intro r
    rw [hrows, List.mem_mergeSort, List.mem_filter]
    simp only [Bool.and_eq_true, decide_eq_true_iff, and_assoc]
  have hread : ∀ r ∈ rows, (do return ⟨← Instant.ofStored r.timestamp, r.value⟩ :
      Except StorageError Point) = .ok (pointOf r) := by
    intro r hr
    obtain ⟨time, htime⟩ := htimes r ((hmem r).mp hr).1
    rw [pointOf, Instant.ofStored, htime, ofMillis?_millis]
    rfl
  refine ⟨rows.map pointOf, ?_, ?_⟩
  · rw [raw, ← hrows]
    exact mapM_eq_ok_iff.mpr (List.forall₂_map_right_iff.mpr (List.forall₂_same.mpr hread))
  · intro p
    simp only [List.mem_map, hmem, and_assoc]

end Tables

open Groups (Whole segments listed)

/-- The text of a list of groups has a name exactly when the segments of the name, cut at its commas, stand
in a row among those of the list. So it has every group of the list, and among names without commas no
other, the empty name apart when there are no groups. Whatever was measured, a query by group reads the
points of the rows whose measurement lists groups with such segments. -/
theorem groups_read_by_segments (g : String) :
    (∀ groups, (Groups.holds (Groups.encode groups) g = true ↔ segments g <:+: listed groups) ∧
      (g ∈ groups → Groups.holds (Groups.encode groups) g = true) ∧
      (Whole g → (∀ name ∈ groups, Whole name) → (groups = [] → g ≠ "") →
        (Groups.holds (Groups.encode groups) g = true ↔ g ∈ groups))) ∧
    ∀ (ws : List Measurement) (key : String) (start stop : Instant),
      ∃ points, (receiveAll Tables.empty ws).raw (.group g) key start stop = .ok points ∧
        ∀ p, p ∈ points ↔ ∃ r ∈ (receiveAll Tables.empty ws).values, ∃ w ∈ ws,
          r ∈ Tables.valueRows w ∧ r.key = key ∧ segments g <:+: listed w.groups ∧
          start.millis ≤ w.time.millis ∧ w.time.millis ≤ stop.millis ∧
          p = ⟨w.time.floored, r.value⟩ := by
  refine ⟨fun groups => ⟨Groups.holds_encode_iff groups g, Groups.holds_encode_of_mem,
    fun hg hgroups hne => Groups.holds_encode_iff_mem hgroups hg hne⟩, ?_⟩
  intro ws key start stop
  have hstem : ∀ r ∈ (receiveAll Tables.empty ws).values, ∃ w ∈ ws, r ∈ Tables.valueRows w := by
    intro r hr
    exact (Tables.exists_of_mem_receiveAll hr).resolve_left List.not_mem_nil
  obtain ⟨points, hraw, hpoints⟩ := Tables.exists_raw (.group g) key start stop
    (t := receiveAll Tables.empty ws) fun r hr => by
      obtain ⟨w, -, hw⟩ := hstem r hr
      exact ⟨w.time, (Tables.of_mem_valueRows hw).2⟩
  refine ⟨points, hraw, fun p => (hpoints p).trans ?_⟩
  -- the row of a measurement says its groups and its time
  have hrow : ∀ w r, r ∈ Tables.valueRows w →
      (Tables.isOf (.group g) r = true ↔ segments g <:+: listed w.groups) ∧
        r.timestamp = w.time.millis ∧ Tables.pointOf r = ⟨w.time.floored, r.value⟩ := by
    intro w r hr
    obtain ⟨hgroups, htime⟩ := Tables.of_mem_valueRows hr
    refine ⟨?_, htime, ?_⟩
    · rw [Tables.isOf, hgroups]
      exact Groups.holds_encode_iff w.groups g
    · rw [Tables.pointOf, htime, Tables.ofMillis?_millis]
      rfl
  constructor
  · rintro ⟨r, hr, hkey, hgroup, hstart, hstop, hp⟩
    obtain ⟨w, hw, hwr⟩ := hstem r hr
    obtain ⟨hsegments, htime, hpoint⟩ := hrow w r hwr
    rw [htime] at hstart hstop
    exact ⟨r, hr, w, hw, hwr, hkey, hsegments.mp hgroup, hstart, hstop, by rw [← hp, hpoint]⟩
  · rintro ⟨r, hr, w, -, hwr, hkey, hgroup, hstart, hstop, rfl⟩
    obtain ⟨hsegments, htime, hpoint⟩ := hrow w r hwr
    rw [← htime] at hstart hstop
    exact ⟨r, hr, hkey, hsegments.mpr hgroup, hstart, hstop, hpoint⟩

/-- Names that begin alike, and the empty name, are kept apart. -/
theorem groups_read_by_segments_hall :
    let at_ (nanos : Nat) : Instant := (Instant.ofNanos? nanos).getD .epoch
    let values (v : Float) : Named Float := .ofList [("t", v)]
    let ws : List Measurement :=
      [⟨"d1", ["hall2", ""], values 1.5, at_ 5000000⟩, ⟨"d2", ["site", "hall"], values 2.5, at_ 7300000⟩]
    (∀ w ∈ ws, ∀ name ∈ w.groups, Whole name) ∧
      (∀ w ∈ ws, Groups.holds (Groups.encode w.groups) "hall" = true ↔ "hall" ∈ w.groups) ∧
      ∃ points, (receiveAll Tables.empty ws).raw (.group "hall") "t" .first .last = .ok points ∧
        ⟨at_ 7000000, 2.5⟩ ∈ points := by
  intro at_ values ws
  obtain ⟨hfound, hread⟩ := groups_read_by_segments "hall"
  have hwhole : ∀ w ∈ ws, ∀ name ∈ w.groups, Whole name := by decide
  obtain ⟨points, hraw, hpoints⟩ := hread ws "t" .first .last
  refine ⟨hwhole, fun w hw => (hfound w.groups).2.2 (by decide) (hwhole w hw) (fun _ => by decide), points,
    hraw, (hpoints _).mpr ?_⟩
  have hvalue : (if (2.5 : Float) == 0.0 then 0.0 else 2.5) = (2.5 : Float) := if_neg (by decide)
  exact ⟨⟨"d2", Groups.encode ["site", "hall"], "t", 7, if (2.5 : Float) == 0.0 then 0.0 else 2.5⟩,
    List.mem_cons_of_mem _ List.mem_cons_self, _, List.mem_cons_of_mem _ List.mem_cons_self,
    List.mem_cons_self, rfl, by decide, by decide, by decide, by rw [hvalue]; rfl⟩

/-- A value of a group whose name has a comma. -/
def joint : Measurement :=
  { single with groups := ["a,b"] }

/-- The sum over the minute of the value, asked for under the front of the name. -/
def frontSum : Query :=
  { minuteSum with source := .group "a" }

/-- A value of the group `a,b` alone is read under the group `a`, by tables only. -/
theorem name_read_under_front :
    joint.groups.contains "a" = false ∧
      Groups.holds (Groups.encode joint.groups) "a" = true ∧
      (receiveAll .empty [joint] : Memory).query frontSum = .ok [[]] ∧
      (receiveAll .empty [joint] : Tables).query frontSum = .ok [[singlePoint]] := by
  have hnone : (receiveAll .empty [joint] : Memory).raw (.group "a") "t" = [] := by
    rw [Memory.raw_eq, inOrder_of_pairwise]
    · rfl
    · decide
  refine ⟨by decide, by decide, Memory.query_minuteSum hnone answer_minuteSum_nothing, ?_⟩
  exact Tables.query_minuteSum (Tables.raw_single rfl (by decide)) answer_minuteSum_single

end Vigil
