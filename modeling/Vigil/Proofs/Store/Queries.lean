import Vigil.Proofs.Series.Trimming
import Vigil.Proofs.Store.Readings

/-!
# Two stores that answer queries alike

An answer is made of the points within the range of the query. Both stores find the same of them, in
order of time; no two have one time, so the order is the same as well. A group that is asked for by a name
with a comma, or by none, is another matter: tables find it in the text of a list without it, where its
segments stand in a row.
-/

namespace Vigil

namespace Query

/-- Points outside the range of a query do not count. -/
theorem answer_congr {q : Query} {f : Filter} {raw raw' : List Point}
    (h : Bucket.within (q.rawStart f) q.stop raw = Bucket.within (q.rawStart f) q.stop raw') :
    q.answer f raw = q.answer f raw' := by
  have hbuckets : Bucket.ofPoints raw (q.rawStart f) q.stop q.bucketSeconds =
      Bucket.ofPoints raw' (q.rawStart f) q.stop q.bucketSeconds := by
    unfold Bucket.ofPoints
    rw [h]
  have hgrouped : ∀ selector, q.grouped selector f raw = q.grouped selector f raw' := by
    intro selector
    rw [grouped, grouped, hbuckets]
  unfold answer unlimited
  simp only [hgrouped]

end Query

namespace Bucket

/-- Of points within a range the milliseconds lie within it as well. -/
theorem within_filter_millis {start stop : Instant} (points : List Point) :
    within start stop (points.filter fun p =>
      start.millis ≤ p.time.millis && p.time.millis ≤ stop.millis) = within start stop points := by
  rw [within, within, List.filter_filter]
  refine List.filter_congr ?_
  intro p _
  rw [Bool.and_eq_left_iff_imp]
  intro hp
  simp only [Bool.and_eq_true, decide_eq_true_iff, Instant.le_def] at hp ⊢
  exact ⟨Int.ediv_le_ediv (by decide) hp.1, Int.ediv_le_ediv (by decide) hp.2⟩

/-- Of points with distinct times the sorted lists are the same within a range, even if one lacks
those whose millisecond lies outside. -/
theorem within_eq {points all some : List Point} {start stop : Instant}
    (htimes : (points.map Point.time).Nodup) (hall : all.Perm points)
    (hsome : some.Perm (points.filter fun p =>
      start.millis ≤ p.time.millis && p.time.millis ≤ stop.millis))
    (hallSorted : all.Pairwise fun p q => p.time ≤ q.time)
    (hsomeSorted : some.Pairwise fun p q => p.time ≤ q.time) :
    within start stop all = within start stop some := by
  have hperm : (within start stop all).Perm (within start stop some) := by
    refine (hall.filter _).trans (.trans (.of_eq ?_) (hsome.filter _).symm)
    exact (within_filter_millis points).symm
  refine hperm.eq_of_pairwise ?_ (hallSorted.filter _) (hsomeSorted.filter _)
  intro p q hp hq hpq hqp
  -- points of one time are one point
  have hmem : ∀ p ∈ within start stop all, p ∈ points := fun p hp =>
    hall.subset (List.mem_of_mem_filter hp)
  refine List.inj_on_of_nodup_map htimes (hmem p hp) (hmem q (hperm.symm.subset hq)) ?_
  exact Instant.ext (Int.le_antisymm hpq hqp)

end Bucket

namespace Measurement

variable {ws : List Measurement}

/-- The points of one device under a name have distinct times. -/
theorem Regular.nodup_times (h : Regular ws) (device key : String) :
    (((ws.flatMap readings).filter (Reading.isWanted (.device device) key)).map
      fun r => r.point.time).Nodup := by
  have hplaces := h.once.sublist (List.Sublist.map Reading.place
    (List.filter_sublist (p := Reading.isWanted (.device device) key)))
  rw [List.Nodup, List.pairwise_map] at hplaces ⊢
  refine hplaces.imp_of_mem ?_
  intro r s hr hs hne htime
  have hr := (List.mem_filter.mp hr).2
  have hs := (List.mem_filter.mp hs).2
  simp only [Reading.isWanted, Bool.and_eq_true, decide_eq_true_iff] at hr hs
  exact hne (by rw [Reading.place, Reading.place, hr.1, hr.2, hs.1, hs.2, htime])

end Measurement

open Measurement (Regular)

/-- After the same writes both stores give the same answer to every query, be it a list of series or a
failure. Names of groups are not empty and have no comma where they are written; where one that is asked
for is empty or has a comma, it is not read in the text of any list. In a group that is asked for no two
points of one name have one time. -/
theorem stores_query_alike (ws : List Measurement) (hregular : Regular ws) (q : Query)
    (hname : ∀ group, q.source = .group group → ¬ Groups.Proper group →
      ∀ w ∈ ws, ¬ Groups.segments group <:+: Groups.listed w.groups)
    (hapart : ∀ group, q.source = .group group → ∀ key,
      (((ws.flatMap Measurement.readings).filter (Reading.isWanted (.group group) key)).map
        fun r => r.point.time).Nodup) :
    ∃ m t, ws.foldlM Memory.write .empty = .ok m ∧ ws.foldlM Tables.write .empty = .ok t ∧
      m.query q = t.query q := by
  have hall : Regular ([] ++ ws) := by rwa [List.nil_append]
  have hempty : Tables.empty.values =
      (([] : List Measurement).flatMap Measurement.readings).map Reading.row := rfl
  obtain ⟨m, hm, hkeeps⟩ := Memory.keeps_empty.writes hall
  obtain ⟨t, ht, hvalues⟩ := Tables.writes hempty hall
  rw [List.nil_append] at hkeeps hvalues
  refine ⟨m, t, hm, ht, ?_⟩
  have htimes : ∀ r ∈ ws.flatMap Measurement.readings, r.point.time.OnMillis := by
    intro r hr
    obtain ⟨w, hw, hr⟩ := List.mem_flatMap.mp hr
    obtain ⟨e, -, rfl⟩ := List.mem_map.mp hr
    exact hregular.times w hw
  have hfound : ∀ r ∈ ws.flatMap Measurement.readings, ∀ g, q.source = .group g →
      Groups.segments g <:+: Groups.listed r.groups → g ∈ r.groups := by
    intro r hr g hsource hsegments
    obtain ⟨w, hw, hr⟩ := List.mem_flatMap.mp hr
    obtain ⟨e, -, rfl⟩ := List.mem_map.mp hr
    by_cases hproper : Groups.Proper g
    · exact hproper.mem_of_segments (hregular.names w hw) hsegments
    · exact absurd hsegments (hname g hsource hproper w hw)
  refine congrArg (List.mapM · q.filters) (funext fun f => ?_)
  obtain ⟨points, hraw, hperm, hsorted⟩ :=
    Tables.raw_of_readings hvalues htimes hfound f.key (q.rawStart f) q.stop
  have hnodup : (((ws.flatMap Measurement.readings).filter
      (Reading.isWanted q.source f.key)).map fun r => r.point.time).Nodup := by
    cases hsource : q.source with
    | device device => exact hregular.nodup_times device f.key
    | group group => exact hapart group hsource f.key
  have hall : (m.raw q.source f.key).Perm
      (((ws.flatMap Measurement.readings).filter (Reading.isWanted q.source f.key)).map
        Reading.point) :=
    (m.perm_raw q.source f.key).trans ((hkeeps.readings.filter _).map _)
  have hwithin := Bucket.within_eq (by rwa [List.map_map]) hall hperm (m.sorted_raw q.source f.key)
    hsorted
  rw [hraw]
  show _ = (q.answer f points).mapError AlarmError.condition
  rw [Query.answer_congr hwithin]

/-- Two devices of a group, one of which writes late, and a query from between two milliseconds. -/
theorem stores_query_alike_late_write :
    let at_ (nanos : Nat) : Instant := (Instant.ofNanos? nanos).getD .epoch
    let values (v : Float) : Named Float := .ofList [("t", v)]
    let ws : List Measurement :=
      [⟨"d1", ["hall", "site"], values 1.5, at_ 5000000⟩, ⟨"d2", ["site"], values 2.5, at_ 7000000⟩,
        ⟨"d1", ["hall", "site"], values 3.5, at_ 3000000⟩]
    let q : Query :=
      { source := .group "site", filters := [⟨"last", none, "t", none⟩], start := at_ 3500000,
        stop := at_ 7000000, interval := .ofSeconds 1, limit := 5, retention := "r" }
    Regular ws ∧
      ∃ m t, ws.foldlM Memory.write .empty = .ok m ∧ ws.foldlM Tables.write .empty = .ok t ∧
        m.query q = t.query q := by
  intro at_ values ws q
  have hregular : Regular ws :=
    { times := by decide
      once := by decide
      sameGroups := by decide
      names := by decide
      values := by decide
      room := fun _ _ => (List.length_filter_le _ _).trans (by decide) }
  have htimes : ((ws.flatMap Measurement.readings).map fun r => r.point.time).Nodup := by decide
  refine ⟨hregular, stores_query_alike ws hregular q ?_ ?_⟩
  · rintro group ⟨⟩ himproper
    exact absurd (by decide) himproper
  · intro group _ key
    exact htimes.sublist (List.filter_sublist.map _)

open Query (second)

/-- One value of a device. -/
def single : Measurement := ⟨"d1", ["g"], .ofList [("t", 1)], second 1700000040⟩

def singlePoint : Point := ⟨second 1700000040, 1⟩

def minuteSum : Query :=
  { source := .group "g", filters := [⟨"sum", none, "t", none⟩], start := second 1700000040,
    stop := second 1700000099, interval := .ofSeconds 60, limit := 10, retention := "raw" }

section MinuteSum

variable {source : Source} {raw : List Point} {series : Series}

theorem Memory.query_minuteSum {m : Memory} (hraw : m.raw source "t" = raw)
    (hanswer : minuteSum.answer ⟨"sum", none, "t", none⟩ raw = .ok series) :
    m.query { minuteSum with source } = .ok [series] := by
  show [(⟨"sum", none, "t", none⟩ : Filter)].mapM (fun f =>
    (minuteSum.answer f (m.raw source f.key)).mapError AlarmError.condition) = _
  simp only [List.mapM_cons, List.mapM_nil, hraw, hanswer]
  rfl

theorem Tables.query_minuteSum {t : Tables}
    (hraw : t.raw source "t" minuteSum.start minuteSum.stop = .ok raw)
    (hanswer : minuteSum.answer ⟨"sum", none, "t", none⟩ raw = .ok series) :
    t.query { minuteSum with source } = .ok [series] := by
  have hread : (do
      let raw ← Tables.lift (t.raw source "t" minuteSum.start minuteSum.stop)
      (minuteSum.answer ⟨"sum", none, "t", none⟩ raw).mapError AlarmError.condition) = .ok series := by
    rw [hraw]
    exact congrArg (Except.mapError AlarmError.condition) hanswer
  show [(⟨"sum", none, "t", none⟩ : Filter)].mapM (fun f => do
    let raw ← Tables.lift (t.raw source f.key (minuteSum.rawStart f) minuteSum.stop)
    (minuteSum.answer f raw).mapError AlarmError.condition) = _
  simp only [List.mapM_cons, List.mapM_nil, show minuteSum.rawStart ⟨"sum", none, "t", none⟩ =
    minuteSum.start from rfl, hread]
  rfl

/-- Under a name that is read in the text of its groups the value is found. -/
theorem Tables.raw_single {t : Tables} {groups : List String} {group : String}
    (hvalues : t.values = Tables.valueRows { single with groups })
    (hheld : Groups.holds (Groups.encode groups) group = true) :
    t.raw (.group group) "t" minuteSum.start minuteSum.stop = .ok [singlePoint] := by
  have hrows : t.values.filter (fun r => r.key = "t" && Tables.isOf (.group group) r &&
      minuteSum.start.millis ≤ r.timestamp && r.timestamp ≤ minuteSum.stop.millis) =
      Tables.valueRows { single with groups } := by
    rw [hvalues, List.filter_eq_self]
    intro r hr
    obtain rfl := List.mem_singleton.mp hr
    show (true && Groups.holds (Groups.encode groups) group && true && true) = true
    rw [hheld]
    rfl
  have hsorted : (Tables.valueRows { single with groups }).Pairwise fun r s =>
      decide (r.timestamp ≤ s.timestamp) = true := List.pairwise_singleton _ _
  rw [Tables.raw, hrows, List.mergeSort_of_pairwise hsorted]
  rfl

theorem answer_minuteSum_nothing : minuteSum.answer ⟨"sum", none, "t", none⟩ [] = .ok [] := by
  show Except.ok (Query.lastOf 10 (minuteSum.grouped .sum ⟨"sum", none, "t", none⟩ [])) = _
  rw [Query.grouped, Bucket.ofPoints_of_pairwise .nil]
  rfl

theorem answer_minuteSum_single :
    minuteSum.answer ⟨"sum", none, "t", none⟩ [singlePoint] = .ok [singlePoint] := by
  show Except.ok (Query.lastOf 10 (minuteSum.grouped .sum ⟨"sum", none, "t", none⟩ [singlePoint])) = _
  rw [Query.grouped, Bucket.ofPoints_of_pairwise (by decide)]
  rfl

end MinuteSum

/-- A value of the groups `a` and `b` is read under the group `a,b` as well, by tables only. -/
theorem names_in_a_row_read_as_one :
    let ws : List Measurement := [{ single with groups := ["a", "b"] }]
    let q : Query := { minuteSum with source := .group "a,b" }
    Regular ws ∧
      (∀ key, (((ws.flatMap Measurement.readings).filter
        (Reading.isWanted (.group "a,b") key)).map fun r => r.point.time).Nodup) ∧
      ∃ m t, ws.foldlM Memory.write .empty = .ok m ∧ ws.foldlM Tables.write .empty = .ok t ∧
        m.query q = .ok [[]] ∧ t.query q = .ok [[singlePoint]] := by
  intro ws q
  have hregular : Regular ws :=
    { times := by decide
      once := by decide
      sameGroups := by decide
      names := by decide
      values := by decide
      room := fun _ _ => (List.length_filter_le _ _).trans (by decide) }
  have htimes : ((ws.flatMap Measurement.readings).map fun r => r.point.time).Nodup := by decide
  refine ⟨hregular, fun key => htimes.sublist (List.filter_sublist.map _), _, _, rfl, rfl, ?_, ?_⟩
  · refine Memory.query_minuteSum ?_ answer_minuteSum_nothing
    exact List.mergeSort_of_pairwise .nil
  · exact Tables.query_minuteSum (Tables.raw_single rfl (by decide)) answer_minuteSum_single

end Vigil
