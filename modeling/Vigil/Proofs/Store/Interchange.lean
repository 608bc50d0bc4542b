import Vigil.Proofs.Store.Guards
import Vigil.Proofs.Store.Rows

/-!
# Two stores that answer alike

The store in memory keeps each alarm with its history, the store in tables keeps rows of both. They
mirror each other when the rows are those of the alarms, in the same order, and the rows of the entries
of each alarm are those of its history. Every request keeps this so and is answered alike, hence so is
every sequence of requests that starts from nothing.
-/

namespace Vigil

/-- The failures are of one kind: they are the same, or something was not found in both. -/
def AlarmError.Alike (e f : AlarmError) : Prop :=
  e = f ∨ ∃ what what', e = .notFound what ∧ f = .notFound what'

/-- What a store is asked about alarms. -/
inductive AlarmRequest where
  | call (c : Call)
  | alarm (id : Uuid)
  | due (minInterval : Span) (now : Instant)
  | history (id : Uuid) (limit : Nat)
  | historySize (id : Uuid)

/-- What a store answers. -/
inductive AlarmAnswer where
  | done
  | alarms (as : List Alarm)
  | entries (es : List Entry)
  | size (n : Nat)

namespace Repository

variable {σ : Type} [Repository σ]

def ask (store : σ) : AlarmRequest → Except AlarmError (AlarmAnswer × σ)
  | .call (.create a) => (createAlarm store a).map fun after => (.alarms [a], after)
  | .call (.fire id value time) => (fire store id value time).map fun r => (.entries [r.1], r.2)
  | .call (.clear id time) => (clear store id time).map fun r => (.entries [r.1], r.2)
  | .call (.markRun id time) => (markRun store id time).map fun after => (.done, after)
  | .alarm id => (alarm store id).map fun a => (.alarms [a], store)
  | .due minInterval now => (dueAlarms store minInterval now).map fun as => (.alarms as, store)
  | .history id limit => (history store id limit).map fun es => (.entries es, store)
  | .historySize id => (historySize store id).map fun n => (.size n, store)

/-- The store that a request leaves. A request that fails changes nothing. -/
def left (store : σ) (r : AlarmRequest) : σ :=
  match ask store r with
  | .ok (_, after) => after
  | .error _ => store

def answers (store : σ) : List AlarmRequest → List (Except AlarmError AlarmAnswer)
  | [] => []
  | r :: rest => (ask store r).map Prod.fst :: answers (left store r) rest

theorem left_of_ok {store after : σ} {r : AlarmRequest} {x : AlarmAnswer}
    (h : ask store r = .ok (x, after)) : left store r = after := by
  rw [left, h]

theorem left_of_error {store : σ} {r : AlarmRequest} {cause : AlarmError}
    (h : ask store r = .error cause) : left store r = store := by
  rw [left, h]

end Repository

namespace AlarmAnswer

/-- What an answer says about stored fields, entries apart from their own identifiers. -/
def recorded : AlarmAnswer → AlarmAnswer
  | done => done
  | alarms as => alarms (as.map Alarm.recorded)
  | entries es => entries (es.map Entry.unnumbered)
  | size n => size n

/-- The answers say the same, or both requests fail with one kind of failure. -/
def Alike : Except AlarmError AlarmAnswer → Except AlarmError AlarmAnswer → Prop
  | .ok x, .ok y => x.recorded = y.recorded
  | .error e, .error f => e.Alike f
  | _, _ => False

end AlarmAnswer

namespace AlarmRequest

def page? : AlarmRequest → Option Uuid
  | history id _ | historySize id => some id
  | _ => none

/-- The times of a request are on whole milliseconds, and an alarm that is created is new and can be
kept. -/
def Regular : AlarmRequest → Prop
  | call (.create a) => a.fired = false ∧ a.history = [] ∧ a.Keepable
  | call (.fire _ _ time) | call (.clear _ time) | call (.markRun _ time) => time.OnMillis
  | due minInterval now => minInterval.OnMillis ∧ now.OnMillis
  | alarm _ | history _ _ | historySize _ => True

end AlarmRequest

open Repository (ask left answers left_of_ok left_of_error)

/-- The tables hold the rows of what the memory holds. -/
structure Mirrors (m : Memory) (t : Tables) : Prop where
  coherent : m.Coherent
  keepable : ∀ a ∈ m.alarms, a.Keepable
  alarms : t.alarms = m.alarms.map AlarmRow.ofAlarm
  entries : ∀ a ∈ m.alarms, t.entriesOf a.id = a.history.map EntryRow.ofEntry
  owned : ∀ r ∈ t.entries, ∃ a ∈ m.alarms, r.alarmId = a.id.text
  numbered : t.entries.map EntryRow.id = (List.range m.entriesMade).map fun n => (Uuid.ofNat n).text

theorem mirrors_empty : Mirrors .empty .empty where
  coherent := Memory.coherent_empty
  keepable _ h := absurd h List.not_mem_nil
  alarms := rfl
  entries _ h := absurd h List.not_mem_nil
  owned _ h := absurd h List.not_mem_nil
  numbered := rfl

theorem Uuid.text_eq_iff {a b : Uuid} : a.text = b.text ↔ a = b :=
  ⟨text_injective, fun h => by rw [h]⟩

theorem Uuid.ofNat_injOn {n k : Nat} (hn : n < idLimit) (hk : k < idLimit) (h : ofNat n = ofNat k) :
    n = k := by
  have hvalue := congrArg Uuid.value h
  simpa only [ofNat, Nat.mod_eq_of_lt hn, Nat.mod_eq_of_lt hk] using hvalue

/-- Identifiers that are counted up are different. -/
theorem Uuid.nodup_numbered {n : Nat} (h : n ≤ idLimit) : ((List.range n).map ofNat).Nodup := by
  refine List.Nodup.map_on ?_ List.nodup_range
  intro i hi j hj heq
  rw [List.mem_range] at hi hj
  exact ofNat_injOn (by omega) (by omega) heq

section Rows

variable {α β : Type} (row : α → β) (textOf : β → String) (idOf : α → Uuid)
  (h : ∀ a, textOf (row a) = (idOf a).text) (as : List α) (id : Uuid)

include h

theorem comp_row : (fun r => decide (textOf r = id.text)) ∘ row = fun a => decide (idOf a = id) := by
  funext a
  simp only [Function.comp_apply, h, Uuid.text_eq_iff]

/-- Among rows the text of an identifier finds the row of what the identifier finds among records. -/
theorem find?_rows :
    (as.map row).find? (fun r => textOf r = id.text) = (as.find? fun a => idOf a = id).map row := by
  rw [List.find?_map, comp_row row textOf idOf h]

theorem filter_rows :
    (as.map row).filter (fun r => textOf r = id.text) = (as.filter fun a => idOf a = id).map row := by
  rw [List.filter_map, comp_row row textOf idOf h]

theorem any_rows_iff :
    (as.map row).any (fun r => textOf r = id.text) = true ↔ ∃ a ∈ as, idOf a = id := by
  rw [List.any_map, comp_row row textOf idOf h, List.any_eq_true]
  simp only [decide_eq_true_iff]

end Rows

namespace Mirrors

variable {m : Memory} {t : Tables} {a b : Alarm} {id : Uuid} {time : Instant}

theorem length_entries (h : Mirrors m t) : t.entries.length = m.entriesMade := by
  have hlength := congrArg List.length h.numbered
  simpa using hlength

theorem hasAlarm_iff (h : Mirrors m t) : t.hasAlarm id = true ↔ ∃ a ∈ m.alarms, a.id = id := by
  rw [Tables.hasAlarm, h.alarms]
  exact any_rows_iff AlarmRow.ofAlarm AlarmRow.id Alarm.id (fun _ => rfl) m.alarms id

theorem hasAlarm_of_stored (h : Mirrors m t) (hstored : m.stored id = .ok a) :
    t.hasAlarm id = true :=
  h.hasAlarm_iff.mpr ⟨a, Memory.mem_of_stored hstored⟩

theorem not_hasAlarm (h : Mirrors m t) (hnone : ∀ a ∈ m.alarms, a.id ≠ id) : t.hasAlarm id = false := by
  rw [← Bool.not_eq_true, h.hasAlarm_iff]
  rintro ⟨a, ha, hid⟩
  exact hnone a ha hid

/-- Rows of entries belong to alarms that are there. -/
theorem entriesOf_eq_nil (h : Mirrors m t) (hnone : ∀ a ∈ m.alarms, a.id ≠ id) :
    t.entriesOf id = [] := by
  refine List.filter_eq_nil_iff.mpr ?_
  intro r hr
  obtain ⟨a, ha, howner⟩ := h.owned r hr
  rw [decide_eq_true_iff, howner, Uuid.text_eq_iff]
  exact hnone a ha

theorem find?_alarms (h : Mirrors m t) (id : Uuid) :
    t.alarms.find? (fun r => r.id = id.text) =
      (m.alarms.find? fun a => a.id = id).map AlarmRow.ofAlarm := by
  rw [h.alarms]
  exact find?_rows AlarmRow.ofAlarm AlarmRow.id Alarm.id (fun _ => rfl) m.alarms id

theorem find?_open (h : Mirrors m t) (ha : a ∈ m.alarms) :
    t.entries.find? (Tables.isOpenOf a.id) = a.openEntry?.map EntryRow.ofEntry := by
  have hsplit : t.entries.find? (Tables.isOpenOf a.id) =
      (t.entriesOf a.id).find? fun r => !r.cleared := by
    rw [Tables.entriesOf, List.find?_filter]
    refine congrArg (List.find? · t.entries) ?_
    funext r
    rw [Tables.isOpenOf, Bool.decide_and, Bool.decide_eq_true, Bool.decide_eq_true]
  rw [hsplit, h.entries a ha, List.find?_map]
  rfl

theorem find?_open_eq_none (h : Mirrors m t) (hnone : ∀ a ∈ m.alarms, a.id ≠ id) :
    t.entries.find? (Tables.isOpenOf id) = none := by
  refine List.find?_eq_none.mpr ?_
  intro r hr hopen
  have hmem : r ∈ t.entriesOf id := by
    refine List.mem_filter.mpr ⟨hr, ?_⟩
    simp only [Tables.isOpenOf, Bool.and_eq_true] at hopen
    exact hopen.1
  rw [h.entriesOf_eq_nil hnone] at hmem
  cases hmem

theorem any_open_iff (h : Mirrors m t) (ha : a ∈ m.alarms) :
    t.entries.any (Tables.isOpenOf a.id) = true ↔ a.HasOpen := by
  rw [List.any_eq_true, ← List.find?_isSome, h.find?_open ha, Option.isSome_map, Alarm.hasOpen_iff,
    Option.isSome_iff_exists]

/-- Changing the row of an alarm is replacing the alarm. -/
theorem updateAlarm_alarms (h : Mirrors m t) (ha : a ∈ m.alarms) (hid : b.id = a.id)
    {change : AlarmRow → AlarmRow} (hchange : change (.ofAlarm a) = .ofAlarm b) :
    (t.updateAlarm a.id change).alarms = (m.replace b).alarms.map AlarmRow.ofAlarm := by
  rw [Memory.replace_alarms, Tables.updateAlarm, h.alarms, List.map_map, List.map_map]
  refine List.map_congr_left ?_
  intro c hc
  simp only [Function.comp_apply, hid]
  by_cases hsame : c.id = a.id
  · have hca : c = a := List.inj_on_of_nodup_map h.coherent.ids hc ha hsame
    have htext : (AlarmRow.ofAlarm a).id = a.id.text := rfl
    rw [hca, if_pos rfl, if_pos htext, hchange]
  · have htext : (AlarmRow.ofAlarm c).id ≠ a.id.text := fun htext => hsame (Uuid.text_injective htext)
    rw [if_neg hsame, if_neg htext]

/-- Alarms may be replaced by such that can be kept, if the rows follow. -/
theorem replace (h : Mirrors m t) (ha : a ∈ m.alarms) (hid : b.id = a.id) (hcoherent : b.Coherent)
    (hkeep : b.Keepable) {m' : Memory} {t' : Tables} (hm : m'.alarms = (m.replace b).alarms)
    (halarms : t'.alarms = (m.replace b).alarms.map AlarmRow.ofAlarm)
    (hself : t'.entriesOf a.id = b.history.map EntryRow.ofEntry)
    (hother : ∀ c ∈ m.alarms, c.id ≠ a.id → t'.entriesOf c.id = t.entriesOf c.id)
    (howned : ∀ r ∈ t'.entries, r.alarmId = a.id.text ∨ ∃ s ∈ t.entries, r.alarmId = s.alarmId)
    (hnumbered : t'.entries.map EntryRow.id =
      (List.range m'.entriesMade).map fun n => (Uuid.ofNat n).text) : Mirrors m' t' := by
  have hreplaced := h.coherent.replace hcoherent
  have hknown : ∀ c ∈ m.alarms, ∃ d ∈ m'.alarms, d.id = c.id := by
    intro c hc
    have hmap : c.id ∈ m'.alarms.map Alarm.id := by
      rw [hm, Memory.map_id_replace]
      exact List.mem_map_of_mem hc
    exact List.mem_map.mp hmap
  constructor
  · exact ⟨by rw [hm]; exact hreplaced.ids, by rw [hm]; exact hreplaced.alarms⟩
  · intro c hc
    rw [hm] at hc
    rcases Memory.mem_replace hc with rfl | ⟨hc, -⟩
    · exact hkeep
    · exact h.keepable c hc
  · rw [halarms, hm]
  · intro c hc
    rw [hm] at hc
    rcases Memory.mem_replace hc with rfl | ⟨hc, hne⟩
    · rw [hid, hself]
    · rw [hother c hc (hid ▸ hne), h.entries c hc]
  · intro r hr
    rcases howned r hr with hown | ⟨s, hs, hown⟩
    · obtain ⟨d, hd, hdid⟩ := hknown a ha
      exact ⟨d, hd, by rw [hown, hdid]⟩
    · obtain ⟨c, hc, hcid⟩ := h.owned s hs
      obtain ⟨d, hd, hdid⟩ := hknown c hc
      exact ⟨d, hd, by rw [hown, hcid, hdid]⟩
  · exact hnumbered

theorem create (h : Mirrors m t) (hnew : ∀ b ∈ m.alarms, b.id ≠ a.id) (hfired : a.fired = false)
    (hhistory : a.history = []) (hkeep : a.Keepable) :
    Mirrors { m with alarms := m.alarms ++ [a] } { t with alarms := t.alarms ++ [.ofAlarm a] } where
  coherent := by
    refine h.coherent.step (c := .create a) ?_ (.create hnew)
    rintro b ⟨⟩
    exact ⟨hfired, hhistory⟩
  keepable b hb := by
    rcases List.mem_append.mp hb with hb | hb
    · exact h.keepable b hb
    · rw [List.mem_singleton.mp hb]
      exact hkeep
  alarms := by simp [h.alarms]
  entries b hb := by
    rcases List.mem_append.mp hb with hb | hb
    · exact h.entries b hb
    · rw [List.mem_singleton.mp hb, hhistory]
      exact h.entriesOf_eq_nil hnew
  owned r hr := by
    obtain ⟨b, hb, hown⟩ := h.owned r hr
    exact ⟨b, List.mem_append_left _ hb, hown⟩
  numbered := h.numbered

theorem fire (h : Mirrors m t) (ha : a ∈ m.alarms) (hopen : ¬ a.HasOpen) (htime : time.OnMillis)
    (value : String) :
    Mirrors (m.opened a value time)
      { t.setFired a.id true time with
        entries := t.entries ++ [.ofEntry (.opened (.ofNat m.entriesMade) a.id value time)] } := by
  have hkeep := h.keepable a ha
  have hentry : (Entry.opened (.ofNat m.entriesMade) a.id value time).OnMillis :=
    ⟨htime, fun _ h => by cases h⟩
  refine h.replace (b := a.opened (.ofNat m.entriesMade) value time) ha rfl
    ((h.coherent.alarms a ha).opened hopen _ _ _) ?_ rfl
    (h.updateAlarm_alarms (b := a.opened (.ofNat m.entriesMade) value time) ha rfl rfl) ?_ ?_ ?_ ?_
  · refine { hkeep with updatedAt := htime, history := ?_ }
    intro e he
    rcases List.mem_append.mp he with he | he
    · exact hkeep.history e he
    · rw [List.mem_singleton.mp he]
      exact hentry
  · show (t.entries ++ [_]).filter _ = _
    rw [List.filter_append]
    show t.entriesOf a.id ++ _ = _
    rw [h.entries a ha]
    simp [Alarm.opened, EntryRow.ofEntry, Entry.opened]
  · intro c _ hne
    show (t.entries ++ [_]).filter _ = _
    rw [List.filter_append]
    have hother : ¬ a.id.text = c.id.text := fun htext => hne (Uuid.text_injective htext).symm
    simp [Tables.entriesOf, EntryRow.ofEntry, Entry.opened, hother]
  · intro r hr
    rcases List.mem_append.mp hr with hr | hr
    · exact .inr ⟨r, hr, rfl⟩
    · rw [List.mem_singleton.mp hr]
      exact .inl rfl
  · rw [List.map_append, h.numbered]
    show _ = (List.range (m.entriesMade + 1)).map _
    rw [List.range_succ, List.map_append]
    rfl

/-- No two entries have one identifier. -/
theorem nodup_ids (h : Mirrors m t) (hmade : m.entriesMade ≤ idLimit) :
    (t.entries.map EntryRow.id).Nodup := by
  have htexts := (Uuid.nodup_numbered hmade).map fun _ _ => Uuid.text_injective
  rw [h.numbered]
  rwa [List.map_map] at htexts

theorem nodup_entriesOf (h : Mirrors m t) (hmade : m.entriesMade ≤ idLimit) (ha : a ∈ m.alarms) :
    (a.history.map fun e => e.id.text).Nodup := by
  have hsub : ((t.entriesOf a.id).map EntryRow.id).Sublist (t.entries.map EntryRow.id) :=
    List.Sublist.map _ List.filter_sublist
  have hrows := (h.nodup_ids hmade).sublist hsub
  rwa [h.entries a ha, List.map_map] at hrows

theorem clear (h : Mirrors m t) (ha : a ∈ m.alarms) {e : Entry} (he : a.openEntry? = some e)
    (hmade : m.entriesMade ≤ idLimit) (htime : time.OnMillis) :
    Mirrors (m.replace (a.closed time))
      { t.setFired a.id false time with entries := t.entries.map (Tables.closeRow e.id.text time) } := by
  have hkeep := h.keepable a ha
  have hcoherent := h.coherent.alarms a ha
  have hopen : a.HasOpen := Alarm.hasOpen_iff.mpr ⟨e, he⟩
  obtain ⟨hcleared, done, rest, hsplit, hdone⟩ := Alarm.openEntry?_eq_some he
  obtain rfl := hcoherent.history_eq hsplit hcleared
  have hclosed : (a.closed time).history = done ++ [e.close time] := by
    show Alarm.closeFirst time a.history = _
    rw [hsplit, Alarm.closeFirst_append hdone hcleared]
  have hids := h.nodup_ids hmade
  have hrow : EntryRow.ofEntry e ∈ t.entriesOf a.id := by
    rw [h.entries a ha, hsplit]
    simp
  have hafter : ∀ i, Tables.entriesOf { t.setFired a.id false time with
      entries := t.entries.map (Tables.closeRow e.id.text time) } i =
        (t.entriesOf i).map (Tables.closeRow e.id.text time) :=
    fun i => Tables.entriesOf_of_map _ (Tables.alarmId_closeRow _ _) rfl
  refine h.replace (b := a.closed time) ha rfl (hcoherent.closed hopen time) ?_ rfl
    (h.updateAlarm_alarms (b := a.closed time) ha rfl rfl) ?_ ?_ ?_ ?_
  · refine { hkeep with updatedAt := htime, history := ?_ }
    intro d hd
    rw [hclosed, List.mem_append, List.mem_singleton] at hd
    rcases hd with hd | rfl
    · exact hkeep.history d (by simp [hsplit, hd])
    · refine ⟨(hkeep.history e (by simp [hsplit])).firedAt, ?_⟩
      rintro t ⟨⟩
      exact htime
  · have hrows := h.nodup_entriesOf hmade ha
    rw [hsplit, List.map_append, List.nodup_append] at hrows
    rw [hafter, h.entries a ha, hclosed, hsplit]
    simp only [List.map_append, List.map_map, List.map_singleton, Tables.closeRow_ofEntry]
    refine congrArg (· ++ _) (List.map_congr_left ?_)
    intro d hd
    rw [Function.comp_apply, Tables.closeRow_of_ne]
    exact hrows.2.2 _ (List.mem_map_of_mem hd) _ (List.mem_map_of_mem (List.mem_singleton_self e))
  · intro c _ hne
    rw [hafter]
    refine (List.map_congr_left ?_).trans (List.map_id _)
    intro r hr
    rw [id_eq, Tables.closeRow_of_ne]
    intro htext
    refine hne ?_
    -- a row with the identifier of the open entry is the row of that entry
    obtain ⟨hr, howner⟩ := List.mem_filter.mp hr
    obtain ⟨hmem, howner'⟩ := List.mem_filter.mp hrow
    obtain rfl : r = .ofEntry e := List.inj_on_of_nodup_map (h.nodup_ids hmade) hr hmem htext
    exact Uuid.text_injective ((of_decide_eq_true howner).symm.trans (of_decide_eq_true howner'))
  · intro r hr
    obtain ⟨s, hs, rfl⟩ := List.mem_map.mp hr
    exact .inr ⟨s, hs, Tables.alarmId_closeRow _ _ _⟩
  · refine Eq.trans ?_ h.numbered
    rw [List.map_map]
    exact List.map_congr_left fun r _ => Tables.id_closeRow _ _ _

theorem markRun (h : Mirrors m t) (ha : a ∈ m.alarms) (htime : time.OnMillis) :
    Mirrors (m.replace { a with lastRun := time })
      (t.updateAlarm a.id fun r => { r with lastRun := .number time.millis }) := by
  refine h.replace (b := { a with lastRun := time }) ha rfl
    ((h.coherent.alarms a ha).congr rfl rfl) { h.keepable a ha with lastRun := htime } rfl
    (h.updateAlarm_alarms (b := { a with lastRun := time }) ha rfl rfl) (h.entries a ha)
    (fun _ _ _ => rfl) (fun r hr => .inr ⟨r, hr, rfl⟩) h.numbered

end Mirrors

/-- An alarm with the identifier is there. -/
def Memory.Knows (m : Memory) (id : Uuid) : Prop :=
  ∃ a ∈ m.alarms, a.id = id

theorem Memory.knows_replace {m : Memory} {a : Alarm} {id : Uuid} :
    (m.replace a).Knows id ↔ m.Knows id := by
  have hmem : ∀ m : Memory, m.Knows id ↔ id ∈ m.alarms.map Alarm.id := fun m => by
    simp only [Knows, List.mem_map]
  rw [hmem, hmem, map_id_replace]

theorem Memory.Knows.stored {m : Memory} {id : Uuid} (h : m.Knows id) : ∃ a, m.stored id = .ok a := by
  rcases stored_cases m id with hstored | ⟨-, hnone⟩
  · exact hstored
  · obtain ⟨a, ha, hid⟩ := h
    exact absurd hid (hnone a ha)

/-- What a request does to two stores that mirror each other. -/
structure Answered (m : Memory) (t : Tables) (r : AlarmRequest) : Prop where
  alike : AlarmAnswer.Alike ((ask m r).map Prod.fst) ((ask t r).map Prod.fst)
  mirrors : Mirrors (left m r) (left t r)
  known : ∀ id, m.Knows id → (left m r).Knows id
  created : ∀ a, r = .call (.create a) → (left m r).Knows a.id
  made : (left m r).entriesMade ≤ m.entriesMade + 1

section

variable {m m' : Memory} {t t' : Tables} {r : AlarmRequest} {x y : AlarmAnswer} {a : Alarm}

theorem answered_of_ok (hm : ask m r = .ok (x, m')) (ht : ask t r = .ok (y, t'))
    (hsame : x.recorded = y.recorded) (hmirrors : Mirrors m' t')
    (hknown : ∀ id, m.Knows id → m'.Knows id)
    (hcreated : ∀ a, r = .call (.create a) → m'.Knows a.id)
    (hmade : m'.entriesMade ≤ m.entriesMade + 1) : Answered m t r := by
  have hleft := left_of_ok hm
  constructor
  · rw [hm, ht]
    exact hsame
  · rw [hleft, left_of_ok ht]
    exact hmirrors
  · rw [hleft]
    exact hknown
  · rw [hleft]
    exact hcreated
  · rw [hleft]
    exact hmade

/-- A request that only reads is answered alike if both answers say the same. -/
theorem answered_of_read (h : Mirrors m t) (hm : ask m r = .ok (x, m)) (ht : ask t r = .ok (y, t))
    (hsame : x.recorded = y.recorded) (hr : ∀ a, r ≠ .call (.create a)) : Answered m t r :=
  answered_of_ok hm ht hsame h (fun _ hid => hid) (fun a ha => absurd ha (hr a)) (Nat.le_succ _)

theorem answered_of_error (h : Mirrors m t) {e f : AlarmError} (hm : ask m r = .error e)
    (ht : ask t r = .error f) (halike : e.Alike f)
    (hcreated : ∀ a, r = .call (.create a) → m.Knows a.id) : Answered m t r := by
  have hleft := left_of_error hm
  constructor
  · rw [hm, ht]
    exact halike
  · rw [hleft, left_of_error ht]
    exact h
  · rw [hleft]
    exact fun _ hid => hid
  · rw [hleft]
    exact hcreated
  · rw [hleft]
    exact Nat.le_succ _

end

namespace Mirrors

variable {m : Memory} {t : Tables} {a b : Alarm} {id : Uuid} {time : Instant}

theorem answered_create (h : Mirrors m t) (hr : AlarmRequest.Regular (.call (.create a))) :
    Answered m t (.call (.create a)) := by
  obtain ⟨hfired, hhistory, hkeep⟩ := hr
  by_cases hknown : m.Knows a.id
  · have hm : m.createAlarm a = .error (.conflict a.id.text) := by
      obtain ⟨b, hb, hid⟩ := hknown
      rw [Memory.createAlarm, InPlace.outcome, Memory.createInPlace_of_known hb hid]
      rfl
    have ht : t.createAlarm a = .error (.conflict a.id.text) := if_pos (h.hasAlarm_iff.mpr hknown)
    refine answered_of_error h (congrArg (Except.map _) hm) (congrArg (Except.map _) ht) (.inl rfl) ?_
    rintro b ⟨⟩
    exact hknown
  · have hnew : ∀ b ∈ m.alarms, b.id ≠ a.id := fun b hb hid => hknown ⟨b, hb, hid⟩
    have hm : m.createAlarm a = .ok { m with alarms := m.alarms ++ [a] } := by
      rw [Memory.createAlarm, InPlace.outcome, Memory.createInPlace_of_unknown hnew]
      rfl
    have ht : t.createAlarm a = .ok { t with alarms := t.alarms ++ [.ofAlarm a] } :=
      if_neg (by rw [h.not_hasAlarm hnew]; exact Bool.false_ne_true)
    refine answered_of_ok (congrArg (Except.map _) hm) (congrArg (Except.map _) ht) rfl
      (h.create hnew hfired hhistory hkeep) ?_ ?_ (Nat.le_succ _)
    · rintro id ⟨b, hb, hid⟩
      exact ⟨b, List.mem_append_left _ hb, hid⟩
    · rintro b ⟨⟩
      exact ⟨a, List.mem_append_right _ (List.mem_singleton_self a), rfl⟩

theorem answered_fire (h : Mirrors m t) (htime : time.OnMillis) (value : String) :
    Answered m t (.call (.fire id value time)) := by
  rcases Memory.stored_cases m id with ⟨a, hstored⟩ | ⟨-, hnone⟩
  · obtain ⟨ha, rfl⟩ := Memory.mem_of_stored hstored
    have hthere : (!t.hasAlarm a.id) = false := by
      rw [h.hasAlarm_of_stored hstored]
      rfl
    by_cases hopen : a.HasOpen
    · have hm := Memory.fire_of_hasOpen hstored hopen value time
      have ht : t.fire a.id value time = .error (.conflict a.id.text) := by
        rw [Tables.fire, if_neg (ne_true_of_eq_false hthere), if_pos ((h.any_open_iff ha).mpr hopen)]
      exact answered_of_error h (congrArg (Except.map _) hm) (congrArg (Except.map _) ht) (.inl rfl)
        (fun b hb => by cases hb)
    · have hm := Memory.fire_of_not_hasOpen hstored hopen value time
      have ht : t.fire a.id value time = .ok (.opened (.ofNat m.entriesMade) a.id value time,
          { t.setFired a.id true time with
            entries := t.entries ++ [.ofEntry (.opened (.ofNat m.entriesMade) a.id value time)] }) := by
        rw [Tables.fire, if_neg (ne_true_of_eq_false hthere),
          if_neg (fun hany => hopen ((h.any_open_iff ha).mp hany)), h.length_entries]
      exact answered_of_ok (congrArg (Except.map _) hm) (congrArg (Except.map _) ht) rfl
        (h.fire ha hopen htime value) (fun id => Memory.knows_replace.mpr) (fun b hb => by cases hb)
        (Nat.le_refl _)
  · have hm := Memory.fire_of_unknown hnone value time
    have ht : t.fire id value time = .error (.notFound (.alarm id)) := by
      rw [Tables.fire, h.not_hasAlarm hnone]
      rfl
    exact answered_of_error h (congrArg (Except.map _) hm) (congrArg (Except.map _) ht) (.inl rfl)
      (fun b hb => by cases hb)

theorem answered_clear (h : Mirrors m t) (hmade : m.entriesMade ≤ idLimit) (htime : time.OnMillis) :
    Answered m t (.call (.clear id time)) := by
  rcases Memory.stored_cases m id with ⟨a, hstored⟩ | ⟨-, hnone⟩
  · obtain ⟨ha, rfl⟩ := Memory.mem_of_stored hstored
    by_cases hopen : a.HasOpen
    · obtain ⟨e, he⟩ := Alarm.hasOpen_iff.mp hopen
      have hm := Memory.clear_of_openEntry? hstored he time
      have hentry : e ∈ a.history := List.mem_of_find?_eq_some he
      have ht : t.clear a.id time = .ok (e.close time, { t.setFired a.id false time with
          entries := t.entries.map (Tables.closeRow e.id.text time) }) := by
        rw [Tables.clear, h.find?_open ha, he]
        show (Tables.lift (EntryRow.ofEntry e).toEntry >>= _) = _
        rw [EntryRow.toEntry_ofEntry ((h.keepable a ha).history e hentry)]
        rfl
      exact answered_of_ok (congrArg (Except.map _) hm) (congrArg (Except.map _) ht) rfl
        (h.clear ha he hmade htime) (fun id => Memory.knows_replace.mpr) (fun b hb => by cases hb)
        (Nat.le_succ _)
    · have hm := Memory.clear_of_not_hasOpen hstored hopen time
      have ht : t.clear a.id time = .error (.notFound (.openEntry a.id)) := by
        rw [Tables.clear, h.find?_open ha, Alarm.openEntry?_eq_none_iff.mpr hopen]
        rfl
      exact answered_of_error h (congrArg (Except.map _) hm) (congrArg (Except.map _) ht) (.inl rfl)
        (fun b hb => by cases hb)
  · have hm := Memory.clear_of_unknown hnone time
    have ht : t.clear id time = .error (.notFound (.openEntry id)) := by
      rw [Tables.clear, h.find?_open_eq_none hnone]
    exact answered_of_error h (congrArg (Except.map _) hm) (congrArg (Except.map _) ht)
      (.inr ⟨_, _, rfl, rfl⟩) (fun b hb => by cases hb)

theorem answered_markRun (h : Mirrors m t) (htime : time.OnMillis) :
    Answered m t (.call (.markRun id time)) := by
  rcases Memory.stored_cases m id with ⟨a, hstored⟩ | ⟨-, hnone⟩
  · obtain ⟨ha, rfl⟩ := Memory.mem_of_stored hstored
    have hm := Memory.markRun_of_stored hstored time
    have ht : t.markRun a.id time =
        .ok (t.updateAlarm a.id fun r => { r with lastRun := .number time.millis }) :=
      if_pos (h.hasAlarm_of_stored hstored)
    exact answered_of_ok (congrArg (Except.map _) hm) (congrArg (Except.map _) ht) rfl
      (h.markRun ha htime) (fun id => Memory.knows_replace.mpr) (fun b hb => by cases hb)
      (Nat.le_succ _)
  · have hm := Memory.markRun_of_unknown hnone time
    have ht : t.markRun id time = .error (.notFound (.alarm id)) := by
      rw [Tables.markRun, h.not_hasAlarm hnone]
      rfl
    exact answered_of_error h (congrArg (Except.map _) hm) (congrArg (Except.map _) ht) (.inl rfl)
      (fun b hb => by cases hb)

theorem answered_alarm (h : Mirrors m t) (id : Uuid) : Answered m t (.alarm id) := by
  have hfind := h.find?_alarms id
  rcases Memory.stored_cases m id with ⟨a, hstored⟩ | ⟨hstored, hnone⟩
  · have hm : m.alarm id = .ok a.withoutHistory := by
      rw [Memory.alarm, hstored]
      rfl
    have ht : t.alarm id = .ok a.recorded := by
      rw [Memory.stored_eq_find?] at hstored
      split at hstored
      · rename_i hsome
        cases hstored
        rw [hsome] at hfind
        rw [Tables.alarm, hfind]
        show Tables.lift (AlarmRow.ofAlarm a).toAlarm = _
        rw [AlarmRow.toAlarm_ofAlarm (h.keepable a (List.mem_of_find?_eq_some hsome))]
        rfl
      · cases hstored
    exact answered_of_read h (congrArg (Except.map _) hm) (congrArg (Except.map _) ht) rfl
      (fun a ha => by cases ha)
  · have hm : m.alarm id = .error (.notFound (.alarm id)) := by
      rw [Memory.alarm, hstored]
      rfl
    have ht : t.alarm id = .error (.notFound (.alarm id)) := by
      have hnone : m.alarms.find? (fun a => a.id = id) = none := by
        refine List.find?_eq_none.mpr ?_
        intro a ha
        simpa using hnone a ha
      rw [hnone] at hfind
      rw [Tables.alarm, hfind]
      rfl
    exact answered_of_error h (congrArg (Except.map _) hm) (congrArg (Except.map _) ht) (.inl rfl)
      (fun a ha => by cases ha)

theorem answered_due (h : Mirrors m t) {minInterval : Span} {now : Instant}
    (hmin : minInterval.OnMillis) (hnow : now.OnMillis) : Answered m t (.due minInterval now) := by
  have hrows : t.alarms.filter (fun r => r.isDue minInterval now) =
      (m.alarms.filter fun a => a.isDue now minInterval).map AlarmRow.ofAlarm := by
    rw [h.alarms, List.filter_map]
    refine congrArg (List.map _) (List.filter_congr ?_)
    intro a ha
    exact AlarmRow.isDue_ofAlarm (h.keepable a ha) hmin hnow
  have ht : t.dueAlarms minInterval now =
      .ok ((m.alarms.filter fun a => a.isDue now minInterval).map Alarm.recorded) := by
    have hread : ((m.alarms.filter fun a => a.isDue now minInterval).map AlarmRow.ofAlarm).mapM
        AlarmRow.toAlarm = .ok ((m.alarms.filter fun a => a.isDue now minInterval).map Alarm.recorded) := by
      refine mapM_map_eq_ok ?_
      intro a ha
      exact AlarmRow.toAlarm_ofAlarm (h.keepable a (List.mem_filter.mp ha).1)
    rw [Tables.dueAlarms, hrows, hread]
    rfl
  refine answered_of_read h rfl (congrArg (Except.map _) ht) ?_ (fun a ha => by cases ha)
  simp only [AlarmAnswer.recorded, List.map_map]
  rfl

theorem answered_history (h : Mirrors m t) (hid : m.Knows id) (limit : Nat) :
    Answered m t (.history id limit) := by
  obtain ⟨a, hstored⟩ := hid.stored
  obtain ⟨ha, rfl⟩ := Memory.mem_of_stored hstored
  have hkeep := (h.keepable a ha).history
  have hm : m.history a.id limit =
      .ok ((a.history.mergeSort fun e f => Instant.newerFirst e.firedAt f.firedAt).take limit) := by
    rw [Memory.history, hstored]
    rfl
  have hrows : (t.entriesOf a.id).mergeSort (fun r s => decide (s.firedAt ≤ r.firedAt)) =
      (a.history.mergeSort fun e f => Instant.newerFirst e.firedAt f.firedAt).map EntryRow.ofEntry := by
    rw [h.entries a ha, List.map_mergeSort]
    intro e he f hf
    exact decide_eq_decide.mpr ((hkeep f hf).firedAt.millis_le_iff (hkeep e he).firedAt).symm
  have ht : t.history a.id limit =
      .ok ((a.history.mergeSort fun e f => Instant.newerFirst e.firedAt f.firedAt).take limit) := by
    rw [Tables.history, hrows, ← List.map_take, mapM_map_eq_ok (g := id)]
    · rw [List.map_id]
      rfl
    · intro e he
      exact EntryRow.toEntry_ofEntry (hkeep e (List.mem_mergeSort.mp (List.mem_of_mem_take he)))
  exact answered_of_read h (congrArg (Except.map _) hm) (congrArg (Except.map _) ht) rfl
    (fun a ha => by cases ha)

theorem answered_historySize (h : Mirrors m t) (hid : m.Knows id) :
    Answered m t (.historySize id) := by
  obtain ⟨a, hstored⟩ := hid.stored
  obtain ⟨ha, rfl⟩ := Memory.mem_of_stored hstored
  have hm : m.historySize a.id = .ok a.history.length := by
    rw [Memory.historySize, hstored]
    rfl
  have ht : t.historySize a.id = .ok a.history.length := by
    rw [Tables.historySize, h.entries a ha, List.length_map]
  exact answered_of_read h (congrArg (Except.map _) hm)
    (congrArg (Except.map fun n => (AlarmAnswer.size n, t)) ht) rfl (fun a ha => by cases ha)

/-- Mirrored stores answer every request alike and stay mirrored. -/
theorem answered (h : Mirrors m t) {r : AlarmRequest} (hr : r.Regular)
    (hpage : ∀ id ∈ r.page?, m.Knows id) (hmade : m.entriesMade ≤ idLimit) : Answered m t r := by
  cases r with
  | call c =>
    cases c with
    | create a => exact h.answered_create hr
    | fire id value time => exact h.answered_fire hr value
    | clear id time => exact h.answered_clear hmade hr
    | markRun id time => exact h.answered_markRun hr
  | alarm id => exact h.answered_alarm id
  | due minInterval now => exact h.answered_due hr.1 hr.2
  | history id limit => exact h.answered_history (hpage id rfl) limit
  | historySize id => exact h.answered_historySize (hpage id rfl)

end Mirrors

/-- Mirrored stores answer every sequence of requests alike. -/
theorem Mirrors.answers_alike {m : Memory} {t : Tables} {requests : List AlarmRequest}
    (h : Mirrors m t) (hregular : ∀ r ∈ requests, r.Regular)
    (hpages : ∀ before r rest, requests = before ++ r :: rest → ∀ id ∈ r.page?,
      m.Knows id ∨ ∃ a, .call (.create a) ∈ before ∧ a.id = id)
    (hmade : m.entriesMade + requests.length ≤ idLimit) :
    List.Forall₂ AlarmAnswer.Alike (answers m requests) (answers t requests) := by
  induction requests generalizing m t with
  | nil => exact .nil
  | cons r rest ih =>
    rw [List.length_cons] at hmade
    have hpage : ∀ id ∈ r.page?, m.Knows id := by
      intro id hid
      rcases hpages [] r rest rfl id hid with hknown | ⟨a, ha, -⟩
      · exact hknown
      · cases ha
    have hanswered := h.answered (hregular r List.mem_cons_self) hpage (by omega)
    have hmore := hanswered.made
    refine .cons hanswered.alike (ih hanswered.mirrors ?_ ?_ (by omega))
    · exact fun s hs => hregular s (List.mem_cons_of_mem _ hs)
    · intro before s after hsplit id hid
      rcases hpages (r :: before) s after (by rw [hsplit]; rfl) id hid with hknown | ⟨a, ha, rfl⟩
      · exact .inl (hanswered.known id hknown)
      · rcases List.mem_cons.mp ha with hcreate | ha
        · exact .inl (hanswered.created a hcreate.symm)
        · exact .inr ⟨a, ha, rfl⟩

/-- Both stores answer every sequence of requests alike that starts from nothing: if times are on whole
milliseconds, the alarms created are new and fit into 64 bits, and histories are read only of alarms
that were created before. The count of requests keeps the identifiers of the entries apart. -/
theorem stores_answer_alike (requests : List AlarmRequest) (hregular : ∀ r ∈ requests, r.Regular)
    (hpages : ∀ before r rest, requests = before ++ r :: rest → ∀ id ∈ r.page?,
      ∃ a, .call (.create a) ∈ before ∧ a.id = id)
    (hlength : requests.length ≤ idLimit) :
    List.Forall₂ AlarmAnswer.Alike (answers Memory.empty requests) (answers Tables.empty requests) := by
  refine mirrors_empty.answers_alike hregular ?_ (by simpa [Memory.empty] using hlength)
  intro before r rest hsplit id hid
  exact .inr (hpages before r rest hsplit id hid)

/-- An alarm that is created twice, fired twice, found due and not due, cleared, and read back; then
one that is not there is cleared. -/
theorem stores_answer_alike_two_firings :
    let alarm : Alarm :=
      { id := .ofNat 7, owner := "o", name := "n", info := "", message := "", group := "g",
        enabled := true, fired := false,
        rule := ⟨[⟨"max", some "moving_average", "t", some 5⟩], "t > 3", 2⟩,
        runInterval := .ofSeconds 60, lastRun := .epoch, createdAt := .epoch, updatedAt := .epoch,
        history := [], compiled := none }
    let requests : List AlarmRequest :=
      [.call (.create alarm), .call (.create alarm), .call (.fire (.ofNat 7) "t=4.00" .epoch),
        .call (.fire (.ofNat 7) "t=5.00" .epoch), .due (.ofSeconds 1) .epoch,
        .due (.ofMillis 18446744073709551615) .epoch, .call (.clear (.ofNat 7) .epoch),
        .history (.ofNat 7) 20, .historySize (.ofNat 7), .alarm (.ofNat 7),
        .call (.clear (.ofNat 8) .epoch)]
    (answers Memory.empty requests).map (fun r => r.toBool) =
        [true, false, true, false, true, true, true, true, true, true, false] ∧
      List.Forall₂ AlarmAnswer.Alike (answers Memory.empty requests) (answers Tables.empty requests) := by
  intro alarm requests
  have hkeep : alarm.Keepable :=
    { rule := ⟨by simp [alarm, Filter.Fits], by decide⟩
      runInterval := by decide
      runInterval_le := by decide
      lastRun := by decide
      createdAt := by decide
      updatedAt := by decide
      history := fun _ he => absurd he List.not_mem_nil }
  refine ⟨by decide, stores_answer_alike requests ?_ ?_ (by decide)⟩
  · intro r hr
    simp only [requests, List.mem_cons, List.not_mem_nil, or_false] at hr
    rcases hr with rfl | rfl | rfl | rfl | rfl | rfl | rfl | rfl | rfl | rfl | rfl
    all_goals first | exact ⟨rfl, rfl, hkeep⟩ | exact ⟨by decide, by decide⟩ | decide | trivial
  · intro before r rest hsplit id hid
    have hpage : ∀ r ∈ requests, ∀ id ∈ r.page?, id = alarm.id := by
      simp [requests, alarm, AlarmRequest.page?]
    cases before with
    | nil =>
      obtain rfl : AlarmRequest.call (.create alarm) = r := (List.cons.inj hsplit).1
      cases hid
    | cons first before =>
      obtain rfl : AlarmRequest.call (.create alarm) = first := (List.cons.inj hsplit).1
      exact ⟨alarm, List.mem_cons_self, (hpage r (by rw [hsplit]; simp) id hid).symm⟩

end Vigil
