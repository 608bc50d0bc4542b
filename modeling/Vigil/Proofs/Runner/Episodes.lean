import Vigil.Alarm.Draft
import Vigil.Offline
import Vigil.Proofs.Condition.Reading
import Vigil.Proofs.Expression.Derivation
import Vigil.Proofs.Results
import Vigil.Proofs.Runner.Passes

/-!
# The history of a watched alarm

An alarm is watched by passes, each over the alarm as the store hands it out at that moment. Between
passes anything may happen that does not touch the alarm. Whatever the evaluations give, the history
is the record of the verdicts: one entry for each block of verdicts that hold, opened by the first
of them and closed by the first that follows and does not hold. Failed evaluations leave no trace in
it.
-/

namespace Vigil.Watch

/-- A pass over an alarm: its time, what the evaluation gave, and what came of it. -/
structure Pass where
  time : Instant
  result : Except AlarmError Valuation
  outcome : Outcome

/-- A pass over the alarm of an identifier, as the store then returns it, leads from one engine to
another. Before the pass anything may happen that does not touch the alarm. -/
inductive Pass.Leads (p : Pass) (id : Uuid) (before after : Engine Memory) : Prop where
  | pass {current : Engine Memory} {a : Alarm}
      (others : current.store.stored id = before.store.stored id)
      (returned : Repository.alarm current.store id = .ok a)
      (ran : current.conclude a p.time p.result = (p.outcome, after))

/-- Passes over the alarm of an identifier, while nothing else changes the alarm. -/
inductive Watched (id : Uuid) (start : Engine Memory) : List Pass → Engine Memory → Prop where
  | start : Watched id start [] start
  | pass {passes : List Pass} {before after : Engine Memory} {p : Pass}
      (earlier : Watched id start passes before) (leads : p.Leads id before after) :
      Watched id start (passes ++ [p]) after

/-- Running the alarm is a pass with what its evaluation gives. -/
theorem leads_run {id : Uuid} {before current : Engine Memory} {a : Alarm}
    (others : current.store.stored id = before.store.stored id)
    (returned : Repository.alarm current.store id = .ok a) (r : Reader) (now : Instant) :
    Pass.Leads ⟨now, a.valuate r current.store now, (current.run r a now).1⟩ id before
      (current.run r a now).2 :=
  .pass others returned rfl

/-- A result that says whether the condition holds, and when it was obtained. -/
structure Verdict where
  time : Instant
  valuation : Valuation

def Verdict.holds (v : Verdict) : Bool := v.valuation.fired

/-- The verdict of a pass; a failed evaluation gives none. -/
def Pass.verdict? (p : Pass) : Option Verdict :=
  match p.result with
  | .ok valuation => some ⟨p.time, valuation⟩
  | .error _ => none

def verdicts (passes : List Pass) : List Verdict :=
  passes.filterMap Pass.verdict?

/-- What the latest verdict says; without any, what was said before. -/
def latest (previous : Bool) (vs : List Verdict) : Bool :=
  (vs.getLast?.map Verdict.holds).getD previous

/-- What a history tells of one firing. -/
structure Episode where
  value : String
  firedAt : Instant
  clearedAt : Option Instant
  deriving DecidableEq

/-- The episode that begins with a verdict. It ends with the first later verdict that does not
hold. -/
def Verdict.episode (v : Verdict) (later : List Verdict) : Episode where
  value := Valuation.valuesText v.valuation.values
  firedAt := v.time
  clearedAt := (later.find? (!·.holds)).map Verdict.time

/-- The episodes after an earlier verdict: one begins with each verdict that holds where the one
before it does not. -/
def episodesAfter (previous : Bool) : List Verdict → List Episode
  | [] => []
  | v :: later =>
    if v.holds && !previous then v.episode later :: episodesAfter v.holds later
    else episodesAfter v.holds later

/-- One episode for each maximal block of verdicts that hold. -/
def episodes (vs : List Verdict) : List Episode :=
  episodesAfter false vs

def entryEpisode (e : Entry) : Episode := ⟨e.value, e.firedAt, e.clearedAt⟩

/-- An episode after one more verdict. -/
def Episode.seen (v : Verdict) (x : Episode) : Episode :=
  if v.holds then x else { x with clearedAt := x.clearedAt.or (some v.time) }

theorem latest_append (previous : Bool) (vs : List Verdict) (v : Verdict) :
    latest previous (vs ++ [v]) = v.holds := by
  rw [latest, List.getLast?_concat]
  rfl

theorem latest_cons (previous : Bool) (v : Verdict) (vs : List Verdict) :
    latest previous (v :: vs) = latest v.holds vs := by
  rw [latest, latest, List.getLast?_cons]
  cases vs.getLast? <;> rfl

theorem episode_append (u v : Verdict) (later : List Verdict) :
    u.episode (later ++ [v]) = (u.episode later).seen v := by
  unfold Verdict.episode Episode.seen
  rw [List.find?_append, List.find?_singleton]
  cases hholds : v.holds with
  | false => cases later.find? (!·.holds) <;> rfl
  | true => cases later.find? (!·.holds) <;> rfl

/-- One more verdict ends what is not ended, or begins an episode, or neither. -/
theorem episodesAfter_append (previous : Bool) (vs : List Verdict) (v : Verdict) :
    episodesAfter previous (vs ++ [v]) =
      (episodesAfter previous vs).map (Episode.seen v) ++
        if v.holds && !latest previous vs then [v.episode []] else [] := by
  induction vs generalizing previous with
  | nil => rfl
  | cons u vs ih =>
    rw [List.cons_append, episodesAfter, episodesAfter, ih, episode_append, latest_cons]
    split <;> rfl

theorem verdicts_append_ok {passes : List Pass} {p : Pass} {v : Valuation} (h : p.result = .ok v) :
    verdicts (passes ++ [p]) = verdicts passes ++ [⟨p.time, v⟩] := by
  rw [verdicts, List.filterMap_append, List.filterMap_cons, Pass.verdict?, h]
  rfl

theorem verdicts_append_error {passes : List Pass} {p : Pass} {cause : AlarmError}
    (h : p.result = .error cause) : verdicts (passes ++ [p]) = verdicts passes := by
  rw [verdicts, List.filterMap_append, List.filterMap_cons, Pass.verdict?, h]
  exact List.append_nil _

/-- The alarm is as a record of verdicts says. -/
structure Recorded (a : Alarm) (vs : List Verdict) : Prop where
  coherent : a.Coherent
  fired_eq : a.fired = latest false vs
  history_eq : a.history.map entryEpisode = episodes vs

section Recorded

variable {a : Alarm} {vs : List Verdict}

theorem recorded_of_new (hfired : a.fired = false) (hhistory : a.history = []) : Recorded a [] := by
  refine ⟨Alarm.coherent_of_new hfired hhistory, hfired, ?_⟩
  rw [hhistory]
  rfl

theorem seen_of_holds {v : Verdict} (h : v.holds = true) (xs : List Episode) :
    xs.map (Episode.seen v) = xs := by
  have hid : Episode.seen v = id := by
    funext x
    rw [Episode.seen, if_pos h]
    rfl
  rw [hid, List.map_id]

theorem seen_of_isSome {v : Verdict} {es : List Entry}
    (h : ∀ e ∈ es, e.clearedAt.isSome = true) :
    (es.map entryEpisode).map (Episode.seen v) = es.map entryEpisode := by
  rw [List.map_map]
  apply List.map_congr_left
  intro e he
  obtain ⟨time, htime⟩ := Option.isSome_iff_exists.mp (h e he)
  rw [Function.comp_apply, Episode.seen, entryEpisode, htime]
  split <;> rfl

theorem Recorded.not_hasOpen (h : Recorded a vs) (hflag : a.fired = false) : ¬ a.HasOpen := by
  rw [← h.coherent.fired_eq_true_iff, hflag]
  exact Bool.false_ne_true

theorem Recorded.episodes_append (h : Recorded a vs) (v : Verdict) :
    episodes (vs ++ [v]) = (a.history.map entryEpisode).map (Episode.seen v) ++
      if v.holds && !a.fired then [v.episode []] else [] := by
  rw [h.fired_eq, h.history_eq]
  exact episodesAfter_append false vs v

/-- A verdict that says what the flag says changes nothing. -/
theorem Recorded.stay (h : Recorded a vs) {v : Verdict} (hsame : v.holds = a.fired) :
    Recorded a (vs ++ [v]) := by
  refine ⟨h.coherent, by rw [latest_append, hsame], ?_⟩
  have hnone : (v.holds && !a.fired) = false := by
    rw [hsame]
    exact Bool.and_not_self _
  rw [h.episodes_append, hnone, if_neg Bool.false_ne_true, List.append_nil]
  cases hflag : a.fired with
  | true => rw [seen_of_holds (hsame.trans hflag)]
  | false =>
    have hdone := h.coherent.isSome_clearedAt (h.not_hasOpen hflag)
    rw [seen_of_isSome fun e he => (hdone e he).2]

/-- A verdict that holds opens an entry of an alarm that has not fired. -/
theorem Recorded.opened (h : Recorded a vs) (hflag : a.fired = false) {v : Verdict}
    (hholds : v.holds = true) (entryId : Uuid) :
    Recorded (a.opened entryId (Valuation.valuesText v.valuation.values) v.time) (vs ++ [v]) := by
  refine ⟨h.coherent.opened (h.not_hasOpen hflag) _ _ _, by rw [latest_append, hholds]; rfl, ?_⟩
  rw [h.episodes_append, seen_of_holds hholds, hholds, hflag]
  exact List.map_append

/-- A verdict that does not hold closes the open entry of a fired alarm. -/
theorem Recorded.closed (h : Recorded a vs) (hflag : a.fired = true) {v : Verdict}
    (hholds : v.holds = false) : Recorded (a.closed v.time) (vs ++ [v]) := by
  have hopen : a.HasOpen := h.coherent.fired_eq_true_iff.mp hflag
  obtain ⟨done, e, hbefore, hafter, hnone, hdone⟩ := h.coherent.history_closed hopen v.time
  refine ⟨h.coherent.closed hopen _, by rw [latest_append, hholds]; rfl, ?_⟩
  have hlast : Episode.seen v (entryEpisode e) = entryEpisode (e.close v.time) := by
    rw [Episode.seen, hholds, if_neg Bool.false_ne_true, entryEpisode, hnone]
    rfl
  rw [h.episodes_append, hholds, hbefore, hafter, List.map_append, List.map_append,
    List.map_append, seen_of_isSome fun d hd => (hdone d hd).2, List.map_singleton,
    List.map_singleton, List.map_singleton, hlast]
  exact (List.append_nil _).symm

/-- A verdict goes into the record of an alarm that it settles. -/
theorem Recorded.verdict (h : Recorded a vs) (entryId : Uuid) (now : Instant) (v : Valuation) :
    Recorded (a.settled entryId now (.ok v)) (vs ++ [⟨now, v⟩]) := by
  rw [Alarm.settled]
  split
  · rename_i hflag hholds
    exact h.opened (v := ⟨now, v⟩) hflag hholds entryId
  · rename_i hflag hholds
    exact h.closed (v := ⟨now, v⟩) hflag hholds
  · rename_i hopened hclosed
    apply h.stay
    show v.fired = a.fired
    cases hflag : a.fired <;> cases hholds : v.fired
    · rfl
    · exact (hopened hflag hholds).elim
    · exact (hclosed hflag hholds).elim
    · rfl

/-- The time of the last run is no part of the record. -/
theorem Recorded.ranAt (h : Recorded a vs) (time : Instant) : Recorded (a.ranAt time) vs :=
  ⟨h.coherent.congr rfl rfl, h.fired_eq, h.history_eq⟩

/-- What a pass leaves of an alarm is as the record with that pass says. -/
theorem Recorded.settled {passes : List Pass} (h : Recorded a (verdicts passes)) (entryId : Uuid)
    (p : Pass) : Recorded (a.settled entryId p.time p.result) (verdicts (passes ++ [p])) := by
  cases hresult : p.result with
  | ok v =>
    rw [verdicts_append_ok hresult]
    exact h.verdict entryId p.time v
  | error cause =>
    rw [verdicts_append_error hresult]
    exact h

end Recorded

section Runs

variable {id : Uuid} {start e : Engine Memory} {passes : List Pass}

/-- What a pass leaves in the store, when nothing else changed the alarm since the last one. -/
theorem stored_of_leads {before after : Engine Memory} {a : Alarm} {p : Pass}
    (hstored : before.store.stored id = .ok a) (hcoherent : a.Coherent)
    (hleads : p.Leads id before after) :
    ∃ entryId, after.store.stored id = .ok ((a.settled entryId p.time p.result).ranAt p.time) ∧
      (p.outcome = .failed → EndsInternally p.result) := by
  obtain @⟨current, given, others, returned, ran⟩ := hleads
  rw [hstored] at others
  have hgiven : given = a.withoutHistory := by
    have hread : (current.store.stored id).map Alarm.withoutHistory = .ok given := returned
    rw [others] at hread
    exact (Except.ok.inj hread).symm
  obtain ⟨entryId, outcome, left, hleft, hkept, hinternal⟩ :=
    Engine.conclude_stored others hcoherent p.time p.result
  rw [hgiven, hleft] at ran
  cases ran
  exact ⟨entryId, hkept, hinternal⟩

theorem Watched.recorded (hstart : ∃ a, start.store.stored id = .ok a ∧ Recorded a [])
    (h : Watched id start passes e) :
    ∃ a, e.store.stored id = .ok a ∧ Recorded a (verdicts passes) := by
  induction h with
  | start => exact hstart
  | pass earlier leads ih =>
    obtain ⟨b, hb, hrecorded⟩ := ih
    obtain ⟨entryId, hkept, -⟩ := stored_of_leads hb hrecorded.coherent leads
    exact ⟨_, hkept, (hrecorded.settled entryId _).ranAt _⟩

/-- In a watch only an internal error makes a pass fail: no change of state is refused. -/
theorem Watched.endsInternally (hstart : ∃ a, start.store.stored id = .ok a ∧ Recorded a [])
    (h : Watched id start passes e) :
    ∀ p ∈ passes, p.outcome = .failed → EndsInternally p.result := by
  induction h with
  | start =>
    intro p hp
    cases hp
  | pass earlier leads ih =>
    obtain ⟨b, hb, hrecorded⟩ := earlier.recorded hstart
    obtain ⟨entryId, -, hinternal⟩ := stored_of_leads hb hrecorded.coherent leads
    intro p hp
    rcases List.mem_append.mp hp with hp | hp
    · exact ih p hp
    · rw [List.mem_singleton.mp hp]
      exact hinternal

end Runs

/-- A definition makes an alarm that has not fired, and has no history. -/
theorem made_new {d : Draft} {owner : String} {id : Uuid} {now : Instant} {a : Alarm}
    (h : d.alarm owner id now = .ok a) : a.id = id ∧ a.fired = false ∧ a.history = [] := by
  unfold Draft.alarm at h
  split at h
  · cases h
  · split at h
    · cases h
    · split at h
      · cases h
      · split at h
        · cases h
        · cases h
          exact ⟨rfl, rfl, rfl⟩

/-- The history of an alarm is the record of the verdicts since it was made. One more pass sets the
time of its last run, and if the evaluation failed nothing else of it. -/
theorem history_records_verdicts {d : Draft} {owner : String} {id : Uuid} {made : Instant}
    {a₀ : Alarm} {m : Memory} {start e : Engine Memory} {passes : List Pass}
    (hmade : d.alarm owner id made = .ok a₀) (hkept : m.createAlarm a₀ = .ok start.store)
    (h : Watched id start passes e) :
    ∃ a, e.store.stored id = .ok a ∧
      a.fired = latest false (verdicts passes) ∧
      a.history.map entryEpisode = episodes (verdicts passes) ∧
      (∀ x ∈ a.history, x.cleared = true ↔ x.clearedAt.isSome = true) ∧
      (∀ p ∈ passes, p.outcome = .failed → EndsInternally p.result) ∧
      ∀ (p : Pass) (after : Engine Memory), p.Leads id e after →
        ∃ a', after.store.stored id = .ok a' ∧
          a'.lastRun = p.time ∧ ∀ cause, p.result = .error cause → a' = a.ranAt p.time := by
  obtain ⟨hid, hfired, hhistory⟩ := made_new hmade
  have hstart : ∃ a, start.store.stored id = .ok a ∧ Recorded a [] :=
    ⟨a₀, by rw [← hid]; exact Memory.stored_of_createAlarm hkept, recorded_of_new hfired hhistory⟩
  obtain ⟨a, ha, hrecorded⟩ := h.recorded hstart
  refine ⟨a, ha, hrecorded.fired_eq, hrecorded.history_eq, hrecorded.coherent.cleared_iff,
    h.endsInternally hstart, ?_⟩
  intro p after hleads
  obtain ⟨entryId, hafter, -⟩ := stored_of_leads ha hrecorded.coherent hleads
  refine ⟨_, hafter, rfl, ?_⟩
  intro cause hcause
  rw [hcause]
  rfl

open Vigil.Expression in
/-- The rule of a definition that compares two filters. -/
theorem exists_rule :
    ∃ expression, Draft.rule
      { name := "heat", info := "", group := "g", message := "", enabled := true, interval := 60,
        trigger := 1, condition := "max(t)>min(t)" } =
      .ok (⟨[⟨"max", none, "t", none⟩, ⟨"min", none, "t", none⟩], "max_t>min_t", 1⟩,
        expression) := by
  have hmax : Filter.Written ⟨"max", none, "t", none⟩ :=
    ⟨by decide, by rintro t ⟨⟩, by decide, by rintro p ⟨⟩⟩
  have hmin : Filter.Written ⟨"min", none, "t", none⟩ :=
    ⟨by decide, by rintro t ⟨⟩, by decide, by rintro p ⟨⟩⟩
  have hpieces : Condition.pieces (Text.strip "max(t)>min(t)").toList =
      [.filter _ hmax, .filter _ hmin].map Condition.Part.source := rfl
  have hidentifiers : ∀ f ∈ ([⟨"max", none, "t", none⟩, ⟨"min", none, "t", none⟩] : List Filter),
      ∀ g ∈ ([⟨"max", none, "t", none⟩, ⟨"min", none, "t", none⟩] : List Filter),
        f.identifier = g.identifier → f = g := by decide
  have hparse : Condition.parse "max(t)>min(t)" = .ok
      ⟨[⟨"max", none, "t", none⟩, ⟨"min", none, "t", none⟩], "max_t>min_t", []⟩ :=
    Condition.parse_of_parts hpieces (List.cons_ne_nil _ _) hidentifiers
  have hlexemes : lexemes "max_t>min_t" =
      .ok [⟨.name "max_t", 0⟩, ⟨.greater, 5⟩, ⟨.name "min_t", 6⟩] := by
    show lexemesFrom 0 ['m', 'a', 'x', '_', 't', '>', 'm', 'i', 'n', '_', 't'] = _
    refine lexemesFrom_eq_ok rfl rfl ?_
    refine lexemesFrom_eq_ok rfl rfl ?_
    refine lexemesFrom_eq_ok rfl rfl ?_
    exact lexemesFrom_nil _
  have hderives : Derives .disjunction [.name "max_t", .greater, .name "min_t"]
      (.apply .greater (.variable "max_t") (.variable "min_t")) := by
    have hleft : Derives .order [.name "max_t"] (.variable "max_t") :=
      (Derives.named (by decide) (by decide)).loosen (by decide)
    have hright : Derives .sum [.name "min_t"] (.variable "min_t") :=
      (Derives.named (by decide) (by decide)).loosen (by decide)
    exact (Derives.joined .greater hleft hright).loosen (by decide)
  have hcompile := compile_of_lexemes hlexemes
  have htree : Tree.ofLexemes [⟨.name "max_t", 0⟩, ⟨.greater, 5⟩, ⟨.name "min_t", 6⟩] = _ :=
    ofLexemes_eq_ok_iff.mpr hderives
  rw [htree] at hcompile
  refine ⟨⟨"max_t>min_t", .apply .greater (.variable "max_t") (.variable "min_t")⟩, ?_⟩
  unfold Draft.rule
  refine bind_eq_ok_iff.mpr ⟨_, hparse, bind_eq_ok_iff.mpr ⟨(), rfl, ?_⟩⟩
  rw [hcompile]
  rfl

/-- An alarm that fires, is passed over for want of points, and is cleared. -/
theorem history_of_one_firing :
    let draft : Draft :=
      { name := "heat", info := "", group := "g", message := "", enabled := true, interval := 60,
        trigger := 1, condition := "max(t)>min(t)" }
    let passes : List Pass :=
      [⟨⟨1, by decide, by decide⟩, .ok ⟨true, .empty⟩, .fired⟩,
        ⟨⟨2, by decide, by decide⟩, .error (.insufficientData 1 0), .skipped⟩,
        ⟨⟨3, by decide, by decide⟩, .ok .quiet, .cleared⟩]
    ∃ a₀ start e a, draft.alarm "" (.ofNat 1) .epoch = .ok a₀ ∧
      Memory.empty.createAlarm a₀ = .ok start.store ∧ Watched (.ofNat 1) start passes e ∧
      e.store.stored (.ofNat 1) = .ok a ∧ a.fired = false ∧
      a.history.map entryEpisode =
        [⟨"", ⟨1, by decide, by decide⟩, some ⟨3, by decide, by decide⟩⟩] := by
  intro draft passes
  obtain ⟨expression, hrule⟩ := exists_rule
  let a₀ : Alarm :=
    { id := .ofNat 1, owner := "", name := "heat", info := "", message := "", group := "g",
      enabled := true, fired := false,
      rule := ⟨[⟨"max", none, "t", none⟩, ⟨"min", none, "t", none⟩], "max_t>min_t", 1⟩,
      runInterval := .ofSeconds 60, lastRun := .epoch, createdAt := .epoch, updatedAt := .epoch,
      history := [], compiled := some expression }
  have hmade : draft.alarm "" (.ofNat 1) .epoch = .ok a₀ := by
    rw [Draft.alarm, if_neg (by decide), if_neg (by decide), if_neg (by decide), hrule]
  let start : Engine Memory := .ofStore ⟨[a₀], [], [], [], .empty, 0⟩
  have hkept : Memory.empty.createAlarm a₀ = .ok start.store := rfl
  have hfired : Watched (.ofNat 1) start (passes.take 1) _ := .pass .start (.pass rfl rfl rfl)
  have hskipped : Watched (.ofNat 1) start (passes.take 2) _ := .pass hfired (.pass rfl rfl rfl)
  have hcleared : Watched (.ofNat 1) start passes _ := .pass hskipped (.pass rfl rfl rfl)
  obtain ⟨a, ha, hfired, hhistory, -⟩ := history_records_verdicts hmade hkept hcleared
  refine ⟨a₀, start, _, a, hmade, hkept, hcleared, ha, hfired, ?_⟩
  rw [hhistory]
  rfl

end Vigil.Watch
