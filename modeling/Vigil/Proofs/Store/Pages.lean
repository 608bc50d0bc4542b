import Mathlib.Data.List.Induction
import Vigil.Proofs.Store.Calls
import Vigil.Proofs.Time.Instants

/-!
# Pages of a history

A history lists its entries in the order in which they were made. A page of it is the front of a stable
sort that puts later times first. As long as time does not go back and no two of the newest entries have
one time, that is the history from its end; entries of one time keep the order of the history, so that
the older comes first and takes the place of the newer.
-/

namespace Vigil

namespace Instant

theorem newerFirst_trans (a b c : Instant) (hab : newerFirst a b = true)
    (hbc : newerFirst b c = true) : newerFirst a c = true :=
  decide_eq_true (Int.le_trans (of_decide_eq_true hbc) (of_decide_eq_true hab))

theorem newerFirst_total (a b : Instant) : (newerFirst a b || newerFirst b a) = true := by
  rw [Bool.or_eq_true]
  exact (Int.le_total b.nanos a.nanos).imp decide_eq_true decide_eq_true

end Instant

namespace Entry

variable {history : List Entry} {d e : Entry} {p q : Entry × Nat}

/-- The order of numbered entries on a page: later times first, and of one time the smaller number. -/
def numberedFirst : Entry × Nat → Entry × Nat → Bool :=
  List.zipIdxLE fun e f => Instant.newerFirst e.firedAt f.firedAt

theorem numberedFirst_iff : numberedFirst p q = true ↔
    q.1.firedAt < p.1.firedAt ∨ (q.1.firedAt = p.1.firedAt ∧ p.2 ≤ q.2) := by
  have hsame : q.1.firedAt = p.1.firedAt ↔ q.1.firedAt ≤ p.1.firedAt ∧ p.1.firedAt ≤ q.1.firedAt :=
    ⟨fun h => h ▸ ⟨Int.le_refl _, Int.le_refl _⟩, fun h => Instant.ext (Int.le_antisymm h.1 h.2)⟩
  rw [hsame]
  unfold numberedFirst List.zipIdxLE Instant.newerFirst
  simp only [Instant.le_def, Instant.lt_def, decide_eq_true_eq]
  split
  · split
    · rw [decide_eq_true_eq]
      omega
    · exact iff_of_true rfl (by omega)
  · exact iff_of_false Bool.false_ne_true (by omega)

/-- Numbered entries that come before each other have one number. -/
theorem snd_eq_of_numberedFirst (hpq : numberedFirst p q = true) (hqp : numberedFirst q p = true) :
    p.2 = q.2 := by
  rcases numberedFirst_iff.mp hpq with hlt | ⟨hsame, hle⟩
  · rcases numberedFirst_iff.mp hqp with hlt' | ⟨hsame', -⟩
    · exact absurd hlt' (Std.Asymm.asymm _ _ hlt)
    · exact absurd hlt (hsame' ▸ Std.Irrefl.irrefl _)
  · rcases numberedFirst_iff.mp hqp with hlt' | ⟨-, hle'⟩
    · exact absurd hlt' (hsame ▸ Std.Irrefl.irrefl _)
    · exact Nat.le_antisymm hle hle'

/-- The entries of a history with their numbers, in the order of its pages. -/
def paged (history : List Entry) : List (Entry × Nat) :=
  history.zipIdx.mergeSort numberedFirst

theorem map_fst_paged (history : List Entry) : (paged history).map Prod.fst =
    history.mergeSort fun e f => Instant.newerFirst e.firedAt f.firedAt :=
  List.mergeSort_zipIdx

theorem perm_paged (history : List Entry) : (paged history).Perm history.zipIdx :=
  List.mergeSort_perm _ _

theorem pairwise_paged (history : List Entry) :
    (paged history).Pairwise fun p q => numberedFirst p q = true :=
  List.pairwise_mergeSort
    (List.zipIdxLE_trans fun e f g => Instant.newerFirst_trans e.firedAt f.firedAt g.firedAt)
    (List.zipIdxLE_total fun e f => Instant.newerFirst_total e.firedAt f.firedAt) _

theorem mem_paged_iff : p ∈ paged history ↔ history[p.2]? = some p.1 :=
  (perm_paged history).mem_iff.trans List.mem_zipIdx_iff_getElem?

theorem fst_mem_of_mem_paged (h : p ∈ paged history) : p.1 ∈ history :=
  List.mem_of_getElem? (mem_paged_iff.mp h)

/-- An entry that is later than all before it comes first. -/
theorem paged_append_of_lt (h : ∀ d ∈ history, d.firedAt < e.firedAt) :
    paged (history ++ [e]) = (e, history.length) :: paged history := by
  have hperm : (paged (history ++ [e])).Perm ((e, history.length) :: paged history) := by
    refine (perm_paged _).trans ?_
    rw [List.zipIdx_append, Nat.zero_add]
    exact List.perm_append_comm.trans ((perm_paged history).symm.cons _)
  have hsorted : ((e, history.length) :: paged history).Pairwise
      fun p q => numberedFirst p q = true := by
    refine List.pairwise_cons.mpr ⟨fun q hq => ?_, pairwise_paged history⟩
    exact numberedFirst_iff.mpr (.inl (h q.1 (fst_mem_of_mem_paged hq)))
  refine List.Perm.eq_of_pairwise ?_ (pairwise_paged _) hsorted hperm
  intro p q hp hq hpq hqp
  -- a number stands for one entry
  have hnumber := snd_eq_of_numberedFirst hpq hqp
  have hp := mem_paged_iff.mp hp
  rw [hnumber, mem_paged_iff.mp (hperm.mem_iff.mpr hq)] at hp
  exact Prod.ext (Option.some.inj hp).symm hnumber

/-- An entry does not come before an earlier one of the same time. -/
theorem head?_paged_append_ne (hd : d ∈ history) (hsame : d.firedAt = e.firedAt) :
    (paged (history ++ [e])).head? ≠ some (e, history.length) := by
  intro hhead
  obtain ⟨rest, hrest⟩ := List.head?_eq_some_iff.mp hhead
  obtain ⟨i, hi, rfl⟩ := List.mem_iff_getElem.mp hd
  have hmem : (history[i], i) ∈ paged (history ++ [e]) :=
    mem_paged_iff.mpr (by rw [List.getElem?_append_left hi, List.getElem?_eq_getElem hi])
  have hsorted := pairwise_paged (history ++ [e])
  rw [hrest] at hmem hsorted
  rcases List.mem_cons.mp hmem with heq | hmem
  · exact absurd (congrArg Prod.snd heq) (Nat.ne_of_lt hi)
  · rcases numberedFirst_iff.mp ((List.pairwise_cons.mp hsorted).1 _ hmem) with hlt | ⟨-, hle⟩
    · exact absurd hlt (hsame ▸ Std.Irrefl.irrefl _)
    · exact absurd hi (Nat.not_lt.mpr hle)

/-- Behind entries that are not later, an entry comes first when all of them are earlier. -/
theorem head?_paged_append_eq_iff (hle : ∀ d ∈ history, d.firedAt ≤ e.firedAt) :
    (paged (history ++ [e])).head? = some (e, history.length) ↔
      ∀ d ∈ history, d.firedAt < e.firedAt := by
  constructor
  · intro hhead d hd
    refine Int.lt_iff_le_and_ne.mpr ⟨hle d hd, fun hsame => ?_⟩
    exact head?_paged_append_ne hd (Instant.ext hsame) hhead
  · intro h
    rw [paged_append_of_lt h]
    rfl

/-- The only open entry stands at the end, so it is known by its number. -/
theorem head?_paged_fst_iff (hdone : ∀ d ∈ history, d.cleared = true) (hopen : e.cleared = false) :
    (paged (history ++ [e])).head?.map Prod.fst = some e ↔
      (paged (history ++ [e])).head? = some (e, history.length) := by
  constructor
  · intro hhead
    obtain ⟨⟨d, i⟩, hp, rfl⟩ := Option.map_eq_some_iff.mp hhead
    have hmem := mem_paged_iff.mp (List.mem_of_head? hp)
    have hi : i < (history ++ [d]).length := (List.getElem?_eq_some_iff.mp hmem).1
    rw [List.length_append, List.length_singleton] at hi
    rcases Nat.lt_succ_iff_lt_or_eq.mp hi with hlt | rfl
    · rw [List.getElem?_append_left hlt] at hmem
      rw [hdone d (List.mem_of_getElem? hmem)] at hopen
      cases hopen
    · exact hp
  · intro hhead
    rw [hhead]
    rfl

/-- An entry is later than all before it if it is later than the last of them. -/
theorem forall_lt_of_nodup (hasc : history.Pairwise fun d e => d.firedAt ≤ e.firedAt)
    (hle : ∀ d ∈ history, d.firedAt ≤ e.firedAt) {limit : Nat}
    (hnodup : (((e :: history.reverse).take (limit + 2)).map Entry.firedAt).Nodup) :
    ∀ d ∈ history, d.firedAt < e.firedAt := by
  rcases List.eq_nil_or_concat' history with rfl | ⟨older, last, rfl⟩
  · exact fun d hd => absurd hd List.not_mem_nil
  · rw [List.reverse_append, List.reverse_singleton, List.singleton_append, List.take_succ_cons,
      List.take_succ_cons, List.map_cons, List.map_cons, List.nodup_cons] at hnodup
    have hne : e.firedAt ≠ last.firedAt := fun h => hnodup.1 (h ▸ List.mem_cons_self)
    have hlast : last.firedAt < e.firedAt := by
      refine Int.lt_iff_le_and_ne.mpr ⟨hle last (by simp), fun h => hne (Instant.ext h).symm⟩
    intro d hd
    rcases List.mem_append.mp hd with hd | hd
    · exact Int.lt_of_le_of_lt ((List.pairwise_append.mp hasc).2.2 d hd last List.mem_cons_self) hlast
    · rw [List.mem_singleton.mp hd]
      exact hlast

/-- A page is the history from its end exactly when its entries, and the one that follows them, have
times of their own. -/
theorem take_paged_eq_iff (hasc : history.Pairwise fun d e => d.firedAt ≤ e.firedAt) (limit : Nat) :
    (paged history).take limit = history.zipIdx.reverse.take limit ↔
      ((history.reverse.take (limit + 1)).map Entry.firedAt).Nodup := by
  induction history using List.reverseRecOn generalizing limit with
  | nil => simp [paged]
  | append_singleton history e ih =>
    obtain ⟨hasc, -, hle⟩ := List.pairwise_append.mp hasc
    have hle : ∀ d ∈ history, d.firedAt ≤ e.firedAt := fun d hd => hle d hd e List.mem_cons_self
    cases limit with
    | zero => simp
    | succ limit =>
      rw [List.zipIdx_append, List.reverse_append, List.reverse_append, Nat.zero_add]
      show _ = ((e, history.length) :: history.zipIdx.reverse).take (limit + 1) ↔
        (((e :: history.reverse).take (limit + 1 + 1)).map Entry.firedAt).Nodup
      by_cases hlt : ∀ d ∈ history, d.firedAt < e.firedAt
      · have hnew : e.firedAt ∉ (history.reverse.take (limit + 1)).map Entry.firedAt := by
          intro hmem
          obtain ⟨d, hd, hsame⟩ := List.mem_map.mp hmem
          have hd := hlt d (List.mem_reverse.mp (List.mem_of_mem_take hd))
          exact absurd hd (hsame ▸ Std.Irrefl.irrefl _)
        rw [paged_append_of_lt hlt, List.take_succ_cons, List.take_succ_cons, List.take_succ_cons,
          List.cons_inj_right, ih hasc, List.map_cons, List.nodup_cons, and_iff_right hnew]
      · refine iff_of_false (fun heq => hlt ((head?_paged_append_eq_iff hle).mp ?_))
          (fun hnodup => hlt (forall_lt_of_nodup hasc hle hnodup))
        have hhead := congrArg List.head? heq
        rwa [List.head?_take, if_neg (Nat.succ_ne_zero limit)] at hhead

theorem map_fst_reverse_zipIdx_take (history : List Entry) (limit : Nat) :
    (history.zipIdx.reverse.take limit).map Prod.fst = history.reverse.take limit := by
  rw [List.map_take, List.map_reverse, List.zipIdx_map_fst]

end Entry

namespace Memory

open Entry (paged)

variable {m : Memory} {a : Alarm}

/-- A page is the front of the numbered entries, without their numbers. -/
theorem history_of_stored (h : m.stored a.id = .ok a) (limit : Nat) :
    m.history a.id limit = .ok (((paged a.history).take limit).map Prod.fst) := by
  rw [history, h, List.map_take, Entry.map_fst_paged]
  rfl

/-- Of a fired alarm the open entry comes first when it is later than every other. -/
theorem head?_page_iff (h : a.Coherent) (hfired : a.fired = true)
    (hasc : a.history.Pairwise fun d e => d.firedAt ≤ e.firedAt) :
    ∃ e, a.openEntry? = some e ∧ ∀ limit, 0 < limit →
      ((((paged a.history).take limit).map Prod.fst).head? = some e ↔
        ∀ d ∈ a.history, d.cleared = true → d.firedAt < e.firedAt) := by
  obtain ⟨e, he⟩ := Alarm.hasOpen_iff.mp (h.fired_eq_true_iff.mp hfired)
  obtain ⟨hopen, done, rest, hsplit, hdone⟩ := Alarm.openEntry?_eq_some he
  have hrest := h.history_eq hsplit hopen
  subst hrest
  refine ⟨e, he, fun limit hlimit => ?_⟩
  rw [hsplit] at hasc ⊢
  have hle : ∀ d ∈ done, d.firedAt ≤ e.firedAt := fun d hd =>
    (List.pairwise_append.mp hasc).2.2 d hd e List.mem_cons_self
  rw [List.head?_map, List.head?_take, if_neg (by omega)]
  rw [Entry.head?_paged_fst_iff hdone hopen, Entry.head?_paged_append_eq_iff hle]
  constructor
  · intro hlt d hd hcleared
    rcases List.mem_append.mp hd with hd | hd
    · exact hlt d hd
    · rw [List.mem_singleton.mp hd, hopen] at hcleared
      cases hcleared
  · intro hlt d hd
    exact hlt d (List.mem_append_left _ hd) (hdone d hd)

/-- After any calls of which those that fire an alarm do not go back in time, its history records the
firings that succeeded, in their order. A page of it is cut from a sort that puts later entries first and
of one time the older. So it shows the newest entries, the last one made first, exactly when these and the
entry that follows them have times of their own; and the open entry of a fired alarm comes first exactly
when no cleared entry has its time. -/
theorem history_newest_iff (calls : List Call) (hnew : ∀ c ∈ calls, OnlyNew c) {a : Alarm}
    (ha : a ∈ (empty.after calls).alarms)
    (hasc : (calls.filterMap (Call.firing? a.id)).Pairwise fun f g => f.2 ≤ g.2) :
    a.firings = (empty.accepted calls).filterMap (Call.firing? a.id) ∧
    (∀ limit, (empty.after calls).history a.id limit =
        .ok (((paged a.history).take limit).map Prod.fst) ∧
      ((paged a.history).take limit = a.history.zipIdx.reverse.take limit ↔
        ((a.history.reverse.take (limit + 1)).map Entry.firedAt).Nodup) ∧
      (((a.history.reverse.take (limit + 1)).map Entry.firedAt).Nodup →
        (empty.after calls).history a.id limit = .ok (a.history.reverse.take limit))) ∧
    (a.fired = true → ∃ e, a.openEntry? = some e ∧ ∀ limit, 0 < limit →
      ∃ page, (empty.after calls).history a.id limit = .ok page ∧
        (page.head? = some e ↔ ∀ d ∈ a.history, d.cleared = true → d.firedAt < e.firedAt)) := by
  have hcoherent : (empty.after calls).Coherent := coherent_empty.after hnew
  have hstored : (empty.after calls).stored a.id = .ok a := by
    rcases stored_cases (empty.after calls) a.id with ⟨b, hb⟩ | ⟨-, hnone⟩
    · rw [hb, eq_of_stored hcoherent.ids hb ha rfl]
    · exact absurd rfl (hnone a ha)
  have hfirings : a.firings = (empty.accepted calls).filterMap (Call.firing? a.id) :=
    (firings_of_stored hstored).symm.trans (firings_after coherent_empty hnew a.id)
  have hsorted : a.history.Pairwise fun d e => d.firedAt ≤ e.firedAt := by
    have hsome := hasc.sublist ((accepted_sublist empty calls).filterMap (Call.firing? a.id))
    rw [← hfirings, Alarm.firings, List.pairwise_map] at hsome
    exact hsome
  refine ⟨hfirings, fun limit => ⟨history_of_stored hstored limit, Entry.take_paged_eq_iff hsorted limit,
    fun hnodup => ?_⟩, fun hfired => ?_⟩
  · rw [history_of_stored hstored, (Entry.take_paged_eq_iff hsorted limit).mpr hnodup,
      Entry.map_fst_reverse_zipIdx_take]
  · obtain ⟨e, he, hfirst⟩ := head?_page_iff (hcoherent.alarms a ha) hfired hsorted
    exact ⟨e, he, fun limit hlimit => ⟨_, history_of_stored hstored limit, hfirst limit hlimit⟩⟩

/-- An alarm that watches nothing yet. -/
def blank : Alarm :=
  { id := .ofNat 1, owner := "", name := "", info := "", message := "", group := "", enabled := true,
    fired := false, rule := ⟨[], "", 1⟩, runInterval := .ofSeconds 60, lastRun := .epoch,
    createdAt := .epoch, updatedAt := .epoch, history := [], compiled := none }

/-- The alarm is fired at the start of 1970, cleared at once, and fired again. -/
def firedTwice (again : Instant) : List Call :=
  [.create blank, .fire blank.id "t=3.00" .epoch, .clear blank.id .epoch, .fire blank.id "t=5.00" again]

theorem onlyNew_firedTwice (again : Instant) : ∀ c ∈ firedTwice again, OnlyNew c := by
  intro c hc a ha
  subst ha
  simp only [firedTwice, List.mem_cons, Call.create.injEq, reduceCtorEq, or_false,
    List.not_mem_nil] at hc
  subst hc
  exact ⟨rfl, rfl⟩

def blankFired (again : Instant) : Alarm :=
  { blank with
    fired := true
    updatedAt := again
    history :=
      [⟨.ofNat 0, blank.id, "t=3.00", true, .epoch, some .epoch⟩,
        ⟨.ofNat 1, blank.id, "t=5.00", false, again, none⟩] }

theorem alarms_firedTwice (again : Instant) :
    (empty.after (firedTwice again)).alarms = [blankFired again] := rfl

/-- Fired again at another time, the alarm shows its open entry first. -/
theorem history_newest_last :
    let calls := firedTwice .last
    (∀ c ∈ calls, OnlyNew c) ∧ blankFired .last ∈ (empty.after calls).alarms ∧
      (calls.filterMap (Call.firing? blank.id)).Pairwise (fun f g => f.2 ≤ g.2) ∧
      (empty.after calls).history blank.id 1 =
        .ok [⟨.ofNat 1, blank.id, "t=5.00", false, .last, none⟩] := by
  intro calls
  have hmem : blankFired .last ∈ (empty.after calls).alarms := by
    rw [alarms_firedTwice]
    exact List.mem_singleton_self _
  have hasc : (calls.filterMap (Call.firing? blank.id)).Pairwise (fun f g => f.2 ≤ g.2) := by decide
  obtain ⟨-, hpages, -⟩ := history_newest_iff calls (onlyNew_firedTwice .last) hmem hasc
  exact ⟨onlyNew_firedTwice .last, hmem, hasc, (hpages 1).2.2 (by decide)⟩

/-- Fired again at the same time, it shows the entry that is cleared, though the open one was made last. -/
theorem history_shows_older :
    let calls := firedTwice .epoch
    (∀ c ∈ calls, OnlyNew c) ∧
      (calls.filterMap (Call.firing? blank.id)).Pairwise (fun f g => f.2 ≤ g.2) ∧
      (empty.after calls).alarms = [blankFired .epoch] ∧ (blankFired .epoch).fired = true ∧
      Alarm.openEntry? (blankFired .epoch) = some ⟨.ofNat 1, blank.id, "t=5.00", false, .epoch, none⟩ ∧
      (blankFired .epoch).history.reverse.take 1 =
        [⟨.ofNat 1, blank.id, "t=5.00", false, .epoch, none⟩] ∧
      (empty.after calls).history blank.id 1 =
        .ok [⟨.ofNat 0, blank.id, "t=3.00", true, .epoch, some .epoch⟩] := by
  intro calls
  have hsorted : (blankFired .epoch).history.mergeSort
      (fun e f => Instant.newerFirst e.firedAt f.firedAt) = (blankFired .epoch).history :=
    List.mergeSort_of_pairwise (by decide)
  have hstored : (empty.after calls).stored blank.id = .ok (blankFired .epoch) := rfl
  refine ⟨onlyNew_firedTwice .epoch, by decide, rfl, rfl, rfl, rfl, ?_⟩
  rw [history, hstored]
  show Except.ok ((List.mergeSort _ _).take 1) = _
  rw [hsorted]
  rfl

end Memory

end Vigil
