import Mathlib.Data.List.Count
import Mathlib.Data.List.Forall2
import Mathlib.Data.List.Nodup
import Vigil.Scheduler.Lifecycle

/-!
# Every interleaving of a scheduler

Calls that start and stop a scheduler come in any order with the moves of its loops: a loop looks whether
it is current, finishes a pass, or is woken, by a stop or because its time is over. Nothing is assumed of
the order, of the moments, or of when a woken loop goes on. A loop is known by its generation; starts are
counted without a bound. Loops that have ended may be forgotten.
-/

namespace Vigil

namespace Scheduler

/-- What happens to a scheduler. -/
inductive Move where
  | start (effect : Bool)
  | stop (effect : Bool)
  | look (generation : Nat) (current : Bool) (next : Phase)
  | finish (generation : Nat) (brokeDown : Bool)
  | wake
  | forget

/-- The generation of the loop that looks or finishes a pass. -/
def Move.generation? : Move → Option Nat
  | look generation _ _ | finish generation _ => some generation
  | _ => none

/-- Some of the loops that pause no longer do. -/
def Woken : List Loop → List Loop → Prop :=
  List.Forall₂ fun l l' => l' = l ∨ l' = l.wake

/-- One move. A stop wakes some loops at once; others may be woken later. -/
inductive Moves : Scheduler → Move → Scheduler → Prop
  | start (s : Scheduler) : Moves s (.start s.start.1) s.start.2
  | stop {s : Scheduler} {loops : List Loop} (h : Woken s.loops loops) :
      Moves s (.stop s.stop.1) { s.stop.2 with loops }
  | look {s : Scheduler} (before after : List Loop) (l : Loop) (moment : Nat)
      (hloops : s.loops = before ++ l :: after) (hphase : l.phase = .checking ∨ l.phase = .rechecking) :
      Moves s
        (.look l.generation (s.lifecycle.isCurrent l.generation)
          (l.check s.lifecycle s.interval moment).phase)
        { s with loops := before ++ l.check s.lifecycle s.interval moment :: after }
  | finish {s : Scheduler} (before after : List Loop) (l : Loop) (moment : Nat) (brokeDown : Bool)
      (hloops : s.loops = before ++ l :: after) (hphase : l.phase = .passing) :
      Moves s (.finish l.generation brokeDown)
        { s with loops := before ++ l.finish s.cooldown moment brokeDown :: after }
  | wake {s : Scheduler} {loops : List Loop} (h : Woken s.loops loops) :
      Moves s .wake { s with loops }
  | forget (s : Scheduler) :
      Moves s .forget { s with loops := s.loops.filter fun l => l.phase ≠ .ended }

/-- Moves, one after the other. -/
inductive Run : Scheduler → List Move → Scheduler → Prop
  | nil (s : Scheduler) : Run s [] s
  | cons {s s' s'' : Scheduler} {m : Move} {moves : List Move} (h : Moves s m s')
      (h' : Run s' moves s'') : Run s (m :: moves) s''

variable {s s' s'' : Scheduler} {m : Move} {moves moves' : List Move} {l : Loop} {generation : Nat}

theorem Run.append (h : Run s moves s') (h' : Run s' moves' s'') : Run s (moves ++ moves') s'' := by
  induction h with
  | nil s => exact h'
  | cons hmove _ ih => exact .cons hmove (ih h')

theorem Run.split (h : Run s (moves ++ moves') s'') : ∃ s', Run s moves s' ∧ Run s' moves' s'' := by
  induction moves generalizing s with
  | nil => exact ⟨s, .nil s, h⟩
  | cons m rest ih =>
    cases h with
    | cons hmove hrest =>
      obtain ⟨s', hbefore, hafter⟩ := ih hrest
      exact ⟨s', .cons hmove hbefore, hafter⟩

end Scheduler

namespace Loop

variable {c : Lifecycle} {l : Loop}

/-- The generation of a loop, and whether the loop has ended. -/
def mark (l : Loop) : Nat × Bool :=
  (l.generation, decide (l.phase = .ended))

/-- A loop that looks ends if it is not current, and only then. -/
theorem mark_check (hphase : l.phase = .checking ∨ l.phase = .rechecking) (c : Lifecycle)
    (interval : Span) (moment : Nat) :
    (l.check c interval moment).mark = (l.generation, !c.isCurrent l.generation) := by
  unfold check mark
  rcases hphase with hphase | hphase <;> cases c.isCurrent l.generation <;> simp [hphase]

/-- A look of a loop that is not current ends it. -/
theorem check_of_not_current (hphase : l.phase = .checking ∨ l.phase = .rechecking)
    (h : c.isCurrent l.generation = false) (interval : Span) (moment : Nat) :
    (l.check c interval moment).phase = .ended := by
  have hmark := congrArg Prod.snd (mark_check hphase c interval moment)
  simpa [mark, h] using hmark

/-- A pass does not end its loop, even if it breaks down. -/
theorem mark_finish (hphase : l.phase = .passing) (cooldown : Span) (moment : Nat) (brokeDown : Bool) :
    (l.finish cooldown moment brokeDown).mark = l.mark := by
  unfold finish mark
  cases brokeDown <;> simp [hphase]

theorem mark_wake (l : Loop) : l.wake.mark = l.mark := by
  unfold wake mark
  split <;> simp_all

end Loop

namespace Scheduler

variable {s s' s'' : Scheduler} {m : Move} {moves moves' : List Move} {generation : Nat}

/-- The generations of all loops, each with whether the loop has ended. -/
def marks (s : Scheduler) : List (Nat × Bool) :=
  s.loops.map Loop.mark

theorem marks_of_woken {before after : List Loop} (h : Woken before after) :
    after.map Loop.mark = before.map Loop.mark := by
  induction h with
  | nil => rfl
  | cons hwoken _ ih =>
    rw [List.map_cons, List.map_cons, ih]
    rcases hwoken with rfl | rfl
    · rfl
    · rw [Loop.mark_wake]

/-- What a move does to the life of a scheduler and to its loops. -/
inductive Effect (s s' : Scheduler) : Move → Prop
  | begun (hidle : s.isRunning = false)
      (hlife : s'.lifecycle = ⟨true, s.lifecycle.generation + 1⟩)
      (hmarks : s'.marks = s.marks ++ [(s.lifecycle.generation + 1, false)]) :
      Effect s s' (.start true)
  | halted (hlife : s'.lifecycle = { s.lifecycle with running := false })
      (hmarks : s'.marks = s.marks) : Effect s s' (.stop s.isRunning)
  | ended {generation : Nat} {before after : List (Nat × Bool)}
      (hcurrent : s.lifecycle.isCurrent generation = false) (hlife : s'.lifecycle = s.lifecycle)
      (hbefore : s.marks = before ++ (generation, false) :: after)
      (hafter : s'.marks = before ++ (generation, true) :: after) :
      Effect s s' (.look generation false .ended)
  | forgot (hlife : s'.lifecycle = s.lifecycle)
      (hmarks : s'.marks = s.marks.filter fun x => !x.2) : Effect s s' .forget
  | quiet {m : Move} (hlife : s'.lifecycle = s.lifecycle) (hmarks : s'.marks = s.marks)
      (hstart : m ≠ .start true) (hlook : ∀ g next, m ≠ .look g false next)
      (hrunning : ∀ g next, m = .look g true next → s.isRunning = true)
      (hlive : ∀ g, m.generation? = some g → (g, false) ∈ s.marks) : Effect s s' m

/-- A start takes effect on a scheduler that does not run, and brings one loop into being. -/
theorem start_spec (s : Scheduler) :
    s.start.1 = !s.isRunning ∧ s.start.2.loops =
      s.loops ++ if s.isRunning then [] else [⟨s.lifecycle.generation + 1, .checking⟩] := by
  unfold Scheduler.start
  cases s.isRunning <;> simp

/-- A stop takes effect on a scheduler that runs; either way it does not run then. -/
theorem stop_spec (s : Scheduler) :
    s.stop.1 = s.isRunning ∧ s.stop.2.lifecycle = { s.lifecycle with running := false } := by
  unfold Scheduler.stop
  cases hrunning : s.isRunning with
  | true => exact ⟨rfl, rfl⟩
  | false =>
    have hsame : s.lifecycle = { s.lifecycle with running := false } := by
      rw [← hrunning]
      rfl
    exact ⟨rfl, hsame⟩

theorem Moves.effect (h : Moves s m s') : Effect s s' m := by
  cases h with
  | start =>
    unfold Scheduler.start
    cases hrunning : s.isRunning with
    | true => exact .quiet rfl rfl (by simp) (by simp) (by simp) (by simp [Move.generation?])
    | false => exact .begun hrunning rfl (by simp [marks, Loop.mark])
  | stop hwoken =>
    obtain ⟨heffect, hlife⟩ := stop_spec s
    rw [heffect]
    exact .halted hlife (marks_of_woken hwoken)
  | look before after l moment hloops hphase =>
    have hbefore : s.marks = before.map Loop.mark ++ (l.generation, false) :: after.map Loop.mark := by
      rcases hphase with hphase | hphase <;> simp [marks, hloops, Loop.mark, hphase]
    have hafter : ({ s with loops := before ++ l.check s.lifecycle s.interval moment :: after } :
          Scheduler).marks = before.map Loop.mark ++
        (l.generation, !s.lifecycle.isCurrent l.generation) :: after.map Loop.mark := by
      simp [marks, Loop.mark_check hphase]
    cases hcurrent : s.lifecycle.isCurrent l.generation with
    | false =>
      rw [Loop.check_of_not_current hphase hcurrent]
      rw [hcurrent] at hafter
      exact .ended hcurrent rfl hbefore hafter
    | true =>
      rw [hcurrent] at hafter
      refine .quiet rfl (hafter.trans hbefore.symm) (by simp) (by simp) ?_ ?_
      · intro _ _ _
        exact (Bool.and_eq_true_iff.mp hcurrent).1
      · intro g hg
        cases hg
        rw [hbefore]
        simp
  | finish before after l moment brokeDown hloops hphase =>
    refine .quiet rfl ?_ (by simp) (by simp) (by simp) ?_
    · simp [marks, hloops, Loop.mark_finish hphase]
    · intro g hg
      cases hg
      simp [marks, hloops, Loop.mark, hphase]
  | wake hwoken =>
    exact .quiet rfl (marks_of_woken hwoken) (by simp) (by simp) (by simp) (by simp [Move.generation?])
  | forget =>
    refine .forgot rfl ?_
    rw [marks, marks, List.filter_map]
    refine congrArg _ (List.filter_congr ?_)
    intro l _
    simp [Loop.mark]

/-- Generations ascend from the oldest loop to the newest, none is above the number of starts, and while
the scheduler runs there is a loop of the last start, which has not ended. -/
structure Orderly (s : Scheduler) : Prop where
  ascending : (s.marks.map Prod.fst).Pairwise (· < ·)
  le : ∀ g ∈ s.marks.map Prod.fst, g ≤ s.lifecycle.generation
  present : s.isRunning = true → (s.lifecycle.generation, false) ∈ s.marks

theorem marks_create {interval cooldown : Span} (h : create interval cooldown = .ok s) :
    s.marks = [] := by
  unfold create at h
  split at h <;> cases h
  rfl

theorem orderly_create {interval cooldown : Span} (h : create interval cooldown = .ok s) :
    s.Orderly := by
  unfold create at h
  split at h
  · cases h
  · cases h
    exact ⟨.nil, by simp [marks], by simp [isRunning]⟩

/-- Loops may go, but no new ones come without a start. -/
theorem Orderly.of_sublist (h : s.Orderly)
    (hsub : (s'.marks.map Prod.fst).Sublist (s.marks.map Prod.fst))
    (hgeneration : s'.lifecycle.generation = s.lifecycle.generation)
    (hpresent : s'.isRunning = true → (s.lifecycle.generation, false) ∈ s'.marks) : s'.Orderly where
  ascending := h.ascending.sublist hsub
  le g hg := hgeneration ▸ h.le g (hsub.subset hg)
  present hrunning := hgeneration ▸ hpresent hrunning

/-- A loop is known by its generation. -/
theorem Orderly.unique (h : s.Orderly) {before after : List (Nat × Bool)} {b : Bool}
    (hmarks : s.marks = before ++ (generation, b) :: after) (c : Bool) :
    (generation, c) ∉ before ∧ (generation, c) ∉ after := by
  have hascending := h.ascending
  rw [hmarks, List.map_append, List.map_cons, List.pairwise_append] at hascending
  obtain ⟨-, hafter, hbefore⟩ := hascending
  constructor
  · intro hmem
    have hlt := hbefore _ (List.mem_map_of_mem hmem) _ List.mem_cons_self
    exact Nat.lt_irrefl _ hlt
  · intro hmem
    have hlt := (List.pairwise_cons.mp hafter).1 _ (List.mem_map_of_mem hmem)
    exact Nat.lt_irrefl _ hlt

theorem Orderly.step (h : s.Orderly) (hmove : Moves s m s') : s'.Orderly := by
  cases hmove.effect with
  | begun hidle hlife hmarks =>
    refine ⟨?_, ?_, ?_⟩
    · rw [hmarks, List.map_append, List.pairwise_append]
      refine ⟨h.ascending, List.pairwise_singleton _ _, ?_⟩
      intro g hg g' hg'
      have hle := h.le g hg
      simp only [List.map_cons, List.map_nil, List.mem_singleton] at hg'
      omega
    · intro g hg
      rw [hmarks, List.map_append, List.mem_append] at hg
      rw [hlife]
      rcases hg with hg | hg
      · exact Nat.le_succ_of_le (h.le g hg)
      · simp only [List.map_cons, List.map_nil, List.mem_singleton] at hg
        exact Nat.le_of_eq hg
    · rw [hlife, hmarks]
      simp
  | halted hlife hmarks =>
    refine h.of_sublist (by rw [hmarks]) (by rw [hlife]) ?_
    rw [isRunning, hlife]
    exact fun hrunning => absurd hrunning Bool.false_ne_true
  | ended hcurrent hlife hbefore hafter =>
    refine h.of_sublist (by simp [hbefore, hafter]) (by rw [hlife]) ?_
    rw [isRunning, hlife]
    intro hrunning
    -- the loop that ended is not that of the last start
    have hpresent := h.present hrunning
    rw [hbefore, List.mem_append, List.mem_cons] at hpresent
    rw [hafter, List.mem_append, List.mem_cons]
    rcases hpresent with hmem | heq | hmem
    · exact .inl hmem
    · have hsame : s.lifecycle.isCurrent s.lifecycle.generation = true := by
        simpa [Lifecycle.isCurrent] using hrunning
      rw [(Prod.mk.inj heq).1, hcurrent] at hsame
      cases hsame
    · exact .inr (.inr hmem)
  | forgot hlife hmarks =>
    refine h.of_sublist (by rw [hmarks]; exact List.filter_sublist.map _) (by rw [hlife]) ?_
    rw [isRunning, hlife, hmarks]
    exact fun hrunning => List.mem_filter.mpr ⟨h.present hrunning, rfl⟩
  | quiet hlife hmarks =>
    refine h.of_sublist (by rw [hmarks]) (by rw [hlife]) ?_
    rw [isRunning, hlife, hmarks]
    exact h.present

theorem Orderly.run (h : s.Orderly) (hrun : Run s moves s') : s'.Orderly := by
  induction hrun with
  | nil => exact h
  | cons hmove _ ih => exact ih (h.step hmove)

/-- One loop is current while the scheduler runs, and none while it does not. -/
theorem Orderly.length_current (h : s.Orderly) :
    (s.loops.filter fun l => s.lifecycle.isCurrent l.generation).length =
      if s.isRunning then 1 else 0 := by
  have hgenerations : s.marks.map Prod.fst = s.loops.map Loop.generation := by
    rw [marks, List.map_map]
    rfl
  cases hrunning : s.isRunning with
  | false =>
    have hnone : (s.loops.filter fun l => s.lifecycle.isCurrent l.generation) = [] := by
      rw [List.filter_eq_nil_iff]
      intro l _
      rw [Lifecycle.isCurrent, show s.lifecycle.running = false from hrunning]
      simp
    rw [hnone]
    rfl
  | true =>
    have hmem : s.lifecycle.generation ∈ s.loops.map Loop.generation := by
      rw [← hgenerations]
      exact List.mem_map_of_mem (h.present hrunning)
    have hnodup : (s.loops.map Loop.generation).Nodup := by
      rw [← hgenerations]
      exact h.ascending.imp Nat.ne_of_lt
    have hcount := List.count_eq_one_of_mem hnodup hmem
    rw [List.count, List.countP_map, List.countP_eq_length_filter] at hcount
    rw [if_pos rfl, ← hcount]
    congr 2
    funext l
    rw [Lifecycle.isCurrent, show s.lifecycle.running = true from hrunning, Bool.true_and]
    exact Bool.beq_comm

/-- The current loop has not ended. -/
theorem Orderly.not_current_of_ended (h : s.Orderly) (hended : (generation, true) ∈ s.marks) :
    s.lifecycle.isCurrent generation = false := by
  cases hcurrent : s.lifecycle.isCurrent generation with
  | false => rfl
  | true =>
    obtain ⟨hrunning, hgeneration⟩ := Bool.and_eq_true_iff.mp hcurrent
    obtain rfl : s.lifecycle.generation = generation := by simpa using hgeneration
    obtain ⟨before, after, hsplit⟩ := List.append_of_mem hended
    have hpresent := h.present hrunning
    obtain ⟨hbefore, hafter⟩ := h.unique hsplit false
    rw [hsplit, List.mem_append, List.mem_cons] at hpresent
    rcases hpresent with hmem | heq | hmem
    · exact absurd hmem hbefore
    · cases heq
    · exact absurd hmem hafter

/-- A loop has ended, and none of its generation will come. -/
def Over (s : Scheduler) (generation : Nat) : Prop :=
  generation ≤ s.lifecycle.generation ∧ (generation, false) ∉ s.marks

theorem Over.mono (h : s.Over generation)
    (hle : s.lifecycle.generation ≤ s'.lifecycle.generation)
    (hmem : (generation, false) ∈ s'.marks → (generation, false) ∈ s.marks) : s'.Over generation :=
  ⟨Nat.le_trans h.1 hle, fun hmem' => h.2 (hmem hmem')⟩

/-- A loop that is not current when it looks is over. -/
theorem Orderly.over_of_look (h : s.Orderly) {next : Phase}
    (hmove : Moves s (.look generation false next) s') : s'.Over generation := by
  cases hmove.effect with
  | ended hcurrent hlife hbefore hafter =>
    obtain ⟨hnotBefore, hnotAfter⟩ := h.unique hbefore false
    constructor
    · rw [hlife]
      refine h.le _ ?_
      rw [hbefore]
      simp
    · rw [hafter]
      simp [hnotBefore, hnotAfter]
  | quiet _ _ _ hlook => exact absurd rfl (hlook _ _)

/-- A loop that is over does not move, and stays over. -/
theorem Over.step (h : s.Over generation) (hmove : Moves s m s') :
    m.generation? ≠ some generation ∧ s'.Over generation := by
  cases hmove.effect with
  | begun hidle hlife hmarks =>
    refine ⟨by simp [Move.generation?], h.mono (by simp [hlife]) ?_⟩
    have hle := h.1
    rw [hmarks, List.mem_append, List.mem_singleton, Prod.mk.injEq]
    rintro (hmem | ⟨heq, -⟩)
    · exact hmem
    · omega
  | halted hlife hmarks =>
    exact ⟨by simp [Move.generation?], h.mono (by simp [hlife]) (by simp [hmarks])⟩
  | ended hcurrent hlife hbefore hafter =>
    refine ⟨?_, h.mono (by simp [hlife]) ?_⟩
    · intro heq
      cases heq
      exact h.2 (by simp [hbefore])
    · simp only [hbefore, hafter, List.mem_append, List.mem_cons]
      rintro (hmem | heq | hmem)
      · exact .inl hmem
      · cases heq
      · exact .inr (.inr hmem)
  | forgot hlife hmarks =>
    exact ⟨by simp [Move.generation?], h.mono (by simp [hlife]) (by simp [hmarks])⟩
  | quiet hlife hmarks _ _ _ hlive =>
    exact ⟨fun heq => h.2 (hlive _ heq), h.mono (by simp [hlife]) (by simp [hmarks])⟩

theorem Over.run (h : s.Over generation) (hrun : Run s moves s') :
    ∀ m ∈ moves, m.generation? ≠ some generation := by
  induction hrun with
  | nil => simp
  | cons hmove _ ih =>
    obtain ⟨hm, hover⟩ := h.step hmove
    exact List.forall_mem_cons.mpr ⟨hm, ih hover⟩

/-- While a scheduler does not run no pass begins, and only a start makes it run. -/
theorem silent_step (h : s.isRunning = false) (hmove : Moves s m s') (hstart : m ≠ .start true) :
    (∀ g current, m ≠ .look g current .passing) ∧ s'.isRunning = false := by
  cases hmove.effect with
  | begun => exact absurd rfl hstart
  | halted hlife => exact ⟨by simp, by rw [isRunning, hlife]⟩
  | ended _ hlife => exact ⟨by simp, by rw [isRunning, hlife]; exact h⟩
  | forgot hlife => exact ⟨by simp, by rw [isRunning, hlife]; exact h⟩
  | quiet hlife _ _ hlook hrunning =>
    refine ⟨?_, by rw [isRunning, hlife]; exact h⟩
    rintro g current rfl
    cases current with
    | true => exact absurd (hrunning g _ rfl) (by simp [h])
    | false => exact hlook g _ rfl

/-- After a stop a scheduler does not run. -/
theorem silent_of_stop {effect : Bool} (hmove : Moves s (.stop effect) s') : s'.isRunning = false := by
  cases hmove with
  | stop => exact congrArg Lifecycle.running (stop_spec s).2

theorem silent_run (h : s.isRunning = false) (hrun : Run s moves s') (hstart : .start true ∉ moves) :
    ∀ g current, .look g current .passing ∉ moves := by
  induction hrun with
  | nil => simp
  | cons hmove _ ih =>
    rw [List.mem_cons, not_or] at hstart
    obtain ⟨hm, hrest⟩ := silent_step h hmove (Ne.symm hstart.1)
    intro g current hmem
    rcases List.mem_cons.mp hmem with heq | hmem
    · exact hm g current heq.symm
    · exact ih hrest hstart.2 g current hmem

/-- Only a look at which it is not current ends a loop. -/
theorem ended_step (hmove : Moves s m s') (h : (generation, true) ∈ s'.marks) :
    (generation, true) ∈ s.marks ∨ m = .look generation false .ended := by
  cases hmove.effect with
  | begun hidle hlife hmarks => exact .inl (by simpa [hmarks] using h)
  | halted hlife hmarks => exact .inl (hmarks ▸ h)
  | ended hcurrent hlife hbefore hafter =>
    rw [hafter, List.mem_append, List.mem_cons] at h
    rw [hbefore]
    rcases h with hmem | heq | hmem
    · exact .inl (List.mem_append_left _ hmem)
    · cases heq
      exact .inr rfl
    · exact .inl (List.mem_append_right _ (List.mem_cons_of_mem _ hmem))
  | forgot hlife hmarks =>
    rw [hmarks] at h
    exact .inl (List.mem_of_mem_filter h)
  | quiet hlife hmarks => exact .inl (hmarks ▸ h)

theorem ended_run (hrun : Run s moves s') (h : (generation, true) ∈ s'.marks) :
    (generation, true) ∈ s.marks ∨ .look generation false .ended ∈ moves := by
  induction hrun with
  | nil => exact .inl h
  | cons hmove _ ih =>
    rcases ih h with hmem | hmem
    · rcases ended_step hmove hmem with hmem | rfl
      · exact .inl hmem
      · exact .inr List.mem_cons_self
    · exact .inr (List.mem_cons_of_mem _ hmem)

/-- After any moves of a new scheduler one loop is current if it runs, and none if it does not. A start
takes effect exactly on a scheduler that does not run, and then brings one loop into being; a stop takes
effect exactly on one that runs. A loop that is not current when it looks never looks again, nor
finishes a pass, whatever starts and stops follow. From a stop that took effect to the next start that
does, no look begins a pass. And a loop has ended only by a look at which it was not current, so no pass
ends it, not even one that breaks down, while it is. -/
theorem lifecycle_of_run {interval cooldown : Span} {new : Scheduler}
    (hnew : create interval cooldown = .ok new) (h : Run new moves s) :
    ((s.loops.filter fun l => s.lifecycle.isCurrent l.generation).length =
      if s.isRunning then 1 else 0) ∧
    (s.start.1 = !s.isRunning ∧ s.start.2.loops =
      s.loops ++ if s.isRunning then [] else [⟨s.lifecycle.generation + 1, .checking⟩]) ∧
    s.stop.1 = s.isRunning ∧
    (∀ before g next after, moves = before ++ .look g false next :: after →
      ∀ m ∈ after, m.generation? ≠ some g) ∧
    (∀ before silent after, moves = before ++ .stop true :: (silent ++ after) →
      .start true ∉ silent → ∀ g current, .look g current .passing ∉ silent) ∧
    (∀ l ∈ s.loops, l.phase = .ended →
      s.lifecycle.isCurrent l.generation = false ∧ .look l.generation false .ended ∈ moves) := by
  have horderly := orderly_create hnew
  refine ⟨(horderly.run h).length_current, start_spec s, (stop_spec s).1, ?_, ?_, ?_⟩
  · rintro before g next after rfl
    obtain ⟨s₁, hbefore, hrest⟩ := h.split
    cases hrest with
    | cons hlook hafter => exact ((horderly.run hbefore).over_of_look hlook).run hafter
  · rintro before silent after rfl hstart
    obtain ⟨s₁, -, hrest⟩ := h.split
    cases hrest with
    | cons hstop hrest =>
      obtain ⟨s₂, hsilent, -⟩ := hrest.split
      exact silent_run (silent_of_stop hstop) hsilent hstart
  · intro l hl hended
    have hmark : (l.generation, true) ∈ s.marks := by
      have hmem := List.mem_map_of_mem (f := Loop.mark) hl
      rwa [Loop.mark, decide_eq_true hended] at hmem
    refine ⟨(horderly.run h).not_current_of_ended hmark, ?_⟩
    rcases ended_run h hmark with hmem | hmem
    · rw [marks_create hnew] at hmem
      cases hmem
    · exact hmem

/-- A scheduler with the shortest interval. -/
def everyFiveSeconds (running : Bool) (generation : Nat) (loops : List Loop) : Scheduler :=
  ⟨leastInterval, .ofSeconds 15, ⟨running, generation⟩, loops⟩

/-- The first loop is in a pass while the scheduler is stopped and started; the pass breaks down, and at
its next look the loop ends. -/
theorem lifecycle_of_restart_during_pass :
    let new := everyFiveSeconds false 0 []
    let moves : List Move := [.start true, .look 1 true .passing, .stop true, .start true,
      .finish 1 true, .look 2 true .passing, .wake, .look 1 false .ended]
    let s := everyFiveSeconds true 2 [⟨1, .ended⟩, ⟨2, .passing⟩]
    create leastInterval (.ofSeconds 15) = .ok new ∧ Run new moves s ∧
      (s.loops.filter fun l => s.lifecycle.isCurrent l.generation).length = 1 ∧
      s.stop.1 = true ∧ s.lifecycle.isCurrent 1 = false := by
  intro new moves s
  have hnew : create leastInterval (.ofSeconds 15) = .ok new := rfl
  have hlook : Moves (everyFiveSeconds true 1 [⟨1, .checking⟩]) (.look 1 true .passing)
      (everyFiveSeconds true 1 [⟨1, .passing⟩]) :=
    .look [] [] ⟨1, .checking⟩ 0 rfl (.inl rfl)
  have hstop : Moves (everyFiveSeconds true 1 [⟨1, .passing⟩]) (.stop true)
      (everyFiveSeconds false 1 [⟨1, .passing⟩]) := .stop (.cons (.inl rfl) .nil)
  have hfinish : Moves (everyFiveSeconds true 2 [⟨1, .passing⟩, ⟨2, .checking⟩]) (.finish 1 true)
      (everyFiveSeconds true 2 [⟨1, .pausing 15000000000⟩, ⟨2, .checking⟩]) :=
    .finish [] [⟨2, .checking⟩] ⟨1, .passing⟩ 0 true rfl rfl
  have hbegin : Moves (everyFiveSeconds true 2 [⟨1, .pausing 15000000000⟩, ⟨2, .checking⟩])
      (.look 2 true .passing) (everyFiveSeconds true 2 [⟨1, .pausing 15000000000⟩, ⟨2, .passing⟩]) :=
    .look [⟨1, .pausing 15000000000⟩] [] ⟨2, .checking⟩ 0 rfl (.inl rfl)
  have hwake : Moves (everyFiveSeconds true 2 [⟨1, .pausing 15000000000⟩, ⟨2, .passing⟩]) .wake
      (everyFiveSeconds true 2 [⟨1, .checking⟩, ⟨2, .passing⟩]) :=
    .wake (.cons (.inr rfl) (.cons (.inl rfl) .nil))
  have hend : Moves (everyFiveSeconds true 2 [⟨1, .checking⟩, ⟨2, .passing⟩])
      (.look 1 false .ended) s :=
    .look [] [⟨2, .passing⟩] ⟨1, .checking⟩ 0 rfl (.inl rfl)
  have hrun : Run new moves s :=
    .cons (.start _) (.cons hlook (.cons hstop (.cons (.start _) (.cons hfinish (.cons hbegin
      (.cons hwake (.cons hend (.nil _))))))))
  obtain ⟨hcurrent, -, hrunning, -, -, hended⟩ := lifecycle_of_run hnew hrun
  exact ⟨hnew, hrun, hcurrent, hrunning, (hended ⟨1, .ended⟩ List.mem_cons_self rfl).1⟩

end Scheduler

end Vigil
