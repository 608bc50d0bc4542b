import Vigil.Proofs.Scheduler.Moves
import Vigil.Scheduler.Clocked

/-!
# A scheduler on the clock is one of the interleavings

On the clock the loops take turns in one order, and each goes on as far as it can. Whatever a program
does with such a scheduler, its moves are a run, so what holds after every run holds of it.
-/

namespace Vigil

theorem Loop.wakeAt_cases (moment : Nat) (l : Loop) :
    l.wakeAt moment = l ∨ l.wakeAt moment = l.wake := by
  unfold wakeAt
  split
  · split
    · exact .inr rfl
    · exact .inl rfl
  · exact .inl rfl

namespace Scheduler

variable {s : Scheduler} {before after : List Loop} {l : Loop}

theorem woken_refl (loops : List Loop) : Woken loops loops :=
  List.forall₂_same.mpr fun _ _ => .inl rfl

theorem woken_of_wakeAt (moment : Nat) (before after : List Loop) (l : Loop) :
    Woken (before ++ l :: after) (before ++ l.wakeAt moment :: after) := by
  induction before with
  | nil => exact .cons (l.wakeAt_cases moment) (woken_refl after)
  | cons b before ih => exact .cons (.inl rfl) ih

theorem woken_stop (s : Scheduler) : Woken s.loops s.stop.2.loops := by
  unfold stop
  split
  · exact List.forall₂_map_right_iff.mpr (List.forall₂_same.mpr fun _ _ => .inr rfl)
  · exact woken_refl s.loops

theorem Run.single {s' : Scheduler} {m : Move} (h : Moves s m s') : Run s [m] s' :=
  .cons h (.nil s')

def withLoops (s : Scheduler) (loops : List Loop) : Scheduler :=
  { s with loops }

/-- A pass and the look after it. -/
theorem run_pass (s : Scheduler) (hphase : l.phase = .passing) (moment : Nat) (brokeDown : Bool)
    (before after : List Loop) :
    ∃ moves, Run (s.withLoops (before ++ l :: after)) moves (s.withLoops (before ++
      (l.finish s.cooldown moment brokeDown).check s.lifecycle s.interval moment :: after)) := by
  have hfinish := Moves.finish (s := s.withLoops (before ++ l :: after)) before after l moment brokeDown
    rfl hphase
  cases brokeDown with
  | true =>
    -- after a pass that broke down the loop pauses without a look
    have hsame : (l.finish s.cooldown moment true).check s.lifecycle s.interval moment =
        l.finish s.cooldown moment true := by simp [Loop.finish, hphase, Loop.check]
    rw [hsame]
    exact ⟨_, .single hfinish⟩
  | false =>
    have hagain : (l.finish s.cooldown moment false).phase = .rechecking := by
      simp [Loop.finish, hphase]
    exact ⟨_, .cons hfinish (.single (.look before after _ moment rfl (.inr hagain)))⟩

end Scheduler

namespace Clocked

open Scheduler

variable {σ : Type} [Repository σ] {before after : List Loop} {l : Loop}

theorem scheduler_pass (w : Clocked σ) : w.pass.2.scheduler = w.scheduler := by
  unfold pass
  dsimp only
  split <;> rfl

theorem run_turn (w : Clocked σ) (hphase : l.phase = .checking) (before after : List Loop) :
    (w.turn l).2.scheduler = w.scheduler ∧
      ∃ moves, Run (w.scheduler.withLoops (before ++ l :: after)) moves
        (w.scheduler.withLoops (before ++ (w.turn l).1 :: after)) := by
  have hlook := Moves.look (s := w.scheduler.withLoops (before ++ l :: after)) before after l w.moment rfl
    (.inl hphase)
  unfold turn
  dsimp only
  split
  · rename_i hpassing
    obtain ⟨moves, hpass⟩ := run_pass w.scheduler hpassing w.pass.2.moment w.pass.1.isNone before after
    exact ⟨scheduler_pass w, _, .cons hlook hpass⟩
  · exact ⟨rfl, _, .single hlook⟩

theorem run_turns (n : Nat) (w : Clocked σ) (l : Loop) (before after : List Loop) :
    (turns n w l).2.scheduler = w.scheduler ∧
      ∃ moves, Run (w.scheduler.withLoops (before ++ l :: after)) moves
        (w.scheduler.withLoops (before ++ (turns n w l).1 :: after)) := by
  induction n generalizing w l with
  | zero => exact ⟨rfl, [], .nil _⟩
  | succ n ih =>
    have hwake := Moves.wake (s := w.scheduler.withLoops (before ++ l :: after))
      (woken_of_wakeAt w.moment before after l)
    rw [turns]
    dsimp only
    split
    · rename_i hphase
      obtain ⟨hsame, moves, hturn⟩ := run_turn w hphase before after
      obtain ⟨hsame', moves', hturns⟩ :=
        ih (w.turn (l.wakeAt w.moment)).2 (w.turn (l.wakeAt w.moment)).1
      rw [hsame] at hsame' hturns
      exact ⟨hsame', _, .cons hwake (hturn.append hturns)⟩
    · exact ⟨rfl, _, .single hwake⟩

theorem run_turnAll (loops : List Loop) (w : Clocked σ) (before : List Loop) :
    (turnAll loops w).2.scheduler = w.scheduler ∧
      ∃ moves, Run (w.scheduler.withLoops (before ++ loops)) moves
        (w.scheduler.withLoops (before ++ (turnAll loops w).1)) := by
  induction loops generalizing w before with
  | nil => exact ⟨rfl, [], .nil _⟩
  | cons l rest ih =>
    obtain ⟨hsame, moves, hturns⟩ := run_turns (w.script.length + 1) w l before rest
    obtain ⟨hsame', moves', hrest⟩ := ih (turns (w.script.length + 1) w l).2
      (before ++ [(turns (w.script.length + 1) w l).1])
    rw [hsame] at hsame' hrest
    rw [List.append_assoc, List.append_assoc] at hrest
    exact ⟨hsame', _, hturns.append hrest⟩

theorem run_settle (w : Clocked σ) : ∃ moves, Run w.scheduler moves w.settle.scheduler := by
  obtain ⟨hsame, moves, hturns⟩ := run_turnAll w.scheduler.loops w []
  have hforget := Moves.forget (w.scheduler.withLoops (turnAll w.scheduler.loops w).1)
  have hsettle : w.settle.scheduler = w.scheduler.withLoops
      ((turnAll w.scheduler.loops w).1.filter fun l => l.phase ≠ .ended) := by
    show (turnAll w.scheduler.loops w).2.scheduler.withLoops _ = _
    rw [hsame]
  rw [hsettle]
  exact ⟨_, hturns.append (.single hforget)⟩

theorem run_advance (n : Nat) (w : Clocked σ) :
    ∃ moves, Run w.scheduler moves (w.advance n).scheduler := by
  induction n generalizing w with
  | zero => exact run_settle w
  | succ n ih =>
    obtain ⟨moves, hsettle⟩ := run_settle w
    obtain ⟨moves', hadvance⟩ := ih { w.settle with elapsed := w.settle.elapsed + 1 }
    exact ⟨_, hsettle.append hadvance⟩

/-- What a program does with a scheduler on the clock. -/
inductive Call where
  | start
  | stop
  | advance (seconds : Nat)

def call (w : Clocked σ) : Call → Clocked σ
  | .start => w.start.2
  | .stop => w.stop.2
  | .advance n => w.advance n

theorem run_call (w : Clocked σ) (c : Call) : ∃ moves, Run w.scheduler moves (w.call c).scheduler := by
  cases c with
  | start => exact ⟨_, .single (.start w.scheduler)⟩
  | stop => exact ⟨_, .single (.stop (woken_stop w.scheduler))⟩
  | advance n => exact run_advance n w

/-- Whatever a program does with a scheduler on the clock is a run. -/
theorem run_calls (calls : List Call) (w : Clocked σ) :
    ∃ moves, Run w.scheduler moves (calls.foldl call w).scheduler := by
  induction calls generalizing w with
  | nil => exact ⟨[], .nil _⟩
  | cons c rest ih =>
    obtain ⟨moves, hcall⟩ := run_call w c
    obtain ⟨moves', hrest⟩ := ih (w.call c)
    exact ⟨_, hcall.append hrest⟩

/-- So at every moment one loop is current if the scheduler runs, and none if it does not. -/
theorem length_current_of_calls {interval cooldown : Span} {w : Clocked σ}
    (hnew : create interval cooldown = .ok w.scheduler) (calls : List Call) :
    let s := (calls.foldl call w).scheduler
    (s.loops.filter fun l => s.lifecycle.isCurrent l.generation).length =
      if s.isRunning then 1 else 0 := by
  obtain ⟨moves, hrun⟩ := run_calls calls w
  exact ((orderly_create hnew).run hrun).length_current

end Clocked

end Vigil
