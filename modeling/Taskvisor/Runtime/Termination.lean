import Taskvisor.Lib.Count
import Taskvisor.Runtime.Transaction

namespace Taskvisor.Runtime.Termination

open Lib Startup Transaction
open Subscribers.Lane (SubscriberLane)

variable {wiring : Wiring} {c c' : Core} {w w' : World} {a : Attempt} {t t' : Thread}

/-- How many more steps the body of a thread makes, at most. -/
def stepsLeft (t : Thread) : Nat :=
  match t.phase with
  | .receiving => 2
  | .running => 1
  | .exited => 0

def subsLeft : SetState → Nat
  | .pending definitions => 5 * workerCount definitions + definitions.length + 11
  | _ => 6

/-- How many more statements the call inside of the gate runs, at most, each
thread it may still spawn counted with its steps. -/
def stageLeft (c : Core) : Stage → Nat
  | .recheck => subsLeft c.subs + 3
  | .current => subsLeft c.subs + 2
  | .subscribers => subsLeft c.subs + 1
  | .spawning definitions launchers =>
    5 * (workerCount definitions - launchers.length) + 2 * launchers.length + definitions.length + 11
  | .dropping launchers threads => 2 * launchers.length + threads.length + 2
  | .joining threads => threads.length + 1
  | .sharing definitions _ => definitions.length + 8
  | .launching definitions .. => definitions.length + 7
  | .relay => 6
  | .reaper => 5
  | .listener => 4
  | .controller => 3
  | .publish => 2
  | .store => 1

def left (w : World) : Nat :=
  (w.gate.map fun a => stageLeft w.core a.stage).getD 0 + (w.core.threads.map stepsLeft).sum

theorem left_goto (w : World) (a : Attempt) (c : Core) (stage : Stage) :
    left (w.goto a c stage) = stageLeft c stage + (c.threads.map stepsLeft).sum := rfl

theorem left_leave (w : World) (a : Attempt) (c : Core) (result : Returned) :
    left (w.leave a c result) = (c.threads.map stepsLeft).sum := Nat.zero_add _

theorem stageLeft_pos (c : Core) (stage : Stage) : 0 < stageLeft c stage := by
  cases stage <;> exact Nat.succ_pos _

/-- A send does not move its thread. -/
theorem send_steps {job : Job} (h : c.send i job = some c') :
    c'.subs = c.subs ∧ (c'.threads.map stepsLeft).sum = (c.threads.map stepsLeft).sum := by
  obtain ⟨t', ht, rfl⟩ := Option.map_eq_some_iff.mp h
  obtain ⟨t, hi, ht⟩ := Option.bind_eq_some_iff.mp ht
  unfold Thread.send at ht
  split at ht
  · cases ht
  · cases ht
    have hsum := sum_map_set stepsLeft c.threads { t with launch := .sent job } hi
    exact ⟨rfl, Nat.add_right_cancel hsum⟩

section Bound

variable {n : Nat}

theorem launch_left {launchers : List Nat} {job : Job} {next : Nat → List Nat → Stage}
    (hnext : ∀ i l (c : Core), stageLeft c (next i l) ≤ n) :
    left (w.launch a launchers job next) ≤ n + (w.core.threads.map stepsLeft).sum := by
  unfold World.launch
  split
  · rw [left_leave]
    exact Nat.le_add_left _ _
  · split
    · next hsend =>
      rw [left_goto, (send_steps hsend).2]
      exact Nat.add_le_add_right (hnext _ _ _) _
    · rw [left_leave]
      exact Nat.le_add_left _ _

theorem take_left {count : Nat} {launched : Launched} {next : Stage} (hnext : ∀ c : Core, stageLeft c next ≤ n) :
    left (w.take a count launched next) ≤ n + (w.core.threads.map stepsLeft).sum := by
  unfold World.take
  split
  · rw [left_goto]
    exact Nat.add_le_add_right (hnext _) _
  · rw [left_leave]
    exact Nat.le_add_left _ _

end Bound

theorem step_left {k m sum : Nat} (hw' : left w' ≤ k + sum) (hk : k < m) : left w' + 1 ≤ m + sum := by omega

theorem leave_left {m : Nat} (c : Core) (result : Returned) (hm : 0 < m) :
    left (w.leave a c result) + 1 ≤ m + (c.threads.map stepsLeft).sum := by
  rw [left_leave]
  omega

theorem goto_left {m : Nat} (c : Core) {stage : Stage} (hm : stageLeft c stage < m) :
    left (w.goto a c stage) + 1 ≤ m + (c.threads.map stepsLeft).sum := by
  rw [left_goto]
  omega

/-- Every statement lowers the number of steps left. -/
theorem advance_left {spawned : Bool} (ha : w.gate = some a) (hs : w.advance wiring a spawned = some w') :
    left w' + 1 ≤ left w := by
  have hleft : left w = stageLeft w.core a.stage + (w.core.threads.map stepsLeft).sum := by rw [left, ha]; rfl
  rw [hleft]
  cases hstage : a.stage with
  | recheck =>
      simp only [World.advance, hstage] at hs
      split at hs <;> cases hs
      · exact leave_left _ _ (stageLeft_pos _ _)
      · exact goto_left _ (Nat.lt_succ_self _)
  | current =>
      simp only [World.advance, hstage] at hs
      split at hs <;> cases hs
      · exact goto_left _ (Nat.lt_succ_self _)
      · exact leave_left _ _ (stageLeft_pos _ _)
  | subscribers =>
      simp only [World.advance, hstage] at hs
      rw [stageLeft]
      split at hs
      · next definitions hsubs =>
        split at hs
        · cases hs
          exact leave_left _ _ (Nat.succ_pos _)
        · rw [hsubs, subsLeft]
          split at hs <;> cases hs
          · exact goto_left { w.core with subs := .started [] false [] } (by rw [stageLeft]; omega)
          · exact goto_left _ (by rw [stageLeft, List.length_nil]; omega)
      · next hsubs =>
        cases hs
        have hsix : subsLeft w.core.subs = 6 := by
          cases hx : w.core.subs with
          | pending definitions => exact absurd hx (hsubs definitions)
          | _ => rfl
        exact goto_left _ (by rw [hsix]; exact Nat.lt_succ_self 6)
  | spawning definitions launchers =>
      simp only [World.advance, hstage] at hs
      split at hs
      · next hlt =>
        split at hs <;> cases hs
        · rw [left_goto]
          simp only [stageLeft, List.length_append, List.length_singleton, List.map_append, List.sum_append,
            List.map_cons, List.map_nil, List.sum_cons, List.sum_nil, stepsLeft, Thread.new]
          omega
        · exact goto_left _ (by simp only [stageLeft, List.length_nil]; omega)
      · cases hs
        exact goto_left { w.core with subs := .pending [] } (by simp only [stageLeft]; omega)
  | dropping launchers threads =>
      cases launchers with
      | nil =>
          simp only [World.advance, hstage] at hs
          cases hs
          exact goto_left _ (by simp only [stageLeft, List.length_nil]; omega)
      | cons i launchers =>
          simp only [World.advance, hstage] at hs
          obtain ⟨t, hi, rfl⟩ := Option.map_eq_some_iff.mp hs
          have hsum := sum_map_set stepsLeft w.core.threads { t with launch := .dropped } hi
          rw [left_goto]
          simp only [stageLeft, Core.putThread, List.length_cons, List.length_append, List.length_nil]
          have hsame : stepsLeft { t with launch := .dropped } = stepsLeft t := rfl
          omega
  | joining threads =>
      cases threads with
      | nil =>
          simp only [World.advance, hstage] at hs
          cases hs
          exact leave_left _ _ (stageLeft_pos _ _)
      | cons i threads =>
          simp only [World.advance, hstage] at hs
          split at hs <;> cases hs
          exact goto_left _ (by simp only [stageLeft, List.length_cons]; omega)
  | sharing definitions launchers =>
      simp only [World.advance, hstage] at hs
      split at hs <;> cases hs
      · exact step_left (launch_left fun _ _ _ => Nat.le_refl _) (Nat.lt_succ_self _)
      · exact goto_left _ (Nat.lt_succ_self _)
  | launching definitions launchers lanes shared handles =>
      cases definitions with
      | nil =>
          simp only [World.advance, hstage] at hs
          split at hs <;> cases hs
          · exact goto_left { w.core with subs := .started lanes shared handles } (Nat.lt_succ_self 6)
          · exact leave_left _ _ (stageLeft_pos _ _)
      | cons definition definitions =>
          simp only [World.advance, hstage] at hs
          split at hs <;> cases hs
          · exact step_left (launch_left fun _ _ _ => Nat.le_refl _) (Nat.lt_succ_self (definitions.length + 7))
          · exact goto_left _ (by simp only [stageLeft, List.length_cons]; omega)
  | relay =>
      simp only [World.advance, hstage] at hs
      split at hs <;> cases hs
      · exact goto_left _ (Nat.lt_succ_self 5)
      · exact step_left (take_left fun _ => Nat.le_refl 5) (Nat.lt_succ_self 5)
  | reaper =>
      simp only [World.advance, hstage] at hs
      cases hs
      exact step_left (take_left fun _ => Nat.le_refl 4) (Nat.lt_succ_self 4)
  | listener =>
      simp only [World.advance, hstage] at hs
      cases hs
      exact step_left (take_left fun _ => Nat.le_refl 3) (Nat.lt_succ_self 3)
  | controller =>
      simp only [World.advance, hstage] at hs
      split at hs <;> cases hs
      · exact step_left (take_left fun _ => Nat.le_refl 2) (Nat.lt_succ_self 2)
      · exact goto_left _ (Nat.lt_succ_self 2)
  | publish =>
      simp only [World.advance, hstage] at hs
      split at hs <;> cases hs
      · exact goto_left { w.core with startupRuntime := a.runtime } (Nat.lt_succ_self 1)
      · exact leave_left _ _ (stageLeft_pos _ _)
  | store =>
      simp only [World.advance, hstage] at hs
      cases hs
      exact leave_left { w.core with started := true } _ Nat.one_pos

theorem Thread.step_left (h : t.step = some t') : stepsLeft t' + 1 ≤ stepsLeft t := by
  obtain ⟨launch, phase⟩ := t
  cases phase <;> cases launch <;> cases h <;> simp [stepsLeft]

theorem subsLeft_closed (s : SetState) : subsLeft .closed ≤ subsLeft s := by
  cases s with
  | pending definitions => simp only [subsLeft]; omega
  | _ => exact Nat.le_refl _

/-- The statements of the call inside of the gate, and the threads it waits
for. -/
def drives : Action → Bool
  | .advance _ => true
  | .thread _ => true
  | _ => false

theorem step_left_of_held {action : Action} (hs : w.step wiring action = some w') (ha : w.gate = some a) :
    left w' + (if drives action then 1 else 0) ≤ left w := by
  cases action with
  | call runtime => cases hs; exact Nat.le_refl _
  | load key =>
      simp only [World.step] at hs
      split at hs
      · split at hs <;> cases hs <;> exact Nat.le_refl _
      · cases hs
  | lock key =>
      simp only [World.step] at hs
      split at hs
      · next hg => rw [ha] at hg; cases hg
      · cases hs
  | advance spawned =>
      obtain ⟨b, hb, hs⟩ := Option.bind_eq_some_iff.mp hs
      exact advance_left hb hs
  | thread i =>
      obtain ⟨t', ht, rfl⟩ := Option.map_eq_some_iff.mp hs
      obtain ⟨t, hi, ht⟩ := Option.bind_eq_some_iff.mp ht
      have hone := Thread.step_left ht
      have hsum := sum_map_set stepsLeft w.core.threads t' hi
      have hstage : stageLeft (w.core.putThread i t') a.stage = stageLeft w.core a.stage := by cases a.stage <;> rfl
      have hold : left w = stageLeft w.core a.stage + (w.core.threads.map stepsLeft).sum := by rw [left, ha]; rfl
      have hnew : left { w with core := w.core.putThread i t' } =
          stageLeft w.core a.stage + ((w.core.threads.set i t').map stepsLeft).sum := by rw [left, ← hstage, ha]; rfl
      rw [hold, hnew, drives, if_pos rfl]
      omega
  | close =>
      simp only [World.step] at hs
      split at hs <;> cases hs
      have hsubs := subsLeft_closed w.core.subs
      simp only [left, ha, Option.map_some, Option.getD_some, drives, Bool.false_eq_true, if_false]
      cases a.stage <;> simp only [stageLeft] <;> omega
  | dropController =>
      cases hs
      have hstage : stageLeft { w.core with controllerAlive := false } a.stage = stageLeft w.core a.stage := by
        cases a.stage <;> rfl
      simp only [left, ha, Option.map_some, Option.getD_some, drives, hstage]
      exact Nat.le_refl _

/-- Only a join can have to wait. -/
theorem advance_enabled (w : World) (hjoin : ∀ i threads, a.stage ≠ .joining (i :: threads))
    (hdrop : ∀ i launchers threads, a.stage = .dropping (i :: launchers) threads → (w.core.threads[i]?).isSome = true) :
    (w.advance wiring a true).isSome = true := by
  unfold World.advance
  split
  case h_5 i launchers threads hstage => rw [Option.isSome_map, hdrop i launchers threads hstage]
  case h_7 i threads hstage => exact absurd hstage (hjoin i threads)
  all_goals (repeat' split) <;> rfl

/-- The gate is never held for nothing: its call can go on, or a thread it
joins can. -/
theorem progress (h : (machine wiring).Reachable w) (ha : w.gate = some a) :
    ∃ action, drives action = true ∧ (w.step wiring action).isSome = true := by
  have hp := (sound_of_reachable h).held a ha
  have advances : (∀ i threads, a.stage ≠ .joining (i :: threads)) →
      (∀ i launchers threads, a.stage = .dropping (i :: launchers) threads → (w.core.threads[i]?).isSome = true) →
      ∃ action, drives action = true ∧ (w.step wiring action).isSome = true := fun hjoin hdrop =>
    ⟨.advance true, rfl, by simpa only [World.step, ha, Option.bind_some] using advance_enabled w hjoin hdrop⟩
  cases hstage : a.stage with
  | dropping launchers threads =>
      rw [hstage] at hp
      refine advances (fun i ts hx => ?_) fun i ls ts hx => ?_
      · rw [hstage] at hx
        cases hx
      · rw [hstage] at hx
        cases hx
        cases hp with
        | dropping _ _ _ crew =>
            rw [crew.waits i List.mem_cons_self]
            rfl
        | tail _ _ hn => cases hn
  | joining threads =>
      rw [hstage] at hp
      cases threads with
      | nil =>
          refine advances (fun i ts hx => ?_) fun i ls ts hx => ?_
          · rw [hstage] at hx; cases hx
          · rw [hstage] at hx; cases hx
      | cons i threads =>
          cases hp with
          | joining _ _ crew =>
              obtain ⟨⟨launch, phase⟩, hi, hlaunch⟩ := crew.loses i List.mem_cons_self
              cases hlaunch
              cases phase with
              | exited =>
                  exact ⟨.advance true, rfl, by simp [World.step, ha, World.advance, hstage, hi]⟩
              | _ => exact ⟨.thread i, rfl, by simp [World.step, hi, Thread.step]⟩
          | tail _ _ hn => cases hn
  | _ =>
      refine advances (fun i ts hx => ?_) fun i ls ts hx => ?_
      · rw [hstage] at hx; cases hx
      · rw [hstage] at hx; cases hx

/-- Startup comes to an end: while one call holds the gate, it and the threads
make no more steps than were left at the start of the window, and at every
moment one of them can go on. -/
theorem startup_ends (h : (machine wiring).Reachable w) {run : List Action}
    (hrun : (machine wiring).after w run = some w') {key : Nat}
    (hheld : ∀ u ∈ (machine wiring).visited w run, u.gate.map Attempt.key = some key) :
    left w' + (machine wiring).charged (fun _ action => drives action) w run ≤ left w ∧
    ∀ u ∈ (machine wiring).visited w run, ∃ action, drives action = true ∧ (u.step wiring action).isSome = true := by
  refine ⟨h.charged_le (A := fun u => u.gate.map Attempt.key = some key) _ left ?_ hrun hheld, fun u hu => ?_⟩
  · intro u action v _ hu _ hs
    obtain ⟨a, ha, -⟩ := Option.map_eq_some_iff.mp hu
    exact step_left_of_held hs ha
  · obtain ⟨a, ha, -⟩ := Option.map_eq_some_iff.mp (hheld u hu)
    exact progress (h.visited hu) ha

/-- The failed attempt of `retryRun` up to its last statement. -/
def rollbackRun : List Action :=
  List.replicate 4 (.advance true) ++ [.advance false, .advance true, .advance true, .thread 0, .advance true]

theorem startup_ends_rollback :
    ∃ w w', (machine threeLanes).after (.new threeLanes) [.call (some 7), .load 0, .lock 0] = some w ∧
      (machine threeLanes).after w rollbackRun = some w' ∧
      (machine threeLanes).charged (fun _ action => drives action) w rollbackRun = 9 ∧
      left w' + (machine threeLanes).charged (fun _ action => drives action) w rollbackRun ≤ left w := by
  obtain ⟨w, hw, hp⟩ := (Option.any_eq_true (fun w : World => decide
      ((∀ u ∈ (machine threeLanes).visited w rollbackRun, u.gate.map Attempt.key = some 0) ∧
        (machine threeLanes).charged (fun _ action => drives action) w rollbackRun = 9) &&
      ((machine threeLanes).after w rollbackRun).isSome) _).mp
    (show (Machine.after (machine threeLanes) (.new threeLanes) [.call (some 7), .load 0, .lock 0]).any _ = true by
      decide +kernel)
  rw [Bool.and_eq_true, decide_eq_true_eq] at hp
  obtain ⟨⟨hheld, hnine⟩, hsome⟩ := hp
  obtain ⟨w', hw'⟩ := Option.isSome_iff_exists.mp hsome
  exact ⟨w, w', hw, hw', hnine, (startup_ends (Machine.Reachable.after (M := machine _) .init hw) hw' hheld).1⟩

end Taskvisor.Runtime.Termination
