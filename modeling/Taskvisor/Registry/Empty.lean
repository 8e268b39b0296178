import Taskvisor.Registry.Reach

namespace Taskvisor.Registry.Empty

open Lib Runtime.Base Reaper State Lifecycle Listener Reach

variable {cfg : RegistryConfig} {w : World} {c : Core} {id : TaskId} {s : PreparedRegistration}

/-- A call of `wait_until_empty`: it enables its notification, then reads the
membership, then waits. `notices` is what it had seen of `notify_waiters`. -/
inductive Waiter
  | enabling
  | checking (notices : Nat)
  | parked (notices : Nat)
  | returned
deriving DecidableEq

structure Watched where
  world : World
  waiter : Waiter

inductive Action
  | world (a : World.Action)
  | wait

/-- The read of the membership takes the state lock. -/
def waitStep (v : Watched) : Option Watched :=
  match v.waiter with
  | .enabling => some { v with waiter := .checking v.world.core.emptyNotices }
  | .checking notices =>
    if v.world.lockHeld then none
    else if v.world.core.tasks.keys.isEmpty then some { v with waiter := .returned }
    else some { v with waiter := .parked notices }
  | .parked notices => if notices < v.world.core.emptyNotices then some { v with waiter := .enabling } else none
  | .returned => none

def watched (cfg : RegistryConfig) : Machine Watched Action where
  init := ⟨World.new, .enabling⟩
  step := fun v a =>
    match a with
    | .world a => (v.world.step cfg a).map fun world => { v with world }
    | .wait => waitStep v

theorem waitStep_world {v v' : Watched} (hs : waitStep v = some v') : v'.world = v.world := by
  unfold waitStep at hs
  split at hs
  · cases hs; rfl
  · split at hs
    · cases hs
    · split at hs <;> cases hs <;> rfl
  · split at hs <;> cases hs
    rfl
  · cases hs

theorem world_of_watched {v : Watched} (h : (watched cfg).Reachable v) : (machine cfg).Reachable v.world := by
  induction h with
  | init => exact .init
  | next a _ hs ih =>
      cases a with
      | world a =>
          obtain ⟨world, hw, rfl⟩ := Option.map_eq_some_iff.mp hs
          exact .next a ih hw
      | wait =>
          rw [waitStep_world hs]
          exact ih

/-- The terminal tail of every removal whose membership is gone has run: its
outcome is reported, its pending join released, its logical latch complete. -/
def TailsDone (c : Core) : Prop :=
  ∀ id s, c.born.lookup id = some s → c.tasks.lookup id = none →
    outcomesOf c.outcomes id = 1 ∧ c.pending.counts.lookup id = none ∧ s.completion ∈ c.logical

theorem tailsDone_of_unowned (hs : Sound c) (h : ∀ key, c.owners.lookup key = none) : TailsDone c := by
  intro id s hb ht
  have hid := hs.seed id s hb
  subst hid
  obtain ⟨-, phase, hm, -⟩ := hs.life _ _ hb
  cases hm with
  | registered entry =>
      have hx : c.tasks.lookup s.id = _ := entry
      rw [ht] at hx
      cases hx
  | owned key o claimant owners =>
      have hx := (ownersOf_eq_some.mp owners.at).1
      rw [h key] at hx
      cases hx
  | gone claimant entry count owners outcomes claims actor latch => exact ⟨outcomes, count, latch⟩

theorem unowned_of_tailsDone (hs : Sound c) (hempty : ∀ id, c.tasks.lookup id = none) (h : TailsDone c) (key : Nat) :
    c.owners.lookup key = none := by
  cases ho : c.owners.lookup key with
  | none => rfl
  | some o =>
      obtain ⟨s, -, hh⟩ := hs.holding ho
      exact absurd (h s.id s hh.born (hempty s.id)).2.2 hh.latch

/-- The waiter returns from a read that found no member. -/
theorem empty_of_return {v v' : Watched} (hs : waitStep v = some v') (hret : v'.waiter = .returned) :
    ∀ id, v.world.core.tasks.lookup id = none := by
  unfold waitStep at hs
  split at hs
  · cases hs; cases hret
  · split at hs
    · cases hs
    · split at hs
      · next hempty =>
        intro id
        cases ht : v.world.core.tasks.lookup id with
        | none => rfl
        | some e =>
            have hm := Table.mem_keys_iff.mpr ⟨e, ht⟩
            rw [List.isEmpty_iff.mp hempty] at hm
            cases hm
      · cases hs; cases hret
  · split at hs <;> cases hs
    cases hret
  · cases hs

/-- The actor completes and its removal is joined inline. -/
def completionRun : List World.Action :=
  [.actor 1 (.produce (.ok .completed)), .actor 1 .signal, .listen .completion, .listen .completion, .work, .work,
    .actor 1 .exit]

/-- The terminal commit of that removal has just left the state lock. -/
def commitRun : List Action :=
  (addRun ++ completionRun ++ List.replicate 2 (World.Action.owner 0 .advance)).map Action.world

end Taskvisor.Registry.Empty
