import Taskvisor.Controller.Index
import Taskvisor.Lib.Usize
import Taskvisor.Registry.Bursts
import Taskvisor.Registry.Reach

namespace Taskvisor.Controller.Bursts

open Lib Runtime.Base State Admission Driver Index

def internalResultBurstLimit : Nat := 64

/-- Where `run_inner` stands between two handlers. -/
inductive Position
  | head
  | selecting
  | ended
deriving DecidableEq

/-- What a handler that panicked leaves; its boundary does not roll back. -/
structure Panic where
  message : String
  left : Engine

/-- A tracked future whose own boundary caught a panic. -/
inductive Waiter
  | admission (id : TaskId) (slotName : String)
  | completion (id : TaskId) (slotName : String)
  | removal (id : TaskId) (slotName : String)
  | identity (op : TaskId × IdentityOperation × IdentityReply)

/-- The loop of the controller task. `disconnected` says that every sender is
gone, `taken` records the commands the loop received. -/
structure Loop where
  world : Driver.World
  internalResultBurst : Nat
  position : Position
  cancelled : Bool
  disconnected : Bool
  taken : List ControllerCommand

namespace Waiter

def tracked (e : Engine) : Waiter → Bool
  | .admission id slotName => e.operations.admissions.contains (id, slotName)
  | .completion id slotName => e.operations.completions.contains (id, slotName)
  | .removal id slotName => e.operations.removals.contains (id, slotName)
  | .identity op => e.operations.identityOperations.contains op

/-- The future is gone; the reply of an identity operation falls back. -/
def drop (e : Engine) : Waiter → Engine
  | .admission id slotName => World.dropAdmission e id slotName
  | .completion id slotName => World.dropCompletion e id slotName
  | .removal id slotName => World.dropRemoval e id slotName
  | .identity op => (World.dropIdentity e op).reply op.2.2 (.error .shuttingDown)

def failure : Waiter → String
  | .admission _ _ => "admission_waiter_failed"
  | .completion _ _ => "completion_waiter_failed"
  | .removal _ _ => "removal_waiter_failed"
  | .identity _ => "identity_operation_failed"

end Waiter

def runtimeFailure (e : Engine) (reason : String) : Engine :=
  e.publish ⟨.runtimeFailure, some "controller", none, none, some reason⟩

/-- `guarded`: a panic becomes an event, and the loop goes on. -/
def guarded (who : String) (panic : Option Panic) (e : Engine) : Engine :=
  match panic with
  | none => e
  | some panic => runtimeFailure panic.left (who ++ "_panicked: " ++ panic.message)

def commandHandler : ControllerCommand → String
  | .submit _ => "handle_submission"
  | .manageIdentity _ _ _ => "handle_identity_operation"

/-- The results `select!` takes from the tracked operations, each with the
handler that runs on it; an identity operation has replied by itself. -/
def resultHandler : Driver.Action → Option (Option String)
  | .capacityResult _ _ => some (some "handle_registry_capacity_result")
  | .admissionResult _ _ _ _ => some (some "handle_admission_result")
  | .completionResult _ _ _ => some (some "handle_completion_result")
  | .removalResult _ _ _ => some (some "handle_removal_result")
  | .identityResult _ _ => some none
  | _ => none

namespace Loop

def new (cfg : ControllerConfig) : Loop := ⟨.new cfg, 0, .head, false, false, []⟩

/-- `handle_controller_command` on the oldest buffered command. -/
def handleCommand (cfg : ControllerConfig) (l : Loop) (obs : Observed) (cut : Option AwaitPoint) (panic : Option Panic) :
    Option Loop :=
  match l.world.commands with
  | [] => none
  | command :: _ =>
    (l.world.step cfg (.command obs cut)).map fun world =>
      { l with
        world := { world with engine := guarded (commandHandler command) panic world.engine }
        internalResultBurst := 0
        position := .head
        taken := l.taken ++ [command] }

/-- `break`: the tracked operations are dropped behind the loop. -/
def leave (cfg : ControllerConfig) (l : Loop) : Option Loop :=
  (l.world.step cfg .stop).map fun world => { l with world, position := .ended }

/-- The top of the loop: the token, then the turn owed to commands after a
burst of internal results. -/
def turn (cfg : ControllerConfig) (l : Loop) (obs : Observed) (cut : Option AwaitPoint) (panic : Option Panic) :
    Option Loop :=
  if l.cancelled then l.leave cfg
  else if internalResultBurstLimit ≤ l.internalResultBurst then
    if l.world.commands.isEmpty then
      if l.disconnected then l.leave cfg else some { l with internalResultBurst := 0, position := .selecting }
    else l.handleCommand cfg obs cut panic
  else some { l with position := .selecting }

/-- A turn that took an internal result. -/
def resulted (l : Loop) (world : Driver.World) : Loop :=
  { l with world, internalResultBurst := saturatingAdd l.internalResultBurst 1, position := .head }

inductive Action
  | send (command : ControllerCommand)
  | cancel
  | disconnect
  | turn (obs : Observed) (cut : Option AwaitPoint) (panic : Option Panic)
  | cancelled
  | result (action : Driver.Action) (panic : Option Panic)
  | failed (waiter : Waiter) (message : String)
  | command (obs : Observed) (cut : Option AwaitPoint) (panic : Option Panic)
  | teardown (action : Driver.Action)

/-- The labels after `turn` are the branches of `select!`, then what follows
the loop. -/
def step (cfg : ControllerConfig) (l : Loop) : Action → Option Loop
  | .send command =>
    if l.disconnected then none else (l.world.step cfg (.send command)).map fun world => { l with world }
  | .cancel => some { l with cancelled := true }
  | .disconnect => some { l with disconnected := true }
  | .turn obs cut panic => if l.position = .head then l.turn cfg obs cut panic else none
  | .cancelled => if l.position = .selecting ∧ l.cancelled then l.leave cfg else none
  | .result action panic =>
    match resultHandler action with
    | none => none
    | some who =>
      if l.position = .selecting then
        (l.world.step cfg action).map fun world =>
          l.resulted { world with engine := (who.map fun who => guarded who panic world.engine).getD world.engine }
      else none
  | .failed waiter message =>
    if l.position = .selecting ∧ waiter.tracked l.world.engine then
      some (l.resulted { l.world with
        engine := runtimeFailure (waiter.drop l.world.engine) (waiter.failure ++ ": " ++ message) })
    else none
  | .command obs cut panic => if l.position = .selecting then l.handleCommand cfg obs cut panic else none
  | .teardown action => if l.position = .ended then (l.world.step cfg action).map fun world => { l with world } else none

end Loop

def machine (cfg : ControllerConfig) : Machine Loop Loop.Action := ⟨.new cfg, Loop.step cfg⟩

variable {cfg : ControllerConfig} {l l' : Loop} {a : Loop.Action}

/-- The step takes one internal result. -/
def processes (_ : Loop) : Loop.Action → Bool
  | .result _ _ | .failed _ _ => true
  | _ => false

/-- Turns without a command although one waits: none has been taken since
`taken`. -/
structure Stretch (taken : List ControllerCommand) (l : Loop) : Prop where
  commands : l.world.commands ≠ []
  running : l.cancelled = false
  taken : l.taken = taken

instance {taken : List ControllerCommand} : Decidable (Stretch taken l) :=
  decidable_of_iff (l.world.commands ≠ [] ∧ l.cancelled = false ∧ l.taken = taken)
    ⟨fun ⟨h₁, h₂, h₃⟩ => ⟨h₁, h₂, h₃⟩, fun h => ⟨h.commands, h.running, h.taken⟩⟩

theorem handleCommand_burst {obs : Observed} {cut : Option AwaitPoint} {panic : Option Panic}
    (h : l.handleCommand cfg obs cut panic = some l') :
    l'.internalResultBurst = 0 ∧ l'.taken ≠ l.taken := by
  unfold Loop.handleCommand at h
  split at h
  · cases h
  · obtain ⟨world, -, rfl⟩ := Option.map_eq_some_iff.mp h
    exact ⟨rfl, by simp⟩

theorem leave_burst (h : l.leave cfg = some l') : l'.internalResultBurst = l.internalResultBurst ∧ l'.position = .ended := by
  obtain ⟨world, -, rfl⟩ := Option.map_eq_some_iff.mp h
  exact ⟨rfl, rfl⟩

/-- The counter stays within its limit, and `select!` runs below it. -/
structure Paced (l : Loop) : Prop where
  burst : l.internalResultBurst ≤ internalResultBurstLimit
  selecting : l.position = .selecting → l.internalResultBurst < internalResultBurstLimit

theorem Paced.reset (hburst : l.internalResultBurst = 0) : Paced l :=
  ⟨by rw [hburst]; exact Nat.zero_le _, fun _ => by rw [hburst]; decide⟩

theorem Paced.leave (h : Paced l) (hs : l.leave cfg = some l') : Paced l' := by
  obtain ⟨hburst, hpos⟩ := leave_burst hs
  exact ⟨by rw [hburst]; exact h.burst, fun he => by rw [hpos] at he; cases he⟩

theorem resulted_burst (h : Paced l) (hpos : l.position = .selecting) (world : Driver.World) :
    (l.resulted world).internalResultBurst = l.internalResultBurst + 1 := by
  have hle : l.internalResultBurst + 1 ≤ internalResultBurstLimit := h.selecting hpos
  exact saturatingAdd_of_le (Nat.le_trans hle (by decide))

theorem Paced.resulted (h : Paced l) (hpos : l.position = .selecting) (world : Driver.World) : Paced (l.resulted world) :=
  ⟨by rw [resulted_burst h hpos]; exact h.selecting hpos, fun he => nomatch he⟩

theorem Paced.turn {obs : Observed} {cut : Option AwaitPoint} {panic : Option Panic} (h : Paced l)
    (hs : l.turn cfg obs cut panic = some l') : Paced l' := by
  unfold Loop.turn at hs
  split at hs
  · exact h.leave hs
  · split at hs
    · split at hs
      · split at hs
        · exact h.leave hs
        · cases hs; exact .reset rfl
      · exact .reset (handleCommand_burst hs).1
    · next hlow => cases hs; exact ⟨h.burst, fun _ => Nat.lt_of_not_le hlow⟩

theorem Paced.step (h : Paced l) (hs : l.step cfg a = some l') : Paced l' := by
  cases a with
  | send command =>
      simp only [Loop.step] at hs
      split at hs
      · cases hs
      · obtain ⟨world, -, rfl⟩ := Option.map_eq_some_iff.mp hs
        exact ⟨h.burst, h.selecting⟩
  | cancel | disconnect => cases hs; exact ⟨h.burst, h.selecting⟩
  | turn obs cut panic =>
      simp only [Loop.step] at hs
      split at hs
      · exact h.turn hs
      · cases hs
  | cancelled =>
      simp only [Loop.step] at hs
      split at hs
      · exact h.leave hs
      · cases hs
  | result action panic =>
      simp only [Loop.step] at hs
      split at hs
      · cases hs
      · split at hs
        · next hpos =>
          obtain ⟨world, -, rfl⟩ := Option.map_eq_some_iff.mp hs
          exact h.resulted hpos _
        · cases hs
  | failed waiter message =>
      simp only [Loop.step] at hs
      split at hs
      · next hc => cases hs; exact h.resulted hc.1 _
      · cases hs
  | command obs cut panic =>
      simp only [Loop.step] at hs
      split at hs
      · exact .reset (handleCommand_burst hs).1
      · cases hs
  | teardown action =>
      simp only [Loop.step] at hs
      split at hs
      · obtain ⟨world, -, rfl⟩ := Option.map_eq_some_iff.mp hs
        exact ⟨h.burst, h.selecting⟩
      · cases hs

theorem paced_of_reachable (h : (machine cfg).Reachable l) : Paced l :=
  h.invariant (.reset rfl) fun _ _ _ _ hp hs => hp.step hs

section Stretches

variable {taken : List ControllerCommand} (h : Stretch taken l) (h' : Stretch taken l')

include h h'

theorem Stretch.no_command {obs : Observed} {cut : Option AwaitPoint} {panic : Option Panic}
    (hs : l.handleCommand cfg obs cut panic = some l') : False :=
  (handleCommand_burst hs).2 (h'.taken.trans h.taken.symm)

/-- At its limit the loop head takes the command that waits, so the counter
never starts again inside a stretch. -/
theorem Stretch.turn {obs : Observed} {cut : Option AwaitPoint} {panic : Option Panic}
    (hs : l.turn cfg obs cut panic = some l') : l'.internalResultBurst = l.internalResultBurst := by
  unfold Loop.turn at hs
  rw [h.running] at hs
  simp only [Bool.false_eq_true, if_false] at hs
  split at hs
  · split at hs
    · next hempty => exact absurd (List.isEmpty_iff.mp hempty) h.commands
    · exact (h.no_command h' hs).elim
  · cases hs; rfl

theorem Stretch.step (hp : Paced l) (hs : l.step cfg a = some l') :
    l'.internalResultBurst = l.internalResultBurst + if processes l a then 1 else 0 := by
  cases a with
  | send command =>
      simp only [Loop.step] at hs
      split at hs
      · cases hs
      · obtain ⟨world, -, rfl⟩ := Option.map_eq_some_iff.mp hs
        rfl
  | cancel | disconnect => cases hs; rfl
  | turn obs cut panic =>
      simp only [Loop.step] at hs
      split at hs
      · exact h.turn h' hs
      · cases hs
  | cancelled =>
      simp only [Loop.step] at hs
      split at hs
      · next hc => rw [h.running] at hc; exact absurd hc.2 Bool.false_ne_true
      · cases hs
  | result action panic =>
      simp only [Loop.step] at hs
      split at hs
      · cases hs
      · split at hs
        · next hpos =>
          obtain ⟨world, -, rfl⟩ := Option.map_eq_some_iff.mp hs
          exact resulted_burst hp hpos _
        · cases hs
  | failed waiter message =>
      simp only [Loop.step] at hs
      split at hs
      · next hc => cases hs; exact resulted_burst hp hc.1 _
      · cases hs
  | command obs cut panic =>
      simp only [Loop.step] at hs
      split at hs
      · exact (h.no_command h' hs).elim
      · cases hs
  | teardown action =>
      simp only [Loop.step] at hs
      split at hs
      · obtain ⟨world, -, rfl⟩ := Option.map_eq_some_iff.mp hs
        rfl
      · cases hs

end Stretches

/-- The results of a stretch and those before it stay within one burst. -/
theorem stretch_charged {v : List Loop.Action} (h : (machine cfg).Reachable l) (hrun : (machine cfg).after l v = some l')
    (hstretch : ∀ u ∈ (machine cfg).visited l v, Stretch l.taken u) :
    (machine cfg).charged processes l v ≤ internalResultBurstLimit := by
  have hbudget := h.charged_le processes (fun u => internalResultBurstLimit - u.internalResultBurst)
    (fun u a u' hu hst hst' hs => by
      have hburst := hst.step hst' (paced_of_reachable hu) hs
      have hpaced := (paced_of_reachable (.next a hu hs)).burst
      omega) hrun hstretch
  omega

/-- Nothing panics in the step. -/
def calm (_ : Loop) : Loop.Action → Bool
  | .turn _ _ panic | .result _ panic | .command _ _ panic => panic.isNone
  | .failed _ _ => false
  | _ => true

theorem handleCommand_world {obs : Observed} {cut : Option AwaitPoint} (h : l.handleCommand cfg obs cut none = some l') :
    l.world.step cfg (.command obs cut) = some l'.world := by
  unfold Loop.handleCommand at h
  split at h
  · cases h
  · obtain ⟨world, hw, rfl⟩ := Option.map_eq_some_iff.mp h
    exact hw

theorem leave_world (h : l.leave cfg = some l') : l.world.step cfg .stop = some l'.world := by
  obtain ⟨world, hw, rfl⟩ := Option.map_eq_some_iff.mp h
  exact hw

/-- A turn of the loop is a step of the controller task, or none at all. -/
theorem calm_world (hs : l.step cfg a = some l') (hcalm : calm l a = true) :
    l'.world = l.world ∨ ∃ b, l.world.step cfg b = some l'.world := by
  cases a with
  | send command =>
      simp only [Loop.step] at hs
      split at hs
      · cases hs
      · obtain ⟨world, hw, rfl⟩ := Option.map_eq_some_iff.mp hs
        exact .inr ⟨_, hw⟩
  | cancel | disconnect => cases hs; exact .inl rfl
  | turn obs cut panic =>
      obtain rfl := Option.isNone_iff_eq_none.mp hcalm
      simp only [Loop.step, Loop.turn] at hs
      split at hs
      · split at hs
        · exact .inr ⟨_, leave_world hs⟩
        · split at hs
          · split at hs
            · split at hs
              · exact .inr ⟨_, leave_world hs⟩
              · cases hs; exact .inl rfl
            · exact .inr ⟨_, handleCommand_world hs⟩
          · cases hs; exact .inl rfl
      · cases hs
  | cancelled =>
      simp only [Loop.step] at hs
      split at hs
      · exact .inr ⟨_, leave_world hs⟩
      · cases hs
  | result action panic =>
      obtain rfl := Option.isNone_iff_eq_none.mp hcalm
      simp only [Loop.step] at hs
      split at hs
      · cases hs
      · next who _ =>
        split at hs
        · obtain ⟨world, hw, rfl⟩ := Option.map_eq_some_iff.mp hs
          refine .inr ⟨action, ?_⟩
          cases who <;> exact hw
        · cases hs
  | failed => cases hcalm
  | command obs cut panic =>
      obtain rfl := Option.isNone_iff_eq_none.mp hcalm
      simp only [Loop.step] at hs
      split at hs
      · exact .inr ⟨_, handleCommand_world hs⟩
      · cases hs
  | teardown action =>
      simp only [Loop.step] at hs
      split at hs
      · obtain ⟨world, hw, rfl⟩ := Option.map_eq_some_iff.mp hs
        exact .inr ⟨_, hw⟩
      · cases hs

/-- The loop refines the controller task: without a panic it goes through
states of the task only. -/
theorem driver_of_reachable (h : ((machine cfg).guarded calm).Reachable l) : (Driver.machine cfg).Reachable l.world := by
  refine h.invariant (P := fun l => (Driver.machine cfg).Reachable l.world) .init fun l a l' _ hl hstep => ?_
  obtain ⟨hcalm, hs⟩ := Machine.guarded_step hstep
  rcases calm_world hs hcalm with hw | ⟨b, hb⟩
  · rw [hw]; exact hl
  · exact .next b hl hb

theorem bounded_bursts :
    (∀ (cfg : ControllerConfig) (l l' : Loop) (v : List Loop.Action), (machine cfg).Reachable l →
      (machine cfg).after l v = some l' → (∀ u ∈ (machine cfg).visited l v, Stretch l.taken u) →
      (machine cfg).charged processes l v ≤ 64) ∧
    ∀ (cfg : Registry.Listener.RegistryConfig) (w w' : Registry.Listener.World) (v : List Registry.Listener.World.Action),
      (Registry.Listener.machine cfg).Reachable w → (Registry.Listener.machine cfg).after w v = some w' →
      (∀ u ∈ (Registry.Listener.machine cfg).visited w v, Registry.Bursts.Stretch w.taken u) →
      (Registry.Listener.machine cfg).charged Registry.Bursts.takesCompletion w v ≤ 64 :=
  ⟨fun _ _ _ _ h hrun hstretch => stretch_charged h hrun hstretch,
    fun _ _ _ _ h hrun hstretch => Registry.Bursts.stretch_charged h hrun hstretch⟩

/-- One submission is handed to the registry, the next one waits. -/
def submittedRun : List Loop.Action :=
  [.send (.submit ⟨1, "a", .queue, none, none⟩), .turn busyRegistry none none, .command busyRegistry none none,
    .send (.submit ⟨2, "b", .queue, some "a", none⟩)]

def resultsRun : List Loop.Action :=
  [.turn busyRegistry none none, .result (.admissionResult busyRegistry 1 "a" true) none, .turn busyRegistry none none,
    .result (.completionResult busyRegistry 1 "a") none]

/-- A command waits beside two completion identities of tasks that have left. -/
def staleRun : List Registry.Listener.World.Action :=
  [.stray 7, .stray 8, .begin (.remove (.id 1) true)] ++
    List.replicate (Registry.Listener.Call.remove (.id 1) true).script.length (.call 0)

def completionsRun : List Registry.Listener.World.Action :=
  [.listen .completion, .listen .completion, .work, .listen .completion, .listen .completion, .work]

theorem bounded_bursts_two :
    (∃ l, (machine tinyConfig).after (.new tinyConfig) submittedRun = some l ∧
      (machine tinyConfig).charged processes l resultsRun = 2 ∧
      (machine tinyConfig).charged processes l resultsRun ≤ 64) ∧
    ∃ w, (Registry.Listener.machine Registry.Reach.smallConfig).after .new staleRun = some w ∧
      (Registry.Listener.machine Registry.Reach.smallConfig).charged Registry.Bursts.takesCompletion w completionsRun = 2 ∧
      (Registry.Listener.machine Registry.Reach.smallConfig).charged Registry.Bursts.takesCompletion w completionsRun ≤ 64 := by
  constructor
  · obtain ⟨l, hl, hp⟩ := (Option.any_eq_true (fun l : Loop =>
        ((machine tinyConfig).visited l resultsRun).all (fun u => decide (Stretch l.taken u)) &&
        decide (((machine tinyConfig).after l resultsRun).isSome = true ∧
          (machine tinyConfig).charged processes l resultsRun = 2)) _).mp
      (show ((machine tinyConfig).after (.new tinyConfig) submittedRun).any _ = true by decide +kernel)
    obtain ⟨hstretch, hp⟩ := Bool.and_eq_true_iff.mp hp
    obtain ⟨hsome, hcount⟩ := of_decide_eq_true hp
    obtain ⟨l', hrun⟩ := Option.isSome_iff_exists.mp hsome
    exact ⟨l, hl, hcount, bounded_bursts.1 tinyConfig l l' resultsRun (Machine.Reachable.init.after hl) hrun
      fun u hu => of_decide_eq_true (List.all_eq_true.mp hstretch u hu)⟩
  · obtain ⟨w, hw, hp⟩ := (Option.any_eq_true (fun w : Registry.Listener.World =>
        ((Registry.Listener.machine Registry.Reach.smallConfig).visited w completionsRun).all
          (fun u => decide (Registry.Bursts.Stretch w.taken u)) &&
        decide (((Registry.Listener.machine Registry.Reach.smallConfig).after w completionsRun).isSome = true ∧
          (Registry.Listener.machine Registry.Reach.smallConfig).charged Registry.Bursts.takesCompletion w
            completionsRun = 2)) _).mp
      (show ((Registry.Listener.machine Registry.Reach.smallConfig).after .new staleRun).any _ = true by decide +kernel)
    obtain ⟨hstretch, hp⟩ := Bool.and_eq_true_iff.mp hp
    obtain ⟨hsome, hcount⟩ := of_decide_eq_true hp
    obtain ⟨w', hrun⟩ := Option.isSome_iff_exists.mp hsome
    exact ⟨w, hw, hcount, bounded_bursts.2 Registry.Reach.smallConfig w w' completionsRun (Machine.Reachable.init.after hw) hrun
      fun u hu => of_decide_eq_true (List.all_eq_true.mp hstretch u hu)⟩

end Taskvisor.Controller.Bursts
