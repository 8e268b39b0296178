import Taskvisor.Lib.Machine
import Taskvisor.Registry.State

namespace Taskvisor.Registry.Listener

open Lib Runtime.Base Reaper State

structure RegistryConfig where
  commandCapacity : NonZeroUsize
  maxRegisteredTasks : Option NonZeroUsize

/-- The reply sender of one command. -/
abbrev Reply := Nat

/-- One task of an add command; the latches are present when the controller
tracks its release. -/
structure AddItem where
  id : TaskId
  name : String
  done : Option OutcomeTx
  completion : Option RemovalCompletion
deriving DecidableEq

/-- A command is addressed to an identity or to the current owner of a name. -/
inductive Target
  | id (id : TaskId)
  | name (name : String)
deriving DecidableEq

inductive RegistryCommand
  | add (item : AddItem) (reply : Reply)
  | addBatch (items : List AddItem) (reply : Reply)
  | remove (target : Target) (reply : Reply)
  | cancel (target : Target) (reply : Reply)
deriving DecidableEq

namespace RegistryCommand

def reply : RegistryCommand → Reply
  | .add _ reply | .addBatch _ reply | .remove _ reply | .cancel _ reply => reply

def items : RegistryCommand → List AddItem
  | .add item _ => [item]
  | .addBatch items _ => items
  | _ => []

end RegistryCommand

structure CancelDecision where
  id : TaskId
  claimed : Bool
  completion : RemovalCompletion
deriving DecidableEq

inductive Answer
  | add (result : Except RuntimeError Unit)
  | remove (claimed : Bool)
  | cancel (decision : Option CancelDecision)

/-- One reply as it was sent, with the identity its command resolved to. -/
structure Decision where
  reply : Reply
  target : Option TaskId
  answer : Answer

/-- An add command in progress; `batch` tells the two commands apart. -/
structure AddRequest where
  items : List AddItem
  reply : Reply
  batch : Bool

structure Registration where
  items : List PreparedRegistration
  reply : Reply
  batch : Bool

inductive WonStage
  | cancelling
  | replying
  | spawning
deriving DecidableEq

/-- The next statement of the handler the listener runs. -/
inductive Job
  | names (req : AddRequest)
  | limit (req : AddRequest) (current : Nat)
  | prepare (req : AddRequest)
  | lockedNames (reg : Registration)
  | lockedLimit (reg : Registration)
  | inserted (reg : Registration)
  | spawning (rest : List PreparedRegistration) (reg : Registration)
  | remove (target : Target) (reply : Reply)
  | cancel (target : Target) (reply : Reply)
  | won (key : Nat) (decision : Decision) (stage : WonStage)
  | completed (id : TaskId)
  | probe (key : Nat)
  | inline (key : Nat)

/-- Where the listener task stands between two handlers. -/
inductive Mode
  | looping
  | selecting
  | fencing (fence : Nat)
  | draining
  | controls
  | drainFencing (fence : Nat)
  | cancelling
  | joining
  | waiting
  | exited
deriving DecidableEq

/-- The statements of a management call that touch shared state. `probe` is
the permit `enqueue_add_task` takes and drops before it reserves ownership. -/
inductive Instr
  | check
  | probe
  | own
  | reserve (wait : Bool)
  | gate
  | send
  | leave
deriving DecidableEq

/-- The call paths of the runtime that end in a registry command. -/
inductive Call
  | addTask (item : AddItem)
  | tryAddTask (item : AddItem)
  | controllerAdd (item : AddItem)
  | reservedControllerAdd (item : AddItem)
  | addBatch (items : List AddItem)
  | remove (target : Target) (wait : Bool)
  | cancel (target : Target) (wait : Bool)

namespace Call

def script : Call → List Instr
  | .addTask _ => [.check, .own, .reserve true, .gate, .send, .leave]
  | .tryAddTask _ => [.check, .probe, .own, .check, .reserve false, .gate, .send, .leave]
  | .controllerAdd _ => [.check, .reserve false, .gate, .send, .leave]
  | .reservedControllerAdd _ | .addBatch _ => [.check, .reserve true, .gate, .send, .leave]
  | .remove _ wait | .cancel _ wait => [.check, .reserve wait, .gate, .send, .leave]

/-- The controller's two calls create the latches they return. -/
def tracked : Call → Bool
  | .controllerAdd _ | .reservedControllerAdd _ => true
  | _ => false

def items : Call → List AddItem
  | .addTask item | .tryAddTask item | .controllerAdd item | .reservedControllerAdd item => [item]
  | .addBatch items => items
  | _ => []

def command (reply : Reply) (latch : RemovalCompletion) : Call → RegistryCommand
  | .addTask item | .tryAddTask item => .add { item with completion := none } reply
  | .controllerAdd item | .reservedControllerAdd item => .add { item with completion := some latch } reply
  | .addBatch items => .addBatch (items.map fun item => { item with done := none, completion := none }) reply
  | .remove target _ => .remove target reply
  | .cancel target _ => .cancel target reply

end Call

structure Caller where
  call : Call
  todo : List Instr
  permit : Bool

inductive GateHolder
  | caller (key : Nat)
  | shutdown
deriving DecidableEq

/-- The statements of the shutdown owner that concern the registry. -/
inductive ShutdownInstr
  | acquire
  | store
  | leave
  | fence
  | awaitFence (fence : Nat)
  | claim
  | cancel
  | join
  | cancelRuntime
deriving DecidableEq

/-- What starts a shutdown: a graceful request or the natural end, a failed
signal setup, or the drop of the last owner (also a start without a runtime). -/
inductive ShutdownTrigger
  | drain
  | signalSetupFailed
  | abandon
deriving DecidableEq

/-- `mark_shutting_down`. -/
def markShuttingDown : List ShutdownInstr := [.acquire, .store, .leave]

namespace ShutdownTrigger

def script : ShutdownTrigger → List ShutdownInstr
  | .drain => markShuttingDown ++ markShuttingDown ++ [.fence, .claim, .cancel, .join, .cancelRuntime]
  | .signalSetupFailed => markShuttingDown ++ markShuttingDown ++ [.fence, .cancelRuntime]
  | .abandon => markShuttingDown ++ [.cancelRuntime]

end ShutdownTrigger

/-- The registry service with everything that sends to it. `sent`, `taken`,
`seen` and `replies` record the commands committed to the queue, those the
listener received, the identities allocated and the replies sent. -/
structure World where
  core : Core
  commands : List RegistryCommand
  permits : Nat
  closed : Bool
  controls : List Nat
  completions : List TaskId
  mode : Mode
  job : Option Job
  burst : Nat
  gate : Option GateHolder
  shuttingDown : Bool
  runtimeCancelled : Bool
  callers : Table Nat Caller
  nextCaller : Nat
  shutdown : Option (List ShutdownInstr)
  nextFence : Nat
  acks : List Nat
  nextLatch : RemovalCompletion
  sent : List RegistryCommand
  taken : List RegistryCommand
  seen : List TaskId
  replies : List Decision
  rejections : List (TaskId × Option OutcomeTx × TaskOutcome)

def completionBurstLimit : Nat := 64

namespace World

def new : World where
  core := .new
  commands := []
  permits := 0
  closed := false
  controls := []
  completions := []
  mode := .looping
  job := none
  burst := 0
  gate := none
  shuttingDown := false
  runtimeCancelled := false
  callers := ∅
  nextCaller := 0
  shutdown := none
  nextFence := 0
  acks := []
  nextLatch := 0
  sent := []
  taken := []
  seen := []
  replies := []
  rejections := []

/-- The state lock is held across two statements only while an admission reads
the registration limit. -/
def lockHeld (w : World) : Bool :=
  match w.job with
  | some (.limit req _) => !req.batch
  | some (.lockedLimit _) => true
  | _ => false

def answer (w : World) (decision : Decision) : World := { w with replies := w.replies ++ [decision] }

/-- `spawn_and_register` and its batch form look names up in the registry, in
the reaper, and among the names before them. -/
def firstConflict (taken : String → Bool) : List String → List String → Option String
  | _, [] => none
  | earlier, name :: rest =>
    if taken name || decide (name ∈ earlier) then some name else firstConflict taken (name :: earlier) rest

def takenName (c : Core) (name : String) : Bool := (c.byName.lookup name).isSome || c.reaper.reservesName name

def registeredLimitExceeded (cfg : RegistryConfig) (c : Core) (current incoming : Nat) : Option Nat :=
  cfg.maxRegisteredTasks.bind fun limit =>
    match (checkedAdd current c.active).bind (checkedAdd · incoming) with
    | some total => if limit.get < total then some limit.get else none
    | none => some limit.get

def alreadyExists (name : String) : RuntimeError × RejectionKind × String :=
  (.taskAlreadyExists name, .alreadyExists, Reasons.alreadyExists)

def limitReached (limit : Nat) : RuntimeError × RejectionKind × String :=
  (.resourceLimitReached "registered_tasks" limit, .resourceLimit,
    Reasons.registeredTaskLimit ++ ": " ++ toString limit)

/-- The reply of a rejected add. A single add also delivers its outcome or
attaches it to the cleanup bundle; batch items have no watcher. -/
def reject (w : World) (reply : Reply) (batch : Bool) (dones : List (TaskId × Option OutcomeTx))
    (error : RuntimeError × RejectionKind × String) : World :=
  { w with
    job := none
    replies := w.replies ++ [⟨reply, none, .add (.error error.1)⟩]
    rejections := w.rejections ++
      if batch then [] else dones.map fun item => (item.1, item.2, .rejected error.2.1 error.2.2) }

def rejectRequest (w : World) (req : AddRequest) (error : RuntimeError × RejectionKind × String) : World :=
  w.reject req.reply req.batch (req.items.map fun item => (item.id, item.done)) error

def rejectRegistration (w : World) (reg : Registration) (error : RuntimeError × RejectionKind × String) : World :=
  w.reject reg.reply reg.batch (reg.items.map fun item => (item.id, item.done)) error

/-- `prepare_registration` for each item; an untracked one gets new latches. -/
def prepareItems : RemovalCompletion → List AddItem → List PreparedRegistration × RemovalCompletion
  | latch, [] => ([], latch)
  | latch, item :: rest =>
    match item.completion with
    | some completion =>
      let (items, next) := prepareItems latch rest
      (⟨item.id, item.name, item.done, completion⟩ :: items, next)
    | none =>
      let (items, next) := prepareItems (latch + 1) rest
      (⟨item.id, item.name, item.done, latch⟩ :: items, next)

def resolve (c : Core) : Target → Option TaskId
  | .id id => some id
  | .name name => c.byName.lookup name

/-- The lock section of `remove_task` and `remove_task_by_name`, with the reply
of a lost claim. -/
def removeTask (w : World) (target : Target) (reply : Reply) : World :=
  match resolve w.core target with
  | none => { w with job := none }.answer ⟨reply, none, .remove false⟩
  | some id =>
    match w.core.claimRegistered id .inline (.command reply) with
    | some (key, core) => { w with core, job := some (.won key ⟨reply, some id, .remove true⟩ .cancelling) }
    | none => { w with job := none }.answer ⟨reply, some id, .remove false⟩

/-- The lock section of the two cancel commands: claim, or join the removal
that is under way. -/
def cancelTask (w : World) (target : Target) (reply : Reply) : World :=
  match resolve w.core target with
  | none => { w with job := none }.answer ⟨reply, none, .cancel none⟩
  | some id =>
    match w.core.tasks.lookup id with
    | none => { w with job := none }.answer ⟨reply, some id, .cancel none⟩
    | some ⟨_, .removing completion⟩ =>
      { w with job := none }.answer ⟨reply, some id, .cancel (some ⟨id, false, completion⟩)⟩
    | some ⟨_, .registered handle⟩ =>
      match w.core.claimRegistered id .inline (.command reply) with
      | some (key, core) =>
        { w with
          core
          job := some (.won key ⟨reply, some id, .cancel (some ⟨id, true, handle.completion⟩)⟩ .cancelling) }
      | none => w

/-- The listener runs the next statement of its handler. -/
def work (cfg : RegistryConfig) (w : World) : Job → Option World
  | .names req =>
    match firstConflict (takenName w.core) [] (req.items.map AddItem.name) with
    | some name => some (w.rejectRequest req (alreadyExists name))
    | none => some { w with job := some (.limit req w.core.tasks.size) }
  | .limit req current =>
    match registeredLimitExceeded cfg w.core current req.items.length with
    | some limit => some (w.rejectRequest req (limitReached limit))
    | none => some { w with job := some (.prepare req) }
  | .prepare req =>
    let (items, nextLatch) := prepareItems w.nextLatch req.items
    some { w with job := some (.lockedNames ⟨items, req.reply, req.batch⟩), nextLatch }
  | .lockedNames reg =>
    match firstConflict (takenName w.core) [] (reg.items.map PreparedRegistration.name) with
    | some name => some (w.rejectRegistration reg (alreadyExists name))
    | none => some { w with job := some (.lockedLimit reg) }
  | .lockedLimit reg =>
    match registeredLimitExceeded cfg w.core w.core.tasks.size reg.items.length with
    | some limit => some (w.rejectRegistration reg (limitReached limit))
    | none => some { w with core := w.core.insertAll reg.items, job := some (.inserted reg) }
  | .inserted reg =>
    some ({ w with job := some (.spawning reg.items reg) }.answer ⟨reg.reply, none, .add (.ok ())⟩)
  | .spawning (item :: rest) reg => some { w with core := w.core.spawn item, job := some (.spawning rest reg) }
  | .spawning [] reg => some { w with core := reg.items.foldl Core.openGate w.core, job := none }
  | .remove target reply => some (w.removeTask target reply)
  | .cancel target reply => some (w.cancelTask target reply)
  | .won key decision .cancelling =>
    some { w with
      core := (decision.target.map w.core.cancelToken).getD w.core
      job := some (.won key decision .replying) }
  | .won key decision .replying => some ({ w with job := some (.won key decision .spawning) }.answer decision)
  | .won key _ .spawning => some { w with core := w.core.launch key .detached, job := none }
  | .completed id =>
    match w.core.claimRegistered id .inline .completion with
    | some (key, core) => some { w with core, job := some (.probe key) }
    | none => some { w with job := none }
  | .probe key =>
    let ready := ((w.core.owners.lookup key).bind fun o => w.core.actors.lookup o.id).any fun a => a.result.isSome
    if ready then some { w with core := w.core.launch key .inline, job := some (.inline key) }
    else some { w with core := w.core.launch key .detached, job := none }
  | .inline key =>
    if (w.core.owners.lookup key).any fun o => decide (o.kind = .inline) then none else some { w with job := none }

def start : RegistryCommand → Job
  | .add item reply => .names ⟨[item], reply, false⟩
  | .addBatch items reply => .names ⟨items, reply, true⟩
  | .remove target reply => .remove target reply
  | .cancel target reply => .cancel target reply

/-- The oldest buffered command starts to be handled. -/
def takeCommand (w : World) (mode : Mode) : Option World :=
  match w.commands with
  | [] => none
  | command :: commands =>
    some { w with commands, mode, job := some (start command), burst := 0, taken := w.taken ++ [command] }

def takeControl (w : World) (mode : Nat → Mode) : Option World :=
  match w.controls with
  | [] => none
  | fence :: controls => some { w with controls, mode := mode fence, burst := 0 }

def takeCompletion (w : World) : Option World :=
  match w.completions with
  | [] => none
  | id :: completions => some { w with completions, mode := .looping, job := some (.completed id), burst := w.burst + 1 }

/-- The loop ends: the three receivers close. -/
def close (w : World) : World := { w with mode := .draining, closed := true }

/-- The top of the loop: the runtime token, then the turn owed to commands and
control after a burst of completions. -/
def loopTop (w : World) : Option World :=
  if w.runtimeCancelled then some w.close
  else if completionBurstLimit ≤ w.burst then
    (w.takeControl .fencing).orElse fun _ => (w.takeCommand .looping).orElse fun _ =>
      some { w with mode := .selecting, burst := 0 }
  else some { w with mode := .selecting }

inductive Branch
  | cancelled
  | completion
  | control
  | command
deriving DecidableEq

def select (w : World) : Branch → Option World
  | .cancelled => if w.runtimeCancelled then some w.close else none
  | .completion => w.takeCompletion
  | .control => w.takeControl .fencing
  | .command => w.takeCommand .looping

/-- `handle_control`: drain the commands that are visible, then acknowledge. -/
def fenceStep (w : World) (fence : Nat) (mode back : Mode) : World :=
  (w.takeCommand mode).getD { w with acks := w.acks ++ [fence], mode := back }

/-- Some owner of this kind is left. -/
def hasOwner (c : Core) (kind : OwnerKind) : Bool := c.owners.entries.any fun entry => decide (entry.2.kind = kind)

/-- The cancellations of `cancel_all_within` and the start of its join loop. -/
def launchAll (c : Core) (kind : OwnerKind) : Core :=
  c.owners.entries.foldl
    (fun c entry =>
      if entry.2.kind = kind ∧ entry.2.stage = .claimed then (c.cancelToken entry.2.id).launch entry.1 kind else c) c

/-- The listener between two handlers; `branch` is the choice of `select!`. -/
def listen (w : World) (branch : Branch) : Option World :=
  match w.mode with
  | .looping => w.loopTop
  | .selecting => w.select branch
  | .fencing fence => some (w.fenceStep fence (.fencing fence) .looping)
  | .draining => (w.takeCommand .draining).orElse fun _ => some { w with mode := .controls }
  | .controls =>
    (w.takeControl .drainFencing).orElse fun _ =>
      some { w with core := w.core.claimAll (.shutdown true) w.core.tasks.keys, mode := .cancelling }
  | .drainFencing fence => some (w.fenceStep fence (.drainFencing fence) .controls)
  | .cancelling => some { w with core := launchAll w.core (.shutdown true), mode := .joining }
  | .joining => if hasOwner w.core (.shutdown true) then none else some { w with mode := .waiting }
  | .waiting => if w.core.pending.counts.keys.isEmpty then some { w with mode := .exited } else none
  | .exited => none

def putCaller (w : World) (key : Nat) (caller : Caller) : World := { w with callers := w.callers.insert key caller }

/-- The call returns an error or its future is dropped; its permit goes back. -/
def giveUp (w : World) (key : Nat) (caller : Caller) : World :=
  { w with callers := w.callers.erase key, permits := if caller.permit then w.permits - 1 else w.permits }

def full (cfg : RegistryConfig) (w : World) : Bool := decide (cfg.commandCapacity.get ≤ w.permits + w.commands.length)

/-- A call runs its next statement. -/
def call (cfg : RegistryConfig) (w : World) (key : Nat) (caller : Caller) : Option World :=
  match caller.todo with
  | [] => some { w with callers := w.callers.erase key }
  | .check :: todo => if w.shuttingDown then some (w.giveUp key caller) else some (w.putCaller key { caller with todo })
  | .probe :: todo =>
    if w.closed || full cfg w then some (w.giveUp key caller) else some (w.putCaller key { caller with todo })
  | .own :: todo => some (w.putCaller key { caller with todo })
  | .reserve wait :: todo =>
    if w.closed then some (w.giveUp key caller)
    else if full cfg w then if wait then none else some (w.giveUp key caller)
    else some ({ w with permits := w.permits + 1 }.putCaller key { caller with todo, permit := true })
  | .gate :: todo =>
    if w.gate.isSome then none
    else if w.shuttingDown then some (w.giveUp key caller)
    else some ({ w with gate := some (.caller key) }.putCaller key { caller with todo })
  | .send :: todo =>
    let command := caller.call.command key w.nextLatch
    some ({ w with
      commands := w.commands ++ [command]
      permits := w.permits - 1
      sent := w.sent ++ [command]
      nextLatch := if caller.call.tracked then w.nextLatch + 1 else w.nextLatch }.putCaller key
        { caller with todo, permit := false })
  | .leave :: todo => some ({ w with gate := none }.putCaller key { caller with todo })

/-- The shutdown owner runs its next statement. A fence whose channel is closed
skips the drain. -/
def shutdownStep (w : World) : ShutdownInstr → List ShutdownInstr → Option World
  | .acquire, todo => if w.gate.isSome then none else some { w with gate := some .shutdown, shutdown := some todo }
  | .store, todo => some { w with shuttingDown := true, shutdown := some todo }
  | .leave, todo => some { w with gate := none, shutdown := some todo }
  | .fence, todo =>
    if w.closed then some { w with shutdown := some [.cancelRuntime] }
    else some { w with
      controls := w.controls ++ [w.nextFence]
      nextFence := w.nextFence + 1
      shutdown := some (.awaitFence w.nextFence :: todo) }
  | .awaitFence fence, todo => if fence ∈ w.acks then some { w with shutdown := some todo } else none
  | .claim, todo =>
    if w.lockHeld then none
    else some { w with core := w.core.claimAll (.shutdown false) w.core.tasks.keys, shutdown := some todo }
  | .cancel, todo => some { w with core := launchAll w.core (.shutdown false), shutdown := some todo }
  | .join, todo => if hasOwner w.core (.shutdown false) then none else some { w with shutdown := some todo }
  | .cancelRuntime, todo => some { w with runtimeCancelled := true, shutdown := some todo }

/-- The loop of `cancel_all_within` takes its handles in order. -/
def inTurn (c : Core) (key : Nat) (o : Owner) : Bool :=
  match o.kind with
  | .shutdown _ => c.owners.entries.all fun entry => decide (entry.1 < key → entry.2.kind ≠ o.kind)
  | _ => true

/-- The commit of an owner takes the state lock. -/
def blocked (w : World) (o : Owner) (action : Core.OwnerAction) : Bool :=
  match o.stage, action with
  | .locking _, .advance => w.lockHeld
  | _, _ => false

def ownerStep (w : World) (key : Nat) (action : Core.OwnerAction) : Option World :=
  match w.core.owners.lookup key with
  | none => none
  | some o =>
    if inTurn w.core key o && !w.blocked o action then (w.core.stepOwner key action).map fun core => { w with core }
    else none

/-- The completion identity travels on an unbounded channel. -/
def signalled (w : World) (id : TaskId) : World :=
  if w.closed then w else { w with completions := w.completions ++ [id] }

def actorStep (w : World) (id : TaskId) (action : Core.ActorAction) : Option World :=
  (w.core.stepActor id action).map fun core => if action = .signal then { w with core }.signalled id else { w with core }

inductive Action
  | begin (call : Call)
  | call (key : Nat)
  | giveUp (key : Nat)
  | shutdown (trigger : ShutdownTrigger)
  | shutdownStep
  | listen (branch : Branch)
  | work
  | owner (key : Nat) (action : Core.OwnerAction)
  | reap (key : Nat) (poisoned : Bool)
  | actor (id : TaskId) (action : Core.ActorAction)
  | stray (id : TaskId)

/-- Identities come from one counter: an add brings new ones. -/
def freshItems (w : World) (items : List AddItem) : Bool :=
  decide ((items.map AddItem.id).Nodup ∧ ∀ id ∈ items.map AddItem.id, id ∉ w.seen)

def step (cfg : RegistryConfig) (w : World) : Action → Option World
  | .begin c =>
    if w.freshItems c.items then
      some { w with
        callers := w.callers.insert w.nextCaller ⟨c, c.script, false⟩
        nextCaller := w.nextCaller + 1
        seen := w.seen ++ c.items.map AddItem.id }
    else none
  | .call key => (w.callers.lookup key).bind (w.call cfg key)
  | .giveUp key =>
    match w.callers.lookup key with
    | some caller => if w.gate = some (.caller key) then none else some (w.giveUp key caller)
    | none => none
  | .shutdown trigger => if w.shutdown.isSome then none else some { w with shutdown := some trigger.script }
  | .shutdownStep =>
    match w.shutdown with
    | some (instr :: todo) => w.shutdownStep instr todo
    | _ => none
  | .listen branch => if w.job.isSome then none else w.listen branch
  | .work => w.job.bind (w.work cfg)
  | .owner key action => w.ownerStep key action
  | .reap key poisoned => (w.core.stepReap key poisoned).map fun core => { w with core }
  | .actor id action => w.actorStep id action
  | .stray id => if w.closed then none else some { w with completions := w.completions ++ [id] }

end World

def machine (cfg : RegistryConfig) : Machine World World.Action := ⟨.new, World.step cfg⟩

end Taskvisor.Registry.Listener
