import Taskvisor.Lib.Machine
import Taskvisor.Controller.Admission

namespace Taskvisor.Controller.Driver

open Lib Runtime.Base Slot State Admission

def removeRequested (e : Engine) (taskName : String) (id : TaskId) (reason : Option String) : Engine :=
  e.publish ⟨.taskRemoveRequested, some taskName, some id, none, reason⟩

/-- The shared part of both branches that claim a capacity waiter. -/
def rejectRemoved (obs : Observed) (e : Engine) (slotName taskName : String) (id : TaskId) (done : Option OutcomeTx)
    (reason : Option String) : Option TaskOutcome × Engine :=
  let e := e.setPump (e.operations.capacity.cancel id).2
  ((removeRequested e taskName id reason).publishRejected slotName id .removedFromQueue
    Reasons.removedFromQueue).sendRejected obs id done .removedFromQueue Reasons.removedFromQueue

/-- `remove_queued_submission` once the route's slot is known. -/
def removeRouted (cfg : ControllerConfig) (obs : Observed) (e : Engine) (id : TaskId) (reason : Option String)
    (slotName : String) (slot : SlotState) : Bool × Engine :=
  if obs.shutdown 1 then (false, e)
  else match claimCapacityPending e id with
    | some (waiting, done, e) =>
      let (terminal, e) := rejectRemoved obs e slotName waiting.pending.taskName id done reason
      let slot := (slot.rejectAdmission id).2
      let (deferred, e, slot) := advance cfg obs e slot slotName (obs.supervisor 0)
      (true, ((e.gcIfIdle slotName slot).dispose waiting.pending.id terminal).disposeAll deferred)
    | none =>
      match slot.queue.find? fun pending => decide (pending.id = id) with
      | none => (false, e.unindexQueued id)
      | some removed =>
        let e := (removeRequested e removed.taskName id reason).unindexQueued id
        let slot := { slot with queue := slot.queue.eraseP fun pending => decide (pending.id = id) }
        let (terminal, e) := (e.publishRejected slotName id .removedFromQueue
          Reasons.removedFromQueue).finalizeRejected obs id .removedFromQueue Reasons.removedFromQueue
        (true, (e.gcIfIdle slotName slot).dispose removed.id terminal)

/-- The slot of the route is not tracked. -/
def removeUntracked (obs : Observed) (e : Engine) (id : TaskId) (reason : Option String) (capacity : Bool) :
    Bool × Engine :=
  match (if capacity then claimCapacityPending e id else none) with
  | some (waiting, done, e) =>
    let (terminal, e) := rejectRemoved obs e waiting.slotName waiting.pending.taskName id done reason
    (true, e.dispose waiting.pending.id terminal)
  | none => (false, e.unindexQueued id)

/-- The slot that holds an identity, and whether it waits for capacity. -/
def route (e : Engine) (id : TaskId) : Option (String × Bool) :=
  match e.state.capacityPending.lookup id with
  | some entry => some (entry.slotName, true)
  | none => (e.state.queuedSlots.lookup id).map fun slot => (slot, false)

def removeQueuedSubmission (cfg : ControllerConfig) (obs : Observed) (e : Engine) (id : TaskId)
    (reason : Option String) : Bool × Engine :=
  match route e id with
  | none => (false, e)
  | some (slotName, capacity) =>
    match e.state.slots.lookup slotName with
    | none => removeUntracked obs e id reason capacity
    | some slot => removeRouted cfg obs e id reason slotName slot

def handleIdentityOperation (cfg : ControllerConfig) (obs : Observed) (e : Engine) (id : TaskId)
    (operation : IdentityOperation) (reply : IdentityReply) : Engine :=
  if obs.shutdown 0 then e.reply reply (.error .shuttingDown)
  else match removeQueuedSubmission cfg obs e id operation.requestReason with
    | (true, e) => e.reply reply (.ok true)
    | (false, e) =>
      if obs.shutdown 2 then e.reply reply (.error .shuttingDown)
      else if cfg.identityOperationCapacity.get ≤ e.operations.identityOperations.length then
        e.reply reply
          (.error (.resourceLimitReached "controller_identity_operations" cfg.identityOperationCapacity.get))
      else if !obs.supervisor 1 then e.reply reply (.error .shuttingDown)
      else
        { e with operations := { e.operations with
            identityOperations := e.operations.identityOperations ++ [(id, operation, reply)] } }

/-- One buffered command resolved by `drain_pending_on_shutdown`. -/
def drainCommand (obs : Observed) (e : Engine) : ControllerCommand → Engine
  | .submit sub =>
    let (terminal, e) := (e.publishRejected sub.slotName sub.id .controllerShuttingDown
      Reasons.controllerShuttingDown).sendRejected obs sub.id sub.done .controllerShuttingDown
        Reasons.controllerShuttingDown
    e.dispose sub.id terminal
  | .manageIdentity _ _ reply => e.reply reply (.error .shuttingDown)

/-- The futures are dropped: a waiting identity caller gets the fallback. -/
def dropOperations (cfg : ControllerConfig) (e : Engine) : Engine :=
  { e with
    operations := ⟨.new cfg.admissionCapacity.get, [], [], [], []⟩
    replied := e.replied ++ e.operations.identityOperations.map fun op => (op.2.2, .error .shuttingDown) }

/-- One entry rejected while the engine shuts its state down. -/
def finalizeEntry (obs : Observed) (e : Engine) (slotName : String) (id : TaskId) : Option TaskOutcome × Engine :=
  (e.publishRejected slotName id .controllerShuttingDown Reasons.controllerShuttingDown).finalizeRejected obs id
    .controllerShuttingDown Reasons.controllerShuttingDown

def finalizeCapacity (obs : Observed) : Engine → List (TaskId × CapacityPending) →
    Engine × List (TaskId × Option TaskOutcome)
  | e, [] => (e, [])
  | e, (id, waiting) :: rest =>
    let (terminal, e) := finalizeEntry obs e waiting.slotName id
    let (e, dropped) := finalizeCapacity obs e rest
    (e, (waiting.pending.id, terminal) :: dropped)

def finalizeQueue (obs : Observed) (slotName : String) : Engine → List PendingSubmission →
    Engine × List (TaskId × Option TaskOutcome)
  | e, [] => (e, [])
  | e, pending :: rest =>
    let (terminal, e) := finalizeEntry obs (e.unindexQueued pending.id) slotName pending.id
    let (e, dropped) := finalizeQueue obs slotName e rest
    (e, (pending.id, terminal) :: dropped)

def finalizeSlots (obs : Observed) : Engine → List (String × SlotState) → Engine × List (TaskId × Option TaskOutcome)
  | e, [] => (e, [])
  | e, (name, slot) :: rest =>
    let (e, dropped) := finalizeQueue obs name e slot.queue
    let (e, more) := finalizeSlots obs e rest
    (e, dropped ++ more)

def finalizeRemainingWatchers (obs : Observed) : Engine → List TaskId → Engine
  | e, [] => e
  | e, id :: rest =>
    let e := e.publish ⟨.controllerRejected, none, some id, some .controllerShuttingDown,
      some Reasons.controllerShuttingDown⟩
    let (_, e) := e.finalizeRejected obs id .controllerShuttingDown Reasons.controllerShuttingDown
    finalizeRemainingWatchers obs e rest

def pairs {α β : Type} (s : Table α β) : List (α × β) := s.entries.map fun entry => (entry.1, entry.2)

def finalizeSlotStateOnShutdown (obs : Observed) (e : Engine) : Engine :=
  let waiting := pairs e.state.capacityPending
  let (e, first) := finalizeCapacity obs { e with state := { e.state with capacityPending := ∅ } } waiting
  let (e, second) := finalizeSlots obs e (pairs e.state.slots)
  let e := finalizeRemainingWatchers obs e e.state.watchers.keys
  { e with state := { e.state with slots := ∅, queuedSlots := ∅, capacityPending := ∅ } }.disposeAll (first ++ second)

/-- Where the controller task stands. -/
inductive Phase
  | looping
  | draining
  | finalized
  | finished
deriving DecidableEq

/-- The controller task with its command queue. `log` records every command
that entered the queue, in order. -/
structure World where
  engine : Engine
  commands : List ControllerCommand
  phase : Phase
  log : List ControllerCommand

inductive Action
  | send (command : ControllerCommand)
  | command (obs : Observed) (cut : Option AwaitPoint)
  | capacityResult (obs : Observed) (decision : Except RuntimeError Unit)
  | admissionResult (obs : Observed) (id : TaskId) (slotName : String) (accepted : Bool)
  | completionResult (obs : Observed) (id : TaskId) (slotName : String)
  | removalResult (id : TaskId) (slotName : String) (decision : Except RuntimeError Bool)
  | identityResult (op : TaskId × IdentityOperation × IdentityReply) (result : Except RuntimeError Bool)
  | stop
  | drain (obs : Observed)
  | finalize (obs : Observed)
  | finish (obs : Observed)

def handleControllerCommand (cfg : ControllerConfig) (obs : Observed) (cut : Option AwaitPoint) (e : Engine) :
    ControllerCommand → Engine
  | .submit sub => handleSubmission cfg obs cut e sub
  | .manageIdentity id operation reply => handleIdentityOperation cfg obs e id operation reply

def submission? : ControllerCommand → Option Submission
  | .submit sub => some sub
  | .manageIdentity _ _ _ => none

def identityReply? : ControllerCommand → Option IdentityReply
  | .submit _ => none
  | .manageIdentity _ _ reply => some reply

/-- A command enters with an identity, a sender and a reply nobody used. -/
def fresh (log : List ControllerCommand) : ControllerCommand → Bool
  | .submit sub => decide (∀ old ∈ log.filterMap submission?, old.id ≠ sub.id ∧ (old.done = none ∨ old.done ≠ sub.done))
  | .manageIdentity _ _ reply => decide (reply ∉ log.filterMap identityReply?)

namespace World

def new (cfg : ControllerConfig) : World := ⟨.new cfg, [], .looping, []⟩

def issue (w : World) (command : ControllerCommand) : World :=
  { w with commands := w.commands ++ [command], log := w.log ++ [command] }

/-- An operation of the loop, enabled only while the loop runs. -/
def looping (w : World) (engine : Engine) : Option World :=
  if w.phase = .looping then some { w with engine } else none

def dropAdmission (e : Engine) (id : TaskId) (slotName : String) : Engine :=
  { e with operations := { e.operations with admissions := e.operations.admissions.erase (id, slotName) } }

def dropCompletion (e : Engine) (id : TaskId) (slotName : String) : Engine :=
  { e with operations := { e.operations with completions := e.operations.completions.erase (id, slotName) } }

def dropRemoval (e : Engine) (id : TaskId) (slotName : String) : Engine :=
  { e with operations := { e.operations with removals := e.operations.removals.erase (id, slotName) } }

def dropIdentity (e : Engine) (op : TaskId × IdentityOperation × IdentityReply) : Engine :=
  { e with operations := { e.operations with identityOperations := e.operations.identityOperations.erase op } }

def step (cfg : ControllerConfig) (w : World) : Action → Option World
  | .send command =>
    if (w.phase = .looping ∨ w.phase = .draining) ∧ fresh w.log command then some (w.issue command) else none
  | .command obs cut =>
    match w.commands with
    | [] => none
    | command :: commands =>
      { w with commands }.looping (handleControllerCommand cfg obs cut w.engine command)
  | .capacityResult obs decision =>
    match w.engine.operations.capacity.next with
    | none => none
    | some (id, pump) => w.looping (handleRegistryCapacityResult cfg obs (w.engine.setPump pump) id decision)
  | .admissionResult obs id slotName accepted =>
    if (id, slotName) ∈ w.engine.operations.admissions then
      w.looping (handleAdmissionResult cfg obs (dropAdmission w.engine id slotName) id slotName accepted)
    else none
  | .completionResult obs id slotName =>
    if (id, slotName) ∈ w.engine.operations.completions then
      w.looping (handleCompletionResult cfg obs (dropCompletion w.engine id slotName) id slotName)
    else none
  | .removalResult id slotName decision =>
    if (id, slotName) ∈ w.engine.operations.removals then
      w.looping (handleRemovalResult (dropRemoval w.engine id slotName) id slotName decision)
    else none
  | .identityResult op result =>
    if op ∈ w.engine.operations.identityOperations then w.looping ((dropIdentity w.engine op).reply op.2.2 result)
    else none
  | .stop => if w.phase = .looping then some { w with phase := .draining, engine := dropOperations cfg w.engine } else none
  | .drain obs =>
    match w.phase, w.commands with
    | .draining, command :: commands => some { w with commands, engine := drainCommand obs w.engine command }
    | _, _ => none
  | .finalize obs =>
    match w.phase, w.commands with
    | .draining, [] => some { w with phase := .finalized, engine := finalizeSlotStateOnShutdown obs w.engine }
    | _, _ => none
  | .finish obs =>
    if w.phase = .finalized then
      some { w with phase := .finished, engine := finalizeSlotStateOnShutdown obs w.engine }
    else none

end World

def machine (cfg : ControllerConfig) : Machine World Action := ⟨.new cfg, World.step cfg⟩

end Taskvisor.Controller.Driver
