import Taskvisor.Lib.Table
import Taskvisor.Lib.Usize
import Taskvisor.Controller.Slot

namespace Taskvisor.Controller.State

open Lib Runtime.Base Slot

structure ControllerConfig where
  queueCapacity : NonZeroUsize
  admissionCapacity : NonZeroUsize
  identityOperationCapacity : NonZeroUsize
  maxSlotQueue : Nat
  maxControllerSlots : Option NonZeroUsize
  maxTotalPending : Option NonZeroUsize

inductive AdmissionPolicy
  | dropIfRunning
  | replace
  | queue
deriving DecidableEq

structure Submission where
  id : TaskId
  taskName : String
  admission : AdmissionPolicy
  slotOverride : Option String
  done : Option OutcomeTx
deriving DecidableEq

def Submission.slotName (sub : Submission) : String := sub.slotOverride.getD sub.taskName

inductive IdentityOperation
  | remove
  | tryRemove
  | cancel
  | tryCancel
  | cancelWithTimeout
  | tryCancelWithTimeout
deriving DecidableEq

def IdentityOperation.requestReason : IdentityOperation → Option String
  | .remove => none
  | .tryRemove => none
  | _ => some "manual_cancel"

/-- The reply sender of one identity command. -/
abbrev IdentityReply := Nat

inductive ControllerCommand
  | submit (sub : Submission)
  | manageIdentity (id : TaskId) (operation : IdentityOperation) (reply : IdentityReply)
deriving DecidableEq

structure CapacityPending where
  slotName : String
  pending : PendingSubmission
deriving DecidableEq

structure ControllerState where
  slots : Table String SlotState
  queuedSlots : Table TaskId String
  capacityPending : Table TaskId CapacityPending
  watchers : Table TaskId OutcomeTx

def ControllerState.pendingLen (state : ControllerState) : Nat :=
  state.queuedSlots.size + state.capacityPending.size

/-- At most one reservation is active; the rest wait in order. -/
structure CapacityAdmissionPump where
  limit : Nat
  queued : List TaskId
  active : Option TaskId
deriving DecidableEq

namespace CapacityAdmissionPump

def new (limit : Nat) : CapacityAdmissionPump := ⟨limit, [], none⟩

def len (pump : CapacityAdmissionPump) : Nat := pump.active.toList.length + pump.queued.length

def startNext (pump : CapacityAdmissionPump) : CapacityAdmissionPump :=
  match pump.active, pump.queued with
  | none, id :: queued => { pump with queued, active := some id }
  | _, _ => pump

def enqueue (pump : CapacityAdmissionPump) (id : TaskId) : Except Nat CapacityAdmissionPump :=
  if pump.limit ≤ pump.len then .error pump.limit
  else .ok { pump with queued := pump.queued ++ [id] }.startNext

def cancel (pump : CapacityAdmissionPump) (id : TaskId) : Bool × CapacityAdmissionPump :=
  if pump.active = some id then (true, { pump with active := none }.startNext)
  else if id ∈ pump.queued then (true, { pump with queued := pump.queued.erase id })
  else (false, pump)

/-- The active reservation ended; the next one starts. -/
def next (pump : CapacityAdmissionPump) : Option (TaskId × CapacityAdmissionPump) :=
  match pump.startNext.active with
  | none => none
  | some id => some (id, { pump.startNext with active := none }.startNext)

end CapacityAdmissionPump

/-- The futures the loop polls: each stands for its identity and slot, and an
identity operation for its command. -/
structure TrackedOperations where
  capacity : CapacityAdmissionPump
  admissions : List (TaskId × String)
  completions : List (TaskId × String)
  removals : List (TaskId × String)
  identityOperations : List (TaskId × IdentityOperation × IdentityReply)

/-- An Add command committed to the registry queue. -/
structure Handoff where
  id : TaskId
  name : String
  done : Option OutcomeTx
deriving DecidableEq

/-- The engine between two statements of a handler. The last five fields are
what it has given away, in order. -/
structure Engine where
  state : ControllerState
  operations : TrackedOperations
  published : List Event
  sent : List (TaskId × OutcomeTx × TaskOutcome)
  disposed : List (TaskId × Option TaskOutcome)
  handed : List Handoff
  replied : List (IdentityReply × Except RuntimeError Bool)

/-- What one handler reads of its surroundings: the n-th upgrade of the weak
supervisor, the n-th shutdown check, the registry's answer to an offered Add,
the final gate of a reserved Add, live outcome receivers, and the clock. -/
structure Observed where
  supervisor : Nat → Bool
  shutdown : Nat → Bool
  offer : TaskId → Except RuntimeError Unit
  gateOpen : Bool
  receiver : OutcomeTx → Bool
  now : Instant

namespace Engine

def new (cfg : ControllerConfig) : Engine where
  state := ⟨∅, ∅, ∅, ∅⟩
  operations := ⟨.new cfg.admissionCapacity.get, [], [], [], []⟩
  published := []
  sent := []
  disposed := []
  handed := []
  replied := []

def publish (e : Engine) (event : Event) : Engine := { e with published := e.published ++ [event] }

def publishRejected (e : Engine) (slotName : String) (id : TaskId) (kind : RejectionKind) (reason : String) : Engine :=
  e.publish ⟨.controllerRejected, some slotName, some id, some kind, some reason⟩

def publishSubmitted (e : Engine) (slotName : String) (id : TaskId) (reason : String) : Engine :=
  e.publish ⟨.controllerSubmitted, some slotName, some id, none, some reason⟩

def publishTransition (e : Engine) (slotName : String) (reason : String) : Engine :=
  e.publish ⟨.controllerSlotTransition, some slotName, none, none, some reason⟩

def putSlot (e : Engine) (name : String) (slot : SlotState) : Engine :=
  { e with state := { e.state with slots := e.state.slots.insert name slot } }

def removeSlot (e : Engine) (name : String) : Engine :=
  { e with state := { e.state with slots := e.state.slots.erase name } }

def indexQueued (e : Engine) (id : TaskId) (slotName : String) : Engine :=
  { e with state := { e.state with queuedSlots := e.state.queuedSlots.insert id slotName } }

def unindexQueued (e : Engine) (id : TaskId) : Engine :=
  { e with state := { e.state with queuedSlots := e.state.queuedSlots.erase id } }

def insertWatcher (e : Engine) (id : TaskId) (tx : OutcomeTx) : Engine :=
  { e with state := { e.state with watchers := e.state.watchers.insert id tx } }

def removeWatcher (e : Engine) (id : TaskId) : Engine :=
  { e with state := { e.state with watchers := e.state.watchers.erase id } }

/-- `if let Some(tx) = done { watchers.insert(id, tx) }`. -/
def restoreWatcher (e : Engine) (id : TaskId) (done : Option OutcomeTx) : Engine :=
  match done with
  | some tx => e.insertWatcher id tx
  | none => e

def insertCapacity (e : Engine) (id : TaskId) (pending : CapacityPending) : Engine :=
  { e with state := { e.state with capacityPending := e.state.capacityPending.insert id pending } }

def removeCapacity (e : Engine) (id : TaskId) : Engine :=
  { e with state := { e.state with capacityPending := e.state.capacityPending.erase id } }

def setPump (e : Engine) (pump : CapacityAdmissionPump) : Engine :=
  { e with operations := { e.operations with capacity := pump } }

def trackAdmission (e : Engine) (id : TaskId) (slotName : String) : Engine :=
  { e with operations := { e.operations with admissions := e.operations.admissions ++ [(id, slotName)] } }

def trackCompletion (e : Engine) (id : TaskId) (slotName : String) : Engine :=
  { e with operations := { e.operations with completions := e.operations.completions ++ [(id, slotName)] } }

def trackRemoval (e : Engine) (id : TaskId) (slotName : String) : Engine :=
  { e with operations := { e.operations with removals := e.operations.removals ++ [(id, slotName)] } }

def hand (e : Engine) (pending : PendingSubmission) (done : Option OutcomeTx) : Engine :=
  { e with handed := e.handed ++ [⟨pending.id, pending.taskName, done⟩] }

def reply (e : Engine) (target : IdentityReply) (result : Except RuntimeError Bool) : Engine :=
  { e with replied := e.replied ++ [(target, result)] }

/-- A task value goes to its reserved cleanup with an outcome nobody took. -/
def dispose (e : Engine) (id : TaskId) (terminal : Option TaskOutcome) : Engine :=
  { e with disposed := e.disposed ++ [(id, terminal)] }

def disposeAll (e : Engine) (deferred : List (TaskId × Option TaskOutcome)) : Engine :=
  { e with disposed := e.disposed ++ deferred }

/-- The outcome comes back when its receiver is gone. -/
def sendRejected (e : Engine) (obs : Observed) (id : TaskId) (done : Option OutcomeTx) (kind : RejectionKind)
    (reason : String) : Option TaskOutcome × Engine :=
  match done with
  | none => (none, e)
  | some tx =>
    (if obs.receiver tx then none else some (.rejected kind reason),
      { e with sent := e.sent ++ [(id, tx, .rejected kind reason)] })

def finalizeRejected (e : Engine) (obs : Observed) (id : TaskId) (kind : RejectionKind) (reason : String) :
    Option TaskOutcome × Engine :=
  match e.state.watchers.lookup id with
  | none => (none, e)
  | some tx => (e.removeWatcher id).sendRejected obs id (some tx) kind reason

def pendingFull (e : Engine) (cfg : ControllerConfig) : Bool :=
  cfg.maxTotalPending.any fun limit => decide (limit.get ≤ e.state.pendingLen)

def tryPushQueued (e : Engine) (cfg : ControllerConfig) (slot : SlotState) (slotName : String)
    (pending : PendingSubmission) : Option (Engine × SlotState) :=
  if e.pendingFull cfg then none
  else some (e.indexQueued pending.id slotName, { slot with queue := slot.queue ++ [pending] })

/-- `Err` carries the configured limit. -/
def tryGetOrCreateSlot (e : Engine) (cfg : ControllerConfig) (slotName : String) : Except Nat (SlotState × Engine) :=
  match e.state.slots.lookup slotName with
  | some slot => .ok (slot, e)
  | none =>
    match cfg.maxControllerSlots with
    | some limit =>
      if limit.get ≤ e.state.slots.size then .error limit.get else .ok (.new, e.putSlot slotName .new)
    | none => .ok (.new, e.putSlot slotName .new)

/-- The slot guard is released; an idle slot without work is collected. -/
def gcIfIdle (e : Engine) (slotName : String) (slot : SlotState) : Engine :=
  if slot.isIdle && slot.queue.isEmpty then e.removeSlot slotName else e.putSlot slotName slot

def queueFullReason (cfg : ControllerConfig) (slotLen : Nat) : Option String :=
  if cfg.maxSlotQueue ≤ slotLen then
    some (Reasons.queueFull ++ ": " ++ toString slotLen ++ "/" ++ toString cfg.maxSlotQueue)
  else none

def tryIndexCapacityPending (e : Engine) (cfg : ControllerConfig) (id : TaskId) (pending : CapacityPending) :
    Except Nat Engine :=
  match cfg.maxTotalPending with
  | some limit => if limit.get ≤ e.state.pendingLen then .error limit.get else .ok (e.insertCapacity id pending)
  | none => .ok (e.insertCapacity id pending)

def pendingLimitReason (e : Engine) (cfg : ControllerConfig) : String :=
  match cfg.maxTotalPending with
  | some limit =>
    Reasons.controllerPendingLimit ++ ": " ++ toString e.state.pendingLen ++ "/" ++ toString limit.get
  | none => Reasons.controllerPendingLimit

/-- The displaced head goes out with the outcome attached to its cleanup. -/
def replaceHeadOrPush (e : Engine) (obs : Observed) (slot : SlotState) (slotName : String)
    (pending : PendingSubmission) : Option (TaskId × Option TaskOutcome) × Engine × SlotState :=
  match slot.queue with
  | displaced :: rest =>
    let e := (e.unindexQueued displaced.id).indexQueued pending.id slotName
    let e := e.publishRejected slotName displaced.id .supersededByReplace Reasons.supersededByReplace
    let (terminal, e) := e.finalizeRejected obs displaced.id .supersededByReplace Reasons.supersededByReplace
    (some (displaced.id, terminal), e, { slot with queue := pending :: rest })
  | [] => (none, e.indexQueued pending.id slotName, { slot with queue := [pending] })

/-- `none` returns the submission: an empty queue met the aggregate limit. -/
def tryReplaceHeadOrPush (e : Engine) (cfg : ControllerConfig) (obs : Observed) (slot : SlotState) (slotName : String)
    (pending : PendingSubmission) : Option (Option (TaskId × Option TaskOutcome) × Engine × SlotState) :=
  if slot.queue.isEmpty then
    if e.pendingFull cfg then none
    else some (none, e.indexQueued pending.id slotName, { slot with queue := [pending] })
  else some (e.replaceHeadOrPush obs slot slotName pending)

end Engine

end Taskvisor.Controller.State
