import Taskvisor.Controller.State

namespace Taskvisor.Controller.Admission

open Lib Runtime.Base Slot State

inductive AdmissionWatcherState
  | localGuard (done : Option OutcomeTx)
  | parked
  | committed
deriving DecidableEq

/-- `owned` says whether the task value is still inside the guard. -/
structure AdmissionWatcher where
  id : TaskId
  eventTask : Option String
  state : AdmissionWatcherState
  owned : Bool

namespace AdmissionWatcher

def new (id : TaskId) (done : Option OutcomeTx) (eventTask : Option String) : AdmissionWatcher :=
  ⟨id, eventTask, .localGuard done, true⟩

def takePending (watcher : AdmissionWatcher) (taskName : String) : PendingSubmission × AdmissionWatcher :=
  (⟨watcher.id, taskName⟩, { watcher with owned := false })

def park (watcher : AdmissionWatcher) (e : Engine) : Engine × AdmissionWatcher :=
  match watcher.state with
  | .localGuard (some tx) => (e.insertWatcher watcher.id tx, { watcher with state := .parked })
  | .localGuard none => (e, { watcher with state := .parked })
  | .committed => (e, { watcher with state := .committed })
  | .parked => (e, { watcher with state := .parked })

def commit (watcher : AdmissionWatcher) : AdmissionWatcher := { watcher with state := .committed }

def reject (watcher : AdmissionWatcher) (obs : Observed) (e : Engine) (kind : RejectionKind) (reason : String) :
    Option TaskOutcome × Engine × AdmissionWatcher :=
  let (undelivered, e) :=
    match watcher.state with
    | .localGuard (some tx) => e.sendRejected obs watcher.id (some tx) kind reason
    | .parked => e.finalizeRejected obs watcher.id kind reason
    | .localGuard none => (none, e)
    | .committed => (none, e)
  let watcher := { watcher with state := .committed }
  if watcher.owned then (none, e.dispose watcher.id undelivered, { watcher with owned := false })
  else (undelivered, e, watcher)

def rejectWithEvent (watcher : AdmissionWatcher) (obs : Observed) (e : Engine) (kind : RejectionKind)
    (reason : String) : Option TaskOutcome × Engine × AdmissionWatcher :=
  if watcher.state = .committed then (none, e, watcher)
  else
    watcher.reject obs (e.publish ⟨.controllerRejected, watcher.eventTask, some watcher.id, some kind, some reason⟩)
      kind reason

/-- `Drop for AdmissionWatcher`. A committed guard leaves nothing to dispose. -/
def drop (watcher : AdmissionWatcher) (obs : Observed) (e : Engine) : Engine :=
  if watcher.state = .committed then e
  else (watcher.rejectWithEvent obs e .admissionFailed Reasons.controllerAdmissionInterrupted).2.1

end AdmissionWatcher

def rejectionKindForRuntimeError : RuntimeError → RejectionKind
  | .resourceLimitReached _ _ => .resourceLimit
  | _ => .admissionFailed

/-- `start_in_slot`. On failure the watcher is parked again and the error says
why; the caller keeps the task. -/
def startInSlot (cfg : ControllerConfig) (obs : Observed) (e : Engine) (slot : SlotState) (slotName : String)
    (pending : PendingSubmission) : Except RuntimeError Unit × Engine × SlotState :=
  let done := e.state.watchers.lookup pending.id
  let e := e.removeWatcher pending.id
  match obs.offer pending.id with
  | .ok () =>
    (.ok (), (e.hand pending done).trackAdmission pending.id slotName, (slot.beginAdmission pending.id obs.now).2)
  | .error error =>
    let e := e.restoreWatcher pending.id done
    if error = .commandQueueFull then
      match e.tryIndexCapacityPending cfg pending.id ⟨slotName, pending⟩ with
      | .error limit => (.error (.resourceLimitReached "controller_pending" limit), e, slot)
      | .ok indexed =>
        match indexed.operations.capacity.enqueue pending.id with
        | .error limit =>
          (.error (.resourceLimitReached "controller_admission" limit), indexed.removeCapacity pending.id, slot)
        | .ok pump => (.ok (), indexed.setPump pump, (slot.beginAdmission pending.id obs.now).2)
    else (.error error, e, slot)

/-- A candidate whose handoff failed is reported and resolved. -/
def rejectCandidate (obs : Observed) (e : Engine) (slotName : String) (id : TaskId) (error : RuntimeError) :
    Option TaskOutcome × Engine :=
  let kind := rejectionKindForRuntimeError error
  let reason := "queue_start_failed: " ++ error.display
  (e.publishRejected slotName id kind reason).finalizeRejected obs id kind reason

/-- The loop of `start_next_from_queue` over the rest of an idle slot's queue. -/
def startNextLoop (cfg : ControllerConfig) (obs : Observed) (slotName : String) (phase : SlotPhase) :
    Engine → List PendingSubmission → List (TaskId × Option TaskOutcome) × Engine × SlotState
  | e, [] => ([], e, ⟨phase, []⟩)
  | e, next :: rest =>
    match startInSlot cfg obs (e.unindexQueued next.id) ⟨phase, rest⟩ slotName next with
    | (.ok (), e, slot) =>
      ([], e.publishSubmitted slotName next.id ("started_from_queue depth=" ++ toString slot.queue.length), slot)
    | (.error error, e, _) =>
      let (terminal, e) := rejectCandidate obs e slotName next.id error
      let (deferred, e, slot) := startNextLoop cfg obs slotName phase e rest
      ((next.id, terminal) :: deferred, e, slot)

def startNextFromQueue (cfg : ControllerConfig) (obs : Observed) (e : Engine) (slot : SlotState) (slotName : String) :
    List (TaskId × Option TaskOutcome) × Engine × SlotState :=
  if slot.isIdle then startNextLoop cfg obs slotName slot.phase e slot.queue else ([], e, slot)

inductive PlacementOutcome
  | accepted (displaced : Option (TaskId × Option TaskOutcome))
  | rejected (kind : RejectionKind) (reason : String)
  | handoffFailed (kind : RejectionKind) (reason : String)

/-- The result of one placement method on the locked slot. -/
structure Placed where
  outcome : PlacementOutcome
  engine : Engine
  slot : SlotState
  watcher : AdmissionWatcher

def admittingReason : AdmissionPolicy → String
  | .queue => "admission=Queue status=admitting"
  | .replace => "admission=Replace status=admitting"
  | .dropIfRunning => "admission=DropIfRunning status=admitting"

def admitIdle (cfg : ControllerConfig) (obs : Observed) (e : Engine) (slot : SlotState) (slotName : String)
    (pending : PendingSubmission) (admission : AdmissionPolicy) (watcher : AdmissionWatcher) : Placed :=
  match startInSlot cfg obs e slot slotName pending with
  | (.ok (), e, slot) =>
    ⟨.accepted none, e.publishSubmitted slotName pending.id (admittingReason admission), slot, watcher.commit⟩
  | (.error error, e, slot) =>
    ⟨.handoffFailed (rejectionKindForRuntimeError error) ("add_failed: " ++ error.display), e, slot, watcher⟩

/-- What a replacement does to the owner, and the reason it reports. -/
def retireOwner (obs : Observed) (e : Engine) (slot : SlotState) (slotName : String) : String × Engine × SlotState :=
  let depth := " depth=" ++ toString slot.queue.length
  match slot.phase with
  | .running owner _ =>
    let e := (e.trackRemoval owner slotName).publishTransition slotName "running→terminating (replace)"
    ("admission=Replace" ++ depth, e, (slot.requestReplacement obs.now).2)
  | .admitting _ _ =>
    ("admission=Replace status=admitting" ++ depth,
      e.publishTransition slotName "admitting→terminating (replace)", (slot.requestReplacement obs.now).2)
  | _ => ("admission=Replace status=terminating" ++ depth, e, slot)

def replace (cfg : ControllerConfig) (obs : Observed) (e : Engine) (slot : SlotState) (slotName : String)
    (pending : PendingSubmission) (watcher : AdmissionWatcher) : Placed :=
  match e.tryReplaceHeadOrPush cfg obs slot slotName pending with
  | none => ⟨.rejected .resourceLimit (e.pendingLimitReason cfg), e, slot, watcher⟩
  | some (displaced, e, slot) =>
    let (reason, e, slot) := retireOwner obs e slot slotName
    ⟨.accepted displaced, e.publishSubmitted slotName pending.id reason, slot, watcher.commit⟩

def queue (cfg : ControllerConfig) (e : Engine) (slot : SlotState) (slotName : String)
    (pending : PendingSubmission) (watcher : AdmissionWatcher) : Placed :=
  match Engine.queueFullReason cfg slot.queue.length with
  | some reason => ⟨.rejected .queueFull reason, e, slot, watcher⟩
  | none =>
    match e.tryPushQueued cfg slot slotName pending with
    | none => ⟨.rejected .resourceLimit (e.pendingLimitReason cfg), e, slot, watcher⟩
    | some (e, slot) =>
      ⟨.accepted none,
        e.publishSubmitted slotName pending.id ("admission=Queue depth=" ++ toString slot.queue.length), slot,
        watcher.commit⟩

def busyReason (slot : SlotState) : String := Reasons.dropIfRunning ++ " (" ++ slot.statusLabel ++ ")"

def rejectBusy (e : Engine) (slot : SlotState) (watcher : AdmissionWatcher) : Placed :=
  ⟨.rejected .slotBusy (busyReason slot), e, slot, watcher⟩

/-- `SlotPlacement::apply`. -/
def apply (cfg : ControllerConfig) (obs : Observed) (e : Engine) (slot : SlotState) (slotName : String)
    (pending : PendingSubmission) (admission : AdmissionPolicy) (watcher : AdmissionWatcher) : Placed :=
  if slot.isIdle then admitIdle cfg obs e slot slotName pending admission watcher
  else match admission with
    | .replace => replace cfg obs e slot slotName pending watcher
    | .queue => queue cfg e slot slotName pending watcher
    | .dropIfRunning => rejectBusy e slot watcher

def busyRejection (cfg : ControllerConfig) (slot : SlotState) (admission : AdmissionPolicy) :
    Option (RejectionKind × String) :=
  if slot.isIdle then none
  else match admission with
    | .queue => (Engine.queueFullReason cfg slot.queue.length).map fun reason => (.queueFull, reason)
    | .dropIfRunning => some (.slotBusy, busyReason slot)
    | .replace => none

/-- The awaits of `handle_submission` at which its future can be dropped. -/
inductive AwaitPoint
  | preflight
  | placement
deriving DecidableEq

/-- The preflight of an explicit slot: its rejection, or `none` to go on. The
lock is awaited only when that slot exists. -/
def explicitSlotRejection (cfg : ControllerConfig) (obs : Observed) (e : Engine) (sub : Submission) :
    Option (RejectionKind × String) :=
  match sub.slotOverride.bind fun name => e.state.slots.lookup name with
  | none => none
  | some slot =>
    if obs.shutdown 1 then some (.controllerShuttingDown, Reasons.controllerShuttingDown)
    else busyRejection cfg slot sub.admission

def awaitsPreflight (e : Engine) (sub : Submission) : Bool :=
  (sub.slotOverride.bind fun name => e.state.slots.lookup name).isSome

/-- The locked part of `handle_submission`. -/
def placeSubmission (cfg : ControllerConfig) (obs : Observed) (e : Engine) (slot : SlotState) (slotName : String)
    (pending : PendingSubmission) (admission : AdmissionPolicy) (watcher : AdmissionWatcher) :
    Engine × AdmissionWatcher :=
  if obs.shutdown 2 then
    let (terminal, e, watcher) :=
      watcher.rejectWithEvent obs e .controllerShuttingDown Reasons.controllerShuttingDown
    ((e.gcIfIdle slotName slot).dispose pending.id terminal, watcher)
  else
    let placed := apply cfg obs e slot slotName pending admission watcher
    match placed.outcome with
    | .accepted displaced => ((placed.engine.putSlot slotName placed.slot).disposeAll displaced.toList, placed.watcher)
    | .rejected kind reason =>
      let (terminal, e, watcher) := placed.watcher.rejectWithEvent obs placed.engine kind reason
      ((e.putSlot slotName placed.slot).dispose pending.id terminal, watcher)
    | .handoffFailed kind reason =>
      let (terminal, e, watcher) := placed.watcher.rejectWithEvent obs placed.engine kind reason
      ((e.gcIfIdle slotName placed.slot).dispose pending.id terminal, watcher)

/-- `handle_submission` up to the end of its scope, where the guard drops. -/
def submissionBody (cfg : ControllerConfig) (obs : Observed) (cut : Option AwaitPoint) (e : Engine)
    (sub : Submission) : Engine × AdmissionWatcher :=
  let slotName := sub.slotName
  let watcher := AdmissionWatcher.new sub.id sub.done (some slotName)
  if !obs.supervisor 0 then
    (watcher.rejectWithEvent obs e .admissionFailed Reasons.controllerAdmissionInterrupted).2
  else if obs.shutdown 0 then
    (watcher.rejectWithEvent obs e .controllerShuttingDown Reasons.controllerShuttingDown).2
  else if awaitsPreflight e sub && decide (cut = some .preflight) then (e, watcher)
  else match explicitSlotRejection cfg obs e sub with
    | some (kind, reason) => (watcher.rejectWithEvent obs e kind reason).2
    | none =>
      let (pending, watcher) := watcher.takePending sub.taskName
      let (e, watcher) := watcher.park e
      match e.tryGetOrCreateSlot cfg slotName with
      | .error limit =>
        let reason := Reasons.controllerSlotLimit ++ ": " ++ toString limit
        let (terminal, e, watcher) := watcher.rejectWithEvent obs e .resourceLimit reason
        (e.dispose pending.id terminal, watcher)
      | .ok (slot, e) =>
        if cut = some .placement then (e.dispose pending.id none, watcher)
        else placeSubmission cfg obs e slot slotName pending sub.admission watcher

def handleSubmission (cfg : ControllerConfig) (obs : Observed) (cut : Option AwaitPoint) (e : Engine)
    (sub : Submission) : Engine :=
  let (e, watcher) := submissionBody cfg obs cut e sub
  watcher.drop obs e

/-- `claim_capacity_pending`. -/
def claimCapacityPending (e : Engine) (id : TaskId) : Option (CapacityPending × Option OutcomeTx × Engine) :=
  match e.state.capacityPending.lookup id with
  | none => none
  | some waiting => some (waiting, e.state.watchers.lookup id, (e.removeCapacity id).removeWatcher id)

def rejectClaimedCapacity (obs : Observed) (e : Engine) (id : TaskId) (waiting : CapacityPending)
    (done : Option OutcomeTx) (kind : RejectionKind) (reason : String) : Engine :=
  let (terminal, e) := (e.publishRejected waiting.slotName id kind reason).sendRejected obs id done kind reason
  e.dispose waiting.pending.id terminal

/-- The stale fallback of a capacity result. -/
def interruptCapacity (obs : Observed) (e : Engine) (id : TaskId) : Engine :=
  match claimCapacityPending e id with
  | some (waiting, done, e) =>
    rejectClaimedCapacity obs e id waiting done .admissionFailed Reasons.controllerAdmissionInterrupted
  | none => e

/-- The owner is gone: the slot moves on when the runtime is still there. -/
def advance (cfg : ControllerConfig) (obs : Observed) (e : Engine) (slot : SlotState) (slotName : String)
    (goesOn : Bool) : List (TaskId × Option TaskOutcome) × Engine × SlotState :=
  if goesOn then startNextFromQueue cfg obs e slot slotName else ([], e, slot)

/-- A claimed waiter could not be committed: its owner is rejected and the
slot advances. -/
def failCapacity (cfg : ControllerConfig) (obs : Observed) (e : Engine) (slot : SlotState) (slotName : String)
    (id : TaskId) (done : Option OutcomeTx) (error : RuntimeError) : Engine :=
  let e := e.restoreWatcher id done
  let shuttingDown := decide (error = .shuttingDown)
  let kind := if shuttingDown then .controllerShuttingDown else rejectionKindForRuntimeError error
  let reason := if shuttingDown then Reasons.controllerShuttingDown else "add_failed: " ++ error.display
  let (terminal, e) := (e.publishRejected slotName id kind reason).finalizeRejected obs id kind reason
  let slot := (slot.rejectAdmission id).2
  let (deferred, e, slot) :=
    advance cfg obs e slot slotName (!shuttingDown && !obs.shutdown 0 && obs.supervisor 1)
  ((e.gcIfIdle slotName slot).dispose id terminal).disposeAll deferred

/-- The commit of a reserved Add: a permit, a live supervisor and an open gate. -/
def commitReserved (obs : Observed) (decision : Except RuntimeError Unit) : Except RuntimeError Unit :=
  match decision with
  | .error error => .error error
  | .ok () => if obs.supervisor 0 && obs.gateOpen then .ok () else .error .shuttingDown

def handleRegistryCapacityResult (cfg : ControllerConfig) (obs : Observed) (e : Engine) (id : TaskId)
    (decision : Except RuntimeError Unit) : Engine :=
  match e.state.capacityPending.lookup id with
  | none => e
  | some entry =>
    match e.state.slots.lookup entry.slotName with
    | none => interruptCapacity obs e id
    | some slot =>
      if slot.ownerId ≠ some id then interruptCapacity obs e id
      else match claimCapacityPending e id with
        | none => e
        | some (waiting, done, e) =>
          match commitReserved obs decision with
          | .ok () => (e.hand waiting.pending done).trackAdmission id entry.slotName
          | .error error => failCapacity cfg obs e slot entry.slotName id done error

/-- `handle_registry_decision`; the decision carries no data besides its side. -/
def handleAdmissionResult (cfg : ControllerConfig) (obs : Observed) (e : Engine) (id : TaskId) (slotName : String)
    (accepted : Bool) : Engine :=
  match e.state.slots.lookup slotName with
  | none => e
  | some slot =>
    if accepted then
      match slot.confirmAdmission id obs.now with
      | (.running, slot) =>
        ((e.trackCompletion id slotName).publishTransition slotName "admitting→running").putSlot slotName slot
      | (.removeNow owner, slot) =>
        let e := (e.trackCompletion id slotName).putSlot slotName slot
        if obs.supervisor 0 then e.trackRemoval owner slotName else e
      | (.stale, _) => e
    else
      match slot.rejectAdmission id with
      | (false, _) => e
      | (true, slot) =>
        let (deferred, e, slot) := advance cfg obs e slot slotName (!obs.shutdown 0 && obs.supervisor 0)
        (e.gcIfIdle slotName slot).disposeAll deferred

def handleCompletionResult (cfg : ControllerConfig) (obs : Observed) (e : Engine) (id : TaskId) (slotName : String) :
    Engine :=
  if !obs.supervisor 0 then e
  else match e.state.slots.lookup slotName with
    | none => e
    | some slot =>
      match slot.completeOwner id with
      | (false, _) => e
      | (true, slot) =>
        let (deferred, e, slot) := advance cfg obs e slot slotName (!obs.shutdown 0)
        (e.gcIfIdle slotName slot).disposeAll deferred

def handleRemovalResult (e : Engine) (id : TaskId) (slotName : String) (decision : Except RuntimeError Bool) : Engine :=
  match e.state.slots.lookup slotName with
  | none => e
  | some slot =>
    if slot.ownerId ≠ some id then e
    else match decision with
      | .ok _ => e
      | .error error =>
        e.publish ⟨.runtimeFailure, some "controller", some id, none,
          some ("remove_failed slot=" ++ slotName ++ ": " ++ error.display)⟩

end Taskvisor.Controller.Admission
