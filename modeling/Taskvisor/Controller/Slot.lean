import Taskvisor.Runtime.Base

namespace Taskvisor.Controller.Slot

open Runtime.Base

/-- A task the controller owns while it waits for registry admission. The
reserved cleanup ownership goes with the identity. -/
structure PendingSubmission where
  id : TaskId
  taskName : String
deriving DecidableEq

inductive SlotPhase
  | idle
  | admitting (owner : TaskId) (since : Instant)
  | cancelPendingAdmission (owner : TaskId) (requestedAt : Instant)
  | running (owner : TaskId) (startedAt : Instant)
  | terminating (owner : TaskId) (requestedAt : Instant)
deriving DecidableEq

structure SlotState where
  phase : SlotPhase
  queue : List PendingSubmission
deriving DecidableEq

inductive ReplaceAction
  | removeNow (owner : TaskId)
  | waitForAdmission
  | alreadyRequested
  | idle
deriving DecidableEq

inductive AdmissionTransition
  | running
  | removeNow (owner : TaskId)
  | stale
deriving DecidableEq

namespace SlotPhase

def ownerId : SlotPhase → Option TaskId
  | .idle => none
  | .admitting owner _ => some owner
  | .cancelPendingAdmission owner _ => some owner
  | .running owner _ => some owner
  | .terminating owner _ => some owner

def label : SlotPhase → String
  | .idle => "idle"
  | .admitting _ _ => "admitting"
  | .running _ _ => "running"
  | .cancelPendingAdmission _ _ => "terminating"
  | .terminating _ _ => "terminating"

/-- The owner whose Add has not been decided. -/
def undecided : SlotPhase → Option TaskId
  | .admitting owner _ => some owner
  | .cancelPendingAdmission owner _ => some owner
  | _ => none

/-- The owner the registry has accepted. -/
def accepted : SlotPhase → Option TaskId
  | .running owner _ => some owner
  | .terminating owner _ => some owner
  | _ => none

end SlotPhase

namespace SlotState

def new : SlotState := ⟨.idle, []⟩

def ownerId (slot : SlotState) : Option TaskId := slot.phase.ownerId

def isIdle (slot : SlotState) : Bool := decide (slot.phase = .idle)

def statusLabel (slot : SlotState) : String := slot.phase.label

def beginAdmission (slot : SlotState) (owner : TaskId) (since : Instant) : Bool × SlotState :=
  if slot.isIdle then (true, { slot with phase := .admitting owner since }) else (false, slot)

def requestReplacement (slot : SlotState) (requestedAt : Instant) : ReplaceAction × SlotState :=
  match slot.phase with
  | .idle => (.idle, slot)
  | .admitting owner _ => (.waitForAdmission, { slot with phase := .cancelPendingAdmission owner requestedAt })
  | .running owner _ => (.removeNow owner, { slot with phase := .terminating owner requestedAt })
  | .cancelPendingAdmission _ _ => (.alreadyRequested, slot)
  | .terminating _ _ => (.alreadyRequested, slot)

def confirmAdmission (slot : SlotState) (owner : TaskId) (startedAt : Instant) : AdmissionTransition × SlotState :=
  match slot.phase with
  | .admitting current _ =>
    if current = owner then (.running, { slot with phase := .running owner startedAt }) else (.stale, slot)
  | .cancelPendingAdmission current requestedAt =>
    if current = owner then (.removeNow owner, { slot with phase := .terminating owner requestedAt })
    else (.stale, slot)
  | _ => (.stale, slot)

def rejectAdmission (slot : SlotState) (owner : TaskId) : Bool × SlotState :=
  match slot.phase with
  | .admitting current _ => if current = owner then (true, { slot with phase := .idle }) else (false, slot)
  | .cancelPendingAdmission current _ => if current = owner then (true, { slot with phase := .idle }) else (false, slot)
  | _ => (false, slot)

def completeOwner (slot : SlotState) (owner : TaskId) : Bool × SlotState :=
  match slot.phase with
  | .running current _ => if current = owner then (true, { slot with phase := .idle }) else (false, slot)
  | .terminating current _ => if current = owner then (true, { slot with phase := .idle }) else (false, slot)
  | _ => (false, slot)

variable {slot : SlotState} {id : TaskId} {now : Instant}

theorem isIdle_iff : slot.isIdle = true ↔ slot.phase = .idle := by simp [isIdle]

theorem beginAdmission_of_idle (h : slot.phase = .idle) :
    slot.beginAdmission id now = (true, { slot with phase := .admitting id now }) := by
  simp [beginAdmission, isIdle, h]

/-- The only effect of a rejection is to clear an undecided owner. -/
theorem rejectAdmission_eq (slot : SlotState) (id : TaskId) :
    slot.rejectAdmission id =
      if slot.phase.undecided = some id then (true, { slot with phase := .idle }) else (false, slot) := by
  cases hp : slot.phase <;> simp [rejectAdmission, SlotPhase.undecided, hp]

theorem completeOwner_eq (slot : SlotState) (id : TaskId) :
    slot.completeOwner id =
      if slot.phase.accepted = some id then (true, { slot with phase := .idle }) else (false, slot) := by
  cases hp : slot.phase <;> simp [completeOwner, SlotPhase.accepted, hp]

theorem ownerId_of_undecided (h : slot.phase.undecided = some id) : slot.ownerId = some id := by
  cases hp : slot.phase <;> simp_all [ownerId, SlotPhase.ownerId, SlotPhase.undecided]

theorem ownerId_of_accepted (h : slot.phase.accepted = some id) : slot.ownerId = some id := by
  cases hp : slot.phase <;> simp_all [ownerId, SlotPhase.ownerId, SlotPhase.accepted]

theorem ownerId_cases (h : slot.ownerId = some id) :
    slot.phase.undecided = some id ∨ slot.phase.accepted = some id := by
  cases hp : slot.phase <;> simp_all [ownerId, SlotPhase.ownerId, SlotPhase.undecided, SlotPhase.accepted]

theorem ownerId_eq_none_iff : slot.ownerId = none ↔ slot.phase = .idle := by
  cases hp : slot.phase <;> simp [ownerId, SlotPhase.ownerId, hp]

/-- A confirmation or a replacement keeps the owner and the queue. -/
theorem confirmAdmission_owner (slot : SlotState) (id : TaskId) (now : Instant) :
    (slot.confirmAdmission id now).2.ownerId = slot.ownerId ∧ (slot.confirmAdmission id now).2.queue = slot.queue := by
  cases hp : slot.phase with
  | admitting current since =>
      by_cases hc : current = id <;> simp [confirmAdmission, ownerId, SlotPhase.ownerId, hp, hc]
  | cancelPendingAdmission current requestedAt =>
      by_cases hc : current = id <;> simp [confirmAdmission, ownerId, SlotPhase.ownerId, hp, hc]
  | _ => simp [confirmAdmission, ownerId, hp]

theorem requestReplacement_owner (slot : SlotState) (now : Instant) :
    (slot.requestReplacement now).2.ownerId = slot.ownerId ∧ (slot.requestReplacement now).2.queue = slot.queue := by
  cases hp : slot.phase <;> simp [requestReplacement, ownerId, SlotPhase.ownerId, hp]

end SlotState

end Taskvisor.Controller.Slot
