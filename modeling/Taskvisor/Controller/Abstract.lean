import Mathlib.Logic.Relation
import Mathlib.Logic.Function.Basic
import Taskvisor.Controller.Driver

namespace Taskvisor.Controller.Abstract

open Lib Runtime.Base Slot State Admission

def ids (slot : SlotState) : List TaskId := slot.queue.map PendingSubmission.id

def waiting (pump : CapacityAdmissionPump) : List TaskId := pump.active.toList ++ pump.queued

/-- What the controller knows and has given away, with its maps as functions. -/
@[ext]
structure Board where
  slot : String → Option SlotState
  queued : TaskId → Option String
  capacity : TaskId → Option CapacityPending
  watcher : TaskId → Option OutcomeTx
  pump : CapacityAdmissionPump
  admissions : List (TaskId × String)
  completions : List (TaskId × String)
  removals : List (TaskId × String)
  handed : List Handoff
  sent : List (TaskId × OutcomeTx × TaskOutcome)
  rejected : List (TaskId × RejectionKind × String)

def rejection? (event : Event) : Option (TaskId × RejectionKind × String) :=
  match event.kind, event.id, event.rejectionKind, event.reason with
  | .controllerRejected, some id, some kind, some reason => some (id, kind, reason)
  | _, _, _, _ => none

def board (e : Engine) : Board where
  slot := fun name => e.state.slots.lookup name
  queued := fun id => e.state.queuedSlots.lookup id
  capacity := fun id => e.state.capacityPending.lookup id
  watcher := fun id => e.state.watchers.lookup id
  pump := e.operations.capacity
  admissions := e.operations.admissions
  completions := e.operations.completions
  removals := e.operations.removals
  handed := e.handed
  sent := e.sent
  rejected := e.published.filterMap rejection?

namespace Board

def setSlot (b : Board) (name : String) (slot : Option SlotState) : Board :=
  { b with slot := Function.update b.slot name slot }

def setQueued (b : Board) (id : TaskId) (name : Option String) : Board :=
  { b with queued := Function.update b.queued id name }

def setCapacity (b : Board) (id : TaskId) (pending : Option CapacityPending) : Board :=
  { b with capacity := Function.update b.capacity id pending }

def setWatcher (b : Board) (id : TaskId) (tx : Option OutcomeTx) : Board :=
  { b with watcher := Function.update b.watcher id tx }

def setPump (b : Board) (pump : CapacityAdmissionPump) : Board := { b with pump }

def hand (b : Board) (id : TaskId) (taskName slotName : String) (done : Option OutcomeTx) : Board :=
  { b with handed := b.handed ++ [⟨id, taskName, done⟩], admissions := b.admissions ++ [(id, slotName)] }

def note (b : Board) (id : TaskId) (kind : RejectionKind) (reason : String) : Board :=
  { b with rejected := b.rejected ++ [(id, kind, reason)] }

def send (b : Board) (id : TaskId) (done : Option OutcomeTx) (kind : RejectionKind) (reason : String) : Board :=
  { b with sent := b.sent ++ done.toList.map fun tx => (id, tx, .rejected kind reason) }

/-- One rejection: its event, and its outcome when somebody watches. -/
def reject (b : Board) (id : TaskId) (done : Option OutcomeTx) (kind : RejectionKind) (reason : String) : Board :=
  (b.note id kind reason).send id done kind reason

/-- The rejection of an identity whose sender is parked. -/
def rejectParked (b : Board) (id : TaskId) (kind : RejectionKind) (reason : String) : Board :=
  (b.reject id (b.watcher id) kind reason).setWatcher id none

end Board

/-- The controller refers to the identity somewhere or has handed it over. -/
def Known (b : Board) (id : TaskId) : Prop :=
  b.queued id ≠ none ∨ b.capacity id ≠ none ∨ b.watcher id ≠ none ∨ id ∈ b.admissions.map Prod.fst ∨
    id ∈ b.handed.map Handoff.id ∨ ∃ name slot, b.slot name = some slot ∧ slot.ownerId = some id

/-- The fate of a submission the controller has not seen before. -/
inductive Enter (sub : Submission) : Board → Board → Prop
  | turnAway {b : Board} (kind : RejectionKind) (reason : String) : Enter sub b (b.reject sub.id sub.done kind reason)
  | start {b : Board} {slot : SlotState} (now : Instant) (hslot : b.slot sub.slotName = some slot)
      (hidle : slot.phase = .idle) :
      Enter sub b ((b.setSlot sub.slotName (some { slot with phase := .admitting sub.id now })).hand sub.id sub.taskName
        sub.slotName sub.done)
  | wait {b : Board} {slot : SlotState} {pump : CapacityAdmissionPump} (now : Instant)
      (hslot : b.slot sub.slotName = some slot) (hidle : slot.phase = .idle) (hpump : b.pump.enqueue sub.id = .ok pump) :
      Enter sub b ((((b.setSlot sub.slotName (some { slot with phase := .admitting sub.id now })).setCapacity sub.id
        (some ⟨sub.slotName, ⟨sub.id, sub.taskName⟩⟩)).setPump pump).setWatcher sub.id sub.done)
  | append {b : Board} {slot : SlotState} (hslot : b.slot sub.slotName = some slot) (hbusy : slot.phase ≠ .idle) :
      Enter sub b (((b.setSlot sub.slotName (some { slot with queue := slot.queue ++ [⟨sub.id, sub.taskName⟩] })).setQueued
        sub.id (some sub.slotName)).setWatcher sub.id sub.done)
  | displace {b : Board} {slot : SlotState} {head : PendingSubmission} {rest : List PendingSubmission}
      (hslot : b.slot sub.slotName = some slot) (hbusy : slot.phase ≠ .idle) (hqueue : slot.queue = head :: rest) :
      Enter sub b (((((b.setSlot sub.slotName (some { slot with queue := ⟨sub.id, sub.taskName⟩ :: rest })).setQueued
        head.id none).setQueued sub.id (some sub.slotName)).rejectParked head.id .supersededByReplace
          Reasons.supersededByReplace).setWatcher sub.id sub.done)

/-- One change that keeps the controller's books, other than an entry. An owner
is released only when `fin` says that its work is over. -/
inductive Move (fin : TaskId → Prop) : Board → Board → Prop
  | create {b : Board} {name : String} (hslot : b.slot name = none) : Move fin b (b.setSlot name (some .new))
  | collect {b : Board} {name : String} {slot : SlotState} (hslot : b.slot name = some slot) (hidle : slot.phase = .idle)
      (hqueue : slot.queue = []) : Move fin b (b.setSlot name none)
  | retireAdmitting {b : Board} {name : String} {slot : SlotState} {owner : TaskId} {since : Instant} (now : Instant)
      (hslot : b.slot name = some slot) (hphase : slot.phase = .admitting owner since) :
      Move fin b (b.setSlot name (some { slot with phase := .cancelPendingAdmission owner now }))
  | retireRunning {b : Board} {name : String} {slot : SlotState} {owner : TaskId} {since : Instant} (now : Instant)
      (hslot : b.slot name = some slot) (hphase : slot.phase = .running owner since) :
      Move fin b { b.setSlot name (some { slot with phase := .terminating owner now }) with
        removals := b.removals ++ [(owner, name)] }
  | confirmAdmitting {b : Board} {name : String} {slot : SlotState} {owner : TaskId} {since : Instant} (now : Instant)
      (hslot : b.slot name = some slot) (hphase : slot.phase = .admitting owner since)
      (htracked : (owner, name) ∈ b.admissions) :
      Move fin b { b.setSlot name (some { slot with phase := .running owner now }) with
        admissions := b.admissions.erase (owner, name), completions := b.completions ++ [(owner, name)] }
  | confirmCancelled {b : Board} {name : String} {slot : SlotState} {owner : TaskId} {since : Instant} (alive : Bool)
      (hslot : b.slot name = some slot) (hphase : slot.phase = .cancelPendingAdmission owner since)
      (htracked : (owner, name) ∈ b.admissions) :
      Move fin b { b.setSlot name (some { slot with phase := .terminating owner since }) with
        admissions := b.admissions.erase (owner, name), completions := b.completions ++ [(owner, name)]
        removals := b.removals ++ if alive then [(owner, name)] else [] }
  | staleAdmission {b : Board} {id : TaskId} {name : String} (htracked : (id, name) ∈ b.admissions)
      (hstale : ∀ slot, b.slot name = some slot → slot.phase.undecided ≠ some id) :
      Move fin b { b with admissions := b.admissions.erase (id, name) }
  | refuse {b : Board} {name : String} {slot : SlotState} {owner : TaskId} (hslot : b.slot name = some slot)
      (hphase : slot.phase.undecided = some owner) (htracked : (owner, name) ∈ b.admissions) (hfin : fin owner) :
      Move fin b { b.setSlot name (some { slot with phase := .idle }) with admissions := b.admissions.erase (owner, name) }
  | complete {b : Board} {name : String} {slot : SlotState} {owner : TaskId} (hslot : b.slot name = some slot)
      (hphase : slot.phase.accepted = some owner) (htracked : (owner, name) ∈ b.completions) (hfin : fin owner) :
      Move fin b { b.setSlot name (some { slot with phase := .idle }) with completions := b.completions.erase (owner, name) }
  | staleCompletion {b : Board} {id : TaskId} {name : String} (htracked : (id, name) ∈ b.completions) :
      Move fin b { b with completions := b.completions.erase (id, name) }
  | removed {b : Board} {id : TaskId} {name : String} (htracked : (id, name) ∈ b.removals) :
      Move fin b { b with removals := b.removals.erase (id, name) }
  | promote {b : Board} {name : String} {slot : SlotState} {next : PendingSubmission} {rest : List PendingSubmission}
      (now : Instant) (hslot : b.slot name = some slot) (hidle : slot.phase = .idle) (hqueue : slot.queue = next :: rest) :
      Move fin b ((((b.setSlot name (some ⟨.admitting next.id now, rest⟩)).setQueued next.id none).hand next.id next.taskName
        name (b.watcher next.id)).setWatcher next.id none)
  | promoteWait {b : Board} {name : String} {slot : SlotState} {next : PendingSubmission} {rest : List PendingSubmission}
      {pump : CapacityAdmissionPump} (now : Instant) (hslot : b.slot name = some slot) (hidle : slot.phase = .idle)
      (hqueue : slot.queue = next :: rest) (hpump : b.pump.enqueue next.id = .ok pump) :
      Move fin b ((((b.setSlot name (some ⟨.admitting next.id now, rest⟩)).setQueued next.id none).setCapacity next.id
        (some ⟨name, next⟩)).setPump pump)
  | promoteFail {b : Board} {name : String} {slot : SlotState} {next : PendingSubmission} {rest : List PendingSubmission}
      (kind : RejectionKind) (reason : String) (hslot : b.slot name = some slot) (hidle : slot.phase = .idle)
      (hqueue : slot.queue = next :: rest) :
      Move fin b (((b.setSlot name (some ⟨.idle, rest⟩)).setQueued next.id none).rejectParked next.id kind reason)
  | capacityCommit {b : Board} {id : TaskId} {entry : CapacityPending} {pump : CapacityAdmissionPump}
      (hentry : b.capacity id = some entry) (hpump : (waiting b.pump).Perm (id :: waiting pump))
      (hlimit : pump.limit = b.pump.limit) :
      Move fin b ((((b.setCapacity id none).setPump pump).hand entry.pending.id entry.pending.taskName entry.slotName
        (b.watcher id)).setWatcher id none)
  | capacityFail {b : Board} {id : TaskId} {entry : CapacityPending} {slot : SlotState} {pump : CapacityAdmissionPump}
      (kind : RejectionKind) (reason : String) (hentry : b.capacity id = some entry)
      (hpump : (waiting b.pump).Perm (id :: waiting pump)) (hlimit : pump.limit = b.pump.limit)
      (hslot : b.slot entry.slotName = some slot) (hphase : slot.phase.undecided = some id) :
      Move fin b ((((b.setCapacity id none).setPump pump).setSlot entry.slotName (some { slot with phase := .idle })).rejectParked
        id kind reason)
  | removeQueued {b : Board} {name : String} {slot : SlotState} {id : TaskId} (kind : RejectionKind) (reason : String)
      (hslot : b.slot name = some slot) (hid : id ∈ ids slot) :
      Move fin b (((b.setSlot name (some { slot with
        queue := slot.queue.eraseP fun pending => decide (pending.id = id) })).setQueued id none).rejectParked id kind reason)

abbrev Moves (fin : TaskId → Prop) : Board → Board → Prop := Relation.ReflTransGen (Move fin)

end Taskvisor.Controller.Abstract
