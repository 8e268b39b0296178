import Taskvisor.Controller.Abstract

namespace Taskvisor.Controller.Bridge

open Lib Runtime.Base Slot State Admission Abstract

variable (e : Engine) (id : TaskId) (name : String)

theorem lookup_insert_update {α β : Type} [DecidableEq α] (s : Table α β) (a : α) (b : β) :
    (fun c => (s.insert a b).lookup c) = Function.update (fun c => s.lookup c) a (some b) := by
  funext c
  rw [Table.lookup_insert_ite, Function.update_apply]

theorem lookup_erase_update {α β : Type} [DecidableEq α] (s : Table α β) (a : α) :
    (fun c => (s.erase a).lookup c) = Function.update (fun c => s.lookup c) a none := by
  funext c
  rw [Table.lookup_erase_ite, Function.update_apply]

@[simp] theorem board_putSlot (slot : SlotState) : board (e.putSlot name slot) = (board e).setSlot name (some slot) := by
  ext1 <;> first | exact lookup_insert_update _ _ _ | rfl

@[simp] theorem board_removeSlot : board (e.removeSlot name) = (board e).setSlot name none := by
  ext1 <;> first | exact lookup_erase_update _ _ | rfl

@[simp] theorem board_indexQueued : board (e.indexQueued id name) = (board e).setQueued id (some name) := by
  ext1 <;> first | exact lookup_insert_update _ _ _ | rfl

@[simp] theorem board_unindexQueued : board (e.unindexQueued id) = (board e).setQueued id none := by
  ext1 <;> first | exact lookup_erase_update _ _ | rfl

@[simp] theorem board_insertWatcher (tx : OutcomeTx) : board (e.insertWatcher id tx) = (board e).setWatcher id (some tx) := by
  ext1 <;> first | exact lookup_insert_update _ _ _ | rfl

@[simp] theorem board_removeWatcher : board (e.removeWatcher id) = (board e).setWatcher id none := by
  ext1 <;> first | exact lookup_erase_update _ _ | rfl

@[simp] theorem board_insertCapacity (pending : CapacityPending) :
    board (e.insertCapacity id pending) = (board e).setCapacity id (some pending) := by
  ext1 <;> first | exact lookup_insert_update _ _ _ | rfl

@[simp] theorem board_removeCapacity : board (e.removeCapacity id) = (board e).setCapacity id none := by
  ext1 <;> first | exact lookup_erase_update _ _ | rfl

@[simp] theorem board_setPump (pump : CapacityAdmissionPump) : board (e.setPump pump) = (board e).setPump pump := rfl

@[simp] theorem board_dispose (terminal : Option TaskOutcome) : board (e.dispose id terminal) = board e := rfl

@[simp] theorem board_disposeAll (deferred : List (TaskId × Option TaskOutcome)) : board (e.disposeAll deferred) = board e :=
  rfl

@[simp] theorem board_reply (target : IdentityReply) (result : Except RuntimeError Bool) :
    board (e.reply target result) = board e := rfl

@[simp] theorem board_hand_track (pending : PendingSubmission) (done : Option OutcomeTx) :
    board ((e.hand pending done).trackAdmission id name) =
      { board e with
        handed := (board e).handed ++ [⟨pending.id, pending.taskName, done⟩]
        admissions := (board e).admissions ++ [(id, name)] } := rfl

@[simp] theorem board_trackCompletion : board (e.trackCompletion id name) =
    { board e with completions := (board e).completions ++ [(id, name)] } := rfl

@[simp] theorem board_trackRemoval : board (e.trackRemoval id name) =
    { board e with removals := (board e).removals ++ [(id, name)] } := rfl

/-- Only a rejection event shows on the board. -/
theorem board_publish {event : Event} (h : rejection? event = none) : board (e.publish event) = board e := by
  ext1 <;> simp [board, Engine.publish, h]

@[simp] theorem board_publishSubmitted (reason : String) : board (e.publishSubmitted name id reason) = board e :=
  board_publish e rfl

@[simp] theorem board_publishTransition (reason : String) : board (e.publishTransition name reason) = board e :=
  board_publish e rfl

@[simp] theorem board_removeRequested (reason : Option String) :
    board (Driver.removeRequested e name id reason) = board e := board_publish e rfl

theorem board_publish_rejection (task : Option String) (kind : RejectionKind) (reason : String) :
    board (e.publish ⟨.controllerRejected, task, some id, some kind, some reason⟩) = (board e).note id kind reason := by
  ext1 <;> simp [board, Engine.publish, Board.note, rejection?]

@[simp] theorem board_publishRejected (kind : RejectionKind) (reason : String) :
    board (e.publishRejected name id kind reason) = (board e).note id kind reason :=
  board_publish_rejection e id (some name) kind reason

@[simp] theorem board_sendRejected (obs : Observed) (done : Option OutcomeTx) (kind : RejectionKind) (reason : String) :
    board (e.sendRejected obs id done kind reason).2 = (board e).send id done kind reason := by
  cases done with
  | none => ext1 <;> simp [board, Engine.sendRejected, Board.send]
  | some tx => rfl

@[simp] theorem board_finalizeRejected (obs : Observed) (kind : RejectionKind) (reason : String) :
    board (e.finalizeRejected obs id kind reason).2 =
      ((board e).send id ((board e).watcher id) kind reason).setWatcher id none := by
  rw [Engine.finalizeRejected]
  split
  · next hw =>
    have hw : (board e).watcher id = none := hw
    rw [hw]
    ext1 <;> simp [Board.send, Board.setWatcher, ← hw]
  · next tx hw =>
    have hw : (board e).watcher id = some tx := hw
    rw [board_sendRejected, board_removeWatcher, hw]
    rfl

@[simp] theorem board_restoreWatcher (done : Option OutcomeTx) (h : (board e).watcher id = none) :
    board (e.restoreWatcher id done) = (board e).setWatcher id done := by
  cases done with
  | none =>
      ext1 <;> simp [Engine.restoreWatcher, Board.setWatcher, ← h]
  | some tx => exact board_insertWatcher e id tx

/-- Taking the sender out and putting it back leaves the board as it was. -/
theorem board_takeRestore :
    board ((e.removeWatcher id).restoreWatcher id (e.state.watchers.lookup id)) = board e := by
  rw [board_restoreWatcher _ _ _ (by simp [Board.setWatcher]), board_removeWatcher]
  ext1 <;> simp [Board.setWatcher, board]

section Rejecting

variable {b : Board} (kind : RejectionKind) (reason : String)

@[simp] theorem board_publishFinalize (obs : Observed) :
    board ((e.publishRejected name id kind reason).finalizeRejected obs id kind reason).2 =
      (board e).rejectParked id kind reason := by
  rw [board_finalizeRejected, board_publishRejected]
  rfl

theorem rejectParked_park {done : Option OutcomeTx} (h : b.watcher id = none) :
    (b.setWatcher id done).rejectParked id kind reason = b.reject id done kind reason := by
  ext1 <;> simp [Board.rejectParked, Board.reject, Board.setWatcher, Board.note, Board.send, ← h]

theorem rejectParked_setWatcher (done : Option OutcomeTx) {other : TaskId} (hne : other ≠ id) :
    (b.setWatcher id done).rejectParked other kind reason = (b.rejectParked other kind reason).setWatcher id done := by
  ext1
  all_goals simp [Board.rejectParked, Board.reject, Board.setWatcher, Board.note, Board.send, hne]
  exact Function.update_comm hne.symm _ _ _

end Rejecting

theorem setSlot_self {b : Board} {slot : SlotState} (h : b.slot name = some slot) : b.setSlot name (some slot) = b := by
  ext1 <;> simp [Board.setSlot, ← h]

theorem setWatcher_free {b : Board} (h : b.watcher id = none) : b.setWatcher id none = b := by
  ext1 <;> simp [Board.setWatcher, ← h]

theorem setSlot_setSlot {b : Board} (s t : Option SlotState) : (b.setSlot name s).setSlot name t = b.setSlot name t := by
  ext1 <;> simp [Board.setSlot]

end Taskvisor.Controller.Bridge
