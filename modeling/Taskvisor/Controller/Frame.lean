import Taskvisor.Controller.Driver

namespace Taskvisor.Controller.Frame

open Lib Runtime.Base Slot State Admission Driver

/-- What a rejection leaves alone. It publishes, resolves a watcher and
disposes of a task. -/
structure Books where
  slots : Table String SlotState
  queuedSlots : Table TaskId String
  capacityPending : Table TaskId CapacityPending
  operations : TrackedOperations
  handed : List Handoff
  replied : List (IdentityReply × Except RuntimeError Bool)

def books (e : Engine) : Books :=
  ⟨e.state.slots, e.state.queuedSlots, e.state.capacityPending, e.operations, e.handed, e.replied⟩

section Rejections

variable (e : Engine) (obs : Observed) (id : TaskId) (done : Option OutcomeTx) (kind : RejectionKind) (reason : String)

@[simp] theorem books_sendRejected : books (e.sendRejected obs id done kind reason).2 = books e := by cases done <;> rfl

@[simp] theorem books_finalizeRejected : books (e.finalizeRejected obs id kind reason).2 = books e := by
  rw [Engine.finalizeRejected]
  split
  · rfl
  · exact books_sendRejected ..

@[simp] theorem books_restoreWatcher : books (e.restoreWatcher id done) = books e := by cases done <;> rfl

@[simp] theorem books_rejectWithEvent (watcher : AdmissionWatcher) :
    books (watcher.rejectWithEvent obs e kind reason).2.1 = books e := by
  rw [AdmissionWatcher.rejectWithEvent]
  split
  · rfl
  cases hstate : watcher.state with
  | localGuard done =>
      cases done with
      | none =>
          simp only [AdmissionWatcher.reject, hstate]
          split <;> rfl
      | some tx =>
          simp only [AdmissionWatcher.reject, hstate]
          split <;> rfl
  | parked =>
      simp only [AdmissionWatcher.reject, hstate]
      split <;> exact books_finalizeRejected ..
  | committed =>
      simp only [AdmissionWatcher.reject, hstate]
      split <;> rfl

@[simp] theorem books_drop (watcher : AdmissionWatcher) : books (watcher.drop obs e) = books e := by
  rw [AdmissionWatcher.drop]
  split
  · rfl
  · exact books_rejectWithEvent ..

@[simp] theorem books_park (watcher : AdmissionWatcher) : books (watcher.park e).1 = books e := by
  rw [AdmissionWatcher.park.eq_def]
  split <;> rfl

@[simp] theorem books_rejectCandidate (name : String) (error : RuntimeError) :
    books (rejectCandidate obs e name id error).2 = books e := books_finalizeRejected ..

theorem books_handleRemovalResult (name : String) (decision : Except RuntimeError Bool) :
    books (handleRemovalResult e id name decision) = books e := by
  rw [handleRemovalResult.eq_def]
  split
  · rfl
  split
  · rfl
  split <;> rfl

theorem books_takeRestore : books ((e.removeWatcher id).restoreWatcher id done) = books e := books_restoreWatcher ..

end Rejections

section Handoff

variable (cfg : ControllerConfig) (obs : Observed)

theorem tryIndexCapacityPending_ok {cfg : ControllerConfig} {e e' : Engine} {id : TaskId} {entry : CapacityPending}
    (h : e.tryIndexCapacityPending cfg id entry = .ok e') : e' = e.insertCapacity id entry := by
  rw [Engine.tryIndexCapacityPending] at h
  split at h
  · split at h
    · cases h
    · exact (Except.ok.inj h).symm
  · exact (Except.ok.inj h).symm

/-- A handoff leaves the slots and the removals to its caller. -/
theorem startInSlot_frame (e : Engine) (slot : SlotState) (name : String) (pending : PendingSubmission) :
    (startInSlot cfg obs e slot name pending).2.1.state.slots = e.state.slots ∧
      (startInSlot cfg obs e slot name pending).2.1.operations.removals = e.operations.removals ∧
      (startInSlot cfg obs e slot name pending).2.2.queue = slot.queue := by
  have hbegin : (slot.beginAdmission pending.id obs.now).2.queue = slot.queue := by
    rw [SlotState.beginAdmission]
    split <;> rfl
  have hbooks := books_takeRestore e pending.id (e.state.watchers.lookup pending.id)
  set restored := (e.removeWatcher pending.id).restoreWatcher pending.id (e.state.watchers.lookup pending.id) with hr
  have hslots : restored.state.slots = e.state.slots := congrArg Books.slots hbooks
  have hremovals : restored.operations.removals = e.operations.removals :=
    congrArg (fun b : Books => b.operations.removals) hbooks
  cases hoffer : obs.offer pending.id with
  | ok _ =>
      simp only [startInSlot, hoffer]
      exact ⟨rfl, rfl, hbegin⟩
  | error error =>
      by_cases hfull : error = .commandQueueFull
      · simp only [startInSlot, hoffer, if_pos hfull, ← hr]
        cases hindex : restored.tryIndexCapacityPending cfg pending.id ⟨name, pending⟩ with
        | error limit => exact ⟨hslots, hremovals, rfl⟩
        | ok indexed =>
            obtain rfl := tryIndexCapacityPending_ok hindex
            cases henq : (restored.insertCapacity pending.id ⟨name, pending⟩).operations.capacity.enqueue pending.id with
            | error limit =>
                simp only [henq]
                exact ⟨hslots, hremovals, trivial⟩
            | ok pump =>
                simp only [henq]
                exact ⟨hslots, hremovals, hbegin⟩
      · simp only [startInSlot, hoffer, if_neg hfull, ← hr]
        exact ⟨hslots, hremovals, trivial⟩

theorem startInSlot_admitting {e e' : Engine} {slot slot' : SlotState} {name : String} {pending : PendingSubmission}
    (hidle : slot.phase = .idle) (h : startInSlot cfg obs e slot name pending = (.ok (), e', slot')) :
    slot' = { slot with phase := .admitting pending.id obs.now } := by
  have hbegin : slot.beginAdmission pending.id obs.now = (true, { slot with phase := .admitting pending.id obs.now }) :=
    SlotState.beginAdmission_of_idle hidle
  simp only [startInSlot, hbegin] at h
  repeat' split at h
  all_goals
    obtain ⟨hok, h⟩ := Prod.mk.inj h
    first | exact (Prod.mk.inj h).2.symm | cases hok

theorem startInSlot_failed {e e' : Engine} {slot slot' : SlotState} {name : String} {pending : PendingSubmission}
    {error : RuntimeError} (h : startInSlot cfg obs e slot name pending = (.error error, e', slot')) : slot' = slot := by
  simp only [startInSlot] at h
  repeat' split at h
  all_goals
    obtain ⟨hok, h⟩ := Prod.mk.inj h
    first | exact (Prod.mk.inj h).2.symm | cases hok

/-- The promotion leaves a spent slot or a candidate in admission. -/
theorem startNextLoop_frame (name : String) (queue : List PendingSubmission) (e : Engine) :
    (startNextLoop cfg obs name .idle e queue).2.1.state.slots = e.state.slots ∧
      (startNextLoop cfg obs name .idle e queue).2.1.operations.removals = e.operations.removals ∧
      ((startNextLoop cfg obs name .idle e queue).2.2 = ⟨.idle, []⟩ ∨ ∃ next ∈ queue, ∃ rest,
        (startNextLoop cfg obs name .idle e queue).2.2 = ⟨.admitting next.id obs.now, rest⟩) := by
  induction queue generalizing e with
  | nil => exact ⟨rfl, rfl, .inl rfl⟩
  | cons next rest ih =>
      obtain ⟨hslots, hremovals, -⟩ := startInSlot_frame cfg obs (e.unindexQueued next.id) ⟨.idle, rest⟩ name next
      rcases heq : startInSlot cfg obs (e.unindexQueued next.id) ⟨.idle, rest⟩ name next with ⟨result, e', slot⟩
      rw [heq] at hslots hremovals
      cases result with
      | ok _ =>
          simp only [startNextLoop, heq]
          exact ⟨hslots, hremovals, .inr ⟨next, List.mem_cons_self, rest, startInSlot_admitting cfg obs rfl heq⟩⟩
      | error error =>
          have hbooks := books_rejectCandidate e' obs next.id name error
          obtain ⟨hs, hr, hslot⟩ := ih (rejectCandidate obs e' name next.id error).2
          simp only [startNextLoop, heq]
          refine ⟨hs.trans ((congrArg Books.slots hbooks).trans hslots), ?_, ?_⟩
          · exact hr.trans ((congrArg (fun b : Books => b.operations.removals) hbooks).trans hremovals)
          · refine hslot.imp_right ?_
            rintro ⟨found, hfound, more, hmore⟩
            exact ⟨found, List.mem_cons_of_mem _ hfound, more, hmore⟩

end Handoff

section Shutdown

/-- What the engine tracks, and what it has handed over and replied. -/
def given (e : Engine) : TrackedOperations × List Handoff × List (IdentityReply × Except RuntimeError Bool) :=
  (e.operations, e.handed, e.replied)

theorem given_finalizeRejected (obs : Observed) (e : Engine) (id : TaskId) (kind : RejectionKind) (reason : String) :
    given (e.finalizeRejected obs id kind reason).2 = given e := by
  rw [Engine.finalizeRejected]
  split <;> rfl

theorem given_finalizeEntry (obs : Observed) (e : Engine) (name : String) (id : TaskId) :
    given (finalizeEntry obs e name id).2 = given e := given_finalizeRejected ..

theorem given_finalizeCapacity (obs : Observed) (l : List (TaskId × CapacityPending)) (e : Engine) :
    given (finalizeCapacity obs e l).1 = given e := by
  induction l generalizing e with
  | nil => rfl
  | cons entry rest ih => exact (ih _).trans (given_finalizeEntry ..)

theorem given_finalizeQueue (obs : Observed) (name : String) (queue : List PendingSubmission) (e : Engine) :
    given (finalizeQueue obs name e queue).1 = given e := by
  induction queue generalizing e with
  | nil => rfl
  | cons pending rest ih => exact (ih _).trans (given_finalizeEntry obs (e.unindexQueued pending.id) name pending.id)

theorem given_finalizeSlots (obs : Observed) (l : List (String × SlotState)) (e : Engine) :
    given (finalizeSlots obs e l).1 = given e := by
  induction l generalizing e with
  | nil => rfl
  | cons entry rest ih => exact (ih _).trans (given_finalizeQueue ..)

theorem given_finalizeRemainingWatchers (obs : Observed) (l : List TaskId) (e : Engine) :
    given (finalizeRemainingWatchers obs e l) = given e := by
  induction l generalizing e with
  | nil => rfl
  | cons id rest ih => exact (ih _).trans (given_finalizeRejected ..)

theorem given_finalize (obs : Observed) (e : Engine) : given (finalizeSlotStateOnShutdown obs e) = given e := by
  have hcapacity := given_finalizeCapacity obs (pairs e.state.capacityPending)
    { e with state := { e.state with capacityPending := ∅ } }
  exact (given_finalizeRemainingWatchers ..).trans ((given_finalizeSlots ..).trans hcapacity)

theorem finalize_operations (obs : Observed) (e : Engine) :
    (finalizeSlotStateOnShutdown obs e).operations = e.operations := congrArg Prod.fst (given_finalize obs e)

end Shutdown

end Taskvisor.Controller.Frame
