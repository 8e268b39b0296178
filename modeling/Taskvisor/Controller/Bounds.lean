import Taskvisor.Controller.Frame
import Taskvisor.Controller.Policy

namespace Taskvisor.Controller.Bounds

open Lib Runtime.Base Slot State Admission Abstract Bridge Coherence Refinement Driver Frame Index Policy

/-- What the limits of the configuration are about. -/
structure Usage where
  slots : Table String SlotState
  pending : Nat
  pump : CapacityAdmissionPump
  identity : Nat

def usage (e : Engine) : Usage :=
  ⟨e.state.slots, e.state.pendingLen, e.operations.capacity, e.operations.identityOperations.length⟩

/-- A replacement may use one place where the slot's own limit is zero. -/
structure Bounded (cfg : ControllerConfig) (u : Usage) : Prop where
  pending : ∀ limit, cfg.maxTotalPending = some limit → u.pending ≤ limit.get
  slots : ∀ limit, cfg.maxControllerSlots = some limit → u.slots.size ≤ limit.get
  queues : ∀ name slot, u.slots.lookup name = some slot → slot.queue.length ≤ max cfg.maxSlotQueue 1
  pump : u.pump.len ≤ cfg.admissionCapacity.get
  limit : u.pump.limit = cfg.admissionCapacity.get
  identity : u.identity ≤ cfg.identityOperationCapacity.get

variable {cfg : ControllerConfig} {obs : Observed} {e : Engine} {slot : SlotState} {name : String} {id : TaskId}
  {pending : PendingSubmission} {pump : CapacityAdmissionPump}

theorem usage_of_books {e' : Engine} (h : books e' = books e) : usage e' = usage e := by
  have hpending : e'.state.pendingLen = e.state.pendingLen :=
    congrArg (fun b : Books => b.queuedSlots.size + b.capacityPending.size) h
  have hoperations : e'.operations = e.operations := congrArg Books.operations h
  have hslots : e'.state.slots = e.state.slots := congrArg Books.slots h
  rw [usage, usage, hpending, hoperations, hslots]

section Rejections

variable (e : Engine) (obs : Observed) (id : TaskId) (done : Option OutcomeTx) (kind : RejectionKind) (reason : String)

@[simp] theorem usage_sendRejected : usage (e.sendRejected obs id done kind reason).2 = usage e :=
  usage_of_books (books_sendRejected ..)

@[simp] theorem usage_finalizeRejected : usage (e.finalizeRejected obs id kind reason).2 = usage e :=
  usage_of_books (books_finalizeRejected ..)

@[simp] theorem usage_restoreWatcher : usage (e.restoreWatcher id done) = usage e :=
  usage_of_books (books_restoreWatcher ..)

@[simp] theorem usage_rejectWithEvent (watcher : AdmissionWatcher) :
    usage (watcher.rejectWithEvent obs e kind reason).2.1 = usage e := usage_of_books (books_rejectWithEvent ..)

@[simp] theorem usage_drop (watcher : AdmissionWatcher) : usage (watcher.drop obs e) = usage e :=
  usage_of_books (books_drop ..)

@[simp] theorem usage_park (watcher : AdmissionWatcher) : usage (watcher.park e).1 = usage e :=
  usage_of_books (books_park ..)

@[simp] theorem usage_retireOwner (slot : SlotState) (name : String) :
    usage (retireOwner obs e slot name).2.1 = usage e := by
  rw [retireOwner.eq_def]
  cases slot.phase <;> rfl

@[simp] theorem usage_rejectCandidate (name : String) (error : RuntimeError) :
    usage (rejectCandidate obs e name id error).2 = usage e := usage_of_books (books_rejectCandidate ..)

end Rejections

namespace Bounded

theorem indexQueued (h : Bounded cfg (usage e)) (hroom : e.pendingFull cfg = false) (id : TaskId) (name : String) :
    Bounded cfg (usage (e.indexQueued id name)) :=
  { h with
    pending := fun limit hlimit => by
      have hsize := Table.size_insert_le e.state.queuedSlots id name
      have hfree : e.state.pendingLen < limit.get := by simpa [Engine.pendingFull, hlimit] using hroom
      simp only [usage, ControllerState.pendingLen, Engine.indexQueued] at hfree ⊢
      omega }

/-- The displaced head frees the place of its successor. -/
theorem reindex (h : Bounded cfg (usage e)) {other : String} (hhead : e.state.queuedSlots.lookup id = some other)
    (next : TaskId) (name : String) : Bounded cfg (usage ((e.unindexQueued id).indexQueued next name)) :=
  { h with
    pending := fun limit hlimit => by
      have hsize := Table.size_insert_le (e.state.queuedSlots.erase id) next name
      have hone := Table.size_of_lookup hhead
      have hle := h.pending limit hlimit
      simp only [usage, ControllerState.pendingLen, Engine.indexQueued, Engine.unindexQueued] at hle ⊢
      omega }

theorem unindexQueued (h : Bounded cfg (usage e)) (id : TaskId) : Bounded cfg (usage (e.unindexQueued id)) :=
  { h with
    pending := fun limit hlimit => by
      have hsize := Table.size_erase_le e.state.queuedSlots id
      have hle := h.pending limit hlimit
      simp only [usage, ControllerState.pendingLen, Engine.unindexQueued] at hle ⊢
      omega }

theorem removeCapacity (h : Bounded cfg (usage e)) (id : TaskId) : Bounded cfg (usage (e.removeCapacity id)) :=
  { h with
    pending := fun limit hlimit => by
      have hsize := Table.size_erase_le e.state.capacityPending id
      have hle := h.pending limit hlimit
      simp only [usage, ControllerState.pendingLen, Engine.removeCapacity] at hle ⊢
      omega }

theorem setPump (h : Bounded cfg (usage e)) (hlen : pump.len ≤ cfg.admissionCapacity.get)
    (hlimit : pump.limit = e.operations.capacity.limit) : Bounded cfg (usage (e.setPump pump)) :=
  { h with pump := hlen, limit := hlimit.trans h.limit }

theorem putSlot (h : Bounded cfg (usage e)) (hold : name ∈ e.state.slots)
    (hqueue : slot.queue.length ≤ max cfg.maxSlotQueue 1) : Bounded cfg (usage (e.putSlot name slot)) :=
  { h with
    slots := fun limit hlimit => by
      obtain ⟨old, hlookup⟩ := Table.exists_lookup hold
      have hsize := Table.size_insert_of_lookup hlookup slot
      exact hsize.le.trans (h.slots limit hlimit)
    queues := fun n s hs => by
      obtain ⟨-, rfl⟩ | ⟨-, hs⟩ := Table.of_lookup_insert hs
      · exact hqueue
      · exact h.queues n s hs }

theorem removeSlot (h : Bounded cfg (usage e)) (name : String) : Bounded cfg (usage (e.removeSlot name)) :=
  { h with
    slots := fun limit hlimit => (Table.size_erase_le _ _).trans (h.slots limit hlimit)
    queues := fun n s hs => h.queues n s (Table.of_lookup_erase hs).2 }

theorem gcIfIdle (h : Bounded cfg (usage e)) (hold : name ∈ e.state.slots)
    (hqueue : slot.queue.length ≤ max cfg.maxSlotQueue 1) : Bounded cfg (usage (e.gcIfIdle name slot)) := by
  rw [Engine.gcIfIdle]
  split
  · exact h.removeSlot name
  · exact h.putSlot hold hqueue

end Bounded

section Handoff

theorem len_eq_waiting (pump : CapacityAdmissionPump) : pump.len = (waiting pump).length := by
  rw [CapacityAdmissionPump.len, waiting, List.length_append]

theorem enqueue_ok {pump' : CapacityAdmissionPump} (h : pump.enqueue id = .ok pump') :
    pump.len < pump.limit ∧ pump'.len = pump.len + 1 ∧ pump'.limit = pump.limit := by
  rw [CapacityAdmissionPump.enqueue] at h
  split at h
  · cases h
  · next hfull =>
    obtain rfl := Except.ok.inj h
    refine ⟨Nat.lt_of_not_le hfull, ?_, limit_startNext _⟩
    rw [len_eq_waiting, waiting_startNext, ← len_eq_waiting]
    simp only [CapacityAdmissionPump.len, List.length_append, List.length_singleton]
    omega

/-- A handoff stays within the limits and leaves the slots to its caller. -/
theorem startInSlot_bounded (h : Bounded cfg (usage e)) (obs : Observed) (slot : SlotState) (name : String)
    (pending : PendingSubmission) :
    Bounded cfg (usage (startInSlot cfg obs e slot name pending).2.1) ∧
      (startInSlot cfg obs e slot name pending).2.1.state.slots = e.state.slots ∧
      (startInSlot cfg obs e slot name pending).2.2.queue = slot.queue := by
  have hbegin : (slot.beginAdmission pending.id obs.now).2.queue = slot.queue := by
    rw [SlotState.beginAdmission]
    split <;> rfl
  set restored := (e.removeWatcher pending.id).restoreWatcher pending.id (e.state.watchers.lookup pending.id) with hr
  have husage : usage restored = usage e := usage_restoreWatcher ..
  have hrestored : Bounded cfg (usage restored) := by
    rw [husage]
    exact h
  have hslots : restored.state.slots = e.state.slots := congrArg Usage.slots husage
  cases hoffer : obs.offer pending.id with
  | ok _ =>
      simp only [startInSlot, hoffer]
      exact ⟨h, rfl, hbegin⟩
  | error error =>
      by_cases hfull : error = .commandQueueFull
      · simp only [startInSlot, hoffer, if_pos hfull, ← hr]
        rcases tryIndexCapacityPending_eq cfg restored pending.id ⟨name, pending⟩ with ⟨hroom, hindex⟩ | ⟨hroom, limit, hindex⟩
        · have hindexed : Bounded cfg (usage (restored.insertCapacity pending.id ⟨name, pending⟩)) :=
            { hrestored with
              pending := fun limit hlimit => by
                have hsize := Table.size_insert_le restored.state.capacityPending pending.id ⟨name, pending⟩
                have hfree : restored.state.pendingLen < limit.get := by simpa [hasRoom, hlimit] using hroom
                simp only [usage, ControllerState.pendingLen, Engine.insertCapacity] at hfree ⊢
                omega }
          cases henq : (restored.insertCapacity pending.id ⟨name, pending⟩).operations.capacity.enqueue pending.id with
          | error limit =>
              simp only [hindex, henq]
              exact ⟨hindexed.removeCapacity pending.id, hslots, trivial⟩
          | ok pump =>
              obtain ⟨hlt, hlen, hlimit⟩ := enqueue_ok henq
              simp only [hindex, henq]
              refine ⟨hindexed.setPump ?_ hlimit, hslots, hbegin⟩
              rw [hlen, ← hindexed.limit]
              exact hlt
        · simp only [hindex]
          exact ⟨hrestored, hslots, trivial⟩
      · simp only [startInSlot, hoffer, if_neg hfull, ← hr]
        exact ⟨hrestored, hslots, trivial⟩

theorem startNextLoop_bounded (obs : Observed) (name : String) (phase : SlotPhase) (queue : List PendingSubmission)
    (e : Engine) (h : Bounded cfg (usage e)) :
    Bounded cfg (usage (startNextLoop cfg obs name phase e queue).2.1) ∧
      (startNextLoop cfg obs name phase e queue).2.1.state.slots = e.state.slots ∧
      (startNextLoop cfg obs name phase e queue).2.2.queue.length ≤ queue.length := by
  induction queue generalizing e with
  | nil => exact ⟨h, rfl, le_rfl⟩
  | cons next rest ih =>
      obtain ⟨hstart, hslots, hqueue⟩ := startInSlot_bounded (h.unindexQueued next.id) obs ⟨phase, rest⟩ name next
      rcases heq : startInSlot cfg obs (e.unindexQueued next.id) ⟨phase, rest⟩ name next with ⟨result, e', slot⟩
      rw [heq] at hstart hslots hqueue
      cases result with
      | ok _ =>
          simp only [startNextLoop, heq]
          refine ⟨hstart, hslots, ?_⟩
          rw [hqueue, List.length_cons]
          exact Nat.le_succ _
      | error error =>
          have husage : usage (rejectCandidate obs e' name next.id error).2 = usage e' := usage_rejectCandidate ..
          obtain ⟨hb, hs, hq⟩ := ih (rejectCandidate obs e' name next.id error).2 (by rw [husage]; exact hstart)
          simp only [startNextLoop, heq]
          refine ⟨hb, hs.trans ((congrArg Usage.slots husage).trans hslots), ?_⟩
          rw [List.length_cons]
          exact hq.trans (Nat.le_succ _)

theorem advance_bounded (h : Bounded cfg (usage e)) (obs : Observed) (slot : SlotState) (name : String) (goesOn : Bool) :
    Bounded cfg (usage (advance cfg obs e slot name goesOn).2.1) ∧
      (advance cfg obs e slot name goesOn).2.1.state.slots = e.state.slots ∧
      (advance cfg obs e slot name goesOn).2.2.queue.length ≤ slot.queue.length := by
  rw [advance]
  split
  · rw [startNextFromQueue]
    split
    · exact startNextLoop_bounded obs name slot.phase slot.queue e h
    · exact ⟨h, rfl, le_rfl⟩
  · exact ⟨h, rfl, le_rfl⟩

/-- The owner is gone, the slot moves on and its guard is released. -/
theorem settle_bounded (h : Bounded cfg (usage e)) (obs : Observed) (goesOn : Bool) {old : SlotState}
    (hold : e.state.slots.lookup name = some old) (hqueue : slot.queue = old.queue) :
    Bounded cfg (usage ((advance cfg obs e slot name goesOn).2.1.gcIfIdle name (advance cfg obs e slot name goesOn).2.2)) := by
  obtain ⟨hb, hslots, hle⟩ := advance_bounded h obs slot name goesOn
  refine hb.gcIfIdle ?_ ?_
  · rw [hslots]
    exact Table.mem_of_lookup hold
  · rw [hqueue] at hle
    exact hle.trans (h.queues name old hold)

end Handoff

section Results

theorem handleAdmissionResult_bounded (h : Bounded cfg (usage e)) (obs : Observed) (id : TaskId) (name : String)
    (accepted : Bool) : Bounded cfg (usage (handleAdmissionResult cfg obs e id name accepted)) := by
  cases hslot : e.state.slots.lookup name with
  | none =>
      simp only [handleAdmissionResult, hslot]
      exact h
  | some slot =>
      cases accepted with
      | true =>
          have hput : Bounded cfg (usage (e.putSlot name (slot.confirmAdmission id obs.now).2)) := by
            refine h.putSlot (Table.mem_of_lookup hslot) ?_
            rw [(slot.confirmAdmission_owner id obs.now).2]
            exact h.queues name slot hslot
          simp only [handleAdmissionResult, hslot, if_true]
          rcases heq : slot.confirmAdmission id obs.now with ⟨transition, slot'⟩
          rw [heq] at hput
          cases transition with
          | running => exact hput
          | removeNow owner =>
              simp only
              split <;> exact hput
          | stale => exact h
      | false =>
          simp only [handleAdmissionResult, hslot, Bool.false_eq_true, if_false, SlotState.rejectAdmission_eq]
          by_cases hu : slot.phase.undecided = some id
          · simp only [if_pos hu]
            exact settle_bounded h obs _ hslot rfl
          · simp only [if_neg hu]
            exact h

theorem handleCompletionResult_bounded (h : Bounded cfg (usage e)) (obs : Observed) (id : TaskId) (name : String) :
    Bounded cfg (usage (handleCompletionResult cfg obs e id name)) := by
  rw [handleCompletionResult]
  split
  · exact h
  cases hslot : e.state.slots.lookup name with
  | none => exact h
  | some slot =>
      simp only [SlotState.completeOwner_eq]
      by_cases ha : slot.phase.accepted = some id
      · simp only [if_pos ha]
        exact settle_bounded h obs _ hslot rfl
      · simp only [if_neg ha]
        exact h

theorem rejectAdmission_queue (slot : SlotState) (id : TaskId) : (slot.rejectAdmission id).2.queue = slot.queue := by
  rw [SlotState.rejectAdmission_eq]
  split <;> rfl

theorem failCapacity_bounded (h : Bounded cfg (usage e)) (obs : Observed) (id : TaskId) (done : Option OutcomeTx)
    (error : RuntimeError) (hslot : e.state.slots.lookup name = some slot) :
    Bounded cfg (usage (failCapacity cfg obs e slot name id done error)) := by
  have husage (kind : RejectionKind) (reason : String) :
      usage (((e.restoreWatcher id done).publishRejected name id kind reason).finalizeRejected obs id kind reason).2 =
        usage e := (usage_finalizeRejected ..).trans (usage_restoreWatcher ..)
  simp only [failCapacity]
  have hold (kind : RejectionKind) (reason : String) := (congrArg (fun u : Usage => u.slots.lookup name)
    (husage kind reason)).trans hslot
  refine settle_bounded ?_ obs _ (hold _ _) (rejectAdmission_queue slot id)
  rw [husage]
  exact h

theorem handleRegistryCapacityResult_bounded (h : Bounded cfg (usage e)) (obs : Observed) (id : TaskId)
    (decision : Except RuntimeError Unit) : Bounded cfg (usage (handleRegistryCapacityResult cfg obs e id decision)) := by
  cases hentry : e.state.capacityPending.lookup id with
  | none =>
      simp only [handleRegistryCapacityResult, hentry]
      exact h
  | some entry =>
      have hclaimed : Bounded cfg (usage ((e.removeCapacity id).removeWatcher id)) := h.removeCapacity id
      have hinterrupt : Bounded cfg (usage (interruptCapacity obs e id)) := by
        simp only [interruptCapacity, claimCapacityPending_eq hentry, rejectClaimedCapacity]
        change Bounded cfg (usage (Engine.sendRejected _ _ _ _ _ _).2)
        rw [usage_sendRejected]
        exact hclaimed
      simp only [handleRegistryCapacityResult, hentry]
      cases hslot : e.state.slots.lookup entry.slotName with
      | none => exact hinterrupt
      | some slot =>
          simp only [claimCapacityPending_eq hentry]
          split
          · exact hinterrupt
          · cases commitReserved obs decision with
            | ok _ => exact hclaimed
            | error error => exact failCapacity_bounded hclaimed obs id _ error hslot

theorem next_len {pump' : CapacityAdmissionPump} (h : pump.next = some (id, pump')) :
    pump'.len ≤ pump.len ∧ pump'.limit = pump.limit := by
  obtain ⟨hwait, hlimit⟩ := waiting_next h
  rw [len_eq_waiting, len_eq_waiting, hwait, List.length_cons]
  exact ⟨Nat.le_succ _, hlimit⟩

theorem cancel_len (pump : CapacityAdmissionPump) (id : TaskId) :
    (pump.cancel id).2.len ≤ pump.len ∧ (pump.cancel id).2.limit = pump.limit := by
  by_cases hmem : id ∈ waiting pump
  · obtain ⟨hperm, hlimit⟩ := waiting_cancel hmem
    rw [len_eq_waiting, len_eq_waiting, hperm.length_eq, List.length_cons]
    exact ⟨Nat.le_succ _, hlimit⟩
  · rw [waiting, List.mem_append, Option.mem_toList, not_or] at hmem
    rw [CapacityAdmissionPump.cancel, if_neg hmem.1, if_neg hmem.2]
    exact ⟨le_rfl, rfl⟩

end Results

section Identity

theorem rejectRemoved_bounded (h : Bounded cfg (usage e)) (obs : Observed) (slotName taskName : String) (id : TaskId)
    (done : Option OutcomeTx) (reason : Option String) :
    Bounded cfg (usage (rejectRemoved obs e slotName taskName id done reason).2) ∧
      (rejectRemoved obs e slotName taskName id done reason).2.state.slots = e.state.slots := by
  obtain ⟨hlen, hlimit⟩ := cancel_len e.operations.capacity id
  have hpump : Bounded cfg (usage (e.setPump (e.operations.capacity.cancel id).2)) :=
    h.setPump (hlen.trans h.pump) hlimit
  have husage : usage (rejectRemoved obs e slotName taskName id done reason).2 =
      usage (e.setPump (e.operations.capacity.cancel id).2) := usage_sendRejected ..
  exact ⟨by rw [husage]; exact hpump, congrArg Usage.slots husage⟩

theorem removeRouted_bounded (h : Bounded cfg (usage e)) (obs : Observed) (id : TaskId) (reason : Option String)
    (hslot : e.state.slots.lookup name = some slot) :
    Bounded cfg (usage (removeRouted cfg obs e id reason name slot).2) := by
  rw [removeRouted]
  split
  · exact h
  split
  · next waiting done e' hclaim =>
    have hclaimed : Bounded cfg (usage e') ∧ e'.state.slots = e.state.slots := by
      rw [claimCapacityPending] at hclaim
      split at hclaim
      · cases hclaim
      · obtain rfl := (Prod.mk.inj (Prod.mk.inj (Option.some.inj hclaim)).2).2
        exact ⟨h.removeCapacity id, rfl⟩
    obtain ⟨hb, hs⟩ := rejectRemoved_bounded hclaimed.1 obs name waiting.pending.taskName id done reason
    rw [← hclaimed.2, ← hs] at hslot
    exact settle_bounded hb obs _ hslot (rejectAdmission_queue slot id)
  · split
    · exact h.unindexQueued id
    · next removed hfind =>
      have husage : usage ((((removeRequested e removed.taskName id reason).unindexQueued id).publishRejected name id
          .removedFromQueue Reasons.removedFromQueue).finalizeRejected obs id .removedFromQueue
            Reasons.removedFromQueue).2 = usage (e.unindexQueued id) := usage_finalizeRejected ..
      have hb := h.unindexQueued id
      rw [← husage] at hb
      refine hb.gcIfIdle ?_ ?_
      · exact Table.mem_of_lookup ((congrArg (fun u : Usage => u.slots.lookup name) husage).trans hslot)
      · exact (List.length_eraseP_le ..).trans (h.queues name slot hslot)

theorem removeUntracked_bounded (h : Bounded cfg (usage e)) (obs : Observed) (id : TaskId) (reason : Option String)
    (capacity : Bool) : Bounded cfg (usage (removeUntracked obs e id reason capacity).2) := by
  rw [removeUntracked]
  split
  · next waiting done e' hclaim =>
    have hclaimed : Bounded cfg (usage e') := by
      split at hclaim
      · rw [claimCapacityPending] at hclaim
        split at hclaim
        · cases hclaim
        · obtain rfl := (Prod.mk.inj (Prod.mk.inj (Option.some.inj hclaim)).2).2
          exact h.removeCapacity id
      · cases hclaim
    exact (rejectRemoved_bounded hclaimed obs waiting.slotName waiting.pending.taskName id done reason).1
  · exact h.unindexQueued id

theorem handleIdentityOperation_bounded (h : Bounded cfg (usage e)) (obs : Observed) (id : TaskId)
    (operation : IdentityOperation) (reply : IdentityReply) :
    Bounded cfg (usage (handleIdentityOperation cfg obs e id operation reply)) := by
  have hremove : Bounded cfg (usage (removeQueuedSubmission cfg obs e id operation.requestReason).2) := by
    rw [removeQueuedSubmission]
    split
    · exact h
    · split
      · exact removeUntracked_bounded h obs id _ _
      · next slot hslot => exact removeRouted_bounded h obs id _ hslot
  rw [handleIdentityOperation]
  split
  · exact h
  split
  · next e' heq =>
    rw [heq] at hremove
    exact hremove
  · next e' heq =>
    rw [heq] at hremove
    split
    · exact hremove
    split
    · exact hremove
    next hfree =>
    split
    · exact hremove
    · exact { hremove with
        identity := by
          simp only [usage, List.length_append, List.length_singleton]
          exact Nat.lt_of_not_le hfree }

end Identity

section Submission

variable {sub : Submission} {watcher : AdmissionWatcher} {admission : AdmissionPolicy}

/-- What a placement method leaves of the limits and of its slot. -/
def Fits (cfg : ControllerConfig) (e : Engine) (placed : Placed) : Prop :=
  Bounded cfg (usage placed.engine) ∧ placed.engine.state.slots = e.state.slots ∧
    placed.slot.queue.length ≤ max cfg.maxSlotQueue 1

theorem admitIdle_fits (h : Bounded cfg (usage e)) (hqueue : slot.queue.length ≤ max cfg.maxSlotQueue 1) (obs : Observed)
    (name : String) (pending : PendingSubmission) (admission : AdmissionPolicy) (watcher : AdmissionWatcher) :
    Fits cfg e (admitIdle cfg obs e slot name pending admission watcher) := by
  obtain ⟨hb, hs, hq⟩ := startInSlot_bounded h obs slot name pending
  rcases heq : startInSlot cfg obs e slot name pending with ⟨result, e', slot'⟩
  rw [heq] at hb hs hq
  rw [← hq] at hqueue
  cases result with
  | ok _ =>
      simp only [admitIdle, heq]
      exact ⟨hb, hs, hqueue⟩
  | error error =>
      simp only [admitIdle, heq]
      exact ⟨hb, hs, hqueue⟩

theorem queue_fits (h : Bounded cfg (usage e)) (hqueue : slot.queue.length ≤ max cfg.maxSlotQueue 1) (name : String)
    (pending : PendingSubmission) (watcher : AdmissionWatcher) :
    Fits cfg e (Admission.queue cfg e slot name pending watcher) := by
  rw [Admission.queue.eq_def]
  split
  · exact ⟨h, rfl, hqueue⟩
  · next hfree =>
    have hlen : slot.queue.length < cfg.maxSlotQueue := by
      rw [Engine.queueFullReason] at hfree
      split at hfree
      · cases hfree
      · next hlt => exact Nat.lt_of_not_le hlt
    by_cases hroom : e.pendingFull cfg = true
    · simp only [Engine.tryPushQueued, if_pos hroom]
      exact ⟨h, rfl, hqueue⟩
    · simp only [Engine.tryPushQueued, if_neg hroom]
      refine ⟨h.indexQueued (Bool.eq_false_iff.mpr hroom) pending.id name, rfl, ?_⟩
      rw [List.length_append, List.length_singleton]
      exact Nat.le_trans hlen (Nat.le_max_left _ _)

theorem retireOwner_queue (obs : Observed) (e : Engine) (slot : SlotState) (name : String) :
    (retireOwner obs e slot name).2.2.queue = slot.queue := by
  rw [retireOwner.eq_def]
  have hrequest := (slot.requestReplacement_owner obs.now).2
  cases slot.phase <;> first | exact hrequest | rfl

theorem replace_fits (h : Bounded cfg (usage e)) (hqueue : slot.queue.length ≤ max cfg.maxSlotQueue 1)
    (hhead : ∀ head ∈ slot.queue, ∃ other, e.state.queuedSlots.lookup head.id = some other) (obs : Observed)
    (name : String) (pending : PendingSubmission) (watcher : AdmissionWatcher) :
    Fits cfg e (replace cfg obs e slot name pending watcher) := by
  have hretire (e' : Engine) (slot' : SlotState) (hb : Bounded cfg (usage e')) (hs : e'.state.slots = e.state.slots)
      (hq : slot'.queue.length ≤ max cfg.maxSlotQueue 1) :
      Bounded cfg (usage (retireOwner obs e' slot' name).2.1) ∧
        (retireOwner obs e' slot' name).2.1.state.slots = e.state.slots ∧
        (retireOwner obs e' slot' name).2.2.queue.length ≤ max cfg.maxSlotQueue 1 := by
    refine ⟨?_, ?_, ?_⟩
    · rw [usage_retireOwner]
      exact hb
    · exact (congrArg Usage.slots (usage_retireOwner e' obs slot' name)).trans hs
    · rw [retireOwner_queue]
      exact hq
  cases hq : slot.queue with
  | nil =>
      by_cases hroom : e.pendingFull cfg = true
      · simp only [replace, Engine.tryReplaceHeadOrPush, hq, List.isEmpty_nil, if_true, if_pos hroom]
        exact ⟨h, rfl, hqueue⟩
      · simp only [replace, Engine.tryReplaceHeadOrPush, hq, List.isEmpty_nil, if_true, if_neg hroom]
        exact hretire _ _ (h.indexQueued (Bool.eq_false_iff.mpr hroom) pending.id name) rfl (Nat.le_max_right _ _)
  | cons head rest =>
      obtain ⟨other, hother⟩ := hhead head (by rw [hq]; exact List.mem_cons_self)
      have hindexed := h.reindex hother pending.id name
      simp only [replace, Engine.tryReplaceHeadOrPush, Engine.replaceHeadOrPush, hq, List.isEmpty_cons,
        Bool.false_eq_true, if_false]
      have husage : usage ((((e.unindexQueued head.id).indexQueued pending.id name).publishRejected name head.id
          .supersededByReplace Reasons.supersededByReplace).finalizeRejected obs head.id .supersededByReplace
            Reasons.supersededByReplace).2 = usage ((e.unindexQueued head.id).indexQueued pending.id name) :=
        usage_finalizeRejected ..
      refine hretire _ _ ?_ ?_ ?_
      · rw [husage]
        exact hindexed
      · exact congrArg Usage.slots husage
      · rw [hq] at hqueue
        exact hqueue

theorem apply_fits (h : Bounded cfg (usage e)) (hqueue : slot.queue.length ≤ max cfg.maxSlotQueue 1)
    (hhead : ∀ head ∈ slot.queue, ∃ other, e.state.queuedSlots.lookup head.id = some other) (obs : Observed)
    (name : String) (pending : PendingSubmission) (admission : AdmissionPolicy) (watcher : AdmissionWatcher) :
    Fits cfg e (apply cfg obs e slot name pending admission watcher) := by
  rw [apply.eq_def]
  split
  · exact admitIdle_fits h hqueue obs name pending admission watcher
  · cases admission with
    | replace => exact replace_fits h hqueue hhead obs name pending watcher
    | queue => exact queue_fits h hqueue name pending watcher
    | dropIfRunning => exact ⟨h, rfl, hqueue⟩

theorem placeSubmission_bounded (h : Bounded cfg (usage e)) (hslot : e.state.slots.lookup name = some slot)
    (hhead : ∀ head ∈ slot.queue, ∃ other, e.state.queuedSlots.lookup head.id = some other) (obs : Observed)
    (pending : PendingSubmission) (admission : AdmissionPolicy) (watcher : AdmissionWatcher) :
    Bounded cfg (usage (placeSubmission cfg obs e slot name pending admission watcher).1) := by
  have hqueue := h.queues name slot hslot
  have hreject (e' : Engine) (watcher' : AdmissionWatcher) (kind : RejectionKind) (reason : String)
      (hb : Bounded cfg (usage e')) (hs : e'.state.slots = e.state.slots) :
      Bounded cfg (usage (watcher'.rejectWithEvent obs e' kind reason).2.1) ∧
        name ∈ (watcher'.rejectWithEvent obs e' kind reason).2.1.state.slots := by
    have husage := usage_rejectWithEvent e' obs kind reason watcher'
    refine ⟨by rw [husage]; exact hb, ?_⟩
    rw [show (watcher'.rejectWithEvent obs e' kind reason).2.1.state.slots = e'.state.slots from
      congrArg Usage.slots husage, hs]
    exact Table.mem_of_lookup hslot
  rw [placeSubmission]
  split
  · obtain ⟨hb, hl⟩ := hreject e watcher .controllerShuttingDown Reasons.controllerShuttingDown h rfl
    exact hb.gcIfIdle hl hqueue
  · obtain ⟨hb, hs, hq⟩ := apply_fits h hqueue hhead obs name pending admission watcher
    set placed := apply cfg obs e slot name pending admission watcher
    cases hout : placed.outcome with
    | accepted displaced =>
        simp only [hout]
        refine hb.putSlot ?_ hq
        rw [hs]
        exact Table.mem_of_lookup hslot
    | rejected kind reason =>
        obtain ⟨hb', hl⟩ := hreject placed.engine placed.watcher kind reason hb hs
        simp only [hout]
        exact hb'.putSlot hl hq
    | handoffFailed kind reason =>
        obtain ⟨hb', hl⟩ := hreject placed.engine placed.watcher kind reason hb hs
        simp only [hout]
        exact hb'.gcIfIdle hl hq

theorem Bounded.createSlot (h : Bounded cfg (usage e)) (hslot : e.state.slots.lookup name = none)
    (hfree : ∀ limit, cfg.maxControllerSlots = some limit → e.state.slots.size < limit.get) :
    Bounded cfg (usage (e.putSlot name .new)) :=
  { h with
    slots := fun limit hlimit => by
      have hsize := Table.size_insert_of_none hslot SlotState.new
      exact hsize.le.trans (hfree limit hlimit)
    queues := fun n s hs => by
      obtain ⟨-, rfl⟩ | ⟨-, hs⟩ := Table.of_lookup_insert hs
      · exact Nat.zero_le _
      · exact h.queues n s hs }

/-- The slot of a submission: refused, found, or created below the limit. -/
theorem tryGetOrCreateSlot_bounded (h : Bounded cfg (usage e)) (name : String) {slot : SlotState} {e' : Engine}
    (hget : e.tryGetOrCreateSlot cfg name = .ok (slot, e')) :
    Bounded cfg (usage e') ∧ e'.state.slots.lookup name = some slot ∧ e'.state.queuedSlots = e.state.queuedSlots ∧
      (slot.queue = [] ∨ e.state.slots.lookup name = some slot) := by
  rw [Engine.tryGetOrCreateSlot] at hget
  split at hget
  · next found hfound =>
    obtain ⟨rfl, rfl⟩ := Prod.mk.inj (Except.ok.inj hget)
    exact ⟨h, hfound, rfl, .inr hfound⟩
  · next hnone =>
    split at hget
    · next limit hmax =>
      split at hget
      · cases hget
      · next hfree =>
        obtain ⟨rfl, rfl⟩ := Prod.mk.inj (Except.ok.inj hget)
        refine ⟨h.createSlot hnone fun limit' hlimit => ?_, AList.lookup_insert _, rfl, .inl rfl⟩
        obtain rfl := Option.some.inj (hmax.symm.trans hlimit)
        exact Nat.lt_of_not_le hfree
    · next hmax =>
      obtain ⟨rfl, rfl⟩ := Prod.mk.inj (Except.ok.inj hget)
      refine ⟨h.createSlot hnone fun limit' hlimit => ?_, AList.lookup_insert _, rfl, .inl rfl⟩
      cases hmax.symm.trans hlimit

theorem handleSubmission_bounded (h : Bounded cfg (usage e)) (hcoh : Coherent (board e)) (obs : Observed)
    (cut : Option AwaitPoint) (sub : Submission) : Bounded cfg (usage (handleSubmission cfg obs cut e sub)) := by
  suffices hbody : Bounded cfg (usage (submissionBody cfg obs cut e sub).1) by
    rw [handleSubmission, usage_drop]
    exact hbody
  have hturn (watcher : AdmissionWatcher) (kind : RejectionKind) (reason : String) :
      Bounded cfg (usage (watcher.rejectWithEvent obs e kind reason).2.1) := by
    rw [usage_rejectWithEvent]
    exact h
  rw [submissionBody]
  split
  · exact hturn _ _ _
  split
  · exact hturn _ _ _
  split
  · exact h
  split
  · exact hturn _ _ _
  · rcases hpark : ((AdmissionWatcher.new sub.id sub.done (some sub.slotName)).takePending sub.taskName).2.park e with
      ⟨e₁, watcher⟩
    have hfst : e₁ = (((AdmissionWatcher.new sub.id sub.done (some sub.slotName)).takePending sub.taskName).2.park e).1 := by
      rw [hpark]
    have husage : usage e₁ = usage e := by
      rw [hfst]
      exact usage_park ..
    have hqueued : e₁.state.queuedSlots = e.state.queuedSlots := by
      rw [hfst, AdmissionWatcher.park.eq_def]
      split <;> rfl
    have h₁ : Bounded cfg (usage e₁) := by
      rw [husage]
      exact h
    simp only [hpark]
    split
    · change Bounded cfg (usage (watcher.rejectWithEvent obs e₁ _ _).2.1)
      rw [usage_rejectWithEvent]
      exact h₁
    · next slot e₂ hget =>
      obtain ⟨h₂, hslot, hsame, hwhere⟩ := tryGetOrCreateSlot_bounded h₁ sub.slotName hget
      split
      · exact h₂
      · refine placeSubmission_bounded h₂ hslot ?_ obs _ _ _
        intro head hhead
        rcases hwhere with hnil | hold
        · rw [hnil] at hhead
          cases hhead
        · have hold : (board e).slot sub.slotName = some slot :=
            (congrArg (fun u : Usage => u.slots.lookup sub.slotName) husage).symm.trans hold
          rw [hsame, hqueued]
          exact ⟨_, hcoh.queued_of_mem hold (List.mem_map_of_mem hhead)⟩

end Submission

section Promotion

/-- The arguments of every handoff the promotion loop tries, in order. -/
def candidates (cfg : ControllerConfig) (obs : Observed) (slotName : String) (phase : SlotPhase) :
    Engine → List PendingSubmission → List (Engine × SlotState × PendingSubmission)
  | _, [] => []
  | e, next :: rest =>
    (e.unindexQueued next.id, ⟨phase, rest⟩, next) ::
      match startInSlot cfg obs (e.unindexQueued next.id) ⟨phase, rest⟩ slotName next with
      | (.ok (), _, _) => []
      | (.error error, e, _) => candidates cfg obs slotName phase (rejectCandidate obs e slotName next.id error).2 rest

/-- The state in which a step of the loop enters `start_next_from_queue`: its
engine, its idle slot and the slot's name. -/
inductive Promotes (e : Engine) (obs : Observed) : Engine → SlotState → String → Prop
  | refused {id : TaskId} {name : String} {slot freed : SlotState} (htracked : (id, name) ∈ e.operations.admissions)
      (hslot : e.state.slots.lookup name = some slot) (hreject : slot.rejectAdmission id = (true, freed)) :
      Promotes e obs (World.dropAdmission e id name) freed name
  | completed {id : TaskId} {name : String} {slot freed : SlotState} (htracked : (id, name) ∈ e.operations.completions)
      (hslot : e.state.slots.lookup name = some slot) (hcomplete : slot.completeOwner id = (true, freed)) :
      Promotes e obs (World.dropCompletion e id name) freed name
  | failed {id : TaskId} {pump : CapacityAdmissionPump} {entry : CapacityPending} {slot : SlotState}
      (hnext : e.operations.capacity.next = some (id, pump)) (hentry : e.state.capacityPending.lookup id = some entry)
      (hslot : e.state.slots.lookup entry.slotName = some slot) (howner : slot.ownerId = some id) (kind : RejectionKind)
      (reason : String) :
      Promotes e obs ((((((e.setPump pump).removeCapacity id).removeWatcher id).restoreWatcher id
        (e.state.watchers.lookup id)).publishRejected entry.slotName id kind reason).finalizeRejected obs id kind reason).2
        (slot.rejectAdmission id).2 entry.slotName
  | removed {id : TaskId} {entry : CapacityPending} {slot : SlotState}
      (hentry : e.state.capacityPending.lookup id = some entry)
      (hslot : e.state.slots.lookup entry.slotName = some slot) (reason : Option String) :
      Promotes e obs (rejectRemoved obs ((e.removeCapacity id).removeWatcher id) entry.slotName entry.pending.taskName id
        (e.state.watchers.lookup id) reason).2 (slot.rejectAdmission id).2 entry.slotName

/-- The promotion rejects exactly the candidates whose handoff failed. -/
theorem startNextLoop_deferred (cfg : ControllerConfig) (obs : Observed) (name : String) (phase : SlotPhase)
    (queue : List PendingSubmission) (e : Engine) :
    (startNextLoop cfg obs name phase e queue).1.map Prod.fst =
      ((candidates cfg obs name phase e queue).filter fun c =>
        !(startInSlot cfg obs c.1 c.2.1 name c.2.2).1.isOk).map fun c => c.2.2.id := by
  induction queue generalizing e with
  | nil => rfl
  | cons next rest ih =>
      rcases heq : startInSlot cfg obs (e.unindexQueued next.id) ⟨phase, rest⟩ name next with ⟨result, e', slot⟩
      cases result with
      | ok _ =>
          have hok : (startInSlot cfg obs (e.unindexQueued next.id) ⟨phase, rest⟩ name next).1.isOk = true := by
            rw [heq]
            rfl
          simp only [startNextLoop, candidates, heq]
          rw [List.filter_cons_of_neg (by simp [hok])]
          rfl
      | error error =>
          have hfailed : (startInSlot cfg obs (e.unindexQueued next.id) ⟨phase, rest⟩ name next).1.isOk = false := by
            rw [heq]
            rfl
          simp only [startNextLoop, candidates, heq]
          rw [List.filter_cons_of_pos (by simp [hfailed]), List.map_cons, List.map_cons]
          exact congrArg (next.id :: ·) (ih (rejectCandidate obs e' name next.id error).2)

/-- A candidate gives up its place in the index before it asks for another. -/
theorem startInSlot_room (h : Bounded cfg (usage e)) {other : String} (hindexed : e.state.queuedSlots.lookup id = some other)
    (obs : Observed) (slot : SlotState) (name : String) (pending : PendingSubmission)
    (hoffer : obs.offer pending.id = .error .commandQueueFull) (limit : Nat) :
    (startInSlot cfg obs (e.unindexQueued id) slot name pending).1 ≠
      .error (.resourceLimitReached "controller_pending" limit) := by
  set freed := e.unindexQueued id
  set restored := (freed.removeWatcher pending.id).restoreWatcher pending.id (freed.state.watchers.lookup pending.id) with hr
  have hpending : restored.state.pendingLen = freed.state.pendingLen :=
    congrArg Usage.pending (usage_restoreWatcher (freed.removeWatcher pending.id) pending.id _)
  have hroom : hasRoom cfg restored.state.pendingLen = true := by
    have hfreed : freed.state.pendingLen = e.state.pendingLen - 1 := pendingLen_unindexQueued hindexed
    have hsize := Table.size_of_lookup hindexed
    cases hmax : cfg.maxTotalPending with
    | none => simp [hasRoom, hmax]
    | some limit =>
        have hle := h.pending limit hmax
        have hlt : freed.state.pendingLen < limit.get := by
          simp only [usage, ControllerState.pendingLen] at hle hfreed ⊢
          omega
        simp [hasRoom, hmax, hpending, hlt]
  simp only [startInSlot, hoffer, if_true, ← hr]
  rcases tryIndexCapacityPending_eq cfg restored pending.id ⟨name, pending⟩ with ⟨-, hindex⟩ | ⟨hfull, -⟩
  · simp only [hindex]
    split
    · intro heq
      injection heq with heq
      injection heq with hresource
      revert hresource
      decide
    · rintro ⟨⟩
  · cases hroom.symm.trans hfull

theorem candidates_room (obs : Observed) (name : String) (queue : List PendingSubmission) (e : Engine)
    (h : Bounded cfg (usage e)) (hindexed : ∀ pending ∈ queue, ∃ other, (board e).queued pending.id = some other)
    (hcap : ∀ pending ∈ queue, (board e).capacity pending.id = none) (hnodup : (queue.map PendingSubmission.id).Nodup) :
    ∀ c ∈ candidates cfg obs name .idle e queue, obs.offer c.2.2.id = .error .commandQueueFull → ∀ limit,
      (startInSlot cfg obs c.1 c.2.1 name c.2.2).1 ≠ .error (.resourceLimitReached "controller_pending" limit) := by
  induction queue generalizing e with
  | nil => exact nofun
  | cons next rest ih =>
      obtain ⟨other, hother⟩ := hindexed next List.mem_cons_self
      rw [List.map_cons, List.nodup_cons] at hnodup
      have hnext : (board (e.unindexQueued next.id)).capacity next.id = none := by
        rw [board_unindexQueued]
        exact hcap next List.mem_cons_self
      have hb := (startInSlot_bounded (h.unindexQueued next.id) obs ⟨.idle, rest⟩ name next).1
      intro c hc
      rw [candidates, List.mem_cons] at hc
      rcases hc with rfl | hc
      · exact fun hoffer limit => startInSlot_room h hother obs _ name next hoffer limit
      rcases startInSlot_cases cfg obs ⟨.idle, rest⟩ name next rfl hnext with
        ⟨e', heq, -⟩ | ⟨e', pump, heq, -, -⟩ | ⟨error, e', heq, hsame⟩
      · simp only [heq, List.not_mem_nil] at hc
      · simp only [heq, List.not_mem_nil] at hc
      · simp only [heq] at hc
        rw [heq] at hb
        have hboard : board (rejectCandidate obs e' name next.id error).2 =
            ((board e).setQueued next.id none).rejectParked next.id (rejectionKindForRuntimeError error)
              ("queue_start_failed: " ++ error.display) := by
          rw [rejectCandidate, board_publishFinalize, hsame, board_unindexQueued]
        refine ih (rejectCandidate obs e' name next.id error).2 ?_ ?_ ?_ hnodup.2 c hc
        · rw [usage_rejectCandidate]
          exact hb
        · intro pending hp
          obtain ⟨n, hn⟩ := hindexed pending (List.mem_cons_of_mem _ hp)
          have hne : pending.id ≠ next.id := fun he => hnodup.1 (he ▸ List.mem_map_of_mem hp)
          refine ⟨n, ?_⟩
          rw [hboard]
          change (Board.setQueued _ _ _).queued _ = _
          rw [setQueued_queued, if_neg hne]
          exact hn
        · intro pending hp
          rw [hboard]
          exact hcap pending (List.mem_cons_of_mem _ hp)

/-- Where a promotion starts, the limits hold and the slot's queue is indexed. -/
theorem promotes_ready {e' : Engine} (h : Bounded cfg (usage e)) (hcoh : Coherent (board e))
    (hpromotes : Promotes e obs e' slot name) :
    Bounded cfg (usage e') ∧ slot.phase = .idle ∧ (slot.queue.map PendingSubmission.id).Nodup ∧
      (∀ pending ∈ slot.queue, ∃ other, (board e').queued pending.id = some other) ∧
      ∀ pending ∈ slot.queue, (board e').capacity pending.id = none := by
  have hqueue {n : String} {old : SlotState} (hold : (board e).slot n = some old) :
      (old.queue.map PendingSubmission.id).Nodup ∧
        (∀ pending ∈ old.queue, ∃ other, (board e).queued pending.id = some other) ∧
        ∀ pending ∈ old.queue, (board e).capacity pending.id = none :=
    ⟨hcoh.nodup n old hold, fun pending hp => ⟨n, hcoh.queued_of_mem hold (List.mem_map_of_mem hp)⟩,
      capacity_of_queue hcoh hold⟩
  cases hpromotes with
  | refused htracked hslot hreject =>
      rename_i id old
      rw [SlotState.rejectAdmission_eq] at hreject
      split at hreject
      · obtain ⟨-, rfl⟩ := Prod.mk.inj hreject
        obtain ⟨hnodup, hindexed, hcap⟩ := hqueue hslot
        exact ⟨h, rfl, hnodup, hindexed, hcap⟩
      · cases hreject
  | completed htracked hslot hcomplete =>
      rename_i id old
      rw [SlotState.completeOwner_eq] at hcomplete
      split at hcomplete
      · obtain ⟨-, rfl⟩ := Prod.mk.inj hcomplete
        obtain ⟨hnodup, hindexed, hcap⟩ := hqueue hslot
        exact ⟨h, rfl, hnodup, hindexed, hcap⟩
      · cases hcomplete
  | failed hnext hentry hslot howner kind reason =>
      rename_i id pump entry old
      obtain ⟨hlen, hlimit⟩ := next_len hnext
      obtain ⟨-, found, hfound, hu⟩ := hcoh.holds id entry hentry
      obtain rfl := Option.some.inj (hslot.symm.trans hfound)
      obtain ⟨hnodup, hindexed, hcap⟩ := hqueue hslot
      have hclaimed : Bounded cfg (usage ((e.setPump pump).removeCapacity id)) :=
        (h.setPump (hlen.trans h.pump) hlimit).removeCapacity id
      have hboard := board_takeRestore ((e.setPump pump).removeCapacity id) id
      rw [SlotState.rejectAdmission_eq, if_pos hu]
      refine ⟨?_, rfl, hnodup, ?_, ?_⟩
      · rw [usage_finalizeRejected]
        change Bounded cfg (usage (Engine.restoreWatcher _ _ _))
        rw [usage_restoreWatcher]
        exact hclaimed
      · rw [board_publishFinalize]
        change ∀ pending ∈ old.queue, ∃ other, (board (Engine.restoreWatcher _ _ _)).queued pending.id = some other
        erw [hboard]
        exact hindexed
      · rw [board_publishFinalize]
        change ∀ pending ∈ old.queue, (board (Engine.restoreWatcher _ _ _)).capacity pending.id = none
        erw [hboard]
        rw [board_removeCapacity]
        intro pending hp
        rw [setCapacity_capacity]
        split
        · rfl
        · exact hcap pending hp
  | removed hentry hslot reason =>
      rename_i id entry old
      obtain ⟨-, found, hfound, hu⟩ := hcoh.holds id entry hentry
      obtain rfl := Option.some.inj (hslot.symm.trans hfound)
      obtain ⟨hnodup, hindexed, hcap⟩ := hqueue hslot
      have hclaimed : Bounded cfg (usage ((e.removeCapacity id).removeWatcher id)) := h.removeCapacity id
      rw [SlotState.rejectAdmission_eq, if_pos hu]
      refine ⟨(rejectRemoved_bounded hclaimed obs _ _ id _ reason).1, rfl, hnodup, ?_, ?_⟩
      · rw [board_rejectRemoved]
        exact hindexed
      · rw [board_rejectRemoved]
        intro pending hp
        change (Board.setCapacity _ _ _).capacity pending.id = none
        rw [setCapacity_capacity]
        split
        · rfl
        · exact hcap pending hp

end Promotion

section Runs

variable {w w' : World} {a : Action}

theorem Bounded.finalize (h : Bounded cfg (usage e)) (obs : Observed) :
    Bounded cfg (usage (finalizeSlotStateOnShutdown obs e)) where
  pending := fun _ _ => Nat.zero_le _
  slots := fun _ _ => Nat.zero_le _
  queues := fun _ _ => nofun
  pump := by
    rw [usage, finalize_operations]
    exact h.pump
  limit := by
    rw [usage, finalize_operations]
    exact h.limit
  identity := by
    rw [usage, finalize_operations]
    exact h.identity

theorem Bounded.dropOperations (h : Bounded cfg (usage e)) : Bounded cfg (usage (Driver.dropOperations cfg e)) where
  pending := h.pending
  slots := h.slots
  queues := h.queues
  pump := Nat.zero_le _
  limit := rfl
  identity := Nat.zero_le _

theorem bounded_new (cfg : ControllerConfig) : Bounded cfg (usage (Engine.new cfg)) where
  pending := fun _ _ => Nat.zero_le _
  slots := fun _ _ => Nat.zero_le _
  queues := fun _ _ => nofun
  pump := Nat.zero_le _
  limit := rfl
  identity := Nat.zero_le _

theorem bounded_step (hw : (machine cfg).Reachable w) (h : Bounded cfg (usage w.engine))
    (hstep : World.step cfg w a = some w') : Bounded cfg (usage w'.engine) := by
  by_cases hphase : w.phase = .looping
  case neg =>
    cases step_wind hphase hstep with
    | sent command hdrain hfresh => exact h
    | drained obs hdrain hcommands =>
        rename_i command rest
        cases command with
        | submit sub =>
            change Bounded cfg (usage (Engine.sendRejected _ _ _ _ _ _).2)
            rw [usage_sendRejected]
            exact h
        | manageIdentity id operation reply => exact h
    | finalized obs hdrain hcommands => exact h.finalize obs
    | finished obs hfinal => exact h.finalize obs
  have hcoh := (sane_of_reachable hw hphase).coherent
  cases a with
  | send command =>
      simp only [World.step] at hstep
      split at hstep
      · obtain rfl := Option.some.inj hstep
        exact h
      · cases hstep
  | command obs cut =>
      cases hcommands : w.commands with
      | nil => simp [World.step, hcommands] at hstep
      | cons command rest =>
          simp only [World.step, hcommands] at hstep
          obtain rfl := looping_eq hstep
          cases command with
          | submit sub => exact handleSubmission_bounded h hcoh obs cut sub
          | manageIdentity id operation reply => exact handleIdentityOperation_bounded h obs id operation reply
  | capacityResult obs decision =>
      simp only [World.step] at hstep
      split at hstep
      · cases hstep
      · next id pump hnext =>
        obtain rfl := looping_eq hstep
        obtain ⟨hlen, hlimit⟩ := next_len hnext
        exact handleRegistryCapacityResult_bounded (h.setPump (hlen.trans h.pump) hlimit) obs id decision
  | admissionResult obs id slotName accepted =>
      simp only [World.step] at hstep
      split at hstep
      · obtain rfl := looping_eq hstep
        exact handleAdmissionResult_bounded (e := World.dropAdmission w.engine id slotName) h obs id slotName accepted
      · cases hstep
  | completionResult obs id slotName =>
      simp only [World.step] at hstep
      split at hstep
      · obtain rfl := looping_eq hstep
        exact handleCompletionResult_bounded (e := World.dropCompletion w.engine id slotName) h obs id slotName
      · cases hstep
  | removalResult id slotName decision =>
      simp only [World.step] at hstep
      split at hstep
      · obtain rfl := looping_eq hstep
        have hbooks := books_handleRemovalResult (World.dropRemoval w.engine id slotName) id slotName decision
        change Bounded cfg (usage (handleRemovalResult _ id slotName decision))
        rw [usage_of_books hbooks]
        exact h
      · cases hstep
  | identityResult op result =>
      simp only [World.step] at hstep
      split at hstep
      · obtain rfl := looping_eq hstep
        exact { h with identity := (List.length_erase_le ..).trans h.identity }
      · cases hstep
  | stop =>
      simp only [World.step, if_pos hphase] at hstep
      obtain rfl := Option.some.inj hstep
      exact h.dropOperations
  | drain obs => simp [World.step, hphase] at hstep
  | finalize obs => simp [World.step, hphase] at hstep
  | finish obs => simp [World.step, hphase] at hstep

theorem bounded_of_reachable (hw : (machine cfg).Reachable w) : Bounded cfg (usage w.engine) :=
  hw.invariant (P := fun w => Bounded cfg (usage w.engine)) (bounded_new cfg) fun _ _ _ hw h hstep => bounded_step hw h hstep

/-- Every reachable state of the controller is within the configured limits. A
promotion rejects the candidates whose handoff fails, and none of them meets
the aggregate limit. -/
theorem resource_bounds (cfg : ControllerConfig) (w : World) (hw : (machine cfg).Reachable w) :
    (∀ limit, cfg.maxTotalPending = some limit →
      w.engine.state.queuedSlots.size + w.engine.state.capacityPending.size ≤ limit.get) ∧
    (∀ limit, cfg.maxControllerSlots = some limit → w.engine.state.slots.size ≤ limit.get) ∧
    (∀ name slot, w.engine.state.slots.lookup name = some slot → slot.queue.length ≤ max cfg.maxSlotQueue 1) ∧
    w.engine.operations.capacity.len ≤ cfg.admissionCapacity.get ∧
    w.engine.operations.identityOperations.length ≤ cfg.identityOperationCapacity.get ∧
    (w.phase = .looping → ∀ obs e slot name, Promotes w.engine obs e slot name →
      (startNextFromQueue cfg obs e slot name).1.map Prod.fst = ((candidates cfg obs name slot.phase e slot.queue).filter
        fun c => !(startInSlot cfg obs c.1 c.2.1 name c.2.2).1.isOk).map (fun c => c.2.2.id) ∧
      ∀ c ∈ candidates cfg obs name slot.phase e slot.queue, obs.offer c.2.2.id = .error .commandQueueFull → ∀ limit,
        (startInSlot cfg obs c.1 c.2.1 name c.2.2).1 ≠ .error (.resourceLimitReached "controller_pending" limit)) := by
  have h := bounded_of_reachable hw
  refine ⟨h.pending, h.slots, h.queues, h.pump, h.identity, ?_⟩
  intro hphase obs e slot name hpromotes
  obtain ⟨hb, hidle, hnodup, hindexed, hcap⟩ := promotes_ready h (sane_of_reachable hw hphase).coherent hpromotes
  rw [startNextFromQueue, if_pos (SlotState.isIdle_iff.mpr hidle), hidle]
  exact ⟨startNextLoop_deferred .., candidates_room obs name slot.queue e hb hindexed hcap hnodup⟩

def onePending : ControllerConfig := { tinyConfig with maxTotalPending := some .one }

/-- The registry queue has no room for the identity 2. -/
def secondWaits : Observed :=
  { busyRegistry with offer := fun id => if id = 2 then .error .commandQueueFull else .ok () }

def fullRun : List Action :=
  [.send (.submit ⟨1, "a", .queue, none, none⟩), .send (.submit ⟨2, "b", .queue, some "a", none⟩),
    .command busyRegistry none, .command busyRegistry none]

/-- The one pending place is taken by the submission that is promoted into a
capacity wait. -/
theorem resource_bounds_full :
    ∃ w, (machine onePending).after (World.new onePending) fullRun = some w ∧
      w.engine.state.queuedSlots.size + w.engine.state.capacityPending.size = 1 ∧
      (startInSlot onePending secondWaits ((World.dropAdmission w.engine 1 "a").unindexQueued 2) ⟨.idle, []⟩ "a" ⟨2, "b"⟩).1 ≠
        .error (.resourceLimitReached "controller_pending" 1) := by
  obtain ⟨w, hw, hp⟩ := (Option.any_eq_true (fun w : World => decide (w.phase = .looping ∧
      (1, "a") ∈ w.engine.operations.admissions ∧
      w.engine.state.slots.lookup "a" = some ⟨.admitting 1 0, [⟨2, "b"⟩]⟩ ∧
      w.engine.state.queuedSlots.size + w.engine.state.capacityPending.size = 1)) _).mp
    (show (Machine.after (machine onePending) (World.new onePending) fullRun).any _ = true by decide +kernel)
  obtain ⟨hphase, htracked, hslot, hsize⟩ := of_decide_eq_true hp
  obtain ⟨-, -, -, -, -, hroom⟩ := resource_bounds onePending w (Machine.Reachable.after .init hw)
  have hpromotes : Promotes w.engine secondWaits (World.dropAdmission w.engine 1 "a") ⟨.idle, [⟨2, "b"⟩]⟩ "a" :=
    .refused htracked hslot rfl
  exact ⟨w, hw, hsize, (hroom hphase secondWaits _ _ _ hpromotes).2 _ List.mem_cons_self rfl 1⟩

end Runs

end Taskvisor.Controller.Bounds
