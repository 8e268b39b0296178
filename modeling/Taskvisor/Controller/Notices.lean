import Taskvisor.Controller.Frame
import Taskvisor.Controller.Refinement

namespace Taskvisor.Controller.Notices

open Lib Runtime.Base Slot State Admission Abstract Refinement Driver Frame

variable {e₀ e e' : Engine} {cfg : ControllerConfig} {obs : Observed} {slot : SlotState} {name : String}
  {pending : PendingSubmission}

/-- Every rejection event says whom it is about, and why. -/
structure Formed (published : List Event) : Prop where
  rejection : ∀ event ∈ published, event.kind = .controllerRejected → (rejection? event).isSome = true

/-- What the controller has published, and where its identity operations
stand. -/
structure Desk where
  published : List Event
  identityOperations : List (TaskId × IdentityOperation × IdentityReply)
  replied : List (IdentityReply × Except RuntimeError Bool)

def desk (e : Engine) : Desk := ⟨e.published, e.operations.identityOperations, e.replied⟩

/-- From one engine to another only well-formed events are published; no identity
operation is taken up or answered. -/
structure Noted (e₀ : Engine) (d : Desk) : Prop where
  published : ∃ more, Formed more ∧ d.published = e₀.published ++ more
  identityOperations : d.identityOperations = e₀.operations.identityOperations
  replied : d.replied = e₀.replied

theorem Noted.refl (e : Engine) : Noted e (desk e) := ⟨⟨[], ⟨fun _ h => by cases h⟩, (List.append_nil _).symm⟩, rfl, rfl⟩

theorem Noted.publish (h : Noted e₀ (desk e)) {event : Event}
    (hevent : event.kind = .controllerRejected → (rejection? event).isSome = true) : Noted e₀ (desk (e.publish event)) := by
  obtain ⟨more, hmore, he⟩ := h.published
  refine ⟨⟨more ++ [event], ⟨fun other ho => ?_⟩, ?_⟩, h.identityOperations, h.replied⟩
  · rcases List.mem_append.mp ho with ho | ho
    · exact hmore.rejection other ho
    · rw [List.mem_singleton.mp ho]
      exact hevent
  · change e.published ++ [event] = _
    rw [show e.published = e₀.published ++ more from he, List.append_assoc]

theorem Noted.publishSubmitted (h : Noted e₀ (desk e)) (name : String) (id : TaskId) (reason : String) :
    Noted e₀ (desk (e.publishSubmitted name id reason)) := h.publish nofun

theorem Noted.publishTransition (h : Noted e₀ (desk e)) (name reason : String) :
    Noted e₀ (desk (e.publishTransition name reason)) := h.publish nofun

theorem Noted.removeRequested (h : Noted e₀ (desk e)) (name : String) (id : TaskId) (reason : Option String) :
    Noted e₀ (desk (removeRequested e name id reason)) := h.publish nofun

theorem Noted.sendRejected (h : Noted e₀ (desk e)) (obs : Observed) (id : TaskId) (done : Option OutcomeTx)
    (kind : RejectionKind) (reason : String) : Noted e₀ (desk (e.sendRejected obs id done kind reason).2) := by
  cases done <;> exact h

theorem Noted.finalizeRejected (h : Noted e₀ (desk e)) (obs : Observed) (id : TaskId) (kind : RejectionKind)
    (reason : String) : Noted e₀ (desk (e.finalizeRejected obs id kind reason).2) := by
  rw [Engine.finalizeRejected]
  split
  · exact h
  · exact Noted.sendRejected (e := e.removeWatcher id) h ..

/-- The event of a rejection, and its outcome when somebody is parked. -/
theorem Noted.finalize (h : Noted e₀ (desk e)) (obs : Observed) (task : Option String) (id : TaskId) (kind : RejectionKind)
    (reason : String) : Noted e₀ (desk ((e.publish ⟨.controllerRejected, task, some id, some kind, some reason⟩).finalizeRejected
      obs id kind reason).2) := (h.publish fun _ => rfl).finalizeRejected ..

theorem Noted.reject (h : Noted e₀ (desk e)) (watcher : AdmissionWatcher) (obs : Observed) (kind : RejectionKind)
    (reason : String) : Noted e₀ (desk (watcher.reject obs e kind reason).2.1) := by
  cases hstate : watcher.state with
  | localGuard done =>
      cases done with
      | none =>
          simp only [AdmissionWatcher.reject, hstate]
          split <;> exact h
      | some tx =>
          simp only [AdmissionWatcher.reject, hstate]
          split <;> exact h.sendRejected obs watcher.id (some tx) kind reason
  | parked =>
      simp only [AdmissionWatcher.reject, hstate]
      split <;> exact h.finalizeRejected obs watcher.id kind reason
  | committed =>
      simp only [AdmissionWatcher.reject, hstate]
      split <;> exact h

theorem Noted.rejectWithEvent (h : Noted e₀ (desk e)) (watcher : AdmissionWatcher) (obs : Observed) (kind : RejectionKind)
    (reason : String) : Noted e₀ (desk (watcher.rejectWithEvent obs e kind reason).2.1) := by
  rw [AdmissionWatcher.rejectWithEvent]
  split
  · exact h
  · exact (h.publish fun _ => rfl).reject ..

theorem Noted.drop (h : Noted e₀ (desk e)) (watcher : AdmissionWatcher) (obs : Observed) :
    Noted e₀ (desk (watcher.drop obs e)) := by
  rw [AdmissionWatcher.drop]
  split
  · exact h
  · exact h.rejectWithEvent ..

theorem Noted.park (h : Noted e₀ (desk e)) (watcher : AdmissionWatcher) : Noted e₀ (desk (watcher.park e).1) := by
  rw [AdmissionWatcher.park.eq_def]
  split <;> exact h

theorem Noted.restoreWatcher (h : Noted e₀ (desk e)) (id : TaskId) (done : Option OutcomeTx) :
    Noted e₀ (desk (e.restoreWatcher id done)) := by
  cases done <;> exact h

theorem Noted.gcIfIdle (h : Noted e₀ (desk e)) (name : String) (slot : SlotState) :
    Noted e₀ (desk (e.gcIfIdle name slot)) := by
  rw [Engine.gcIfIdle]
  split <;> exact h

theorem Noted.tryGetOrCreateSlot (h : Noted e₀ (desk e)) (hok : e.tryGetOrCreateSlot cfg name = .ok (slot, e')) :
    Noted e₀ (desk e') := by
  rcases tryGetOrCreateSlot_cases cfg e name with ⟨limit, hs⟩ | ⟨s, hs, -⟩ | ⟨hs, -⟩
  · cases hs.symm.trans hok
  · cases hs.symm.trans hok
    exact h
  · cases hs.symm.trans hok
    exact h

theorem Noted.startInSlot (h : Noted e₀ (desk e)) (cfg : ControllerConfig) (obs : Observed) (slot : SlotState)
    (name : String) (pending : PendingSubmission) : Noted e₀ (desk (startInSlot cfg obs e slot name pending).2.1) := by
  have hrestored : Noted e₀
      (desk ((e.removeWatcher pending.id).restoreWatcher pending.id (e.state.watchers.lookup pending.id))) :=
    Noted.restoreWatcher (e := e.removeWatcher pending.id) h ..
  simp only [Admission.startInSlot]
  split
  · exact h
  · split
    · split
      · exact hrestored
      · next indexed hindex =>
        obtain rfl := tryIndexCapacityPending_ok hindex
        split <;> exact hrestored
    · exact hrestored

theorem Noted.startNextLoop (h : Noted e₀ (desk e)) (cfg : ControllerConfig) (obs : Observed) (name : String)
    (phase : SlotPhase) (queue : List PendingSubmission) :
    Noted e₀ (desk (startNextLoop cfg obs name phase e queue).2.1) := by
  induction queue generalizing e with
  | nil => exact h
  | cons next rest ih =>
      have hstart : Noted e₀
          (desk (Admission.startInSlot cfg obs (e.unindexQueued next.id) ⟨phase, rest⟩ name next).2.1) :=
        Noted.startInSlot (e := e.unindexQueued next.id) h ..
      rw [Admission.startNextLoop]
      split
      · next hs =>
        rw [hs] at hstart
        exact hstart.publishSubmitted ..
      · next hs =>
        rw [hs] at hstart
        exact ih (hstart.finalize ..)

theorem Noted.advance (h : Noted e₀ (desk e)) (cfg : ControllerConfig) (obs : Observed) (slot : SlotState) (name : String)
    (goesOn : Bool) : Noted e₀ (desk (advance cfg obs e slot name goesOn).2.1) := by
  rw [Admission.advance]
  split
  · rw [startNextFromQueue]
    split
    · exact h.startNextLoop ..
    · exact h
  · exact h

/-- A slot that is settled moves on and is collected. -/
theorem Noted.settle (h : Noted e₀ (desk e)) (cfg : ControllerConfig) (obs : Observed) (slot : SlotState) (name : String)
    (goesOn : Bool) : Noted e₀ (desk ((Admission.advance cfg obs e slot name goesOn).2.1.gcIfIdle name
      (Admission.advance cfg obs e slot name goesOn).2.2)) := (h.advance ..).gcIfIdle ..

theorem Noted.retireOwner (h : Noted e₀ (desk e)) (obs : Observed) (slot : SlotState) (name : String) :
    Noted e₀ (desk (retireOwner obs e slot name).2.1) := by
  rw [Admission.retireOwner]
  split
  · exact Noted.publishTransition (e := e.trackRemoval _ name) h ..
  · exact h.publishTransition ..
  · exact h

theorem Noted.tryReplaceHeadOrPush (h : Noted e₀ (desk e)) {displaced : Option (TaskId × Option TaskOutcome)}
    {slot' : SlotState} (hok : e.tryReplaceHeadOrPush cfg obs slot name pending = some (displaced, e', slot')) :
    Noted e₀ (desk e') := by
  rw [Engine.tryReplaceHeadOrPush] at hok
  split at hok
  · split at hok
    · cases hok
    · cases hok
      exact h
  · rw [Engine.replaceHeadOrPush.eq_def] at hok
    split at hok
    · cases hok
      exact Noted.finalize (e := (e.unindexQueued _).indexQueued _ _) h ..
    · cases hok
      exact h

theorem Noted.admitIdle (h : Noted e₀ (desk e)) (cfg : ControllerConfig) (obs : Observed) (slot : SlotState)
    (name : String) (pending : PendingSubmission) (admission : AdmissionPolicy) (watcher : AdmissionWatcher) :
    Noted e₀ (desk (admitIdle cfg obs e slot name pending admission watcher).engine) := by
  have hstart := h.startInSlot cfg obs slot name pending
  rw [Admission.admitIdle]
  split
  · next hs =>
    rw [hs] at hstart
    exact hstart.publishSubmitted ..
  · next hs =>
    rw [hs] at hstart
    exact hstart

theorem Noted.replace (h : Noted e₀ (desk e)) (cfg : ControllerConfig) (obs : Observed) (slot : SlotState)
    (name : String) (pending : PendingSubmission) (watcher : AdmissionWatcher) :
    Noted e₀ (desk (replace cfg obs e slot name pending watcher).engine) := by
  rw [Admission.replace.eq_def]
  split
  · exact h
  · next hok => exact ((h.tryReplaceHeadOrPush hok).retireOwner ..).publishSubmitted ..

theorem Noted.queue (h : Noted e₀ (desk e)) (cfg : ControllerConfig) (slot : SlotState) (name : String)
    (pending : PendingSubmission) (watcher : AdmissionWatcher) :
    Noted e₀ (desk (queue cfg e slot name pending watcher).engine) := by
  rw [Admission.queue.eq_def]
  split
  · exact h
  split
  · exact h
  · next hok =>
    simp only [Engine.tryPushQueued] at hok
    split at hok
    · cases hok
    · cases hok
      exact Noted.publishSubmitted (e := e.indexQueued _ _) h ..

theorem Noted.apply (h : Noted e₀ (desk e)) (cfg : ControllerConfig) (obs : Observed) (slot : SlotState) (name : String)
    (pending : PendingSubmission) (admission : AdmissionPolicy) (watcher : AdmissionWatcher) :
    Noted e₀ (desk (apply cfg obs e slot name pending admission watcher).engine) := by
  rw [Admission.apply.eq_def]
  split
  · exact h.admitIdle ..
  split
  · exact h.replace ..
  · exact h.queue ..
  · exact h

theorem Noted.placeSubmission (h : Noted e₀ (desk e)) (cfg : ControllerConfig) (obs : Observed) (slot : SlotState)
    (name : String) (pending : PendingSubmission) (admission : AdmissionPolicy) (watcher : AdmissionWatcher) :
    Noted e₀ (desk (placeSubmission cfg obs e slot name pending admission watcher).1) := by
  have happly := h.apply cfg obs slot name pending admission watcher
  simp only [Admission.placeSubmission]
  split
  · exact (h.rejectWithEvent ..).gcIfIdle ..
  · split
    · exact happly
    · exact happly.rejectWithEvent ..
    · exact (happly.rejectWithEvent ..).gcIfIdle ..

theorem Noted.handleSubmission (h : Noted e₀ (desk e)) (cfg : ControllerConfig) (obs : Observed) (cut : Option AwaitPoint)
    (sub : Submission) : Noted e₀ (desk (handleSubmission cfg obs cut e sub)) := by
  suffices hbody : Noted e₀ (desk (submissionBody cfg obs cut e sub).1) from hbody.drop ..
  simp only [submissionBody]
  split
  · exact h.rejectWithEvent ..
  split
  · exact h.rejectWithEvent ..
  split
  · exact h
  split
  · exact h.rejectWithEvent ..
  have hpark := h.park (((AdmissionWatcher.new sub.id sub.done (some sub.slotName)).takePending sub.taskName).2)
  split
  · exact hpark.rejectWithEvent ..
  · next hok =>
    have hslot := hpark.tryGetOrCreateSlot hok
    split
    · exact hslot
    · exact hslot.placeSubmission ..

theorem Noted.handleRegistryCapacityResult (h : Noted e₀ (desk e)) (cfg : ControllerConfig) (obs : Observed)
    (id : TaskId) (decision : Except RuntimeError Unit) :
    Noted e₀ (desk (handleRegistryCapacityResult cfg obs e id decision)) := by
  have hstale : Noted e₀ (desk (interruptCapacity obs e id)) := by
    simp only [interruptCapacity, claimCapacityPending.eq_def]
    split
    · next hclaim =>
      split at hclaim
      · cases hclaim
      · cases hclaim
        exact Noted.sendRejected
          (e := ((e.removeCapacity id).removeWatcher id).publishRejected ..) (h.publish fun _ => rfl) ..
    · exact h
  simp only [Admission.handleRegistryCapacityResult, claimCapacityPending.eq_def]
  split
  · exact h
  split
  · exact hstale
  split
  · exact hstale
  split
  · exact h
  · next hclaim =>
    split at hclaim
    · cases hclaim
    · cases hclaim
      split
      · exact h
      · exact ((Noted.restoreWatcher (e := (e.removeCapacity id).removeWatcher id) h ..).finalize ..).settle ..

theorem Noted.handleAdmissionResult (h : Noted e₀ (desk e)) (cfg : ControllerConfig) (obs : Observed) (id : TaskId)
    (name : String) (accepted : Bool) : Noted e₀ (desk (handleAdmissionResult cfg obs e id name accepted)) := by
  rw [Admission.handleAdmissionResult.eq_def]
  split
  · exact h
  split
  · split
    · exact Noted.publishTransition (e := e.trackCompletion id name) h ..
    · simp only
      split <;> exact h
    · exact h
  · split
    · exact h
    · exact h.settle ..

theorem Noted.handleCompletionResult (h : Noted e₀ (desk e)) (cfg : ControllerConfig) (obs : Observed) (id : TaskId)
    (name : String) : Noted e₀ (desk (handleCompletionResult cfg obs e id name)) := by
  rw [Admission.handleCompletionResult.eq_def]
  split
  · exact h
  split
  · exact h
  split
  · exact h
  · exact h.settle ..

theorem Noted.handleRemovalResult (h : Noted e₀ (desk e)) (id : TaskId) (name : String)
    (decision : Except RuntimeError Bool) : Noted e₀ (desk (handleRemovalResult e id name decision)) := by
  rw [Admission.handleRemovalResult.eq_def]
  split
  · exact h
  split
  · exact h
  split
  · exact h
  · exact h.publish (by rintro ⟨⟩)

theorem Noted.rejectRemoved (h : Noted e₀ (desk e)) (obs : Observed) (slotName taskName : String) (id : TaskId)
    (done : Option OutcomeTx) (reason : Option String) :
    Noted e₀ (desk (rejectRemoved obs e slotName taskName id done reason).2) := by
  have hcancel : Noted e₀ (desk (e.setPump (e.operations.capacity.cancel id).2)) := h
  have hnoted : Noted e₀ (desk ((Driver.removeRequested (e.setPump (e.operations.capacity.cancel id).2) taskName id
      reason).publishRejected slotName id .removedFromQueue Reasons.removedFromQueue)) :=
    (hcancel.removeRequested ..).publish fun _ => rfl
  exact hnoted.sendRejected ..

theorem Noted.removeQueuedSubmission (h : Noted e₀ (desk e)) (cfg : ControllerConfig) (obs : Observed) (id : TaskId)
    (reason : Option String) : Noted e₀ (desk (removeQueuedSubmission cfg obs e id reason).2) := by
  rw [Driver.removeQueuedSubmission.eq_def]
  split
  · exact h
  split
  · simp only [removeUntracked, claimCapacityPending.eq_def]
    split
    · next hclaim =>
      split at hclaim
      · split at hclaim
        · cases hclaim
        · cases hclaim
          exact Noted.rejectRemoved (e := (e.removeCapacity id).removeWatcher id) h ..
      · cases hclaim
    · exact h
  · simp only [removeRouted, claimCapacityPending.eq_def]
    split
    · exact h
    split
    · next hclaim =>
      split at hclaim
      · cases hclaim
      · cases hclaim
        exact (Noted.rejectRemoved (e := (e.removeCapacity id).removeWatcher id) h ..).settle ..
    · split
      · exact h
      · exact Noted.gcIfIdle (Noted.finalize (e := (Driver.removeRequested e _ id reason).unindexQueued id)
          (h.removeRequested ..) ..) ..

/-- How an identity command is answered at once, or taken up. -/
inductive Managed (cfg : ControllerConfig) (obs : Observed) (e : Engine) (id : TaskId) (operation : IdentityOperation)
    (reply : IdentityReply) : Engine → Prop
  | refused (e' : Engine) (error : RuntimeError) (h : Noted e (desk e')) :
      Managed cfg obs e id operation reply (e'.reply reply (.error error))
  | removed (e' : Engine) (hremoved : removeQueuedSubmission cfg obs e id operation.requestReason = (true, e')) :
      Managed cfg obs e id operation reply (e'.reply reply (.ok true))
  | tracked (e' : Engine) (hremoved : removeQueuedSubmission cfg obs e id operation.requestReason = (false, e'))
      (hopen : obs.shutdown 2 = false) :
      Managed cfg obs e id operation reply
        { e' with operations := { e'.operations with
            identityOperations := e'.operations.identityOperations ++ [(id, operation, reply)] } }

theorem handleIdentityOperation_cases (cfg : ControllerConfig) (obs : Observed) (e : Engine) (id : TaskId)
    (operation : IdentityOperation) (reply : IdentityReply) :
    Managed cfg obs e id operation reply (handleIdentityOperation cfg obs e id operation reply) := by
  have hremove := (Noted.refl e).removeQueuedSubmission cfg obs id operation.requestReason
  rw [Driver.handleIdentityOperation]
  split
  · exact .refused e _ (.refl e)
  split
  · next e' hr => exact .removed e' hr
  · next e' hr =>
    rw [hr] at hremove
    split
    · exact .refused e' _ hremove
    split
    · exact .refused e' _ hremove
    split
    · exact .refused e' _ hremove
    · next hopen _ _ => exact .tracked e' hr (by simpa using hopen)

theorem Noted.drainSubmission (h : Noted e₀ (desk e)) (obs : Observed) (sub : Submission) :
    Noted e₀ (desk (drainCommand obs e (.submit sub))) :=
  Noted.sendRejected (e := e.publishRejected ..) (h.publish fun _ => rfl) ..

theorem Noted.finalizeCapacity (h : Noted e₀ (desk e)) (obs : Observed) (entries : List (TaskId × CapacityPending)) :
    Noted e₀ (desk (finalizeCapacity obs e entries).1) := by
  induction entries generalizing e with
  | nil => exact h
  | cons entry rest ih => exact ih (h.finalize ..)

theorem Noted.finalizeQueue (h : Noted e₀ (desk e)) (obs : Observed) (name : String) (queue : List PendingSubmission) :
    Noted e₀ (desk (finalizeQueue obs name e queue).1) := by
  induction queue generalizing e with
  | nil => exact h
  | cons pending rest ih => exact ih (Noted.finalize (e := e.unindexQueued pending.id) h ..)

theorem Noted.finalizeSlots (h : Noted e₀ (desk e)) (obs : Observed) (slots : List (String × SlotState)) :
    Noted e₀ (desk (finalizeSlots obs e slots).1) := by
  induction slots generalizing e with
  | nil => exact h
  | cons slot rest ih => exact ih (h.finalizeQueue ..)

theorem Noted.finalizeRemainingWatchers (h : Noted e₀ (desk e)) (obs : Observed) (keys : List TaskId) :
    Noted e₀ (desk (finalizeRemainingWatchers obs e keys)) := by
  induction keys generalizing e with
  | nil => exact h
  | cons key rest ih => exact ih (h.finalize ..)

theorem Noted.finalizeSlotStateOnShutdown (h : Noted e₀ (desk e)) (obs : Observed) :
    Noted e₀ (desk (finalizeSlotStateOnShutdown obs e)) :=
  ((Noted.finalizeCapacity (e := { e with state := { e.state with capacityPending := ∅ } }) h ..).finalizeSlots
    ..).finalizeRemainingWatchers ..

/-- Everything one step can do at the desk. -/
inductive Filed (cfg : ControllerConfig) (w : World) : Action → World → Prop
  | noted {a : Action} {w' : World} (h : Noted w.engine (desk w'.engine)) : Filed cfg w a w'
  | managed (obs : Observed) (cut : Option AwaitPoint) {id : TaskId} {operation : IdentityOperation} {reply : IdentityReply}
      {rest : List ControllerCommand} {e : Engine} (hphase : w.phase = .looping)
      (hcommands : w.commands = .manageIdentity id operation reply :: rest)
      (hmanaged : Managed cfg obs w.engine id operation reply e) :
      Filed cfg w (.command obs cut) { w with commands := rest, engine := e }
  | resulted (op : TaskId × IdentityOperation × IdentityReply) (result : Except RuntimeError Bool)
      (hop : op ∈ w.engine.operations.identityOperations) :
      Filed cfg w (.identityResult op result) { w with engine := (World.dropIdentity w.engine op).reply op.2.2 result }
  | stopped : Filed cfg w .stop { w with phase := .draining, engine := dropOperations cfg w.engine }
  | drained (obs : Observed) (id : TaskId) (operation : IdentityOperation) (reply : IdentityReply)
      (rest : List ControllerCommand) :
      Filed cfg w (.drain obs) { w with commands := rest, engine := w.engine.reply reply (.error .shuttingDown) }

theorem looping_phase {w w' : World} (h : w.looping e = some w') : w.phase = .looping := by
  rw [World.looping] at h
  split at h
  · assumption
  · cases h

theorem step_filed {w w' : World} {a : Action} (hstep : World.step cfg w a = some w') : Filed cfg w a w' := by
  have h := Noted.refl w.engine
  cases a with
  | send command =>
      simp only [World.step] at hstep
      split at hstep
      · cases hstep
        exact .noted h
      · cases hstep
  | command obs cut =>
      cases hcommands : w.commands with
      | nil => simp [World.step, hcommands] at hstep
      | cons command rest =>
          simp only [World.step, hcommands] at hstep
          have hphase := looping_phase hstep
          obtain rfl := looping_eq hstep
          cases command with
          | submit sub => exact .noted (h.handleSubmission ..)
          | manageIdentity id operation reply =>
              exact .managed obs cut hphase hcommands (handleIdentityOperation_cases ..)
  | capacityResult obs decision =>
      simp only [World.step] at hstep
      split at hstep
      · cases hstep
      · next id pump hnext =>
        obtain rfl := looping_eq hstep
        exact .noted (Noted.handleRegistryCapacityResult (e := w.engine.setPump pump) h ..)
  | admissionResult obs id slotName accepted =>
      simp only [World.step] at hstep
      split at hstep
      · obtain rfl := looping_eq hstep
        exact .noted (Noted.handleAdmissionResult (e := World.dropAdmission w.engine id slotName) h ..)
      · cases hstep
  | completionResult obs id slotName =>
      simp only [World.step] at hstep
      split at hstep
      · obtain rfl := looping_eq hstep
        exact .noted (Noted.handleCompletionResult (e := World.dropCompletion w.engine id slotName) h ..)
      · cases hstep
  | removalResult id slotName decision =>
      simp only [World.step] at hstep
      split at hstep
      · obtain rfl := looping_eq hstep
        exact .noted (Noted.handleRemovalResult (e := World.dropRemoval w.engine id slotName) h ..)
      · cases hstep
  | identityResult op result =>
      simp only [World.step] at hstep
      split at hstep
      · next hop =>
        obtain rfl := looping_eq hstep
        exact .resulted op result hop
      · cases hstep
  | stop =>
      simp only [World.step] at hstep
      split at hstep
      · cases hstep
        exact .stopped
      · cases hstep
  | drain obs =>
      simp only [World.step] at hstep
      split at hstep
      · next command rest _ _ =>
        cases hstep
        cases command with
        | submit sub => exact .noted (h.drainSubmission ..)
        | manageIdentity id operation reply => exact .drained obs id operation reply rest
      · cases hstep
  | finalize obs =>
      simp only [World.step] at hstep
      split at hstep
      · cases hstep
        exact .noted (h.finalizeSlotStateOnShutdown obs)
      · cases hstep
  | finish obs =>
      simp only [World.step] at hstep
      split at hstep
      · cases hstep
        exact .noted (h.finalizeSlotStateOnShutdown obs)
      · cases hstep

theorem Managed.published {id : TaskId} {operation : IdentityOperation} {reply : IdentityReply}
    (h : Managed cfg obs e id operation reply e') : ∃ more, Formed more ∧ e'.published = e.published ++ more := by
  have hremove := (Noted.refl e).removeQueuedSubmission cfg obs id operation.requestReason
  cases h with
  | refused e' error hnoted => exact hnoted.published
  | removed e' hr =>
      rw [hr] at hremove
      exact hremove.published
  | tracked e' hr =>
      rw [hr] at hremove
      exact hremove.published

theorem published_step {w w' : World} {a : Action} (hstep : World.step cfg w a = some w') :
    ∃ more, Formed more ∧ w'.engine.published = w.engine.published ++ more := by
  cases step_filed hstep with
  | noted hnoted => exact hnoted.published
  | managed obs cut _ _ hmanaged => exact hmanaged.published
  | _ => exact (Noted.refl w.engine).published

theorem Formed.step {w w' : World} {a : Action} (h : Formed w.engine.published) (hstep : World.step cfg w a = some w') :
    Formed w'.engine.published := by
  obtain ⟨more, hmore, he⟩ := published_step hstep
  rw [he]
  refine ⟨fun event hm => ?_⟩
  exact (List.mem_append.mp hm).elim (h.rejection event) (hmore.rejection event)

theorem Managed.replied {id : TaskId} {operation : IdentityOperation} {reply : IdentityReply}
    (h : Managed cfg obs e id operation reply e') : e.replied <+: e'.replied := by
  have hremove := (Noted.refl e).removeQueuedSubmission cfg obs id operation.requestReason
  cases h with
  | refused e' error hnoted =>
      have hsame : e'.replied = e.replied := hnoted.replied
      exact hsame ▸ List.prefix_append _ _
  | removed e' hr =>
      rw [hr] at hremove
      have hsame : e'.replied = e.replied := hremove.replied
      exact hsame ▸ List.prefix_append _ _
  | tracked e' hr =>
      rw [hr] at hremove
      have hsame : e'.replied = e.replied := hremove.replied
      exact ⟨[], by rw [List.append_nil, ← hsame]⟩

/-- No reply is taken back. -/
theorem replied_kept {w w' : World} {a : Action} (hstep : World.step cfg w a = some w') :
    w.engine.replied <+: w'.engine.replied := by
  cases step_filed hstep with
  | noted hnoted =>
      have hsame : w'.engine.replied = w.engine.replied := hnoted.replied
      exact ⟨[], by rw [List.append_nil, hsame]⟩
  | managed obs cut _ _ hmanaged => exact hmanaged.replied
  | resulted | stopped | drained => exact List.prefix_append _ _

end Taskvisor.Controller.Notices
