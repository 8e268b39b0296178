import Taskvisor.Controller.Frame
import Taskvisor.Controller.Tracking

namespace Taskvisor.Controller.Retirement

open Lib Runtime.Base Slot State Admission Abstract Bridge Coherence Refinement Driver Frame Index Tracking

/-- The controller with the removals it has ordered, the Adds the registry has
decided, and whether the core answered whenever a removal was due. -/
structure Ledger where
  world : World
  orders : List (TaskId × String)
  accepted : List TaskId
  refused : List TaskId
  alive : Bool

def decided (side : Bool) : Action → List TaskId
  | .admissionResult _ id _ accepted => if accepted = side then [id] else []
  | _ => []

def coreAlive : Action → Bool
  | .admissionResult obs _ _ _ => obs.supervisor 0
  | _ => true

/-- The removals tracked by one step. -/
def ordered (w w' : World) : List (TaskId × String) :=
  w'.engine.operations.removals.drop w.engine.operations.removals.length

def Ledger.step (cfg : ControllerConfig) (l : Ledger) (a : Action) : Option Ledger :=
  (World.step cfg l.world a).map fun w =>
    ⟨w, l.orders ++ ordered l.world w, l.accepted ++ decided true a, l.refused ++ decided false a, l.alive && coreAlive a⟩

def ledger (cfg : ControllerConfig) : Machine Ledger Action := ⟨⟨World.new cfg, [], [], [], true⟩, Ledger.step cfg⟩

/-- How far the ownership of a slot has come. -/
def stage : SlotPhase → Nat
  | .idle => 0
  | .admitting _ _ => 1
  | .cancelPendingAdmission _ _ => 1
  | .running _ _ => 2
  | .terminating _ _ => 3

variable {cfg : ControllerConfig} {obs : Observed} {e e₀ e' : Engine} {slot slot' : SlotState} {name : String} {id : TaskId}
  {w w' : World} {a : Action}

theorem stage_undecided (howner : slot.ownerId = some id) : stage slot.phase = 1 ↔ slot.phase.undecided = some id := by
  cases hp : slot.phase <;> simp_all [stage, SlotState.ownerId, SlotPhase.ownerId, SlotPhase.undecided]

/-- The owner of a slot is one that was there at the same stage, or one that
was not handed over before. -/
def Kept (e : Engine) (name : String) (slot' : SlotState) : Prop :=
  ∀ id, slot'.ownerId = some id →
    (slot'.phase.undecided = some id ∧ id ∉ e.handed.map Handoff.id) ∨
    ∃ slot, e.state.slots.lookup name = some slot ∧ slot.ownerId = some id ∧ stage slot.phase = stage slot'.phase

theorem Kept.of_none (h : slot'.ownerId = none) : Kept e name slot' := fun id hid => by cases h.symm.trans hid

theorem Kept.of_stage (hslot : e.state.slots.lookup name = some slot) (howner : slot'.ownerId = slot.ownerId)
    (hstage : stage slot'.phase = stage slot.phase) : Kept e name slot' :=
  fun _ hid => .inr ⟨slot, hslot, howner ▸ hid, hstage.symm⟩

/-- Whoever owns the slot was not handed over before. -/
def Fresh (e : Engine) (slot' : SlotState) : Prop :=
  ∀ id, slot'.ownerId = some id → slot'.phase.undecided = some id ∧ id ∉ e.handed.map Handoff.id

theorem Fresh.kept (h : Fresh e slot') (name : String) : Kept e name slot' := fun id hid => .inl (h id hid)

theorem Fresh.newcomer {since : Instant} {queue : List PendingSubmission} (h : id ∉ e.handed.map Handoff.id) :
    Fresh e ⟨.admitting id since, queue⟩ := by
  intro other hother
  obtain rfl := Option.some.inj hother
  exact ⟨rfl, h⟩

/-- A step that orders no removal and confirms no owner. -/
structure Quiet (e e' : Engine) (name : String) : Prop where
  others : ∀ other, other ≠ name → e'.state.slots.lookup other = e.state.slots.lookup other
  kept : ∀ slot', e'.state.slots.lookup name = some slot' → Kept e name slot'
  removals : e'.operations.removals = e.operations.removals

section Quiet

theorem Quiet.refl (e : Engine) (name : String) : Quiet e e name where
  others := fun _ _ => rfl
  kept := fun _ hslot' => .of_stage hslot' rfl rfl
  removals := rfl

/-- A handler that has only changed what the effect does not see afterwards. -/
theorem Quiet.of_slots_eq {e'' : Engine} (h : Quiet e₀ e' name) (hslots : e''.state.slots = e'.state.slots)
    (hremovals : e''.operations.removals = e'.operations.removals) : Quiet e₀ e'' name where
  others := by
    rw [hslots]
    exact h.others
  kept := by
    rw [hslots]
    exact h.kept
  removals := hremovals.trans h.removals

theorem Quiet.of_books (h : books e' = books e) (name : String) : Quiet e e' name :=
  (Quiet.refl e name).of_slots_eq (congrArg Books.slots h) (congrArg (fun b : Books => b.operations.removals) h)

/-- The engine of a handler that has touched at most the slot it locks. -/
structure Locked (e₀ e : Engine) (name : String) : Prop where
  others : ∀ other, other ≠ name → e.state.slots.lookup other = e₀.state.slots.lookup other
  removals : e.operations.removals = e₀.operations.removals

theorem Locked.put (h : Locked e₀ e name) (hkept : Kept e₀ name slot) : Quiet e₀ (e.putSlot name slot) name where
  others := fun other hne => (Table.lookup_insert_ite ..).trans ((if_neg hne).trans (h.others other hne))
  kept := fun slot' hslot' => by
    have hfound := hslot'.symm.trans (AList.lookup_insert e.state.slots)
    obtain rfl := Option.some.inj hfound
    exact hkept
  removals := h.removals

theorem lookup_gcIfIdle (h : (e.gcIfIdle name slot).state.slots.lookup name = some slot') : slot' = slot := by
  rw [Engine.gcIfIdle] at h
  split at h
  · cases h.symm.trans (AList.lookup_erase name e.state.slots)
  · exact Option.some.inj (h.symm.trans (AList.lookup_insert e.state.slots))

theorem Locked.gc (h : Locked e₀ e name) (hkept : Kept e₀ name slot) : Quiet e₀ (e.gcIfIdle name slot) name where
  others := fun other hne => by
    rw [← h.others other hne, Engine.gcIfIdle]
    split
    · exact (Table.lookup_erase_ite ..).trans (if_neg hne)
    · exact (Table.lookup_insert_ite ..).trans (if_neg hne)
  kept := fun slot' hslot' => by
    rw [lookup_gcIfIdle hslot']
    exact hkept
  removals := by
    rw [Engine.gcIfIdle]
    split <;> exact h.removals

theorem Locked.of_books {e'' : Engine} (h : Locked e₀ e name) (hbooks : books e'' = books e) : Locked e₀ e'' name where
  others := fun other hne => by
    rw [show e''.state.slots = e.state.slots from congrArg Books.slots hbooks]
    exact h.others other hne
  removals := (congrArg (fun b : Books => b.operations.removals) hbooks).trans h.removals

/-- The owner is gone: whoever takes the slot was waiting in its queue. -/
theorem Locked.settle (h : Locked e₀ e name) (cfg : ControllerConfig) (obs : Observed) (goesOn : Bool)
    (queue : List PendingSubmission) (hqueue : ∀ pending ∈ queue, pending.id ∉ e₀.handed.map Handoff.id) :
    Quiet e₀ ((advance cfg obs e ⟨.idle, queue⟩ name goesOn).2.1.gcIfIdle name
        (advance cfg obs e ⟨.idle, queue⟩ name goesOn).2.2) name ∧
      ∀ slot', ((advance cfg obs e ⟨.idle, queue⟩ name goesOn).2.1.gcIfIdle name
        (advance cfg obs e ⟨.idle, queue⟩ name goesOn).2.2).state.slots.lookup name = some slot' → Fresh e₀ slot' := by
  suffices hfresh : Locked e₀ (advance cfg obs e ⟨.idle, queue⟩ name goesOn).2.1 name ∧
      Fresh e₀ (advance cfg obs e ⟨.idle, queue⟩ name goesOn).2.2 by
    refine ⟨hfresh.1.gc (hfresh.2.kept name), fun slot' hslot' => ?_⟩
    rw [lookup_gcIfIdle hslot']
    exact hfresh.2
  cases goesOn with
  | false => exact ⟨h, nofun⟩
  | true =>
      obtain ⟨hslots, hremovals, hslot⟩ := startNextLoop_frame cfg obs name queue e
      refine ⟨⟨fun other hne => ?_, hremovals.trans h.removals⟩, ?_⟩
      · change (startNextLoop cfg obs name .idle e queue).2.1.state.slots.lookup other = _
        rw [hslots]
        exact h.others other hne
      · change Fresh e₀ (startNextLoop cfg obs name .idle e queue).2.2
        rcases hslot with heq | ⟨next, hnext, rest, heq⟩
        · rw [heq]
          exact nofun
        · rw [heq]
          exact .newcomer (hqueue next hnext)

theorem Locked.refl (e : Engine) (name : String) : Locked e e name := ⟨fun _ _ => rfl, rfl⟩

end Quiet

/-- The running owner of a slot is replaced, and its removal is ordered. -/
structure Replaced (e e' : Engine) (name : String) (id : TaskId) : Prop where
  others : ∀ other, other ≠ name → e'.state.slots.lookup other = e.state.slots.lookup other
  running : ∃ slot, e.state.slots.lookup name = some slot ∧ slot.ownerId = some id ∧ stage slot.phase = 2
  retiring : ∃ slot, e'.state.slots.lookup name = some slot ∧ slot.ownerId = some id ∧ stage slot.phase = 3
  removals : e'.operations.removals = e.operations.removals ++ [(id, name)]

/-- What one step does to the ownership of the slots. -/
inductive Effect (w : World) (a : Action) (w' : World) : Prop
  | rest (hslots : ∀ name slot, w'.engine.state.slots.lookup name = some slot → w.engine.state.slots.lookup name = some slot)
      (hremovals : w'.engine.operations.removals.length ≤ w.engine.operations.removals.length)
      (hside : ∀ side, decided side a = []) : Effect w a w'
  | quiet {name : String} (hlooping : w.phase = .looping) (hquiet : Quiet w.engine w'.engine name) (hside : ∀ side, decided side a = []) : Effect w a w'
  | refused {name : String} {slot : SlotState} {id : TaskId} (hlooping : w.phase = .looping)
      (hquiet : Quiet w.engine w'.engine name) (hhanded : id ∈ w.engine.handed.map Handoff.id)
      (hslot : w.engine.state.slots.lookup name = some slot) (hphase : slot.phase.undecided = some id)
      (hgone : ∀ other s, w'.engine.state.slots.lookup other = some s → s.ownerId ≠ some id)
      (htrue : decided true a = []) (hfalse : decided false a = [id]) : Effect w a w'
  | confirmed {name : String} {slot slot' : SlotState} {id : TaskId} (hlooping : w.phase = .looping)
      (hhanded : id ∈ w.engine.handed.map Handoff.id)
      (hothers : ∀ other, other ≠ name → w'.engine.state.slots.lookup other = w.engine.state.slots.lookup other)
      (hunique : ∀ other s, w.engine.state.slots.lookup other = some s → s.ownerId = some id → other = name)
      (hslot : w.engine.state.slots.lookup name = some slot) (hphase : slot.phase.undecided = some id)
      (hslot' : w'.engine.state.slots.lookup name = some slot') (howner' : slot'.ownerId = some id)
      (hstage : stage slot'.phase = 2 ∧ w'.engine.operations.removals = w.engine.operations.removals ∨
        stage slot'.phase = 3 ∧ w'.engine.operations.removals = w.engine.operations.removals ++ [(id, name)] ∨
        stage slot'.phase = 3 ∧ w'.engine.operations.removals = w.engine.operations.removals ∧ coreAlive a = false)
      (htrue : decided true a = [id]) (hfalse : decided false a = []) : Effect w a w'
  | replaced {name : String} {id : TaskId} (hlooping : w.phase = .looping) (hreplaced : Replaced w.engine w'.engine name id)
      (hunique : ∀ other s, w.engine.state.slots.lookup other = some s → s.ownerId = some id → other = name)
      (hside : ∀ side, decided side a = []) : Effect w a w'

section Results

variable {place : TaskId → String}

theorem queue_unhanded (hcoh : Coherent (board e)) (ht : Tracked place (board e))
    (hslot : e.state.slots.lookup name = some slot) :
    ∀ pending ∈ slot.queue, pending.id ∉ e.handed.map Handoff.id := by
  intro pending hp hhanded
  have hq := hcoh.queued_of_mem hslot (List.mem_map_of_mem hp)
  cases ((ht.unhanded pending.id hhanded).1).symm.trans hq

theorem owner_unique (ht : Tracked place (board e)) (hslot : e.state.slots.lookup name = some slot)
    (howner : slot.ownerId = some id) (other : String) (s : SlotState) (hs : e.state.slots.lookup other = some s)
    (hid : s.ownerId = some id) : other = name :=
  (ht.owner other s id hs hid).symm.trans (ht.owner name slot id hslot howner)

theorem admissionResult_effect (hlooping : w.phase = .looping) (hcoh : Coherent (board w.engine)) (ht : Tracked place (board w.engine)) (obs : Observed)
    (hin : (id, name) ∈ w.engine.operations.admissions) (hhanded : id ∈ w.engine.handed.map Handoff.id) (accepted : Bool) :
    Effect w (.admissionResult obs id name accepted)
      { w with engine := handleAdmissionResult cfg obs (World.dropAdmission w.engine id name) id name accepted } := by
  obtain ⟨slot, hslot, hu⟩ := ht.admission id name hin
  have hslot' : (World.dropAdmission w.engine id name).state.slots.lookup name = some slot := hslot
  have howner := SlotState.ownerId_of_undecided hu
  have hunique := owner_unique ht hslot howner
  cases accepted with
  | true =>
      have hothers (s : SlotState) (other : String) (hne : other ≠ name) :
          (w.engine.state.slots.insert name s).lookup other = w.engine.state.slots.lookup other :=
        (Table.lookup_insert_ite ..).trans (if_neg hne)
      cases hphase : slot.phase with
      | admitting current since =>
          have hu' := hu
          rw [hphase] at hu'
          obtain rfl := Option.some.inj hu'
          simp only [handleAdmissionResult, hslot', if_true, SlotState.confirmAdmission, hphase]
          have hnew := AList.lookup_insert (b := { slot with phase := .running current obs.now }) (a := name)
            w.engine.state.slots
          exact .confirmed hlooping hhanded (hothers _) hunique hslot hu hnew rfl (.inl ⟨rfl, rfl⟩) rfl rfl
      | cancelPendingAdmission current since =>
          have hu' := hu
          rw [hphase] at hu'
          obtain rfl := Option.some.inj hu'
          have hnew := AList.lookup_insert (b := { slot with phase := .terminating current since }) (a := name)
            w.engine.state.slots
          simp only [handleAdmissionResult, hslot', if_true, SlotState.confirmAdmission, hphase]
          cases halive : obs.supervisor 0 with
          | true => exact .confirmed hlooping hhanded (hothers _) hunique hslot hu hnew rfl (.inr (.inl ⟨rfl, rfl⟩)) rfl rfl
          | false => exact .confirmed hlooping hhanded (hothers _) hunique hslot hu hnew rfl (.inr (.inr ⟨rfl, rfl, halive⟩)) rfl rfl
      | _ =>
          rw [hphase] at hu
          cases hu
  | false =>
      have hlocked : Locked w.engine (World.dropAdmission w.engine id name) name := ⟨fun _ _ => rfl, rfl⟩
      obtain ⟨hquiet, hfresh⟩ := hlocked.settle cfg obs (!obs.shutdown 0 && obs.supervisor 0) slot.queue
        (queue_unhanded hcoh ht hslot)
      have heq : (handleAdmissionResult cfg obs (World.dropAdmission w.engine id name) id name false) =
          ((advance cfg obs (World.dropAdmission w.engine id name) { slot with phase := .idle } name
            (!obs.shutdown 0 && obs.supervisor 0)).2.1.gcIfIdle name
              (advance cfg obs (World.dropAdmission w.engine id name) { slot with phase := .idle } name
                (!obs.shutdown 0 && obs.supervisor 0)).2.2).disposeAll
                  (advance cfg obs (World.dropAdmission w.engine id name) { slot with phase := .idle } name
                    (!obs.shutdown 0 && obs.supervisor 0)).1 := by
        simp only [handleAdmissionResult, hslot', Bool.false_eq_true, if_false, SlotState.rejectAdmission_eq, if_pos hu]
      rw [heq]
      refine .refused hlooping (hquiet.of_slots_eq rfl rfl) hhanded hslot hu ?_ rfl rfl
      intro other s hs hid
      by_cases hne : other = name
      · subst hne
        exact (hfresh s hs id hid).2 hhanded
      · exact hne (hunique other s ((hquiet.others other hne).symm.trans hs) hid)

theorem completionResult_quiet (hcoh : Coherent (board e)) (ht : Tracked place (board e)) (cfg : ControllerConfig)
    (obs : Observed) (id : TaskId) (name : String) :
    Quiet e (handleCompletionResult cfg obs (World.dropCompletion e id name) id name) name := by
  have hlocked : Locked e (World.dropCompletion e id name) name := ⟨fun _ _ => rfl, rfl⟩
  have hstale : Quiet e (World.dropCompletion e id name) name := (Quiet.refl e name).of_slots_eq rfl rfl
  rw [handleCompletionResult]
  split
  · exact hstale
  cases hslot : (World.dropCompletion e id name).state.slots.lookup name with
  | none => exact hstale
  | some slot =>
      simp only [SlotState.completeOwner_eq]
      by_cases ha : slot.phase.accepted = some id
      · simp only [if_pos ha]
        exact (hlocked.settle cfg obs _ slot.queue (queue_unhanded hcoh ht hslot)).1.of_slots_eq rfl rfl
      · simp only [if_neg ha]
        exact hstale

/-- A waiter is claimed and rejected; its slot clears and moves on. -/
theorem releaseCapacity_quiet (hcoh : Coherent (board e)) (ht : Tracked place (board e)) (cfg : ControllerConfig)
    (obs : Observed) (goesOn : Bool) (hslot : e.state.slots.lookup name = some slot)
    (hu : slot.phase.undecided = some id) (hslots : e'.state.slots = e.state.slots)
    (hremovals : e'.operations.removals = e.operations.removals) :
    Quiet e ((advance cfg obs e' (slot.rejectAdmission id).2 name goesOn).2.1.gcIfIdle name
      (advance cfg obs e' (slot.rejectAdmission id).2 name goesOn).2.2) name := by
  have hlocked : Locked e e' name := ⟨fun _ _ => by rw [hslots], hremovals⟩
  rw [SlotState.rejectAdmission_eq, if_pos hu]
  exact (hlocked.settle cfg obs goesOn slot.queue (queue_unhanded hcoh ht hslot)).1

theorem capacityResult_quiet (hcoh : Coherent (board e)) (ht : Tracked place (board e)) (cfg : ControllerConfig)
    (obs : Observed) (decision : Except RuntimeError Unit) {pump : CapacityAdmissionPump}
    (hnext : e.operations.capacity.next = some (id, pump)) :
    ∃ name, Quiet e (handleRegistryCapacityResult cfg obs (e.setPump pump) id decision) name := by
  obtain ⟨entry, slot, hentry, -, hslot, hu⟩ := capacity_entry hcoh (by
    rw [(waiting_next hnext).1]
    exact List.mem_cons_self)
  have howner := SlotState.ownerId_of_undecided hu
  have hentry' : (e.setPump pump).state.capacityPending.lookup id = some entry := hentry
  have hslot' : (e.setPump pump).state.slots.lookup entry.slotName = some slot := hslot
  refine ⟨entry.slotName, ?_⟩
  simp only [handleRegistryCapacityResult, hentry', hslot', howner, ne_eq, not_true, if_false,
    claimCapacityPending_eq hentry']
  cases commitReserved obs decision with
  | ok _ => exact (Quiet.refl e _).of_slots_eq rfl rfl
  | error error =>
      have hbooks (kind : RejectionKind) (reason : String) :
          books ((((((e.setPump pump).removeCapacity id).removeWatcher id).restoreWatcher id
            ((e.setPump pump).state.watchers.lookup id)).publishRejected entry.slotName id kind reason).finalizeRejected obs
              id kind reason).2 = books ((e.setPump pump).removeCapacity id) :=
        (books_finalizeRejected ..).trans (books_takeRestore ((e.setPump pump).removeCapacity id) id _)
      simp only [failCapacity]
      refine (releaseCapacity_quiet hcoh ht cfg obs _ hslot hu ?_ ?_).of_slots_eq rfl rfl
      · exact congrArg Books.slots (hbooks _ _)
      · exact congrArg (fun b : Books => b.operations.removals) (hbooks _ _)

theorem identity_quiet (hcoh : Coherent (board e)) (ht : Tracked place (board e)) (cfg : ControllerConfig)
    (obs : Observed) (id : TaskId) (operation : IdentityOperation) (reply : IdentityReply) :
    ∃ name, Quiet e (handleIdentityOperation cfg obs e id operation reply) name := by
  have hremove : ∃ name, Quiet e (removeQueuedSubmission cfg obs e id operation.requestReason).2 name := by
    rw [removeQueuedSubmission]
    split
    · exact ⟨"", .refl e _⟩
    · next slotName capacity hroute =>
      refine ⟨slotName, ?_⟩
      rcases route_cases hcoh hroute with ⟨entry, slot, rfl, hentry, rfl, -, hslot, hu⟩ | ⟨slot, rfl, hnone, hslot, hid⟩
      · simp only [hslot, removeRouted]
        split
        · exact .refl e _
        · simp only [claimCapacityPending_eq hentry]
          have hbooks := books_sendRejected ((removeRequested (((e.removeCapacity id).removeWatcher id).setPump
            (e.operations.capacity.cancel id).2) entry.pending.taskName id operation.requestReason).publishRejected
              entry.slotName id .removedFromQueue Reasons.removedFromQueue) obs id (e.state.watchers.lookup id)
                .removedFromQueue Reasons.removedFromQueue
          refine (releaseCapacity_quiet hcoh ht cfg obs _ hslot hu ?_ ?_).of_slots_eq rfl rfl
          · exact congrArg Books.slots hbooks
          · exact congrArg (fun b : Books => b.operations.removals) hbooks
      · simp only [hslot, removeRouted]
        split
        · exact .refl e _
        · obtain ⟨removed, hfind, -⟩ := find_queued hid
          simp only [claimCapacityPending, hnone, hfind]
          have hunindexed : Locked e (e.unindexQueued id) slotName := ⟨fun _ _ => rfl, rfl⟩
          have hlocked := hunindexed.of_books (books_finalizeRejected (((removeRequested e removed.taskName id
            operation.requestReason).unindexQueued id).publishRejected slotName id .removedFromQueue
              Reasons.removedFromQueue) obs id .removedFromQueue Reasons.removedFromQueue)
          have hkept : Kept e slotName { slot with
              queue := slot.queue.eraseP fun pending => decide (pending.id = id) } := .of_stage hslot rfl rfl
          exact (hlocked.gc hkept).of_slots_eq rfl rfl
  obtain ⟨name, hquiet⟩ := hremove
  refine ⟨name, ?_⟩
  rw [handleIdentityOperation]
  split
  · exact (Quiet.refl e name).of_slots_eq rfl rfl
  split
  · next e' heq =>
    rw [heq] at hquiet
    exact hquiet.of_slots_eq rfl rfl
  · next e' heq =>
    rw [heq] at hquiet
    repeat' split
    all_goals exact hquiet.of_slots_eq rfl rfl

end Results

section Submission

variable {sub : Submission} {pending : PendingSubmission} {admission : AdmissionPolicy} {watcher : AdmissionWatcher}

/-- What a placement method does to the slot it was given. -/
inductive Fate (e : Engine) (slot : SlotState) (name : String) (pending : PendingSubmission) (placed : Placed) : Prop
  | same (howner : placed.slot.ownerId = slot.ownerId) (hstage : stage placed.slot.phase = stage slot.phase)
      (hremovals : placed.engine.operations.removals = e.operations.removals)
  | taken {since : Instant} {queue : List PendingSubmission} (hslot : placed.slot = ⟨.admitting pending.id since, queue⟩)
      (hremovals : placed.engine.operations.removals = e.operations.removals)
  | retired {owner : TaskId} (howner : slot.ownerId = some owner) (hstage : stage slot.phase = 2)
      (howner' : placed.slot.ownerId = some owner) (hstage' : stage placed.slot.phase = 3)
      (hremovals : placed.engine.operations.removals = e.operations.removals ++ [(owner, name)])
      (haccepted : ∃ displaced, placed.outcome = .accepted displaced)

theorem admitIdle_fate (hidle : slot.phase = .idle) (cfg : ControllerConfig) (obs : Observed) (e : Engine) (name : String)
    (pending : PendingSubmission) (admission : AdmissionPolicy) (watcher : AdmissionWatcher) :
    (admitIdle cfg obs e slot name pending admission watcher).engine.state.slots = e.state.slots ∧
      Fate e slot name pending (admitIdle cfg obs e slot name pending admission watcher) := by
  obtain ⟨hslots, hremovals, -⟩ := startInSlot_frame cfg obs e slot name pending
  rcases heq : startInSlot cfg obs e slot name pending with ⟨result, e', slot'⟩
  rw [heq] at hslots hremovals
  cases result with
  | ok _ =>
      simp only [admitIdle, heq]
      exact ⟨hslots, .taken (startInSlot_admitting cfg obs hidle heq) hremovals⟩
  | error error =>
      have hsame := startInSlot_failed cfg obs heq
      simp only [admitIdle, heq]
      exact ⟨hslots, .same (by rw [hsame]) (by rw [hsame]) hremovals⟩

theorem retireOwner_fate (obs : Observed) (e : Engine) (slot : SlotState) (name : String) :
    (retireOwner obs e slot name).2.1.state.slots = e.state.slots ∧
    (((retireOwner obs e slot name).2.2.ownerId = slot.ownerId ∧ stage (retireOwner obs e slot name).2.2.phase = stage slot.phase ∧
        (retireOwner obs e slot name).2.1.operations.removals = e.operations.removals) ∨
      ∃ owner, slot.ownerId = some owner ∧ stage slot.phase = 2 ∧ (retireOwner obs e slot name).2.2.ownerId = some owner ∧
        stage (retireOwner obs e slot name).2.2.phase = 3 ∧
        (retireOwner obs e slot name).2.1.operations.removals = e.operations.removals ++ [(owner, name)]) := by
  cases hphase : slot.phase with
  | running owner since =>
      simp only [retireOwner, SlotState.requestReplacement, SlotState.ownerId, hphase]
      exact ⟨rfl, .inr ⟨owner, rfl, rfl, rfl, rfl, rfl⟩⟩
  | admitting owner since =>
      simp only [retireOwner, SlotState.requestReplacement, SlotState.ownerId, hphase]
      exact ⟨rfl, .inl ⟨rfl, rfl, rfl⟩⟩
  | _ =>
      simp only [retireOwner, hphase]
      exact ⟨trivial, .inl ⟨trivial, trivial, trivial⟩⟩

theorem queue_fate (cfg : ControllerConfig) (e : Engine) (slot : SlotState) (name : String) (pending : PendingSubmission)
    (watcher : AdmissionWatcher) :
    (Admission.queue cfg e slot name pending watcher).engine.state.slots = e.state.slots ∧
      Fate e slot name pending (Admission.queue cfg e slot name pending watcher) := by
  cases hfull : Engine.queueFullReason cfg slot.queue.length with
  | some reason =>
      simp only [Admission.queue, hfull]
      exact ⟨trivial, .same rfl rfl rfl⟩
  | none =>
      by_cases hlimit : e.pendingFull cfg = true
      · simp only [Admission.queue, hfull, Engine.tryPushQueued, if_pos hlimit]
        exact ⟨trivial, .same rfl rfl rfl⟩
      · simp only [Admission.queue, hfull, Engine.tryPushQueued, if_neg hlimit]
        exact ⟨rfl, .same rfl rfl rfl⟩

theorem replace_fate (cfg : ControllerConfig) (obs : Observed) (e : Engine) (slot : SlotState) (name : String)
    (pending : PendingSubmission) (watcher : AdmissionWatcher) :
    (replace cfg obs e slot name pending watcher).engine.state.slots = e.state.slots ∧
      Fate e slot name pending (replace cfg obs e slot name pending watcher) := by
  have hretire (e' : Engine) (queue : List PendingSubmission) (hslots : e'.state.slots = e.state.slots)
      (hremovals : e'.operations.removals = e.operations.removals) (displaced : Option (TaskId × Option TaskOutcome)) :
      let result := retireOwner obs e' { slot with queue } name
      (result.2.1.publishSubmitted name pending.id result.1).state.slots = e.state.slots ∧
        Fate e slot name pending ⟨.accepted displaced, result.2.1.publishSubmitted name pending.id result.1, result.2.2,
          watcher.commit⟩ := by
    obtain ⟨hs, hfate⟩ := retireOwner_fate obs e' { slot with queue } name
    refine ⟨hs.trans hslots, ?_⟩
    rcases hfate with ⟨howner, hstage, hr⟩ | ⟨owner, howner, hstage, howner', hstage', hr⟩
    · exact .same howner hstage (hr.trans hremovals)
    · rw [hremovals] at hr
      exact .retired howner hstage howner' hstage' hr ⟨displaced, rfl⟩
  cases hqueue : slot.queue with
  | nil =>
      by_cases hlimit : e.pendingFull cfg = true
      · simp only [replace, Engine.tryReplaceHeadOrPush, hqueue, List.isEmpty_nil, if_true, if_pos hlimit]
        exact ⟨trivial, .same rfl rfl rfl⟩
      · simp only [replace, Engine.tryReplaceHeadOrPush, hqueue, List.isEmpty_nil, if_true, if_neg hlimit]
        exact hretire (e.indexQueued pending.id name) [pending] rfl rfl none
  | cons head rest =>
      have hbooks := books_finalizeRejected (((e.unindexQueued head.id).indexQueued pending.id name).publishRejected name
        head.id .supersededByReplace Reasons.supersededByReplace) obs head.id .supersededByReplace
          Reasons.supersededByReplace
      simp only [replace, Engine.tryReplaceHeadOrPush, Engine.replaceHeadOrPush, hqueue, List.isEmpty_cons,
        Bool.false_eq_true, if_false]
      exact hretire _ (pending :: rest) (congrArg Books.slots hbooks)
        (congrArg (fun b : Books => b.operations.removals) hbooks) _

theorem apply_fate (cfg : ControllerConfig) (obs : Observed) (e : Engine) (slot : SlotState) (name : String)
    (pending : PendingSubmission) (admission : AdmissionPolicy) (watcher : AdmissionWatcher) :
    (apply cfg obs e slot name pending admission watcher).engine.state.slots = e.state.slots ∧
      Fate e slot name pending (apply cfg obs e slot name pending admission watcher) := by
  rw [apply.eq_def]
  by_cases hidle : slot.isIdle = true
  · rw [if_pos hidle]
    exact admitIdle_fate (SlotState.isIdle_iff.mp hidle) cfg obs e name pending admission watcher
  · rw [if_neg hidle]
    cases admission with
    | replace => exact replace_fate cfg obs e slot name pending watcher
    | queue => exact queue_fate cfg e slot name pending watcher
    | dropIfRunning => exact ⟨rfl, .same rfl rfl rfl⟩

theorem kept_same (hwhere : e₀.state.slots.lookup name = some slot ∨ slot = .new) (howner : slot'.ownerId = slot.ownerId)
    (hstage : stage slot'.phase = stage slot.phase) : Kept e₀ name slot' := by
  rcases hwhere with hslot | rfl
  · exact .of_stage hslot howner hstage
  · exact .of_none howner

theorem placeSubmission_closing (hlocked : Locked e₀ e name)
    (hwhere : e₀.state.slots.lookup name = some slot ∨ slot = .new) (hclosing : obs.shutdown 2 = true) (cfg : ControllerConfig)
    (admission : AdmissionPolicy) (watcher : AdmissionWatcher) :
    Quiet e₀ (placeSubmission cfg obs e slot name pending admission watcher).1 name := by
  rw [placeSubmission, if_pos hclosing]
  have hrejected := hlocked.of_books (books_rejectWithEvent e obs .controllerShuttingDown Reasons.controllerShuttingDown watcher)
  exact (hrejected.gc (kept_same hwhere rfl rfl)).of_slots_eq rfl rfl

theorem placeSubmission_quiet (hlocked : Locked e₀ e name) (hwhere : e₀.state.slots.lookup name = some slot ∨ slot = .new)
    (cfg : ControllerConfig) (obs : Observed) (pending : PendingSubmission) (admission : AdmissionPolicy)
    (watcher : AdmissionWatcher)
    (hremovals : (apply cfg obs e slot name pending admission watcher).engine.operations.removals = e.operations.removals)
    (hkept : Kept e₀ name (apply cfg obs e slot name pending admission watcher).slot) :
    Quiet e₀ (placeSubmission cfg obs e slot name pending admission watcher).1 name := by
  obtain ⟨hslots, -⟩ := apply_fate cfg obs e slot name pending admission watcher
  have hengine : Locked e₀ (apply cfg obs e slot name pending admission watcher).engine name :=
    ⟨fun other hne => by rw [hslots]; exact hlocked.others other hne, hremovals.trans hlocked.removals⟩
  by_cases hclosing : obs.shutdown 2 = true
  · exact placeSubmission_closing hlocked hwhere hclosing cfg admission watcher
  rw [placeSubmission, if_neg hclosing]
  dsimp only
  split
  · exact (hengine.put hkept).of_slots_eq rfl rfl
  · exact ((hengine.of_books (books_rejectWithEvent ..)).put hkept).of_slots_eq rfl rfl
  · exact ((hengine.of_books (books_rejectWithEvent ..)).gc hkept).of_slots_eq rfl rfl

theorem placeSubmission_effect (hlocked : Locked e₀ e name) (hwhere : e₀.state.slots.lookup name = some slot ∨ slot = .new)
    (hnew : pending.id ∉ e₀.handed.map Handoff.id) (cfg : ControllerConfig) (obs : Observed) (admission : AdmissionPolicy)
    (watcher : AdmissionWatcher) :
    Quiet e₀ (placeSubmission cfg obs e slot name pending admission watcher).1 name ∨
      ∃ id, Replaced e₀ (placeSubmission cfg obs e slot name pending admission watcher).1 name id := by
  obtain ⟨hslots, hfate⟩ := apply_fate cfg obs e slot name pending admission watcher
  have hquiet := placeSubmission_quiet hlocked hwhere cfg obs pending admission watcher
  cases hfate with
  | same howner hstage hremovals => exact .inl (hquiet hremovals (kept_same hwhere howner hstage))
  | taken hslot hremovals =>
      refine .inl (hquiet hremovals ?_)
      rw [hslot]
      exact (Fresh.newcomer hnew).kept name
  | retired howner hstage howner' hstage' hremovals haccepted =>
      rename_i owner
      obtain ⟨displaced, houtcome⟩ := haccepted
      have hslot : e₀.state.slots.lookup name = some slot := by
        refine hwhere.resolve_right ?_
        rintro rfl
        cases howner
      by_cases hclosing : obs.shutdown 2 = true
      · exact .inl (placeSubmission_closing hlocked hwhere hclosing cfg admission watcher)
      refine .inr ⟨owner, ?_⟩
      rw [placeSubmission, if_neg hclosing]
      simp only [houtcome]
      refine ⟨fun other hne => ?_, ⟨slot, hslot, howner, hstage⟩, ⟨_, AList.lookup_insert _, howner', hstage'⟩, ?_⟩
      · refine (Table.lookup_insert_ite ..).trans ((if_neg hne).trans ?_)
        rw [hslots]
        exact hlocked.others other hne
      · exact hremovals.trans (congrArg (· ++ [(owner, name)]) hlocked.removals)

theorem handleSubmission_effect (cfg : ControllerConfig) (obs : Observed) (cut : Option AwaitPoint) (e : Engine)
    (hnew : sub.id ∉ e.handed.map Handoff.id) :
    Quiet e (handleSubmission cfg obs cut e sub) sub.slotName ∨
      ∃ id, Replaced e (handleSubmission cfg obs cut e sub) sub.slotName id := by
  have hdrop {e' : Engine} {watcher : AdmissionWatcher}
      (h : Quiet e e' sub.slotName ∨ ∃ id, Replaced e e' sub.slotName id) :
      Quiet e (watcher.drop obs e') sub.slotName ∨ ∃ id, Replaced e (watcher.drop obs e') sub.slotName id := by
    have hslots : (watcher.drop obs e').state.slots = e'.state.slots := congrArg Books.slots (books_drop ..)
    have hremovals : (watcher.drop obs e').operations.removals = e'.operations.removals :=
      congrArg (fun b : Books => b.operations.removals) (books_drop ..)
    refine h.imp (fun hq => hq.of_slots_eq hslots hremovals) ?_
    rintro ⟨id, hr⟩
    refine ⟨id, ?_, hr.running, ?_, hremovals.trans hr.removals⟩
    · rw [hslots]
      exact hr.others
    · rw [hslots]
      exact hr.retiring
  suffices hbody : Quiet e (submissionBody cfg obs cut e sub).1 sub.slotName ∨
      ∃ id, Replaced e (submissionBody cfg obs cut e sub).1 sub.slotName id from hdrop hbody
  rw [submissionBody]
  split
  · exact .inl (.of_books (books_rejectWithEvent ..) _)
  split
  · exact .inl (.of_books (books_rejectWithEvent ..) _)
  split
  · exact .inl (.refl e _)
  split
  · exact .inl (.of_books (books_rejectWithEvent ..) _)
  · rcases hpark : ((AdmissionWatcher.new sub.id sub.done (some sub.slotName)).takePending sub.taskName).2.park e with
      ⟨e₁, watcher⟩
    have hbooks : books e₁ = books e := by
      rw [show e₁ = (((AdmissionWatcher.new sub.id sub.done (some sub.slotName)).takePending sub.taskName).2.park e).1 by
        rw [hpark]]
      exact books_park ..
    have hparked : Locked e e₁ sub.slotName := (Locked.refl e sub.slotName).of_books hbooks
    have hslots : e₁.state.slots = e.state.slots := congrArg Books.slots hbooks
    simp only [hpark]
    rcases tryGetOrCreateSlot_cases cfg e₁ sub.slotName with ⟨limit, hget⟩ | ⟨slot, hget, hslot⟩ | ⟨hget, hslot⟩
    · simp only [hget]
      exact .inl ((Quiet.of_books ((books_rejectWithEvent ..).trans hbooks) _).of_slots_eq rfl rfl)
    · simp only [hget]
      rw [show (board e₁).slot sub.slotName = e.state.slots.lookup sub.slotName from
        congrArg (fun s : Table String SlotState => s.lookup sub.slotName) hslots] at hslot
      split
      · exact .inl ((Quiet.of_books hbooks _).of_slots_eq rfl rfl)
      · exact placeSubmission_effect hparked (.inl hslot) hnew cfg obs _ _
    · simp only [hget]
      have hcreated : Locked e (e₁.putSlot sub.slotName .new) sub.slotName := by
        refine ⟨fun other hne => ?_, hparked.removals⟩
        exact (Table.lookup_insert_ite ..).trans ((if_neg hne).trans (hparked.others other hne))
      split
      · exact .inl ((hparked.put (.of_none rfl)).of_slots_eq rfl rfl)
      · exact placeSubmission_effect hcreated (.inr rfl) hnew cfg obs _ _

end Submission

section Handed

variable {b b' : Board} {fin : TaskId → Prop} {sub : Submission}

/-- Every decision the loop waits for is about an identity it has handed over. -/
def Handed (b : Board) : Prop := ∀ id ∈ b.admissions.map Prod.fst, id ∈ b.handed.map Handoff.id

theorem Handed.hand (h : Handed b) (id : TaskId) (taskName slotName : String) (done : Option OutcomeTx) :
    Handed (b.hand id taskName slotName done) := by
  intro x hx
  simp only [Board.hand, List.map_append, List.map_cons, List.map_nil, List.mem_append] at hx ⊢
  exact hx.imp_left (h x)

theorem Handed.untrack (h : Handed b) (entry : TaskId × String) : ∀ id ∈ (b.admissions.erase entry).map Prod.fst,
    id ∈ b.handed.map Handoff.id := fun id hid => h id (mem_erase_fst hid)

theorem Handed.move (h : Handed b) (m : Move fin b b') : Handed b' := by
  cases m with
  | confirmAdmitting now hslot hphase htracked => exact h.untrack _
  | confirmCancelled alive hslot hphase htracked => exact h.untrack _
  | staleAdmission htracked hstale => exact h.untrack _
  | refuse hslot hphase htracked hfin => exact h.untrack _
  | promote now hslot hidle hqueue => exact Handed.hand (b := (b.setSlot _ _).setQueued _ none) h _ _ _ _
  | capacityCommit hentry hpump hlimit => exact Handed.hand (b := (b.setCapacity _ none).setPump _) h _ _ _ _
  | _ => exact h

theorem Handed.enter (h : Handed b) (m : Enter sub b b') : Handed b' := by
  cases m with
  | start now hslot hidle => exact Handed.hand (b := b.setSlot _ _) h _ _ _ _
  | _ => exact h

theorem handed_move (m : Move fin b b') : b.handed <+: b'.handed := by
  cases m with
  | promote now hslot hidle hqueue => exact List.prefix_append _ _
  | capacityCommit hentry hpump hlimit => exact List.prefix_append _ _
  | _ => exact List.prefix_rfl

theorem handed_enter (m : Enter sub b b') : b.handed <+: b'.handed := by
  cases m with
  | start now hslot hidle => exact List.prefix_append _ _
  | _ => exact List.prefix_rfl

theorem handed_moves (m : Moves fin b b') : b.handed <+: b'.handed := by
  induction m with
  | refl => exact List.prefix_rfl
  | tail _ m ih => exact ih.trans (handed_move m)

theorem Handed.moves (h : Handed b) (m : Moves fin b b') : Handed b' := by
  induction m with
  | refl => exact h
  | tail _ m ih => exact ih.move m

theorem handed_step (hw : (machine cfg).Reachable w) (hphase : w.phase = .looping)
    (hstep : World.step cfg w a = some w') : w.engine.handed <+: w'.engine.handed := by
  cases (sane_of_reachable hw hphase).turn hphase (fun id _ => trivial) hstep with
  | sent command hfresh => exact List.prefix_rfl
  | submitted hcommands hentered =>
      obtain ⟨c, hmoves, d, henter, hafter⟩ := hentered
      exact (handed_moves hmoves).trans ((handed_enter henter).trans (handed_moves hafter))
  | managed hcommands hmoves => exact handed_moves hmoves
  | resolved hmoves => exact handed_moves hmoves
  | stopped => exact List.prefix_rfl

theorem handed_of_reachable (hw : (machine cfg).Reachable w) : w.phase = .looping → Handed (board w.engine) := by
  refine hw.invariant (P := fun w => w.phase = .looping → Handed (board w.engine)) (fun _ => nofun) ?_
  intro w a w' hw ih hstep hphase'
  have hphase := looping_before hstep hphase'
  cases (sane_of_reachable hw hphase).turn hphase (fun id _ => trivial) hstep with
  | sent command hfresh => exact ih hphase
  | submitted hcommands hentered =>
      obtain ⟨c, hmoves, d, henter, hafter⟩ := hentered
      exact (((ih hphase).moves hmoves).enter henter).moves hafter
  | managed hcommands hmoves => exact (ih hphase).moves hmoves
  | resolved hmoves => exact (ih hphase).moves hmoves
  | stopped => cases hphase'

end Handed

section Steps

theorem step_effect (hw : (machine cfg).Reachable w) (hstep : World.step cfg w a = some w') : Effect w a w' := by
  have hrest (hslots : w'.engine.state.slots = w.engine.state.slots)
      (hremovals : w'.engine.operations.removals.length ≤ w.engine.operations.removals.length)
      (hside : ∀ side, decided side a = []) : Effect w a w' :=
    .rest (fun _ _ hslot => by rw [hslots] at hslot; exact hslot) hremovals hside
  by_cases hphase : w.phase = .looping
  case neg =>
    have hside (side : Bool) : decided side a = [] := by
      cases a with
      | admissionResult obs id slotName accepted =>
          simp only [World.step, not_looping hphase, ite_self, reduceCtorEq] at hstep
      | _ => rfl
    cases step_wind hphase hstep with
    | sent command hdrain hfresh => exact hrest rfl le_rfl hside
    | drained obs hdrain hcommands =>
        rename_i command rest
        cases command with
        | submit sub =>
            have hbooks := books_sendRejected (w.engine.publishRejected sub.slotName sub.id .controllerShuttingDown
              Reasons.controllerShuttingDown) obs sub.id sub.done .controllerShuttingDown Reasons.controllerShuttingDown
            refine hrest (congrArg Books.slots hbooks) ?_ hside
            exact (congrArg (fun b : Books => b.operations.removals.length) hbooks).le
        | manageIdentity id operation reply => exact hrest rfl le_rfl hside
    | finalized obs hdrain hcommands =>
        refine .rest (fun name slot => by rintro ⟨⟩) ?_ hside
        rw [finalize_operations]
    | finished obs hfinal =>
        refine .rest (fun name slot => by rintro ⟨⟩) ?_ hside
        rw [finalize_operations]
  have hcoh := (sane_of_reachable hw hphase).coherent
  obtain ⟨place, hplace⟩ := exists_placing hw
  have ht := (bound_of_reachable hw hphase).tracked place hplace
  cases a with
  | send command =>
      simp only [World.step] at hstep
      split at hstep
      · obtain rfl := Option.some.inj hstep
        exact hrest rfl le_rfl fun _ => rfl
      · cases hstep
  | command obs cut =>
      cases hcommands : w.commands with
      | nil => simp [World.step, hcommands] at hstep
      | cons command rest =>
          simp only [World.step, hcommands] at hstep
          obtain rfl := looping_eq hstep
          cases command with
          | submit sub =>
              have hunknown := (sane_of_reachable hw hphase).unknown sub (by rw [hcommands]; exact List.mem_cons_self)
              have hnew : sub.id ∉ w.engine.handed.map Handoff.id := fun hin =>
                hunknown (.inr (.inr (.inr (.inr (.inl hin)))))
              rcases handleSubmission_effect cfg obs cut w.engine hnew with hquiet | ⟨id, hreplaced⟩
              · exact .quiet hphase hquiet fun _ => rfl
              · obtain ⟨slot, hslot, howner, -⟩ := hreplaced.running
                exact .replaced hphase hreplaced (owner_unique ht hslot howner) fun _ => rfl
          | manageIdentity id operation reply =>
              obtain ⟨name, hquiet⟩ := identity_quiet hcoh ht cfg obs id operation reply
              exact .quiet hphase hquiet fun _ => rfl
  | capacityResult obs decision =>
      simp only [World.step] at hstep
      split at hstep
      · cases hstep
      · next id pump hnext =>
        obtain rfl := looping_eq hstep
        obtain ⟨name, hquiet⟩ := capacityResult_quiet hcoh ht cfg obs decision hnext
        exact .quiet hphase hquiet fun _ => rfl
  | admissionResult obs id slotName accepted =>
      simp only [World.step] at hstep
      split at hstep
      · next hin =>
        obtain rfl := looping_eq hstep
        have hhanded := handed_of_reachable hw hphase id (List.mem_map_of_mem hin)
        exact admissionResult_effect hphase hcoh ht obs hin hhanded accepted
      · cases hstep
  | completionResult obs id slotName =>
      simp only [World.step] at hstep
      split at hstep
      · obtain rfl := looping_eq hstep
        exact .quiet hphase (completionResult_quiet hcoh ht cfg obs id slotName) fun _ => rfl
      · cases hstep
  | removalResult id slotName decision =>
      simp only [World.step] at hstep
      split at hstep
      · obtain rfl := looping_eq hstep
        have hbooks := books_handleRemovalResult (World.dropRemoval w.engine id slotName) id slotName decision
        refine hrest (congrArg Books.slots hbooks) ?_ fun _ => rfl
        exact (congrArg (fun b : Books => b.operations.removals.length) hbooks).le.trans (List.length_erase_le ..)
      · cases hstep
  | identityResult op result =>
      simp only [World.step] at hstep
      split at hstep
      · obtain rfl := looping_eq hstep
        exact hrest rfl le_rfl fun _ => rfl
      · cases hstep
  | stop =>
      simp only [World.step, if_pos hphase] at hstep
      obtain rfl := Option.some.inj hstep
      exact hrest rfl (Nat.zero_le _) fun _ => rfl
  | drain obs => simp [World.step, hphase] at hstep
  | finalize obs => simp [World.step, hphase] at hstep
  | finish obs => simp [World.step, hphase] at hstep

theorem ordered_of_le (h : w'.engine.operations.removals.length ≤ w.engine.operations.removals.length) :
    ordered w w' = [] := List.drop_eq_nil_of_le h

theorem ordered_snoc (h : w'.engine.operations.removals = w.engine.operations.removals ++ [(id, name)]) :
    ordered w w' = [(id, name)] := by rw [ordered, h, List.drop_left]

/-- The identity owns the slot, at the given stage. -/
def Owns (e : Engine) (name : String) (id : TaskId) (n : Nat) : Prop :=
  ∃ slot, e.state.slots.lookup name = some slot ∧ slot.ownerId = some id ∧ stage slot.phase = n

/-- What the orders and the decisions say about the present owners. -/
structure Sound (l : Ledger) : Prop where
  decided : l.world.phase = .looping → ∀ id, id ∈ l.accepted ∨ id ∈ l.refused →
    id ∈ l.world.engine.handed.map Handoff.id
  apart : ∀ id ∈ l.accepted, id ∉ l.refused
  undecided : ∀ name id, Owns l.world.engine name id 1 → id ∉ l.accepted ∧ id ∉ l.refused
  accepted : ∀ name id n, Owns l.world.engine name id n → 2 ≤ n → id ∈ l.accepted
  orders : ∀ id ∈ l.orders.map Prod.fst, id ∈ l.accepted
  retiring : ∀ name id n, Owns l.world.engine name id n → id ∈ l.orders.map Prod.fst → n = 3
  once : (l.orders.map Prod.fst).Nodup
  ordered : l.alive = true → ∀ name id, Owns l.world.engine name id 3 → (id, name) ∈ l.orders

theorem Quiet.owns {n : Nat} {other : String} (h : Quiet e e' name) (howns : Owns e' other id n) :
    Owns e other id n ∨ n = 1 ∧ id ∉ e.handed.map Handoff.id := by
  obtain ⟨slot', hslot', howner, hstage⟩ := howns
  by_cases hne : other = name
  · subst hne
    rcases h.kept slot' hslot' id howner with ⟨hu, hnew⟩ | ⟨slot, hslot, hold, hsame⟩
    · exact .inr ⟨hstage ▸ (stage_undecided howner).mpr hu, hnew⟩
    · exact .inl ⟨slot, hslot, hold, hsame.trans hstage⟩
  · rw [h.others other hne] at hslot'
    exact .inl ⟨slot', hslot', howner, hstage⟩

theorem Replaced.owns {n : Nat} {other : String} {x : TaskId} (h : Replaced e e' name id) (howns : Owns e' other x n) :
    Owns e other x n ∧ other ≠ name ∨ other = name ∧ x = id ∧ n = 3 := by
  obtain ⟨slot', hslot', howner, hstage⟩ := howns
  by_cases hne : other = name
  · subst hne
    obtain ⟨s, hs, hid, hthree⟩ := h.retiring
    obtain rfl := Option.some.inj (hs.symm.trans hslot')
    exact .inr ⟨rfl, Option.some.inj (howner.symm.trans hid), hstage.symm.trans hthree⟩
  · rw [h.others other hne] at hslot'
    exact .inl ⟨⟨slot', hslot', howner, hstage⟩, hne⟩

namespace Sound

variable {l : Ledger}

/-- No order and no decision: every owner is as before or new. -/
theorem keep (h : Sound l) (w' : World) (alive : Bool)
    (howns : ∀ name id n, Owns w'.engine name id n → Owns l.world.engine name id n ∨
      n = 1 ∧ id ∉ l.accepted ∧ id ∉ l.refused)
    (hhanded : w'.phase = .looping → ∀ id, id ∈ l.accepted ∨ id ∈ l.refused → id ∈ w'.engine.handed.map Handoff.id)
    (halive : alive = true → l.alive = true) :
    Sound { l with world := w', alive } where
  decided := hhanded
  apart := h.apart
  undecided := fun name id hx => (howns name id 1 hx).elim (h.undecided name id) And.right
  accepted := fun name id n hx hn => by
    rcases howns name id n hx with hold | ⟨rfl, -⟩
    · exact h.accepted name id n hold hn
    · omega
  orders := h.orders
  retiring := fun name id n hx hin => by
    rcases howns name id n hx with hold | ⟨-, hnot, -⟩
    · exact h.retiring name id n hold hin
    · exact absurd (h.orders id hin) hnot
  once := h.once
  ordered := fun ha name id hx => by
    rcases howns name id 3 hx with hold | ⟨hthree, -⟩
    · exact h.ordered (halive ha) name id hold
    · cases hthree

/-- The registry refuses an owner, who is gone. -/
theorem refuse (h : Sound l) (hnew : id ∉ l.accepted)
    (hgone : ∀ name n, ¬ Owns l.world.engine name id n)
    (hhanded : l.world.phase = .looping → id ∈ l.world.engine.handed.map Handoff.id) :
    Sound { l with refused := l.refused ++ [id] } where
  decided := fun hphase x hx => by
    rw [List.mem_append, List.mem_singleton, ← or_assoc] at hx
    rcases hx with hx | rfl
    · exact h.decided hphase x hx
    · exact hhanded hphase
  apart := fun x hx => by
    rw [List.mem_append, List.mem_singleton, not_or]
    refine ⟨h.apart x hx, ?_⟩
    rintro rfl
    exact hnew hx
  undecided := fun name x hx => by
    rw [List.mem_append, List.mem_singleton, not_or]
    refine ⟨(h.undecided name x hx).1, (h.undecided name x hx).2, ?_⟩
    rintro rfl
    exact hgone name 1 hx
  accepted := h.accepted
  orders := h.orders
  retiring := h.retiring
  once := h.once
  ordered := h.ordered

/-- The registry accepts an owner; his removal may be ordered at once. -/
theorem confirm (h : Sound l) (w' : World) (alive : Bool) {k : Nat} (added : List (TaskId × String))
    (hstart : Owns l.world.engine name id 1)
    (howns : ∀ other x n, Owns w'.engine other x n → Owns l.world.engine other x n ∧ x ≠ id ∨
      other = name ∧ x = id ∧ n = k)
    (hk : k = 2 ∧ added = [] ∨ k = 3 ∧ added = [(id, name)] ∨ k = 3 ∧ added = [] ∧ alive = false)
    (hhanded : w'.phase = .looping → ∀ x, x ∈ l.accepted ∨ x ∈ l.refused ∨ x = id → x ∈ w'.engine.handed.map Handoff.id)
    (halive : alive = true → l.alive = true) :
    Sound { l with world := w', orders := l.orders ++ added, accepted := l.accepted ++ [id], alive } := by
  obtain ⟨hnew, hnot⟩ := h.undecided name id hstart
  have hfresh : id ∉ l.orders.map Prod.fst := fun hin => hnew (h.orders id hin)
  have hk' : 2 ≤ k := by omega
  refine ⟨?_, ?_, ?_, ?_, ?_, ?_, ?_, ?_⟩
  · intro hphase x hx
    simp only [List.mem_append, List.mem_singleton] at hx
    exact hhanded hphase x (by tauto)
  · intro x hx
    rw [List.mem_append, List.mem_singleton] at hx
    rcases hx with hx | rfl
    · exact h.apart x hx
    · exact hnot
  · intro other x hx
    rcases howns other x 1 hx with ⟨hold, hne⟩ | ⟨-, -, hone⟩
    · refine ⟨?_, (h.undecided other x hold).2⟩
      rw [List.mem_append, List.mem_singleton, not_or]
      exact ⟨(h.undecided other x hold).1, hne⟩
    · omega
  · intro other x n hx hn
    rcases howns other x n hx with ⟨hold, -⟩ | ⟨-, rfl, -⟩
    · exact List.mem_append_left _ (h.accepted other x n hold hn)
    · exact List.mem_append_right _ List.mem_cons_self
  · intro x hx
    rw [List.map_append, List.mem_append] at hx
    rcases hx with hx | hx
    · exact List.mem_append_left _ (h.orders x hx)
    · rcases hk with ⟨-, rfl⟩ | ⟨-, rfl⟩ | ⟨-, rfl, -⟩
      · cases hx
      · exact List.mem_append_right _ hx
      · cases hx
  · intro other x n hx hin
    rw [List.map_append, List.mem_append] at hin
    rcases howns other x n hx with ⟨hold, hne⟩ | ⟨-, rfl, rfl⟩
    · rcases hin with hin | hin
      · exact h.retiring other x n hold hin
      · rcases hk with ⟨-, rfl⟩ | ⟨-, rfl⟩ | ⟨-, rfl, -⟩
        · cases hin
        · exact absurd (List.mem_singleton.mp hin) hne
        · cases hin
    · rcases hin with hin | hin
      · exact absurd hin hfresh
      · rcases hk with ⟨-, rfl⟩ | ⟨rfl, -⟩ | ⟨rfl, -⟩
        · cases hin
        · rfl
        · rfl
  · rw [List.map_append, List.nodup_append]
    refine ⟨h.once, ?_, ?_⟩
    · rcases hk with ⟨-, rfl⟩ | ⟨-, rfl⟩ | ⟨-, rfl, -⟩ <;> simp
    · rintro x hx y hy rfl
      rcases hk with ⟨-, rfl⟩ | ⟨-, rfl⟩ | ⟨-, rfl, -⟩
      · cases hy
      · obtain rfl : x = id := List.mem_singleton.mp hy
        exact hfresh hx
      · cases hy
  · intro ha other x hx
    rcases howns other x 3 hx with ⟨hold, -⟩ | ⟨rfl, rfl, rfl⟩
    · exact List.mem_append_left _ (h.ordered (halive ha) other x hold)
    · rcases hk with ⟨hthree, -⟩ | ⟨-, rfl⟩ | ⟨-, -, hdead⟩
      · cases hthree
      · exact List.mem_append_right _ List.mem_cons_self
      · cases hdead.symm.trans ha

/-- A running owner is replaced and ordered away. -/
theorem replace (h : Sound l) (w' : World) (hreplaced : Replaced l.world.engine w'.engine name id)
    (hunique : ∀ other n, Owns l.world.engine other id n → other = name)
    (hhanded : w'.phase = .looping → ∀ x, x ∈ l.accepted ∨ x ∈ l.refused → x ∈ w'.engine.handed.map Handoff.id) :
    Sound { l with world := w', orders := l.orders ++ [(id, name)] } := by
  have hrunning : Owns l.world.engine name id 2 := hreplaced.running
  have hfresh : id ∉ l.orders.map Prod.fst := fun hin => by cases h.retiring name id 2 hrunning hin
  have hin : id ∈ l.accepted := h.accepted name id 2 hrunning le_rfl
  refine ⟨hhanded, h.apart, ?_, ?_, ?_, ?_, ?_, ?_⟩
  · intro other x hx
    rcases hreplaced.owns hx with ⟨hold, -⟩ | ⟨-, -, hone⟩
    · exact h.undecided other x hold
    · cases hone
  · intro other x n hx hn
    rcases hreplaced.owns hx with ⟨hold, -⟩ | ⟨-, rfl, -⟩
    · exact h.accepted other x n hold hn
    · exact hin
  · intro x hx
    rw [List.map_append, List.mem_append] at hx
    rcases hx with hx | hx
    · exact h.orders x hx
    · exact List.mem_singleton.mp hx ▸ hin
  · intro other x n hx hmem
    rcases hreplaced.owns hx with ⟨hold, hne⟩ | ⟨-, -, hthree⟩
    · rw [List.map_append, List.mem_append] at hmem
      rcases hmem with hmem | hmem
      · exact h.retiring other x n hold hmem
      · obtain rfl : x = id := List.mem_singleton.mp hmem
        exact absurd (hunique other n hold) hne
    · exact hthree
  · rw [List.map_append, List.nodup_append]
    refine ⟨h.once, List.nodup_singleton _, ?_⟩
    rintro x hx y hy rfl
    obtain rfl : x = id := List.mem_singleton.mp hy
    exact hfresh hx
  · intro ha other x hx
    rcases hreplaced.owns hx with ⟨hold, -⟩ | ⟨rfl, rfl, -⟩
    · exact List.mem_append_left _ (h.ordered ha other x hold)
    · exact List.mem_append_right _ List.mem_cons_self

end Sound

theorem ledger_step {l l' : Ledger} (h : (ledger cfg).step l a = some l') :
    ∃ w, World.step cfg l.world a = some w ∧ l' = ⟨w, l.orders ++ ordered l.world w, l.accepted ++ decided true a,
      l.refused ++ decided false a, l.alive && coreAlive a⟩ := by
  obtain ⟨w, hw, hl⟩ := Option.map_eq_some_iff.mp h
  exact ⟨w, hw, hl.symm⟩

theorem world_reachable {l : Ledger} (hl : (ledger cfg).Reachable l) : (machine cfg).Reachable l.world := by
  induction hl with
  | init => exact .init
  | next a _ hstep ih =>
      obtain ⟨w, hw, rfl⟩ := ledger_step hstep
      exact .next a ih hw

theorem sound_step {l l' : Ledger} (hl : (ledger cfg).Reachable l) (h : Sound l) (hstep : (ledger cfg).step l a = some l') :
    Sound l' := by
  obtain ⟨w, hw, rfl⟩ := ledger_step hstep
  have hreach := world_reachable hl
  have hhanded (hphase : w.phase = .looping) (id : TaskId) (hid : id ∈ l.world.engine.handed.map Handoff.id) :
      id ∈ w.engine.handed.map Handoff.id :=
    ((handed_step hreach (looping_before hw hphase) hw).map Handoff.id).subset hid
  have hdecided (hphase : w.phase = .looping) (id : TaskId) (hid : id ∈ l.accepted ∨ id ∈ l.refused) :
      id ∈ w.engine.handed.map Handoff.id := hhanded hphase id (h.decided (looping_before hw hphase) id hid)
  have halive : (l.alive && coreAlive a) = true → l.alive = true := fun ha => (Bool.and_eq_true_iff.mp ha).1
  cases step_effect hreach hw with
  | rest hslots hremovals hside =>
      rw [hside true, hside false, ordered_of_le hremovals, List.append_nil, List.append_nil, List.append_nil]
      refine h.keep w _ ?_ hdecided halive
      rintro name id n ⟨slot, hslot, howns⟩
      exact .inl ⟨slot, hslots name slot hslot, howns⟩
  | quiet hlooping hquiet hside =>
      rw [hside true, hside false, ordered_of_le (congrArg List.length hquiet.removals).le, List.append_nil,
        List.append_nil, List.append_nil]
      refine h.keep w _ ?_ hdecided halive
      intro name id n howns
      refine (hquiet.owns howns).imp_right fun ⟨hone, hnew⟩ => ⟨hone, ?_, ?_⟩
      · exact fun hin => hnew (h.decided hlooping id (.inl hin))
      · exact fun hin => hnew (h.decided hlooping id (.inr hin))
  | refused hlooping hquiet hid hslot hphase hgone htrue hfalse =>
      rename_i name slot id
      have howner := SlotState.ownerId_of_undecided hphase
      have hstart : Owns l.world.engine name id 1 := ⟨slot, hslot, howner, (stage_undecided howner).mpr hphase⟩
      rw [htrue, hfalse, ordered_of_le (congrArg List.length hquiet.removals).le, List.append_nil, List.append_nil]
      have hkeep := h.keep w (l.alive && coreAlive a) (fun name id n howns =>
        (hquiet.owns howns).imp_right fun ⟨hone, hnew⟩ => ⟨hone, fun hin => hnew (h.decided hlooping id (.inl hin)),
          fun hin => hnew (h.decided hlooping id (.inr hin))⟩) hdecided halive
      refine hkeep.refuse (h.undecided name id hstart).1 ?_ fun hphase' => hhanded hphase' id hid
      rintro other n ⟨s, hs, hsid, -⟩
      exact hgone other s hs hsid
  | confirmed hlooping hid hothers hunique hslot hphase hslot' howner' hstage htrue hfalse =>
      rename_i name slot slot' id
      have howner := SlotState.ownerId_of_undecided hphase
      have hstart : Owns l.world.engine name id 1 := ⟨slot, hslot, howner, (stage_undecided howner).mpr hphase⟩
      rw [htrue, hfalse, List.append_nil]
      refine h.confirm w _ (ordered l.world w) (k := stage slot'.phase) hstart ?_ ?_ ?_ halive
      · rintro other x n ⟨s, hs, hsid, hn⟩
        by_cases hne : other = name
        · subst hne
          obtain rfl := Option.some.inj (hslot'.symm.trans hs)
          exact .inr ⟨rfl, Option.some.inj (hsid.symm.trans howner'), hn.symm⟩
        · rw [hothers other hne] at hs
          refine .inl ⟨⟨s, hs, hsid, hn⟩, ?_⟩
          rintro rfl
          exact hne (hunique other s hs hsid)
      · rcases hstage with ⟨htwo, hr⟩ | ⟨hthree, hr⟩ | ⟨hthree, hr, hdead⟩
        · exact .inl ⟨htwo, ordered_of_le (congrArg List.length hr).le⟩
        · exact .inr (.inl ⟨hthree, ordered_snoc hr⟩)
        · exact .inr (.inr ⟨hthree, ordered_of_le (congrArg List.length hr).le, by rw [hdead, Bool.and_false]⟩)
      · intro hphase' x hx
        rcases hx with hx | hx | rfl
        · exact hdecided hphase' x (.inl hx)
        · exact hdecided hphase' x (.inr hx)
        · exact hhanded hphase' x hid
  | replaced hlooping hreplaced hunique hside =>
      rename_i name id
      rw [hside true, hside false, ordered_snoc hreplaced.removals, List.append_nil, List.append_nil]
      have hreplace := h.replace w hreplaced (fun other n howns => by
        obtain ⟨s, hs, hsid, -⟩ := howns
        exact hunique other s hs hsid) hdecided
      exact { hreplace with ordered := fun ha => hreplace.ordered (halive ha) }

theorem sound_of_reachable {l : Ledger} (hl : (ledger cfg).Reachable l) : Sound l := by
  refine hl.invariant (P := Sound) ?_ fun l a l' hl h hstep => sound_step hl h hstep
  have hnone (name : String) (id : TaskId) (n : Nat) : ¬ Owns (Engine.new cfg) name id n := by
    rintro ⟨slot, hslot, -⟩
    simp [Engine.new] at hslot
  exact ⟨fun _ _ hid => (hid.elim (by rintro ⟨⟩) (by rintro ⟨⟩)), by rintro _ ⟨⟩, fun name id hx => absurd hx (hnone name id 1),
    fun name id n hx => absurd hx (hnone name id n), by rintro _ ⟨⟩, fun name id n hx => absurd hx (hnone name id n),
    List.nodup_nil, fun _ name id hx => absurd hx (hnone name id 3)⟩

theorem confirm_cancelled {l l' : Ledger} {since : Instant} (hslot : l.world.engine.state.slots.lookup name = some slot)
    (hphase : slot.phase = .cancelPendingAdmission id since) (halive : obs.supervisor 0 = true)
    (hstep : (ledger cfg).step l (.admissionResult obs id name true) = some l') :
    l'.orders = l.orders ++ [(id, name)] ∧
      l'.world.engine.operations.completions = l.world.engine.operations.completions ++ [(id, name)] ∧
      ∃ slot', l'.world.engine.state.slots.lookup name = some slot' ∧ slot'.phase = .terminating id since := by
  obtain ⟨w, hw, rfl⟩ := ledger_step hstep
  simp only [World.step] at hw
  split at hw
  · have hslot' : (World.dropAdmission l.world.engine id name).state.slots.lookup name = some slot := hslot
    obtain rfl := looping_eq hw
    simp only [handleAdmissionResult, hslot', if_true, SlotState.confirmAdmission, hphase, halive]
    exact ⟨congrArg (l.orders ++ ·) (ordered_snoc rfl), rfl, _, AList.lookup_insert _, rfl⟩
  · cases hw

def replacingRun : List Action :=
  [.send (.submit ⟨1, "a", .queue, none, none⟩), .send (.submit ⟨2, "b", .replace, some "a", none⟩),
    .send (.submit ⟨4, "c", .replace, some "a", none⟩), .command busyRegistry none, .command busyRegistry none,
    .command busyRegistry none]

end Steps

end Taskvisor.Controller.Retirement
