import Taskvisor.Controller.Policy

namespace Taskvisor.Controller.Wakeup

open Lib Runtime.Base Slot State Admission Abstract Bridge Coherence Refinement Driver Index Tracking Policy

variable {cfg : ControllerConfig} {obs : Observed} {e e' : Engine} {slot : SlotState} {name : String} {id : TaskId}
  {b b' : Board} {place : TaskId → String}

/-- A slot that somebody owns, with the future that will end the ownership. -/
structure Awaited (b : Board) (name : String) (slot : SlotState) : Prop where
  owned : slot.phase ≠ .idle
  undecided : ∀ id, slot.phase.undecided = some id → b.capacity id ≠ none ∨ (id, name) ∈ b.admissions
  accepted : ∀ id, slot.phase.accepted = some id → (id, name) ∈ b.completions

def Live (b : Board) : Prop := ∀ name slot, b.slot name = some slot → Awaited b name slot

/-- All but the slot a handler has locked. -/
def LiveBut (b : Board) (name : String) : Prop := ∀ other slot, other ≠ name → b.slot other = some slot → Awaited b other slot

theorem Awaited.of_eq (h : Awaited b name slot) (hc : b'.capacity = b.capacity) (ha : b'.admissions = b.admissions)
    (hd : b'.completions = b.completions) : Awaited b' name slot :=
  ⟨h.owned, fun id hu => by rw [hc, ha]; exact h.undecided id hu, fun id hx => by rw [hd]; exact h.accepted id hx⟩

theorem Live.of_eq (h : Live b) (hs : b'.slot = b.slot) (hc : b'.capacity = b.capacity)
    (ha : b'.admissions = b.admissions) (hd : b'.completions = b.completions) : Live b' := by
  intro name slot hslot
  rw [hs] at hslot
  exact (h name slot hslot).of_eq hc ha hd

theorem Live.but (h : Live b) (name : String) : LiveBut b name := fun other slot _ hslot => h other slot hslot

/-- Nothing another slot waits for is dropped. -/
structure Grows (name : String) (b b' : Board) : Prop where
  slot : b'.slot = b.slot
  capacity : ∀ other slot id, other ≠ name → b.slot other = some slot → slot.phase.undecided = some id →
    b.capacity id ≠ none → b'.capacity id ≠ none
  admissions : ∀ id other, other ≠ name → (id, other) ∈ b.admissions → (id, other) ∈ b'.admissions
  completions : ∀ id other, other ≠ name → (id, other) ∈ b.completions → (id, other) ∈ b'.completions

theorem LiveBut.grows (h : LiveBut b name) (hgrows : Grows name b b') : LiveBut b' name := by
  intro other slot hne hslot
  rw [hgrows.slot] at hslot
  have hold := h other slot hne hslot
  refine ⟨hold.owned, fun id hu => ?_, fun id ha => hgrows.completions id other hne (hold.accepted id ha)⟩
  exact (hold.undecided id hu).imp (hgrows.capacity other slot id hne hslot hu) (hgrows.admissions id other hne)

theorem Grows.of_eq (hs : b'.slot = b.slot) (hc : b'.capacity = b.capacity) (ha : b'.admissions = b.admissions)
    (hd : b'.completions = b.completions) (name : String) : Grows name b b' where
  slot := hs
  capacity := fun _ _ _ _ _ _ => by rw [hc]; exact id
  admissions := fun _ _ _ => by rw [ha]; exact id
  completions := fun _ _ _ => by rw [hd]; exact id

theorem Grows.trans {b'' : Board} (h : Grows name b b') (h' : Grows name b' b'') : Grows name b b'' where
  slot := h'.slot.trans h.slot
  capacity := fun other slot id hne hslot hu hc =>
    h'.capacity other slot id hne (by rw [h.slot]; exact hslot) hu (h.capacity other slot id hne hslot hu hc)
  admissions := fun id other hne ha => h'.admissions id other hne (h.admissions id other hne ha)
  completions := fun id other hne hc => h'.completions id other hne (h.completions id other hne hc)

/-- The locked slot is written back. -/
theorem LiveBut.put (h : LiveBut b name) (hslot : Awaited b name slot) : Live (b.setSlot name (some slot)) := by
  intro other found hfound
  rw [setSlot_slot] at hfound
  split at hfound
  · next hother =>
    obtain rfl := Option.some.inj hfound
    subst hother
    exact ⟨hslot.owned, hslot.undecided, hslot.accepted⟩
  · next hother =>
    have hold := h other found hother hfound
    exact ⟨hold.owned, hold.undecided, hold.accepted⟩

theorem LiveBut.remove (h : LiveBut b name) : Live (b.setSlot name none) := by
  intro other found hfound
  rw [setSlot_slot] at hfound
  split at hfound
  · cases hfound
  · next hother =>
    have hold := h other found hother hfound
    exact ⟨hold.owned, hold.undecided, hold.accepted⟩

/-- A spent slot is collected, any other one is written back. -/
theorem LiveBut.gc (h : LiveBut (board e) name) (hslot : slot.phase = .idle → slot.queue = [])
    (hawaited : slot.phase ≠ .idle → Awaited (board e) name slot) : Live (board (e.gcIfIdle name slot)) := by
  rw [Engine.gcIfIdle]
  by_cases hidle : slot.phase = .idle
  · have hspent : (slot.isIdle && slot.queue.isEmpty) = true := by
      rw [SlotState.isIdle_iff.mpr hidle, hslot hidle]
      rfl
    rw [if_pos hspent, board_removeSlot]
    exact h.remove
  · have hbusy : ¬ (slot.isIdle && slot.queue.isEmpty) = true := by
      simp [SlotState.isIdle, hidle]
    rw [if_neg hbusy, board_putSlot]
    exact h.put (hawaited hidle)

section Promotion

/-- The promotion ends with a spent slot or with a new owner whose future is
tracked. -/
theorem startNextLoop_awaited (cfg : ControllerConfig) (obs : Observed) (name : String) (queue : List PendingSubmission)
    (e : Engine) (hcap : ∀ pending ∈ queue, (board e).capacity pending.id = none) :
    Grows name (board e) (board (startNextLoop cfg obs name .idle e queue).2.1) ∧
      ((startNextLoop cfg obs name .idle e queue).2.2 = ⟨.idle, []⟩ ∨
        Awaited (board (startNextLoop cfg obs name .idle e queue).2.1) name (startNextLoop cfg obs name .idle e queue).2.2) := by
  induction queue generalizing e with
  | nil => exact ⟨.of_eq rfl rfl rfl rfl name, .inl rfl⟩
  | cons next rest ih =>
      have hnext : (board (e.unindexQueued next.id)).capacity next.id = none := by
        rw [board_unindexQueued]
        exact hcap next List.mem_cons_self
      rcases startInSlot_cases cfg obs ⟨.idle, rest⟩ name next rfl hnext with
        ⟨e', heq, hb⟩ | ⟨e', pump, heq, -, hb⟩ | ⟨error, e', heq, hb⟩
      · simp only [startNextLoop, heq]
        rw [board_publishSubmitted, hb, board_unindexQueued]
        refine ⟨⟨rfl, fun _ _ _ _ _ _ hc => hc, fun _ _ _ ha => List.mem_append_left _ ha, fun _ _ _ hc => hc⟩, .inr ?_⟩
        refine ⟨by rintro ⟨⟩, fun id hu => .inr ?_, by rintro _ ⟨⟩⟩
        obtain rfl := Option.some.inj hu
        exact List.mem_append_right _ List.mem_cons_self
      · simp only [startNextLoop, heq]
        rw [board_publishSubmitted, hb, board_unindexQueued]
        refine ⟨⟨rfl, fun _ _ id _ _ _ hc => ?_, fun _ _ _ ha => ha, fun _ _ _ hc => hc⟩, .inr ?_⟩
        · change (Board.setCapacity _ _ _).capacity id ≠ none
          rw [setCapacity_capacity]
          split
          · rintro ⟨⟩
          · exact hc
        · refine ⟨by rintro ⟨⟩, fun id hu => .inl ?_, by rintro _ ⟨⟩⟩
          obtain rfl := Option.some.inj hu
          change (Board.setCapacity _ _ _).capacity _ ≠ none
          rw [setCapacity_capacity, if_pos rfl]
          rintro ⟨⟩
      · have hreject : board (rejectCandidate obs e' name next.id error).2 =
            ((board e).setQueued next.id none).rejectParked next.id (rejectionKindForRuntimeError error)
              ("queue_start_failed: " ++ error.display) := by
          rw [rejectCandidate, board_publishFinalize, hb, board_unindexQueued]
        obtain ⟨hgrows, hslot⟩ := ih (rejectCandidate obs e' name next.id error).2 fun pending hp => by
          rw [hreject]
          exact hcap pending (List.mem_cons_of_mem _ hp)
        simp only [startNextLoop, heq]
        refine ⟨Grows.trans (.of_eq ?_ ?_ ?_ ?_ name) hgrows, hslot⟩
        all_goals
          rw [hreject]
          rfl

/-- The owner is gone: the slot moves on and its guard is released. -/
theorem settle_live (h : LiveBut (board e) name) (cfg : ControllerConfig) (obs : Observed) (queue : List PendingSubmission)
    (hcap : ∀ pending ∈ queue, (board e).capacity pending.id = none) :
    Live (board ((advance cfg obs e ⟨.idle, queue⟩ name true).2.1.gcIfIdle name
      (advance cfg obs e ⟨.idle, queue⟩ name true).2.2)) := by
  obtain ⟨hgrows, hslot⟩ := startNextLoop_awaited cfg obs name queue e hcap
  change Live (board ((startNextLoop cfg obs name .idle e queue).2.1.gcIfIdle name
    (startNextLoop cfg obs name .idle e queue).2.2))
  refine (h.grows hgrows).gc (fun hphase => ?_) fun hphase => ?_
  · rcases hslot with heq | hawaited
    · rw [heq]
    · exact absurd hphase hawaited.owned
  · rcases hslot with heq | hawaited
    · rw [heq] at hphase
      exact absurd rfl hphase
    · exact hawaited

end Promotion

section Results

theorem mem_erase_other {l : List (TaskId × String)} {id' : TaskId} {other : String} (hne : other ≠ name)
    (h : (id', other) ∈ l) : (id', other) ∈ l.erase (id, name) :=
  (List.mem_erase_of_ne fun he => hne (Prod.mk.inj he).2).mpr h

theorem grows_dropAdmission (e : Engine) (id : TaskId) (name : String) :
    Grows name (board e) (board (World.dropAdmission e id name)) :=
  ⟨rfl, fun _ _ _ _ _ _ hc => hc, fun _ _ hne ha => mem_erase_other hne ha, fun _ _ _ hc => hc⟩

theorem grows_dropCompletion (e : Engine) (id : TaskId) (name : String) :
    Grows name (board e) (board (World.dropCompletion e id name)) :=
  ⟨rfl, fun _ _ _ _ _ _ hc => hc, fun _ _ _ ha => ha, fun _ _ hne hc => mem_erase_other hne hc⟩

/-- Another slot never waits for the capacity of this slot's owner. -/
theorem grows_claim (ht : Tracked place b) (hslot : b.slot name = some slot) (howner : slot.ownerId = some id) {b' : Board}
    (hs : b'.slot = b.slot) (hc : ∀ other, other ≠ id → b'.capacity other = b.capacity other)
    (ha : ∀ entry ∈ b.admissions, entry ∈ b'.admissions) (hd : b'.completions = b.completions) : Grows name b b' where
  slot := hs
  capacity := fun other s x hne hother hu hx => by
    rw [hc x]
    · exact hx
    · rintro rfl
      have hplace := ht.owner other s x hother (SlotState.ownerId_of_undecided hu)
      exact hne (hplace.symm.trans (ht.owner name slot x hslot howner))
  admissions := fun x other _ hx => ha (x, other) hx
  completions := fun _ _ _ hx => by rw [hd]; exact hx

theorem admissionResult_live (h : Live (board e)) (hcoh : Coherent (board e)) (ht : Tracked place (board e))
    (hcalm : calm obs = true) (cfg : ControllerConfig) (hin : (id, name) ∈ e.operations.admissions) (accepted : Bool) :
    Live (board (handleAdmissionResult cfg obs (World.dropAdmission e id name) id name accepted)) := by
  obtain ⟨hdown, -, -, hup, -, -⟩ := calm_cases hcalm
  obtain ⟨slot, hslot, hu⟩ := ht.admission id name hin
  have hslot' : (World.dropAdmission e id name).state.slots.lookup name = some slot := hslot
  have hbut := (h.but name).grows (grows_dropAdmission e id name)
  have hcompletions : LiveBut (board ((World.dropAdmission e id name).trackCompletion id name)) name :=
    hbut.grows ⟨rfl, fun _ _ _ _ _ _ hc => hc, fun _ _ _ ha => ha, fun _ _ _ hc => List.mem_append_left _ hc⟩
  simp only [handleAdmissionResult, hslot']
  cases accepted with
  | true =>
      simp only [if_true]
      cases hphase : slot.phase with
      | admitting current since =>
          rw [hphase] at hu
          obtain rfl := Option.some.inj hu
          simp only [SlotState.confirmAdmission, hphase, if_true]
          rw [board_putSlot, board_publishTransition]
          refine hcompletions.put ⟨by rintro ⟨⟩, by rintro _ ⟨⟩, fun x ha => ?_⟩
          obtain rfl := Option.some.inj ha
          exact List.mem_append_right _ List.mem_cons_self
      | cancelPendingAdmission current since =>
          rw [hphase] at hu
          obtain rfl := Option.some.inj hu
          simp only [SlotState.confirmAdmission, hphase, hup, if_true]
          rw [board_trackRemoval, board_putSlot]
          have hawaited : Awaited (board ((World.dropAdmission e current name).trackCompletion current name)) name
              { slot with phase := .terminating current since } := by
            refine ⟨by rintro ⟨⟩, by rintro _ ⟨⟩, fun x ha => ?_⟩
            obtain rfl := Option.some.inj ha
            exact List.mem_append_right _ List.mem_cons_self
          have hput := hcompletions.put hawaited
          refine hput.of_eq ?_ ?_ ?_ ?_ <;> rfl
      | _ =>
          rw [hphase] at hu
          cases hu
  | false =>
      simp only [Bool.false_eq_true, if_false, SlotState.rejectAdmission_eq, if_pos hu, hdown, hup, Bool.not_false,
        Bool.and_true]
      rw [board_disposeAll]
      exact settle_live hbut cfg obs slot.queue (capacity_of_queue hcoh hslot :)

theorem completionResult_live (h : Live (board e)) (hcoh : Coherent (board e)) (ht : Tracked place (board e))
    (hcalm : calm obs = true) (cfg : ControllerConfig) (hin : (id, name) ∈ e.operations.completions) :
    Live (board (handleCompletionResult cfg obs (World.dropCompletion e id name) id name)) := by
  obtain ⟨hdown, -, -, hup, -, -⟩ := calm_cases hcalm
  obtain ⟨slot, hslot, ha⟩ := ht.completion id name hin
  have hslot' : (World.dropCompletion e id name).state.slots.lookup name = some slot := hslot
  have hbut := (h.but name).grows (grows_dropCompletion e id name)
  simp only [handleCompletionResult, hslot', hup, hdown, SlotState.completeOwner_eq, if_pos ha, Bool.not_true,
    Bool.not_false, Bool.false_eq_true, if_false]
  rw [board_disposeAll]
  exact settle_live hbut cfg obs slot.queue (capacity_of_queue hcoh hslot :)

/-- A claimed waiter is rejected, its slot clears and moves on. -/
theorem releaseCapacity_live (h : Live (board e)) (hcoh : Coherent (board e)) (ht : Tracked place (board e))
    (cfg : ControllerConfig) (obs : Observed) {entry : CapacityPending} {pump : CapacityAdmissionPump}
    (hslot : (board e).slot entry.slotName = some slot) (hu : slot.phase.undecided = some id) {kind : RejectionKind}
    {reason : String} (he' : board e' = (((board e).setCapacity id none).setPump pump).rejectParked id kind reason) :
    Live (board ((advance cfg obs e' { slot with phase := .idle } entry.slotName true).2.1.gcIfIdle entry.slotName
      (advance cfg obs e' { slot with phase := .idle } entry.slotName true).2.2)) := by
  have hcapacity (x : TaskId) : (board e').capacity x = if x = id then none else (board e).capacity x := by
    rw [he']
    exact setCapacity_capacity ..
  refine settle_live ?_ cfg obs slot.queue ?_
  · refine (h.but entry.slotName).grows (grows_claim ht hslot (SlotState.ownerId_of_undecided hu) ?_ ?_ ?_ ?_)
    · rw [he']
      rfl
    · exact fun other hne => (hcapacity other).trans (if_neg hne)
    · rw [he']
      exact fun _ ha => ha
    · rw [he']
      rfl
  · intro pending hp
    rw [hcapacity]
    split
    · rfl
    · exact capacity_of_queue hcoh hslot pending hp

theorem capacityResult_live (h : Live (board e)) (hcoh : Coherent (board e)) (ht : Tracked place (board e))
    (hcalm : calm obs = true) (cfg : ControllerConfig) {decision : Except RuntimeError Unit}
    (hquiet : interrupted decision = false) {pump : CapacityAdmissionPump}
    (hnext : e.operations.capacity.next = some (id, pump)) :
    Live (board (handleRegistryCapacityResult cfg obs (e.setPump pump) id decision)) := by
  obtain ⟨hdown, -, -, hup, hup', hgate⟩ := calm_cases hcalm
  obtain ⟨entry, slot, hentry, hpid, hslot, hu⟩ := capacity_entry hcoh (by
    rw [(waiting_next hnext).1]
    exact List.mem_cons_self)
  have howner := SlotState.ownerId_of_undecided hu
  have hentry' : (e.setPump pump).state.capacityPending.lookup id = some entry := hentry
  have hslot' : (e.setPump pump).state.slots.lookup entry.slotName = some slot := hslot
  simp only [handleRegistryCapacityResult, hentry', hslot', howner, ne_eq, not_true, if_false,
    claimCapacityPending_eq hentry']
  cases decision with
  | ok _ =>
      simp only [commitReserved, hup, hgate, Bool.and_self, if_true]
      rw [board_hand_track, board_removeWatcher, board_removeCapacity, board_setPump]
      intro other s hs
      by_cases hother : other = entry.slotName
      · subst hother
        obtain rfl := Option.some.inj (hslot.symm.trans hs)
        refine ⟨(h _ _ hslot).owned, fun x hx => .inr ?_, (h _ _ hslot).accepted⟩
        obtain rfl := Option.some.inj (hu.symm.trans hx)
        exact List.mem_append_right _ List.mem_cons_self
      · refine (h.but entry.slotName).grows (grows_claim ht hslot howner ?_ ?_ ?_ ?_) other s hother hs
        · rfl
        · intro x hne
          exact (setCapacity_capacity id x none).trans (if_neg hne)
        · exact fun _ ha => List.mem_append_left _ ha
        · rfl
  | error error =>
      have hdown' : error ≠ .shuttingDown := by
        rintro rfl
        cases hquiet
      set restored := (((e.setPump pump).removeCapacity id).removeWatcher id).restoreWatcher id
        (e.state.watchers.lookup id) with hr
      have hrestore : board restored = ((board e).setCapacity id none).setPump pump := by
        have hb := board_takeRestore ((e.setPump pump).removeCapacity id) id
        rw [board_removeCapacity, board_setPump] at hb
        exact hb
      have hreject (kind : RejectionKind) (reason : String) :=
        board_publishFinalize restored id entry.slotName kind reason obs
      rw [hrestore] at hreject
      have hfree : (!decide (error = .shuttingDown) && !obs.shutdown 0 && obs.supervisor 1) = true := by
        simp [hdown', hdown, hup']
      have hwatch : (e.setPump pump).state.watchers.lookup id = e.state.watchers.lookup id := rfl
      simp only [commitReserved, failCapacity, hwatch, ← hr, SlotState.rejectAdmission_eq, if_pos hu, hfree]
      rw [board_disposeAll, board_dispose]
      exact releaseCapacity_live h hcoh ht cfg obs hslot hu (hreject _ _)

theorem removal_live (h : Live (board e)) (hcoh : Coherent (board e)) (ht : Tracked place (board e))
    (hcalm : calm obs = true) (cfg : ControllerConfig) (id : TaskId) (reason : Option String) :
    Live (board (removeQueuedSubmission cfg obs e id reason).2) := by
  obtain ⟨-, hdown', -, hup, -, -⟩ := calm_cases hcalm
  rw [removeQueuedSubmission]
  split
  · exact h
  next slotName capacity hroute =>
  rcases route_cases hcoh hroute with ⟨entry, slot, rfl, hentry, rfl, -, hslot, hu⟩ | ⟨slot, rfl, hnone, hslot, hid⟩
  · simp only [hslot, removeRouted, hdown', Bool.false_eq_true, if_false, claimCapacityPending_eq hentry,
      SlotState.rejectAdmission_eq, if_pos hu, hup]
    rw [board_disposeAll, board_dispose]
    exact releaseCapacity_live h hcoh ht cfg obs hslot hu
      (board_rejectRemoved obs entry.slotName entry.pending.taskName reason)
  · obtain ⟨removed, hfind, -⟩ := find_queued hid
    have hawaited := h slotName slot hslot
    simp only [hslot, removeRouted, hdown', Bool.false_eq_true, if_false, claimCapacityPending, hnone, hfind]
    rw [board_dispose]
    have hboard := board_publishFinalize ((removeRequested e removed.taskName id reason).unindexQueued id) id slotName
      .removedFromQueue Reasons.removedFromQueue obs
    rw [board_unindexQueued, board_removeRequested] at hboard
    refine LiveBut.gc ?_ (fun hidle => absurd hidle hawaited.owned) fun _ => ?_
    · rw [hboard]
      refine (h.but slotName).grows (.of_eq ?_ ?_ ?_ ?_ slotName) <;> rfl
    · rw [hboard]
      exact ⟨hawaited.owned, hawaited.undecided, hawaited.accepted⟩

end Results

section Submission

variable {sub : Submission} {watcher : AdmissionWatcher}

/-- A replaced owner keeps the future it had. -/
theorem retireOwner_awaited (h : Awaited b name slot) (obs : Observed) (e : Engine) (slotName : String) :
    Awaited b name (retireOwner obs e slot slotName).2.2 := by
  cases hphase : slot.phase with
  | running owner since =>
      simp only [retireOwner, SlotState.requestReplacement, hphase]
      refine ⟨by rintro ⟨⟩, by rintro _ ⟨⟩, fun id hx => h.accepted id ?_⟩
      rw [hphase]
      exact hx
  | admitting owner since =>
      simp only [retireOwner, SlotState.requestReplacement, hphase]
      refine ⟨by rintro ⟨⟩, fun id hx => h.undecided id ?_, by rintro _ ⟨⟩⟩
      rw [hphase]
      exact hx
  | _ =>
      simp only [retireOwner, hphase]
      exact h

theorem retireOwner_frame (obs : Observed) (e : Engine) (slot : SlotState) (name : String) :
    (board (retireOwner obs e slot name).2.1).slot = (board e).slot ∧
      (board (retireOwner obs e slot name).2.1).capacity = (board e).capacity ∧
      (board (retireOwner obs e slot name).2.1).admissions = (board e).admissions ∧
      (board (retireOwner obs e slot name).2.1).completions = (board e).completions := by
  rw [retireOwner.eq_def]
  cases slot.phase <;> exact ⟨rfl, rfl, rfl, rfl⟩

theorem Awaited.requeue (h : Awaited b name slot) (queue : List PendingSubmission) : Awaited b name { slot with queue } :=
  ⟨h.owned, h.undecided, h.accepted⟩

/-- The submission is turned away and its slot written back as it was. -/
theorem turned_live (h : Parked sub b e slot watcher) (hlive : LiveBut b sub.slotName)
    (hawaited : Awaited b sub.slotName slot) (obs : Observed) (kind : RejectionKind) (reason : String) :
    Live (board ((watcher.rejectWithEvent obs e kind reason).2.1.putSlot sub.slotName slot)) := by
  rw [board_putSlot, h.turnAway obs kind reason]
  refine LiveBut.put ?_ ?_
  · refine hlive.grows (.of_eq ?_ ?_ ?_ ?_ sub.slotName) <;> rfl
  · refine hawaited.of_eq ?_ ?_ ?_ <;> rfl

theorem turned_gc (h : Parked sub b e slot watcher) (hlive : LiveBut b sub.slotName) (hspent : slot = .new)
    (obs : Observed) (kind : RejectionKind) (reason : String) :
    Live (board ((watcher.rejectWithEvent obs e kind reason).2.1.gcIfIdle sub.slotName slot)) := by
  refine LiveBut.gc ?_ (fun _ => by rw [hspent]; rfl) fun hphase => absurd (by rw [hspent]; rfl) hphase
  rw [h.turnAway obs kind reason]
  refine hlive.grows (.of_eq ?_ ?_ ?_ ?_ sub.slotName) <;> rfl

theorem placeNew_live (h : Parked sub b e slot watcher) (hlive : LiveBut b sub.slotName) (hspent : slot = .new)
    (hcalm : calm obs = true) (cfg : ControllerConfig) :
    Live (board (placeSubmission cfg obs e slot sub.slotName ⟨sub.id, sub.taskName⟩ sub.admission watcher).1) := by
  obtain ⟨-, -, hdown, -, -, -⟩ := calm_cases hcalm
  have hidle : slot.phase = .idle := by rw [hspent]; rfl
  have hcap : (board e).capacity sub.id = none := by
    rw [h.engine]
    exact (not_known_iff.mp h.unknown).2.1
  have hbut : LiveBut (board e) sub.slotName := by
    rw [h.engine]
    refine hlive.grows (.of_eq ?_ ?_ ?_ ?_ sub.slotName) <;> rfl
  rw [placeSubmission, hdown]
  simp only [Bool.false_eq_true, if_false, apply, if_pos (SlotState.isIdle_iff.mpr hidle)]
  rcases startInSlot_cases cfg obs slot sub.slotName ⟨sub.id, sub.taskName⟩ hidle hcap with
    ⟨e', heq, hb⟩ | ⟨e', pump, heq, -, hb⟩ | ⟨error, e', heq, hb⟩
  · simp only [admitIdle, heq, board_disposeAll, board_putSlot, board_publishSubmitted]
    rw [hb]
    refine LiveBut.put (hbut.grows ⟨rfl, fun _ _ _ _ _ _ hc => hc, fun _ _ _ ha => List.mem_append_left _ ha,
      fun _ _ _ hc => hc⟩) ⟨by rintro ⟨⟩, fun id hu => .inr ?_, by rintro _ ⟨⟩⟩
    obtain rfl := Option.some.inj hu
    exact List.mem_append_right _ List.mem_cons_self
  · simp only [admitIdle, heq, board_disposeAll, board_putSlot, board_publishSubmitted]
    rw [hb]
    refine LiveBut.put (hbut.grows ⟨rfl, fun _ _ id _ _ _ hc => ?_, fun _ _ _ ha => ha, fun _ _ _ hc => hc⟩)
      ⟨by rintro ⟨⟩, fun id hu => .inl ?_, by rintro _ ⟨⟩⟩
    · change (Board.setCapacity _ _ _).capacity id ≠ none
      rw [setCapacity_capacity]
      split
      · rintro ⟨⟩
      · exact hc
    · obtain rfl := Option.some.inj hu
      change (Board.setCapacity _ _ _).capacity _ ≠ none
      rw [setCapacity_capacity, if_pos rfl]
      rintro ⟨⟩
  · simp only [admitIdle, heq, board_dispose]
    exact turned_gc { h with engine := hb.trans h.engine } hlive hspent obs _ _

theorem placeBusy_live (h : Parked sub b e slot watcher) (hlive : LiveBut b sub.slotName)
    (hawaited : Awaited b sub.slotName slot) (hcalm : calm obs = true) (cfg : ControllerConfig) :
    Live (board (placeSubmission cfg obs e slot sub.slotName ⟨sub.id, sub.taskName⟩ sub.admission watcher).1) := by
  obtain ⟨-, -, hdown, -, -, -⟩ := calm_cases hcalm
  have hbusy : ¬ slot.isIdle = true := fun hidle => hawaited.owned (SlotState.isIdle_iff.mp hidle)
  have hturn (kind : RejectionKind) (reason : String) := turned_live h hlive hawaited obs kind reason
  have hkept : Awaited (board e) sub.slotName slot := by
    rw [h.engine]
    refine hawaited.of_eq ?_ ?_ ?_ <;> rfl
  have hbut : LiveBut (board e) sub.slotName := by
    rw [h.engine]
    refine hlive.grows (.of_eq ?_ ?_ ?_ ?_ sub.slotName) <;> rfl
  have hretired (e' : Engine) (queue : List PendingSubmission) (hb : LiveBut (board e') sub.slotName)
      (ha : Awaited (board e') sub.slotName slot) :
      Live ((board (retireOwner obs e' { slot with queue } sub.slotName).2.1).setSlot sub.slotName
        (some (retireOwner obs e' { slot with queue } sub.slotName).2.2)) := by
    obtain ⟨hs, hc, hadm, hd⟩ := retireOwner_frame obs e' { slot with queue } sub.slotName
    exact LiveBut.put (hb.grows (.of_eq hs hc hadm hd sub.slotName))
      ((retireOwner_awaited (ha.requeue queue) obs e' sub.slotName).of_eq hc hadm hd)
  rw [placeSubmission, hdown]
  simp only [Bool.false_eq_true, if_false, apply, if_neg hbusy]
  cases sub.admission with
  | dropIfRunning =>
      simp only [rejectBusy, board_dispose]
      exact hturn _ _
  | queue =>
      cases hfull : Engine.queueFullReason cfg slot.queue.length with
      | some reason =>
          simp only [Admission.queue, hfull, board_dispose]
          exact hturn _ _
      | none =>
          by_cases hlimit : e.pendingFull cfg = true
          · simp only [Admission.queue, hfull, Engine.tryPushQueued, if_pos hlimit, board_dispose]
            exact hturn _ _
          · simp only [Admission.queue, hfull, Engine.tryPushQueued, if_neg hlimit, board_disposeAll, board_putSlot,
              board_publishSubmitted, board_indexQueued]
            refine LiveBut.put (hbut.grows (.of_eq ?_ ?_ ?_ ?_ sub.slotName)) ((hkept.requeue _).of_eq ?_ ?_ ?_) <;> rfl
  | replace =>
      cases hqueue : slot.queue with
      | nil =>
          by_cases hlimit : e.pendingFull cfg = true
          · simp only [replace, Engine.tryReplaceHeadOrPush, hqueue, List.isEmpty_nil, if_true, if_pos hlimit, board_dispose]
            exact hturn _ _
          · simp only [replace, Engine.tryReplaceHeadOrPush, hqueue, List.isEmpty_nil, if_true, if_neg hlimit,
              board_disposeAll, board_putSlot, board_publishSubmitted]
            refine hretired (e.indexQueued sub.id sub.slotName) [⟨sub.id, sub.taskName⟩] ?_ ?_
            · rw [board_indexQueued]
              refine hbut.grows (.of_eq ?_ ?_ ?_ ?_ sub.slotName) <;> rfl
            · rw [board_indexQueued]
              refine hkept.of_eq ?_ ?_ ?_ <;> rfl
      | cons head rest =>
          simp only [replace, Engine.tryReplaceHeadOrPush, Engine.replaceHeadOrPush, hqueue, List.isEmpty_cons,
            Bool.false_eq_true, if_false, board_disposeAll, board_putSlot, board_publishSubmitted]
          have hboard := board_publishFinalize ((e.unindexQueued head.id).indexQueued sub.id sub.slotName) head.id
            sub.slotName .supersededByReplace Reasons.supersededByReplace obs
          rw [board_indexQueued, board_unindexQueued] at hboard
          refine hretired _ (⟨sub.id, sub.taskName⟩ :: rest) ?_ ?_
          · rw [hboard]
            refine hbut.grows (.of_eq ?_ ?_ ?_ ?_ sub.slotName) <;> rfl
          · rw [hboard]
            refine hkept.of_eq ?_ ?_ ?_ <;> rfl

theorem submission_live (h : Live (board e)) (hcoh : Coherent (board e)) (hunknown : ¬ Known (board e) sub.id)
    (hcalm : calm obs = true) (cfg : ControllerConfig) : Live (board (handleSubmission cfg obs none e sub)) := by
  obtain ⟨hdown, -, -, hup, -, -⟩ := calm_cases hcalm
  have hfree : (board e).watcher sub.id = none := (not_known_iff.mp hunknown).2.2.1
  obtain ⟨e₁, watcher, hpark, hb, hid, hstate⟩ := park_cases sub hfree
  have hslots : (board e₁).slot = (board e).slot := by rw [hb]; rfl
  have hreject (kind : RejectionKind) (reason : String) : Live ((board e).reject sub.id sub.done kind reason) := by
    refine h.of_eq ?_ ?_ ?_ ?_ <;> rfl
  have hcut : (awaitsPreflight e sub && decide ((none : Option AwaitPoint) = some .preflight)) = false := by simp
  cases hpre : explicitSlotRejection cfg obs e sub with
  | some rejection =>
      obtain ⟨kind, reason⟩ := rejection
      simp only [handleSubmission, submissionBody, hup, hdown, hcut, hpre, Bool.not_true, Bool.false_eq_true, if_false,
        AdmissionWatcher.drop, if_pos (rejectWithEvent_committed ..), board_rejectNew]
      exact hreject kind reason
  | none =>
      simp only [handleSubmission, submissionBody, hup, hdown, hcut, hpre, hpark, Bool.not_true, Bool.false_eq_true,
        if_false]
      rcases tryGetOrCreateSlot_cases cfg e₁ sub.slotName with ⟨limit, hget⟩ | ⟨slot, hget, hslot⟩ | ⟨hget, hslot⟩
      · simp only [hget, AdmissionWatcher.drop, if_pos (rejectWithEvent_committed ..), board_dispose]
        rw [board_turnAway hb hfree hid hstate]
        exact hreject _ _
      · rw [hslots] at hslot
        have hparked : Parked sub (board e) e₁ slot watcher := ⟨hb, hunknown, hslot, hid, hstate⟩
        have hlive := placeBusy_live hparked (h.but sub.slotName) (h _ _ hslot) hcalm cfg
        rw [← finishPlacement_eq hparked hcoh cfg obs] at hlive
        simp only [hget]
        exact hlive
      · rw [hslots] at hslot
        have hmove : Move (fun _ => True) (board e) _ := Move.create hslot
        have hb' : board (e₁.putSlot sub.slotName .new) =
            ((board e).setSlot sub.slotName (some .new)).setWatcher sub.id sub.done := by
          rw [board_putSlot, hb]
          rfl
        have hslot' : ((board e).setSlot sub.slotName (some .new)).slot sub.slotName = some .new := by
          rw [setSlot_slot, if_pos rfl]
        have hparked : Parked sub _ (e₁.putSlot sub.slotName .new) .new watcher :=
          ⟨hb', unknown_move hcoh hmove hunknown, hslot', hid, hstate⟩
        have hbut : LiveBut ((board e).setSlot sub.slotName (some .new)) sub.slotName := by
          intro other s hne hs
          rw [setSlot_slot, if_neg hne] at hs
          exact ⟨(h other s hs).owned, (h other s hs).undecided, (h other s hs).accepted⟩
        have hlive := placeNew_live hparked hbut rfl hcalm cfg
        rw [← finishPlacement_eq hparked (hcoh.move hmove) cfg obs] at hlive
        simp only [hget]
        exact hlive

end Submission

section Runs

variable {w w' : World} {a : Action}

theorem live_step (hw : (machine cfg).Reachable w) (hphase : w.phase = .looping) (hsteady : steady w a = true)
    (h : Live (board w.engine)) (hstep : World.step cfg w a = some w') : Live (board w'.engine) := by
  have hsane := sane_of_reachable hw hphase
  obtain ⟨place, hplace⟩ := exists_placing hw
  have ht := (bound_of_reachable hw hphase).tracked place hplace
  cases a with
  | send command =>
      simp only [World.step] at hstep
      split at hstep
      · obtain rfl := Option.some.inj hstep
        exact h
      · cases hstep
  | command obs cut =>
      simp only [steady, Bool.and_eq_true, Option.isNone_iff_eq_none] at hsteady
      obtain ⟨hcalm, rfl⟩ := hsteady
      cases hcommands : w.commands with
      | nil => simp [World.step, hcommands] at hstep
      | cons command rest =>
          simp only [World.step, hcommands] at hstep
          obtain rfl := looping_eq hstep
          cases command with
          | submit sub =>
              have hunknown := hsane.unknown sub (by rw [hcommands]; exact List.mem_cons_self)
              exact submission_live h hsane.coherent hunknown hcalm cfg
          | manageIdentity id operation reply =>
              have hlive := removal_live h hsane.coherent ht hcalm cfg id operation.requestReason
              change Live (board (handleIdentityOperation cfg obs w.engine id operation reply))
              rw [handleIdentityOperation]
              split
              · exact h
              split
              · next e' heq =>
                rw [heq] at hlive
                exact hlive
              · next e' heq =>
                rw [heq] at hlive
                repeat' split
                all_goals exact hlive
  | capacityResult obs decision =>
      simp only [steady, Bool.and_eq_true, Bool.not_eq_true'] at hsteady
      cases hnext : w.engine.operations.capacity.next with
      | none => simp [World.step, hnext] at hstep
      | some found =>
          obtain ⟨id, pump⟩ := found
          simp only [World.step, hnext] at hstep
          obtain rfl := looping_eq hstep
          exact capacityResult_live h hsane.coherent ht hsteady.1 cfg hsteady.2 hnext
  | admissionResult obs id slotName accepted =>
      simp only [World.step] at hstep
      split at hstep
      · next hin =>
        obtain rfl := looping_eq hstep
        exact admissionResult_live h hsane.coherent ht hsteady cfg hin accepted
      · cases hstep
  | completionResult obs id slotName =>
      simp only [World.step] at hstep
      split at hstep
      · next hin =>
        obtain rfl := looping_eq hstep
        exact completionResult_live h hsane.coherent ht hsteady cfg hin
      · cases hstep
  | removalResult id slotName decision =>
      simp only [World.step] at hstep
      split at hstep
      · obtain rfl := looping_eq hstep
        have hdropped : Live (board (World.dropRemoval w.engine id slotName)) := by
          refine h.of_eq ?_ ?_ ?_ ?_ <;> rfl
        change Live (board (handleRemovalResult _ id slotName decision))
        unfold handleRemovalResult
        split
        · exact hdropped
        split
        · exact hdropped
        split
        · exact hdropped
        · rw [board_publish _ rfl]
          exact hdropped
      · cases hstep
  | identityResult op result =>
      simp only [World.step] at hstep
      split at hstep
      · obtain rfl := looping_eq hstep
        exact h
      · cases hstep
  | _ => cases hsteady

theorem live_of_steady (hw : (steadyMachine cfg).Reachable w) : Live (board w.engine) := by
  refine hw.invariant (P := fun w => Live (board w.engine)) ?_ ?_
  · intro name slot hslot
    simp [board, steadyMachine, machine, Machine.guarded, World.new, Engine.new] at hslot
  · intro w a w' hw h hstep
    obtain ⟨hsteady, hstep⟩ := Machine.guarded_step hstep
    exact live_step hw.of_guarded (looping_of_steady hw) hsteady h hstep

/-- How many futures of the loop will report on an identity. -/
def wakeups (e : Engine) (id : TaskId) : Nat :=
  (waiting e.operations.capacity).count id + (e.operations.admissions.map Prod.fst).count id +
    (e.operations.completions.map Prod.fst).count id

theorem count_fst {l : List (TaskId × String)} (hnodup : l.Nodup) (hname : ∀ n, (id, n) ∈ l → n = name) :
    (l.map Prod.fst).count id = if (id, name) ∈ l then 1 else 0 := by
  have hcount : (l.map Prod.fst).count id = l.count (id, name) := by
    rw [List.count_eq_countP, List.countP_map, List.count_eq_countP]
    refine List.countP_congr ?_
    rintro ⟨x, n⟩ hx
    simp only [Function.comp_apply, beq_iff_eq, Prod.mk.injEq]
    refine ⟨?_, And.left⟩
    rintro rfl
    exact ⟨rfl, hname n hx⟩
  rw [hcount, hnodup.count]

theorem wakeups_eq_one (h : Live (board e)) (hcoh : Coherent (board e)) (ht : Tracked place (board e))
    (hslot : e.state.slots.lookup name = some slot) (howner : slot.ownerId = some id) : wakeups e id = 1 := by
  have hplace := ht.owner name slot id hslot howner
  have hadmission (n : String) (hn : (id, n) ∈ e.operations.admissions) : n = name ∧ slot.phase.undecided = some id := by
    obtain ⟨s, hs, hu⟩ := ht.admission id n hn
    obtain rfl : n = name := (ht.owner n s id hs (SlotState.ownerId_of_undecided hu)).symm.trans hplace
    obtain rfl := Option.some.inj (hs.symm.trans hslot)
    exact ⟨rfl, hu⟩
  have hcompletion (n : String) (hn : (id, n) ∈ e.operations.completions) : n = name ∧ slot.phase.accepted = some id := by
    obtain ⟨s, hs, ha⟩ := ht.completion id n hn
    obtain rfl : n = name := (ht.owner n s id hs (SlotState.ownerId_of_accepted ha)).symm.trans hplace
    obtain rfl := Option.some.inj (hs.symm.trans hslot)
    exact ⟨rfl, ha⟩
  have hawaited := h name slot hslot
  have hadmissions : (e.operations.admissions.map Prod.fst).count id = if (id, name) ∈ e.operations.admissions then 1 else 0 :=
    count_fst ht.admissions_nodup fun n hn => (hadmission n hn).1
  have hcompletions : (e.operations.completions.map Prod.fst).count id =
      if (id, name) ∈ e.operations.completions then 1 else 0 :=
    count_fst ht.completions_nodup fun n hn => (hcompletion n hn).1
  rw [wakeups, waiting_count hcoh id, hadmissions, hcompletions]
  rcases SlotState.ownerId_cases howner with hu | ha
  · have hnot : (id, name) ∉ e.operations.completions := fun hin => by
      have ha := (hcompletion name hin).2
      rw [accepted_of_undecided hu] at ha
      cases ha
    by_cases hin : (id, name) ∈ e.operations.admissions
    · have hout : id ∉ e.state.capacityPending := by
        rw [← AList.lookup_isSome, Option.not_isSome_iff_eq_none]
        exact (hcoh.admitted id (List.mem_map_of_mem hin)).2
      rw [if_neg hout, if_pos hin, if_neg hnot]
    · have hwaits : id ∈ e.state.capacityPending := by
        rw [← AList.lookup_isSome, Option.isSome_iff_ne_none]
        exact (hawaited.undecided id hu).resolve_right hin
      rw [if_pos hwaits, if_neg hin, if_neg hnot]
  · have hnot : (id, name) ∉ e.operations.admissions := fun hin => by
      have hu := (hadmission name hin).2
      rw [undecided_of_accepted ha] at hu
      cases hu
    have hout : id ∉ e.state.capacityPending := fun hin => by
      obtain ⟨entry, hentry⟩ := Table.exists_lookup hin
      obtain ⟨-, s, hs, hu⟩ := hcoh.holds id entry hentry
      obtain rfl : entry.slotName = name := (ht.owner _ s id hs (SlotState.ownerId_of_undecided hu)).symm.trans hplace
      obtain rfl := Option.some.inj (hs.symm.trans hslot)
      rw [undecided_of_accepted ha] at hu
      cases hu
    have hin : (id, name) ∈ e.operations.completions := hawaited.accepted id ha
    rw [if_neg hout, if_neg hnot, if_pos hin]

/-- Outside shutdown every tracked slot is owned, and exactly one future of the
loop reports on its owner, to that slot. -/
theorem no_stranded_slot (cfg : ControllerConfig) (w : World) (hw : (steadyMachine cfg).Reachable w) :
    ∀ name slot, w.engine.state.slots.lookup name = some slot →
      slot.phase ≠ .idle ∧ ∀ owner, slot.ownerId = some owner →
        wakeups w.engine owner = 1 ∧
        (∀ n, (owner, n) ∈ w.engine.operations.admissions ∨ (owner, n) ∈ w.engine.operations.completions → n = name) ∧
        ∀ entry, w.engine.state.capacityPending.lookup owner = some entry → entry.slotName = name := by
  intro name slot hslot
  have hlive := live_of_steady hw
  have hphase := looping_of_steady hw
  have hcoh := (sane_of_reachable hw.of_guarded hphase).coherent
  obtain ⟨place, hplacing⟩ := exists_placing hw.of_guarded
  have ht := (bound_of_reachable hw.of_guarded hphase).tracked place hplacing
  refine ⟨(hlive name slot hslot).owned, fun owner howner => ⟨wakeups_eq_one hlive hcoh ht hslot howner, ?_, ?_⟩⟩
  · rintro n (hin | hin)
    · obtain ⟨s, hs, hu⟩ := ht.admission owner n hin
      exact (ht.owner n s owner hs (SlotState.ownerId_of_undecided hu)).symm.trans (ht.owner name slot owner hslot howner)
    · obtain ⟨s, hs, ha⟩ := ht.completion owner n hin
      exact (ht.owner n s owner hs (SlotState.ownerId_of_accepted ha)).symm.trans (ht.owner name slot owner hslot howner)
  · intro entry hentry
    obtain ⟨-, s, hs, hu⟩ := hcoh.holds owner entry hentry
    exact (ht.owner _ s owner hs (SlotState.ownerId_of_undecided hu)).symm.trans (ht.owner name slot owner hslot howner)

/-- The capacity waiter of slot `z` is the only one to wake it. -/
theorem no_stranded_slot_waiting :
    ∃ w slot, (steadyMachine queueConfig).after (World.new queueConfig) waitingRun = some w ∧
      w.engine.state.slots.lookup "z" = some slot ∧ slot.ownerId = some 7 ∧ 7 ∈ waiting w.engine.operations.capacity ∧
      wakeups w.engine 7 = 1 := by
  obtain ⟨w, hw, hp⟩ := (Option.any_eq_true (fun w : World => decide (
      w.engine.state.slots.lookup "z" = some ⟨.admitting 7 0, []⟩ ∧ 7 ∈ waiting w.engine.operations.capacity)) _).mp
    (show (Machine.after (steadyMachine queueConfig) (World.new queueConfig) waitingRun).any _ = true by decide +kernel)
  obtain ⟨hslot, hwaits⟩ := of_decide_eq_true hp
  have hone := (no_stranded_slot queueConfig w (Machine.Reachable.after .init hw) "z" _ hslot).2 7 rfl
  exact ⟨w, _, hw, hslot, rfl, hwaits, hone.1⟩

end Runs

end Taskvisor.Controller.Wakeup
