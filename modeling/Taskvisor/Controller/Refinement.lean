import Taskvisor.Controller.Bridge
import Taskvisor.Controller.Coherence

namespace Taskvisor.Controller.Refinement

open Lib Runtime.Base Slot State Admission Abstract Bridge Coherence Driver

variable {cfg : ControllerConfig} {obs : Observed} {e : Engine} {slot : SlotState} {name : String} {id : TaskId}
  {pending : PendingSubmission} {fin : TaskId → Prop}

/-- The three ends of a handoff: committed, waiting for capacity, or refused
with everything as before. -/
theorem startInSlot_cases (cfg : ControllerConfig) (obs : Observed) (slot : SlotState) (name : String)
    (pending : PendingSubmission) (hidle : slot.phase = .idle) (hcap : (board e).capacity pending.id = none) :
    (∃ e', startInSlot cfg obs e slot name pending = (.ok (), e', { slot with phase := .admitting pending.id obs.now }) ∧
      board e' = ((board e).hand pending.id pending.taskName name ((board e).watcher pending.id)).setWatcher pending.id none) ∨
    (∃ e' pump, startInSlot cfg obs e slot name pending =
        (.ok (), e', { slot with phase := .admitting pending.id obs.now }) ∧
      (board e).pump.enqueue pending.id = .ok pump ∧
      board e' = ((board e).setCapacity pending.id (some ⟨name, pending⟩)).setPump pump) ∨
    ∃ error e', startInSlot cfg obs e slot name pending = (.error error, e', slot) ∧ board e' = board e := by
  have hbegin : slot.beginAdmission pending.id obs.now = (true, { slot with phase := .admitting pending.id obs.now }) :=
    SlotState.beginAdmission_of_idle hidle
  have hrestore := board_takeRestore e pending.id
  set restored := (e.removeWatcher pending.id).restoreWatcher pending.id (e.state.watchers.lookup pending.id) with hr
  have hindexed (c : CapacityPending) : board (restored.insertCapacity pending.id c) =
      (board e).setCapacity pending.id (some c) := by rw [board_insertCapacity, hrestore]
  cases hoffer : obs.offer pending.id with
  | ok _ =>
      refine .inl ⟨((e.removeWatcher pending.id).hand pending (e.state.watchers.lookup pending.id)).trackAdmission
        pending.id name, ?_, ?_⟩
      · simp only [startInSlot, hoffer, hbegin]
      · rw [board_hand_track, board_removeWatcher]
        rfl
  | error error =>
      by_cases hfull : error = .commandQueueFull
      · cases hindex : restored.tryIndexCapacityPending cfg pending.id ⟨name, pending⟩ with
        | error limit =>
            refine .inr (.inr ⟨.resourceLimitReached "controller_pending" limit, restored, ?_, hrestore⟩)
            simp only [startInSlot, hoffer, hfull, if_true, ← hr, hindex]
        | ok indexed =>
            have hie : indexed = restored.insertCapacity pending.id ⟨name, pending⟩ := by
              rw [Engine.tryIndexCapacityPending] at hindex
              split at hindex
              · split at hindex
                · cases hindex
                · exact (Except.ok.inj hindex).symm
              · exact (Except.ok.inj hindex).symm
            have hpump : indexed.operations.capacity = (board e).pump := by
              have hb := congrArg Board.pump hrestore
              rw [hie]
              exact hb
            cases henq : indexed.operations.capacity.enqueue pending.id with
            | error limit =>
                refine .inr (.inr ⟨.resourceLimitReached "controller_admission" limit, indexed.removeCapacity pending.id,
                  ?_, ?_⟩)
                · simp only [startInSlot, hoffer, hfull, if_true, ← hr, hindex, henq]
                · rw [board_removeCapacity, hie, hindexed]
                  ext1 <;> simp [Board.setCapacity, ← hcap]
            | ok pump =>
                refine .inr (.inl ⟨indexed.setPump pump, pump, ?_, ?_, ?_⟩)
                · simp only [startInSlot, hoffer, hfull, if_true, ← hr, hindex, henq, hbegin]
                · rw [← hpump]
                  exact henq
                · rw [board_setPump, hie, hindexed]
      · refine .inr (.inr ⟨error, restored, ?_, hrestore⟩)
        simp only [startInSlot, hoffer, hfull, if_false, ← hr]

/-- The promotion loop keeps the slot idle until a candidate gets through. -/
theorem startNextLoop_moves (queue : List PendingSubmission) (e : Engine)
    (hcap : ∀ pending ∈ queue, (board e).capacity pending.id = none) :
    Moves fin ((board e).setSlot name (some ⟨.idle, queue⟩))
      ((board (startNextLoop cfg obs name .idle e queue).2.1).setSlot name
        (some (startNextLoop cfg obs name .idle e queue).2.2)) := by
  induction queue generalizing e with
  | nil => exact .refl
  | cons next rest ih =>
      have hnext : (board (e.unindexQueued next.id)).capacity next.id = none := by
        rw [board_unindexQueued]
        exact hcap next List.mem_cons_self
      have hslot : ((board e).setSlot name (some ⟨.idle, next :: rest⟩)).slot name = some ⟨.idle, next :: rest⟩ := by
        simp [Board.setSlot]
      rcases startInSlot_cases cfg obs ⟨.idle, rest⟩ name next rfl hnext with
        ⟨e', heq, hb⟩ | ⟨e', pump, heq, hpump, hb⟩ | ⟨error, e', heq, hb⟩
      · have hmove : Move fin _ _ := Move.promote obs.now hslot rfl rfl
        rw [setSlot_setSlot] at hmove
        simp only [startNextLoop, heq]
        refine .single ?_
        rw [board_publishSubmitted, hb, board_unindexQueued]
        exact hmove
      · rw [board_unindexQueued] at hpump
        have hmove : Move fin _ _ := Move.promoteWait obs.now hslot rfl rfl hpump
        rw [setSlot_setSlot] at hmove
        simp only [startNextLoop, heq]
        refine .single ?_
        rw [board_publishSubmitted, hb, board_unindexQueued]
        exact hmove
      · have hmove : Move fin _ _ := Move.promoteFail (rejectionKindForRuntimeError error) ("queue_start_failed: " ++ error.display)
          hslot rfl rfl
        rw [setSlot_setSlot] at hmove
        have hreject : board (rejectCandidate obs e' name next.id error).2 =
            ((board e).setQueued next.id none).rejectParked next.id (rejectionKindForRuntimeError error)
              ("queue_start_failed: " ++ error.display) := by
          rw [rejectCandidate, board_publishFinalize, hb, board_unindexQueued]
        simp only [startNextLoop, heq]
        refine .head hmove ?_
        have hrest := ih (rejectCandidate obs e' name next.id error).2 fun pending hp => by
          rw [hreject]
          exact hcap pending (List.mem_cons_of_mem _ hp)
        rw [hreject] at hrest
        exact hrest

theorem startNextFromQueue_moves (e : Engine) (slot : SlotState) (hidle : slot.phase = .idle)
    (hcap : ∀ pending ∈ slot.queue, (board e).capacity pending.id = none) :
    Moves fin ((board e).setSlot name (some slot))
      ((board (startNextFromQueue cfg obs e slot name).2.1).setSlot name
        (some (startNextFromQueue cfg obs e slot name).2.2)) := by
  rw [startNextFromQueue, if_pos (SlotState.isIdle_iff.mpr hidle), hidle]
  obtain ⟨phase, queue⟩ := slot
  obtain rfl : phase = .idle := hidle
  exact startNextLoop_moves queue e hcap

theorem advance_moves (e : Engine) (slot : SlotState) (goesOn : Bool) (hidle : slot.phase = .idle)
    (hcap : ∀ pending ∈ slot.queue, (board e).capacity pending.id = none) :
    Moves fin ((board e).setSlot name (some slot))
      ((board (advance cfg obs e slot name goesOn).2.1).setSlot name (some (advance cfg obs e slot name goesOn).2.2)) := by
  rw [advance]
  split
  · exact startNextFromQueue_moves e slot hidle hcap
  · exact .refl

/-- Releasing the guard writes the slot back and collects it when spent. -/
theorem gcIfIdle_moves (e : Engine) (name : String) (slot : SlotState) :
    Moves fin ((board e).setSlot name (some slot)) (board (e.gcIfIdle name slot)) := by
  rw [Engine.gcIfIdle]
  split
  · next hspent =>
    simp only [Bool.and_eq_true, List.isEmpty_iff] at hspent
    rw [board_removeSlot]
    have hslot : ((board e).setSlot name (some slot)).slot name = some slot := by simp [Board.setSlot]
    have hmove : Move fin _ _ := Move.collect hslot (SlotState.isIdle_iff.mp hspent.1) hspent.2
    rw [setSlot_setSlot] at hmove
    exact .single hmove
  · rw [board_putSlot]

/-- The owner is gone: the slot moves on and its guard is released. -/
theorem settle_moves (cfg : ControllerConfig) (obs : Observed) (name : String) (e : Engine) (slot : SlotState)
    (goesOn : Bool) (hidle : slot.phase = .idle)
    (hcap : ∀ pending ∈ slot.queue, (board e).capacity pending.id = none) :
    Moves fin ((board e).setSlot name (some slot))
      (board ((advance cfg obs e slot name goesOn).2.1.gcIfIdle name (advance cfg obs e slot name goesOn).2.2)) :=
  (advance_moves e slot goesOn hidle hcap).trans (gcIfIdle_moves _ _ _)

theorem capacity_of_queue {b : Board} (h : Coherent b) (hslot : b.slot name = some slot) :
    ∀ pending ∈ slot.queue, b.capacity pending.id = none := by
  intro pending hp
  refine h.disjoint pending.id ?_
  rw [h.queued_of_mem hslot (List.mem_map_of_mem hp)]
  exact nofun

section Results

theorem handleAdmissionResult_moves (h : Coherent (board e)) (obs : Observed) (accepted : Bool)
    (htracked : (id, name) ∈ e.operations.admissions) (hfin : accepted = false → fin id) :
    Moves fin (board e) (board (handleAdmissionResult cfg obs (World.dropAdmission e id name) id name accepted)) := by
  have hstale (hs : ∀ slot, (board e).slot name = some slot → slot.phase.undecided ≠ some id) :
      Moves fin (board e) (board (World.dropAdmission e id name)) := .single (.staleAdmission htracked hs)
  rw [handleAdmissionResult]
  cases hslot : (World.dropAdmission e id name).state.slots.lookup name with
  | none =>
      refine hstale fun slot hs => ?_
      cases hslot.symm.trans hs
  | some slot =>
      have hslot : (board e).slot name = some slot := hslot
      have hone (hu : slot.phase.undecided ≠ some id) :
          ∀ slot', (board e).slot name = some slot' → slot'.phase.undecided ≠ some id := by
        intro slot' hs
        rwa [← Option.some.inj (hslot.symm.trans hs)]
      cases accepted with
      | true =>
          simp only [if_true]
          cases hphase : slot.phase with
          | admitting current since =>
              by_cases hc : current = id
              · subst hc
                simp only [SlotState.confirmAdmission, hphase, if_true]
                rw [board_putSlot, board_publishTransition, board_trackCompletion]
                exact .single (.confirmAdmitting obs.now hslot hphase htracked)
              · simp only [SlotState.confirmAdmission, hphase, if_neg hc]
                exact hstale (hone (by simp [SlotPhase.undecided, hphase, hc]))
          | cancelPendingAdmission current since =>
              by_cases hc : current = id
              · subst hc
                simp only [SlotState.confirmAdmission, hphase, if_true]
                have hmove : Move fin _ _ := Move.confirmCancelled (b := board e) (obs.supervisor 0) hslot hphase htracked
                cases halive : obs.supervisor 0 with
                | true =>
                    rw [halive] at hmove
                    rw [if_pos rfl, board_trackRemoval, board_putSlot, board_trackCompletion]
                    exact .single hmove
                | false =>
                    rw [halive] at hmove
                    simp only [Bool.false_eq_true, if_false, List.append_nil] at hmove ⊢
                    rw [board_putSlot, board_trackCompletion]
                    exact .single hmove
              · simp only [SlotState.confirmAdmission, hphase, if_neg hc]
                exact hstale (hone (by simp [SlotPhase.undecided, hphase, hc]))
          | _ =>
              simp only [SlotState.confirmAdmission, hphase]
              exact hstale (hone (by simp [SlotPhase.undecided, hphase]))
      | false =>
          simp only [Bool.false_eq_true, if_false, SlotState.rejectAdmission_eq]
          by_cases hu : slot.phase.undecided = some id
          · simp only [if_pos hu]
            rw [board_disposeAll]
            refine .head (Move.refuse hslot hu htracked (hfin rfl)) ?_
            exact settle_moves cfg obs name (World.dropAdmission e id name) { slot with phase := .idle } _ rfl
              (capacity_of_queue h hslot :)
          · simp only [if_neg hu]
            exact hstale (hone hu)

theorem handleCompletionResult_moves (h : Coherent (board e)) (obs : Observed)
    (htracked : (id, name) ∈ e.operations.completions) (hfin : fin id) :
    Moves fin (board e) (board (handleCompletionResult cfg obs (World.dropCompletion e id name) id name)) := by
  have hstale : Moves fin (board e) (board (World.dropCompletion e id name)) := .single (.staleCompletion htracked)
  rw [handleCompletionResult]
  split
  · exact hstale
  cases hslot : (World.dropCompletion e id name).state.slots.lookup name with
  | none => exact hstale
  | some slot =>
      have hslot : (board e).slot name = some slot := hslot
      simp only [SlotState.completeOwner_eq]
      by_cases ha : slot.phase.accepted = some id
      · simp only [if_pos ha]
        rw [board_disposeAll]
        refine .head (Move.complete hslot ha htracked hfin) ?_
        exact settle_moves cfg obs name (World.dropCompletion e id name) { slot with phase := .idle } _ rfl
          (capacity_of_queue h hslot :)
      · simp only [if_neg ha]
        exact hstale

theorem handleRemovalResult_moves (decision : Except RuntimeError Bool) (htracked : (id, name) ∈ e.operations.removals) :
    Moves fin (board e) (board (handleRemovalResult (World.dropRemoval e id name) id name decision)) := by
  have hremoved : Moves fin (board e) (board (World.dropRemoval e id name)) := .single (.removed htracked)
  unfold handleRemovalResult
  split
  · exact hremoved
  split
  · exact hremoved
  cases decision with
  | ok _ => exact hremoved
  | error error =>
      rw [board_publish _ rfl]
      exact hremoved

end Results

section Capacity

variable {pump : CapacityAdmissionPump}

@[simp] theorem waiting_startNext (pump : CapacityAdmissionPump) : waiting pump.startNext = waiting pump := by
  obtain ⟨limit, queued, active⟩ := pump
  cases active <;> cases queued <;> simp [CapacityAdmissionPump.startNext, waiting]

@[simp] theorem limit_startNext (pump : CapacityAdmissionPump) : pump.startNext.limit = pump.limit := by
  obtain ⟨limit, queued, active⟩ := pump
  cases active <;> cases queued <;> rfl

theorem waiting_next {pump' : CapacityAdmissionPump} (h : pump.next = some (id, pump')) :
    waiting pump = id :: waiting pump' ∧ pump'.limit = pump.limit := by
  rw [CapacityAdmissionPump.next] at h
  split at h
  · cases h
  · next active hactive =>
    obtain ⟨rfl, rfl⟩ := Prod.mk.inj (Option.some.inj h)
    constructor
    · rw [waiting_startNext, ← waiting_startNext pump, waiting, waiting, hactive]
      rfl
    · rw [limit_startNext]
      exact limit_startNext pump

theorem waiting_cancel (hmem : id ∈ waiting pump) :
    (waiting pump).Perm (id :: waiting (pump.cancel id).2) ∧ (pump.cancel id).2.limit = pump.limit := by
  rw [CapacityAdmissionPump.cancel]
  split
  · next hactive =>
    rw [waiting_startNext, limit_startNext, waiting, hactive]
    exact ⟨.refl _, rfl⟩
  · next hactive =>
    have hq : id ∈ pump.queued := by
      rw [waiting, List.mem_append, Option.mem_toList] at hmem
      exact hmem.resolve_left hactive
    rw [if_pos hq]
    exact ⟨((List.perm_cons_erase hq).append_left _).trans List.perm_middle, rfl⟩

/-- A waiter of the pump has its entry, and its slot waits for it. -/
theorem capacity_entry (h : Coherent (board e)) (hid : id ∈ waiting e.operations.capacity) :
    ∃ entry slot, e.state.capacityPending.lookup id = some entry ∧ entry.pending.id = id ∧
      e.state.slots.lookup entry.slotName = some slot ∧ slot.phase.undecided = some id := by
  obtain ⟨entry, hentry⟩ := Option.ne_none_iff_exists'.mp ((h.pump id).mpr hid)
  obtain ⟨hpid, slot, hslot, hu⟩ := h.holds id entry hentry
  exact ⟨entry, slot, hentry, hpid, hslot, hu⟩

theorem claimCapacityPending_eq {entry : CapacityPending} (h : e.state.capacityPending.lookup id = some entry) :
    claimCapacityPending e id =
      some (entry, e.state.watchers.lookup id, (e.removeCapacity id).removeWatcher id) := by
  simp only [claimCapacityPending, h]

/-- A claimed waiter is rejected, its slot clears and moves on. -/
theorem releaseCapacity_moves (h : Coherent (board e)) (cfg : ControllerConfig) (obs : Observed) (goesOn : Bool)
    {entry : CapacityPending} (hentry : (board e).capacity id = some entry)
    (hpump : (waiting (board e).pump).Perm (id :: waiting pump)) (hlimit : pump.limit = (board e).pump.limit)
    (hslot : (board e).slot entry.slotName = some slot) (hu : slot.phase.undecided = some id) {e' : Engine}
    {kind : RejectionKind} {reason : String}
    (he' : board e' = (((board e).setCapacity id none).setPump pump).rejectParked id kind reason) :
    Moves fin (board e) (board ((advance cfg obs e' { slot with phase := .idle } entry.slotName goesOn).2.1.gcIfIdle
      entry.slotName (advance cfg obs e' { slot with phase := .idle } entry.slotName goesOn).2.2)) := by
  refine .head (Move.capacityFail kind reason hentry hpump hlimit hslot hu) ?_
  have hsettle : Moves fin _ _ := settle_moves cfg obs entry.slotName e' { slot with phase := .idle } goesOn rfl ?_
  · rw [he'] at hsettle
    exact hsettle
  · rw [he']
    intro pending hp
    change (Board.setCapacity _ id none).capacity pending.id = none
    rw [setCapacity_capacity]
    split
    · rfl
    · exact capacity_of_queue h hslot pending hp

theorem failCapacity_moves (h : Coherent (board e)) (error : RuntimeError) {entry : CapacityPending}
    (hentry : (board e).capacity id = some entry) (hpump : (waiting (board e).pump).Perm (id :: waiting pump))
    (hlimit : pump.limit = (board e).pump.limit) (hslot : (board e).slot entry.slotName = some slot)
    (hu : slot.phase.undecided = some id) :
    Moves fin (board e) (board (failCapacity cfg obs (((e.setPump pump).removeCapacity id).removeWatcher id) slot
      entry.slotName id (e.state.watchers.lookup id) error)) := by
  set restored := (((e.setPump pump).removeCapacity id).removeWatcher id).restoreWatcher id
    (e.state.watchers.lookup id) with hr
  have hrestore : board restored = ((board e).setCapacity id none).setPump pump := by
    have hb := board_takeRestore ((e.setPump pump).removeCapacity id) id
    rw [board_removeCapacity, board_setPump] at hb
    exact hb
  simp only [failCapacity, ← hr, SlotState.rejectAdmission_eq, if_pos hu]
  rw [board_disposeAll, board_dispose]
  have hreject (kind : RejectionKind) (reason : String) := board_publishFinalize restored id entry.slotName kind reason obs
  rw [hrestore] at hreject
  exact releaseCapacity_moves h cfg obs _ hentry hpump hlimit hslot hu (hreject _ _)

theorem handleRegistryCapacityResult_moves (h : Coherent (board e)) (decision : Except RuntimeError Unit)
    (hnext : e.operations.capacity.next = some (id, pump)) :
    Moves fin (board e) (board (handleRegistryCapacityResult cfg obs (e.setPump pump) id decision)) := by
  obtain ⟨hwait, hlimit⟩ := waiting_next hnext
  have hperm : (waiting (board e).pump).Perm (id :: waiting pump) := .of_eq hwait
  obtain ⟨entry, slot, hentry, hpid, hslot, hu⟩ := capacity_entry h (by rw [hwait]; exact List.mem_cons_self)
  have howner := SlotState.ownerId_of_undecided hu
  have hentry' : (e.setPump pump).state.capacityPending.lookup id = some entry := hentry
  have hslot' : (e.setPump pump).state.slots.lookup entry.slotName = some slot := hslot
  simp only [handleRegistryCapacityResult, hentry', hslot', howner, ne_eq, not_true, if_false,
    claimCapacityPending_eq hentry']
  cases commitReserved obs decision with
  | ok _ =>
      have hmove : Move fin _ _ := Move.capacityCommit (b := board e) hentry hperm hlimit
      rw [board_hand_track, board_removeWatcher, board_removeCapacity, board_setPump]
      refine .single ?_
      rw [hpid] at hmove ⊢
      exact hmove
  | error error => exact failCapacity_moves h error hentry hperm hlimit hslot hu

end Capacity

section Identity

theorem route_cases {slotName : String} {capacity : Bool} (h : Coherent (board e))
    (hroute : route e id = some (slotName, capacity)) :
    (∃ entry slot, capacity = true ∧ e.state.capacityPending.lookup id = some entry ∧ entry.slotName = slotName ∧
      entry.pending.id = id ∧ e.state.slots.lookup slotName = some slot ∧ slot.phase.undecided = some id) ∨
    ∃ slot, capacity = false ∧ e.state.capacityPending.lookup id = none ∧ e.state.slots.lookup slotName = some slot ∧
      id ∈ ids slot := by
  rw [route] at hroute
  split at hroute
  · next entry hentry =>
    obtain ⟨rfl, rfl⟩ := Prod.mk.inj (Option.some.inj hroute)
    obtain ⟨hpid, slot, hslot, hu⟩ := h.holds id entry hentry
    exact .inl ⟨entry, slot, rfl, hentry, rfl, hpid, hslot, hu⟩
  · next hnone =>
    obtain ⟨n, hn, he⟩ := Option.map_eq_some_iff.mp hroute
    obtain ⟨rfl, rfl⟩ := Prod.mk.inj he
    obtain ⟨slot, hslot, hid⟩ := (h.index id n).mp hn
    exact .inr ⟨slot, rfl, hnone, hslot, hid⟩

theorem find_queued (hid : id ∈ ids slot) :
    ∃ removed, (slot.queue.find? fun pending => decide (pending.id = id)) = some removed ∧ removed.id = id := by
  obtain ⟨pending, hp, hpid⟩ := List.mem_map.mp hid
  have hsome : (slot.queue.find? fun pending => decide (pending.id = id)).isSome := by
    rw [List.find?_isSome]
    exact ⟨pending, hp, decide_eq_true hpid⟩
  obtain ⟨removed, hr⟩ := Option.isSome_iff_exists.mp hsome
  exact ⟨removed, hr, by simpa using List.find?_some hr⟩

theorem board_rejectRemoved (obs : Observed) (slotName taskName : String) (reason : Option String) :
    board (rejectRemoved obs ((e.removeCapacity id).removeWatcher id) slotName taskName id (e.state.watchers.lookup id)
      reason).2 = (((board e).setCapacity id none).setPump (e.operations.capacity.cancel id).2).rejectParked id
        .removedFromQueue Reasons.removedFromQueue := by
  rw [rejectRemoved, board_sendRejected, board_publishRejected, board_removeRequested, board_setPump, board_removeWatcher,
    board_removeCapacity]
  rfl

/-- A removal by identity finds its waiter where the index says, so that no
fallback for a stale slot is taken. -/
theorem removeQueuedSubmission_moves (h : Coherent (board e)) (cfg : ControllerConfig) (obs : Observed) (id : TaskId) (reason : Option String) :
    Moves fin (board e) (board (removeQueuedSubmission cfg obs e id reason).2) := by
  rw [removeQueuedSubmission]
  split
  · exact .refl
  · next slotName capacity hroute =>
    rcases route_cases h hroute with ⟨entry, slot, rfl, hentry, rfl, hpid, hslot, hu⟩ | ⟨slot, rfl, hnone, hslot, hid⟩
    · simp only [hslot, removeRouted]
      split
      · exact .refl
      · simp only [claimCapacityPending_eq hentry, SlotState.rejectAdmission_eq, if_pos hu]
        rw [board_disposeAll, board_dispose]
        obtain ⟨hperm, hlimit⟩ := waiting_cancel ((h.pump id).mp (by simp [board, hentry]))
        exact releaseCapacity_moves h cfg obs _ hentry hperm hlimit hslot hu
          (board_rejectRemoved obs entry.slotName entry.pending.taskName reason)
    · simp only [hslot, removeRouted]
      split
      · exact .refl
      · obtain ⟨removed, hfind, hrid⟩ := find_queued hid
        simp only [claimCapacityPending, hnone, hfind]
        rw [board_dispose]
        refine .head (Move.removeQueued .removedFromQueue Reasons.removedFromQueue hslot hid) ?_
        have hgc : Moves fin _ _ := gcIfIdle_moves (((removeRequested e removed.taskName id reason).unindexQueued id).publishRejected slotName
          id .removedFromQueue Reasons.removedFromQueue |>.finalizeRejected obs id .removedFromQueue
            Reasons.removedFromQueue).2 slotName
          { slot with queue := slot.queue.eraseP fun pending => decide (pending.id = id) }
        rw [board_publishFinalize, board_unindexQueued, board_removeRequested] at hgc
        exact hgc

theorem handleIdentityOperation_moves (h : Coherent (board e)) (id : TaskId) (operation : IdentityOperation)
    (reply : IdentityReply) : Moves fin (board e) (board (handleIdentityOperation cfg obs e id operation reply)) := by
  have hmoves : Moves fin _ _ := removeQueuedSubmission_moves h cfg obs id operation.requestReason
  rw [handleIdentityOperation]
  split
  · exact .refl
  split
  · next e' hremoved =>
    rw [hremoved] at hmoves
    exact hmoves
  · next e' hremoved =>
    rw [hremoved] at hmoves
    repeat' split
    all_goals exact hmoves

end Identity

section Submission

variable {b : Board} {sub : Submission} {watcher : AdmissionWatcher} {kind : RejectionKind} {reason : String}

theorem rejectWithEvent_committed (watcher : AdmissionWatcher) (obs : Observed) (e : Engine) (kind : RejectionKind)
    (reason : String) : (watcher.rejectWithEvent obs e kind reason).2.2.state = .committed := by
  rw [AdmissionWatcher.rejectWithEvent]
  split
  · assumption
  · simp only [AdmissionWatcher.reject]
    split <;> rfl

/-- A guard that still holds the sender rejects with it. -/
theorem board_rejectLocal {done : Option OutcomeTx} (hstate : watcher.state = .localGuard done) (obs : Observed) (e : Engine)
    (kind : RejectionKind) (reason : String) :
    board (watcher.rejectWithEvent obs e kind reason).2.1 = (board e).reject watcher.id done kind reason := by
  rw [AdmissionWatcher.rejectWithEvent, if_neg (by rw [hstate]; exact nofun)]
  cases done with
  | none =>
      have hnone : (board e).reject watcher.id none kind reason = (board e).note watcher.id kind reason := by
        ext1 <;> simp [Board.reject, Board.send]
      simp only [AdmissionWatcher.reject, hstate, hnone]
      split <;> simp only [board_dispose, board_publish_rejection]
  | some tx =>
      simp only [AdmissionWatcher.reject, hstate]
      split <;> simp only [board_dispose, board_sendRejected, board_publish_rejection] <;> rfl

theorem board_rejectNew (obs : Observed) (e : Engine) (sub : Submission) (kind : RejectionKind) (reason : String) :
    board ((AdmissionWatcher.new sub.id sub.done (some sub.slotName)).rejectWithEvent obs e kind reason).2.1 =
      (board e).reject sub.id sub.done kind reason :=
  board_rejectLocal rfl obs e kind reason

/-- A parked guard finalizes the sender it left with the controller. -/
theorem board_rejectParked (hstate : watcher.state = .parked) (obs : Observed) (e : Engine) (kind : RejectionKind)
    (reason : String) :
    board (watcher.rejectWithEvent obs e kind reason).2.1 = (board e).rejectParked watcher.id kind reason := by
  rw [AdmissionWatcher.rejectWithEvent, if_neg (by rw [hstate]; exact nofun)]
  simp only [AdmissionWatcher.reject, hstate]
  split <;> simp only [board_dispose, board_finalizeRejected, board_publish_rejection] <;> rfl

/-- The submission enters, and moves may follow. -/
def Entered (fin : TaskId → Prop) (sub : Submission) (b b' : Board) : Prop := ∃ b₁, Enter sub b b₁ ∧ Moves fin b₁ b'

theorem board_turnAway (hb : board e = b.setWatcher sub.id sub.done) (hfree : b.watcher sub.id = none)
    (hid : watcher.id = sub.id) (hstate : watcher.state = .parked) (obs : Observed) (kind : RejectionKind) (reason : String) :
    board (watcher.rejectWithEvent obs e kind reason).2.1 = b.reject sub.id sub.done kind reason := by
  rw [board_rejectParked hstate, hb, hid, rejectParked_park _ _ _ hfree]

theorem reject_setSlot (done : Option OutcomeTx) (kind : RejectionKind) (reason : String) (hslot : b.slot name = some slot) :
    (b.reject id done kind reason).setSlot name (some slot) = b.reject id done kind reason :=
  setSlot_self name hslot

/-- A rejected submission leaves its slot as it was. -/
theorem turnAway_gc (hb : board e = b.reject sub.id sub.done kind reason) (hslot : b.slot sub.slotName = some slot) :
    Entered fin sub b (board (e.gcIfIdle sub.slotName slot)) := by
  refine ⟨_, .turnAway kind reason, ?_⟩
  have hgc : Moves fin _ _ := gcIfIdle_moves e sub.slotName slot
  rw [hb, reject_setSlot sub.done kind reason hslot] at hgc
  exact hgc

theorem turnAway_put (hb : board e = b.reject sub.id sub.done kind reason) (hslot : b.slot sub.slotName = some slot) :
    Entered fin sub b (board (e.putSlot sub.slotName slot)) := by
  refine ⟨_, .turnAway kind reason, ?_⟩
  rw [board_putSlot, hb, reject_setSlot sub.done kind reason hslot]

theorem retireOwner_moves (obs : Observed) (e : Engine) (slot : SlotState) (name : String) :
    Moves fin ((board e).setSlot name (some slot))
      ((board (retireOwner obs e slot name).2.1).setSlot name (some (retireOwner obs e slot name).2.2)) := by
  have hslot : ((board e).setSlot name (some slot)).slot name = some slot := by rw [setSlot_slot, if_pos rfl]
  cases hphase : slot.phase with
  | running owner since =>
      have hmove : Move fin _ _ := Move.retireRunning obs.now hslot hphase
      rw [setSlot_setSlot] at hmove
      simp only [retireOwner, SlotState.requestReplacement, hphase]
      rw [board_publishTransition, board_trackRemoval]
      exact .single hmove
  | admitting owner since =>
      have hmove : Move fin _ _ := Move.retireAdmitting obs.now hslot hphase
      rw [setSlot_setSlot] at hmove
      simp only [retireOwner, SlotState.requestReplacement, hphase]
      rw [board_publishTransition]
      exact .single hmove
  | _ =>
      simp only [retireOwner, hphase]
      exact .refl

/-- What the locked placement may assume: the sender of an unknown submission
is parked and its slot is tracked. -/
structure Parked (sub : Submission) (b : Board) (e : Engine) (slot : SlotState) (watcher : AdmissionWatcher) : Prop where
  engine : board e = b.setWatcher sub.id sub.done
  unknown : ¬ Known b sub.id
  slot : b.slot sub.slotName = some slot
  id : watcher.id = sub.id
  state : watcher.state = .parked

theorem Parked.free (h : Parked sub b e slot watcher) : b.watcher sub.id = none := (not_known_iff.mp h.unknown).2.2.1

theorem Parked.turnAway (h : Parked sub b e slot watcher) (obs : Observed) (kind : RejectionKind) (reason : String) :
    board (watcher.rejectWithEvent obs e kind reason).2.1 = b.reject sub.id sub.done kind reason :=
  board_turnAway h.engine h.free h.id h.state obs kind reason

theorem Parked.unparked (h : Parked sub b e slot watcher) :
    (b.setWatcher sub.id sub.done).setWatcher sub.id none = b := by
  ext1 <;> simp [Board.setWatcher, ← h.free]

/-- What a placement method leaves behind: the submission entered, or its
sender is still parked and the slot as it was. -/
def Sound (fin : TaskId → Prop) (sub : Submission) (b : Board) (placed : Placed) : Prop :=
  match placed.outcome with
  | .accepted _ => placed.watcher.state = .committed ∧
      Entered fin sub b ((board placed.engine).setSlot sub.slotName (some placed.slot))
  | .rejected _ _ => Parked sub b placed.engine placed.slot placed.watcher
  | .handoffFailed _ _ => Parked sub b placed.engine placed.slot placed.watcher

theorem admitIdle_sound (h : Parked sub b e slot watcher) (hidle : slot.phase = .idle) (cfg : ControllerConfig)
    (obs : Observed) :
    Sound fin sub b (admitIdle cfg obs e slot sub.slotName ⟨sub.id, sub.taskName⟩ sub.admission watcher) := by
  have hcap : (board e).capacity sub.id = none := by
    rw [h.engine]
    exact (not_known_iff.mp h.unknown).2.1
  have hdone : (board e).watcher sub.id = sub.done := by rw [h.engine, setWatcher_watcher, if_pos rfl]
  rcases startInSlot_cases cfg obs slot sub.slotName ⟨sub.id, sub.taskName⟩ hidle hcap with
    ⟨e', heq, hb⟩ | ⟨e', pump, heq, hpump, hb⟩ | ⟨error, e', heq, hb⟩
  · simp only [Sound, admitIdle, heq]
    refine ⟨rfl, _, .start obs.now h.slot hidle, ?_⟩
    rw [board_publishSubmitted, hb, hdone, h.engine]
    change Moves fin _ ((((b.setWatcher sub.id sub.done).setWatcher sub.id none).setSlot sub.slotName
      (some { slot with phase := .admitting sub.id obs.now })).hand sub.id sub.taskName sub.slotName sub.done)
    rw [h.unparked]
  · rw [h.engine] at hpump
    simp only [Sound, admitIdle, heq]
    refine ⟨rfl, _, .wait obs.now h.slot hidle hpump, ?_⟩
    rw [board_publishSubmitted, hb, h.engine]
    exact .refl
  · simp only [Sound, admitIdle, heq]
    exact { h with engine := hb.trans h.engine }

theorem queue_sound (h : Parked sub b e slot watcher) (hbusy : slot.phase ≠ .idle) (cfg : ControllerConfig) :
    Sound fin sub b (Admission.queue cfg e slot sub.slotName ⟨sub.id, sub.taskName⟩ watcher) := by
  cases hfull : Engine.queueFullReason cfg slot.queue.length with
  | some reason =>
      simp only [Sound, Admission.queue, hfull]
      exact h
  | none =>
      by_cases hlimit : e.pendingFull cfg = true
      · simp only [Sound, Admission.queue, hfull, Engine.tryPushQueued, if_pos hlimit]
        exact h
      · simp only [Sound, Admission.queue, hfull, Engine.tryPushQueued, if_neg hlimit]
        refine ⟨rfl, _, .append h.slot hbusy, ?_⟩
        rw [board_publishSubmitted, board_indexQueued, h.engine]
        exact .refl

theorem replace_sound (h : Parked sub b e slot watcher) (hbusy : slot.phase ≠ .idle) (hcoh : Coherent b)
    (cfg : ControllerConfig) (obs : Observed) :
    Sound fin sub b (replace cfg obs e slot sub.slotName ⟨sub.id, sub.taskName⟩ watcher) := by
  cases hqueue : slot.queue with
  | nil =>
      by_cases hlimit : e.pendingFull cfg = true
      · simp only [Sound, replace, Engine.tryReplaceHeadOrPush, hqueue, List.isEmpty_nil, if_true, if_pos hlimit]
        exact h
      · simp only [Sound, replace, Engine.tryReplaceHeadOrPush, hqueue, List.isEmpty_nil, if_true, if_neg hlimit]
        have henter := Enter.append h.slot hbusy
        rw [hqueue, List.nil_append] at henter
        refine ⟨rfl, _, henter, ?_⟩
        have hretire : Moves fin _ _ := retireOwner_moves obs (e.indexQueued sub.id sub.slotName)
          { slot with queue := [⟨sub.id, sub.taskName⟩] } sub.slotName
        rw [board_indexQueued, h.engine] at hretire
        rw [board_publishSubmitted]
        exact hretire
  | cons head rest =>
      have hne : sub.id ≠ head.id := by
        intro he
        refine h.unknown (.inl ?_)
        rw [he, hcoh.queued_of_mem h.slot (by simp [ids, hqueue])]
        rintro ⟨⟩
      simp only [Sound, replace, Engine.tryReplaceHeadOrPush, Engine.replaceHeadOrPush, hqueue, List.isEmpty_cons,
        Bool.false_eq_true, if_false]
      refine ⟨rfl, _, .displace h.slot hbusy hqueue, ?_⟩
      have hretire : Moves fin _ _ := retireOwner_moves obs
        ((((e.unindexQueued head.id).indexQueued sub.id sub.slotName).publishRejected sub.slotName head.id
          .supersededByReplace Reasons.supersededByReplace).finalizeRejected obs head.id .supersededByReplace
            Reasons.supersededByReplace).2 { slot with queue := ⟨sub.id, sub.taskName⟩ :: rest } sub.slotName
      rw [board_publishFinalize, board_indexQueued, board_unindexQueued, h.engine] at hretire
      have hcomm := rejectParked_setWatcher (b := (b.setQueued head.id none).setQueued sub.id (some sub.slotName)) sub.id
        .supersededByReplace Reasons.supersededByReplace sub.done hne.symm
      rw [board_publishSubmitted]
      refine .trans ?_ hretire
      change Moves fin _ ((((b.setQueued head.id none).setQueued sub.id (some sub.slotName)).setWatcher sub.id
        sub.done).rejectParked head.id _ _ |>.setSlot _ _)
      rw [hcomm]
      exact .refl

theorem apply_sound (h : Parked sub b e slot watcher) (hcoh : Coherent b) (cfg : ControllerConfig) (obs : Observed) :
    Sound fin sub b (apply cfg obs e slot sub.slotName ⟨sub.id, sub.taskName⟩ sub.admission watcher) := by
  rw [apply.eq_def]
  by_cases hidle : slot.isIdle = true
  · rw [if_pos hidle]
    exact admitIdle_sound h (SlotState.isIdle_iff.mp hidle) cfg obs
  · rw [if_neg hidle]
    have hbusy : slot.phase ≠ .idle := fun hp => hidle (SlotState.isIdle_iff.mpr hp)
    cases sub.admission with
    | replace => exact replace_sound h hbusy hcoh cfg obs
    | queue => exact queue_sound h hbusy cfg
    | dropIfRunning => exact h

theorem placeSubmission_entered (h : Parked sub b e slot watcher) (hcoh : Coherent b) (cfg : ControllerConfig)
    (obs : Observed) :
    (placeSubmission cfg obs e slot sub.slotName ⟨sub.id, sub.taskName⟩ sub.admission watcher).2.state = .committed ∧
      Entered fin sub b (board
        (placeSubmission cfg obs e slot sub.slotName ⟨sub.id, sub.taskName⟩ sub.admission watcher).1) := by
  rw [placeSubmission]
  split
  · refine ⟨rejectWithEvent_committed .., ?_⟩
    rw [board_dispose]
    exact turnAway_gc (h.turnAway obs _ _) h.slot
  · have hsound : Sound fin sub b _ := apply_sound h hcoh cfg obs
    rw [Sound] at hsound
    split at hsound
    · next hout =>
      simp only [hout, board_disposeAll, board_putSlot]
      exact hsound
    · next hout =>
      simp only [hout, board_dispose]
      exact ⟨rejectWithEvent_committed .., turnAway_put (hsound.turnAway obs _ _) hsound.slot⟩
    · next hout =>
      simp only [hout, board_dispose]
      exact ⟨rejectWithEvent_committed .., turnAway_gc (hsound.turnAway obs _ _) hsound.slot⟩

/-- The slot of a submission is found, created, or refused by the limit. -/
theorem tryGetOrCreateSlot_cases (cfg : ControllerConfig) (e : Engine) (name : String) :
    (∃ limit, e.tryGetOrCreateSlot cfg name = .error limit) ∨
    (∃ slot, e.tryGetOrCreateSlot cfg name = .ok (slot, e) ∧ (board e).slot name = some slot) ∨
    (e.tryGetOrCreateSlot cfg name = .ok (.new, e.putSlot name .new) ∧ (board e).slot name = none) := by
  cases hslot : e.state.slots.lookup name with
  | some slot => exact .inr (.inl ⟨slot, by simp only [Engine.tryGetOrCreateSlot, hslot], hslot⟩)
  | none =>
      cases hmax : cfg.maxControllerSlots with
      | none => exact .inr (.inr ⟨by simp only [Engine.tryGetOrCreateSlot, hslot, hmax], hslot⟩)
      | some limit =>
          by_cases hfull : limit.get ≤ e.state.slots.size
          · exact .inl ⟨limit.get, by simp only [Engine.tryGetOrCreateSlot, hslot, hmax, if_pos hfull]⟩
          · exact .inr (.inr ⟨by simp only [Engine.tryGetOrCreateSlot, hslot, hmax, if_neg hfull], hslot⟩)

theorem park_cases (sub : Submission) (hfree : (board e).watcher sub.id = none) :
    ∃ e' watcher, ((AdmissionWatcher.new sub.id sub.done (some sub.slotName)).takePending sub.taskName).2.park e =
        (e', watcher) ∧
      board e' = (board e).setWatcher sub.id sub.done ∧ watcher.id = sub.id ∧ watcher.state = .parked := by
  refine ⟨_, _, rfl, ?_⟩
  cases hdone : sub.done with
  | none => exact ⟨(setWatcher_free sub.id hfree).symm, rfl, rfl⟩
  | some tx => exact ⟨board_insertWatcher e sub.id tx, rfl, rfl⟩

/-- The part of a submission under its slot's lock, with the guard's end. -/
def finishPlacement (cfg : ControllerConfig) (obs : Observed) (cut : Option AwaitPoint) (e : Engine) (slot : SlotState)
    (sub : Submission) (watcher : AdmissionWatcher) : Engine :=
  let (e, watcher) :=
    if cut = some .placement then (e.dispose sub.id none, watcher)
    else placeSubmission cfg obs e slot sub.slotName ⟨sub.id, sub.taskName⟩ sub.admission watcher
  watcher.drop obs e

theorem finishPlacement_entered (h : Parked sub b e slot watcher) (hcoh : Coherent b) (cfg : ControllerConfig)
    (obs : Observed) (cut : Option AwaitPoint) :
    Entered fin sub b (board (finishPlacement cfg obs cut e slot sub watcher)) := by
  by_cases hcut : cut = some .placement
  · simp only [finishPlacement, if_pos hcut]
    refine ⟨_, .turnAway .admissionFailed Reasons.controllerAdmissionInterrupted, ?_⟩
    rw [AdmissionWatcher.drop, if_neg (by rw [h.state]; exact nofun)]
    rw [board_turnAway (e := e.dispose sub.id none) h.engine h.free h.id h.state]
  · obtain ⟨hcommitted, hentered⟩ := placeSubmission_entered h hcoh cfg obs
    simp only [finishPlacement, if_neg hcut, AdmissionWatcher.drop, if_pos hcommitted]
    exact hentered

/-- Every path of a submission is one entry between moves. -/
theorem handleSubmission_entered (h : Coherent (board e)) (hunknown : ¬ Known (board e) sub.id) (cfg : ControllerConfig)
    (obs : Observed) (cut : Option AwaitPoint) :
    ∃ b, Moves fin (board e) b ∧ Entered fin sub b (board (handleSubmission cfg obs cut e sub)) := by
  have hfree : (board e).watcher sub.id = none := (not_known_iff.mp hunknown).2.2.1
  have hturn (kind : RejectionKind) (reason : String) : ∃ b, Moves fin (board e) b ∧
      Entered fin sub b (board (((AdmissionWatcher.new sub.id sub.done (some sub.slotName)).rejectWithEvent obs e kind
        reason).2.2.drop obs ((AdmissionWatcher.new sub.id sub.done (some sub.slotName)).rejectWithEvent obs e kind
          reason).2.1)) := by
    refine ⟨board e, .refl, _, .turnAway kind reason, ?_⟩
    rw [AdmissionWatcher.drop, if_pos (rejectWithEvent_committed ..), board_rejectNew]
  by_cases hgone : obs.supervisor 0 = true
  case neg =>
    simp only [handleSubmission, submissionBody, hgone, Bool.not_false, if_true]
    exact hturn _ _
  by_cases hshut : obs.shutdown 0 = true
  case pos =>
    simp only [handleSubmission, submissionBody, hgone, hshut, Bool.not_true, Bool.false_eq_true, if_false, if_true]
    exact hturn _ _
  by_cases hcut : (awaitsPreflight e sub && decide (cut = some .preflight)) = true
  case pos =>
    simp only [handleSubmission, submissionBody, hgone, hshut, hcut, Bool.not_true, Bool.false_eq_true, if_false, if_true]
    refine ⟨board e, .refl, _, .turnAway .admissionFailed Reasons.controllerAdmissionInterrupted, ?_⟩
    rw [AdmissionWatcher.drop, if_neg (by exact nofun), board_rejectLocal rfl]
    exact .refl
  cases hpre : explicitSlotRejection cfg obs e sub with
  | some rejection =>
      obtain ⟨kind, reason⟩ := rejection
      simp only [handleSubmission, submissionBody, hgone, hshut, hcut, hpre, Bool.not_true, Bool.false_eq_true, if_false]
      exact hturn _ _
  | none =>
      obtain ⟨e₁, watcher, hpark, hb, hid, hstate⟩ := park_cases sub hfree
      simp only [handleSubmission, submissionBody, hgone, hshut, hcut, hpre, hpark, Bool.not_true, Bool.false_eq_true,
        if_false]
      rcases tryGetOrCreateSlot_cases cfg e₁ sub.slotName with ⟨limit, hget⟩ | ⟨slot, hget, hslot⟩ | ⟨hget, hslot⟩
      · simp only [hget, AdmissionWatcher.drop, if_pos (rejectWithEvent_committed ..), board_dispose]
        rw [board_turnAway hb hfree hid hstate]
        exact ⟨board e, .refl, _, .turnAway _ _, .refl⟩
      · simp only [hget]
        rw [hb] at hslot
        exact ⟨board e, .refl, finishPlacement_entered ⟨hb, hunknown, hslot, hid, hstate⟩ h cfg obs cut⟩
      · simp only [hget]
        rw [hb] at hslot
        have hmove : Move fin _ _ := Move.create (b := board e) hslot
        have hb' : board (e₁.putSlot sub.slotName .new) =
            ((board e).setSlot sub.slotName (some .new)).setWatcher sub.id sub.done := by
          rw [board_putSlot, hb]
          rfl
        have hslot' : ((board e).setSlot sub.slotName (some .new)).slot sub.slotName = some .new := by
          rw [setSlot_slot, if_pos rfl]
        exact ⟨_, .single hmove, finishPlacement_entered
          ⟨hb', unknown_move h hmove hunknown, hslot', hid, hstate⟩ (h.move hmove) cfg obs cut⟩

end Submission

section Loop

variable {w w' : World}

/-- The owner whose end a step reports. -/
def released : Action → Option TaskId
  | .admissionResult _ id _ false => some id
  | .completionResult _ id _ => some id
  | _ => none

/-- One step of the running loop, seen on the board. -/
inductive Turn (cfg : ControllerConfig) (fin : TaskId → Prop) (w : World) : World → Prop
  | sent (command : ControllerCommand) (hfresh : fresh w.log command = true) : Turn cfg fin w (w.issue command)
  | submitted {sub : Submission} {rest : List ControllerCommand} {e : Engine} (hcommands : w.commands = .submit sub :: rest)
      (hentered : ∃ b, Moves fin (board w.engine) b ∧ Entered fin sub b (board e)) :
      Turn cfg fin w { w with commands := rest, engine := e }
  | managed {id : TaskId} {operation : IdentityOperation} {reply : IdentityReply} {rest : List ControllerCommand}
      {e : Engine} (hcommands : w.commands = .manageIdentity id operation reply :: rest)
      (hmoves : Moves fin (board w.engine) (board e)) : Turn cfg fin w { w with commands := rest, engine := e }
  | resolved {e : Engine} (hmoves : Moves fin (board w.engine) (board e)) : Turn cfg fin w { w with engine := e }
  | stopped : Turn cfg fin w { w with phase := .draining, engine := dropOperations cfg w.engine }

theorem looping_eq {e : Engine} (h : w.looping e = some w') : w' = { w with engine := e } := by
  rw [World.looping] at h
  split at h
  · exact (Option.some.inj h).symm
  · cases h

theorem step_turn {a : Action} (hphase : w.phase = .looping) (h : Coherent (board w.engine))
    (hunknown : ∀ sub rest, w.commands = .submit sub :: rest → ¬ Known (board w.engine) sub.id)
    (hfin : ∀ id, released a = some id → fin id) (hstep : World.step cfg w a = some w') : Turn cfg fin w w' := by
  cases a with
  | send command =>
      simp only [World.step] at hstep
      split at hstep
      · next hok =>
        obtain rfl := Option.some.inj hstep
        exact .sent command hok.2
      · cases hstep
  | command obs cut =>
      cases hcommands : w.commands with
      | nil => simp [World.step, hcommands] at hstep
      | cons command rest =>
          simp only [World.step, hcommands] at hstep
          obtain rfl := looping_eq hstep
          cases command with
          | submit sub => exact .submitted hcommands (handleSubmission_entered h (hunknown sub rest hcommands) cfg obs cut)
          | manageIdentity id operation reply =>
              exact .managed hcommands (handleIdentityOperation_moves h id operation reply)
  | capacityResult obs decision =>
      simp only [World.step] at hstep
      split at hstep
      · cases hstep
      · next id pump hnext =>
        obtain rfl := looping_eq hstep
        exact .resolved (handleRegistryCapacityResult_moves h decision hnext)
  | admissionResult obs id slotName accepted =>
      simp only [World.step] at hstep
      split at hstep
      · next htracked =>
        obtain rfl := looping_eq hstep
        refine .resolved (handleAdmissionResult_moves h obs accepted htracked ?_)
        rintro rfl
        exact hfin id rfl
      · cases hstep
  | completionResult obs id slotName =>
      simp only [World.step] at hstep
      split at hstep
      · next htracked =>
        obtain rfl := looping_eq hstep
        exact .resolved (handleCompletionResult_moves h obs htracked (hfin id rfl))
      · cases hstep
  | removalResult id slotName decision =>
      simp only [World.step] at hstep
      split at hstep
      · next htracked =>
        obtain rfl := looping_eq hstep
        exact .resolved (handleRemovalResult_moves decision htracked)
      · cases hstep
  | identityResult op result =>
      simp only [World.step] at hstep
      split at hstep
      · obtain rfl := looping_eq hstep
        exact .resolved .refl
      · cases hstep
  | stop =>
      simp only [World.step, if_pos hphase] at hstep
      obtain rfl := Option.some.inj hstep
      exact .stopped
  | drain obs => simp [World.step, hphase] at hstep
  | finalize obs => simp [World.step, hphase] at hstep
  | finish obs => simp [World.step, hphase] at hstep

/-- One step after the loop has ended. -/
inductive Wind (w : World) : World → Prop
  | sent (command : ControllerCommand) (hphase : w.phase = .draining) (hfresh : fresh w.log command = true) :
      Wind w (w.issue command)
  | drained {command : ControllerCommand} {rest : List ControllerCommand} (obs : Observed) (hphase : w.phase = .draining)
      (hcommands : w.commands = command :: rest) :
      Wind w { w with commands := rest, engine := drainCommand obs w.engine command }
  | finalized (obs : Observed) (hphase : w.phase = .draining) (hcommands : w.commands = []) :
      Wind w { w with phase := .finalized, engine := finalizeSlotStateOnShutdown obs w.engine }
  | finished (obs : Observed) (hphase : w.phase = .finalized) :
      Wind w { w with phase := .finished, engine := finalizeSlotStateOnShutdown obs w.engine }

theorem not_looping {e : Engine} (hphase : w.phase ≠ .looping) : w.looping e = none := if_neg hphase

theorem step_wind {a : Action} (hphase : w.phase ≠ .looping) (hstep : World.step cfg w a = some w') : Wind w w' := by
  cases a with
  | send command =>
      simp only [World.step] at hstep
      split at hstep
      · next hok =>
        obtain rfl := Option.some.inj hstep
        exact .sent command (hok.1.resolve_left hphase) hok.2
      · cases hstep
  | command obs cut =>
      cases hcommands : w.commands with
      | nil => simp [World.step, hcommands] at hstep
      | cons command rest =>
          simp only [World.step, hcommands] at hstep
          rw [not_looping (w := { w with commands := rest }) hphase] at hstep
          cases hstep
  | capacityResult obs decision =>
      simp only [World.step, not_looping hphase] at hstep
      split at hstep <;> cases hstep
  | admissionResult obs id slotName accepted =>
      simp only [World.step, not_looping hphase, ite_self, reduceCtorEq] at hstep
  | completionResult obs id slotName =>
      simp only [World.step, not_looping hphase, ite_self, reduceCtorEq] at hstep
  | removalResult id slotName decision =>
      simp only [World.step, not_looping hphase, ite_self, reduceCtorEq] at hstep
  | identityResult op result =>
      simp only [World.step, not_looping hphase, ite_self, reduceCtorEq] at hstep
  | stop =>
      simp only [World.step, if_neg hphase, reduceCtorEq] at hstep
  | drain obs =>
      simp only [World.step] at hstep
      split at hstep
      · next hdrain hcommands =>
        obtain rfl := Option.some.inj hstep
        exact .drained obs hdrain hcommands
      · cases hstep
  | finalize obs =>
      simp only [World.step] at hstep
      split at hstep
      · next hdrain hcommands =>
        obtain rfl := Option.some.inj hstep
        exact .finalized obs hdrain hcommands
      · cases hstep
  | finish obs =>
      simp only [World.step] at hstep
      split at hstep
      · next hfinal =>
        obtain rfl := Option.some.inj hstep
        exact .finished obs hfinal
      · cases hstep

/-- A world that still loops after a step looped before it. -/
theorem looping_before {a : Action} (hstep : World.step cfg w a = some w') (hphase : w'.phase = .looping) :
    w.phase = .looping := by
  by_contra hnot
  cases step_wind hnot hstep with
  | sent command hdrain hfresh => exact hnot hphase
  | drained obs hdrain hcommands => exact hnot hphase
  | finalized obs hdrain hcommands => cases hphase
  | finished obs hfinal => cases hphase

end Loop

end Taskvisor.Controller.Refinement
