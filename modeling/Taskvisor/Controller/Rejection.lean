import Taskvisor.Controller.Bounds
import Taskvisor.Controller.Wakeup

namespace Taskvisor.Controller.Rejection

open Lib Runtime.Base Slot State Admission Abstract Bridge Coherence Refinement Driver Frame Index Tracking Policy Wakeup Bounds

variable {cfg : ControllerConfig} {obs : Observed} {e e' : Engine} {slot slot' : SlotState} {name : String} {id : TaskId}
  {b : Board} {sub : Submission} {watcher : AdmissionWatcher} {kind : RejectionKind} {reason : String}
  {pending : PendingSubmission}

/-- The outcome that stays with the task because nobody receives it. -/
def undelivered (obs : Observed) (done : Option OutcomeTx) (kind : RejectionKind) (reason : String) : Option TaskOutcome :=
  done.bind fun tx => if obs.receiver tx then none else some (.rejected kind reason)

/-- The submission is turned away: the books are as before, its watcher hears
of it once and its task goes to its cleanup once. -/
structure TurnedAway (obs : Observed) (e e' : Engine) (sub : Submission) (kind : RejectionKind) (reason : String) : Prop where
  board : board e' = (board e).reject sub.id sub.done kind reason
  disposed : e'.disposed = e.disposed ++ [(sub.id, undelivered obs sub.done kind reason)]

section Reject

theorem sendRejected_disposed (e : Engine) (obs : Observed) (id : TaskId) (done : Option OutcomeTx) (kind : RejectionKind)
    (reason : String) : (e.sendRejected obs id done kind reason).2.disposed = e.disposed ∧
      (e.sendRejected obs id done kind reason).1 = undelivered obs done kind reason := by
  cases done <;> exact ⟨rfl, rfl⟩

theorem finalizeRejected_disposed (e : Engine) (obs : Observed) (id : TaskId) (kind : RejectionKind) (reason : String) :
    (e.finalizeRejected obs id kind reason).2.disposed = e.disposed ∧
      (e.finalizeRejected obs id kind reason).1 = undelivered obs (e.state.watchers.lookup id) kind reason := by
  cases hw : e.state.watchers.lookup id with
  | none => simp only [Engine.finalizeRejected, hw]; exact ⟨trivial, rfl⟩
  | some tx =>
      simp only [Engine.finalizeRejected, hw]
      exact sendRejected_disposed (e.removeWatcher id) obs id (some tx) kind reason

/-- A guard that still owns the task disposes of it itself. -/
theorem rejectNew_disposed (obs : Observed) (e : Engine) (sub : Submission) (kind : RejectionKind) (reason : String) :
    ((AdmissionWatcher.new sub.id sub.done (some sub.slotName)).rejectWithEvent obs e kind reason).2.1.disposed =
      e.disposed ++ [(sub.id, undelivered obs sub.done kind reason)] := by
  cases hdone : sub.done <;>
    simp [AdmissionWatcher.new, AdmissionWatcher.rejectWithEvent, AdmissionWatcher.reject, Engine.sendRejected,
      Engine.dispose, Engine.publish, undelivered]

/-- A parked guard leaves the task and the outcome nobody took to its caller. -/
theorem rejectParked_disposed (hstate : watcher.state = .parked) (howned : watcher.owned = false) (obs : Observed)
    (e : Engine) (kind : RejectionKind) (reason : String) :
    (watcher.rejectWithEvent obs e kind reason).2.1.disposed = e.disposed ∧
      (watcher.rejectWithEvent obs e kind reason).1 = undelivered obs (e.state.watchers.lookup watcher.id) kind reason := by
  obtain ⟨hdisposed, hterminal⟩ := finalizeRejected_disposed
    (e.publish ⟨.controllerRejected, watcher.eventTask, some watcher.id, some kind, some reason⟩) obs watcher.id kind reason
  rw [AdmissionWatcher.rejectWithEvent, if_neg (by rw [hstate]; rintro ⟨⟩)]
  simp only [AdmissionWatcher.reject, hstate, howned, Bool.false_eq_true, if_false]
  exact ⟨hdisposed, hterminal⟩

end Reject

section Handoff

/-- A failed handoff has put everything back. -/
theorem startInSlot_error {error : RuntimeError} (hidle : slot.phase = .idle)
    (hcap : e.state.capacityPending.lookup pending.id = none)
    (h : startInSlot cfg obs e slot name pending = (.error error, e', slot')) :
    slot' = slot ∧ board e' = board e ∧ e'.disposed = e.disposed ∧ e'.published = e.published := by
  have hgiven : e'.disposed = e.disposed ∧ e'.published = e.published := by
    have hrestore : ((e.removeWatcher pending.id).restoreWatcher pending.id (e.state.watchers.lookup pending.id)).disposed =
        e.disposed ∧ ((e.removeWatcher pending.id).restoreWatcher pending.id
          (e.state.watchers.lookup pending.id)).published = e.published := by
      cases e.state.watchers.lookup pending.id <;> exact ⟨rfl, rfl⟩
    set restored := (e.removeWatcher pending.id).restoreWatcher pending.id (e.state.watchers.lookup pending.id) with hr
    cases hoffer : obs.offer pending.id with
    | ok _ => simp [startInSlot, hoffer] at h
    | error failure =>
        by_cases hfull : failure = .commandQueueFull
        · simp only [startInSlot, hoffer, if_pos hfull, ← hr] at h
          cases hindex : restored.tryIndexCapacityPending cfg pending.id ⟨name, pending⟩ with
          | error limit =>
              simp only [hindex] at h
              obtain ⟨-, rfl, -⟩ := Prod.mk.inj h |>.imp_right Prod.mk.inj
              exact hrestore
          | ok indexed =>
              obtain rfl := tryIndexCapacityPending_ok hindex
              simp only [hindex] at h
              split at h
              · obtain ⟨-, rfl, -⟩ := Prod.mk.inj h |>.imp_right Prod.mk.inj
                exact hrestore
              · cases h
        · simp only [startInSlot, hoffer, if_neg hfull, ← hr] at h
          obtain ⟨-, rfl, -⟩ := Prod.mk.inj h |>.imp_right Prod.mk.inj
          exact hrestore
  rcases startInSlot_cases cfg obs slot name pending hidle hcap with
    ⟨e₁, heq, -⟩ | ⟨e₁, pump, heq, -, -⟩ | ⟨failure, e₁, heq, hb⟩
  · cases heq.symm.trans h
  · cases heq.symm.trans h
  · obtain ⟨-, rfl, rfl⟩ := Prod.mk.inj (heq.symm.trans h) |>.imp_right Prod.mk.inj
    exact ⟨rfl, hb, hgiven⟩

end Handoff

section Placement

theorem park_owned (sub : Submission) (e : Engine) :
    (((AdmissionWatcher.new sub.id sub.done (some sub.slotName)).takePending sub.taskName).2.park e).2.owned = false ∧
      (((AdmissionWatcher.new sub.id sub.done (some sub.slotName)).takePending sub.taskName).2.park e).1.disposed =
        e.disposed := by
  cases hdone : sub.done <;>
    simp [AdmissionWatcher.new, AdmissionWatcher.takePending, AdmissionWatcher.park, Engine.insertWatcher]

/-- A parked submission refused by its placement. -/
theorem parked_refused (h : Parked sub b e slot watcher) (howned : watcher.owned = false) (obs : Observed)
    (kind : RejectionKind) (reason : String) :
    (watcher.rejectWithEvent obs e kind reason).2.1.disposed = e.disposed ∧
      (watcher.rejectWithEvent obs e kind reason).1 = undelivered obs sub.done kind reason := by
  have hdone : e.state.watchers.lookup watcher.id = sub.done := by
    rw [h.id]
    exact (congrFun (congrArg Board.watcher h.engine) sub.id).trans ((setWatcher_watcher _ _ _).trans (if_pos rfl))
  obtain ⟨hdisposed, hterminal⟩ := rejectParked_disposed h.state howned obs e kind reason
  rw [hdone] at hterminal
  exact ⟨hdisposed, hterminal⟩

/-- The result of a placement on a slot that is as `b` shows it. -/
def Answered (obs : Observed) (sub : Submission) (b : Board) (e result : Engine) : Prop :=
  Known (board result) sub.id ∨ ∃ kind reason, board result = b.reject sub.id sub.done kind reason ∧
    result.disposed = e.disposed ++ [(sub.id, undelivered obs sub.done kind reason)]

theorem placeNew_cases (h : Parked sub b e .new watcher) (howned : watcher.owned = false) (hdown : obs.shutdown 2 = false)
    (cfg : ControllerConfig) : Answered obs sub (b.setSlot sub.slotName none) e
      (placeSubmission cfg obs e .new sub.slotName ⟨sub.id, sub.taskName⟩ sub.admission watcher).1 := by
  have hcap : e.state.capacityPending.lookup sub.id = none := by
    refine (congrFun (congrArg Board.capacity h.engine) sub.id).trans ?_
    exact (not_known_iff.mp h.unknown).2.1
  rw [placeSubmission, hdown]
  simp only [Bool.false_eq_true, if_false, apply, SlotState.isIdle_iff.mpr (show SlotState.new.phase = .idle from rfl),
    if_true]
  rcases heq : startInSlot cfg obs e .new sub.slotName ⟨sub.id, sub.taskName⟩ with ⟨result, e', slot'⟩
  cases result with
  | ok _ =>
      obtain rfl := startInSlot_admitting cfg obs rfl heq
      simp only [admitIdle, heq]
      refine .inl (.inr (.inr (.inr (.inr (.inr ⟨sub.slotName, _, AList.lookup_insert _, rfl⟩)))))
  | error error =>
      obtain ⟨rfl, hb, hdisposed, -⟩ := startInSlot_error rfl hcap heq
      have hparked : Parked sub b e' .new watcher := { h with engine := hb.trans h.engine }
      obtain ⟨hkept, hterminal⟩ := parked_refused hparked howned obs (rejectionKindForRuntimeError error)
        ("add_failed: " ++ error.display)
      simp only [admitIdle, heq]
      refine .inr ⟨rejectionKindForRuntimeError error, "add_failed: " ++ error.display, ?_, ?_⟩
      · rw [board_dispose]
        change board (Engine.removeSlot _ _) = _
        rw [board_removeSlot, hparked.turnAway obs]
        rfl
      · change (Engine.disposed _) ++ [_] = _
        rw [hterminal]
        exact congrArg (· ++ [_]) (hkept.trans hdisposed)

/-- A busy slot takes the submission in or turns it away. -/
theorem apply_busy (hbusy : slot.phase ≠ .idle) (cfg : ControllerConfig) (obs : Observed) (e : Engine) (sub : Submission)
    (watcher : AdmissionWatcher) :
    (∃ displaced, (apply cfg obs e slot sub.slotName ⟨sub.id, sub.taskName⟩ sub.admission watcher).outcome =
        .accepted displaced ∧ (board (apply cfg obs e slot sub.slotName ⟨sub.id, sub.taskName⟩ sub.admission
          watcher).engine).queued sub.id ≠ none) ∨
    ∃ kind reason, apply cfg obs e slot sub.slotName ⟨sub.id, sub.taskName⟩ sub.admission watcher =
      ⟨.rejected kind reason, e, slot, watcher⟩ := by
  have hindexed {e' : Engine} : (board (e'.indexQueued sub.id sub.slotName)).queued sub.id ≠ none := by
    rw [board_indexQueued, setQueued_queued, if_pos rfl]
    exact nofun
  have hretired {e' : Engine} {slot' : SlotState} {reason : String} (hq : (board e').queued sub.id ≠ none) :
      (board ((retireOwner obs e' slot' sub.slotName).2.1.publishSubmitted sub.slotName sub.id reason)).queued sub.id ≠
        none := by
    have hkept : (board (retireOwner obs e' slot' sub.slotName).2.1).queued = (board e').queued := by
      rw [retireOwner.eq_def]
      cases slot'.phase <;> rfl
    rw [board_publishSubmitted, hkept]
    exact hq
  rw [apply.eq_def, if_neg fun hidle => hbusy (SlotState.isIdle_iff.mp hidle)]
  cases sub.admission with
  | dropIfRunning => exact .inr ⟨_, _, rfl⟩
  | queue =>
      cases hfull : Engine.queueFullReason cfg slot.queue.length with
      | some reason =>
          simp only [Admission.queue, hfull]
          exact .inr ⟨_, _, rfl⟩
      | none =>
          by_cases hlimit : e.pendingFull cfg = true
          · simp only [Admission.queue, hfull, Engine.tryPushQueued, if_pos hlimit]
            exact .inr ⟨_, _, rfl⟩
          · simp only [Admission.queue, hfull, Engine.tryPushQueued, if_neg hlimit]
            refine .inl ⟨_, rfl, ?_⟩
            rw [board_publishSubmitted]
            exact hindexed
  | replace =>
      cases hqueue : slot.queue with
      | nil =>
          by_cases hlimit : e.pendingFull cfg = true
          · simp only [replace, Engine.tryReplaceHeadOrPush, hqueue, List.isEmpty_nil, if_true, if_pos hlimit]
            exact .inr ⟨_, _, rfl⟩
          · simp only [replace, Engine.tryReplaceHeadOrPush, hqueue, List.isEmpty_nil, if_true, if_neg hlimit]
            exact .inl ⟨_, rfl, hretired hindexed⟩
      | cons head rest =>
          simp only [replace, Engine.tryReplaceHeadOrPush, Engine.replaceHeadOrPush, hqueue, List.isEmpty_cons,
            Bool.false_eq_true, if_false]
          refine .inl ⟨_, rfl, hretired ?_⟩
          rw [board_publishFinalize]
          exact hindexed

theorem placeBusy_cases (h : Parked sub b e slot watcher) (howned : watcher.owned = false) (hbusy : slot.phase ≠ .idle)
    (hdown : obs.shutdown 2 = false) (cfg : ControllerConfig) : Answered obs sub b e
      (placeSubmission cfg obs e slot sub.slotName ⟨sub.id, sub.taskName⟩ sub.admission watcher).1 := by
  rw [placeSubmission, hdown]
  simp only [Bool.false_eq_true, if_false]
  rcases apply_busy hbusy cfg obs e sub watcher with ⟨displaced, houtcome, hqueued⟩ | ⟨kind, reason, heq⟩
  · simp only [houtcome]
    exact .inl (.inl hqueued)
  · obtain ⟨hkept, hterminal⟩ := parked_refused h howned obs kind reason
    simp only [heq]
    refine .inr ⟨kind, reason, ?_, ?_⟩
    · rw [board_dispose, board_putSlot, h.turnAway obs]
      exact reject_setSlot sub.done kind reason h.slot
    · change (Engine.disposed _) ++ [_] = _
      rw [hterminal]
      exact congrArg (· ++ [_]) hkept

/-- Outside shutdown a submission is taken in, or turned away without a trace. -/
theorem handleSubmission_cases (hlive : Live (board e)) (hcoh : Coherent (board e)) (hunknown : ¬ Known (board e) sub.id)
    (hdown : ∀ n, obs.shutdown n = false) (cfg : ControllerConfig) :
    Known (board (handleSubmission cfg obs none e sub)) sub.id ∨
      ∃ kind reason, TurnedAway obs e (handleSubmission cfg obs none e sub) sub kind reason := by
  have hfree : (board e).watcher sub.id = none := (not_known_iff.mp hunknown).2.2.1
  obtain ⟨e₁, watcher, hpark, hb, hid, hstate⟩ := park_cases sub hfree
  obtain ⟨howned, hdisposed⟩ := park_owned sub e
  rw [hpark] at howned hdisposed
  have hslots : (board e₁).slot = (board e).slot := by rw [hb]; rfl
  have hcut : (awaitsPreflight e sub && decide ((none : Option AwaitPoint) = some .preflight)) = false := by simp
  have hturn (kind : RejectionKind) (reason : String) : TurnedAway obs e
      ((AdmissionWatcher.new sub.id sub.done (some sub.slotName)).rejectWithEvent obs e kind reason).2.1 sub kind reason :=
    ⟨board_rejectNew obs e sub kind reason, rejectNew_disposed obs e sub kind reason⟩
  by_cases hup : obs.supervisor 0 = true
  case neg =>
    simp only [handleSubmission, submissionBody, hup, Bool.not_false, if_true, AdmissionWatcher.drop,
      if_pos (rejectWithEvent_committed ..)]
    exact .inr ⟨_, _, hturn _ _⟩
  cases hpre : explicitSlotRejection cfg obs e sub with
  | some rejection =>
      obtain ⟨kind, reason⟩ := rejection
      simp only [handleSubmission, submissionBody, hup, hdown, hcut, hpre, Bool.not_true, Bool.false_eq_true, if_false,
        AdmissionWatcher.drop, if_pos (rejectWithEvent_committed ..)]
      exact .inr ⟨kind, reason, hturn kind reason⟩
  | none =>
      have hplaced {b' : Board} {e₂ result : Engine} (hsame : b' = board e) (hd : e₂.disposed = e.disposed)
          (h : Answered obs sub b' e₂ result) :
          Known (board result) sub.id ∨ ∃ kind reason, TurnedAway obs e result sub kind reason := by
        refine h.imp_right ?_
        rintro ⟨kind, reason, hboard, hgone⟩
        exact ⟨kind, reason, hsame ▸ hboard, hd ▸ hgone⟩
      simp only [handleSubmission, submissionBody, hup, hdown, hcut, hpre, hpark, Bool.not_true, Bool.false_eq_true,
        if_false]
      rcases tryGetOrCreateSlot_cases cfg e₁ sub.slotName with ⟨limit, hget⟩ | ⟨slot, hget, hslot⟩ | ⟨hget, hslot⟩
      · simp only [hget, AdmissionWatcher.drop, if_pos (rejectWithEvent_committed ..)]
        have hdone : e₁.state.watchers.lookup watcher.id = sub.done := by
          rw [hid]
          exact (congrFun (congrArg Board.watcher hb) sub.id).trans ((setWatcher_watcher _ _ _).trans (if_pos rfl))
        obtain ⟨hkept, hterminal⟩ := rejectParked_disposed hstate howned obs e₁ .resourceLimit
          (Reasons.controllerSlotLimit ++ ": " ++ toString limit)
        rw [hdone] at hterminal
        refine .inr ⟨.resourceLimit, Reasons.controllerSlotLimit ++ ": " ++ toString limit, ?_, ?_⟩
        · exact board_turnAway hb hfree hid hstate obs _ _
        · change (Engine.disposed _) ++ [_] = _
          rw [hterminal]
          exact congrArg (· ++ [_]) (hkept.trans hdisposed)
      · rw [hslots] at hslot
        have hparked : Parked sub (board e) e₁ slot watcher := ⟨hb, hunknown, hslot, hid, hstate⟩
        have hcases := placeBusy_cases hparked howned (hlive _ _ hslot).owned (hdown 2) cfg
        rw [← finishPlacement_eq hparked hcoh cfg obs] at hcases
        simp only [hget]
        exact hplaced rfl hdisposed hcases
      · rw [hslots] at hslot
        have hmove : Move (fun _ => True) (board e) _ := Move.create hslot
        have hb' : board (e₁.putSlot sub.slotName .new) =
            ((board e).setSlot sub.slotName (some .new)).setWatcher sub.id sub.done := by
          rw [board_putSlot, hb]
          rfl
        have hslot' : ((board e).setSlot sub.slotName (some .new)).slot sub.slotName = some .new := by
          rw [setSlot_slot, if_pos rfl]
        have hparked : Parked sub _ (e₁.putSlot sub.slotName .new) .new watcher :=
          ⟨hb', unknown_move hcoh hmove hunknown, hslot', hid, hstate⟩
        have hcases := placeNew_cases hparked howned (hdown 2) cfg
        rw [← finishPlacement_eq hparked (hcoh.move hmove) cfg obs] at hcases
        simp only [hget]
        refine hplaced ?_ hdisposed hcases
        rw [setSlot_setSlot, ← hslot]
        ext1 <;> simp [Board.setSlot]

end Placement

section Runs

variable {w : World}

/-- Every candidate of a promotion meets an idle slot and has no capacity wait. -/
theorem candidates_free (cfg : ControllerConfig) (obs : Observed) (name : String) (queue : List PendingSubmission) (e : Engine)
    (hcap : ∀ pending ∈ queue, (board e).capacity pending.id = none) :
    ∀ c ∈ candidates cfg obs name .idle e queue, c.2.1.phase = .idle ∧ c.1.state.capacityPending.lookup c.2.2.id = none := by
  induction queue generalizing e with
  | nil => exact nofun
  | cons next rest ih =>
      have hnext : (board (e.unindexQueued next.id)).capacity next.id = none := by
        rw [board_unindexQueued]
        exact hcap next List.mem_cons_self
      intro c hc
      rw [candidates, List.mem_cons] at hc
      rcases hc with rfl | hc
      · exact ⟨rfl, hnext⟩
      rcases heq : startInSlot cfg obs (e.unindexQueued next.id) ⟨.idle, rest⟩ name next with ⟨result, e', slot⟩
      simp only [heq] at hc
      cases result with
      | ok _ => cases hc
      | error error =>
          obtain ⟨-, hb, -, -⟩ := startInSlot_error rfl hnext heq
          refine ih (rejectCandidate obs e' name next.id error).2 (fun pending hp => ?_) c hc
          rw [rejectCandidate, board_publishFinalize, hb, board_unindexQueued]
          exact hcap pending (List.mem_cons_of_mem _ hp)

theorem turnedAway_of_steady (hw : (steadyMachine cfg).Reachable w) {rest : List ControllerCommand}
    (hcommands : w.commands = .submit sub :: rest) (hdown : ∀ n, obs.shutdown n = false)
    (hrejected : (sub.id, kind, reason) ∈ (board (handleSubmission cfg obs none w.engine sub)).rejected) :
    TurnedAway obs w.engine (handleSubmission cfg obs none w.engine sub) sub kind reason := by
  have hphase := looping_of_steady hw
  have hsane := sane_of_reachable hw.of_guarded hphase
  have hin : sub ∈ submissions w.commands := by
    rw [hcommands]
    exact List.mem_cons_self
  have hstep : World.step cfg w (.command obs none) =
      some { w with commands := rest, engine := handleSubmission cfg obs none w.engine sub } := by
    simp only [World.step, hcommands]
    exact if_pos hphase
  have hnext : (machine cfg).Reachable { w with commands := rest, engine := handleSubmission cfg obs none w.engine sub } :=
    .next (.command obs none) hw.of_guarded hstep
  have hbound := bound_of_reachable hnext hphase
  rcases handleSubmission_cases (live_of_steady hw) hsane.coherent (hsane.unknown sub hin) hdown cfg with
    hknown | ⟨kind', reason', hturned⟩
  · exact absurd hknown (hbound.retired sub.id (List.mem_map_of_mem hrejected))
  · have hapart := (bound_of_reachable hw.of_guarded hphase).apart sub hin
    rw [hturned.board] at hrejected
    rcases List.mem_append.mp hrejected with hold | hnew
    · exact absurd (List.mem_map_of_mem hold) hapart
    · obtain ⟨-, rfl, rfl⟩ := (Prod.mk.inj (List.mem_singleton.mp hnew)).imp_right Prod.mk.inj
      exact hturned

/-- Outside shutdown a rejected submission changes nothing but the two things
its rejection is made of: slots, indexes, watchers and pump are as before, the
task is disposed of once and its watcher is told once. A handoff that fails has
put everything back, and every handoff is made where this holds. -/
theorem rejected_submission (cfg : ControllerConfig) (w : World) (hw : (steadyMachine cfg).Reachable w) :
    (∀ sub rest obs kind reason, w.commands = .submit sub :: rest → (∀ n, obs.shutdown n = false) →
      (sub.id, kind, reason) ∈ (board (handleSubmission cfg obs none w.engine sub)).rejected →
      TurnedAway obs w.engine (handleSubmission cfg obs none w.engine sub) sub kind reason) ∧
    (∀ obs e e' slot slot' name pending error, slot.phase = .idle → e.state.capacityPending.lookup pending.id = none →
      startInSlot cfg obs e slot name pending = (.error error, e', slot') →
      slot' = slot ∧ board e' = board e ∧ e'.disposed = e.disposed ∧ e'.published = e.published) ∧
    (∀ obs e slot name, Promotes w.engine obs e slot name → ∀ c ∈ candidates cfg obs name slot.phase e slot.queue,
      c.2.1.phase = .idle ∧ c.1.state.capacityPending.lookup c.2.2.id = none) ∧
    ∀ sub ∈ submissions w.commands, w.engine.state.capacityPending.lookup sub.id = none := by
  have hphase := looping_of_steady hw
  have hsane := sane_of_reachable hw.of_guarded hphase
  refine ⟨fun sub rest obs kind reason hcommands hdown hrejected => turnedAway_of_steady hw hcommands hdown hrejected,
    fun obs e e' slot slot' name pending error hidle hcap h => startInSlot_error hidle hcap h, ?_, ?_⟩
  · intro obs e slot name hpromotes
    obtain ⟨-, hidle, -, -, hcap⟩ := promotes_ready (bounded_of_reachable hw.of_guarded) hsane.coherent hpromotes
    rw [hidle]
    exact candidates_free cfg obs name slot.queue e hcap
  · exact fun sub hsub => (not_known_iff.mp (hsane.unknown sub hsub)).2.1

def fullPumpRun : List Action :=
  [.send (.submit ⟨7, "z", .queue, none, none⟩), .send (.submit ⟨3, "b", .queue, none, some 30⟩),
    .command fullRegistry none]

/-- The slot made for a submission that finds the pump full is gone again. -/
theorem rejected_submission_fullPump :
    ∃ w, (steadyMachine queueConfig).after (World.new queueConfig) fullPumpRun = some w ∧
      TurnedAway fullRegistry w.engine (handleSubmission queueConfig fullRegistry none w.engine ⟨3, "b", .queue, none, some 30⟩)
        ⟨3, "b", .queue, none, some 30⟩ .resourceLimit
        "add_failed: resource limit reached for controller_admission: 1" := by
  obtain ⟨w, hw, hp⟩ := (Option.any_eq_true (fun w : World => decide (
      w.commands = [.submit ⟨3, "b", .queue, none, some 30⟩] ∧
      (3, .resourceLimit, "add_failed: resource limit reached for controller_admission: 1") ∈
        (board (handleSubmission queueConfig fullRegistry none w.engine ⟨3, "b", .queue, none, some 30⟩)).rejected)) _).mp
    (show (Machine.after (steadyMachine queueConfig) (World.new queueConfig) fullPumpRun).any _ = true by decide +kernel)
  obtain ⟨hcommands, hrejected⟩ := of_decide_eq_true hp
  exact ⟨w, hw, (rejected_submission queueConfig w (Machine.Reachable.after .init hw)).1 _ _ _ _ _ hcommands
    (fun _ => rfl) hrejected⟩

end Runs

end Taskvisor.Controller.Rejection
