import Taskvisor.Controller.Line
import Taskvisor.Controller.Tracking

namespace Taskvisor.Controller.Policy

open Lib Runtime.Base Slot State Admission Abstract Bridge Coherence Refinement Driver Index Line Tracking

variable {cfg : ControllerConfig} {obs : Observed} {e e' : Engine} {slot : SlotState} {name : String} {id : TaskId}

def standing (slot : SlotState) : Standing := ⟨slot.ownerId, ids slot⟩

/-- An untracked slot is a vacant line. -/
def standingOf (slot : Option SlotState) : Standing := (slot.map standing).getD .empty

def lineOf (e : Engine) (name : String) : Standing := standingOf (e.state.slots.lookup name)

/-- The aggregate budget allows one more entry. -/
def hasRoom (cfg : ControllerConfig) (used : Nat) : Bool :=
  !cfg.maxTotalPending.any fun limit => decide (limit.get ≤ used)

/-- The registry takes the Add, or its queue is full and a capacity wait is
still possible. -/
def admissible (cfg : ControllerConfig) (obs : Observed) (pump : CapacityAdmissionPump) (used : Nat) (id : TaskId) : Bool :=
  match obs.offer id with
  | .ok () => true
  | .error error => decide (error = .commandQueueFull) && hasRoom cfg used && decide (pump.len < pump.limit)

section Handoff

/-- The budget depends only on what waits. -/
theorem pendingLen_congr (hq : (board e').queued = (board e).queued) (hc : (board e').capacity = (board e).capacity) :
    e'.state.pendingLen = e.state.pendingLen := by
  rw [ControllerState.pendingLen, ControllerState.pendingLen,
    Table.size_congr fun id => congrFun hq id, Table.size_congr fun id => congrFun hc id]

theorem pendingLen_unindexQueued (h : e.state.queuedSlots.lookup id = some name) :
    (e.unindexQueued id).state.pendingLen = e.state.pendingLen - 1 := by
  have hsize := Table.size_of_lookup h
  simp only [ControllerState.pendingLen, Engine.unindexQueued]
  omega

theorem pendingLen_removeCapacity {entry : CapacityPending} (h : e.state.capacityPending.lookup id = some entry) :
    (e.removeCapacity id).state.pendingLen = e.state.pendingLen - 1 := by
  have hsize := Table.size_of_lookup h
  simp only [ControllerState.pendingLen, Engine.removeCapacity]
  omega

theorem tryIndexCapacityPending_eq (cfg : ControllerConfig) (e : Engine) (id : TaskId) (entry : CapacityPending) :
    (hasRoom cfg e.state.pendingLen = true ∧ e.tryIndexCapacityPending cfg id entry = .ok (e.insertCapacity id entry)) ∨
    (hasRoom cfg e.state.pendingLen = false ∧ ∃ limit, e.tryIndexCapacityPending cfg id entry = .error limit) := by
  cases hmax : cfg.maxTotalPending with
  | none => exact .inl ⟨by simp [hasRoom, hmax], by simp only [Engine.tryIndexCapacityPending, hmax]⟩
  | some limit =>
      by_cases hfull : limit.get ≤ e.state.pendingLen
      · exact .inr ⟨by simp [hasRoom, hmax, hfull], limit.get, by
          simp only [Engine.tryIndexCapacityPending, hmax, if_pos hfull]⟩
      · exact .inl ⟨by simp [hasRoom, hmax, Nat.lt_of_not_le hfull], by
          simp only [Engine.tryIndexCapacityPending, hmax, if_neg hfull]⟩

theorem enqueue_cases (pump : CapacityAdmissionPump) (id : TaskId) :
    (pump.len < pump.limit ∧ ∃ pump', pump.enqueue id = .ok pump') ∨
    (¬ pump.len < pump.limit ∧ ∃ limit, pump.enqueue id = .error limit) := by
  by_cases hlen : pump.limit ≤ pump.len
  · exact .inr ⟨Nat.not_lt.mpr hlen, pump.limit, if_pos hlen⟩
  · exact .inl ⟨Nat.lt_of_not_le hlen, _, if_neg hlen⟩

/-- A handoff gets through exactly where it is admissible. -/
theorem startInSlot_ok (cfg : ControllerConfig) (obs : Observed) (e : Engine) (slot : SlotState) (name : String)
    (pending : PendingSubmission) :
    (startInSlot cfg obs e slot name pending).1 = .ok () ↔
      admissible cfg obs e.operations.capacity e.state.pendingLen pending.id = true := by
  have hrestore := board_takeRestore e pending.id
  set restored := (e.removeWatcher pending.id).restoreWatcher pending.id (e.state.watchers.lookup pending.id) with hr
  have hlen : restored.state.pendingLen = e.state.pendingLen :=
    pendingLen_congr (congrArg Board.queued hrestore) (congrArg Board.capacity hrestore)
  have hpump : restored.operations.capacity = e.operations.capacity := congrArg Board.pump hrestore
  cases hoffer : obs.offer pending.id with
  | ok _ => simp [startInSlot, admissible, hoffer]
  | error error =>
      by_cases hfull : error = .commandQueueFull
      · simp only [startInSlot, admissible, hoffer, if_pos hfull, ← hr, decide_eq_true hfull, Bool.true_and]
        rcases tryIndexCapacityPending_eq cfg restored pending.id ⟨name, pending⟩ with ⟨hroom, hindex⟩ | ⟨hroom, limit, hindex⟩
        · rw [hlen] at hroom
          have hcap : (restored.insertCapacity pending.id ⟨name, pending⟩).operations.capacity = e.operations.capacity := hpump
          rcases enqueue_cases e.operations.capacity pending.id with ⟨hlt, pump', henq⟩ | ⟨hge, limit, henq⟩
          · simp [hindex, hcap, henq, hroom, hlt]
          · simp [hindex, hcap, henq, hroom, hge]
        · rw [hlen] at hroom
          simp [hindex, hroom]
      · simp [startInSlot, admissible, hoffer, hfull]

end Handoff

section Promotion

/-- What an operation on one slot has to show: its line and the rejections. -/
structure Shows (e e' : Engine) (name : String) (outcome : Outcome) : Prop where
  line : lineOf e' name = outcome.line
  others : ∀ other, other ≠ name → lineOf e' other = lineOf e other
  rejected : rejectedIds e' = rejectedIds e ++ outcome.rejected

theorem Shows.of_board {outcome : Outcome} {e'' : Engine} (h : Shows e e' name outcome) (hb : board e'' = board e') :
    Shows e e'' name outcome := by
  have hline (other : String) : lineOf e'' other = lineOf e' other :=
    congrArg standingOf (congrFun (congrArg Board.slot hb) other)
  refine ⟨(hline name).trans h.line, fun other hne => (hline other).trans (h.others other hne), ?_⟩
  rw [rejectedIds, hb]
  exact h.rejected

theorem startNextLoop_promote (cfg : ControllerConfig) (obs : Observed) (name : String) (queue : List PendingSubmission)
    (e : Engine) (hindexed : ∀ pending ∈ queue, ∃ n, (board e).queued pending.id = some n)
    (hnodup : (queue.map PendingSubmission.id).Nodup) (hcap : ∀ pending ∈ queue, (board e).capacity pending.id = none) :
    standing (startNextLoop cfg obs name .idle e queue).2.2 =
        (Standing.promote (admissible cfg obs e.operations.capacity) e.state.pendingLen
          (queue.map PendingSubmission.id)).line ∧
      rejectedIds (startNextLoop cfg obs name .idle e queue).2.1 = rejectedIds e ++
        (Standing.promote (admissible cfg obs e.operations.capacity) e.state.pendingLen
          (queue.map PendingSubmission.id)).rejected ∧
      (board (startNextLoop cfg obs name .idle e queue).2.1).slot = (board e).slot := by
  induction queue generalizing e with
  | nil => exact ⟨rfl, (List.append_nil _).symm, rfl⟩
  | cons next rest ih =>
      rw [List.map_cons, List.nodup_cons] at hnodup
      obtain ⟨n, hn⟩ := hindexed next List.mem_cons_self
      have hlen := pendingLen_unindexQueued (e := e) hn
      have hnext : (board (e.unindexQueued next.id)).capacity next.id = none := by
        rw [board_unindexQueued]
        exact hcap next List.mem_cons_self
      have hok := startInSlot_ok cfg obs (e.unindexQueued next.id) ⟨.idle, rest⟩ name next
      rw [hlen] at hok
      rcases startInSlot_cases cfg obs ⟨.idle, rest⟩ name next rfl hnext with
        ⟨e', heq, hb⟩ | ⟨e', pump, heq, hpump, hb⟩ | ⟨error, e', heq, hb⟩
      · have hadm : admissible cfg obs e.operations.capacity (e.state.pendingLen - 1) next.id = true := hok.mp (by rw [heq])
        simp only [startNextLoop, heq, List.map_cons, Standing.promote, hadm, if_true, List.append_nil]
        refine ⟨rfl, ?_, ?_⟩
        · rw [rejectedIds, board_publishSubmitted, hb, board_unindexQueued]
          rfl
        · rw [board_publishSubmitted, hb, board_unindexQueued]
          rfl
      · have hadm : admissible cfg obs e.operations.capacity (e.state.pendingLen - 1) next.id = true := hok.mp (by rw [heq])
        simp only [startNextLoop, heq, List.map_cons, Standing.promote, hadm, if_true, List.append_nil]
        refine ⟨rfl, ?_, ?_⟩
        · rw [rejectedIds, board_publishSubmitted, hb, board_unindexQueued]
          rfl
        · rw [board_publishSubmitted, hb, board_unindexQueued]
          rfl
      · have hadm : ¬ admissible cfg obs e.operations.capacity (e.state.pendingLen - 1) next.id = true := by
          intro ha
          have hgot := hok.mpr ha
          rw [heq] at hgot
          cases hgot
        have hreject : board (rejectCandidate obs e' name next.id error).2 =
            ((board e).setQueued next.id none).rejectParked next.id (rejectionKindForRuntimeError error)
              ("queue_start_failed: " ++ error.display) := by
          rw [rejectCandidate, board_publishFinalize, hb, board_unindexQueued]
        set after := (rejectCandidate obs e' name next.id error).2 with hafter
        have hused : after.state.pendingLen = e.state.pendingLen - 1 := by
          rw [← hlen]
          refine pendingLen_congr ?_ ?_ <;> rw [hreject, board_unindexQueued] <;> rfl
        have hpump : after.operations.capacity = e.operations.capacity := congrArg Board.pump hreject
        obtain ⟨hline, hrej, hslot⟩ := ih after
          (fun pending hp => by
            obtain ⟨m, hm⟩ := hindexed pending (List.mem_cons_of_mem _ hp)
            have hne : pending.id ≠ next.id := fun he => hnodup.1 (he ▸ List.mem_map_of_mem hp)
            refine ⟨m, ?_⟩
            rw [hreject]
            exact ((setQueued_queued _ _ _).trans (if_neg hne)).trans hm)
          hnodup.2
          (fun pending hp => by
            rw [hreject]
            exact hcap pending (List.mem_cons_of_mem _ hp))
        rw [hused, hpump] at hline hrej
        simp only [startNextLoop, heq, List.map_cons, Standing.promote, if_neg hadm, ← hafter]
        refine ⟨hline, ?_, ?_⟩
        · rw [hrej, rejectedIds, hreject]
          simp [Board.rejectParked, Board.reject, Board.note, Board.send, Board.setWatcher, Board.setQueued, rejectedIds]
        · rw [hslot, hreject]
          rfl

theorem lineOf_board (e : Engine) (name : String) : lineOf e name = standingOf ((board e).slot name) := rfl

/-- Releasing the guard shows the slot it held. -/
theorem lineOf_gcIfIdle (e : Engine) (name other : String) (slot : SlotState) :
    lineOf (e.gcIfIdle name slot) other = if other = name then standing slot else lineOf e other := by
  rw [lineOf_board, lineOf_board, Engine.gcIfIdle]
  split
  · next hspent =>
    simp only [Bool.and_eq_true, List.isEmpty_iff] at hspent
    rw [board_removeSlot, setSlot_slot]
    split
    · have hphase := SlotState.isIdle_iff.mp hspent.1
      simp [standingOf, standing, ids, hspent.2, SlotState.ownerId, hphase, SlotPhase.ownerId, Standing.empty]
    · rfl
  · rw [board_putSlot, setSlot_slot]
    split <;> rfl

theorem rejectedIds_gcIfIdle (e : Engine) (name : String) (slot : SlotState) :
    rejectedIds (e.gcIfIdle name slot) = rejectedIds e := by
  rw [rejectedIds, Engine.gcIfIdle]
  split
  · rw [board_removeSlot]
    rfl
  · rw [board_putSlot]
    rfl

theorem shows_gc {rejected : List TaskId} (slot : SlotState) (hslot : (board e').slot = (board e).slot)
    (hrej : rejectedIds e' = rejectedIds e ++ rejected) : Shows e (e'.gcIfIdle name slot) name ⟨standing slot, rejected⟩ := by
  refine ⟨?_, ?_, ?_⟩
  · rw [lineOf_gcIfIdle, if_pos rfl]
  · intro other hne
    rw [lineOf_gcIfIdle, if_neg hne, lineOf_board, hslot]
    rfl
  · rw [rejectedIds_gcIfIdle, hrej]

theorem shows_put {rejected : List TaskId} (slot : SlotState) (hslot : (board e').slot = (board e).slot)
    (hrej : rejectedIds e' = rejectedIds e ++ rejected) : Shows e (e'.putSlot name slot) name ⟨standing slot, rejected⟩ := by
  refine ⟨?_, ?_, ?_⟩
  · rw [lineOf_board, board_putSlot, setSlot_slot, if_pos rfl]
    rfl
  · intro other hne
    rw [lineOf_board, board_putSlot, setSlot_slot, if_neg hne, hslot]
    rfl
  · rw [← hrej, rejectedIds, board_putSlot]
    rfl

/-- A released slot shows the promotion of its queue. -/
theorem settle_shows (cfg : ControllerConfig) (obs : Observed) (e : Engine) (slot : SlotState) (name : String)
    (hidle : slot.phase = .idle) (hindexed : ∀ pending ∈ slot.queue, ∃ n, (board e).queued pending.id = some n)
    (hnodup : (ids slot).Nodup) (hcap : ∀ pending ∈ slot.queue, (board e).capacity pending.id = none) :
    Shows e ((advance cfg obs e slot name true).2.1.gcIfIdle name (advance cfg obs e slot name true).2.2) name
      (Standing.promote (admissible cfg obs e.operations.capacity) e.state.pendingLen (ids slot)) := by
  obtain ⟨phase, queue⟩ := slot
  obtain rfl : phase = .idle := hidle
  have hadv : advance cfg obs e ⟨.idle, queue⟩ name true = startNextLoop cfg obs name .idle e queue := by
    rw [advance, if_pos rfl, startNextFromQueue, if_pos (SlotState.isIdle_iff.mpr rfl)]
  obtain ⟨hline, hrej, hslot⟩ := startNextLoop_promote cfg obs name queue e hindexed hnodup hcap
  rw [hadv]
  refine ⟨?_, ?_, ?_⟩
  · rw [lineOf_gcIfIdle, if_pos rfl, hline]
    rfl
  · intro other hne
    rw [lineOf_gcIfIdle, if_neg hne, lineOf_board, hslot]
    rfl
  · rw [rejectedIds_gcIfIdle, hrej]
    rfl

end Promotion

/-- The surroundings of a handler while nobody shuts anything down. -/
def calm (obs : Observed) : Bool :=
  !obs.shutdown 0 && !obs.shutdown 1 && !obs.shutdown 2 && obs.supervisor 0 && obs.supervisor 1 && obs.gateOpen

def interrupted : Except RuntimeError Unit → Bool
  | .error .shuttingDown => true
  | _ => false

/-- The steps outside shutdown. -/
def steady (_ : World) : Action → Bool
  | .command obs cut => calm obs && cut.isNone
  | .capacityResult obs decision => calm obs && !interrupted decision
  | .admissionResult obs _ _ _ => calm obs
  | .completionResult obs _ _ => calm obs
  | .stop => false
  | .drain _ => false
  | .finalize _ => false
  | .finish _ => false
  | _ => true

/-- A slot is tracked or may be. -/
def canTrack (cfg : ControllerConfig) (e : Engine) (name : String) : Bool :=
  (e.state.slots.lookup name).isSome || cfg.maxControllerSlots.all fun limit => decide (e.state.slots.size < limit.get)

def turnedAway (id : TaskId) (outcome : Outcome) : Outcome := { outcome with rejected := id :: outcome.rejected }

def submitted (cfg : ControllerConfig) (obs : Observed) (e : Engine) (sub : Submission) : Outcome :=
  (lineOf e sub.slotName).submit cfg.maxSlotQueue (hasRoom cfg e.state.pendingLen)
    (canTrack cfg e sub.slotName && admissible cfg obs e.operations.capacity e.state.pendingLen sub.id) sub.admission sub.id

/-- What the abstract line makes of a step: the slot it concerns and the
outcome there. -/
def effect (cfg : ControllerConfig) (w : World) : Action → Option (String × Outcome)
  | .command obs _ =>
    match w.commands with
    | .submit sub :: _ => some (sub.slotName, submitted cfg obs w.engine sub)
    | .manageIdentity id _ _ :: _ =>
      match route w.engine id with
      | some (name, true) =>
        some (name, turnedAway id (Standing.promote (admissible cfg obs (w.engine.operations.capacity.cancel id).2)
          (w.engine.state.pendingLen - 1) (lineOf w.engine name).queue))
      | some (name, false) => some (name, (lineOf w.engine name).remove id)
      | none => none
    | [] => none
  | .capacityResult obs decision =>
    match w.engine.operations.capacity.next with
    | none => none
    | some (id, pump) =>
      match w.engine.state.capacityPending.lookup id, decision with
      | some entry, .error _ =>
        some (entry.slotName, turnedAway id (Standing.promote (admissible cfg obs pump) (w.engine.state.pendingLen - 1)
          (lineOf w.engine entry.slotName).queue))
      | _, _ => none
  | .admissionResult obs _ name false =>
    some (name, Standing.promote (admissible cfg obs w.engine.operations.capacity) w.engine.state.pendingLen
      (lineOf w.engine name).queue)
  | .completionResult obs _ name =>
    some (name, Standing.promote (admissible cfg obs w.engine.operations.capacity) w.engine.state.pendingLen
      (lineOf w.engine name).queue)
  | _ => none

/-- The step from one engine to the next shows the effect. -/
def Follows (e e' : Engine) : Option (String × Outcome) → Prop
  | none => (∀ name, lineOf e' name = lineOf e name) ∧ rejectedIds e' = rejectedIds e
  | some (name, outcome) => Shows e e' name outcome

theorem Follows.of_board {effect : Option (String × Outcome)} {e'' : Engine} (h : Follows e e' effect)
    (hb : board e'' = board e') : Follows e e'' effect := by
  cases effect with
  | none =>
      refine ⟨fun name => (congrArg standingOf (congrFun (congrArg Board.slot hb) name)).trans (h.1 name), ?_⟩
      rw [rejectedIds, hb]
      exact h.2
  | some found => exact Shows.of_board h hb

section Results

variable {place : TaskId → String}

theorem follows_none (hslot : (board e').slot = (board e).slot) (hrej : (board e').rejected = (board e).rejected) :
    Follows e e' none := by
  refine ⟨fun name => ?_, ?_⟩
  · rw [lineOf_board, lineOf_board, hslot]
  · rw [rejectedIds, rejectedIds, hrej]

theorem lineOf_of_slot (hslot : (board e).slot name = some slot) : lineOf e name = standing slot := by
  rw [lineOf_board, hslot]
  rfl

/-- A slot changes its phase and keeps owner and queue. -/
theorem follows_rephase {new : SlotState} (hslot : (board e).slot name = some slot) (hline : standing new = standing slot)
    (hb : (board e').slot = ((board e).setSlot name (some new)).slot) (hrej : (board e').rejected = (board e).rejected) :
    Follows e e' none := by
  refine ⟨fun other => ?_, by rw [rejectedIds, rejectedIds, hrej]⟩
  rw [lineOf_board, lineOf_board, hb, setSlot_slot]
  split
  · next he =>
    subst he
    rw [hslot]
    exact hline
  · rfl

/-- Everything in the queue of a slot is indexed there and waits nowhere else. -/
theorem queue_facts (h : Coherent (board e)) (hslot : (board e).slot name = some slot) :
    (∀ pending ∈ slot.queue, ∃ n, (board e).queued pending.id = some n) ∧ (ids slot).Nodup ∧
      ∀ pending ∈ slot.queue, (board e).capacity pending.id = none :=
  ⟨fun _ hp => ⟨name, h.queued_of_mem hslot (List.mem_map_of_mem hp)⟩, h.nodup name slot hslot, capacity_of_queue h hslot⟩

theorem calm_cases (h : calm obs = true) : obs.shutdown 0 = false ∧ obs.shutdown 1 = false ∧ obs.shutdown 2 = false ∧
    obs.supervisor 0 = true ∧ obs.supervisor 1 = true ∧ obs.gateOpen = true := by
  simp only [calm, Bool.and_eq_true, Bool.not_eq_true'] at h
  exact ⟨h.1.1.1.1.1, h.1.1.1.1.2, h.1.1.1.2, h.1.1.2, h.1.2, h.2⟩

theorem shows_release (h : Coherent (board e)) (hslot : (board e).slot name = some slot) (cfg : ControllerConfig)
    (obs : Observed) (e₁ : Engine) (hb : (board e₁).slot = (board e).slot) (hq : (board e₁).queued = (board e).queued)
    (hc : (board e₁).capacity = (board e).capacity) (hpump : (board e₁).pump = (board e).pump)
    (hrej : (board e₁).rejected = (board e).rejected) :
    Shows e ((advance cfg obs e₁ { slot with phase := .idle } name true).2.1.gcIfIdle name
        (advance cfg obs e₁ { slot with phase := .idle } name true).2.2) name
      (Standing.promote (admissible cfg obs e.operations.capacity) e.state.pendingLen (lineOf e name).queue) := by
  obtain ⟨hindexed, hnodup, hcap⟩ := queue_facts h hslot
  have hshows := settle_shows cfg obs e₁ { slot with phase := .idle } name rfl (by rw [hq]; exact hindexed) hnodup
    (by rw [hc]; exact hcap)
  have hused : e₁.state.pendingLen = e.state.pendingLen := pendingLen_congr hq hc
  have hpump : e₁.operations.capacity = e.operations.capacity := hpump
  rw [hused, hpump] at hshows
  have hline : (lineOf e name).queue = ids slot := by
    rw [lineOf_of_slot hslot]
    rfl
  rw [hline]
  refine ⟨hshows.line, ?_, ?_⟩
  · intro other hne
    rw [hshows.others other hne, lineOf_board, lineOf_board, hb]
  · rw [hshows.rejected, rejectedIds, rejectedIds, hrej]
    rfl

theorem admissionResult_follows (h : Coherent (board e)) (ht : Tracked place (board e)) (hcalm : calm obs = true)
    (cfg : ControllerConfig) (htracked : (id, name) ∈ e.operations.admissions) (accepted : Bool) :
    Follows e (handleAdmissionResult cfg obs (World.dropAdmission e id name) id name accepted)
      (if accepted then none else some (name, Standing.promote (admissible cfg obs e.operations.capacity)
        e.state.pendingLen (lineOf e name).queue)) := by
  obtain ⟨hdown, -, -, hup, -, -⟩ := calm_cases hcalm
  obtain ⟨slot, hslot, hu⟩ := ht.admission id name htracked
  have hlookup : (World.dropAdmission e id name).state.slots.lookup name = some slot := hslot
  cases accepted with
  | true =>
      obtain ⟨howner, hqueue⟩ := SlotState.confirmAdmission_owner slot id obs.now
      have hline : standing (slot.confirmAdmission id obs.now).2 = standing slot := by
        rw [standing, standing, howner, ids, ids, hqueue]
      rw [if_pos rfl]
      simp only [handleAdmissionResult, hlookup, if_true]
      cases hphase : slot.phase with
      | admitting current since =>
          rw [hphase] at hu
          obtain rfl := Option.some.inj hu
          simp only [SlotState.confirmAdmission, hphase, if_true] at hline ⊢
          refine follows_rephase hslot hline ?_ ?_
          all_goals
            rw [board_putSlot, board_publishTransition, board_trackCompletion]
            rfl
      | cancelPendingAdmission current since =>
          rw [hphase] at hu
          obtain rfl := Option.some.inj hu
          simp only [SlotState.confirmAdmission, hphase, if_true] at hline ⊢
          refine follows_rephase hslot hline ?_ ?_
          all_goals
            rw [hup, if_pos rfl, board_trackRemoval, board_putSlot, board_trackCompletion]
            rfl
      | _ =>
          rw [hphase] at hu
          cases hu
  | false =>
      simp only [handleAdmissionResult, hlookup, Bool.false_eq_true, if_false, SlotState.rejectAdmission_eq, if_pos hu,
        hdown, hup, Bool.not_false, Bool.and_self]
      exact (shows_release h hslot cfg obs (World.dropAdmission e id name) rfl rfl rfl rfl rfl).of_board
        (board_disposeAll _ _)

theorem completionResult_follows (h : Coherent (board e)) (ht : Tracked place (board e)) (hcalm : calm obs = true)
    (htracked : (id, name) ∈ e.operations.completions) :
    Follows e (handleCompletionResult cfg obs (World.dropCompletion e id name) id name)
      (some (name, Standing.promote (admissible cfg obs e.operations.capacity) e.state.pendingLen (lineOf e name).queue)) := by
  obtain ⟨hdown, -, -, hup, -, -⟩ := calm_cases hcalm
  obtain ⟨slot, hslot, ha⟩ := ht.completion id name htracked
  have hlookup : (World.dropCompletion e id name).state.slots.lookup name = some slot := hslot
  simp only [handleCompletionResult, hlookup, hup, hdown, Bool.not_true, Bool.false_eq_true, if_false,
    SlotState.completeOwner_eq, if_pos ha, Bool.not_false]
  exact (shows_release h hslot cfg obs (World.dropCompletion e id name) rfl rfl rfl rfl rfl).of_board
    (board_disposeAll _ _)

theorem shows_releaseCapacity (h : Coherent (board e)) (cfg : ControllerConfig) (obs : Observed) {entry : CapacityPending}
    {pump : CapacityAdmissionPump} (hentry : (board e).capacity id = some entry)
    (hslot : (board e).slot entry.slotName = some slot) {kind : RejectionKind} {reason : String}
    (hb : board e' = (((board e).setCapacity id none).setPump pump).rejectParked id kind reason) :
    Shows e ((advance cfg obs e' { slot with phase := .idle } entry.slotName true).2.1.gcIfIdle entry.slotName
        (advance cfg obs e' { slot with phase := .idle } entry.slotName true).2.2) entry.slotName
      (turnedAway id (Standing.promote (admissible cfg obs pump) (e.state.pendingLen - 1)
        (lineOf e entry.slotName).queue)) := by
  obtain ⟨hindexed, hnodup, hcap⟩ := queue_facts h hslot
  have hused : e'.state.pendingLen = e.state.pendingLen - 1 := by
    rw [← pendingLen_removeCapacity (e := e) hentry]
    refine pendingLen_congr ?_ ?_ <;> rw [hb, board_removeCapacity] <;> rfl
  have hpump : e'.operations.capacity = pump := congrArg Board.pump hb
  have hshows := settle_shows cfg obs e' { slot with phase := .idle } entry.slotName rfl (by rw [hb]; exact hindexed) hnodup
    (by
      intro pending hp
      rw [hb]
      change (Board.setCapacity _ id none).capacity pending.id = none
      rw [setCapacity_capacity]
      split
      · rfl
      · exact hcap pending hp)
  rw [hused, hpump] at hshows
  have hline : (lineOf e entry.slotName).queue = ids slot := by
    rw [lineOf_of_slot hslot]
    rfl
  rw [hline]
  refine ⟨hshows.line, ?_, ?_⟩
  · intro other hne
    rw [hshows.others other hne, lineOf_board, lineOf_board, hb]
    rfl
  · have hrej : rejectedIds e' = rejectedIds e ++ [id] := by
      rw [rejectedIds, hb]
      simp [Board.rejectParked, Board.reject, Board.note, Board.send, Board.setWatcher, Board.setPump, Board.setCapacity,
        rejectedIds]
    rw [hshows.rejected, hrej, List.append_assoc]
    rfl

theorem capacityResult_follows (h : Coherent (board e)) (hcalm : calm obs = true) (cfg : ControllerConfig) (pump : CapacityAdmissionPump)
    {decision : Except RuntimeError Unit} (hok : interrupted decision = false) {entry : CapacityPending} (hentry : e.state.capacityPending.lookup id = some entry) :
    Follows e (handleRegistryCapacityResult cfg obs (e.setPump pump) id decision)
      (match decision with
      | .ok () => none
      | .error _ => some (entry.slotName, turnedAway id (Standing.promote (admissible cfg obs pump)
          (e.state.pendingLen - 1) (lineOf e entry.slotName).queue))) := by
  obtain ⟨hdown, -, -, hup, hup', hgate⟩ := calm_cases hcalm
  obtain ⟨hpid, slot, hslot, hu⟩ := h.holds id entry hentry
  have howner := SlotState.ownerId_of_undecided hu
  have hentry' : (e.setPump pump).state.capacityPending.lookup id = some entry := hentry
  have hslot' : (e.setPump pump).state.slots.lookup entry.slotName = some slot := hslot
  simp only [handleRegistryCapacityResult, hentry', hslot', howner, ne_eq, not_true, if_false,
    claimCapacityPending_eq hentry']
  cases decision with
  | ok _ =>
      simp only [commitReserved, hup, hgate, Bool.and_self, if_true]
      refine follows_none ?_ ?_
      all_goals
        rw [board_hand_track, board_removeWatcher, board_removeCapacity, board_setPump]
        rfl
  | error error =>
      have hne : error ≠ .shuttingDown := by
        rintro rfl
        cases hok
      set restored := (((e.setPump pump).removeCapacity id).removeWatcher id).restoreWatcher id
        (e.state.watchers.lookup id) with hr
      have hrestore : board restored = ((board e).setCapacity id none).setPump pump := by
        have hb := board_takeRestore ((e.setPump pump).removeCapacity id) id
        rw [board_removeCapacity, board_setPump] at hb
        exact hb
      have hreject (kind : RejectionKind) (reason : String) :=
        board_publishFinalize restored id entry.slotName kind reason obs
      rw [hrestore] at hreject
      have hwatch : (e.setPump pump).state.watchers.lookup id = e.state.watchers.lookup id := rfl
      simp only [commitReserved, failCapacity, hwatch, ← hr, SlotState.rejectAdmission_eq, if_pos hu, decide_eq_false hne,
        hdown, hup', Bool.not_false, Bool.and_self]
      exact (shows_releaseCapacity h cfg obs hentry hslot (hreject _ _)).of_board (board_disposeAll _ _)

theorem removal_follows (h : Coherent (board e)) (hcalm : calm obs = true) (cfg : ControllerConfig) (id : TaskId)
    (reason : Option String) :
    Follows e (removeQueuedSubmission cfg obs e id reason).2
      (match route e id with
      | some (name, true) =>
        some (name, turnedAway id (Standing.promote (admissible cfg obs (e.operations.capacity.cancel id).2)
          (e.state.pendingLen - 1) (lineOf e name).queue))
      | some (name, false) => some (name, (lineOf e name).remove id)
      | none => none) := by
  obtain ⟨-, hdown, -, hup, -, -⟩ := calm_cases hcalm
  cases hroute : route e id with
  | none =>
      simp only [removeQueuedSubmission, hroute]
      exact follows_none rfl rfl
  | some found =>
      obtain ⟨name, capacity⟩ := found
      rcases route_cases h hroute with ⟨entry, slot, rfl, hentry, rfl, hpid, hslot, hu⟩ | ⟨slot, rfl, hnone, hslot, hid⟩
      · simp only [removeQueuedSubmission, hroute, hslot, removeRouted, hdown, Bool.false_eq_true, if_false,
          claimCapacityPending_eq hentry, SlotState.rejectAdmission_eq, if_pos hu, hup]
        exact (shows_releaseCapacity h cfg obs hentry hslot
          (board_rejectRemoved obs entry.slotName entry.pending.taskName reason)).of_board (board_disposeAll _ _)
      · obtain ⟨removed, hfind, hrid⟩ := find_queued hid
        simp only [removeQueuedSubmission, hroute, hslot, removeRouted, hdown, Bool.false_eq_true, if_false,
          claimCapacityPending, hnone, hfind]
        set e₁ := ((((removeRequested e removed.taskName id reason).unindexQueued id).publishRejected name id
          .removedFromQueue Reasons.removedFromQueue).finalizeRejected obs id .removedFromQueue Reasons.removedFromQueue).2
          with he₁
        have hb : board e₁ = ((board e).setQueued id none).rejectParked id .removedFromQueue Reasons.removedFromQueue := by
          rw [he₁, board_publishFinalize, board_unindexQueued, board_removeRequested]
        have hrej : rejectedIds e₁ = rejectedIds e ++ [id] := by
          rw [rejectedIds, hb]
          simp [Board.rejectParked, Board.reject, Board.note, Board.send, Board.setWatcher, Board.setQueued, rejectedIds]
        have hgc : Shows e _ name _ := shows_gc { slot with
          queue := slot.queue.eraseP fun pending => decide (pending.id = id) } (by rw [hb]; rfl) hrej
        have hline : standing { slot with queue := slot.queue.eraseP fun pending => decide (pending.id = id) } =
            ((lineOf e name).remove id).line := by
          rw [lineOf_of_slot hslot]
          exact Standing.ext rfl (ids_eraseP slot id)
        rw [hline] at hgc
        exact hgc.of_board (board_dispose _ _ _)

theorem identity_follows (h : Coherent (board e)) (hcalm : calm obs = true) (cfg : ControllerConfig) (id : TaskId)
    (operation : IdentityOperation) (reply : IdentityReply) :
    Follows e (handleIdentityOperation cfg obs e id operation reply)
      (match route e id with
      | some (name, true) =>
        some (name, turnedAway id (Standing.promote (admissible cfg obs (e.operations.capacity.cancel id).2)
          (e.state.pendingLen - 1) (lineOf e name).queue))
      | some (name, false) => some (name, (lineOf e name).remove id)
      | none => none) := by
  obtain ⟨hdown, -⟩ := calm_cases hcalm
  have hfollows := removal_follows h hcalm cfg id operation.requestReason
  have hkeep : board (handleIdentityOperation cfg obs e id operation reply) =
      board (removeQueuedSubmission cfg obs e id operation.requestReason).2 := by
    simp only [handleIdentityOperation, hdown, Bool.false_eq_true, if_false]
    split
    · next hremoved => rw [hremoved]; rfl
    · next hremoved =>
      rw [hremoved]
      repeat' split
      all_goals rfl
  exact hfollows.of_board hkeep

theorem removal_keeps (e : Engine) (id : TaskId) (name : String) (decision : Except RuntimeError Bool) :
    (board (handleRemovalResult (World.dropRemoval e id name) id name decision)).slot = (board e).slot ∧
      (board (handleRemovalResult (World.dropRemoval e id name) id name decision)).rejected = (board e).rejected := by
  unfold handleRemovalResult
  split
  · exact ⟨rfl, rfl⟩
  split
  · exact ⟨rfl, rfl⟩
  cases decision with
  | ok _ => exact ⟨rfl, rfl⟩
  | error error =>
      rw [board_publish _ rfl]
      exact ⟨rfl, rfl⟩

end Results

section Submission

variable {b : Board} {sub : Submission} {watcher : AdmissionWatcher} {kind : RejectionKind} {reason : String}

theorem standing_idle (hidle : slot.phase = .idle) : standing slot = ⟨none, ids slot⟩ := by
  rw [standing, SlotState.ownerId_eq_none_iff.mpr hidle]

theorem standing_busy (hbusy : slot.phase ≠ .idle) : ∃ owner, standing slot = ⟨some owner, ids slot⟩ := by
  cases howner : slot.ownerId with
  | none => exact absurd (SlotState.ownerId_eq_none_iff.mp howner) hbusy
  | some owner => exact ⟨owner, by rw [standing, howner]⟩

theorem rejectedIds_turnAway (h : Parked sub b e slot watcher) (obs : Observed) (kind : RejectionKind) (reason : String) :
    rejectedIds (watcher.rejectWithEvent obs e kind reason).2.1 = rejectedIds e ++ [sub.id] ∧
      (board (watcher.rejectWithEvent obs e kind reason).2.1).slot = (board e).slot := by
  rw [rejectedIds, rejectedIds, h.turnAway obs kind reason, h.engine]
  constructor
  · simp [Board.reject, Board.note, Board.send, Board.setWatcher]
  · rfl

theorem queueFullReason_cases (cfg : ControllerConfig) (length : Nat) :
    (length < cfg.maxSlotQueue ∧ Engine.queueFullReason cfg length = none) ∨
    (¬ length < cfg.maxSlotQueue ∧ ∃ reason, Engine.queueFullReason cfg length = some reason) := by
  by_cases hfull : cfg.maxSlotQueue ≤ length
  · exact .inr ⟨Nat.not_lt.mpr hfull, _, if_pos hfull⟩
  · exact .inl ⟨Nat.lt_of_not_le hfull, if_neg hfull⟩

theorem pendingFull_eq (cfg : ControllerConfig) (e : Engine) : e.pendingFull cfg = !hasRoom cfg e.state.pendingLen := by
  rw [Engine.pendingFull, hasRoom, Bool.not_not]

/-- A placement shows the submission on the line of its slot. -/
def Placement (cfg : ControllerConfig) (obs : Observed) (e : Engine) (slot : SlotState) (sub : Submission) : Outcome :=
  (standing slot).submit cfg.maxSlotQueue (hasRoom cfg e.state.pendingLen)
    (admissible cfg obs e.operations.capacity e.state.pendingLen sub.id) sub.admission sub.id

/-- What each placement method must show for the outcome it reports. -/
def Agrees (e : Engine) (slot : SlotState) (sub : Submission) (outcome : Outcome) (placed : Placed) : Prop :=
  match placed.outcome with
  | .accepted _ => standing placed.slot = outcome.line ∧ (board placed.engine).slot = (board e).slot ∧
      rejectedIds placed.engine = rejectedIds e ++ outcome.rejected
  | _ => outcome = ⟨standing slot, [sub.id]⟩ ∧ placed.slot = slot ∧ board placed.engine = board e

theorem admitIdle_agrees (h : Parked sub b e slot watcher) (hidle : slot.phase = .idle) (cfg : ControllerConfig)
    (obs : Observed) : Agrees e slot sub (Placement cfg obs e slot sub)
      (admitIdle cfg obs e slot sub.slotName ⟨sub.id, sub.taskName⟩ sub.admission watcher) := by
  have hcap : (board e).capacity sub.id = none := by
    rw [h.engine]
    exact (not_known_iff.mp h.unknown).2.1
  have hok := startInSlot_ok cfg obs e slot sub.slotName ⟨sub.id, sub.taskName⟩
  rw [Placement, standing_idle hidle]
  rcases startInSlot_cases cfg obs slot sub.slotName ⟨sub.id, sub.taskName⟩ hidle hcap with
    ⟨e', heq, hb⟩ | ⟨e', pump, heq, hpump, hb⟩ | ⟨error, e', heq, hb⟩
  · simp only [Agrees, admitIdle, heq, Standing.submit, if_pos (hok.mp (by rw [heq])), List.append_nil]
    refine ⟨rfl, ?_, ?_⟩
    · rw [board_publishSubmitted, hb]
      rfl
    · rw [rejectedIds, board_publishSubmitted, hb]
      rfl
  · simp only [Agrees, admitIdle, heq, Standing.submit, if_pos (hok.mp (by rw [heq])), List.append_nil]
    refine ⟨rfl, ?_, ?_⟩
    · rw [board_publishSubmitted, hb]
      rfl
    · rw [rejectedIds, board_publishSubmitted, hb]
      rfl
  · have hnot : ¬ admissible cfg obs e.operations.capacity e.state.pendingLen sub.id = true := by
      intro ha
      have hgot := hok.mpr ha
      rw [heq] at hgot
      cases hgot
    simp only [Agrees, admitIdle, heq, Standing.submit, if_neg hnot]
    exact ⟨by rw [standing_idle hidle], trivial, hb⟩

theorem queue_agrees (hbusy : slot.phase ≠ .idle) (hpolicy : sub.admission = .queue) (cfg : ControllerConfig)
    (obs : Observed) (watcher : AdmissionWatcher) : Agrees e slot sub (Placement cfg obs e slot sub)
      (Admission.queue cfg e slot sub.slotName ⟨sub.id, sub.taskName⟩ watcher) := by
  obtain ⟨owner, howner⟩ := standing_busy hbusy
  have hlen : (ids slot).length = slot.queue.length := List.length_map _
  rw [Placement, howner, hpolicy]
  simp only [Standing.submit, hlen]
  rcases queueFullReason_cases cfg slot.queue.length with ⟨hlt, hnone⟩ | ⟨hge, reason, hsome⟩
  · cases hroom : hasRoom cfg e.state.pendingLen with
    | true =>
        simp only [Agrees, Admission.queue, hnone, Engine.tryPushQueued, pendingFull_eq, hroom, Bool.not_true,
          Bool.false_eq_true, if_false, hlt, and_self, if_true, List.append_nil]
        refine ⟨?_, ?_, ?_⟩
        · have hown := congrArg Standing.owner howner
          exact Standing.ext hown (by simp [standing, ids])
        · rw [board_publishSubmitted, board_indexQueued]
          rfl
        · rw [rejectedIds, board_publishSubmitted, board_indexQueued]
          rfl
    | false =>
        simp only [Agrees, Admission.queue, hnone, Engine.tryPushQueued, pendingFull_eq, hroom, Bool.not_false, if_true,
          Bool.false_eq_true, and_false, if_false]
        exact ⟨by rw [howner], trivial, trivial⟩
  · simp only [Agrees, Admission.queue, hsome, hge, false_and, if_false]
    exact ⟨by rw [howner], trivial, trivial⟩

/-- Retiring the owner changes neither the line nor the rejections. -/
theorem retireOwner_line (obs : Observed) (e : Engine) (slot : SlotState) (name : String) :
    standing (retireOwner obs e slot name).2.2 = standing slot ∧
      (board (retireOwner obs e slot name).2.1).slot = (board e).slot ∧
      (board (retireOwner obs e slot name).2.1).rejected = (board e).rejected := by
  obtain ⟨howner, hqueue⟩ := SlotState.requestReplacement_owner slot obs.now
  have hline : standing (slot.requestReplacement obs.now).2 = standing slot := by
    rw [standing, standing, howner, ids, ids, hqueue]
  cases hphase : slot.phase with
  | running owner since =>
      simp only [retireOwner, hphase]
      refine ⟨hline, ?_, ?_⟩ <;> rw [board_publishTransition, board_trackRemoval]
  | admitting owner since =>
      simp only [retireOwner, hphase]
      refine ⟨hline, ?_, ?_⟩ <;> rw [board_publishTransition]
  | _ =>
      simp only [retireOwner, hphase]
      exact ⟨trivial, trivial, trivial⟩

theorem replace_agrees (hbusy : slot.phase ≠ .idle) (hpolicy : sub.admission = .replace) (cfg : ControllerConfig)
    (obs : Observed) (watcher : AdmissionWatcher) : Agrees e slot sub (Placement cfg obs e slot sub)
      (replace cfg obs e slot sub.slotName ⟨sub.id, sub.taskName⟩ watcher) := by
  obtain ⟨owner, howner⟩ := standing_busy hbusy
  have hown : slot.ownerId = some owner := congrArg Standing.owner howner
  rw [Placement, howner, hpolicy]
  cases hqueue : slot.queue with
  | nil =>
      have hids : ids slot = [] := by rw [ids, hqueue, List.map_nil]
      cases hroom : hasRoom cfg e.state.pendingLen with
      | true =>
          obtain ⟨hline, hslot, hrej⟩ := retireOwner_line obs (e.indexQueued sub.id sub.slotName)
            { slot with queue := [⟨sub.id, sub.taskName⟩] } sub.slotName
          simp only [Agrees, replace, Engine.tryReplaceHeadOrPush, hqueue, List.isEmpty_nil, if_true, pendingFull_eq, hroom,
            Bool.not_true, Bool.false_eq_true, if_false, Standing.submit, hids, List.append_nil]
          refine ⟨hline.trans (Standing.ext hown rfl), ?_, ?_⟩
          · rw [board_publishSubmitted, hslot, board_indexQueued]
            rfl
          · rw [rejectedIds, board_publishSubmitted, hrej, board_indexQueued]
            rfl
      | false =>
          simp only [Agrees, replace, Engine.tryReplaceHeadOrPush, hqueue, List.isEmpty_nil, if_true, pendingFull_eq, hroom,
            Bool.not_false, Standing.submit, hids, Bool.false_eq_true, if_false]
          exact ⟨by rw [howner, hids], trivial, trivial⟩
  | cons head rest =>
      have hids : ids slot = head.id :: rest.map PendingSubmission.id := by rw [ids, hqueue, List.map_cons]
      set e₁ := ((((e.unindexQueued head.id).indexQueued sub.id sub.slotName).publishRejected sub.slotName head.id
        .supersededByReplace Reasons.supersededByReplace).finalizeRejected obs head.id .supersededByReplace
          Reasons.supersededByReplace).2 with he₁
      have hb : board e₁ = (((board e).setQueued head.id none).setQueued sub.id (some sub.slotName)).rejectParked head.id
          .supersededByReplace Reasons.supersededByReplace := by
        rw [he₁, board_publishFinalize, board_indexQueued, board_unindexQueued]
      obtain ⟨hline, hslot, hrej⟩ := retireOwner_line obs e₁ { slot with queue := ⟨sub.id, sub.taskName⟩ :: rest } sub.slotName
      simp only [Agrees, replace, Engine.tryReplaceHeadOrPush, Engine.replaceHeadOrPush, hqueue, List.isEmpty_cons,
        Bool.false_eq_true, if_false, Standing.submit, hids, ← he₁]
      refine ⟨hline.trans (Standing.ext hown rfl), ?_, ?_⟩
      · rw [board_publishSubmitted, hslot, hb]
        rfl
      · rw [rejectedIds, board_publishSubmitted, hrej, hb]
        simp [Board.rejectParked, Board.reject, Board.note, Board.send, Board.setWatcher, Board.setQueued, rejectedIds]

theorem apply_agrees (h : Parked sub b e slot watcher) (cfg : ControllerConfig) (obs : Observed) :
    Agrees e slot sub (Placement cfg obs e slot sub)
      (apply cfg obs e slot sub.slotName ⟨sub.id, sub.taskName⟩ sub.admission watcher) := by
  rw [apply.eq_def]
  by_cases hidle : slot.isIdle = true
  · rw [if_pos hidle]
    exact admitIdle_agrees h (SlotState.isIdle_iff.mp hidle) cfg obs
  · have hbusy : slot.phase ≠ .idle := fun hp => hidle (SlotState.isIdle_iff.mpr hp)
    rw [if_neg hidle]
    cases hpolicy : sub.admission with
    | replace => exact replace_agrees hbusy hpolicy cfg obs watcher
    | queue => exact queue_agrees hbusy hpolicy cfg obs watcher
    | dropIfRunning =>
        obtain ⟨owner, howner⟩ := standing_busy hbusy
        refine ⟨?_, rfl, rfl⟩
        rw [Placement, howner, hpolicy]
        rfl

/-- A refused placement leaves its slot as it was and one rejection. -/
theorem refused_shows {e₁ : Engine} {placed : Placed} (hparked : Parked sub b placed.engine placed.slot placed.watcher)
    (hb : board placed.engine = board e) (hslot : placed.slot = slot) (obs : Observed) (kind : RejectionKind)
    (reason : String)
    (he₁ : e₁ = (placed.watcher.rejectWithEvent obs placed.engine kind reason).2.1) :
    Shows e (e₁.putSlot name placed.slot) name ⟨standing slot, [sub.id]⟩ ∧
      Shows e (e₁.gcIfIdle name placed.slot) name ⟨standing slot, [sub.id]⟩ := by
  obtain ⟨hrej, hkeep⟩ := rejectedIds_turnAway hparked obs kind reason
  rw [hb, ← he₁] at hkeep
  rw [rejectedIds, rejectedIds, hb, ← he₁] at hrej
  rw [hslot]
  exact ⟨shows_put slot hkeep hrej, shows_gc slot hkeep hrej⟩

theorem placeSubmission_shows (h : Parked sub b e slot watcher) (hcoh : Coherent b) (hcalm : calm obs = true)
    (cfg : ControllerConfig) :
    Shows e (placeSubmission cfg obs e slot sub.slotName ⟨sub.id, sub.taskName⟩ sub.admission watcher).1 sub.slotName
      (Placement cfg obs e slot sub) := by
  obtain ⟨-, -, hdown, -, -, -⟩ := calm_cases hcalm
  have hagrees := apply_agrees h cfg obs
  have hsound : Sound (fun _ => True) sub b
      (apply cfg obs e slot sub.slotName ⟨sub.id, sub.taskName⟩ sub.admission watcher) := apply_sound h hcoh cfg obs
  simp only [placeSubmission, hdown, Bool.false_eq_true, if_false]
  set placed := apply cfg obs e slot sub.slotName ⟨sub.id, sub.taskName⟩ sub.admission watcher
  rw [Agrees] at hagrees
  rw [Sound] at hsound
  cases hout : placed.outcome with
  | accepted displaced =>
      simp only [hout] at hagrees
      obtain ⟨hline, hslot, hrej⟩ := hagrees
      have hput : Shows e (placed.engine.putSlot sub.slotName placed.slot) sub.slotName _ := shows_put placed.slot hslot hrej
      rw [hline] at hput
      exact hput.of_board (board_disposeAll _ _)
  | rejected kind reason =>
      simp only [hout] at hagrees hsound
      obtain ⟨houtcome, hslot, hb⟩ := hagrees
      rw [houtcome]
      exact (refused_shows hsound hb hslot obs kind reason rfl).1.of_board (board_dispose _ _ _)
  | handoffFailed kind reason =>
      simp only [hout] at hagrees hsound
      obtain ⟨houtcome, hslot, hb⟩ := hagrees
      rw [houtcome]
      exact (refused_shows hsound hb hslot obs kind reason rfl).2.of_board (board_dispose _ _ _)

/-- The preflight of an explicit slot rejects exactly where the placement on
that slot would reject for a busy owner, and with the same report. -/
theorem busyRejection_iff (cfg : ControllerConfig) (obs : Observed) (e : Engine) (slot : SlotState) (name : String)
    (pending : PendingSubmission) (admission : AdmissionPolicy) (watcher : AdmissionWatcher) (kind : RejectionKind)
    (reason : String) :
    busyRejection cfg slot admission = some (kind, reason) ↔
      (apply cfg obs e slot name pending admission watcher).outcome = .rejected kind reason ∧ kind ≠ .resourceLimit := by
  rw [apply.eq_def, busyRejection.eq_def]
  by_cases hidle : slot.isIdle = true
  · rw [if_pos hidle, if_pos hidle]
    refine ⟨by rintro ⟨⟩, fun hr => absurd hr.1 ?_⟩
    rw [admitIdle]
    split <;> rintro ⟨⟩
  · rw [if_neg hidle, if_neg hidle]
    cases admission with
    | queue =>
        cases hfull : Engine.queueFullReason cfg slot.queue.length with
        | some text =>
            simp only [Admission.queue, hfull, Option.map_some, Option.some.injEq, Prod.mk.injEq, PlacementOutcome.rejected.injEq]
            constructor
            · rintro ⟨rfl, rfl⟩
              exact ⟨⟨rfl, rfl⟩, by rintro ⟨⟩⟩
            · exact fun hr => hr.1
        | none =>
            simp only [Admission.queue, hfull, Option.map_none]
            refine ⟨by rintro ⟨⟩, fun hr => absurd hr ?_⟩
            split
            · rintro ⟨hout, hkind⟩
              cases hout
              exact hkind rfl
            · exact fun hr => by cases hr.1
    | dropIfRunning =>
        simp only [rejectBusy, Option.some.injEq, Prod.mk.injEq, PlacementOutcome.rejected.injEq]
        constructor
        · rintro ⟨rfl, rfl⟩
          exact ⟨⟨rfl, rfl⟩, by rintro ⟨⟩⟩
        · exact fun hr => hr.1
    | replace =>
        refine ⟨by rintro ⟨⟩, ?_⟩
        rintro ⟨hout, hkind⟩
        simp only [replace] at hout
        split at hout
        · cases hout
          exact absurd rfl hkind
        · cases hout

/-- Where the preflight rejects, the placement would have shown the same. -/
theorem placement_of_busyRejection (hreject : busyRejection cfg slot sub.admission = some (kind, reason))
    (h : Parked sub b e slot watcher) (obs : Observed) :
    Placement cfg obs e slot sub = ⟨standing slot, [sub.id]⟩ := by
  have hout := ((busyRejection_iff cfg obs e slot sub.slotName ⟨sub.id, sub.taskName⟩ sub.admission watcher kind
    reason).mp hreject).1
  have hagrees := apply_agrees h cfg obs
  rw [Agrees] at hagrees
  simp only [hout] at hagrees
  exact hagrees.1

theorem Shows.from_parked {e₁ : Engine} {outcome : Outcome} (h : Shows e₁ e' name outcome)
    (hslot : ∀ other, other ≠ name → (board e₁).slot other = (board e).slot other)
    (hrej : (board e₁).rejected = (board e).rejected) : Shows e e' name outcome := by
  refine ⟨h.line, fun other hne => ?_, ?_⟩
  · rw [h.others other hne, lineOf_board, lineOf_board, hslot other hne]
  · rw [h.rejected, rejectedIds, rejectedIds, hrej]

theorem explicitSlotRejection_slot (hdown : obs.shutdown 1 = false)
    (hpre : explicitSlotRejection cfg obs e sub = some (kind, reason)) :
    ∃ slot, (board e).slot sub.slotName = some slot ∧ busyRejection cfg slot sub.admission = some (kind, reason) := by
  rw [explicitSlotRejection] at hpre
  split at hpre
  · cases hpre
  · next slot hslot =>
    obtain ⟨name, hname, hslot⟩ := Option.bind_eq_some_iff.mp hslot
    rw [hdown, if_neg Bool.false_ne_true] at hpre
    refine ⟨slot, ?_, hpre⟩
    rw [Submission.slotName, hname]
    exact hslot

theorem untracked_of_error {limit : Nat} (hget : e.tryGetOrCreateSlot cfg name = .error limit) :
    (board e).slot name = none := by
  cases hslot : e.state.slots.lookup name with
  | none => exact hslot
  | some slot =>
      simp only [Engine.tryGetOrCreateSlot, hslot] at hget
      cases hget

/-- The slot limit of the source, read as a condition. -/
theorem canTrack_eq (cfg : ControllerConfig) (e : Engine) (name : String) :
    canTrack cfg e name = (e.tryGetOrCreateSlot cfg name).isOk := by
  cases hslot : e.state.slots.lookup name with
  | some slot => simp [canTrack, Engine.tryGetOrCreateSlot, hslot, Except.isOk, Except.toBool]
  | none =>
      cases hmax : cfg.maxControllerSlots with
      | none => simp [canTrack, Engine.tryGetOrCreateSlot, hslot, hmax, Except.isOk, Except.toBool]
      | some limit =>
          by_cases hfull : limit.get ≤ e.state.slots.size
          · simp [canTrack, Engine.tryGetOrCreateSlot, hslot, hmax, hfull, Except.isOk, Except.toBool]
          · simp [canTrack, Engine.tryGetOrCreateSlot, hslot, hmax, hfull, Nat.lt_of_not_le hfull, Except.isOk, Except.toBool]

theorem canTrack_congr (hslot : (board e').slot = (board e).slot) (cfg : ControllerConfig) (name : String) :
    canTrack cfg e' name = canTrack cfg e name := by
  have hlookup : e'.state.slots.lookup name = e.state.slots.lookup name := congrFun hslot name
  rw [canTrack, canTrack, hlookup, Table.size_congr fun name => congrFun hslot name]

/-- A trackable slot takes part in the submission as its placement says. -/
theorem submitted_eq (obs : Observed) (e' : Engine) (hline : lineOf e sub.slotName = standing slot) (htrack : canTrack cfg e sub.slotName = true)
    (hused : e'.state.pendingLen = e.state.pendingLen) (hpump : e'.operations.capacity = e.operations.capacity) :
    submitted cfg obs e sub = Placement cfg obs e' slot sub := by
  rw [submitted, Placement, hline, htrack, hused, hpump, Bool.true_and]

theorem turned_shows (hslot : (board e').slot = (board e).slot) (hrej : rejectedIds e' = rejectedIds e ++ [id])
    (name : String) : Shows e e' name ⟨lineOf e name, [id]⟩ := by
  refine ⟨?_, fun other _ => ?_, hrej⟩ <;> rw [lineOf_board, lineOf_board, hslot]

theorem rejected_reject (hb : board e' = (board e).reject sub.id sub.done kind reason) :
    (board e').slot = (board e).slot ∧ rejectedIds e' = rejectedIds e ++ [sub.id] := by
  rw [rejectedIds, hb]
  constructor
  · rfl
  · simp [Board.reject, Board.note, Board.send, rejectedIds]

theorem finishPlacement_eq (h : Parked sub b e slot watcher) (hcoh : Coherent b) (cfg : ControllerConfig) (obs : Observed) :
    finishPlacement cfg obs none e slot sub watcher =
      (placeSubmission cfg obs e slot sub.slotName ⟨sub.id, sub.taskName⟩ sub.admission watcher).1 := by
  have hentered : _ ∧ Entered (fun _ => True) sub b _ := placeSubmission_entered h hcoh cfg obs
  simp only [finishPlacement, reduceCtorEq, if_false, AdmissionWatcher.drop, if_pos hentered.1]

/-- A submission outside shutdown shows exactly what the line makes of it,
whether or not its slot is explicit. -/
theorem handleSubmission_follows (h : Coherent (board e)) (hunknown : ¬ Known (board e) sub.id) (hcalm : calm obs = true)
    (cfg : ControllerConfig) :
    Shows e (handleSubmission cfg obs none e sub) sub.slotName (submitted cfg obs e sub) := by
  obtain ⟨hdown, hdown', -, hup, -, -⟩ := calm_cases hcalm
  have hfree : (board e).watcher sub.id = none := (not_known_iff.mp hunknown).2.2.1
  obtain ⟨e₁, watcher, hpark, hb, hid, hstate⟩ := park_cases sub hfree
  have hslots : (board e₁).slot = (board e).slot := by rw [hb]; rfl
  have hused : e₁.state.pendingLen = e.state.pendingLen := by
    refine pendingLen_congr ?_ ?_ <;> rw [hb] <;> rfl
  have hpump : e₁.operations.capacity = e.operations.capacity := congrArg Board.pump hb
  have htrack := canTrack_congr hslots cfg sub.slotName
  rw [canTrack_eq cfg e₁] at htrack
  have hcut : (awaitsPreflight e sub && decide ((none : Option AwaitPoint) = some .preflight)) = false := by simp
  cases hpre : explicitSlotRejection cfg obs e sub with
  | some rejection =>
      obtain ⟨kind, reason⟩ := rejection
      obtain ⟨slot, hslot, hbusy⟩ := explicitSlotRejection_slot hdown' hpre
      have hparked : Parked sub (board e) e₁ slot watcher := ⟨hb, hunknown, hslot, hid, hstate⟩
      have htracked : canTrack cfg e sub.slotName = true := by
        simp [canTrack, show e.state.slots.lookup sub.slotName = some slot from hslot]
      rw [submitted_eq obs e₁ (lineOf_of_slot hslot) htracked hused hpump, placement_of_busyRejection hbusy hparked obs,
        ← lineOf_of_slot hslot]
      simp only [handleSubmission, submissionBody, hup, hdown, hcut, hpre, Bool.not_true, Bool.false_eq_true, if_false,
        AdmissionWatcher.drop, if_pos (rejectWithEvent_committed ..)]
      obtain ⟨hkeep, hrej⟩ := rejected_reject (board_rejectNew obs e sub kind reason)
      exact turned_shows hkeep hrej sub.slotName
  | none =>
      simp only [handleSubmission, submissionBody, hup, hdown, hcut, hpre, hpark, Bool.not_true, Bool.false_eq_true,
        if_false]
      rcases tryGetOrCreateSlot_cases cfg e₁ sub.slotName with ⟨limit, hget⟩ | ⟨slot, hget, hslot⟩ | ⟨hget, hslot⟩
      · simp only [hget, AdmissionWatcher.drop, if_pos (rejectWithEvent_committed ..)]
        rw [hget] at htrack
        have hnone : lineOf e sub.slotName = .empty := by
          rw [lineOf_board, ← hslots]
          exact congrArg standingOf (untracked_of_error hget)
        have hout : submitted cfg obs e sub = ⟨lineOf e sub.slotName, [sub.id]⟩ := by
          rw [submitted, ← htrack, hnone]
          rfl
        obtain ⟨hkeep, hrej⟩ := rejected_reject (board_turnAway hb hfree hid hstate obs .resourceLimit
          (Reasons.controllerSlotLimit ++ ": " ++ toString limit))
        rw [hout]
        exact (turned_shows hkeep hrej sub.slotName).of_board (board_dispose _ _ _)
      · rw [hslots] at hslot
        have hparked : Parked sub (board e) e₁ slot watcher := ⟨hb, hunknown, hslot, hid, hstate⟩
        rw [hget] at htrack
        have hshows := placeSubmission_shows hparked h hcalm cfg
        rw [← submitted_eq obs e₁ (lineOf_of_slot hslot) htrack.symm hused hpump,
          ← finishPlacement_eq hparked h cfg obs] at hshows
        simp only [hget]
        exact hshows.from_parked (fun other _ => congrFun hslots other) (by rw [hb]; rfl)
      · rw [hslots] at hslot
        rw [hget] at htrack
        have hmove : Move (fun _ => True) (board e) _ := Move.create hslot
        have hb' : board (e₁.putSlot sub.slotName .new) =
            ((board e).setSlot sub.slotName (some .new)).setWatcher sub.id sub.done := by
          rw [board_putSlot, hb]
          rfl
        have hslot' : ((board e).setSlot sub.slotName (some .new)).slot sub.slotName = some .new := by
          rw [setSlot_slot, if_pos rfl]
        have hparked : Parked sub _ (e₁.putSlot sub.slotName .new) .new watcher :=
          ⟨hb', unknown_move h hmove hunknown, hslot', hid, hstate⟩
        have hshows := placeSubmission_shows hparked (h.move hmove) hcalm cfg
        have hempty : lineOf e sub.slotName = standing .new := by
          rw [lineOf_board, hslot]
          rfl
        rw [← submitted_eq obs (e₁.putSlot sub.slotName .new) hempty htrack.symm hused hpump,
          ← finishPlacement_eq hparked (h.move hmove) cfg obs] at hshows
        simp only [hget]
        refine hshows.from_parked (fun other hne => ?_) ?_
        · rw [hb']
          exact (setSlot_slot _ _ _).trans (if_neg hne)
        · rw [hb']
          rfl

end Submission

section Runs

variable {w w' : World} {a : Action} {x y : TaskId}

def steadyMachine (cfg : ControllerConfig) : Machine World Action := (machine cfg).guarded steady

theorem steady_phase (hsteady : steady w a = true) (hstep : World.step cfg w a = some w') : w'.phase = w.phase := by
  cases a with
  | send command =>
      simp only [World.step] at hstep
      split at hstep
      · obtain rfl := Option.some.inj hstep
        rfl
      · cases hstep
  | command obs cut =>
      cases hcommands : w.commands with
      | nil => simp [World.step, hcommands] at hstep
      | cons command rest =>
          simp only [World.step, hcommands] at hstep
          rw [looping_eq hstep]
  | capacityResult obs decision =>
      simp only [World.step] at hstep
      split at hstep
      · cases hstep
      · rw [looping_eq hstep]
  | admissionResult obs id slotName accepted =>
      simp only [World.step] at hstep
      split at hstep
      · rw [looping_eq hstep]
      · cases hstep
  | completionResult obs id slotName =>
      simp only [World.step] at hstep
      split at hstep
      · rw [looping_eq hstep]
      · cases hstep
  | removalResult id slotName decision =>
      simp only [World.step] at hstep
      split at hstep
      · rw [looping_eq hstep]
      · cases hstep
  | identityResult op result =>
      simp only [World.step] at hstep
      split at hstep
      · rw [looping_eq hstep]
      · cases hstep
  | _ => cases hsteady

theorem looping_of_steady (hw : (steadyMachine cfg).Reachable w) : w.phase = .looping := by
  refine hw.invariant (P := fun w => w.phase = .looping) rfl ?_
  intro w a w' _ hphase hstep
  obtain ⟨hsteady, hstep⟩ := Machine.guarded_step hstep
  exact (steady_phase hsteady hstep).trans hphase

theorem step_follows (hw : (machine cfg).Reachable w) (hphase : w.phase = .looping) (hsteady : steady w a = true)
    (hstep : World.step cfg w a = some w') : Follows w.engine w'.engine (effect cfg w a) := by
  have hsane := sane_of_reachable hw hphase
  obtain ⟨place, hplace⟩ := exists_placing hw
  have htracked := (bound_of_reachable hw hphase).tracked place hplace
  cases a with
  | send command =>
      simp only [World.step] at hstep
      split at hstep
      · obtain rfl := Option.some.inj hstep
        exact follows_none rfl rfl
      · cases hstep
  | command obs cut =>
      simp only [steady, Bool.and_eq_true, Option.isNone_iff_eq_none] at hsteady
      obtain ⟨hcalm, rfl⟩ := hsteady
      cases hcommands : w.commands with
      | nil => simp [World.step, hcommands] at hstep
      | cons command rest =>
          simp only [World.step, hcommands] at hstep
          obtain rfl := looping_eq hstep
          cases command with
          | submit sub =>
              have hunknown := hsane.unknown sub (by rw [hcommands]; exact List.mem_cons_self)
              simp only [effect, hcommands]
              exact handleSubmission_follows hsane.coherent hunknown hcalm cfg
          | manageIdentity id operation reply =>
              simp only [effect, hcommands]
              exact identity_follows hsane.coherent hcalm cfg id operation reply
  | capacityResult obs decision =>
      simp only [steady, Bool.and_eq_true, Bool.not_eq_true'] at hsteady
      cases hnext : w.engine.operations.capacity.next with
      | none => simp [World.step, hnext] at hstep
      | some found =>
          obtain ⟨id, pump⟩ := found
          simp only [World.step, hnext] at hstep
          obtain rfl := looping_eq hstep
          obtain ⟨entry, slot, hentry, -, -, -⟩ := capacity_entry hsane.coherent (by
            rw [(waiting_next hnext).1]
            exact List.mem_cons_self)
          have hfollows := capacityResult_follows hsane.coherent hsteady.1 cfg pump hsteady.2 hentry
          simp only [effect, hnext, hentry]
          cases decision <;> exact hfollows
  | admissionResult obs id slotName accepted =>
      simp only [World.step] at hstep
      split at hstep
      · next hin =>
        obtain rfl := looping_eq hstep
        have hfollows := admissionResult_follows hsane.coherent htracked hsteady cfg hin accepted
        cases accepted <;> exact hfollows
      · cases hstep
  | completionResult obs id slotName =>
      simp only [World.step] at hstep
      split at hstep
      · next hin =>
        obtain rfl := looping_eq hstep
        exact completionResult_follows hsane.coherent htracked hsteady hin
      · cases hstep
  | removalResult id slotName decision =>
      simp only [World.step] at hstep
      split at hstep
      · obtain rfl := looping_eq hstep
        exact follows_none (removal_keeps w.engine id slotName decision).1 (removal_keeps w.engine id slotName decision).2
      · cases hstep
  | identityResult op result =>
      simp only [World.step] at hstep
      split at hstep
      · obtain rfl := looping_eq hstep
        exact follows_none rfl rfl
      · cases hstep
  | _ => cases hsteady

theorem follows_of_steady (hw : (steadyMachine cfg).Reachable w) (hstep : (steadyMachine cfg).step w a = some w') :
    Follows w.engine w'.engine (effect cfg w a) := by
  obtain ⟨hsteady, hstep⟩ := Machine.guarded_step hstep
  exact step_follows hw.of_guarded (looping_of_steady hw) hsteady hstep

/-- The one ahead is still ahead, becomes the owner, or one of the two has been
turned away. -/
def Ordered (x y : TaskId) (outcome : Outcome) : Prop :=
  outcome.line.owner = some x ∨ x ∈ outcome.rejected ∨ y ∈ outcome.rejected ∨ [x, y].Sublist outcome.line.queue

theorem promote_ordered {queue : List TaskId} (admissible : Nat → TaskId → Bool) (used : Nat) (x y : TaskId)
    (hxy : [x, y].Sublist queue) : Ordered x y (Standing.promote admissible used queue) := by
  rcases Standing.promote_order used hxy with ho | hx | hq
  · exact .inl ho
  · exact .inr (.inl hx)
  · exact .inr (.inr (.inr hq))

theorem turnedAway_ordered {outcome : Outcome} (id : TaskId) (h : Ordered x y outcome) :
    Ordered x y (turnedAway id outcome) := by
  rcases h with ho | hx | hy | hq
  · exact .inl ho
  · exact .inr (.inl (List.mem_cons_of_mem _ hx))
  · exact .inr (.inr (.inl (List.mem_cons_of_mem _ hy)))
  · exact .inr (.inr (.inr hq))

/-- Every outcome the line can have after a step keeps it served and in order. -/
theorem effect_facts {name : String} {outcome : Outcome} (heffect : effect cfg w a = some (name, outcome))
    (hserved : (lineOf w.engine name).Served) :
    outcome.line.Served ∧ ∀ x y, [x, y].Sublist (lineOf w.engine name).queue → Ordered x y outcome := by
  cases a with
  | command obs cut =>
      simp only [effect] at heffect
      split at heffect
      · obtain ⟨rfl, rfl⟩ := Prod.mk.inj (Option.some.inj heffect)
        refine ⟨Standing.submit_served hserved _ _ _ _ _, fun x y hxy => .inr ?_⟩
        exact (Standing.submit_order hxy ..).imp_right .inr
      · split at heffect
        · obtain ⟨rfl, rfl⟩ := Prod.mk.inj (Option.some.inj heffect)
          exact ⟨Standing.promote_served _ _, fun x y hxy => turnedAway_ordered _ (promote_ordered _ _ x y hxy)⟩
        · obtain ⟨rfl, rfl⟩ := Prod.mk.inj (Option.some.inj heffect)
          exact ⟨Standing.remove_served hserved _, fun x y hxy => .inr (Standing.remove_order hxy _)⟩
        · cases heffect
      · cases heffect
  | capacityResult obs decision =>
      simp only [effect] at heffect
      split at heffect
      · cases heffect
      · split at heffect
        · obtain ⟨rfl, rfl⟩ := Prod.mk.inj (Option.some.inj heffect)
          exact ⟨Standing.promote_served _ _, fun x y hxy => turnedAway_ordered _ (promote_ordered _ _ x y hxy)⟩
        · cases heffect
  | admissionResult obs id slotName accepted =>
      cases accepted with
      | true => cases heffect
      | false =>
          obtain ⟨rfl, rfl⟩ := Prod.mk.inj (Option.some.inj heffect)
          exact ⟨Standing.promote_served _ _, promote_ordered _ _⟩
  | completionResult obs id slotName =>
      obtain ⟨rfl, rfl⟩ := Prod.mk.inj (Option.some.inj heffect)
      exact ⟨Standing.promote_served _ _, promote_ordered _ _⟩
  | _ => cases heffect

theorem served_step (hfollows : Follows w.engine w'.engine (effect cfg w a))
    (hserved : ∀ name, (lineOf w.engine name).Served) : ∀ name, (lineOf w'.engine name).Served := by
  intro name
  cases heffect : effect cfg w a with
  | none =>
      rw [heffect] at hfollows
      rw [hfollows.1 name]
      exact hserved name
  | some found =>
      obtain ⟨slotName, outcome⟩ := found
      rw [heffect] at hfollows
      by_cases hname : name = slotName
      · subst hname
        rw [hfollows.line]
        exact (effect_facts heffect (hserved name)).1
      · rw [hfollows.others name hname]
        exact hserved name

theorem served_of_steady (hw : (steadyMachine cfg).Reachable w) : ∀ name, (lineOf w.engine name).Served := by
  refine hw.invariant (P := fun w => ∀ name, (lineOf w.engine name).Served) (fun _ _ => rfl) ?_
  intro w a w' hw hserved hstep
  exact served_step (follows_of_steady hw hstep) hserved

theorem rejectedIds_step (hfollows : Follows w.engine w'.engine (effect cfg w a)) (hx : x ∈ rejectedIds w.engine) :
    x ∈ rejectedIds w'.engine := by
  cases heffect : effect cfg w a with
  | none =>
      rw [heffect] at hfollows
      rwa [hfollows.2]
  | some found =>
      rw [heffect] at hfollows
      rw [hfollows.rejected]
      exact List.mem_append_left _ hx

theorem rejectedIds_run (word : List Action) (hw : (steadyMachine cfg).Reachable w)
    (hrun : (steadyMachine cfg).after w word = some w') (hx : x ∈ rejectedIds w.engine) : x ∈ rejectedIds w'.engine := by
  induction word generalizing w with
  | nil =>
      cases hrun
      exact hx
  | cons a rest ih =>
      obtain ⟨w₁, hstep, hrest⟩ := Option.bind_eq_some_iff.mp hrun
      exact ih (.next a hw hstep) hrest (rejectedIds_step (follows_of_steady hw hstep) hx)

/-- One step: the one ahead is still ahead, becomes the owner, or one of the
two has been turned away. -/
theorem order_step (hw : (steadyMachine cfg).Reachable w) (hstep : (steadyMachine cfg).step w a = some w') {name : String}
    (hxy : [x, y].Sublist (lineOf w.engine name).queue) :
    (lineOf w'.engine name).owner = some x ∨ x ∈ rejectedIds w'.engine ∨ y ∈ rejectedIds w'.engine ∨
      [x, y].Sublist (lineOf w'.engine name).queue := by
  have hfollows := follows_of_steady hw hstep
  cases heffect : effect cfg w a with
  | none =>
      rw [heffect] at hfollows
      rw [hfollows.1 name]
      exact .inr (.inr (.inr hxy))
  | some found =>
      obtain ⟨slotName, outcome⟩ := found
      rw [heffect] at hfollows
      by_cases hname : name = slotName
      · subst hname
        rw [hfollows.line, hfollows.rejected]
        rcases (effect_facts heffect (served_of_steady hw name)).2 x y hxy with ho | hx | hy | hq
        · exact .inl ho
        · exact .inr (.inl (List.mem_append_right _ hx))
        · exact .inr (.inr (.inl (List.mem_append_right _ hy)))
        · exact .inr (.inr (.inr hq))
      · rw [hfollows.others name hname]
        exact .inr (.inr (.inr hxy))

theorem lineOf_owner {name : String} (howner : (lineOf e name).owner = some y) :
    ∃ slot, (board e).slot name = some slot ∧ slot.ownerId = some y := by
  cases hslot : (board e).slot name with
  | none =>
      rw [lineOf_board, hslot] at howner
      cases howner
  | some slot =>
      rw [lineOf_of_slot hslot] at howner
      exact ⟨slot, rfl, howner⟩

theorem lineOf_mem {name : String} (hy : y ∈ (lineOf e name).queue) : ∃ slot, (board e).slot name = some slot ∧ y ∈ ids slot := by
  cases hslot : (board e).slot name with
  | none =>
      rw [lineOf_board, hslot] at hy
      cases hy
  | some slot =>
      rw [lineOf_of_slot hslot] at hy
      exact ⟨slot, rfl, hy⟩

/-- Over a run: who becomes owner has seen everyone ahead become owner before,
or turned away. -/
theorem order_run (word : List Action) (hw : (steadyMachine cfg).Reachable w) {name other : String}
    (hxy : [x, y].Sublist (lineOf w.engine name).queue) (hrun : (steadyMachine cfg).after w word = some w')
    (howner : (lineOf w'.engine other).owner = some y) :
    x ∈ rejectedIds w'.engine ∨ ∃ k between, k ≤ word.length ∧ (steadyMachine cfg).after w (word.take k) = some between ∧
      (lineOf between.engine name).owner = some x := by
  obtain ⟨slot, hslot, hown⟩ := lineOf_owner howner
  induction word generalizing w with
  | nil =>
      cases hrun
      have hcoh := (sane_of_reachable hw.of_guarded (looping_of_steady hw)).coherent
      obtain ⟨waiting, hwaiting, hy⟩ := lineOf_mem (hxy.subset (by simp : y ∈ [x, y]))
      cases (hcoh.queued_of_mem hwaiting hy).symm.trans (hcoh.owner other slot y hslot hown)
  | cons a rest ih =>
      obtain ⟨w₁, hstep, hrest⟩ := Option.bind_eq_some_iff.mp hrun
      have hw₁ : (steadyMachine cfg).Reachable w₁ := .next a hw hstep
      have hkeep {z : TaskId} (hz : z ∈ rejectedIds w₁.engine) : z ∈ rejectedIds w'.engine :=
        rejectedIds_run rest hw₁ hrest hz
      rcases order_step hw hstep hxy with ho | hx | hy | hahead
      · refine .inr ⟨1, w₁, by simp, ?_, ho⟩
        rw [List.take_succ_cons, List.take_zero, Machine.after_cons, hstep]
        rfl
      · exact .inl (hkeep hx)
      · have hw' : (steadyMachine cfg).Reachable w' := hw₁.after hrest
        have hretired := (bound_of_reachable hw'.of_guarded (looping_of_steady hw')).retired
        exact absurd (.inr (.inr (.inr (.inr (.inr ⟨other, slot, hslot, hown⟩))))) (hretired y (hkeep hy))
      · rcases ih hw₁ hahead hrest with hx | ⟨k, between, hk, hbetween, ho⟩
        · exact .inl hx
        · refine .inr ⟨k + 1, between, Nat.succ_le_succ hk, ?_, ho⟩
          rw [List.take_succ_cons, Machine.after_cons, hstep]
          exact hbetween

def queueConfig : ControllerConfig := { tinyConfig with maxSlotQueue := 3, admissionCapacity := .one }

/-- The registry queue is full whenever 3 or 7 is offered, and the one capacity
wait goes to 7. -/
def fullRegistry : Observed :=
  { busyRegistry with offer := fun id => if id = 3 ∨ id = 7 then .error .commandQueueFull else .ok () }

def waitingRun : List Action :=
  [.send (.submit ⟨7, "z", .queue, none, none⟩), .send (.submit ⟨1, "a", .queue, none, none⟩),
    .send (.submit ⟨3, "b", .queue, some "a", none⟩), .send (.submit ⟨4, "c", .queue, some "a", none⟩),
    .send (.submit ⟨5, "d", .queue, some "a", none⟩)] ++ List.replicate 5 (.command fullRegistry none)

end Runs

end Taskvisor.Controller.Policy
