import Taskvisor.Shutdown.Owner

namespace Taskvisor.Shutdown.Tail

open Lib Runtime.Base Registry.State Owner

section Joins

variable {pending : PendingJoins} {id : TaskId}

/-- The two maps of the pending joins have the same keys. -/
def Aligned (pending : PendingJoins) : Prop :=
  ∀ id, (pending.counts.lookup id).isSome = (pending.names.lookup id).isSome

theorem aligned_new : Aligned ⟨∅, ∅⟩ := fun _ => rfl

theorem Aligned.incWithName (h : Aligned pending) (id : TaskId) (name : String) : Aligned (pending.incWithName id name) := by
  intro id'
  have hid := h id'
  simp only [PendingJoins.incWithName, Table.lookup_insert_ite]
  split
  · rfl
  · exact hid

theorem Aligned.dec (h : Aligned pending) (id : TaskId) : Aligned (pending.dec id) := by
  unfold PendingJoins.dec
  split
  · exact h
  · next count hc =>
    intro id'
    have hid := h id'
    split
    · simp only [Table.lookup_erase_ite]
      split
      · rfl
      · exact hid
    · simp only [Table.lookup_insert_ite]
      split
      · next he =>
        rw [he, hc] at hid
        rw [he, ← hid]
        rfl
      · exact hid

theorem Aligned.claimAll (h : Aligned pending) (handles : List (TaskId × String)) :
    Aligned (Owner.claimAll pending handles) := by
  unfold Owner.claimAll
  induction handles generalizing pending with
  | nil => exact h
  | cons handle handles ih => exact ih (h.incWithName handle.1 handle.2)

/-- There are names exactly while there are owners. -/
theorem Aligned.pendingNames_eq_nil (h : Aligned pending) : pending.pendingNames = [] ↔ pending.isEmpty = true := by
  rw [PendingJoins.pendingNames, PendingJoins.isEmpty, List.isEmpty_iff, Table.values_eq_nil, Table.entries_eq_nil]
  refine forall_congr' fun id => ?_
  have hid := h id
  rw [← Option.isNone_iff_eq_none, ← Option.isNone_iff_eq_none, ← Option.not_isSome, ← Option.not_isSome, hid]

end Joins

variable {grace : Nat} {s s' : Shared} {t t' : Task}

/-- The trigger asks for a drain. -/
def drains : ShutdownTrigger → Bool
  | .signalSetupFailed _ => false
  | _ => true

/-- A drain that met no fault has read the pending owners. -/
def Complete (t : Task) : Prop :=
  t.report.faults = [] → t.report.fence = true → drains t.trigger = true → t.report.pending.isSome = true

/-- The locals of the owner agree with what it has met so far. -/
def Agrees (grace : Nat) (t : Task) : Prop :=
  match t.stage with
  | .mark => t.report = .new
  | .fence => t.report = .new
  | .claim => t.report = ⟨true, [], none, []⟩ ∧ drains t.trigger = true
  | .join _ stuck => t.report = ⟨true, stuck, none, []⟩ ∧ drains t.trigger = true
  | .drained stuck => t.report = ⟨true, stuck, none, []⟩ ∧ drains t.trigger = true
  | .waitJoins stuck => t.report = ⟨true, stuck, none, []⟩ ∧ drains t.trigger = true
  | .names stuck => t.report = ⟨true, stuck, none, []⟩ ∧ drains t.trigger = true
  | .cleanup _ outcome clean =>
      (if clean then outcome = verdict grace t.trigger t.report else t.report.faults ≠ []) ∧ Complete t
  | .again _ => t.report.faults ≠ []
  | .publish outcome => outcome = verdict grace t.trigger t.report ∧ Complete t

structure Coherent (grace : Nat) (t : Task) : Prop where
  agrees : Agrees grace t
  aligned : ∀ p, t.report.pending = some p → Aligned p

theorem coherent_new (trigger : ShutdownTrigger) : Coherent grace ⟨trigger, .mark, .new⟩ :=
  ⟨rfl, fun _ h => (nomatch h)⟩

theorem verdict_fault {trigger : ShutdownTrigger} {r : Report} (h : r.faults ≠ []) :
    verdict grace trigger r = .shuttingDown := by
  have hf : r.faults.isEmpty = false := by simpa using h
  simp [verdict, hf]

theorem complete_of_fault (h : t.report.faults ≠ []) : Complete t := fun hf => absurd hf h

theorem fault_ne_nil (r : Report) (fault : Fault) : (r.fault fault).faults ≠ [] := by
  simp [Report.fault]

/-- What a step of the owner keeps. -/
structure Kept (grace : Nat) (s : Shared) (t : Task) (s' : Shared) (t' : Task) : Prop where
  coherent : Coherent grace t'
  aligned : Aligned s'.pending
  trigger : t'.trigger = t.trigger
  shuttingDown : s.shuttingDown = true → s'.shuttingDown = true

theorem verdict_drain {trigger : ShutdownTrigger} (h : drains trigger = true) (forced : List String)
    (pending : Option PendingJoins) : verdict grace trigger ⟨true, forced, pending, []⟩ =
      .fromDrainResult (drainResult grace (forced ++ (pending.map PendingJoins.pendingNames).getD [])) := by
  cases trigger with
  | requested => rfl
  | natural => rfl
  | signalSetupFailed source => cases h

theorem Coherent.go (h : Coherent grace t) (hs : Aligned s.pending) (hstep : t.step grace s .go = some (s', t')) :
    Kept grace s t s' t' := by
  have hagrees := h.agrees
  unfold Agrees at hagrees
  simp only [Task.step] at hstep
  split at hstep
  · next hstage =>
    cases hstep
    rw [hstage] at hagrees
    exact ⟨⟨hagrees, h.aligned⟩, hs, rfl, fun _ => rfl⟩
  · next stuck hstage =>
    cases hstep
    rw [hstage] at hagrees
    exact ⟨⟨hagrees, h.aligned⟩, hs, rfl, fun hx => hx⟩
  · next stuck hstage =>
    split at hstep
    · cases hstep
      rw [hstage] at hagrees
      exact ⟨⟨hagrees, h.aligned⟩, hs, rfl, fun hx => hx⟩
    · cases hstep
  · next stuck hstage =>
    split at hstep
    · cases hstep
      rw [hstage] at hagrees
      exact ⟨⟨hagrees, h.aligned⟩, hs, rfl, fun hx => hx⟩
    · cases hstep
  · next stuck hstage =>
    cases hstep
    rw [hstage] at hagrees
    obtain ⟨hreport, hdrains⟩ := hagrees
    refine ⟨⟨⟨?_, fun _ _ _ => rfl⟩, fun p hp => ?_⟩, hs, rfl, fun hx => hx⟩
    · change _ = verdict grace t.trigger { t.report with pending := some s.pending }
      rw [hreport, verdict_drain hdrains]
      rfl
    · cases hp
      exact hs
  · cases hstep

theorem Coherent.fence (h : Coherent grace t) (hs : Aligned s.pending) {acknowledged : Bool}
    (hstep : t.step grace s (.fence acknowledged) = some (s', t')) : Kept grace s t s' t' := by
  have hagrees := h.agrees
  unfold Agrees at hagrees
  simp only [Task.step] at hstep
  split at hstep
  · next source hstage htrigger =>
    cases hstep
    rw [hstage] at hagrees
    refine ⟨⟨⟨?_, fun _ _ hd => ?_⟩, h.aligned⟩, hs, rfl, fun hx => hx⟩
    · change _ = verdict grace t.trigger { t.report with fence := acknowledged }
      rw [hagrees, htrigger]
      rfl
    · change drains t.trigger = true at hd
      rw [htrigger] at hd
      cases hd
  · next hstage hother =>
    cases hstep
    rw [hstage] at hagrees
    have hdrains : drains t.trigger = true := by
      cases ht : t.trigger with
      | requested => rfl
      | natural => rfl
      | signalSetupFailed source => exact absurd ht (hother source)
    cases acknowledged with
    | true => exact ⟨⟨⟨by rw [hagrees]; rfl, hdrains⟩, h.aligned⟩, hs, rfl, fun hx => hx⟩
    | false =>
        refine ⟨⟨⟨?_, fun _ hf => (nomatch hf)⟩, h.aligned⟩, hs, rfl, fun hx => hx⟩
        change _ = verdict grace t.trigger { t.report with fence := false }
        rw [hagrees]
        cases ht : t.trigger with
        | requested => rfl
        | natural => rfl
        | signalSetupFailed source => exact absurd ht (hother source)
  · cases hstep

theorem Coherent.claim (h : Coherent grace t) (hs : Aligned s.pending) {handles : List (TaskId × String)}
    (hstep : t.step grace s (.claim handles) = some (s', t')) : Kept grace s t s' t' := by
  have hagrees := h.agrees
  unfold Agrees at hagrees
  simp only [Task.step] at hstep
  split at hstep
  · next hstage =>
    cases hstep
    rw [hstage] at hagrees
    exact ⟨⟨hagrees, h.aligned⟩, hs.claimAll handles, rfl, fun hx => hx⟩
  · cases hstep

theorem Coherent.join (h : Coherent grace t) (hs : Aligned s.pending) {elapsed : Bool}
    (hstep : t.step grace s (.join elapsed) = some (s', t')) : Kept grace s t s' t' := by
  have hagrees := h.agrees
  unfold Agrees at hagrees
  simp only [Task.step] at hstep
  split at hstep
  · next id name handles stuck hstage =>
    rw [hstage] at hagrees
    split at hstep
    · cases hstep
      refine ⟨⟨⟨?_, hagrees.2⟩, h.aligned⟩, hs.dec id, rfl, fun hx => hx⟩
      change { t.report with forced := t.report.forced ++ [name] } = _
      rw [hagrees.1]
    · cases hstep
      exact ⟨⟨hagrees, h.aligned⟩, hs.dec id, rfl, fun hx => hx⟩
  · cases hstep

theorem Coherent.timeout (h : Coherent grace t) (hs : Aligned s.pending)
    (hstep : t.step grace s .timeout = some (s', t')) : Kept grace s t s' t' := by
  have hagrees := h.agrees
  unfold Agrees at hagrees
  simp only [Task.step] at hstep
  split at hstep
  · next stuck hstage =>
    cases hstep
    rw [hstage] at hagrees
    exact ⟨⟨hagrees, h.aligned⟩, hs, rfl, fun hx => hx⟩
  · next stuck hstage =>
    cases hstep
    rw [hstage] at hagrees
    exact ⟨⟨hagrees, h.aligned⟩, hs, rfl, fun hx => hx⟩
  · cases hstep

theorem nextPhase_shared (s : Shared) (phase : Phase) : (Task.nextPhase s phase).1.pending = s.pending ∧
    (Task.nextPhase s phase).1.shuttingDown = s.shuttingDown := by
  cases phase <;> exact ⟨rfl, rfl⟩

theorem Coherent.panic (h : Coherent grace t) (hs : Aligned s.pending) (hstep : t.step grace s .panic = some (s', t')) :
    Kept grace s t s' t' := by
  simp only [Task.step] at hstep
  split at hstep
  · cases hstep
    exact ⟨⟨fault_ne_nil _ _, h.aligned⟩, hs, rfl, fun hx => hx⟩
  · cases hstep
  · cases hstep
  · cases hstep
    refine ⟨⟨⟨?_, complete_of_fault (fault_ne_nil _ _)⟩, h.aligned⟩, hs, rfl, fun hx => hx⟩
    exact (verdict_fault (fault_ne_nil _ _)).symm

theorem Coherent.phase (h : Coherent grace t) (hs : Aligned s.pending) {result : PhaseResult}
    (hstep : t.step grace s (.phase result) = some (s', t')) : Kept grace s t s' t' := by
  have hagrees := h.agrees
  unfold Agrees at hagrees
  simp only [Task.step] at hstep
  split at hstep
  · next phase outcome clean hstage =>
    rw [hstage] at hagrees
    obtain ⟨hlocal, hcomplete⟩ := hagrees
    obtain ⟨hpending, hshut⟩ := nextPhase_shared s phase
    have hs' : Aligned (Task.nextPhase s phase).1.pending := hpending ▸ hs
    have hshut' : s.shuttingDown = true → (Task.nextPhase s phase).1.shuttingDown = true := fun hx => hshut.trans hx
    generalize Task.nextPhase s phase = next at hstep hs' hshut'
    split at hstep
    · by_cases hclean : result = .clean
      · rw [if_pos hclean, decide_eq_true hclean, Bool.and_true] at hstep
        obtain ⟨shared, next⟩ := next
        cases next with
        | some next =>
            cases hstep
            exact ⟨⟨⟨hlocal, hcomplete⟩, h.aligned⟩, hs', rfl, hshut'⟩
        | none =>
            cases hstep
            refine ⟨⟨⟨?_, hcomplete⟩, h.aligned⟩, hs', rfl, hshut'⟩
            cases clean with
            | true => exact hlocal
            | false => exact (verdict_fault hlocal).symm
      · rw [if_neg hclean, decide_eq_false hclean, Bool.and_false] at hstep
        have hfault := fault_ne_nil t.report (.phase phase)
        obtain ⟨shared, next⟩ := next
        cases next with
        | some next =>
            cases hstep
            exact ⟨⟨⟨hfault, complete_of_fault hfault⟩, h.aligned⟩, hs', rfl, hshut'⟩
        | none =>
            cases hstep
            exact ⟨⟨⟨(verdict_fault hfault).symm, complete_of_fault hfault⟩, h.aligned⟩, hs', rfl, hshut'⟩
    · cases hstep
  · next phase hstage =>
    rw [hstage] at hagrees
    obtain ⟨hpending, hshut⟩ := nextPhase_shared s phase
    have hs' : Aligned (Task.nextPhase s phase).1.pending := hpending ▸ hs
    have hshut' : s.shuttingDown = true → (Task.nextPhase s phase).1.shuttingDown = true := fun hx => hshut.trans hx
    generalize Task.nextPhase s phase = next at hstep hs' hshut'
    split at hstep
    · obtain ⟨shared, next⟩ := next
      cases next with
      | some next =>
          cases hstep
          exact ⟨⟨hagrees, h.aligned⟩, hs', rfl, hshut'⟩
      | none =>
          cases hstep
          exact ⟨⟨⟨(verdict_fault hagrees).symm, complete_of_fault hagrees⟩, h.aligned⟩, hs', rfl, hshut'⟩
    · cases hstep
  · cases hstep

theorem Coherent.step (h : Coherent grace t) (hs : Aligned s.pending) {answer : Answer}
    (hstep : t.step grace s answer = some (s', t')) : Kept grace s t s' t' := by
  cases answer with
  | go => exact h.go hs hstep
  | fence acknowledged => exact h.fence hs hstep
  | claim handles => exact h.claim hs hstep
  | join elapsed => exact h.join hs hstep
  | timeout => exact h.timeout hs hstep
  | phase result => exact h.phase hs hstep
  | panic => exact h.panic hs hstep

/-- The report behind a published outcome. -/
structure Settled (trigger : ShutdownTrigger) (r : Report) : Prop where
  aligned : ∀ p, r.pending = some p → Aligned p
  complete : r.faults = [] → r.fence = true → drains trigger = true → r.pending.isSome = true

theorem Coherent.settled (h : Coherent grace t) {outcome : ShutdownOutcome} (hstage : t.stage = .publish outcome) :
    outcome = verdict grace t.trigger t.report ∧ Settled t.trigger t.report := by
  have hagrees := h.agrees
  unfold Agrees at hagrees
  rw [hstage] at hagrees
  exact ⟨hagrees.1, h.aligned, hagrees.2⟩

theorem fromDrainResult_completed (stuck : List String) :
    ShutdownOutcome.fromDrainResult (drainResult grace stuck) = .completed ↔ stuck = [] := by
  cases stuck with
  | nil => exact ⟨fun _ => rfl, fun _ => rfl⟩
  | cons name stuck => exact ⟨fun h => (nomatch h), fun h => (nomatch h)⟩

theorem Settled.completed_iff {trigger : ShutdownTrigger} {r : Report} (h : Settled trigger r) (hd : drains trigger = true) :
    verdict grace trigger r = .completed ↔
      r.forced = [] ∧ (∃ p, r.pending = some p ∧ p.isEmpty = true) ∧ r.fence = true ∧ r.faults = [] := by
  obtain ⟨fence, forced, pending, faults⟩ := r
  cases faults with
  | cons fault faults =>
      rw [verdict_fault (by simp)]
      exact ⟨fun he => (nomatch he), fun he => (nomatch he.2.2.2)⟩
  | nil =>
      cases fence with
      | false =>
          have hv : verdict grace trigger ⟨false, forced, pending, []⟩ = .shuttingDown := by
            cases trigger with
            | requested => rfl
            | natural => rfl
            | signalSetupFailed source => cases hd
          rw [hv]
          exact ⟨fun he => (nomatch he), fun he => (nomatch he.2.2.1)⟩
      | true =>
          obtain ⟨p, rfl⟩ := Option.isSome_iff_exists.mp (h.complete rfl rfl hd)
          have hp := (h.aligned p rfl).pendingNames_eq_nil
          rw [verdict_drain hd, fromDrainResult_completed, Option.map_some, Option.getD_some, List.append_eq_nil_iff, hp]
          simp

end Taskvisor.Shutdown.Tail
