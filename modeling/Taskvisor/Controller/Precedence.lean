import Taskvisor.Controller.Parity
import Taskvisor.Controller.Tenure
import Taskvisor.Lib.Split

namespace Taskvisor.Controller.Precedence

open Lib Runtime.Base Slot State Admission Abstract Bridge Coherence Refinement Driver Index Tracking Notices Parity Tenure

variable {cfg : ControllerConfig} {w w' : World} {a : Action} {e e' : Engine} {obs : Observed} {id : TaskId}
  {operation : IdentityOperation} {reply : IdentityReply} {reason : Option String}

/-- The submission of the identity entered the queue before the identity command
of this reply. -/
def Precedes (log : List ControllerCommand) (id : TaskId) (reply : IdentityReply) : Prop :=
  Splits (fun before command => (∃ operation, command = .manageIdentity id operation reply) ∧
    id ∈ (submissions before).map Submission.id) log

theorem keyed {before : List ControllerCommand} {command : ControllerCommand}
    (h : (∃ operation, command = .manageIdentity id operation reply) ∧ id ∈ (submissions before).map Submission.id) :
    identityReply? command = some reply := by
  obtain ⟨⟨operation, rfl⟩, -⟩ := h
  rfl

theorem Precedes.logged {log : List ControllerCommand} (h : Precedes log id reply) :
    id ∈ (submissions log).map Submission.id := by
  obtain ⟨before, command, after, rfl, -, hid⟩ := h
  rw [submissions, List.filterMap_append, List.map_append]
  exact List.mem_append_left _ hid

theorem mem_replies {log : List ControllerCommand} (h : .manageIdentity id operation reply ∈ log) :
    reply ∈ log.filterMap identityReply? := mem_keys h rfl

section Removal

theorem not_waiting (hroute : route e id = none) : (board e).queued id = none ∧ (board e).capacity id = none := by
  rw [route] at hroute
  split at hroute
  · cases hroute
  · next hnone => exact ⟨Option.map_eq_none_iff.mp hroute, hnone⟩

/-- Whom the lookup does not find does not wait anywhere. -/
theorem not_removed (h : Coherent (board e)) (hopen : obs.shutdown 1 = false)
    (hr : removeQueuedSubmission cfg obs e id reason = (false, e')) : e' = e ∧ route e id = none := by
  cases hroute : route e id with
  | none =>
      simp only [removeQueuedSubmission, hroute] at hr
      exact ⟨(Prod.mk.inj hr).2.symm, rfl⟩
  | some found =>
      obtain ⟨name, capacity⟩ := found
      simp only [removeQueuedSubmission, hroute] at hr
      rcases route_cases h hroute with ⟨entry, slot, rfl, hentry, rfl, -, hslot, hu⟩ | ⟨slot, rfl, hnone, hslot, hid⟩
      · simp only [hslot, removeRouted, hopen, Bool.false_eq_true, if_false, claimCapacityPending_eq hentry] at hr
        cases (Prod.mk.inj hr).1
      · obtain ⟨removed, hfind, -⟩ := find_queued hid
        simp only [hslot, removeRouted, hopen, Bool.false_eq_true, if_false, claimCapacityPending, hnone, hfind] at hr
        cases (Prod.mk.inj hr).1

theorem rejected_grown {more : List Event} (h : e'.published = e.published ++ more) : rejectedIds e ⊆ rejectedIds e' := by
  have hboard : (board e').rejected = (board e).rejected ++ more.filterMap rejection? := by
    change e'.published.filterMap rejection? = e.published.filterMap rejection? ++ _
    rw [h, List.filterMap_append]
  rw [rejectedIds, rejectedIds, hboard, List.map_append]
  exact List.subset_append_left _ _

theorem rejected_noted {e₀ : Engine} (h : Noted e₀ (desk e)) : rejectedIds e₀ ⊆ rejectedIds e := by
  obtain ⟨more, -, he⟩ := h.published
  exact rejected_grown he

theorem rejectParked_mem (b : Board) (id : TaskId) (kind : RejectionKind) (reason : String) :
    id ∈ ((b.rejectParked id kind reason).rejected).map Prod.fst := by
  change id ∈ (b.rejected ++ [(id, kind, reason)]).map Prod.fst
  simp

/-- Who is removed from the queue has had its rejection. -/
theorem removed_rejected (h : Coherent (board e)) (hr : removeQueuedSubmission cfg obs e id reason = (true, e')) :
    id ∈ rejectedIds e' := by
  cases hroute : route e id with
  | none =>
      simp only [removeQueuedSubmission, hroute] at hr
      cases (Prod.mk.inj hr).1
  | some found =>
      obtain ⟨name, capacity⟩ := found
      simp only [removeQueuedSubmission, hroute] at hr
      by_cases hopen : obs.shutdown 1 = true
      · rcases route_cases h hroute with ⟨entry, slot, -, -, -, -, hslot, -⟩ | ⟨slot, -, -, hslot, -⟩
        · simp only [hslot, removeRouted, hopen, if_true] at hr
          cases (Prod.mk.inj hr).1
        · simp only [hslot, removeRouted, hopen, if_true] at hr
          cases (Prod.mk.inj hr).1
      rcases route_cases h hroute with ⟨entry, slot, rfl, hentry, rfl, -, hslot, hu⟩ | ⟨slot, rfl, hnone, hslot, hid⟩
      · simp only [hslot, removeRouted, hopen, Bool.false_eq_true, if_false, claimCapacityPending_eq hentry] at hr
        obtain rfl := (Prod.mk.inj hr).2
        refine rejected_noted ((Noted.refl _).settle cfg obs _ entry.slotName _) ?_
        rw [rejectedIds, board_rejectRemoved]
        exact rejectParked_mem ..
      · obtain ⟨removed, hfind, -⟩ := find_queued hid
        simp only [hslot, removeRouted, hopen, Bool.false_eq_true, if_false, claimCapacityPending, hnone, hfind] at hr
        obtain rfl := (Prod.mk.inj hr).2
        refine rejected_noted ((Noted.refl _).gcIfIdle name _) ?_
        rw [rejectedIds, board_publishFinalize]
        exact rejectParked_mem ..

end Removal

section Loop

theorem rejected_step (hstep : World.step cfg w a = some w') : rejectedIds w.engine ⊆ rejectedIds w'.engine := by
  obtain ⟨more, -, he⟩ := published_step hstep
  exact rejected_grown he

/-- The queue is the rest of its history, and neither an identity nor a reply
comes twice. -/
structure Ordered (w : World) : Prop where
  queue : w.commands <:+ w.log
  replies : (w.log.filterMap identityReply?).Nodup
  submitted : ((submissions w.log).map Submission.id).Nodup

theorem Ordered.init (cfg : ControllerConfig) : Ordered (World.new cfg) where
  queue := List.suffix_rfl
  replies := List.nodup_nil
  submitted := List.nodup_nil

theorem Ordered.issue (h : Ordered w) (command : ControllerCommand) (hfresh : fresh w.log command = true) :
    Ordered (w.issue command) where
  queue := by
    obtain ⟨done, hdone⟩ := h.queue
    refine ⟨done, ?_⟩
    change done ++ (w.commands ++ [command]) = w.log ++ [command]
    rw [← List.append_assoc, hdone]
  replies := by
    change ((w.log ++ [command]).filterMap identityReply?).Nodup
    rw [List.filterMap_append]
    cases command with
    | submit sub =>
        rw [show [ControllerCommand.submit sub].filterMap identityReply? = [] from rfl, List.append_nil]
        exact h.replies
    | manageIdentity id operation reply =>
        have hnew : reply ∉ w.log.filterMap identityReply? := of_decide_eq_true hfresh
        exact List.nodup_append.mpr ⟨h.replies, List.nodup_singleton _, fun x hx y hy he =>
          hnew (List.mem_singleton.mp hy ▸ he ▸ hx)⟩
  submitted := by
    change ((submissions (w.log ++ [command])).map Submission.id).Nodup
    rw [submissions_snoc, List.map_append]
    cases command with
    | manageIdentity id operation reply => simpa [submission?] using h.submitted
    | submit sub =>
        have hnew := of_decide_eq_true hfresh
        refine List.nodup_append.mpr ⟨h.submitted, List.nodup_singleton _, fun x hx y hy he => ?_⟩
        obtain ⟨old, hold, rfl⟩ := List.mem_map.mp hx
        exact (hnew old hold).1 (he.trans (List.mem_singleton.mp hy))

theorem Ordered.rest (h : Ordered w) {command : ControllerCommand} {rest : List ControllerCommand}
    (hcommands : w.commands = command :: rest) (e : Engine) : Ordered { w with commands := rest, engine := e } where
  queue := (hcommands ▸ List.suffix_cons command rest : rest <:+ w.commands).trans h.queue
  replies := h.replies
  submitted := h.submitted

theorem ordered_of_reachable (hw : (machine cfg).Reachable w) : Ordered w := by
  refine hw.invariant (Ordered.init cfg) fun w a w' hw h hstep => ?_
  by_cases hphase : w.phase = .looping
  · cases (sane_of_reachable hw hphase).turn hphase (fun id _ => trivial) hstep with
    | sent command hfresh => exact h.issue command hfresh
    | submitted hcommands => exact h.rest hcommands _
    | managed hcommands => exact h.rest hcommands _
    | resolved | stopped => exact ⟨h.queue, h.replies, h.submitted⟩
  · cases step_wind hphase hstep with
    | sent command hdrain hfresh => exact h.issue command hfresh
    | drained obs hdrain hcommands => exact h.rest hcommands _
    | finalized | finished => exact ⟨h.queue, h.replies, h.submitted⟩

/-- An identity submitted before the command of this reply has gone to the
registry or has been rejected. -/
def Passed (w : World) (id : TaskId) (reply : IdentityReply) : Prop :=
  Precedes w.log id reply → id ∈ w.engine.handed.map Handoff.id ∨ id ∈ rejectedIds w.engine

theorem Precedes.restrict (h : Precedes w'.log id reply) (hw' : Ordered w') (hlog : w.log <+: w'.log)
    (hm : reply ∈ w.log.filterMap identityReply?) : Precedes w.log id reply :=
  Splits.restrict h hlog hw'.replies (fun _ _ hr => keyed hr) hm

theorem Passed.step (h : Passed w id reply) (hw : (machine cfg).Reachable w)
    (hm : reply ∈ w.log.filterMap identityReply?) (hstep : World.step cfg w a = some w') : Passed w' id reply := by
  intro hp
  have hlog := log_prefix hstep
  have hhanded := handed_prefix hw hstep
  have hold := hp.restrict (ordered_of_reachable (.next a hw hstep)) hlog hm
  refine (h hold).imp (fun hid => ?_) fun hid => rejected_step hstep hid
  obtain ⟨handoff, hin, rfl⟩ := List.mem_map.mp hid
  exact List.mem_map_of_mem (hhanded.subset hin)

/-- When its command is handled, what was submitted before it has been handled,
and what waits nowhere has passed. -/
theorem passed_of_absent (hw : (machine cfg).Reachable w) {rest : List ControllerCommand}
    (hcommands : w.commands = .manageIdentity id operation reply :: rest) (hroute : route w.engine id = none) :
    Passed w id reply := by
  intro hp
  have hord := ordered_of_reachable hw
  have hrep := reported_of_reachable hw
  obtain ⟨done, hdone⟩ := hord.queue
  have hreplies := hord.replies
  have hsubmitted := hord.submitted
  rw [Precedes, ← hdone, hcommands] at hp
  rw [← hdone, hcommands] at hreplies
  obtain ⟨-, hid⟩ := Splits.at hp hreplies (fun _ _ hr => keyed hr) rfl
  obtain ⟨sub, hsub, rfl⟩ := List.mem_map.mp hid
  have hlog : submissions w.log = submissions done ++ submissions w.commands := by
    rw [← hdone, submissions, List.filterMap_append]
    rfl
  rw [hlog, List.map_append, List.nodup_append] at hsubmitted
  obtain ⟨hq, hc⟩ := not_waiting hroute
  rcases hrep.placed sub (hlog ▸ List.mem_append_left _ hsub) with hin | hn | hn | hh | hr
  · exact absurd rfl (hsubmitted.2.2 sub.id hid sub.id (List.mem_map_of_mem hin))
  · exact absurd hq hn
  · exact absurd hc hn
  · exact .inl hh
  · exact .inr hr

/-- Identity operations are those of commands, and what was submitted before
their commands has passed. -/
def Vouched (w : World) : Prop :=
  ∀ op ∈ w.engine.operations.identityOperations, .manageIdentity op.1 op.2.1 op.2.2 ∈ w.log ∧ Passed w op.1 op.2.2

/-- The shutdown flag is not cleared between two reads. -/
def Marked : Action → Prop
  | .command obs _ => obs.shutdown 2 = false → obs.shutdown 1 = false
  | _ => True

theorem Vouched.keep (h : Vouched w) (hw : (machine cfg).Reachable w) (hstep : World.step cfg w a = some w')
    {op : TaskId × IdentityOperation × IdentityReply} (hop : op ∈ w.engine.operations.identityOperations) :
    .manageIdentity op.1 op.2.1 op.2.2 ∈ w'.log ∧ Passed w' op.1 op.2.2 := by
  obtain ⟨hm, hpassed⟩ := h op hop
  have hlog := log_prefix hstep
  exact ⟨hlog.subset hm, hpassed.step hw (mem_replies hm) hstep⟩

theorem Vouched.step (h : Vouched w) (hw : (machine cfg).Reachable w) (hmarked : Marked a)
    (hstep : World.step cfg w a = some w') : Vouched w' := by
  intro op hop
  cases step_filed hstep with
  | noted hnoted =>
      have hsame : w'.engine.operations.identityOperations = _ := hnoted.identityOperations
      exact h.keep hw hstep (hsame ▸ hop)
  | @managed obs cut id operation reply rest e hphase hcommands hmanaged =>
      have hremove := (Noted.refl w.engine).removeQueuedSubmission cfg obs id operation.requestReason
      cases hmanaged with
      | refused e error hnoted =>
          have hsame : e.operations.identityOperations = _ := hnoted.identityOperations
          exact h.keep hw hstep (hsame ▸ hop)
      | removed e hr =>
          rw [hr] at hremove
          have hsame : e.operations.identityOperations = _ := hremove.identityOperations
          exact h.keep hw hstep (hsame ▸ hop)
      | tracked e hr hopen =>
          obtain ⟨rfl, hroute⟩ := not_removed (sane_of_reachable hw hphase).coherent (hmarked hopen) hr
          rcases List.mem_append.mp hop with hop | hop
          · exact h.keep hw hstep hop
          · obtain rfl := List.mem_singleton.mp hop
            have hm : .manageIdentity id operation reply ∈ w.log :=
              (ordered_of_reachable hw).queue.subset (hcommands ▸ List.mem_cons_self)
            exact ⟨hm, (passed_of_absent hw hcommands hroute).step hw (mem_replies hm) hstep⟩
  | resulted op result hin => exact h.keep hw hstep (List.mem_of_mem_erase hop)
  | stopped => cases hop
  | drained obs id operation reply rest => exact h.keep hw hstep hop

/-- An identity operation succeeds with the removal of a waiting submission or
with what its registry call returned. -/
theorem replied_step (hw : (machine cfg).Reachable w) (hstep : World.step cfg w a = some w') {claimed : Bool}
    (h : (reply, .ok claimed) ∈ w'.engine.replied) : (reply, .ok claimed) ∈ w.engine.replied ∨
      (∃ id operation, .manageIdentity id operation reply ∈ w.log ∧ id ∈ rejectedIds w'.engine) ∨
      ∃ op ∈ w.engine.operations.identityOperations, a = .identityResult op (.ok claimed) ∧ op.2.2 = reply := by
  have hmore {e : Engine} {target : IdentityReply} {result : Except RuntimeError Bool}
      (hm : (reply, .ok claimed) ∈ (e.reply target result).replied) :
      (reply, .ok claimed) ∈ e.replied ∨ target = reply ∧ result = .ok claimed := by
    refine (List.mem_append.mp hm).imp_right fun hm => ?_
    obtain ⟨rfl, rfl⟩ := Prod.mk.inj (List.mem_singleton.mp hm)
    exact ⟨rfl, rfl⟩
  cases step_filed hstep with
  | noted hnoted =>
      have hsame : w'.engine.replied = _ := hnoted.replied
      exact .inl (hsame ▸ h)
  | @managed obs cut id operation target rest e hphase hcommands hmanaged =>
      have hremove := (Noted.refl w.engine).removeQueuedSubmission cfg obs id operation.requestReason
      cases hmanaged with
      | refused e error hnoted =>
          have hsame : e.replied = _ := hnoted.replied
          rcases hmore h with hold | ⟨-, hx⟩
          · exact .inl (hsame ▸ hold)
          · cases hx
      | removed e hr =>
          have hid := removed_rejected (sane_of_reachable hw hphase).coherent hr
          rw [hr] at hremove
          have hsame : e.replied = _ := hremove.replied
          rcases hmore h with hold | ⟨rfl, -⟩
          · exact .inl (hsame ▸ hold)
          · exact .inr (.inl ⟨id, operation,
              (ordered_of_reachable hw).queue.subset (hcommands ▸ List.mem_cons_self), hid⟩)
      | tracked e hr hopen =>
          rw [hr] at hremove
          have hsame : e.replied = _ := hremove.replied
          exact .inl (hsame ▸ h)
  | resulted op result hop =>
      rcases hmore h with hold | ⟨rfl, rfl⟩
      · exact .inl hold
      · exact .inr (.inr ⟨op, hop, rfl, rfl⟩)
  | stopped =>
      rcases List.mem_append.mp h with hold | hm
      · exact .inl hold
      · obtain ⟨op, -, he⟩ := List.mem_map.mp hm
        cases (Prod.mk.inj he).2
  | drained obs id operation target rest =>
      rcases hmore h with hold | ⟨-, hx⟩
      · exact .inl hold
      · cases hx

end Loop

end Taskvisor.Controller.Precedence
