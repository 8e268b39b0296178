import Taskvisor.Controller.Replies
import Taskvisor.System.Cancellation

namespace Taskvisor.System.Management

open Lib Runtime.Base Controller Controller.State Controller.Index Controller.Tracking Controller.Precedence Controller.Tenure
  Controller.Replies Registry Registry.Growth Registry.Reach Composed Receipts Slots Cancellation
open Registry.Listener (RegistryConfig Reply)

variable {cfg : ControllerConfig} {limits : RegistryConfig} {w w' : World} {a : Action} {r r' : Listener.World}
  {id : TaskId} {operation : IdentityOperation} {reply : IdentityReply} {key : Reply} {claimed : Bool}

/-- Where the reply of an identity command is, with what was sent through it. -/
inductive Standing (w : World) (id : TaskId) (operation : IdentityOperation) (reply : IdentityReply) :
    List (Except RuntimeError Bool) → Prop
  | queued (h : .manageIdentity id operation reply ∈ w.controller.commands) : Standing w id operation reply []
  | tracked (h : (id, operation, reply) ∈ w.controller.engine.operations.identityOperations) :
      Standing w id operation reply []
  | refused (error : RuntimeError) : Standing w id operation reply [.error error]
  | removed (h : id ∈ rejectedIds w.controller.engine) : Standing w id operation reply [.ok true]
  | concluded (key : Reply) (claimed : Bool) (hcall : (reply, key) ∈ w.calls)
      (h : concluded w.registry key = some claimed) : Standing w id operation reply [.ok claimed]

section Grounded

theorem concluded_grown (h : Grown r r') (hc : concluded r key = some claimed) : concluded r' key = some claimed := by
  cases hr : replyOf r key with
  | none => rw [concluded, hr] at hc; cases hc
  | some answer =>
      rw [concluded, hr] at hc
      rw [concluded, replyOf_grown h hr]
      cases answer with
      | add result => cases hc
      | remove b => exact hc
      | cancel decision =>
          cases decision with
          | none => exact hc
          | some d =>
              simp only at hc ⊢
              split at hc
              · next hl => rw [if_pos (h.latches.logical hl)]; exact hc
              · cases hc

/-- A success has its ground in the controller or in the registry. -/
def Ground (w : World) (reply : IdentityReply) (claimed : Bool) : Prop :=
  (claimed = true ∧ ∃ id operation, .manageIdentity id operation reply ∈ w.controller.log ∧
      id ∈ rejectedIds w.controller.engine) ∨
    ∃ key, (reply, key) ∈ w.calls ∧ concluded w.registry key = some claimed

def Grounded (w : World) : Prop :=
  ∀ reply claimed, (reply, .ok claimed) ∈ w.controller.engine.replied → Ground w reply claimed

theorem Ground.controller (h : Ground w reply claimed) {b : Driver.Action} {c : Driver.World}
    (hstep : w.controller.step cfg b = some c) (outbox : List Handoff) :
    Ground { w with controller := c, outbox } reply claimed := by
  refine h.imp_left fun ⟨hclaimed, id, operation, hlog, hid⟩ => ⟨hclaimed, id, operation, ?_, rejected_step hstep hid⟩
  have hgrown := log_prefix hstep
  exact hgrown.subset hlog

theorem Ground.registry (h : Ground w reply claimed) (hgrown : Grown w.registry r) (outbox : List Handoff)
    {calls : List (IdentityReply × Reply)} (hcalls : w.calls ⊆ calls) :
    Ground { w with registry := r, outbox, calls } reply claimed :=
  h.imp_right fun ⟨key, hcall, hc⟩ => ⟨key, hcalls hcall, concluded_grown hgrown hc⟩

theorem Grounded.step (h : Grounded w) (hw : (machine cfg limits).Reachable w) (hs : Stepped cfg limits w a w') :
    Grounded w' := by
  intro reply claimed hm
  cases hs with
  | controller b c hidle hheard hstep =>
      rcases ok_step (controller_of_reachable hw) hstep hm with hold | ⟨hclaimed, id, operation, hlog, hid⟩ | ⟨op, -, rfl, rfl⟩
      · exact (h reply claimed hold).controller hstep _
      · have hgrown := log_prefix hstep
        exact .inl ⟨hclaimed, id, operation, hgrown.subset hlog, hid⟩
      · obtain ⟨call, hcall, hp⟩ := List.any_eq_true.mp hheard
        obtain ⟨hreply, hconcluded⟩ := of_decide_eq_true hp
        exact .inr ⟨call.2, hreply ▸ hcall, hconcluded⟩
  | commit key handoff outbox caller r houtbox hcaller hcommits hstep =>
      exact (h reply claimed hm).registry (step_grown (Steps.step_cases hstep)) _ (fun _ hx => hx)
  | manage op r hidle hop hnew hstep =>
      exact (h reply claimed hm).registry (step_grown (Steps.step_cases hstep)) _ (List.subset_append_left _ _)
  | registry b r hunaided hstep =>
      exact (h reply claimed hm).registry (step_grown (Steps.step_cases hstep)) _ (fun _ hx => hx)

theorem grounded_of_reachable (hw : (machine cfg limits).Reachable w) : Grounded w :=
  hw.invariant (fun _ _ hm => by cases hm) fun _ _ _ hv h hstep => h.step hv (step_cases hstep)

end Grounded

section Answered

variable (hw : (machine cfg limits).Reachable w) (hcommand : .manageIdentity id operation reply ∈ w.controller.log)

include hw hcommand

theorem command_of_reply {command : ControllerCommand} (hm : command ∈ w.controller.log)
    (hr : Driver.identityReply? command = some reply) : command = .manageIdentity id operation reply :=
  eq_of_key (ordered_of_reachable (controller_of_reachable hw)).replies hm hcommand hr rfl

theorem standing : Standing w id operation reply (answersTo w.controller.engine reply) := by
  have hc := controller_of_reachable hw
  have hle := answersTo_le hc reply
  have hnodup := places_nodup hc
  have hnone (h : reply ∉ answered w.controller.engine) : answersTo w.controller.engine reply = [] := by
    rw [← List.length_eq_zero_iff, answersTo_length]
    exact List.count_eq_zero.mpr h
  rw [places, List.nodup_append] at hnodup
  obtain ⟨-, hrest, hqueue⟩ := hnodup
  rcases placed hc (mem_replies hcommand) with hm | hm | hm
  · rw [hnone fun hx => hqueue reply hm reply (List.mem_append_right _ hx) rfl]
    obtain ⟨command, hin, hr⟩ := List.mem_filterMap.mp hm
    have hlog := (ordered_of_reachable hc).queue.subset hin
    exact .queued (command_of_reply hw hcommand hlog hr ▸ hin)
  · rw [hnone fun hx => (List.nodup_append.mp hrest).2.2 reply hm reply hx rfl]
    obtain ⟨op, hop, hr⟩ := List.mem_map.mp hm
    obtain ⟨hin, -⟩ := (watched_of_reachable hw).vouched op hop
    have hsame := command_of_reply hw hcommand hin (congrArg some hr)
    obtain ⟨hid, hoperation, -⟩ := ControllerCommand.manageIdentity.inj hsame
    refine .tracked ?_
    rw [← hid, ← hoperation, ← hr]
    exact hop
  · obtain ⟨⟨r, result⟩, hin, rfl⟩ := List.mem_map.mp hm
    rw [eq_singleton hle (mem_answersTo.mpr hin)]
    cases result with
    | error error => exact .refused error
    | ok claimed =>
        rcases grounded_of_reachable hw r claimed hin with ⟨rfl, found, op, hlog, hid⟩ | ⟨key, hcall, hconcluded⟩
        · have hsame := command_of_reply hw hcommand hlog rfl
          exact .removed ((ControllerCommand.manageIdentity.inj hsame).1 ▸ hid)
        · exact .concluded key claimed hcall hconcluded

end Answered

end Taskvisor.System.Management
