import Taskvisor.Controller.Notices
import Taskvisor.Controller.Precedence

namespace Taskvisor.Controller.Replies

open Lib Runtime.Base Slot State Admission Driver Refinement Notices Outcomes Index Tracking Precedence

variable {cfg : ControllerConfig} {w w' : World} {a : Action} {reply : IdentityReply} {e : Engine}
  {op : TaskId × IdentityOperation × IdentityReply}

/-- The replies of the identity commands in the queue. -/
def waiting (w : World) : List IdentityReply := w.commands.filterMap identityReply?

/-- The replies of the operations the loop polls. -/
def tracked (e : Engine) : List IdentityReply := e.operations.identityOperations.map fun op => op.2.2

/-- The replies that were used. -/
def answered (e : Engine) : List IdentityReply := e.replied.map Prod.fst

/-- Every place where a reply can be. -/
def places (w : World) : List IdentityReply := waiting w ++ (tracked w.engine ++ answered w.engine)

/-- What an operation answers. -/
def answersTo (e : Engine) (reply : IdentityReply) : List (Except RuntimeError Bool) :=
  (e.replied.filter fun entry => decide (entry.1 = reply)).map Prod.snd

theorem answersTo_length (e : Engine) (reply : IdentityReply) :
    (answersTo e reply).length = (answered e).count reply := by
  rw [answersTo, answered, List.length_map, ← List.countP_eq_length_filter, List.count, List.countP_map]
  rfl

theorem mem_answersTo {result : Except RuntimeError Bool} :
    result ∈ answersTo e reply ↔ (reply, result) ∈ e.replied := by
  constructor
  · intro h
    obtain ⟨⟨r, x⟩, hm, rfl⟩ := List.mem_map.mp h
    obtain ⟨hin, hr⟩ := List.mem_filter.mp hm
    obtain rfl := of_decide_eq_true hr
    exact hin
  · exact fun h => List.mem_map.mpr ⟨_, List.mem_filter.mpr ⟨h, decide_eq_true rfl⟩, rfl⟩

section Steps

/-- The desk is left alone. -/
structure Idle (e e' : Engine) : Prop where
  tracked : e'.operations.identityOperations = e.operations.identityOperations
  replied : e'.replied = e.replied

theorem idle_of_noted (h : Noted e (desk w'.engine)) : Idle e w'.engine := ⟨h.identityOperations, h.replied⟩

/-- How one step moves the replies. -/
inductive Moved (w : World) (a : Action) (w' : World) : Prop
  | sent (command : ControllerCommand) (hcommands : w'.commands = w.commands ++ [command])
      (hlog : w'.log = w.log ++ [command]) (hphase : w'.phase = w.phase) (h : Idle w.engine w'.engine)
  | passed (hwaiting : waiting w' = waiting w) (hlog : w'.log = w.log)
      (hphase : w'.phase = .looping → w.phase = .looping) (hstay : w.phase = .looping → w'.phase = .looping)
      (h : Idle w.engine w'.engine)
  | replied (reply : IdentityReply) (result : Except RuntimeError Bool) (hwaiting : waiting w = reply :: waiting w')
      (hresult : ∀ claimed, result = .ok claimed → claimed = true)
      (hlog : w'.log = w.log) (hphase : w'.phase = w.phase)
      (htracked : w'.engine.operations.identityOperations = w.engine.operations.identityOperations)
      (hreplied : w'.engine.replied = w.engine.replied ++ [(reply, result)])
  | tracked (op : TaskId × IdentityOperation × IdentityReply) (hwaiting : waiting w = op.2.2 :: waiting w')
      (hlog : w'.log = w.log) (hphase : w.phase = .looping) (hphase' : w'.phase = .looping)
      (htracked : w'.engine.operations.identityOperations = w.engine.operations.identityOperations ++ [op])
      (hreplied : w'.engine.replied = w.engine.replied)
  | resulted (op : TaskId × IdentityOperation × IdentityReply) (result : Except RuntimeError Bool)
      (ha : a = .identityResult op result) (hop : op ∈ w.engine.operations.identityOperations)
      (hwaiting : waiting w' = waiting w) (hlog : w'.log = w.log)
      (hphase : w.phase = .looping) (hphase' : w'.phase = .looping)
      (htracked : w'.engine.operations.identityOperations = w.engine.operations.identityOperations.erase op)
      (hreplied : w'.engine.replied = w.engine.replied ++ [(op.2.2, result)])
  | stopped (hwaiting : waiting w' = waiting w) (hlog : w'.log = w.log)
      (htracked : w'.engine.operations.identityOperations = [])
      (hreplied : w'.engine.replied = w.engine.replied ++
        w.engine.operations.identityOperations.map fun op => (op.2.2, .error .shuttingDown))

/-- A step of the loop that leaves queue and desk alone. -/
theorem moved_loop (hstep : w.looping e = some w') (h : Noted w.engine (desk e)) : Moved w a w' := by
  have hphase := looping_phase hstep
  obtain rfl := looping_eq hstep
  exact .passed rfl rfl (fun _ => hphase) (fun h => h) ⟨h.identityOperations, h.replied⟩

theorem waiting_cons {command : ControllerCommand} {rest : List ControllerCommand} (h : w.commands = command :: rest) :
    waiting w = (identityReply? command).toList ++ rest.filterMap identityReply? := by
  rw [waiting, h]
  cases command <;> rfl

theorem step_moved (hstep : World.step cfg w a = some w') : Moved w a w' := by
  have h := Noted.refl w.engine
  cases a with
  | send command =>
      simp only [World.step] at hstep
      split at hstep
      · obtain rfl := Option.some.inj hstep
        exact .sent command rfl rfl rfl ⟨rfl, rfl⟩
      · cases hstep
  | command obs cut =>
      cases hcommands : w.commands with
      | nil => simp [World.step, hcommands] at hstep
      | cons command rest =>
          simp only [World.step, hcommands] at hstep
          have hphase : w.phase = .looping := looping_phase (w := { w with commands := rest }) hstep
          obtain rfl := looping_eq hstep
          have hwaiting := waiting_cons hcommands
          cases command with
          | submit sub =>
              have hnoted := h.handleSubmission cfg obs cut sub
              exact .passed hwaiting.symm rfl (fun _ => hphase) (fun h => h) ⟨hnoted.identityOperations, hnoted.replied⟩
          | manageIdentity id operation reply =>
              have hmanaged := handleIdentityOperation_cases cfg obs w.engine id operation reply
              have hremove := h.removeQueuedSubmission cfg obs id operation.requestReason
              simp only [handleControllerCommand]
              generalize handleIdentityOperation cfg obs w.engine id operation reply = e at hmanaged
              cases hmanaged with
              | refused e error hnoted =>
                  exact .replied reply _ hwaiting (fun _ hx => by cases hx) rfl rfl hnoted.identityOperations
                    (congrArg (· ++ [(reply, _)]) hnoted.replied)
              | removed e hr =>
                  rw [hr] at hremove
                  exact .replied reply _ hwaiting (fun _ hx => by cases hx; rfl) rfl rfl hremove.identityOperations
                    (congrArg (· ++ [(reply, _)]) hremove.replied)
              | tracked e hr hopen =>
                  rw [hr] at hremove
                  exact .tracked (id, operation, reply) hwaiting rfl hphase hphase
                    (congrArg (· ++ [(id, operation, reply)]) hremove.identityOperations) hremove.replied
  | capacityResult obs decision =>
      simp only [World.step] at hstep
      split at hstep
      · cases hstep
      · next id pump hnext =>
        exact moved_loop hstep (Noted.handleRegistryCapacityResult (e := w.engine.setPump pump) h ..)
  | admissionResult obs id slotName accepted =>
      simp only [World.step] at hstep
      split at hstep
      · exact moved_loop hstep (Noted.handleAdmissionResult (e := World.dropAdmission w.engine id slotName) h ..)
      · cases hstep
  | completionResult obs id slotName =>
      simp only [World.step] at hstep
      split at hstep
      · exact moved_loop hstep (Noted.handleCompletionResult (e := World.dropCompletion w.engine id slotName) h ..)
      · cases hstep
  | removalResult id slotName decision =>
      simp only [World.step] at hstep
      split at hstep
      · exact moved_loop hstep (Noted.handleRemovalResult (e := World.dropRemoval w.engine id slotName) h ..)
      · cases hstep
  | identityResult op result =>
      simp only [World.step] at hstep
      split at hstep
      · next hop =>
        have hphase := looping_phase hstep
        obtain rfl := looping_eq hstep
        exact .resulted op result rfl hop rfl rfl hphase hphase rfl rfl
      · cases hstep
  | stop =>
      simp only [World.step] at hstep
      split at hstep
      · obtain rfl := Option.some.inj hstep
        exact .stopped rfl rfl rfl rfl
      · cases hstep
  | drain obs =>
      simp only [World.step] at hstep
      split at hstep
      · next command rest hphase hcommands =>
        obtain rfl := Option.some.inj hstep
        have hwaiting := waiting_cons hcommands
        cases command with
        | submit sub =>
            have hnoted := h.drainSubmission obs sub
            exact .passed hwaiting.symm rfl (fun hp => hp) (fun h => h) ⟨hnoted.identityOperations, hnoted.replied⟩
        | manageIdentity id operation reply => exact .replied reply _ hwaiting (fun _ hx => by cases hx) rfl rfl rfl rfl
      · cases hstep
  | finalize obs =>
      simp only [World.step] at hstep
      split at hstep
      · next hphase _ =>
        obtain rfl := Option.some.inj hstep
        have hnoted := h.finalizeSlotStateOnShutdown obs
        exact .passed rfl rfl (fun hp => by cases hp) (fun hp => by cases hp.symm.trans hphase)
          ⟨hnoted.identityOperations, hnoted.replied⟩
      · cases hstep
  | finish obs =>
      simp only [World.step] at hstep
      split at hstep
      · next hphase =>
        obtain rfl := Option.some.inj hstep
        have hnoted := h.finalizeSlotStateOnShutdown obs
        exact .passed rfl rfl (fun hp => by cases hp) (fun hp => by cases hp.symm.trans hphase)
          ⟨hnoted.identityOperations, hnoted.replied⟩
      · cases hstep

end Steps

/-- Every reply that entered the queue is in exactly one place. -/
structure Served (w : World) : Prop where
  conserved : (places w).Perm (w.log.filterMap identityReply?)
  closed : w.phase ≠ .looping → w.engine.operations.identityOperations = []

theorem Served.init (cfg : ControllerConfig) : Served (World.new cfg) := ⟨List.Perm.refl _, fun h => absurd rfl h⟩

theorem conserved_step (h : (places w).Perm (w.log.filterMap identityReply?)) (hs : Moved w a w') :
    (places w').Perm (w'.log.filterMap identityReply?) := by
  unfold places at h ⊢
  cases hs with
  | sent command hcommands hlog hphase hidle =>
      have hwaiting : waiting w' = waiting w ++ [command].filterMap identityReply? := by
        rw [waiting, hcommands, List.filterMap_append]
        rfl
      rw [hwaiting, hlog, List.filterMap_append, tracked, hidle.tracked, answered, hidle.replied]
      refine List.Perm.trans ?_ (h.append_right _)
      rw [List.append_assoc, List.append_assoc]
      exact List.perm_append_comm.append_left _
  | passed hwaiting hlog hphase hstay hidle =>
      rw [hwaiting, hlog, tracked, hidle.tracked, answered, hidle.replied]
      exact h
  | replied reply result hwaiting hresult hlog hphase htracked hreplied =>
      have hanswered : answered w'.engine = answered w.engine ++ [reply] := by
        rw [answered, hreplied, List.map_append]
        rfl
      rw [hwaiting] at h
      rw [hlog, tracked, htracked, hanswered]
      refine List.Perm.trans ?_ h
      rw [← List.append_assoc, ← List.append_assoc, List.cons_append]
      refine (List.perm_append_singleton _ _).trans ((List.Perm.of_eq ?_).cons _)
      exact List.append_assoc _ _ _
  | tracked op hwaiting hlog hphase hphase' htracked hreplied =>
      have hops : tracked w'.engine = tracked w.engine ++ [op.2.2] := by
        rw [tracked, htracked, List.map_append]
        rfl
      rw [hwaiting] at h
      rw [hlog, hops, answered, hreplied]
      refine List.Perm.trans ?_ h
      rw [List.append_assoc, List.cons_append]
      have hmiddle : (tracked w.engine ++ op.2.2 :: answered w.engine).Perm (op.2.2 :: (tracked w.engine ++ answered w.engine)) :=
        List.perm_middle
      exact (hmiddle.append_left _).trans List.perm_middle
  | resulted op result ha hop hwaiting hlog hphase hphase' htracked hreplied =>
      have hops : (tracked w.engine).Perm (op.2.2 :: tracked w'.engine) := by
        rw [tracked, tracked, htracked]
        exact (List.perm_cons_erase hop).map _
      have hanswered : answered w'.engine = answered w.engine ++ [op.2.2] := by
        rw [answered, hreplied, List.map_append]
        rfl
      rw [hwaiting, hlog, hanswered]
      refine List.Perm.trans (List.Perm.append_left _ ?_) h
      refine List.Perm.trans ?_ (hops.symm.append_right _)
      rw [← List.append_assoc]
      exact List.perm_append_singleton _ _
  | stopped hwaiting hlog htracked hreplied =>
      have hanswered : answered w'.engine = answered w.engine ++ tracked w.engine := by
        rw [answered, hreplied, List.map_append, List.map_map]
        rfl
      rw [hwaiting, hlog, tracked, htracked, hanswered, List.map_nil, List.nil_append]
      exact (List.perm_append_comm.append_left _).trans h

theorem Served.step (h : Served w) (hs : Moved w a w') : Served w' := by
  refine ⟨conserved_step h.conserved hs, fun hphase => ?_⟩
  cases hs with
  | sent command _ _ hsame hidle => exact hidle.tracked.trans (h.closed (hsame ▸ hphase))
  | passed _ _ _ hstay hidle => exact hidle.tracked.trans (h.closed fun hp => hphase (hstay hp))
  | replied _ _ _ _ _ hsame htracked => exact htracked.trans (h.closed (hsame ▸ hphase))
  | tracked _ _ _ _ hphase' | resulted _ _ _ _ _ _ _ hphase' => exact absurd hphase' hphase
  | stopped _ _ htracked => exact htracked

theorem served_of_reachable (hw : (machine cfg).Reachable w) : Served w :=
  hw.invariant (Served.init cfg) fun _ _ _ _ h hstep => h.step (step_moved hstep)

theorem places_nodup (hw : (machine cfg).Reachable w) : (places w).Nodup :=
  (served_of_reachable hw).conserved.nodup_iff.mpr (ordered_of_reachable hw).replies

/-- A reply is used at most once. -/
theorem answersTo_le (hw : (machine cfg).Reachable w) (reply : IdentityReply) : (answersTo w.engine reply).length ≤ 1 := by
  have hnodup := places_nodup hw
  rw [places, List.nodup_append, List.nodup_append] at hnodup
  rw [answersTo_length]
  exact List.nodup_iff_count_le_one.mp hnodup.2.1.2.1 reply

/-- Where a success comes from. -/
theorem ok_step (hw : (machine cfg).Reachable w) (hstep : World.step cfg w a = some w') {claimed : Bool}
    (h : (reply, .ok claimed) ∈ w'.engine.replied) : (reply, .ok claimed) ∈ w.engine.replied ∨
      (claimed = true ∧ ∃ id operation, .manageIdentity id operation reply ∈ w.log ∧ id ∈ rejectedIds w'.engine) ∨
      ∃ op ∈ w.engine.operations.identityOperations, a = .identityResult op (.ok claimed) ∧ op.2.2 = reply := by
  rcases replied_step hw hstep h with hold | hremoved | hresulted
  · exact .inl hold
  · cases step_moved hstep with
    | sent _ _ _ _ hidle | passed _ _ _ _ hidle => exact .inl (hidle.replied ▸ h)
    | replied target result hwaiting hresult hlog hphase htracked hreplied =>
        rw [hreplied, List.mem_append] at h
        refine h.imp_right fun hm => .inl ⟨?_, hremoved⟩
        exact hresult claimed (Prod.mk.inj (List.mem_singleton.mp hm)).2.symm
    | tracked _ _ _ _ _ _ hreplied => exact .inl (hreplied ▸ h)
    | resulted op result ha hop hwaiting hlog hphase hphase' htracked hreplied =>
        rw [hreplied, List.mem_append] at h
        refine h.imp_right fun hm => .inr ⟨op, hop, ?_⟩
        obtain ⟨rfl, rfl⟩ := Prod.mk.inj (List.mem_singleton.mp hm)
        exact ⟨ha, rfl⟩
    | stopped _ _ _ hreplied =>
        rw [hreplied, List.mem_append] at h
        refine h.imp_right fun hm => ?_
        obtain ⟨op, -, he⟩ := List.mem_map.mp hm
        cases (Prod.mk.inj he).2
  · exact .inr (.inr hresulted)

theorem placed (hw : (machine cfg).Reachable w) (h : reply ∈ w.log.filterMap identityReply?) :
    reply ∈ waiting w ∨ reply ∈ tracked w.engine ∨ reply ∈ answered w.engine := by
  have hm := (served_of_reachable hw).conserved.mem_iff.mpr h
  exact (List.mem_append.mp hm).imp_right List.mem_append.mp

end Taskvisor.Controller.Replies
