import Taskvisor.Registry.Reach

namespace Taskvisor.Registry.Drain

open Lib Runtime.Base Reaper State Listener Steps Gate Entries Fence Reach

variable {cfg : RegistryConfig} {w w' : World} {a : World.Action}

/-- Every command sent has its own reply. -/
def Answered (w : World) : Prop :=
  w.commands = [] ∧ (w.sent.map RegistryCommand.reply).Nodup ∧
    w.replies.map Decision.reply = w.sent.map RegistryCommand.reply

theorem answered_of_drained (h : Steady w) (hd : w.acks ≠ [] ∨ emptied w.mode = true) : Answered w := by
  obtain ⟨hempty, hjob⟩ := h.fenced.drained hd
  refine ⟨hempty, h.numbered.once, ?_⟩
  have hnone : w.job.bind unanswered = none := by
    cases hj : w.job with
    | none => rfl
    | some job =>
        have hc := hjob job hj
        cases job <;> first | rfl | cases hc
  have hall := h.fenced.answered
  rw [owed, hnone, Option.toList_none, List.append_nil] at hall
  rw [hall, h.fenced.order, hempty, List.append_nil]

/-- Once the flag is stored, the flag stays and nothing is sent. -/
theorem marked_step (h : Steady w) (hf : w.shuttingDown = true) (hs : Stepped cfg w a w') :
    w'.shuttingDown = true ∧ w'.sent = w.sent := by
  cases hs with
  | call key caller v hk hcall =>
      cases hcall with
      | sent todo permits htodo => exact absurd (h.gated.at_send hk htodo).1 (h.gated.exclusive hf key)
      | _ => exact ⟨hf, rfl⟩
  | shutdownStep instr todo v htodo hstep =>
      cases shutdownStep_cases hstep with
      | store => exact ⟨rfl, rfl⟩
      | _ => exact ⟨hf, rfl⟩
  | listen branch v hjob hlisten => cases hlisten <;> exact ⟨hf, rfl⟩
  | work job v hjob hwork => exact ⟨hwork.frame.shuttingDown.trans hf, hwork.frame.sent⟩
  | _ => exact ⟨hf, rfl⟩

theorem acks_step (hs : Stepped cfg w a w') (hack : w.acks ≠ []) : w'.acks ≠ [] := by
  cases hs with
  | call key caller v hk hcall => cases hcall <;> exact hack
  | shutdownStep instr todo v htodo hstep => cases shutdownStep_cases hstep <;> exact hack
  | listen branch v hjob hlisten =>
      cases hlisten with
      | ack fence mode => exact List.append_ne_nil_of_left_ne_nil hack _
      | _ => exact hack
  | work job v hjob hwork => rw [hwork.frame.acks]; exact hack
  | _ => exact hack

/-- After an acknowledged fence entries only progress. -/
theorem fenced_step (h : Steady w) (hack : w.acks ≠ []) (hs : Stepped cfg w a w') : Recedes w.core w'.core := by
  rcases step_recedes hs with hr | ⟨reg, hjob, -⟩
  · exact hr
  · cases (h.fenced.drained (.inl hack)).2 _ hjob

/-- No entry is ever added in a run from an acknowledged fence. -/
theorem fenced_run (h : (machine cfg).Reachable w) (hack : w.acks ≠ []) {run : List World.Action}
    (hrun : (machine cfg).after w run = some w') :
    w'.core.born = w.core.born ∧ ∀ id, (w'.core.tasks.lookup id).isSome → (w.core.tasks.lookup id).isSome := by
  let kept (v : World) : Prop :=
    v.acks ≠ [] ∧ v.core.born = w.core.born ∧ ∀ id, (v.core.tasks.lookup id).isSome → (w.core.tasks.lookup id).isSome
  have hkept : kept w' := by
    refine h.keeps (P := kept) ⟨hack, rfl, fun _ hid => hid⟩ (fun v a v' hv hk hstep => ?_) hrun
    have hs := step_cases hstep
    have hr := fenced_step (steady_of_reachable hv) hk.1 hs
    exact ⟨acks_step hs hk.1, hr.born.trans hk.2.1, fun id hid => hk.2.2 id ((hr.entry id).present hid)⟩
  exact hkept.2

theorem marked_run (h : (machine cfg).Reachable w) (hf : w.shuttingDown = true) {run : List World.Action}
    (hrun : (machine cfg).after w run = some w') : w'.shuttingDown = true ∧ w'.sent = w.sent := by
  let kept (v : World) : Prop := v.shuttingDown = true ∧ v.sent = w.sent
  refine h.keeps (P := kept) ⟨hf, rfl⟩ (fun v a v' hv hk hstep => ?_) hrun
  obtain ⟨hflag, hsent⟩ := marked_step (steady_of_reachable hv) hk.1 (step_cases hstep)
  exact ⟨hflag, hsent.trans hk.2⟩

/-- After an acknowledged fence no entry becomes registered again. -/
theorem unregistered_run (h : (machine cfg).Reachable w) (hack : w.acks ≠ []) (hnone : ∀ id, ¬ isRegistered w.core id)
    {run : List World.Action} (hrun : (machine cfg).after w run = some w') : ∀ id, ¬ isRegistered w'.core id := by
  let kept (v : World) : Prop := v.acks ≠ [] ∧ ∀ id, ¬ isRegistered v.core id
  have hkept : kept w' := by
    refine h.keeps (P := kept) ⟨hack, hnone⟩ (fun v a v' hv hk hstep => ?_) hrun
    have hs := step_cases hstep
    have hr := fenced_step (steady_of_reachable hv) hk.1 hs
    refine ⟨acks_step hs hk.1, fun id hreg => ?_⟩
    obtain ⟨name, handle, he⟩ := hreg
    exact hk.2 id ⟨name, handle, (hr.entry id).registered he⟩
  exact hkept.2

/-- The claims of `cancel_all_within`: every entry that is registered then has
its handle with the shutdown owner. -/
def ClaimsAll (w w' : World) : Prop :=
  ∀ id name handle, w.core.tasks.lookup id = some ⟨name, .registered handle⟩ →
    w'.core.tasks.lookup id = some ⟨name, .removing handle.completion⟩ ∧ (id, .shutdown) ∈ w'.core.claims ∧
      ∃ key, w'.core.owners.lookup key = some ⟨id, .shutdown false, handle.done, handle.completion, .claimed⟩

theorem claim_step (h : Steady w) {todo : List ShutdownInstr} (hs : w.shutdownStep .claim todo = some w') :
    ClaimsAll w w' ∧ w'.acks = w.acks ∧ ∀ id, ¬ isRegistered w'.core id := by
  simp only [World.shutdownStep] at hs
  split at hs
  · cases hs
  · cases hs
    refine ⟨fun id name handle he => ?_, rfl, claimAll_complete (.shutdown false)⟩
    have hk : id ∈ w.core.tasks.keys := Table.mem_keys_iff.mpr ⟨_, he⟩
    refine ⟨?_, claimAll_owner (.shutdown false) _ hk he h.settled.sound.ownerKeys⟩
    change (w.core.claimAll _ _).tasks.lookup id = _
    rw [claimAll_lookup, if_pos hk, he]
    rfl

theorem shutdown_fence (h : (machine cfg).Reachable w) :
    (w.acks ≠ [] → Answered w) ∧ (w.mode = .exited → Answered w) ∧
    (∀ todo, w.shutdown = some todo → unmarked todo = false → w.shuttingDown = true) ∧
    (w.shuttingDown = true → ∀ run w', (machine cfg).after w run = some w' → w'.sent = w.sent) ∧
    (w.acks ≠ [] → ∀ run w', (machine cfg).after w run = some w' →
      w'.core.born = w.core.born ∧ ∀ id, (w'.core.tasks.lookup id).isSome → (w.core.tasks.lookup id).isSome) ∧
    ∀ todo, w.shutdown = some (.claim :: todo) → w.acks ≠ [] ∧
      ∀ w', w.step cfg .shutdownStep = some w' → ClaimsAll w w' ∧
        ∀ run w'', (machine cfg).after w' run = some w'' → ∀ id, ¬ isRegistered w''.core id := by
  have hsteady := steady_of_reachable h
  refine ⟨fun hack => answered_of_drained hsteady (.inl hack), fun hm => answered_of_drained hsteady (.inr (by rw [hm]; rfl)),
    fun todo ht hu => ?_, fun hf run w' hrun => (marked_run h hf hrun).2, fun hack run w' hrun => fenced_run h hack hrun,
    fun todo ht => ?_⟩
  · rcases hsteady.gated.unmarked todo ht with hf | hx
    · exact hf
    · rw [hu] at hx; cases hx
  · have hack : w.acks ≠ [] := (hsteady.fenced.claims _ ht).resolve_right fun hx => nomatch hx
    refine ⟨hack, fun w' hs => ?_⟩
    have hstep : w.shutdownStep .claim todo = some w' := by
      simpa only [World.step, ht] using hs
    obtain ⟨hall, hacks, hnone⟩ := claim_step hsteady hstep
    exact ⟨hall, fun run w'' hrun => unregistered_run (.next .shutdownStep h hs) (hacks ▸ hack) hnone hrun⟩

/-- A drain up to its acknowledged fence. -/
def fenceRun : List World.Action :=
  .shutdown .drain :: List.replicate 7 .shutdownStep ++ [.listen .control, .listen .control, .listen .control, .shutdownStep]

theorem shutdown_fence_registered :
    ∃ w w', (machine smallConfig).after World.new (addRun ++ fenceRun) = some w ∧ Answered w ∧
      w.step smallConfig .shutdownStep = some w' ∧ isRegistered w.core 1 ∧ ClaimsAll w w' ∧
        ∀ id, ¬ isRegistered w'.core id := by
  obtain ⟨w, hw, hp⟩ := (Option.any_eq_true (fun w : World => decide (w.acks = [0] ∧
      w.shutdown = some [.claim, .cancel, .join, .cancelRuntime] ∧
      w.core.tasks.lookup 1 = some ⟨"a", .registered ⟨some 10, 0⟩⟩) && (w.step smallConfig .shutdownStep).isSome) _).mp
    (show (Machine.after (machine smallConfig) World.new (addRun ++ fenceRun)).any _ = true by decide +kernel)
  obtain ⟨hp, hstep⟩ := Bool.and_eq_true_iff.mp hp
  obtain ⟨hack, hshut, hentry⟩ := of_decide_eq_true hp
  obtain ⟨w', hw'⟩ := Option.isSome_iff_exists.mp hstep
  have hne : w.acks ≠ [] := by
    rw [hack]
    exact List.cons_ne_nil _ _
  obtain ⟨hall, -, -, -, -, hclaim⟩ := shutdown_fence (Machine.Reachable.after .init hw)
  obtain ⟨hclaims, hgone⟩ := (hclaim _ hshut).2 w' hw'
  exact ⟨w, w', hw, hall hne, hw', ⟨"a", ⟨some 10, 0⟩, hentry⟩, hclaims, hgone [] w' rfl⟩

end Taskvisor.Registry.Drain
