import Taskvisor.Registry.Reach

namespace Taskvisor.Registry.Growth

open Lib Runtime.Base Reaper State Listener Steps Entries Reach

variable {cfg : RegistryConfig} {w w' : World} {a : World.Action} {c c' : Core} {id : TaskId} {key : Nat} {kind : OwnerKind}

/-- No completed latch is taken back. -/
structure Latches (c c' : Core) : Prop where
  logical : c.logical ⊆ c'.logical
  physical : c.physical ⊆ c'.physical

theorem Latches.refl (c : Core) : Latches c c := ⟨fun _ hl => hl, fun _ hl => hl⟩

theorem Latches.trans {c'' : Core} (h : Latches c c') (h' : Latches c' c'') : Latches c c'' :=
  ⟨fun _ hl => h'.logical (h.logical hl), fun _ hl => h'.physical (h.physical hl)⟩

theorem Latches.same (hlogical : c'.logical = c.logical) (hphysical : c'.physical = c.physical) : Latches c c' :=
  ⟨hlogical ▸ fun _ hl => hl, hphysical ▸ fun _ hl => hl⟩

theorem applyEffect_latches (c : Core) (effect : Effect) : Latches c (c.applyEffect effect) := by
  cases effect with
  | uncount => exact .same rfl rfl
  | physical completion => exact ⟨fun _ hl => hl, List.subset_append_left _ _⟩

theorem claim_latches {claimant : Claimant} (h : c.claimRegistered id kind claimant = some (key, c')) : Latches c c' := by
  unfold Core.claimRegistered at h
  split at h
  · cases h
  · split at h
    · cases h
    · cases h; exact .same rfl rfl

theorem claimAll_latches (kind : OwnerKind) (ids : List TaskId) : Latches c (c.claimAll kind ids) :=
  claimAll_keeps (P := Latches c) ids (.refl c) fun _ _ _ _ hd hc => hd.trans (claim_latches hc)

theorem launch_latches (key : Nat) (kind : OwnerKind) : Latches c (c.launch key kind) := by
  unfold Core.launch
  split
  · split <;> exact .same rfl rfl
  · exact .refl c

theorem launchAll_latches (kind : OwnerKind) : Latches c (World.launchAll c kind) :=
  launchAll_keeps (P := Latches c) (.refl c) (fun _ _ hd => hd.trans (.same rfl rfl))
    fun _ key hd => hd.trans (launch_latches key kind)

theorem advance_latches {o : Owner} (h : c.advance key o = some c') : Latches c c' := by
  unfold Core.advance at h
  split at h
  · cases h
  · obtain ⟨outcome, -, rfl⟩ := Option.map_eq_some_iff.mp h
    exact .same rfl rfl
  · cases h; exact .same rfl rfl
  · cases h
    unfold Core.requestAbort
    split <;> exact .same rfl rfl
  · cases h; exact .same rfl rfl
  · cases h
    unfold Core.commit
    split <;> exact .same rfl rfl
  · cases h; exact .same rfl rfl
  · cases h; exact .same rfl rfl
  · next effect _ _ _ _ => cases h; exact (applyEffect_latches c effect).trans (.same rfl rfl)
  · cases h; exact .same rfl rfl
  · cases h
    refine ⟨?_, fun _ hl => hl⟩
    rw [List.append_assoc]
    exact List.subset_append_left _ _

theorem stepOwner_latches {action : Core.OwnerAction} (h : c.stepOwner key action = some c') : Latches c c' := by
  unfold Core.stepOwner at h
  split at h
  · cases h
  · next o hk =>
    cases action with
    | advance => exact advance_latches h
    | abort =>
        simp only at h
        split at h
        · cases h
          unfold Core.abort
          split <;> exact .same rfl rfl
        · cases h
    | drop =>
        simp only [Core.dropCommit] at h
        split at h
        · split at h
          · cases h
          · cases h; exact .same rfl rfl
        · cases h

theorem stepReap_latches {poisoned : Bool} (h : c.stepReap key poisoned = some c') : Latches c c' := by
  unfold Core.stepReap at h
  split at h
  · cases h
  · split at h
    · split at h
      · cases h; exact .same rfl rfl
      · cases h
    · next effect effects _ => cases h; exact (applyEffect_latches c effect).trans (.same rfl rfl)
    · cases h; exact .same rfl rfl

theorem stepActor_latches {action : Core.ActorAction} (h : c.stepActor id action = some c') : Latches c c' := by
  obtain ⟨old, new, -, rfl⟩ := stepActor_put h
  exact .same rfl rfl

theorem insertAll_latches (items : List PreparedRegistration) : Latches c (c.insertAll items) := by
  induction items generalizing c with
  | nil => exact .refl c
  | cons item items ih =>
      have hone : Latches c (c.insertEntry item) := .same rfl rfl
      exact hone.trans ih

theorem openGate_latches (items : List PreparedRegistration) : Latches c (items.foldl Core.openGate c) := by
  induction items generalizing c with
  | nil => exact .refl c
  | cons item items ih =>
      have hone : Latches c (c.openGate item) := by
        unfold Core.openGate
        split
        · split <;> exact .same rfl rfl
        · exact .refl c
      exact hone.trans ih

/-- What was sent, received, replied and completed stays so. -/
structure Grown (w w' : World) : Prop where
  sent : w.sent <+: w'.sent
  taken : w.taken <+: w'.taken
  replies : w.replies <+: w'.replies
  latches : Latches w.core w'.core

theorem Grown.same (hsent : w'.sent = w.sent) (htaken : w'.taken = w.taken) (hreplies : w'.replies = w.replies)
    (h : Latches w.core w'.core) : Grown w w' :=
  ⟨hsent ▸ List.prefix_rfl, htaken ▸ List.prefix_rfl, hreplies ▸ List.prefix_rfl, h⟩

theorem work_grown {job : Job} (hs : Worked w job w') : Grown w w' := by
  have hreply {v : World} (d : Decision) (hsent : v.sent = w.sent) (htaken : v.taken = w.taken)
      (hreplies : v.replies = w.replies ++ [d]) (h : Latches w.core v.core) : Grown w v :=
    ⟨hsent ▸ List.prefix_rfl, htaken ▸ List.prefix_rfl, hreplies ▸ List.prefix_append _ _, h⟩
  cases hs with
  | reject job reply batch dones error _ _ => exact hreply _ rfl rfl rfl (.refl _)
  | insert reg => exact .same rfl rfl rfl (insertAll_latches _)
  | accept reg => exact hreply _ rfl rfl rfl (.refl _)
  | openGate reg => exact .same rfl rfl rfl (openGate_latches _)
  | lose job target d => exact hreply d rfl rfl rfl (.refl _)
  | win job target d id key core _ _ hclaim _ => exact .same rfl rfl rfl (claim_latches hclaim)
  | cancelToken key d =>
      obtain ⟨reply, target, answer⟩ := d
      cases target <;> exact .same rfl rfl rfl (.same rfl rfl)
  | reply key d => exact hreply d rfl rfl rfl (.refl _)
  | launch key d => exact .same rfl rfl rfl (launch_latches key .detached)
  | signal id key core hclaim => exact .same rfl rfl rfl (claim_latches hclaim)
  | ready key => exact .same rfl rfl rfl (launch_latches key .inline)
  | unready key => exact .same rfl rfl rfl (launch_latches key .detached)
  | _ => exact .same rfl rfl rfl (.same rfl rfl)

theorem listen_grown (hs : Listened w w') : Grown w w' := by
  cases hs with
  | command command rest mode _ _ => exact ⟨List.prefix_rfl, List.prefix_append _ _, List.prefix_rfl, .refl _⟩
  | claim => exact .same rfl rfl rfl (claimAll_latches (.shutdown true) _)
  | cancel => exact .same rfl rfl rfl (launchAll_latches (.shutdown true))
  | _ => exact .same rfl rfl rfl (.refl _)

theorem step_grown (hs : Stepped cfg w a w') : Grown w w' := by
  cases hs with
  | call key caller v hk hcall =>
      cases hcall with
      | sent todo permits htodo => exact ⟨List.prefix_append _ _, List.prefix_rfl, List.prefix_rfl, .refl _⟩
      | _ => exact .same rfl rfl rfl (.refl _)
  | shutdownStep instr todo v htodo hstep =>
      cases shutdownStep_cases hstep with
      | claim => exact .same rfl rfl rfl (claimAll_latches (.shutdown false) _)
      | cancel => exact .same rfl rfl rfl (launchAll_latches (.shutdown false))
      | _ => exact .same rfl rfl rfl (.refl _)
  | listen branch v hjob hlisten => exact listen_grown hlisten
  | work job v hjob hwork => exact work_grown hwork
  | owner key action o core ho hfree hcore => exact .same rfl rfl rfl (stepOwner_latches hcore)
  | reap key poisoned core hcore => exact .same rfl rfl rfl (stepReap_latches hcore)
  | actor id action core completions hcore => exact .same rfl rfl rfl (stepActor_latches hcore)
  | _ => exact .same rfl rfl rfl (.refl _)

/-- Only a call before its send extends the queue. -/
theorem sent_step (hs : Stepped cfg w a w') : w'.sent = w.sent ∨ ∃ key caller todo, a = .call key ∧
    w.callers.lookup key = some caller ∧ caller.todo = .send :: todo ∧
    w'.sent = w.sent ++ [caller.call.command key w.nextLatch] := by
  cases hs with
  | call key caller v hk hcall =>
      cases hcall with
      | sent todo permits htodo => exact .inr ⟨key, caller, todo, rfl, hk, htodo, rfl⟩
      | _ => exact .inl rfl
  | shutdownStep instr todo v htodo hstep => cases shutdownStep_cases hstep <;> exact .inl rfl
  | listen branch v hjob hlisten => cases hlisten <;> exact .inl rfl
  | work job v hjob hwork => exact .inl hwork.frame.sent
  | _ => exact .inl rfl

/-- A call that stands at its send sends. -/
theorem sends {caller : Caller} {todo : List Instr} (hk : w.callers.lookup key = some caller)
    (htodo : caller.todo = .send :: todo) (hs : Stepped cfg w (.call key) w') :
    w'.sent = w.sent ++ [caller.call.command key w.nextLatch] := by
  cases hs with
  | call _ found v hk' hcall =>
      obtain rfl := Option.some.inj (hk.symm.trans hk')
      cases hcall with
      | sent todo permits => rfl
      | ended permits hx =>
          rcases hx with hx | ⟨instr, rest, hx, hsend, -⟩
          · cases htodo.symm.trans hx
          · exact absurd (List.head_eq_of_cons_eq (hx.symm.trans htodo)) hsend
      | moved instr rest permit permits hx _ hsend =>
          exact absurd (List.head_eq_of_cons_eq (hx.symm.trans htodo)) hsend
      | entered rest hx => cases htodo.symm.trans hx
      | left rest hx => cases htodo.symm.trans hx

/-- A call is begun once and then does its statements in order. -/
theorem callers_step (hs : Stepped cfg w a w') {k : Nat} {caller : Caller} (hk : w'.callers.lookup k = some caller) :
    (∃ old, w.callers.lookup k = some old ∧ caller.call = old.call ∧ caller.todo <:+ old.todo) ∨
      a = .begin caller.call ∧ k = w.nextCaller := by
  have hsame {v : World} (he : v.callers = w.callers) (hc : v.callers.lookup k = some caller) :
      ∃ old, w.callers.lookup k = some old ∧ caller.call = old.call ∧ caller.todo <:+ old.todo :=
    ⟨caller, he ▸ hc, rfl, List.suffix_rfl⟩
  cases hs with
  | begin call hnodup hfresh =>
      obtain ⟨he, rfl⟩ | ⟨-, ho⟩ := Table.of_lookup_insert hk
      · exact .inr ⟨rfl, he⟩
      · exact .inl (hsame (v := w) rfl ho)
  | call key old v ho hcall =>
      rcases hcall.callers hk with ⟨-, hc⟩ | ⟨rfl, hcall, instr, htodo⟩
      · exact .inl (hsame (v := w) rfl hc)
      · exact .inl ⟨old, ho, hcall, htodo ▸ List.suffix_cons _ _⟩
  | giveUp key old permits ho _ => exact .inl (hsame (v := w) rfl (Table.of_lookup_erase hk).2)
  | shutdownStep instr todo v htodo hstep => cases shutdownStep_cases hstep <;> exact .inl (hsame rfl hk)
  | listen branch v hjob hlisten => cases hlisten <;> exact .inl (hsame rfl hk)
  | work job v hjob hwork => exact .inl (hsame hwork.frame.callers hk)
  | _ => exact .inl (hsame rfl hk)

end Taskvisor.Registry.Growth
