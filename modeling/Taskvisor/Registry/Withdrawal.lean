import Taskvisor.Lib.Split
import Taskvisor.Registry.Claims
import Taskvisor.Registry.Commitment
import Taskvisor.Registry.Drain
import Taskvisor.Registry.Growth

namespace Taskvisor.Registry.Withdrawal

open Lib Runtime.Base Reaper State Lifecycle Moves Names Listener Steps Entries Fence Identity Reach Claims Growth Drain

variable {cfg : RegistryConfig} {w w' : World} {a : World.Action} {c c' : Core} {id : TaskId} {key : Nat}
  {claimant : Claimant} {job : Job} {reply : Reply}

section Ended

def hasEnded : ActorPhase → Bool
  | .signalled | .exited => true
  | _ => false

/-- The actor has signalled its completion. -/
def Ended (c : Core) (id : TaskId) : Prop := ∃ actor, c.actors.lookup id = some actor ∧ hasEnded actor.phase = true

theorem stepActor_over {action : Core.ActorAction} (h : c.stepActor id action = some c')
    (ho : Ended c id ∨ action = .signal) : Ended c' id := by
  have hput (a : Actor) (ha : hasEnded a.phase = true) : Ended (c.putActor id a) id := ⟨a, AList.lookup_insert _, ha⟩
  unfold Core.stepActor at h
  split at h
  · cases h
  · next a ha =>
    have hphase (hnot : hasEnded a.phase = false) : action = .signal := by
      refine ho.resolve_left ?_
      rintro ⟨b, hb, hp⟩
      obtain rfl := Option.some.inj (ha.symm.trans hb)
      rw [hnot] at hp
      cases hp
    split at h
    · next hrunning => cases hphase (by rw [hrunning]; rfl)
    · cases h; exact hput _ rfl
    · cases h; exact hput _ rfl
    · next hgated => cases hphase (by rw [hgated]; rfl)
    · next hrunning => cases hphase (by rw [hrunning]; rfl)
    · cases h

theorem Ended.step (h : Ended w.core id) (hst : Steady w) (hs : Stepped cfg w a w') : Ended w'.core id := by
  obtain ⟨actor, ha, hp⟩ := h
  obtain ⟨actor', ha', hsame | hgated | ⟨action, -, hcore⟩⟩ := actor_step hst.settled hs ha
  · exact ⟨actor', ha', by rw [hsame]; exact hp⟩
  · rw [hgated] at hp
    cases hp
  · exact stepActor_over hcore (.inl ⟨actor, ha, hp⟩)

end Ended

section Claimed

theorem advance_claims {o : Owner} (h : c.advance key o = some c') : c'.claims = c.claims := by
  unfold Core.advance at h
  split at h
  · cases h
  · obtain ⟨outcome, -, rfl⟩ := Option.map_eq_some_iff.mp h
    rfl
  · cases h; rfl
  · cases h
    unfold Core.requestAbort
    split <;> rfl
  · cases h; rfl
  · cases h
    unfold Core.commit
    split <;> rfl
  · cases h; rfl
  · cases h; rfl
  · next effect _ _ _ _ => cases h; cases effect <;> rfl
  · cases h; rfl
  · cases h; rfl

theorem stepOwner_claims {action : Core.OwnerAction} (h : c.stepOwner key action = some c') : c'.claims = c.claims := by
  unfold Core.stepOwner at h
  split at h
  · cases h
  · next o hk =>
    cases action with
    | advance => exact advance_claims h
    | abort =>
        simp only at h
        split at h
        · cases h
          unfold Core.abort
          split <;> rfl
        · cases h
    | drop =>
        simp only [Core.dropCommit] at h
        split at h
        · split at h
          · cases h
          · cases h; rfl
        · cases h

theorem stepReap_claims {poisoned : Bool} (h : c.stepReap key poisoned = some c') : c'.claims = c.claims := by
  unfold Core.stepReap at h
  split at h
  · cases h
  · split at h
    · split at h
      · cases h; rfl
      · cases h
    · next effect effects _ => cases h; cases effect <;> rfl
    · cases h; rfl

theorem claim_claims {kind : OwnerKind} {i : TaskId} {k : Claimant} (h : c.claimRegistered i kind k = some (key, c'))
    (hc : (id, claimant) ∈ c'.claims) : (id, claimant) ∈ c.claims ∨ (id, claimant) = (i, k) ∧ isRegistered c id := by
  obtain ⟨name, handle, he, -, rfl⟩ := claimRegistered_eq h
  rcases List.mem_append.mp hc with hc | hc
  · exact .inl hc
  · obtain ⟨rfl, rfl⟩ := Prod.mk.inj (List.mem_singleton.mp hc)
    exact .inr ⟨rfl, name, handle, he⟩

theorem Recedes.registered (h : Recedes c c') (hr : isRegistered c' id) : isRegistered c id := by
  obtain ⟨name, handle, he⟩ := hr
  exact ⟨name, handle, (h.entry id).registered he⟩

/-- The loop of claims claims what was registered before it. -/
theorem claimAll_claims (kind : OwnerKind) (l : List TaskId) (hc : (id, claimant) ∈ (c.claimAll kind l).claims) :
    (id, claimant) ∈ c.claims ∨ isRegistered c id ∧ claimant = .shutdown := by
  let kept (d : Core) : Prop := (isRegistered d id → isRegistered c id) ∧
    ((id, claimant) ∈ d.claims → (id, claimant) ∈ c.claims ∨ isRegistered c id ∧ claimant = .shutdown)
  have hkept : kept (c.claimAll kind l) := by
    refine claimAll_keeps (P := kept) l ⟨fun hr => hr, .inl⟩ fun d d' i k hd hclaim => ?_
    refine ⟨fun hr => hd.1 (Recedes.registered (claim_recedes hclaim) hr), fun hc => ?_⟩
    rcases claim_claims hclaim hc with hc | ⟨he, hr⟩
    · exact hd.2 hc
    · exact .inr ⟨hd.1 hr, (Prod.mk.inj he).2⟩
  exact hkept.2 hc

/-- Only a registered entry is claimed, by a command, by the completion of its
actor or by a shutdown that has drained the queue. -/
theorem claimed_step (hst : Steady w) (hs : Stepped cfg w a w') (hc : (id, claimant) ∈ w'.core.claims) :
    (id, claimant) ∈ w.core.claims ∨ isRegistered w.core id ∧
      ((∃ key d, claimant = .command d.reply ∧ w'.job = some (.won key d .cancelling) ∧ d.target = some id) ∨
        claimant = .completion ∧ w.job = some (.completed id) ∨
        claimant = .shutdown ∧ (w.acks ≠ [] ∨ emptied w.mode = true)) := by
  cases hs with
  | call key caller v hk hcall => exact .inl (call_core hcall ▸ hc)
  | shutdownStep instr todo v htodo hstep =>
      cases shutdownStep_cases hstep with
      | claim =>
          have hack : w.acks ≠ [] := (hst.fenced.claims _ htodo).resolve_right fun hx => by cases hx
          rcases claimAll_claims (.shutdown false) _ hc with hc | ⟨hr, he⟩
          · exact .inl hc
          · exact .inr ⟨hr, .inr (.inr ⟨he, .inl hack⟩)⟩
      | cancel => exact .inl ((launchAll_unmoved (c := w.core) (.shutdown false)).claims ▸ hc)
      | _ => exact .inl hc
  | listen branch v hjob hlisten =>
      cases hlisten with
      | claim hmode =>
          rcases claimAll_claims (.shutdown true) _ hc with hc | ⟨hr, he⟩
          · exact .inl hc
          · exact .inr ⟨hr, .inr (.inr ⟨he, .inr (by rw [hmode]; rfl)⟩)⟩
      | cancel => exact .inl ((launchAll_unmoved (c := w.core) (.shutdown true)).claims ▸ hc)
      | _ => exact .inl hc
  | work job v hjob hwork =>
      cases hwork with
      | insert reg => exact .inl (insertAll_claims (c := w.core) reg.items ▸ hc)
      | openGate reg => exact .inl ((openGate_unmoved (c := w.core) reg.items).claims ▸ hc)
      | win job target d i key core hj htarget hclaim hd =>
          rcases claim_claims hclaim hc with hc | ⟨he, hr⟩
          · exact .inl hc
          · obtain ⟨rfl, rfl⟩ := Prod.mk.inj he
            exact .inr ⟨hr, .inl ⟨key, d, rfl, rfl, hd.1⟩⟩
      | cancelToken key d =>
          obtain ⟨reply, target, answer⟩ := d
          cases target <;> exact .inl hc
      | launch key d => exact .inl ((launch_unmoved (c := w.core) key .detached).claims ▸ hc)
      | signal i key core hclaim =>
          rcases claim_claims hclaim hc with hc | ⟨he, hr⟩
          · exact .inl hc
          · obtain ⟨rfl, rfl⟩ := Prod.mk.inj he
            exact .inr ⟨hr, .inr (.inl ⟨rfl, hjob⟩)⟩
      | ready key => exact .inl ((launch_unmoved (c := w.core) key .inline).claims ▸ hc)
      | unready key => exact .inl ((launch_unmoved (c := w.core) key .detached).claims ▸ hc)
      | _ => exact .inl hc
  | owner key action o core ho hfree hcore => exact .inl (stepOwner_claims hcore ▸ hc)
  | reap key poisoned core hcore => exact .inl (stepReap_claims hcore ▸ hc)
  | actor i action core completions hcore =>
      obtain ⟨old, new, -, rfl⟩ := stepActor_put hcore
      exact .inl hc
  | _ => exact .inl hc

end Claimed

section Caused

/-- No command is left and none is handled. -/
structure Drained (w : World) : Prop where
  marked : w.shuttingDown = true
  empty : w.commands = []
  idle : ∀ job, w.job = some job → isCommand job = false

theorem drained_of_fenced (h : Fenced w) (hd : w.acks ≠ [] ∨ emptied w.mode = true) : Drained w :=
  ⟨h.marked hd, (h.drained hd).1, (h.drained hd).2⟩

theorem Drained.step (h : Drained w) (hst : Steady w) (hs : Stepped cfg w a w') : Drained w' := by
  obtain ⟨hmarked, hsent⟩ := marked_step hst h.marked hs
  refine ⟨hmarked, ?_, ?_⟩
  · have horder := (hst.fenced.step hst.gated hs).order
    obtain ⟨more, htaken⟩ := (step_grown hs).taken
    rw [hsent, hst.fenced.order, h.empty, ← htaken, List.append_assoc] at horder
    exact (List.append_eq_nil_iff.mp (List.append_cancel_left horder).symm).2
  · cases hs with
    | call key caller v hk hcall => cases hcall <;> exact h.idle
    | shutdownStep instr todo v htodo hstep => cases shutdownStep_cases hstep <;> exact h.idle
    | listen branch v hjob hlisten =>
        cases hlisten with
        | command command rest mode hc _ => cases h.empty.symm.trans hc
        | completion id rest _ _ =>
            rintro job ⟨⟩
            rfl
        | _ => exact h.idle
    | work job v hjob hwork => exact hwork.command (h.idle job hjob)
    | _ => exact h.idle

/-- What has come of a claim. -/
def Followed (w : World) (id : TaskId) : Claimant → Prop
  | .command _ => id ∈ w.core.cancelled ∨ ∃ key d, w.job = some (.won key d .cancelling) ∧ d.target = some id
  | .completion => Ended w.core id
  | .shutdown => Drained w

theorem cancelled_step (hs : Stepped cfg w a w') (h : id ∈ w.core.cancelled) : id ∈ w'.core.cancelled := by
  rcases step_recedes hs with hr | ⟨reg, -, hcore⟩
  · exact hr.cancelled.subset h
  · have hsame (items : List PreparedRegistration) : (w.core.insertAll items).cancelled = w.core.cancelled := by
      generalize w.core = c
      induction items generalizing c with
      | nil => rfl
      | cons item items ih => exact ih (c.insertEntry item)
    rw [hcore, hsame]
    exact h

/-- The handler of the command that claimed cancels the token next. -/
theorem won_step (hs : Stepped cfg w a w') {d : Decision} (hjob : w.job = some (.won key d .cancelling))
    (htarget : d.target = some id) : w'.job = some (.won key d .cancelling) ∨ id ∈ w'.core.cancelled := by
  cases hs with
  | call key caller v hk hcall => cases hcall <;> exact .inl hjob
  | shutdownStep instr todo v htodo hstep => cases shutdownStep_cases hstep <;> exact .inl hjob
  | listen branch v hnone hlisten => cases hnone.symm.trans hjob
  | work job v hj hwork =>
      obtain rfl := Option.some.inj (hj.symm.trans hjob)
      cases hwork with
      | reject _ _ _ _ _ _ hch => cases hch
      | lose _ _ _ he => rcases he with he | he <;> cases he
      | win _ _ _ _ _ _ he => rcases he with he | he <;> cases he
      | cancelToken =>
          refine .inr ?_
          rw [htarget]
          exact List.mem_append_right _ List.mem_cons_self
  | _ => exact .inl hjob

theorem Followed.step (h : Followed w id claimant) (hst : Steady w) (hs : Stepped cfg w a w') :
    Followed w' id claimant := by
  cases claimant with
  | command reply =>
      rcases h with h | ⟨key, d, hjob, htarget⟩
      · exact .inl (cancelled_step hs h)
      · rcases won_step hs hjob htarget with hj | hc
        · exact .inr ⟨key, d, hj, htarget⟩
        · exact .inl hc
  | completion => exact Ended.step h hst hs
  | shutdown => exact Drained.step h hst hs

/-- Claims are followed up, and completion identities come from actors. -/
structure Caused (w : World) : Prop where
  claims : ∀ id claimant, (id, claimant) ∈ w.core.claims → Followed w id claimant
  signals : ∀ id ∈ w.completions, Ended w.core id
  signal : ∀ id, w.job = some (.completed id) → Ended w.core id

theorem Caused.new : Caused World.new where
  claims := fun _ _ hc => by cases hc
  signals := fun _ hid => by cases hid
  signal := fun _ hj => by cases hj

theorem completions_step (hs : Stepped cfg w a w') (hid : id ∈ w'.completions) :
    id ∈ w.completions ∨ (∃ i action, a = .actor i action) ∨ ∃ i, a = .stray i := by
  cases hs with
  | call key caller v hk hcall => cases hcall <;> exact .inl hid
  | shutdownStep instr todo v htodo hstep => cases shutdownStep_cases hstep <;> exact .inl hid
  | listen branch v hjob hlisten =>
      cases hlisten with
      | completion i rest _ hc =>
          rw [hc]
          exact .inl (List.mem_cons_of_mem _ hid)
      | _ => exact .inl hid
  | work job v hjob hwork => cases hwork <;> exact .inl hid
  | actor i action => exact .inr (.inl ⟨i, action, rfl⟩)
  | stray i => exact .inr (.inr ⟨i, rfl⟩)
  | _ => exact .inl hid

theorem signals_step (hs : w.step cfg a = some w') (hid : id ∈ w'.completions) :
    id ∈ w.completions ∨ a = .stray id ∨ a = .actor id .signal := by
  rcases completions_step (step_cases hs) hid with hold | ⟨i, action, rfl⟩ | ⟨i, rfl⟩
  · exact .inl hold
  · obtain ⟨core, hcore, rfl⟩ := Option.map_eq_some_iff.mp hs
    split at hid
    · next haction =>
      rw [World.signalled] at hid
      split at hid
      · exact .inl hid
      · refine (List.mem_append.mp hid).imp_right fun hm => ?_
        obtain rfl := List.mem_singleton.mp hm
        exact .inr (by rw [haction])
    · exact .inl hid
  · simp only [World.step] at hs
    split at hs
    · cases hs
    · cases hs
      refine (List.mem_append.mp hid).imp_right fun hm => ?_
      obtain rfl := List.mem_singleton.mp hm
      exact .inl rfl

theorem signal_step (hs : Stepped cfg w a w') (hjob : w'.job = some (.completed id)) :
    w.job = some (.completed id) ∨ id ∈ w.completions := by
  cases hs with
  | call key caller v hk hcall => cases hcall <;> exact .inl hjob
  | shutdownStep instr todo v htodo hstep => cases shutdownStep_cases hstep <;> exact .inl hjob
  | listen branch v hnone hlisten =>
      cases hlisten with
      | command command rest mode _ _ => cases command <;> cases hjob
      | completion i rest _ hc =>
          cases hjob
          rw [hc]
          exact .inr List.mem_cons_self
      | _ => exact .inl hjob
  | work job v hj hwork => cases hwork <;> cases hjob
  | _ => exact .inl hjob

/-- Nobody but the wrapper of an actor sends its completion identity. -/
theorem Caused.step (h : Caused w) (hst : Steady w) (hs : w.step cfg a = some w') (hstray : ∀ id, a ≠ .stray id) :
    Caused w' := by
  have hc := step_cases hs
  refine ⟨fun id claimant hm => ?_, fun id hid => ?_, fun id hj => ?_⟩
  · rcases claimed_step hst hc hm with hm | ⟨-, ⟨key, d, rfl, hj, htarget⟩ | ⟨rfl, hj⟩ | ⟨rfl, hd⟩⟩
    · exact (h.claims id claimant hm).step hst hc
    · exact .inr ⟨key, d, hj, htarget⟩
    · exact (h.signal id hj).step hst hc
    · exact (drained_of_fenced hst.fenced hd).step hst hc
  · rcases signals_step hs hid with hid | rfl | rfl
    · exact (h.signals id hid).step hst hc
    · exact absurd rfl (hstray id)
    · obtain ⟨core, hcore, rfl⟩ := Option.map_eq_some_iff.mp hs
      have hended : Ended core id := stepActor_over hcore (.inr rfl)
      split
      · rw [World.signalled]
        split <;> exact hended
      · exact hended
  · exact (signal_step hc hj).elim (fun hj => (h.signal id hj).step hst hc) fun hm => (h.signals id hm).step hst hc

end Caused

section Gone

/-- The identities of the admission at work that are not members yet. -/
def awaited (job : Option Job) : List TaskId := (requested job).map AddItem.id ++ (prepared job).map PreparedRegistration.id

theorem work_awaited (hs : Worked w job w') : awaited w'.job ⊆ awaited (some job) := by
  cases hs with
  | prepare req =>
      have hids := (prepareItems_spec w.nextLatch req.items).1
      change (World.prepareItems w.nextLatch req.items).1.map PreparedRegistration.id ⊆ _
      rw [hids]
      exact List.subset_append_left _ _
  | names | limit => exact fun _ hm => hm
  | free reg => exact fun _ hm => hm
  | _ => exact fun _ hm => by cases hm

/-- An admission at work came with the head of the queue. -/
theorem awaited_step (hs : Stepped cfg w a w') (hid : id ∈ awaited w'.job) : id ∈ awaited w.job ∨ id ∈ ids w.commands := by
  cases hs with
  | call key caller v hk hcall => cases hcall <;> exact .inl hid
  | shutdownStep instr todo v htodo hstep => cases shutdownStep_cases hstep <;> exact .inl hid
  | listen branch v hjob hlisten =>
      cases hlisten with
      | command command rest mode hc _ =>
          rw [awaited, start_requested, start_prepared, List.map_nil, List.append_nil] at hid
          obtain ⟨item, hitem, rfl⟩ := List.mem_map.mp hid
          exact .inr (mem_ids.mpr ⟨command, by rw [hc]; exact List.mem_cons_self, item, hitem, rfl⟩)
      | completion => cases hid
      | _ => exact .inl hid
  | work job v hjob hwork => exact .inl (hjob ▸ work_awaited hwork hid)
  | _ => exact .inl hid

/-- The identity was taken from the queue, its admission is over, and no
registered entry has it. -/
structure Gone (w : World) (id : TaskId) : Prop where
  taken : id ∈ ids w.taken
  idle : id ∉ awaited w.job
  unregistered : ¬ isRegistered w.core id

theorem ids_prefix {l l' : List RegistryCommand} (h : l <+: l') : ids l ⊆ ids l' := by
  obtain ⟨more, rfl⟩ := h
  rw [ids_append]
  exact List.subset_append_left _ _

theorem not_waiting (hst : Steady w) (h : id ∈ ids w.taken) : id ∉ ids w.commands := by
  have hnodup := hst.identified.nodup
  rw [hst.fenced.order, ids_append, List.nodup_append] at hnodup
  exact fun hm => hnodup.2.2 id h id hm rfl

theorem Gone.step (h : Gone w id) (hst : Steady w) (hs : Stepped cfg w a w') : Gone w' id where
  taken := ids_prefix (step_grown hs).taken h.taken
  idle := fun hm => (awaited_step hs hm).elim h.idle (not_waiting hst h.taken)
  unregistered := by
    rintro ⟨name, handle, he⟩
    rcases step_recedes hs with hr | ⟨reg, hjob, hcore⟩
    · exact h.unregistered (Recedes.registered hr ⟨name, handle, he⟩)
    · rw [hcore] at he
      rcases insertAll_tasks (c := w.core) reg.items id with ⟨p, hp, hpid, -⟩ | hsame
      · refine h.idle ?_
        rw [hjob]
        exact List.mem_append_right _ (hpid ▸ List.mem_map_of_mem hp)
      · exact h.unregistered ⟨name, handle, hsame.symm.trans he⟩

/-- Nobody becomes a member but the tasks of the admission at work. -/
theorem born_kept (hs : Stepped cfg w a w') (h : id ∉ awaited w.job) : w'.core.born.lookup id = w.core.born.lookup id := by
  rcases step_recedes hs with hr | ⟨reg, hjob, hcore⟩
  · rw [hr.born]
  · rw [hcore]
    refine insertAll_keep fun p hp he => h ?_
    rw [hjob]
    exact List.mem_append_right _ (he ▸ List.mem_map_of_mem hp)

end Gone

section Directed

/-- The target a remove or cancel command is addressed to. -/
def addressee : RegistryCommand → Option Target
  | .remove target _ | .cancel target _ => some target
  | _ => none

/-- The reply a handler owes before it has claimed anything, with its target. -/
def addressed : Job → Option (Reply × Option Target)
  | .names req | .limit req _ | .prepare req => some (req.reply, none)
  | .lockedNames reg | .lockedLimit reg | .inserted reg => some (reg.reply, none)
  | .remove target reply | .cancel target reply => some (reply, some target)
  | _ => none

/-- A handler came with a command; the entry it claimed for the command is gone. -/
structure Directed (w : World) : Prop where
  opened : ∀ reply target, w.job.bind addressed = some (reply, target) →
    ∃ command ∈ w.taken, command.reply = reply ∧ addressee command = target
  won : ∀ key d stage, w.job = some (.won key d stage) →
    (∃ command ∈ w.taken, ∃ target, command.reply = d.reply ∧ addressee command = some target ∧
      ∀ id, target = .id id → d.target = some id) ∧ ∀ id, d.target = some id → Gone w id

theorem Directed.new : Directed World.new where
  opened := fun _ _ hx => by cases hx
  won := fun _ _ _ hx => by cases hx

/-- The handler stands where it stood, or on another statement of the same
removal. -/
theorem Directed.keep (h : Directed w) (hst : Steady w) (hs : Stepped cfg w a w')
    (hopened : w'.job.bind addressed = none ∨ w'.job.bind addressed = w.job.bind addressed)
    (hwon : ∀ key d stage, w'.job = some (.won key d stage) → ∃ stage, w.job = some (.won key d stage)) : Directed w' where
  opened := by
    intro reply target hx
    rcases hopened with he | he
    · rw [he] at hx
      cases hx
    · obtain ⟨command, hc, hcommand⟩ := h.opened reply target (he ▸ hx)
      exact ⟨command, (step_grown hs).taken.subset hc, hcommand⟩
  won := by
    intro key d stage hj
    obtain ⟨stage', hj'⟩ := hwon key d stage hj
    obtain ⟨⟨command, hc, hcommand⟩, hgone⟩ := h.won key d stage' hj'
    exact ⟨⟨command, (step_grown hs).taken.subset hc, hcommand⟩, fun id htarget => (hgone id htarget).step hst hs⟩

theorem claimed_unregistered {kind : OwnerKind} (h : c.claimRegistered id kind claimant = some (key, c')) :
    ¬ isRegistered c' id := by
  rintro ⟨name, handle, he⟩
  rw [claim_lookup h, if_pos rfl] at he
  obtain ⟨⟨name', state⟩, -, hentry⟩ := Option.map_eq_some_iff.mp he
  cases state <;> cases hentry

theorem registered_taken (hst : Steady w) (h : isRegistered w.core id) : id ∈ ids w.taken := by
  obtain ⟨name, handle, he⟩ := h
  obtain ⟨s, hb, -⟩ := entry_seed hst.settled.sound he
  exact hst.incoming.born id s hb

theorem addressed_of {target : Target} {reply : Reply} (h : job = .remove target reply ∨ job = .cancel target reply) :
    addressed job = some (reply, some target) := by
  rcases h with rfl | rfl <;> rfl

theorem addressed_of_checking (h : checking job = true) (hreply : unanswered job = some reply) :
    addressed job = some (reply, none) := by
  cases job <;> cases h <;> cases hreply <;> rfl

theorem Directed.step (h : Directed w) (hst : Steady w) (hs : Stepped cfg w a w') : Directed w' := by
  have hall := hs
  cases hs with
  | call key caller v hk hcall =>
      refine h.keep hst hall (.inr ?_) fun key d stage hj => ⟨stage, ?_⟩
      · cases hcall <;> rfl
      · cases hcall <;> exact hj
  | shutdownStep instr todo v htodo hstep =>
      refine h.keep hst hall (.inr ?_) fun key d stage hj => ⟨stage, ?_⟩
      · cases shutdownStep_cases hstep <;> rfl
      · cases shutdownStep_cases hstep <;> exact hj
  | listen branch v hnone hlisten =>
      cases hlisten with
      | command command rest mode _ _ =>
          refine ⟨fun reply target hx => ⟨command, List.mem_append_right _ List.mem_cons_self, ?_⟩, fun key d stage hj => ?_⟩
          · cases command <;> cases hx <;> exact ⟨rfl, rfl⟩
          · cases command <;> cases hj
      | completion => exact h.keep hst hall (.inl rfl) fun _ _ _ hj => by cases hj
      | _ => exact h.keep hst hall (.inr rfl) fun key d stage hj => ⟨stage, hj⟩
  | work job v hjob hwork =>
      cases hwork with
      | win job target d i key core hj htarget hclaim hd =>
          refine ⟨(fun _ _ hx => by cases hx), fun key' d' stage hx => ?_⟩
          cases hx
          obtain ⟨command, hc, hreply, haddressee⟩ := h.opened d.reply (some target) (by rw [hjob]; exact addressed_of hj)
          have htaken := registered_taken hst (registered_of_claim hclaim)
          refine ⟨⟨command, hc, target, hreply, haddressee, fun i' hi => ?_⟩, fun i' hi => ?_⟩
          · rw [hi] at htarget
            exact hd.1.trans htarget.symm
          · obtain rfl := Option.some.inj (hd.1.symm.trans hi)
            exact ⟨htaken, (fun hm => by cases hm), claimed_unregistered hclaim⟩
      | cancelToken key d =>
          refine h.keep hst hall (.inl rfl) fun _ _ _ hx => ?_
          cases hx
          exact ⟨_, hjob⟩
      | reply key d =>
          refine h.keep hst hall (.inl rfl) fun _ _ _ hx => ?_
          cases hx
          exact ⟨_, hjob⟩
      | names | limit | prepare | free | insert =>
          exact h.keep hst hall (.inr (by rw [hjob]; rfl)) fun _ _ _ hx => by cases hx
      | _ => exact h.keep hst hall (.inl rfl) fun _ _ _ hx => by cases hx
  | _ => exact h.keep hst hall (.inr rfl) fun key d stage hj => ⟨stage, hj⟩

end Directed

section Withdrawn

/-- The identity is gone, and every claim of it has stopped its actor or found
it stopped. -/
structure Withdrawn (w : World) (id : TaskId) : Prop where
  gone : Gone w id
  claims : ∀ claimant, (id, claimant) ∈ w.core.claims → id ∈ w.core.cancelled ∨ Ended w.core id

theorem Withdrawn.step (h : Withdrawn w id) (hst : Steady w) (hs : Stepped cfg w a w') : Withdrawn w' id := by
  refine ⟨h.gone.step hst hs, fun claimant hc => ?_⟩
  rcases claimed_step hst hs hc with hc | ⟨hr, -⟩
  · exact (h.claims claimant hc).imp (cancelled_step hs) fun he => he.step hst hs
  · exact absurd hr h.gone.unregistered

/-- At work on a command, the listener has followed up every earlier claim but
the one at hand. -/
theorem Caused.settle (h : Caused w) (hgone : Gone w id) (hjob : w.job = some job) (hcommand : isCommand job = true)
    (hnot : ∀ key d, job ≠ .won key d .cancelling) : Withdrawn w id := by
  refine ⟨hgone, fun claimant hc => ?_⟩
  have hfollowed := h.claims id claimant hc
  cases claimant with
  | command reply =>
      refine .inl (hfollowed.resolve_right ?_)
      rintro ⟨key, d, hj, -⟩
      exact hnot key d (Option.some.inj (hjob.symm.trans hj))
  | completion => exact .inr hfollowed
  | shutdown =>
      have hidle := hfollowed.idle job hjob
      rw [hcommand] at hidle
      cases hidle

end Withdrawn

section Served

/-- The command of this reply was sent after the Add of the identity it is
addressed to. -/
def Trailing (l : List RegistryCommand) (id : TaskId) (reply : Reply) : Prop :=
  Splits (fun before command => command.reply = reply ∧ addressee command = some (.id id) ∧ id ∈ ids before) l

theorem Trailing.restrict {l l' : List RegistryCommand} (h : Trailing l' id reply) (hl : l <+: l')
    (honce : (l'.map RegistryCommand.reply).Nodup) (hm : reply ∈ l.map RegistryCommand.reply) : Trailing l id reply := by
  rw [← List.filterMap_eq_map] at honce hm
  exact Splits.restrict h hl honce (fun _ _ hr => congrArg some hr.1) hm

/-- Who is replied to about an identity whose Add was sent before finds it gone. -/
def Served (w : World) : Prop :=
  ∀ d ∈ w.replies, ∀ id, Trailing w.taken id d.reply → Withdrawn w id

theorem taken_once (hst : Steady w) : (w.taken.map RegistryCommand.reply).Nodup := by
  have honce := hst.numbered.once
  rw [hst.fenced.order, List.map_append, List.nodup_append] at honce
  exact honce.1

theorem replied_taken (hst : Steady w) {d : Decision} (hd : d ∈ w.replies) :
    d.reply ∈ w.taken.map RegistryCommand.reply := by
  rw [← hst.fenced.answered, owed]
  exact List.mem_append_left _ (List.mem_map_of_mem hd)

/-- A reply of a remove or cancel command is that of the target it is addressed
to. -/
theorem Trailing.target {l : List RegistryCommand} (h : Trailing l id reply) (honce : (l.map RegistryCommand.reply).Nodup)
    {command : RegistryCommand} (hc : command ∈ l) (hreply : command.reply = reply) :
    addressee command = some (.id id) ∧ id ∈ ids l := by
  obtain ⟨before, first, after, rfl, hfirst, haddressee, hid⟩ := h
  obtain rfl := List.inj_on_of_nodup_map honce hc (List.mem_append_right _ List.mem_cons_self) (hreply.trans hfirst.symm)
  exact ⟨haddressee, ids_prefix (List.prefix_append _ _) hid⟩

/-- Nothing is replied but what was replied before. -/
theorem Served.keep (h : Served w) (hst : Steady w) (hst' : Steady w') (hs : Stepped cfg w a w')
    (hreplies : ∀ d ∈ w'.replies, d ∈ w.replies ∨ ∀ id, Trailing w'.taken id d.reply → Withdrawn w' id) : Served w' := by
  intro d hd id ht
  rcases hreplies d hd with hd | hnew
  · exact (h d hd id (ht.restrict (step_grown hs).taken (taken_once hst') (replied_taken hst hd))).step hst hs
  · exact hnew id ht

theorem Served.work (h : Served w) (hst : Steady w) (hst' : Steady w') (hd : Directed w) (hcaused : Caused w)
    (hs : Stepped cfg w a w') (hjob : w.job = some job) (hwork : Worked w job w') : Served w' := by
  have htaken : w'.taken = w.taken := hwork.frame.taken
  have hadd {d : Decision} (hreplies : w'.replies = w.replies ++ [d])
      (hnew : ∀ id, Trailing w.taken id d.reply → Withdrawn w id) : Served w' := by
    refine h.keep hst hst' hs fun e he => ?_
    rw [hreplies, List.mem_append] at he
    refine he.imp_right fun he id ht => ?_
    obtain rfl := List.mem_singleton.mp he
    exact (hnew id (htaken ▸ ht)).step hst hs
  -- The command at hand is addressed to this target.
  have hopened {target : Option Target} {reply : Reply} {id : TaskId} (hr : addressed job = some (reply, target))
      (ht : Trailing w.taken id reply) : target = some (.id id) ∧ id ∈ ids w.taken := by
    obtain ⟨command, hc, hreply, haddressee⟩ := hd.opened reply target (by rw [hjob]; exact hr)
    obtain ⟨hx, hid⟩ := ht.target (taken_once hst) hc hreply
    exact ⟨haddressee.symm.trans hx, hid⟩
  cases hwork with
  | reject job reply batch dones error hreply hch =>
      refine hadd rfl fun id ht => ?_
      cases (hopened (addressed_of_checking hch hreply) ht).1
  | accept reg =>
      refine hadd rfl fun id ht => ?_
      cases (hopened rfl ht).1
  | lose job target d hj htarget hfree hloses =>
      refine hadd rfl fun id ht => ?_
      obtain ⟨hx, hid⟩ := hopened (addressed_of hj) ht
      obtain rfl := Option.some.inj hx
      have hidle : id ∉ awaited w.job := by
        rw [hjob]
        rcases hj with rfl | rfl <;> exact fun hm => by cases hm
      refine hcaused.settle ⟨hid, hidle, hfree id htarget⟩ hjob ?_ fun key e he => ?_
      · rcases hj with rfl | rfl <;> rfl
      · rcases hj with rfl | rfl <;> cases he
  | reply key d =>
      refine hadd rfl fun id ht => ?_
      obtain ⟨⟨command, hc, target, hreply, haddressee, hid⟩, hgone⟩ := hd.won key d .replying hjob
      obtain ⟨hx, -⟩ := ht.target (taken_once hst) hc hreply
      obtain rfl := Option.some.inj (haddressee.symm.trans hx)
      exact hcaused.settle (hgone id (hid id rfl)) hjob rfl fun _ _ he => by cases he
  | _ => exact h.keep hst hst' hs fun _ hm => .inl hm

/-- Every command before the one at work has been handled. -/
theorem Served.step (h : Served w) (hst : Steady w) (hst' : Steady w') (hd : Directed w) (hcaused : Caused w)
    (hs : Stepped cfg w a w') : Served w' := by
  have hall := hs
  have hquiet {v : World} (hr : v.replies = w.replies) :
      ∀ d ∈ v.replies, d ∈ w.replies ∨ ∀ id, Trailing w'.taken id d.reply → Withdrawn w' id :=
    fun d hm => .inl (hr ▸ hm)
  cases hs with
  | call key caller v hk hcall => exact h.keep hst hst' hall (hquiet (by cases hcall <;> rfl))
  | shutdownStep instr todo v htodo hstep => exact h.keep hst hst' hall (hquiet (by cases shutdownStep_cases hstep <;> rfl))
  | listen branch v hnone hlisten => exact h.keep hst hst' hall (hquiet (by cases hlisten <;> rfl))
  | work job v hjob hwork => exact h.work hst hst' hd hcaused hall hjob hwork
  | _ => exact h.keep hst hst' hall (hquiet rfl)

end Served

section Decided

/-- The Add of the identity was answered with an error. -/
def Refused (w : World) (id : TaskId) : Prop :=
  ∃ command ∈ w.taken, id ∈ command.items.map AddItem.id ∧
    ∃ d ∈ w.replies, d.reply = command.reply ∧ ∃ error, d.answer = .add (.error error)

theorem Refused.step (h : Refused w id) (hs : Stepped cfg w a w') : Refused w' id := by
  obtain ⟨command, hc, hid, d, hd, hanswer⟩ := h
  have hgrown := step_grown hs
  exact ⟨command, hgrown.taken.subset hc, hid, d, hgrown.replies.subset hd, hanswer⟩

/-- The Add was refused, or made a member, or is still at work. -/
def Accounted (w : World) (id : TaskId) : Prop :=
  Refused w id ∨ (w.core.born.lookup id).isSome ∨ id ∈ awaited w.job

def Decided (w : World) : Prop := ∀ id ∈ ids w.taken, Accounted w id

theorem source_of_checking (h : checking job = true) (hreply : unanswered job = some reply) :
    Commitment.source (some job) = some (awaited (some job), reply) := by
  cases job <;> cases h <;> cases hreply <;> simp [Commitment.source, awaited, requested, prepared]

/-- An admission at work ends with a refusal or with its members. -/
theorem work_accounted (hst : Steady w) (hsource : Commitment.Sourced w) (hjob : w.job = some job) (hs : Worked w job w')
    (hid : id ∈ awaited w.job) : Accounted w' id := by
  have hprepared := hst.incoming.prepares_nodup
  rw [hjob] at hid hprepared
  cases hs with
  | reject job reply batch dones error hreply hch =>
      obtain ⟨command, hc, hids, hcommand⟩ := hsource.taken _ _ (by rw [hjob]; exact source_of_checking hch hreply)
      exact .inl ⟨command, hc, hids ▸ hid, _, List.mem_append_right _ List.mem_cons_self, hcommand.symm, error.1, rfl⟩
  | names | limit | free => exact .inr (.inr hid)
  | prepare req =>
      refine .inr (.inr ?_)
      change id ∈ (World.prepareItems w.nextLatch req.items).1.map PreparedRegistration.id
      rw [(prepareItems_spec w.nextLatch req.items).1]
      simpa [awaited, requested, prepared] using hid
  | insert reg =>
      obtain ⟨p, hp, rfl⟩ := List.mem_map.mp hid
      have hborn : (w.core.insertAll reg.items).born.lookup p.id = some p := insertAll_lookup hprepared hp
      exact .inr (.inl (Option.isSome_iff_exists.mpr ⟨p, hborn⟩))
  | lose job target d hj => rcases hj with rfl | rfl <;> cases hid
  | win job target d i key core hj => rcases hj with rfl | rfl <;> cases hid
  | _ => cases hid

theorem Decided.step (h : Decided w) (hst : Steady w) (hsource : Commitment.Sourced w) (hs : Stepped cfg w a w') :
    Decided w' := by
  have hkeep {i : TaskId} (hid : i ∈ ids w.taken) (hwait : i ∈ awaited w.job → Accounted w' i) : Accounted w' i := by
    rcases h i hid with hr | hb | hm
    · exact .inl (hr.step hs)
    · obtain ⟨s, hb⟩ := Option.isSome_iff_exists.mp hb
      exact .inr (.inl (Option.isSome_iff_exists.mpr ⟨s, born_step hst hs hb⟩))
    · exact hwait hm
  intro i hid
  cases hs with
  | call key caller v hk hcall => cases hcall <;> exact hkeep hid fun hm => .inr (.inr hm)
  | shutdownStep instr todo v htodo hstep =>
      cases shutdownStep_cases hstep <;> exact hkeep hid fun hm => .inr (.inr hm)
  | listen branch v hnone hlisten =>
      rw [hnone] at hkeep
      cases hlisten with
      | command command rest mode _ _ =>
          rw [ids_append, List.mem_append] at hid
          rcases hid with hid | hid
          · exact hkeep hid fun hm => by cases hm
          · refine .inr (.inr ?_)
            rw [awaited, start_requested]
            exact List.mem_append_left _ (by simpa [ids] using hid)
      | _ => exact hkeep hid fun hm => by cases hm
  | work job v hjob hwork =>
      rw [hwork.frame.taken] at hid
      exact hkeep hid (work_accounted hst hsource hjob hwork)
  | _ => exact hkeep hid fun hm => .inr (.inr hm)

/-- A withdrawn identity was refused, or its actor is stopped and its entry has
left or is leaving. -/
theorem Withdrawn.fate (h : Withdrawn w id) (hst : Steady w) (hd : Decided w) :
    Refused w id ∨ (id ∈ w.core.cancelled ∨ Ended w.core id) ∧
      (w.core.tasks.lookup id = none ∨ ∃ name completion, w.core.tasks.lookup id = some ⟨name, .removing completion⟩) := by
  refine (hd id h.gone.taken).imp_right fun hrest => ?_
  obtain ⟨s, hb⟩ := Option.isSome_iff_exists.mp (hrest.resolve_right h.gone.idle)
  have hid := hst.settled.sound.seed id s hb
  constructor
  · have hclaimed : claimsOf w.core.claims id ≠ [] := fun hx =>
      h.gone.unregistered (hid ▸ (protocol_of_settled hst.settled hb).unclaimed.mp (hid.symm ▸ hx))
    obtain ⟨claimant, hc⟩ := List.exists_mem_of_ne_nil _ hclaimed
    obtain ⟨⟨i, claimant⟩, hm, rfl⟩ := List.mem_map.mp hc
    obtain ⟨hin, hi⟩ := List.mem_filter.mp hm
    exact h.claims claimant (of_decide_eq_true hi ▸ hin)
  · cases he : w.core.tasks.lookup id with
    | none => exact .inl rfl
    | some e =>
        obtain ⟨name, state⟩ := e
        cases state with
        | registered handle => exact absurd ⟨name, handle, he⟩ h.gone.unregistered
        | removing completion => exact .inr ⟨name, completion, rfl⟩

/-- The listener of a service whose actors alone send completion identities. -/
structure Attended (w : World) : Prop where
  caused : Caused w
  directed : Directed w
  served : Served w
  decided : Decided w

theorem Attended.new : Attended World.new where
  caused := Caused.new
  directed := Directed.new
  served := fun _ hd => by cases hd
  decided := fun _ hid => by cases hid

theorem Attended.step (h : Attended w) (hw : (machine cfg).Reachable w) (hs : w.step cfg a = some w')
    (hstray : ∀ id, a ≠ .stray id) : Attended w' := by
  have hst := steady_of_reachable hw
  have hc := step_cases hs
  refine ⟨h.caused.step hst hs hstray, h.directed.step hst hc, ?_, ?_⟩
  · exact h.served.step hst (hst.step hs) h.directed h.caused hc
  · exact h.decided.step hst (Commitment.sourced_of_reachable hw) hc

end Decided

end Taskvisor.Registry.Withdrawal
