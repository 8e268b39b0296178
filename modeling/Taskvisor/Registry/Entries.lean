import Taskvisor.Registry.Moves
import Taskvisor.Registry.Steps

namespace Taskvisor.Registry.Entries

open Lib Runtime.Base Reaper State Moves Listener Steps

variable {c c' : Core} {id i : TaskId} {key : Nat} {kind : OwnerKind} {claimant : Claimant}

/-- An entry stays, is claimed, or leaves after its claim. -/
inductive Progress : Option Entry → Option Entry → Prop
  | same (e : Option Entry) : Progress e e
  | claim (name : String) (handle : Handle) :
      Progress (some ⟨name, .registered handle⟩) (some ⟨name, .removing handle.completion⟩)
  | leave (name : String) (completion : RemovalCompletion) : Progress (some ⟨name, .removing completion⟩) none

theorem Progress.present {e e' : Option Entry} (h : Progress e e') (hs : e'.isSome) : e.isSome := by
  cases h with
  | same => exact hs
  | claim => rfl
  | leave => cases hs

theorem Progress.registered {e e' : Option Entry} (h : Progress e e') {name : String} {handle : Handle}
    (hs : e' = some ⟨name, .registered handle⟩) : e = some ⟨name, .registered handle⟩ := by
  cases h with
  | same => exact hs
  | claim => cases hs
  | leave => cases hs

/-- Entries progress and none is added; claims and cancelled tokens stay. -/
structure Recedes (c c' : Core) : Prop where
  born : c'.born = c.born
  entry : ∀ id, Progress (c.tasks.lookup id) (c'.tasks.lookup id)
  claims : c.claims <+: c'.claims
  cancelled : c.cancelled <+: c'.cancelled

/-- Membership and its history stay as they are. -/
structure Unmoved (c c' : Core) : Prop where
  born : c'.born = c.born
  tasks : c'.tasks = c.tasks
  claims : c'.claims = c.claims
  reaper : c'.reaper = c.reaper
  cancelled : c.cancelled <+: c'.cancelled

theorem Unmoved.refl (c : Core) : Unmoved c c := ⟨rfl, rfl, rfl, rfl, List.prefix_rfl⟩

theorem Unmoved.trans {c'' : Core} (h : Unmoved c c') (h' : Unmoved c' c'') : Unmoved c c'' :=
  ⟨h'.born.trans h.born, h'.tasks.trans h.tasks, h'.claims.trans h.claims, h'.reaper.trans h.reaper,
    h.cancelled.trans h'.cancelled⟩

theorem Unmoved.recedes (h : Unmoved c c') : Recedes c c' :=
  ⟨h.born, fun _ => h.tasks ▸ .same _, h.claims ▸ List.prefix_rfl, h.cancelled⟩

theorem Recedes.same (hborn : c'.born = c.born) (htasks : c'.tasks = c.tasks) (hclaims : c'.claims = c.claims)
    (hcancelled : c'.cancelled = c.cancelled) : Recedes c c' :=
  ⟨hborn, fun _ => htasks ▸ .same _, hclaims ▸ List.prefix_rfl, hcancelled ▸ List.prefix_rfl⟩

/-- What a claim leaves of an entry. -/
def claimedEntry (e : Entry) : Entry :=
  match e.state with
  | .registered handle => { e with state := .removing handle.completion }
  | .removing _ => e

theorem claimedEntry_idem (e : Entry) : claimedEntry (claimedEntry e) = claimedEntry e := by
  obtain ⟨name, state⟩ := e
  cases state <;> rfl

theorem claimedEntry_progress (e : Option Entry) : Progress e (e.map claimedEntry) := by
  cases e with
  | none => exact .same none
  | some e =>
      obtain ⟨name, state⟩ := e
      cases state with
      | registered handle => exact .claim name handle
      | removing completion => exact .same _

theorem claim_lookup (h : c.claimRegistered id kind claimant = some (key, c')) (i : TaskId) :
    c'.tasks.lookup i = if i = id then (c.tasks.lookup i).map claimedEntry else c.tasks.lookup i := by
  obtain ⟨name, handle, he, -, rfl⟩ := claimRegistered_eq h
  change (c.tasks.insert id _).lookup i = _
  rw [Table.lookup_insert_ite]
  split
  · next hi => rw [hi, he]; rfl
  · rfl

theorem unclaimed_lookup (h : c.claimRegistered id kind claimant = none) :
    (c.tasks.lookup id).map claimedEntry = c.tasks.lookup id := by
  cases he : c.tasks.lookup id with
  | none => rfl
  | some e =>
      obtain ⟨name, state⟩ := e
      cases state with
      | registered handle => exact absurd ⟨name, handle, he⟩ (not_registered_of_claim h)
      | removing completion => rfl

theorem claim_recedes (h : c.claimRegistered id kind claimant = some (key, c')) : Recedes c c' := by
  obtain ⟨name, handle, he, -, hc⟩ := claimRegistered_eq h
  refine ⟨by rw [hc], fun i => ?_, by rw [hc]; exact List.prefix_append _ _,
    hc ▸ List.prefix_rfl⟩
  · rw [claim_lookup h]
    split
    · exact claimedEntry_progress _
    · exact .same _

/-- The rule for the loop of claims: what every claim keeps, the loop keeps. -/
theorem claimAll_keeps {P : Core → Prop} (ids : List TaskId) (h : P c)
    (hclaim : ∀ c c' id key, P c → c.claimRegistered id kind .shutdown = some (key, c') → P c') : P (c.claimAll kind ids) := by
  induction ids generalizing c with
  | nil => exact h
  | cons id ids ih =>
      unfold Core.claimAll
      split
      · next key c' hc => exact ih (hclaim c c' id key h hc)
      · exact ih h

theorem claimAll_lookup (ids : List TaskId) (i : TaskId) :
    (c.claimAll kind ids).tasks.lookup i = if i ∈ ids then (c.tasks.lookup i).map claimedEntry else c.tasks.lookup i := by
  induction ids generalizing c with
  | nil => simp [Core.claimAll]
  | cons id ids ih =>
      unfold Core.claimAll
      by_cases hi : i = id
      · subst hi
        rw [if_pos List.mem_cons_self]
        split
        · next key c' hc =>
          rw [ih, claim_lookup hc, if_pos rfl, Option.map_map,
            show claimedEntry ∘ claimedEntry = claimedEntry from funext claimedEntry_idem, ite_self]
        · next hc => rw [ih, unclaimed_lookup hc, ite_self]
      · have hmem : i ∈ id :: ids ↔ i ∈ ids := by simp [hi]
        simp only [hmem]
        split
        · next key c' hc => rw [ih, claim_lookup hc, if_neg hi]
        · exact ih

theorem claimAll_recedes (kind : OwnerKind) (ids : List TaskId) : Recedes c (c.claimAll kind ids) := by
  let kept (d : Core) : Prop := d.born = c.born ∧ c.claims <+: d.claims ∧ c.cancelled <+: d.cancelled
  obtain ⟨hborn, hclaims, hcancelled⟩ : kept (c.claimAll kind ids) := by
    refine claimAll_keeps (P := kept) ids ⟨rfl, List.prefix_rfl, List.prefix_rfl⟩ fun d d' id key hd hc => ?_
    have hr := claim_recedes hc
    exact ⟨hr.born.trans hd.1, hd.2.1.trans hr.claims, hd.2.2.trans hr.cancelled⟩
  refine ⟨hborn, fun i => ?_, hclaims, hcancelled⟩
  rw [claimAll_lookup]
  split
  · exact claimedEntry_progress _
  · exact .same _

/-- The loop over the whole map leaves nothing registered. -/
theorem claimAll_complete (kind : OwnerKind) (id : TaskId) : ¬ isRegistered (c.claimAll kind c.tasks.keys) id := by
  rintro ⟨name, handle, he⟩
  rw [claimAll_lookup] at he
  split at he
  · cases hx : c.tasks.lookup id with
    | none => rw [hx] at he; cases he
    | some e =>
        rw [hx] at he
        obtain ⟨n, state⟩ := e
        cases state <;> cases he
  · next hk => exact hk (Table.mem_keys_iff.mpr ⟨_, he⟩)

/-- Every claim of the loop leaves its owner behind. -/
theorem claimAll_owner (kind : OwnerKind) (ids : List TaskId) (hid : id ∈ ids) {name : String} {handle : Handle}
    (he : c.tasks.lookup id = some ⟨name, .registered handle⟩)
    (hkeys : ∀ k o, c.owners.lookup k = some o → k < c.nextOwner) :
    (id, .shutdown) ∈ (c.claimAll kind ids).claims ∧
      ∃ key, (c.claimAll kind ids).owners.lookup key = some ⟨id, kind, handle.done, handle.completion, .claimed⟩ := by
  induction ids generalizing c with
  | nil => cases hid
  | cons j ids ih =>
      unfold Core.claimAll
      have hnext : ∀ key c', c.claimRegistered j kind .shutdown = some (key, c') →
          ∀ k o, c'.owners.lookup k = some o → k < c'.nextOwner := by
        intro key c' hc k o ho
        obtain ⟨n, h, -, -, rfl⟩ := claimRegistered_eq hc
        exact Table.lt_succ_of_lookup_insert hkeys ho
      by_cases hj : id = j
      · subst hj
        obtain ⟨key, c', hc⟩ := claimRegistered_of_registered kind .shutdown he
        rw [hc]
        let kept (d : Core) : Prop := ((id, .shutdown) ∈ d.claims ∧
          d.owners.lookup c.nextOwner = some ⟨id, kind, handle.done, handle.completion, .claimed⟩) ∧ c.nextOwner < d.nextOwner
        have hkeep : kept c' := by
          obtain ⟨n, h, hx, -, rfl⟩ := claimRegistered_eq hc
          rw [he] at hx
          cases hx
          exact ⟨⟨List.mem_append_right _ List.mem_cons_self, AList.lookup_insert _⟩, Nat.lt_succ_self _⟩
        have hall : kept (c'.claimAll kind ids) := by
          refine claimAll_keeps (P := kept) ids hkeep fun d d' i k hd hcl => ?_
          obtain ⟨n, h, -, -, rfl⟩ := claimRegistered_eq hcl
          refine ⟨⟨List.mem_append_left _ hd.1.1, ?_⟩, Nat.lt_succ_of_lt hd.2⟩
          change (d.owners.insert d.nextOwner _).lookup c.nextOwner = _
          rw [AList.lookup_insert_ne (Nat.ne_of_lt hd.2)]
          exact hd.1.2
        exact ⟨hall.1.1, c.nextOwner, hall.1.2⟩
      · have hmem : id ∈ ids := by simpa [hj] using hid
        split
        · next key c' hc =>
          refine ih hmem ?_ (hnext key c' hc)
          rw [claim_lookup hc, if_neg hj, he]
        · exact ih hmem he hkeys

theorem launch_unmoved (key : Nat) (kind : OwnerKind) : Unmoved c (c.launch key kind) := by
  unfold Core.launch
  split
  · split <;> exact ⟨rfl, rfl, rfl, rfl, List.prefix_rfl⟩
  · exact .refl _

theorem cancelToken_unmoved (id : TaskId) : Unmoved c (c.cancelToken id) := ⟨rfl, rfl, rfl, rfl, List.prefix_append _ _⟩

/-- The rule for the loop that cancels the claimed tasks and starts to join
them. -/
theorem launchAll_keeps {P : Core → Prop} (h : P c) (hcancel : ∀ c id, P c → P (c.cancelToken id))
    (hlaunch : ∀ c key, P c → P (c.launch key kind)) : P (World.launchAll c kind) := by
  unfold World.launchAll
  induction c.owners.entries generalizing c with
  | nil => exact h
  | cons entry entries ih =>
      rw [List.foldl_cons]
      apply ih
      split
      · exact hlaunch _ _ (hcancel _ _ h)
      · exact h

theorem launchAll_unmoved (kind : OwnerKind) : Unmoved c (World.launchAll c kind) :=
  launchAll_keeps (P := Unmoved c) (.refl c) (fun _ id hd => hd.trans (cancelToken_unmoved id))
    fun _ key hd => hd.trans (launch_unmoved key kind)

theorem commit_recedes (o : Owner) (outcome : TaskOutcome) : Recedes c (c.commit key o outcome) := by
  unfold Core.commit
  split
  · next name state he =>
    refine ⟨rfl, fun i => ?_, List.prefix_rfl, List.prefix_rfl⟩
    change Progress _ ((c.tasks.erase o.id).lookup i)
    rw [Table.lookup_erase_ite]
    split
    · next hi => rw [hi, he]; exact .leave name state
    · exact .same _
  · exact .same rfl rfl rfl rfl

theorem requestAbort_unmoved (id : TaskId) : Unmoved c (c.requestAbort id) := by
  unfold Core.requestAbort
  split <;> exact ⟨rfl, rfl, rfl, rfl, List.prefix_rfl⟩

theorem advance_recedes {o : Owner} (h : c.advance key o = some c') : Recedes c c' := by
  unfold Core.advance at h
  split at h
  · cases h
  · obtain ⟨outcome, -, rfl⟩ := Option.map_eq_some_iff.mp h
    exact .same rfl rfl rfl rfl
  · cases h; exact .same rfl rfl rfl rfl
  · cases h
    have hu := requestAbort_unmoved (c := c) o.id
    exact Unmoved.recedes ⟨hu.born, hu.tasks, hu.claims, hu.reaper, hu.cancelled⟩
  · cases h; exact .same rfl rfl rfl rfl
  · cases h; exact commit_recedes o _
  · cases h; exact .same rfl rfl rfl rfl
  · cases h; exact .same rfl rfl rfl rfl
  · next effect _ _ _ _ => cases h; cases effect <;> exact .same rfl rfl rfl rfl
  · cases h; exact .same rfl rfl rfl rfl
  · cases h; exact .same rfl rfl rfl rfl

theorem stepOwner_recedes {action : Core.OwnerAction} (h : c.stepOwner key action = some c') : Recedes c c' := by
  unfold Core.stepOwner at h
  split at h
  · cases h
  · next o hk =>
    cases action with
    | advance => exact advance_recedes h
    | abort =>
        simp only at h
        split at h
        · cases h
          unfold Core.abort
          split <;> exact .same rfl rfl rfl rfl
        · cases h
    | drop =>
        simp only [Core.dropCommit] at h
        split at h
        · split at h
          · cases h
          · cases h; exact .same rfl rfl rfl rfl
        · cases h

theorem stepReap_recedes {poisoned : Bool} (h : c.stepReap key poisoned = some c') : Recedes c c' := by
  unfold Core.stepReap at h
  split at h
  · cases h
  · split at h
    · split at h
      · cases h; exact .same rfl rfl rfl rfl
      · cases h
    · next effect _ _ => cases h; cases effect <;> exact .same rfl rfl rfl rfl
    · cases h; exact .same rfl rfl rfl rfl

theorem stepActor_recedes {action : Core.ActorAction} (h : c.stepActor id action = some c') : Recedes c c' := by
  unfold Core.stepActor at h
  split at h
  · cases h
  · split at h
    all_goals first
      | (cases h; exact .same rfl rfl rfl rfl)
      | (split at h <;> cases h; exact .same rfl rfl rfl rfl)
      | cases h

section Worlds

variable {cfg : RegistryConfig} {w w' : World}

theorem openGate_unmoved (items : List PreparedRegistration) : Unmoved c (items.foldl Core.openGate c) := by
  induction items generalizing c with
  | nil => exact .refl c
  | cons item items ih =>
      have hone : Unmoved c (c.openGate item) := by
        unfold Core.openGate
        split
        · split <;> exact ⟨rfl, rfl, rfl, rfl, List.prefix_rfl⟩
        · exact .refl _
      exact hone.trans ih

theorem work_recedes {job : Job} (h : Worked w job w') :
    Recedes w.core w'.core ∨ ∃ reg, job = .lockedLimit reg ∧ w'.core = w.core.insertAll reg.items := by
  cases h with
  | insert reg => exact .inr ⟨reg, rfl, rfl⟩
  | spawn item rest reg => exact .inl (.same rfl rfl rfl rfl)
  | openGate reg => exact .inl (openGate_unmoved _).recedes
  | win job target d id key core _ _ hclaim _ => exact .inl (claim_recedes hclaim)
  | cancelToken key d =>
      obtain ⟨reply, target, answer⟩ := d
      cases target with
      | none => exact .inl (Unmoved.refl _).recedes
      | some id => exact .inl (cancelToken_unmoved id).recedes
  | launch key d => exact .inl (launch_unmoved key .detached).recedes
  | signal id key core hclaim => exact .inl (claim_recedes hclaim)
  | ready key => exact .inl (launch_unmoved key .inline).recedes
  | unready key => exact .inl (launch_unmoved key .detached).recedes
  | _ => exact .inl (.same rfl rfl rfl rfl)

theorem listen_recedes (h : Listened w w') : Recedes w.core w'.core := by
  cases h with
  | claim => exact claimAll_recedes (.shutdown true) _
  | cancel => exact (launchAll_unmoved (.shutdown true)).recedes
  | _ => exact .same rfl rfl rfl rfl

theorem shutdownStep_recedes {instr : ShutdownInstr} {todo : List ShutdownInstr} (h : w.shutdownStep instr todo = some w') :
    Recedes w.core w'.core := by
  cases shutdownStep_cases h with
  | claim => exact claimAll_recedes (.shutdown false) _
  | cancel => exact (launchAll_unmoved (.shutdown false)).recedes
  | _ => exact .same rfl rfl rfl rfl

theorem call_core {key : Nat} {caller : Caller} (h : Called w key caller w') : w'.core = w.core := by
  cases h <;> rfl

/-- One step of the service: entries progress, or an admission inserts its
whole registration. -/
theorem step_recedes {a : World.Action} (h : Stepped cfg w a w') :
    Recedes w.core w'.core ∨ ∃ reg, w.job = some (.lockedLimit reg) ∧ w'.core = w.core.insertAll reg.items := by
  cases h with
  | call key caller v hk hcall => rw [call_core hcall]; exact .inl (.same rfl rfl rfl rfl)
  | shutdownStep instr todo v htodo hstep => exact .inl (shutdownStep_recedes hstep)
  | listen branch v hjob hlisten => exact .inl (listen_recedes hlisten)
  | work job v hjob hwork =>
      rcases work_recedes hwork with hr | ⟨reg, rfl, he⟩
      · exact .inl hr
      · exact .inr ⟨reg, hjob, he⟩
  | owner key action o core ho hfree hcore => exact .inl (stepOwner_recedes hcore)
  | reap key poisoned core hcore => exact .inl (stepReap_recedes hcore)
  | actor id action core completions hcore => exact .inl (stepActor_recedes hcore)
  | _ => exact .inl (.same rfl rfl rfl rfl)

end Worlds

end Taskvisor.Registry.Entries
