import Taskvisor.Registry.Reach

namespace Taskvisor.Registry.Claims

open Lib Runtime.Base Reaper State Lifecycle Moves Names Listener Steps Entries Fence Identity Reach

variable {cfg : RegistryConfig} {w w' : World} {a : World.Action} {c c' : Core} {id : TaskId} {s : PreparedRegistration}

/-- An entry progresses, or an identity nobody had before enters as
registered. -/
inductive EntryMove (c c' : Core) (id : TaskId) : Prop
  | progress (h : Progress (c.tasks.lookup id) (c'.tasks.lookup id))
  | enter (name : String) (handle : Handle) (hborn : c.born.lookup id = none) (habsent : c.tasks.lookup id = none)
      (he : c'.tasks.lookup id = some ⟨name, .registered handle⟩)

theorem insertAll_tasks (items : List PreparedRegistration) (id : TaskId) :
    (∃ p ∈ items, p.id = id ∧
      (c.insertAll items).tasks.lookup id = some ⟨p.name, .registered ⟨p.done, p.completion⟩⟩) ∨
    (c.insertAll items).tasks.lookup id = c.tasks.lookup id := by
  induction items generalizing c with
  | nil => exact .inr rfl
  | cons item items ih =>
      rcases ih (c := c.insertEntry item) with ⟨p, hp, he⟩ | he
      · exact .inl ⟨p, List.mem_cons_of_mem _ hp, he⟩
      · have hlook : (c.insertEntry item).tasks.lookup id = if id = item.id then
            some ⟨item.name, .registered ⟨item.done, item.completion⟩⟩ else c.tasks.lookup id :=
          Table.lookup_insert_ite _ _ _ _
        change (c.insertAll (item :: items)).tasks.lookup id = _ at he
        rw [hlook] at he
        split at he
        · next hi => exact .inl ⟨item, List.mem_cons_self, hi.symm, he⟩
        · exact .inr he

theorem step_entry (h : Steady w) (hs : Stepped cfg w a w') (id : TaskId) : EntryMove w.core w'.core id := by
  rcases step_recedes hs with hr | ⟨reg, hjob, hcore⟩
  · exact .progress (hr.entry id)
  · rw [hcore]
    have hprep := h.incoming.prepares
    rw [hjob] at hprep
    rcases insertAll_tasks (c := w.core) reg.items id with ⟨p, hp, rfl, he⟩ | he
    · have hunborn := (hprep p hp).1
      exact .enter p.name ⟨p.done, p.completion⟩ hunborn (h.settled.sound.blank p.id hunborn).entry he
    · exact .progress (by rw [he]; exact .same _)

theorem born_step (h : Steady w) (hs : Stepped cfg w a w') (hb : w.core.born.lookup id = some s) :
    w'.core.born.lookup id = some s := by
  rcases step_recedes hs with hr | ⟨reg, hjob, hcore⟩
  · rw [hr.born]; exact hb
  · have hprep := h.incoming.prepares
    rw [hjob] at hprep
    rw [hcore, insertAll_keep fun p hp he => ?_]
    · exact hb
    · rw [← he, (hprep p hp).1] at hb
      cases hb

theorem insertAll_claims (items : List PreparedRegistration) : (c.insertAll items).claims = c.claims := by
  induction items generalizing c with
  | nil => rfl
  | cons item items ih => exact ih (c := c.insertEntry item)

theorem claims_step (hs : Stepped cfg w a w') : w.core.claims <+: w'.core.claims := by
  rcases step_recedes hs with hr | ⟨reg, -, hcore⟩
  · exact hr.claims
  · have heq : w'.core.claims = w.core.claims := hcore ▸ insertAll_claims reg.items
    exact heq ▸ List.prefix_rfl

/-- The reply tells its caller that it claimed the entry. -/
def Granted (d : Decision) (id : TaskId) : Prop :=
  d.target = some id ∧ (d.answer = .remove true ∨ ∃ latch, d.answer = .cancel (some ⟨id, true, latch⟩))

/-- The reply of a claim that is not sent yet. -/
def deciding : Option Job → List Decision
  | some (.won _ d .cancelling) | some (.won _ d .replying) => [d]
  | _ => []

/-- Replies say what happened: who is told to have claimed has claimed, and a
cancel gets the latch of the registration. -/
structure Attributed (w : World) : Prop where
  granted : ∀ d ∈ w.replies ++ deciding w.job, ∀ id, Granted d id → (id, .command d.reply) ∈ w.core.claims
  latch : ∀ d ∈ w.replies ++ deciding w.job, ∀ id claimed latch, d.answer = .cancel (some ⟨id, claimed, latch⟩) →
    ∃ s, w.core.born.lookup id = some s ∧ s.completion = latch

theorem Attributed.new : Attributed World.new := ⟨fun _ hd => (nomatch hd), fun _ hd => (nomatch hd)⟩

theorem Attributed.mono (h : Attributed w) (hsub : ∀ d ∈ w'.replies ++ deciding w'.job, d ∈ w.replies ++ deciding w.job)
    (hclaims : w.core.claims <+: w'.core.claims)
    (hborn : ∀ id s, w.core.born.lookup id = some s → w'.core.born.lookup id = some s) : Attributed w' where
  granted := fun d hd id hg => hclaims.subset (h.granted d (hsub d hd) id hg)
  latch := by
    intro d hd id claimed latch he
    obtain ⟨s, hs, hl⟩ := h.latch d (hsub d hd) id claimed latch he
    exact ⟨s, hborn id s hs, hl⟩

theorem removing_latch (h : Sound c) {name : String} {latch : RemovalCompletion}
    (he : c.tasks.lookup id = some ⟨name, .removing latch⟩) : ∃ s, c.born.lookup id = some s ∧ s.completion = latch := by
  obtain ⟨s, hb, rfl, -⟩ := entry_seed h he
  refine ⟨s, hb, ?_⟩
  obtain ⟨-, phase, hm, -⟩ := h.life _ _ hb
  have hv : (view c s.id).entry = _ := he
  cases hm with
  | registered entry => rw [entry] at hv; cases hv
  | owned key o claimant owners claims latch owned =>
      rw [owned.entry] at hv
      split at hv
      · cases hv; rfl
      · cases hv
  | gone _ entry => rw [entry] at hv; cases hv

theorem not_granted_of_loses {d : Decision} (hd : Loses c d) : ¬ Granted d id := by
  rintro ⟨-, hg⟩
  rcases hd with he | he | ⟨i, name, l, -, -, he⟩ <;> rcases hg with hx | ⟨l', hx⟩ <;> rw [he] at hx <;> cases hx

theorem loses_latch (h : Sound c) {d : Decision} (hd : Loses c d) {claimed : Bool} {latch : RemovalCompletion}
    (hx : d.answer = .cancel (some ⟨id, claimed, latch⟩)) : ∃ s, c.born.lookup id = some s ∧ s.completion = latch := by
  rcases hd with he | he | ⟨i, name, l, ht, -, he⟩
  · rw [he] at hx; cases hx
  · rw [he] at hx; cases hx
  · rw [he] at hx
    cases hx
    exact removing_latch h ht

theorem Attributed.work (h : Attributed w) (hst : Steady w) {job : Job} (hjob : w.job = some job) (hs : Worked w job w')
    (hclaims : w.core.claims <+: w'.core.claims)
    (hborn : ∀ id s, w.core.born.lookup id = some s → w'.core.born.lookup id = some s) : Attributed w' := by
  have hsound := hst.settled.sound
  -- One more decision among the replies or at hand.
  have hadd {d : Decision} (hmem : ∀ e ∈ w'.replies ++ deciding w'.job, e ∈ w.replies ++ deciding w.job ∨ e = d)
      (hg : ∀ id, Granted d id → (id, .command d.reply) ∈ w'.core.claims)
      (hl : ∀ id claimed latch, d.answer = .cancel (some ⟨id, claimed, latch⟩) →
        ∃ s, w'.core.born.lookup id = some s ∧ s.completion = latch) : Attributed w' := by
    refine ⟨fun e he => ?_, fun e he => ?_⟩
    · rcases hmem e he with ho | rfl
      · exact fun id hx => hclaims.subset (h.granted e ho id hx)
      · exact hg
    · rcases hmem e he with ho | rfl
      · intro id claimed latch hx
        obtain ⟨s, hb, hs⟩ := h.latch e ho id claimed latch hx
        exact ⟨s, hborn id s hb, hs⟩
      · exact hl
  have hout (r : Reply) (result : Except RuntimeError Unit)
      (hmem : ∀ e ∈ w'.replies ++ deciding w'.job, e ∈ w.replies ++ deciding w.job ∨ e = ⟨r, none, .add result⟩) :
      Attributed w' :=
    hadd hmem (fun _ hx => nomatch hx.1) fun _ _ _ hx => nomatch hx
  cases hs with
  | reject job reply batch dones error hreply hch =>
      refine hout reply (.error error.1) (fun e he => ?_)
      change e ∈ (w.replies ++ [_]) ++ [] at he
      rw [List.append_nil, List.mem_append] at he
      exact he.imp (List.mem_append_left _) List.mem_singleton.mp
  | accept reg =>
      refine hout reg.reply (.ok ()) (fun e he => ?_)
      change e ∈ (w.replies ++ [_]) ++ [] at he
      rw [List.append_nil, List.mem_append] at he
      exact he.imp (List.mem_append_left _) List.mem_singleton.mp
  | lose job target d hj htarget hfree hd =>
      refine hadd (d := d) (fun e he => ?_) (fun id hg => absurd hg (not_granted_of_loses hd)) fun id cl l hx =>
        loses_latch hsound hd hx
      change e ∈ (w.replies ++ [d]) ++ [] at he
      rw [List.append_nil, List.mem_append] at he
      exact he.imp (List.mem_append_left _) List.mem_singleton.mp
  | win job target d id key core hj htarget hclaim hd =>
      refine hadd (d := d) (fun e he => ?_) (fun i hg => ?_) fun i cl l hx => ?_
      · change e ∈ w.replies ++ [d] at he
        rw [List.mem_append] at he
        exact he.imp (List.mem_append_left _) List.mem_singleton.mp
      · obtain ⟨name, handle, he, -, rfl⟩ := claimRegistered_eq hclaim
        have hi : i = id := Option.some.inj (hg.1.symm.trans hd.1)
        rw [hi]
        exact List.mem_append_right _ List.mem_cons_self
      · rcases hd.2 with he | ⟨name, handle, ht, he⟩
        · rw [he] at hx; cases hx
        · rw [he] at hx
          cases hx
          obtain ⟨s, rfl, hb, -, rfl, -⟩ := registered_life hsound ht
          exact ⟨s, hborn _ s hb, rfl⟩
  | cancelToken key d => exact h.mono (fun e he => by rw [hjob]; exact he) hclaims hborn
  | reply key d =>
      refine h.mono (fun e he => ?_) hclaims hborn
      change e ∈ (w.replies ++ [d]) ++ [] at he
      rw [List.append_nil] at he
      rw [hjob]
      exact he
  | _ =>
      refine h.mono (fun e he => ?_) hclaims hborn
      change e ∈ w.replies ++ [] at he
      rw [List.append_nil] at he
      exact List.mem_append_left _ he

theorem deciding_start (command : RegistryCommand) : deciding (some (World.start command)) = [] := by
  cases command <;> rfl

theorem Attributed.step (h : Attributed w) (hst : Steady w) (hs : Stepped cfg w a w') : Attributed w' := by
  have hclaims := claims_step hs
  have hborn : ∀ id s, w.core.born.lookup id = some s → w'.core.born.lookup id = some s :=
    fun id s hb => born_step hst hs hb
  have hsame (hreplies : w'.replies = w.replies) (hjob : w'.job = w.job) : Attributed w' :=
    h.mono (fun d hd => by rw [hreplies, hjob] at hd; exact hd) hclaims hborn
  cases hs with
  | call key caller v hk hcall => cases hcall <;> exact hsame rfl rfl
  | shutdownStep instr todo v htodo hstep => cases shutdownStep_cases hstep <;> exact hsame rfl rfl
  | listen branch v hjob hlisten =>
      cases hlisten with
      | command command rest mode hc hmode =>
          refine h.mono (fun d hd => ?_) hclaims hborn
          change d ∈ w.replies ++ deciding (some (World.start command)) at hd
          rw [deciding_start, List.append_nil] at hd
          exact List.mem_append_left _ hd
      | completion id rest hmode hc =>
          refine h.mono (fun d hd => ?_) hclaims hborn
          change d ∈ w.replies ++ [] at hd
          rw [List.append_nil] at hd
          exact List.mem_append_left _ hd
      | _ => exact hsame rfl rfl
  | work job v hjob hwork => exact h.work hst hjob hwork hclaims hborn
  | _ => exact hsame rfl rfl

theorem attributed_of_reachable (h : (machine cfg).Reachable w) : Attributed w :=
  h.invariant Attributed.new fun _ _ _ hr hi hstep => hi.step (steady_of_reachable hr) (step_cases hstep)

/-- One registration under the claim protocol. -/
structure Protocol (c : Core) (s : PreparedRegistration) : Prop where
  claims : (claimsOf c.claims s.id).length ≤ 1
  unclaimed : claimsOf c.claims s.id = [] ↔ isRegistered c s.id
  owner : (claimsOf c.claims s.id ≠ [] ∧ s.completion ∉ c.logical) ↔ ∃! key, ∃ o, c.owners.lookup key = some o ∧ o.id = s.id
  handle : ∀ key o, c.owners.lookup key = some o → o.id = s.id → o.done = s.done ∧ o.completion = s.completion ∧
    c.tasks.lookup s.id = (if indexed o.stage then some ⟨s.name, .removing s.completion⟩ else none) ∧
    outcomesOf c.outcomes s.id = (if reportedAt o.stage then 1 else 0)
  pending : c.pending.counts.lookup s.id = some 1 ↔
    ∃ key o, c.owners.lookup key = some o ∧ o.id = s.id ∧ barred o.stage = true
  single : ∀ count, c.pending.counts.lookup s.id = some count → count = 1
  finished : s.completion ∈ c.logical → c.tasks.lookup s.id = none ∧ (∀ n, c.byName.lookup n ≠ some s.id) ∧
    outcomesOf c.outcomes s.id = 1 ∧ c.pending.counts.lookup s.id = none ∧ claimsOf c.claims s.id ≠ []

theorem owners_of_void (h : Void (ownersOf c.owners s.id)) : ¬ ∃ key o, c.owners.lookup key = some o ∧ o.id = s.id := by
  rintro ⟨key, o, hk⟩
  have hsome := ownersOf_eq_some.mpr hk
  rw [h key] at hsome
  cases hsome

theorem protocol_registered (hs : Sound c) {name : String} {handle : Handle}
    (he : c.tasks.lookup id = some ⟨name, .registered handle⟩) (hid : s.id = id) (hb : c.born.lookup id = some s) :
    Protocol c s := by
  obtain ⟨t, rfl, ht, rfl, rfl, hcount, howners, hout, hclaims, hlatch, -⟩ := registered_life hs he
  rw [hb] at ht
  cases ht
  have hnone := owners_of_void howners
  refine ⟨by simp [hclaims], ⟨fun _ => ⟨s.name, _, he⟩, fun _ => hclaims⟩, ⟨fun hx => absurd hclaims hx.1, ?_⟩,
    fun key o hk ho => absurd ⟨key, o, hk, ho⟩ hnone, ⟨fun hx => ?_, ?_⟩, fun n hx => ?_, fun hx => absurd hx hlatch⟩
  · rintro ⟨key, ho, -⟩
    exact absurd ⟨key, ho⟩ hnone
  · rw [hcount] at hx; cases hx
  · rintro ⟨key, o, hk, ho, -⟩
    exact absurd ⟨key, o, hk, ho⟩ hnone
  · rw [hcount] at hx; cases hx

theorem protocol_owned {key : Nat} {o : Owner} {claimant : Claimant} (howners : Only (ownersOf c.owners s.id) key o)
    (hclaims : claimsOf c.claims s.id = [claimant]) (hlatch : s.completion ∉ c.logical) (howned : Owned s (view c s.id) o) :
    Protocol c s := by
  have hkey := ownersOf_eq_some.mp howners.at
  have honly : ∀ k p, c.owners.lookup k = some p → p.id = s.id → k = key ∧ p = o :=
    fun k p hk hp => howners.eq (ownersOf_eq_some.mpr ⟨hk, hp⟩)
  have hcount : c.pending.counts.lookup s.id = if barred o.stage then some 1 else none := howned.count
  refine ⟨by simp [hclaims], ⟨fun hx => ?_, ?_⟩, ⟨fun _ => ⟨key, ⟨o, hkey⟩, fun k hk => ?_⟩, fun _ => ⟨?_, hlatch⟩⟩,
    fun k p hk hp => ?_, ⟨fun hx => ?_, ?_⟩, fun n hx => ?_, fun hx => absurd hx hlatch⟩
  · rw [hclaims] at hx; cases hx
  · rintro ⟨name, handle, he⟩
    have hentry : c.tasks.lookup s.id = _ := howned.entry
    rw [he] at hentry
    split at hentry <;> cases hentry
  · obtain ⟨p, hk, hp⟩ := hk
    exact (honly k p hk hp).1
  · rw [hclaims]
    exact List.cons_ne_nil _ _
  · obtain ⟨-, rfl⟩ := honly k p hk hp
    exact ⟨howned.done, howned.completion, howned.entry, howned.outcomes⟩
  · rw [hcount] at hx
    split at hx
    · next hbar => exact ⟨key, o, hkey.1, hkey.2, hbar⟩
    · cases hx
  · rintro ⟨k, p, hk, hp, hbar⟩
    obtain ⟨-, rfl⟩ := honly k p hk hp
    rw [hcount, if_pos hbar]
  · rw [hcount] at hx
    split at hx <;> cases hx
    rfl

theorem protocol_gone (hn : Named c) {claimant : Claimant} (hentry : c.tasks.lookup s.id = none)
    (hcount : c.pending.counts.lookup s.id = none) (howners : Void (ownersOf c.owners s.id))
    (hout : outcomesOf c.outcomes s.id = 1) (hclaims : claimsOf c.claims s.id = [claimant])
    (hlatch : s.completion ∈ c.logical) : Protocol c s := by
  have hnone := owners_of_void howners
  have hne : claimsOf c.claims s.id ≠ [] := by
    rw [hclaims]
    exact List.cons_ne_nil _ _
  refine ⟨by simp [hclaims], ⟨fun hx => absurd hx hne, ?_⟩, ⟨fun hx => absurd hlatch hx.2, ?_⟩,
    fun key o hk ho => absurd ⟨key, o, hk, ho⟩ hnone, ⟨fun hx => ?_, ?_⟩, fun n hx => ?_,
    fun _ => ⟨hentry, fun n hx => ?_, hout, hcount, hne⟩⟩
  · rintro ⟨name, handle, he⟩
    rw [hentry] at he
    cases he
  · rintro ⟨key, ho, -⟩
    exact absurd ⟨key, ho⟩ hnone
  · rw [hcount] at hx; cases hx
  · rintro ⟨key, o, hk, ho, -⟩
    exact absurd ⟨key, o, hk, ho⟩ hnone
  · rw [hcount] at hx; cases hx
  · have hx := (hn.index n s.id).mp hx
    rw [hentry] at hx
    cases hx

theorem protocol_of_settled (h : Settled w) (hb : w.core.born.lookup id = some s) : Protocol w.core s := by
  have hid := h.sound.seed id s hb
  obtain ⟨-, phase, hm, -⟩ := h.sound.life id s hb
  cases hm with
  | registered entry => exact protocol_registered h.sound entry rfl (hid ▸ hb)
  | owned key o claimant owners claims latch owned => exact protocol_owned owners claims latch owned
  | gone claimant entry count owners outcomes claims actor latch =>
      exact protocol_gone h.named entry count owners outcomes claims latch

theorem mem_claimsOf {claims : List (TaskId × Claimant)} {claimant : Claimant} (h : (id, claimant) ∈ claims) :
    claimant ∈ claimsOf claims id := by
  unfold claimsOf
  exact List.mem_map.mpr ⟨(id, claimant), List.mem_filter.mpr ⟨h, by simp⟩, rfl⟩

/-- Replies carry distinct senders, so two that tell of the same claim are one. -/
theorem granted_unique (hst : Steady w) (hat : Attributed w) {d d' : Decision} (hd : d ∈ w.replies) (hd' : d' ∈ w.replies)
    (hg : Granted d id) (hg' : Granted d' id) : d = d' := by
  have hc := hat.granted d (List.mem_append_left _ hd) id hg
  have hc' := hat.granted d' (List.mem_append_left _ hd') id hg'
  have hborn : ∃ s, w.core.born.lookup id = some s := by
    cases hb : w.core.born.lookup id with
    | some s => exact ⟨s, rfl⟩
    | none =>
        have hx := mem_claimsOf hc
        rw [show claimsOf w.core.claims id = [] from (hst.settled.sound.blank id hb).claims] at hx
        cases hx
  obtain ⟨s, hb⟩ := hborn
  have hid := hst.settled.sound.seed id s hb
  have hlen := (protocol_of_settled hst.settled hb).claims
  rw [hid] at hlen
  have hreply : d.reply = d'.reply := by
    have hm := mem_claimsOf hc
    have hm' := mem_claimsOf hc'
    match hl : claimsOf w.core.claims id, hlen with
    | [], _ => rw [hl] at hm; cases hm
    | [x], _ =>
        rw [hl, List.mem_singleton] at hm hm'
        exact Claimant.command.inj (hm.trans hm'.symm)
  have hnodup : (w.replies.map Decision.reply).Nodup := by
    have hsent := hst.numbered.once
    rw [hst.fenced.order, List.map_append, ← hst.fenced.answered, owed, List.append_assoc] at hsent
    exact (List.nodup_append.mp hsent).1
  exact List.inj_on_of_nodup_map hnodup hd hd' hreply

/-- Two cancels of one task, the second while the first one's removal is
joined. -/
def cancelTwiceRun : List World.Action :=
  addRun ++ sendRun 1 (.cancel (.id 1) true) ++ List.replicate 4 .work ++ sendRun 2 (.cancel (.name "a") true) ++ [.work]

end Taskvisor.Registry.Claims
