import Taskvisor.Registry.Identity
import Taskvisor.Registry.Names

namespace Taskvisor.Registry.Reach

open Lib Runtime.Base Reaper State Lifecycle Moves Names Listener Steps Gate Entries Fence Identity

variable {cfg : RegistryConfig} {w w' : World} {a : World.Action} {c c' : Core} {id : TaskId} {key : Nat} {n : String}

/-- No member and no reaped actor holds the name. -/
def Unclaimed (c : Core) (n : String) : Prop := ∀ id s, c.born.lookup id = some s → Occupied c id → s.name ≠ n

theorem Unclaimed.narrow (h : Unclaimed c n) (hn : Narrowed c c') : Unclaimed c' n := by
  intro id s hs ho
  rw [hn.born] at hs
  exact h id s hs (hn.occupied id ho)

theorem Unclaimed.lookup (h : Unclaimed c n) (hs : Sound c) (hn : Named c) :
    c.byName.lookup n = none ∧ c.reaper.byName.lookup n = none := by
  constructor
  · cases hb : c.byName.lookup n with
    | none => rfl
    | some id =>
        obtain ⟨e, he, hname⟩ := Option.map_eq_some_iff.mp ((hn.index n id).mp hb)
        obtain ⟨s, hborn, -, hx⟩ := entry_seed hs he
        exact absurd (hx.symm.trans hname) (h id s hborn (.inl (Option.isSome_iff_exists.mpr ⟨e, he⟩)))
  · cases hb : c.reaper.byName.lookup n with
    | none => rfl
    | some activities =>
        obtain ⟨id, s, hborn, hname, hr, -⟩ := (hn.reserved n activities).mp hb
        exact absurd hname (h id s hborn (.inr hr))

theorem unclaimed_of_lookup (hs : Sound c) (hn : Named c) (hb : c.byName.lookup n = none)
    (hr : c.reaper.byName.lookup n = none) : Unclaimed c n := by
  intro id s hborn ho hname
  rcases ho with ht | hrec
  · obtain ⟨e, he⟩ := Option.isSome_iff_exists.mp ht
    obtain ⟨t, ht, -, hx⟩ := entry_seed hs he
    rw [hborn] at ht
    cases ht
    have hin := (hn.index n id).mpr (by rw [he]; exact congrArg some (hx.trans hname))
    rw [hb] at hin
    cases hin
  · have hin := (hn.reserved n _).mpr ⟨id, s, hborn, hname, hrec, rfl⟩
    rw [hr] at hin
    cases hin

/-- The lookups of an admission pass exactly when its names differ and none is
taken. -/
theorem firstConflict_none {taken : String → Bool} {earlier names : List String} :
    World.firstConflict taken earlier names = none ↔
      names.Nodup ∧ ∀ m ∈ names, taken m = false ∧ m ∉ earlier := by
  induction names generalizing earlier with
  | nil => simp [World.firstConflict]
  | cons m names ih =>
      unfold World.firstConflict
      split
      · next hx =>
        refine ⟨fun h => (nomatch h), fun h => ?_⟩
        obtain ⟨ht, he⟩ := h.2 m List.mem_cons_self
        simp [ht, he] at hx
      · next hx =>
        have hm : taken m = false ∧ m ∉ earlier := by simpa using hx
        rw [ih, List.nodup_cons]
        constructor
        · rintro ⟨hn, h⟩
          refine ⟨⟨fun hmem => (h m hmem).2 List.mem_cons_self, hn⟩, fun k hk => ?_⟩
          rcases List.mem_cons.mp hk with rfl | hk
          · exact hm
          · exact ⟨(h k hk).1, fun he => (h k hk).2 (List.mem_cons_of_mem _ he)⟩
        · rintro ⟨⟨hnew, hn⟩, h⟩
          refine ⟨hn, fun k hk => ⟨(h k (List.mem_cons_of_mem _ hk)).1, fun he => ?_⟩⟩
          rcases List.mem_cons.mp he with rfl | he
          · exact hnew hk
          · exact (h k (List.mem_cons_of_mem _ hk)).2 he

theorem takenName_false (hs : Sound c) (hn : Named c) (h : World.takenName c n = false) : Unclaimed c n := by
  obtain ⟨hb, hr⟩ := Bool.or_eq_false_iff.mp h
  exact unclaimed_of_lookup hs hn (by simpa using hb) (by simpa [ReaperState.reservesName] using hr)

/-- A whole registration is inserted at once. -/
theorem insertAll_sound {items : List PreparedRegistration} (hs : Sound c) (hn : Named c)
    (hids : (items.map PreparedRegistration.id).Nodup) (hnames : (items.map PreparedRegistration.name).Nodup)
    (hlatches : (items.map PreparedRegistration.completion).Nodup)
    (hunborn : ∀ p ∈ items, c.born.lookup p.id = none) (hfree : ∀ p ∈ items, Unclaimed c p.name)
    (hfresh : ∀ p ∈ items, ∀ i t, c.born.lookup i = some t → t.completion ≠ p.completion) :
    Sound (c.insertAll items) ∧ Named (c.insertAll items) := by
  induction items generalizing c with
  | nil => exact ⟨hs, hn⟩
  | cons item items ih =>
      rw [List.map_cons, List.nodup_cons] at hids hnames hlatches
      obtain ⟨hb, hr⟩ := (hfree item List.mem_cons_self).lookup hs hn
      have hnew := insertEntry_sound hs (hunborn item List.mem_cons_self) (hfresh item List.mem_cons_self)
      have hnamed := hn.insertEntry hs (hunborn item List.mem_cons_self) hb hr
      have hborn : ∀ i, (c.insertEntry item).born.lookup i = if i = item.id then some item else c.born.lookup i :=
        fun i => Table.lookup_insert_ite _ _ _ _
      refine ih hnew hnamed hids.2 hnames.2 hlatches.2 (fun p hp => ?_) (fun p hp i s hbi ho => ?_) (fun p hp i t ht => ?_)
      · rw [hborn, if_neg fun he : p.id = item.id => hids.1 (he ▸ List.mem_map_of_mem hp)]
        exact hunborn p (List.mem_cons_of_mem _ hp)
      · rw [hborn] at hbi
        split at hbi
        · cases hbi
          exact fun he => hnames.1 (he ▸ List.mem_map_of_mem hp)
        · next hne =>
          refine hfree p (List.mem_cons_of_mem _ hp) i s hbi (ho.imp (fun ht => ?_) fun hx => hx)
          change ((c.tasks.insert item.id _).lookup i).isSome at ht
          rwa [AList.lookup_insert_ne hne] at ht
      · rw [hborn] at ht
        split at ht
        · cases ht
          exact fun he => hlatches.1 (he ▸ List.mem_map_of_mem hp)
        · exact hfresh p (List.mem_cons_of_mem _ hp) i t ht

/-- The change spawns no actor and loses none. -/
def Peopled (c c' : Core) : Prop := ∀ id, (c'.actors.lookup id).isSome = (c.actors.lookup id).isSome

theorem Peopled.put (id : TaskId) {old : Actor} (h : c.actors.lookup id = some old) (new : Actor)
    (hc : c'.actors = c.actors.insert id new) : Peopled c c' := by
  intro i
  rw [hc, Table.lookup_insert_ite]
  split
  · next hi => rw [hi, h]; rfl
  · rfl

theorem Peopled.same (h : c'.actors = c.actors) : Peopled c c' := fun _ => by rw [h]

theorem Peopled.trans {c'' : Core} (h : Peopled c c') (h' : Peopled c' c'') : Peopled c c'' := fun i => (h' i).trans (h i)

theorem requestAbort_peopled (id : TaskId) : Peopled c (c.requestAbort id) := by
  unfold Core.requestAbort
  split
  · next actor ha => exact Peopled.put id ha _ rfl
  · exact .same rfl

/-- The only thing an owner does to an actor is to request its abort. -/
theorem advance_actors {o : Owner} (h : c.advance key o = some c') :
    c'.actors = c.actors ∨ c'.actors = (c.requestAbort o.id).actors := by
  unfold Core.advance at h
  split at h
  · cases h
  · obtain ⟨outcome, -, rfl⟩ := Option.map_eq_some_iff.mp h
    exact .inl rfl
  · cases h; exact .inl rfl
  · cases h; exact .inr rfl
  · cases h; exact .inl rfl
  · cases h
    unfold Core.commit
    split <;> exact .inl rfl
  · cases h; exact .inl rfl
  · cases h; exact .inl rfl
  · next effect _ _ _ _ => cases h; cases effect <;> exact .inl rfl
  · cases h; exact .inl rfl
  · cases h; exact .inl rfl

theorem stepOwner_actors {action : Core.OwnerAction} (h : c.stepOwner key action = some c') :
    c'.actors = c.actors ∨ ∃ id, c'.actors = (c.requestAbort id).actors := by
  unfold Core.stepOwner at h
  split at h
  · cases h
  · next o hk =>
    cases action with
    | advance => exact (advance_actors h).imp_right fun ha => ⟨o.id, ha⟩
    | abort =>
        simp only at h
        split at h
        · cases h
          unfold Core.abort
          split <;> exact .inl rfl
        · cases h
    | drop =>
        simp only [Core.dropCommit] at h
        split at h
        · split at h
          · cases h
          · cases h; exact .inl rfl
        · cases h

theorem stepOwner_peopled {action : Core.OwnerAction} (h : c.stepOwner key action = some c') : Peopled c c' := by
  rcases stepOwner_actors h with ha | ⟨id, ha⟩
  · exact .same ha
  · exact (requestAbort_peopled id).trans (.same ha)

theorem stepReap_actors {poisoned : Bool} (h : c.stepReap key poisoned = some c') : c'.actors = c.actors := by
  unfold Core.stepReap at h
  split at h
  · cases h
  · split at h
    · split at h
      · cases h; rfl
      · cases h
    · next effect _ _ => cases h; cases effect <;> rfl
    · cases h; rfl

theorem stepActor_put {action : Core.ActorAction} (h : c.stepActor id action = some c') :
    ∃ old new, c.actors.lookup id = some old ∧ c' = c.putActor id new := by
  unfold Core.stepActor at h
  split at h
  · cases h
  · next old ho =>
    split at h
    all_goals first
      | (cases h; exact ⟨old, _, ho, rfl⟩)
      | (split at h <;> cases h; exact ⟨old, _, ho, rfl⟩)
      | cases h

theorem stepActor_peopled {action : Core.ActorAction} (h : c.stepActor id action = some c') : Peopled c c' := by
  obtain ⟨old, new, ho, rfl⟩ := stepActor_put h
  exact Peopled.put id ho new rfl

theorem stepActor_narrowed {action : Core.ActorAction} (hn : Named c) (h : c.stepActor id action = some c') :
    Narrowed c c' := by
  obtain ⟨old, new, -, rfl⟩ := stepActor_put h
  exact hn.keep rfl rfl rfl rfl

theorem insertAll_actors (items : List PreparedRegistration) : (c.insertAll items).actors = c.actors := by
  induction items generalizing c with
  | nil => rfl
  | cons item items ih => exact ih (c := c.insertEntry item)

theorem launch_actors (key : Nat) (kind : OwnerKind) : (c.launch key kind).actors = c.actors := by
  unfold Core.launch
  split
  · split <;> rfl
  · rfl

theorem launch_peopled (key : Nat) (kind : OwnerKind) : Peopled c (c.launch key kind) := .same (launch_actors key kind)

theorem openGate_peopled (items : List PreparedRegistration) : Peopled c (items.foldl Core.openGate c) := by
  induction items generalizing c with
  | nil => exact .same rfl
  | cons item items ih =>
      have hone : Peopled c (c.openGate item) := by
        unfold Core.openGate
        split
        · next actor ha =>
          split
          · exact Peopled.put item.id ha _ rfl
          · exact .same rfl
        · exact .same rfl
      exact hone.trans ih

/-- The tasks of an admission that are members without an actor. -/
def unspawned : Option Job → List PreparedRegistration
  | some (.inserted reg) => reg.items
  | some (.spawning rest _) => rest
  | _ => []

/-- The registry in every state of the service. -/
structure Settled (w : World) : Prop where
  sound : Sound w.core
  named : Named w.core
  spawned : ∀ id s, w.core.born.lookup id = some s → (w.core.actors.lookup id).isSome ∨ ∃ p ∈ unspawned w.job, p.id = id
  waiting : ∀ p ∈ unspawned w.job, w.core.born.lookup p.id = some p ∧ w.core.actors.lookup p.id = none
  waiting_nodup : ((unspawned w.job).map PreparedRegistration.id).Nodup
  free : ∀ reg, w.job = some (.lockedLimit reg) → (reg.items.map PreparedRegistration.name).Nodup ∧
    ∀ p ∈ reg.items, Unclaimed w.core p.name

theorem Settled.new : Settled World.new := by
  refine ⟨?_, Named.new, fun id s hs => ?_, fun p hp => (nomatch hp), List.nodup_nil, fun reg hj => (nomatch hj)⟩
  · refine ⟨fun id s hs => ?_, fun id s hs => ?_, fun id _ => ?_, fun id id' s s' hs => ?_, fun l hl => (nomatch hl),
      fun l hl => (nomatch hl), fun k o hk => ?_, fun k r hk => ?_⟩
    · simp [World.new, Core.new] at hs
    · simp [World.new, Core.new] at hs
    · exact ⟨rfl, rfl, fun _ => rfl, rfl, fun _ => rfl, rfl, rfl, rfl⟩
    · simp [World.new, Core.new] at hs
    · simp [World.new, Core.new] at hk
    · simp [World.new, Core.new] at hk
  · simp [World.new, Core.new] at hs

/-- The registry changes under an admission that stands still. -/
theorem Settled.recore (h : Settled w) (hs : Sound c) (hn : Narrowed w.core c) (hp : Peopled w.core c)
    (hcore : w'.core = c) (hjob : w'.job = w.job) : Settled w' where
  sound := hcore ▸ hs
  named := hcore ▸ hn.named
  spawned := by
    rw [hcore, hjob, hn.born]
    intro id s hb
    rw [hp]
    exact h.spawned id s hb
  waiting := by
    rw [hcore, hjob, hn.born]
    intro p hm
    refine ⟨(h.waiting p hm).1, ?_⟩
    rw [← Option.not_isSome_iff_eq_none, hp, (h.waiting p hm).2]
    exact Bool.false_ne_true
  waiting_nodup := hjob ▸ h.waiting_nodup
  free := by
    rw [hcore, hjob]
    exact fun reg hj => ⟨(h.free reg hj).1, fun p hm => ((h.free reg hj).2 p hm).narrow hn⟩

/-- Nothing waits to be spawned, before and after; every member has its actor. -/
theorem Settled.between (h : Settled w) (hjob : unspawned w.job = []) (hs : Sound c) (hn : Narrowed w.core c)
    (hp : Peopled w.core c) (hcore : w'.core = c) (hjob' : unspawned w'.job = [])
    (hlimit : ∀ reg, w'.job ≠ some (.lockedLimit reg)) : Settled w' where
  sound := hcore ▸ hs
  named := hcore ▸ hn.named
  spawned := by
    rw [hcore, hn.born]
    intro id s hb
    rw [hp]
    rcases h.spawned id s hb with ha | ⟨p, hm, -⟩
    · exact .inl ha
    · rw [hjob] at hm; cases hm
  waiting := by
    rw [hjob']
    exact fun _ hm => nomatch hm
  waiting_nodup := by
    rw [hjob']
    exact List.nodup_nil
  free := fun reg hj => absurd hj (hlimit reg)

theorem Settled.actor_of_registered (h : Settled w) (hjob : unspawned w.job = []) (hr : isRegistered w.core id) :
    (w.core.actors.lookup id).isSome := by
  obtain ⟨name, handle, he⟩ := hr
  obtain ⟨s, hb, -⟩ := entry_seed h.sound he
  rcases h.spawned id s hb with ha | ⟨p, hm, -⟩
  · exact ha
  · rw [hjob] at hm; cases hm

theorem registered_of_claim {kind : OwnerKind} {claimant : Claimant}
    (hc : c.claimRegistered id kind claimant = some (key, c')) : isRegistered c id := by
  obtain ⟨name, handle, he, -⟩ := claimRegistered_eq hc
  exact ⟨name, handle, he⟩

theorem claim_actors {kind : OwnerKind} {claimant : Claimant} (hc : c.claimRegistered id kind claimant = some (key, c')) :
    c'.actors = c.actors := by
  obtain ⟨name, handle, he, -, rfl⟩ := claimRegistered_eq hc
  rfl

theorem claim_peopled {kind : OwnerKind} {claimant : Claimant} (hc : c.claimRegistered id kind claimant = some (key, c')) :
    Peopled c c' := .same (claim_actors hc)

/-- The loop of claims over members that all have their actors. -/
theorem claimAll_sound (kind : OwnerKind) (ids : List TaskId) (hs : Sound c) (hn : Named c)
    (ha : ∀ id s, c.born.lookup id = some s → (c.actors.lookup id).isSome) :
    Sound (c.claimAll kind ids) ∧ Narrowed c (c.claimAll kind ids) ∧ Peopled c (c.claimAll kind ids) := by
  let good (d : Core) : Prop := Sound d ∧ Narrowed c d ∧ Peopled c d
  have hstart : good c := ⟨hs, hn.keep rfl rfl rfl rfl, .same rfl⟩
  refine claimAll_keeps (P := good) ids hstart fun d d' i k hd hcl => ?_
  obtain ⟨name, handle, he⟩ := registered_of_claim hcl
  obtain ⟨s, hb, -⟩ := entry_seed hd.1 he
  have hactor : (d.actors.lookup i).isSome := by
    rw [hd.2.2 i]
    exact ha i s (hd.2.1.born ▸ hb)
  exact ⟨claim_sound hd.1 hactor hcl, hd.2.1.trans (hd.2.1.named.claim hcl), hd.2.2.trans (claim_peopled hcl)⟩

theorem launch_narrowed (hn : Named c) (key : Nat) (kind : OwnerKind) : Narrowed c (c.launch key kind) := by
  unfold Core.launch
  split
  · split <;> exact hn.keep rfl rfl rfl rfl
  · exact hn.keep rfl rfl rfl rfl

theorem launchAll_sound (kind : OwnerKind) (hs : Sound c) (hn : Named c) :
    Sound (World.launchAll c kind) ∧ Narrowed c (World.launchAll c kind) ∧ Peopled c (World.launchAll c kind) := by
  let good (d : Core) : Prop := Sound d ∧ Narrowed c d ∧ Peopled c d
  have hstart : good c := ⟨hs, hn.keep rfl rfl rfl rfl, .same rfl⟩
  refine launchAll_keeps (P := good) hstart (fun d id hd => ?_) fun d key hd => ?_
  · exact ⟨cancelToken_sound hd.1 id, hd.2.1.trans (hd.2.1.named.keep rfl rfl rfl rfl), hd.2.2.trans (.same rfl)⟩
  · exact ⟨launch_sound hd.1 key kind, hd.2.1.trans (launch_narrowed hd.2.1.named key kind),
      hd.2.2.trans (launch_peopled key kind)⟩

theorem openGate_narrowed (items : List PreparedRegistration) (hs : Sound c) (hn : Named c) :
    Sound (items.foldl Core.openGate c) ∧ Narrowed c (items.foldl Core.openGate c) := by
  induction items generalizing c with
  | nil => exact ⟨hs, hn.keep rfl rfl rfl rfl⟩
  | cons item items ih =>
      have hone : Narrowed c (c.openGate item) := by
        unfold Core.openGate
        split
        · split <;> exact hn.keep rfl rfl rfl rfl
        · exact hn.keep rfl rfl rfl rfl
      obtain ⟨h1, h2⟩ := ih (openGate_sound hs item) hone.named
      exact ⟨h1, hone.trans h2⟩

theorem unspawned_of_checking {job : Job} (h : checking job = true) : unspawned (some job) = [] := by
  cases job <;> first | rfl | cases h

theorem unspawned_start (command : RegistryCommand) : unspawned (some (World.start command)) = [] := by
  cases command <;> rfl

/-- The reservation is checked under the lock: the names stay free until the
entries go in. -/
theorem Settled.insert (h : Settled w) (hc : Incoming w) (hl : Latched w) {reg : Registration}
    (hjob : w.job = some (.lockedLimit reg)) :
    Settled { w with core := w.core.insertAll reg.items, job := some (.inserted reg) } := by
  obtain ⟨hnames, hfree⟩ := h.free reg hjob
  have hprep := hc.prepares
  have hids := hc.prepares_nodup
  rw [hjob] at hprep hids
  change (reg.items.map PreparedRegistration.id).Nodup at hids
  have hassigned : ∀ p ∈ reg.items, Assigned w p.id p.completion := fun p hp =>
    .inr (.inl ⟨p, by rw [hjob]; exact hp, rfl, rfl⟩)
  have hlatches : (reg.items.map PreparedRegistration.completion).Nodup := by
    refine (List.Nodup.of_map _ hids).map_on fun p hp q hq he => ?_
    exact List.inj_on_of_nodup_map hids hp hq
      (hl.injective p.id q.id p.completion (hassigned p hp) (he ▸ hassigned q hq))
  have hfresh : ∀ p ∈ reg.items, ∀ i t, w.core.born.lookup i = some t → t.completion ≠ p.completion := by
    intro p hp i t ht he
    have hi := hl.injective i p.id p.completion (.inr (.inr ⟨t, ht, he⟩)) (hassigned p hp)
    rw [hi, (hprep p hp).1] at ht
    cases ht
  obtain ⟨hs, hn⟩ := insertAll_sound h.sound h.named hids hnames hlatches (fun p hp => (hprep p hp).1) hfree hfresh
  have hactors := insertAll_actors (c := w.core) reg.items
  refine ⟨hs, hn, fun id s hb => ?_, fun p hp => ⟨?_, ?_⟩, hids, fun r hr => (nomatch hr)⟩
  · change ((w.core.insertAll reg.items).actors.lookup id).isSome ∨ _
    rw [hactors]
    rcases insertAll_born hb with ho | ⟨hm, he⟩
    · rcases h.spawned id s ho with ha | ⟨p, hp, -⟩
      · exact .inl ha
      · rw [hjob] at hp; cases hp
    · exact .inr ⟨s, hm, he⟩
  · exact insertAll_lookup hids hp
  · change (w.core.insertAll reg.items).actors.lookup p.id = none
    rw [hactors]
    exact (h.sound.blank p.id (hprep p hp).1).actor

theorem Settled.spawn (h : Settled w) {item : PreparedRegistration} {rest : List PreparedRegistration} {reg : Registration}
    (hjob : w.job = some (.spawning (item :: rest) reg)) :
    Settled { w with core := w.core.spawn item, job := some (.spawning rest reg) } := by
  have hwait := h.waiting
  have hnodup := h.waiting_nodup
  rw [hjob] at hwait hnodup
  obtain ⟨hborn, hactor⟩ := hwait item List.mem_cons_self
  change ((item :: rest).map PreparedRegistration.id).Nodup at hnodup
  rw [List.map_cons, List.nodup_cons] at hnodup
  have hlook : ∀ i, (w.core.spawn item).actors.lookup i =
      if i = item.id then some ⟨item.name, .gated, none, false⟩ else w.core.actors.lookup i :=
    fun i => Table.lookup_insert_ite _ _ _ _
  have hnarrow : Narrowed w.core (w.core.spawn item) := h.named.keep rfl rfl rfl rfl
  refine ⟨spawn_sound h.sound hborn hactor, hnarrow.named, fun id s hb => ?_, fun p hp => ⟨?_, ?_⟩,
    hnodup.2, fun r hr => (nomatch hr)⟩
  · change ((w.core.spawn item).actors.lookup id).isSome ∨ _
    rw [hlook]
    split
    · exact .inl rfl
    · next hne =>
      rcases h.spawned id s hb with ha | ⟨p, hp, he⟩
      · exact .inl ha
      · rw [hjob] at hp
        rcases List.mem_cons.mp hp with rfl | hp
        · exact absurd he.symm hne
        · exact .inr ⟨p, hp, he⟩
  · exact (hwait p (List.mem_cons_of_mem _ hp)).1
  · change (w.core.spawn item).actors.lookup p.id = none
    rw [hlook, if_neg fun he : p.id = item.id => hnodup.1 (he ▸ List.mem_map_of_mem hp)]
    exact (hwait p (List.mem_cons_of_mem _ hp)).2

theorem claimAll_actors (kind : OwnerKind) (ids : List TaskId) : (c.claimAll kind ids).actors = c.actors :=
  claimAll_keeps (P := fun d => d.actors = c.actors) ids rfl fun _ _ _ _ hd hc => (claim_actors hc).trans hd

theorem launchAll_actors (kind : OwnerKind) : (World.launchAll c kind).actors = c.actors :=
  launchAll_keeps (P := fun d => d.actors = c.actors) rfl (fun _ _ hd => hd) fun _ key hd => (launch_actors key kind).trans hd

/-- Actors stay, and only a gated one changes its phase. -/
def Tended (c c' : Core) : Prop :=
  ∀ id actor, c.actors.lookup id = some actor →
    ∃ actor', c'.actors.lookup id = some actor' ∧ (actor'.phase = actor.phase ∨ actor.phase = .gated)

theorem Tended.same (h : c'.actors = c.actors) : Tended c c' :=
  fun _ actor ha => ⟨actor, by rw [h]; exact ha, .inl rfl⟩

theorem Tended.trans {c'' : Core} (h : Tended c c') (h' : Tended c' c'') : Tended c c'' := by
  intro id actor ha
  obtain ⟨actor', ha', hp | hp⟩ := h id actor ha
  · obtain ⟨actor'', ha'', hp'⟩ := h' id actor' ha'
    rw [hp] at hp'
    exact ⟨actor'', ha'', hp'⟩
  · obtain ⟨actor'', ha'', -⟩ := h' id actor' ha'
    exact ⟨actor'', ha'', .inr hp⟩

theorem Tended.put {i : TaskId} {old new : Actor} (h : c.actors.lookup i = some old)
    (hp : new.phase = old.phase ∨ old.phase = .gated) : Tended c (c.putActor i new) := by
  intro id actor ha
  by_cases hi : id = i
  · subst hi
    obtain rfl := Option.some.inj (h.symm.trans ha)
    exact ⟨new, AList.lookup_insert _, hp⟩
  · exact ⟨actor, (AList.lookup_insert_ne hi).trans ha, .inl rfl⟩

theorem requestAbort_tended (id : TaskId) : Tended c (c.requestAbort id) := by
  unfold Core.requestAbort
  split
  · next actor ha => exact Tended.put ha (.inl rfl)
  · exact .same rfl

theorem openGate_tended (items : List PreparedRegistration) : Tended c (items.foldl Core.openGate c) := by
  induction items generalizing c with
  | nil => exact .same rfl
  | cons item items ih =>
      have hone : Tended c (c.openGate item) := by
        unfold Core.openGate
        split
        · next actor ha =>
          split
          · next hgated => exact Tended.put ha (.inr hgated)
          · exact .same rfl
        · exact .same rfl
      exact hone.trans ih

theorem stepOwner_tended {action : Core.OwnerAction} (h : c.stepOwner key action = some c') : Tended c c' := by
  rcases stepOwner_actors h with ha | ⟨id, ha⟩
  · exact .same ha
  · exact (requestAbort_tended id).trans (.same ha)

theorem work_tended (h : Settled w) {job : Job} (hjob : w.job = some job) (hs : Worked w job w') :
    Tended w.core w'.core := by
  cases hs with
  | insert reg => exact .same (insertAll_actors reg.items)
  | spawn item rest reg =>
      intro id actor ha
      have hnone := (h.waiting item (by rw [hjob]; exact List.mem_cons_self)).2
      have hne : id ≠ item.id := by
        rintro rfl
        rw [hnone] at ha
        cases ha
      exact ⟨actor, (AList.lookup_insert_ne hne).trans ha, .inl rfl⟩
  | openGate reg => exact openGate_tended reg.items
  | win _ _ _ _ _ _ _ _ hclaim _ => exact .same (claim_actors hclaim)
  | cancelToken key d =>
      obtain ⟨reply, target, answer⟩ := d
      cases target <;> exact .same rfl
  | launch key d => exact .same (launch_actors key .detached)
  | signal _ _ _ hclaim => exact .same (claim_actors hclaim)
  | ready key => exact .same (launch_actors key .inline)
  | unready key => exact .same (launch_actors key .detached)
  | _ => exact .same rfl

/-- An actor changes its phase when its gate opens or with a step of its own. -/
theorem actor_step (h : Settled w) (hs : Stepped cfg w a w') {actor : Actor} (ha : w.core.actors.lookup id = some actor) :
    ∃ actor', w'.core.actors.lookup id = some actor' ∧ (actor'.phase = actor.phase ∨ actor.phase = .gated ∨
      ∃ action, a = .actor id action ∧ w.core.stepActor id action = some w'.core) := by
  have htended (ht : Tended w.core w'.core) : ∃ actor', w'.core.actors.lookup id = some actor' ∧
      (actor'.phase = actor.phase ∨ actor.phase = .gated ∨
        ∃ action, a = .actor id action ∧ w.core.stepActor id action = some w'.core) := by
    obtain ⟨actor', ha', hp⟩ := ht id actor ha
    exact ⟨actor', ha', hp.imp_right .inl⟩
  cases hs with
  | call key caller v hk hcall => exact htended (.same (congrArg Core.actors (call_core hcall)))
  | shutdownStep instr todo v htodo hstep =>
      cases shutdownStep_cases hstep with
      | claim => exact htended (.same (claimAll_actors (.shutdown false) _))
      | cancel => exact htended (.same (launchAll_actors (.shutdown false)))
      | _ => exact htended (.same rfl)
  | listen branch v hjob hlisten =>
      cases hlisten with
      | claim => exact htended (.same (claimAll_actors (.shutdown true) _))
      | cancel => exact htended (.same (launchAll_actors (.shutdown true)))
      | _ => exact htended (.same rfl)
  | work job v hjob hwork => exact htended (work_tended h hjob hwork)
  | owner key action o core ho hfree hcore => exact htended (stepOwner_tended hcore)
  | reap key poisoned core hcore => exact htended (.same (stepReap_actors hcore))
  | actor i action core completions hcore =>
      by_cases hi : i = id
      · subst hi
        have hsome : (core.actors.lookup i).isSome := by
          rw [stepActor_peopled hcore i, ha]
          rfl
        obtain ⟨actor', ha'⟩ := Option.isSome_iff_exists.mp hsome
        exact ⟨actor', ha', .inr (.inr ⟨action, rfl, hcore⟩)⟩
      · obtain ⟨old, new, ho, rfl⟩ := stepActor_put hcore
        exact ⟨actor, (AList.lookup_insert_ne (Ne.symm hi)).trans ha, .inl rfl⟩
  | _ => exact htended (.same rfl)

theorem Settled.claim (h : Settled w) (hidle : unspawned w.job = []) {kind : OwnerKind} {claimant : Claimant}
    (hc : w.core.claimRegistered id kind claimant = some (key, c)) {job : Option Job} (hjob : unspawned job = [])
    (hlimit : ∀ reg, job ≠ some (.lockedLimit reg)) : Settled { w with core := c, job } :=
  h.between hidle (claim_sound h.sound (h.actor_of_registered hidle (registered_of_claim hc)) hc) (h.named.claim hc)
    (claim_peopled hc) rfl hjob hlimit

theorem Settled.work (h : Settled w) (hc : Incoming w) (hl : Latched w) {job : Job} (hjob : w.job = some job)
    (hs : Worked w job w') : Settled w' := by
  -- The handler moves on and leaves the registry as it is.
  have hstay {v : World} (hcore : v.core = w.core) (hold : unspawned (some job) = []) (hnew : unspawned v.job = [])
      (hlimit : ∀ reg, v.job ≠ some (.lockedLimit reg)) : Settled v :=
    h.between (hjob ▸ hold) h.sound (h.named.keep rfl rfl rfl rfl) (.same rfl) hcore hnew hlimit
  cases hs with
  | reject job reply batch dones error hreply hch => exact hstay rfl (unspawned_of_checking hch) rfl fun _ hx => nomatch hx
  | names req current => exact hstay rfl rfl rfl fun _ hx => nomatch hx
  | limit req current => exact hstay rfl rfl rfl fun _ hx => nomatch hx
  | prepare req => exact hstay rfl rfl rfl fun _ hx => nomatch hx
  | free reg hfree =>
      obtain ⟨hnames, htaken⟩ := firstConflict_none.mp hfree
      refine ⟨h.sound, h.named, ?_, (fun p hp => nomatch hp), List.nodup_nil, fun r hr => ?_⟩
      · have hspawned := h.spawned
        rw [hjob] at hspawned
        exact hspawned
      · cases hr
        exact ⟨hnames, fun p hp => takenName_false h.sound h.named (htaken p.name (List.mem_map_of_mem hp)).1⟩
  | insert reg => exact h.insert hc hl hjob
  | accept reg =>
      have hspawned := h.spawned
      have hwait := h.waiting
      have hnodup := h.waiting_nodup
      rw [hjob] at hspawned hwait hnodup
      exact ⟨h.sound, h.named, hspawned, hwait, hnodup, fun r hr => (nomatch hr)⟩
  | spawn item rest reg => exact h.spawn hjob
  | openGate reg =>
      obtain ⟨hsound, hnarrow⟩ := openGate_narrowed reg.items h.sound h.named
      exact h.between (by rw [hjob]; rfl) hsound hnarrow (openGate_peopled _) rfl rfl fun _ hx => nomatch hx
  | lose job target d hj => rcases hj with rfl | rfl <;> exact hstay rfl rfl rfl fun _ hx => nomatch hx
  | win job target d id key core hj htarget hclaim =>
      have hidle : unspawned w.job = [] := by rcases hj with rfl | rfl <;> (rw [hjob]; rfl)
      exact h.claim hidle hclaim rfl fun _ hx => nomatch hx
  | cancelToken key d =>
      obtain ⟨reply, target, answer⟩ := d
      cases target with
      | none => exact hstay rfl rfl rfl fun _ hx => nomatch hx
      | some id =>
          exact h.between (by rw [hjob]; rfl) (cancelToken_sound h.sound id) (h.named.keep rfl rfl rfl rfl) (.same rfl) rfl rfl
            fun _ hx => nomatch hx
  | reply key d => exact hstay rfl rfl rfl fun _ hx => nomatch hx
  | launch key d =>
      exact h.between (by rw [hjob]; rfl) (launch_sound h.sound key .detached) (launch_narrowed h.named key .detached)
        (launch_peopled key .detached) rfl rfl fun _ hx => nomatch hx
  | signal id key core hclaim => exact h.claim (by rw [hjob]; rfl) hclaim rfl fun _ hx => nomatch hx
  | stale id => exact hstay rfl rfl rfl fun _ hx => nomatch hx
  | ready key =>
      exact h.between (by rw [hjob]; rfl) (launch_sound h.sound key .inline) (launch_narrowed h.named key .inline)
        (launch_peopled key .inline) rfl rfl fun _ hx => nomatch hx
  | unready key =>
      exact h.between (by rw [hjob]; rfl) (launch_sound h.sound key .detached) (launch_narrowed h.named key .detached)
        (launch_peopled key .detached) rfl rfl fun _ hx => nomatch hx
  | joined key => exact hstay rfl rfl rfl fun _ hx => nomatch hx

theorem Settled.actors (h : Settled w) (hidle : unspawned w.job = []) :
    ∀ id s, w.core.born.lookup id = some s → (w.core.actors.lookup id).isSome := by
  intro id s hb
  rcases h.spawned id s hb with ha | ⟨p, hm, -⟩
  · exact ha
  · rw [hidle] at hm; cases hm

theorem Settled.listen (h : Settled w) (hjob : w.job = none) (hs : Listened w w') : Settled w' := by
  have hidle : unspawned w.job = [] := by rw [hjob]; rfl
  have hstay {v : World} (hcore : v.core = w.core) (hnew : unspawned v.job = [])
      (hlimit : ∀ reg, v.job ≠ some (.lockedLimit reg)) : Settled v :=
    h.between hidle h.sound (h.named.keep rfl rfl rfl rfl) (.same rfl) hcore hnew hlimit
  have hnone {v : World} (hv : v.job = w.job) : unspawned v.job = [] ∧ ∀ reg, v.job ≠ some (.lockedLimit reg) := by
    rw [hv, hjob]
    exact ⟨rfl, fun _ hx => nomatch hx⟩
  cases hs with
  | command command rest mode hc hmode =>
      refine hstay rfl (unspawned_start command) fun reg hx => ?_
      cases command <;> cases hx
  | completion id rest hmode hc => exact hstay rfl rfl fun _ hx => nomatch hx
  | claim hmode =>
      obtain ⟨h1, h2, h3⟩ := claimAll_sound (.shutdown true) w.core.tasks.keys h.sound h.named (h.actors hidle)
      exact h.recore h1 h2 h3 rfl rfl
  | cancel hmode =>
      obtain ⟨h1, h2, h3⟩ := launchAll_sound (.shutdown true) h.sound h.named
      exact h.recore h1 h2 h3 rfl rfl
  | _ => exact hstay rfl (hnone rfl).1 (hnone rfl).2

/-- The shutdown owner claims only after the fence, when no admission is at
work. -/
theorem Settled.shutdownStep (h : Settled w) (hf : Fenced w) {instr : ShutdownInstr} {todo : List ShutdownInstr}
    (hs : w.shutdown = some (instr :: todo)) (hstep : w.shutdownStep instr todo = some w') : Settled w' := by
  have hstay {v : World} (hcore : v.core = w.core) (hjob : v.job = w.job) : Settled v :=
    h.recore h.sound (h.named.keep rfl rfl rfl rfl) (.same rfl) hcore hjob
  cases shutdownStep_cases hstep with
  | claim =>
      have hack : w.acks ≠ [] := (hf.claims _ hs).resolve_right fun hx => nomatch hx
      have hidle : unspawned w.job = [] := by
        cases hj : w.job with
        | none => rfl
        | some job =>
            have hcom := (hf.drained (.inl hack)).2 job hj
            cases job <;> first | rfl | cases hcom
      obtain ⟨h1, h2, h3⟩ := claimAll_sound (.shutdown false) w.core.tasks.keys h.sound h.named (h.actors hidle)
      exact h.recore h1 h2 h3 rfl rfl
  | cancel =>
      obtain ⟨h1, h2, h3⟩ := launchAll_sound (.shutdown false) h.sound h.named
      exact h.recore h1 h2 h3 rfl rfl
  | _ => exact hstay rfl rfl

theorem Settled.step (h : Settled w) (hf : Fenced w) (hc : Incoming w) (hl : Latched w) (hs : Stepped cfg w a w') :
    Settled w' := by
  have hstay {v : World} (hcore : v.core = w.core) (hjob : v.job = w.job) : Settled v :=
    h.recore h.sound (h.named.keep rfl rfl rfl rfl) (.same rfl) hcore hjob
  cases hs with
  | call key caller v hk hcall => cases hcall <;> exact hstay rfl rfl
  | shutdownStep instr todo v htodo hstep => exact h.shutdownStep hf htodo hstep
  | listen branch v hjob hlisten => exact h.listen hjob hlisten
  | work job v hjob hwork => exact h.work hc hl hjob hwork
  | owner key action o core ho hfree hcore =>
      exact h.recore (h.sound.stepOwner hcore) (h.named.stepOwner h.sound hcore) (stepOwner_peopled hcore) rfl rfl
  | reap key poisoned core hcore =>
      exact h.recore (stepReap_sound h.sound hcore) (h.named.stepReap h.sound hcore) (.same (stepReap_actors hcore)) rfl rfl
  | actor id action core completions hcore =>
      exact h.recore (stepActor_sound h.sound hcore) (stepActor_narrowed h.named hcore) (stepActor_peopled hcore) rfl rfl
  | _ => exact hstay rfl rfl

/-- Everything that holds in every state of the service. -/
structure Steady (w : World) : Prop where
  gated : Gated w
  numbered : Numbered w
  fenced : Fenced w
  identified : Identified w
  incoming : Incoming w
  latched : Latched w
  settled : Settled w

theorem Steady.step (h : Steady w) (hs : w.step cfg a = some w') : Steady w' :=
  have hc := step_cases hs
  ⟨h.gated.step hc, h.numbered.step h.gated hc, h.fenced.step h.gated hc, h.identified.step h.gated hc,
    h.incoming.step h.fenced h.identified hc, h.latched.step h.fenced h.incoming h.identified hc,
    h.settled.step h.fenced h.incoming h.latched hc⟩

theorem steady_of_reachable (h : (machine cfg).Reachable w) : Steady w :=
  h.invariant ⟨Gated.new, Numbered.new, Fenced.new, Identified.new, Incoming.new, Latched.new, Settled.new⟩
    fun _ _ _ _ hs hstep => hs.step hstep

def smallConfig : RegistryConfig := ⟨.four, none⟩

/-- A call goes through to its command, and the listener takes it. -/
def sendRun (key : Nat) (call : Call) : List World.Action :=
  .begin call :: List.replicate call.script.length (.call key) ++ [.listen .command, .listen .command]

/-- One task is added and its actor runs. -/
def addRun : List World.Action := sendRun 0 (.addTask ⟨1, "a", some 10, none⟩) ++ List.replicate 8 .work

end Taskvisor.Registry.Reach
