import Taskvisor.Registry.Lifecycle

namespace Taskvisor.Registry.Moves

open Lib Runtime.Base Reaper State Lifecycle

variable {c c' : Core} {s : PreparedRegistration} {id : TaskId} {key : Nat} {o : Owner} {r : Reap}

theorem reap_seed (h : Sound c) (hk : c.reaps.lookup key = some r) :
    ∃ s, s.id = r.id ∧ c.born.lookup s.id = some s ∧ (view c s.id).reaps key = some r ∧ Life c s := by
  have hv : (view c r.id).reaps key = some r := reapsOf_eq_some.mpr ⟨hk, rfl⟩
  obtain ⟨s, hs, hid⟩ := h.born_of_view r.id fun hb => by
    have hnone := hb.reaps key
    rw [hv] at hnone
    cases hnone
  exact ⟨s, hid, by rw [hid]; exact hs, by rw [hid]; exact hv, h.life _ _ hs⟩

/-- A reap future changes; other identities do not see it. -/
theorem putReap_view (hk : c.reaps.lookup key = some r) (stage : ReapStage) {i : TaskId} (hne : i ≠ r.id) :
    reapsOf (c.reaps.insert key { r with stage }) i = reapsOf c.reaps i :=
  reapsOf_insert_ne (reapsOf_other hk hne) hne

theorem reapKeys_insert (h : Sound c) (hk : c.reaps.lookup key = some r) {r' : Reap} :
    ∀ k r₁, (c.reaps.insert key r').lookup k = some r₁ → k < c.nextReap := by
  intro k r₁ hr
  obtain ⟨rfl, -⟩ | ⟨-, hr⟩ := Table.of_lookup_insert hr
  · exact h.reapKeys _ _ hk
  · exact h.reapKeys _ _ hr

/-- A reap future that still waits belongs to a reserved record. -/
theorem waiting_body {v : View} {physical : Prop} {phase : Phase} (hb : Body s v physical phase)
    (hv : v.reaps key = some r) (hstage : r.stage = .waiting) :
    r = ⟨s.id, s.completion, .waiting⟩ ∧ Only v.reaps key ⟨s.id, s.completion, .waiting⟩ ∧ ¬ physical ∧
      (phase = .closing ∧ v.records = some [⟨s.name, false, false, s.completion, none, none, false⟩] ∨
        phase = .attached ∧ v.records =
          some [⟨s.name, false, true, s.completion, some ⟨some s.completion, s.completion⟩, none, false⟩]) := by
  cases hb with
  | idle _ hreap _ => rw [hreap key] at hv; cases hv
  | reserved _ hreap _ => rw [hreap key] at hv; cases hv
  | joined _ _ hreap _ => rw [hreap key] at hv; cases hv
  | reaping k hrec hreap hlatch =>
      obtain ⟨rfl, hr⟩ := hreap.eq hv
      exact ⟨hr, hreap, hlatch, .inl ⟨rfl, hrec⟩⟩
  | reaped _ _ _ hreap _ => rw [hreap _ _ hv] at hstage; cases hstage
  | waiting k hrec hreap hlatch =>
      obtain ⟨rfl, hr⟩ := hreap.eq hv
      exact ⟨hr, hreap, hlatch, .inr ⟨rfl, hrec⟩⟩
  | settling _ _ hreap =>
      obtain ⟨_, he, -⟩ := hreap _ _ hv
      rw [he] at hstage
      cases hstage
  | released _ _ hreap =>
      obtain ⟨_, he, -⟩ := hreap _ _ hv
      rw [he] at hstage
      cases hstage

/-- After its own future settled, no reap future of the registration is left
waiting. -/
theorem settled_reaps {effects : List Effect} (ho : Only (reapsOf c.reaps s.id) key ⟨s.id, s.completion, .waiting⟩)
    {k : Nat} {r' : Reap}
    (hk : reapsOf (c.reaps.insert key ⟨s.id, s.completion, .settling effects⟩) s.id k = some r') :
    r'.stage = .settling effects := by
  rw [reapsOf_insert, if_pos rfl, ho k] at hk
  split at hk
  · cases hk; rfl
  · cases hk

theorem reap_waiting (h : Sound c) (hk : c.reaps.lookup key = some r) (hstage : r.stage = .waiting)
    (hj : (c.joined r.id).isSome) {poisoned : Bool} {ready : Option ReadyRecord} {reaper : ReaperState}
    (hp : c.reaper.completePhysical r.id r.release poisoned = (ready, reaper)) :
    Sound { c with
      reaper
      reaps := c.reaps.insert key { r with stage := .settling ((ready.map ReadyRecord.effects).getD []) } } := by
  obtain ⟨s, hid, hs, hv, hlife⟩ := reap_seed h hk
  obtain ⟨outcome, hj⟩ := Option.isSome_iff_exists.mp hj
  have hexit : Exited (view c s.id) := hid ▸ exited_of_joined hj
  obtain ⟨hname, phase, hm, hb⟩ := hlife
  obtain ⟨rfl, honly, hlatch, hrec⟩ := waiting_body hb hv hstage
  rcases hrec with ⟨rfl, hrec⟩ | ⟨rfl, hrec⟩
  · rw [ReaperState.completePhysical_first hrec] at hp
    cases hp
    refine h.rebody hs ?_ rfl rfl rfl rfl rfl rfl hname (fun ha => ha) hm (.reaped poisoned hexit ?_ ?_ hlatch)
    · refine ⟨rfl, fun i hne => ?_, fun _ _ => Iff.rfl, fun _ _ => Iff.rfl, h.ownerKeys, reapKeys_insert h hk⟩
      exact View.ext rfl rfl rfl rfl (putReap_view hk _ hne) (AList.lookup_insert_ne hne) rfl rfl
    · exact ReaperState.putRecord_single hrec _
    · exact fun k r' hr => settled_reaps honly hr
  · rw [ReaperState.completePhysical_second hrec] at hp
    cases hp
    refine h.rebody hs ?_ rfl rfl rfl rfl rfl rfl hname (fun ha => ha) hm (.released hexit (AList.lookup_erase _ _) ?_)
    · refine ⟨rfl, fun i hne => ?_, fun _ _ => Iff.rfl, fun _ _ => Iff.rfl, h.ownerKeys, reapKeys_insert h hk⟩
      refine View.ext rfl rfl rfl rfl (putReap_view hk _ hne) ?_ rfl rfl
      exact (AList.lookup_erase_ne hne).trans (AList.lookup_insert_ne hne)
    · intro k r' hr
      refine ⟨_, settled_reaps honly hr, fun effect he => ?_⟩
      simp only [Option.map_some, Option.getD_some, ReadyRecord.effects, TerminalReleases.latches, Option.toList_some,
        Option.map_none, Option.getD_none, List.cons_append, List.nil_append, List.append_nil, List.map_cons, List.map_nil,
        List.mem_cons, List.not_mem_nil, or_false, or_self] at he
      exact he

/-- A reap future with effects left meets an actor that is gone. -/
theorem settling_body {v : View} {physical : Prop} {phase : Phase} (hb : Body s v physical phase)
    (hv : v.reaps key = some r) {effect : Effect} {effects : List Effect} (hstage : r.stage = .settling (effect :: effects)) :
    Exited v ∧ v.records = none ∧ Delivered s v ∧ (phase = .settling ∨ phase = .attached) := by
  cases hb with
  | idle _ hreap _ => rw [hreap key] at hv; cases hv
  | reserved _ hreap _ => rw [hreap key] at hv; cases hv
  | joined _ _ hreap _ => rw [hreap key] at hv; cases hv
  | reaping k _ hreap _ => rw [(hreap.eq hv).2] at hstage; cases hstage
  | reaped _ _ _ hreap _ => rw [hreap _ _ hv] at hstage; cases hstage
  | waiting k _ hreap _ => rw [(hreap.eq hv).2] at hstage; cases hstage
  | settling hexit hrec hreap => exact ⟨hexit, hrec, hreap, .inl rfl⟩
  | released hexit hrec hreap => exact ⟨hexit, hrec, hreap, .inr rfl⟩

theorem body_of_delivered {v : View} {physical : Prop} {phase : Phase} (hexit : Exited v) (hrec : v.records = none)
    (hreap : Delivered s v) (hphase : phase = .settling ∨ phase = .attached) : Body s v physical phase := by
  rcases hphase with rfl | rfl
  · exact .settling hexit hrec hreap
  · exact .released hexit hrec hreap

/-- Once the actor is gone and its record released, its latch may complete. -/
theorem effect_sound (h : Sound c) (hs : c.born.lookup s.id = some s) {effect : Effect} (he : Mine s effect)
    (hexit : Exited (view c s.id)) (hrec : (view c s.id).records = none) (hreap : Delivered s (view c s.id)) {phase : Phase}
    (hphase : phase = .settling ∨ phase = .attached) (hm : Member s (view c s.id) (s.completion ∈ c.logical) phase) :
    Sound (c.applyEffect effect) := by
  have hl := applyEffect_local h he
  have hname := (h.life _ _ hs).name
  have hbody : Body s (view (c.applyEffect effect) s.id) (s.completion ∈ (c.applyEffect effect).physical) phase := by
    rw [applyEffect_view]
    exact body_of_delivered hexit hrec hreap hphase
  cases effect with
  | uncount => exact h.rebody hs hl rfl rfl rfl rfl rfl rfl hname (fun ha => ha) hm hbody
  | physical latch => exact h.rebody hs hl rfl rfl rfl rfl rfl rfl hname (fun ha => ha) hm hbody

/-- A reap future that is past its rendezvous moves on or ends. -/
theorem reap_rest (h : Sound c) (hk : c.reaps.lookup key = some r) {reaps : Table Nat Reap}
    (hother : ∀ i, i ≠ r.id → reapsOf reaps i = reapsOf c.reaps i)
    (hkeys : ∀ k r', reaps.lookup k = some r' → k < c.nextReap) (hpast : r.stage ≠ .waiting)
    (hquiet : ∀ k r', reapsOf reaps r.id k = some r' → reapsOf c.reaps r.id k = some r' ∨
      ∃ effects, r'.stage = .settling effects ∧ ∀ effect ∈ effects, ∃ rest, r.stage = .settling rest ∧ effect ∈ rest) :
    Sound { c with reaps } := by
  obtain ⟨s, hid, hs, hv, hlife⟩ := reap_seed h hk
  obtain ⟨hname, phase, hm, hb⟩ := hlife
  have hl : Local c { c with reaps } s := by
    refine ⟨rfl, fun i hne => ?_, fun _ _ => Iff.rfl, fun _ _ => Iff.rfl, h.ownerKeys, hkeys⟩
    exact View.ext rfl rfl rfl rfl (hother i (hid ▸ hne)) rfl rfl rfl
  have hdelivered : Delivered s (view c s.id) → Delivered s (view { c with reaps } s.id) := by
    intro hreap k r' hr
    rcases hquiet k r' (hid ▸ hr) with hold | ⟨effects, hst, hall⟩
    · exact hreap k r' (hid ▸ hold)
    · obtain ⟨rest, hrest, hmine⟩ := hreap key r hv
      refine ⟨effects, hst, fun effect he => ?_⟩
      obtain ⟨rest', hr', hin⟩ := hall effect he
      rw [hrest] at hr'
      cases hr'
      exact hmine effect hin
  refine h.rebody hs hl rfl rfl rfl rfl rfl rfl hname (fun ha => ha) hm ?_
  cases hb with
  | idle _ hreap _ => rw [hreap key] at hv; cases hv
  | reserved _ hreap _ => rw [hreap key] at hv; cases hv
  | joined _ _ hreap _ => rw [hreap key] at hv; cases hv
  | reaping k _ hreap _ => exact absurd (by rw [(hreap.eq hv).2]) hpast
  | waiting k _ hreap _ => exact absurd (by rw [(hreap.eq hv).2]) hpast
  | reaped p hexit hrec hreap hlatch =>
      refine .reaped p hexit hrec (fun k r' hr => ?_) hlatch
      rcases hquiet k r' (hid ▸ hr) with hold | ⟨effects, hst, hall⟩
      · exact hreap k r' (hid ▸ hold)
      · rw [hst]
        cases effects with
        | nil => rfl
        | cons effect effects =>
            obtain ⟨rest, hrest, hin⟩ := hall effect List.mem_cons_self
            rw [hreap key r hv] at hrest
            cases hrest
            cases hin
  | settling hexit hrec hreap => exact .settling hexit hrec (hdelivered hreap)
  | released hexit hrec hreap => exact .released hexit hrec (hdelivered hreap)

theorem reap_settling (h : Sound c) (hk : c.reaps.lookup key = some r) {effect : Effect} {effects : List Effect}
    (hstage : r.stage = .settling (effect :: effects)) :
    Sound { c.applyEffect effect with reaps := c.reaps.insert key { r with stage := .settling effects } } := by
  obtain ⟨s, hid, hs, hv, hlife⟩ := reap_seed h hk
  obtain ⟨hname, phase, hm, hb⟩ := hlife
  obtain ⟨hexit, hrec, hreap, hphase⟩ := settling_body hb hv hstage
  obtain ⟨rest, hrest, hmine⟩ := hreap key r hv
  rw [hstage] at hrest
  cases hrest
  have h₁ := effect_sound h hs (hmine effect List.mem_cons_self) hexit hrec hreap hphase hm
  have hreaps : (c.applyEffect effect).reaps = c.reaps := by cases effect <;> rfl
  have hnext : (c.applyEffect effect).nextReap = c.nextReap := by cases effect <;> rfl
  refine reap_rest h₁ (hreaps.symm ▸ hk) ?_ ?_ (by rw [hstage]; exact fun he => nomatch he) ?_
  · intro i hne
    rw [hreaps]
    exact putReap_view hk _ hne
  · rw [hnext]
    exact reapKeys_insert h hk
  · intro k r' hr
    rw [reapsOf_insert, if_pos rfl] at hr
    rw [hreaps]
    split at hr
    · cases hr
      exact .inr ⟨effects, rfl, fun e he => ⟨_, hstage, List.mem_cons_of_mem _ he⟩⟩
    · exact .inl hr

theorem reap_end (h : Sound c) (hk : c.reaps.lookup key = some r) (hstage : r.stage = .settling []) :
    Sound { c with reaps := c.reaps.erase key } := by
  refine reap_rest h hk (fun i hne => reapsOf_erase_ne (reapsOf_other hk hne)) ?_ (by rw [hstage]; exact fun he => nomatch he)
    ?_
  · exact fun k r' hr => h.reapKeys _ _ (Table.of_lookup_erase hr).2
  · intro k r' hr
    rw [reapsOf_erase] at hr
    split at hr
    · cases hr
    · exact .inl hr

theorem stepReap_sound (h : Sound c) {poisoned : Bool} (hs : c.stepReap key poisoned = some c') : Sound c' := by
  unfold Core.stepReap at hs
  split at hs
  · cases hs
  · next r hk =>
    split at hs
    · next hstage =>
      split at hs
      · next hj => cases hs; exact reap_waiting h hk hstage hj rfl
      · cases hs
    · next hstage => cases hs; exact reap_settling h hk hstage
    · next hstage => cases hs; exact reap_end h hk hstage

/-- The actor changes without leaving its end behind. -/
theorem Body.reactor {v v' : View} {physical : Prop} {phase : Phase} (h : Body s v physical phase)
    (ha : Exited v → Exited v') (hr : v'.reaps = v.reaps) (hk : v'.records = v.records) : Body s v' physical phase := by
  have hdelivered : Delivered s v → Delivered s v' := fun hd k r he => hd k r (hr ▸ he)
  cases h with
  | idle hrec hreap hlatch => exact .idle (hk.trans hrec) (hr ▸ hreap) hlatch
  | reserved hrec hreap hlatch => exact .reserved (hk.trans hrec) (hr ▸ hreap) hlatch
  | joined hexit hrec hreap hlatch => exact .joined (ha hexit) (hk.trans hrec) (hr ▸ hreap) hlatch
  | reaping key hrec hreap hlatch => exact .reaping key (hk.trans hrec) (hr ▸ hreap) hlatch
  | reaped p hexit hrec hreap hlatch => exact .reaped p (ha hexit) (hk.trans hrec) (hr ▸ hreap) hlatch
  | waiting key hrec hreap hlatch => exact .waiting key (hk.trans hrec) (hr ▸ hreap) hlatch
  | settling hexit hrec hreap => exact .settling (ha hexit) (hk.trans hrec) (hdelivered hreap)
  | released hexit hrec hreap => exact .released (ha hexit) (hk.trans hrec) (hdelivered hreap)

section Actors

variable {a a' : Actor}

theorem putActor_local (h : Sound c) (a : Actor) : Local c (c.putActor s.id a) s := by
  refine ⟨rfl, fun i hne => ?_, fun _ _ => Iff.rfl, fun _ _ => Iff.rfl, h.ownerKeys, h.reapKeys⟩
  exact View.ext rfl rfl rfl (AList.lookup_insert_ne hne) rfl rfl rfl rfl

theorem putActor_sound (h : Sound c) (hs : c.born.lookup s.id = some s)
    (hrun : ∀ a, c.actors.lookup s.id = some a → a.phase ≠ .exited) (hname : a'.name = s.name) :
    Sound (c.putActor s.id a') := by
  obtain ⟨-, phase, hm, hb⟩ := h.life _ _ hs
  have hnew : (c.putActor s.id a').actors.lookup s.id = some a' := AList.lookup_insert _
  refine h.rebody hs (putActor_local h a') rfl rfl rfl rfl rfl rfl ?_ ?_ hm (Body.reactor hb ?_ rfl rfl)
  · intro b hb
    rw [hnew] at hb
    exact Option.some.inj hb ▸ hname
  · intro _
    rw [hnew]
    rfl
  · rintro ⟨b, hb, he⟩
    exact absurd he (hrun b hb)

theorem actor_seed (h : Sound c) (ha : c.actors.lookup id = some a) :
    ∃ s, s.id = id ∧ c.born.lookup s.id = some s ∧ a.name = s.name := by
  obtain ⟨s, hs, hid⟩ := h.born_of_view id fun hb => by
    have hnone : c.actors.lookup id = none := hb.actor
    rw [ha] at hnone
    cases hnone
  exact ⟨s, hid, by rw [hid]; exact hs, (h.life _ _ hs).name a (by rw [hid]; exact ha)⟩

/-- An actor that has not exited runs on. -/
theorem actor_sound (h : Sound c) (ha : c.actors.lookup id = some a) (hrun : a.phase ≠ .exited) (hname : a'.name = a.name) :
    Sound (c.putActor id a') := by
  obtain ⟨s, rfl, hs, hn⟩ := actor_seed h ha
  refine putActor_sound h hs (fun b hb => ?_) (hname.trans hn)
  rw [ha] at hb
  exact Option.some.inj hb ▸ hrun

theorem stepActor_sound (h : Sound c) {action : Core.ActorAction} (hs : c.stepActor id action = some c') : Sound c' := by
  unfold Core.stepActor at hs
  split at hs
  · cases hs
  · next a ha =>
    split at hs
    · next hp => cases hs; exact actor_sound h ha (by rw [hp]; exact fun he => nomatch he) rfl
    · next hp => cases hs; exact actor_sound h ha (by rw [hp]; exact fun he => nomatch he) rfl
    · next hp => cases hs; exact actor_sound h ha (by rw [hp]; exact fun he => nomatch he) rfl
    · next hp =>
      split at hs
      · cases hs; exact actor_sound h ha (by rw [hp]; exact fun he => nomatch he) rfl
      · cases hs
    · next hp =>
      split at hs
      · cases hs; exact actor_sound h ha (by rw [hp]; exact fun he => nomatch he) rfl
      · cases hs
    · cases hs

theorem spawn_sound (h : Sound c) (hs : c.born.lookup s.id = some s) (ha : c.actors.lookup s.id = none) :
    Sound (c.spawn s) :=
  putActor_sound h hs (fun b hb => by rw [ha] at hb; cases hb) rfl

theorem openGate_sound (h : Sound c) (item : PreparedRegistration) : Sound (c.openGate item) := by
  unfold Core.openGate
  split
  · next a ha =>
    split
    · next hp => exact actor_sound h ha (by rw [hp]; exact fun he => nomatch he) rfl
    · exact h
  · exact h

end Actors

/-- A registered entry tells everything about its registration. -/
theorem registered_life (h : Sound c) {name : String} {handle : Handle}
    (he : c.tasks.lookup id = some ⟨name, .registered handle⟩) :
    ∃ s, s.id = id ∧ c.born.lookup s.id = some s ∧ name = s.name ∧ handle = ⟨s.done, s.completion⟩ ∧
      c.pending.counts.lookup s.id = none ∧ Void (ownersOf c.owners s.id) ∧ outcomesOf c.outcomes s.id = 0 ∧
      claimsOf c.claims s.id = [] ∧ s.completion ∉ c.logical ∧
      Body s (view c s.id) (s.completion ∈ c.physical) .pre := by
  obtain ⟨s, hs, rfl⟩ := h.born_of_view id fun hb => by
    have hnone : c.tasks.lookup id = none := hb.entry
    rw [he] at hnone
    cases hnone
  obtain ⟨-, phase, hm, hb⟩ := h.life _ _ hs
  cases hm with
  | registered entry count owners outcomes claims latch =>
      have hentry : c.tasks.lookup s.id = _ := entry
      rw [he] at hentry
      cases hentry
      exact ⟨s, rfl, hs, rfl, rfl, count, owners, outcomes, claims, latch, hb⟩
  | owned key o claimant owners claims latch owned =>
      have hentry : c.tasks.lookup s.id = _ := owned.entry
      rw [he] at hentry
      split at hentry <;> cases hentry
  | gone claimant entry _ _ _ _ _ _ =>
      have hentry : c.tasks.lookup s.id = none := entry
      rw [he] at hentry
      cases hentry

theorem claimRegistered_eq {kind : OwnerKind} {claimant : Claimant} (hs : c.claimRegistered id kind claimant = some (key, c')) :
    ∃ name handle, c.tasks.lookup id = some ⟨name, .registered handle⟩ ∧ key = c.nextOwner ∧
      c' = { c with
        tasks := c.tasks.insert id ⟨name, .removing handle.completion⟩
        pending := c.pending.incWithName id name
        owners := c.owners.insert c.nextOwner ⟨id, kind, handle.done, handle.completion, .claimed⟩
        nextOwner := c.nextOwner + 1
        claims := c.claims ++ [(id, claimant)] } := by
  unfold Core.claimRegistered at hs
  split at hs
  · cases hs
  · next entry he =>
    split at hs
    · cases hs
    · next handle hst =>
      cases hs
      obtain ⟨name, state⟩ := entry
      cases hst
      exact ⟨name, handle, he, rfl, rfl⟩

/-- A claim hands the only handle of a spawned registration to a new owner. -/
theorem claim_sound (h : Sound c) {kind : OwnerKind} {claimant : Claimant} (ha : (c.actors.lookup id).isSome)
    (hs : c.claimRegistered id kind claimant = some (key, c')) : Sound c' := by
  obtain ⟨name, handle, he, -, rfl⟩ := claimRegistered_eq hs
  obtain ⟨s, rfl, hborn, rfl, rfl, hcount, howners, hout, hclaims, hlatch, hb⟩ := registered_life h he
  have hfresh : ∀ i, ownersOf c.owners i c.nextOwner = none := by
    intro i
    cases ho : ownersOf c.owners i c.nextOwner with
    | none => rfl
    | some o => exact absurd (h.ownerKeys _ _ (ownersOf_eq_some.mp ho).1) (Nat.lt_irrefl _)
  have hl : Local c { c with
      tasks := c.tasks.insert s.id ⟨s.name, .removing s.completion⟩
      pending := c.pending.incWithName s.id s.name
      owners := c.owners.insert c.nextOwner ⟨s.id, kind, s.done, s.completion, .claimed⟩
      nextOwner := c.nextOwner + 1
      claims := c.claims ++ [(s.id, claimant)] } s := by
    refine ⟨rfl, fun i hne => ?_, fun _ _ => Iff.rfl, fun _ _ => Iff.rfl, fun k o hk => ?_, h.reapKeys⟩
    · refine View.ext (AList.lookup_insert_ne hne) (AList.lookup_insert_ne hne) (ownersOf_insert_ne (hfresh i) hne) rfl rfl rfl
        rfl ?_
      change claimsOf (c.claims ++ _) i = claimsOf c.claims i
      rw [claimsOf_append, if_neg (Ne.symm hne), List.append_nil]
    · exact Table.lt_succ_of_lookup_insert h.ownerKeys hk
  refine h.update hborn hl ⟨(h.life _ _ hborn).name, .pre, ?_, hb.congr rfl rfl rfl⟩
  refine .owned c.nextOwner ⟨s.id, kind, s.done, s.completion, .claimed⟩ claimant (Only.of_void howners rfl) ?_ hlatch
    ⟨rfl, rfl, rfl, AList.lookup_insert _, ?_, hout, (fun _ he => nomatch he), (fun _ he => nomatch he), ha⟩
  · change claimsOf (c.claims ++ _) s.id = _
    rw [claimsOf_append, if_pos rfl, hclaims]
    rfl
  · change (c.pending.counts.insert s.id _).lookup s.id = some 1
    rw [AList.lookup_insert, hcount]
    rfl

theorem cancelToken_sound (h : Sound c) (id : TaskId) : Sound (c.cancelToken id) where
  seed := h.seed
  life := fun i s hs => ⟨(h.life i s hs).name, (h.life i s hs).stage⟩
  blank := h.blank
  distinct := h.distinct
  logical := h.logical
  physical := h.physical
  ownerKeys := h.ownerKeys
  reapKeys := h.reapKeys

theorem launch_sound (h : Sound c) (key : Nat) (kind : OwnerKind) : Sound (c.launch key kind) := by
  unfold Core.launch
  split
  · next o hk =>
    split
    · next hstage =>
      obtain ⟨s, hid, hh⟩ := h.holding hk
      have hbody := hh.body
      rw [hstage] at hbody
      refine h.restage hh hid.symm (hh.owned.restage (view c s.id) kind .joining rfl rfl rfl hh.owned.actor
        (by rw [hstage]; rfl) (fun _ he => nomatch he) (fun _ he => nomatch he)) hbody
    · exact h
  · exact h

/-- Registrations enter with identities and latches nobody used. -/
theorem insertEntry_sound (h : Sound c) (hid : c.born.lookup s.id = none)
    (hlatch : ∀ i t, c.born.lookup i = some t → t.completion ≠ s.completion) : Sound (c.insertEntry s) := by
  have hblank := h.blank s.id hid
  have hborn : ∀ i, (c.insertEntry s).born.lookup i = if i = s.id then some s else c.born.lookup i :=
    fun i => Table.lookup_insert_ite _ _ _ _
  have hview : ∀ i, i ≠ s.id → view (c.insertEntry s) i = view c i := by
    intro i hne
    exact View.ext (AList.lookup_insert_ne hne) rfl rfl rfl rfl rfl rfl rfl
  have hnew : Life (c.insertEntry s) s := by
    refine ⟨fun a ha => ?_, .pre, .registered (AList.lookup_insert _) hblank.count hblank.owners hblank.outcomes
      hblank.claims ?_, .idle hblank.records hblank.reaps ?_⟩
    · rw [show (view (c.insertEntry s) s.id).actor = none from hblank.actor] at ha
      cases ha
    · intro hm
      obtain ⟨i, t, ht, he⟩ := h.logical _ hm
      exact hlatch i t ht he
    · intro hm
      obtain ⟨i, t, ht, he⟩ := h.physical _ hm
      exact hlatch i t ht he
  have hkeep : ∀ i t, c.born.lookup i = some t → (c.insertEntry s).born.lookup i = some t := by
    intro i t ht
    rw [hborn, if_neg (fun he => by rw [he, hid] at ht; cases ht), ht]
  refine ⟨fun i t ht => ?_, fun i t ht => ?_, fun i hi => ?_, fun i j t u ht hu he => ?_, fun l hl => ?_, fun l hl => ?_,
    h.ownerKeys, h.reapKeys⟩
  · rw [hborn] at ht
    split at ht
    · next he => cases ht; exact he.symm
    · exact h.seed i t ht
  · rw [hborn] at ht
    split at ht
    · cases ht; exact hnew
    · next hne =>
      have hold := h.life i t ht
      have hv := hview t.id (by rw [h.seed i t ht]; exact hne)
      refine ⟨by rw [hv]; exact hold.name, ?_⟩
      rw [hv]
      exact hold.stage
  · rw [hborn] at hi
    split at hi
    · cases hi
    · next hne => rw [hview i hne]; exact h.blank i hi
  · rw [hborn] at ht hu
    split at ht <;> split at hu
    · next hi hj => exact hi.trans hj.symm
    · next hj => cases ht; exact absurd he.symm (hlatch j u hu)
    · next hi _ => cases hu; exact absurd he (hlatch i t ht)
    · exact h.distinct i j t u ht hu he
  · obtain ⟨i, t, ht, he⟩ := h.logical l hl
    exact ⟨i, t, hkeep i t ht, he⟩
  · obtain ⟨i, t, ht, he⟩ := h.physical l hl
    exact ⟨i, t, hkeep i t ht, he⟩

end Taskvisor.Registry.Moves
