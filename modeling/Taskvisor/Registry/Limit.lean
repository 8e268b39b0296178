import Taskvisor.Registry.Admission
import Taskvisor.Registry.Exclusion
import Mathlib.Data.Finset.Card

namespace Taskvisor.Registry.Limit

open Lib Runtime.Base Reaper State Lifecycle Moves Names Listener Steps Entries Fence Identity Reach Claims

variable {cfg : RegistryConfig} {w w' : World} {a : World.Action} {c c' : Core} {id : TaskId} {s : PreparedRegistration}
  {key : Nat} {o : Owner}

/-- The owner has a reaper record that is not counted yet. -/
def uncounted (o : Owner) : Nat := if o.stage = .reserved then 1 else 0

/-- The decrements of the counter the owner still has to make. -/
def settling (o : Owner) : Nat := (effectsAt o.stage).count .uncount

def reaping (r : Reap) : Nat :=
  match r.stage with
  | .waiting => 0
  | .settling effects => effects.count .uncount

/-- `active` counts the records that were counted in and those on their way
out. -/
def Counted (c : Core) : Prop :=
  c.active + Table.total uncounted c.owners =
    Table.size c.reaper.records + Table.total settling c.owners + Table.total reaping c.reaps

theorem Counted.congr (h : Counted c) (hactive : c'.active = c.active) (howners : c'.owners = c.owners)
    (hrecords : Table.size c'.reaper.records = Table.size c.reaper.records) (hreaps : c'.reaps = c.reaps) : Counted c' := by
  unfold Counted
  rw [hactive, howners, hrecords, hreaps]
  exact h

/-- An owner moves on: what it owes changes with the counter and the records. -/
theorem Counted.restage (h : Counted c) (hk : c.owners.lookup key = some o) {o' : Owner}
    (howners : c'.owners = c.owners.insert key o') (hreaps : Table.total reaping c'.reaps = Table.total reaping c.reaps)
    (hsum : c'.active + uncounted o' + Table.size c.reaper.records + settling o =
      c.active + uncounted o + Table.size c'.reaper.records + settling o') : Counted c' := by
  unfold Counted at h ⊢
  have h1 := Table.total_update uncounted hk o'
  have h2 := Table.total_update settling hk o'
  rw [howners, hreaps]
  omega

/-- The owners that are reserving have their own records, and their entries
are still in the registry. -/
theorem uncounted_le (hs : Sound c) :
    Table.total uncounted c.owners ≤ (c.reaper.records.keys.filter fun id => (c.tasks.lookup id).isSome).length := by
  let reserving := c.owners.entries.filter fun entry => decide (entry.2.stage = .reserved)
  have hlen : ∀ l : List (Sigma fun _ : Nat => Owner),
      ((l.map Sigma.snd).map uncounted).sum = (l.filter fun entry => decide (entry.2.stage = .reserved)).length := by
    intro l
    induction l with
    | nil => rfl
    | cons entry l ih =>
        rw [List.map_cons, List.map_cons, List.sum_cons, ih, List.filter_cons, uncounted]
        split
        · next hst => rw [if_pos (decide_eq_true hst), List.length_cons, Nat.add_comm]
        · next hst => rw [if_neg (by simpa using hst), Nat.zero_add]
  have hat : ∀ entry ∈ reserving, c.owners.lookup entry.1 = some entry.2 ∧ entry.2.stage = .reserved := by
    intro entry hm
    obtain ⟨hin, hst⟩ := List.mem_filter.mp hm
    exact ⟨AList.mem_lookup_iff.mpr hin, of_decide_eq_true hst⟩
  have hnodup : (reserving.map fun entry => entry.2.id).Nodup := by
    have hkeys : (c.owners.entries.map Sigma.fst).Nodup := c.owners.nodupKeys
    refine ((List.Nodup.of_map _ hkeys).filter _).map_on fun e he e' he' heq => ?_
    obtain ⟨s, hid, hh⟩ := hs.holding (hat e he).1
    have hx := hh.owners.eq (ownersOf_eq_some.mpr ⟨(hat e' he').1, heq.symm.trans hid.symm⟩)
    exact Sigma.ext hx.1.symm (heq_of_eq hx.2.symm)
  have hsub : (reserving.map fun entry => entry.2.id) ⊆
      c.reaper.records.keys.filter fun id => (c.tasks.lookup id).isSome := by
    intro i hi
    obtain ⟨entry, hm, rfl⟩ := List.mem_map.mp hi
    obtain ⟨hk, hst⟩ := hat entry hm
    obtain ⟨s, hid, hh⟩ := hs.holding hk
    have hbody := hh.body
    have hentry : c.tasks.lookup s.id = _ := hh.owned.entry
    rw [hst] at hbody hentry
    refine List.mem_filter.mpr ⟨Table.mem_keys_iff.mpr ?_, ?_⟩
    · cases hbody with
      | reserved hrec => exact ⟨_, hid ▸ hrec⟩
    · rw [← hid, hentry]
      rfl
  calc Table.total uncounted c.owners = reserving.length := hlen c.owners.entries
    _ = (reserving.map fun entry => entry.2.id).length := (List.length_map _).symm
    _ ≤ _ := (hnodup.subperm hsub).length_le

theorem uncounted_le_size (hs : Sound c) : Table.total uncounted c.owners ≤ Table.size c.reaper.records := by
  refine Nat.le_trans (uncounted_le hs) ?_
  rw [← Table.keys_length]
  exact List.length_filter_le _ _

theorem erased_lookup (records : Table TaskId (List ReaperRecord)) (id : TaskId) (l : List ReaperRecord) (i : TaskId) :
    ((records.insert id l).erase id).lookup i = (records.erase id).lookup i := by
  rw [erase_insert_lookup, Table.lookup_erase_ite]

/-- Nothing counted changes. -/
theorem Counted.quiet (h : Counted c) (hk : c.owners.lookup key = some o) {o' : Owner}
    (howners : c'.owners = c.owners.insert key o') (hactive : c'.active = c.active)
    (hrecords : Table.size c'.reaper.records = Table.size c.reaper.records)
    (hreaps : Table.total reaping c'.reaps = Table.total reaping c.reaps) (hun : uncounted o' = uncounted o)
    (hset : settling o' = settling o) : Counted c' := by
  refine h.restage hk howners hreaps ?_
  rw [hactive, hrecords, hun, hset]

section Owners

variable (h : Counted c) (hs : Sound c) (hk : c.owners.lookup key = some o)

include h hs hk

theorem Counted.abort (hstage : o.stage = .joining) : Counted (c.abort key o) := by
  obtain ⟨s, hid, hh⟩ := hs.holding hk
  have hbody := hh.body
  rw [hstage] at hbody
  obtain ⟨actor, ha⟩ := Option.isSome_iff_exists.mp hh.owned.actor
  unfold Core.abort
  rw [show c.actors.lookup o.id = some actor from hid ▸ ha]
  refine h.restage hk rfl rfl ?_
  have hrec : c.reaper.records.lookup o.id = none := by
    cases hbody with
    | idle hx => exact hid ▸ hx
  change c.active + 1 + Table.size c.reaper.records + settling o =
    c.active + uncounted o + Table.size (c.reaper.records.insert o.id _) + 0
  rw [Table.size_insert_of_none hrec, settling, uncounted, hstage]
  simp only [effectsAt, List.count_nil, reduceCtorEq, if_false]
  omega

theorem Counted.reported {state : Option RemovalCompletion} {isEmpty : Bool} (hstage : o.stage = .reported state isEmpty)
    {effects : List Effect} {reaper : ReaperState}
    (ha : c.reaper.attachTerminal o.id state o.completion = (effects, reaper)) :
    Counted { c with reaper, owners := c.owners.insert key { o with stage := .settling effects state isEmpty } } := by
  obtain ⟨s, hid, hh⟩ := hs.holding hk
  have hbody := hh.body
  have hstate := hh.owned.state state (by rw [hstage]; rfl)
  rw [hstage] at hbody
  rw [← hid, hstate, hh.owned.completion] at ha
  refine h.restage hk rfl rfl ?_
  have ho : uncounted o = 0 ∧ settling o = 0 := by
    rw [uncounted, settling, hstage]
    exact ⟨rfl, rfl⟩
  rw [ho.1, ho.2]
  change c.active + 0 + Table.size c.reaper.records + 0 =
    c.active + 0 + Table.size reaper.records + effects.count .uncount
  cases hbody with
  | joined hexit hrec =>
      rw [ReaperState.attachTerminal_absent hrec] at ha
      cases ha
      rfl
  | reaping k hrec =>
      have hrec : c.reaper.records.lookup s.id = _ := hrec
      rw [ReaperState.attachTerminal_first hrec] at ha
      cases ha
      change _ = c.active + 0 + Table.size (c.reaper.records.insert s.id _) + 0
      rw [Table.size_insert_of_lookup hrec]
  | reaped p hexit hrec =>
      have hrec : c.reaper.records.lookup s.id = _ := hrec
      rw [ReaperState.attachTerminal_second hrec] at ha
      cases ha
      change _ = c.active + 0 + Table.size ((c.reaper.records.insert s.id _).erase s.id) + 1
      rw [Table.size_congr (erased_lookup c.reaper.records s.id _), Table.size_of_lookup hrec]
      omega

theorem Counted.effect {effect : Effect} {effects : List Effect} {state : Option RemovalCompletion} {isEmpty : Bool}
    (hstage : o.stage = .settling (effect :: effects) state isEmpty) :
    Counted ((c.applyEffect effect).putOwner key { o with stage := .settling effects state isEmpty }) := by
  have hold : settling o = (effect :: effects).count .uncount ∧ uncounted o = 0 := by
    rw [settling, uncounted, hstage]
    exact ⟨rfl, rfl⟩
  cases effect with
  | physical latch =>
      refine h.quiet hk rfl rfl rfl rfl hold.2.symm ?_
      rw [hold.1]
      simp [settling, effectsAt]
  | uncount =>
      have hpos : 1 ≤ c.active := by
        have h1 := uncounted_le_size hs
        have h2 := Table.total_of_lookup settling hk
        rw [hold.1, List.count_cons_self] at h2
        unfold Counted at h
        omega
      refine h.restage hk rfl rfl ?_
      rw [hold.1, hold.2, List.count_cons_self]
      change c.active - 1 + 0 + Table.size c.reaper.records + (effects.count .uncount + 1) =
        c.active + 0 + Table.size c.reaper.records + effects.count .uncount
      omega

theorem Counted.advance (ha : c.advance key o = some c') : Counted c' := by
  have hzero {stage : OwnerStage} (hst : o.stage = stage) (hr : stage ≠ .reserved) (he : effectsAt stage = []) :
      uncounted o = 0 ∧ settling o = 0 := by
    rw [uncounted, settling, hst, he, if_neg hr]
    exact ⟨rfl, rfl⟩
  unfold Core.advance at ha
  split at ha
  · cases ha
  · next hst =>
    obtain ⟨outcome, -, rfl⟩ := Option.map_eq_some_iff.mp ha
    obtain ⟨h1, h2⟩ := hzero hst (fun hx => nomatch hx) rfl
    exact h.quiet hk rfl rfl rfl rfl h1.symm h2.symm
  · next hst =>
    cases ha
    have hone : uncounted o = 1 ∧ settling o = 0 := by
      rw [uncounted, settling, hst]
      exact ⟨rfl, rfl⟩
    refine h.restage hk rfl rfl ?_
    rw [hone.1, hone.2]
    rfl
  · next hst =>
    cases ha
    obtain ⟨h1, h2⟩ := hzero hst (fun hx => nomatch hx) rfl
    have hkeep : (c.requestAbort o.id).owners = c.owners ∧ (c.requestAbort o.id).active = c.active ∧
        (c.requestAbort o.id).reaper = c.reaper ∧ (c.requestAbort o.id).reaps = c.reaps := by
      unfold Core.requestAbort
      split <;> exact ⟨rfl, rfl, rfl, rfl⟩
    have howners : ((c.requestAbort o.id).putOwner key { o with stage := .requested }).owners =
        c.owners.insert key { o with stage := .requested } := by
      rw [← hkeep.1]
      rfl
    refine h.quiet hk howners hkeep.2.1 ?_ ?_ h1.symm h2.symm
    · change Table.size (c.requestAbort o.id).reaper.records = _
      rw [hkeep.2.2.1]
    · change Table.total reaping (c.requestAbort o.id).reaps = _
      rw [hkeep.2.2.2]
  · next hst =>
    cases ha
    obtain ⟨h1, h2⟩ := hzero hst (fun hx => nomatch hx) rfl
    have hfresh : c.reaps.lookup c.nextReap = none := by
      cases hr : c.reaps.lookup c.nextReap with
      | none => rfl
      | some r => exact absurd (hs.reapKeys _ _ hr) (Nat.lt_irrefl _)
    refine h.quiet hk rfl rfl rfl ?_ h1.symm h2.symm
    exact Table.total_insert_of_none reaping hfresh _
  · next outcome hst =>
    cases ha
    obtain ⟨h1, h2⟩ := hzero hst (fun hx => nomatch hx) rfl
    unfold Core.commit
    split
    · exact h.quiet hk rfl rfl rfl rfl h1.symm h2.symm
    · exact h.quiet hk rfl rfl rfl rfl h1.symm h2.symm
  · next hst =>
    cases ha
    obtain ⟨h1, h2⟩ := hzero hst (fun hx => nomatch hx) rfl
    exact h.quiet hk rfl rfl rfl rfl h1.symm h2.symm
  · next hst => cases ha; exact h.reported hs hk hst rfl
  · next hst => cases ha; exact h.effect hs hk hst
  · next hst =>
    cases ha
    obtain ⟨h1, h2⟩ := hzero hst (fun hx => nomatch hx) rfl
    exact h.quiet hk rfl rfl rfl rfl h1.symm h2.symm
  · next hst =>
    cases ha
    obtain ⟨h1, h2⟩ := hzero hst (fun hx => nomatch hx) rfl
    have t1 := Table.total_of_lookup uncounted hk
    have t2 := Table.total_of_lookup settling hk
    unfold Counted at h ⊢
    change c.active + Table.total uncounted (c.owners.erase key) =
      Table.size c.reaper.records + Table.total settling (c.owners.erase key) + Table.total reaping c.reaps
    omega

end Owners

theorem Counted.stepOwner (h : Counted c) (hs : Sound c) {action : Core.OwnerAction}
    (ha : c.stepOwner key action = some c') : Counted c' := by
  unfold Core.stepOwner at ha
  split at ha
  · cases ha
  · next o hk =>
    cases action with
    | advance => exact h.advance hs hk ha
    | abort =>
        simp only at ha
        split at ha
        · next hst => cases ha; exact h.abort hs hk hst.1
        · cases ha
    | drop =>
        simp only [Core.dropCommit] at ha
        split at ha
        · split at ha
          · cases ha
          · cases ha; exact h.quiet hk rfl rfl rfl rfl rfl rfl
        · cases ha

/-- A reap future moves on. -/
theorem Counted.rereap (h : Counted c) {r r' : Reap} (hk : c.reaps.lookup key = some r) (howners : c'.owners = c.owners)
    (hreaps : c'.reaps = c.reaps.insert key r')
    (hsum : c'.active + Table.size c.reaper.records + reaping r = c.active + Table.size c'.reaper.records + reaping r') :
    Counted c' := by
  unfold Counted at h ⊢
  have h1 := Table.total_update reaping hk r'
  rw [howners, hreaps]
  omega

theorem Counted.reap_waiting (h : Counted c) (hs : Sound c) {r : Reap} (hk : c.reaps.lookup key = some r)
    (hstage : r.stage = .waiting) {poisoned : Bool} {ready : Option ReadyRecord} {reaper : ReaperState}
    (hp : c.reaper.completePhysical r.id r.release poisoned = (ready, reaper)) :
    Counted { c with
      reaper
      reaps := c.reaps.insert key { r with stage := .settling ((ready.map ReadyRecord.effects).getD []) } } := by
  obtain ⟨s, hid, hborn, hv, hlife⟩ := reap_seed hs hk
  obtain ⟨-, phase, -, hb⟩ := hlife
  obtain ⟨rfl, -, -, hrec⟩ := waiting_body hb hv hstage
  refine h.rereap hk rfl rfl ?_
  rcases hrec with ⟨-, hrec⟩ | ⟨-, hrec⟩
  · have hrec : c.reaper.records.lookup s.id = _ := hrec
    rw [ReaperState.completePhysical_first hrec] at hp
    cases hp
    change c.active + Table.size c.reaper.records + 0 = c.active + Table.size (c.reaper.records.insert s.id _) + 0
    rw [Table.size_insert_of_lookup hrec]
  · have hrec : c.reaper.records.lookup s.id = _ := hrec
    rw [ReaperState.completePhysical_second hrec] at hp
    cases hp
    change c.active + Table.size c.reaper.records + 0 =
      c.active + Table.size ((c.reaper.records.insert s.id _).erase s.id) + 1
    rw [Table.size_congr (erased_lookup c.reaper.records s.id _), Table.size_of_lookup hrec]
    omega

theorem Counted.stepReap (h : Counted c) (hs : Sound c) {poisoned : Bool} (ha : c.stepReap key poisoned = some c') :
    Counted c' := by
  unfold Core.stepReap at ha
  split at ha
  · cases ha
  · next r hk =>
    split at ha
    · next hstage =>
      split at ha
      · cases ha
        exact h.reap_waiting hs hk hstage rfl
      · cases ha
    · next effect effects hstage =>
      cases ha
      have hold : reaping r = (effect :: effects).count .uncount := by rw [reaping, hstage]
      cases effect with
      | physical latch =>
          refine h.rereap hk rfl rfl ?_
          rw [hold]
          simp [reaping, Core.applyEffect]
      | uncount =>
          have hpos : 1 ≤ c.active := by
            have h1 := uncounted_le_size hs
            have h2 := Table.total_of_lookup reaping hk
            rw [hold, List.count_cons_self] at h2
            unfold Counted at h
            omega
          refine h.rereap hk rfl rfl ?_
          rw [hold, List.count_cons_self]
          change c.active - 1 + Table.size c.reaper.records + (effects.count .uncount + 1) =
            c.active + Table.size c.reaper.records + effects.count .uncount
          omega
    · next hstage =>
      cases ha
      have t := Table.total_of_lookup reaping hk
      have hold : reaping r = 0 := by rw [reaping, hstage]; rfl
      unfold Counted at h ⊢
      change c.active + Table.total uncounted c.owners =
        Table.size c.reaper.records + Table.total settling c.owners + Table.total reaping (c.reaps.erase key)
      omega

theorem Counted.claim (h : Counted c) (hkeys : ∀ k o, c.owners.lookup k = some o → k < c.nextOwner) {kind : OwnerKind}
    {claimant : Claimant} (hc : c.claimRegistered id kind claimant = some (key, c')) : Counted c' := by
  obtain ⟨name, handle, -, -, rfl⟩ := claimRegistered_eq hc
  have hfresh : c.owners.lookup c.nextOwner = none := by
    cases ho : c.owners.lookup c.nextOwner with
    | none => rfl
    | some o => exact absurd (hkeys _ _ ho) (Nat.lt_irrefl _)
  unfold Counted at h ⊢
  change c.active + Table.total uncounted (c.owners.insert c.nextOwner _) =
    Table.size c.reaper.records + Table.total settling (c.owners.insert c.nextOwner _) + Table.total reaping c.reaps
  rw [Table.total_insert_of_none uncounted hfresh, Table.total_insert_of_none settling hfresh]
  exact h

theorem Counted.claimAll (h : Counted c) (hkeys : ∀ k o, c.owners.lookup k = some o → k < c.nextOwner) (kind : OwnerKind)
    (ids : List TaskId) : Counted (c.claimAll kind ids) := by
  let good (d : Core) : Prop := Counted d ∧ ∀ k o, d.owners.lookup k = some o → k < d.nextOwner
  have hgood : good (c.claimAll kind ids) := by
    refine claimAll_keeps (P := good) ids ⟨h, hkeys⟩ fun d d' i key hd hc => ⟨hd.1.claim hd.2 hc, ?_⟩
    obtain ⟨name, handle, -, -, rfl⟩ := claimRegistered_eq hc
    intro k o ho
    exact Table.lt_succ_of_lookup_insert hd.2 ho
  exact hgood.1

theorem Counted.launch (h : Counted c) (key : Nat) (kind : OwnerKind) : Counted (c.launch key kind) := by
  unfold Core.launch
  split
  · next o hk =>
    split
    · next hst =>
      refine h.quiet hk rfl rfl rfl rfl ?_ ?_
      · rw [uncounted, uncounted, hst]
        rfl
      · rw [settling, settling, hst]
        rfl
    · exact h
  · exact h

theorem Counted.launchAll (h : Counted c) (kind : OwnerKind) : Counted (World.launchAll c kind) :=
  launchAll_keeps (P := Counted) h (fun _ _ hd => hd.congr rfl rfl rfl rfl) fun _ key hd => hd.launch key kind

theorem Counted.openGate (h : Counted c) (items : List PreparedRegistration) : Counted (items.foldl Core.openGate c) := by
  induction items generalizing c with
  | nil => exact h
  | cons item items ih =>
      refine ih (c := c.openGate item) ?_
      unfold Core.openGate
      split
      · split
        · exact h.congr rfl rfl rfl rfl
        · exact h
      · exact h

theorem Counted.insertAll (h : Counted c) (items : List PreparedRegistration) : Counted (c.insertAll items) := by
  induction items generalizing c with
  | nil => exact h
  | cons item items ih => exact ih (c := c.insertEntry item) (h.congr rfl rfl rfl rfl)

theorem Counted.stepActor (h : Counted c) {action : Core.ActorAction} (ha : c.stepActor id action = some c') : Counted c' := by
  unfold Core.stepActor at ha
  split at ha
  · cases ha
  · split at ha
    all_goals first
      | (cases ha; exact h.congr rfl rfl rfl rfl)
      | (split at ha <;> cases ha; exact h.congr rfl rfl rfl rfl)
      | cases ha

theorem Counted.work (h : Counted w.core) (hst : Steady w) {job : Job} (hs : Worked w job w') : Counted w'.core := by
  have hkeys := hst.settled.sound.ownerKeys
  cases hs with
  | insert reg => exact h.insertAll reg.items
  | spawn item rest reg => exact h.congr rfl rfl rfl rfl
  | openGate reg => exact h.openGate reg.items
  | win job target d id key core _ _ hclaim => exact h.claim hkeys hclaim
  | cancelToken key d =>
      obtain ⟨reply, target, answer⟩ := d
      cases target
      · exact h
      · exact h.congr rfl rfl rfl rfl
  | launch key d => exact h.launch key .detached
  | signal id key core hclaim => exact h.claim hkeys hclaim
  | ready key => exact h.launch key .inline
  | unready key => exact h.launch key .detached
  | _ => exact h

theorem Counted.step (h : Counted w.core) (hst : Steady w) (hs : Stepped cfg w a w') : Counted w'.core := by
  have hkeys := hst.settled.sound.ownerKeys
  cases hs with
  | call key caller v hk hcall => rw [call_core hcall]; exact h
  | shutdownStep instr todo v htodo hstep =>
      cases shutdownStep_cases hstep with
      | claim => exact h.claimAll hkeys _ _
      | cancel => exact h.launchAll _
      | _ => exact h
  | listen branch v hjob hlisten =>
      cases hlisten with
      | claim => exact h.claimAll hkeys _ _
      | cancel => exact h.launchAll _
      | _ => exact h
  | work job v hjob hwork => exact h.work hst hwork
  | owner key action o core ho hfree hcore => exact h.stepOwner hst.settled.sound hcore
  | reap key poisoned core hcore => exact h.stepReap hst.settled.sound hcore
  | actor id action core completions hcore => exact h.stepActor hcore
  | _ => exact h

theorem counted_of_reachable (h : (machine cfg).Reachable w) : Counted w.core :=
  h.invariant (P := fun w => Counted w.core) (show Counted Core.new from rfl) fun _ _ _ hr hi hstep => hi.step (steady_of_reachable hr) (step_cases hstep)

/-- The records whose entry has left the registry. -/
def departed (c : Core) : List TaskId := c.reaper.records.keys.filter fun id => !(c.tasks.lookup id).isSome

theorem departed_le (hs : Sound c) (h : Counted c) : (departed c).length ≤ c.active := by
  have h1 := uncounted_le hs
  have h2 := List.length_eq_length_filter_add (l := c.reaper.records.keys) fun id => (c.tasks.lookup id).isSome
  rw [Table.keys_length] at h2
  unfold Counted at h
  change (List.filter _ c.reaper.records.keys).length ≤ _
  omega

/-- The identities that count against the limit. -/
def occupiedIds (c : Core) : Finset TaskId := c.tasks.keys.toFinset ∪ c.reaper.records.keys.toFinset

theorem mem_occupiedIds : id ∈ occupiedIds c ↔ Occupied c id := by
  simp only [occupiedIds, Finset.mem_union, List.mem_toFinset, Table.mem_keys_iff, Occupied, Option.isSome_iff_exists]

theorem occupied_card_le (hs : Sound c) (h : Counted c) : (occupiedIds c).card ≤ Table.size c.tasks + c.active := by
  have hsub : occupiedIds c ⊆ c.tasks.keys.toFinset ∪ (departed c).toFinset := by
    intro id hid
    rcases Finset.mem_union.mp hid with ht | hr
    · exact Finset.mem_union_left _ ht
    · by_cases ht : (c.tasks.lookup id).isSome
      · obtain ⟨e, he⟩ := Option.isSome_iff_exists.mp ht
        exact Finset.mem_union_left _ (List.mem_toFinset.mpr (Table.mem_keys_iff.mpr ⟨e, he⟩))
      · refine Finset.mem_union_right _ (List.mem_toFinset.mpr (List.mem_filter.mpr ⟨List.mem_toFinset.mp hr, ?_⟩))
        simpa using ht
  calc (occupiedIds c).card ≤ (c.tasks.keys.toFinset ∪ (departed c).toFinset).card := Finset.card_le_card hsub
    _ ≤ c.tasks.keys.toFinset.card + (departed c).toFinset.card := Finset.card_union_le _ _
    _ ≤ c.tasks.keys.length + (departed c).length :=
        Nat.add_le_add (List.toFinset_card_le _) (List.toFinset_card_le _)
    _ ≤ Table.size c.tasks + c.active := by
        rw [Table.keys_length]
        exact Nat.add_le_add_left (departed_le hs h) _

/-- The check is exact: a sum that does not fit a word is over every limit. -/
theorem registeredLimitExceeded_none {limit : NonZeroUsize} (hl : cfg.maxRegisteredTasks = some limit) (c : Core)
    (current incoming : Nat) :
    World.registeredLimitExceeded cfg c current incoming = none ↔ current + c.active + incoming ≤ limit.get := by
  change Admission.registeredLimitExceeded cfg.maxRegisteredTasks current c.active incoming = none ↔ _
  rw [Admission.registeredLimitExceeded_none, hl]
  exact ⟨fun h => h limit rfl, fun h l hx => Option.some.inj hx ▸ h⟩

theorem occupied_of_recedes (hr : Recedes c c') (hreaper : c'.reaper = c.reaper) (ho : Occupied c' id) : Occupied c id := by
  rcases ho with ht | hrec
  · exact .inl ((hr.entry id).present ht)
  · exact .inr (hreaper ▸ hrec)

theorem insertAll_reaper (items : List PreparedRegistration) : (c.insertAll items).reaper = c.reaper := by
  induction items generalizing c with
  | nil => rfl
  | cons item items ih => exact ih (c := c.insertEntry item)

theorem claim_reaper {kind : OwnerKind} {claimant : Claimant} (hc : c.claimRegistered id kind claimant = some (key, c')) :
    c'.reaper = c.reaper := by
  obtain ⟨name, handle, -, -, rfl⟩ := claimRegistered_eq hc
  rfl

theorem claimAll_reaper (kind : OwnerKind) (ids : List TaskId) : (c.claimAll kind ids).reaper = c.reaper :=
  claimAll_keeps (P := fun d => d.reaper = c.reaper) ids rfl fun _ _ _ _ hd hc => (claim_reaper hc).trans hd

theorem stepActor_reaper {action : Core.ActorAction} (ha : c.stepActor id action = some c') : c'.reaper = c.reaper := by
  unfold Core.stepActor at ha
  split at ha
  · cases ha
  · split at ha
    all_goals first
      | (cases ha; rfl)
      | (split at ha <;> cases ha; rfl)
      | cases ha

theorem work_reaper {job : Job} (hs : Worked w job w') : w'.core.reaper = w.core.reaper := by
  cases hs with
  | insert reg => exact insertAll_reaper reg.items
  | openGate reg => exact (openGate_unmoved reg.items).reaper
  | win job target d id key core _ _ hclaim => exact claim_reaper hclaim
  | cancelToken key d =>
      obtain ⟨reply, target, answer⟩ := d
      cases target <;> rfl
  | launch key d => exact (launch_unmoved key .detached).reaper
  | signal id key core hclaim => exact claim_reaper hclaim
  | ready key => exact (launch_unmoved key .inline).reaper
  | unready key => exact (launch_unmoved key .detached).reaper
  | _ => rfl

/-- Only an admission that passed the check under the lock makes an identity
count. -/
theorem step_occupied (hst : Steady w) (hs : w.step cfg a = some w') :
    (∀ id, Occupied w'.core id → Occupied w.core id) ∨
      ∃ reg : Registration, World.registeredLimitExceeded cfg w.core w.core.tasks.size reg.items.length = none ∧
        w'.core = w.core.insertAll reg.items := by
  have hc := step_cases hs
  have hrec := step_recedes hc
  have hkeep (hr : w'.core.reaper = w.core.reaper) (hx : Recedes w.core w'.core) :
      ∀ id, Occupied w'.core id → Occupied w.core id := fun id ho => occupied_of_recedes hx hr ho
  cases hc with
  | call key caller v hk hcall => rw [call_core hcall]; exact .inl fun _ ho => ho
  | shutdownStep instr todo v htodo hstep =>
      refine .inl (hkeep ?_ (shutdownStep_recedes hstep))
      cases shutdownStep_cases hstep with
      | claim => exact claimAll_reaper _ _
      | cancel => exact (launchAll_unmoved _).reaper
      | _ => rfl
  | listen branch v hjob hlisten =>
      refine .inl (hkeep ?_ (listen_recedes hlisten))
      cases hlisten with
      | claim => exact claimAll_reaper _ _
      | cancel => exact (launchAll_unmoved _).reaper
      | _ => rfl
  | work job v hjob hwork =>
      rcases work_recedes hwork with hr | ⟨reg, rfl, he⟩
      · exact .inl (hkeep (work_reaper hwork) hr)
      · simp only [World.step, hjob, Option.bind_some, World.work] at hs
        split at hs
        · cases hs; exact .inl fun _ ho => ho
        · next hroom => exact .inr ⟨reg, hroom, he⟩
  | owner key action o core ho hfree hcore => exact .inl (hst.settled.named.stepOwner hst.settled.sound hcore).occupied
  | reap key poisoned core hcore => exact .inl (hst.settled.named.stepReap hst.settled.sound hcore).occupied
  | actor id action core completions hcore => exact .inl (hkeep (stepActor_reaper hcore) (stepActor_recedes hcore))
  | _ => exact .inl fun _ ho => ho

theorem insertAll_occupied_card (items : List PreparedRegistration) :
    (occupiedIds (c.insertAll items)).card ≤ (occupiedIds c).card + items.length := by
  have hsub : occupiedIds (c.insertAll items) ⊆ occupiedIds c ∪ (items.map PreparedRegistration.id).toFinset := by
    intro id hid
    rcases mem_occupiedIds.mp hid with ht | hr
    · rcases insertAll_tasks (c := c) items id with ⟨p, hp, rfl, -⟩ | he
      · exact Finset.mem_union_right _ (List.mem_toFinset.mpr (List.mem_map_of_mem hp))
      · exact Finset.mem_union_left _ (mem_occupiedIds.mpr (.inl (he ▸ ht)))
    · exact Finset.mem_union_left _ (mem_occupiedIds.mpr (.inr (insertAll_reaper (c := c) items ▸ hr)))
  calc _ ≤ (occupiedIds c ∪ (items.map PreparedRegistration.id).toFinset).card := Finset.card_le_card hsub
    _ ≤ (occupiedIds c).card + (items.map PreparedRegistration.id).toFinset.card := Finset.card_union_le _ _
    _ ≤ (occupiedIds c).card + items.length := by
        have hle := List.toFinset_card_le (items.map PreparedRegistration.id)
        rw [List.length_map] at hle
        exact Nat.add_le_add_left hle _

theorem registration_limit (h : (machine cfg).Reachable w) :
    (∀ limit, cfg.maxRegisteredTasks = some limit → (occupiedIds w.core).card ≤ limit.get) ∧
    (∀ limit current incoming, cfg.maxRegisteredTasks = some limit →
      (World.registeredLimitExceeded cfg w.core current incoming = none ↔
        current + w.core.active + incoming ≤ limit.get)) ∧
    (departed w.core).length ≤ w.core.active := by
  refine ⟨fun limit hl => ?_, fun limit current incoming hl => registeredLimitExceeded_none hl w.core current incoming,
    departed_le (steady_of_reachable h).settled.sound (counted_of_reachable h)⟩
  refine h.invariant (P := fun w => (occupiedIds w.core).card ≤ limit.get) (Nat.zero_le _) fun v a v' hv hle hstep => ?_
  have hst := steady_of_reachable hv
  rcases step_occupied hst hstep with hsub | ⟨reg, hroom, hcore⟩
  · refine Nat.le_trans (Finset.card_le_card fun id hid => ?_) hle
    exact mem_occupiedIds.mpr (hsub id (mem_occupiedIds.mp hid))
  · rw [hcore]
    have hsum := (registeredLimitExceeded_none hl v.core _ _).mp hroom
    calc _ ≤ (occupiedIds v.core).card + reg.items.length := insertAll_occupied_card reg.items
      _ ≤ Table.size v.core.tasks + v.core.active + reg.items.length :=
          Nat.add_le_add_right (occupied_card_le hst.settled.sound (counted_of_reachable hv)) _
      _ ≤ limit.get := hsum

def pairConfig : RegistryConfig := ⟨.four, some .two⟩

/-- One actor outlives its membership, one task is a member, and a third asks
to be admitted. -/
def fullRun : List World.Action :=
  Exclusion.outlivedRun ++ sendRun 2 (.addTask ⟨2, "b", none, none⟩) ++ List.replicate 8 .work ++
    sendRun 3 (.addTask ⟨3, "c", none, none⟩) ++ List.replicate 2 .work

theorem registration_limit_outlived :
    ∃ w, (machine pairConfig).after World.new fullRun = some w ∧ w.core.active = 1 ∧ departed w.core = [1] ∧
      (occupiedIds w.core).card ≤ 2 ∧ w.replies.length = 4 := by
  obtain ⟨w, hw, hp⟩ := (Option.any_eq_true (fun w : World => decide (w.core.active = 1 ∧ departed w.core = [1] ∧
      w.replies.length = 4)) _).mp
    (show (Machine.after (machine pairConfig) World.new fullRun).any _ = true by decide +kernel)
  obtain ⟨hactive, hdeparted, hlen⟩ := of_decide_eq_true hp
  obtain ⟨hlimit, -, -⟩ := registration_limit (Machine.Reachable.after (M := machine pairConfig) .init hw)
  exact ⟨w, hw, hactive, hdeparted, hlimit _ rfl, hlen⟩

end Taskvisor.Registry.Limit
