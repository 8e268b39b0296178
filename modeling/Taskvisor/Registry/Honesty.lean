import Taskvisor.Registry.Claims

namespace Taskvisor.Registry.Honesty

open Lib Runtime.Base Reaper State Lifecycle Moves Names Listener Steps Entries Identity Reach

variable {cfg : RegistryConfig} {w w' : World} {act : World.Action} {c c' : Core} {id : TaskId} {key : Nat} {o : Owner}
  {outcome : TaskOutcome}

/-- Why a removal ended with this outcome: the wrapper of the actor left after
it had sent a result with this meaning, or its abort was requested. -/
def Explained (c : Core) (id : TaskId) (outcome : TaskOutcome) : Prop :=
  ∃ a, c.actors.lookup id = some a ∧
    ((∃ result, a.result = some result ∧ a.phase = .exited ∧ outcome = outcomeOf result) ∨
      outcome = .forceAborted ∧ a.abortRequested = true)

/-- The wrapper sends its result before it signals, and leaves before that only
when it is aborted. -/
def Consistent (a : Actor) : Prop :=
  match a.phase with
  | .gated | .running => a.result = none
  | .produced | .signalled => a.result.isSome
  | .exited => a.result.isSome ∨ a.abortRequested = true

/-- What an actor keeps: the request of its abort, and the result it left with. -/
structure Ages (a a' : Actor) : Prop where
  abort : a.abortRequested = true → a'.abortRequested = true
  result : a.phase = .exited → a'.phase = .exited ∧ a'.result = a.result

theorem Ages.refl (a : Actor) : Ages a a := ⟨fun h => h, fun h => ⟨h, rfl⟩⟩

/-- The stages of a removal before it asks for the abort. -/
def unforced : OwnerStage → Bool
  | .claimed | .joining | .reserved | .counted => true
  | _ => false

/-- The outcome a removal is about to deliver. -/
def outcomeAt : OwnerStage → Option TaskOutcome
  | .requested => some .forceAborted
  | .locking outcome | .removed outcome _ _ => some outcome
  | _ => none

/-- Nobody has asked for the abort of this identity's actor. -/
def Untouched (c : Core) (id : TaskId) : Prop :=
  isRegistered c id ∨ ∃ key o, c.owners.lookup key = some o ∧ o.id = id ∧ unforced o.stage = true

/-- Outcomes on their way and delivered are explained. -/
structure Honest (c : Core) : Prop where
  actors : ∀ id a, c.actors.lookup id = some a → Consistent a
  quiet : ∀ id a, c.actors.lookup id = some a → Untouched c id → a.abortRequested = false
  owners : ∀ key o outcome, c.owners.lookup key = some o → outcomeAt o.stage = some outcome → Explained c o.id outcome
  outcomes : ∀ entry ∈ c.outcomes, Explained c entry.1 entry.2.2

theorem Honest.new : Honest Core.new where
  actors := fun _ _ ha => by simp [Core.new] at ha
  quiet := fun _ _ ha => by simp [Core.new] at ha
  owners := fun _ _ _ hk => by simp [Core.new] at hk
  outcomes := fun _ he => by cases he

theorem Explained.age (h : Explained c id outcome)
    (hage : ∀ a, c.actors.lookup id = some a → ∃ a', c'.actors.lookup id = some a' ∧ Ages a a') : Explained c' id outcome := by
  obtain ⟨a, ha, hwhy⟩ := h
  obtain ⟨a', ha', hages⟩ := hage a ha
  refine ⟨a', ha', ?_⟩
  rcases hwhy with ⟨result, hresult, hphase, he⟩ | ⟨he, habort⟩
  · obtain ⟨hphase', hresult'⟩ := hages.result hphase
    exact .inl ⟨result, hresult'.trans hresult, hphase', he⟩
  · exact .inr ⟨he, hages.abort habort⟩

theorem Explained.congr (h : Explained c id outcome) (hactors : c'.actors = c.actors) : Explained c' id outcome :=
  h.age fun a ha => ⟨a, hactors ▸ ha, .refl a⟩

section Moves

/-- The actors stand still. -/
theorem Honest.restaff (h : Honest c) (hactors : c'.actors = c.actors) (htouch : ∀ id, Untouched c' id → Untouched c id)
    (howners : ∀ key o outcome, c'.owners.lookup key = some o → outcomeAt o.stage = some outcome → Explained c o.id outcome)
    (houtcomes : ∀ entry ∈ c'.outcomes, Explained c entry.1 entry.2.2) : Honest c' where
  actors := fun id a ha => h.actors id a (hactors ▸ ha)
  quiet := fun id a ha ht => h.quiet id a (hactors ▸ ha) (htouch id ht)
  owners := fun key o outcome hk ho => (howners key o outcome hk ho).congr hactors
  outcomes := fun entry he => (houtcomes entry he).congr hactors

theorem Honest.same (h : Honest c) (hactors : c'.actors = c.actors) (htasks : c'.tasks = c.tasks)
    (howners : c'.owners = c.owners) (houtcomes : c'.outcomes = c.outcomes) : Honest c' := by
  refine h.restaff hactors (fun id ht => ?_) (fun key o outcome hk => ?_) fun entry he => ?_
  · rw [Untouched, isRegistered, htasks, howners] at ht
    exact ht
  · rw [howners] at hk
    exact h.owners key o outcome hk
  · rw [houtcomes] at he
    exact h.outcomes entry he

/-- One owner moves on, and no entry appears. -/
theorem Honest.owner (h : Honest c) (hk : c.owners.lookup key = some o) (o' : Owner) (hid : o'.id = o.id)
    (hactors : c'.actors = c.actors) (hentry : ∀ id, isRegistered c' id → isRegistered c id)
    (howners : c'.owners = c.owners.insert key o') (houtcomes : ∀ entry ∈ c'.outcomes, Explained c entry.1 entry.2.2)
    (hunforced : unforced o'.stage = true → unforced o.stage = true)
    (hexplained : ∀ outcome, outcomeAt o'.stage = some outcome → Explained c o.id outcome) : Honest c' := by
  refine h.restaff hactors (fun id ht => ?_) (fun k p outcome hp => ?_) houtcomes
  · rcases ht with hr | ⟨k, p, hp, rfl, hu⟩
    · exact .inl (hentry id hr)
    · rw [howners] at hp
      obtain ⟨-, rfl⟩ | ⟨-, hp⟩ := Table.of_lookup_insert hp
      · exact .inr ⟨key, o, hk, hid.symm, hunforced hu⟩
      · exact .inr ⟨k, p, hp, rfl, hu⟩
  · rw [howners] at hp
    obtain ⟨-, rfl⟩ | ⟨-, hp⟩ := Table.of_lookup_insert hp
    · rw [hid]
      exact hexplained outcome
    · exact h.owners k p outcome hp

/-- One actor moves on. -/
theorem Honest.actor (h : Honest c) {a a' : Actor} (ha : c.actors.lookup id = some a) (hconsistent : Consistent a')
    (hages : Ages a a') (habort : a'.abortRequested = a.abortRequested) : Honest (c.putActor id a') := by
  have hage (i : TaskId) (b : Actor) (hb : c.actors.lookup i = some b) :
      ∃ b', (c.putActor id a').actors.lookup i = some b' ∧ Ages b b' := by
    by_cases hi : i = id
    · subst hi
      obtain rfl := Option.some.inj (ha.symm.trans hb)
      exact ⟨a', AList.lookup_insert _, hages⟩
    · exact ⟨b, (AList.lookup_insert_ne hi).trans hb, .refl b⟩
  refine ⟨fun i b hb => ?_, fun i b hb ht => ?_, fun k p outcome hp ho => (h.owners k p outcome hp ho).age (hage p.id),
    fun entry he => (h.outcomes entry he).age (hage entry.1)⟩
  · obtain ⟨-, rfl⟩ | ⟨-, hb⟩ := Table.of_lookup_insert hb
    · exact hconsistent
    · exact h.actors i b hb
  · obtain ⟨rfl, rfl⟩ | ⟨-, hb⟩ := Table.of_lookup_insert hb
    · exact habort.trans (h.quiet i a ha ht)
    · exact h.quiet i b hb ht

theorem Honest.spawn (h : Honest c) {item : PreparedRegistration} (hnone : c.actors.lookup item.id = none) :
    Honest (c.spawn item) := by
  have hage (i : TaskId) (b : Actor) (hb : c.actors.lookup i = some b) :
      ∃ b', (c.spawn item).actors.lookup i = some b' ∧ Ages b b' := by
    have hi : i ≠ item.id := by
      rintro rfl
      cases hnone.symm.trans hb
    exact ⟨b, (AList.lookup_insert_ne hi).trans hb, .refl b⟩
  refine ⟨fun i b hb => ?_, fun i b hb ht => ?_, fun k p outcome hp ho => (h.owners k p outcome hp ho).age (hage p.id),
    fun entry he => (h.outcomes entry he).age (hage entry.1)⟩
  · obtain ⟨-, rfl⟩ | ⟨-, hb⟩ := Table.of_lookup_insert hb
    · rfl
    · exact h.actors i b hb
  · obtain ⟨-, rfl⟩ | ⟨-, hb⟩ := Table.of_lookup_insert hb
    · rfl
    · exact h.quiet i b hb ht

theorem Honest.openGate (h : Honest c) (items : List PreparedRegistration) : Honest (items.foldl Core.openGate c) := by
  induction items generalizing c with
  | nil => exact h
  | cons item items ih =>
      apply ih
      unfold Core.openGate
      split
      · next a ha =>
        split
        · next hgated =>
          have hnone : a.result = none := by
            have hconsistent := h.actors item.id a ha
            rwa [Consistent, hgated] at hconsistent
          refine h.actor ha hnone ⟨fun hx => hx, fun hx => ?_⟩ rfl
          cases hgated.symm.trans hx
        · exact h
      · exact h

theorem Honest.claim {kind : OwnerKind} {claimant : Claimant} (h : Honest c)
    (hc : c.claimRegistered id kind claimant = some (key, c')) : Honest c' := by
  obtain ⟨name, handle, he, -, rfl⟩ := claimRegistered_eq hc
  refine h.restaff rfl (fun i ht => ?_) (fun k p outcome hp ho => ?_) h.outcomes
  · rcases ht with hr | ⟨k, p, hp, rfl, hu⟩
    · obtain ⟨n, handle', hx⟩ := hr
      obtain ⟨-, hx⟩ | ⟨-, hx⟩ := Table.of_lookup_insert hx
      · cases hx
      · exact .inl ⟨n, handle', hx⟩
    · obtain ⟨-, rfl⟩ | ⟨-, hp⟩ := Table.of_lookup_insert hp
      · exact .inl ⟨name, handle, he⟩
      · exact .inr ⟨k, p, hp, rfl, hu⟩
  · obtain ⟨-, rfl⟩ | ⟨-, hp⟩ := Table.of_lookup_insert hp
    · cases ho
    · exact h.owners k p outcome hp ho

theorem Honest.launch (h : Honest c) (key : Nat) (kind : OwnerKind) : Honest (c.launch key kind) := by
  unfold Core.launch
  split
  · next o hk =>
    split
    · next hstage =>
      refine h.owner hk { o with kind, stage := .joining } rfl rfl (fun _ hr => hr) rfl h.outcomes ?_ ?_
      · rw [hstage]
        exact fun _ => rfl
      · rintro outcome ⟨⟩
    · exact h
  · exact h

theorem Honest.claimAll (h : Honest c) (kind : OwnerKind) (ids : List TaskId) : Honest (c.claimAll kind ids) :=
  claimAll_keeps (P := Honest) ids h fun _ _ _ _ hd hc => hd.claim hc

theorem Honest.launchAll (h : Honest c) (kind : OwnerKind) : Honest (World.launchAll c kind) :=
  launchAll_keeps (P := Honest) h (fun _ _ hd => hd.same rfl rfl rfl rfl) fun _ key hd => hd.launch key kind

end Moves

section Removal

/-- A joined actor left on its own. -/
theorem Honest.join (h : Honest c) (hk : c.owners.lookup key = some o) (hstage : o.stage = .joining)
    (hj : c.joined o.id = some outcome) : Explained c o.id outcome := by
  unfold Core.joined at hj
  split at hj
  · next a ha =>
    split at hj
    · next hexited =>
      have hquiet := h.quiet o.id a ha (.inr ⟨key, o, hk, rfl, by rw [hstage]; rfl⟩)
      have hconsistent := h.actors o.id a ha
      rw [Consistent, hexited, hquiet] at hconsistent
      obtain ⟨result, hresult⟩ := Option.isSome_iff_exists.mp (hconsistent.resolve_right fun hx => by cases hx)
      rw [hresult] at hj
      exact ⟨a, ha, .inl ⟨result, hresult, hexited, (Option.some.inj hj).symm⟩⟩
    · cases hj
  · cases hj

/-- The registration of a removal has no other owner and no entry of its own. -/
theorem owned_once (h : Sound c) (hk : c.owners.lookup key = some o) :
    ¬ isRegistered c o.id ∧ ∀ k p, c.owners.lookup k = some p → p.id = o.id → k = key := by
  obtain ⟨s, hid, hh⟩ := h.holding hk
  constructor
  · rintro ⟨name, handle, he⟩
    have hentry : c.tasks.lookup s.id = _ := hh.owned.entry
    rw [hid, he] at hentry
    split at hentry <;> cases hentry
  · exact fun k p hp hpid => (hh.owners.eq (ownersOf_eq_some.mpr ⟨hp, hpid.trans hid.symm⟩)).1

/-- The request of the abort. -/
theorem Honest.request (h : Honest c) (hs : Sound c) (hk : c.owners.lookup key = some o) :
    Honest ((c.requestAbort o.id).putOwner key { o with stage := .requested }) := by
  obtain ⟨s, hid, hh⟩ := hs.holding hk
  obtain ⟨a, ha⟩ := Option.isSome_iff_exists.mp hh.owned.actor
  have ha : c.actors.lookup o.id = some a := hid ▸ ha
  obtain ⟨hunregistered, honly⟩ := owned_once hs hk
  have he : (c.requestAbort o.id).putOwner key { o with stage := .requested } =
      { c with
        actors := c.actors.insert o.id { a with abortRequested := true }
        owners := c.owners.insert key { o with stage := .requested } } := by
    rw [Core.requestAbort, ha]
    rfl
  rw [he]
  have hage (i : TaskId) (b : Actor) (hb : c.actors.lookup i = some b) :
      ∃ b', (c.actors.insert o.id { a with abortRequested := true }).lookup i = some b' ∧ Ages b b' := by
    by_cases hi : i = o.id
    · subst hi
      obtain rfl := Option.some.inj (ha.symm.trans hb)
      exact ⟨_, AList.lookup_insert _, fun _ => rfl, fun hp => ⟨hp, rfl⟩⟩
    · exact ⟨b, (AList.lookup_insert_ne hi).trans hb, .refl b⟩
  refine ⟨fun i b hb => ?_, fun i b hb ht => ?_, fun k p outcome hp ho => ?_, fun entry hm => (h.outcomes entry hm).age (hage _)⟩
  · obtain ⟨-, rfl⟩ | ⟨-, hb⟩ := Table.of_lookup_insert hb
    · have hconsistent := h.actors o.id a ha
      unfold Consistent at hconsistent ⊢
      split <;> simp_all
    · exact h.actors i b hb
  · have hne : i ≠ o.id := by
      rintro rfl
      rcases ht with hr | ⟨k, p, hp, hpid, hu⟩
      · exact hunregistered hr
      · obtain ⟨-, rfl⟩ | ⟨hkey, hp⟩ := Table.of_lookup_insert hp
        · cases hu
        · exact hkey (honly k p hp hpid)
    refine h.quiet i b ((AList.lookup_insert_ne hne).symm.trans hb) (ht.imp_right ?_)
    rintro ⟨k, p, hp, rfl, hu⟩
    obtain ⟨-, rfl⟩ | ⟨-, hp⟩ := Table.of_lookup_insert hp
    · cases hu
    · exact ⟨k, p, hp, rfl, hu⟩
  · obtain ⟨-, rfl⟩ | ⟨-, hp⟩ := Table.of_lookup_insert hp
    · obtain rfl := Option.some.inj ho
      exact ⟨_, AList.lookup_insert _, .inr ⟨rfl, rfl⟩⟩
    · exact (h.owners k p outcome hp ho).age (hage p.id)

theorem commit_registered (outcome : TaskOutcome) (hr : isRegistered (c.commit key o outcome) id) : isRegistered c id := by
  obtain ⟨name, handle, he⟩ := hr
  have hrecedes : Recedes c (c.commit key o outcome) := commit_recedes o outcome
  exact ⟨name, handle, (hrecedes.entry id).registered he⟩

theorem Honest.commit (h : Honest c) (hk : c.owners.lookup key = some o) (hstage : o.stage = .locking outcome) :
    Honest (c.commit key o outcome) := by
  have hexplained : Explained c o.id outcome := h.owners key o outcome hk (by rw [hstage]; rfl)
  have hentry (i : TaskId) (hr : isRegistered (c.commit key o outcome) i) : isRegistered c i := commit_registered outcome hr
  unfold Core.commit at hentry ⊢
  split at hentry
  · next name state he =>
    refine h.owner hk { o with stage := .removed outcome (some state) (c.tasks.erase o.id).keys.isEmpty } rfl rfl
      hentry rfl h.outcomes (fun hu => by cases hu) ?_
    rintro _ ⟨⟩
    exact hexplained
  · refine h.owner hk { o with stage := .removed outcome none false } rfl rfl hentry rfl h.outcomes
      (fun hu => by cases hu) ?_
    rintro _ ⟨⟩
    exact hexplained

theorem Honest.advance (h : Honest c) (hs : Sound c) (hk : c.owners.lookup key = some o) (hc : c.advance key o = some c') :
    Honest c' := by
  have hmove {d : Core} (stage : OwnerStage) (hactors : d.actors = c.actors) (htasks : d.tasks = c.tasks)
      (howners : d.owners = c.owners.insert key { o with stage })
      (houtcomes : ∀ entry ∈ d.outcomes, Explained c entry.1 entry.2.2)
      (hunforced : unforced stage = true → unforced o.stage = true)
      (hexplained : ∀ outcome, outcomeAt stage = some outcome → Explained c o.id outcome) : Honest d := by
    refine h.owner hk { o with stage } rfl hactors (fun id hr => ?_) howners houtcomes hunforced hexplained
    rwa [isRegistered, htasks] at hr
  unfold Core.advance at hc
  split at hc
  · cases hc
  · next hstage =>
    obtain ⟨outcome, hj, rfl⟩ := Option.map_eq_some_iff.mp hc
    refine hmove (.locking outcome) rfl rfl rfl h.outcomes (fun hu => by cases hu) ?_
    rintro _ ⟨⟩
    exact h.join hk hstage hj
  · next hstage =>
    cases hc
    exact hmove .counted rfl rfl rfl h.outcomes (fun _ => by rw [hstage]; rfl) fun _ hx => by cases hx
  · cases hc
    exact h.request hs hk
  · next hstage =>
    cases hc
    refine hmove (.locking .forceAborted) rfl rfl rfl h.outcomes (fun hu => by cases hu) ?_
    rintro _ ⟨⟩
    exact h.owners key o .forceAborted hk (by rw [hstage]; rfl)
  · next outcome hstage =>
    cases hc
    exact h.commit hk hstage
  · next outcome state isEmpty hstage =>
    cases hc
    refine hmove (.reported state isEmpty) rfl rfl rfl (fun entry he => ?_) (fun hu => by cases hu) fun _ hx => by cases hx
    rcases List.mem_append.mp he with he | he
    · exact h.outcomes entry he
    · obtain rfl := List.mem_singleton.mp he
      exact h.owners key o outcome hk (by rw [hstage]; rfl)
  · next state isEmpty hstage =>
    cases hc
    exact hmove (.settling _ state isEmpty) rfl rfl rfl h.outcomes (fun hu => by cases hu) fun _ hx => by cases hx
  · next effect effects state isEmpty hstage =>
    cases hc
    cases effect <;>
      exact hmove (.settling effects state isEmpty) rfl rfl rfl h.outcomes (fun hu => by cases hu) fun _ hx => by cases hx
  · next state isEmpty hstage =>
    cases hc
    exact hmove (.released state isEmpty) rfl rfl rfl h.outcomes (fun hu => by cases hu) fun _ hx => by cases hx
  · cases hc
    refine h.restaff rfl (fun id ht => ht.imp_right ?_) (fun k p outcome hp => ?_) h.outcomes
    · rintro ⟨k, p, hp, rfl, hu⟩
      exact ⟨k, p, (Table.of_lookup_erase hp).2, rfl, hu⟩
    · exact h.owners k p outcome (Table.of_lookup_erase hp).2

/-- The grace has run out. -/
theorem Honest.abort (h : Honest c) (hs : Sound c) (hk : c.owners.lookup key = some o) (hstage : o.stage = .joining) :
    Honest (c.abort key o) := by
  obtain ⟨s, hid, hh⟩ := hs.holding hk
  obtain ⟨a, ha⟩ := Option.isSome_iff_exists.mp hh.owned.actor
  have ha : c.actors.lookup o.id = some a := hid ▸ ha
  rw [Core.abort, ha]
  refine h.owner hk { o with stage := .reserved } rfl rfl (fun _ hr => hr) rfl h.outcomes (fun _ => ?_) fun _ hx => by cases hx
  rw [hstage]
  rfl

theorem Honest.stepOwner (h : Honest c) (hs : Sound c) {action : Core.OwnerAction} (hc : c.stepOwner key action = some c') :
    Honest c' := by
  unfold Core.stepOwner at hc
  split at hc
  · cases hc
  · next o hk =>
    cases action with
    | advance => exact h.advance hs hk hc
    | abort =>
        simp only at hc
        split at hc
        · next hjoin =>
          cases hc
          exact h.abort hs hk hjoin.1
        · cases hc
    | drop =>
        simp only [Core.dropCommit] at hc
        split at hc
        · next outcome hstage =>
          split at hc
          · cases hc
          · cases hc
            exact h.owner hk { o with kind := .continuation } rfl rfl (fun _ hr => hr) rfl h.outcomes (fun hu => hu)
              fun outcome ho => h.owners key o outcome hk ho
        · cases hc

theorem Honest.stepReap (h : Honest c) {poisoned : Bool} (hc : c.stepReap key poisoned = some c') : Honest c' := by
  unfold Core.stepReap at hc
  split at hc
  · cases hc
  · split at hc
    · split at hc
      · cases hc
        exact h.same rfl rfl rfl rfl
      · cases hc
    · next effect effects _ =>
      cases hc
      cases effect <;> exact h.same rfl rfl rfl rfl
    · cases hc
      exact h.same rfl rfl rfl rfl

theorem Honest.stepActor (h : Honest c) {action : Core.ActorAction} (hc : c.stepActor id action = some c') : Honest c' := by
  unfold Core.stepActor at hc
  split at hc
  · cases hc
  · next a ha =>
    have hlive {a' : Actor} (hphase : a.phase ≠ .exited) (habort : a'.abortRequested = a.abortRequested) : Ages a a' :=
      ⟨fun hx => habort.trans hx, fun hx => absurd hx hphase⟩
    have hconsistent := h.actors id a ha
    unfold Consistent at hconsistent
    split at hc
    · next hphase =>
      cases hc
      exact h.actor ha rfl (hlive (by rw [hphase]; exact fun hx => by cases hx) rfl) rfl
    · next hphase =>
      cases hc
      rw [hphase] at hconsistent
      exact h.actor ha hconsistent (hlive (by rw [hphase]; exact fun hx => by cases hx) rfl) rfl
    · next hphase =>
      cases hc
      rw [hphase] at hconsistent
      exact h.actor ha (.inl hconsistent) (hlive (by rw [hphase]; exact fun hx => by cases hx) rfl) rfl
    · next hphase =>
      split at hc
      · next habort =>
        cases hc
        exact h.actor ha (.inr habort) (hlive (by rw [hphase]; exact fun hx => by cases hx) rfl) rfl
      · cases hc
    · next hphase =>
      split at hc
      · next habort =>
        cases hc
        exact h.actor ha (.inr habort) (hlive (by rw [hphase]; exact fun hx => by cases hx) rfl) rfl
      · cases hc
    · cases hc

end Removal

/-- New members have no actor yet. -/
theorem Honest.insertAll (h : Honest c) (hs : Sound c) {items : List PreparedRegistration}
    (hnew : ∀ item ∈ items, c.born.lookup item.id = none) : Honest (c.insertAll items) := by
  have hactors : (c.insertAll items).actors = c.actors := insertAll_actors items
  have hsame : ∀ (items : List PreparedRegistration) (c : Core), (c.insertAll items).owners = c.owners ∧
      (c.insertAll items).outcomes = c.outcomes := by
    intro items
    induction items with
    | nil => exact fun c => ⟨rfl, rfl⟩
    | cons item items ih => exact fun c => ih (c.insertEntry item)
  obtain ⟨howners, houtcomes⟩ := hsame items c
  have hquiet (id : TaskId) (a : Actor) (ha : c.actors.lookup id = some a) (ht : Untouched (c.insertAll items) id) :
      Untouched c id := by
    rcases ht with ⟨name, handle, he⟩ | ht
    · rcases Claims.insertAll_tasks items id with ⟨p, hp, rfl, -⟩ | hold
      · have hnone : c.actors.lookup p.id = none := (hs.blank p.id (hnew p hp)).actor
        cases hnone.symm.trans ha
      · exact .inl ⟨name, handle, hold.symm.trans he⟩
    · rw [howners] at ht
      exact .inr ht
  refine ⟨fun id a ha => h.actors id a (hactors ▸ ha), fun id a ha ht => ?_, fun k p outcome hp ho => ?_, fun entry he => ?_⟩
  · rw [hactors] at ha
    exact h.quiet id a ha (hquiet id a ha ht)
  · rw [howners] at hp
    exact (h.owners k p outcome hp ho).congr hactors
  · rw [houtcomes] at he
    exact (h.outcomes entry he).congr hactors

theorem Honest.work (h : Honest w.core) (hst : Steady w) {job : Job} (hjob : w.job = some job) (hs : Worked w job w') :
    Honest w'.core := by
  cases hs with
  | insert reg =>
      refine h.insertAll hst.settled.sound fun item hitem => ?_
      have hprepared := (hst.incoming.prepares item (by rw [hjob]; exact hitem)).1
      exact hprepared
  | spawn item rest reg =>
      have hnone := (hst.settled.waiting item (by rw [hjob]; exact List.mem_cons_self)).2
      exact h.spawn hnone
  | openGate reg => exact h.openGate reg.items
  | win _ _ _ _ _ _ _ _ hclaim _ => exact h.claim hclaim
  | cancelToken key d =>
      obtain ⟨reply, target, answer⟩ := d
      cases target <;> exact h.same rfl rfl rfl rfl
  | launch key d => exact h.launch key .detached
  | signal _ _ _ hclaim => exact h.claim hclaim
  | ready key => exact h.launch key .inline
  | unready key => exact h.launch key .detached
  | _ => exact h

theorem Honest.step (h : Honest w.core) (hst : Steady w) (hs : Stepped cfg w act w') : Honest w'.core := by
  cases hs with
  | call key caller v hk hcall =>
      rw [call_core hcall]
      exact h
  | shutdownStep instr todo v htodo hstep =>
      cases shutdownStep_cases hstep with
      | claim => exact h.claimAll (.shutdown false) _
      | cancel => exact h.launchAll (.shutdown false)
      | _ => exact h
  | listen branch v hjob hlisten =>
      cases hlisten with
      | claim => exact h.claimAll (.shutdown true) _
      | cancel => exact h.launchAll (.shutdown true)
      | _ => exact h
  | work job v hjob hwork => exact h.work hst hjob hwork
  | owner key action o core ho hfree hcore => exact h.stepOwner hst.settled.sound hcore
  | reap key poisoned core hcore => exact h.stepReap hcore
  | actor i action core completions hcore => exact h.stepActor hcore
  | _ => exact h

theorem honest_of_reachable (h : (machine cfg).Reachable w) : Honest w.core :=
  h.invariant (P := fun w => Honest w.core) Honest.new fun _ _ _ hr hi hstep =>
    Honest.step hi (steady_of_reachable hr) (step_cases hstep)

end Taskvisor.Registry.Honesty
