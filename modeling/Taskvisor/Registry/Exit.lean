import Taskvisor.Registry.Answers
import Taskvisor.Registry.Limit

namespace Taskvisor.Registry.Exit

open Lib Runtime.Base Reaper State Lifecycle Moves Names Listener Steps Gate Entries Fence Identity Reach Claims Limit
open Honesty Answers

variable {cfg : RegistryConfig} {w w' : World} {act : World.Action} {c c' : Core} {id : TaskId} {s : PreparedRegistration}
  {key : Nat} {o : Owner} {r : Reap}

/-- The physical latch of a registration is complete, or it is among the
effects that an owner or a reap future is working off. -/
inductive Owes (c : Core) (s : PreparedRegistration) : Prop
  | done (h : s.completion ∈ c.physical) : Owes c s
  | owner (key : Nat) (o : Owner) (hk : c.owners.lookup key = some o) (hid : o.id = s.id)
      (he : .physical s.completion ∈ effectsAt o.stage) : Owes c s
  | reap (key : Nat) (r : Reap) (effects : List Effect) (hk : c.reaps.lookup key = some r) (hid : r.id = s.id)
      (hstage : r.stage = .settling effects) (he : .physical s.completion ∈ effects) : Owes c s

/-- The removal has not met the reaper yet. -/
def unmet : OwnerStage → Bool
  | .settling _ _ _ | .released _ _ => false
  | _ => true

/-- Who will see to it that the physical latch is completed. -/
inductive Due (c : Core) (s : PreparedRegistration) : Prop
  | registered (h : isRegistered c s.id) : Due c s
  | owned (key : Nat) (o : Owner) (hk : c.owners.lookup key = some o) (hid : o.id = s.id)
      (he : unmet o.stage = true) : Due c s
  | recorded (h : (c.reaper.records.lookup s.id).isSome = true) : Due c s
  | owed (h : Owes c s) : Due c s

def Traced (c : Core) : Prop := ∀ id s, c.born.lookup id = some s → Due c s

/-- The change leaves all that another registration rests on. -/
structure Spares (c c' : Core) (s : PreparedRegistration) : Prop where
  registered : isRegistered c s.id → isRegistered c' s.id
  owners : ∀ (k : Nat) (p : Owner), c.owners.lookup k = some p → p.id = s.id → c'.owners.lookup k = some p
  records : (c.reaper.records.lookup s.id).isSome = true → (c'.reaper.records.lookup s.id).isSome = true
  physical : ∀ l ∈ c.physical, l ∈ c'.physical
  reaps : ∀ (k : Nat) (q : Reap), c.reaps.lookup k = some q → q.id = s.id → c'.reaps.lookup k = some q

theorem registered_same (htasks : c'.tasks = c.tasks) (h : isRegistered c id) : isRegistered c' id := by
  rw [isRegistered, htasks]
  exact h

theorem Due.spare (h : Due c s) (hs : Spares c c' s) : Due c' s := by
  cases h with
  | registered h => exact .registered (hs.registered h)
  | owned k p hk hid he => exact .owned k p (hs.owners k p hk hid) hid he
  | recorded h => exact .recorded (hs.records h)
  | owed h =>
      cases h with
      | done h => exact .owed (.done (hs.physical _ h))
      | owner k p hk hid he => exact .owed (.owner k p (hs.owners k p hk hid) hid he)
      | reap k q effects hk hid hstage he => exact .owed (.reap k q effects (hs.reaps k q hk hid) hid hstage he)

theorem Spares.same (htasks : c'.tasks = c.tasks) (howners : c'.owners = c.owners) (hrecords : c'.reaper = c.reaper)
    (hphysical : c'.physical = c.physical) (hreaps : c'.reaps = c.reaps) : Spares c c' s :=
  ⟨registered_same htasks, fun _ _ hk _ => howners ▸ hk, fun h => hrecords ▸ h, fun _ hl => hphysical ▸ hl,
    fun _ _ hk _ => hreaps ▸ hk⟩

theorem Traced.same (h : Traced c) (hborn : c'.born = c.born) (htasks : c'.tasks = c.tasks)
    (howners : c'.owners = c.owners) (hrecords : c'.reaper = c.reaper) (hphysical : c'.physical = c.physical)
    (hreaps : c'.reaps = c.reaps) : Traced c' := fun id s hs =>
  (h id s (hborn ▸ hs)).spare (.same htasks howners hrecords hphysical hreaps)

section Effects

variable {effect : Effect} {effects : List Effect} {latch : RemovalCompletion}

/-- An effect changes the counter and the physical latches. -/
theorem applyEffect_eq : c.applyEffect effect =
    { c with active := (c.applyEffect effect).active, physical := (c.applyEffect effect).physical } := by
  cases effect <;> rfl

theorem applyEffect_keeps (hl : latch ∈ c.physical) : latch ∈ (c.applyEffect effect).physical := by
  cases effect with
  | uncount => exact hl
  | physical _ => exact List.mem_append_left _ hl

/-- A latch among the effects is completed by the first, or left to the rest. -/
theorem applyEffect_carries (hl : .physical latch ∈ effect :: effects) :
    latch ∈ (c.applyEffect effect).physical ∨ .physical latch ∈ effects := by
  cases List.mem_cons.mp hl with
  | inl he =>
      subst he
      exact .inl (List.mem_append_right _ (List.mem_singleton_self _))
  | inr he => exact .inr he

end Effects

section Owners

/-- What an owner's step leaves to the other registrations. -/
structure Keeps (c c' : Core) (id : TaskId) : Prop where
  born : c'.born = c.born
  tasks : ∀ i, i ≠ id → c'.tasks.lookup i = c.tasks.lookup i
  records : ∀ i, i ≠ id → c'.reaper.records.lookup i = c.reaper.records.lookup i
  physical : ∀ l ∈ c.physical, l ∈ c'.physical
  reaps : ∀ (k : Nat) (q : Reap), c.reaps.lookup k = some q → q.id ≠ id → c'.reaps.lookup k = some q

theorem Keeps.spares (h : Keeps c c' id) (hne : s.id ≠ id)
    (howners : ∀ (k : Nat) (p : Owner), c.owners.lookup k = some p → p.id ≠ id → c'.owners.lookup k = some p) :
    Spares c c' s := by
  refine ⟨fun hr => ?_, fun k p hk hid => howners k p hk (hid ▸ hne), fun hr => ?_, h.physical,
    fun k q hk hid => h.reaps k q hk (hid ▸ hne)⟩
  · rw [isRegistered, h.tasks _ hne]
    exact hr
  · rw [h.records _ hne]
    exact hr

theorem lookup_insert_other {p o' : Owner} {k : Nat} (hk : c.owners.lookup key = some o)
    (hp : c.owners.lookup k = some p) (hne : p.id ≠ o.id) : (c.owners.insert key o').lookup k = some p := by
  refine (AList.lookup_insert_ne ?_).trans hp
  rintro rfl
  rw [hk] at hp
  cases hp
  exact hne rfl

/-- A removal that has not met the reaper sees to its registration. -/
theorem Traced.early (h : Traced c) (hk : c.owners.lookup key = some o) (o' : Owner) (hkeeps : Keeps c c' o.id)
    (howners : c'.owners = c.owners.insert key o') (hid : o'.id = o.id) (he : unmet o'.stage = true) : Traced c' := by
  intro i s hb
  rw [hkeeps.born] at hb
  by_cases hsid : s.id = o.id
  · refine .owned key o' ?_ (hid.trans hsid.symm) he
    rw [howners]
    exact AList.lookup_insert _
  · refine (h i s hb).spare (hkeeps.spares hsid fun k p hp hne => ?_)
    rw [howners]
    exact lookup_insert_other hk hp hne

/-- A removal past the reaper moves on: what it owes is done, or owed still. -/
theorem Traced.late (h : Traced c) (hk : c.owners.lookup key = some o) (hlate : unmet o.stage = false)
    (hborn : c'.born = c.born) (htasks : c'.tasks = c.tasks) (hreaper : c'.reaper = c.reaper) (hreaps : c'.reaps = c.reaps)
    (hphysical : ∀ l ∈ c.physical, l ∈ c'.physical) (hother : ∀ k, k ≠ key → c'.owners.lookup k = c.owners.lookup k)
    (heffects : ∀ l, .physical l ∈ effectsAt o.stage → l ∈ c'.physical ∨
      ∃ o', c'.owners.lookup key = some o' ∧ o'.id = o.id ∧ .physical l ∈ effectsAt o'.stage) : Traced c' := by
  intro i s hb
  rw [hborn] at hb
  cases h i s hb with
  | registered hr => exact .registered (registered_same htasks hr)
  | owned k p hp hid he =>
      have hne : k ≠ key := by
        rintro rfl
        rw [hk] at hp
        cases hp
        rw [hlate] at he
        cases he
      exact .owned k p ((hother k hne).trans hp) hid he
  | recorded hr => exact .recorded (hreaper ▸ hr)
  | owed howes =>
      cases howes with
      | done hl => exact .owed (.done (hphysical _ hl))
      | owner k p hp hid he =>
          by_cases hkey : k = key
          · subst hkey
            rw [hk] at hp
            cases hp
            rcases heffects _ he with hdone | ⟨o', ho', hid', he'⟩
            · exact .owed (.done hdone)
            · exact .owed (.owner k o' ho' (hid'.trans hid) he')
          · exact .owed (.owner k p ((hother k hkey).trans hp) hid he)
      | reap k q effects hq hid hst he => exact .owed (.reap k q effects (hreaps ▸ hq) hid hst he)

theorem Keeps.free (hborn : c'.born = c.born) (htasks : c'.tasks = c.tasks) (hreaper : c'.reaper = c.reaper)
    (hphysical : c'.physical = c.physical) (hreaps : c'.reaps = c.reaps) : Keeps c c' id :=
  ⟨hborn, fun _ _ => by rw [htasks], fun _ _ => by rw [hreaper], fun _ hl => hphysical ▸ hl,
    fun _ _ hq _ => hreaps ▸ hq⟩

variable (h : Traced c) (hk : c.owners.lookup key = some o)

include h hk

theorem Traced.abort : Traced (c.abort key o) := by
  unfold Core.abort
  split
  · exact h.early hk { o with stage := .locking .forceAborted } (.free rfl rfl rfl rfl rfl) rfl rfl rfl
  · refine h.early hk { o with stage := .reserved } ⟨rfl, fun _ _ => rfl, fun i hne => ?_, fun _ hl => hl,
      fun _ _ hq _ => hq⟩ rfl rfl rfl
    exact AList.lookup_insert_ne hne

/-- The terminal bundle meets the reaper: it completes the latch itself, or
the record stays for the reap future. -/
theorem Traced.attach (hs : Sound c) {state : Option RemovalCompletion} {isEmpty : Bool}
    (hstage : o.stage = .reported state isEmpty) {effects : List Effect} {reaper : ReaperState}
    (ha : c.reaper.attachTerminal o.id state o.completion = (effects, reaper)) :
    Traced { c with reaper, owners := c.owners.insert key { o with stage := .settling effects state isEmpty } } := by
  obtain ⟨t, hid, hh⟩ := hs.holding hk
  have hbody := hh.body
  have hstate := hh.owned.state state (by rw [hstage]; rfl)
  rw [hstage] at hbody
  rw [← hid, hstate, hh.owned.completion] at ha
  have hother : ∀ i, i ≠ o.id → reaper.records.lookup i = c.reaper.records.lookup i := by
    intro i hne
    have hlocal := (attach_body hh (by rw [hstage]; rfl)).2.1 i (hid ▸ hne)
    rwa [ha] at hlocal
  have hthis : (reaper.records.lookup t.id).isSome = true ∨ Effect.physical t.completion ∈ effects := by
    cases hbody with
    | joined hexit hrec =>
        rw [ReaperState.attachTerminal_absent hrec] at ha
        cases ha
        exact .inr (by simp [TerminalReleases.latches])
    | reaping k hrec =>
        have hrec : c.reaper.records.lookup t.id = _ := hrec
        rw [ReaperState.attachTerminal_first hrec] at ha
        cases ha
        left
        rw [ReaperState.putRecord_single hrec]
        rfl
    | reaped p hexit hrec =>
        have hrec : c.reaper.records.lookup t.id = _ := hrec
        rw [ReaperState.attachTerminal_second hrec] at ha
        cases ha
        exact .inr (by simp)
  intro i s hb
  by_cases hsid : s.id = o.id
  · have hst : s = t := by
      have hi := hs.seed i s hb
      have hbt := hh.born
      rw [hid, ← hsid, hi] at hbt
      exact Option.some.inj (hb.symm.trans hbt)
    subst hst
    rcases hthis with hr | he
    · exact .recorded hr
    · exact .owed (.owner key _ (AList.lookup_insert _) hsid.symm he)
  · have hkeeps : Keeps c { c with
        reaper, owners := c.owners.insert key { o with stage := .settling effects state isEmpty } } o.id :=
      ⟨rfl, fun _ _ => rfl, hother, fun _ hl => hl, fun _ _ hq _ => hq⟩
    exact (h i s hb).spare (hkeeps.spares hsid fun k p hp hne => lookup_insert_other hk hp hne)

/-- One effect is carried out. -/
theorem Traced.settle {effect : Effect} {effects : List Effect} {state : Option RemovalCompletion} {isEmpty : Bool}
    (hstage : o.stage = .settling (effect :: effects) state isEmpty) :
    Traced ((c.applyEffect effect).putOwner key { o with stage := .settling effects state isEmpty }) := by
  rw [applyEffect_eq]
  refine h.late hk (by rw [hstage]; rfl) rfl rfl rfl rfl (fun _ hl => applyEffect_keeps hl)
    (fun k hne => AList.lookup_insert_ne hne) fun l hl => ?_
  rw [hstage] at hl
  exact (applyEffect_carries hl).imp_right fun he => ⟨_, AList.lookup_insert _, rfl, he⟩

theorem Traced.advance (hs : Sound c) (ha : c.advance key o = some c') : Traced c' := by
  unfold Core.advance at ha
  split at ha
  · cases ha
  · obtain ⟨outcome, -, rfl⟩ := Option.map_eq_some_iff.mp ha
    exact h.early hk { o with stage := .locking outcome } (.free rfl rfl rfl rfl rfl) rfl rfl rfl
  · cases ha
    exact h.early hk { o with stage := .counted } (.free rfl rfl rfl rfl rfl) rfl rfl rfl
  · cases ha
    have hput : c.requestAbort o.id = { c with actors := (c.requestAbort o.id).actors } := by
      unfold Core.requestAbort
      split <;> rfl
    rw [hput]
    exact h.early hk { o with stage := .requested } (.free rfl rfl rfl rfl rfl) rfl rfl rfl
  · cases ha
    refine h.early hk { o with stage := .locking .forceAborted } ⟨rfl, fun _ _ => rfl, fun _ _ => rfl, fun _ hl => hl,
      fun k q hq _ => (AList.lookup_insert_ne ?_).trans hq⟩ rfl rfl rfl
    rintro rfl
    exact Nat.lt_irrefl _ (hs.reapKeys _ _ hq)
  · next outcome _ =>
    cases ha
    unfold Core.commit
    split
    · next name state _ =>
      exact h.early hk { o with stage := .removed outcome (some state) (c.tasks.erase o.id).keys.isEmpty } ⟨rfl,
        fun i hne => AList.lookup_erase_ne hne, fun _ _ => rfl, fun _ hl => hl, fun _ _ hq _ => hq⟩ rfl rfl rfl
    · exact h.early hk { o with stage := .removed outcome none false } (.free rfl rfl rfl rfl rfl) rfl rfl rfl
  · next outcome state isEmpty _ =>
    cases ha
    exact h.early hk { o with stage := .reported state isEmpty } (.free rfl rfl rfl rfl rfl) rfl rfl rfl
  · next hst => cases ha; exact h.attach hk hs hst rfl
  · next hst => cases ha; exact h.settle hk hst
  · next hst =>
    cases ha
    refine h.late hk (by rw [hst]; rfl) rfl rfl rfl rfl (fun _ hl => hl) (fun k hne => AList.lookup_insert_ne hne)
      fun l hl => ?_
    rw [hst] at hl
    cases hl
  · next hst =>
    cases ha
    refine h.late hk (by rw [hst]; rfl) rfl rfl rfl rfl (fun _ hl => hl) (fun k hne => AList.lookup_erase_ne hne)
      fun l hl => ?_
    rw [hst] at hl
    cases hl

end Owners

theorem Traced.stepOwner (h : Traced c) (hs : Sound c) {action : Core.OwnerAction}
    (ha : c.stepOwner key action = some c') : Traced c' := by
  unfold Core.stepOwner at ha
  split at ha
  · cases ha
  · next o hk =>
    cases action with
    | advance => exact h.advance hk hs ha
    | abort =>
        simp only at ha
        split at ha
        · cases ha; exact h.abort hk
        · cases ha
    | drop =>
        simp only [Core.dropCommit] at ha
        split at ha
        · next hst =>
          split at ha
          · cases ha
          · cases ha
            refine h.early hk { o with kind := .continuation } (.free rfl rfl rfl rfl rfl) rfl rfl ?_
            change unmet o.stage = true
            rw [hst]
            rfl
        · cases ha

section Reaps

variable (h : Traced c) (hk : c.reaps.lookup key = some r)

include h hk

/-- A reap future moves on: what it owes is done, or owed still. -/
theorem Traced.rereap (hborn : c'.born = c.born) (htasks : c'.tasks = c.tasks) (howners : c'.owners = c.owners)
    (hphysical : ∀ l ∈ c.physical, l ∈ c'.physical)
    (hrecorded : ∀ i s, c.born.lookup i = some s → (c.reaper.records.lookup s.id).isSome = true →
      (c'.reaper.records.lookup s.id).isSome = true ∨ Owes c' s)
    (hother : ∀ k, k ≠ key → c'.reaps.lookup k = c.reaps.lookup k)
    (heffects : ∀ effects l, r.stage = .settling effects → .physical l ∈ effects → l ∈ c'.physical ∨
      ∃ r' rest, c'.reaps.lookup key = some r' ∧ r'.id = r.id ∧ r'.stage = .settling rest ∧ .physical l ∈ rest) :
    Traced c' := by
  intro i s hb
  rw [hborn] at hb
  cases h i s hb with
  | registered hr => exact .registered (registered_same htasks hr)
  | owned k p hp hid he => exact .owned k p (howners ▸ hp) hid he
  | recorded hr =>
      cases hrecorded i s hb hr with
      | inl hr => exact .recorded hr
      | inr howes => exact .owed howes
  | owed howes =>
      cases howes with
      | done hl => exact .owed (.done (hphysical _ hl))
      | owner k p hp hid he => exact .owed (.owner k p (howners ▸ hp) hid he)
      | reap k q effects hq hid hst he =>
          by_cases hkey : k = key
          · subst hkey
            rw [hk] at hq
            cases hq
            rcases heffects effects _ hst he with hdone | ⟨r', rest, hr', hid', hst', he'⟩
            · exact .owed (.done hdone)
            · exact .owed (.reap k r' rest hr' (hid'.trans hid) hst' he')
          · exact .owed (.reap k q effects ((hother k hkey).trans hq) hid hst he)

theorem Traced.reap_waiting (hs : Sound c) (hstage : r.stage = .waiting) {poisoned : Bool} {ready : Option ReadyRecord}
    {reaper : ReaperState} (hp : c.reaper.completePhysical r.id r.release poisoned = (ready, reaper)) :
    Traced { c with
      reaper
      reaps := c.reaps.insert key { r with stage := .settling ((ready.map ReadyRecord.effects).getD []) } } := by
  obtain ⟨t, hid, hborn, hv, hlife⟩ := reap_seed hs hk
  obtain ⟨-, phase, -, hb⟩ := hlife
  obtain ⟨rfl, -, -, hrec⟩ := waiting_body hb hv hstage
  refine h.rereap hk rfl rfl rfl (fun _ hl => hl) (fun i s hbi hr => ?_) (fun k hne => AList.lookup_insert_ne hne)
    fun effects l hst _ => by cases hst
  rcases hrec with ⟨-, hrec⟩ | ⟨-, hrec⟩
  · have hrec : c.reaper.records.lookup t.id = _ := hrec
    rw [ReaperState.completePhysical_first hrec] at hp
    cases hp
    left
    change ((c.reaper.records.insert t.id _).lookup s.id).isSome = true
    rw [Table.lookup_insert_ite]
    split
    · rfl
    · exact hr
  · have hrec : c.reaper.records.lookup t.id = _ := hrec
    rw [ReaperState.completePhysical_second hrec] at hp
    cases hp
    by_cases hsid : s.id = t.id
    · have hi := hs.seed i s hbi
      have hst : s = t := by
        rw [← hi, hsid, hborn] at hbi
        exact (Option.some.inj hbi).symm
      subst hst
      refine .inr (.reap key _ _ (AList.lookup_insert _) rfl rfl ?_)
      simp [ReadyRecord.effects, TerminalReleases.latches]
    · left
      change (((c.reaper.records.insert t.id _).erase t.id).lookup s.id).isSome = true
      rw [AList.lookup_erase_ne hsid, AList.lookup_insert_ne hsid]
      exact hr

end Reaps

theorem Traced.stepReap (h : Traced c) (hs : Sound c) {poisoned : Bool} (ha : c.stepReap key poisoned = some c') :
    Traced c' := by
  unfold Core.stepReap at ha
  split at ha
  · cases ha
  · next r hk =>
    split at ha
    · next hstage =>
      split at ha
      · cases ha
        exact h.reap_waiting hk hs hstage rfl
      · cases ha
    · next effect effects hstage =>
      cases ha
      rw [applyEffect_eq]
      refine h.rereap hk rfl rfl rfl (fun _ hl => applyEffect_keeps hl) (fun _ _ _ hr => .inl hr)
        (fun k hne => AList.lookup_insert_ne hne) fun es l hes hl => ?_
      rw [hstage] at hes
      cases hes
      exact (applyEffect_carries hl).imp_right fun he => ⟨_, effects, AList.lookup_insert _, rfl, rfl, he⟩
    · next hstage =>
      cases ha
      refine h.rereap hk rfl rfl rfl (fun _ hl => hl) (fun _ _ _ hr => .inl hr)
        (fun k hne => AList.lookup_erase_ne hne) fun es l hes hl => ?_
      rw [hstage] at hes
      cases hes
      cases hl

theorem Traced.claim (h : Traced c) (hkeys : ∀ k o, c.owners.lookup k = some o → k < c.nextOwner) {kind : OwnerKind}
    {claimant : Claimant} (hc : c.claimRegistered id kind claimant = some (key, c')) : Traced c' := by
  obtain ⟨name, handle, -, -, rfl⟩ := claimRegistered_eq hc
  intro i s hb
  by_cases hsid : s.id = id
  · exact .owned c.nextOwner _ (AList.lookup_insert _) hsid.symm rfl
  · refine (h i s hb).spare ⟨fun hr => ?_, fun k p hk _ => (AList.lookup_insert_ne ?_).trans hk, fun hr => hr,
      fun _ hl => hl, fun _ _ hq _ => hq⟩
    · obtain ⟨n, hd, he⟩ := hr
      exact ⟨n, hd, (AList.lookup_insert_ne hsid).trans he⟩
    · rintro rfl
      exact Nat.lt_irrefl _ (hkeys _ _ hk)

theorem Traced.claimAll (h : Traced c) (hkeys : ∀ k o, c.owners.lookup k = some o → k < c.nextOwner) (kind : OwnerKind)
    (ids : List TaskId) : Traced (c.claimAll kind ids) := by
  let good (d : Core) : Prop := Traced d ∧ ∀ k o, d.owners.lookup k = some o → k < d.nextOwner
  have hgood : good (c.claimAll kind ids) := by
    refine claimAll_keeps (P := good) ids ⟨h, hkeys⟩ fun d d' i key hd hc => ⟨hd.1.claim hd.2 hc, ?_⟩
    obtain ⟨name, handle, -, -, rfl⟩ := claimRegistered_eq hc
    intro k o ho
    exact Table.lt_succ_of_lookup_insert hd.2 ho
  exact hgood.1

theorem Traced.launch (h : Traced c) (key : Nat) (kind : OwnerKind) : Traced (c.launch key kind) := by
  unfold Core.launch
  split
  · next o hk =>
    split
    · exact h.early hk { o with kind, stage := .joining } (.free rfl rfl rfl rfl rfl) rfl rfl rfl
    · exact h
  · exact h

theorem Traced.launchAll (h : Traced c) (kind : OwnerKind) : Traced (World.launchAll c kind) :=
  launchAll_keeps (P := Traced) h (fun _ _ hd => hd.same rfl rfl rfl rfl rfl rfl) fun _ key hd => hd.launch key kind

theorem Traced.openGate (h : Traced c) (items : List PreparedRegistration) : Traced (items.foldl Core.openGate c) := by
  induction items generalizing c with
  | nil => exact h
  | cons item items ih =>
      refine ih (c := c.openGate item) ?_
      unfold Core.openGate
      split
      · split
        · exact h.same rfl rfl rfl rfl rfl rfl
        · exact h
      · exact h

theorem Traced.insertAll (h : Traced c) (hseed : ∀ i s, c.born.lookup i = some s → s.id = i)
    (items : List PreparedRegistration) : Traced (c.insertAll items) := by
  induction items generalizing c with
  | nil => exact h
  | cons item items ih =>
      refine ih (c := c.insertEntry item) (fun i s hb => ?_) fun i s hb => ?_
      · rcases Table.of_lookup_insert hb with ⟨rfl, rfl⟩ | ⟨hne, hb⟩
        · exact .registered ⟨s.name, _, AList.lookup_insert _⟩
        · refine (h i s hb).spare ⟨fun hr => ?_, fun _ _ hk _ => hk, fun hr => hr, fun _ hl => hl, fun _ _ hq _ => hq⟩
          obtain ⟨n, hd, he⟩ := hr
          rw [← hseed i s hb] at hne
          exact ⟨n, hd, (AList.lookup_insert_ne hne).trans he⟩
      · rcases Table.of_lookup_insert hb with ⟨rfl, rfl⟩ | ⟨-, hb⟩
        · rfl
        · exact hseed i s hb

theorem Traced.stepActor (h : Traced c) {action : Core.ActorAction} (ha : c.stepActor id action = some c') : Traced c' := by
  obtain ⟨old, new, -, rfl⟩ := stepActor_put ha
  exact h.same rfl rfl rfl rfl rfl rfl

theorem Traced.work (h : Traced w.core) (hst : Steady w) {job : Job} (hs : Worked w job w') : Traced w'.core := by
  have hkeys := hst.settled.sound.ownerKeys
  cases hs with
  | insert reg => exact h.insertAll hst.settled.sound.seed reg.items
  | spawn item rest reg => exact h.same rfl rfl rfl rfl rfl rfl
  | openGate reg => exact h.openGate reg.items
  | win job target d id key core _ _ hclaim => exact h.claim hkeys hclaim
  | cancelToken key d =>
      obtain ⟨reply, target, answer⟩ := d
      cases target
      · exact h
      · exact h.same rfl rfl rfl rfl rfl rfl
  | launch key d => exact h.launch key .detached
  | signal id key core hclaim => exact h.claim hkeys hclaim
  | ready key => exact h.launch key .inline
  | unready key => exact h.launch key .detached
  | _ => exact h

theorem Traced.step (h : Traced w.core) (hst : Steady w) (hs : Stepped cfg w act w') : Traced w'.core := by
  have hkeys := hst.settled.sound.ownerKeys
  cases hs with
  | call key caller v hk hcall => rw [call_core hcall]; exact h
  | shutdownStep instr todo v htodo hstep =>
      cases shutdownStep_cases hstep with
      | claim => exact h.claimAll hkeys _ _
      | cancel => exact h.launchAll _
      | _ => exact h
  | listen branch v hjob hlisten =>
      cases hlisten with
      | claim => exact h.claimAll hkeys _ _
      | cancel => exact h.launchAll _
      | _ => exact h
  | work job v hjob hwork => exact h.work hst hwork
  | owner key action o core ho hfree hcore => exact h.stepOwner hst.settled.sound hcore
  | reap key poisoned core hcore => exact h.stepReap hst.settled.sound hcore
  | actor id action core completions hcore => exact h.stepActor hcore
  | _ => exact h

theorem traced_of_reachable (h : (machine cfg).Reachable w) : Traced w.core := by
  refine h.invariant (P := fun w => Traced w.core) (fun i s hb => ?_) fun _ _ _ hr hi hstep =>
    hi.step (steady_of_reachable hr) (step_cases hstep)
  simp [World.new, Core.new, machine] at hb

/-- How the physical side stands: the actor is gone, and its latch complete or
on its way; or a forced actor has outlived its removal, and one reap future
waits for it. -/
inductive Aftermath (c : Core) (s : PreparedRegistration) : Prop
  | ended (hexit : ∃ a, c.actors.lookup s.id = some a ∧ a.phase = .exited)
      (hrecord : c.reaper.records.lookup s.id = none) (howes : Owes c s) : Aftermath c s
  | outlived (key : Nat) (hname : c.reaper.reservesName s.name = true)
      (hreap : ∀ k q, c.reaps.lookup k = some q ∧ q.id = s.id ↔ k = key ∧ q = ⟨s.id, s.completion, .waiting⟩)
      (hlatch : s.completion ∉ c.physical) : Aftermath c s

/-- What is left of a registration once no pending join holds it. -/
structure Concluded (c : Core) (s : PreparedRegistration) : Prop where
  entry : c.tasks.lookup s.id = none
  index : ∀ n, c.byName.lookup n ≠ some s.id
  claimed : ∃ claimant, claimsOf c.claims s.id = [claimant]
  told : ∃ outcome, (c.outcomes.filter fun entry => decide (entry.1 = s.id)) = [(s.id, s.done, outcome)] ∧
    Explained c s.id outcome
  logical : s.completion ∈ c.logical ∨ ∃ key o, c.owners.lookup key = some o ∧ o.id = s.id ∧ barred o.stage = false
  physical : Aftermath c s

theorem barred_of_unmet {stage : OwnerStage} (h : unmet stage = true) : barred stage = true := by
  cases stage <;> first | rfl | cases h

theorem aftermath (hn : Named c) (ht : Traced c) (hb : c.born.lookup s.id = some s) (hnone : ¬ isRegistered c s.id)
    (hfree : ∀ key o, c.owners.lookup key = some o → barred o.stage = false)
    (hbody : Body s (view c s.id) (s.completion ∈ c.physical) .attached) : Aftermath c s := by
  cases hbody with
  | waiting key hrec hreaps hlatch =>
      have hrec : c.reaper.records.lookup s.id = _ := hrec
      refine .outlived key ?_ (fun k q => ?_) hlatch
      · have hname := (hn.reserved s.name _).mpr ⟨s.id, s, hb, rfl, by rw [hrec]; rfl, rfl⟩
        rw [ReaperState.reservesName, hname]
        rfl
      · rw [← reapsOf_eq_some]
        constructor
        · exact fun hq => hreaps.eq hq
        · rintro ⟨rfl, rfl⟩
          exact hreaps.at
  | released hexit hrec hreaps =>
      refine .ended hexit hrec ?_
      cases ht s.id s hb with
      | registered hr => exact absurd hr hnone
      | owned key o hk hid he =>
          have hbar := hfree key o hk
          rw [barred_of_unmet he] at hbar
          cases hbar
      | recorded hr =>
          have hrec : c.reaper.records.lookup s.id = none := hrec
          rw [hrec] at hr
          cases hr
      | owed howes => exact howes

theorem released_of_free {stage : OwnerStage} (h : barred stage = false) :
    phaseOf stage = .attached ∧ indexed stage = false ∧ reportedAt stage = true := by
  cases stage <;> first | exact ⟨rfl, rfl, rfl⟩ | cases h

theorem told_once (hhonest : Honest c)
    (haddressed : ∀ entry ∈ c.outcomes, ∃ t, c.born.lookup entry.1 = some t ∧ entry.2.1 = t.done)
    (hb : c.born.lookup s.id = some s) (hout : outcomesOf c.outcomes s.id = 1) :
    ∃ outcome, (c.outcomes.filter fun entry => decide (entry.1 = s.id)) = [(s.id, s.done, outcome)] ∧
      Explained c s.id outcome := by
  rw [outcomesOf, List.countP_eq_length_filter] at hout
  obtain ⟨⟨i, done, outcome⟩, hl⟩ := List.length_eq_one_iff.mp hout
  have hmem : (i, done, outcome) ∈ c.outcomes.filter fun entry => decide (entry.1 = s.id) := by
    rw [hl]
    exact List.mem_singleton_self _
  obtain ⟨hin, hid⟩ := List.mem_filter.mp hmem
  obtain rfl : i = s.id := of_decide_eq_true hid
  obtain ⟨t, ht, hdone⟩ := haddressed _ hin
  rw [hb] at ht
  cases ht
  cases hdone
  exact ⟨outcome, hl, hhonest.outcomes _ hin⟩

/-- Without a pending join every owner left is past it. -/
theorem unbarred (hs : Sound c) (hcounts : ∀ i, c.pending.counts.lookup i = none) (key : Nat) (o : Owner)
    (hk : c.owners.lookup key = some o) : barred o.stage = false := by
  obtain ⟨t, hid, hh⟩ := hs.holding hk
  have hcount : c.pending.counts.lookup t.id = _ := hh.owned.count
  rw [hcounts] at hcount
  cases hbar : barred o.stage with
  | false => rfl
  | true =>
      rw [hbar] at hcount
      cases hcount

/-- When the listener has left, every registration is concluded. -/
theorem concluded (h : (machine cfg).Reachable w) (hexit : w.mode = .exited) (hb : w.core.born.lookup id = some s) :
    Concluded w.core s := by
  have hst := steady_of_reachable h
  have hs := hst.settled.sound
  have hswept := swept_of_reachable h
  have hnone := hswept.claimed (by rw [hexit]; rfl)
  have hcounts := hswept.joined hexit
  have hfree := unbarred hs hcounts
  obtain rfl := hs.seed id s hb
  obtain ⟨-, phase, hm, hbody⟩ := hs.life _ _ hb
  have htold := told_once (honest_of_reachable h) (addressed_of_reachable h) hb
  have hindex (hentry : w.core.tasks.lookup s.id = none) (n : String) : w.core.byName.lookup n ≠ some s.id := by
    intro hx
    have hx := (hst.settled.named.index n s.id).mp hx
    rw [hentry] at hx
    cases hx
  cases hm with
  | registered entry => exact absurd ⟨s.name, _, entry⟩ (hnone s.id)
  | owned key o claimant owners claims latch owned =>
      obtain ⟨hk, hid⟩ := ownersOf_eq_some.mp owners.at
      have hbar := hfree key o hk
      obtain ⟨hphase, hindexed, hreported⟩ := released_of_free hbar
      have hentry : w.core.tasks.lookup s.id = _ := owned.entry
      have hout : outcomesOf w.core.outcomes s.id = _ := owned.outcomes
      rw [hindexed] at hentry
      rw [hreported] at hout
      rw [hphase] at hbody
      exact ⟨hentry, hindex hentry, ⟨claimant, claims⟩, htold hout, .inr ⟨key, o, hk, hid, hbar⟩,
        aftermath hst.settled.named (traced_of_reachable h) hb (hnone s.id) hfree hbody⟩
  | gone claimant entry count owners outcomes claims actor latch =>
      exact ⟨entry, hindex entry, ⟨claimant, claims⟩, htold outcomes, .inl latch,
        aftermath hst.settled.named (traced_of_reachable h) hb (hnone s.id) hfree hbody⟩

/-- The listener never comes back, and admits nothing. -/
theorem exited_step (hst : Steady w) (hexit : w.mode = .exited) (hs : w.step cfg act = some w') :
    w'.mode = .exited ∧ w'.core.born = w.core.born := by
  have hc := step_cases hs
  constructor
  · cases hc with
    | call key caller v hk hcall => cases hcall <;> exact hexit
    | shutdownStep instr todo v htodo hstep => cases shutdownStep_cases hstep <;> exact hexit
    | listen branch v hjob hlisten =>
        simp only [World.step, hjob, Option.isSome_none, Bool.false_eq_true, if_false, World.listen, hexit,
          reduceCtorEq] at hs
    | work job v hjob hwork => exact hwork.frame.mode.trans hexit
    | _ => exact hexit
  · rcases step_recedes hc with hr | ⟨reg, hjob, -⟩
    · exact hr.born
    · cases (hst.fenced.drained (.inr (by rw [hexit]; rfl))).2 _ hjob

/-- With the owners and the reap futures gone, nothing is left to be done. -/
theorem settled (h : (machine cfg).Reachable w) (hexit : w.mode = .exited)
    (howners : ∀ key, w.core.owners.lookup key = none) (hreaps : ∀ key, w.core.reaps.lookup key = none) :
    w.core.active = 0 ∧ ∀ id s, w.core.born.lookup id = some s → s.completion ∈ w.core.logical ∧
      s.completion ∈ w.core.physical ∧ ∃ a, w.core.actors.lookup s.id = some a ∧ a.phase = .exited := by
  have hdone : ∀ id s, w.core.born.lookup id = some s → s.completion ∈ w.core.logical ∧
      s.completion ∈ w.core.physical ∧ (∃ a, w.core.actors.lookup s.id = some a ∧ a.phase = .exited) ∧ w.core.reaper.records.lookup s.id = none := by
    intro id s hb
    obtain ⟨-, -, -, -, hlogical, hphysical⟩ := concluded h hexit hb
    have hlog : s.completion ∈ w.core.logical := by
      rcases hlogical with hl | ⟨key, o, hk, -⟩
      · exact hl
      · rw [howners key] at hk; cases hk
    cases hphysical with
    | ended hactor hrecord howes =>
        refine ⟨hlog, ?_, hactor, hrecord⟩
        cases howes with
        | done hl => exact hl
        | owner key o hk => rw [howners key] at hk; cases hk
        | reap key q effects hq => rw [hreaps key] at hq; cases hq
    | outlived key hname hreap hlatch =>
        have hq := ((hreap key _).mpr ⟨rfl, rfl⟩).1
        rw [hreaps key] at hq
        cases hq
  refine ⟨?_, fun id s hb => ?_⟩
  · have hcounted := counted_of_reachable h
    have hrecords : w.core.reaper.records.entries = [] := by
      rw [Table.entries_eq_nil]
      intro i
      cases hr : w.core.reaper.records.lookup i with
      | none => rfl
      | some l =>
          obtain ⟨s, hb⟩ := record_seed (steady_of_reachable h).settled.sound (by rw [hr]; rfl)
          obtain rfl := (steady_of_reachable h).settled.sound.seed i s hb
          rw [(hdone _ s hb).2.2.2] at hr
          cases hr
    unfold Counted Table.total Table.size at hcounted
    rw [hrecords, Table.values_eq_nil.mpr howners, Table.values_eq_nil.mpr hreaps] at hcounted
    exact hcounted
  · obtain ⟨hl, hp, ha, -⟩ := hdone id s hb
    exact ⟨hl, hp, ha⟩

/-- The listener leaves nothing behind: from its exit on, in every run, each
registration ever admitted is concluded, and once the last owners and reap
futures are gone every latch is complete and no actor runs. -/
theorem listener_exit (h : (machine cfg).Reachable w) (hexit : w.mode = .exited) {run : List World.Action}
    (hrun : (machine cfg).after w run = some w') :
    w'.mode = .exited ∧ w'.core.born = w.core.born ∧
    (∀ id s, w.core.born.lookup id = some s → Concluded w'.core s) ∧
    ((∀ key, w'.core.owners.lookup key = none) → (∀ key, w'.core.reaps.lookup key = none) →
      w'.core.active = 0 ∧ ∀ id s, w.core.born.lookup id = some s → s.completion ∈ w'.core.logical ∧
        s.completion ∈ w'.core.physical ∧ ∃ a, w'.core.actors.lookup s.id = some a ∧ a.phase = .exited) := by
  let kept (v : World) : Prop := v.mode = .exited ∧ v.core.born = w.core.born
  have hkept : kept w' := by
    refine h.keeps (P := kept) ⟨hexit, rfl⟩ (fun v a v' hv hk hstep => ?_) hrun
    obtain ⟨hmode, hborn⟩ := exited_step (steady_of_reachable hv) hk.1 hstep
    exact ⟨hmode, hborn.trans hk.2⟩
  obtain ⟨hmode, hborn⟩ := hkept
  have hw' : (machine cfg).Reachable w' := .after h hrun
  refine ⟨hmode, hborn, fun id s hb => concluded hw' hmode (hborn ▸ hb), fun howners hreaps => ?_⟩
  rw [← hborn]
  exact settled hw' hmode howners hreaps

/-- The last owner is dropped, and the listener leaves. -/
def leaveRun : List World.Action :=
  .shutdown .abandon :: List.replicate 4 .shutdownStep ++ List.replicate 6 (.listen .cancelled)

/-- The actor that outlived its removal ends, and its reap future with it. -/
def reapRun : List World.Action := .actor 1 .exit :: List.replicate 6 (.reap 0 false)

theorem listener_exit_outlived :
    ∃ w w', (machine pairConfig).after World.new (Exclusion.outlivedRun ++ leaveRun) = some w ∧ w.core.active = 1 ∧
      (machine pairConfig).after w reapRun = some w' ∧ w'.core.active = 0 ∧
      ∀ id s, w.core.born.lookup id = some s → Concluded w'.core s ∧ s.completion ∈ w'.core.physical := by
  obtain ⟨w, hw, hp⟩ := (Option.any_eq_true (fun w : World => decide (w.mode = .exited ∧ w.core.active = 1) &&
      ((machine pairConfig).after w reapRun).any fun w' : World =>
        decide (w'.core.owners.entries = [] ∧ w'.core.reaps.entries = [])) _).mp
    (show (Machine.after (machine pairConfig) World.new (Exclusion.outlivedRun ++ leaveRun)).any _ = true by
      decide +kernel)
  obtain ⟨hexit, hrest⟩ := Bool.and_eq_true_iff.mp hp
  obtain ⟨hmode, hactive⟩ := of_decide_eq_true hexit
  obtain ⟨w', hw', hempty⟩ := (Option.any_eq_true _ _).mp hrest
  obtain ⟨howners, hreaps⟩ := of_decide_eq_true hempty
  obtain ⟨-, -, hconcluded, hover⟩ :=
    listener_exit (Machine.Reachable.after (M := machine pairConfig) .init hw) hmode hw'
  obtain ⟨hzero, hdone⟩ := hover (Table.entries_eq_nil.mp howners) (Table.entries_eq_nil.mp hreaps)
  exact ⟨w, w', hw, hactive, hw', hzero, fun id s hb => ⟨hconcluded id s hb, (hdone id s hb).2.1⟩⟩

end Taskvisor.Registry.Exit
