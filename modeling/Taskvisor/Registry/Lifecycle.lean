import Taskvisor.Registry.State
import Mathlib.Tactic.Common

namespace Taskvisor.Registry.Lifecycle

open Lib Runtime.Base Reaper State

variable {α : Type} {c c' : Core} {s t : PreparedRegistration} {id : TaskId} {key : Nat} {o o' : Owner}

/-- What the registry holds for one identity. -/
@[ext] structure View where
  entry : Option Entry
  count : Option Nat
  owners : Nat → Option Owner
  actor : Option Actor
  reaps : Nat → Option Reap
  records : Option (List ReaperRecord)
  outcomes : Nat
  claims : List Claimant

def ownersOf (owners : Table Nat Owner) (id : TaskId) (key : Nat) : Option Owner :=
  (owners.lookup key).filter fun o => decide (o.id = id)

def reapsOf (reaps : Table Nat Reap) (id : TaskId) (key : Nat) : Option Reap :=
  (reaps.lookup key).filter fun r => decide (r.id = id)

def outcomesOf (outcomes : List (TaskId × Option OutcomeTx × TaskOutcome)) (id : TaskId) : Nat :=
  outcomes.countP fun entry => decide (entry.1 = id)

def claimsOf (claims : List (TaskId × Claimant)) (id : TaskId) : List Claimant :=
  (claims.filter fun entry => decide (entry.1 = id)).map Prod.snd

def view (c : Core) (id : TaskId) : View where
  entry := c.tasks.lookup id
  count := c.pending.counts.lookup id
  owners := ownersOf c.owners id
  actor := c.actors.lookup id
  reaps := reapsOf c.reaps id
  records := c.reaper.records.lookup id
  outcomes := outcomesOf c.outcomes id
  claims := claimsOf c.claims id

/-- One key holds a value and no other key does. -/
def Only (f : Nat → Option α) (key : Nat) (a : α) : Prop := ∀ k, f k = if k = key then some a else none

def Void (f : Nat → Option α) : Prop := ∀ k, f k = none

theorem Only.at {f : Nat → Option α} {a : α} (h : Only f key a) : f key = some a := by simp [h key]

theorem Only.eq {f : Nat → Option α} {a b : α} {k : Nat} (h : Only f key a) (hk : f k = some b) : k = key ∧ b = a := by
  rw [h k] at hk
  split at hk
  · exact ⟨‹_›, (Option.some.inj hk).symm⟩
  · cases hk

section Keyed

variable {owners : Table Nat Owner} {reaps : Table Nat Reap} {r r' : Reap}

theorem ownersOf_eq_some : ownersOf owners id key = some o ↔ owners.lookup key = some o ∧ o.id = id := by
  simp [ownersOf, Option.filter_eq_some_iff]

theorem reapsOf_eq_some : reapsOf reaps id key = some r ↔ reaps.lookup key = some r ∧ r.id = id := by
  simp [reapsOf, Option.filter_eq_some_iff]

theorem ownersOf_insert (owners : Table Nat Owner) (key : Nat) (o : Owner) (id : TaskId) (k : Nat) :
    ownersOf (owners.insert key o) id k =
      if k = key then if o.id = id then some o else none else ownersOf owners id k := by
  rw [ownersOf, Table.lookup_insert_ite]
  split
  · by_cases h : o.id = id <;> simp [Option.filter, h]
  · rfl

theorem reapsOf_insert (reaps : Table Nat Reap) (key : Nat) (r : Reap) (id : TaskId) (k : Nat) :
    reapsOf (reaps.insert key r) id k = if k = key then if r.id = id then some r else none else reapsOf reaps id k := by
  rw [reapsOf, Table.lookup_insert_ite]
  split
  · by_cases h : r.id = id <;> simp [Option.filter, h]
  · rfl

theorem ownersOf_erase (owners : Table Nat Owner) (key : Nat) (id : TaskId) (k : Nat) :
    ownersOf (owners.erase key) id k = if k = key then none else ownersOf owners id k := by
  rw [ownersOf, Table.lookup_erase_ite]
  split <;> rfl

theorem reapsOf_erase (reaps : Table Nat Reap) (key : Nat) (id : TaskId) (k : Nat) :
    reapsOf (reaps.erase key) id k = if k = key then none else reapsOf reaps id k := by
  rw [reapsOf, Table.lookup_erase_ite]
  split <;> rfl

/-- Another identity does not see the owner at this key. -/
theorem ownersOf_other (h : owners.lookup key = some o) (hne : id ≠ o.id) : ownersOf owners id key = none := by
  simp [ownersOf, h, Option.filter, Ne.symm hne]

theorem reapsOf_other (h : reaps.lookup key = some r) (hne : id ≠ r.id) : reapsOf reaps id key = none := by
  simp [reapsOf, h, Option.filter, Ne.symm hne]

theorem ownersOf_insert_ne (h : ownersOf owners id key = none) (hne : id ≠ o'.id) :
    ownersOf (owners.insert key o') id = ownersOf owners id := by
  funext k
  rw [ownersOf_insert]
  split
  · next hk => rw [if_neg (Ne.symm hne), hk, h]
  · rfl

theorem reapsOf_insert_ne (h : reapsOf reaps id key = none) (hne : id ≠ r'.id) :
    reapsOf (reaps.insert key r') id = reapsOf reaps id := by
  funext k
  rw [reapsOf_insert]
  split
  · next hk => rw [if_neg (Ne.symm hne), hk, h]
  · rfl

theorem ownersOf_erase_ne (h : ownersOf owners id key = none) : ownersOf (owners.erase key) id = ownersOf owners id := by
  funext k
  rw [ownersOf_erase]
  split
  · next hk => rw [hk, h]
  · rfl

theorem reapsOf_erase_ne (h : reapsOf reaps id key = none) : reapsOf (reaps.erase key) id = reapsOf reaps id := by
  funext k
  rw [reapsOf_erase]
  split
  · next hk => rw [hk, h]
  · rfl

theorem Only.insert (h : Only (ownersOf owners id) key o) (hid : o'.id = id) :
    Only (ownersOf (owners.insert key o') id) key o' := by
  intro k
  rw [ownersOf_insert, if_pos hid, h k]
  split <;> rfl

theorem Only.of_void (h : Void (ownersOf owners id)) (hid : o'.id = id) :
    Only (ownersOf (owners.insert key o') id) key o' := by
  intro k
  rw [ownersOf_insert, if_pos hid, h k]

theorem Only.erase (h : Only (ownersOf owners id) key o) : Void (ownersOf (owners.erase key) id) := by
  intro k
  rw [ownersOf_erase, h k]
  split <;> rfl

end Keyed

theorem outcomesOf_append (outcomes : List (TaskId × Option OutcomeTx × TaskOutcome)) (i id : TaskId)
    (done : Option OutcomeTx) (outcome : TaskOutcome) :
    outcomesOf (outcomes ++ [(i, done, outcome)]) id = outcomesOf outcomes id + if i = id then 1 else 0 := by
  simp [outcomesOf, List.countP_append, List.countP_singleton]

theorem claimsOf_append (claims : List (TaskId × Claimant)) (i id : TaskId) (claimant : Claimant) :
    claimsOf (claims ++ [(i, claimant)]) id = claimsOf claims id ++ if i = id then [claimant] else [] := by
  by_cases h : i = id <;> simp [claimsOf, h]

/-- How far the physical side of a removal has come. -/
inductive Phase
  | pre
  | reserving
  | closing
  | settling
  | attached

def phaseOf : OwnerStage → Phase
  | .claimed | .joining => .pre
  | .reserved | .counted | .requested => .reserving
  | .locking _ | .removed _ _ _ | .reported _ _ => .closing
  | .settling (_ :: _) _ _ => .settling
  | .settling [] _ _ | .released _ _ => .attached

/-- The entry is still in both indexes. -/
def indexed : OwnerStage → Bool
  | .removed _ _ _ | .reported _ _ | .settling _ _ _ | .released _ _ => false
  | _ => true

/-- The pending-join registration is still held. -/
def barred : OwnerStage → Bool
  | .released _ _ => false
  | _ => true

def reportedAt : OwnerStage → Bool
  | .reported _ _ | .settling _ _ _ | .released _ _ => true
  | _ => false

def effectsAt : OwnerStage → List Effect
  | .settling effects _ _ => effects
  | _ => []

def stateAt : OwnerStage → Option (Option RemovalCompletion)
  | .removed _ state _ | .reported state _ | .settling _ state _ | .released state _ => some state
  | _ => none

/-- The effect touches no latch but this registration's. -/
def Mine (s : PreparedRegistration) (effect : Effect) : Prop := effect = .uncount ∨ effect = .physical s.completion

structure Owned (s : PreparedRegistration) (v : View) (o : Owner) : Prop where
  id : o.id = s.id
  done : o.done = s.done
  completion : o.completion = s.completion
  entry : v.entry = if indexed o.stage then some ⟨s.name, .removing s.completion⟩ else none
  count : v.count = if barred o.stage then some 1 else none
  outcomes : v.outcomes = if reportedAt o.stage then 1 else 0
  state : ∀ state, stateAt o.stage = some state → state = some s.completion
  effects : ∀ effect ∈ effectsAt o.stage, Mine s effect
  actor : v.actor.isSome

/-- Membership over the life of a registration: registered, owned by exactly
one removal, gone. `logical` says that the logical latch is complete. -/
inductive Member (s : PreparedRegistration) (v : View) (logical : Prop) : Phase → Prop
  | registered (entry : v.entry = some ⟨s.name, .registered ⟨s.done, s.completion⟩⟩) (count : v.count = none)
      (owners : Void v.owners) (outcomes : v.outcomes = 0) (claims : v.claims = []) (latch : ¬ logical) :
      Member s v logical .pre
  | owned (key : Nat) (o : Owner) (claimant : Claimant) (owners : Only v.owners key o) (claims : v.claims = [claimant])
      (latch : ¬ logical) (owned : Owned s v o) : Member s v logical (phaseOf o.stage)
  | gone (claimant : Claimant) (entry : v.entry = none) (count : v.count = none) (owners : Void v.owners)
      (outcomes : v.outcomes = 1) (claims : v.claims = [claimant]) (actor : v.actor.isSome) (latch : logical) :
      Member s v logical .attached

def Exited (v : View) : Prop := ∃ a, v.actor = some a ∧ a.phase = .exited

/-- Every reap future left has its output delivered. -/
def Delivered (s : PreparedRegistration) (v : View) : Prop :=
  ∀ k r, v.reaps k = some r → ∃ effects, r.stage = .settling effects ∧ ∀ effect ∈ effects, Mine s effect

/-- The physical side: before a force-abort nothing is reserved; from the
reservation to the rendezvous exactly one record is kept; after it, and after
an ordinary join, the actor is gone. `physical` is the latch. -/
inductive Body (s : PreparedRegistration) (v : View) (physical : Prop) : Phase → Prop
  | idle (records : v.records = none) (reaps : Void v.reaps) (latch : ¬ physical) : Body s v physical .pre
  | reserved (records : v.records = some [⟨s.name, false, false, s.completion, none, none, false⟩])
      (reaps : Void v.reaps) (latch : ¬ physical) : Body s v physical .reserving
  | joined (exited : Exited v) (records : v.records = none) (reaps : Void v.reaps) (latch : ¬ physical) :
      Body s v physical .closing
  | reaping (key : Nat) (records : v.records = some [⟨s.name, false, false, s.completion, none, none, false⟩])
      (reaps : Only v.reaps key ⟨s.id, s.completion, .waiting⟩) (latch : ¬ physical) : Body s v physical .closing
  | reaped (poisoned : Bool) (exited : Exited v)
      (records : v.records = some [⟨s.name, true, false, s.completion, none, none, poisoned⟩])
      (reaps : ∀ k r, v.reaps k = some r → r.stage = .settling []) (latch : ¬ physical) : Body s v physical .closing
  | waiting (key : Nat)
      (records : v.records =
        some [⟨s.name, false, true, s.completion, some ⟨some s.completion, s.completion⟩, none, false⟩])
      (reaps : Only v.reaps key ⟨s.id, s.completion, .waiting⟩) (latch : ¬ physical) : Body s v physical .attached
  | settling (exited : Exited v) (records : v.records = none) (reaps : Delivered s v) : Body s v physical .settling
  | released (exited : Exited v) (records : v.records = none) (reaps : Delivered s v) : Body s v physical .attached

/-- The physical side depends on the actor, its reap futures and its record. -/
theorem Body.congr {v v' : View} {physical : Prop} {phase : Phase} (h : Body s v physical phase)
    (ha : v'.actor = v.actor) (hr : v'.reaps = v.reaps) (hk : v'.records = v.records) : Body s v' physical phase := by
  cases v
  cases v'
  cases ha
  cases hr
  cases hk
  cases h with
  | idle hk hr hl => exact .idle hk hr hl
  | reserved hk hr hl => exact .reserved hk hr hl
  | joined ha hk hr hl => exact .joined ha hk hr hl
  | reaping key hk hr hl => exact .reaping key hk hr hl
  | reaped p ha hk hr hl => exact .reaped p ha hk hr hl
  | waiting key hk hr hl => exact .waiting key hk hr hl
  | settling ha hk hr => exact .settling ha hk hr
  | released ha hk hr => exact .released ha hk hr

structure Life (c : Core) (s : PreparedRegistration) : Prop where
  name : ∀ a, (view c s.id).actor = some a → a.name = s.name
  stage : ∃ phase, Member s (view c s.id) (s.completion ∈ c.logical) phase ∧
    Body s (view c s.id) (s.completion ∈ c.physical) phase

/-- Nothing is known of the identity. -/
structure Blank (v : View) : Prop where
  entry : v.entry = none
  count : v.count = none
  owners : Void v.owners
  actor : v.actor = none
  reaps : Void v.reaps
  records : v.records = none
  outcomes : v.outcomes = 0
  claims : v.claims = []

structure Sound (c : Core) : Prop where
  seed : ∀ id s, c.born.lookup id = some s → s.id = id
  life : ∀ id s, c.born.lookup id = some s → Life c s
  blank : ∀ id, c.born.lookup id = none → Blank (view c id)
  distinct : ∀ id id' s s', c.born.lookup id = some s → c.born.lookup id' = some s' → s.completion = s'.completion → id = id'
  logical : ∀ l ∈ c.logical, ∃ id s, c.born.lookup id = some s ∧ s.completion = l
  physical : ∀ l ∈ c.physical, ∃ id s, c.born.lookup id = some s ∧ s.completion = l
  ownerKeys : ∀ k o, c.owners.lookup k = some o → k < c.nextOwner
  reapKeys : ∀ k r, c.reaps.lookup k = some r → k < c.nextReap

/-- The change touches nothing but one registration. -/
structure Local (c c' : Core) (s : PreparedRegistration) : Prop where
  born : c'.born = c.born
  view : ∀ id, id ≠ s.id → view c' id = view c id
  logical : ∀ l, l ≠ s.completion → (l ∈ c'.logical ↔ l ∈ c.logical)
  physical : ∀ l, l ≠ s.completion → (l ∈ c'.physical ↔ l ∈ c.physical)
  ownerKeys : ∀ k o, c'.owners.lookup k = some o → k < c'.nextOwner
  reapKeys : ∀ k r, c'.reaps.lookup k = some r → k < c'.nextReap

theorem Sound.update (h : Sound c) (hs : c.born.lookup s.id = some s) (hl : Local c c' s) (hlife : Life c' s) : Sound c' where
  seed := by rw [hl.born]; exact h.seed
  life := by
    intro id t ht
    rw [hl.born] at ht
    by_cases hid : id = s.id
    · subst hid
      exact Option.some.inj (hs.symm.trans ht) ▸ hlife
    · have hlatch : t.completion ≠ s.completion := fun he => hid (h.distinct _ _ _ _ ht hs he)
      have ht' := h.seed _ _ ht
      have hold := h.life _ _ ht
      have hv : view c' t.id = view c t.id := hl.view _ (ht' ▸ hid)
      refine ⟨by rw [hv]; exact hold.name, ?_⟩
      rw [hv, hl.logical _ hlatch, hl.physical _ hlatch]
      exact hold.stage
  blank := by
    intro id hid
    rw [hl.born] at hid
    rw [hl.view id (fun he => by rw [he, hs] at hid; cases hid)]
    exact h.blank id hid
  distinct := by rw [hl.born]; exact h.distinct
  logical := by
    intro l hm
    rw [hl.born]
    by_cases hne : l = s.completion
    · exact ⟨s.id, s, hs, hne.symm⟩
    · exact h.logical l ((hl.logical l hne).mp hm)
  physical := by
    intro l hm
    rw [hl.born]
    by_cases hne : l = s.completion
    · exact ⟨s.id, s, hs, hne.symm⟩
    · exact h.physical l ((hl.physical l hne).mp hm)
  ownerKeys := hl.ownerKeys
  reapKeys := hl.reapKeys

theorem Local.trans {c'' : Core} (h : Local c c' s) (h' : Local c' c'' s) : Local c c'' s where
  born := h'.born.trans h.born
  view := fun id hid => (h'.view id hid).trans (h.view id hid)
  logical := fun l hl => (h'.logical l hl).trans (h.logical l hl)
  physical := fun l hl => (h'.physical l hl).trans (h.physical l hl)
  ownerKeys := h'.ownerKeys
  reapKeys := h'.reapKeys

/-- The owner at this key is the only one of its registration. -/
structure Holding (c : Core) (s : PreparedRegistration) (key : Nat) (o : Owner) : Prop where
  born : c.born.lookup s.id = some s
  name : ∀ a, c.actors.lookup s.id = some a → a.name = s.name
  owners : Only (ownersOf c.owners s.id) key o
  claims : ∃ claimant, claimsOf c.claims s.id = [claimant]
  latch : s.completion ∉ c.logical
  owned : Owned s (view c s.id) o
  body : Body s (view c s.id) (s.completion ∈ c.physical) (phaseOf o.stage)

theorem Holding.life (h : Holding c s key o) : Life c s :=
  have ⟨claimant, hc⟩ := h.claims
  ⟨h.name, phaseOf o.stage, .owned key o claimant h.owners hc h.latch h.owned, h.body⟩

theorem Sound.born_of_view (h : Sound c) (id : TaskId) (hb : ¬ Blank (view c id)) : ∃ s, c.born.lookup id = some s ∧ s.id = id := by
  cases hs : c.born.lookup id with
  | none => exact absurd (h.blank id hs) hb
  | some s => exact ⟨s, rfl, h.seed id s hs⟩

theorem Sound.holding (h : Sound c) (hk : c.owners.lookup key = some o) : ∃ s, s.id = o.id ∧ Holding c s key o := by
  have hv : (view c o.id).owners key = some o := ownersOf_eq_some.mpr ⟨hk, rfl⟩
  obtain ⟨s, hs, hid⟩ := h.born_of_view o.id fun hb => by
    have hnone := hb.owners key
    rw [hv] at hnone
    cases hnone
  obtain ⟨hname, phase, hm, hb⟩ := h.life _ _ hs
  rw [hid] at hname hm hb
  cases hm with
  | registered _ _ howners => rw [howners key] at hv; cases hv
  | gone _ _ _ howners => rw [howners key] at hv; cases hv
  | owned key' o' claimant howners hclaims hlatch howned =>
      obtain ⟨rfl, rfl⟩ := howners.eq hv
      refine ⟨s, hid, by rw [hid]; exact hs, by rw [hid]; exact hname, by rw [hid]; exact howners, ⟨claimant, ?_⟩, hlatch, ?_, ?_⟩
      · rw [hid]; exact hclaims
      · rw [hid]; exact howned
      · rw [hid]; exact hb

theorem Holding.lookup (h : Holding c s key o) : c.owners.lookup key = some o := (ownersOf_eq_some.mp h.owners.at).1

/-- The owner moves to its next stage after a change that touches nothing but
its registration. -/
theorem Sound.move {c₁ : Core} (h : Sound c) (hh : Holding c s key o) (hl : Local c c₁ s)
    (howners : c₁.owners = c.owners) (hclaims : c₁.claims = c.claims) (hid : o'.id = s.id)
    (hname : ∀ a, c₁.actors.lookup s.id = some a → a.name = s.name) (hlatch : s.completion ∉ c₁.logical)
    (howned : Owned s (view c₁ s.id) o')
    (hbody : Body s (view c₁ s.id) (s.completion ∈ c₁.physical) (phaseOf o'.stage)) : Sound (c₁.putOwner key o') := by
  have hk : c₁.owners.lookup key = some o := howners ▸ hh.lookup
  have hput : Local c₁ (c₁.putOwner key o') s := by
    refine ⟨rfl, fun id hne => ?_, fun _ _ => Iff.rfl, fun _ _ => Iff.rfl, fun k o₁ hk₁ => ?_, hl.reapKeys⟩
    · have hother : ownersOf c₁.owners id key = none := ownersOf_other hk (hh.owned.id ▸ hne)
      exact View.ext rfl rfl (ownersOf_insert_ne hother (hid ▸ hne)) rfl rfl rfl rfl rfl
    · obtain ⟨rfl, -⟩ | ⟨-, hk₁⟩ := Table.of_lookup_insert hk₁
      · exact hl.ownerKeys _ _ hk
      · exact hl.ownerKeys _ _ hk₁
  obtain ⟨claimant, hc⟩ := hh.claims
  refine h.update hh.born (hl.trans hput) ⟨hname, _, .owned key o' claimant ?_ ?_ hlatch ?_, ?_⟩
  · exact Only.insert (howners ▸ hh.owners) hid
  · change claimsOf c₁.claims s.id = _
    rw [hclaims]
    exact hc
  · exact ⟨howned.id, howned.done, howned.completion, howned.entry, howned.count, howned.outcomes, howned.state,
      howned.effects, howned.actor⟩
  · exact hbody.congr rfl rfl rfl

theorem Sound.local_refl (h : Sound c) : Local c c s :=
  ⟨rfl, fun _ _ => rfl, fun _ _ => Iff.rfl, fun _ _ => Iff.rfl, h.ownerKeys, h.reapKeys⟩

/-- A change of the owner alone. -/
theorem Sound.restage (h : Sound c) (hh : Holding c s key o) (hid : o'.id = s.id) (howned : Owned s (view c s.id) o')
    (hbody : Body s (view c s.id) (s.completion ∈ c.physical) (phaseOf o'.stage)) : Sound (c.putOwner key o') :=
  h.move hh h.local_refl rfl rfl hid hh.name hh.latch howned hbody

/-- What a stage says of membership, barrier and report. -/
def shape (stage : OwnerStage) : Bool × Bool × Bool := (indexed stage, barred stage, reportedAt stage)

theorem Owned.restage {v : View} (h : Owned s v o) (v' : View) (kind : OwnerKind) (stage : OwnerStage)
    (he : v'.entry = v.entry) (hc : v'.count = v.count) (hr : v'.outcomes = v.outcomes) (ha : v'.actor.isSome)
    (hshape : shape stage = shape o.stage) (hstate : ∀ state, stateAt stage = some state → state = some s.completion)
    (heffects : ∀ effect ∈ effectsAt stage, Mine s effect) : Owned s v' { o with kind, stage } := by
  obtain ⟨hi, hb, hp⟩ : indexed stage = indexed o.stage ∧ barred stage = barred o.stage ∧
      reportedAt stage = reportedAt o.stage := by simpa [shape] using hshape
  refine ⟨h.id, h.done, h.completion, ?_, ?_, ?_, hstate, heffects, ha⟩
  · rw [he, h.entry, hi]
  · rw [hc, h.count, hb]
  · rw [hr, h.outcomes, hp]

theorem exited_of_joined {outcome : TaskOutcome} (h : c.joined id = some outcome) : Exited (view c id) := by
  unfold Core.joined at h
  split at h
  · next a ha =>
    split at h
    · exact ⟨a, ha, ‹_›⟩
    · cases h
  · cases h

/-- What the terminal bundle does to the record of its registration. -/
theorem attach_body (hh : Holding c s key o) (hphase : phaseOf o.stage = .closing) :
    (∀ effect ∈ (c.reaper.attachTerminal s.id (some s.completion) s.completion).1, Mine s effect) ∧
    (∀ id, id ≠ s.id → (c.reaper.attachTerminal s.id (some s.completion) s.completion).2.records.lookup id =
      c.reaper.records.lookup id) ∧
    ∀ v : View, v.actor = (view c s.id).actor → v.reaps = (view c s.id).reaps →
      v.records = (c.reaper.attachTerminal s.id (some s.completion) s.completion).2.records.lookup s.id →
      ∀ state isEmpty, Body s v (s.completion ∈ c.physical)
        (phaseOf (.settling (c.reaper.attachTerminal s.id (some s.completion) s.completion).1 state isEmpty)) := by
  have hbody := hh.body
  rw [hphase] at hbody
  cases hbody with
  | joined hexit hrec hreap hlatch =>
      have hrec : c.reaper.records.lookup s.id = none := hrec
      rw [ReaperState.attachTerminal_absent hrec]
      refine ⟨?_, fun _ _ => rfl, ?_⟩
      · intro effect he
        simp only [TerminalReleases.latches, Option.toList_some, List.cons_append, List.nil_append, List.map_cons,
          List.map_nil, List.mem_cons, List.not_mem_nil, or_false, or_self] at he
        exact .inr he
      · intro v ha hr hv state isEmpty
        refine .settling ?_ (hv.trans hrec) ?_
        · obtain ⟨a, hs, he⟩ := hexit
          exact ⟨a, ha.trans hs, he⟩
        · intro k r hk
          rw [hr, hreap k] at hk
          cases hk
  | reaping k hrec hreap hlatch =>
      have hrec : c.reaper.records.lookup s.id = _ := hrec
      rw [ReaperState.attachTerminal_first hrec]
      refine ⟨(fun _ he => by cases he), fun id hne => AList.lookup_insert_ne hne, ?_⟩
      intro v ha hr hv state isEmpty
      exact .waiting k (hv.trans (ReaperState.putRecord_single hrec _)) (hr ▸ hreap) hlatch
  | reaped p hexit hrec hreap hlatch =>
      have hrec : c.reaper.records.lookup s.id = _ := hrec
      rw [ReaperState.attachTerminal_second hrec]
      refine ⟨?_, fun id hne => ?_, ?_⟩
      · intro effect he
        simp only [List.mem_cons, List.not_mem_nil, or_false, or_self] at he
        exact he
      · change ((c.reaper.records.insert s.id _).erase s.id).lookup id = _
        rw [AList.lookup_erase_ne hne, AList.lookup_insert_ne hne]
      · intro v ha hr hv state isEmpty
        refine .settling ?_ (hv.trans (AList.lookup_erase _ _)) ?_
        · obtain ⟨a, hs, he⟩ := hexit
          exact ⟨a, ha.trans hs, he⟩
        · intro k r hk
          exact ⟨[], hreap k r (hr ▸ hk), fun _ he => by cases he⟩

theorem applyEffect_view (effect : Effect) (id : TaskId) : view (c.applyEffect effect) id = view c id := by
  cases effect <;> rfl

theorem applyEffect_local (h : Sound c) {effect : Effect} (he : Mine s effect) : Local c (c.applyEffect effect) s := by
  rcases he with rfl | rfl
  · exact ⟨rfl, fun _ _ => rfl, fun _ _ => Iff.rfl, fun _ _ => Iff.rfl, h.ownerKeys, h.reapKeys⟩
  · refine ⟨rfl, fun _ _ => rfl, fun _ _ => Iff.rfl, fun l hne => ?_, h.ownerKeys, h.reapKeys⟩
    simp [Core.applyEffect, hne]

section Owners

variable (h : Sound c) (hk : c.owners.lookup key = some o)

include h hk

theorem Sound.joining (hstage : o.stage = .joining) {outcome : TaskOutcome} (hj : c.joined o.id = some outcome) :
    Sound (c.putOwner key { o with stage := .locking outcome }) := by
  obtain ⟨s, hid, hh⟩ := h.holding hk
  have hbody := hh.body
  rw [hstage] at hbody
  have howned := hh.owned.restage (view c s.id) o.kind (.locking outcome) rfl rfl rfl hh.owned.actor (by rw [hstage]; rfl)
    (fun _ he => nomatch he) (fun _ he => nomatch he)
  refine h.restage hh hid.symm howned ?_
  cases hbody with
  | idle hrec hreap hlatch => exact .joined (hid ▸ exited_of_joined hj) hrec hreap hlatch

theorem Sound.abort (hstage : o.stage = .joining) : Sound (c.abort key o) := by
  obtain ⟨s, hid, hh⟩ := h.holding hk
  have hbody := hh.body
  rw [hstage] at hbody
  obtain ⟨a, ha⟩ := Option.isSome_iff_exists.mp hh.owned.actor
  have hname : a.name = s.name := hh.name a ha
  unfold Core.abort
  rw [show c.actors.lookup o.id = some a from hid ▸ ha]
  have hl : Local c { c with reaper := c.reaper.register o.id a.name o.completion } s := by
    refine ⟨rfl, fun id hne => ?_, fun _ _ => Iff.rfl, fun _ _ => Iff.rfl, h.ownerKeys, h.reapKeys⟩
    exact View.ext rfl rfl rfl rfl rfl (AList.lookup_insert_ne (hid ▸ hne)) rfl rfl
  have howned := hh.owned.restage (view { c with reaper := c.reaper.register o.id a.name o.completion } s.id) o.kind
    .reserved rfl rfl rfl hh.owned.actor (by rw [hstage]; rfl) (fun _ he => nomatch he) (fun _ he => nomatch he)
  refine h.move hh hl rfl rfl hid.symm hh.name hh.latch howned ?_
  cases hbody with
  | idle hrec hreap hlatch =>
      refine .reserved ?_ hreap hlatch
      change (c.reaper.records.insert o.id _).lookup s.id = _
      have hrec : c.reaper.records.lookup s.id = none := hrec
      rw [hid, AList.lookup_insert, ← hid, hrec, hname, hh.owned.completion]
      rfl

theorem Sound.reserved (hstage : o.stage = .reserved) :
    Sound ({ c with active := c.active + 1 }.putOwner key { o with stage := .counted }) := by
  obtain ⟨s, hid, hh⟩ := h.holding hk
  have hbody := hh.body
  rw [hstage] at hbody
  have howned := hh.owned.restage (view c s.id) o.kind .counted rfl rfl rfl hh.owned.actor (by rw [hstage]; rfl)
    (fun _ he => nomatch he) (fun _ he => nomatch he)
  have hl : Local c { c with active := c.active + 1 } s :=
    ⟨rfl, fun _ _ => rfl, fun _ _ => Iff.rfl, fun _ _ => Iff.rfl, h.ownerKeys, h.reapKeys⟩
  exact h.move hh hl rfl rfl hid.symm hh.name hh.latch howned hbody

theorem Sound.counted (hstage : o.stage = .counted) :
    Sound ((c.requestAbort o.id).putOwner key { o with stage := .requested }) := by
  obtain ⟨s, hid, hh⟩ := h.holding hk
  have hbody := hh.body
  rw [hstage] at hbody
  obtain ⟨a, ha⟩ := Option.isSome_iff_exists.mp hh.owned.actor
  have ha : c.actors.lookup o.id = some a := hid ▸ ha
  have hset : c.requestAbort o.id = c.putActor s.id { a with abortRequested := true } := by
    unfold Core.requestAbort
    rw [ha, hid]
  have hnew : (c.putActor s.id { a with abortRequested := true }).actors.lookup s.id =
      some { a with abortRequested := true } := AList.lookup_insert _
  have hl : Local c (c.putActor s.id { a with abortRequested := true }) s := by
    refine ⟨rfl, fun id hne => ?_, fun _ _ => Iff.rfl, fun _ _ => Iff.rfl, h.ownerKeys, h.reapKeys⟩
    exact View.ext rfl rfl rfl (AList.lookup_insert_ne hne) rfl rfl rfl rfl
  have howned := hh.owned.restage (view (c.putActor s.id { a with abortRequested := true }) s.id) o.kind .requested
    rfl rfl rfl (Option.isSome_iff_exists.mpr ⟨_, hnew⟩) (by rw [hstage]; rfl) (fun _ he => nomatch he)
    (fun _ he => nomatch he)
  rw [hset]
  refine h.move hh hl rfl rfl hid.symm ?_ hh.latch howned ?_
  · intro b hb
    rw [hnew] at hb
    exact Option.some.inj hb ▸ hh.name a (hid ▸ ha)
  · cases hbody with
    | reserved hrec hreap hlatch => exact .reserved hrec hreap hlatch

theorem Sound.requested (hstage : o.stage = .requested) :
    Sound ({ c with
      reaps := c.reaps.insert c.nextReap ⟨o.id, o.completion, .waiting⟩
      nextReap := c.nextReap + 1 }.putOwner key { o with stage := .locking .forceAborted }) := by
  obtain ⟨s, hid, hh⟩ := h.holding hk
  have hbody := hh.body
  rw [hstage] at hbody
  have hfresh : ∀ id, reapsOf c.reaps id c.nextReap = none := by
    intro id
    cases hr : reapsOf c.reaps id c.nextReap with
    | none => rfl
    | some r => exact absurd (h.reapKeys _ _ (reapsOf_eq_some.mp hr).1) (Nat.lt_irrefl _)
  let c₁ : Core :=
    { c with reaps := c.reaps.insert c.nextReap ⟨o.id, o.completion, .waiting⟩, nextReap := c.nextReap + 1 }
  have hl : Local c c₁ s := by
    refine ⟨rfl, fun id hne => ?_, fun _ _ => Iff.rfl, fun _ _ => Iff.rfl, h.ownerKeys, fun k r hr => ?_⟩
    · exact View.ext rfl rfl rfl rfl (reapsOf_insert_ne (hfresh id) (hid ▸ hne)) rfl rfl rfl
    · exact Table.lt_succ_of_lookup_insert h.reapKeys hr
  have howned := hh.owned.restage (view c₁ s.id) o.kind (.locking .forceAborted) rfl rfl rfl hh.owned.actor
    (by rw [hstage]; rfl) (fun _ he => nomatch he) (fun _ he => nomatch he)
  refine h.move hh hl rfl rfl hid.symm hh.name hh.latch howned ?_
  cases hbody with
  | reserved hrec hreap hlatch =>
      refine .reaping c.nextReap hrec ?_ hlatch
      intro k
      change reapsOf (c.reaps.insert c.nextReap _) s.id k = _
      rw [reapsOf_insert, if_pos hid.symm, show reapsOf c.reaps s.id k = none from hreap k, hid, hh.owned.completion]

theorem commit_eq {outcome : TaskOutcome} (hstage : o.stage = .locking outcome) :
    ∃ s isEmpty, s.id = o.id ∧ Holding c s key o ∧
      c.commit key o outcome =
        { c with
          tasks := c.tasks.erase s.id
          byName := if c.byName.lookup s.name = some s.id then c.byName.erase s.name else c.byName }.putOwner key
            { o with stage := .removed outcome (some s.completion) isEmpty } := by
  obtain ⟨s, hid, hh⟩ := h.holding hk
  have hentry : c.tasks.lookup o.id = some ⟨s.name, .removing s.completion⟩ := by
    rw [← hid, show c.tasks.lookup s.id = _ from hh.owned.entry, hstage]
    rfl
  refine ⟨s, (c.tasks.erase s.id).keys.isEmpty, hid, hh, ?_⟩
  rw [Core.commit.eq_def, hentry, hid]
  rfl

theorem Sound.locking {outcome : TaskOutcome} (hstage : o.stage = .locking outcome) : Sound (c.commit key o outcome) := by
  obtain ⟨s, isEmpty, hid, hh, heq⟩ := commit_eq h hk hstage
  have hbody := hh.body
  rw [hstage] at hbody
  rw [heq]
  let c₁ : Core :=
    { c with
      tasks := c.tasks.erase s.id
      byName := if c.byName.lookup s.name = some s.id then c.byName.erase s.name else c.byName }
  have hl : Local c c₁ s := by
    refine ⟨rfl, fun id hne => ?_, fun _ _ => Iff.rfl, fun _ _ => Iff.rfl, h.ownerKeys, h.reapKeys⟩
    exact View.ext (AList.lookup_erase_ne hne) rfl rfl rfl rfl rfl rfl rfl
  have howned : Owned s (view c₁ s.id) { o with stage := .removed outcome (some s.completion) isEmpty } := by
    refine ⟨hid.symm, hh.owned.done, hh.owned.completion, AList.lookup_erase _ _, ?_, ?_, ?_, ?_, hh.owned.actor⟩
    · change c.pending.counts.lookup s.id = some 1
      rw [show c.pending.counts.lookup s.id = _ from hh.owned.count, hstage]
      rfl
    · change outcomesOf c.outcomes s.id = 0
      rw [show outcomesOf c.outcomes s.id = _ from hh.owned.outcomes, hstage]
      rfl
    · intro state he
      exact (Option.some.inj he).symm
    · exact fun _ he => nomatch he
  exact h.move hh hl rfl rfl hid.symm hh.name hh.latch howned (hbody.congr rfl rfl rfl)

theorem Sound.removed {outcome : TaskOutcome} {state : Option RemovalCompletion} {isEmpty : Bool}
    (hstage : o.stage = .removed outcome state isEmpty) :
    Sound ({ c with outcomes := c.outcomes ++ [(o.id, o.done, outcome)] }.putOwner key
      { o with stage := .reported state isEmpty }) := by
  obtain ⟨s, hid, hh⟩ := h.holding hk
  have hbody := hh.body
  rw [hstage] at hbody
  let c₁ : Core := { c with outcomes := c.outcomes ++ [(o.id, o.done, outcome)] }
  have hl : Local c c₁ s := by
    refine ⟨rfl, fun id hne => ?_, fun _ _ => Iff.rfl, fun _ _ => Iff.rfl, h.ownerKeys, h.reapKeys⟩
    refine View.ext rfl rfl rfl rfl rfl rfl ?_ rfl
    change outcomesOf (c.outcomes ++ _) id = outcomesOf c.outcomes id
    rw [outcomesOf_append, if_neg (hid ▸ hne.symm)]
    rfl
  have howned : Owned s (view c₁ s.id) { o with stage := .reported state isEmpty } := by
    refine ⟨hid.symm, hh.owned.done, hh.owned.completion, ?_, ?_, ?_, ?_, ?_, hh.owned.actor⟩
    · change c.tasks.lookup s.id = none
      rw [show c.tasks.lookup s.id = _ from hh.owned.entry, hstage]
      rfl
    · change c.pending.counts.lookup s.id = some 1
      rw [show c.pending.counts.lookup s.id = _ from hh.owned.count, hstage]
      rfl
    · have hnone : outcomesOf c.outcomes s.id = 0 := by
        rw [show outcomesOf c.outcomes s.id = _ from hh.owned.outcomes, hstage]
        rfl
      change outcomesOf (c.outcomes ++ [(o.id, o.done, outcome)]) s.id = 1
      rw [outcomesOf_append, hnone, if_pos hid.symm]
    · intro st he
      exact hh.owned.state st (by rw [hstage]; exact he)
    · exact fun _ he => nomatch he
  exact h.move hh hl rfl rfl hid.symm hh.name hh.latch howned (hbody.congr rfl rfl rfl)

theorem Sound.reported {state : Option RemovalCompletion} {isEmpty : Bool} (hstage : o.stage = .reported state isEmpty) :
    Sound ({ c with reaper := (c.reaper.attachTerminal o.id state o.completion).2 }.putOwner key
      { o with stage := .settling (c.reaper.attachTerminal o.id state o.completion).1 state isEmpty }) := by
  obtain ⟨s, hid, hh⟩ := h.holding hk
  have hstate : state = some s.completion := hh.owned.state state (by rw [hstage]; rfl)
  obtain ⟨heffects, hrecords, hbody⟩ := attach_body hh (by rw [hstage]; rfl)
  have heq : c.reaper.attachTerminal o.id state o.completion =
      c.reaper.attachTerminal s.id (some s.completion) s.completion := by rw [hstate, hid, hh.owned.completion]
  rw [heq]
  let c₁ : Core := { c with reaper := (c.reaper.attachTerminal s.id (some s.completion) s.completion).2 }
  have hl : Local c c₁ s := by
    refine ⟨rfl, fun id hne => ?_, fun _ _ => Iff.rfl, fun _ _ => Iff.rfl, h.ownerKeys, h.reapKeys⟩
    exact View.ext rfl rfl rfl rfl rfl (hrecords id hne) rfl rfl
  have howned := hh.owned.restage (view c₁ s.id) o.kind
    (.settling (c.reaper.attachTerminal s.id (some s.completion) s.completion).1 state isEmpty)
    rfl rfl rfl hh.owned.actor (by rw [hstage]; rfl) (fun st he => Option.some.inj he ▸ hstate) heffects
  exact h.move hh hl rfl rfl hid.symm hh.name hh.latch howned (hbody (view c₁ s.id) rfl rfl rfl state isEmpty)

theorem Sound.settling {effect : Effect} {effects : List Effect} {state : Option RemovalCompletion} {isEmpty : Bool}
    (hstage : o.stage = .settling (effect :: effects) state isEmpty) :
    Sound ((c.applyEffect effect).putOwner key { o with stage := .settling effects state isEmpty }) := by
  obtain ⟨s, hid, hh⟩ := h.holding hk
  have hbody := hh.body
  rw [hstage] at hbody
  have hmine : ∀ e ∈ effect :: effects, Mine s e := fun e he => hh.owned.effects e (by rw [hstage]; exact he)
  have hl : Local c (c.applyEffect effect) s := applyEffect_local h (hmine _ List.mem_cons_self)
  have hview : view (c.applyEffect effect) s.id = view c s.id := applyEffect_view effect s.id
  have howned := hh.owned.restage (view c s.id) o.kind (.settling effects state isEmpty) rfl rfl rfl hh.owned.actor
    (by rw [hstage]; rfl) (fun st he => hh.owned.state st (by rw [hstage]; exact he))
    (fun e he => hmine e (List.mem_cons_of_mem _ he))
  refine h.move hh hl ?_ ?_ hid.symm ?_ ?_ (hview ▸ howned) ?_
  · cases effect <;> rfl
  · cases effect <;> rfl
  · cases effect <;> exact hh.name
  · cases effect <;> exact hh.latch
  · rw [hview]
    cases hbody with
    | settling hexit hrec hreap =>
        cases effects with
        | nil => exact .released hexit hrec hreap
        | cons _ _ => exact .settling hexit hrec hreap

theorem Sound.settled {state : Option RemovalCompletion} {isEmpty : Bool} (hstage : o.stage = .settling [] state isEmpty) :
    Sound ({ c with pending := c.pending.dec o.id }.putOwner key { o with stage := .released state isEmpty }) := by
  obtain ⟨s, hid, hh⟩ := h.holding hk
  have hbody := hh.body
  rw [hstage] at hbody
  have hcount : c.pending.counts.lookup o.id = some 1 := by
    rw [← hid, show c.pending.counts.lookup s.id = _ from hh.owned.count, hstage]
    rfl
  have hdec : (c.pending.dec o.id).counts = c.pending.counts.erase s.id := by
    rw [PendingJoins.dec, hcount, hid]
    rfl
  let c₁ : Core := { c with pending := c.pending.dec o.id }
  have hl : Local c c₁ s := by
    refine ⟨rfl, fun id hne => ?_, fun _ _ => Iff.rfl, fun _ _ => Iff.rfl, h.ownerKeys, h.reapKeys⟩
    refine View.ext rfl ?_ rfl rfl rfl rfl rfl rfl
    change (c.pending.dec o.id).counts.lookup id = _
    rw [hdec, AList.lookup_erase_ne hne]
    rfl
  have howned : Owned s (view c₁ s.id) { o with stage := .released state isEmpty } := by
    refine ⟨hid.symm, hh.owned.done, hh.owned.completion, ?_, ?_, ?_, ?_, (fun _ he => nomatch he), hh.owned.actor⟩
    · change c.tasks.lookup s.id = none
      rw [show c.tasks.lookup s.id = _ from hh.owned.entry, hstage]
      rfl
    · change (c.pending.dec o.id).counts.lookup s.id = none
      rw [hdec, AList.lookup_erase]
    · change outcomesOf c.outcomes s.id = 1
      rw [show outcomesOf c.outcomes s.id = _ from hh.owned.outcomes, hstage]
      rfl
    · exact fun st he => hh.owned.state st (by rw [hstage]; exact he)
  exact h.move hh hl rfl rfl hid.symm hh.name hh.latch howned (hbody.congr rfl rfl rfl)

theorem Sound.finish {state : Option RemovalCompletion} {isEmpty : Bool} (hstage : o.stage = .released state isEmpty)
    (notices : Nat) :
    Sound { c with
      logical := c.logical ++ state.toList ++ [o.completion]
      emptyNotices := notices
      owners := c.owners.erase key } := by
  obtain ⟨s, hid, hh⟩ := h.holding hk
  have hbody := hh.body
  rw [hstage] at hbody
  have hstate : state = some s.completion := hh.owned.state state (by rw [hstage]; rfl)
  obtain ⟨claimant, hclaims⟩ := hh.claims
  have hmem : ∀ l, l ∈ c.logical ++ state.toList ++ [o.completion] ↔ l ∈ c.logical ∨ l = s.completion := by
    intro l
    simp [hstate, hh.owned.completion]
  refine h.update hh.born ⟨rfl, fun id hne => ?_, fun l hne => ?_, fun _ _ => Iff.rfl, fun k o₁ hk₁ => ?_, h.reapKeys⟩
    ⟨hh.name, .attached, .gone claimant ?_ ?_ hh.owners.erase ?_ hclaims hh.owned.actor ?_, hbody.congr rfl rfl rfl⟩
  · exact View.ext rfl rfl (ownersOf_erase_ne (ownersOf_other hh.lookup (hid ▸ hne))) rfl rfl rfl rfl rfl
  · rw [hmem]
    exact or_iff_left hne
  · exact h.ownerKeys _ _ (Table.of_lookup_erase hk₁).2
  · change c.tasks.lookup s.id = none
    rw [show c.tasks.lookup s.id = _ from hh.owned.entry, hstage]
    rfl
  · change c.pending.counts.lookup s.id = none
    rw [show c.pending.counts.lookup s.id = _ from hh.owned.count, hstage]
    rfl
  · change outcomesOf c.outcomes s.id = 1
    rw [show outcomesOf c.outcomes s.id = _ from hh.owned.outcomes, hstage]
    rfl
  · exact (hmem _).mpr (.inr rfl)

theorem Sound.rekind {kind : OwnerKind} : Sound (c.putOwner key { o with kind }) := by
  obtain ⟨s, hid, hh⟩ := h.holding hk
  exact h.restage hh hid.symm
    (hh.owned.restage (view c s.id) kind o.stage rfl rfl rfl hh.owned.actor rfl hh.owned.state hh.owned.effects) hh.body

end Owners

theorem Sound.advance (h : Sound c) (hk : c.owners.lookup key = some o) (hs : c.advance key o = some c') : Sound c' := by
  unfold Core.advance at hs
  split at hs
  · cases hs
  · next hstage =>
    obtain ⟨outcome, hj, rfl⟩ := Option.map_eq_some_iff.mp hs
    exact h.joining hk hstage hj
  · next hstage => cases hs; exact h.reserved hk hstage
  · next hstage => cases hs; exact h.counted hk hstage
  · next hstage => cases hs; exact h.requested hk hstage
  · next hstage => cases hs; exact h.locking hk hstage
  · next hstage => cases hs; exact h.removed hk hstage
  · next hstage => cases hs; exact h.reported hk hstage
  · next hstage => cases hs; exact h.settling hk hstage
  · next hstage => cases hs; exact h.settled hk hstage
  · next hstage => cases hs; exact h.finish hk hstage _

theorem Sound.stepOwner (h : Sound c) {action : Core.OwnerAction} (hs : c.stepOwner key action = some c') : Sound c' := by
  unfold Core.stepOwner at hs
  split at hs
  · cases hs
  · next o hk =>
    cases action with
    | advance => exact h.advance hk hs
    | abort =>
        simp only at hs
        split at hs
        · next hstage => cases hs; exact h.abort hk hstage.1
        · cases hs
    | drop =>
        simp only [Core.dropCommit] at hs
        split at hs
        · split at hs
          · cases hs
          · cases hs; exact h.rekind hk
        · cases hs

theorem Member.congr {v v' : View} {l : Prop} {phase : Phase} (h : Member s v l phase) (he : v'.entry = v.entry)
    (hc : v'.count = v.count) (ho : v'.owners = v.owners) (hr : v'.outcomes = v.outcomes) (hcl : v'.claims = v.claims)
    (ha : v.actor.isSome → v'.actor.isSome) : Member s v' l phase := by
  cases h with
  | registered entry count owners outcomes claims latch =>
      exact .registered (he.trans entry) (hc.trans count) (ho ▸ owners) (hr.trans outcomes) (hcl.trans claims) latch
  | owned key o claimant owners claims latch owned =>
      exact .owned key o claimant (ho ▸ owners) (hcl.trans claims) latch
        ⟨owned.id, owned.done, owned.completion, he.trans owned.entry, hc.trans owned.count, hr.trans owned.outcomes,
          owned.state, owned.effects, ha owned.actor⟩
  | gone claimant entry count owners outcomes claims actor latch =>
      exact .gone claimant (he.trans entry) (hc.trans count) (ho ▸ owners) (hr.trans outcomes) (hcl.trans claims)
        (ha actor) latch

/-- A change of the physical side alone. -/
theorem Sound.rebody {phase : Phase} (h : Sound c) (hs : c.born.lookup s.id = some s) (hl : Local c c' s)
    (he : c'.tasks = c.tasks) (hc : c'.pending = c.pending) (ho : c'.owners = c.owners) (hr : c'.outcomes = c.outcomes)
    (hcl : c'.claims = c.claims) (hlog : c'.logical = c.logical)
    (hname : ∀ a, c'.actors.lookup s.id = some a → a.name = s.name)
    (ha : (c.actors.lookup s.id).isSome → (c'.actors.lookup s.id).isSome)
    (hm : Member s (view c s.id) (s.completion ∈ c.logical) phase)
    (hb : Body s (view c' s.id) (s.completion ∈ c'.physical) phase) : Sound c' := by
  refine h.update hs hl ⟨hname, phase, ?_, hb⟩
  rw [hlog]
  refine hm.congr ?_ ?_ ?_ ?_ ?_ ha
  · exact congrArg (AList.lookup s.id) he
  · exact congrArg (fun p : PendingJoins => p.counts.lookup s.id) hc
  · exact congrArg (fun t => ownersOf t s.id) ho
  · exact congrArg (fun l => outcomesOf l s.id) hr
  · exact congrArg (fun l => claimsOf l s.id) hcl

end Taskvisor.Registry.Lifecycle
