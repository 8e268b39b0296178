import Taskvisor.Ownership.Clients
import Taskvisor.Ownership.Ledger

namespace Taskvisor.Ownership.Conservation

open Lib Capacity Clients Ledger

variable {limit : NonZeroUsize} {w w' : World} {b c : CapacityBroker} {signal : CapacitySignal} {r : CapacityRequest}
  {units permit : Nat}

def held (w : World) : Nat := w.permits.values.sum

/-- A live request is armed, and what its current turn has read is still the
status of its signal. -/
structure Settled (r : CapacityRequest) (status : UInt8) : Prop where
  active : r.active = true
  pending : Pending status
  observed : ∀ seen, r.observed = some seen → seen = status ∧ seen ≠ capacityWaiting

theorem Settled.advance {s t : CapacitySignal → UInt8} (h : Settled r (s signal)) (hadv : Advances s t signal) :
    Settled r (t signal) := by
  rcases hadv with heq | ⟨hw, ht⟩
  · exact heq ▸ h
  · exact ⟨h.active, .inr ht, fun seen hs => absurd ((h.observed seen hs).1.trans hw) (h.observed seen hs).2⟩

structure Conserved (limit : NonZeroUsize) (w : World) : Prop where
  ledger : ∃ l, Balanced limit w.broker l w.requests.keys (held w)
  requests : ∀ signal r, w.requests.lookup signal = some r → Settled r (w.broker.status signal)
  permits : ∀ permit ∈ w.permits, permit < w.nextPermit

theorem held_takePermit (h : w.permits.lookup permit = some units) :
    held w = held (w.takePermit permit b) + units := by
  have hsum := (Table.values_perm_of_lookup h).sum_nat
  rw [List.sum_cons] at hsum
  rw [held, hsum, Nat.add_comm]
  rfl

theorem held_addPermit {w : World} (h : ∀ permit ∈ w.permits, permit < w.nextPermit) :
    held (w.addPermit units) = held w + units := by
  have hnot : w.nextPermit ∉ w.permits := fun hm => Nat.lt_irrefl _ (h _ hm)
  rw [held, World.addPermit, Table.values_insert_of_notMem hnot, List.sum_cons, Nat.add_comm]
  rfl

theorem permits_addPermit (h : ∀ permit ∈ w.permits, permit < w.nextPermit) :
    ∀ permit ∈ (w.addPermit units).permits, permit < (w.addPermit units).nextPermit := by
  intro permit hm
  rcases AList.mem_insert _ |>.mp hm with rfl | hm
  · exact Nat.lt_succ_self _
  · exact Nat.lt_succ_of_lt (h _ hm)

/-- The broker changed and no request or permit did. -/
theorem Conserved.setBroker {l : LimitedCapacityState} (h : Conserved limit w)
    (hb : Balanced limit b l w.requests.keys (held w)) (hadv : ∀ signal, Advances w.broker.status b.status signal) :
    Conserved limit (w.setBroker b) where
  ledger := ⟨l, hb⟩
  requests := fun signal r hr => (h.requests signal r hr).advance (hadv signal)
  permits := h.permits

theorem Conserved.takePermit {l : LimitedCapacityState} (h : Conserved limit w)
    (hb : Balanced limit b l w.requests.keys (held (w.takePermit permit b)))
    (hadv : ∀ signal, Advances w.broker.status b.status signal) : Conserved limit (w.takePermit permit b) where
  ledger := ⟨l, hb⟩
  requests := fun signal r hr => (h.requests signal r hr).advance (hadv signal)
  permits := fun permit hm => h.permits permit (AList.mem_erase.mp hm).2

/-- A permit was issued for units the broker had just given up. -/
theorem Conserved.issue {l : LimitedCapacityState} (h : Conserved limit w)
    (hb : Balanced limit b l w.requests.keys (held w + units)) (hs : b.status = w.broker.status) :
    Conserved limit ((w.setBroker b).addPermit units) where
  ledger := ⟨l, by rw [held_addPermit (w := w.setBroker b) h.permits]; exact hb⟩
  requests := fun signal r hr => hs ▸ h.requests signal r hr
  permits := permits_addPermit h.permits

theorem Conserved.tryAcquire (h : Conserved limit w) (units : Nat) : Conserved limit (w.tryAcquire units) := by
  obtain ⟨l, hl⟩ := h.ledger
  simp only [World.tryAcquire, CapacityBroker.tryAcquire, hl.mode_eq]
  split_ifs with hbad hclosed hfull
  · exact h
  · exact h
  · exact h
  · have hu : units ≤ l.available := by omega
    obtain ⟨hbal, hst⟩ := hl.takeAvailable hu
    exact h.issue hbal hst

theorem Conserved.acquireOne (h : Conserved limit w) : Conserved limit w.acquireOne := by
  obtain ⟨l, hl⟩ := h.ledger
  simp only [World.acquireOne, CapacityBroker.startAcquireOne, hl.mode_eq]
  split_ifs with hclosed hzero hready hfull
  · exact h
  · exact h
  · obtain ⟨hbal, hst⟩ := hl.takeAvailable (show 1 ≤ l.available from hready.2)
    exact h.issue hbal hst
  · exact h
  · have hbal := hl.enqueue (by simpa using hclosed)
    have hfresh : w.broker.nextSignal ∉ w.requests.keys := fun hm => Nat.lt_irrefl _ (hl.fresh _ hm)
    refine ⟨⟨{ l with waiters := l.waiters ++ [w.broker.nextSignal] }, ?_⟩, ?_, h.permits⟩
    · rw [AList.keys_insert, List.erase_of_not_mem hfresh]
      exact hbal
    · intro signal r hr
      change Settled r (Function.update w.broker.status w.broker.nextSignal capacityWaiting signal)
      obtain ⟨rfl, rfl⟩ | ⟨hs, hr⟩ := Table.of_lookup_insert hr
      · rw [Function.update_self]
        exact ⟨rfl, .inl rfl, by rintro _ ⟨⟩⟩
      · rw [Function.update_of_ne hs]
        exact h.requests signal r hr

theorem Conserved.load (h : Conserved limit w) (hr : w.requests.lookup signal = some r) :
    Conserved limit (w.load signal r) := by
  obtain ⟨l, hl⟩ := h.ledger
  have hsettled := h.requests signal r hr
  rw [World.load]
  split_ifs with hw
  · exact h
  · refine ⟨⟨l, ?_⟩, ?_, h.permits⟩
    · rw [AList.keys_insert]
      exact hl.perm (List.perm_cons_erase (AList.mem_keys.mp (Table.mem_of_lookup hr)))
    · intro other q hq
      obtain ⟨rfl, rfl⟩ | ⟨-, hq⟩ := Table.of_lookup_insert hq
      · exact ⟨hsettled.active, hsettled.pending, fun seen hs => by
          rw [← Option.some.inj hs]
          exact ⟨rfl, hw⟩⟩
      · exact h.requests other q hq

/-- A request left, and every other one kept what it may have read. -/
theorem Conserved.requests_erase (h : Conserved limit w)
    (hadv : ∀ other, other ≠ signal → Advances w.broker.status b.status other) :
    ∀ other q, (w.requests.erase signal).lookup other = some q → Settled q (b.status other) := by
  intro other q hq
  obtain ⟨he, hq⟩ := Table.of_lookup_erase hq
  exact (h.requests other q hq).advance (hadv other he)

theorem Conserved.dropRequest (h : Conserved limit w) (hr : w.requests.lookup signal = some r) :
    Conserved limit (w.drop signal r) := by
  obtain ⟨l, hl⟩ := h.ledger
  have hsettled := h.requests signal r hr
  obtain ⟨l', hl', hadv⟩ := hl.cancel (AList.mem_keys.mp (Table.mem_of_lookup hr)) hsettled.pending
  rw [World.drop, if_pos hsettled.active]
  refine ⟨⟨l', ?_⟩, h.requests_erase hadv, h.permits⟩
  rw [AList.keys_erase]
  exact hl'

theorem advances_setStatus {value : UInt8} (b : CapacityBroker) (other : CapacitySignal) (hne : other ≠ signal) :
    Advances b.status (b.setStatus signal value).status other :=
  .inl (Function.update_of_ne hne _ _)

theorem Conserved.observe {seen : UInt8} (h : Conserved limit w) (hr : w.requests.lookup signal = some r)
    (hseen : r.observed = some seen) : Conserved limit (w.observe signal r seen) := by
  obtain ⟨l, hl⟩ := h.ledger
  have hmem : signal ∈ w.requests.keys := AList.mem_keys.mp (Table.mem_of_lookup hr)
  have hsettled := h.requests signal r hr
  obtain ⟨rfl, hnw⟩ := hsettled.observed seen hseen
  rcases hsettled.pending with hst | hst | hst
  · exact absurd hst hnw
  · have hbal := hl.forget_granted (show capacityTaken ≠ capacityGranted by decide) hmem hst
    let v : World := { w with broker := w.broker.setStatus signal capacityTaken, requests := w.requests.erase signal }
    have hw : w.observe signal r (w.broker.status signal) = v.addPermit 1 := by
      simp [World.observe, hst, World.drop, World.setBroker, v]
    rw [hw]
    refine ⟨⟨l, ?_⟩, h.requests_erase (advances_setStatus w.broker), permits_addPermit (w := v) h.permits⟩
    rw [held_addPermit (w := v) h.permits, World.addPermit, AList.keys_erase]
    exact hbal
  · have hnot : signal ∉ l.waiters := fun hm => by
      have := (hl.waiting signal hm).2
      simp [hst, capacityClosed, capacityWaiting] at this
    have hbal := hl.forget (w.broker.status signal) hnot (by simp [hst, capacityClosed, capacityGranted])
    have hsame : w.broker.setStatus signal (w.broker.status signal) = w.broker := by
      simp [CapacityBroker.setStatus]
    rw [hsame] at hbal
    have hw : w.observe signal r (w.broker.status signal) = { w with requests := w.requests.erase signal } := by
      simp [World.observe, hst, World.drop, capacityClosed, capacityGranted]
    rw [hw]
    refine ⟨⟨l, ?_⟩, h.requests_erase fun other _ => .refl _, h.permits⟩
    rw [AList.keys_erase]
    exact hbal

theorem Conserved.splitOne (h : Conserved limit w) (hp : w.permits.lookup permit = some units) :
    Conserved limit (w.splitOne permit units) := by
  rw [World.splitOne]
  split_ifs with hu
  · exact h
  · let v : World := { w with permits := w.permits.insert permit (units - 1) }
    have hv : ∀ other ∈ v.permits, other < v.nextPermit := by
      intro other hm
      rcases (AList.mem_insert _).mp hm with rfl | hm
      · exact h.permits _ (Table.mem_of_lookup hp)
      · exact h.permits _ hm
    have hheld : held w = held v + 1 := by
      have hrest : held w = held (w.takePermit permit w.broker) + units := held_takePermit hp
      have hsplit : held v = units - 1 + held (w.takePermit permit w.broker) := by
        rw [held, Table.values_insert, List.sum_cons]
        rfl
      omega
    obtain ⟨l, hl⟩ := h.ledger
    exact ⟨⟨l, by rw [held_addPermit hv, ← hheld]; exact hl⟩, h.requests, permits_addPermit hv⟩

theorem Conserved.step {a : Action} (h : Conserved limit w) (hs : w.step a = some w') : Conserved limit w' := by
  obtain ⟨l, hl⟩ := h.ledger
  cases a with
  | acquireOne => exact Option.some.inj hs ▸ h.acquireOne
  | tryAcquire units => exact Option.some.inj hs ▸ h.tryAcquire units
  | load signal =>
      obtain ⟨r, hr, hs⟩ := Option.bind_eq_some_iff.mp hs
      split_ifs at hs
      exact Option.some.inj hs ▸ h.load hr
  | observe signal =>
      obtain ⟨r, hr, hs⟩ := Option.bind_eq_some_iff.mp hs
      obtain ⟨seen, hseen, hs⟩ := Option.bind_eq_some_iff.mp hs
      exact Option.some.inj hs ▸ h.observe hr hseen
  | dropRequest signal =>
      obtain ⟨r, hr, hs⟩ := Option.bind_eq_some_iff.mp hs
      split_ifs at hs
      exact Option.some.inj hs ▸ h.dropRequest hr
  | splitOne permit =>
      obtain ⟨units, hu, hs⟩ := Option.bind_eq_some_iff.mp hs
      exact Option.some.inj hs ▸ h.splitOne hu
  | dropPermit permit =>
      obtain ⟨units, hu, hs⟩ := Option.bind_eq_some_iff.mp hs
      rw [held_takePermit (b := w.broker.release units) hu] at hl
      obtain ⟨l', hl', hadv⟩ := hl.release
      exact Option.some.inj hs ▸ h.takePermit hl' hadv
  | retirePermit permit =>
      obtain ⟨units, hu, hs⟩ := Option.bind_eq_some_iff.mp hs
      rw [held_takePermit (b := w.broker.retire units) hu] at hl
      obtain ⟨l', hl', hadv⟩ := hl.retire
      exact Option.some.inj hs ▸ h.takePermit hl' hadv
  | closeWithoutRelease permit =>
      obtain ⟨units, hu, hs⟩ := Option.bind_eq_some_iff.mp hs
      rw [held_takePermit (b := w.broker.close) hu] at hl
      obtain ⟨l', hl', hadv⟩ := hl.close (Nat.le_add_right _ _)
      exact Option.some.inj hs ▸ h.takePermit hl' hadv
  | close =>
      obtain ⟨l', hl', hadv⟩ := hl.close (Nat.le_refl _)
      exact Option.some.inj hs ▸ h.setBroker hl' hadv

theorem Conserved.new (limit : NonZeroUsize) : Conserved limit (World.new (some limit)) where
  ledger := ⟨⟨limit.get, limit.get, []⟩,
    { limit_eq := rfl
      mode_eq := rfl
      total_le := Nat.le_refl _
      total_eq := fun _ => rfl
      retired_eq := rfl
      exhausted := fun h => absurd h (Nat.ne_of_gt limit.pos)
      waiting := nofun
      waiters_nodup := List.nodup_nil
      live_nodup := List.nodup_nil
      fresh := nofun
      no_faults := rfl }⟩
  requests := nofun
  permits := nofun

theorem conserved_of_reachable (h : (machine (some limit)).Reachable w) : Conserved limit w :=
  h.invariant (Conserved.new limit) fun _ _ _ _ hc hs => hc.step hs

/-- The units an action takes out of an open broker's effective capacity. -/
def retiredBy (w : World) : Action → Nat
  | .retirePermit permit => if w.broker.state.closed then 0 else (w.permits.lookup permit).getD 0
  | _ => 0

theorem Conserved.retire_retired (h : Conserved limit w) (hu : w.permits.lookup permit = some units) :
    retired (w.broker.retire units) = retired w.broker + if w.broker.state.closed then 0 else units := by
  obtain ⟨l, hl⟩ := h.ledger
  have hheld := held_takePermit (b := w.broker) hu
  by_cases hz : units = 0
  · simp [CapacityBroker.retire, hz]
  by_cases hc : w.broker.state.closed = true
  · simp [CapacityBroker.retire, hz, hc]
  · rw [hheld] at hl
    rw [hl.retire_eq hz (by simpa using hc)]
    split_ifs <;> simp [retired, shrunk, Nat.add_comm]

theorem Conserved.retired_step {a : Action} (h : Conserved limit w) (hs : w.step a = some w') :
    retired w'.broker = retired w.broker + retiredBy w a := by
  cases a with
  | acquireOne =>
      have hret := w.broker.startAcquireOne_retirements
      rw [← Option.some.inj hs, World.acquireOne]
      split <;> simp_all [retired, World.setBroker, World.addPermit, retiredBy]
  | tryAcquire units =>
      have hret := w.broker.tryAcquire_retirements units
      rw [← Option.some.inj hs, World.tryAcquire]
      split <;> simp_all [retired, World.setBroker, World.addPermit, retiredBy]
  | load signal =>
      obtain ⟨r, hr, hs⟩ := Option.bind_eq_some_iff.mp hs
      split_ifs at hs
      rw [← Option.some.inj hs, World.load]
      split <;> simp [retiredBy]
  | observe signal =>
      obtain ⟨r, hr, hs⟩ := Option.bind_eq_some_iff.mp hs
      obtain ⟨seen, hseen, hs⟩ := Option.bind_eq_some_iff.mp hs
      rw [← Option.some.inj hs, World.observe]
      split_ifs <;> simp [retired, World.drop, World.setBroker, World.addPermit, retiredBy]
  | dropRequest signal =>
      obtain ⟨r, hr, hs⟩ := Option.bind_eq_some_iff.mp hs
      split_ifs at hs
      rw [← Option.some.inj hs, World.drop]
      split <;> simp [retired, retiredBy]
  | splitOne permit =>
      obtain ⟨units, hu, hs⟩ := Option.bind_eq_some_iff.mp hs
      rw [← Option.some.inj hs, World.splitOne]
      split <;> simp [retired, World.addPermit, retiredBy]
  | dropPermit permit =>
      obtain ⟨units, hu, hs⟩ := Option.bind_eq_some_iff.mp hs
      simp [← Option.some.inj hs, World.takePermit, retired, retiredBy]
  | retirePermit permit =>
      obtain ⟨units, hu, hs⟩ := Option.bind_eq_some_iff.mp hs
      simpa [← Option.some.inj hs, World.takePermit, retiredBy, hu] using h.retire_retired hu
  | closeWithoutRelease permit =>
      obtain ⟨units, hu, hs⟩ := Option.bind_eq_some_iff.mp hs
      simp [← Option.some.inj hs, World.takePermit, retired, retiredBy]
  | close => simp [← Option.some.inj hs, World.setBroker, retired, retiredBy]

/-- The ledger of a finite broker over every run of its clients. No fault is
ever recorded, so no defensive branch is taken and no subtraction underflows. -/
theorem capacity_conservation (limit : NonZeroUsize) (w : World) (hw : (machine (some limit)).Reachable w) :
    ∃ l, w.broker.state.mode = .limited l ∧
      l.available + held w + unobserved w.broker w.requests.keys ≤ l.effectiveCapacity ∧
      (w.broker.state.closed = false →
        l.available + held w + unobserved w.broker w.requests.keys = l.effectiveCapacity) ∧
      l.effectiveCapacity ≤ limit.get ∧
      (l.effectiveCapacity = 0 → w.broker.state.closed = true) ∧
      w.broker.faults = [] ∧
      ∀ a w', w.step a = some w' → ∃ l', w'.broker.state.mode = .limited l' ∧
        l.effectiveCapacity = l'.effectiveCapacity + retiredBy w a ∧ w'.broker.faults = [] := by
  have h := conserved_of_reachable hw
  obtain ⟨l, hl⟩ := h.ledger
  have hret := hl.retired_eq
  refine ⟨l, hl.mode_eq, hl.total_le, hl.total_eq, by omega, hl.exhausted, hl.no_faults, ?_⟩
  intro a w' hs
  obtain ⟨l', hl'⟩ := (h.step hs).ledger
  have hret' := hl'.retired_eq
  have hby := h.retired_step hs
  exact ⟨l', hl'.mode_eq, by omega, hl'.no_faults⟩

/-- Two units: one held, one granted to a waiter that has not looked yet, one
waiter still parked, after a batch permit was split and one unit returned. -/
theorem capacity_conservation_split :
    ∃ w, (machine (some ⟨2, by decide, by decide⟩)).after (World.new (some ⟨2, by decide, by decide⟩))
        [.tryAcquire 2, .splitOne 0, .acquireOne, .acquireOne, .dropPermit 1] = some w ∧
      unobserved w.broker w.requests.keys = 1 ∧ held w = 1 ∧
      ∃ l, w.broker.state.mode = .limited l ∧ l.available + 1 + 1 = l.effectiveCapacity := by
  refine ⟨_, rfl, rfl, rfl, ?_⟩
  obtain ⟨l, hmode, -, htotal, -⟩ := capacity_conservation ⟨2, by decide, by decide⟩ _
    (Machine.Reachable.after (w := [.tryAcquire 2, .splitOne 0, .acquireOne, .acquireOne, .dropPermit 1]) .init rfl)
  exact ⟨l, hmode, htotal rfl⟩

end Taskvisor.Ownership.Conservation
