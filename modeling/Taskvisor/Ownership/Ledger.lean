import Taskvisor.Lib.Count
import Taskvisor.Ownership.Capacity

namespace Taskvisor.Ownership.Ledger

open Lib Capacity

variable {limit : NonZeroUsize} {b : CapacityBroker} {l : LimitedCapacityState}
  {live : List CapacitySignal} {held units : Nat} {signal : CapacitySignal}

def unobserved (b : CapacityBroker) (live : List CapacitySignal) : Nat :=
  live.countP fun signal => b.status signal == capacityGranted

def retired (b : CapacityBroker) : Nat := (b.retirements.map CapacityRetirement.retiredUnits).sum

/-- What the finite broker owes to `live` requests and to permits that hold
`held` units between them. -/
structure Balanced (limit : NonZeroUsize) (b : CapacityBroker) (l : LimitedCapacityState)
    (live : List CapacitySignal) (held : Nat) : Prop where
  limit_eq : b.limit = some limit
  mode_eq : b.state.mode = .limited l
  total_le : l.available + held + unobserved b live ≤ l.effectiveCapacity
  total_eq : b.state.closed = false → l.available + held + unobserved b live = l.effectiveCapacity
  retired_eq : l.effectiveCapacity + retired b = limit.get
  exhausted : l.effectiveCapacity = 0 → b.state.closed = true
  waiting : ∀ signal ∈ l.waiters, signal ∈ live ∧ b.status signal = capacityWaiting
  waiters_nodup : l.waiters.Nodup
  live_nodup : live.Nodup
  fresh : ∀ signal ∈ live, signal < b.nextSignal
  no_faults : b.faults = []

/-- Status bytes of other requests only leave the waiting state, and leave it
for a grant or for closure. -/
def Advances (s t : CapacitySignal → UInt8) (signal : CapacitySignal) : Prop :=
  t signal = s signal ∨ s signal = capacityWaiting ∧ (t signal = capacityGranted ∨ t signal = capacityClosed)

theorem Advances.refl (s : CapacitySignal → UInt8) : Advances s s signal := .inl rfl

theorem Advances.trans {s t u : CapacitySignal → UInt8} (hst : Advances s t signal) (htu : Advances t u signal) :
    Advances s u signal := by
  rcases hst with hst | ⟨hs, ht⟩
  · simpa [Advances, hst] using htu
  · rcases htu with htu | ⟨hw, -⟩
    · exact .inr ⟨hs, htu ▸ ht⟩
    · rcases ht with ht | ht <;> simp [ht, capacityWaiting, capacityGranted, capacityClosed] at hw

theorem advances_update {s : CapacitySignal → UInt8} {target : CapacitySignal} {value : UInt8}
    (h : signal = target → Advances s (Function.update s target value) signal) :
    Advances s (Function.update s target value) signal := by
  by_cases hs : signal = target
  · exact h hs
  · exact .inl (Function.update_of_ne hs _ _)

theorem unobserved_congr {c : CapacityBroker} (h : ∀ signal ∈ live, c.status signal = b.status signal) :
    unobserved c live = unobserved b live :=
  List.countP_congr fun signal hs => by simp [h signal hs]

theorem unobserved_grant (hn : live.Nodup) (hs : signal ∈ live) (hw : b.status signal = capacityWaiting) :
    unobserved (b.setStatus signal capacityGranted) live = unobserved b live + 1 :=
  countP_flip hn hs (fun x _ hx => by simp [CapacityBroker.setStatus, hx])
    (by simp [hw, capacityWaiting, capacityGranted]) (by simp [CapacityBroker.setStatus])

theorem unobserved_leave {value : UInt8} (hv : value ≠ capacityGranted) (hn : live.Nodup) (hs : signal ∈ live)
    (hg : b.status signal = capacityGranted) :
    unobserved b live = unobserved (b.setStatus signal value) live + 1 :=
  countP_flip hn hs (fun x _ hx => by simp [CapacityBroker.setStatus, hx])
    (by simpa [CapacityBroker.setStatus] using hv) (by simp [hg])

theorem unobserved_erase (hg : b.status signal ≠ capacityGranted) :
    unobserved b (live.erase signal) = unobserved b live := by
  by_cases hs : signal ∈ live
  · have hp := (List.perm_cons_erase hs).countP_eq (fun s => b.status s == capacityGranted)
    rw [List.countP_cons_of_neg (by simpa using hg)] at hp
    exact hp.symm
  · rw [List.erase_of_not_mem hs]

/-- One spec for the dispatch loop: it moves units from `available` to grants
of the front waiters and touches nothing else. -/
theorem dispatchLimited_spec (hn : live.Nodup) (available : Nat) (waiters : List CapacitySignal)
    (hw : waiters.Nodup) (hwait : ∀ signal ∈ waiters, signal ∈ live ∧ b.status signal = capacityWaiting) :
    ∃ status available' waiters',
      b.dispatchLimited available waiters = ({ b with status }, available', waiters') ∧
      available' + unobserved { b with status } live = available + unobserved b live ∧
      waiters'.Nodup ∧ (∀ signal ∈ waiters', signal ∈ live ∧ status signal = capacityWaiting) ∧
      (∀ signal ∉ waiters, status signal = b.status signal) ∧
      ∀ signal, Advances b.status status signal := by
  induction waiters generalizing b available with
  | nil => cases available <;> exact ⟨b.status, _, [], rfl, rfl, hw, hwait, fun _ _ => rfl, fun _ => .refl _⟩
  | cons signal waiters ih =>
      cases available with
      | zero => exact ⟨b.status, 0, _, rfl, rfl, hw, hwait, fun _ _ => rfl, fun _ => .refl _⟩
      | succ available =>
          obtain ⟨hsw, hw⟩ := List.nodup_cons.mp hw
          obtain ⟨hs, hws⟩ := hwait signal List.mem_cons_self
          have hwait' : ∀ other ∈ waiters, other ∈ live ∧
              (b.setStatus signal capacityGranted).status other = capacityWaiting := by
            intro other ho
            have hne : other ≠ signal := fun h => hsw (h ▸ ho)
            obtain ⟨hl, hst⟩ := hwait other (List.mem_cons_of_mem _ ho)
            exact ⟨hl, by simpa [CapacityBroker.setStatus, hne] using hst⟩
          obtain ⟨status, available', waiters', heq, hsum, hn', hwait'', hframe, hadv⟩ :=
            ih available hw hwait'
          refine ⟨status, available', waiters', heq, ?_, hn', hwait'', ?_, ?_⟩
          · have hg := unobserved_grant hn hs hws
            have hsum : available' + unobserved { b with status } live =
                available + unobserved (b.setStatus signal capacityGranted) live := hsum
            omega
          · intro other ho
            have hne : other ≠ signal := fun h => ho (h ▸ List.mem_cons_self)
            rw [hframe other fun h => ho (List.mem_cons_of_mem _ h)]
            simp [CapacityBroker.setStatus, hne]
          · intro other
            refine Advances.trans (advances_update fun h => ?_) (hadv other)
            subst h
            exact .inr ⟨hws, .inl (by simp)⟩

theorem Balanced.dispatchLocked (h : Balanced limit b l live held) :
    ∃ l', Balanced limit b.dispatchLocked l' live held ∧ (∀ signal, Advances b.status b.dispatchLocked.status signal) ∧
      ∀ signal ∉ l.waiters, b.dispatchLocked.status signal = b.status signal := by
  by_cases hc : b.state.closed = true
  · exact ⟨l, by simpa [CapacityBroker.dispatchLocked, hc] using h,
      by simp [CapacityBroker.dispatchLocked, hc, Advances.refl], by simp [CapacityBroker.dispatchLocked, hc]⟩
  · obtain ⟨status, available, waiters, heq, hsum, hn, hwait, hframe, hadv⟩ :=
      dispatchLimited_spec h.live_nodup l.available l.waiters h.waiters_nodup h.waiting
    have hd : b.dispatchLocked = { b with status }.setMode (.limited { l with available, waiters }) := by
      simp [CapacityBroker.dispatchLocked, hc, h.mode_eq, heq]
    rw [hd]
    have hobs : unobserved ({ b with status }.setMode (.limited { l with available, waiters })) live =
      unobserved { b with status } live := rfl
    have hle := h.total_le
    have heq' := h.total_eq (by simpa using hc)
    refine ⟨{ l with available, waiters }, ?_, hadv, hframe⟩
    exact
      { limit_eq := h.limit_eq
        mode_eq := rfl
        total_le := by rw [hobs]; simp only; omega
        total_eq := fun _ => by rw [hobs]; simp only; omega
        retired_eq := h.retired_eq
        exhausted := h.exhausted
        waiting := hwait
        waiters_nodup := hn
        live_nodup := h.live_nodup
        fresh := h.fresh
        no_faults := h.no_faults }

theorem Balanced.mono {held' : Nat} (h : Balanced limit b l live held) (hc : b.state.closed = true) (hle : held' ≤ held) :
    Balanced limit b l live held' :=
  { h with
    total_le := by have := h.total_le; omega
    total_eq := fun ho => by rw [hc] at ho; cases ho }

theorem Balanced.perm {live' : List CapacitySignal} (h : Balanced limit b l live held) (hp : live.Perm live') :
    Balanced limit b l live' held :=
  { h with
    total_le := by simpa only [unobserved, hp.countP_eq] using h.total_le
    total_eq := fun ho => by simpa only [unobserved, hp.countP_eq] using h.total_eq ho
    waiting := fun signal hs => ⟨hp.mem_iff.mp (h.waiting signal hs).1, (h.waiting signal hs).2⟩
    live_nodup := hp.nodup_iff.mp h.live_nodup
    fresh := fun signal hs => h.fresh signal (hp.mem_iff.mpr hs) }

theorem Balanced.setClosed (h : Balanced limit b l live held) : Balanced limit b.setClosed l live held :=
  { h with total_eq := nofun, exhausted := fun _ => rfl }

theorem Balanced.closeWaitersLocked (h : Balanced limit b l live held) (hc : b.state.closed = true) :
    Balanced limit b.closeWaitersLocked { l with waiters := [] } live held ∧
      ∀ signal, Advances b.status b.closeWaitersLocked.status signal := by
  have hb : b.closeWaitersLocked =
      { b with status := CapacityBroker.markAll b.status capacityClosed l.waiters }.setMode
        (.limited { l with waiters := [] }) := by
    simp [CapacityBroker.closeWaitersLocked, h.mode_eq]
  have hobs : unobserved b.closeWaitersLocked live = unobserved b live := by
    rw [hb]
    refine List.countP_congr fun signal hs => ?_
    by_cases hw : signal ∈ l.waiters
    · simp [CapacityBroker.setMode, CapacityBroker.markAll, hw, (h.waiting signal hw).2, capacityClosed,
        capacityWaiting, capacityGranted]
    · simp [CapacityBroker.setMode, CapacityBroker.markAll, hw]
  refine ⟨?_, fun signal => ?_⟩
  · rw [hb] at hobs ⊢
    exact
      { limit_eq := h.limit_eq
        mode_eq := rfl
        total_le := by rw [hobs]; exact h.total_le
        total_eq := fun ho => by simp [CapacityBroker.setMode, hc] at ho
        retired_eq := h.retired_eq
        exhausted := fun _ => hc
        waiting := by simp
        waiters_nodup := List.nodup_nil
        live_nodup := h.live_nodup
        fresh := h.fresh
        no_faults := h.no_faults }
  · rw [hb]
    by_cases hw : signal ∈ l.waiters
    · exact .inr ⟨(h.waiting signal hw).2, .inr (by simp [CapacityBroker.setMode, CapacityBroker.markAll, hw])⟩
    · exact .inl (by simp [CapacityBroker.setMode, CapacityBroker.markAll, hw])

theorem Balanced.returnCapacityLocked (h : Balanced limit b l live (held + units)) :
    b.returnCapacityLocked units = (true, b.setMode (.limited { l with available := l.available + units })) ∧
      Balanced limit (b.setMode (.limited { l with available := l.available + units }))
        { l with available := l.available + units } live held := by
  have hle := h.total_le
  have hcap : l.effectiveCapacity ≤ wordMax := by
    have := h.retired_eq; have := limit.le; omega
  have hadd : checkedAdd l.available units = some (l.available + units) := checkedAdd_of_le (by omega) hcap
  refine ⟨?_, ?_⟩
  · simp only [CapacityBroker.returnCapacityLocked, h.mode_eq, hadd]
    rw [if_neg (by omega)]
  · exact
      { h with
        mode_eq := rfl
        total_le := by change l.available + units + held + unobserved b live ≤ l.effectiveCapacity; omega
        total_eq := fun ho => by
          have := h.total_eq ho
          change l.available + units + held + unobserved b live = l.effectiveCapacity; omega }

theorem Balanced.release (h : Balanced limit b l live (held + units)) :
    ∃ l', Balanced limit (b.release units) l' live held ∧ ∀ signal, Advances b.status (b.release units).status signal := by
  by_cases hu : units = 0
  · subst hu
    exact ⟨l, by simpa [CapacityBroker.release] using h, fun signal => by simp [CapacityBroker.release, Advances.refl]⟩
  · obtain ⟨hret, hbal⟩ := h.returnCapacityLocked
    obtain ⟨l', hl', hadv, -⟩ := hbal.dispatchLocked
    have hr : b.release units = (b.setMode (.limited { l with available := l.available + units })).dispatchLocked := by
      simp [CapacityBroker.release, hu, hret]
    exact hr ▸ ⟨l', hl', hadv⟩

theorem Balanced.close {held' : Nat} (h : Balanced limit b l live held) (hle : held' ≤ held) :
    ∃ l', Balanced limit b.close l' live held' ∧ ∀ signal, Advances b.status b.close.status signal := by
  by_cases hc : b.state.closed = true
  · have hb : b.close = b := by simp [CapacityBroker.close, hc]
    exact hb.symm ▸ ⟨l, h.mono hc hle, fun signal => .refl _⟩
  · have hb : b.close = b.setClosed.closeWaitersLocked := by simp [CapacityBroker.close, hc]
    obtain ⟨hbal, hadv⟩ := (h.setClosed.mono rfl hle).closeWaitersLocked rfl
    exact hb.symm ▸ ⟨_, hbal, hadv⟩

/-- The broker after `units` have left its effective capacity. -/
def shrunk (b : CapacityBroker) (l : LimitedCapacityState) (units : Nat) : CapacityBroker :=
  { b.setMode (.limited { l with effectiveCapacity := l.effectiveCapacity - units }) with retirements :=
    ⟨(b.limit.map NonZeroUsize.get).getD 0, l.effectiveCapacity - units, units⟩ :: b.retirements }

theorem Balanced.retire_eq (h : Balanced limit b l live (held + units)) (hu : units ≠ 0) (hc : b.state.closed = false) :
    b.retire units = if l.effectiveCapacity - units = 0 then (shrunk b l units).setClosed.closeWaitersLocked
      else (shrunk b l units).dispatchLocked := by
  have htotal := h.total_eq hc
  have hsub : checkedSub l.effectiveCapacity units = some (l.effectiveCapacity - units) := checkedSub_of_le (by omega)
  simp only [CapacityBroker.retire, hu, hc, h.mode_eq, hsub, if_false, Bool.false_eq_true]
  rw [if_neg (by omega)]
  rfl

theorem Balanced.retire (h : Balanced limit b l live (held + units)) :
    ∃ l', Balanced limit (b.retire units) l' live held ∧ ∀ signal, Advances b.status (b.retire units).status signal := by
  by_cases hu : units = 0
  · subst hu
    exact ⟨l, by simpa [CapacityBroker.retire] using h, fun signal => by simp [CapacityBroker.retire, Advances.refl]⟩
  by_cases hc : b.state.closed = true
  · have hb : b.retire units = b := by simp [CapacityBroker.retire, hu, hc]
    exact hb.symm ▸ ⟨l, h.mono hc (Nat.le_add_right _ _), fun signal => .refl _⟩
  · have htotal := h.total_eq (by simpa using hc)
    let m : LimitedCapacityState := { l with effectiveCapacity := l.effectiveCapacity - units }
    let c : CapacityBroker := shrunk b l units
    have hobs : unobserved c live = unobserved b live := rfl
    have hret : retired c = units + retired b := by simp [retired, c, shrunk]
    have hb : b.retire units =
        if l.effectiveCapacity - units = 0 then c.setClosed.closeWaitersLocked else c.dispatchLocked :=
      h.retire_eq hu (by simpa using hc)
    have hret_eq := h.retired_eq
    by_cases hz : l.effectiveCapacity - units = 0
    · have hbal : Balanced limit c.setClosed m live held :=
        { limit_eq := h.limit_eq
          mode_eq := rfl
          total_le := by change l.available + held + unobserved c live ≤ l.effectiveCapacity - units; omega
          total_eq := nofun
          retired_eq := by change l.effectiveCapacity - units + retired c = _; omega
          exhausted := fun _ => rfl
          waiting := h.waiting
          waiters_nodup := h.waiters_nodup
          live_nodup := h.live_nodup
          fresh := h.fresh
          no_faults := h.no_faults }
      obtain ⟨hbal, hadv⟩ := hbal.closeWaitersLocked rfl
      rw [hb, if_pos hz]
      exact ⟨_, hbal, hadv⟩
    · have hbal : Balanced limit c m live held :=
        { limit_eq := h.limit_eq
          mode_eq := rfl
          total_le := by change l.available + held + unobserved c live ≤ l.effectiveCapacity - units; omega
          total_eq := fun _ => by change l.available + held + unobserved c live = l.effectiveCapacity - units; omega
          retired_eq := by change l.effectiveCapacity - units + retired c = _; omega
          exhausted := fun he => absurd he hz
          waiting := h.waiting
          waiters_nodup := h.waiters_nodup
          live_nodup := h.live_nodup
          fresh := h.fresh
          no_faults := h.no_faults }
      obtain ⟨l', hbal, hadv, -⟩ := hbal.dispatchLocked
      rw [hb, if_neg hz]
      exact ⟨l', hbal, hadv⟩

/-- A request that holds no grant leaves the ledger with its status byte. -/
theorem Balanced.forget (h : Balanced limit b l live held) (value : UInt8) (hw : signal ∉ l.waiters)
    (hg : b.status signal ≠ capacityGranted) :
    Balanced limit (b.setStatus signal value) l (live.erase signal) held := by
  have hobs : unobserved (b.setStatus signal value) (live.erase signal) = unobserved b live := by
    rw [← unobserved_erase hg]
    refine unobserved_congr fun other ho => ?_
    have hne : other ≠ signal := (h.live_nodup.mem_erase_iff.mp ho).1
    simp [CapacityBroker.setStatus, hne]
  exact
    { limit_eq := h.limit_eq
      mode_eq := h.mode_eq
      total_le := by rw [hobs]; exact h.total_le
      total_eq := fun ho => by rw [hobs]; exact h.total_eq ho
      retired_eq := h.retired_eq
      exhausted := h.exhausted
      waiting := fun other ho => by
        have hne : other ≠ signal := fun he => hw (he ▸ ho)
        obtain ⟨hl, hst⟩ := h.waiting other ho
        exact ⟨h.live_nodup.mem_erase_iff.mpr ⟨hne, hl⟩, by simpa [CapacityBroker.setStatus, hne] using hst⟩
      waiters_nodup := h.waiters_nodup
      live_nodup := h.live_nodup.erase _
      fresh := fun other ho => h.fresh other (List.mem_of_mem_erase ho)
      no_faults := h.no_faults }

/-- A granted request leaves the ledger with its unit. -/
theorem Balanced.forget_granted (h : Balanced limit b l live held) {value : UInt8} (hv : value ≠ capacityGranted)
    (hs : signal ∈ live) (hg : b.status signal = capacityGranted) :
    Balanced limit (b.setStatus signal value) l (live.erase signal) (held + 1) := by
  have hw : signal ∉ l.waiters := fun hw => by
    have := (h.waiting signal hw).2
    simp [hg, capacityWaiting, capacityGranted] at this
  have hobs : unobserved b live = unobserved (b.setStatus signal value) (live.erase signal) + 1 := by
    rw [unobserved_erase (by simpa [CapacityBroker.setStatus] using hv)]
    exact unobserved_leave hv h.live_nodup hs hg
  have hle := h.total_le
  exact
    { limit_eq := h.limit_eq
      mode_eq := h.mode_eq
      total_le := by omega
      total_eq := fun ho => by have := h.total_eq ho; omega
      retired_eq := h.retired_eq
      exhausted := h.exhausted
      waiting := fun other ho => by
        have hne : other ≠ signal := fun he => hw (he ▸ ho)
        obtain ⟨hl, hst⟩ := h.waiting other ho
        exact ⟨h.live_nodup.mem_erase_iff.mpr ⟨hne, hl⟩, by simpa [CapacityBroker.setStatus, hne] using hst⟩
      waiters_nodup := h.waiters_nodup
      live_nodup := h.live_nodup.erase _
      fresh := fun other ho => h.fresh other (List.mem_of_mem_erase ho)
      no_faults := h.no_faults }

theorem Balanced.eraseWaiter (h : Balanced limit b l live held) (signal : CapacitySignal) :
    Balanced limit (b.setMode (.limited { l with waiters := l.waiters.erase signal }))
      { l with waiters := l.waiters.erase signal } live held :=
  { h with
    mode_eq := rfl
    waiting := fun other ho => h.waiting other (List.mem_of_mem_erase ho)
    waiters_nodup := h.waiters_nodup.erase _ }

/-- The statuses from which a live request can be cancelled. -/
def Pending (status : UInt8) : Prop :=
  status = capacityWaiting ∨ status = capacityGranted ∨ status = capacityClosed

theorem cancel_waiting (hmode : b.state.mode = .limited l) (hst : b.status signal = capacityWaiting) :
    b.cancel signal = ((b.setMode (.limited { l with waiters := l.waiters.erase signal })).setStatus signal
      capacityCanceled).dispatchLocked := by
  simp [CapacityBroker.cancel, hst, hmode, CapacityBroker.cancelAndDispatch]

theorem Balanced.cancel_granted (h : Balanced limit b l live held) (hs : signal ∈ live)
    (hst : b.status signal = capacityGranted) :
    b.cancel signal = ((b.setStatus signal capacityCanceled).setMode
      (.limited { l with available := l.available + 1 })).dispatchLocked := by
  have hret : b.returnCapacityLocked 1 = (true, b.setMode (.limited { l with available := l.available + 1 })) := by
    have hle := (h.forget_granted (show capacityCanceled ≠ capacityGranted by decide) hs hst).total_le
    have hcap : l.effectiveCapacity ≤ wordMax := by
      have := h.retired_eq; have := limit.le; omega
    simp only [CapacityBroker.returnCapacityLocked, h.mode_eq, checkedAdd_of_le (show l.available + 1 ≤ _ by omega) hcap]
    rw [if_neg (by omega)]
  simp [CapacityBroker.cancel, hst, hret, CapacityBroker.cancelAndDispatch, CapacityBroker.setMode,
    CapacityBroker.setStatus, capacityWaiting, capacityGranted]

theorem cancel_closed (hst : b.status signal = capacityClosed) :
    b.cancel signal = (b.setStatus signal capacityCanceled).dispatchLocked := by
  simp [CapacityBroker.cancel, hst, CapacityBroker.cancelAndDispatch, capacityWaiting, capacityGranted, capacityClosed]

theorem Balanced.cancel (h : Balanced limit b l live held) (hs : signal ∈ live) (hp : Pending (b.status signal)) :
    ∃ l', Balanced limit (b.cancel signal) l' (live.erase signal) held ∧
      ∀ other, other ≠ signal → Advances b.status (b.cancel signal).status other := by
  have hother {c : CapacityBroker} {value : UInt8} (hc : c.status = b.status)
      (hadv : ∀ other, Advances (c.setStatus signal value).status (b.cancel signal).status other) :
      ∀ other, other ≠ signal → Advances b.status (b.cancel signal).status other := by
    intro other hne
    have := hadv other
    simpa [Advances, CapacityBroker.setStatus, hne, hc] using this
  rcases hp with hst | hst | hst
  · have hb := cancel_waiting h.mode_eq hst
    have hbal := (h.eraseWaiter signal).forget capacityCanceled
      (fun hm => (h.waiters_nodup.mem_erase_iff.mp hm).1 rfl)
      (by simp [CapacityBroker.setMode, hst, capacityWaiting, capacityGranted])
    obtain ⟨l', hl', hadv, -⟩ := hbal.dispatchLocked
    exact ⟨l', hb ▸ hl', hother (c := b.setMode _) rfl (hb ▸ hadv)⟩
  · have hbal := h.forget_granted (show capacityCanceled ≠ capacityGranted by decide) hs hst
    obtain ⟨-, hbal'⟩ := hbal.returnCapacityLocked
    have hb := h.cancel_granted hs hst
    obtain ⟨l', hl', hadv, -⟩ := hbal'.dispatchLocked
    exact ⟨l', hb ▸ hl', hother (c := b) rfl (hb ▸ hadv)⟩
  · have hb := cancel_closed hst
    have hbal := h.forget capacityCanceled
      (fun hm => by have := (h.waiting signal hm).2; simp [hst, capacityClosed, capacityWaiting] at this)
      (by simp [hst, capacityClosed, capacityGranted])
    obtain ⟨l', hl', hadv, -⟩ := hbal.dispatchLocked
    exact ⟨l', hb ▸ hl', hother (c := b) rfl (hb ▸ hadv)⟩

theorem Balanced.takeAvailable (h : Balanced limit b l live held) (hu : units ≤ l.available) :
    Balanced limit (b.takeAvailable l units) { l with available := l.available - units } live (held + units) ∧
      (b.takeAvailable l units).status = b.status := by
  have hb : b.takeAvailable l units = b.setMode (.limited { l with available := l.available - units }) := by
    simp [CapacityBroker.takeAvailable, checkedSub_of_le hu]
  have hle := h.total_le
  rw [hb]
  refine ⟨{ h with mode_eq := rfl, total_le := ?_, total_eq := fun ho => ?_ }, rfl⟩
  · change l.available - units + (held + units) + unobserved b live ≤ l.effectiveCapacity; omega
  · have := h.total_eq ho
    change l.available - units + (held + units) + unobserved b live = l.effectiveCapacity; omega

/-- A new waiter joins the ledger with its fresh signal. -/
theorem Balanced.enqueue (h : Balanced limit b l live held) (ho : b.state.closed = false) :
    Balanced limit ((({ b with nextSignal := b.nextSignal + 1 } : CapacityBroker).setStatus b.nextSignal capacityWaiting).setMode
        (.limited { l with waiters := l.waiters ++ [b.nextSignal] }))
      { l with waiters := l.waiters ++ [b.nextSignal] } (b.nextSignal :: live) held := by
  have hfresh : b.nextSignal ∉ live := fun hm => Nat.lt_irrefl _ (h.fresh _ hm)
  have hnw : b.nextSignal ∉ l.waiters := fun hm => hfresh (h.waiting _ hm).1
  set c := (({ b with nextSignal := b.nextSignal + 1 } : CapacityBroker).setStatus b.nextSignal capacityWaiting).setMode
    (.limited { l with waiters := l.waiters ++ [b.nextSignal] }) with hc
  have hst (other : CapacitySignal) (hne : other ≠ b.nextSignal) : c.status other = b.status other := by
    simp [hc, CapacityBroker.setMode, CapacityBroker.setStatus, hne]
  have hnew : c.status b.nextSignal = capacityWaiting := by
    simp [hc, CapacityBroker.setMode, CapacityBroker.setStatus]
  have hobs : unobserved c (b.nextSignal :: live) = unobserved b live := by
    rw [unobserved, List.countP_cons_of_neg (by simp [hnew, capacityWaiting, capacityGranted])]
    exact unobserved_congr fun other hm => hst other fun he => hfresh (he ▸ hm)
  exact
    { limit_eq := h.limit_eq
      mode_eq := rfl
      total_le := by rw [hobs]; exact h.total_le
      total_eq := fun _ => by rw [hobs]; exact h.total_eq ho
      retired_eq := h.retired_eq
      exhausted := h.exhausted
      waiting := fun other hm => by
        rcases List.mem_append.mp hm with hm | hm
        · obtain ⟨hl, hw⟩ := h.waiting other hm
          exact ⟨List.mem_cons_of_mem _ hl, (hst other fun he => hnw (he ▸ hm)).trans hw⟩
        · rw [List.mem_singleton.mp hm]
          exact ⟨List.mem_cons_self, hnew⟩
      waiters_nodup := List.nodup_append.mpr ⟨h.waiters_nodup, List.nodup_singleton _, fun x hx y hy => by
        rw [List.mem_singleton.mp hy]
        exact fun he => hnw (he ▸ hx)⟩
      live_nodup := List.nodup_cons.mpr ⟨hfresh, h.live_nodup⟩
      fresh := fun other hm => by
        rcases List.mem_cons.mp hm with rfl | hm
        · exact Nat.lt_succ_self _
        · exact Nat.lt_succ_of_lt (h.fresh other hm)
      no_faults := h.no_faults }

end Taskvisor.Ownership.Ledger
