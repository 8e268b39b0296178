import Taskvisor.Ownership.Conservation
import Mathlib.Data.List.Sort

namespace Taskvisor.Ownership.Fairness

open Lib Capacity Clients Ledger Conservation

variable {limit : NonZeroUsize} {b c : CapacityBroker} {l : LimitedCapacityState} {live granted gs : List CapacitySignal}
  {held units bound : Nat} {signal : CapacitySignal} {w w' : World}

/-- The queue of a finite broker with the status bytes it hands out. -/
structure View where
  status : CapacitySignal → UInt8
  available : Nat
  waiters : List CapacitySignal
  closed : Bool
  next : CapacitySignal

namespace View

def enqueue (v : View) : View :=
  { v with
    status := Function.update v.status v.next capacityWaiting
    waiters := v.waiters ++ [v.next]
    next := v.next + 1 }

def take (v : View) (signal : CapacitySignal) : View :=
  { v with status := Function.update v.status signal capacityTaken }

def leave (v : View) (signal : CapacitySignal) (available : Nat) : View :=
  { v with
    status := Function.update v.status signal capacityCanceled
    available
    waiters := v.waiters.erase signal }

/-- The front of the queue is granted what is available. -/
def serve (v : View) : View :=
  { v with
    status := CapacityBroker.markAll v.status capacityGranted (v.waiters.take v.available)
    available := v.available - v.waiters.length
    waiters := v.waiters.drop v.available }

def shut (v : View) : View :=
  { v with status := CapacityBroker.markAll v.status capacityClosed v.waiters, waiters := [], closed := true }

end View

section Status

variable (v : View) (signal s : CapacitySignal) (available : Nat)

theorem enqueue_status : v.enqueue.status s = if s = v.next then capacityWaiting else v.status s := Function.update_apply ..

theorem take_status : (v.take signal).status s = if s = signal then capacityTaken else v.status s := Function.update_apply ..

theorem leave_status : (v.leave signal available).status s = if s = signal then capacityCanceled else v.status s :=
  Function.update_apply ..

theorem serve_status : v.serve.status s = if s ∈ v.waiters.take v.available then capacityGranted else v.status s := rfl

theorem shut_status : v.shut.status s = if s ∈ v.waiters then capacityClosed else v.status s := rfl

end Status

def view (b : CapacityBroker) (l : LimitedCapacityState) : View :=
  ⟨b.status, l.available, l.waiters, b.state.closed, b.nextSignal⟩

/-- Everything one call can do to the queue, with the requests it grants. -/
inductive Turn (bound : Nat) (v : View) : List CapacitySignal → View → Prop
  | keep : Turn bound v [] v
  | units (available : Nat) (hnone : v.waiters = []) : Turn bound v [] { v with available }
  | enqueue (hopen : v.closed = false) (hbusy : v.waiters ≠ [] ∨ v.available = 0) (hroom : v.waiters.length < bound) :
      Turn bound v [] v.enqueue
  | take (signal : CapacitySignal) (hgranted : v.status signal = capacityGranted) : Turn bound v [] (v.take signal)
  | serve (available : Nat) : Turn bound v (v.waiters.take available) { v with available }.serve
  | cancel (signal : CapacitySignal) (available : Nat) :
      Turn bound v ((v.waiters.erase signal).take available) (v.leave signal available).serve
  | shut : Turn bound v [] v.shut

/-- The queue is in arrival order behind the requests granted so far, and each
status byte says where its request is. -/
structure Ordered (bound : Nat) (v : View) (granted : List CapacitySignal) : Prop where
  bounded : v.waiters.length ≤ bound
  closed : v.closed = true → v.waiters = []
  order : (granted ++ v.waiters).Pairwise (· < ·)
  fresh : ∀ s ∈ granted ++ v.waiters, s < v.next
  waiting : ∀ s ∈ v.waiters, v.status s = capacityWaiting
  queued : ∀ s < v.next, v.status s = capacityWaiting → s ∈ v.waiters
  given : ∀ s < v.next, v.status s = capacityGranted ∨ v.status s = capacityTaken → s ∈ granted
  ended : ∀ s < v.next, v.status s = capacityClosed → v.closed = true ∧ ∀ g ∈ granted, g < s
  known : ∀ s < v.next, v.status s = capacityWaiting ∨ v.status s = capacityGranted ∨ v.status s = capacityTaken ∨
    v.status s = capacityClosed ∨ v.status s = capacityCanceled

/-- Capacity is never free while a request waits for it. -/
def Served (v : View) : Prop := v.closed = false → v.waiters ≠ [] → v.available = 0

section Queue

variable {v v' : View}

theorem markAll_nil (status : CapacitySignal → UInt8) (value : UInt8) : CapacityBroker.markAll status value [] = status := by
  funext s
  simp [CapacityBroker.markAll]

theorem Ordered.nodup (h : Ordered bound v granted) : (granted ++ v.waiters).Nodup := h.order.imp Nat.ne_of_lt

theorem Ordered.waiters_nodup (h : Ordered bound v granted) : v.waiters.Nodup := (List.nodup_append.mp h.nodup).2.1

theorem Ordered.refill (h : Ordered bound v granted) (available : Nat) : Ordered bound { v with available } granted :=
  { h with }

theorem Ordered.serve (h : Ordered bound v granted) : Ordered bound v.serve (granted ++ v.waiters.take v.available) := by
  have hstatus := serve_status v
  have hsplit : granted ++ v.waiters.take v.available ++ v.waiters.drop v.available = granted ++ v.waiters := by
    rw [List.append_assoc, List.take_append_drop]
  have hapart : ∀ s ∈ v.waiters.drop v.available, s ∉ v.waiters.take v.available := by
    have hn := h.waiters_nodup
    rw [← List.take_append_drop v.available v.waiters, List.nodup_append] at hn
    exact fun s hd ht => hn.2.2 s ht s hd rfl
  refine ⟨?_, fun hc => ?_, ?_, ?_, fun s hs => ?_, fun s hs hw => ?_, fun s hs hg => ?_, fun s hs hc => ?_, fun s hs => ?_⟩
  · exact (List.drop_sublist _ _).length_le.trans h.bounded
  · change v.waiters.drop _ = []
    rw [h.closed hc, List.drop_nil]
  · change (granted ++ v.waiters.take v.available ++ v.waiters.drop v.available).Pairwise _
    rw [hsplit]
    exact h.order
  · change ∀ s ∈ granted ++ v.waiters.take v.available ++ v.waiters.drop v.available, s < v.next
    rw [hsplit]
    exact h.fresh
  · rw [hstatus, if_neg (hapart s hs)]
    exact h.waiting s (List.mem_of_mem_drop hs)
  · rw [hstatus] at hw
    split at hw
    · cases hw
    · next hnot =>
      have hmem := h.queued s hs hw
      rw [← List.take_append_drop v.available v.waiters] at hmem
      exact (List.mem_append.mp hmem).resolve_left hnot
  · rw [hstatus] at hg
    split at hg
    · next hmem => exact List.mem_append_right _ hmem
    · exact List.mem_append_left _ (h.given s hs hg)
  · rw [hstatus] at hc
    split at hc
    · cases hc
    · obtain ⟨hclosed, hlate⟩ := h.ended s hs hc
      refine ⟨hclosed, fun g hg => hlate g ?_⟩
      rwa [h.closed hclosed, List.take_nil, List.append_nil] at hg
  · rw [hstatus]
    split
    · exact .inr (.inl rfl)
    · exact h.known s hs

theorem served_serve (v : View) : Served v.serve := by
  intro _ hne
  have hlt : v.available < v.waiters.length := by
    by_contra hle
    exact hne (List.drop_of_length_le (Nat.le_of_not_lt hle))
  exact Nat.sub_eq_zero_of_le (Nat.le_of_lt hlt)

theorem Ordered.leave (h : Ordered bound v granted) (signal : CapacitySignal) (available : Nat) :
    Ordered bound (v.leave signal available) granted := by
  have hstatus (s : CapacitySignal) := leave_status v signal s available
  have hsub : (granted ++ v.waiters.erase signal).Sublist (granted ++ v.waiters) :=
    (List.Sublist.refl granted).append List.erase_sublist
  refine ⟨List.length_erase_le.trans h.bounded, fun hc => ?_, h.order.sublist hsub, fun s hs => h.fresh s (hsub.subset hs),
    fun s hs => ?_, fun s hs hw => ?_, fun s hs hg => ?_, fun s hs hc => ?_, fun s hs => ?_⟩
  · change v.waiters.erase signal = []
    rw [h.closed hc, List.erase_nil]
  · obtain ⟨hne, hs⟩ := h.waiters_nodup.mem_erase_iff.mp hs
    rw [hstatus, if_neg hne]
    exact h.waiting s hs
  · rw [hstatus] at hw
    split at hw
    · cases hw
    · next hne => exact h.waiters_nodup.mem_erase_iff.mpr ⟨hne, h.queued s hs hw⟩
  · rw [hstatus] at hg
    split at hg
    · exact hg.elim nofun nofun
    · exact h.given s hs hg
  · rw [hstatus] at hc
    split at hc
    · cases hc
    · exact h.ended s hs hc
  · rw [hstatus]
    split
    · exact .inr (.inr (.inr (.inr rfl)))
    · exact h.known s hs

theorem Ordered.take (h : Ordered bound v granted) (hg : v.status signal = capacityGranted) :
    Ordered bound (v.take signal) granted := by
  have hstatus := take_status v signal
  refine ⟨h.bounded, h.closed, h.order, h.fresh, fun s hs => ?_, fun s hs hw => ?_, fun s hs hs' => ?_, fun s hs hc => ?_,
    fun s hs => ?_⟩
  · rw [hstatus, if_neg]
    · exact h.waiting s hs
    · rintro rfl
      cases hg.symm.trans (h.waiting s hs)
  · rw [hstatus] at hw
    split at hw
    · cases hw
    · exact h.queued s hs hw
  · rw [hstatus] at hs'
    split at hs'
    · next he => exact he ▸ h.given signal (he ▸ hs) (.inl hg)
    · exact h.given s hs hs'
  · rw [hstatus] at hc
    split at hc
    · cases hc
    · exact h.ended s hs hc
  · rw [hstatus]
    split
    · exact .inr (.inr (.inl rfl))
    · exact h.known s hs

theorem Ordered.enqueue (h : Ordered bound v granted) (hopen : v.closed = false) (hroom : v.waiters.length < bound) :
    Ordered bound v.enqueue granted := by
  have hstatus := enqueue_status v
  have hold {s : CapacitySignal} (hs : s < v.next + 1) (hne : s ≠ v.next) : s < v.next :=
    Nat.lt_of_le_of_ne (Nat.le_of_lt_succ hs) hne
  have hmem (s : CapacitySignal) : s ∈ granted ++ v.enqueue.waiters → s ∈ granted ++ v.waiters ∨ s = v.next := by
    change s ∈ granted ++ (v.waiters ++ [v.next]) → _
    rw [← List.append_assoc, List.mem_append, List.mem_singleton]
    exact id
  refine ⟨?_, fun hc => ?_, ?_, fun s hs => ?_, fun s hs => ?_, fun s hs hw => ?_, fun s hs hg => ?_, fun s hs hc => ?_,
    fun s hs => ?_⟩
  · change (v.waiters ++ [v.next]).length ≤ bound
    rw [List.length_append]
    exact hroom
  · cases hc.symm.trans hopen
  · change (granted ++ (v.waiters ++ [v.next])).Pairwise _
    rw [← List.append_assoc, List.pairwise_append]
    refine ⟨h.order, List.pairwise_singleton _ _, fun s hs t ht => ?_⟩
    rw [List.mem_singleton.mp ht]
    exact h.fresh s hs
  · rcases hmem s hs with hs | rfl
    · exact Nat.lt_succ_of_lt (h.fresh s hs)
    · exact Nat.lt_succ_self _
  · rw [hstatus]
    split
    · rfl
    · next hne =>
      exact h.waiting s ((List.mem_append.mp hs).resolve_right fun hx => hne (List.mem_singleton.mp hx))
  · rw [hstatus] at hw
    split at hw
    · next he => exact List.mem_append_right _ (List.mem_singleton.mpr he)
    · next hne => exact List.mem_append_left _ (h.queued s (hold hs hne) hw)
  · rw [hstatus] at hg
    split at hg
    · exact hg.elim nofun nofun
    · next hne => exact h.given s (hold hs hne) hg
  · rw [hstatus] at hc
    split at hc
    · cases hc
    · next hne => exact h.ended s (hold hs hne) hc
  · rw [hstatus]
    split
    · exact .inl rfl
    · next hne => exact h.known s (hold hs hne)

theorem Ordered.shut (h : Ordered bound v granted) : Ordered bound v.shut granted := by
  have hstatus := shut_status v
  have hsub : (granted ++ ([] : List CapacitySignal)).Sublist (granted ++ v.waiters) :=
    (List.Sublist.refl granted).append (List.nil_sublist _)
  refine ⟨Nat.zero_le _, fun _ => rfl, h.order.sublist hsub, fun s hs => h.fresh s (hsub.subset hs), nofun,
    fun s hs hw => ?_, fun s hs hg => ?_, fun s hs hc => ?_, fun s hs => ?_⟩
  · rw [hstatus] at hw
    split at hw
    · cases hw
    · next hnot => exact absurd (h.queued s hs hw) hnot
  · rw [hstatus] at hg
    split at hg
    · exact hg.elim nofun nofun
    · exact h.given s hs hg
  · refine ⟨rfl, ?_⟩
    rw [hstatus] at hc
    split at hc
    · next hmem => exact fun g hg => (List.pairwise_append.mp h.order).2.2 g hg s hmem
    · exact (h.ended s hs hc).2
  · rw [hstatus]
    split
    · exact .inr (.inr (.inr (.inl rfl)))
    · exact h.known s hs

/-- Arrival order is kept by every call. -/
theorem Ordered.turn (h : Ordered bound v granted) (ht : Turn bound v gs v') : Ordered bound v' (granted ++ gs) := by
  cases ht with
  | keep => rwa [List.append_nil]
  | units available hnone => rw [List.append_nil]; exact h.refill available
  | enqueue hopen hbusy hroom => rw [List.append_nil]; exact h.enqueue hopen hroom
  | take signal hgranted => rw [List.append_nil]; exact h.take hgranted
  | serve available => exact (h.refill available).serve
  | cancel signal available => exact (h.leave signal available).serve
  | shut => rw [List.append_nil]; exact h.shut

theorem Served.turn (h : Served v) (ht : Turn bound v gs v') : Served v' := by
  cases ht with
  | keep => exact h
  | units available hnone => exact fun _ hne => absurd hnone hne
  | enqueue hopen hbusy hroom => exact fun _ _ => hbusy.elim (h hopen) id
  | take signal hgranted => exact h
  | serve available => exact served_serve _
  | cancel signal available => exact served_serve _
  | shut => exact fun hc => nomatch hc

/-- The members of a sublist are found in the order of the list. -/
theorem filter_mem_sublist {α : Type} [DecidableEq α] {xs ys : List α} (hs : xs.Sublist ys) (hn : ys.Nodup) :
    ys.filter (fun a => decide (a ∈ xs)) = xs := by
  induction hs with
  | slnil => rfl
  | cons a hs ih =>
      obtain ⟨ha, hn⟩ := List.nodup_cons.mp hn
      rw [List.filter_cons_of_neg (by simpa using fun hm => ha (hs.subset hm))]
      exact ih hn
  | cons_cons a hs ih =>
      obtain ⟨ha, hn⟩ := List.nodup_cons.mp hn
      rw [List.filter_cons_of_pos (by simp)]
      refine congrArg _ (Eq.trans (List.filter_congr fun x hx => ?_) (ih hn))
      have hne : x ≠ a := fun he => ha (he ▸ hx)
      simp [hne]

/-- The grants of a call can be read off the queue and the bytes after it. -/
theorem Turn.grants (ht : Turn bound v gs v') (h : Ordered bound v granted) :
    v.waiters.filter (fun s => decide (v'.status s = capacityGranted)) = gs := by
  have hnone (heq : ∀ s ∈ v.waiters, v'.status s ≠ capacityGranted) :
      v.waiters.filter (fun s => decide (v'.status s = capacityGranted)) = [] :=
    List.filter_eq_nil_iff.mpr fun s hs => by simpa using heq s hs
  have hstay : ∀ s ∈ v.waiters, v.status s ≠ capacityGranted := fun s hs he => by
    cases (h.waiting s hs).symm.trans he
  have hsome {xs : List CapacitySignal} (hsub : xs.Sublist v.waiters)
      (heq : ∀ s ∈ v.waiters, v'.status s = capacityGranted ↔ s ∈ xs) :
      v.waiters.filter (fun s => decide (v'.status s = capacityGranted)) = xs := by
    rw [List.filter_congr fun s hs => decide_eq_decide.mpr (heq s hs), filter_mem_sublist hsub h.waiters_nodup]
  cases ht with
  | keep => exact hnone hstay
  | units available hempty => exact hnone hstay
  | enqueue hopen hbusy hroom =>
      refine hnone fun s hs he => ?_
      rw [enqueue_status] at he
      split at he
      · cases he
      · exact hstay s hs he
  | take signal hgranted =>
      refine hnone fun s hs he => ?_
      rw [take_status] at he
      split at he
      · cases he
      · exact hstay s hs he
  | serve available =>
      refine hsome (List.take_sublist _ _) fun s hs => ?_
      rw [serve_status]
      split
      · next hm => exact ⟨fun _ => hm, fun _ => rfl⟩
      · next hm => exact ⟨fun he => absurd he (hstay s hs), fun hx => absurd hx hm⟩
  | cancel signal available =>
      refine hsome ((List.take_sublist _ _).trans List.erase_sublist) fun s hs => ?_
      rw [serve_status, leave_status]
      split
      · next hm => exact ⟨fun _ => hm, fun _ => rfl⟩
      · next hm =>
        refine ⟨fun he => ?_, fun hx => absurd hx hm⟩
        split at he
        · cases he
        · exact absurd he (hstay s hs)
  | shut =>
      refine hnone fun s hs he => ?_
      have hclosed : v.shut.status s = capacityClosed := if_pos hs
      cases hclosed.symm.trans he

end Queue

section Calls

theorem dispatchLimited_eq (available : Nat) (waiters : List CapacitySignal) :
    b.dispatchLimited available waiters =
      ({ b with status := CapacityBroker.markAll b.status capacityGranted (waiters.take available) },
        available - waiters.length, waiters.drop available) := by
  induction waiters generalizing b available with
  | nil =>
      rw [List.take_nil, markAll_nil, List.drop_nil]
      cases available <;> rfl
  | cons signal waiters ih =>
      cases available with
      | zero =>
          rw [List.take_zero, markAll_nil, Nat.zero_sub]
          rfl
      | succ available =>
          have hmark : CapacityBroker.markAll (Function.update b.status signal capacityGranted) capacityGranted
              (waiters.take available) = CapacityBroker.markAll b.status capacityGranted (signal :: waiters.take available) := by
            funext s
            by_cases hs : s = signal <;> simp [CapacityBroker.markAll, hs]
          rw [CapacityBroker.dispatchLimited, ih, List.take_succ_cons, List.drop_succ_cons, List.length_cons,
            Nat.succ_sub_succ_eq_sub]
          simp only [CapacityBroker.setStatus, hmark]

theorem serve_of_empty {v : View} (h : v.waiters = []) : v.serve = v := by
  obtain ⟨status, available, waiters, closed, next⟩ := v
  cases h
  simp [View.serve, markAll_nil]

/-- A call that leaves the broker finite makes this turn. -/
def Turns (bound : Nat) (b : CapacityBroker) (l : LimitedCapacityState) (c : CapacityBroker) : Prop :=
  ∃ gs l', c.state.mode = .limited l' ∧ Turn bound (view b l) gs (view c l')

theorem Turns.keep (hmode : b.state.mode = .limited l) : Turns bound b l b := ⟨[], l, hmode, .keep⟩

theorem Turns.of_view {l' : LimitedCapacityState} {v : View} (hmode : c.state.mode = .limited l') (hview : view c l' = v)
    (ht : Turn bound (view b l) gs v) : Turns bound b l c := ⟨gs, l', hmode, hview ▸ ht⟩

theorem dispatchLocked_view (hmode : b.state.mode = .limited l) (hclosed : b.state.closed = true → l.waiters = []) :
    ∃ l', b.dispatchLocked.state.mode = .limited l' ∧ view b.dispatchLocked l' = (view b l).serve := by
  by_cases hc : b.state.closed = true
  · refine ⟨l, ?_, ?_⟩
    · rw [CapacityBroker.dispatchLocked, if_pos hc, hmode]
    · rw [CapacityBroker.dispatchLocked, if_pos hc, serve_of_empty (hclosed hc)]
  · refine ⟨{ l with available := l.available - l.waiters.length, waiters := l.waiters.drop l.available }, ?_, ?_⟩
    · simp only [CapacityBroker.dispatchLocked, if_neg hc, hmode, dispatchLimited_eq]
      rfl
    · simp only [CapacityBroker.dispatchLocked, if_neg hc, hmode, dispatchLimited_eq]
      rfl

theorem closeWaitersLocked_view (hmode : b.state.mode = .limited l) (hc : b.state.closed = true) :
    ∃ l', b.closeWaitersLocked.state.mode = .limited l' ∧ view b.closeWaitersLocked l' = (view b l).shut := by
  refine ⟨{ l with waiters := [] }, ?_, ?_⟩
  · simp only [CapacityBroker.closeWaitersLocked, hmode]
    rfl
  · simp only [CapacityBroker.closeWaitersLocked, hmode, View.shut, view, CapacityBroker.setMode, hc]

theorem tryAcquire_turn (h : Balanced limit b l live held) (units : Nat) : Turns limit.get b l (b.tryAcquire units).2 := by
  simp only [CapacityBroker.tryAcquire, h.mode_eq]
  split_ifs with hbad hclosed hfull
  · exact .keep h.mode_eq
  · exact .keep h.mode_eq
  · exact .keep h.mode_eq
  · obtain ⟨-, hempty, hroom⟩ : ¬ l.effectiveCapacity < units ∧ l.waiters = [] ∧ ¬ l.available < units := by
      simpa only [not_or, not_not] using hfull
    simp only [CapacityBroker.takeAvailable, checkedSub_of_le (Nat.le_of_not_lt hroom)]
    exact ⟨[], _, rfl, .units _ hempty⟩

theorem startAcquireOne_turn (h : Balanced limit b l live held) : Turns limit.get b l b.startAcquireOne.2 := by
  simp only [CapacityBroker.startAcquireOne, h.mode_eq, h.limit_eq]
  split_ifs with hclosed hzero hready hfull
  · exact .keep h.mode_eq
  · exact .keep h.mode_eq
  · simp only [CapacityBroker.takeAvailable, checkedSub_of_le hready.2]
    exact ⟨[], _, rfl, .units _ hready.1⟩
  · exact .keep h.mode_eq
  · have hbusy : l.waiters ≠ [] ∨ l.available = 0 := by
      by_contra hx
      rw [not_or, not_not] at hx
      exact hready ⟨hx.1, Nat.pos_of_ne_zero hx.2⟩
    refine ⟨[], { l with waiters := l.waiters ++ [b.nextSignal] }, rfl, ?_⟩
    have hroom : l.waiters.length < limit.get := by simpa using hfull
    exact .enqueue (Bool.eq_false_iff.mpr hclosed) hbusy hroom

theorem release_turn (h : Balanced limit b l live (held + units)) (hclosed : b.state.closed = true → l.waiters = []) :
    Turns limit.get b l (b.release units) := by
  by_cases hu : units = 0
  · rw [CapacityBroker.release, if_pos hu]
    exact .keep h.mode_eq
  · obtain ⟨hret, -⟩ := h.returnCapacityLocked
    obtain ⟨l', hmode, hview⟩ := dispatchLocked_view
      (b := b.setMode (.limited { l with available := l.available + units })) rfl hclosed
    simp only [CapacityBroker.release, if_neg hu, hret]
    exact .of_view hmode hview (.serve (l.available + units))

theorem close_turn (hmode : b.state.mode = .limited l) : Turns bound b l b.close := by
  by_cases hc : b.state.closed = true
  · rw [CapacityBroker.close, if_pos hc]
    exact .keep hmode
  · obtain ⟨l', hmode', hview⟩ := closeWaitersLocked_view (b := b.setClosed) hmode rfl
    rw [CapacityBroker.close, if_neg hc]
    exact .of_view hmode' hview .shut

theorem retire_turn (h : Balanced limit b l live (held + units)) (hclosed : b.state.closed = true → l.waiters = []) :
    Turns limit.get b l (b.retire units) := by
  by_cases hu : units = 0
  · rw [CapacityBroker.retire, if_pos hu]
    exact .keep h.mode_eq
  by_cases hc : b.state.closed = true
  · rw [CapacityBroker.retire, if_neg hu, if_pos hc]
    exact .keep h.mode_eq
  rw [h.retire_eq hu (by simpa using hc)]
  split_ifs
  · obtain ⟨l', hmode, hview⟩ := closeWaitersLocked_view (b := (shrunk b l units).setClosed) rfl rfl
    exact .of_view hmode hview .shut
  · obtain ⟨l', hmode, hview⟩ := dispatchLocked_view (b := shrunk b l units) rfl hclosed
    exact .of_view hmode hview (.serve l.available)

theorem cancel_turn (h : Balanced limit b l live held) (hs : signal ∈ live) (hp : Pending (b.status signal))
    (hordered : Ordered bound (view b l) granted) :
    ∃ l', (b.cancel signal).state.mode = .limited l' ∧ view (b.cancel signal) l' = ((view b l).leave signal
      (l.available + if b.status signal = capacityGranted then 1 else 0)).serve := by
  have hclosed : b.state.closed = true → l.waiters.erase signal = [] := fun hc => by
    have hempty : l.waiters = [] := hordered.closed hc
    rw [hempty, List.erase_nil]
  have herase (hst : b.status signal ≠ capacityWaiting) : l.waiters.erase signal = l.waiters :=
    List.erase_of_not_mem fun hm => hst (hordered.waiting signal hm)
  rcases hp with hst | hst | hst
  · rw [cancel_waiting h.mode_eq hst, hst, if_neg (by decide), Nat.add_zero]
    exact dispatchLocked_view (b := (b.setMode (.limited { l with waiters := l.waiters.erase signal })).setStatus signal
      capacityCanceled) rfl hclosed
  · have hsame := herase (by rw [hst]; decide)
    rw [h.cancel_granted hs hst, if_pos hst]
    rw [hsame] at hclosed
    obtain ⟨l', hmode, hview⟩ := dispatchLocked_view (b := (b.setStatus signal capacityCanceled).setMode
      (.limited { l with available := l.available + 1 })) rfl hclosed
    refine ⟨l', hmode, hview.trans (congrArg View.serve ?_)⟩
    simp only [View.leave, view, hsame]
    rfl
  · have hsame := herase (by rw [hst]; decide)
    rw [cancel_closed hst, hst, if_neg (by decide), Nat.add_zero]
    rw [hsame] at hclosed
    obtain ⟨l', hmode, hview⟩ := dispatchLocked_view (b := b.setStatus signal capacityCanceled) h.mode_eq hclosed
    refine ⟨l', hmode, hview.trans (congrArg View.serve ?_)⟩
    simp only [View.leave, view, hsame]
    rfl

/-- Every step of the clients turns the queue once. -/
theorem step_turn {a : Action} (h : Conserved limit w) (hmode : w.broker.state.mode = .limited l)
    (hordered : Ordered limit.get (view w.broker l) granted) (hs : w.step a = some w') :
    Turns limit.get w.broker l w'.broker := by
  obtain ⟨l₁, hl⟩ := h.ledger
  obtain rfl : l₁ = l := CapacityMode.limited.inj (hl.mode_eq.symm.trans hmode)
  have hcancel {signal : CapacitySignal} {r : CapacityRequest} (hr : w.requests.lookup signal = some r) :
      Turns limit.get w.broker l₁ (w.broker.cancel signal) := by
    obtain ⟨l', hmode', hview⟩ := cancel_turn hl (AList.mem_keys.mp (Table.mem_of_lookup hr)) (h.requests signal r hr).pending
      hordered
    exact .of_view hmode' hview (.cancel signal _)
  cases a with
  | acquireOne =>
      have ht := startAcquireOne_turn hl
      rw [← Option.some.inj hs, World.acquireOne]
      split <;> simp_all [World.setBroker, World.addPermit]
  | tryAcquire units =>
      have ht := tryAcquire_turn hl units
      rw [← Option.some.inj hs, World.tryAcquire]
      split <;> simp_all [World.setBroker, World.addPermit]
  | load signal =>
      obtain ⟨r, hr, hs⟩ := Option.bind_eq_some_iff.mp hs
      split_ifs at hs
      rw [← Option.some.inj hs, World.load]
      split <;> exact .keep hmode
  | observe signal =>
      obtain ⟨r, hr, hs⟩ := Option.bind_eq_some_iff.mp hs
      obtain ⟨seen, hseen, hs⟩ := Option.bind_eq_some_iff.mp hs
      obtain ⟨rfl, hne⟩ := (h.requests signal r hr).observed seen hseen
      rw [← Option.some.inj hs, World.observe]
      rcases (h.requests signal r hr).pending with hst | hst | hst
      · exact absurd hst hne
      · rw [if_pos hst]
        exact ⟨[], l₁, hmode, .take signal hst⟩
      · rw [hst, if_neg (by decide), if_pos rfl]
        exact .keep hmode
  | dropRequest signal =>
      obtain ⟨r, hr, hs⟩ := Option.bind_eq_some_iff.mp hs
      split_ifs at hs
      rw [← Option.some.inj hs, World.drop, if_pos (h.requests signal r hr).active]
      exact hcancel hr
  | splitOne permit =>
      obtain ⟨units, hu, hs⟩ := Option.bind_eq_some_iff.mp hs
      rw [← Option.some.inj hs, World.splitOne]
      split <;> exact .keep hmode
  | dropPermit permit =>
      obtain ⟨units, hu, hs⟩ := Option.bind_eq_some_iff.mp hs
      rw [held_takePermit (b := w.broker.release units) hu] at hl
      rw [← Option.some.inj hs]
      exact release_turn hl hordered.closed
  | retirePermit permit =>
      obtain ⟨units, hu, hs⟩ := Option.bind_eq_some_iff.mp hs
      rw [held_takePermit (b := w.broker.retire units) hu] at hl
      rw [← Option.some.inj hs]
      exact retire_turn hl hordered.closed
  | closeWithoutRelease permit =>
      obtain ⟨units, hu, hs⟩ := Option.bind_eq_some_iff.mp hs
      rw [← Option.some.inj hs]
      exact close_turn hmode
  | close =>
      rw [← Option.some.inj hs]
      exact close_turn hmode

end Calls

section Runs

def queueOf (b : CapacityBroker) : List CapacitySignal :=
  match b.state.mode with
  | .limited l => l.waiters
  | .unlimited => []

def freeUnits (b : CapacityBroker) : Nat :=
  match b.state.mode with
  | .limited l => l.available
  | .unlimited => 0

/-- The requests that a call adds to the queue. -/
def arrivals (b c : CapacityBroker) : List CapacitySignal := (queueOf c).filter fun s => decide (s ∉ queueOf b)

/-- The requests of the queue that a call grants. -/
def grants (b c : CapacityBroker) : List CapacitySignal :=
  (queueOf b).filter fun s => decide (c.status s = capacityGranted)

/-- The clients with a record of the requests that were queued and of those
that were granted, each in its order. -/
structure History where
  world : World
  arrived : List CapacitySignal
  granted : List CapacitySignal

def History.step (h : History) (a : Action) : Option History :=
  (h.world.step a).map fun w =>
    ⟨w, h.arrived ++ arrivals h.world.broker w.broker, h.granted ++ grants h.world.broker w.broker⟩

def history (limit : Option NonZeroUsize) : Machine History Action := ⟨⟨World.new limit, [], []⟩, History.step⟩

structure Fair (limit : NonZeroUsize) (h : History) : Prop where
  conserved : Conserved limit h.world
  queue : ∃ l, h.world.broker.state.mode = .limited l ∧ Ordered limit.get (view h.world.broker l) h.granted ∧
    Served (view h.world.broker l)
  arrived : h.arrived = List.range h.world.broker.nextSignal

theorem queueOf_limited (hmode : b.state.mode = .limited l) : queueOf b = l.waiters := by rw [queueOf, hmode]

theorem freeUnits_limited (hmode : b.state.mode = .limited l) : freeUnits b = l.available := by rw [freeUnits, hmode]

theorem fair_new (limit : NonZeroUsize) : Fair limit ⟨World.new (some limit), [], []⟩ where
  conserved := Conserved.new limit
  queue := by
    refine ⟨⟨limit.get, limit.get, []⟩, rfl, ⟨Nat.zero_le _, fun _ => rfl, List.Pairwise.nil, ?_, ?_, ?_, ?_, ?_, ?_⟩,
      fun _ hne => absurd rfl hne⟩
    · exact fun s hs => (nomatch hs)
    · exact fun s hs => (nomatch hs)
    all_goals exact fun s hs => absurd hs (Nat.not_lt_zero s)
  arrived := rfl

/-- A turn adds the next signal to the queue or none. -/
theorem Turn.arrivals {v v' : View} (ht : Turn bound v gs v') (h : Ordered bound v granted) :
    List.range v.next ++ v'.waiters.filter (fun s => decide (s ∉ v.waiters)) = List.range v'.next := by
  have hsub (hs : v'.waiters ⊆ v.waiters) (hn : v'.next = v.next) :
      List.range v.next ++ v'.waiters.filter (fun s => decide (s ∉ v.waiters)) = List.range v'.next := by
    rw [List.filter_eq_nil_iff.mpr fun s hm => by simpa using hs hm, List.append_nil, hn]
  cases ht with
  | enqueue hopen hbusy hroom =>
      have hfresh : v.next ∉ v.waiters := fun hm => Nat.lt_irrefl _ (h.fresh v.next (List.mem_append_right _ hm))
      have hnew : (v.waiters ++ [v.next]).filter (fun s => decide (s ∉ v.waiters)) = [v.next] := by
        rw [List.filter_append, List.filter_eq_nil_iff.mpr fun s hs => by simpa using hs, List.nil_append]
        simp [hfresh]
      rw [View.enqueue, hnew, List.range_succ]
  | keep | units | take => exact hsub (fun s hs => hs) rfl
  | serve available => exact hsub (fun s hs => List.mem_of_mem_drop hs) rfl
  | cancel signal available => exact hsub (fun s hs => List.mem_of_mem_erase (List.mem_of_mem_drop hs)) rfl
  | shut => exact hsub (fun s hs => nomatch hs) rfl

theorem Fair.step {h h' : History} {a : Action} (hf : Fair limit h) (hs : h.step a = some h') : Fair limit h' := by
  obtain ⟨w', hw, rfl⟩ := Option.map_eq_some_iff.mp hs
  obtain ⟨l, hmode, hordered, hserved⟩ := hf.queue
  obtain ⟨gs, l', hmode', ht⟩ := step_turn hf.conserved hmode hordered hw
  refine ⟨hf.conserved.step hw, ⟨l', hmode', ?_, hserved.turn ht⟩, ?_⟩
  · have hgrants : grants h.world.broker w'.broker = gs := by
      rw [grants, queueOf_limited hmode]
      exact ht.grants hordered
    exact hgrants ▸ hordered.turn ht
  · change h.arrived ++ Fairness.arrivals h.world.broker w'.broker = List.range w'.broker.nextSignal
    rw [hf.arrived, Fairness.arrivals, queueOf_limited hmode, queueOf_limited hmode']
    exact ht.arrivals hordered

theorem fair_of_reachable {h : History} (hr : (history (some limit)).Reachable h) : Fair limit h :=
  hr.invariant (fair_new limit) fun _ _ _ _ hf hs => hf.step hs

/-- No call is admitted past the queue, and `try_acquire` takes all its units
or none. -/
structure Admits (b : CapacityBroker) : Prop where
  acquireOne : ∀ n c, b.startAcquireOne = (some (.ready n), c) → queueOf b = [] ∧ freeUnits c + n = freeUnits b
  tryAcquire : ∀ units n c, b.tryAcquire units = (some n, c) → queueOf b = [] ∧ n = units ∧ freeUnits c + units = freeUnits b
  refused : ∀ units c, b.tryAcquire units = (none, c) → c = b

/-- A request that leaves passes its unit on in the same step. -/
structure PassesOn (b : CapacityBroker) (signal : CapacitySignal) : Prop where
  queued : b.status signal = capacityWaiting → queueOf (b.cancel signal) = (queueOf b).erase signal ∧
    freeUnits (b.cancel signal) = freeUnits b ∧ ∀ other ≠ signal, (b.cancel signal).status other = b.status other
  granted : b.state.closed = false → b.status signal = capacityGranted →
    (queueOf b = [] → freeUnits (b.cancel signal) = freeUnits b + 1) ∧
    ∀ next rest, queueOf b = next :: rest → (b.cancel signal).status next = capacityGranted ∧
      queueOf (b.cancel signal) = rest ∧ freeUnits (b.cancel signal) = 0

/-- What a step that closes the broker does to its requests. -/
structure Closes (b c : CapacityBroker) : Prop where
  queued : ∀ s ∈ queueOf b, c.status s = capacityClosed
  granted : ∀ s, b.status s = capacityGranted → c.status s = capacityGranted

theorem admits_of_balanced (h : Balanced limit b l live held) : Admits b where
  acquireOne := by
    intro n c heq
    rw [queueOf_limited h.mode_eq, freeUnits_limited h.mode_eq]
    simp only [CapacityBroker.startAcquireOne, h.mode_eq] at heq
    split at heq
    · cases heq
    split at heq
    · cases heq
    split at heq
    · next hready =>
      rw [CapacityBroker.takeAvailable, checkedSub_of_le hready.2] at heq
      cases heq
      exact ⟨hready.1, Nat.sub_add_cancel hready.2⟩
    · split at heq <;> cases heq
  tryAcquire := by
    intro units n c heq
    rw [queueOf_limited h.mode_eq, freeUnits_limited h.mode_eq]
    simp only [CapacityBroker.tryAcquire, h.mode_eq] at heq
    split at heq
    · cases heq
    split at heq
    · cases heq
    split at heq
    · cases heq
    · next hfull =>
      obtain ⟨-, hempty, hroom⟩ : ¬ l.effectiveCapacity < units ∧ l.waiters = [] ∧ ¬ l.available < units := by
        simpa only [not_or, not_not] using hfull
      have hle := Nat.le_of_not_lt hroom
      rw [CapacityBroker.takeAvailable, checkedSub_of_le hle] at heq
      cases heq
      exact ⟨hempty, rfl, Nat.sub_add_cancel hle⟩
  refused := by
    intro units c heq
    simp only [CapacityBroker.tryAcquire, h.mode_eq] at heq
    split at heq
    · cases heq; rfl
    split at heq
    · cases heq; rfl
    split at heq
    · cases heq; rfl
    · cases heq

theorem Fair.passesOn {h : History} (hf : Fair limit h) {r : CapacityRequest} (hr : h.world.requests.lookup signal = some r) :
    PassesOn h.world.broker signal := by
  obtain ⟨l, hmode, hordered, hserved⟩ := hf.queue
  obtain ⟨l₁, hl⟩ := hf.conserved.ledger
  obtain rfl : l₁ = l := CapacityMode.limited.inj (hl.mode_eq.symm.trans hmode)
  have hmem : signal ∈ h.world.requests.keys := AList.mem_keys.mp (Table.mem_of_lookup hr)
  obtain ⟨l', hmode', hview⟩ := cancel_turn hl hmem (hf.conserved.requests signal r hr).pending hordered
  have hqueue := congrArg View.waiters hview
  have hunits := congrArg View.available hview
  have hstatus := congrArg View.status hview
  simp only [View.serve, View.leave, view] at hqueue hunits hstatus
  refine ⟨fun hst => ?_, fun hopen hst => ?_⟩
  · have hwaits : signal ∈ l₁.waiters := hordered.queued signal (hl.fresh signal hmem) hst
    have hzero : l₁.available = 0 := by
      refine hserved (Bool.eq_false_iff.mpr fun hc => ?_) (List.ne_nil_of_mem hwaits)
      have hempty : l₁.waiters = [] := hordered.closed hc
      rw [hempty] at hwaits
      cases hwaits
    rw [hst, if_neg (by decide), hzero] at hqueue hunits hstatus
    rw [queueOf_limited hmode', queueOf_limited hmode, freeUnits_limited hmode', freeUnits_limited hmode, hzero]
    refine ⟨hqueue, hunits.trans (Nat.zero_sub _), fun other hne => ?_⟩
    rw [hstatus, List.take_zero, markAll_nil, Function.update_of_ne hne]
  · have hnot : signal ∉ l₁.waiters := fun hm => by cases hst.symm.trans (hordered.waiting signal hm)
    rw [if_pos hst, List.erase_of_not_mem hnot] at hqueue hunits hstatus
    rw [queueOf_limited hmode', queueOf_limited hmode, freeUnits_limited hmode', freeUnits_limited hmode]
    refine ⟨fun hempty => ?_, fun next rest hcons => ?_⟩
    · rw [hunits, hempty, List.length_nil, Nat.sub_zero]
    · have hzero : l₁.available = 0 := hserved hopen (by rw [view, hcons]; exact List.cons_ne_nil _ _)
      rw [hzero, hcons] at hqueue hunits hstatus
      refine ⟨?_, hqueue, hunits.trans (Nat.sub_eq_zero_of_le (Nat.succ_le_succ (Nat.zero_le _)))⟩
      rw [hstatus]
      exact if_pos (by simp)

theorem Turn.closes {v v' : View} (ht : Turn bound v gs v') (h : Ordered bound v granted) (hopen : v.closed = false)
    (hclosed : v'.closed = true) : (∀ s ∈ v.waiters, v'.status s = capacityClosed) ∧
      ∀ s, v.status s = capacityGranted → v'.status s = capacityGranted := by
  cases ht with
  | shut =>
      refine ⟨fun s hs => if_pos hs, fun s hs => ?_⟩
      rw [shut_status, if_neg, hs]
      exact fun hm => by cases hs.symm.trans (h.waiting s hm)
  | _ => cases hopen.symm.trans hclosed

theorem Fair.closes {h : History} {a : Action} (hf : Fair limit h) (hs : h.world.step a = some w')
    (hopen : h.world.broker.state.closed = false) (hclosed : w'.broker.state.closed = true) :
    Closes h.world.broker w'.broker := by
  obtain ⟨l, hmode, hordered, -⟩ := hf.queue
  obtain ⟨gs, l', hmode', ht⟩ := step_turn hf.conserved hmode hordered hs
  obtain ⟨hqueued, hgranted⟩ := ht.closes hordered hopen hclosed
  refine ⟨fun s hm => hqueued s ?_, hgranted⟩
  rwa [queueOf_limited hmode] at hm

/-- Requests are granted in the order they arrived: one that is older than a
granted one was granted too, or cancelled. -/
theorem Fair.arrival_order {h : History} (hf : Fair limit h) :
    (h.granted ++ queueOf h.world.broker).Sublist h.arrived ∧
      ∀ older newer, [older, newer].Sublist h.arrived → newer ∈ h.granted →
        older ∈ h.granted ∨ h.world.broker.status older = capacityCanceled := by
  obtain ⟨l, hmode, hordered, -⟩ := hf.queue
  rw [queueOf_limited hmode, hf.arrived]
  refine ⟨?_, fun older newer hsub hnewer => ?_⟩
  · have hsub : (h.granted ++ l.waiters).Subperm (List.range h.world.broker.nextSignal) :=
      List.subperm_of_subset hordered.nodup fun s hs => List.mem_range.mpr (hordered.fresh s hs)
    exact List.sublist_of_subperm_of_pairwise hsub hordered.order List.pairwise_lt_range
  · have hlt : older < newer := by simpa using List.pairwise_lt_range.sublist hsub
    have hfresh : older < h.world.broker.nextSignal := hlt.trans (hordered.fresh newer (List.mem_append_left _ hnewer))
    rcases hordered.known older hfresh with hst | hst | hst | hst | hst
    · have hafter := (List.pairwise_append.mp hordered.order).2.2 newer hnewer older (hordered.queued older hfresh hst)
      exact absurd hafter (Nat.lt_asymm hlt)
    · exact .inl (hordered.given older hfresh (.inl hst))
    · exact .inl (hordered.given older hfresh (.inr hst))
    · exact absurd ((hordered.ended older hfresh hst).2 newer hnewer) (Nat.lt_asymm hlt)
    · exact .inr hst

/-- The finite broker over every run of its clients: no capacity is free while
a request waits, requests are granted in their order and never overtaken, a
cancelled one passes its unit on, and closing answers every waiter. -/
theorem broker_fairness (limit : NonZeroUsize) (h : History) (hr : (history (some limit)).Reachable h) :
    (h.world.broker.state.closed = false → queueOf h.world.broker ≠ [] → freeUnits h.world.broker = 0) ∧
    (queueOf h.world.broker).length ≤ limit.get ∧
    (h.granted ++ queueOf h.world.broker).Sublist h.arrived ∧ h.arrived.Nodup ∧
    (∀ older newer, [older, newer].Sublist h.arrived → newer ∈ h.granted →
      older ∈ h.granted ∨ h.world.broker.status older = capacityCanceled) ∧
    Admits h.world.broker ∧
    (∀ signal r, h.world.requests.lookup signal = some r → PassesOn h.world.broker signal ∧
      (h.world.broker.state.closed = true → h.world.broker.status signal ≠ capacityWaiting)) ∧
    (h.world.broker.state.closed = true → queueOf h.world.broker = []) ∧
    ∀ a w', h.world.step a = some w' → h.world.broker.state.closed = false → w'.broker.state.closed = true →
      Closes h.world.broker w'.broker := by
  have hf := fair_of_reachable hr
  obtain ⟨l, hmode, hordered, hserved⟩ := hf.queue
  obtain ⟨l₁, hl⟩ := hf.conserved.ledger
  obtain ⟨hsub, holder⟩ := hf.arrival_order
  have hempty (hc : h.world.broker.state.closed = true) : queueOf h.world.broker = [] :=
    (queueOf_limited hmode).trans (hordered.closed hc)
  refine ⟨fun hopen hne => ?_, ?_, hsub, ?_, holder, admits_of_balanced hl, fun signal r hr => ⟨hf.passesOn hr, fun hc hst => ?_⟩,
    hempty, fun a w' hs => hf.closes hs⟩
  · rw [freeUnits_limited hmode]
    rw [queueOf_limited hmode] at hne
    exact hserved hopen hne
  · rw [queueOf_limited hmode]
    exact hordered.bounded
  · rw [hf.arrived]
    exact List.nodup_range
  · have hmem : signal ∈ l.waiters :=
      hordered.queued signal (hl.fresh signal (AList.mem_keys.mp (Table.mem_of_lookup hr))) hst
    rw [← queueOf_limited hmode, hempty hc] at hmem
    cases hmem

def tinyLimit : NonZeroUsize := .one

/-- The unit of a released permit goes to the first waiter, and from there to
the second when the first one is dropped before it looked. -/
theorem broker_fairness_dropped :
    ∃ h, (history (some tinyLimit)).after ⟨World.new (some tinyLimit), [], []⟩
        [.acquireOne, .acquireOne, .dropPermit 0, .acquireOne] = some h ∧
      h.arrived = [0, 1] ∧ h.granted = [0] ∧ freeUnits h.world.broker = 0 ∧
      (h.world.broker.cancel 0).status 1 = capacityGranted := by
  refine ⟨_, rfl, rfl, rfl, ?_⟩
  obtain ⟨hfull, -, -, -, -, -, hlive, -⟩ := broker_fairness tinyLimit _
    (Machine.Reachable.after (w := [.acquireOne, .acquireOne, .dropPermit 0, .acquireOne]) .init rfl)
  exact ⟨hfull rfl (List.cons_ne_nil _ _), (((hlive 0 _ rfl).1.granted rfl rfl).2 1 [] rfl).1⟩

end Runs

end Taskvisor.Ownership.Fairness
