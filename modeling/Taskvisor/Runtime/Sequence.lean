import Taskvisor.Lib.FetchUpdate

namespace Taskvisor.Runtime.Sequence

open Lib FetchUpdate

variable {w w' : World UInt64} {key : Nat} {id v : UInt64} {n : Nat}

def u64Max : UInt64 := 18446744073709551615

/-- Zero says that the sequence is exhausted. -/
def advance (current : UInt64) : Option UInt64 :=
  if current = 0 then none
  else if current = u64Max then some 0
  else some (current + 1)

/-- `TASK_ID_SEQ` and the callers of `TaskId::next`; a refused caller panics. -/
def machine : Machine (World UInt64) Action := FetchUpdate.machine advance 1

theorem advance_toNat {next : UInt64} (h : advance v = some next) :
    v ≠ 0 ∧ (v = u64Max ∧ next = 0 ∨ next.toNat = v.toNat + 1) := by
  unfold advance at h
  split at h
  · cases h
  · next hz =>
    refine ⟨hz, ?_⟩
    split at h
    · next hmax => exact .inl ⟨hmax, (Option.some.inj h).symm⟩
    · next hmax =>
      obtain rfl := Option.some.inj h
      refine .inr ?_
      have hne : v.toNat ≠ 18446744073709551615 := fun hx => hmax (UInt64.toNat_inj.mp hx)
      have hlt := v.toNat_lt
      rw [UInt64.toNat_add, UInt64.toNat_one]
      omega

/-- The `n`-th value of the sequence. -/
theorem iterate_advance (h : iterate advance 1 n = some v) :
    v.toNat = n + 1 ∧ n < u64Max.toNat ∨ v = 0 ∧ n = u64Max.toNat := by
  induction n generalizing v with
  | zero =>
      obtain rfl := Option.some.inj h
      exact .inl ⟨rfl, by decide⟩
  | succ n ih =>
      obtain ⟨u, hu, hv⟩ := Option.bind_eq_some_iff.mp h
      obtain ⟨hne, hnext⟩ := advance_toNat hv
      rcases ih hu with ⟨hn, hlt⟩ | ⟨rfl, -⟩
      · rcases hnext with ⟨rfl, rfl⟩ | hnext
        · exact .inr ⟨rfl, hn.symm⟩
        · have hlt' := v.toNat_lt
          have hmax : u64Max.toNat = 18446744073709551615 := rfl
          exact .inl ⟨by omega, by omega⟩
      · exact absurd rfl hne

/-- An identity is one more than the number of those before it. -/
theorem issued (h : Linear advance 1 w) (hn : w.order[n]? = some (key, id)) : id.toNat = n + 1 := by
  obtain ⟨hlt, -⟩ := List.getElem?_eq_some_iff.mp hn
  have hv := h.value hn
  rcases iterate_advance hv with ⟨hid, -⟩ | ⟨rfl, -⟩
  · exact hid
  · have hsome : (iterate advance 1 (n + 1)).isSome := iterate_of_le (by rw [h.cell]; rfl) hlt
    rw [iterate, hv] at hsome
    cases hsome

theorem exists_place (h : Linear advance 1 w) (hk : w.callers.lookup key = some (.returned id)) :
    ∃ n, w.order[n]? = some (key, id) ∧ id.toNat = n + 1 := by
  obtain ⟨n, hn⟩ := List.mem_iff_getElem?.mp ((h.placed key id).mp hk)
  exact ⟨n, hn, issued h hn⟩

theorem advance_none (h : advance v = none) : v = 0 := by
  unfold advance at h
  split at h
  · next hz => exact hz
  · split at h <;> cases h

/-- However the callers interleave, no identity is zero or handed out twice, an
earlier call has the smaller one, and only an exhausted sequence panics. -/
theorem identity_sequence (h : machine.Reachable w) :
    (∀ key id, w.callers.lookup key = some (.returned id) → id ≠ 0) ∧
    (∀ key key' id, w.callers.lookup key = some (.returned id) → w.callers.lookup key' = some (.returned id) → key = key') ∧
    (∀ key v, w.callers.lookup key = some (.refused v) → w.order.length = u64Max.toNat) ∧
    ∀ key id, w.callers.lookup key = some (.returned id) → ∀ run w', machine.after w run = some w' →
      w'.callers.lookup key = some (.returned id) ∧ ∀ key' id', w.callers.lookup key' = none →
        w'.callers.lookup key' = some (.returned id') → id < id' := by
  have hl := linear_of_reachable h
  refine ⟨fun key id hk => ?_, fun key key' id hk hk' => ?_, fun key v hk => ?_, fun key id hk run w' hrun => ?_⟩
  · obtain ⟨n, -, hid⟩ := exists_place hl hk
    rintro rfl
    cases hid
  · obtain ⟨n, hn, hid⟩ := exists_place hl hk
    obtain ⟨n', hn', hid'⟩ := exists_place hl hk'
    obtain rfl : n = n' := by omega
    exact (Prod.mk.inj (Option.some.inj (hn.symm.trans hn'))).1
  · obtain ⟨rfl, hnone⟩ := hl.refused key v hk
    rcases iterate_advance hl.cell with ⟨hid, -⟩ | ⟨-, hlen⟩
    · rw [advance_none hnone] at hid
      cases hid
    · exact hlen
  · have hl' := linear_of_reachable (h.after hrun)
    have hgrown := order_after h hrun
    refine ⟨(hl'.placed key id).mpr (hgrown.subset ((hl.placed key id).mp hk)), fun key' id' hnone hk' => ?_⟩
    obtain ⟨n, hn, hid⟩ := exists_place hl hk
    obtain ⟨n', hn', hid'⟩ := exists_place hl' hk'
    obtain ⟨hlt, -⟩ := List.getElem?_eq_some_iff.mp hn
    have hge : w.order.length ≤ n' := by
      by_contra hin
      obtain ⟨rest, he⟩ := hgrown
      rw [← he, List.getElem?_append_left (by omega)] at hn'
      have hx := (hl.placed key' id').mpr (List.mem_of_getElem? hn')
      rw [hnone] at hx
      cases hx
    exact UInt64.lt_iff_toNat_lt.mpr (by omega)

/-- The second caller comes between the load and the exchange of the first. -/
def raceRun : List Action :=
  [.begin 1, .load 1, .begin 2, .load 2, .exchange 2 false, .exchange 1 false, .exchange 1 true, .exchange 1 false]

def lateRun : List Action := [.begin 3, .load 3, .exchange 3 false]

theorem identity_sequence_race :
    ∃ w w', machine.after (.new 1) raceRun = some w ∧ machine.after w lateRun = some w' ∧
      w.callers.lookup 2 = some (.returned 1) ∧ w.callers.lookup 1 = some (.returned 2) ∧ (2 : UInt64) ≠ 0 ∧
      w'.callers.lookup 3 = some (.returned 3) ∧ (2 : UInt64) < 3 := by
  obtain ⟨w, hw, hp⟩ := (Option.any_eq_true (fun w : World UInt64 => decide (w.callers.lookup 2 = some (.returned 1) ∧
      w.callers.lookup 1 = some (.returned 2) ∧ w.callers.lookup 3 = none ∧
      ((machine.after w lateRun).any fun w' => decide (w'.callers.lookup 3 = some (.returned 3))) = true)) _).mp
    (show (machine.after (.new 1) raceRun).any _ = true by decide +kernel)
  obtain ⟨hsecond, hfirst, hnew, hq⟩ := of_decide_eq_true hp
  obtain ⟨w', hw', hq⟩ := (Option.any_eq_true _ _).mp hq
  have hthird := of_decide_eq_true hq
  obtain ⟨hzero, -, -, horder⟩ := identity_sequence (Machine.Reachable.after (M := machine) .init hw)
  exact ⟨w, w', hw, hw', hsecond, hfirst, hzero 1 2 hfirst, hthird, (horder 1 2 hfirst _ w' hw').2 3 3 hnew hthird⟩

end Taskvisor.Runtime.Sequence
