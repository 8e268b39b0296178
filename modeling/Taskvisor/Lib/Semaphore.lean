import Mathlib.Data.List.Nodup

namespace Taskvisor.Lib

universe u

/-- A fair counting semaphore. A permit that comes free belongs to the client
that waits longest from then on, whether or not the client has seen it. -/
structure Semaphore (κ : Type u) where
  available : Nat
  waiters : List κ
  granted : List κ
  /-- How many permits came back. -/
  returned : Nat

namespace Semaphore

variable {κ : Type u} {s : Semaphore κ} {k x : κ}

def new (permits : Nat) : Semaphore κ := ⟨permits, [], [], 0⟩

/-- One permit comes back. -/
def release (s : Semaphore κ) : Semaphore κ :=
  match s.waiters with
  | [] => { s with available := s.available + 1, returned := s.returned + 1 }
  | k :: waiters => { s with waiters, granted := s.granted ++ [k], returned := s.returned + 1 }

/-- The first poll of an acquisition: a permit, or a place at the end of the line. -/
def request (s : Semaphore κ) (k : κ) : Bool × Semaphore κ :=
  match s.available with
  | 0 => (false, { s with waiters := s.waiters ++ [k] })
  | available + 1 => (true, { s with available })

section Line

variable [DecidableEq κ]

/-- The client sees the permit it was granted. -/
def take (s : Semaphore κ) (k : κ) : Semaphore κ := { s with granted := s.granted.erase k }

/-- The acquisition is dropped. -/
def cancel (s : Semaphore κ) (k : κ) : Semaphore κ :=
  if k ∈ s.granted then (s.take k).release else { s with waiters := s.waiters.erase k }

end Line

/-- The permits that no client holds. -/
def units (s : Semaphore κ) : Nat := s.available + s.granted.length

/-- Who has asked and does not hold a permit yet. -/
def line (s : Semaphore κ) : List κ := s.granted ++ s.waiters

structure Fair (s : Semaphore κ) : Prop where
  /-- A permit is free only while nobody waits. -/
  served : 0 < s.available → s.waiters = []
  once : s.line.Nodup

theorem fair_new (permits : Nat) : (new permits : Semaphore κ).Fair := ⟨fun _ => rfl, List.nodup_nil⟩

theorem Fair.empty (h : s.Fair) (hw : s.waiters ≠ []) : s.available = 0 :=
  Nat.eq_zero_of_not_pos fun hp => hw (h.served hp)

section Release

theorem units_release (s : Semaphore κ) : s.release.units = s.units + 1 := by
  unfold release units
  split
  · exact Nat.add_right_comm _ _ _
  · rw [List.length_append]
    exact (Nat.add_assoc _ _ _).symm

theorem line_release (s : Semaphore κ) : s.release.line = s.line := by
  unfold release line
  split
  · rfl
  · next k waiters hw =>
    rw [hw, List.append_assoc]
    rfl

@[simp] theorem release_returned (s : Semaphore κ) : s.release.returned = s.returned + 1 := by
  unfold release
  split <;> rfl

theorem release_waiters (s : Semaphore κ) : s.release.waiters = s.waiters.tail := by
  unfold release
  split
  · next hw => rw [hw]; rfl
  · next k waiters hw => rw [hw]; rfl

theorem Fair.release (h : s.Fair) : s.release.Fair := by
  refine ⟨fun hp => ?_, by rw [line_release]; exact h.once⟩
  cases hw : s.waiters with
  | nil => rw [release_waiters, hw]; rfl
  | cons k waiters =>
      have hzero := h.empty (by rw [hw]; exact List.cons_ne_nil _ _)
      rw [Semaphore.release, hw] at hp
      exact absurd hp (by simp [hzero])

end Release

section Request

theorem request_cases (s : Semaphore κ) (k : κ) :
    s.available = 0 ∧ s.request k = (false, { s with waiters := s.waiters ++ [k] }) ∨
      0 < s.available ∧ s.request k = (true, { s with available := s.available - 1 }) := by
  unfold request
  split
  · next h => exact .inl ⟨h, rfl⟩
  · next available h => exact .inr ⟨by omega, by rw [h]; rfl⟩

theorem units_request (s : Semaphore κ) (k : κ) :
    s.units = (s.request k).2.units + if (s.request k).1 = true then 1 else 0 := by
  obtain ⟨-, h⟩ | ⟨hp, h⟩ := request_cases s k
  · rw [h]
    rfl
  · rw [h, if_pos rfl]
    simp only [units]
    omega

theorem line_request (s : Semaphore κ) (k : κ) :
    (s.request k).2.line = if (s.request k).1 = true then s.line else s.line ++ [k] := by
  unfold request line
  split
  · exact (List.append_assoc _ _ _).symm
  · rfl

@[simp] theorem request_returned (s : Semaphore κ) (k : κ) : (s.request k).2.returned = s.returned := by
  unfold request
  split <;> rfl

theorem Fair.request (h : s.Fair) (hk : k ∉ s.line) : (s.request k).2.Fair := by
  constructor
  · unfold Semaphore.request
    split
    · next hz => intro hp; rw [hz] at hp; cases hp
    · next hz => exact fun _ => h.served (by rw [hz]; exact Nat.succ_pos _)
  · rw [line_request]
    split
    · exact h.once
    · exact List.nodup_append.mpr ⟨h.once, List.nodup_singleton k, fun a ha b hb => by
        rintro rfl
        exact hk (List.mem_singleton.mp hb ▸ ha)⟩

end Request

section Line

variable [DecidableEq κ]

theorem units_take (hk : k ∈ s.granted) : (s.take k).units + 1 = s.units := by
  have hpos := List.length_pos_of_mem hk
  simp only [units, take, List.length_erase_of_mem hk]
  omega

theorem line_take (hk : k ∈ s.granted) : (s.take k).line = s.line.erase k := (List.erase_append_left _ hk).symm

theorem Fair.take (h : s.Fair) (hk : k ∈ s.granted) : (s.take k).Fair :=
  ⟨h.served, by rw [line_take hk]; exact h.once.erase _⟩

theorem units_cancel (s : Semaphore κ) (k : κ) : (s.cancel k).units = s.units := by
  unfold cancel
  split
  · next hk => rw [units_release, units_take hk]
  · rfl

theorem line_cancel (s : Semaphore κ) (k : κ) : (s.cancel k).line = s.line.erase k := by
  unfold cancel
  split
  · next hk => rw [line_release, line_take hk]
  · next hk => exact (List.erase_append_right _ hk).symm

theorem returned_cancel (s : Semaphore κ) (k : κ) : s.returned ≤ (s.cancel k).returned := by
  unfold cancel
  split
  · rw [release_returned]
    exact Nat.le_succ _
  · exact Nat.le_refl _

theorem Fair.cancel (h : s.Fair) : (s.cancel k).Fair := by
  refine ⟨?_, by rw [line_cancel]; exact h.once.erase _⟩
  unfold Semaphore.cancel
  split
  · next hk => exact (h.take hk).release.served
  · intro hp
    rw [h.served hp]
    rfl

end Line

section Place

variable [DecidableEq κ]

/-- How far a client is from the head of the line, with the permits that came
back counted in. It never grows while the client waits. -/
def place (s : Semaphore κ) (x : κ) : Nat := s.waiters.idxOf x + s.returned

theorem place_release (hx : x ∈ s.waiters) (hx' : x ∈ s.release.waiters) (hs : s.Fair) : s.release.place x = s.place x := by
  rw [release_waiters] at hx'
  rw [place, place, release_waiters, release_returned]
  cases hw : s.waiters with
  | nil => rw [hw] at hx; cases hx
  | cons k waiters =>
      rw [hw] at hx'
      have hnodup : (k :: waiters).Nodup := hw ▸ (List.nodup_append.mp hs.once).2.1
      have hne : k ≠ x := by
        rintro rfl
        exact (List.nodup_cons.mp hnodup).1 hx'
      rw [List.tail_cons, List.idxOf_cons_ne _ hne]
      omega

theorem place_request (hx : x ∈ s.waiters) (k : κ) : (s.request k).2.place x = s.place x := by
  rw [place, place, request_returned]
  unfold request
  split
  · rw [List.idxOf_append_of_mem hx]
  · rfl

theorem idxOf_erase_le {l : List κ} (hk : k ≠ x) : (l.erase k).idxOf x ≤ l.idxOf x := by
  induction l with
  | nil => exact Nat.le_refl _
  | cons a l ih =>
      by_cases ha : a = k
      · subst ha
        rw [List.erase_cons_head, List.idxOf_cons_ne _ hk]
        exact Nat.le_succ _
      · rw [List.erase_cons_tail (by simpa using ha)]
        by_cases hx : a = x
        · rw [List.idxOf_cons_eq _ hx]
          exact Nat.zero_le _
        · rw [List.idxOf_cons_ne _ hx, List.idxOf_cons_ne _ hx]
          exact Nat.succ_le_succ ih

theorem place_cancel (hx : x ∈ s.waiters) (hx' : x ∈ (s.cancel k).waiters) (hs : s.Fair) (hk : k ≠ x) :
    (s.cancel k).place x ≤ s.place x := by
  by_cases hg : k ∈ s.granted
  · rw [cancel, if_pos hg] at hx' ⊢
    exact Nat.le_of_eq (place_release (s := s.take k) hx hx' (hs.take hg))
  · rw [cancel, if_neg hg]
    exact Nat.add_le_add_right (idxOf_erase_le hk) _

end Place

end Semaphore

end Taskvisor.Lib
