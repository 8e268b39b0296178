import Mathlib.Data.List.Destutter
import Mathlib.Data.List.Sort

namespace Taskvisor.Lib.Sort

universe u

variable {α : Type u} [LinearOrder α] {a b : α} {l : List α}

/-- `Vec::dedup`: of consecutive equal elements the first stays. -/
def dedup (l : List α) : List α := l.destutter (· ≠ ·)

/-- `sort_unstable` and then `dedup`; elements that compare equal are equal. -/
def sortDedup (l : List α) : List α := dedup (l.insertionSort (· ≤ ·))

theorem mem_destutter' (h : a ∈ b :: l) : a ∈ l.destutter' (· ≠ ·) b := by
  induction l generalizing b with
  | nil => exact h
  | cons c l ih =>
      by_cases hne : b ≠ c
      · rw [List.destutter'_cons_pos _ hne]
        rcases List.mem_cons.mp h with rfl | hm
        · exact List.mem_cons_self
        · exact List.mem_cons_of_mem _ (ih hm)
      · rw [List.destutter'_cons_neg _ hne]
        obtain rfl := not_not.mp hne
        rcases List.mem_cons.mp h with rfl | hm
        · exact List.mem_destutter' _ _ _
        · exact ih hm

theorem mem_dedup : a ∈ dedup l ↔ a ∈ l := by
  refine ⟨fun h => (List.destutter_sublist _ l).subset h, fun h => ?_⟩
  cases l with
  | nil => exact h
  | cons b l => exact mem_destutter' h

theorem pairwise_lt (hle : l.Pairwise (· ≤ ·)) (hne : l.IsChain (· ≠ ·)) : l.Pairwise (· < ·) := by
  refine List.isChain_iff_pairwise.mp ?_
  induction hne with
  | nil => exact .nil
  | singleton a => exact .singleton a
  | cons_cons hab _ ih =>
      obtain ⟨hhead, htail⟩ := List.pairwise_cons.mp hle
      exact .cons_cons (lt_of_le_of_ne (hhead _ List.mem_cons_self) hab) (ih htail)

/-- In a sorted list equal elements stand together, so `dedup` leaves each
once. -/
theorem pairwise_dedup (h : l.Pairwise (· ≤ ·)) : (dedup l).Pairwise (· < ·) :=
  pairwise_lt (h.sublist (List.destutter_sublist _ l)) (List.isChain_destutter _ l)

theorem mem_sortDedup : a ∈ sortDedup l ↔ a ∈ l := mem_dedup.trans (List.mem_insertionSort _)

theorem pairwise_sortDedup (l : List α) : (sortDedup l).Pairwise (· < ·) :=
  pairwise_dedup (List.pairwise_insertionSort _ l)

end Taskvisor.Lib.Sort
