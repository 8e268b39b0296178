import Mathlib.Algebra.GroupWithZero.Nat
import Mathlib.Data.List.Nodup

namespace Taskvisor.Lib

variable {α : Type*}

/-- Counting after one entry of a duplicate-free list changes its answer. -/
theorem countP_flip {l : List α} (hl : l.Nodup) {a : α} (ha : a ∈ l) {p q : α → Bool}
    (hpq : ∀ x ∈ l, x ≠ a → p x = q x) (hp : p a = false) (hq : q a = true) :
    l.countP q = l.countP p + 1 := by
  induction l with
  | nil => cases ha
  | cons b l ih =>
      obtain ⟨hb, hl⟩ := List.nodup_cons.mp hl
      by_cases hab : b = a
      · subst hab
        have htail : l.countP p = l.countP q :=
          List.countP_congr fun x hx => by
            rw [hpq x (List.mem_cons_of_mem _ hx) (fun h => hb (h ▸ hx))]
        simp [hp, hq, htail]
      · have ha : a ∈ l := (List.mem_cons.mp ha).resolve_left (Ne.symm hab)
        have htail := ih hl ha fun x hx => hpq x (List.mem_cons_of_mem _ hx)
        rw [List.countP_cons, List.countP_cons, htail, hpq b List.mem_cons_self hab]
        omega

/-- One entry of a list of weights is replaced. -/
theorem sum_map_set (f : α → Nat) (l : List α) {i : Nat} {x : α} (y : α) (h : l[i]? = some x) :
    ((l.set i y).map f).sum + f x = (l.map f).sum + f y := by
  induction l generalizing i with
  | nil => cases h
  | cons z l ih =>
      cases i with
      | zero =>
          cases h
          simp only [List.set_cons_zero, List.map_cons, List.sum_cons]
          omega
      | succ i =>
          have hrest := ih h
          simp only [List.set_cons_succ, List.map_cons, List.sum_cons] at hrest ⊢
          omega

end Taskvisor.Lib
