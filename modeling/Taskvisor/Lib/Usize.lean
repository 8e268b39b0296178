import Mathlib.Algebra.GroupWithZero.Nat
import Mathlib.Order.Basic
import Mathlib.Tactic.Common

namespace Taskvisor.Lib

/-- The largest value of a 64-bit word. -/
def wordMax : Nat := 2 ^ 64 - 1

def checkedAdd (a b : Nat) : Option Nat := if a + b ≤ wordMax then some (a + b) else none

def checkedSub (a b : Nat) : Option Nat := if b ≤ a then some (a - b) else none

def saturatingAdd (a b : Nat) : Nat := min (a + b) wordMax

structure NonZeroUsize where
  get : Nat
  pos : 0 < get
  le : get ≤ wordMax

theorem one_le_wordMax : 1 ≤ wordMax := by decide

namespace NonZeroUsize

def one : NonZeroUsize := ⟨1, Nat.one_pos, one_le_wordMax⟩

def two : NonZeroUsize := ⟨2, by decide, by decide⟩

def four : NonZeroUsize := ⟨4, by decide, by decide⟩

end NonZeroUsize

theorem checkedAdd_of_le {a b c : Nat} (h : a + b ≤ c) (hc : c ≤ wordMax) :
    checkedAdd a b = some (a + b) := if_pos (Nat.le_trans h hc)

theorem saturatingAdd_of_le {a b : Nat} (h : a + b ≤ wordMax) : saturatingAdd a b = a + b := Nat.min_eq_left h

theorem checkedSub_of_le {a b : Nat} (h : b ≤ a) : checkedSub a b = some (a - b) := if_pos h

end Taskvisor.Lib
