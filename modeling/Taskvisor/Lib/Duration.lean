import Taskvisor.Lib.Usize
import Mathlib.Order.Defs.LinearOrder
import Mathlib.Order.Lattice

namespace Taskvisor.Lib

def u32 (n : Nat) : Nat := n % 2 ^ 32

def u32Max : Nat := 2 ^ 32 - 1

def u64 (n : Nat) : Nat := n % 2 ^ 64

def u128 (n : Nat) : Nat := n % 2 ^ 128

def checkedMul (a b : Nat) : Option Nat := if a * b ≤ wordMax then some (a * b) else none

def nanosPerSec : Nat := 1000000000

/-- A span of whole seconds, a 64-bit word, and nanoseconds below one second. -/
@[ext] structure Duration where
  secs : Nat
  nanos : Nat
  secs_le : secs ≤ wordMax
  nanos_lt : nanos < nanosPerSec
deriving DecidableEq

namespace Duration

variable {d e : Duration} {n k : Nat}

/-- The length of the span in nanoseconds. -/
def total (d : Duration) : Nat := d.secs * nanosPerSec + d.nanos

theorem total_injective : Function.Injective total := by
  intro d e h
  have hd := d.nanos_lt
  have he := e.nanos_lt
  simp only [total, nanosPerSec] at h hd he
  ext <;> omega

instance : LinearOrder Duration := LinearOrder.lift' total total_injective

theorem le_def : d ≤ e ↔ d.total ≤ e.total := Iff.rfl

theorem lt_def : d < e ↔ d.total < e.total := Iff.rfl

/-- The order of durations is that of the fields, seconds first. -/
theorem le_iff_lex : d ≤ e ↔ d.secs < e.secs ∨ d.secs = e.secs ∧ d.nanos ≤ e.nanos := by
  have hd := d.nanos_lt
  have he := e.nanos_lt
  simp only [le_def, total, nanosPerSec] at hd he ⊢
  omega

theorem total_min : (min d e).total = min d.total e.total := by
  rcases le_total d e with h | h
  · rw [min_eq_left h, Nat.min_eq_left h]
  · rw [min_eq_right h, Nat.min_eq_right h]

theorem total_max : (max d e).total = max d.total e.total := by
  rcases le_total d e with h | h
  · rw [max_eq_right h, Nat.max_eq_right h]
  · rw [max_eq_left h, Nat.max_eq_left h]

instance : Zero Duration := ⟨0, 0, by decide, by decide⟩

@[simp] theorem total_zero : (0 : Duration).total = 0 := rfl

def isZero (d : Duration) : Bool := d.secs == 0 && d.nanos == 0

theorem isZero_iff : d.isZero = true ↔ d = 0 := by
  simp [isZero, Duration.ext_iff, show (0 : Duration).secs = 0 from rfl, show (0 : Duration).nanos = 0 from rfl]

theorem pos_iff : 0 < d ↔ d ≠ 0 := by
  rw [lt_def, total_zero, Nat.pos_iff_ne_zero, ne_eq, ne_eq, ← total_zero, total_injective.eq_iff]

theorem zero_le : 0 ≤ d := Nat.zero_le _

/-- The longest span. -/
def maximum : Duration := ⟨wordMax, nanosPerSec - 1, Nat.le_refl _, by decide⟩

theorem total_le_maximum (d : Duration) : d.total ≤ maximum.total := by
  have hs := d.secs_le
  have hn := d.nanos_lt
  simp only [total, maximum, nanosPerSec] at hs hn ⊢
  omega

def fromSecs (n : Nat) (h : n ≤ wordMax := by decide) : Duration := ⟨n, 0, h, by decide⟩

def fromMillis (n : Nat) (h : n ≤ wordMax := by decide) : Duration where
  secs := n / 1000
  nanos := n % 1000 * 1000000
  secs_le := Nat.le_trans (Nat.div_le_self _ _) h
  nanos_lt := by
    have := Nat.mod_lt n (show 0 < 1000 by decide)
    simp only [nanosPerSec]
    omega

def ofTotal (n : Nat) (h : n ≤ maximum.total) : Duration where
  secs := n / nanosPerSec
  nanos := n % nanosPerSec
  secs_le := Nat.le_trans (Nat.div_le_div_right h) (by decide)
  nanos_lt := Nat.mod_lt _ (by decide)

theorem total_ofTotal (h : n ≤ maximum.total) : (ofTotal n h).total = n := by
  rw [total, Nat.mul_comm]
  exact Nat.div_add_mod n nanosPerSec

def saturatingSub (d e : Duration) : Duration :=
  ofTotal (d.total - e.total) (Nat.le_trans (Nat.sub_le _ _) (total_le_maximum d))

/-- Nanoseconds from one second on are carried into the seconds, and there is
no duration when that overflows. -/
def new (secs nanos : Nat) : Option Duration :=
  if hn : nanos < nanosPerSec then
    if hs : secs ≤ wordMax then some ⟨secs, nanos, hs, hn⟩ else none
  else
    if hs : secs + nanos / nanosPerSec ≤ wordMax then
      some ⟨secs + nanos / nanosPerSec, nanos % nanosPerSec, hs, Nat.mod_lt _ (by decide)⟩
    else none

/-- The length in nanoseconds as a 128-bit word. -/
def asNanos (d : Duration) : Nat := u128 (u128 (d.secs * nanosPerSec) + d.nanos)

theorem total_lt : d.total < 2 ^ 94 := Nat.lt_of_le_of_lt (total_le_maximum d) (by decide)

theorem asNanos_eq : d.asNanos = d.total := by
  have ht : d.total < 2 ^ 94 := total_lt
  simp only [total] at ht
  simp only [asNanos, u128, total]
  rw [Nat.mod_eq_of_lt (a := d.secs * nanosPerSec) (by omega), Nat.mod_eq_of_lt (by omega)]

def checkedMul (d : Duration) (rhs : Nat) : Option Duration :=
  let totalNanos := u64 (d.nanos * rhs)
  match Lib.checkedMul d.secs rhs with
  | some s =>
      if h : s + totalNanos / nanosPerSec ≤ wordMax then
        some ⟨s + totalNanos / nanosPerSec, u32 (totalNanos % nanosPerSec), h,
          Nat.lt_of_le_of_lt (Nat.mod_le _ _) (Nat.mod_lt _ (by decide))⟩
      else none
  | none => none

def saturatingMul (d : Duration) (rhs : Nat) : Duration := (d.checkedMul rhs).getD maximum

/-- No intermediate value of the product overflows, and it is exact until the
whole span does. -/
theorem total_saturatingMul (hk : k < 2 ^ 32) : (d.saturatingMul k).total = min (d.total * k) maximum.total := by
  have hn := d.nanos_lt
  have hnk : d.nanos * k < nanosPerSec * 2 ^ 32 := Nat.mul_lt_mul'' hn hk
  have hu64 : u64 (d.nanos * k) = d.nanos * k := Nat.mod_eq_of_lt (hnk.trans (by decide))
  have hu32 : u32 (d.nanos * k % nanosPerSec) = d.nanos * k % nanosPerSec :=
    Nat.mod_eq_of_lt ((Nat.mod_lt _ (by decide)).trans (by decide))
  have hsplit := Nat.div_add_mod (d.nanos * k) nanosPerSec
  have hmul : d.total * k = d.secs * k * nanosPerSec + d.nanos * k := by
    rw [total, Nat.add_mul, Nat.mul_right_comm]
  have hmax : maximum.total = wordMax * nanosPerSec + 999999999 := rfl
  have hmod : d.nanos * k % nanosPerSec < nanosPerSec := Nat.mod_lt _ (by decide)
  rw [hmul, hmax]
  by_cases h : d.secs * k + d.nanos * k / nanosPerSec ≤ wordMax
  · have hs : d.secs * k ≤ wordMax := Nat.le_trans (Nat.le_add_right _ _) h
    simp only [saturatingMul, checkedMul, Lib.checkedMul, if_pos hs, hu64, hu32, dif_pos h, Option.getD_some, total]
    have heq : (d.secs * k + d.nanos * k / nanosPerSec) * nanosPerSec + d.nanos * k % nanosPerSec =
        d.secs * k * nanosPerSec + d.nanos * k := by
      rw [Nat.add_mul, Nat.add_assoc, Nat.mul_comm (_ / _), hsplit]
    rw [heq]
    refine (Nat.min_eq_left ?_).symm
    generalize wordMax = top at h ⊢
    simp only [nanosPerSec] at hsplit hmod h ⊢
    omega
  · have hnone : d.checkedMul k = none := by
      simp only [checkedMul, Lib.checkedMul, hu64]
      by_cases hs : d.secs * k ≤ wordMax
      · simp only [if_pos hs, dif_neg h]
      · simp only [if_neg hs]
    rw [saturatingMul, hnone, Option.getD_none, hmax]
    refine (Nat.min_eq_right ?_).symm
    have h' : wordMax + 1 ≤ d.secs * k + d.nanos * k / nanosPerSec := Nat.lt_of_not_le h
    generalize wordMax = top at h' ⊢
    simp only [nanosPerSec] at hsplit hmod h' ⊢
    omega

/-- A decimal number with the digits of its fraction up to the last that is
not zero. -/
def decimal (whole fraction width : Nat) (suffix : String) : String :=
  let digits := Nat.toDigits 10 fraction
  let padded := List.replicate (width - digits.length) '0' ++ digits
  let trimmed := (padded.reverse.dropWhile (· == '0')).reverse
  toString whole ++ (if trimmed.isEmpty then "" else "." ++ String.ofList trimmed) ++ suffix

/-- The `Debug` text, in the largest unit that gives a whole part. -/
def debug (d : Duration) : String :=
  if 0 < d.secs then decimal d.secs d.nanos 9 "s"
  else if 1000000 ≤ d.nanos then decimal (d.nanos / 1000000) (d.nanos % 1000000) 6 "ms"
  else if 1000 ≤ d.nanos then decimal (d.nanos / 1000) (d.nanos % 1000) 3 "µs"
  else decimal d.nanos 0 1 "ns"

end Duration

end Taskvisor.Lib
