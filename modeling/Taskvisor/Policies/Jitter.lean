import Taskvisor.Lib.Duration

namespace Taskvisor.Policies.Jitter

open Lib

variable {draw : Nat → Nat → Nat} {delay lower upperSeed max d : Duration} {n : Nat}

inductive JitterPolicy
  | none
  | full
  | equal
  | randomizedBand
deriving DecidableEq

instance : Inhabited JitterPolicy := ⟨.none⟩

/-- A draw answers every range with one of its values. -/
def InRange (draw : Nat → Nat → Nat) : Prop := ∀ lo hi, lo ≤ hi → lo ≤ draw lo hi ∧ draw lo hi ≤ hi

theorem inRange_lowest : InRange fun lo _ => lo := fun _ _ h => ⟨le_refl _, h⟩

/-- A draw from an inclusive range, which must not be empty. -/
def fastrand (draw : Nat → Nat → Nat) (lo hi : Nat) : Option Nat := if lo ≤ hi then some (draw lo hi) else none

theorem fastrand_spec (hdraw : InRange draw) {lo hi : Nat} (h : lo ≤ hi) :
    ∃ k, fastrand draw lo hi = some k ∧ lo ≤ k ∧ k ≤ hi :=
  ⟨draw lo hi, if_pos h, hdraw lo hi h⟩

def durationFromNanos (nanos : Nat) : Option Duration :=
  let seconds := u64 (nanos / nanosPerSec)
  let subsecNanos := u32 (nanos % nanosPerSec)
  Duration.new seconds subsecNanos

/-- Up to the longest duration the conversion truncates nothing and carries
nothing. -/
theorem durationFromNanos_spec (h : n ≤ Duration.maximum.total) : ∃ d, durationFromNanos n = some d ∧ d.total = n := by
  have hsecs : n / nanosPerSec ≤ wordMax := Nat.le_trans (Nat.div_le_div_right h) (by decide)
  have hnanos : n % nanosPerSec < nanosPerSec := Nat.mod_lt _ (by decide)
  have hu64 : u64 (n / nanosPerSec) = n / nanosPerSec := Nat.mod_eq_of_lt (Nat.lt_of_le_of_lt hsecs (by decide))
  have hu32 : u32 (n % nanosPerSec) = n % nanosPerSec := Nat.mod_eq_of_lt (hnanos.trans (by decide))
  refine ⟨⟨n / nanosPerSec, n % nanosPerSec, hsecs, hnanos⟩, ?_, ?_⟩
  · simp only [durationFromNanos, hu64, hu32, Duration.new, dif_pos hnanos, dif_pos hsecs]
  · rw [Duration.total, Nat.mul_comm]
    exact Nat.div_add_mod n nanosPerSec

/-- Full jitter, in `[0, delay]`. -/
def fullJitter (draw : Nat → Nat → Nat) (delay : Duration) : Option Duration :=
  let ns := delay.asNanos
  if ns = 0 then some 0
  else (fastrand draw 0 ns).bind durationFromNanos

/-- Equal jitter, half of the delay and a draw from the other half. -/
def equalJitter (draw : Nat → Nat → Nat) (delay : Duration) : Option Duration :=
  let ns := delay.asNanos
  if ns = 0 then some 0
  else
    let half := ns / 2
    (fastrand draw 0 (ns - half)).bind fun jitter => durationFromNanos (u128 (half + jitter))

theorem fullJitter_spec (hdraw : InRange draw) (delay : Duration) : ∃ d, fullJitter draw delay = some d ∧ d ≤ delay := by
  by_cases hz : delay.asNanos = 0
  · exact ⟨0, if_pos hz, Duration.zero_le⟩
  · obtain ⟨k, hk, -, hle⟩ := fastrand_spec hdraw (Nat.zero_le delay.asNanos)
    rw [Duration.asNanos_eq] at hle
    obtain ⟨d, hd, ht⟩ := durationFromNanos_spec (Nat.le_trans hle delay.total_le_maximum)
    refine ⟨d, ?_, Duration.le_def.mpr (ht.trans_le hle)⟩
    simp only [fullJitter, if_neg hz, hk, Option.bind_some, hd]

theorem half_add_lt {j : Nat} (hj : j ≤ delay.total - delay.total / 2) :
    u128 (delay.total / 2 + j) = delay.total / 2 + j := by
  have ht : delay.total < 2 ^ 94 := Duration.total_lt
  refine Nat.mod_eq_of_lt ?_
  omega

theorem equalJitter_spec (hdraw : InRange draw) (delay : Duration) :
    ∃ d, equalJitter draw delay = some d ∧ delay.total / 2 ≤ d.total ∧ d ≤ delay := by
  by_cases hz : delay.asNanos = 0
  · refine ⟨0, if_pos hz, ?_, Duration.zero_le⟩
    rw [← Duration.asNanos_eq, hz]
    exact Nat.zero_le _
  · obtain ⟨j, hj, -, hle⟩ := fastrand_spec hdraw (Nat.zero_le (delay.asNanos - delay.asNanos / 2))
    rw [Duration.asNanos_eq] at hle
    have hsum : delay.total / 2 + j ≤ delay.total := by omega
    obtain ⟨d, hd, ht⟩ := durationFromNanos_spec (Nat.le_trans hsum delay.total_le_maximum)
    refine ⟨d, ?_, ?_, Duration.le_def.mpr (ht.trans_le hsum)⟩
    · have heq : u128 (delay.asNanos / 2 + j) = delay.total / 2 + j := by
        rw [Duration.asNanos_eq]
        exact half_add_lt hle
      calc equalJitter draw delay
          = (fastrand draw 0 (delay.asNanos - delay.asNanos / 2)).bind
              fun jitter => durationFromNanos (u128 (delay.asNanos / 2 + jitter)) := if_neg hz
        _ = durationFromNanos (u128 (delay.asNanos / 2 + j)) := by rw [hj, Option.bind_some]
        _ = some d := by rw [heq, hd]
    · rw [ht]
      exact Nat.le_add_right _ _

namespace JitterPolicy

def apply (draw : Nat → Nat → Nat) (delay : Duration) : JitterPolicy → Option Duration
  | .none => some delay
  | .randomizedBand => fullJitter draw delay
  | .full => fullJitter draw delay
  | .equal => equalJitter draw delay

def applyRandomizedBand (draw : Nat → Nat → Nat) (lower upperSeed max : Duration) (policy : JitterPolicy) :
    Option Duration :=
  let lower := min lower max
  if policy ≠ .randomizedBand then policy.apply draw lower
  else
    let upper := Max.max (min (upperSeed.saturatingMul 3) max) lower
    if upper ≤ lower then some lower
    else (fastrand draw lower.asNanos upper.asNanos).bind durationFromNanos

/-- The values the jitter of a base delay may take. The band is that of the
policy's own bounds. -/
def Ranged (first base max raw : Duration) : JitterPolicy → Prop
  | .none => raw = base
  | .equal => base.total / 2 ≤ raw.total ∧ raw.total ≤ base.total
  | .full => 0 ≤ raw.total ∧ raw.total ≤ base.total
  | .randomizedBand => first.total ≤ raw.total ∧ raw.total ≤ Nat.max first.total (Nat.min (3 * base.total) max.total)

theorem apply_spec (hdraw : InRange draw) (delay : Duration) (policy : JitterPolicy) :
    ∃ d, policy.apply draw delay = some d ∧ d ≤ delay ∧ (policy = .none → d = delay) ∧
      (policy = .equal → delay.total / 2 ≤ d.total) := by
  cases policy with
  | none => exact ⟨delay, rfl, le_refl _, fun _ => rfl, nofun⟩
  | full =>
      obtain ⟨d, hd, hle⟩ := fullJitter_spec hdraw delay
      exact ⟨d, hd, hle, nofun, nofun⟩
  | equal =>
      obtain ⟨d, hd, hhalf, hle⟩ := equalJitter_spec hdraw delay
      exact ⟨d, hd, hle, nofun, fun _ => hhalf⟩
  | randomizedBand =>
      obtain ⟨d, hd, hle⟩ := fullJitter_spec hdraw delay
      exact ⟨d, hd, hle, nofun, nofun⟩

theorem band_spec (hdraw : InRange draw) (hlower : lower ≤ max) (upperSeed : Duration) :
    ∃ d, applyRandomizedBand draw lower upperSeed max .randomizedBand = some d ∧
      Ranged lower upperSeed max d .randomizedBand ∧ d ≤ max := by
  have hupper : (Max.max (min (upperSeed.saturatingMul 3) max) lower).total =
      Nat.max lower.total (Nat.min (3 * upperSeed.total) max.total) := by
    have htop : max.total ≤ Duration.maximum.total := max.total_le_maximum
    rw [Duration.total_max, Duration.total_min, Duration.total_saturatingMul (by decide)]
    simp only [Nat.max_def, Nat.min_def]
    split_ifs <;> omega
  have hmin : min lower max = lower := min_eq_left hlower
  have hle : Nat.max lower.total (Nat.min (3 * upperSeed.total) max.total) ≤ max.total :=
    Nat.max_le.mpr ⟨hlower, Nat.min_le_right _ _⟩
  by_cases h : Max.max (min (upperSeed.saturatingMul 3) max) lower ≤ lower
  · refine ⟨lower, ?_, ⟨Nat.le_refl _, Nat.le_max_left _ _⟩, hlower⟩
    simp only [applyRandomizedBand, ne_eq, not_true_eq_false, if_false, hmin, if_pos h]
  · have hlt : lower.asNanos ≤ (Max.max (min (upperSeed.saturatingMul 3) max) lower).asNanos := by
      rw [Duration.asNanos_eq, Duration.asNanos_eq, hupper]
      exact Nat.le_max_left _ _
    obtain ⟨k, hk, hlo, hhi⟩ := fastrand_spec hdraw hlt
    rw [Duration.asNanos_eq] at hlo hhi
    rw [hupper] at hhi
    obtain ⟨d, hd, ht⟩ := durationFromNanos_spec (Nat.le_trans (Nat.le_trans hhi hle) max.total_le_maximum)
    refine ⟨d, ?_, ⟨hlo.trans_eq ht.symm, ht.trans_le hhi⟩, Duration.le_def.mpr (ht.trans_le (Nat.le_trans hhi hle))⟩
    simp only [applyRandomizedBand, ne_eq, not_true_eq_false, if_false, hmin, if_neg h, hk, Option.bind_some, hd]

end JitterPolicy

end Taskvisor.Policies.Jitter
