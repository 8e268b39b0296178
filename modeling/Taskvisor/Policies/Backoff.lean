import Taskvisor.Policies.Jitter

namespace Taskvisor.Policies.Backoff

open Lib Jitter

/-- The operations of a floating-point format that the policy uses. `scale` is
the conversion of `first * factor ^ n` to a duration, which may fail. -/
structure FloatOps (F : Type) where
  isFinite : F → Bool
  belowOne : F → Bool
  one : F
  two : F
  scale : Duration → F → Nat → Option Duration
  one_valid : isFinite one = true ∧ belowOne one = false
  two_valid : isFinite two = true ∧ belowOne two = false

variable {F : Type} {ops : FloatOps F} {draw : Nat → Nat → Nat}

/-- A finite factor of at least one never scales a delay down to zero. -/
def FloatOps.Growing (ops : FloatOps F) : Prop :=
  ∀ first factor n, ops.isFinite factor = true → ops.belowOne factor = false → first ≠ 0 →
    ops.scale first factor n ≠ some 0

inductive BackoffError (F : Type)
  | invalidFactor (factor : F)
  | firstExceedsMax (first max : Duration)

/-- A delay policy, with the bounds that its constructors keep. -/
structure BackoffPolicy (ops : FloatOps F) where
  jitter : JitterPolicy
  first : Duration
  floor : Duration
  max : Duration
  factor : F
  first_le : first ≤ max
  floor_le : floor ≤ max
  factor_valid : ops.isFinite factor = true ∧ ops.belowOne factor = false

def defaultMax : Duration := .fromSecs 30

def minNonzeroDelay : Duration := .fromMillis 1 one_le_wordMax

namespace BackoffPolicy

def default : BackoffPolicy ops where
  jitter := .equal
  first := .fromMillis 200
  floor := 0
  max := defaultMax
  factor := ops.two
  first_le := by decide
  floor_le := Duration.zero_le
  factor_valid := ops.two_valid

def new (ops : FloatOps F) (first max : Duration) (factor : F) (jitter : JitterPolicy) :
    Except (BackoffError F) (BackoffPolicy ops) :=
  if hf : ops.isFinite factor = true ∧ ops.belowOne factor = false then
    if hm : first ≤ max then .ok ⟨jitter, first, 0, max, factor, hm, Duration.zero_le, hf⟩
    else .error (.firstExceedsMax first max)
  else .error (.invalidFactor factor)

def constant (delay : Duration) : BackoffPolicy ops where
  jitter := .none
  first := delay
  floor := 0
  max := Max.max delay defaultMax
  factor := ops.one
  first_le := le_max_left _ _
  floor_le := Duration.zero_le
  factor_valid := ops.one_valid

def exponential (first : Duration) : BackoffPolicy ops where
  jitter := .none
  first
  floor := 0
  max := Max.max first defaultMax
  factor := ops.two
  first_le := le_max_left _ _
  floor_le := Duration.zero_le
  factor_valid := ops.two_valid

def withMax (p : BackoffPolicy ops) (max : Duration) : BackoffPolicy ops :=
  { p with max, first := min p.first max, floor := min p.floor max, first_le := min_le_right _ _,
           floor_le := min_le_right _ _ }

def withJitter (p : BackoffPolicy ops) (jitter : JitterPolicy) : BackoffPolicy ops := { p with jitter }

def withFloor (p : BackoffPolicy ops) (floor : Duration) : BackoffPolicy ops :=
  { p with floor := min floor p.max, floor_le := min_le_right _ _ }

/-- The delay before jitter and floors. -/
def base (p : BackoffPolicy ops) (retryIndex : Nat) : Duration :=
  if p.first.isZero then 0 else min ((ops.scale p.first p.factor retryIndex).getD p.max) p.max

/-- The delay between jitter and floors. -/
def jittered (p : BackoffPolicy ops) (draw : Nat → Nat → Nat) (retryIndex : Nat) : Option Duration :=
  match p.jitter with
  | .randomizedBand => p.jitter.applyRandomizedBand draw (min p.first p.max) (p.base retryIndex) p.max
  | _ => p.jitter.apply draw (p.base retryIndex)

def floored (p : BackoffPolicy ops) (base delay : Duration) : Duration :=
  let floored := Max.max delay p.floor
  if base.isZero then floored else Max.max floored (min minNonzeroDelay p.max)

def delayForRetry (p : BackoffPolicy ops) (draw : Nat → Nat → Nat) (retryIndex : Nat) : Option Duration :=
  (p.jittered draw retryIndex).map (p.floored (p.base retryIndex))

variable {p : BackoffPolicy ops} {n : Nat} {raw : Duration}

theorem base_le (p : BackoffPolicy ops) (n : Nat) : p.base n ≤ p.max := by
  unfold base
  split
  · exact Duration.zero_le
  · exact min_le_right _ _

theorem base_zero (h : p.first = 0) : p.base n = 0 := if_pos (Duration.isZero_iff.mpr h)

theorem base_pos (hscale : ops.Growing) (h : p.first ≠ 0) : p.base n ≠ 0 := by
  have hmax : p.max ≠ 0 := fun hm => h (le_antisymm (hm ▸ p.first_le) Duration.zero_le)
  have hbase : p.base n = min ((ops.scale p.first p.factor n).getD p.max) p.max :=
    if_neg fun hz => h (Duration.isZero_iff.mp hz)
  rw [hbase]
  rcases le_total ((ops.scale p.first p.factor n).getD p.max) p.max with hm | hm
  · rw [min_eq_left hm]
    cases hs : ops.scale p.first p.factor n with
    | none => exact hmax
    | some d =>
        exact fun hd => hscale p.first p.factor n p.factor_valid.1 p.factor_valid.2 h (hs.trans (congrArg some hd))
  · rw [min_eq_right hm]
    exact hmax

/-- The jitter keeps the delay in the range of its mode and below the cap. -/
theorem jittered_spec (hdraw : InRange draw) (p : BackoffPolicy ops) (n : Nat) :
    ∃ raw, p.jittered draw n = some raw ∧ p.jitter.Ranged p.first (p.base n) p.max raw ∧ raw ≤ p.max := by
  obtain ⟨d, hd, hle, hnone, hequal⟩ := p.jitter.apply_spec hdraw (p.base n)
  have hmax := le_trans hle (base_le p n)
  cases hj : p.jitter with
  | none => exact ⟨d, by simpa only [jittered, hj] using hd, hnone hj, hmax⟩
  | full => exact ⟨d, by simpa only [jittered, hj] using hd, ⟨Nat.zero_le _, hle⟩, hmax⟩
  | equal => exact ⟨d, by simpa only [jittered, hj] using hd, ⟨hequal hj, hle⟩, hmax⟩
  | randomizedBand =>
      obtain ⟨e, he, hrange, hcap⟩ := JitterPolicy.band_spec hdraw p.first_le (p.base n)
      exact ⟨e, by simpa only [jittered, hj, min_eq_left p.first_le] using he, hrange, hcap⟩

theorem delayForRetry_isSome (hdraw : InRange draw) (p : BackoffPolicy ops) (n : Nat) :
    (p.delayForRetry draw n).isSome = true := by
  obtain ⟨raw, hraw, -⟩ := p.jittered_spec hdraw n
  simp [delayForRetry, hraw]

/-- The delay of a policy whose draws are in range. -/
def delay (p : BackoffPolicy ops) (draw : {draw : Nat → Nat → Nat // InRange draw}) (retryIndex : Nat) : Duration :=
  (p.delayForRetry draw.val retryIndex).get (delayForRetry_isSome draw.property p retryIndex)

/-- A zero first delay leaves nothing for the jitter to draw from. -/
theorem jittered_zero (h : p.first = 0) (hr : p.jitter.Ranged p.first (p.base n) p.max raw) : raw = 0 := by
  rw [base_zero h, h] at hr
  refine le_antisymm ?_ Duration.zero_le
  cases hj : p.jitter with
  | none => exact le_of_eq (by simpa [hj, JitterPolicy.Ranged] using hr)
  | full => exact (hj ▸ hr).2
  | equal => exact (hj ▸ hr).2
  | randomizedBand =>
      have hband := (hj ▸ hr : JitterPolicy.Ranged 0 0 p.max raw .randomizedBand).2
      simpa [Duration.le_def] using hband

end BackoffPolicy

/-- What a delay keeps of its policy, `raw` being the delay before the floors. -/
structure Bounds (p : BackoffPolicy ops) (base raw delay : Duration) : Prop where
  first_le : p.first ≤ p.max
  floor_le_max : p.floor ≤ p.max
  range : p.jitter.Ranged p.first base p.max raw
  floor_le : p.floor ≤ delay
  le_max : delay ≤ p.max
  safety : 0 < p.first → min minNonzeroDelay p.max ≤ delay
  zero : p.first = 0 → delay = p.floor
  unfloored : p.floor ≤ raw → min minNonzeroDelay p.max ≤ raw → delay = raw

/-- The machine arithmetic is that of the numbers. -/
structure Exact : Prop where
  asNanos (d : Duration) : d.asNanos = d.total
  durationFromNanos (nanos : Nat) :
    nanos ≤ Duration.maximum.total → ∃ d, Jitter.durationFromNanos nanos = some d ∧ d.total = nanos
  saturatingMul (d : Duration) : (d.saturatingMul 3).total = min (3 * d.total) Duration.maximum.total
  equalJitter (d : Duration) (jitter : Nat) :
    jitter ≤ d.total - d.total / 2 → u128 (d.total / 2 + jitter) = d.total / 2 + jitter

theorem exact_arithmetic : Exact where
  asNanos := fun _ => Duration.asNanos_eq
  durationFromNanos := fun _ h => durationFromNanos_spec h
  saturatingMul := fun d => by rw [Duration.total_saturatingMul (by decide), Nat.mul_comm]
  equalJitter := fun _ _ h => half_add_lt h

theorem delay_bounds (ops : FloatOps F) (hscale : ops.Growing) (draw : Nat → Nat → Nat) (hdraw : InRange draw)
    (p : BackoffPolicy ops) (n : Nat) :
    (∃ raw delay, p.jittered draw n = some raw ∧ p.delayForRetry draw n = some delay ∧
      Bounds p (p.base n) raw delay) ∧ Exact := by
  obtain ⟨raw, hraw, hrange, hcap⟩ := p.jittered_spec hdraw n
  refine ⟨⟨raw, p.floored (p.base n) raw, hraw, by rw [BackoffPolicy.delayForRetry, hraw, Option.map_some], ?_⟩,
    exact_arithmetic⟩
  have hfloored : Max.max raw p.floor ≤ p.max := max_le hcap p.floor_le
  by_cases hz : p.first = 0
  · have heq : p.floored (p.base n) raw = p.floor := by
      rw [BackoffPolicy.floored, if_pos (Duration.isZero_iff.mpr (BackoffPolicy.base_zero hz)),
        BackoffPolicy.jittered_zero hz hrange, max_eq_right Duration.zero_le]
    rw [heq]
    refine ⟨p.first_le, p.floor_le, hrange, le_refl _, p.floor_le, fun hp => ?_, fun _ => rfl, fun hf _ => ?_⟩
    · exact absurd hz (Duration.pos_iff.mp hp)
    · rw [BackoffPolicy.jittered_zero hz hrange] at hf ⊢
      exact le_antisymm hf Duration.zero_le
  · have heq : p.floored (p.base n) raw = Max.max (Max.max raw p.floor) (min minNonzeroDelay p.max) :=
      if_neg fun hb => BackoffPolicy.base_pos hscale hz (Duration.isZero_iff.mp hb)
    rw [heq]
    refine ⟨p.first_le, p.floor_le, hrange, ?_, ?_, fun _ => le_max_right _ _, fun hf => absurd hf hz, fun hf hm => ?_⟩
    · exact le_trans (le_max_right _ _) (le_max_left _ _)
    · exact max_le hfloored (min_le_right _ _)
    · rw [max_eq_left hf, max_eq_left hm]

/-- Factors that are whole numbers, with an exact product. -/
def wholeFactors : FloatOps Nat where
  isFinite := fun _ => true
  belowOne := fun factor => factor == 0
  one := 1
  two := 2
  scale := fun first factor n =>
    if first.total * factor ^ n ≤ Duration.maximum.total then durationFromNanos (first.total * factor ^ n) else none
  one_valid := ⟨rfl, rfl⟩
  two_valid := ⟨rfl, rfl⟩

theorem wholeFactors_growing : wholeFactors.Growing := by
  intro first factor n _ hfactor hfirst hs
  by_cases hle : first.total * factor ^ n ≤ Duration.maximum.total
  · obtain ⟨d, hd, ht⟩ := durationFromNanos_spec hle
    have hzero : d = 0 := Option.some_inj.mp (hd.symm.trans ((if_pos hle).symm.trans hs))
    have hpos : 0 < first.total := Duration.pos_iff.mpr hfirst
    have hfactor : 0 < factor := Nat.pos_of_ne_zero (by simpa [wholeFactors] using hfactor)
    have hprod : 0 < first.total * factor ^ n := Nat.mul_pos hpos (Nat.pow_pos hfactor)
    rw [← ht, hzero] at hprod
    exact absurd hprod (Nat.lt_irrefl 0)
  · exact nomatch (if_neg hle).symm.trans hs

def tenthSecond : Duration := .fromMillis 100

/-- The documented policy: 100 ms doubling up to 10 s, with equal jitter. -/
def documented : BackoffPolicy wholeFactors :=
  ((BackoffPolicy.exponential tenthSecond).withMax (.fromSecs 10)).withJitter .equal

theorem delay_bounds_documented :
    ∃ raw delay, documented.delayForRetry (fun lo _ => lo) 2 = some delay ∧
      Bounds documented (.fromMillis 400) raw delay := by
  have hbase : documented.base 2 = .fromMillis 400 := by decide +kernel
  obtain ⟨⟨raw, delay, -, hdelay, hb⟩, -⟩ :=
    delay_bounds wholeFactors wholeFactors_growing (fun lo _ => lo) inRange_lowest documented 2
  exact ⟨raw, delay, hdelay, hbase ▸ hb⟩

end Taskvisor.Policies.Backoff
