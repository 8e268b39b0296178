import Taskvisor.Registry.Steps

namespace Taskvisor.Registry.Bursts

open Lib Listener Steps

variable {cfg : RegistryConfig} {w w' : World} {a : World.Action} {branch : World.Branch} {mode : Mode}

/-- The step takes one completion identity to its handler. -/
def takesCompletion (w : World) : World.Action → Bool
  | .listen .completion => decide (w.mode = .selecting)
  | _ => false

/-- Turns without a command although one waits: control is silent, the runtime
is not cancelled, and none has been taken since `taken`. -/
structure Stretch (taken : List RegistryCommand) (w : World) : Prop where
  commands : w.commands ≠ []
  controls : w.controls = []
  running : w.runtimeCancelled = false
  taken : w.taken = taken

instance {taken : List RegistryCommand} : Decidable (Stretch taken w) :=
  decidable_of_iff (w.commands ≠ [] ∧ w.controls = [] ∧ w.runtimeCancelled = false ∧ w.taken = taken)
    ⟨fun ⟨h₁, h₂, h₃, h₄⟩ => ⟨h₁, h₂, h₃, h₄⟩, fun h => ⟨h.commands, h.controls, h.running, h.taken⟩⟩

theorem takeCommand_burst (h : w.takeCommand mode = some w') : w'.burst = 0 ∧ w'.mode = mode ∧ w'.taken ≠ w.taken := by
  unfold World.takeCommand at h
  split at h
  · cases h
  · cases h; exact ⟨rfl, rfl, by simp⟩

theorem takeControl_burst {modeOf : Nat → Mode} (h : w.takeControl modeOf = some w') :
    w'.burst = 0 ∧ ∃ fence, w'.mode = modeOf fence := by
  unfold World.takeControl at h
  split at h
  · cases h
  · next fence _ _ => cases h; exact ⟨rfl, fence, rfl⟩

theorem takeControl_none {modeOf : Nat → Mode} (h : w.controls = []) : w.takeControl modeOf = none := by
  rw [World.takeControl, h]

/-- The counter stays within its limit, and `select!` runs below it. -/
structure Paced (w : World) : Prop where
  burst : w.burst ≤ completionBurstLimit
  selecting : w.mode = .selecting → w.burst < completionBurstLimit

theorem Paced.reset (hburst : w'.burst = 0) : Paced w' :=
  ⟨by rw [hburst]; exact Nat.zero_le _, fun _ => by rw [hburst]; decide⟩

theorem Paced.keep (h : Paced w) (hburst : w'.burst = w.burst) (hmode : w'.mode ≠ .selecting) : Paced w' :=
  ⟨by rw [hburst]; exact h.burst, fun he => absurd he hmode⟩

theorem Paced.fence (h : Paced w) {fence : Nat} {back : Mode} (hback : back ≠ .selecting) :
    Paced (w.fenceStep fence mode back) := by
  unfold World.fenceStep
  cases ht : w.takeCommand mode with
  | none => exact h.keep rfl hback
  | some v => exact .reset (takeCommand_burst ht).1

theorem Paced.loopTop (h : Paced w) (hs : w.loopTop = some w') : Paced w' := by
  unfold World.loopTop at hs
  split at hs
  · cases hs; exact h.keep rfl fun he => nomatch he
  · split at hs
    · cases ht : w.takeControl .fencing with
      | some v => rw [ht] at hs; cases hs; exact .reset (takeControl_burst ht).1
      | none =>
          rw [ht] at hs
          cases hc : w.takeCommand .looping with
          | some v => rw [hc] at hs; cases hs; exact .reset (takeCommand_burst hc).1
          | none => rw [hc] at hs; cases hs; exact .reset rfl
    · next hlow => cases hs; exact ⟨h.burst, fun _ => Nat.lt_of_not_le hlow⟩

theorem Paced.select (h : Paced w) (hmode : w.mode = .selecting) (hs : w.select branch = some w') : Paced w' := by
  cases branch with
  | cancelled =>
      simp only [World.select] at hs
      split at hs
      · cases hs; exact h.keep rfl fun he => by cases he
      · cases hs
  | completion =>
      simp only [World.select, World.takeCompletion] at hs
      split at hs
      · cases hs
      · cases hs; exact ⟨h.selecting hmode, fun he => by cases he⟩
  | control => exact .reset (takeControl_burst hs).1
  | command => exact .reset (takeCommand_burst hs).1

theorem Paced.listen (h : Paced w) (hs : w.listen branch = some w') : Paced w' := by
  unfold World.listen at hs
  split at hs
  · exact h.loopTop hs
  · next hmode => exact h.select hmode hs
  · cases hs; exact h.fence (by decide)
  · cases ht : w.takeCommand .draining with
    | some v => rw [ht] at hs; cases hs; exact .reset (takeCommand_burst ht).1
    | none => rw [ht] at hs; cases hs; exact h.keep rfl fun he => nomatch he
  · cases ht : w.takeControl .drainFencing with
    | some v => rw [ht] at hs; cases hs; exact .reset (takeControl_burst ht).1
    | none => rw [ht] at hs; cases hs; exact h.keep rfl fun he => nomatch he
  · cases hs; exact h.fence (by decide)
  · cases hs; exact h.keep rfl fun he => nomatch he
  · split at hs
    · cases hs
    · cases hs; exact h.keep rfl fun he => nomatch he
  · split at hs
    · cases hs; exact h.keep rfl fun he => nomatch he
    · cases hs
  · cases hs

/-- Between its turns the listener's place and its counter stay. -/
theorem step_place (hs : Stepped cfg w a w') (hlisten : ∀ branch, a ≠ .listen branch) :
    w'.burst = w.burst ∧ w'.mode = w.mode := by
  cases hs with
  | call key caller v hk hcall => cases hcall <;> exact ⟨rfl, rfl⟩
  | shutdownStep instr todo v htodo hstep => cases shutdownStep_cases hstep <;> exact ⟨rfl, rfl⟩
  | listen branch => exact absurd rfl (hlisten branch)
  | work job v hjob hwork => cases hwork <;> exact ⟨rfl, rfl⟩
  | _ => exact ⟨rfl, rfl⟩

theorem paced_of_reachable (h : (machine cfg).Reachable w) : Paced w := by
  refine h.invariant (.reset rfl) fun w a w' _ hp hs => ?_
  have hplace (hlisten : ∀ branch, a ≠ .listen branch) : Paced w' := by
    obtain ⟨hburst, hmode⟩ := step_place (step_cases hs) hlisten
    exact ⟨by rw [hburst]; exact hp.burst, fun he => by rw [hburst]; exact hp.selecting (hmode ▸ he)⟩
  cases a with
  | listen branch =>
      simp only [machine, World.step] at hs
      split at hs
      · cases hs
      · exact hp.listen hs
  | _ => exact hplace fun _ he => by cases he

section Stretches

variable {taken : List RegistryCommand} (h : Stretch taken w) (h' : Stretch taken w')

include h h'

theorem Stretch.no_command (hs : w.takeCommand mode = some w') : False :=
  (takeCommand_burst hs).2.2 (h'.taken.trans h.taken.symm)

theorem Stretch.no_fence {fence : Nat} {back : Mode} (hs : w' = w.fenceStep fence mode back) : False := by
  unfold World.fenceStep at hs
  cases ht : w.takeCommand mode with
  | none => exact h.commands (takeCommand_none ht)
  | some v => rw [ht] at hs; cases hs; exact h.no_command h' ht

/-- At its limit the loop head takes the command that waits, so the counter
never starts again inside a stretch. -/
theorem Stretch.loopTop (hs : w.loopTop = some w') : w'.burst = w.burst := by
  unfold World.loopTop at hs
  rw [h.running, takeControl_none h.controls] at hs
  simp only [Bool.false_eq_true, if_false] at hs
  split at hs
  · cases hc : w.takeCommand .looping with
    | some v => rw [hc] at hs; cases hs; exact (h.no_command h' hc).elim
    | none => exact absurd (takeCommand_none hc) h.commands
  · cases hs; rfl

theorem Stretch.listen (hs : w.listen branch = some w') :
    w'.burst = w.burst + if takesCompletion w (.listen branch) then 1 else 0 := by
  have hother (hmode : w.mode ≠ .selecting) : takesCompletion w (.listen branch) = false := by
    cases branch <;> first | rfl | exact decide_eq_false hmode
  unfold World.listen at hs
  split at hs
  · next hmode => rw [hother (by rw [hmode]; decide)]; exact h.loopTop h' hs
  · next hmode =>
    cases branch with
    | cancelled =>
        simp only [World.select, h.running] at hs
        cases hs
    | completion =>
        simp only [World.select, World.takeCompletion] at hs
        split at hs
        · cases hs
        · cases hs; simp [takesCompletion, hmode]
    | control => rw [World.select, takeControl_none h.controls] at hs; cases hs
    | command => exact (h.no_command h' hs).elim
  · cases hs; exact (h.no_fence h' rfl).elim
  · cases ht : w.takeCommand .draining with
    | some v => rw [ht] at hs; cases hs; exact (h.no_command h' ht).elim
    | none => exact absurd (takeCommand_none ht) h.commands
  · next hmode =>
    rw [takeControl_none h.controls] at hs
    cases hs
    rw [hother (by rw [hmode]; decide)]
    rfl
  · cases hs; exact (h.no_fence h' rfl).elim
  · next hmode => cases hs; rw [hother (by rw [hmode]; decide)]; rfl
  · next hmode =>
    split at hs
    · cases hs
    · cases hs; rw [hother (by rw [hmode]; decide)]; rfl
  · next hmode =>
    split at hs
    · cases hs; rw [hother (by rw [hmode]; decide)]; rfl
    · cases hs
  · cases hs

theorem Stretch.step (hs : w.step cfg a = some w') : w'.burst = w.burst + if takesCompletion w a then 1 else 0 := by
  have hplace (hlisten : ∀ branch, a ≠ .listen branch) (hcount : takesCompletion w a = false) :
      w'.burst = w.burst + if takesCompletion w a then 1 else 0 := by
    rw [hcount]
    exact (step_place (step_cases hs) hlisten).1
  cases a with
  | listen branch =>
      simp only [World.step] at hs
      split at hs
      · cases hs
      · exact h.listen h' hs
  | _ => exact hplace (fun _ he => by cases he) rfl

end Stretches

/-- The completions of a stretch and those before it stay within one burst. -/
theorem stretch_charged {v : List World.Action} (h : (machine cfg).Reachable w) (hrun : (machine cfg).after w v = some w')
    (hstretch : ∀ u ∈ (machine cfg).visited w v, Stretch w.taken u) :
    (machine cfg).charged takesCompletion w v ≤ completionBurstLimit := by
  have hbudget := h.charged_le takesCompletion (fun u => completionBurstLimit - u.burst)
    (fun u a u' hu hst hst' hs => by
      have hburst := hst.step hst' hs
      have hpaced := (paced_of_reachable (.next a hu hs)).burst
      omega) hrun hstretch
  omega

end Taskvisor.Registry.Bursts
