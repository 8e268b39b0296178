import Taskvisor.Shutdown.Verdict

namespace Taskvisor.Shutdown.Lifecycle

open Lib Owner Coordinator
open World (Action)

variable {grace : Nat} {w w' : World} {key : Nat} {c : Caller}

/-- What the place of a caller says about its run claim: held before the
commit, gone after it, and either in a wait for the outcome. -/
def due : Pc → Option Bool
  | .preflight => some true
  | .emptyCheck => some true
  | .emptyStart => some true
  | .select => some true
  | .triggeredStart _ => some true
  | .reserve => some true
  | .check => some true
  | .batchStart => some true
  | .waitStarted => none
  | .read => none
  | .borrow _ => none
  | .changed _ => none
  | _ => some false

def Fits (pc : Pc) (claimed : Bool) : Prop := ∀ b, due pc = some b → claimed = b

/-- The run is committed and has not turned to its shutdown. -/
def runs : Pc → Bool
  | .admission => true
  | .reply => true
  | .drive => true
  | _ => false

def claims (w : World) : Nat := Table.total (fun c => c.claimed.toNat) w.callers

/-- What a step of a caller does to the claims. -/
inductive Moved (w : World) (key : Nat) (c : Caller) (w' : World) : Prop
  | walks (pc : Pc) (hc : w'.callers = w.callers.insert key { c with pc }) (hr : w'.running = w.running)
      (hfits : Fits c.pc c.claimed → Fits pc c.claimed) (hruns : runs pc = true → runs c.pc = true)
  | takes (hpc : c.pc = .acquire) (hfree : w.running = false)
      (hc : w'.callers = w.callers.insert key { c with claimed := true, pc := .preflight }) (hr : w'.running = true)
  | commits (pc : Pc) (hdue : due c.pc = some true) (hafter : Fits pc false)
      (hc : w'.callers = w.callers.insert key { c with claimed := false, pc }) (hr : w'.running = w.running)
      (hlaunched : w'.startup = true ∨ w'.shared.shuttingDown = true)
  | leaves (hc : w'.callers = w.callers.erase key) (hr : w'.running = (w.running && !c.claimed))

/-- Workers once launched stay launched, and a shutdown is not taken back. -/
structure Grown (w w' : World) : Prop where
  startup : w.startup = true → w'.startup = true
  shuttingDown : w.shared.shuttingDown = true → w'.shared.shuttingDown = true

theorem Grown.same (hstartup : w'.startup = w.startup) (hshut : w'.shared.shuttingDown = w.shared.shuttingDown) :
    Grown w w' :=
  ⟨fun h => hstartup.trans h, fun h => hshut.trans h⟩

theorem Moved.ite {cond : Bool} {w₁ w₂ : World} (h₁ : Moved w key c w₁) (h₂ : Moved w key c w₂) :
    Moved w key c (if cond then w₁ else w₂) := by
  cases cond
  · exact h₂
  · exact h₁

theorem moved_on {before pc : Pc} (hpc : c.pc = before) (hc : w'.callers = w.callers.insert key { c with pc })
    (hr : w'.running = w.running) (hdue : due before = due pc ∨ due pc = none)
    (hruns : (runs pc && !runs before) = false) : Moved w key c w' := by
  subst hpc
  refine .walks pc hc hr (fun hfits b hb => ?_) fun hr => ?_
  · rcases hdue with hdue | hdue
    · exact hfits b (hdue.trans hb)
    · rw [hdue] at hb
      cases hb
  · simpa [hr] using hruns

theorem moved_commit {pc : Pc} {startup : Bool} (hdue : due c.pc = some true) (hafter : (due pc == some true) = false)
    (hlaunched : startup = true ∨ w.shared.shuttingDown = true) :
    Moved w key c (({ w with startup } : World).commit key c pc) := by
  refine .commits pc hdue (fun b hb => ?_) rfl rfl hlaunched
  cases b with
  | true => rw [hb] at hafter; cases hafter
  | false => rfl

theorem moved_begin {trigger : ShutdownTrigger} {op : Nat} {runtime : Bool} {stage : BeginStage}
    (hpc : c.pc = .begin trigger op runtime stage) : Moved w key c (w.beginStep key c trigger op runtime stage) := by
  cases stage with
  | launch =>
      cases runtime <;> exact moved_on hpc rfl rfl (.inr rfl) rfl
  | _ => exact moved_on hpc rfl rfl (.inl rfl) rfl

/-- A caller keeps its claim, takes the free one, commits it, or leaves with
it. -/
theorem moved {choice : Choice} (hs : w.call key c choice = some w') : Moved w key c w' := by
  unfold World.call at hs
  split at hs
  case h_1 hpc =>
    split at hs
    · cases hs; exact .leaves rfl rfl
    · next hrunning => cases hs; exact .takes hpc (Bool.eq_false_iff.mpr hrunning) rfl rfl
  case h_2 hpc => cases hs; cases c.empty <;> exact moved_on hpc rfl rfl (.inl rfl) rfl
  case h_4 hpc | h_13 hpc =>
    split at hs
    · next hclosed => cases hs; exact moved_commit (by rw [hpc]; rfl) rfl (.inr hclosed)
    · cases hs; exact moved_on hpc rfl rfl (.inl rfl) rfl
  case h_5 hpc | h_9 hpc | h_14 hpc => cases hs; exact moved_commit (by rw [hpc]; rfl) rfl (.inl rfl)
  case h_7 hpc => cases hs; cases w.started <;> first | exact moved_on hpc rfl rfl (.inl rfl) rfl | exact moved_on hpc rfl rfl (.inr rfl) rfl
  case h_8 hpc | h_17 hpc | h_25 hpc =>
    split at hs
    · cases hs; exact moved_on hpc rfl rfl (.inl rfl) rfl
    · cases hs
  case h_16 hpc | h_24 hpc =>
    split at hs
    · cases hs; exact moved_on hpc rfl rfl (.inr rfl) rfl
    · cases hs
  case h_11 hpc | h_18 hpc | h_21 hpc | h_26 hpc => cases hs; exact moved_on hpc rfl rfl (.inl rfl) rfl
  case h_19 hpc | h_22 hpc => cases hs; exact .ite (moved_on hpc rfl rfl (.inr rfl) rfl) (.leaves rfl rfl)
  case h_27 hpc =>
    split at hs
    · cases hs
    · cases hs; exact moved_on hpc rfl rfl (.inl rfl) rfl
  case h_28 hpc =>
    split at hs
    · cases hs; exact moved_on hpc rfl rfl (.inr rfl) rfl
    · cases hs; exact moved_on hpc rfl rfl (.inl rfl) rfl
  case h_29 hpc => cases hs; exact moved_begin hpc
  case h_30 hpc =>
    split at hs
    · cases hs; exact moved_on hpc rfl rfl (.inl rfl) rfl
    · cases hs
  case h_31 hpc =>
    split at hs
    · cases hs
    · split at hs
      · cases hs; exact moved_on hpc rfl rfl (.inl rfl) rfl
      · cases hs; exact .leaves rfl rfl
  case h_32 hpc =>
    split at hs
    · cases hs; exact .leaves rfl rfl
    · cases hs; exact moved_on hpc rfl rfl (.inl rfl) rfl
  case h_33 hpc =>
    split at hs
    · split at hs
      · cases hs; exact moved_on hpc rfl rfl (.inl rfl) rfl
      · split at hs
        · cases hs
        · cases hs; exact .leaves rfl rfl
    · cases hs
  case h_34 => cases hs
  all_goals cases hs; exact .leaves rfl rfl

theorem begin_grown {trigger : ShutdownTrigger} {op : Nat} {runtime : Bool} {stage : BeginStage} :
    Grown w (w.beginStep key c trigger op runtime stage) := by
  cases stage with
  | mark => exact ⟨fun h => h, fun _ => rfl⟩
  | launch => cases runtime <;> exact ⟨fun h => h, fun h => h⟩
  | _ => exact .same rfl rfl

theorem call_grown {choice : Choice} (hs : w.call key c choice = some w') : Grown w w' := by
  unfold World.call at hs
  split at hs
  case h_29 => cases hs; exact begin_grown
  case h_19 | h_22 => cases hs; cases w.started <;> exact .same rfl rfl
  case h_5 | h_9 | h_14 => cases hs; exact ⟨fun _ => rfl, fun h => h⟩
  all_goals repeat' split at hs
  all_goals cases hs
  all_goals exact .same rfl rfl

def calls : Action → Bool
  | .call .. => true
  | _ => false

/-- A step moves one caller, lets one in, or concerns none. -/
inductive Stepped (w : World) (w' : World) : Action → Prop
  | moves {key : Nat} {choice : Choice} {c : Caller} (hk : w.callers.lookup key = some c) (h : Moved w key c w') :
      Stepped w w' (.call key choice)
  | drops {key : Nat} {c : Caller} (hk : w.callers.lookup key = some c) (hc : w'.callers = w.callers.erase key)
      (hr : w'.running = (w.running && !c.claimed)) : Stepped w w' (.cancel key)
  | enters {a : Action} (c : Caller) (hidle : c.claimed = false) (hdue : due c.pc = some false)
      (hc : w'.callers = w.callers.insert w.nextCaller c) (hr : w'.running = w.running) 
      (ha : calls a = false) : Stepped w w' a
  | rests {a : Action} (hc : w'.callers = w.callers) (hr : w'.running = w.running) (ha : calls a = false) :
      Stepped w w' a

theorem stepped {a : Action} (hs : w.step grace a = some w') : Stepped w w' a := by
  cases a with
  | call key choice =>
      obtain ⟨c, hk, hc⟩ := Option.bind_eq_some_iff.mp hs
      exact .moves hk (moved hc)
  | cancel key =>
      obtain ⟨c, hk, hc⟩ := Option.bind_eq_some_iff.mp hs
      split at hc
      · cases hc; exact .drops hk rfl rfl
      · cases hc
  | shutdown | runStatic kind empty =>
      simp only [World.step, World.enter] at hs
      split at hs
      · cases hs
      · cases hs; exact .enters _ rfl rfl rfl rfl rfl
  | owner op answer =>
      obtain ⟨t, ht, hmap⟩ := Option.bind_eq_some_iff.mp hs
      obtain ⟨⟨shared, t'⟩, hstep, rfl⟩ := Option.map_eq_some_iff.mp hmap
      exact .rests rfl rfl rfl
  | publish op =>
      obtain ⟨t, ht, hp⟩ := Option.bind_eq_some_iff.mp hs
      split at hp
      · cases hp; exact .rests rfl rfl rfl
      · cases hp
  | lose op =>
      obtain ⟨t, ht, rfl⟩ := Option.map_eq_some_iff.mp hs
      exact .rests rfl rfl rfl
  | claim task name => cases hs; exact .rests rfl rfl rfl
  | finish task => cases hs; exact .rests rfl rfl rfl
  | abandonStep =>
      simp only [World.step] at hs
      split at hs
      · next instr rest _ => cases hs; cases instr <;> exact .rests rfl rfl rfl
      · cases hs
  | share | release =>
      simp only [World.step] at hs
      repeat' split at hs
      all_goals cases hs
      all_goals exact .rests rfl rfl rfl

theorem step_grown (h : (machine grace).Reachable w) {a : Action} (hs : w.step grace a = some w') : Grown w w' := by
  cases a with
  | call key choice =>
      obtain ⟨c, -, hc⟩ := Option.bind_eq_some_iff.mp hs
      exact call_grown hc
  | cancel key =>
      obtain ⟨c, -, hc⟩ := Option.bind_eq_some_iff.mp hs
      split at hc
      · cases hc; exact .same rfl rfl
      · cases hc
  | owner op answer =>
      obtain ⟨t, ht, hmap⟩ := Option.bind_eq_some_iff.mp hs
      obtain ⟨⟨shared, t'⟩, hstep, rfl⟩ := Option.map_eq_some_iff.mp hmap
      have hsound := Verdict.sound_of_reachable h
      obtain ⟨-, -, hcoherent, -, -⟩ := hsound.tasked ht
      exact ⟨fun hx => hx, (hcoherent.step hsound.aligned hstep).shuttingDown⟩
  | publish op =>
      obtain ⟨t, ht, hp⟩ := Option.bind_eq_some_iff.mp hs
      split at hp
      · cases hp; exact .same rfl rfl
      · cases hp
  | lose op =>
      obtain ⟨t, ht, rfl⟩ := Option.map_eq_some_iff.mp hs
      exact .same rfl rfl
  | claim task name => cases hs; exact .same rfl rfl
  | finish task => cases hs; exact .same rfl rfl
  | abandonStep =>
      simp only [World.step] at hs
      split at hs
      · next instr rest _ => cases hs; cases instr <;> first | exact .same rfl rfl | exact ⟨fun hx => hx, fun _ => rfl⟩
      · cases hs
  | share | release | shutdown | runStatic =>
      simp only [World.step, World.enter] at hs
      repeat' split at hs
      all_goals cases hs
      all_goals exact .same rfl rfl

theorem claims_update {c' : Caller} (hk : w.callers.lookup key = some c) (hc : w'.callers = w.callers.insert key c') :
    claims w' + c.claimed.toNat = claims w + c'.claimed.toNat := by
  rw [claims, hc]
  exact Table.total_update _ hk c'

theorem claims_erase (hk : w.callers.lookup key = some c) (hc : w'.callers = w.callers.erase key) :
    claims w' + c.claimed.toNat = claims w := by
  rw [claims, hc, claims, Table.total_of_lookup _ hk, Nat.add_comm]

/-- The caller of the step comes to have a property. -/
def gains (grace : Nat) (p : Caller → Bool) (w : World) : Action → Bool
  | .call key choice => (w.callers.lookup key).any (fun c => !p c) &&
      (w.step grace (.call key choice)).any fun w' => (w'.callers.lookup key).any p
  | _ => false

/-- A run claim is committed. -/
def commits (grace : Nat) : World → Action → Bool := gains grace fun c => !c.claimed

/-- A run goes on to its tasks, or to its wait without tasks. -/
def starts (grace : Nat) : World → Action → Bool := gains grace fun c => runs c.pc

theorem gains_call {p : Caller → Bool} {choice : Choice} (hk : w.callers.lookup key = some c)
    (hs : w.step grace (.call key choice) = some w') :
    gains grace p w (.call key choice) = (!p c && (w'.callers.lookup key).any p) := by
  rw [gains, hk, hs]
  rfl

theorem gains_other {p : Caller → Bool} {a : Action} (ha : calls a = false) : gains grace p w a = false := by
  cases a <;> first | rfl | cases ha

/-- The claims of the callers agree with the flag and with their places. -/
structure Single (w : World) : Prop where
  fits : ∀ k c, w.callers.lookup k = some c → Fits c.pc c.claimed
  bounded : claims w ≤ w.running.toNat
  launched : w.running = true → claims w = 0 → w.startup = true ∨ w.shared.shuttingDown = true

theorem Single.running (h : Single w) (hk : w.callers.lookup key = some c) (hc : c.claimed = true) : w.running = true := by
  have hone : claims w = c.claimed.toNat + _ := Table.total_of_lookup _ hk
  have hbounded := h.bounded
  rw [hone, hc] at hbounded
  cases hr : w.running with
  | true => rfl
  | false =>
      rw [hr, Bool.toNat_true, Bool.toNat_false] at hbounded
      omega

/-- A caller gives its claim back when it leaves. -/
theorem Single.left (h : Single w) (hk : w.callers.lookup key = some c) (hc : w'.callers = w.callers.erase key)
    (hr : w'.running = (w.running && !c.claimed)) : claims w' + w.running.toNat = claims w + w'.running.toNat := by
  have hsum := claims_erase hk hc
  cases hclaimed : c.claimed with
  | true =>
      rw [hclaimed, Bool.toNat_true] at hsum
      rw [hr, hclaimed, h.running hk hclaimed, ← hsum]
      rfl
  | false =>
      rw [hclaimed] at hsum hr
      rw [hr, Bool.not_false, Bool.and_true, ← hsum]
      rfl

/-- A step moves a claim between the flag, the callers and the commit. -/
theorem Single.balance (h : Single w) (hfresh : w.callers.lookup w.nextCaller = none) {a : Action}
    (hs : w.step grace a = some w') :
    claims w' + (if commits grace w a then 1 else 0) + w.running.toNat = claims w + w'.running.toNat := by
  cases stepped hs with
  | rests hc hr ha => rw [commits, gains_other ha, claims, claims, hc, hr]; rfl
  | enters c hidle hdue hc hr ha =>
      rw [commits, gains_other ha, claims, hc, Table.total_insert_of_none _ hfresh, hidle, hr]
      rfl
  | drops hk hc hr => exact h.left hk hc hr
  | @moves key choice c hk hm =>
      rw [commits, gains_call hk hs, Bool.not_not]
      cases hm with
      | walks pc hc hr hfits hruns =>
          have hsum := claims_update hk hc
          change claims w' + c.claimed.toNat = claims w + c.claimed.toNat at hsum
          rw [hc, AList.lookup_insert, Option.any_some, Bool.and_not_self, hr]
          simp only [Bool.false_eq_true, if_false]
          omega
      | takes hpc hfree hc hr =>
          have hidle : c.claimed = false := h.fits key c hk false (by rw [hpc]; rfl)
          have hsum := claims_update hk hc
          rw [hidle, Bool.toNat_false, Bool.toNat_true] at hsum
          rw [hidle, hr, hfree, Bool.toNat_true, Bool.toNat_false]
          exact hsum
      | commits pc hdue hafter hc hr hlaunched =>
          have hheld : c.claimed = true := h.fits key c hk true hdue
          have hsum := claims_update hk hc
          rw [hheld, Bool.toNat_false, Bool.toNat_true] at hsum
          rw [hc, AList.lookup_insert, hheld, hr, ← Nat.add_zero (claims w), ← hsum]
          rfl
      | leaves hc hr =>
          rw [hc, AList.lookup_erase, Option.any_none, Bool.and_false]
          exact h.left hk hc hr

theorem Single.fits_step (h : Single w) {a : Action} (hs : w.step grace a = some w') {k : Nat} {c : Caller}
    (hk : w'.callers.lookup k = some c) : Fits c.pc c.claimed := by
  have inserted : ∀ {key : Nat} {new : Caller}, w'.callers = w.callers.insert key new → Fits new.pc new.claimed →
      Fits c.pc c.claimed := by
    intro key new hc hnew
    rw [hc] at hk
    obtain ⟨-, rfl⟩ | ⟨-, hk⟩ := Table.of_lookup_insert hk
    · exact hnew
    · exact h.fits k c hk
  have erased : ∀ {key : Nat}, w'.callers = w.callers.erase key → Fits c.pc c.claimed := by
    intro key hc
    rw [hc] at hk
    exact h.fits k c (Table.of_lookup_erase hk).2
  cases stepped hs with
  | rests hc => exact h.fits k c (hc ▸ hk)
  | enters c hidle hdue hc =>
      refine inserted hc fun b hb => ?_
      rw [hidle]
      exact Option.some.inj (hdue.symm.trans hb)
  | drops _ hc => exact erased hc
  | moves hold hm =>
      cases hm with
      | walks pc hc _ hfits => exact inserted hc (hfits (h.fits _ _ hold))
      | takes _ _ hc => exact inserted hc fun b hb => Option.some.inj hb
      | commits pc _ hafter hc => exact inserted hc hafter
      | leaves hc => exact erased hc

/-- Without a claim in the callers' hands the flag is that of a committed run. -/
theorem Single.launched_step (h : Single w) (hgrown : Grown w w') {a : Action} (hs : w.step grace a = some w')
    (hfresh : w.callers.lookup w.nextCaller = none) (hr : w'.running = true) (hn : claims w' = 0) :
    w'.startup = true ∨ w'.shared.shuttingDown = true := by
  have before : w.running = true → claims w = 0 → w'.startup = true ∨ w'.shared.shuttingDown = true :=
    fun hr hn => (h.launched hr hn).imp hgrown.startup hgrown.shuttingDown
  have left : ∀ {key : Nat} {c : Caller}, w.callers.lookup key = some c → w'.callers = w.callers.erase key →
      w'.running = (w.running && !c.claimed) → w'.startup = true ∨ w'.shared.shuttingDown = true := by
    intro key c hk hc hr'
    have hsum := claims_erase hk hc
    obtain ⟨hrunning, hidle⟩ := Bool.and_eq_true_iff.mp (hr'.symm.trans hr)
    rw [Bool.not_eq_true'] at hidle
    rw [hidle, hn] at hsum
    exact before hrunning hsum.symm
  cases stepped hs with
  | rests hc hr' => exact before (hr'.symm.trans hr) (by rw [claims, ← hc]; exact hn)
  | enters c hidle _ hc hr' =>
      rw [claims, hc, Table.total_insert_of_none _ hfresh, hidle] at hn
      exact before (hr'.symm.trans hr) hn
  | drops hk hc hr' => exact left hk hc hr'
  | @moves key choice c hk hm =>
      cases hm with
      | walks pc hc hr' =>
          have hsum := claims_update hk hc
          change claims w' + c.claimed.toNat = claims w + c.claimed.toNat at hsum
          exact before (hr'.symm.trans hr) (by omega)
      | takes hpc _ hc =>
          have hidle : c.claimed = false := h.fits key c hk false (by rw [hpc]; rfl)
          have hsum := claims_update hk hc
          rw [hn, hidle, Bool.toNat_true, Bool.toNat_false] at hsum
          cases hsum
      | commits _ _ _ _ _ hlaunched => exact hlaunched
      | leaves hc hr' => exact left hk hc hr'

theorem fresh_of_reachable (h : (machine grace).Reachable w) : w.callers.lookup w.nextCaller = none := by
  cases hk : w.callers.lookup w.nextCaller with
  | none => rfl
  | some c => exact absurd ((Verdict.sound_of_reachable h).keys _ c hk) (Nat.lt_irrefl _)

theorem single_of_reachable (h : (machine grace).Reachable w) : Single w := by
  refine h.invariant ⟨fun _ _ hk => ?_, Nat.le_refl _, fun hr => ?_⟩ fun w a w' hw ih hs => ?_
  · cases hk
  · cases hr
  · have hbalance := ih.balance (fresh_of_reachable hw) hs
    have hbounded := ih.bounded
    exact ⟨fun k c hk => ih.fits_step hs hk, by omega,
      ih.launched_step (step_grown hw hs) hs (fresh_of_reachable hw)⟩

/-- A run starts by its commit only. -/
theorem Single.commits_of_starts (h : Single w) {a : Action} (hs : w.step grace a = some w')
    (hstart : starts grace w a = true) : commits grace w a = true := by
  rw [starts] at hstart
  cases stepped hs with
  | rests _ _ ha | enters _ _ _ _ _ ha => rw [gains_other ha] at hstart; cases hstart
  | drops => cases hstart
  | @moves key choice c hk hm =>
      rw [commits, gains_call hk hs, Bool.not_not]
      rw [gains_call hk hs] at hstart
      obtain ⟨hidle, hruns⟩ := Bool.and_eq_true_iff.mp hstart
      rw [Bool.not_eq_true'] at hidle
      cases hm with
      | walks pc hc _ _ hruns' =>
          rw [hc, AList.lookup_insert] at hruns
          rw [hruns' hruns] at hidle
          cases hidle
      | takes _ _ hc => rw [hc, AList.lookup_insert] at hruns; cases hruns
      | commits pc hdue _ hc =>
          rw [h.fits key c hk true hdue, hc, AList.lookup_insert]
          rfl
      | leaves hc => rw [hc, AList.lookup_erase] at hruns; cases hruns

/-- One static run at most gets the lifecycle: the flag stands for the claim a
caller holds or for the one that was committed, a committed one is never given
back, and it is committed by a launch or a shutdown. -/
theorem single_static_run {run : List Action} (hrun : (machine grace).after World.new run = some w) :
    (machine grace).charged (commits grace) World.new run + claims w = w.running.toNat ∧
    (machine grace).charged (starts grace) World.new run ≤ (machine grace).charged (commits grace) World.new run ∧
    ((machine grace).charged (commits grace) World.new run = 1 →
      (w.startup = true ∨ w.shared.shuttingDown = true) ∧
      ∀ more w', (machine grace).after w more = some w' →
        w'.running = true ∧ claims w' = 0 ∧ (machine grace).charged (commits grace) w more = 0) := by
  have balance : ∀ {w w' : World} {run : List Action}, (machine grace).Reachable w →
      (machine grace).after w run = some w' →
      claims w' + (machine grace).charged (commits grace) w run + w.running.toNat = claims w + w'.running.toNat := by
    intro w w' run hw hrun
    exact hw.charged_balance (commits grace) claims (fun w => w.running.toNat)
      (fun w a w' hw hs => (single_of_reachable hw).balance (fresh_of_reachable hw) hs) hrun
  have hreach : (machine grace).Reachable w := Machine.Reachable.after (M := machine grace) .init hrun
  have hall : claims w + (machine grace).charged (commits grace) World.new run + 0 = 0 + w.running.toNat :=
    balance .init hrun
  refine ⟨by omega, Machine.Reachable.charged_mono (M := machine grace) .init
    (fun w a w' hw hs => (single_of_reachable hw).commits_of_starts hs) hrun, fun hone => ?_⟩
  have hle := Bool.toNat_le w.running
  have hrunning : w.running = true := Bool.toNat_eq_one.mp (by omega)
  have hnone : claims w = 0 := by omega
  refine ⟨(single_of_reachable hreach).launched hrunning hnone, fun more w' hmore => ?_⟩
  have hrest := balance hreach hmore
  rw [hnone, hrunning, Bool.toNat_true] at hrest
  have hle' := Bool.toNat_le w'.running
  exact ⟨Bool.toNat_eq_one.mp (by omega), by omega, by omega⟩

/-- Two runs race for the lifecycle, and the loser is turned away. -/
def raceRun : List Action :=
  [.runStatic .run true, .runStatic .runUntil false, .call 0 .go, .call 1 .go, .call 0 .ok, .call 0 .go, .call 0 .ok]

theorem single_static_run_race : ∃ w, (machine 5).after World.new raceRun = some w ∧
    (machine 5).charged (commits 5) World.new raceRun = 1 ∧ w.running = true ∧ claims w = 0 ∧
    (w.startup = true ∨ w.shared.shuttingDown = true) := by
  obtain ⟨w, hw⟩ := Option.isSome_iff_exists.mp
    (show ((machine 5).after World.new raceRun).isSome = true by decide +kernel)
  have hone : (machine 5).charged (commits 5) World.new raceRun = 1 := by decide +kernel
  obtain ⟨hsum, -, hcommitted⟩ := single_static_run hw
  obtain ⟨hlaunched, hlater⟩ := hcommitted hone
  obtain ⟨hrunning, hnone, -⟩ := hlater [] w rfl
  exact ⟨w, hw, hone, hrunning, hnone, hlaunched⟩

end Taskvisor.Shutdown.Lifecycle
