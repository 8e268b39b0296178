import Taskvisor.Controller.Retirement

namespace Taskvisor.Controller.Tenure

open Lib Runtime.Base Slot State Abstract Coherence Refinement Driver Index Tracking Frame Retirement

variable {b b' : Board} {name : String} {slot : SlotState} {new : Option SlotState} {id : TaskId}
  {place : TaskId → String} {fin fin' : TaskId → Prop} {sub : Submission}

def Owns (b : Board) (id : TaskId) : Prop := ∃ name slot, b.slot name = some slot ∧ slot.ownerId = some id

/-- An identity that was handed over is finished or still owns a slot. -/
def Tenured (fin : TaskId → Prop) (b : Board) : Prop := ∀ id ∈ b.handed.map Handoff.id, fin id ∨ Owns b id

theorem Tenured.mono (h : Tenured fin b) (hfin : ∀ id, fin id → fin' id) : Tenured fin' b :=
  fun id hid => (h id hid).imp_left (hfin id)

theorem Tenured.of_eq (h : Tenured fin b) (hslot : b'.slot = b.slot) (hhanded : b'.handed = b.handed) : Tenured fin b' := by
  intro id hid
  rw [hhanded] at hid
  rw [Owns, hslot]
  exact h id hid

/-- The owner of the slot stays, or its tenure may end. -/
theorem Tenured.set (h : Tenured fin b)
    (hname : ∀ s id, b.slot name = some s → s.ownerId = some id → id ∈ b.handed.map Handoff.id →
      fin id ∨ ∃ t, new = some t ∧ t.ownerId = some id) : Tenured fin (b.setSlot name new) := by
  intro id hid
  rcases h id hid with hfin | ⟨n, s, hslot, howner⟩
  · exact .inl hfin
  · by_cases hn : n = name
    · subst hn
      refine (hname s id hslot howner hid).imp_right ?_
      rintro ⟨t, ht, hown⟩
      exact ⟨n, t, by rw [setSlot_slot, if_pos rfl, ht], hown⟩
    · exact .inr ⟨n, s, by rw [setSlot_slot, if_neg hn, hslot], howner⟩

/-- The slot had no owner. -/
theorem Tenured.vacant (h : Tenured fin b) (hidle : ∀ s, b.slot name = some s → s.phase = .idle) :
    Tenured fin (b.setSlot name new) := by
  refine h.set fun s id hslot howner _ => ?_
  rw [SlotState.ownerId, hidle s hslot] at howner
  cases howner

/-- The slot changes under its owner. -/
theorem Tenured.keep (h : Tenured fin b) (hslot : b.slot name = some slot) {s : SlotState}
    (hset : b'.slot = (b.setSlot name (some s)).slot) (hhanded : b'.handed = b.handed) (howner : slot.ownerId = s.ownerId) :
    Tenured fin b' := by
  have hkept : Tenured fin (b.setSlot name (some s)) := by
    refine h.set fun t id ht hown _ => .inr ⟨s, rfl, ?_⟩
    rw [← howner, Option.some.inj (hslot.symm.trans ht)]
    exact hown
  exact hkept.of_eq hset hhanded

theorem Tenured.release (h : Tenured fin b) (hslot : b.slot name = some slot) (howner : slot.ownerId = some id)
    (hend : id ∈ b.handed.map Handoff.id → fin id) : Tenured fin (b.setSlot name new) := by
  refine h.set fun t i ht hown hi => .inl ?_
  rw [← Option.some.inj (hslot.symm.trans ht), howner] at hown
  obtain rfl := Option.some.inj hown
  exact hend hi

/-- The owner of a slot is handed over. -/
theorem Tenured.hand (h : Tenured fin b) (taskName slotName : String) (done : Option OutcomeTx) (howns : Owns b id) :
    Tenured fin (b.hand id taskName slotName done) := by
  intro x hx
  rw [Board.hand, List.map_append, List.mem_append] at hx
  rcases hx with hx | hx
  · exact h x hx
  · obtain rfl := List.mem_singleton.mp hx
    exact .inr howns

theorem Tenured.move (h : Tenured fin b) (hcoh : Coherent b) (ht : Tracked place b) (m : Move fin b b') : Tenured fin b' := by
  cases m with
  | create hslot => exact h.vacant fun s hs => by cases hslot.symm.trans hs
  | collect hslot hidle hqueue => exact h.vacant (idle_slot hslot hidle)
  | retireAdmitting now hslot hphase => exact h.keep hslot rfl rfl (by rw [SlotState.ownerId, hphase]; rfl)
  | retireRunning now hslot hphase =>
      exact h.keep hslot rfl rfl (by rw [SlotState.ownerId, hphase]; rfl)
  | confirmAdmitting now hslot hphase htracked =>
      exact h.keep hslot rfl rfl (by rw [SlotState.ownerId, hphase]; rfl)
  | confirmCancelled alive hslot hphase htracked =>
      exact h.keep hslot rfl rfl (by rw [SlotState.ownerId, hphase]; rfl)
  | staleAdmission htracked hstale => exact h.of_eq rfl rfl
  | refuse hslot hphase htracked hfin =>
      exact (h.release hslot (SlotState.ownerId_of_undecided hphase) fun _ => hfin).of_eq rfl rfl
  | complete hslot hphase htracked hfin =>
      exact (h.release hslot (SlotState.ownerId_of_accepted hphase) fun _ => hfin).of_eq rfl rfl
  | staleCompletion htracked => exact h.of_eq rfl rfl
  | removed htracked => exact h.of_eq rfl rfl
  | promote now hslot hidle hqueue =>
      rename_i name slot next rest
      have hset : Tenured fin (b.setSlot name (some ⟨.admitting next.id now, rest⟩)) := h.vacant (idle_slot hslot hidle)
      have hclear : Tenured fin ((b.setSlot name (some ⟨.admitting next.id now, rest⟩)).setQueued next.id none) :=
        hset.of_eq rfl rfl
      have hhand := hclear.hand next.taskName name (b.watcher next.id)
        ⟨name, _, (setSlot_slot ..).trans (if_pos rfl), rfl⟩
      exact hhand.of_eq rfl rfl
  | promoteWait now hslot hidle hqueue hpump => exact (h.vacant (idle_slot hslot hidle)).of_eq rfl rfl
  | promoteFail kind reason hslot hidle hqueue => exact (h.vacant (idle_slot hslot hidle)).of_eq rfl rfl
  | capacityCommit hentry hpump hlimit =>
      rename_i id entry pump
      obtain ⟨hid, slot, hslot, hphase⟩ := hcoh.holds id entry hentry
      have hclear : Tenured fin ((b.setCapacity id none).setPump pump) := h.of_eq rfl rfl
      have hhand := hclear.hand entry.pending.taskName entry.slotName (b.watcher id)
        ⟨entry.slotName, slot, hslot, SlotState.ownerId_of_undecided hphase⟩
      rw [hid]
      exact hhand.of_eq rfl rfl
  | capacityFail kind reason hentry hpump hlimit hslot hphase =>
      rename_i id entry slot pump
      have hend : id ∈ b.handed.map Handoff.id → fin id := fun hm => by cases hentry.symm.trans (ht.unhanded id hm).2
      exact (h.release hslot (SlotState.ownerId_of_undecided hphase) hend).of_eq rfl rfl
  | removeQueued kind reason hslot hid => exact h.keep hslot rfl rfl rfl

theorem Tenured.moves (h : Tenured fin b) (hcoh : Coherent b) (ht : Tracked place b) (m : Moves fin b b') :
    Tenured fin b' := by
  induction m with
  | refl => exact h
  | tail ms m ih => exact ih.move (hcoh.moves ms) (ht.moves hcoh ms) m

theorem Tenured.enter (h : Tenured fin b) (m : Enter sub b b') : Tenured fin b' := by
  cases m with
  | turnAway kind reason => exact h.of_eq rfl rfl
  | start now hslot hidle =>
      refine Tenured.hand (h.vacant (idle_slot hslot hidle)) sub.taskName sub.slotName sub.done ?_
      exact ⟨sub.slotName, _, (setSlot_slot ..).trans (if_pos rfl), rfl⟩
  | wait now hslot hidle hpump => exact (h.vacant (idle_slot hslot hidle)).of_eq rfl rfl
  | append hslot hbusy => exact h.keep hslot rfl rfl rfl
  | displace hslot hbusy hqueue => exact h.keep hslot rfl rfl rfl

/-- Two identities of one slot that are handed over and not finished are the
same. -/
def Exclusive (fin : TaskId → Prop) (place : TaskId → String) (handed : List Handoff) : Prop :=
  ∀ x ∈ handed.map Handoff.id, ∀ y ∈ handed.map Handoff.id, ¬ fin x → ¬ fin y → place x = place y → x = y

theorem Exclusive.mono {handed : List Handoff} (h : Exclusive fin place handed) (hfin : ∀ id, fin id → fin' id) :
    Exclusive fin' place handed :=
  fun x hx y hy hfx hfy => h x hx y hy (mt (hfin x) hfx) (mt (hfin y) hfy)

theorem Tenured.exclusive (h : Tenured fin b) (ht : Tracked place b) : Exclusive fin place b.handed := by
  intro x hx y hy hfx hfy hplace
  obtain ⟨n, s, hs, hox⟩ := (h x hx).resolve_left hfx
  obtain ⟨m, t, ht', hoy⟩ := (h y hy).resolve_left hfy
  have hname : n = m := (ht.owner n s x hs hox).symm.trans (hplace.trans (ht.owner m t y ht' hoy))
  subst hname
  rw [Option.some.inj (hs.symm.trans ht'), hoy] at hox
  exact (Option.some.inj hox).symm

section Loop

variable {cfg : ControllerConfig} {w w' : World} {a : Action}

theorem tenured_step (hw : (machine cfg).Reachable w) (hphase : w.phase = .looping) (h : Tenured fin (board w.engine))
    (hfin : ∀ id, released a = some id → fin id) (hstep : World.step cfg w a = some w') (hphase' : w'.phase = .looping) :
    Tenured fin (board w'.engine) := by
  have hsane := sane_of_reachable hw hphase
  obtain ⟨place, hplace⟩ := exists_placing hw
  have ht := (bound_of_reachable hw hphase).tracked place hplace
  cases hsane.turn hphase hfin hstep with
  | sent command hfresh => exact h
  | @submitted sub rest e hcommands hentered =>
      obtain ⟨c, hmoves, d, henter, hafter⟩ := hentered
      have hsub : sub ∈ submissions w.commands := by
        rw [hcommands]
        exact List.mem_cons_self
      have hunknown := unknown_moves hsane.coherent hmoves (hsane.unknown sub hsub)
      have hc := hsane.coherent.moves hmoves
      have htc := ht.moves hsane.coherent hmoves
      have hd := (h.moves hsane.coherent ht hmoves).enter henter
      exact hd.moves (hc.enter hunknown henter) (htc.enter hunknown (hplace sub (hsane.logged sub hsub)) henter) hafter
  | managed hcommands hmoves => exact h.moves hsane.coherent ht hmoves
  | resolved hmoves => exact h.moves hsane.coherent ht hmoves
  | stopped => cases hphase'

/-- A loop that ends or has ended hands nothing over. -/
theorem handed_ended (hw : (machine cfg).Reachable w) (hstep : World.step cfg w a = some w')
    (hphase' : w'.phase ≠ .looping) : w'.engine.handed = w.engine.handed := by
  by_cases hphase : w.phase = .looping
  · cases (sane_of_reachable hw hphase).turn hphase (fun _ _ => trivial) hstep with
    | stopped => rfl
    | _ => exact absurd hphase hphase'
  · cases step_wind hphase hstep with
    | sent command hdrain hfresh => rfl
    | @drained command rest obs hdrain hcommands =>
        cases command with
        | submit sub => exact congrArg Books.handed (books_sendRejected ..)
        | manageIdentity id operation reply => rfl
    | finalized obs hdrain hcommands => exact congrArg (fun g => g.2.1) (given_finalize obs w.engine)
    | finished obs hfinal => exact congrArg (fun g => g.2.1) (given_finalize obs w.engine)

theorem handed_prefix (hw : (machine cfg).Reachable w)
    (hstep : World.step cfg w a = some w') : w.engine.handed <+: w'.engine.handed := by
  by_cases hphase : w'.phase = .looping
  · exact handed_step hw (looping_before hstep hphase) hstep
  · exact ⟨[], by rw [List.append_nil, handed_ended hw hstep hphase]⟩

/-- No identity is handed over twice. -/
theorem handed_once (hw : (machine cfg).Reachable w) : (w.engine.handed.map Handoff.id).Nodup := by
  refine hw.invariant (P := fun w => (w.engine.handed.map Handoff.id).Nodup) List.nodup_nil fun w a w' hw h hstep => ?_
  by_cases hphase : w'.phase = .looping
  · have hw' : (machine cfg).Reachable w' := .next a hw hstep
    obtain ⟨place, hplace⟩ := exists_placing hw'
    exact ((bound_of_reachable hw' hphase).tracked place hplace).handed_nodup
  · rw [handed_ended hw hstep hphase]
    exact h

/-- The log grows with the command queue alone. -/
theorem log_step (hstep : World.step cfg w a = some w') :
    w'.log = w.log ∨ ∃ command, a = .send command ∧ w'.log = w.log ++ [command] := by
  have hloop {v : World} {e : Engine} (hv : v.looping e = some w') (hlog : v.log = w.log) : w'.log = w.log := by
    rw [looping_eq hv]
    exact hlog
  cases a with
  | send command =>
      simp only [World.step] at hstep
      split at hstep
      · obtain rfl := Option.some.inj hstep
        exact .inr ⟨command, rfl, rfl⟩
      · cases hstep
  | command obs cut =>
      simp only [World.step] at hstep
      split at hstep
      · cases hstep
      · exact .inl (hloop hstep rfl)
  | capacityResult obs decision =>
      simp only [World.step] at hstep
      split at hstep
      · cases hstep
      · exact .inl (hloop hstep rfl)
  | admissionResult | completionResult | removalResult | identityResult =>
      simp only [World.step] at hstep
      split at hstep
      · exact .inl (hloop hstep rfl)
      · cases hstep
  | stop | finish obs =>
      simp only [World.step] at hstep
      split at hstep
      · obtain rfl := Option.some.inj hstep
        exact .inl rfl
      · cases hstep
  | drain obs | finalize obs =>
      simp only [World.step] at hstep
      split at hstep
      · obtain rfl := Option.some.inj hstep
        exact .inl rfl
      · cases hstep

theorem log_prefix (hstep : World.step cfg w a = some w') : w.log <+: w'.log := by
  rcases log_step hstep with hlog | ⟨command, -, hlog⟩
  · exact hlog ▸ List.prefix_rfl
  · exact hlog ▸ List.prefix_append _ _

end Loop

end Taskvisor.Controller.Tenure
