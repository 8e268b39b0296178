import Taskvisor.Controller.Refinement

namespace Taskvisor.Controller.Index

open Lib Runtime.Base Slot State Admission Abstract Coherence Refinement Driver

def submissions (commands : List ControllerCommand) : List Submission := commands.filterMap submission?

/-- The running loop keeps its books, and a submission still in the command
queue is unknown to them. -/
structure Sane (w : World) : Prop where
  coherent : Coherent (board w.engine)
  unknown : ∀ sub ∈ submissions w.commands, ¬ Known (board w.engine) sub.id
  nodup : ((submissions w.commands).map Submission.id).Nodup
  logged : ∀ sub ∈ submissions w.commands, sub ∈ submissions w.log
  known : ∀ id, Known (board w.engine) id → id ∈ (submissions w.log).map Submission.id

variable {cfg : ControllerConfig} {w w' : World} {fin : TaskId → Prop}

theorem submissions_snoc (commands : List ControllerCommand) (command : ControllerCommand) :
    submissions (commands ++ [command]) = submissions commands ++ (submission? command).toList := by
  cases command <;> simp [submissions, submission?]

theorem Sane.init (cfg : ControllerConfig) : Sane (World.new cfg) where
  coherent :=
    { index := fun id name => by simp [board, World.new, Engine.new]
      nodup := fun name slot h => by simp [board, World.new, Engine.new] at h
      disjoint := fun _ _ => rfl
      pump := fun id => by simp [board, World.new, Engine.new, waiting, CapacityAdmissionPump.new]
      pump_nodup := List.nodup_nil
      holds := fun id entry h => by simp [board, World.new, Engine.new] at h
      owner := fun name slot id h => by simp [board, World.new, Engine.new] at h
      watched := fun id h => by simp [board, World.new, Engine.new] at h
      admitted := fun id h => by simp [board, World.new, Engine.new] at h }
  unknown := nofun
  nodup := List.nodup_nil
  logged := nofun
  known := by rintro id (h | h | h | h | h | ⟨n, s, h, -⟩) <;> simp [board, World.new, Engine.new] at h

theorem fresh_id {sub : Submission} (hfresh : fresh w.log (.submit sub) = true) :
    sub.id ∉ (submissions w.log).map Submission.id := by
  intro hm
  obtain ⟨old, hold, hid⟩ := List.mem_map.mp hm
  exact ((of_decide_eq_true hfresh) old hold).1 hid

theorem Sane.issue (h : Sane w) (command : ControllerCommand) (hfresh : fresh w.log command = true) :
    Sane (w.issue command) := by
  have hcommands : submissions (w.issue command).commands = submissions w.commands ++ (submission? command).toList :=
    submissions_snoc ..
  have hlog : submissions (w.issue command).log = submissions w.log ++ (submission? command).toList := submissions_snoc ..
  cases command with
  | manageIdentity id operation reply =>
      rw [submission?, Option.toList_none, List.append_nil] at hcommands hlog
      exact ⟨h.coherent, hcommands ▸ h.unknown, hcommands ▸ h.nodup, hcommands ▸ hlog ▸ h.logged, hlog ▸ h.known⟩
  | submit sub =>
      rw [submission?, Option.toList_some] at hcommands hlog
      have hnew := fresh_id hfresh
      refine ⟨h.coherent, ?_, ?_, ?_, ?_⟩
      · intro s hs
        rw [hcommands, List.mem_append, List.mem_singleton] at hs
        rcases hs with hs | rfl
        · exact h.unknown s hs
        · exact fun hk => hnew (h.known _ hk)
      · rw [hcommands, List.map_append, List.nodup_append]
        refine ⟨h.nodup, List.nodup_singleton _, ?_⟩
        rintro x hx y hy rfl
        obtain ⟨s, hs, rfl⟩ := List.mem_map.mp hx
        exact hnew (List.mem_singleton.mp hy ▸ List.mem_map_of_mem (h.logged s hs))
      · intro s hs
        rw [hcommands] at hs
        rw [hlog]
        exact List.mem_append.mpr ((List.mem_append.mp hs).imp_left (h.logged s))
      · intro id hk
        rw [hlog, List.map_append]
        exact List.mem_append_left _ (h.known id hk)

theorem Sane.moves {commands : List ControllerCommand} {e : Engine} (h : Sane w)
    (hmoves : Moves fin (board w.engine) (board e)) (hcommands : submissions commands = submissions w.commands) :
    Sane { w with commands, engine := e } where
  coherent := h.coherent.moves hmoves
  unknown := fun sub hs => unknown_moves h.coherent hmoves (h.unknown sub (hcommands ▸ hs))
  nodup := by
    rw [hcommands]
    exact h.nodup
  logged := by
    rw [hcommands]
    exact h.logged
  known := fun id hk => h.known id (by_contra fun hn => unknown_moves h.coherent hmoves hn hk)

theorem Sane.submitted {sub : Submission} {rest : List ControllerCommand} {e : Engine} (h : Sane w)
    (hcommands : w.commands = .submit sub :: rest)
    (hentered : ∃ b, Moves fin (board w.engine) b ∧ Entered fin sub b (board e)) :
    Sane { w with commands := rest, engine := e } := by
  have hsub : submissions w.commands = sub :: submissions rest := by rw [hcommands]; rfl
  have hnodup := h.nodup
  rw [hsub, List.map_cons, List.nodup_cons] at hnodup
  obtain ⟨b, hmoves, b', henter, hafter⟩ := hentered
  have hb : Coherent b := h.coherent.moves hmoves
  have hunknown := unknown_moves h.coherent hmoves (h.unknown sub (hsub ▸ List.mem_cons_self))
  have hb' : Coherent b' := hb.enter hunknown henter
  have hkeep {id : TaskId} (hk : ¬ Known (board w.engine) id) (hne : id ≠ sub.id) : ¬ Known (board e) id :=
    unknown_moves hb' hafter (unknown_enter hb henter (unknown_moves h.coherent hmoves hk) hne)
  refine ⟨hb'.moves hafter, ?_, hnodup.2, ?_, ?_⟩
  · intro s hs
    refine hkeep (h.unknown s (hsub ▸ List.mem_cons_of_mem _ hs)) fun he => hnodup.1 ?_
    exact he ▸ List.mem_map_of_mem hs
  · exact fun s hs => h.logged s (hsub ▸ List.mem_cons_of_mem _ hs)
  · intro id hk
    by_cases he : id = sub.id
    · exact he ▸ List.mem_map_of_mem (h.logged sub (hsub ▸ List.mem_cons_self))
    · exact h.known id (by_contra fun hn => hkeep hn he hk)

theorem Sane.turn {a : Action} (h : Sane w) (hphase : w.phase = .looping) (hfin : ∀ id, released a = some id → fin id)
    (hstep : World.step cfg w a = some w') : Turn cfg fin w w' := by
  refine step_turn hphase h.coherent ?_ hfin hstep
  intro sub rest hcommands
  refine h.unknown sub ?_
  rw [hcommands]
  exact List.mem_cons_self

theorem sane_of_reachable (hw : (machine cfg).Reachable w) : w.phase = .looping → Sane w := by
  refine hw.invariant (P := fun w => w.phase = .looping → Sane w) (fun _ => .init cfg) ?_
  intro w a w' _ ih hstep hphase'
  have hphase := looping_before hstep hphase'
  cases (ih hphase).turn hphase (fun id _ => trivial) hstep with
  | sent command hfresh => exact (ih hphase).issue command hfresh
  | submitted hcommands hentered => exact (ih hphase).submitted hcommands hentered
  | managed hcommands hmoves =>
      refine (ih hphase).moves hmoves ?_
      rw [hcommands]
      rfl
  | resolved hmoves => exact (ih hphase).moves hmoves rfl
  | stopped => cases hphase'

/-- How often an identity stands in the queue of a slot. -/
def occurrences (e : Engine) (name : String) (id : TaskId) : Nat :=
  match e.state.slots.lookup name with
  | none => 0
  | some slot => (ids slot).count id

structure IndexCoherent (e : Engine) : Prop where
  queued : ∀ id name, occurrences e name id = if e.state.queuedSlots.lookup id = some name then 1 else 0
  disjoint : ∀ id, id ∈ e.state.queuedSlots → id ∉ e.state.capacityPending
  pump : ∀ id, (waiting e.operations.capacity).count id = if id ∈ e.state.capacityPending then 1 else 0
  owner_waits : ∀ id entry, e.state.capacityPending.lookup id = some entry →
    ∃ slot since, e.state.slots.lookup entry.slotName = some slot ∧ slot.ownerId = some id ∧
      (slot.phase = .admitting id since ∨ slot.phase = .cancelPendingAdmission id since)
  owner_not_queued : ∀ name slot owner, e.state.slots.lookup name = some slot → slot.ownerId = some owner →
    ∀ other, occurrences e other owner = 0
  watched : ∀ id ∈ e.state.watchers, id ∈ e.state.queuedSlots ∨ id ∈ e.state.capacityPending

/-- A removal by identity meets a slot that does not hold what the index says:
it is not tracked, or neither its owner nor its queue has the identity. -/
def StaleRemoval (e : Engine) (id : TaskId) : Prop :=
  ∃ slotName capacity, route e id = some (slotName, capacity) ∧
    ∀ slot, e.state.slots.lookup slotName = some slot →
      claimCapacityPending e id = none ∧ (slot.queue.find? fun pending => decide (pending.id = id)) = none

/-- A capacity result meets a waiter without entry, slot or ownership. -/
def StaleCapacity (e : Engine) : Prop :=
  ∃ id pump, e.operations.capacity.next = some (id, pump) ∧
    ∀ entry slot, e.state.capacityPending.lookup id = some entry → e.state.slots.lookup entry.slotName = some slot →
      slot.ownerId ≠ some id

section Clauses

variable {e : Engine} (h : Coherent (board e))
include h

theorem occurrences_eq (name : String) (id : TaskId) :
    occurrences e name id = if e.state.queuedSlots.lookup id = some name then 1 else 0 := by
  have hindex := h.index id name
  cases hslot : e.state.slots.lookup name with
  | none =>
      have hnot : e.state.queuedSlots.lookup id ≠ some name := by
        intro hq
        obtain ⟨slot, hs, -⟩ := hindex.mp hq
        cases hslot.symm.trans hs
      simp only [occurrences, hslot, if_neg hnot]
  | some slot =>
      simp only [occurrences, hslot]
      split
      · next hq =>
        exact List.count_eq_one_of_mem (h.nodup name slot hslot) ((h.queued_iff hslot id).mp hq)
      · next hq =>
        exact List.count_eq_zero.mpr fun hm => hq (h.queued_of_mem hslot hm)

theorem waiting_count (id : TaskId) :
    (waiting e.operations.capacity).count id = if id ∈ e.state.capacityPending then 1 else 0 := by
  have hmem : id ∈ e.state.capacityPending ↔ id ∈ waiting e.operations.capacity := by
    rw [← AList.lookup_isSome, Option.isSome_iff_ne_none]
    exact h.pump id
  split
  · next hin => exact List.count_eq_one_of_mem h.pump_nodup (hmem.mp hin)
  · next hout => exact List.count_eq_zero.mpr fun hm => hout (hmem.mpr hm)

theorem indexCoherent_of_coherent : IndexCoherent e where
  queued := fun id name => occurrences_eq h name id
  disjoint := fun id hq hc => by
    have hnone := h.disjoint id (Option.isSome_iff_ne_none.mp (AList.lookup_isSome.mpr hq))
    rw [← AList.lookup_isSome, Option.isSome_iff_ne_none] at hc
    exact hc hnone
  pump := waiting_count h
  owner_waits := fun id entry hentry => by
    obtain ⟨-, slot, hslot, hu⟩ := h.holds id entry hentry
    have howner := SlotState.ownerId_of_undecided hu
    cases hphase : slot.phase with
    | admitting owner since =>
        rw [hphase] at hu
        obtain rfl := Option.some.inj hu
        exact ⟨slot, since, hslot, howner, .inl hphase⟩
    | cancelPendingAdmission owner since =>
        rw [hphase] at hu
        obtain rfl := Option.some.inj hu
        exact ⟨slot, since, hslot, howner, .inr hphase⟩
    | _ =>
        rw [hphase] at hu
        cases hu
  owner_not_queued := fun name slot owner hslot howner other => by
    have hnone : e.state.queuedSlots.lookup owner = none := h.owner name slot owner hslot howner
    rw [occurrences_eq h, hnone, if_neg nofun]
  watched := fun id hw => by
    have hsome := h.watched id (Option.isSome_iff_ne_none.mp (AList.lookup_isSome.mpr hw))
    refine hsome.imp ?_ ?_
    all_goals
      intro hne
      exact AList.lookup_isSome.mp (Option.isSome_iff_ne_none.mpr hne)

theorem not_staleRemoval (id : TaskId) : ¬ StaleRemoval e id := by
  rintro ⟨slotName, capacity, hroute, hstale⟩
  rcases route_cases h hroute with ⟨entry, slot, -, hentry, -, -, hslot, -⟩ | ⟨slot, -, -, hslot, hid⟩
  · have hnone := (hstale slot hslot).1
    rw [claimCapacityPending_eq hentry] at hnone
    cases hnone
  · obtain ⟨removed, hfind, -⟩ := find_queued hid
    cases hfind.symm.trans (hstale slot hslot).2

theorem not_staleCapacity : ¬ StaleCapacity e := by
  rintro ⟨id, pump, hnext, hstale⟩
  obtain ⟨entry, slot, hentry, -, hslot, hu⟩ := capacity_entry h (by
    rw [(waiting_next hnext).1]
    exact List.mem_cons_self)
  exact hstale entry slot hentry hslot (SlotState.ownerId_of_undecided hu)

end Clauses

/-- Between two steps of the loop the indexes, the slots and the pump agree, so
that no fallback for a stale slot is ever taken. -/
theorem index_coherence (cfg : ControllerConfig) (w : World) (hw : (machine cfg).Reachable w)
    (hphase : w.phase = .looping) :
    IndexCoherent w.engine ∧ (∀ id, ¬ StaleRemoval w.engine id) ∧ ¬ StaleCapacity w.engine := by
  have h := (sane_of_reachable hw hphase).coherent
  exact ⟨indexCoherent_of_coherent h, not_staleRemoval h, not_staleCapacity h⟩

def tinyConfig : ControllerConfig where
  queueCapacity := .four
  admissionCapacity := .two
  identityOperationCapacity := .one
  maxSlotQueue := 1
  maxControllerSlots := none
  maxTotalPending := none

/-- A live runtime whose registry queue has no room for the identity 3. -/
def busyRegistry : Observed where
  supervisor := fun _ => true
  shutdown := fun _ => false
  offer := fun id => if id = 3 then .error .commandQueueFull else .ok ()
  gateOpen := true
  receiver := fun _ => true
  now := 0

def mixedRun : List Action :=
  [.send (.submit ⟨1, "a", .queue, none, some 10⟩), .send (.submit ⟨2, "b", .queue, some "a", some 20⟩),
    .send (.submit ⟨3, "c", .queue, none, none⟩), .command busyRegistry none, .command busyRegistry none,
    .command busyRegistry none]

/-- One owner handed over, one submission behind it, one waiting for capacity. -/
theorem index_coherence_mixed :
    ∃ w, (machine tinyConfig).after (World.new tinyConfig) mixedRun = some w ∧
      w.engine.state.queuedSlots.lookup 2 = some "a" ∧ w.engine.operations.capacity.active = some 3 ∧
      occurrences w.engine "a" 2 = 1 ∧ 3 ∈ w.engine.state.capacityPending := by
  obtain ⟨w, hw, hp⟩ := (Option.any_eq_true (fun w : World => decide (w.phase = .looping ∧
      w.engine.state.queuedSlots.lookup 2 = some "a" ∧ w.engine.operations.capacity = ⟨2, [], some 3⟩)) _).mp
    (show (Machine.after (machine tinyConfig) (World.new tinyConfig) mixedRun).any _ = true by decide +kernel)
  obtain ⟨hphase, hq, hpump⟩ := of_decide_eq_true hp
  obtain ⟨hindex, -, -⟩ := index_coherence tinyConfig w (Machine.Reachable.after .init hw) hphase
  have hactive : w.engine.operations.capacity.active = some 3 := by rw [hpump]
  refine ⟨w, hw, hq, hactive, ?_, ?_⟩
  · rw [hindex.queued, if_pos hq]
  · by_contra hnot
    have hcount := hindex.pump 3
    rw [if_neg hnot, hpump] at hcount
    cases hcount

end Taskvisor.Controller.Index
