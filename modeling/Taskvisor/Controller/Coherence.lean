import Taskvisor.Controller.Abstract

namespace Taskvisor.Controller.Coherence

open Lib Runtime.Base Slot State Abstract

variable {b : Board} {name : String} {slot slot' : SlotState} {id : TaskId} {pump : CapacityAdmissionPump}
  {fin : TaskId → Prop}

/-- The indexes agree with the slots and with the capacity pump. -/
structure Coherent (b : Board) : Prop where
  index : ∀ id name, b.queued id = some name ↔ ∃ slot, b.slot name = some slot ∧ id ∈ ids slot
  nodup : ∀ name slot, b.slot name = some slot → (ids slot).Nodup
  disjoint : ∀ id, b.queued id ≠ none → b.capacity id = none
  pump : ∀ id, b.capacity id ≠ none ↔ id ∈ waiting b.pump
  pump_nodup : (waiting b.pump).Nodup
  holds : ∀ id entry, b.capacity id = some entry →
    entry.pending.id = id ∧ ∃ slot, b.slot entry.slotName = some slot ∧ slot.phase.undecided = some id
  owner : ∀ name slot id, b.slot name = some slot → slot.ownerId = some id → b.queued id = none
  watched : ∀ id, b.watcher id ≠ none → b.queued id ≠ none ∨ b.capacity id ≠ none
  admitted : ∀ id ∈ b.admissions.map Prod.fst, b.queued id = none ∧ b.capacity id = none

theorem waiting_enqueue (h : b.pump.enqueue id = .ok pump) : waiting pump = waiting b.pump ++ [id] := by
  rw [CapacityAdmissionPump.enqueue] at h
  split at h
  · cases h
  · obtain rfl := Except.ok.inj h
    rw [CapacityAdmissionPump.startNext]
    obtain ⟨limit, queued, active⟩ := b.pump
    cases active <;> cases queued <;> simp [waiting]

theorem setSlot_slot (name other : String) (s : Option SlotState) :
    (b.setSlot name s).slot other = if other = name then s else b.slot other := by
  simp [Board.setSlot, Function.update_apply]

theorem setQueued_queued (id other : TaskId) (s : Option String) :
    (b.setQueued id s).queued other = if other = id then s else b.queued other := by
  simp [Board.setQueued, Function.update_apply]

theorem setCapacity_capacity (id other : TaskId) (c : Option CapacityPending) :
    (b.setCapacity id c).capacity other = if other = id then c else b.capacity other := by
  simp [Board.setCapacity, Function.update_apply]

theorem setWatcher_watcher (id other : TaskId) (tx : Option OutcomeTx) :
    (b.setWatcher id tx).watcher other = if other = id then tx else b.watcher other := by
  simp [Board.setWatcher, Function.update_apply]

/-- A slot and the index change together. -/
theorem Coherent.reindex (h : Coherent b) {queued : TaskId → Option String}
    (hother : ∀ id n, n ≠ name → (queued id = some n ↔ b.queued id = some n))
    (hname : ∀ id, queued id = some name ↔ id ∈ ids slot') :
    ∀ id n, queued id = some n ↔
      ∃ s, (b.setSlot name (some slot')).slot n = some s ∧ id ∈ ids s := by
  intro id n
  rw [setSlot_slot]
  by_cases hn : n = name
  · subst hn
    simp [hname]
  · simpa [hn, hother id n hn] using h.index id n

theorem Coherent.nodup_set (h : Coherent b) (hn : (ids slot').Nodup) :
    ∀ n s, (b.setSlot name (some slot')).slot n = some s → (ids s).Nodup := by
  intro n s hs
  rw [setSlot_slot] at hs
  split at hs
  · exact Option.some.inj hs ▸ hn
  · exact h.nodup n s hs

/-- Only the phase of a slot changes. -/
theorem Coherent.rephase (h : Coherent b) (slot' : SlotState) (hslot : b.slot name = some slot) (hqueue : slot'.queue = slot.queue)
    (howner : ∀ id, slot'.ownerId = some id → b.queued id = none)
    (hholds : ∀ id entry, b.capacity id = some entry → entry.slotName = name → slot'.phase.undecided = some id) :
    Coherent (b.setSlot name (some slot')) := by
  have hids : ids slot' = ids slot := by rw [ids, ids, hqueue]
  exact
    { h with
      index := h.reindex (fun _ _ _ => Iff.rfl) fun id => (h.index id name).trans (by simp [hslot, hids])
      nodup := h.nodup_set (hids ▸ h.nodup name slot hslot)
      holds := fun id entry hentry => by
        obtain ⟨hid, s, hs, hu⟩ := h.holds id entry hentry
        refine ⟨hid, ?_⟩
        rw [setSlot_slot]
        split
        · next hn => exact ⟨slot', rfl, hholds id entry hentry hn⟩
        · exact ⟨s, hs, hu⟩
      owner := fun n s id hs ho => by
        rw [setSlot_slot] at hs
        split at hs
        · exact howner id (Option.some.inj hs ▸ ho)
        · exact h.owner n s id hs ho }

/-- No capacity entry refers to a slot whose owner is decided or absent. -/
theorem Coherent.no_entry (h : Coherent b) (hslot : b.slot name = some slot)
    (hu : ∀ id, slot.phase.undecided = some id → b.capacity id = none) {entry : CapacityPending}
    (hentry : b.capacity id = some entry) : entry.slotName ≠ name := by
  rintro rfl
  obtain ⟨-, s, hs, hs'⟩ := h.holds id entry hentry
  obtain rfl := Option.some.inj (hslot.symm.trans hs)
  simp [hu id hs'] at hentry

/-- The spelled-out index of one slot's own queue. -/
theorem Coherent.queued_iff (h : Coherent b) (hslot : b.slot name = some slot) (id : TaskId) :
    b.queued id = some name ↔ id ∈ ids slot := (h.index id name).trans (by simp [hslot])

theorem Coherent.queued_of_mem (h : Coherent b) (hslot : b.slot name = some slot) (hid : id ∈ ids slot) :
    b.queued id = some name := (h.queued_iff hslot id).mpr hid

/-- An identity leaves one slot's queue and the index. -/
theorem Coherent.dequeue (h : Coherent b) (slot' : SlotState) (hslot : b.slot name = some slot) (hid : id ∈ ids slot)
    (hphase : slot'.phase = slot.phase) (hids : ∀ x, x ∈ ids slot' ↔ x ≠ id ∧ x ∈ ids slot) (hnodup : (ids slot').Nodup)
    (hwatch : b.watcher id = none) : Coherent ((b.setSlot name (some slot')).setQueued id none) := by
  have hq : b.queued id = some name := h.queued_of_mem hslot hid
  have hle (x : TaskId) (hx : ((b.setSlot name (some slot')).setQueued id none).queued x ≠ none) : b.queued x ≠ none := by
    rw [setQueued_queued] at hx
    split at hx
    · exact absurd rfl hx
    · exact hx
  have hnone (x : TaskId) (hx : b.queued x = none) :
      ((b.setSlot name (some slot')).setQueued id none).queued x = none := by
    by_contra hne
    exact hle x hne hx
  exact
    { h with
      index := h.reindex
        (fun x n hn => by
          rw [setQueued_queued]
          split
          · next hx =>
            subst hx
            simp [hq, hn.symm]
          · exact Iff.rfl)
        fun x => by
          rw [setQueued_queued, hids]
          split
          · next hx => simp [hx]
          · next hx => exact (h.queued_iff hslot x).trans (by simp [hx])
      nodup := h.nodup_set hnodup
      disjoint := fun x hx => h.disjoint x (hle x hx)
      holds := fun x entry hentry => by
        obtain ⟨hpid, s, hs, hu⟩ := h.holds x entry hentry
        refine ⟨hpid, ?_⟩
        change ∃ s, (b.setSlot name (some slot')).slot entry.slotName = some s ∧ _
        rw [setSlot_slot]
        split
        · next hn =>
          obtain rfl := Option.some.inj ((hn ▸ hs).symm.trans hslot)
          exact ⟨slot', rfl, by rw [hphase]; exact hu⟩
        · exact ⟨s, hs, hu⟩
      owner := fun n s x hs ho => by
        refine hnone x ?_
        change (b.setSlot name (some slot')).slot n = some s at hs
        rw [setSlot_slot] at hs
        split at hs
        · obtain rfl := Option.some.inj hs
          exact h.owner name slot x hslot (by rw [SlotState.ownerId, ← hphase]; exact ho)
        · exact h.owner n s x hs ho
      watched := fun x hx => by
        rcases h.watched x hx with hq' | hc
        · refine .inl ?_
          rw [setQueued_queued, if_neg]
          · exact hq'
          · rintro rfl
            exact hx hwatch
        · exact .inr hc
      admitted := fun x hx => ⟨hnone x (h.admitted x hx).1, (h.admitted x hx).2⟩ }

/-- A new identity joins one slot's queue and the index. -/
theorem Coherent.enqueue (h : Coherent b) (slot' : SlotState) (hslot : b.slot name = some slot) (hfresh : ¬ Known b id)
    (hphase : slot'.phase = slot.phase) (hids : ∀ x, x ∈ ids slot' ↔ x = id ∨ x ∈ ids slot) (hnodup : (ids slot').Nodup) :
    Coherent ((b.setSlot name (some slot')).setQueued id (some name)) := by
  simp only [Known, not_or, not_exists, not_and, ne_eq, not_not] at hfresh
  obtain ⟨hq, hc, hw, ha, hh, ho⟩ := hfresh
  exact
    { h with
      index := h.reindex
        (fun x n hn => by
          rw [setQueued_queued]
          split
          · next hx =>
            subst hx
            simp [hq, hn.symm]
          · exact Iff.rfl)
        fun x => by
          rw [setQueued_queued, hids]
          split
          · next hx => simp [hx]
          · next hx => exact (h.queued_iff hslot x).trans (by simp [hx])
      nodup := h.nodup_set hnodup
      disjoint := fun x hx => by
        rw [setQueued_queued] at hx
        split at hx
        · next hx' => exact hx' ▸ hc
        · exact h.disjoint x hx
      holds := fun x entry hentry => by
        obtain ⟨hpid, s, hs, hu⟩ := h.holds x entry hentry
        refine ⟨hpid, ?_⟩
        change ∃ s, (b.setSlot name (some slot')).slot entry.slotName = some s ∧ _
        rw [setSlot_slot]
        split
        · next hn =>
          obtain rfl := Option.some.inj ((hn ▸ hs).symm.trans hslot)
          exact ⟨slot', rfl, by rw [hphase]; exact hu⟩
        · exact ⟨s, hs, hu⟩
      owner := fun n s x hs hx => by
        have hne : x ≠ id ∧ b.queued x = none := by
          change (b.setSlot name (some slot')).slot n = some s at hs
          rw [setSlot_slot] at hs
          split at hs
          · obtain rfl := Option.some.inj hs
            have hx' : slot.ownerId = some x := by rw [SlotState.ownerId, ← hphase]; exact hx
            exact ⟨fun he => ho name slot hslot (he ▸ hx'), h.owner name slot x hslot hx'⟩
          · exact ⟨fun he => ho n s hs (he ▸ hx), h.owner n s x hs hx⟩
        rw [setQueued_queued, if_neg hne.1]
        exact hne.2
      watched := fun x hx => by
        rcases h.watched x hx with hq' | hc'
        · refine .inl ?_
          rw [setQueued_queued]
          split
          · rintro ⟨⟩
          · exact hq'
        · exact .inr hc'
      admitted := fun x hx => by
        refine ⟨?_, (h.admitted x hx).2⟩
        rw [setQueued_queued, if_neg]
        · exact (h.admitted x hx).1
        · rintro rfl
          exact ha hx }

/-- Nothing but the six indexed fields counts. -/
theorem Coherent.of_eq {b' : Board} (h : Coherent b) (hs : b'.slot = b.slot) (hq : b'.queued = b.queued)
    (hc : b'.capacity = b.capacity) (hw : b'.watcher = b.watcher) (hp : b'.pump = b.pump)
    (ha : b'.admissions = b.admissions) : Coherent b' := by
  constructor
  · simpa only [hs, hq] using h.index
  · simpa only [hs] using h.nodup
  · simpa only [hq, hc] using h.disjoint
  · simpa only [hc, hp] using h.pump
  · simpa only [hp] using h.pump_nodup
  · simpa only [hc, hs] using h.holds
  · simpa only [hs, hq] using h.owner
  · simpa only [hw, hq, hc] using h.watched
  · simpa only [ha, hq, hc] using h.admitted

theorem Coherent.unwatch (h : Coherent b) (id : TaskId) : Coherent (b.setWatcher id none) :=
  { h with
    watched := fun x hx => by
      rw [setWatcher_watcher] at hx
      split at hx
      · exact absurd rfl hx
      · exact h.watched x hx }

theorem Coherent.watch (h : Coherent b) (id : TaskId) (hk : b.queued id ≠ none ∨ b.capacity id ≠ none) (done : Option OutcomeTx) :
    Coherent (b.setWatcher id done) :=
  { h with
    watched := fun x hx => by
      rw [setWatcher_watcher] at hx
      split at hx
      · next he => exact he ▸ hk
      · exact h.watched x hx }

theorem Coherent.untrack (h : Coherent b) (entry : TaskId × String) :
    Coherent { b with admissions := b.admissions.erase entry } :=
  { h with
    admitted := fun x hx => by
      obtain ⟨p, hp, rfl⟩ := List.mem_map.mp hx
      exact h.admitted p.1 (List.mem_map.mpr ⟨p, List.mem_of_mem_erase hp, rfl⟩) }

/-- A decided identity is tracked until the registry answers. -/
theorem Coherent.track (h : Coherent b) (id : TaskId) (hq : b.queued id = none) (hc : b.capacity id = none) (name : String) :
    Coherent { b with admissions := b.admissions ++ [(id, name)] } :=
  { h with
    admitted := fun x hx => by
      simp only [List.map_append, List.map_cons, List.map_nil, List.mem_append, List.mem_singleton] at hx
      rcases hx with hx | rfl
      · exact h.admitted x hx
      · exact ⟨hq, hc⟩ }

/-- A capacity waiter leaves the index and the pump. -/
theorem Coherent.unwait (h : Coherent b) (hpump : (waiting b.pump).Perm (id :: waiting pump)) (hwatch : b.watcher id = none) :
    Coherent ((b.setCapacity id none).setPump pump) := by
  have hnodup : (id :: waiting pump).Nodup := hpump.nodup_iff.mp h.pump_nodup
  have hle (x : TaskId) (hx : b.capacity x = none) : (b.setCapacity id none).capacity x = none := by
    rw [setCapacity_capacity]
    split
    · rfl
    · exact hx
  exact
    { h with
      disjoint := fun x hx => hle x (h.disjoint x hx)
      pump := fun x => by
        change (b.setCapacity id none).capacity x ≠ none ↔ x ∈ waiting pump
        rw [setCapacity_capacity]
        split
        · next hx => simpa [hx] using (List.nodup_cons.mp hnodup).1
        · next hx => rw [h.pump, hpump.mem_iff, List.mem_cons, or_iff_right hx]
      pump_nodup := (List.nodup_cons.mp hnodup).2
      holds := fun x entry hentry => by
        change (b.setCapacity id none).capacity x = some entry at hentry
        rw [setCapacity_capacity] at hentry
        split at hentry
        · cases hentry
        · exact h.holds x entry hentry
      watched := fun x hx => by
        rcases h.watched x hx with hq | hc
        · exact .inl hq
        · refine .inr ?_
          change (b.setCapacity id none).capacity x ≠ none
          rw [setCapacity_capacity, if_neg]
          · exact hc
          · rintro rfl
            exact hx hwatch
      admitted := fun x hx => ⟨(h.admitted x hx).1, hle x (h.admitted x hx).2⟩ }

/-- The owner of an undecided slot joins the capacity index and the pump. -/
theorem Coherent.wait (h : Coherent b) (taskName : String) (hslot : b.slot name = some slot)
    (hphase : slot.phase.undecided = some id) (hq : b.queued id = none) (hc : b.capacity id = none)
    (ha : id ∉ b.admissions.map Prod.fst) (hpump : b.pump.enqueue id = .ok pump) :
    Coherent ((b.setCapacity id (some ⟨name, ⟨id, taskName⟩⟩)).setPump pump) := by
  have hwaiting := waiting_enqueue hpump
  have hnot : id ∉ waiting b.pump := fun hm => (h.pump id).mpr hm hc
  exact
    { h with
      disjoint := fun x hx => by
        change (b.setCapacity id _).capacity x = none
        rw [setCapacity_capacity, if_neg]
        · exact h.disjoint x hx
        · rintro rfl
          exact hx hq
      pump := fun x => by
        change (b.setCapacity id _).capacity x ≠ none ↔ x ∈ waiting pump
        rw [setCapacity_capacity, hwaiting]
        split
        · next hx => simp [hx]
        · next hx => simpa [hx] using h.pump x
      pump_nodup := by
        change (waiting pump).Nodup
        rw [hwaiting]
        exact List.nodup_append.mpr ⟨h.pump_nodup, List.nodup_singleton _, fun x hx y hy =>
          fun he => hnot (List.mem_singleton.mp hy ▸ he ▸ hx)⟩
      holds := fun x entry hentry => by
        change (b.setCapacity id _).capacity x = some entry at hentry
        rw [setCapacity_capacity] at hentry
        split at hentry
        · next hx =>
          rw [← Option.some.inj hentry]
          exact ⟨hx.symm, slot, hslot, hx ▸ hphase⟩
        · exact h.holds x entry hentry
      watched := fun x hx => by
        rcases h.watched x hx with hq' | hc'
        · exact .inl hq'
        · refine .inr ?_
          change (b.setCapacity id _).capacity x ≠ none
          rw [setCapacity_capacity]
          split
          · exact nofun
          · exact hc'
      admitted := fun x hx => by
        refine ⟨(h.admitted x hx).1, ?_⟩
        change (b.setCapacity id _).capacity x = none
        rw [setCapacity_capacity, if_neg]
        · exact (h.admitted x hx).2
        · rintro rfl
          exact ha hx }

theorem Coherent.create (h : Coherent b) (hslot : b.slot name = none) : Coherent (b.setSlot name (some .new)) :=
  { h with
    index := h.reindex (fun _ _ _ => Iff.rfl) fun id => by
      refine (h.index id name).trans ?_
      simp [hslot, ids, SlotState.new]
    nodup := h.nodup_set List.nodup_nil
    holds := fun id entry hentry => by
      obtain ⟨hid, s, hs, hu⟩ := h.holds id entry hentry
      refine ⟨hid, s, ?_, hu⟩
      rw [setSlot_slot, if_neg]
      · exact hs
      · intro hn
        simp [hn, hslot] at hs
    owner := fun n s id hs ho => by
      rw [setSlot_slot] at hs
      split at hs
      · rw [← Option.some.inj hs] at ho
        cases ho
      · exact h.owner n s id hs ho }

theorem Coherent.collect (h : Coherent b) (hslot : b.slot name = some slot) (hidle : slot.phase = .idle)
    (hqueue : slot.queue = []) : Coherent (b.setSlot name none) :=
  { h with
    index := fun id n => by
      refine (h.index id n).trans ?_
      rw [setSlot_slot]
      split
      · next hn => simp [hn, hslot, ids, hqueue]
      · exact Iff.rfl
    nodup := fun n s hs => by
      rw [setSlot_slot] at hs
      split at hs
      · cases hs
      · exact h.nodup n s hs
    holds := fun id entry hentry => by
      obtain ⟨hid, s, hs, hu⟩ := h.holds id entry hentry
      refine ⟨hid, s, ?_, hu⟩
      rw [setSlot_slot, if_neg]
      · exact hs
      · intro hn
        rw [hn] at hs
        obtain rfl := Option.some.inj (hslot.symm.trans hs)
        simp [hidle, SlotPhase.undecided] at hu
    owner := fun n s id hs ho => by
      rw [setSlot_slot] at hs
      split at hs
      · cases hs
      · exact h.owner n s id hs ho }

/-- The owner leaves a slot; no capacity entry may refer to it any more. -/
theorem Coherent.clear (h : Coherent b) (hslot : b.slot name = some slot)
    (hu : ∀ id, slot.phase.undecided = some id → b.capacity id = none) :
    Coherent (b.setSlot name (some { slot with phase := .idle })) :=
  h.rephase _ hslot rfl nofun fun _ _ hentry hn => absurd hn (h.no_entry hslot hu hentry)

/-- The admitted owner becomes an accepted one. -/
theorem Coherent.accept (h : Coherent b) {owner : TaskId} (phase : SlotPhase) (hslot : b.slot name = some slot)
    (hphase : slot.phase.undecided = some owner) (howner : phase.ownerId = some owner)
    (hadm : (owner, name) ∈ b.admissions) : Coherent (b.setSlot name (some { slot with phase })) := by
  have hadm := h.admitted owner (List.mem_map.mpr ⟨_, hadm, rfl⟩)
  refine h.rephase _ hslot rfl ?_ ?_
  · intro id hid
    obtain rfl := Option.some.inj (howner.symm.trans hid)
    exact hadm.1
  · intro id entry hentry hn
    refine absurd hn (h.no_entry hslot ?_ hentry)
    intro x hx
    obtain rfl := Option.some.inj (hphase.symm.trans hx)
    exact hadm.2

theorem Coherent.retire (h : Coherent b) {phase : SlotPhase} (hslot : b.slot name = some slot)
    (howner : phase.ownerId = slot.phase.ownerId) (hund : phase.undecided = slot.phase.undecided) :
    Coherent (b.setSlot name (some { slot with phase })) := by
  refine h.rephase _ hslot rfl ?_ ?_
  · intro id hid
    exact h.owner name slot id hslot (howner.symm.trans hid)
  · intro id entry hentry hn
    obtain ⟨-, s, hs, hu⟩ := h.holds id entry hentry
    obtain rfl := Option.some.inj ((hn ▸ hs).symm.trans hslot)
    exact hund.trans hu

theorem idle_undecided (h : slot.phase = .idle) (id : TaskId) : slot.phase.undecided ≠ some id := by
  simp [h, SlotPhase.undecided]

/-- The front of an idle slot's queue becomes its undecided owner. -/
theorem Coherent.promote (h : Coherent b) {next : PendingSubmission} {rest : List PendingSubmission} (now : Instant)
    (hslot : b.slot name = some slot) (hidle : slot.phase = .idle) (hqueue : slot.queue = next :: rest)
    (hwatch : b.watcher next.id = none) :
    Coherent ((b.setSlot name (some ⟨.admitting next.id now, rest⟩)).setQueued next.id none) := by
  have hids : ids slot = next.id :: rest.map PendingSubmission.id := by rw [ids, hqueue, List.map_cons]
  have hnodup := h.nodup name slot hslot
  rw [hids, List.nodup_cons] at hnodup
  have hpop := h.dequeue { slot with queue := rest } hslot (hids ▸ List.mem_cons_self) rfl
    (fun x => by
      change x ∈ rest.map PendingSubmission.id ↔ _
      rw [hids, List.mem_cons]
      constructor
      · intro hx
        exact ⟨fun he => hnodup.1 (he ▸ hx), .inr hx⟩
      · rintro ⟨hne, hx⟩
        exact hx.resolve_left hne)
    hnodup.2 hwatch
  have hslot' : ((b.setSlot name (some { slot with queue := rest })).setQueued next.id none).slot name =
      some { slot with queue := rest } := by
    change (b.setSlot name _).slot name = _
    rw [setSlot_slot, if_pos rfl]
  have hbegin := hpop.rephase ⟨.admitting next.id now, rest⟩ hslot' rfl
    (fun id hid => by
      obtain rfl := Option.some.inj hid
      rw [setQueued_queued, if_pos rfl])
    (fun id entry hentry hn => absurd hn (hpop.no_entry hslot' (fun x hx => absurd hx (idle_undecided hidle x)) hentry))
  refine hbegin.of_eq ?_ rfl rfl rfl rfl rfl
  change _ = Function.update (Function.update b.slot name _) name _
  rw [Function.update_idem]
  rfl

theorem ids_eraseP (slot : SlotState) (id : TaskId) :
    ids { slot with queue := slot.queue.eraseP fun pending => decide (pending.id = id) } = (ids slot).erase id := by
  obtain ⟨phase, queue⟩ := slot
  simp only [ids]
  induction queue with
  | nil => rfl
  | cons pending queue ih =>
      by_cases hp : pending.id = id
      · simp [hp]
      · simp [hp, ih]

/-- An identity leaves a queue, the index and the watchers. -/
theorem Coherent.drop (h : Coherent b) (slot' : SlotState) (hslot : b.slot name = some slot) (hid : id ∈ ids slot)
    (hphase : slot'.phase = slot.phase) (hids : ids slot' = (ids slot).erase id) :
    Coherent (((b.setSlot name (some slot')).setQueued id none).setWatcher id none) := by
  have hnodup := h.nodup name slot hslot
  have hdrop := (h.unwatch id).dequeue slot' hslot hid hphase
    (fun x => by rw [hids, hnodup.mem_erase_iff]) (hids ▸ hnodup.erase id)
    (by rw [setWatcher_watcher, if_pos rfl])
  exact hdrop.of_eq rfl rfl rfl rfl rfl rfl

theorem Coherent.move {b' : Board} (h : Coherent b) (m : Move fin b b') : Coherent b' := by
  cases m with
  | create hslot => exact h.create hslot
  | collect hslot hidle hqueue => exact h.collect hslot hidle hqueue
  | retireAdmitting now hslot hphase => exact h.retire hslot (by rw [hphase]; rfl) (by rw [hphase]; rfl)
  | retireRunning now hslot hphase =>
      exact (h.retire hslot (by rw [hphase]; rfl) (by rw [hphase]; rfl)).of_eq rfl rfl rfl rfl rfl rfl
  | confirmAdmitting now hslot hphase htracked =>
      rename_i owner since
      have hacc := h.accept (.running owner now) hslot (by rw [hphase]; rfl) rfl htracked
      exact (hacc.untrack _).of_eq rfl rfl rfl rfl rfl rfl
  | confirmCancelled alive hslot hphase htracked =>
      rename_i owner since
      have hacc := h.accept (.terminating owner since) hslot (by rw [hphase]; rfl) rfl htracked
      exact (hacc.untrack _).of_eq rfl rfl rfl rfl rfl rfl
  | staleAdmission htracked hstale => exact h.untrack _
  | refuse hslot hphase htracked hfin =>
      have hadm := h.admitted _ (List.mem_map.mpr ⟨_, htracked, rfl⟩)
      have hclear := h.clear hslot fun id hid => by
        obtain rfl := Option.some.inj (hphase.symm.trans hid)
        exact hadm.2
      exact (hclear.untrack _).of_eq rfl rfl rfl rfl rfl rfl
  | complete hslot hphase htracked hfin =>
      refine (h.clear hslot fun id hid => ?_).of_eq rfl rfl rfl rfl rfl rfl
      rename_i slot _
      cases hp : slot.phase <;> simp_all [SlotPhase.undecided, SlotPhase.accepted]
  | staleCompletion htracked => exact h.of_eq rfl rfl rfl rfl rfl rfl
  | removed htracked => exact h.of_eq rfl rfl rfl rfl rfl rfl
  | promote now hslot hidle hqueue =>
      rename_i name slot next rest
      have hq := h.queued_of_mem hslot (show next.id ∈ ids slot by simp [ids, hqueue])
      have hp := (h.unwatch next.id).promote now hslot hidle hqueue (by rw [setWatcher_watcher, if_pos rfl])
      have ht := hp.track next.id (by rw [setQueued_queued, if_pos rfl]) (h.disjoint next.id (by simp [hq])) name
      exact ht.of_eq rfl rfl rfl rfl rfl rfl
  | promoteWait now hslot hidle hqueue hpump =>
      rename_i name slot next rest pump
      have hq := h.queued_of_mem hslot (show next.id ∈ ids slot by simp [ids, hqueue])
      have hp := (h.unwatch next.id).promote now hslot hidle hqueue (by rw [setWatcher_watcher, if_pos rfl])
      have hslot' : (((b.setWatcher next.id none).setSlot name (some ⟨.admitting next.id now, rest⟩)).setQueued next.id
          none).slot name = some ⟨.admitting next.id now, rest⟩ := by
        change (Board.setSlot _ name _).slot name = _
        rw [setSlot_slot, if_pos rfl]
      have hw := hp.wait next.taskName hslot' rfl (by rw [setQueued_queued, if_pos rfl]) (h.disjoint next.id (by simp [hq]))
        (fun ha => by simp [(h.admitted next.id ha).1] at hq) hpump
      have hback := hw.watch next.id (.inr (by
        change (Board.setCapacity _ next.id _).capacity next.id ≠ none
        rw [setCapacity_capacity, if_pos rfl]
        rintro ⟨⟩)) (b.watcher next.id)
      refine hback.of_eq rfl rfl rfl ?_ rfl rfl
      simp [Board.setWatcher, Board.setCapacity, Board.setPump, Board.setQueued, Board.setSlot]
  | promoteFail kind reason hslot hidle hqueue =>
      rename_i name slot next rest
      have hd := h.drop ⟨.idle, rest⟩ hslot (show next.id ∈ ids slot by simp [ids, hqueue]) hidle.symm
        (by simp [ids, hqueue])
      exact hd.of_eq rfl rfl rfl rfl rfl rfl
  | capacityCommit hentry hpump hlimit =>
      rename_i id entry pump
      have hq : b.queued id = none := by
        by_contra hq
        simp [h.disjoint id hq] at hentry
      have hu := (h.unwatch id).unwait hpump (by rw [setWatcher_watcher, if_pos rfl])
      have ht := hu.track entry.pending.id (by rw [(h.holds id entry hentry).1]; exact hq)
        (by
          rw [(h.holds id entry hentry).1]
          change (Board.setCapacity _ id none).capacity id = none
          rw [setCapacity_capacity, if_pos rfl])
        entry.slotName
      exact ht.of_eq rfl rfl rfl rfl rfl rfl
  | capacityFail kind reason hentry hpump hlimit hslot hphase =>
      rename_i id entry slot pump
      have hu := (h.unwatch id).unwait hpump (by rw [setWatcher_watcher, if_pos rfl])
      have hc := hu.clear hslot fun x hx => by
        obtain rfl := Option.some.inj (hphase.symm.trans hx)
        change (Board.setCapacity _ _ none).capacity _ = none
        rw [setCapacity_capacity, if_pos rfl]
      exact hc.of_eq rfl rfl rfl rfl rfl rfl
  | removeQueued kind reason hslot hid =>
      rename_i name slot id
      have hd := h.drop { slot with queue := slot.queue.eraseP fun pending => decide (pending.id = id) } hslot hid rfl
        (ids_eraseP slot id)
      exact hd.of_eq rfl rfl rfl rfl rfl rfl

theorem not_known_iff : ¬ Known b id ↔ b.queued id = none ∧ b.capacity id = none ∧ b.watcher id = none ∧
    id ∉ b.admissions.map Prod.fst ∧ id ∉ b.handed.map Handoff.id ∧
    ∀ name slot, b.slot name = some slot → slot.ownerId ≠ some id := by
  simp only [Known, not_or, not_exists, not_and, ne_eq, not_not]

/-- A fresh identity becomes the undecided owner of an idle slot. -/
theorem Coherent.begin (h : Coherent b) (hfresh : ¬ Known b id) (now : Instant) (hslot : b.slot name = some slot)
    (hidle : slot.phase = .idle) : Coherent (b.setSlot name (some { slot with phase := .admitting id now })) := by
  refine h.rephase _ hslot rfl ?_ ?_
  · intro x hx
    obtain rfl := Option.some.inj hx
    exact (not_known_iff.mp hfresh).1
  · intro x entry hentry hn
    exact absurd hn (h.no_entry hslot (fun y hy => absurd hy (idle_undecided hidle y)) hentry)

theorem Coherent.enter {sub : Submission} {b' : Board} (h : Coherent b) (hfresh : ¬ Known b sub.id)
    (m : Enter sub b b') : Coherent b' := by
  obtain ⟨hq, hc, hw, ha, hh, ho⟩ := not_known_iff.mp hfresh
  cases m with
  | turnAway kind reason => exact h.of_eq rfl rfl rfl rfl rfl rfl
  | start now hslot hidle =>
      have ht := (h.begin hfresh now hslot hidle).track sub.id hq hc sub.slotName
      exact ht.of_eq rfl rfl rfl rfl rfl rfl
  | wait now hslot hidle hpump =>
      rename_i slot pump
      have hslot' : (b.setSlot sub.slotName (some { slot with phase := .admitting sub.id now })).slot sub.slotName =
          some { slot with phase := .admitting sub.id now } := by
        rw [setSlot_slot, if_pos rfl]
      have hwait := (h.begin hfresh now hslot hidle).wait sub.taskName hslot' rfl hq hc ha hpump
      refine hwait.watch sub.id (.inr ?_) sub.done
      change (Board.setCapacity _ sub.id _).capacity sub.id ≠ none
      rw [setCapacity_capacity, if_pos rfl]
      exact nofun
  | append hslot hbusy =>
      rename_i slot
      have hnodup := h.nodup sub.slotName slot hslot
      have hnot : sub.id ∉ ids slot := fun hm => by simp [h.queued_of_mem hslot hm] at hq
      have hids : ids { slot with queue := slot.queue ++ [⟨sub.id, sub.taskName⟩] } = ids slot ++ [sub.id] := by
        simp [ids]
      have happ := h.enqueue { slot with queue := slot.queue ++ [⟨sub.id, sub.taskName⟩] } hslot hfresh rfl
        (fun x => by rw [hids, List.mem_append, List.mem_singleton, or_comm])
        (by
          rw [hids]
          exact List.nodup_append.mpr ⟨hnodup, List.nodup_singleton _, fun x hx y hy =>
            fun he => hnot (List.mem_singleton.mp hy ▸ he ▸ hx)⟩)
      refine happ.watch sub.id (.inl ?_) sub.done
      rw [setQueued_queued, if_pos rfl]
      exact nofun
  | displace hslot hbusy hqueue =>
      rename_i slot head rest
      have hhead : head.id ∈ ids slot := by simp [ids, hqueue]
      have hnodup := h.nodup sub.slotName slot hslot
      have hnot : sub.id ∉ ids slot := fun hm => by simp [h.queued_of_mem hslot hm] at hq
      have hids : ids slot = head.id :: rest.map PendingSubmission.id := by rw [ids, hqueue, List.map_cons]
      rw [hids, List.nodup_cons] at hnodup
      rw [hids, List.mem_cons, not_or] at hnot
      have hdrop := h.drop { slot with queue := rest } hslot hhead rfl (by simp [ids, hqueue])
      have hslot' : (((b.setSlot sub.slotName (some { slot with queue := rest })).setQueued head.id none).setWatcher
          head.id none).slot sub.slotName = some { slot with queue := rest } := by
        change (b.setSlot sub.slotName _).slot sub.slotName = _
        rw [setSlot_slot, if_pos rfl]
      have hunknown : ¬ Known (((b.setSlot sub.slotName (some { slot with queue := rest })).setQueued head.id
          none).setWatcher head.id none) sub.id := by
        refine not_known_iff.mpr ⟨?_, hc, ?_, ha, hh, ?_⟩
        · change (Board.setQueued _ head.id none).queued sub.id = none
          rw [setQueued_queued, if_neg hnot.1]
          exact hq
        · rw [setWatcher_watcher, if_neg hnot.1]
          exact hw
        · intro n s hs
          change (b.setSlot sub.slotName _).slot n = some s at hs
          rw [setSlot_slot] at hs
          split at hs
          · obtain rfl := Option.some.inj hs
            exact ho sub.slotName slot hslot
          · exact ho n s hs
      have hin := hdrop.enqueue { slot with queue := ⟨sub.id, sub.taskName⟩ :: rest } hslot' hunknown rfl
        (fun x => List.mem_cons) (List.nodup_cons.mpr ⟨hnot.2, hnodup.2⟩)
      have hwatch := hin.watch sub.id (.inl (by
        rw [setQueued_queued, if_pos rfl]
        exact nofun)) sub.done
      refine hwatch.of_eq ?_ rfl rfl rfl rfl rfl
      change _ = Function.update (Function.update b.slot sub.slotName _) sub.slotName _
      rw [Function.update_idem]
      rfl

theorem Coherent.moves {b' : Board} (h : Coherent b) (m : Moves fin b b') : Coherent b' := by
  induction m with
  | refl => exact h
  | tail _ m ih => exact ih.move m

section Unknown

/-- An unknown identity stays unknown when nothing of it changes. -/
theorem unknown_of {b' : Board} (hk : ¬ Known b id) (hq : b'.queued id = b.queued id)
    (hc : b'.capacity id = b.capacity id) (hw : b'.watcher id = b.watcher id)
    (ha : id ∈ b'.admissions.map Prod.fst → id ∈ b.admissions.map Prod.fst)
    (hh : id ∈ b'.handed.map Handoff.id → id ∈ b.handed.map Handoff.id)
    (ho : ∀ n s, b'.slot n = some s → s.ownerId = some id → ∃ n s, b.slot n = some s ∧ s.ownerId = some id) :
    ¬ Known b' id := by
  rintro (h | h | h | h | h | ⟨n, s, hs, h⟩)
  · exact hk (.inl (hq ▸ h))
  · exact hk (.inr (.inl (hc ▸ h)))
  · exact hk (.inr (.inr (.inl (hw ▸ h))))
  · exact hk (.inr (.inr (.inr (.inl (ha h)))))
  · exact hk (.inr (.inr (.inr (.inr (.inl (hh h))))))
  · exact hk (.inr (.inr (.inr (.inr (.inr (ho n s hs h))))))

/-- The new state of a slot has no owner it did not have. -/
theorem owner_frame {new : Option SlotState}
    (hnew : ∀ s, new = some s → s.ownerId = some id → ∃ n s, b.slot n = some s ∧ s.ownerId = some id) :
    ∀ n s, (b.setSlot name new).slot n = some s → s.ownerId = some id → ∃ n s, b.slot n = some s ∧ s.ownerId = some id := by
  intro n s hs ho
  rw [setSlot_slot] at hs
  split at hs
  · exact hnew s hs ho
  · exact ⟨n, s, hs, ho⟩

theorem owner_kept (hslot : b.slot name = some slot) (howner : slot'.ownerId = some id → slot.ownerId = some id) :
    ∀ n s, (b.setSlot name (some slot')).slot n = some s → s.ownerId = some id →
      ∃ n s, b.slot n = some s ∧ s.ownerId = some id := by
  refine owner_frame ?_
  rintro s ⟨⟩ ho
  exact ⟨name, slot, hslot, howner ho⟩

theorem mem_erase_fst {entry : TaskId × String} {l : List (TaskId × String)} (h : id ∈ (l.erase entry).map Prod.fst) :
    id ∈ l.map Prod.fst := List.map_subset _ List.erase_subset h

theorem unknown_ne_queued (h : Coherent b) (hk : ¬ Known b id) (hslot : b.slot name = some slot) {other : TaskId}
    (hother : other ∈ ids slot) : id ≠ other := by
  rintro rfl
  refine hk (.inl ?_)
  rw [h.queued_of_mem hslot hother]
  exact nofun

theorem unknown_ne_capacity (hk : ¬ Known b id) {other : TaskId} {entry : CapacityPending}
    (hentry : b.capacity other = some entry) : id ≠ other := by
  rintro rfl
  refine hk (.inr (.inl ?_))
  rw [hentry]
  exact nofun

theorem head_mem_ids {next : PendingSubmission} {rest : List PendingSubmission} (hqueue : slot.queue = next :: rest) :
    next.id ∈ ids slot := by simp [ids, hqueue]

theorem owner_admitting {next : TaskId} {now : Instant} {rest : List PendingSubmission} (hne : id ≠ next) :
    SlotState.ownerId ⟨.admitting next now, rest⟩ ≠ some id := fun ho => hne (Option.some.inj ho).symm

theorem mem_snoc_fst {other : TaskId} (hne : id ≠ other) (h : id ∈ (b.admissions ++ [(other, name)]).map Prod.fst) :
    id ∈ b.admissions.map Prod.fst := by
  rw [List.map_append, List.mem_append] at h
  exact h.resolve_right fun hm => hne (List.mem_singleton.mp hm)

theorem mem_handed_snoc {other : TaskId} {taskName : String} {done : Option OutcomeTx} (hne : id ≠ other)
    (h : id ∈ (b.handed ++ [(⟨other, taskName, done⟩ : Handoff)]).map Handoff.id) : id ∈ b.handed.map Handoff.id := by
  rw [List.map_append, List.mem_append] at h
  exact h.resolve_right fun hm => hne (List.mem_singleton.mp hm)

theorem unknown_move {b' : Board} (h : Coherent b) (m : Move fin b b') (hk : ¬ Known b id) : ¬ Known b' id := by
  cases m with
  | create hslot => exact unknown_of hk rfl rfl rfl (fun h => h) (fun h => h) (owner_frame (by rintro _ ⟨⟩; rintro ⟨⟩))
  | collect hslot hidle hqueue => exact unknown_of hk rfl rfl rfl (fun h => h) (fun h => h) (owner_frame (by rintro _ ⟨⟩))
  | retireAdmitting now hslot hphase =>
      refine unknown_of hk rfl rfl rfl (fun h => h) (fun h => h) (owner_kept hslot fun ho => ?_)
      simpa [SlotState.ownerId, SlotPhase.ownerId, hphase] using ho
  | retireRunning now hslot hphase =>
      refine unknown_of hk rfl rfl rfl (fun h => h) (fun h => h) (owner_kept hslot fun ho => ?_)
      simpa [SlotState.ownerId, SlotPhase.ownerId, hphase] using ho
  | confirmAdmitting now hslot hphase htracked =>
      refine unknown_of hk rfl rfl rfl mem_erase_fst (fun h => h) (owner_kept hslot fun ho => ?_)
      simpa [SlotState.ownerId, SlotPhase.ownerId, hphase] using ho
  | confirmCancelled alive hslot hphase htracked =>
      refine unknown_of hk rfl rfl rfl mem_erase_fst (fun h => h) (owner_kept hslot fun ho => ?_)
      simpa [SlotState.ownerId, SlotPhase.ownerId, hphase] using ho
  | staleAdmission htracked hstale => exact unknown_of hk rfl rfl rfl mem_erase_fst (fun h => h) fun n s hs ho => ⟨n, s, hs, ho⟩
  | refuse hslot hphase htracked hfin =>
      exact unknown_of hk rfl rfl rfl mem_erase_fst (fun h => h) (owner_frame (by rintro _ ⟨⟩; rintro ⟨⟩))
  | complete hslot hphase htracked hfin =>
      exact unknown_of hk rfl rfl rfl (fun h => h) (fun h => h) (owner_frame (by rintro _ ⟨⟩; rintro ⟨⟩))
  | staleCompletion htracked => exact unknown_of hk rfl rfl rfl (fun h => h) (fun h => h) fun n s hs ho => ⟨n, s, hs, ho⟩
  | removed htracked => exact unknown_of hk rfl rfl rfl (fun h => h) (fun h => h) fun n s hs ho => ⟨n, s, hs, ho⟩
  | promote now hslot hidle hqueue =>
      have hne := unknown_ne_queued h hk hslot (head_mem_ids hqueue)
      refine unknown_of hk ?_ rfl ?_ (mem_snoc_fst hne) (mem_handed_snoc hne) (owner_frame ?_)
      · exact (setQueued_queued _ _ _).trans (if_neg hne)
      · exact (setWatcher_watcher _ _ _).trans (if_neg hne)
      · rintro s ⟨⟩ ho
        exact absurd ho (owner_admitting hne)
  | promoteWait now hslot hidle hqueue hpump =>
      have hne := unknown_ne_queued h hk hslot (head_mem_ids hqueue)
      refine unknown_of hk ?_ ?_ rfl (fun h => h) (fun h => h) (owner_frame ?_)
      · exact (setQueued_queued _ _ _).trans (if_neg hne)
      · exact (setCapacity_capacity _ _ _).trans (if_neg hne)
      · rintro s ⟨⟩ ho
        exact absurd ho (owner_admitting hne)
  | promoteFail kind reason hslot hidle hqueue =>
      have hne := unknown_ne_queued h hk hslot (head_mem_ids hqueue)
      refine unknown_of hk ?_ rfl ?_ (fun h => h) (fun h => h) (owner_frame (by rintro _ ⟨⟩; rintro ⟨⟩))
      · exact (setQueued_queued _ _ _).trans (if_neg hne)
      · exact (setWatcher_watcher _ _ _).trans (if_neg hne)
  | capacityCommit hentry hpump hlimit =>
      have hne := unknown_ne_capacity hk hentry
      refine unknown_of hk rfl ?_ ?_ (mem_snoc_fst ?_) (mem_handed_snoc ?_) fun n s hs ho => ⟨n, s, hs, ho⟩
      · exact (setCapacity_capacity _ _ _).trans (if_neg hne)
      · exact (setWatcher_watcher _ _ _).trans (if_neg hne)
      all_goals
        rw [(h.holds _ _ hentry).1]
        exact hne
  | capacityFail kind reason hentry hpump hlimit hslot hphase =>
      have hne := unknown_ne_capacity hk hentry
      refine unknown_of hk rfl ?_ ?_ (fun h => h) (fun h => h) (owner_frame (by rintro _ ⟨⟩; rintro ⟨⟩))
      · exact (setCapacity_capacity _ _ _).trans (if_neg hne)
      · exact (setWatcher_watcher _ _ _).trans (if_neg hne)
  | removeQueued kind reason hslot hid =>
      have hne := unknown_ne_queued h hk hslot hid
      refine unknown_of hk ?_ rfl ?_ (fun h => h) (fun h => h) (owner_kept hslot fun ho => ho)
      · exact (setQueued_queued _ _ _).trans (if_neg hne)
      · exact (setWatcher_watcher _ _ _).trans (if_neg hne)

theorem unknown_moves {b' : Board} (h : Coherent b) (m : Moves fin b b') (hk : ¬ Known b id) : ¬ Known b' id := by
  induction m with
  | refl => exact hk
  | tail ms m ih => exact unknown_move (h.moves ms) m ih

/-- An entry makes no other identity known. -/
theorem unknown_enter {sub : Submission} {b' : Board} (h : Coherent b) (m : Enter sub b b') (hk : ¬ Known b id)
    (hne : id ≠ sub.id) : ¬ Known b' id := by
  cases m with
  | turnAway kind reason => exact unknown_of hk rfl rfl rfl (fun h => h) (fun h => h) fun n s hs ho => ⟨n, s, hs, ho⟩
  | start now hslot hidle =>
      refine unknown_of hk rfl rfl rfl (mem_snoc_fst hne) (mem_handed_snoc hne) (owner_frame ?_)
      rintro s ⟨⟩ ho
      exact absurd ho (owner_admitting hne)
  | wait now hslot hidle hpump =>
      refine unknown_of hk rfl ?_ ?_ (fun h => h) (fun h => h) (owner_frame ?_)
      · exact (setCapacity_capacity _ _ _).trans (if_neg hne)
      · exact (setWatcher_watcher _ _ _).trans (if_neg hne)
      · rintro s ⟨⟩ ho
        exact absurd ho (owner_admitting hne)
  | append hslot hbusy =>
      refine unknown_of hk ?_ rfl ?_ (fun h => h) (fun h => h) (owner_kept hslot fun ho => ho)
      · exact (setQueued_queued _ _ _).trans (if_neg hne)
      · exact (setWatcher_watcher _ _ _).trans (if_neg hne)
  | displace hslot hbusy hqueue =>
      have hhead := unknown_ne_queued h hk hslot (head_mem_ids hqueue)
      refine unknown_of hk ?_ rfl ?_ (fun h => h) (fun h => h) (owner_kept hslot fun ho => ho)
      · exact ((setQueued_queued _ _ _).trans (if_neg hne)).trans ((setQueued_queued _ _ _).trans (if_neg hhead))
      · exact ((setWatcher_watcher _ _ _).trans (if_neg hne)).trans ((setWatcher_watcher _ _ _).trans (if_neg hhead))

end Unknown

end Taskvisor.Controller.Coherence
