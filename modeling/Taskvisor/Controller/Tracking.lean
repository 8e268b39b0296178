import Taskvisor.Controller.Outcomes

namespace Taskvisor.Controller.Tracking

open Lib Runtime.Base Slot State Abstract Coherence Refinement Driver Index Outcomes

variable {b b' : Board} {name : String} {slot : SlotState} {new : Option SlotState} {id : TaskId}
  {place : TaskId → String} {fin : TaskId → Prop} {sub : Submission}

/-- The slot waits for the decision on its owner. -/
def Waits (b : Board) (id : TaskId) (name : String) : Prop :=
  ∃ slot, b.slot name = some slot ∧ slot.phase.undecided = some id

/-- The owner of the slot has been accepted. -/
def Runs (b : Board) (id : TaskId) (name : String) : Prop :=
  ∃ slot, b.slot name = some slot ∧ slot.phase.accepted = some id

/-- The futures of the loop are those of the current owners, every identity
stays with its own slot, and none is handed over twice. -/
structure Tracked (place : TaskId → String) (b : Board) : Prop where
  queued : ∀ id name, b.queued id = some name → place id = name
  owner : ∀ name slot id, b.slot name = some slot → slot.ownerId = some id → place id = name
  admission : ∀ id name, (id, name) ∈ b.admissions → Waits b id name
  completion : ∀ id name, (id, name) ∈ b.completions → Runs b id name
  admissions_nodup : b.admissions.Nodup
  completions_nodup : b.completions.Nodup
  unhanded : ∀ id ∈ b.handed.map Handoff.id, b.queued id = none ∧ b.capacity id = none
  handed_nodup : (b.handed.map Handoff.id).Nodup

theorem Waits.owner (h : Waits b id name) (hslot : b.slot name = some slot) : slot.phase.undecided = some id := by
  obtain ⟨s, hs, hu⟩ := h
  exact Option.some.inj (hslot.symm.trans hs) ▸ hu

theorem Runs.owner (h : Runs b id name) (hslot : b.slot name = some slot) : slot.phase.accepted = some id := by
  obtain ⟨s, hs, hu⟩ := h
  exact Option.some.inj (hslot.symm.trans hs) ▸ hu

theorem accepted_of_undecided (h : slot.phase.undecided = some id) : slot.phase.accepted = none := by
  cases hp : slot.phase <;> simp_all [SlotPhase.undecided, SlotPhase.accepted]

theorem undecided_of_accepted (h : slot.phase.accepted = some id) : slot.phase.undecided = none := by
  cases hp : slot.phase <;> simp_all [SlotPhase.undecided, SlotPhase.accepted]

/-- A future survives the change of one slot when that slot still answers it. -/
theorem admission_set {l : List (TaskId × String)} (h : ∀ id n, (id, n) ∈ l → n ≠ name → Waits b id n)
    (hname : ∀ id, (id, name) ∈ l → ∃ s, new = some s ∧ s.phase.undecided = some id) :
    ∀ id n, (id, n) ∈ l → Waits (b.setSlot name new) id n := by
  intro id n hm
  by_cases hn : n = name
  · subst hn
    obtain ⟨s, hs, hu⟩ := hname id hm
    exact ⟨s, by rw [setSlot_slot, if_pos rfl, hs], hu⟩
  · obtain ⟨s, hs, hu⟩ := h id n hm hn
    exact ⟨s, by rw [setSlot_slot, if_neg hn, hs], hu⟩

theorem completion_set {l : List (TaskId × String)} (h : ∀ id n, (id, n) ∈ l → n ≠ name → Runs b id n)
    (hname : ∀ id, (id, name) ∈ l → ∃ s, new = some s ∧ s.phase.accepted = some id) :
    ∀ id n, (id, n) ∈ l → Runs (b.setSlot name new) id n := by
  intro id n hm
  by_cases hn : n = name
  · subst hn
    obtain ⟨s, hs, hu⟩ := hname id hm
    exact ⟨s, by rw [setSlot_slot, if_pos rfl, hs], hu⟩
  · obtain ⟨s, hs, hu⟩ := h id n hm hn
    exact ⟨s, by rw [setSlot_slot, if_neg hn, hs], hu⟩

theorem owner_set (h : Tracked place b) (hnew : ∀ s id, new = some s → s.ownerId = some id → place id = name) :
    ∀ n s id, (b.setSlot name new).slot n = some s → s.ownerId = some id → place id = n := by
  intro n s id hs ho
  rw [setSlot_slot] at hs
  split at hs
  · next hn => exact hn ▸ hnew s id hs ho
  · exact h.owner n s id hs ho

/-- The slot changes its phase without touching a tracked future. -/
theorem Tracked.rephase (h : Tracked place b)
    (howner : ∀ s id, new = some s → s.ownerId = some id → place id = name)
    (hadm : ∀ id, (id, name) ∈ b.admissions → ∃ s, new = some s ∧ s.phase.undecided = some id)
    (hcom : ∀ id, (id, name) ∈ b.completions → ∃ s, new = some s ∧ s.phase.accepted = some id) :
    Tracked place (b.setSlot name new) :=
  { h with
    owner := owner_set h howner
    admission := admission_set (fun id n hm _ => h.admission id n hm) hadm
    completion := completion_set (fun id n hm _ => h.completion id n hm) hcom }

/-- Nothing is tracked for a slot without an owner. -/
theorem Tracked.vacant (h : Tracked place b) (hslot : ∀ slot, b.slot name = some slot → slot.phase = .idle) (id : TaskId) :
    (id, name) ∉ b.admissions ∧ (id, name) ∉ b.completions := by
  constructor
  · intro hm
    obtain ⟨s, hs, hu⟩ := h.admission id name hm
    rw [hslot s hs] at hu
    cases hu
  · intro hm
    obtain ⟨s, hs, hu⟩ := h.completion id name hm
    rw [hslot s hs] at hu
    cases hu

/-- Only the indexes, the watchers or the events change. -/
theorem Tracked.of_eq (h : Tracked place b) (hs : b'.slot = b.slot) (ha : b'.admissions = b.admissions)
    (hc : b'.completions = b.completions) (hh : b'.handed = b.handed)
    (hq : ∀ id n, b'.queued id = some n → place id = n)
    (hu : ∀ id ∈ b.handed.map Handoff.id, b'.queued id = none ∧ b'.capacity id = none) : Tracked place b' where
  queued := hq
  owner := hs ▸ h.owner
  admission := by
    rw [ha]
    intro id n hm
    obtain ⟨s, hslot, hw⟩ := h.admission id n hm
    exact ⟨s, hs ▸ hslot, hw⟩
  completion := by
    rw [hc]
    intro id n hm
    obtain ⟨s, hslot, hw⟩ := h.completion id n hm
    exact ⟨s, hs ▸ hslot, hw⟩
  admissions_nodup := ha ▸ h.admissions_nodup
  completions_nodup := hc ▸ h.completions_nodup
  unhanded := hh ▸ hu
  handed_nodup := hh ▸ h.handed_nodup

/-- A waiting owner is handed to the registry and its decision is tracked. -/
theorem Tracked.hand (h : Tracked place b) (taskName : String) (done : Option OutcomeTx) (hwaits : Waits b id name)
    (hfree : (id, name) ∉ b.admissions) (hhanded : id ∉ b.handed.map Handoff.id) (hq : b.queued id = none)
    (hc : b.capacity id = none) : Tracked place (b.hand id taskName name done) := by
  have hids : (b.hand id taskName name done).handed.map Handoff.id = b.handed.map Handoff.id ++ [id] := by
    simp [Board.hand]
  refine ⟨h.queued, h.owner, ?_, h.completion, ?_, h.completions_nodup, ?_, ?_⟩
  · intro x n hm
    rcases List.mem_append.mp hm with hm | hm
    · exact h.admission x n hm
    · obtain ⟨rfl, rfl⟩ := Prod.mk.inj (List.mem_singleton.mp hm)
      exact hwaits
  · refine List.nodup_append.mpr ⟨h.admissions_nodup, List.nodup_singleton _, ?_⟩
    rintro x hx y hy rfl
    exact hfree (List.mem_singleton.mp hy ▸ hx)
  · rw [hids]
    intro x hx
    rcases List.mem_append.mp hx with hx | hx
    · exact h.unhanded x hx
    · obtain rfl := List.mem_singleton.mp hx
      exact ⟨hq, hc⟩
  · rw [hids]
    refine List.nodup_append.mpr ⟨h.handed_nodup, List.nodup_singleton _, ?_⟩
    rintro x hx y hy rfl
    exact hhanded (List.mem_singleton.mp hy ▸ hx)

/-- The decision on an owner has come: its future is gone. -/
theorem Tracked.settle (h : Tracked place b) {owner : TaskId} (hslot : b.slot name = some slot)
    (hphase : slot.phase.undecided = some owner) {s : SlotState}
    (hs : s.ownerId = none ∨ s.phase.accepted = some owner) {more : List (TaskId × String)}
    (hmore : ∀ x ∈ more, x = (owner, name) ∧ s.phase.accepted = some owner) (hnodup : more.Nodup)
    (removals : List (TaskId × String)) :
    Tracked place { b.setSlot name (some s) with
      admissions := b.admissions.erase (owner, name), completions := b.completions ++ more, removals } := by
  have hnot (x : TaskId) : (x, name) ∉ b.completions := by
    intro hm
    have hr := (h.completion x name hm).owner hslot
    rw [accepted_of_undecided hphase] at hr
    cases hr
  refine ⟨h.queued, owner_set h ?_, ?_, ?_, h.admissions_nodup.erase _, ?_, h.unhanded, h.handed_nodup⟩
  · rintro t x ⟨⟩ ho
    rcases hs with hnone | hacc
    · cases hnone.symm.trans ho
    · obtain rfl := Option.some.inj ((SlotState.ownerId_of_accepted hacc).symm.trans ho)
      exact h.owner name slot _ hslot (SlotState.ownerId_of_undecided hphase)
  · refine admission_set (fun x n hm _ => h.admission x n (List.erase_subset hm)) ?_
    intro x hm
    have hu := (h.admission x name (List.erase_subset hm)).owner hslot
    obtain rfl := Option.some.inj (hphase.symm.trans hu)
    exact absurd hm h.admissions_nodup.not_mem_erase
  · refine completion_set ?_ ?_
    · intro x n hm hn
      rcases List.mem_append.mp hm with hm | hm
      · exact h.completion x n hm
      · exact absurd (Prod.mk.inj (hmore _ hm).1).2 hn
    · intro x hm
      rcases List.mem_append.mp hm with hm | hm
      · exact absurd hm (hnot x)
      · obtain ⟨he, hacc⟩ := hmore _ hm
        obtain ⟨rfl, -⟩ := Prod.mk.inj he
        exact ⟨s, rfl, hacc⟩
  · refine List.nodup_append.mpr ⟨h.completions_nodup, hnodup, ?_⟩
    rintro x hx y hy rfl
    rw [(hmore x hy).1] at hx
    exact hnot owner hx

/-- The accepted owner is over. -/
theorem Tracked.finish (h : Tracked place b) {owner : TaskId} (hslot : b.slot name = some slot)
    (hphase : slot.phase.accepted = some owner) :
    Tracked place { b.setSlot name (some { slot with phase := .idle }) with
      completions := b.completions.erase (owner, name) } := by
  refine ⟨h.queued, owner_set h (by rintro _ _ ⟨⟩ ⟨⟩), ?_, ?_, h.admissions_nodup, h.completions_nodup.erase _, h.unhanded,
    h.handed_nodup⟩
  · refine admission_set (fun x n hm _ => h.admission x n hm) ?_
    intro x hm
    have hu := (h.admission x name hm).owner hslot
    rw [undecided_of_accepted hphase] at hu
    cases hu
  · refine completion_set (fun x n hm _ => h.completion x n (List.erase_subset hm)) ?_
    intro x hm
    have hr := (h.completion x name (List.erase_subset hm)).owner hslot
    obtain rfl := Option.some.inj (hphase.symm.trans hr)
    exact absurd hm h.completions_nodup.not_mem_erase

theorem queued_clear (h : Tracked place b) (id : TaskId) :
    ∀ x n, (b.setQueued id none).queued x = some n → place x = n := by
  intro x n hq
  rw [setQueued_queued] at hq
  split at hq
  · cases hq
  · exact h.queued x n hq

theorem unhanded_clear (h : Tracked place b) (id : TaskId) :
    ∀ x ∈ b.handed.map Handoff.id, (b.setQueued id none).queued x = none ∧ b.capacity x = none := by
  intro x hx
  refine ⟨?_, (h.unhanded x hx).2⟩
  rw [setQueued_queued]
  split
  · rfl
  · exact (h.unhanded x hx).1

/-- An owner takes a slot that had none. -/
theorem Tracked.occupy (h : Tracked place b) (hidle : ∀ slot, b.slot name = some slot → slot.phase = .idle)
    (hplace : place id = name) (now : Instant) (queue : List PendingSubmission) :
    Tracked place (b.setSlot name (some ⟨.admitting id now, queue⟩)) := by
  refine h.rephase ?_ (fun x hm => absurd hm (h.vacant hidle x).1) (fun x hm => absurd hm (h.vacant hidle x).2)
  rintro s x ⟨⟩ ho
  obtain rfl := Option.some.inj ho
  exact hplace

theorem waits_occupied (id : TaskId) (name : String) (now : Instant) (queue : List PendingSubmission) :
    Waits (b.setSlot name (some ⟨.admitting id now, queue⟩)) id name :=
  ⟨_, by rw [setSlot_slot, if_pos rfl], rfl⟩

/-- The queue of a slot changes under its owner. -/
theorem Tracked.requeue (h : Tracked place b) (hslot : b.slot name = some slot) {s : SlotState} (hs : s.phase = slot.phase) :
    Tracked place (b.setSlot name (some s)) := by
  refine h.rephase ?_ ?_ ?_
  · rintro t x ⟨⟩ ho
    exact h.owner name slot x hslot (by rw [SlotState.ownerId, ← hs]; exact ho)
  · intro x hm
    exact ⟨s, rfl, hs ▸ (h.admission x name hm).owner hslot⟩
  · intro x hm
    exact ⟨s, rfl, hs ▸ (h.completion x name hm).owner hslot⟩

theorem unhanded_wait (h : Tracked place b) (hid : id ∉ b.handed.map Handoff.id) (entry : Option CapacityPending) :
    ∀ x ∈ b.handed.map Handoff.id, b.queued x = none ∧ (b.setCapacity id entry).capacity x = none := by
  intro x hx
  refine ⟨(h.unhanded x hx).1, ?_⟩
  have hne : x ≠ id := fun he => hid (he ▸ hx)
  rw [setCapacity_capacity, if_neg hne]
  exact (h.unhanded x hx).2

theorem idle_slot (hslot : b.slot name = some slot) (hidle : slot.phase = .idle) :
    ∀ s, b.slot name = some s → s.phase = .idle := by
  intro s hs
  rwa [← Option.some.inj (hslot.symm.trans hs)]

theorem Tracked.vacate (h : Tracked place b) (hidle : ∀ slot, b.slot name = some slot → slot.phase = .idle)
    (hnew : ∀ s, new = some s → s.phase = .idle) : Tracked place (b.setSlot name new) := by
  refine h.rephase ?_ (fun x hm => absurd hm (h.vacant hidle x).1) (fun x hm => absurd hm (h.vacant hidle x).2)
  intro s x hs ho
  rw [SlotState.ownerId, hnew s hs] at ho
  cases ho

theorem Tracked.move (h : Tracked place b) (hcoh : Coherent b) (m : Move fin b b') : Tracked place b' := by
  cases m with
  | create hslot => exact h.vacate (fun s hs => by cases hslot.symm.trans hs) (by rintro _ ⟨⟩; rfl)
  | collect hslot hidle hqueue => exact h.vacate (idle_slot hslot hidle) (by rintro _ ⟨⟩)
  | retireAdmitting now hslot hphase =>
      rename_i name slot owner since
      refine h.rephase ?_ ?_ ?_
      · rintro s x ⟨⟩ ho
        exact h.owner name slot x hslot (by rw [SlotState.ownerId, hphase]; exact ho)
      · intro x hm
        have hu := (h.admission x name hm).owner hslot
        rw [hphase] at hu
        exact ⟨_, rfl, hu⟩
      · intro x hm
        have hr := (h.completion x name hm).owner hslot
        rw [hphase] at hr
        cases hr
  | retireRunning now hslot hphase =>
      rename_i name slot owner since
      have hre : Tracked place (b.setSlot name (some { slot with phase := .terminating owner now })) := by
        refine h.rephase ?_ ?_ ?_
        · rintro s x ⟨⟩ ho
          exact h.owner name slot x hslot (by rw [SlotState.ownerId, hphase]; exact ho)
        · intro x hm
          have hu := (h.admission x name hm).owner hslot
          rw [hphase] at hu
          cases hu
        · intro x hm
          have hr := (h.completion x name hm).owner hslot
          rw [hphase] at hr
          exact ⟨_, rfl, hr⟩
      exact hre.of_eq rfl rfl rfl rfl h.queued h.unhanded
  | confirmAdmitting now hslot hphase htracked =>
      exact h.settle hslot (by rw [hphase]; rfl) (.inr rfl)
        (fun x hx => ⟨List.mem_singleton.mp hx, rfl⟩) (List.nodup_singleton _) _
  | confirmCancelled alive hslot hphase htracked =>
      exact h.settle hslot (by rw [hphase]; rfl) (.inr rfl)
        (fun x hx => ⟨List.mem_singleton.mp hx, rfl⟩) (List.nodup_singleton _) _
  | staleAdmission htracked hstale =>
      obtain ⟨s, hs, hu⟩ := h.admission _ _ htracked
      exact absurd hu (hstale s hs)
  | refuse hslot hphase htracked hfin =>
      rename_i name slot owner
      have hd := h.settle (s := { slot with phase := .idle }) hslot hphase (.inl rfl)
        (fun x hx => absurd hx List.not_mem_nil) List.nodup_nil b.removals
      rw [List.append_nil] at hd
      exact hd
  | complete hslot hphase htracked hfin => exact h.finish hslot hphase
  | staleCompletion htracked =>
      exact { h with
        completion := fun x n hm => h.completion x n (List.erase_subset hm)
        completions_nodup := h.completions_nodup.erase _ }
  | removed htracked => exact h.of_eq rfl rfl rfl rfl h.queued h.unhanded
  | promote now hslot hidle hqueue =>
      rename_i name slot next rest
      have hin : next.id ∈ ids slot := head_mem_ids hqueue
      have hq := hcoh.queued_of_mem hslot hin
      have hc : b.capacity next.id = none := hcoh.disjoint next.id (by rw [hq]; rintro ⟨⟩)
      have hocc := h.occupy (idle_slot hslot hidle) (h.queued next.id name hq) now rest
      have hclear : Tracked place ((b.setSlot name (some ⟨.admitting next.id now, rest⟩)).setQueued next.id none) :=
        hocc.of_eq rfl rfl rfl rfl (queued_clear hocc next.id) (unhanded_clear hocc next.id)
      have hhand := hclear.hand next.taskName (b.watcher next.id)
        (waits_occupied next.id name now rest) (h.vacant (idle_slot hslot hidle) next.id).1
        (fun hm => by cases hq.symm.trans (h.unhanded next.id hm).1) (by rw [setQueued_queued, if_pos rfl]) hc
      exact hhand.of_eq rfl rfl rfl rfl hhand.queued hhand.unhanded
  | promoteWait now hslot hidle hqueue hpump =>
      rename_i name slot next rest pump
      have hq := hcoh.queued_of_mem hslot (head_mem_ids hqueue)
      have hocc := h.occupy (idle_slot hslot hidle) (h.queued next.id name hq) now rest
      have hclear : Tracked place ((b.setSlot name (some ⟨.admitting next.id now, rest⟩)).setQueued next.id none) :=
        hocc.of_eq rfl rfl rfl rfl (queued_clear hocc next.id) (unhanded_clear hocc next.id)
      have hnot : next.id ∉ b.handed.map Handoff.id := fun hm => by cases hq.symm.trans (h.unhanded next.id hm).1
      exact hclear.of_eq rfl rfl rfl rfl hclear.queued (unhanded_wait hclear hnot (some ⟨name, next⟩))
  | promoteFail kind reason hslot hidle hqueue =>
      rename_i name slot next rest
      have hvac : Tracked place (b.setSlot name (some ⟨.idle, rest⟩)) :=
        h.vacate (idle_slot hslot hidle) (by rintro _ ⟨⟩; rfl)
      exact hvac.of_eq rfl rfl rfl rfl (queued_clear hvac next.id) (unhanded_clear hvac next.id)
  | capacityCommit hentry hpump hlimit =>
      rename_i id entry pump
      obtain ⟨hid, hwaits⟩ := hcoh.holds id entry hentry
      have hnot : id ∉ b.handed.map Handoff.id := fun hm => by cases hentry.symm.trans (h.unhanded id hm).2
      have hfree : (id, entry.slotName) ∉ b.admissions := fun hm => by
        cases hentry.symm.trans (hcoh.admitted id (List.mem_map_of_mem hm)).2
      have hq : b.queued id = none := by
        by_contra hq
        cases hentry.symm.trans (hcoh.disjoint id hq)
      have hclear : Tracked place ((b.setCapacity id none).setPump pump) :=
        h.of_eq rfl rfl rfl rfl h.queued (unhanded_wait h hnot none)
      have hhand := hclear.hand entry.pending.taskName (b.watcher id) hwaits hfree hnot hq
        (show (Board.setCapacity b id none).capacity id = none by rw [setCapacity_capacity, if_pos rfl])
      rw [hid]
      exact hhand.of_eq rfl rfl rfl rfl hhand.queued hhand.unhanded
  | capacityFail kind reason hentry hpump hlimit hslot hphase =>
      rename_i id entry slot pump
      have hre : Tracked place (b.setSlot entry.slotName (some { slot with phase := .idle })) := by
        refine h.rephase (by rintro _ _ ⟨⟩ ⟨⟩) ?_ ?_
        · intro x hm
          have hu := (h.admission x _ hm).owner hslot
          obtain rfl := Option.some.inj (hphase.symm.trans hu)
          cases hentry.symm.trans (hcoh.admitted _ (List.mem_map_of_mem hm)).2
        · intro x hm
          have hr := (h.completion x _ hm).owner hslot
          rw [accepted_of_undecided hphase] at hr
          cases hr
      have hnot : id ∉ b.handed.map Handoff.id := fun hm => by cases hentry.symm.trans (h.unhanded id hm).2
      exact hre.of_eq rfl rfl rfl rfl hre.queued (unhanded_wait hre hnot none)
  | removeQueued kind reason hslot hid =>
      rename_i name slot id
      have hre : Tracked place (b.setSlot name (some { slot with
          queue := slot.queue.eraseP fun pending => decide (pending.id = id) })) := h.requeue hslot rfl
      exact hre.of_eq rfl rfl rfl rfl (queued_clear hre id) (unhanded_clear hre id)

theorem Tracked.moves (h : Tracked place b) (hcoh : Coherent b) (m : Moves fin b b') : Tracked place b' := by
  induction m with
  | refl => exact h
  | tail ms m ih => exact ih.move (hcoh.moves ms) m

theorem queued_join (h : Tracked place b) (hplace : place id = name) :
    ∀ x n, (b.setQueued id (some name)).queued x = some n → place x = n := by
  intro x n hq
  rw [setQueued_queued] at hq
  split at hq
  · next he => exact he ▸ hplace.trans (Option.some.inj hq)
  · exact h.queued x n hq

theorem unhanded_join (h : Tracked place b) (hid : id ∉ b.handed.map Handoff.id) (name : Option String) :
    ∀ x ∈ b.handed.map Handoff.id, (b.setQueued id name).queued x = none ∧ b.capacity x = none := by
  intro x hx
  refine ⟨?_, (h.unhanded x hx).2⟩
  have hne : x ≠ id := fun he => hid (he ▸ hx)
  rw [setQueued_queued, if_neg hne]
  exact (h.unhanded x hx).1

theorem Tracked.enter (h : Tracked place b) (hunknown : ¬ Known b sub.id) (hplace : place sub.id = sub.slotName)
    (m : Enter sub b b') : Tracked place b' := by
  obtain ⟨hq, hc, hw, ha, hnot, ho⟩ := not_known_iff.mp hunknown
  cases m with
  | turnAway kind reason => exact h.of_eq rfl rfl rfl rfl h.queued h.unhanded
  | start now hslot hidle =>
      rename_i slot
      have hocc := h.occupy (idle_slot hslot hidle) hplace now slot.queue
      exact hocc.hand sub.taskName sub.done (waits_occupied sub.id sub.slotName now slot.queue)
        (h.vacant (idle_slot hslot hidle) sub.id).1 hnot hq hc
  | wait now hslot hidle hpump =>
      rename_i slot pump
      have hocc := h.occupy (idle_slot hslot hidle) hplace now slot.queue
      exact hocc.of_eq rfl rfl rfl rfl hocc.queued (unhanded_wait hocc hnot _)
  | append hslot hbusy =>
      rename_i slot
      have hre : Tracked place (b.setSlot sub.slotName (some { slot with
          queue := slot.queue ++ [⟨sub.id, sub.taskName⟩] })) := h.requeue hslot rfl
      exact hre.of_eq rfl rfl rfl rfl (queued_join hre hplace) (unhanded_join hre hnot _)
  | displace hslot hbusy hqueue =>
      rename_i slot head rest
      have hre : Tracked place (b.setSlot sub.slotName (some { slot with
          queue := ⟨sub.id, sub.taskName⟩ :: rest })) := h.requeue hslot rfl
      have hclear : Tracked place ((b.setSlot sub.slotName (some { slot with
          queue := ⟨sub.id, sub.taskName⟩ :: rest })).setQueued head.id none) :=
        hre.of_eq rfl rfl rfl rfl (queued_clear hre head.id) (unhanded_clear hre head.id)
      exact hclear.of_eq rfl rfl rfl rfl (queued_join hclear hplace) (unhanded_join hclear hnot _)

section Retired

/-- A rejected identity is nowhere any more. -/
def Retired (b : Board) : Prop := ∀ id ∈ b.rejected.map Prod.fst, ¬ Known b id

/-- An identity that only waited in a queue is forgotten when it leaves it. -/
theorem forgotten_queued (h : Tracked place b) (hcoh : Coherent b) (hq : b.queued id = some name)
    (hq' : b'.queued id = none) (hc : b'.capacity = b.capacity) (hw : b'.watcher id = none)
    (ha : b'.admissions = b.admissions) (hh : b'.handed = b.handed)
    (ho : ∀ n s, b'.slot n = some s → s.ownerId = some id → ∃ n s, b.slot n = some s ∧ s.ownerId = some id) :
    ¬ Known b' id := by
  refine not_known_iff.mpr ⟨hq', ?_, hw, ?_, ?_, ?_⟩
  · rw [hc]
    exact hcoh.disjoint id (by rw [hq]; exact nofun)
  · rw [ha]
    exact fun hm => by cases hq.symm.trans (hcoh.admitted id hm).1
  · rw [hh]
    exact fun hm => by cases hq.symm.trans (h.unhanded id hm).1
  · intro n s hs howner
    obtain ⟨m, t, ht, hown⟩ := ho n s hs howner
    cases hq.symm.trans (hcoh.owner m t id ht hown)

theorem mem_rejected_snoc {rejected : List (TaskId × RejectionKind × String)} {other : TaskId} {kind : RejectionKind}
    {reason : String} (h : id ∈ (rejected ++ [(other, kind, reason)]).map Prod.fst) :
    id ∈ rejected.map Prod.fst ∨ id = other := by
  rw [List.map_append, List.mem_append] at h
  exact h.imp_right fun hm => List.mem_singleton.mp hm

/-- The same, for an identity that waited for capacity. -/
theorem forgotten_capacity (h : Tracked place b) (hcoh : Coherent b) {entry : CapacityPending} (kind : RejectionKind)
    (reason : String) (pump : CapacityAdmissionPump) (hentry : b.capacity id = some entry) :
    ¬ Known ((((b.setCapacity id none).setPump pump).setSlot entry.slotName
      (some { slot with phase := .idle })).rejectParked id kind reason) id := by
  obtain ⟨-, s, hs, hu⟩ := hcoh.holds id entry hentry
  refine not_known_iff.mpr ⟨?_, ?_, ?_, ?_, ?_, ?_⟩
  · by_contra hq
    cases hentry.symm.trans (hcoh.disjoint id hq)
  · exact (setCapacity_capacity id id none).trans (if_pos rfl)
  · exact (setWatcher_watcher id id none).trans (if_pos rfl)
  · exact fun hm => by cases hentry.symm.trans (hcoh.admitted id hm).2
  · exact fun hm => by cases hentry.symm.trans (h.unhanded id hm).2
  · intro n t ht howner
    change (b.setSlot entry.slotName _).slot n = some t at ht
    rw [setSlot_slot] at ht
    split at ht
    · obtain rfl := Option.some.inj ht
      cases howner
    · next hn =>
      have hplace := h.owner n t id ht howner
      rw [h.owner entry.slotName s id hs (SlotState.ownerId_of_undecided hu)] at hplace
      exact hn hplace.symm

theorem Retired.move (hr : Retired b) (h : Tracked place b) (hcoh : Coherent b) (m : Move fin b b') : Retired b' := by
  have hold (id : TaskId) (hid : id ∈ b.rejected.map Prod.fst) : ¬ Known b' id := unknown_move hcoh m (hr id hid)
  cases m with
  | promoteFail kind reason hslot hidle hqueue =>
      intro id hid
      rcases mem_rejected_snoc hid with hid | rfl
      · exact hold id hid
      · refine forgotten_queued h hcoh (hcoh.queued_of_mem hslot (head_mem_ids hqueue)) ?_ rfl ?_ rfl rfl
          (owner_frame (by rintro _ ⟨⟩; rintro ⟨⟩))
        · exact (setQueued_queued _ _ _).trans (if_pos rfl)
        · exact (setWatcher_watcher _ _ _).trans (if_pos rfl)
  | capacityFail kind reason hentry hpump hlimit hslot hphase =>
      intro id hid
      rcases mem_rejected_snoc hid with hid | rfl
      · exact hold id hid
      · exact forgotten_capacity h hcoh kind reason _ hentry
  | removeQueued kind reason hslot hin =>
      intro id hid
      rcases mem_rejected_snoc hid with hid | rfl
      · exact hold id hid
      · refine forgotten_queued h hcoh (hcoh.queued_of_mem hslot hin) ?_ rfl ?_ rfl rfl (owner_kept hslot fun ho => ho)
        · exact (setQueued_queued _ _ _).trans (if_pos rfl)
        · exact (setWatcher_watcher _ _ _).trans (if_pos rfl)
  | _ => exact hold

theorem Retired.moves (hr : Retired b) (h : Tracked place b) (hcoh : Coherent b) (m : Moves fin b b') : Retired b' := by
  induction m with
  | refl => exact hr
  | tail ms m ih => exact ih.move (h.moves hcoh ms) (hcoh.moves ms) m

theorem Retired.enter (hr : Retired b) (h : Tracked place b) (hcoh : Coherent b) (hunknown : ¬ Known b sub.id)
    (hnew : sub.id ∉ b.rejected.map Prod.fst) (m : Enter sub b b') : Retired b' := by
  have hold (id : TaskId) (hid : id ∈ b.rejected.map Prod.fst) : ¬ Known b' id :=
    unknown_enter hcoh m (hr id hid) fun he => hnew (he ▸ hid)
  cases m with
  | turnAway kind reason =>
      intro id hid
      rcases mem_rejected_snoc hid with hid | rfl
      · exact hold id hid
      · exact unknown_of hunknown rfl rfl rfl (fun h => h) (fun h => h) fun n s hs ho => ⟨n, s, hs, ho⟩
  | displace hslot hbusy hqueue =>
      rename_i slot head rest
      have hin : head.id ∈ ids slot := head_mem_ids hqueue
      have hne := unknown_ne_queued hcoh hunknown hslot hin
      intro id hid
      rcases mem_rejected_snoc hid with hid | rfl
      · exact hold id hid
      · refine forgotten_queued h hcoh (hcoh.queued_of_mem hslot hin) ?_ rfl ?_ rfl rfl (owner_kept hslot fun ho => ho)
        · exact ((setQueued_queued _ _ _).trans (if_neg hne.symm)).trans ((setQueued_queued _ _ _).trans (if_pos rfl))
        · exact ((setWatcher_watcher _ _ _).trans (if_neg hne.symm)).trans ((setWatcher_watcher _ _ _).trans (if_pos rfl))
  | _ => exact hold

/-- Only an identity the controller knows is rejected by a move. -/
theorem rejected_move (hcoh : Coherent b) (m : Move fin b b') (hid : id ∈ b'.rejected.map Prod.fst) :
    id ∈ b.rejected.map Prod.fst ∨ Known b id := by
  have hqueued {n : String} {s : SlotState} (hslot : b.slot n = some s) (hin : id ∈ ids s) : Known b id :=
    .inl (by rw [hcoh.queued_of_mem hslot hin]; exact nofun)
  cases m with
  | promoteFail kind reason hslot hidle hqueue =>
      refine (mem_rejected_snoc hid).imp_right ?_
      rintro rfl
      exact hqueued hslot (head_mem_ids hqueue)
  | capacityFail kind reason hentry hpump hlimit hslot hphase =>
      refine (mem_rejected_snoc hid).imp_right ?_
      rintro rfl
      exact .inr (.inl (by rw [hentry]; exact nofun))
  | removeQueued kind reason hslot hin =>
      refine (mem_rejected_snoc hid).imp_right ?_
      rintro rfl
      exact hqueued hslot hin
  | _ => exact .inl hid

theorem rejected_moves (hcoh : Coherent b) (m : Moves fin b b') (hid : id ∈ b'.rejected.map Prod.fst) :
    id ∈ b.rejected.map Prod.fst ∨ Known b id := by
  induction m with
  | refl => exact .inl hid
  | tail ms m ih =>
      rcases rejected_move (hcoh.moves ms) m hid with hr | hk
      · exact ih hr
      · exact .inr (by_contra fun hn => unknown_moves hcoh ms hn hk)

theorem rejected_enter (hcoh : Coherent b) (m : Enter sub b b') (hid : id ∈ b'.rejected.map Prod.fst) :
    id ∈ b.rejected.map Prod.fst ∨ Known b id ∨ id = sub.id := by
  cases m with
  | turnAway kind reason => exact (mem_rejected_snoc hid).imp_right .inr
  | displace hslot hbusy hqueue =>
      refine (mem_rejected_snoc hid).imp_right ?_
      rintro rfl
      exact .inl (.inl (by rw [hcoh.queued_of_mem hslot (head_mem_ids hqueue)]; exact nofun))
  | _ => exact .inl hid

end Retired

/-- The slot of every submission the command queue has seen. -/
def Placing (place : TaskId → String) (w : World) : Prop := ∀ sub ∈ submissions w.log, place sub.id = sub.slotName

variable {cfg : ControllerConfig} {w : World}

theorem Tracked.init (place : TaskId → String) (cfg : ControllerConfig) : Tracked place (board (Engine.new cfg)) where
  queued := fun id name h => by simp [board, Engine.new] at h
  owner := fun name slot id h => by simp [board, Engine.new] at h
  admission := nofun
  completion := nofun
  admissions_nodup := List.nodup_nil
  completions_nodup := List.nodup_nil
  unhanded := nofun
  handed_nodup := List.nodup_nil

/-- The identities with a rejection event. -/
def rejectedIds (e : Engine) : List TaskId := (board e).rejected.map Prod.fst

/-- The tracked state of a running loop, with everything it has turned away. -/
structure Bound (w : World) : Prop where
  tracked : ∀ place, Placing place w → Tracked place (board w.engine)
  retired : Retired (board w.engine)
  seen : ∀ id ∈ rejectedIds w.engine, id ∈ (submissions w.log).map Submission.id
  apart : ∀ sub ∈ submissions w.commands, sub.id ∉ rejectedIds w.engine

theorem exists_placing (hw : (machine cfg).Reachable w) : ∃ place, Placing place w := by
  refine ⟨fun id => (((submissions w.log).find? fun sub => decide (sub.id = id)).map Submission.slotName).getD "", ?_⟩
  intro sub hsub
  obtain ⟨found, hfound⟩ := Option.isSome_iff_exists.mp
    (show ((submissions w.log).find? fun s => decide (s.id = sub.id)).isSome by
      rw [List.find?_isSome]
      exact ⟨sub, hsub, decide_eq_true rfl⟩)
  have hid : found.id = sub.id := by simpa using List.find?_some hfound
  have hsame : found = sub := (accounted_of_reachable hw).unique found (List.mem_of_find?_eq_some hfound) sub hsub (.inl hid)
  simp [hfound, hsame]

theorem Bound.moves (h : Bound w) (hsane : Sane w) (hplacing : ∃ place, Placing place w)
    {commands : List ControllerCommand} {e : Engine}
    (hmoves : Moves fin (board w.engine) (board e)) (hcommands : submissions commands = submissions w.commands) :
    Bound { w with commands, engine := e } := by
  obtain ⟨place, hplace⟩ := hplacing
  refine ⟨fun place hplace => (h.tracked place hplace).moves hsane.coherent hmoves,
    h.retired.moves (h.tracked place hplace) hsane.coherent hmoves, ?_, ?_⟩
  · intro id hid
    rcases rejected_moves hsane.coherent hmoves hid with hr | hk
    · exact h.seen id hr
    · exact hsane.known id hk
  · intro sub hsub hid
    have hsub : sub ∈ submissions w.commands := hcommands ▸ hsub
    rcases rejected_moves hsane.coherent hmoves hid with hr | hk
    · exact h.apart sub hsub hr
    · exact hsane.unknown sub hsub hk

theorem Bound.submitted (h : Bound w) (hsane : Sane w) (hplacing : ∃ place, Placing place w) {rest : List ControllerCommand}
    {e : Engine} (hcommands : w.commands = .submit sub :: rest)
    (hentered : ∃ b, Moves fin (board w.engine) b ∧ Entered fin sub b (board e)) :
    Bound { w with commands := rest, engine := e } := by
  have hsubs : submissions w.commands = sub :: submissions rest := by
    rw [hcommands]
    rfl
  have hsub : sub ∈ submissions w.commands := hsubs ▸ List.mem_cons_self
  have hnodup := hsane.nodup
  rw [hsubs, List.map_cons, List.nodup_cons] at hnodup
  obtain ⟨c, hmoves, d, henter, hafter⟩ := hentered
  have hcoh := hsane.coherent
  have hc := hcoh.moves hmoves
  have hck := unknown_moves hcoh hmoves (hsane.unknown sub hsub)
  have hd := hc.enter hck henter
  have htracked (place : TaskId → String) (hplace : Placing place w) : Tracked place d :=
    ((h.tracked place hplace).moves hcoh hmoves).enter hck (hplace sub (hsane.logged sub hsub)) henter
  have hback (id : TaskId) (hid : id ∈ (board e).rejected.map Prod.fst) :
      id ∈ rejectedIds w.engine ∨ Known (board w.engine) id ∨ id = sub.id := by
    have hknown {x : TaskId} (hk : Known c x) : Known (board w.engine) x := by_contra fun hn => unknown_moves hcoh hmoves hn hk
    have hcr {x : TaskId} (hr : x ∈ c.rejected.map Prod.fst) :
        x ∈ rejectedIds w.engine ∨ Known (board w.engine) x ∨ x = sub.id :=
      (rejected_moves hcoh hmoves hr).imp_right .inl
    rcases rejected_moves hd hafter hid with hr | hk
    · rcases rejected_enter hc henter hr with hr | hk | he
      · exact hcr hr
      · exact .inr (.inl (hknown hk))
      · exact .inr (.inr he)
    · by_cases he : id = sub.id
      · exact .inr (.inr he)
      · exact .inr (.inl (hknown (by_contra fun hn => unknown_enter hc henter hn he hk)))
  obtain ⟨place, hplace⟩ := hplacing
  have hrc := h.retired.moves (h.tracked place hplace) hcoh hmoves
  have hfresh : sub.id ∉ c.rejected.map Prod.fst := by
    intro hr
    rcases rejected_moves hcoh hmoves hr with hr | hk
    · exact h.apart sub hsub hr
    · exact hsane.unknown sub hsub hk
  have hrd := hrc.enter ((h.tracked place hplace).moves hcoh hmoves) hc hck hfresh henter
  refine ⟨fun place hplace => (htracked place hplace).moves hd hafter, hrd.moves (htracked place hplace) hd hafter, ?_, ?_⟩
  · intro id hid
    rcases hback id hid with hr | hk | rfl
    · exact h.seen id hr
    · exact hsane.known id hk
    · exact List.mem_map_of_mem (hsane.logged sub hsub)
  · intro s hs hid
    have hs' : s ∈ submissions w.commands := hsubs ▸ List.mem_cons_of_mem _ hs
    rcases hback s.id hid with hr | hk | he
    · exact h.apart s hs' hr
    · exact hsane.unknown s hs' hk
    · exact hnodup.1 (he ▸ List.mem_map_of_mem hs)

theorem Bound.issue (h : Bound w) (command : ControllerCommand) (hfresh : fresh w.log command = true) :
    Bound (w.issue command) := by
  have hlog : submissions (w.issue command).log = submissions w.log ++ (submission? command).toList := submissions_snoc ..
  have hcommands : submissions (w.issue command).commands = submissions w.commands ++ (submission? command).toList :=
    submissions_snoc ..
  refine ⟨?_, h.retired, ?_, ?_⟩
  · intro place hplace
    refine h.tracked place fun sub hsub => hplace sub ?_
    rw [hlog]
    exact List.mem_append_left _ hsub
  · intro id hid
    rw [hlog, List.map_append]
    exact List.mem_append_left _ (h.seen id hid)
  · intro sub hsub hid
    rw [hcommands, List.mem_append] at hsub
    rcases hsub with hsub | hsub
    · exact h.apart sub hsub hid
    · cases command with
      | manageIdentity id operation reply => cases hsub
      | submit s =>
          obtain rfl := List.mem_singleton.mp hsub
          exact fresh_id hfresh (h.seen sub.id hid)

theorem bound_of_reachable (hw : (machine cfg).Reachable w) : w.phase = .looping → Bound w := by
  refine hw.invariant (P := fun w => w.phase = .looping → Bound w) (fun _ => ?_) ?_
  · exact ⟨fun place _ => .init place cfg, nofun, nofun, nofun⟩
  intro w a w' hw ih hstep hphase'
  have hphase := looping_before hstep hphase'
  have hsane := sane_of_reachable hw hphase
  have hplacing := exists_placing hw
  cases hsane.turn hphase (fun id _ => trivial) hstep with
  | sent command hfresh => exact (ih hphase).issue command hfresh
  | submitted hcommands hentered => exact (ih hphase).submitted hsane hplacing hcommands hentered
  | managed hcommands hmoves =>
      refine (ih hphase).moves hsane hplacing hmoves ?_
      rw [hcommands]
      rfl
  | resolved hmoves => exact (ih hphase).moves hsane hplacing hmoves rfl
  | stopped => cases hphase'

end Taskvisor.Controller.Tracking
