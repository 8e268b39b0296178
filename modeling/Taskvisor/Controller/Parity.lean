import Taskvisor.Controller.Notices
import Taskvisor.Controller.Tracking

namespace Taskvisor.Controller.Parity

open Lib Runtime.Base Slot State Admission Abstract Bridge Coherence Refinement Driver Index Outcomes Tracking Notices

variable {b b' c : Board} {id : TaskId} {sub : Submission} {fin : TaskId → Prop} {place : TaskId → String}
  {kind : RejectionKind} {reason : String} {done : Option OutcomeTx}

/-- The identity waits, has gone to the registry, or has had its rejection. -/
def Held (b : Board) (id : TaskId) : Prop :=
  b.queued id ≠ none ∨ b.capacity id ≠ none ∨ id ∈ b.handed.map Handoff.id ∨ id ∈ b.rejected.map Prod.fst

/-- No identity is rejected twice, and a sender hears what the event says. -/
structure Paired (b : Board) : Prop where
  once : (b.rejected.map Prod.fst).Nodup
  matched : ∀ send ∈ b.sent, ∃ kind reason, send.2.2 = .rejected kind reason ∧ (send.1, kind, reason) ∈ b.rejected

theorem Paired.of_eq (h : Paired b) (hr : b'.rejected = b.rejected) (hs : b'.sent = b.sent) : Paired b' :=
  ⟨hr ▸ h.once, hr ▸ hs ▸ h.matched⟩

/-- One rejection: its event and its outcome together. -/
theorem Paired.reject (h : Paired b) (hnew : id ∉ b.rejected.map Prod.fst)
    (hr : b'.rejected = b.rejected ++ [(id, kind, reason)])
    (hs : b'.sent = b.sent ++ done.toList.map fun tx => (id, tx, .rejected kind reason)) : Paired b' where
  once := by
    rw [hr, List.map_append, List.nodup_append]
    refine ⟨h.once, List.nodup_singleton _, ?_⟩
    rintro x hx y hy rfl
    obtain rfl : x = id := List.mem_singleton.mp hy
    exact hnew hx
  matched := by
    intro send hsend
    rw [hs, List.mem_append, List.mem_map] at hsend
    rw [hr]
    rcases hsend with hsend | ⟨tx, -, rfl⟩
    · obtain ⟨kind, reason, hout, hin⟩ := h.matched send hsend
      exact ⟨kind, reason, hout, List.mem_append_left _ hin⟩
    · exact ⟨kind, reason, rfl, List.mem_append_right _ List.mem_cons_self⟩

section Loop

theorem Paired.move (h : Paired b) (hr : Retired b) (hcoh : Coherent b) (m : Move fin b b') : Paired b' := by
  have hqueued {id : TaskId} {name : String} {slot : SlotState} (hslot : b.slot name = some slot) (hin : id ∈ ids slot) :
      id ∉ b.rejected.map Prod.fst :=
    fun hm => hr id hm (.inl (by rw [hcoh.queued_of_mem hslot hin]; exact nofun))
  cases m with
  | promoteFail kind reason hslot hidle hqueue =>
      rename_i name slot next rest
      exact h.reject (hqueued hslot (head_mem_ids hqueue)) rfl rfl
  | capacityFail kind reason hentry hpump hlimit hslot hphase =>
      rename_i id entry slot pump
      have hnew : id ∉ b.rejected.map Prod.fst := fun hm => hr id hm (.inr (.inl (by rw [hentry]; exact nofun)))
      exact h.reject hnew rfl rfl
  | removeQueued kind reason hslot hin =>
      rename_i name slot id
      exact h.reject (hqueued hslot hin) rfl rfl
  | _ => exact h.of_eq rfl rfl

theorem Paired.moves (h : Paired b) (hr : Retired b) (ht : Tracked place b) (hcoh : Coherent b) (m : Moves fin b b') :
    Paired b' := by
  induction m with
  | refl => exact h
  | tail ms m ih => exact ih.move (hr.moves ht hcoh ms) (hcoh.moves ms) m

theorem Paired.enter (h : Paired b) (hr : Retired b) (hcoh : Coherent b) (hnew : sub.id ∉ b.rejected.map Prod.fst)
    (m : Enter sub b b') : Paired b' := by
  cases m with
  | turnAway kind reason => exact h.reject hnew rfl rfl
  | displace hslot hbusy hqueue =>
      rename_i slot head rest
      have hqueued := hcoh.queued_of_mem hslot (head_mem_ids hqueue)
      have hhead : head.id ∉ b.rejected.map Prod.fst := fun hm => hr head.id hm (.inl (by rw [hqueued]; exact nofun))
      exact h.reject hhead rfl rfl
  | _ => exact h.of_eq rfl rfl

/-- What an identity may leave one place for. -/
theorem Held.of (h : Held b id) (hq : b.queued id ≠ none → Held b' id) (hc : b.capacity id ≠ none → Held b' id)
    (hh : ∀ x ∈ b.handed.map Handoff.id, x ∈ b'.handed.map Handoff.id)
    (hr : ∀ x ∈ b.rejected.map Prod.fst, x ∈ b'.rejected.map Prod.fst) : Held b' id := by
  rcases h with h | h | h | h
  · exact hq h
  · exact hc h
  · exact .inr (.inr (.inl (hh id h)))
  · exact .inr (.inr (.inr (hr id h)))

theorem mem_snoc {α : Type} {f : α → TaskId} {l : List α} (a : α) :
    ∀ x ∈ l.map f, x ∈ (l ++ [a]).map f := by
  intro x hx
  rw [List.map_append]
  exact List.mem_append_left _ hx

theorem self_mem_snoc {α : Type} {f : α → TaskId} {l : List α} (a : α) : f a ∈ (l ++ [a]).map f := by simp

/-- An identity that leaves the index has been handed over or rejected. -/
theorem queued_clears {other : TaskId} (hq : b'.queued = (b.setQueued other none).queued)
    (hother : Held b' other) : b.queued id ≠ none → Held b' id := by
  intro h
  by_cases he : id = other
  · exact he ▸ hother
  · refine .inl ?_
    rw [hq, setQueued_queued, if_neg he]
    exact h

theorem capacity_clears {other : TaskId} (hc : b'.capacity = (b.setCapacity other none).capacity)
    (hother : Held b' other) : b.capacity id ≠ none → Held b' id := by
  intro h
  by_cases he : id = other
  · exact he ▸ hother
  · refine .inr (.inl ?_)
    rw [hc, setCapacity_capacity, if_neg he]
    exact h

theorem held_move (hcoh : Coherent b) (m : Move fin b b') (h : Held b id) : Held b' id := by
  cases m with
  | promote now hslot hidle hqueue =>
      rename_i name slot next rest
      exact h.of (queued_clears rfl (.inr (.inr (.inl (self_mem_snoc (f := Handoff.id) _))))) (fun h => .inr (.inl h))
        (mem_snoc _) (fun _ h => h)
  | promoteWait now hslot hidle hqueue hpump =>
      rename_i name slot next rest pump
      have hnext : Held ((((b.setSlot name (some ⟨.admitting next.id now, rest⟩)).setQueued next.id none).setCapacity next.id
          (some ⟨name, next⟩)).setPump pump) next.id :=
        .inr (.inl (((setCapacity_capacity _ _ _).trans (if_pos rfl)).symm ▸ nofun))
      refine h.of (queued_clears rfl hnext) (fun h => ?_) (fun _ h => h) (fun _ h => h)
      by_cases he : id = next.id
      · exact he ▸ hnext
      · exact .inr (.inl (((setCapacity_capacity _ _ _).trans (if_neg he)).symm ▸ h))
  | promoteFail kind reason hslot hidle hqueue =>
      exact h.of (queued_clears rfl (.inr (.inr (.inr (self_mem_snoc (f := Prod.fst) _))))) (fun h => .inr (.inl h))
        (fun _ h => h) (mem_snoc _)
  | capacityCommit hentry hpump hlimit =>
      rename_i other entry pump
      have hid : entry.pending.id = other := (hcoh.holds other entry hentry).1
      have hother : Held ((((b.setCapacity other none).setPump pump).hand entry.pending.id entry.pending.taskName
          entry.slotName (b.watcher other)).setWatcher other none) other :=
        .inr (.inr (.inl (hid ▸ self_mem_snoc (f := Handoff.id) _)))
      exact h.of (fun h => .inl h) (capacity_clears rfl hother) (mem_snoc _) (fun _ h => h)
  | capacityFail kind reason hentry hpump hlimit hslot hphase =>
      exact h.of (fun h => .inl h) (capacity_clears rfl (.inr (.inr (.inr (self_mem_snoc (f := Prod.fst) _)))))
        (fun _ h => h) (mem_snoc _)
  | removeQueued kind reason hslot hin =>
      exact h.of (queued_clears rfl (.inr (.inr (.inr (self_mem_snoc (f := Prod.fst) _))))) (fun h => .inr (.inl h))
        (fun _ h => h) (mem_snoc _)
  | _ => exact h

theorem held_moves (hcoh : Coherent b) (m : Moves fin b b') (h : Held b id) : Held b' id := by
  induction m with
  | refl => exact h
  | tail ms m ih => exact held_move (hcoh.moves ms) m ih

theorem held_enter_self (m : Enter sub b b') : Held b' sub.id := by
  cases m with
  | turnAway kind reason => exact .inr (.inr (.inr (self_mem_snoc (f := Prod.fst) _)))
  | start now hslot hidle => exact .inr (.inr (.inl (self_mem_snoc (f := Handoff.id) _)))
  | wait now hslot hidle hpump =>
      exact .inr (.inl (((setCapacity_capacity _ _ _).trans (if_pos rfl)).symm ▸ nofun))
  | append hslot hbusy => exact .inl (((setQueued_queued _ _ _).trans (if_pos rfl)).symm ▸ nofun)
  | displace hslot hbusy hqueue => exact .inl (((setQueued_queued _ _ _).trans (if_pos rfl)).symm ▸ nofun)

theorem held_enter (m : Enter sub b b') (h : Held b id) : Held b' id := by
  by_cases he : id = sub.id
  · exact he ▸ held_enter_self m
  cases m with
  | turnAway kind reason => exact h.of (fun h => .inl h) (fun h => .inr (.inl h)) (fun _ h => h) (mem_snoc _)
  | start now hslot hidle => exact h.of (fun h => .inl h) (fun h => .inr (.inl h)) (mem_snoc _) (fun _ h => h)
  | wait now hslot hidle hpump =>
      refine h.of (fun h => .inl h) (fun h => .inr (.inl ?_)) (fun _ h => h) (fun _ h => h)
      exact ((setCapacity_capacity _ _ _).trans (if_neg he)).symm ▸ h
  | append hslot hbusy =>
      refine h.of (fun h => .inl ?_) (fun h => .inr (.inl h)) (fun _ h => h) (fun _ h => h)
      exact ((setQueued_queued _ _ _).trans (if_neg he)).symm ▸ h
  | displace hslot hbusy hqueue =>
      rename_i slot head rest
      refine h.of (fun h => ?_) (fun h => .inr (.inl h)) (fun _ h => h) (mem_snoc _)
      by_cases hd : id = head.id
      · subst hd
        exact .inr (.inr (.inr (self_mem_snoc (f := Prod.fst) _)))
      · refine .inl ?_
        exact ((setQueued_queued _ _ _).trans ((if_neg he).trans ((setQueued_queued _ _ _).trans (if_neg hd)))).symm ▸ h

end Loop

section Shutdown

variable {e e' : Engine} {obs : Observed} {swept more : List TaskId}

/-- What the shutdown sweep does for a list of identities. -/
structure Swept (swept : List TaskId) (b b' : Board) : Prop where
  handed : b'.handed = b.handed
  watcher : ∀ id, b'.watcher id ≠ none → id ∉ swept ∧ b.watcher id ≠ none
  rejected : b'.rejected = b.rejected ++ swept.map fun id => (id, .controllerShuttingDown, Reasons.controllerShuttingDown)
  sent : ∀ send ∈ b'.sent, send ∈ b.sent ∨
    send.1 ∈ swept ∧ send.2.2 = .rejected .controllerShuttingDown Reasons.controllerShuttingDown

theorem Swept.refl (b : Board) : Swept [] b b where
  handed := rfl
  watcher := fun _ h => ⟨List.not_mem_nil, h⟩
  rejected := (List.append_nil _).symm
  sent := fun _ h => .inl h

theorem Swept.cons (h : Swept swept (b.rejectParked id .controllerShuttingDown Reasons.controllerShuttingDown) b') :
    Swept (id :: swept) b b' where
  handed := h.handed
  watcher := fun other hw => by
    obtain ⟨hnot, hw⟩ := h.watcher other hw
    have hupdate : (b.rejectParked id .controllerShuttingDown Reasons.controllerShuttingDown).watcher other =
        if other = id then none else b.watcher other := setWatcher_watcher id other none
    rw [hupdate] at hw
    split at hw
    · exact absurd rfl hw
    · next hne =>
      refine ⟨?_, hw⟩
      rw [List.mem_cons, not_or]
      exact ⟨hne, hnot⟩
  rejected := by
    rw [h.rejected, List.map_cons]
    exact List.append_assoc ..
  sent := fun send hs => by
    rcases h.sent send hs with hs | ⟨hin, hout⟩
    · rcases List.mem_append.mp hs with hs | hs
      · exact .inl hs
      · obtain ⟨tx, -, rfl⟩ := List.mem_map.mp hs
        exact .inr ⟨List.mem_cons_self, rfl⟩
    · exact .inr ⟨List.mem_cons_of_mem _ hin, hout⟩

theorem Swept.trans (h : Swept swept b c) (h' : Swept more c b') : Swept (swept ++ more) b b' where
  handed := h'.handed.trans h.handed
  watcher := fun id hw => by
    obtain ⟨hmore, hw⟩ := h'.watcher id hw
    obtain ⟨hswept, hw⟩ := h.watcher id hw
    exact ⟨fun hm => (List.mem_append.mp hm).elim hswept hmore, hw⟩
  rejected := by rw [h'.rejected, h.rejected, List.map_append, List.append_assoc]
  sent := fun send hs => by
    rcases h'.sent send hs with hs | ⟨hin, hout⟩
    · exact (h.sent send hs).imp_right fun ⟨hin, hout⟩ => ⟨List.mem_append_left _ hin, hout⟩
    · exact .inr ⟨List.mem_append_right _ hin, hout⟩

theorem board_finalizeEntry (obs : Observed) (e : Engine) (name : String) (id : TaskId) :
    board (finalizeEntry obs e name id).2 =
      (board e).rejectParked id .controllerShuttingDown Reasons.controllerShuttingDown := by
  rw [finalizeEntry, board_publishFinalize]

theorem finalizeEntry_slots (obs : Observed) (e : Engine) (name : String) (id : TaskId) :
    (finalizeEntry obs e name id).2.state.slots = e.state.slots := by
  rw [finalizeEntry, Engine.finalizeRejected]
  split <;> rfl

theorem swept_finalizeCapacity (obs : Observed) (entries : List (TaskId × CapacityPending)) (e : Engine) :
    Swept (entries.map Prod.fst) (board e) (board (finalizeCapacity obs e entries).1) ∧
      (finalizeCapacity obs e entries).1.state.slots = e.state.slots := by
  induction entries generalizing e with
  | nil => exact ⟨.refl _, rfl⟩
  | cons entry rest ih =>
      obtain ⟨hrest, hslots⟩ := ih (finalizeEntry obs e entry.2.slotName entry.1).2
      rw [board_finalizeEntry] at hrest
      exact ⟨hrest.cons, hslots.trans (finalizeEntry_slots ..)⟩

theorem swept_finalizeQueue (obs : Observed) (name : String) (queue : List PendingSubmission) (e : Engine) :
    Swept (queue.map PendingSubmission.id) (board e) (board (finalizeQueue obs name e queue).1) := by
  induction queue generalizing e with
  | nil => exact .refl _
  | cons pending rest ih =>
      have hrest := ih (finalizeEntry obs (e.unindexQueued pending.id) name pending.id).2
      rw [board_finalizeEntry] at hrest
      have hcons := hrest.cons
      exact ⟨hcons.handed, hcons.watcher, hcons.rejected, hcons.sent⟩

theorem swept_finalizeSlots (obs : Observed) (slots : List (String × SlotState)) (e : Engine) :
    Swept (slots.flatMap fun slot => ids slot.2) (board e) (board (finalizeSlots obs e slots).1) := by
  induction slots generalizing e with
  | nil => exact .refl _
  | cons slot rest ih => exact (swept_finalizeQueue obs slot.1 slot.2.queue e).trans (ih _)

/-- The places of the waiting identities agree, and nothing waits that was
handed over or rejected. -/
structure Resting (b : Board) : Prop where
  index : ∀ id name, b.queued id = some name ↔ ∃ slot, b.slot name = some slot ∧ id ∈ ids slot
  nodup : ∀ name slot, b.slot name = some slot → (ids slot).Nodup
  disjoint : ∀ id, b.queued id ≠ none → b.capacity id = none
  watched : ∀ id, b.watcher id ≠ none → b.queued id ≠ none ∨ b.capacity id ≠ none
  settled : ∀ id, id ∈ b.handed.map Handoff.id ∨ id ∈ b.rejected.map Prod.fst → b.queued id = none ∧ b.capacity id = none
  apart : ∀ id ∈ b.handed.map Handoff.id, id ∉ b.rejected.map Prod.fst

/-- The identities the sweep goes through before it looks at the senders. -/
def sweepList (e : Engine) : List TaskId :=
  (pairs e.state.capacityPending).map Prod.fst ++ (pairs e.state.slots).flatMap fun slot => ids slot.2

theorem mem_pairs {α β : Type} [DecidableEq α] {s : Table α β} {a : α} {v : β} : (a, v) ∈ pairs s ↔ s.lookup a = some v := by
  rw [← Option.mem_def, AList.mem_lookup_iff, pairs, List.mem_map]
  constructor
  · rintro ⟨entry, hentry, he⟩
    cases he
    exact hentry
  · exact fun h => ⟨_, h, rfl⟩

theorem map_fst_pairs {α β : Type} (s : Table α β) : (pairs s).map Prod.fst = s.keys := by
  rw [pairs, List.map_map]
  rfl

theorem pairwise_pairs {α β : Type} (s : Table α β) : (pairs s).Pairwise fun p q => p.1 ≠ q.1 := by
  have hkeys : ((pairs s).map Prod.fst).Nodup := by
    rw [map_fst_pairs]
    exact s.keys_nodup
  exact List.pairwise_map.mp hkeys

theorem mem_sweepList (h : Resting (board e)) :
    id ∈ sweepList e ↔ (board e).capacity id ≠ none ∨ (board e).queued id ≠ none := by
  rw [sweepList, List.mem_append, map_fst_pairs, Table.mem_keys_iff, List.mem_flatMap]
  refine or_congr Option.ne_none_iff_exists'.symm ?_
  constructor
  · rintro ⟨⟨name, slot⟩, hslot, hid⟩
    rw [(h.index id name).mpr ⟨slot, mem_pairs.mp hslot, hid⟩]
    exact nofun
  · intro hq
    obtain ⟨name, hname⟩ := Option.ne_none_iff_exists'.mp hq
    obtain ⟨slot, hslot, hid⟩ := (h.index id name).mp hname
    exact ⟨(name, slot), mem_pairs.mpr hslot, hid⟩

theorem nodup_sweepList (h : Resting (board e)) : (sweepList e).Nodup := by
  rw [sweepList, List.nodup_append]
  refine ⟨?_, ?_, ?_⟩
  · rw [map_fst_pairs]
    exact AList.keys_nodup _
  · refine List.nodup_flatMap.mpr ⟨fun slot hslot => h.nodup slot.1 slot.2 (mem_pairs.mp hslot), ?_⟩
    refine (pairwise_pairs e.state.slots).imp_of_mem ?_
    intro p q hp hq hne id hidp hidq
    have hqp := (h.index id p.1).mpr ⟨p.2, mem_pairs.mp hp, hidp⟩
    have hqq := (h.index id q.1).mpr ⟨q.2, mem_pairs.mp hq, hidq⟩
    exact hne (Option.some.inj (hqp.symm.trans hqq))
  · rintro id hc _ hq rfl
    rw [map_fst_pairs] at hc
    obtain ⟨entry, hentry⟩ := Table.mem_keys_iff.mp hc
    obtain ⟨slot, hslot, hid⟩ := List.mem_flatMap.mp hq
    have hqueued := (h.index id slot.1).mpr ⟨slot.2, mem_pairs.mp hslot, hid⟩
    have hnone := h.disjoint id (by rw [hqueued]; exact nofun)
    cases hnone.symm.trans hentry

/-- The whole sweep rejects everything that waits, once, and finds no sender
left over. -/
theorem swept_finalize (h : Resting (board e)) (obs : Observed) :
    Swept (sweepList e) (board e) (board (finalizeSlotStateOnShutdown obs e)) := by
  set cleared : Engine := { e with state := { e.state with capacityPending := ∅ } } with hcleared
  obtain ⟨hcapacity, hslots⟩ := swept_finalizeCapacity obs (pairs e.state.capacityPending) cleared
  set first := finalizeCapacity obs cleared (pairs e.state.capacityPending) with hfirst
  have hqueues := swept_finalizeSlots obs (pairs first.1.state.slots) first.1
  set second := finalizeSlots obs first.1 (pairs first.1.state.slots) with hsecond
  have hboth := hcapacity.trans hqueues
  rw [hslots] at hboth
  have hkeys : second.1.state.watchers.keys = [] := by
    refine List.eq_nil_iff_forall_not_mem.mpr fun id hid => ?_
    obtain ⟨tx, htx⟩ := Table.mem_keys_iff.mp hid
    obtain ⟨hnot, hw⟩ := hboth.watcher id (by rw [show (board second.1).watcher id = _ from htx]; exact nofun)
    exact hnot ((mem_sweepList h).mpr (h.watched id hw).symm)
  have hlast : finalizeRemainingWatchers obs second.1 second.1.state.watchers.keys = second.1 := by
    rw [hkeys, finalizeRemainingWatchers]
  have hall : finalizeSlotStateOnShutdown obs e =
      { finalizeRemainingWatchers obs second.1 second.1.state.watchers.keys with
        state := { (finalizeRemainingWatchers obs second.1 second.1.state.watchers.keys).state with
          slots := ∅, queuedSlots := ∅, capacityPending := ∅ } }.disposeAll (first.2 ++ second.2) := rfl
  rw [hall, hlast]
  exact ⟨hboth.handed, hboth.watcher, hboth.rejected, hboth.sent⟩

theorem resting_of_coherent (h : Coherent b) (ht : Tracked place b) (hr : Retired b) : Resting b where
  index := h.index
  nodup := h.nodup
  disjoint := h.disjoint
  watched := h.watched
  settled := fun id hid => by
    rcases hid with hid | hid
    · exact ht.unhanded id hid
    · obtain ⟨hq, hc, -⟩ := not_known_iff.mp (hr id hid)
      exact ⟨hq, hc⟩
  apart := fun id hh hid => hr id hid (.inr (.inr (.inr (.inr (.inl hh)))))

/-- A rejection of an identity the controller has not seen. -/
theorem Resting.reject (h : Resting b) (hnew : ¬ Held b id) : Resting (b.reject id done kind reason) where
  index := h.index
  nodup := h.nodup
  disjoint := h.disjoint
  watched := h.watched
  settled := fun other hid => by
    rcases hid with hid | hid
    · exact h.settled other (.inl hid)
    · rcases mem_rejected_snoc hid with hid | rfl
      · exact h.settled other (.inr hid)
      · exact ⟨by_contra fun hq => hnew (.inl hq), by_contra fun hc => hnew (.inr (.inl hc))⟩
  apart := fun other hh hid => by
    rcases mem_rejected_snoc hid with hid | rfl
    · exact h.apart other hh hid
    · exact hnew (.inr (.inr (.inl hh)))

theorem rejected_swept (h : Swept swept b b') : b'.rejected.map Prod.fst = b.rejected.map Prod.fst ++ swept := by
  rw [h.rejected, List.map_append, List.map_map]
  exact congrArg _ (List.map_id swept)

theorem mem_swept (h : Swept swept b b') :
    id ∈ b'.rejected.map Prod.fst ↔ id ∈ b.rejected.map Prod.fst ∨ id ∈ swept := by
  rw [rejected_swept h, List.mem_append]

/-- After the sweep nothing waits, and it has lost sight of nobody. -/
theorem Resting.sweep (h : Resting (board e)) (obs : Observed) :
    Resting (board (finalizeSlotStateOnShutdown obs e)) ∧
      ∀ id, Held (board (finalizeSlotStateOnShutdown obs e)) id ↔ Held (board e) id := by
  have hswept := swept_finalize h obs
  have hempty (id : TaskId) : (board (finalizeSlotStateOnShutdown obs e)).queued id = none ∧
      (board (finalizeSlotStateOnShutdown obs e)).capacity id = none := ⟨rfl, rfl⟩
  have hnone (name : String) : (board (finalizeSlotStateOnShutdown obs e)).slot name = none := rfl
  refine ⟨⟨?_, ?_, ?_, ?_, fun id _ => hempty id, ?_⟩, fun id => ?_⟩
  · intro id name
    rw [(hempty id).1, hnone]
    exact ⟨nofun, fun ⟨_, hs, _⟩ => nomatch hs⟩
  · intro name slot hs
    cases (hnone name).symm.trans hs
  · exact fun id _ => (hempty id).2
  · exact fun id hw => absurd ((spends_finalize obs e).2 id) hw
  · intro id hh hid
    rw [hswept.handed] at hh
    rcases (mem_swept hswept).mp hid with hid | hid
    · exact h.apart id hh hid
    · obtain ⟨hq, hc⟩ := h.settled id (.inl hh)
      exact ((mem_sweepList h).mp hid).elim (fun hn => hn hc) fun hn => hn hq
  · rw [Held, Held, (hempty id).1, (hempty id).2, hswept.handed, mem_swept hswept, mem_sweepList h]
    tauto

theorem Paired.sweep (h : Paired (board e)) (hrest : Resting (board e)) (obs : Observed) :
    Paired (board (finalizeSlotStateOnShutdown obs e)) := by
  have hswept := swept_finalize hrest obs
  refine ⟨?_, ?_⟩
  · rw [rejected_swept hswept, List.nodup_append]
    refine ⟨h.once, nodup_sweepList hrest, ?_⟩
    rintro id hid _ hin rfl
    obtain ⟨hq, hc⟩ := hrest.settled id (.inr hid)
    exact ((mem_sweepList hrest).mp hin).elim (fun hn => hn hc) fun hn => hn hq
  · intro send hs
    rw [hswept.rejected]
    rcases hswept.sent send hs with hs | ⟨hin, hout⟩
    · obtain ⟨kind, reason, hout, hin⟩ := h.matched send hs
      exact ⟨kind, reason, hout, List.mem_append_left _ hin⟩
    · exact ⟨_, _, hout, List.mem_append_right _ (List.mem_map.mpr ⟨send.1, hin, rfl⟩)⟩

end Shutdown

section Worlds

variable {cfg : ControllerConfig} {w w' : World} {e : Engine} {rest : List ControllerCommand}

/-- Every submission the queue has seen is still in it, or the controller has
placed it or answered it once. -/
structure Reported (w : World) : Prop where
  resting : Resting (board w.engine)
  paired : Paired (board w.engine)
  unseen : ∀ sub ∈ submissions w.commands, ¬ Held (board w.engine) sub.id
  nodup : ((submissions w.commands).map Submission.id).Nodup
  placed : ∀ sub ∈ submissions w.log, sub ∈ submissions w.commands ∨ Held (board w.engine) sub.id
  seen : ∀ id, Held (board w.engine) id → id ∈ (submissions w.log).map Submission.id

theorem known_of_held (h : Held b id) : Known b id ∨ id ∈ b.rejected.map Prod.fst := by
  rcases h with h | h | h | h
  · exact .inl (.inl h)
  · exact .inl (.inr (.inl h))
  · exact .inl (.inr (.inr (.inr (.inr (.inl h)))))
  · exact .inr h

theorem reported_of_looping (hw : (machine cfg).Reachable w) (hphase : w.phase = .looping)
    (hpaired : Paired (board w.engine))
    (hplaced : ∀ sub ∈ submissions w.log, sub ∈ submissions w.commands ∨ Held (board w.engine) sub.id) : Reported w := by
  have hsane := sane_of_reachable hw hphase
  have hbound := bound_of_reachable hw hphase
  obtain ⟨place, hplace⟩ := exists_placing hw
  refine ⟨resting_of_coherent hsane.coherent (hbound.tracked place hplace) hbound.retired, hpaired, ?_, hsane.nodup,
    hplaced, ?_⟩
  · intro sub hsub hheld
    exact (known_of_held hheld).elim (hsane.unknown sub hsub) (hbound.apart sub hsub)
  · intro id hheld
    exact (known_of_held hheld).elim (hsane.known id) (hbound.seen id)

theorem Reported.issue (h : Reported w) (hlogged : ∀ sub ∈ submissions w.commands, sub ∈ submissions w.log)
    (command : ControllerCommand) (hfresh : fresh w.log command = true) : Reported (w.issue command) := by
  have hcommands : submissions (w.issue command).commands = submissions w.commands ++ (submission? command).toList :=
    submissions_snoc ..
  have hlog : submissions (w.issue command).log = submissions w.log ++ (submission? command).toList := submissions_snoc ..
  cases command with
  | manageIdentity id operation reply =>
      rw [submission?, Option.toList_none, List.append_nil] at hcommands hlog
      exact ⟨h.resting, h.paired, hcommands ▸ h.unseen, hcommands ▸ h.nodup, hcommands ▸ hlog ▸ h.placed, hlog ▸ h.seen⟩
  | submit sub =>
      rw [submission?, Option.toList_some] at hcommands hlog
      have hnew := fresh_id hfresh
      refine ⟨h.resting, h.paired, ?_, ?_, ?_, ?_⟩
      · intro s hs
        rw [hcommands, List.mem_append, List.mem_singleton] at hs
        rcases hs with hs | rfl
        · exact h.unseen s hs
        · exact fun hheld => hnew (h.seen _ hheld)
      · rw [hcommands, List.map_append, List.nodup_append]
        refine ⟨h.nodup, List.nodup_singleton _, ?_⟩
        rintro x hx y hy rfl
        obtain rfl : x = sub.id := List.mem_singleton.mp hy
        obtain ⟨s, hs, hid⟩ := List.mem_map.mp hx
        exact hnew (hid ▸ List.mem_map_of_mem (hlogged s hs))
      · intro s hs
        rw [hlog, List.mem_append, List.mem_singleton] at hs
        rw [hcommands, List.mem_append, List.mem_singleton]
        rcases hs with hs | rfl
        · exact (h.placed s hs).imp_left .inl
        · exact .inl (.inr rfl)
      · intro id hheld
        rw [hlog, List.map_append]
        exact List.mem_append_left _ (h.seen id hheld)

theorem unrejected_moves (hcoh : Coherent b) (m : Moves fin b b') (hunknown : ¬ Known b id)
    (hnew : id ∉ b.rejected.map Prod.fst) : id ∉ b'.rejected.map Prod.fst :=
  fun hid => (rejected_moves hcoh m hid).elim hnew hunknown

/-- The submission the loop takes is placed or answered. -/
theorem Reported.submitted (h : Reported w) (hsane : Sane w) (hbound : Bound w) (hplacing : ∃ place, Placing place w)
    (hcommands : w.commands = .submit sub :: rest)
    (hentered : ∃ b, Moves fin (board w.engine) b ∧ Entered fin sub b (board e)) :
    Paired (board e) ∧ ∀ s ∈ submissions w.log, s ∈ submissions rest ∨ Held (board e) s.id := by
  have hsubs : submissions w.commands = sub :: submissions rest := by
    rw [hcommands]
    rfl
  have hsub : sub ∈ submissions w.commands := hsubs ▸ List.mem_cons_self
  obtain ⟨place, hplace⟩ := hplacing
  obtain ⟨c, hmoves, d, henter, hafter⟩ := hentered
  have ht := hbound.tracked place hplace
  have hc := hsane.coherent.moves hmoves
  have htc := ht.moves hsane.coherent hmoves
  have hrc := hbound.retired.moves ht hsane.coherent hmoves
  have hunknown := unknown_moves hsane.coherent hmoves (hsane.unknown sub hsub)
  have hnew := unrejected_moves hsane.coherent hmoves (hsane.unknown sub hsub) (hbound.apart sub hsub)
  have hd := hc.enter hunknown henter
  have htd := htc.enter hunknown (hplace sub (hsane.logged sub hsub)) henter
  have hrd := hrc.enter htc hc hunknown hnew henter
  have hpaired := ((h.paired.moves hbound.retired ht hsane.coherent hmoves).enter hrc hc hnew henter).moves hrd htd hd hafter
  refine ⟨hpaired, fun s hs => ?_⟩
  rcases h.placed s hs with hin | hheld
  · rw [hsubs, List.mem_cons] at hin
    rcases hin with rfl | hin
    · exact .inr (held_moves hd hafter (held_enter_self henter))
    · exact .inl hin
  · exact .inr (held_moves hd hafter (held_enter henter (held_moves hsane.coherent hmoves hheld)))

theorem Reported.moves (h : Reported w) (hsane : Sane w) (hbound : Bound w) (hplacing : ∃ place, Placing place w)
    (hcommands : submissions rest = submissions w.commands) (hmoves : Moves fin (board w.engine) (board e)) :
    Paired (board e) ∧ ∀ s ∈ submissions w.log, s ∈ submissions rest ∨ Held (board e) s.id := by
  obtain ⟨place, hplace⟩ := hplacing
  refine ⟨h.paired.moves hbound.retired (hbound.tracked place hplace) hsane.coherent hmoves, fun s hs => ?_⟩
  rw [hcommands]
  exact (h.placed s hs).imp_right (held_moves hsane.coherent hmoves)

theorem Reported.drained (h : Reported w) (hlogged : ∀ sub ∈ submissions w.commands, sub ∈ submissions w.log)
    (obs : Observed) {command : ControllerCommand} (hcommands : w.commands = command :: rest) :
    Reported { w with commands := rest, engine := drainCommand obs w.engine command } := by
  cases command with
  | manageIdentity id operation reply =>
      have hsubs : submissions w.commands = submissions rest := by
        rw [hcommands]
        rfl
      exact ⟨h.resting, h.paired, hsubs ▸ h.unseen, hsubs ▸ h.nodup, hsubs ▸ h.placed, h.seen⟩
  | submit sub =>
      have hsubs : submissions w.commands = sub :: submissions rest := by
        rw [hcommands]
        rfl
      have hnew := h.unseen sub (hsubs ▸ List.mem_cons_self)
      have hnodup := h.nodup
      rw [hsubs, List.map_cons, List.nodup_cons] at hnodup
      have hb : board (drainCommand obs w.engine (.submit sub)) =
          (board w.engine).reject sub.id sub.done .controllerShuttingDown Reasons.controllerShuttingDown := by
        rw [drainCommand, board_dispose, board_sendRejected, board_publishRejected]
        rfl
      have hheld {id : TaskId} : Held (board (drainCommand obs w.engine (.submit sub))) id ↔
          Held (board w.engine) id ∨ id = sub.id := by
        rw [hb]
        simp only [Held, Board.reject, Board.note, Board.send, List.map_append, List.mem_append, List.map_cons, List.map_nil,
          List.mem_singleton]
        tauto
      refine ⟨?_, ?_, ?_, hnodup.2, ?_, ?_⟩
      · rw [hb]
        exact h.resting.reject hnew
      · rw [hb]
        exact h.paired.reject (fun hm => hnew (.inr (.inr (.inr hm)))) rfl rfl
      · intro s hs hh
        rcases hheld.mp hh with hh | he
        · exact h.unseen s (hsubs ▸ List.mem_cons_of_mem _ hs) hh
        · exact hnodup.1 (he ▸ List.mem_map_of_mem hs)
      · intro s hs
        rcases h.placed s hs with hin | hh
        · rw [hsubs, List.mem_cons] at hin
          rcases hin with rfl | hin
          · exact .inr (hheld.mpr (.inr rfl))
          · exact .inl hin
        · exact .inr (hheld.mpr (.inl hh))
      · intro id hh
        rcases hheld.mp hh with hh | rfl
        · exact h.seen id hh
        · exact List.mem_map_of_mem (hlogged sub (hsubs ▸ List.mem_cons_self))

theorem Reported.swept (h : Reported w) (obs : Observed) (phase : Phase) :
    Reported { w with phase, engine := finalizeSlotStateOnShutdown obs w.engine } := by
  obtain ⟨hrest, hheld⟩ := h.resting.sweep obs
  refine ⟨hrest, h.paired.sweep h.resting obs, ?_, h.nodup, ?_, ?_⟩
  · exact fun sub hsub hh => h.unseen sub hsub ((hheld sub.id).mp hh)
  · exact fun sub hsub => (h.placed sub hsub).imp_right (hheld sub.id).mpr
  · exact fun id hh => h.seen id ((hheld id).mp hh)

theorem reported_of_reachable (hw : (machine cfg).Reachable w) : Reported w := by
  refine hw.invariant (reported_of_looping .init rfl ⟨List.nodup_nil, nofun⟩ nofun) ?_
  intro w a w' hw h hstep
  have hw' : (machine cfg).Reachable w' := .next a hw hstep
  by_cases hphase : w.phase = .looping
  · have hsane := sane_of_reachable hw hphase
    have hbound := bound_of_reachable hw hphase
    have hplacing := exists_placing hw
    cases hsane.turn hphase (fun id _ => trivial) hstep with
    | sent command hfresh => exact h.issue hsane.logged command hfresh
    | submitted hcommands hentered =>
        obtain ⟨hpaired, hplaced⟩ := h.submitted hsane hbound hplacing hcommands hentered
        exact reported_of_looping hw' hphase hpaired hplaced
    | managed hcommands hmoves =>
        obtain ⟨hpaired, hplaced⟩ := h.moves hsane hbound hplacing (by rw [hcommands]) hmoves
        exact reported_of_looping hw' hphase hpaired hplaced
    | resolved hmoves =>
        obtain ⟨hpaired, hplaced⟩ := h.moves hsane hbound hplacing rfl hmoves
        exact reported_of_looping hw' hphase hpaired hplaced
    | stopped =>
        have hrest := h.resting
        have hpaired := h.paired
        exact ⟨⟨hrest.index, hrest.nodup, hrest.disjoint, hrest.watched, hrest.settled, hrest.apart⟩,
          ⟨hpaired.once, hpaired.matched⟩, h.unseen, h.nodup, h.placed, h.seen⟩
  · cases step_wind hphase hstep with
    | sent command hdrain hfresh => exact h.issue (accounted_of_reachable hw).logged command hfresh
    | drained obs hdrain hcommands => exact h.drained (accounted_of_reachable hw).logged obs hcommands
    | finalized obs hdrain hcommands => exact h.swept obs .finalized
    | finished obs hfinal => exact h.swept obs .finished

theorem formed_of_reachable (hw : (machine cfg).Reachable w) : Formed w.engine.published :=
  hw.invariant (P := fun w => Formed w.engine.published) ⟨nofun⟩ fun _ _ _ _ h hstep => h.step hstep

/-- The publish calls that report the rejection of an identity. -/
def publishes (e : Engine) (id : TaskId) : Nat :=
  e.published.countP fun event => decide (event.kind = .controllerRejected ∧ event.id = some id)

/-- What the sender has been given. -/
def sends (e : Engine) (tx : OutcomeTx) : List (TaskId × OutcomeTx × TaskOutcome) :=
  e.sent.filter fun send => decide (send.2.1 = tx)

theorem rejection_eq {event : Event} {entry : TaskId × RejectionKind × String} (h : rejection? event = some entry) :
    event.kind = .controllerRejected ∧ event.id = some entry.1 ∧ event.rejectionKind = some entry.2.1 ∧
      event.reason = some entry.2.2 := by
  rw [rejection?] at h
  split at h
  · next hkind hid hrejection hreason =>
    cases h
    exact ⟨hkind, hid, hrejection, hreason⟩
  · cases h

theorem count_published {published : List Event} (h : Formed published) (id : TaskId) :
    published.countP (fun event => decide (event.kind = .controllerRejected ∧ event.id = some id)) =
      ((published.filterMap rejection?).map Prod.fst).count id := by
  induction published with
  | nil => rfl
  | cons event rest ih =>
      have hrest := ih ⟨fun other ho => h.rejection other (List.mem_cons_of_mem _ ho)⟩
      rw [List.countP_cons, hrest, List.filterMap_cons]
      cases hr : rejection? event with
      | none =>
          have hkind : event.kind ≠ .controllerRejected := by
            intro hk
            have hsome := h.rejection event List.mem_cons_self hk
            rw [hr] at hsome
            cases hsome
          simp [hkind]
      | some entry =>
          obtain ⟨hkind, hid, -⟩ := rejection_eq hr
          simp only [hkind, hid, List.map_cons, List.count_cons, Option.some.injEq, true_and, decide_eq_true_eq, beq_iff_eq]

theorem publishes_eq (hw : (machine cfg).Reachable w) (id : TaskId) :
    publishes w.engine id = (rejectedIds w.engine).count id := count_published (formed_of_reachable hw) id

theorem Reported.publishes_le (h : Reported w) (hw : (machine cfg).Reachable w) (id : TaskId) :
    publishes w.engine id ≤ 1 := by
  rw [publishes_eq hw]
  exact List.nodup_iff_count_le_one.mp h.paired.once id

theorem publishes_zero (hw : (machine cfg).Reachable w) (id : TaskId) :
    publishes w.engine id = 0 ↔ id ∉ rejectedIds w.engine := by
  rw [publishes_eq hw, List.count_eq_zero]

/-- The event of an identity is the one its entry on the board stands for. -/
theorem Reported.event (h : Reported w) (hw : (machine cfg).Reachable w) {event : Event} {kind : RejectionKind}
    {reason : String} (hevent : event ∈ w.engine.published) (hkind : event.kind = .controllerRejected)
    (hid : event.id = some id) (hin : (id, kind, reason) ∈ (board w.engine).rejected) :
    event.rejectionKind = some kind ∧ event.reason = some reason := by
  obtain ⟨entry, hentry⟩ := Option.isSome_iff_exists.mp ((formed_of_reachable hw).rejection event hevent hkind)
  obtain ⟨-, hid', hrejection, hreason⟩ := rejection_eq hentry
  have hmem : entry ∈ (board w.engine).rejected := List.mem_filterMap.mpr ⟨event, hevent, hentry⟩
  have hsame : entry = (id, kind, reason) := by
    refine List.inj_on_of_nodup_map h.paired.once hmem hin ?_
    exact Option.some.inj (hid'.symm.trans hid)
  rw [hsame] at hrejection hreason
  exact ⟨hrejection, hreason⟩

theorem Reported.unhanded (h : Reported w) (hid : id ∈ rejectedIds w.engine) :
    (board w.engine).watcher id = none ∧ ∀ add ∈ w.engine.handed, add.id ≠ id := by
  obtain ⟨hq, hc⟩ := h.resting.settled id (.inr hid)
  refine ⟨by_contra fun hw => (h.resting.watched id hw).elim (fun hn => hn hq) fun hn => hn hc, ?_⟩
  rintro add hadd rfl
  exact h.resting.apart add.id (List.mem_map_of_mem hadd) hid

/-- How the controller answers one submission. -/
structure Answer (w : World) (sub : Submission) : Prop where
  once : publishes w.engine sub.id ≤ 1
  silent : publishes w.engine sub.id = 0 ↔ sub ∈ submissions w.commands ∨ sub.id ∈ w.engine.state.queuedSlots ∨
    sub.id ∈ w.engine.state.capacityPending ∨ sub.id ∈ w.engine.handed.map Handoff.id
  unheard : publishes w.engine sub.id = 0 → ∀ tx, sub.done = some tx → sends w.engine tx = []
  heard : ∀ event ∈ w.engine.published, event.kind = .controllerRejected → event.id = some sub.id →
    ∃ kind reason, event.rejectionKind = some kind ∧ event.reason = some reason ∧
      ∀ tx, sub.done = some tx → sends w.engine tx = [(sub.id, tx, .rejected kind reason)]

theorem Reported.silent (h : Reported w) (hw : (machine cfg).Reachable w) (hsub : sub ∈ submissions w.log) :
    publishes w.engine sub.id = 0 ↔ sub ∈ submissions w.commands ∨ sub.id ∈ w.engine.state.queuedSlots ∨
      sub.id ∈ w.engine.state.capacityPending ∨ sub.id ∈ w.engine.handed.map Handoff.id := by
  rw [publishes_zero hw, ← AList.lookup_isSome, ← AList.lookup_isSome, Option.isSome_iff_ne_none, Option.isSome_iff_ne_none]
  constructor
  · intro hnot
    rcases h.placed sub hsub with hin | hq | hc | hh | hr
    · exact .inl hin
    · exact .inr (.inl hq)
    · exact .inr (.inr (.inl hc))
    · exact .inr (.inr (.inr hh))
    · exact absurd hr hnot
  · rintro (hin | hq | hc | hh) hr
    · exact h.unseen sub hin (.inr (.inr (.inr hr)))
    · exact hq (h.resting.settled sub.id (.inr hr)).1
    · exact hc (h.resting.settled sub.id (.inr hr)).2
    · exact h.resting.apart sub.id hh hr

theorem Reported.unheard (h : Reported w) (hw : (machine cfg).Reachable w) (hsub : sub ∈ submissions w.log)
    (hzero : publishes w.engine sub.id = 0) {tx : OutcomeTx} (hdone : sub.done = some tx) : sends w.engine tx = [] := by
  have hacc := accounted_of_reachable hw
  rw [publishes_zero hw] at hzero
  refine List.filter_eq_nil_iff.mpr fun send hsend => ?_
  rw [decide_eq_true_eq]
  rintro rfl
  obtain ⟨-, s, hs, hid, hd⟩ := hacc.owned.sent send hsend
  obtain ⟨kind, reason, -, hin⟩ := h.paired.matched send hsend
  rw [← hid, hacc.done_id hsub hdone s hs hd] at hin
  exact hzero (List.mem_map_of_mem (f := Prod.fst) hin)

theorem Reported.heard (h : Reported w) (hw : (machine cfg).Reachable w) (hsub : sub ∈ submissions w.log) {event : Event}
    (hevent : event ∈ w.engine.published) (hkind : event.kind = .controllerRejected) (hid : event.id = some sub.id) :
    ∃ kind reason, event.rejectionKind = some kind ∧ event.reason = some reason ∧
      ∀ tx, sub.done = some tx → sends w.engine tx = [(sub.id, tx, .rejected kind reason)] := by
  obtain ⟨entry, hentry⟩ := Option.isSome_iff_exists.mp ((formed_of_reachable hw).rejection event hevent hkind)
  obtain ⟨-, hid', hrejection, hreason⟩ := rejection_eq hentry
  have hmem : entry ∈ (board w.engine).rejected := List.mem_filterMap.mpr ⟨event, hevent, hentry⟩
  have hsame : entry.1 = sub.id := Option.some.inj (hid'.symm.trans hid)
  have hrejected : sub.id ∈ rejectedIds w.engine := hsame ▸ List.mem_map_of_mem hmem
  refine ⟨entry.2.1, entry.2.2, hrejection, hreason, fun tx hdone => ?_⟩
  obtain ⟨hwatcher, hhanded⟩ := h.unhanded hrejected
  have hcommands : sub ∉ submissions w.commands := fun hin => h.unseen sub hin (.inr (.inr (.inr hrejected)))
  obtain ⟨kind, reason, hone⟩ :=
    (accounted_of_reachable hw).one_rejection hsub hdone hcommands hwatcher hhanded
  have hsend : (sub.id, tx, TaskOutcome.rejected kind reason) ∈ sends w.engine tx := by
    rw [sends, hone]
    exact List.mem_cons_self
  obtain ⟨kind', reason', hout, hin⟩ := h.paired.matched _ (List.mem_filter.mp hsend).1
  obtain ⟨rfl, rfl⟩ := TaskOutcome.rejected.inj hout
  obtain ⟨hk, hr⟩ := h.event hw hevent hkind hid hin
  obtain rfl := Option.some.inj (hk.symm.trans hrejection)
  obtain rfl := Option.some.inj (hr.symm.trans hreason)
  exact hone

theorem emptied_of_reachable (hw : (machine cfg).Reachable w) (hphase : w.phase = .finalized ∨ w.phase = .finished)
    (id : TaskId) : (board w.engine).queued id = none ∧ (board w.engine).capacity id = none := by
  cases hw with
  | init => rcases hphase with hp | hp <;> cases hp
  | next a hs hstep =>
      rename_i v
      by_cases hlooping : v.phase = .looping
      · cases (sane_of_reachable hs hlooping).turn hlooping (fun id _ => trivial) hstep with
        | stopped => rcases hphase with hp | hp <;> cases hp
        | _ => rcases hphase with hp | hp <;> cases hlooping.symm.trans hp
      · cases step_wind hlooping hstep with
        | sent command hdrain hfresh => rcases hphase with hp | hp <;> cases hdrain.symm.trans hp
        | drained obs hdrain hcommands => rcases hphase with hp | hp <;> cases hdrain.symm.trans hp
        | finalized obs hdrain hcommands => exact ⟨rfl, rfl⟩
        | finished obs hfinal => exact ⟨rfl, rfl⟩

/-- Every submission the command queue accepted is answered at most once, by an
event and, when somebody watches, by one outcome with the words of that event;
those still in the controller's hands and those handed over have no answer. -/
theorem rejection_parity (cfg : ControllerConfig) (w : World) (hw : (machine cfg).Reachable w) :
    (∀ sub ∈ submissions w.log, Answer w sub) ∧
    (∀ event ∈ w.engine.published, event.kind = .controllerRejected → ∃ sub ∈ submissions w.log, event.id = some sub.id) ∧
    (w.phase = .finished → ∀ sub ∈ submissions w.log,
      sub.id ∈ w.engine.handed.map Handoff.id ∨ publishes w.engine sub.id = 1) := by
  have h := reported_of_reachable hw
  refine ⟨fun sub hsub => ?_, ?_, ?_⟩
  · exact ⟨h.publishes_le hw sub.id, h.silent hw hsub, fun hzero tx hdone => h.unheard hw hsub hzero hdone,
      fun event hevent hkind hid => h.heard hw hsub hevent hkind hid⟩
  · intro event hevent hkind
    obtain ⟨entry, hentry⟩ := Option.isSome_iff_exists.mp ((formed_of_reachable hw).rejection event hevent hkind)
    have hmem : entry ∈ (board w.engine).rejected := List.mem_filterMap.mpr ⟨event, hevent, hentry⟩
    obtain ⟨sub, hsub, hid⟩ := List.mem_map.mp (h.seen entry.1 (.inr (.inr (.inr (List.mem_map_of_mem hmem)))))
    exact ⟨sub, hsub, hid ▸ (rejection_eq hentry).2.1⟩
  · intro hphase sub hsub
    obtain ⟨hcommands, -⟩ := (closing_of_reachable hw).closed (.inr hphase)
    obtain ⟨hq, hc⟩ := emptied_of_reachable hw (.inr hphase) sub.id
    rcases h.placed sub hsub with hin | hn | hn | hh | hr
    · rw [hcommands] at hin
      cases hin
    · exact absurd hq hn
    · exact absurd hc hn
    · exact .inl hh
    · have hle := h.publishes_le hw sub.id
      have hne := mt (publishes_zero hw sub.id).mp (not_not.mpr hr)
      exact .inr (by omega)

/-- The owner went to the registry and has no answer; the one behind it has had
its own from the final sweep. -/
theorem rejection_parity_finished :
    ∃ w, (machine tinyConfig).after (World.new tinyConfig) finishedRun = some w ∧
      publishes w.engine 1 = 0 ∧ publishes w.engine 2 = 1 ∧
      (⟨.controllerRejected, some "a", some 2, some .controllerShuttingDown, some Reasons.controllerShuttingDown⟩ : Event) ∈
        w.engine.published ∧
      sends w.engine 20 = [(2, 20, .rejected .controllerShuttingDown Reasons.controllerShuttingDown)] := by
  obtain ⟨w, hw, hp⟩ := (Option.any_eq_true (fun w : World => decide (w.phase = .finished ∧
      submissions w.log = [⟨1, "a", .queue, none, some 10⟩, ⟨2, "b", .queue, some "a", some 20⟩,
        ⟨3, "c", .queue, none, none⟩] ∧ w.engine.handed = [⟨1, "a", some 10⟩] ∧
      (⟨.controllerRejected, some "a", some 2, some .controllerShuttingDown, some Reasons.controllerShuttingDown⟩ : Event) ∈
        w.engine.published)) _).mp
    (show (Machine.after (machine tinyConfig) (World.new tinyConfig) finishedRun).any _ = true by decide +kernel)
  obtain ⟨hphase, hlog, hhanded, hevent⟩ := of_decide_eq_true hp
  obtain ⟨hanswer, -, hclosed⟩ := rejection_parity tinyConfig w (Machine.Reachable.after .init hw)
  have hfirst : (⟨1, "a", .queue, none, some 10⟩ : Submission) ∈ submissions w.log := by simp [hlog]
  have hsecond : (⟨2, "b", .queue, some "a", some 20⟩ : Submission) ∈ submissions w.log := by simp [hlog]
  have hone : publishes w.engine 1 = 0 := (hanswer _ hfirst).silent.mpr (.inr (.inr (.inr (by simp [hhanded]))))
  have htwo : publishes w.engine 2 = 1 := (hclosed hphase _ hsecond).resolve_left (by simp [hhanded])
  obtain ⟨kind, reason, hkind, hreason, hsends⟩ := (hanswer _ hsecond).heard _ hevent rfl rfl
  obtain rfl := Option.some.inj hkind
  obtain rfl := Option.some.inj hreason
  exact ⟨w, hw, hone, htwo, hevent, hsends 20 rfl⟩

end Worlds

end Taskvisor.Controller.Parity
