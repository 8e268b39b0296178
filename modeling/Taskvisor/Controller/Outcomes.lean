import Taskvisor.Controller.Index

namespace Taskvisor.Controller.Outcomes

open Lib Runtime.Base Slot State Admission Abstract Bridge Coherence Refinement Driver Index

variable {b b' : Board} {id : TaskId} {tx : OutcomeTx} {sub : Submission} {subs : List Submission}
  {fin : TaskId → Prop}

/-- The senders change hands: nothing happens, a parked one is consumed by a
rejection, or it goes to the registry with its Add. -/
inductive Spend (b b' : Board) : Prop
  | keep (hwatcher : b'.watcher = b.watcher) (hhanded : b'.handed = b.handed) (hsent : b'.sent = b.sent)
  | reject (id : TaskId) (kind : RejectionKind) (reason : String) (hwatcher : b'.watcher = Function.update b.watcher id none)
      (hhanded : b'.handed = b.handed)
      (hsent : b'.sent = b.sent ++ (b.watcher id).toList.map fun tx => (id, tx, .rejected kind reason))
  | hand (id : TaskId) (name : String) (hwatcher : b'.watcher = Function.update b.watcher id none)
      (hhanded : b'.handed = b.handed ++ [⟨id, name, b.watcher id⟩]) (hsent : b'.sent = b.sent)

abbrev Spends : Board → Board → Prop := Relation.ReflTransGen Spend

theorem spend_move (h : Coherent b) (m : Move fin b b') : Spend b b' := by
  cases m with
  | promote now hslot hidle hqueue => exact .hand _ _ rfl rfl rfl
  | promoteFail kind reason hslot hidle hqueue => exact .reject _ kind reason rfl rfl rfl
  | capacityCommit hentry hpump hlimit =>
      rename_i id entry pump
      have hid : entry.pending.id = id := (h.holds id entry hentry).1
      refine .hand id entry.pending.taskName rfl ?_ rfl
      change b.handed ++ [_] = _
      rw [hid]
  | capacityFail kind reason hentry hpump hlimit hslot hphase => exact .reject _ kind reason rfl rfl rfl
  | removeQueued kind reason hslot hid => exact .reject _ kind reason rfl rfl rfl
  | _ => exact .keep rfl rfl rfl

theorem spends_moves (h : Coherent b) (m : Moves fin b b') : Spends b b' := by
  induction m with
  | refl => exact .refl
  | tail ms m ih => exact ih.tail (spend_move (h.moves ms) m)

/-- No watcher appears. -/
theorem Spend.watcher (s : Spend b b') (hw : b'.watcher id = some tx) : b.watcher id = some tx := by
  have hupdate {other : TaskId} (he : b'.watcher = Function.update b.watcher other none) : b.watcher id = some tx := by
    rw [he, Function.update_apply] at hw
    split at hw
    · cases hw
    · exact hw
  cases s with
  | keep hwatcher hhanded hsent => rwa [hwatcher] at hw
  | reject other kind reason hwatcher hhanded hsent => exact hupdate hwatcher
  | hand other name hwatcher hhanded hsent => exact hupdate hwatcher

/-- What has left with a sender: Adds and sends. -/
def carried (b : Board) (tx : OutcomeTx) : Nat :=
  b.handed.countP (fun add => decide (add.done = some tx)) + b.sent.countP fun send => decide (send.2.1 = tx)

/-- The places of a sender outside the command queue. -/
def tally (b : Board) (id : TaskId) (tx : OutcomeTx) : Nat := (if b.watcher id = some tx then 1 else 0) + carried b tx

theorem countP_send (done : Option OutcomeTx) (id : TaskId) (outcome : TaskOutcome) (tx : OutcomeTx) :
    (done.toList.map fun tx => (id, tx, outcome)).countP (fun send => decide (send.2.1 = tx)) =
      if done = some tx then 1 else 0 := by
  cases done with
  | none => rfl
  | some other => simp [List.countP_cons]

theorem countP_hand (id : TaskId) (name : String) (done : Option OutcomeTx) (tx : OutcomeTx) :
    [(⟨id, name, done⟩ : Handoff)].countP (fun add => decide (add.done = some tx)) = if done = some tx then 1 else 0 := by
  simp [List.countP_cons]

/-- The watcher that leaves is the one counted for its identity. -/
theorem watcher_leaves (other : TaskId) (hinj : ∀ x, b.watcher x = some tx → x = id) :
    (if Function.update b.watcher other none id = some tx then 1 else 0) + (if b.watcher other = some tx then 1 else 0) =
      if b.watcher id = some tx then 1 else 0 := by
  rw [Function.update_apply]
  by_cases ho : id = other
  · subst ho
    simp
  · have hne : b.watcher other ≠ some tx := fun h => ho (hinj other h).symm
    simp [ho, hne]

theorem tally_spend (s : Spend b b') (hinj : ∀ x, b.watcher x = some tx → x = id) : tally b' id tx = tally b id tx := by
  cases s with
  | keep hwatcher hhanded hsent => simp only [tally, carried, hwatcher, hhanded, hsent]
  | reject other kind reason hwatcher hhanded hsent =>
      have hleaves := watcher_leaves other hinj
      simp only [tally, carried, hwatcher, hhanded, hsent, List.countP_append, countP_send]
      omega
  | hand other name hwatcher hhanded hsent =>
      have hleaves := watcher_leaves other hinj
      simp only [tally, carried, hwatcher, hhanded, hsent, List.countP_append, countP_hand]
      omega

/-- Every sender outside the command queue came in with its own submission,
and every send is a rejection. -/
structure Owned (subs : List Submission) (b : Board) : Prop where
  watcher : ∀ id tx, b.watcher id = some tx → ∃ sub ∈ subs, sub.id = id ∧ sub.done = some tx
  handed : ∀ add ∈ b.handed, ∀ tx, add.done = some tx → ∃ sub ∈ subs, sub.id = add.id ∧ sub.done = some tx
  sent : ∀ send ∈ b.sent, (∃ kind reason, send.2.2 = .rejected kind reason) ∧
    ∃ sub ∈ subs, sub.id = send.1 ∧ sub.done = some send.2.1

theorem Owned.mono (h : Owned subs b) {more : List Submission} (hsub : ∀ sub ∈ subs, sub ∈ more) : Owned more b where
  watcher := fun id tx hw => by
    obtain ⟨sub, hs, he⟩ := h.watcher id tx hw
    exact ⟨sub, hsub sub hs, he⟩
  handed := fun add ha tx hd => by
    obtain ⟨sub, hs, he⟩ := h.handed add ha tx hd
    exact ⟨sub, hsub sub hs, he⟩
  sent := fun send hs => by
    obtain ⟨hr, sub, hsub', he⟩ := h.sent send hs
    exact ⟨hr, sub, hsub sub hsub', he⟩

theorem handed_snoc (h : Owned subs b) {name : String} {done : Option OutcomeTx}
    (hdone : ∀ tx, done = some tx → ∃ sub ∈ subs, sub.id = id ∧ sub.done = some tx) :
    ∀ add ∈ b.handed ++ [⟨id, name, done⟩], ∀ tx, add.done = some tx →
      ∃ sub ∈ subs, sub.id = add.id ∧ sub.done = some tx := by
  intro add ha tx hd
  rw [List.mem_append, List.mem_singleton] at ha
  rcases ha with ha | rfl
  · exact h.handed add ha tx hd
  · exact hdone tx hd

theorem sent_snoc (h : Owned subs b) {done : Option OutcomeTx} (kind : RejectionKind) (reason : String)
    (hdone : ∀ tx, done = some tx → ∃ sub ∈ subs, sub.id = id ∧ sub.done = some tx) :
    ∀ send ∈ b.sent ++ done.toList.map fun tx => (id, tx, TaskOutcome.rejected kind reason),
      (∃ kind reason, send.2.2 = .rejected kind reason) ∧ ∃ sub ∈ subs, sub.id = send.1 ∧ sub.done = some send.2.1 := by
  intro send hs
  rw [List.mem_append, List.mem_map] at hs
  rcases hs with hs | ⟨tx, htx, rfl⟩
  · exact h.sent send hs
  · exact ⟨⟨kind, reason, rfl⟩, hdone tx (Option.mem_toList.mp htx)⟩

theorem Owned.spend (h : Owned subs b) (s : Spend b b') : Owned subs b' := by
  have hwatch (id : TaskId) (tx : OutcomeTx) (hw : b'.watcher id = some tx) := h.watcher id tx (s.watcher hw)
  cases s with
  | keep hwatcher hhanded hsent => exact ⟨hwatch, hhanded ▸ h.handed, hsent ▸ h.sent⟩
  | reject id kind reason hwatcher hhanded hsent =>
      exact ⟨hwatch, hhanded ▸ h.handed, hsent ▸ sent_snoc h kind reason (h.watcher id)⟩
  | hand id name hwatcher hhanded hsent => exact ⟨hwatch, hhanded ▸ handed_snoc h (h.watcher id), hsent ▸ h.sent⟩

theorem Owned.spends (h : Owned subs b) (s : Spends b b') : Owned subs b' := by
  induction s with
  | refl => exact h
  | tail _ s ih => exact ih.spend s

theorem spends_watcher (s : Spends b b') (hw : b'.watcher id = some tx) : b.watcher id = some tx := by
  induction s with
  | refl => exact hw
  | tail _ s ih => exact ih (s.watcher hw)

theorem tally_spends (s : Spends b b') (hinj : ∀ x, b.watcher x = some tx → x = id) : tally b' id tx = tally b id tx := by
  induction s with
  | refl => rfl
  | tail ss s ih =>
      rw [← ih]
      exact tally_spend s fun x hx => hinj x (spends_watcher ss hx)

section Entering

/-- The sender of a submission comes in: it is consumed, handed on or parked. -/
inductive Receive (sub : Submission) (b b' : Board) : Prop
  | sent (kind : RejectionKind) (reason : String) (hwatcher : b'.watcher = b.watcher) (hhanded : b'.handed = b.handed)
      (hsent : b'.sent = b.sent ++ sub.done.toList.map fun tx => (sub.id, tx, .rejected kind reason))
  | handed (name : String) (hwatcher : b'.watcher = b.watcher) (hhanded : b'.handed = b.handed ++ [⟨sub.id, name, sub.done⟩])
      (hsent : b'.sent = b.sent)
  | parked (hwatcher : b'.watcher = Function.update b.watcher sub.id sub.done) (hhanded : b'.handed = b.handed)
      (hsent : b'.sent = b.sent)

theorem receive_enter (henter : Enter sub b b') : ∃ b₁, Spend b b₁ ∧ Receive sub b₁ b' := by
  cases henter with
  | turnAway kind reason => exact ⟨b, .keep rfl rfl rfl, .sent kind reason rfl rfl rfl⟩
  | start now hslot hidle => exact ⟨b, .keep rfl rfl rfl, .handed sub.taskName rfl rfl rfl⟩
  | wait now hslot hidle hpump => exact ⟨b, .keep rfl rfl rfl, .parked rfl rfl rfl⟩
  | append hslot hbusy => exact ⟨b, .keep rfl rfl rfl, .parked rfl rfl rfl⟩
  | displace hslot hbusy hqueue =>
      rename_i slot head rest
      exact ⟨b.rejectParked head.id .supersededByReplace Reasons.supersededByReplace,
        .reject head.id _ _ rfl rfl rfl, .parked rfl rfl rfl⟩

/-- A sender that comes in is counted once from then on. -/
theorem tally_receive (hr : Receive sub b b') (hfree : b.watcher sub.id ≠ some tx) (hdone : sub.done = some tx) :
    tally b' sub.id tx = tally b sub.id tx + 1 := by
  cases hr with
  | sent kind reason hwatcher hhanded hsent =>
      simp only [tally, carried, hwatcher, hhanded, hsent, List.countP_append, countP_send, hdone, if_true]
      omega
  | handed name hwatcher hhanded hsent =>
      simp only [tally, carried, hwatcher, hhanded, hsent, List.countP_append, countP_hand, hdone, if_true]
      omega
  | parked hwatcher hhanded hsent =>
      simp only [tally, carried, hwatcher, hhanded, hsent, Function.update_self, hdone, if_neg hfree, if_true]
      omega

theorem tally_receive_other (hr : Receive sub b b') (hid : id ≠ sub.id) (hdone : sub.done ≠ some tx) :
    tally b' id tx = tally b id tx := by
  cases hr with
  | sent kind reason hwatcher hhanded hsent =>
      simp only [tally, carried, hwatcher, hhanded, hsent, List.countP_append, countP_send, if_neg hdone, Nat.add_zero]
  | handed name hwatcher hhanded hsent =>
      simp only [tally, carried, hwatcher, hhanded, hsent, List.countP_append, countP_hand, if_neg hdone, Nat.add_zero]
  | parked hwatcher hhanded hsent =>
      simp only [tally, carried, hwatcher, hhanded, hsent, Function.update_of_ne hid]

theorem Owned.receive (h : Owned subs b) (hr : Receive sub b b') (hsub : sub ∈ subs) : Owned subs b' := by
  have hown (tx : OutcomeTx) (hd : sub.done = some tx) : ∃ s ∈ subs, s.id = sub.id ∧ s.done = some tx := ⟨sub, hsub, rfl, hd⟩
  cases hr with
  | sent kind reason hwatcher hhanded hsent =>
      exact ⟨hwatcher ▸ h.watcher, hhanded ▸ h.handed, hsent ▸ sent_snoc h kind reason hown⟩
  | handed name hwatcher hhanded hsent =>
      exact ⟨hwatcher ▸ h.watcher, hhanded ▸ handed_snoc h hown, hsent ▸ h.sent⟩
  | parked hwatcher hhanded hsent =>
      refine ⟨?_, hhanded ▸ h.handed, hsent ▸ h.sent⟩
      intro id tx hw
      rw [hwatcher, Function.update_apply] at hw
      split at hw
      · next he => exact ⟨sub, hsub, he.symm, hw⟩
      · exact h.watcher id tx hw

/-- A submission with everything that happens around its entry. -/
def Absorb (sub : Submission) (b b' : Board) : Prop := ∃ b₁ b₂, Spends b b₁ ∧ Receive sub b₁ b₂ ∧ Spends b₂ b'

theorem absorb_entered (h : Coherent b) (hunknown : ¬ Known b sub.id) (hentered : ∃ c, Moves fin b c ∧ Entered fin sub c b') :
    Absorb sub b b' := by
  obtain ⟨c, hmoves, d, henter, hafter⟩ := hentered
  have hc : Coherent c := h.moves hmoves
  have hd : Coherent d := hc.enter (unknown_moves h hmoves hunknown) henter
  obtain ⟨b₁, hspend, hreceive⟩ := receive_enter henter
  exact ⟨b₁, d, (spends_moves h hmoves).tail hspend, hreceive, spends_moves hd hafter⟩

theorem Owned.absorb (h : Owned subs b) (ha : Absorb sub b b') (hsub : sub ∈ subs) : Owned subs b' := by
  obtain ⟨b₁, b₂, hbefore, hreceive, hafter⟩ := ha
  exact ((h.spends hbefore).receive hreceive hsub).spends hafter

/-- Where an identity is the only one with its sender. -/
theorem Owned.inj (h : Owned subs b) (hunique : ∀ s ∈ subs, s.done = some tx → s.id = id) :
    ∀ x, b.watcher x = some tx → x = id := by
  intro x hx
  obtain ⟨s, hs, rfl, hdone⟩ := h.watcher x tx hx
  exact hunique s hs hdone

/-- A sender no submission came with is nowhere. -/
theorem Owned.tally_zero (h : Owned subs b) (id : TaskId) (hnone : ∀ s ∈ subs, s.done ≠ some tx) : tally b id tx = 0 := by
  have hwatcher : b.watcher id ≠ some tx := by
    intro hw
    obtain ⟨s, hs, -, hd⟩ := h.watcher id tx hw
    exact hnone s hs hd
  have hhanded : b.handed.countP (fun add => decide (add.done = some tx)) = 0 := by
    rw [List.countP_eq_zero]
    intro add ha
    rw [decide_eq_true_eq]
    intro hd
    obtain ⟨s, hs, -, hd'⟩ := h.handed add ha tx hd
    exact hnone s hs hd'
  have hsent : b.sent.countP (fun send => decide (send.2.1 = tx)) = 0 := by
    rw [List.countP_eq_zero]
    intro send hsend
    rw [decide_eq_true_eq]
    rintro rfl
    obtain ⟨-, s, hs, -, hd⟩ := h.sent send hsend
    exact hnone s hs hd
  rw [tally, if_neg hwatcher, carried, hhanded, hsent]

theorem tally_absorb (h : Owned subs b) (ha : Absorb sub b b') (hsub : sub ∈ subs)
    (hunique : ∀ s ∈ subs, s.done = some tx → s.id = sub.id) (hdone : sub.done = some tx)
    (hfree : b.watcher sub.id ≠ some tx) : tally b' sub.id tx = tally b sub.id tx + 1 := by
  obtain ⟨b₁, b₂, hbefore, hreceive, hafter⟩ := ha
  have h₁ := h.spends hbefore
  rw [tally_spends hafter ((h₁.receive hreceive hsub).inj hunique),
    tally_receive hreceive (fun hw => hfree (spends_watcher hbefore hw)) hdone, tally_spends hbefore (h.inj hunique)]

theorem tally_absorb_other (h : Owned subs b) (ha : Absorb sub b b') (hsub : sub ∈ subs)
    (hunique : ∀ s ∈ subs, s.done = some tx → s.id = id) (hid : id ≠ sub.id) (hdone : sub.done ≠ some tx) :
    tally b' id tx = tally b id tx := by
  obtain ⟨b₁, b₂, hbefore, hreceive, hafter⟩ := ha
  have h₁ := h.spends hbefore
  rw [tally_spends hafter ((h₁.receive hreceive hsub).inj hunique), tally_receive_other hreceive hid hdone,
    tally_spends hbefore (h.inj hunique)]

end Entering

section Shutdown

variable {e : Engine} {obs : Observed}

theorem spend_finalizeEntry (e : Engine) (obs : Observed) (name : String) (id : TaskId) :
    Spend (board e) (board (finalizeEntry obs e name id).2) := by
  rw [finalizeEntry, board_publishFinalize]
  exact .reject id .controllerShuttingDown Reasons.controllerShuttingDown rfl rfl rfl

theorem spends_finalizeCapacity (obs : Observed) (entries : List (TaskId × CapacityPending)) (e : Engine) :
    Spends (board e) (board (finalizeCapacity obs e entries).1) := by
  induction entries generalizing e with
  | nil => exact .refl
  | cons entry rest ih =>
      exact .head (spend_finalizeEntry e obs entry.2.slotName entry.1) (ih (finalizeEntry obs e entry.2.slotName entry.1).2)

theorem spends_finalizeQueue (obs : Observed) (name : String) (queue : List PendingSubmission) (e : Engine) :
    Spends (board e) (board (finalizeQueue obs name e queue).1) := by
  induction queue generalizing e with
  | nil => exact .refl
  | cons pending rest ih =>
      have hunindex : Spend (board e) (board (e.unindexQueued pending.id)) := .keep rfl rfl rfl
      exact .head hunindex (.head (spend_finalizeEntry (e.unindexQueued pending.id) obs name pending.id)
        (ih (finalizeEntry obs (e.unindexQueued pending.id) name pending.id).2))

theorem spends_finalizeSlots (obs : Observed) (slots : List (String × SlotState)) (e : Engine) :
    Spends (board e) (board (finalizeSlots obs e slots).1) := by
  induction slots generalizing e with
  | nil => exact .refl
  | cons slot rest ih =>
      exact (spends_finalizeQueue obs slot.1 slot.2.queue e).trans (ih (finalizeQueue obs slot.1 e slot.2.queue).1)

theorem board_finalizeWatcher (e : Engine) (obs : Observed) (id : TaskId) :
    board ((e.publish ⟨.controllerRejected, none, some id, some .controllerShuttingDown,
      some Reasons.controllerShuttingDown⟩).finalizeRejected obs id .controllerShuttingDown
        Reasons.controllerShuttingDown).2 =
      (board e).rejectParked id .controllerShuttingDown Reasons.controllerShuttingDown := by
  rw [board_finalizeRejected, board_publish_rejection]
  rfl

theorem spends_finalizeRemainingWatchers (obs : Observed) (keys : List TaskId) (e : Engine) :
    Spends (board e) (board (finalizeRemainingWatchers obs e keys)) ∧
      ∀ id ∈ keys, (board (finalizeRemainingWatchers obs e keys)).watcher id = none := by
  induction keys generalizing e with
  | nil => exact ⟨.refl, nofun⟩
  | cons key rest ih =>
      have hb := board_finalizeWatcher e obs key
      set e' := ((e.publish ⟨.controllerRejected, none, some key, some .controllerShuttingDown,
        some Reasons.controllerShuttingDown⟩).finalizeRejected obs key .controllerShuttingDown
          Reasons.controllerShuttingDown).2 with he'
      have hspend : Spend (board e) (board e') := by
        rw [hb]
        exact .reject key .controllerShuttingDown Reasons.controllerShuttingDown rfl rfl rfl
      obtain ⟨hrest, hgone⟩ := ih e'
      simp only [finalizeRemainingWatchers, ← he']
      refine ⟨.head hspend hrest, ?_⟩
      intro id hid
      rcases List.mem_cons.mp hid with rfl | hid
      · by_contra hsome
        obtain ⟨tx, htx⟩ := Option.ne_none_iff_exists'.mp hsome
        have hback := spends_watcher hrest htx
        rw [hb] at hback
        simp [Board.rejectParked, Board.setWatcher] at hback
      · exact hgone id hid

/-- The final sweep only consumes senders, and leaves none. -/
theorem spends_finalize (obs : Observed) (e : Engine) :
    Spends (board e) (board (finalizeSlotStateOnShutdown obs e)) ∧
      ∀ id, (board (finalizeSlotStateOnShutdown obs e)).watcher id = none := by
  set cleared : Engine := { e with state := { e.state with capacityPending := ∅ } } with hcleared
  set first := finalizeCapacity obs cleared (pairs e.state.capacityPending) with hfirst
  set second := finalizeSlots obs first.1 (pairs first.1.state.slots) with hsecond
  obtain ⟨hlast, hgone⟩ := spends_finalizeRemainingWatchers obs second.1.state.watchers.keys second.1
  set last := finalizeRemainingWatchers obs second.1 second.1.state.watchers.keys with hlast'
  have hstart : Spend (board e) (board cleared) := .keep rfl rfl rfl
  have hend : Spend (board last) (board (finalizeSlotStateOnShutdown obs e)) := .keep rfl rfl rfl
  have hsweep := (spends_finalizeCapacity obs (pairs e.state.capacityPending) cleared).trans
    ((spends_finalizeSlots obs (pairs first.1.state.slots) first.1).trans hlast)
  refine ⟨.head hstart (hsweep.tail hend), ?_⟩
  intro id
  by_contra hsome
  obtain ⟨tx, htx⟩ := Option.ne_none_iff_exists'.mp hsome
  have hlastw := hend.watcher htx
  have hkey : id ∈ second.1.state.watchers.keys := Table.mem_keys_iff.mpr ⟨tx, spends_watcher hlast hlastw⟩
  cases hlastw.symm.trans (hgone id hkey)

theorem absorb_drain (obs : Observed) (sub : Submission) :
    Absorb sub (board e) (board (drainCommand obs e (.submit sub))) := by
  refine ⟨board e, _, .refl, ?_, .refl⟩
  rw [drainCommand, board_dispose, board_sendRejected, board_publishRejected]
  exact .sent .controllerShuttingDown Reasons.controllerShuttingDown rfl rfl rfl

end Shutdown

section Worlds

variable {cfg : ControllerConfig} {w w' : World}

/-- Commands in the queue that carry the sender. -/
def queuedWith (tx : OutcomeTx) (commands : List ControllerCommand) : Nat :=
  (submissions commands).countP fun s => decide (s.done = some tx)

structure Accounted (w : World) : Prop where
  logged : ∀ sub ∈ submissions w.commands, sub ∈ submissions w.log
  unique : ∀ s ∈ submissions w.log, ∀ t ∈ submissions w.log,
    (s.id = t.id ∨ ∃ tx, s.done = some tx ∧ t.done = some tx) → s = t
  owned : Owned (submissions w.log) (board w.engine)
  once : ∀ sub ∈ submissions w.log, ∀ tx, sub.done = some tx →
    queuedWith tx w.commands + tally (board w.engine) sub.id tx = 1

theorem Accounted.done_id (h : Accounted w) (hsub : sub ∈ submissions w.log) (hdone : sub.done = some tx) :
    ∀ s ∈ submissions w.log, s.done = some tx → s.id = sub.id := by
  intro s hs hd
  rw [h.unique s hs sub hsub (.inr ⟨tx, hd, hdone⟩)]

theorem Accounted.init (cfg : ControllerConfig) : Accounted (World.new cfg) where
  logged := nofun
  unique := nofun
  owned := ⟨fun id tx hw => by simp [board, World.new, Engine.new] at hw, nofun, nofun⟩
  once := nofun

theorem Accounted.spends (h : Accounted w) {phase : Phase} {commands : List ControllerCommand} {e : Engine}
    (hspends : Spends (board w.engine) (board e)) (hcommands : submissions commands = submissions w.commands) :
    Accounted { w with engine := e, commands, phase } where
  logged := by
    rw [hcommands]
    exact h.logged
  unique := h.unique
  owned := h.owned.spends hspends
  once := fun sub hsub tx hdone => by
    have honce := h.once sub hsub tx hdone
    rw [queuedWith, hcommands, tally_spends hspends (h.owned.inj (h.done_id hsub hdone))]
    exact honce

theorem Accounted.absorb (h : Accounted w) {commands : List ControllerCommand} {e : Engine}
    (hcommands : submissions w.commands = sub :: submissions commands) (habsorb : Absorb sub (board w.engine) (board e)) :
    Accounted { w with engine := e, commands } := by
  have hsub : sub ∈ submissions w.log := h.logged sub (hcommands ▸ List.mem_cons_self)
  refine ⟨fun s hs => h.logged s (hcommands ▸ List.mem_cons_of_mem _ hs), h.unique, h.owned.absorb habsorb hsub, ?_⟩
  intro s hs tx hdone
  have honce := h.once s hs tx hdone
  have hunique := h.done_id hs hdone
  rw [queuedWith, hcommands, List.countP_cons] at honce
  by_cases he : sub.done = some tx
  · obtain rfl : s = sub := h.unique s hs sub hsub (.inr ⟨tx, hdone, he⟩)
    have hfree : (board w.engine).watcher s.id ≠ some tx := by
      intro hw
      simp only [he, decide_true, if_true, tally, if_pos hw] at honce
      omega
    have htally := tally_absorb h.owned habsorb hsub hunique he hfree
    simp only [he, decide_true, if_true] at honce
    change queuedWith tx commands + tally (board e) s.id tx = 1
    rw [queuedWith, htally]
    omega
  · have hid : s.id ≠ sub.id := fun hid => he (h.unique s hs sub hsub (.inl hid) ▸ hdone)
    have htally := tally_absorb_other h.owned habsorb hsub hunique hid he
    simp only [he, decide_false, Bool.false_eq_true, if_false, Nat.add_zero] at honce
    rw [queuedWith, htally]
    exact honce

theorem Accounted.issue (h : Accounted w) (command : ControllerCommand) (hfresh : fresh w.log command = true) :
    Accounted (w.issue command) := by
  have hcommands : submissions (w.issue command).commands = submissions w.commands ++ (submission? command).toList :=
    submissions_snoc ..
  have hlog : submissions (w.issue command).log = submissions w.log ++ (submission? command).toList := submissions_snoc ..
  cases command with
  | manageIdentity id operation reply =>
      rw [submission?, Option.toList_none, List.append_nil] at hcommands hlog
      refine ⟨hcommands ▸ hlog ▸ h.logged, hlog ▸ h.unique, hlog ▸ h.owned, ?_⟩
      intro sub hsub tx hdone
      rw [queuedWith, hcommands]
      exact h.once sub (hlog ▸ hsub) tx hdone
  | submit sub =>
      rw [submission?, Option.toList_some] at hcommands hlog
      have hnew : ∀ old ∈ submissions w.log, old.id ≠ sub.id ∧ (old.done = none ∨ old.done ≠ sub.done) :=
        of_decide_eq_true hfresh
      have hapart (old : Submission) (hold : old ∈ submissions w.log) :
          ¬ (old.id = sub.id ∨ ∃ tx, old.done = some tx ∧ sub.done = some tx) := by
        rintro (hid | ⟨tx, hd, hd'⟩)
        · exact (hnew old hold).1 hid
        · rcases (hnew old hold).2 with hn | hn
          · cases hn.symm.trans hd
          · exact hn (hd.trans hd'.symm)
      refine ⟨?_, ?_, ?_, ?_⟩
      · intro s hs
        rw [hcommands] at hs
        rw [hlog]
        exact List.mem_append.mpr ((List.mem_append.mp hs).imp_left (h.logged s))
      · intro s hs t ht hsame
        rw [hlog, List.mem_append, List.mem_singleton] at hs ht
        rcases hs with hs | rfl <;> rcases ht with ht | rfl
        · exact h.unique s hs t ht hsame
        · exact absurd hsame (hapart s hs)
        · refine absurd ?_ (hapart t ht)
          rcases hsame with hid | ⟨tx, hd, hd'⟩
          · exact .inl hid.symm
          · exact .inr ⟨tx, hd', hd⟩
        · rfl
      · rw [hlog]
        exact h.owned.mono fun s hs => List.mem_append_left _ hs
      · intro s hs tx hdone
        rw [hlog, List.mem_append, List.mem_singleton] at hs
        rw [queuedWith, hcommands, List.countP_append]
        rcases hs with hs | rfl
        · have hne : sub.done ≠ some tx := fun hd => hapart s hs (.inr ⟨tx, hdone, hd⟩)
          have honce := h.once s hs tx hdone
          simp only [List.countP_singleton, hne, decide_false, Bool.false_eq_true, if_false, Nat.add_zero]
          exact honce
        · have hzero := h.owned.tally_zero s.id fun old hold hd => hapart old hold (.inr ⟨tx, hd, hdone⟩)
          have hnone : (submissions w.commands).countP (fun s => decide (s.done = some tx)) = 0 := by
            rw [List.countP_eq_zero]
            intro old hold
            rw [decide_eq_true_eq]
            exact fun hd => hapart old (h.logged old hold) (.inr ⟨tx, hd, hdone⟩)
          change _ + tally (board w.engine) s.id tx = 1
          rw [hnone, hzero, List.countP_singleton, hdone]
          simp

theorem accounted_of_reachable (hw : (machine cfg).Reachable w) : Accounted w := by
  refine hw.invariant (.init cfg) ?_
  intro w a w' hw h hstep
  by_cases hphase : w.phase = .looping
  · have hsane := sane_of_reachable hw hphase
    cases hsane.turn hphase (fun id _ => trivial) hstep with
    | sent command hfresh => exact h.issue command hfresh
    | submitted hcommands hentered =>
        rename_i sub rest e
        have hsub : submissions w.commands = sub :: submissions rest := by
          rw [hcommands]
          rfl
        exact h.absorb hsub (absorb_entered hsane.coherent (hsane.unknown sub (hsub ▸ List.mem_cons_self)) hentered)
    | managed hcommands hmoves =>
        refine h.spends (spends_moves hsane.coherent hmoves) ?_
        rw [hcommands]
        rfl
    | resolved hmoves => exact h.spends (spends_moves hsane.coherent hmoves) rfl
    | stopped => exact h.spends (.single (.keep rfl rfl rfl)) rfl
  · cases step_wind hphase hstep with
    | sent command hdrain hfresh => exact h.issue command hfresh
    | drained obs hdrain hcommands =>
        rename_i command rest
        cases command with
        | submit sub =>
            have hsub : submissions w.commands = sub :: submissions rest := by
              rw [hcommands]
              rfl
            exact h.absorb hsub (absorb_drain obs sub)
        | manageIdentity id operation reply =>
            refine h.spends (.single (.keep rfl rfl rfl)) ?_
            rw [hcommands]
            rfl
    | finalized obs hdrain hcommands => exact h.spends (spends_finalize obs w.engine).1 rfl
    | finished obs hfinal => exact h.spends (spends_finalize obs w.engine).1 rfl

/-- A parked sender belongs to a waiting submission, and the final sweep has
left nothing behind. -/
structure Closing (w : World) : Prop where
  watched : ∀ id, (board w.engine).watcher id ≠ none →
    (board w.engine).queued id ≠ none ∨ (board w.engine).capacity id ≠ none
  closed : w.phase = .finalized ∨ w.phase = .finished → w.commands = [] ∧ ∀ id, (board w.engine).watcher id = none

theorem Closing.swept {e : Engine} {phase : Phase} (obs : Observed) (hcommands : w.commands = []) :
    Closing { w with phase, engine := finalizeSlotStateOnShutdown obs e } where
  watched := fun id hw => absurd ((spends_finalize obs e).2 id) hw
  closed := fun _ => ⟨hcommands, (spends_finalize obs e).2⟩

theorem closing_of_reachable (hw : (machine cfg).Reachable w) : Closing w := by
  refine hw.invariant ⟨fun id h => absurd rfl h, by rintro (h | h) <;> cases h⟩ ?_
  intro w a w' hw h hstep
  by_cases hphase : w.phase = .looping
  · by_cases hphase' : w'.phase = .looping
    · have hsane := sane_of_reachable (.next a hw hstep) hphase'
      refine ⟨hsane.coherent.watched, ?_⟩
      rw [hphase']
      rintro (hp | hp) <;> cases hp
    · cases (sane_of_reachable hw hphase).turn hphase (fun id _ => trivial) hstep with
      | stopped => exact ⟨h.watched, by rintro (hp | hp) <;> cases hp⟩
      | _ => exact absurd hphase hphase'
  · cases step_wind hphase hstep with
    | sent command hdrain hfresh =>
        refine ⟨h.watched, ?_⟩
        rintro (hp | hp) <;> cases hdrain.symm.trans hp
    | drained obs hdrain hcommands =>
        rename_i command rest
        have hkeep : (board (drainCommand obs w.engine command)).watcher = (board w.engine).watcher ∧
            (board (drainCommand obs w.engine command)).queued = (board w.engine).queued ∧
            (board (drainCommand obs w.engine command)).capacity = (board w.engine).capacity := by
          cases command with
          | submit sub =>
              rw [drainCommand, board_dispose, board_sendRejected, board_publishRejected]
              exact ⟨rfl, rfl, rfl⟩
          | manageIdentity id operation reply => exact ⟨rfl, rfl, rfl⟩
        refine ⟨?_, ?_⟩
        · rw [hkeep.1, hkeep.2.1, hkeep.2.2]
          exact h.watched
        · rintro (hp | hp) <;> cases hdrain.symm.trans hp
    | finalized obs hdrain hcommands => exact .swept obs hcommands
    | finished obs hfinal => exact .swept obs (h.closed (.inl hfinal)).1

/-- All places where a sender can be. -/
def holders (w : World) (tx : OutcomeTx) : Nat :=
  queuedWith tx w.commands + (Table.values w.engine.state.watchers).count tx +
    w.engine.handed.countP (fun add => decide (add.done = some tx)) +
    w.engine.sent.countP fun send => decide (send.2.1 = tx)

theorem Accounted.holders_eq (h : Accounted w) (hsub : sub ∈ submissions w.log) (hdone : sub.done = some tx) :
    holders w tx = 1 := by
  have honce := h.once sub hsub tx hdone
  have hcount := Table.count_values (s := w.engine.state.watchers) (h.owned.inj (h.done_id hsub hdone))
  rw [holders, hcount]
  have htally : tally (board w.engine) sub.id tx = (if w.engine.state.watchers.lookup sub.id = some tx then 1 else 0) +
      (w.engine.handed.countP (fun add => decide (add.done = some tx)) +
        w.engine.sent.countP fun send => decide (send.2.1 = tx)) := rfl
  omega

theorem Accounted.one_rejection (h : Accounted w) (hsub : sub ∈ submissions w.log) (hdone : sub.done = some tx)
    (hcommands : sub ∉ submissions w.commands) (hwatcher : (board w.engine).watcher sub.id = none)
    (hhanded : ∀ add ∈ w.engine.handed, add.id ≠ sub.id) :
    ∃ kind reason, (w.engine.sent.filter fun send => decide (send.2.1 = tx)) = [(sub.id, tx, .rejected kind reason)] := by
  have honce := h.once sub hsub tx hdone
  have hqueue : queuedWith tx w.commands = 0 := by
    rw [queuedWith, List.countP_eq_zero]
    intro s hs
    rw [decide_eq_true_eq]
    exact fun hd => hcommands (h.unique s (h.logged s hs) sub hsub (.inr ⟨tx, hd, hdone⟩) ▸ hs)
  have hadd : (board w.engine).handed.countP (fun add => decide (add.done = some tx)) = 0 := by
    rw [List.countP_eq_zero]
    intro add ha
    rw [decide_eq_true_eq]
    intro hd
    obtain ⟨s, hs, hid, hd'⟩ := h.owned.handed add ha tx hd
    exact hhanded add ha (hid.symm.trans (h.done_id hsub hdone s hs hd'))
  rw [hqueue, tally, hwatcher, if_neg nofun, carried, hadd] at honce
  simp only [Nat.zero_add, List.countP_eq_length_filter] at honce
  obtain ⟨send, hsend⟩ := List.length_eq_one_iff.mp honce
  have hmem : send ∈ (board w.engine).sent.filter fun send => decide (send.2.1 = tx) := hsend ▸ List.mem_cons_self
  rw [List.mem_filter, decide_eq_true_eq] at hmem
  obtain ⟨⟨kind, reason, hr⟩, s, hs, hid, hd⟩ := h.owned.sent send hmem.1
  refine ⟨kind, reason, hsend.trans ?_⟩
  rw [hmem.2] at hd
  rw [← h.done_id hsub hdone s hs hd, hid, ← hr, ← hmem.2]

/-- Every sender the command queue accepted is in exactly one place. A
submission that left without a handoff has had exactly one rejection, and a
finished controller holds no sender. -/
theorem outcome_conservation (cfg : ControllerConfig) (w : World) (hw : (machine cfg).Reachable w) :
    (∀ sub ∈ submissions w.log, ∀ tx, sub.done = some tx →
      holders w tx = 1 ∧
      (sub ∉ submissions w.commands → sub.id ∉ w.engine.state.queuedSlots → sub.id ∉ w.engine.state.capacityPending →
        (∀ add ∈ w.engine.handed, add.id ≠ sub.id) →
        ∃ kind reason, (w.engine.sent.filter fun send => decide (send.2.1 = tx)) = [(sub.id, tx, .rejected kind reason)])) ∧
    (∀ send ∈ w.engine.sent, ∃ kind reason, send.2.2 = .rejected kind reason) ∧
    (w.phase = .finished → w.commands = [] ∧ w.engine.state.watchers.keys = []) := by
  have h := accounted_of_reachable hw
  have hclosing := closing_of_reachable hw
  refine ⟨?_, fun send hs => (h.owned.sent send hs).1, ?_⟩
  · intro sub hsub tx hdone
    refine ⟨h.holders_eq hsub hdone, ?_⟩
    intro hcommands hqueued hcapacity hhanded
    refine h.one_rejection hsub hdone hcommands ?_ hhanded
    by_contra hw
    rcases hclosing.watched sub.id hw with hq | hc
    · exact hqueued (AList.lookup_isSome.mp (Option.isSome_iff_ne_none.mpr hq))
    · exact hcapacity (AList.lookup_isSome.mp (Option.isSome_iff_ne_none.mpr hc))
  · intro hphase
    obtain ⟨hcommands, hnone⟩ := hclosing.closed (.inr hphase)
    refine ⟨hcommands, List.eq_nil_iff_forall_not_mem.mpr ?_⟩
    intro id hid
    obtain ⟨tx, htx⟩ := Table.mem_keys_iff.mp hid
    cases htx.symm.trans (hnone id)

def finishedRun : List Action := mixedRun ++ [.stop, .finalize busyRegistry, .finish busyRegistry]

/-- The owner's sender went with its Add; the one behind it was rejected by the
final sweep. -/
theorem outcome_conservation_finished :
    ∃ w, (machine tinyConfig).after (World.new tinyConfig) finishedRun = some w ∧
      (⟨2, "b", .queue, some "a", some 20⟩ : Submission) ∈ submissions w.log ∧ holders w 10 = 1 ∧ holders w 20 = 1 ∧
      (∃ kind reason, (w.engine.sent.filter fun send => decide (send.2.1 = 20)) = [(2, 20, .rejected kind reason)]) ∧
      w.commands = [] ∧ w.engine.state.watchers.keys = [] := by
  obtain ⟨w, hw, hp⟩ := (Option.any_eq_true (fun w : World => decide (w.phase = .finished ∧
      submissions w.log = [⟨1, "a", .queue, none, some 10⟩, ⟨2, "b", .queue, some "a", some 20⟩,
        ⟨3, "c", .queue, none, none⟩] ∧ w.engine.handed = [⟨1, "a", some 10⟩] ∧
      2 ∉ w.engine.state.queuedSlots ∧ 2 ∉ w.engine.state.capacityPending)) _).mp
    (show (Machine.after (machine tinyConfig) (World.new tinyConfig) finishedRun).any _ = true by decide +kernel)
  obtain ⟨hphase, hlog, hhanded, hqueued, hcapacity⟩ := of_decide_eq_true hp
  obtain ⟨hplaces, -, hclosed⟩ := outcome_conservation tinyConfig w (Machine.Reachable.after .init hw)
  obtain ⟨hcommands, hkeys⟩ := hclosed hphase
  have hfirst : (⟨1, "a", .queue, none, some 10⟩ : Submission) ∈ submissions w.log := by simp [hlog]
  have hsecond : (⟨2, "b", .queue, some "a", some 20⟩ : Submission) ∈ submissions w.log := by simp [hlog]
  obtain ⟨hheld, hleft⟩ := hplaces _ hsecond 20 rfl
  refine ⟨w, hw, hsecond, (hplaces _ hfirst 10 rfl).1, hheld, ?_, hcommands, hkeys⟩
  refine hleft ?_ hqueued hcapacity ?_
  · rw [hcommands]
    exact nofun
  · rw [hhanded]
    simp

end Worlds

end Taskvisor.Controller.Outcomes
