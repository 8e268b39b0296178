import Taskvisor.Controller.Precedence
import Taskvisor.Registry.Withdrawal
import Taskvisor.System.Slots

namespace Taskvisor.System.Cancellation

open Lib Runtime.Base Controller Controller.State Controller.Index Controller.Tracking Controller.Tenure
  Controller.Precedence Registry Registry.Identity Registry.Growth Registry.Reach Registry.Withdrawal Composed
  Receipts Slots
open Registry.Steps (isRegistered)
open Registry.Listener (RegistryConfig RegistryCommand Reply Call Target)

variable {cfg : ControllerConfig} {limits : RegistryConfig} {w w' : World} {a : Action} {r r' : Listener.World}
  {b : Listener.World.Action} {c : Driver.World} {id : TaskId} {key : Reply} {reply : IdentityReply}

section Calls

def aim : Call → Option Target
  | .remove target _ | .cancel target _ => some target
  | _ => none

theorem addressee_command (call : Call) (key : Reply) (latch : Reaper.RemovalCompletion) :
    addressee (call.command key latch) = aim call := by cases call <;> rfl

theorem aim_management (id : TaskId) (operation : IdentityOperation) :
    aim (managementCall id operation) = some (.id id) := by cases operation <;> rfl

/-- A call about this identity whose command, once sent, stands after its Add. -/
structure Trails (r : Listener.World) (key : Reply) (id : TaskId) : Prop where
  begun : key < r.nextCaller
  aimed : ∀ caller, r.callers.lookup key = some caller → aim caller.call = some (.id id)
  added : id ∈ ids r.sent
  sent : key ∈ r.sent.map RegistryCommand.reply → Trailing r.sent id key

theorem nextCaller_step (hs : Steps.Stepped limits r b r') : r.nextCaller ≤ r'.nextCaller := by
  cases hs with
  | begin => exact Nat.le_succ _
  | call key caller v hk hcall => cases hcall <;> exact Nat.le_refl _
  | shutdownStep instr todo v htodo hstep => cases Steps.shutdownStep_cases hstep <;> exact Nat.le_refl _
  | listen branch v hjob hlisten => cases hlisten <;> exact Nat.le_refl _
  | work job v hjob hwork => exact Nat.le_of_eq hwork.frame.nextCaller.symm
  | _ => exact Nat.le_refl _

theorem Trails.begin (hst : Steady r) (hid : id ∈ ids r.sent) {call : Call} (haim : aim call = some (.id id))
    (hs : Steps.Stepped limits r (.begin call) r') : Trails r' r.nextCaller id := by
  cases hs with
  | begin hnodup hfresh =>
      refine ⟨Nat.lt_succ_self _, fun caller hk => ?_, hid, fun hm => ?_⟩
      · obtain rfl := Option.some.inj ((AList.lookup_insert _).symm.trans hk)
        exact haim
      · obtain ⟨command, hc, hreply⟩ := List.mem_map.mp hm
        exact absurd (hst.numbered.keys command hc) (by rw [hreply]; exact Nat.lt_irrefl _)

theorem Trails.step (h : Trails r key id) (hs : Steps.Stepped limits r b r') : Trails r' key id := by
  have hgrown := (step_grown hs).sent
  refine ⟨Nat.lt_of_lt_of_le h.begun (nextCaller_step hs), fun caller hk => ?_, ids_prefix hgrown h.added, fun hm => ?_⟩
  · rcases callers_step hs hk with ⟨old, ho, hcall, -⟩ | ⟨-, hkey⟩
    · rw [hcall]
      exact h.aimed old ho
    · exact absurd h.begun (by rw [hkey]; exact Nat.lt_irrefl _)
  · rcases sent_step hs with he | ⟨k, caller, todo, -, hk, -, he⟩
    · rw [he] at hm ⊢
      exact h.sent hm
    · rw [he, List.map_append, List.mem_append] at hm
      rcases hm with hm | hm
      · exact (h.sent hm).mono hgrown
      · have hreply := List.mem_singleton.mp hm
        rw [Fence.command_reply] at hreply
        subst hreply
        rw [he]
        exact ⟨r.sent, _, [], rfl, Fence.command_reply .., (addressee_command ..).trans (h.aimed caller hk), h.added⟩

/-- The answer of such a call finds the identity withdrawn. -/
theorem withdrawn_of_concluded (hst : Steady r) (hatt : Attended r) (h : Trails r key id) {claimed : Bool}
    (hc : concluded r key = some claimed) : Withdrawn r id := by
  have hsome : replyOf r key ≠ none := by
    intro hnone
    rw [concluded, hnone] at hc
    cases hc
  obtain ⟨answer, hanswer⟩ := Option.ne_none_iff_exists'.mp hsome
  obtain ⟨d, hd, -⟩ := Option.map_eq_some_iff.mp hanswer
  have hreply : d.reply = key := by simpa using List.find?_some hd
  have hin := List.mem_of_find?_eq_some hd
  have htaken := replied_taken hst hin
  have htakenSent : r.taken <+: r.sent := ⟨r.commands, hst.fenced.order.symm⟩
  rw [hreply] at htaken
  have htrailing := (h.sent ((htakenSent.map _).subset htaken)).restrict htakenSent hst.numbered.once htaken
  exact hatt.served d hin id (hreply ▸ htrailing)

end Calls

section Promises

/-- A command of this reply came, and if the identity was submitted before it,
then it was rejected or `P` holds. -/
def Promised (c : Driver.World) (reply : IdentityReply) (P : TaskId → Prop) : Prop :=
  ∃ id operation, .manageIdentity id operation reply ∈ c.log ∧
    (Precedes c.log id reply → id ∈ rejectedIds c.engine ∨ P id)

theorem Promised.mono {P Q : TaskId → Prop} (h : Promised c reply P) (hpq : ∀ id, P id → Q id) : Promised c reply Q := by
  obtain ⟨id, operation, hm, hp⟩ := h
  exact ⟨id, operation, hm, fun hbefore => (hp hbefore).imp_right (hpq id)⟩

theorem Promised.step {P : TaskId → Prop} {c' : Driver.World} {b : Driver.Action} (h : Promised c reply P)
    (hc : (Driver.machine cfg).Reachable c) (hstep : c.step cfg b = some c') : Promised c' reply P := by
  obtain ⟨id, operation, hm, hp⟩ := h
  have hlog := log_prefix hstep
  refine ⟨id, operation, hlog.subset hm, fun hbefore => ?_⟩
  have hold := hbefore.restrict (ordered_of_reachable (.next b hc hstep)) hlog (mem_replies hm)
  exact (hp hold).imp_left fun hid => rejected_step hstep hid

/-- A reply belongs to one command, and the promise is about its identity. -/
theorem Promised.fulfil {P : TaskId → Prop} (h : Promised c reply P) (hc : (Driver.machine cfg).Reachable c)
    (hbefore : Precedes c.log id reply) : id ∈ rejectedIds c.engine ∨ P id := by
  obtain ⟨found, operation, hm, hp⟩ := h
  have hsame : found = id := by
    obtain ⟨before, command, after, hlog, ⟨operation', rfl⟩, -⟩ := hbefore
    have hin : .manageIdentity id operation' reply ∈ c.log := hlog ▸ List.mem_append_right _ List.mem_cons_self
    exact (ControllerCommand.manageIdentity.inj (eq_of_key (ordered_of_reachable hc).replies hm hin rfl rfl)).1
  exact hsame ▸ hp (hsame ▸ hbefore)

end Promises

/-- What the composed machine keeps about the identities it was asked to remove. -/
structure Watched (w : World) : Prop where
  attended : Attended w.registry
  vouched : Vouched w.controller
  shipped : ∃ delivered, w.controller.engine.handed = delivered ++ w.outbox ∧
    delivered.map Handoff.id = (receipts w.registry).map Receipt.id
  calls : ∀ call ∈ w.calls, Promised w.controller call.1 (Trails w.registry call.2)
  replied : ∀ reply claimed, (reply, .ok claimed) ∈ w.controller.engine.replied →
    Promised w.controller reply (Withdrawn w.registry)

theorem Watched.init (cfg : ControllerConfig) : Watched (World.new cfg) where
  attended := Attended.new
  vouched := fun _ hop => by cases hop
  shipped := ⟨[], rfl, rfl⟩
  calls := fun _ hm => by cases hm
  replied := fun _ _ hm => by cases hm

theorem Watched.controller (h : Watched w) (hc : (Driver.machine cfg).Reachable w.controller)
    (hr : (Listener.machine limits).Reachable w.registry) {b : Driver.Action} (hidle : w.outbox = [])
    (hheard : w.heard b = true) (hstep : w.controller.step cfg b = some c) :
    Watched { w with controller := c, outbox := c.engine.handed.drop w.controller.engine.handed.length } := by
  have hmarked : Marked b := by
    cases b with
    | command obs cut =>
        intro hopen
        rw [World.heard, hopen, Bool.or_false, Bool.not_eq_true'] at hheard
        exact hheard
    | _ => trivial
  obtain ⟨delivered, hhanded, hids⟩ := h.shipped
  rw [hidle, List.append_nil] at hhanded
  refine ⟨h.attended, h.vouched.step hc hmarked hstep, ⟨delivered, ?_, hids⟩, fun call hm => (h.calls call hm).step hc hstep,
    fun reply claimed hm => ?_⟩
  · obtain ⟨more, hmore⟩ := handed_prefix hc hstep
    change c.engine.handed = delivered ++ c.engine.handed.drop w.controller.engine.handed.length
    rw [← hmore, hhanded, List.drop_left]
  · rcases replied_step hc hstep hm with hold | ⟨id, operation, hin, hrejected⟩ | ⟨op, -, rfl, rfl⟩
    · exact (h.replied reply claimed hold).step hc hstep
    · have hlog := log_prefix hstep
      exact ⟨id, operation, hlog.subset hin, fun _ => .inl hrejected⟩
    · obtain ⟨call, hcall, hp⟩ := List.any_eq_true.mp hheard
      obtain ⟨hreply, hconcluded⟩ := of_decide_eq_true hp
      have hpromised := (h.calls call hcall).mono fun id ht =>
        withdrawn_of_concluded (steady_of_reachable hr) h.attended ht hconcluded
      exact (hreply ▸ hpromised).step hc hstep

/-- The registry moves and sends what the outbox has lost. -/
theorem Watched.registry (h : Watched w) (hr : (Listener.machine limits).Reachable w.registry)
    (hstep : w.registry.step limits b = some r) (hstray : ∀ id, b ≠ .stray id) {outbox : List Handoff}
    (hshipped : ∃ delivered, w.controller.engine.handed = delivered ++ outbox ∧
      delivered.map Handoff.id = (receipts r).map Receipt.id)
    (calls : List (IdentityReply × Reply)) (hcalls : ∀ call ∈ calls, Promised w.controller call.1 (Trails r call.2)) :
    Watched { w with registry := r, outbox, calls } where
  attended := h.attended.step hr hstep hstray
  vouched := h.vouched
  shipped := hshipped
  calls := hcalls
  replied := fun reply claimed hm => (h.replied reply claimed hm).mono fun _ hw =>
    hw.step (steady_of_reachable hr) (Steps.step_cases hstep)

theorem Watched.step (h : Watched w) (hw : (machine cfg limits).Reachable w) (hs : Stepped cfg limits w a w') :
    Watched w' := by
  have hc := controller_of_reachable hw
  have hr := registry_of_reachable hw
  have htrails {b : Listener.World.Action} {r : Listener.World} (hstep : w.registry.step limits b = some r) :
      ∀ call ∈ w.calls, Promised w.controller call.1 (Trails r call.2) :=
    fun call hm => (h.calls call hm).mono fun _ ht => ht.step (Steps.step_cases hstep)
  obtain ⟨delivered, hhanded, hids⟩ := h.shipped
  cases hs with
  | controller b c hidle hheard hstep => exact h.controller hc hr hidle hheard hstep
  | commit key handoff outbox caller r houtbox hcaller hcommits hstep =>
      obtain ⟨new, hid, he⟩ := receipts_commit hcaller hcommits (Steps.step_cases hstep)
      refine h.registry hr hstep (fun _ hx => by cases hx) ⟨delivered ++ [handoff], ?_, ?_⟩ w.calls (htrails hstep)
      · rw [hhanded, houtbox, List.append_assoc]
        rfl
      · rw [he, List.map_append, List.map_append, hids, List.map_singleton, List.map_singleton, hid]
  | manage op r hidle hop hnew hstep =>
      have hreceipts := receipts_begin (Steps.step_cases hstep)
      refine h.registry hr hstep (fun _ hx => by cases hx) ⟨delivered, hhanded, hreceipts ▸ hids⟩ _ fun call hm => ?_
      rcases List.mem_append.mp hm with hm | hm
      · exact htrails hstep call hm
      · obtain rfl := List.mem_singleton.mp hm
        obtain ⟨hin, hpassed⟩ := h.vouched op hop
        refine ⟨op.1, op.2.1, hin, fun hbefore => (hpassed hbefore).symm.imp_right fun hid => ?_⟩
        rw [hhanded, hidle, List.append_nil, hids] at hid
        obtain ⟨receipt, hreceipt, hid⟩ := List.mem_map.mp hid
        obtain ⟨item, hitem, hsame, -⟩ := mem_receipts.mp hreceipt
        have hsent : op.1 ∈ ids w.registry.sent := mem_ids.mpr ⟨_, hitem, item, List.mem_cons_self, hsame.trans hid⟩
        exact Trails.begin (steady_of_reachable hr) hsent (aim_management op.1 op.2.1) (Steps.step_cases hstep)
  | registry b r hunaided hstep =>
      have hreceipts := receipts_unaided hunaided (Steps.step_cases hstep)
      refine h.registry hr hstep (fun id hx => ?_) ⟨delivered, hhanded, hreceipts ▸ hids⟩ w.calls (htrails hstep)
      rw [hx] at hunaided
      cases hunaided

theorem watched_of_reachable (h : (machine cfg limits).Reachable w) : Watched w :=
  h.invariant (Watched.init cfg) fun _ _ _ hw hi hstep => hi.step hw (step_cases hstep)

section Cancelled

/-- The identity does not wait for its admission and is not admitted, and this
is how it ended. -/
structure Cancelled (w : World) (id : TaskId) : Prop where
  submitted : id ∉ (submissions w.controller.commands).map Submission.id
  queued : ∀ name slot, w.controller.engine.state.slots.lookup name = some slot → id ∉ Abstract.ids slot
  capacity : w.controller.engine.state.capacityPending.lookup id = none
  outbox : id ∉ w.outbox.map Handoff.id
  commands : id ∉ ids w.registry.commands
  admission : id ∉ awaited w.registry.job
  unregistered : ¬ isRegistered w.registry.core id
  fate : id ∈ rejectedIds w.controller.engine ∨ Refused w.registry id ∨
    (id ∈ w.registry.core.cancelled ∨ Ended w.registry.core id) ∧ (w.registry.core.tasks.lookup id = none ∨
      ∃ name completion, w.registry.core.tasks.lookup id = some ⟨name, .removing completion⟩)

/-- What was handed over or rejected waits nowhere in the controller. -/
theorem nowhere (hc : (Driver.machine cfg).Reachable c)
    (h : id ∈ c.engine.handed.map Handoff.id ∨ id ∈ rejectedIds c.engine) :
    id ∉ (submissions c.commands).map Submission.id ∧
      (∀ name slot, c.engine.state.slots.lookup name = some slot → id ∉ Abstract.ids slot) ∧
      c.engine.state.capacityPending.lookup id = none := by
  have hreported := Parity.reported_of_reachable hc
  obtain ⟨hqueued, hcapacity⟩ := hreported.resting.settled id h
  refine ⟨fun hm => ?_, fun name slot hslot hm => ?_, hcapacity⟩
  · obtain ⟨sub, hsub, rfl⟩ := List.mem_map.mp hm
    exact hreported.unseen sub hsub (.inr (.inr h))
  · cases ((hreported.resting.index id name).mpr ⟨slot, hslot, hm⟩).symm.trans hqueued

/-- An identity of the controller in the registry queue was committed by it. -/
theorem receipt_of_sent (hw : (machine cfg limits).Reachable w)
    (hlog : id ∈ (submissions w.controller.log).map Submission.id) (hsent : id ∈ ids w.registry.sent) :
    id ∈ (receipts w.registry).map Receipt.id := by
  obtain ⟨command, hc, item, hitem, rfl⟩ := mem_ids.mp hsent
  cases hcompletion : item.completion with
  | none => exact absurd hlog (elsewhere_unlogged hw (.inl ⟨command, hc, item, hitem, rfl, hcompletion⟩))
  | some completion => exact List.mem_map_of_mem (receipt_of_item (registry_of_reachable hw) hc hitem hcompletion)

theorem awaited_taken {r : Listener.World} (hst : Steady r) (h : id ∈ awaited r.job) : id ∈ ids r.taken := by
  rcases List.mem_append.mp h with hm | hm
  · obtain ⟨item, hitem, rfl⟩ := List.mem_map.mp hm
    obtain ⟨-, command, hc, hin⟩ := hst.incoming.requests item hitem
    exact mem_ids.mpr ⟨command, hc, item, hin, rfl⟩
  · obtain ⟨item, hitem, rfl⟩ := List.mem_map.mp hm
    exact (hst.incoming.prepares item hitem).2

/-- A rejected identity never comes to the registry. -/
theorem cancelled_of_rejected (hw : (machine cfg limits).Reachable w) (h : id ∈ rejectedIds w.controller.engine) :
    Cancelled w id := by
  have hc := controller_of_reachable hw
  have hst := steady_of_reachable (registry_of_reachable hw)
  have hslotted := slotted_of_reachable hw
  have hreported := Parity.reported_of_reachable hc
  have hunhanded : id ∉ w.controller.engine.handed.map Handoff.id := fun hm => hreported.resting.apart id hm h
  have hunsent : id ∉ ids w.registry.sent := by
    intro hsent
    have hlog := hreported.seen id (.inr (.inr (.inr h)))
    obtain ⟨receipt, hreceipt, rfl⟩ := List.mem_map.mp (receipt_of_sent hw hlog hsent)
    exact hunhanded (hslotted.committed receipt hreceipt)
  rw [hst.fenced.order, ids_append, List.mem_append, not_or] at hunsent
  obtain ⟨huntaken, hcommands⟩ := hunsent
  obtain ⟨hsubmitted, hqueued, hcapacity⟩ := nowhere hc (.inr h)
  refine ⟨hsubmitted, hqueued, hcapacity, fun hm => ?_, hcommands, fun hm => huntaken (awaited_taken hst hm),
    fun hr => huntaken (registered_taken hst hr), .inl h⟩
  obtain ⟨handoff, hin, rfl⟩ := List.mem_map.mp hm
  exact hunhanded (List.mem_map_of_mem (hslotted.outbox handoff hin))

/-- A withdrawn identity was committed, and is not committed again. -/
theorem cancelled_of_withdrawn (hw : (machine cfg limits).Reachable w)
    (hlog : id ∈ (submissions w.controller.log).map Submission.id) (h : Withdrawn w.registry id) : Cancelled w id := by
  have hc := controller_of_reachable hw
  have hst := steady_of_reachable (registry_of_reachable hw)
  have hwatched := watched_of_reachable hw
  obtain ⟨delivered, hhanded, hids⟩ := hwatched.shipped
  have hsent : id ∈ ids w.registry.sent := by
    rw [hst.fenced.order, ids_append]
    exact List.mem_append_left _ h.gone.taken
  have hdelivered : id ∈ delivered.map Handoff.id := hids ▸ receipt_of_sent hw hlog hsent
  have honce := handed_once hc
  rw [hhanded, List.map_append, List.nodup_append] at honce
  have hin : id ∈ w.controller.engine.handed.map Handoff.id := by
    rw [hhanded, List.map_append]
    exact List.mem_append_left _ hdelivered
  obtain ⟨hsubmitted, hqueued, hcapacity⟩ := nowhere hc (.inl hin)
  exact ⟨hsubmitted, hqueued, hcapacity, fun hm => honce.2.2 id hdelivered id hm rfl, not_waiting hst h.gone.taken,
    h.gone.idle, h.gone.unregistered, .inr (h.fate hst hwatched.attended.decided)⟩

theorem cancelled_of_replied (hw : (machine cfg limits).Reachable w) (hbefore : Precedes w.controller.log id reply)
    {claimed : Bool} (hreplied : (reply, .ok claimed) ∈ w.controller.engine.replied) : Cancelled w id := by
  have hpromised := (watched_of_reachable hw).replied reply claimed hreplied
  rcases hpromised.fulfil (controller_of_reachable hw) hbefore with hid | hwithdrawn
  · exact cancelled_of_rejected hw hid
  · exact cancelled_of_withdrawn hw hbefore.logged hwithdrawn

/-- An identity operation that succeeds leaves no trace of an identity submitted
before it, and none is admitted later. -/
theorem no_lost_cancellation (hw : (machine cfg limits).Reachable w) (hbefore : Precedes w.controller.log id reply)
    {claimed : Bool} (hreplied : (reply, .ok claimed) ∈ w.controller.engine.replied) :
    ∀ run w', (machine cfg limits).after w run = some w' →
      Cancelled w' id ∧ w'.registry.core.born.lookup id = w.registry.core.born.lookup id := by
  intro run w' hrun
  let kept (v : World) : Prop := Precedes v.controller.log id reply ∧ (reply, .ok claimed) ∈ v.controller.engine.replied ∧
    v.registry.core.born.lookup id = w.registry.core.born.lookup id
  have hkept : kept w' := by
    refine hw.keeps (P := kept) ⟨hbefore, hreplied, rfl⟩ (fun v a v' hv hP hstep => ?_) hrun
    obtain ⟨hp, hr, hborn⟩ := hP
    have hidle := (cancelled_of_replied hv hp hr).admission
    cases step_cases hstep with
    | controller b c hidle' hheard hc =>
        have hlog := log_prefix hc
        exact ⟨Splits.mono hp hlog, (Notices.replied_kept hc).subset hr, hborn⟩
    | commit key handoff outbox caller r _ _ _ hs => exact ⟨hp, hr, (born_kept (Steps.step_cases hs) hidle).trans hborn⟩
    | manage op r _ _ _ hs => exact ⟨hp, hr, (born_kept (Steps.step_cases hs) hidle).trans hborn⟩
    | registry b r _ hs => exact ⟨hp, hr, (born_kept (Steps.step_cases hs) hidle).trans hborn⟩
  exact ⟨cancelled_of_replied (hw.after hrun) hkept.1 hkept.2.1, hkept.2.2⟩

/-- A submission runs before its removal is asked for, and its actor is told to
stop. -/
def removeRun : List Action :=
  [.controller (.send (.submit ⟨1, "a", .queue, none, some 10⟩)), .controller (.send (.manageIdentity 1 .remove 7)),
    .controller (.command busyRegistry none)] ++ commitRun 0 ⟨1, "a", some 10, none⟩ ++
    [.registry (.listen .command), .registry (.listen .command)] ++ List.replicate 8 (.registry .work) ++
    [.controller (.command busyRegistry none), .manage (1, .remove, 7)] ++
    (sendRun 1 (.remove (.id 1) true)).tail.map .registry ++ List.replicate 4 (.registry .work) ++
    [.controller (.identityResult (1, .remove, 7) (.ok true))]

/-- The owner of the removal takes its member out by force. -/
def leaveRun : List Action := .registry (.owner 0 .abort) :: List.replicate 8 (.registry (.owner 0 .advance))

theorem no_lost_cancellation_removed :
    ∃ w w', (machine tinyConfig smallConfig).after (.new tinyConfig) removeRun = some w ∧
      (machine tinyConfig smallConfig).after w leaveRun = some w' ∧
      w.registry.core.tasks.lookup 1 = some ⟨"a", .removing 0⟩ ∧ w'.registry.core.tasks.lookup 1 = none ∧
      Cancelled w 1 ∧ Cancelled w' 1 ∧ w'.registry.core.born.lookup 1 = w.registry.core.born.lookup 1 := by
  obtain ⟨w, hw, hp⟩ := (Option.any_eq_true (fun w : World => decide (
      w.controller.log = [.submit ⟨1, "a", .queue, none, some 10⟩, .manageIdentity 1 .remove 7] ∧
      w.controller.engine.replied.map (fun entry => (entry.1, entry.2.toOption)) = [(7, some true)] ∧
      w.registry.core.tasks.lookup 1 = some ⟨"a", .removing 0⟩ ∧
      ((machine tinyConfig smallConfig).after w leaveRun).any fun w' => (w'.registry.core.tasks.lookup 1).isNone)) _).mp
    (show ((machine tinyConfig smallConfig).after (.new tinyConfig) removeRun).any _ = true by decide +kernel)
  obtain ⟨hlog, hreplied, hremoving, hleaves⟩ := of_decide_eq_true hp
  obtain ⟨w', hw', hleft⟩ := (Option.any_eq_true _ _).mp hleaves
  have hreach : (machine tinyConfig smallConfig).Reachable w := .after .init hw
  have hbefore : Precedes w.controller.log 1 7 := by
    rw [hlog]
    exact ⟨[_], _, [], rfl, ⟨.remove, rfl⟩, List.mem_cons_self⟩
  have hok : (7, .ok true) ∈ w.controller.engine.replied := by
    have hin : (7, some true) ∈ w.controller.engine.replied.map fun entry => (entry.1, entry.2.toOption) := by
      rw [hreplied]
      exact List.mem_cons_self
    obtain ⟨⟨reply, result⟩, hm, he⟩ := List.mem_map.mp hin
    cases result with
    | ok claimed => cases he; exact hm
    | error error => cases he
  obtain ⟨hcancelled, -⟩ := no_lost_cancellation hreach hbefore hok [] w rfl
  obtain ⟨hcancelled', hborn⟩ := no_lost_cancellation hreach hbefore hok leaveRun w' hw'
  exact ⟨w, w', hw, hw', hremoving, by simpa using hleft, hcancelled, hcancelled', hborn⟩

end Cancelled

end Taskvisor.System.Cancellation
