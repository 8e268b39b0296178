import Taskvisor.Registry.Commitment
import Taskvisor.Registry.Drain
import Taskvisor.System.Composed

namespace Taskvisor.System.Receipts

open Lib Runtime.Base Registry Registry.Reaper Registry.State Registry.Lifecycle Registry.Listener Registry.Steps
  Registry.Fence Registry.Identity Registry.Reach Registry.Growth Composed

variable {limits : RegistryConfig} {r r' : Listener.World} {a : Listener.World.Action} {id : TaskId} {x y : Receipt}
  {reply : Reply}

theorem mem_receipts : x ∈ receipts r ↔
    ∃ item, .add item x.reply ∈ r.sent ∧ item.id = x.id ∧ item.completion = some x.completion := by
  rw [receipts, List.mem_filterMap]
  constructor
  · rintro ⟨command, hc, hx⟩
    cases command with
    | add item reply =>
        obtain ⟨completion, hcompletion, rfl⟩ := Option.map_eq_some_iff.mp hx
        exact ⟨item, hc, rfl, hcompletion⟩
    | _ => cases hx
  · rintro ⟨item, hc, hid, hcompletion⟩
    refine ⟨_, hc, ?_⟩
    rw [receipt?, hcompletion, Option.map_some, hid]

/-- The controller commits an identity once. -/
theorem receipt_unique (hi : Identified r) (hx : x ∈ receipts r) (hy : y ∈ receipts r) (hid : x.id = y.id) : x = y := by
  obtain ⟨i, hci, hidi, hcompletion⟩ := mem_receipts.mp hx
  obtain ⟨j, hcj, hidj, hcompletion'⟩ := mem_receipts.mp hy
  have hfirst : i.id ∈ (RegistryCommand.add i x.reply).items.map AddItem.id := List.mem_map_of_mem List.mem_cons_self
  have hsecond : i.id ∈ (RegistryCommand.add j y.reply).items.map AddItem.id := by
    rw [hidi, hid, ← hidj]
    exact List.mem_map_of_mem List.mem_cons_self
  have hcommand := command_of_id hi.nodup hci hcj hfirst hsecond
  obtain ⟨rfl, hreply⟩ := RegistryCommand.add.inj hcommand
  obtain ⟨xid, xreply, xlatch⟩ := x
  obtain ⟨yid, yreply, ylatch⟩ := y
  cases hid
  cases hreply
  cases hcompletion.symm.trans hcompletion'
  rfl

theorem receipts_grown (h : Grown r r') (hx : x ∈ receipts r) : x ∈ receipts r' := by
  obtain ⟨item, hc, hitem⟩ := mem_receipts.mp hx
  exact mem_receipts.mpr ⟨item, h.sent.subset hc, hitem⟩

/-- The controller's queue of receipts grows with the send of a tracked call. -/
theorem receipts_step (hs : Steps.Stepped limits r a r') : receipts r' = receipts r ∨
    ∃ key caller todo item, a = .call key ∧ r.callers.lookup key = some caller ∧ caller.call.tracked = true ∧
      caller.todo = .send :: todo ∧ caller.call.items = [item] ∧
      receipts r' = receipts r ++ [⟨item.id, key, r.nextLatch⟩] := by
  rcases sent_step hs with he | ⟨key, caller, todo, rfl, hk, htodo, he⟩
  · exact .inl (by rw [receipts, receipts, he])
  · cases hcall : caller.call with
    | controllerAdd item | reservedControllerAdd item =>
        refine .inr ⟨key, caller, todo, item, rfl, hk, by rw [hcall]; rfl, htodo, by rw [hcall]; rfl, ?_⟩
        rw [receipts, receipts, he, hcall, List.filterMap_append]
        rfl
    | _ =>
        refine .inl ?_
        rw [receipts, receipts, he, hcall, List.filterMap_append]
        exact List.append_nil _

theorem receipts_begin {call : Call} (hs : Steps.Stepped limits r (.begin call) r') : receipts r' = receipts r := by
  rcases receipts_step hs with he | ⟨key, caller, todo, item, hx, -⟩
  · exact he
  · cases hx

/-- On its own the registry sends no Add of the controller. -/
theorem receipts_unaided {w : Composed.World} (h : w.unaided a = true) (hs : Steps.Stepped limits w.registry a r') :
    receipts r' = receipts w.registry := by
  rcases receipts_step hs with he | ⟨key, caller, todo, item, rfl, hc, htracked, htodo, -⟩
  · exact he
  · rw [Composed.World.unaided, hc, Option.all_some, htracked, htodo] at h
    cases h

/-- A commit sends the Add that heads the outbox. -/
theorem receipts_commit {key : Nat} {caller : Caller} {handoff : Controller.State.Handoff}
    (hk : r.callers.lookup key = some caller) (hcommits : Composed.World.commits handoff caller = true)
    (hs : Steps.Stepped limits r (.call key) r') :
    ∃ receipt, receipt.id = handoff.id ∧ receipts r' = receipts r ++ [receipt] := by
  obtain ⟨htracked, hp⟩ := Bool.and_eq_true_iff.mp hcommits
  obtain ⟨hhead, hsame⟩ := of_decide_eq_true hp
  obtain ⟨todo, htodo⟩ := List.head?_eq_some_iff.mp hhead
  refine ⟨⟨handoff.id, key, r.nextLatch⟩, rfl, ?_⟩
  rw [receipts, receipts, sends hk htodo hs, List.filterMap_append]
  cases hcall : caller.call with
  | controllerAdd item | reservedControllerAdd item =>
      rw [hcall] at hsame
      have hid : item.id = handoff.id := congrArg Prod.fst (List.head_eq_of_cons_eq hsame)
      rw [← hid]
      rfl
  | _ =>
      rw [hcall] at htracked
      cases htracked

section Replies

theorem replyOf_grown (h : Grown r r') {answer : Answer} (hr : replyOf r reply = some answer) :
    replyOf r' reply = some answer := by
  obtain ⟨more, he⟩ := h.replies
  obtain ⟨d, hd, rfl⟩ := Option.map_eq_some_iff.mp hr
  rw [replyOf, ← he, List.find?_append, hd]
  rfl

/-- A receiver sees the only reply to its command. -/
theorem replyOf_of_mem (hst : Steady r) {d : Decision} (hd : d ∈ r.replies) : replyOf r d.reply = some d.answer := by
  have hnodup : (r.replies.map Decision.reply).Nodup := by
    have honce := hst.numbered.once
    rw [hst.fenced.order, List.map_append] at honce
    have howed := hst.fenced.answered
    rw [owed] at howed
    exact (List.nodup_append.mp (howed ▸ (List.nodup_append.mp honce).1)).1
  obtain ⟨found, hfound⟩ := Option.isSome_iff_exists.mp
    (show (r.replies.find? fun e => decide (e.reply = d.reply)).isSome by
      rw [List.find?_isSome]
      exact ⟨d, hd, decide_eq_true rfl⟩)
  have hreply : found.reply = d.reply := by simpa using List.find?_some hfound
  rw [replyOf, hfound, List.inj_on_of_nodup_map hnodup (List.mem_of_find?_eq_some hfound) hd hreply]
  rfl

/-- A refusal is a reply: a service that has exited has answered everything. -/
theorem refused (h : (Listener.machine limits).Reachable r) (hx : x ∈ receipts r)
    (hadmitted : admitted r x.reply = some false) :
    ∃ error, replyOf r x.reply = some (.add (.error error)) := by
  unfold admitted at hadmitted
  split at hadmitted
  · cases hadmitted
  · next error he => exact ⟨error, he⟩
  · cases hadmitted
  · next hnone =>
    split at hadmitted
    · next hmode =>
      have hst := steady_of_reachable h
      obtain ⟨-, -, hall⟩ := Drain.answered_of_drained hst (.inr (by rw [hmode]; rfl))
      obtain ⟨item, hc, -⟩ := mem_receipts.mp hx
      have hin : x.reply ∈ r.replies.map Decision.reply := by
        rw [hall]
        exact List.mem_map_of_mem hc
      obtain ⟨d, hd, hreply⟩ := List.mem_map.mp hin
      have hsome := replyOf_of_mem hst hd
      rw [hreply, hnone] at hsome
      cases hsome
    · cases hadmitted

end Replies

section Latches

theorem released_grown (h : Grown r r') {completion : RemovalCompletion} (hr : released r completion = true) :
    released r' completion = true := by
  obtain ⟨hlogical, hphysical⟩ := of_decide_eq_true hr
  exact decide_eq_true ⟨h.latches.logical hlogical, h.latches.physical hphysical⟩

theorem assigned_receipt (hx : x ∈ receipts r) : Assigned r x.id x.completion := by
  obtain ⟨item, hc, hitem⟩ := mem_receipts.mp hx
  exact .inl ⟨_, hc, item, List.mem_cons_self, hitem⟩

/-- The physical latch is completed once the actor is gone. -/
theorem exited_of_physical (hst : Steady r) (hx : x ∈ receipts r) (hl : x.completion ∈ r.core.physical) :
    Exited (view r.core x.id) := by
  have hsound := hst.settled.sound
  obtain ⟨id, s, hb, hs⟩ := hsound.physical _ hl
  have hid : id = x.id := hst.latched.injective id x.id _ (.inr (.inr ⟨s, hb, hs⟩)) (assigned_receipt hx)
  obtain ⟨-, phase, -, hbody⟩ := hsound.life id s hb
  rw [hsound.seed id s hb, hid, hs] at hbody
  cases hbody with
  | settling hexited => exact hexited
  | released hexited => exact hexited
  | idle _ _ hlatch | reserved _ _ hlatch | joined _ _ _ hlatch | reaping _ _ _ hlatch | reaped _ _ _ _ hlatch
  | waiting _ _ _ hlatch => exact absurd hl hlatch

end Latches

/-- The identity was handed to the registry and is over: its Add was refused, or
its removal is logically and physically complete. -/
def Over (r : Listener.World) (id : TaskId) : Prop :=
  ∃ x ∈ receipts r, x.id = id ∧ (admitted r x.reply = some false ∨ released r x.completion = true)

/-- Its Add was committed to the registry queue and was not refused, and its
removal is not both logically and physically complete. -/
def Outstanding (r : Listener.World) (id : TaskId) : Prop :=
  ∃ x ∈ receipts r, x.id = id ∧ admitted r x.reply ≠ some false ∧ released r x.completion = false

theorem Outstanding.not_over (hi : Identified r) (h : Outstanding r id) : ¬ Over r id := by
  rintro ⟨y, hy, hidy, hover⟩
  obtain ⟨x, hx, hidx, hadmitted, hreleased⟩ := h
  obtain rfl := receipt_unique hi hx hy (hidx.trans hidy.symm)
  rcases hover with hrefused | hdone
  · exact hadmitted hrefused
  · rw [hreleased] at hdone
    cases hdone

theorem over_grown (h : (Listener.machine limits).Reachable r) (hg : Grown r r') (ho : Over r id) : Over r' id := by
  obtain ⟨x, hx, hid, hover⟩ := ho
  refine ⟨x, receipts_grown hg hx, hid, ?_⟩
  rcases hover with hrefused | hdone
  · obtain ⟨error, he⟩ := refused h hx hrefused
    refine .inl ?_
    rw [admitted, replyOf_grown hg he]
  · exact .inr (released_grown hg hdone)

/-- A task with a latch of its own comes in an Add of the controller. -/
theorem receipt_of_item (h : (Listener.machine limits).Reachable r) {command : RegistryCommand} (hc : command ∈ r.sent)
    {item : AddItem} (hitem : item ∈ command.items) {completion : RemovalCompletion}
    (hcompletion : item.completion = some completion) : ⟨item.id, command.reply, completion⟩ ∈ receipts r := by
  cases command with
  | add i reply =>
      obtain rfl := List.mem_singleton.mp hitem
      exact mem_receipts.mpr ⟨item, hc, rfl, hcompletion⟩
  | addBatch items reply =>
      obtain ⟨l, rfl⟩ := (Commitment.entered_of_reachable h).sent _ hc items reply rfl
      obtain ⟨batchItem, -, rfl⟩ := List.mem_map.mp hitem
      cases hcompletion
  | remove target reply => cases hitem
  | cancel target reply => cases hitem

/-- The task of a live actor is still outstanding. -/
theorem outstanding_of_live (h : (Listener.machine limits).Reachable r) {actor : Actor}
    (ha : r.core.actors.lookup id = some actor) (hlive : actor.phase ≠ .exited)
    (htracked : ∀ command ∈ r.sent, ∀ item ∈ command.items, item.id = id → item.completion.isSome) :
    Outstanding r id := by
  have hst := steady_of_reachable h
  obtain ⟨command, htaken, hid, hok⟩ := (Commitment.sourced_of_reachable h).actors id (by rw [ha]; rfl)
  have hsent : command ∈ r.sent := hst.fenced.order ▸ List.mem_append_left _ htaken
  obtain ⟨item, hitem, rfl⟩ := List.mem_map.mp hid
  obtain ⟨completion, hcompletion⟩ := Option.isSome_iff_exists.mp (htracked command hsent item hitem rfl)
  have hx := receipt_of_item h hsent hitem hcompletion
  refine ⟨_, hx, rfl, ?_, ?_⟩
  · have hreply : replyOf r command.reply = some (.add (.ok ())) := replyOf_of_mem hst hok
    rw [admitted, hreply]
    exact fun hx => by cases hx
  · by_contra hdone
    have hdone : released r completion = true := by simpa using hdone
    obtain ⟨gone, hgone, hphase⟩ := exited_of_physical hst hx (of_decide_eq_true hdone).2
    have hgone : r.core.actors.lookup item.id = some gone := hgone
    rw [ha] at hgone
    obtain rfl := Option.some.inj hgone
    exact hlive hphase

end Taskvisor.System.Receipts
