import Taskvisor.Controller.Tenure
import Taskvisor.System.Receipts

namespace Taskvisor.System.Slots

open Lib Runtime.Base Controller Controller.State Controller.Abstract Controller.Refinement Controller.Index
  Controller.Tracking Controller.Tenure Registry Registry.Growth Registry.Reach Composed Receipts
open Registry.Listener (RegistryConfig Reply)

variable {cfg : ControllerConfig} {limits : RegistryConfig} {w w' : World} {a : Action} {r : Listener.World}
  {place : TaskId → String} {name : String} {x y : TaskId}

/-- What the composed machine keeps about the identities of one slot. -/
structure Slotted (w : World) : Prop where
  tenured : w.controller.phase = .looping → Tenured (Over w.registry) (board w.controller.engine)
  exclusive : ∀ place, Placing place w.controller → Exclusive (Over w.registry) place w.controller.engine.handed
  outbox : ∀ handoff ∈ w.outbox, handoff ∈ w.controller.engine.handed
  committed : ∀ receipt ∈ receipts w.registry, receipt.id ∈ w.controller.engine.handed.map Handoff.id

theorem Slotted.init (cfg : ControllerConfig) : Slotted (World.new cfg) where
  tenured := fun _ _ hid => by cases hid
  exclusive := fun _ _ _ hx => by cases hx
  outbox := fun _ hm => by cases hm
  committed := fun _ hm => by cases hm

/-- The registry moves under the controller. -/
theorem Slotted.registry (h : Slotted w) (hr : (Listener.machine limits).Reachable w.registry) (hg : Grown w.registry r)
    {outbox : List Handoff} (calls : List (IdentityReply × Reply)) (houtbox : outbox ⊆ w.outbox)
    (hcommitted : ∀ receipt ∈ receipts r, receipt ∈ receipts w.registry ∨ receipt.id ∈ w.outbox.map Handoff.id) :
    Slotted { w with registry := r, outbox, calls } where
  tenured := fun hphase => (h.tenured hphase).mono fun _ => over_grown hr hg
  exclusive := fun place hplace => (h.exclusive place hplace).mono fun _ => over_grown hr hg
  outbox := fun handoff hm => h.outbox handoff (houtbox hm)
  committed := by
    intro receipt hm
    rcases hcommitted receipt hm with hm | hm
    · exact h.committed receipt hm
    · obtain ⟨handoff, hm, hid⟩ := List.mem_map.mp hm
      exact hid ▸ List.mem_map_of_mem (h.outbox handoff hm)

/-- The registry moves without the controller's calls. -/
theorem Slotted.apart (h : Slotted w) (hr : (Listener.machine limits).Reachable w.registry)
    {b : Listener.World.Action} (hstep : w.registry.step limits b = some r) (calls : List (IdentityReply × Reply))
    (hreceipts : receipts r = receipts w.registry) : Slotted { w with registry := r, calls } :=
  h.registry hr (step_grown (Steps.step_cases hstep)) calls (fun _ hm => hm) fun _ hm => .inl (hreceipts ▸ hm)

theorem over_of_heard {b : Driver.Action} (h : w.heard b = true) (hx : released b = some x) : Over w.registry x := by
  cases b with
  | admissionResult obs id slotName accepted =>
      cases accepted with
      | true => cases hx
      | false =>
          obtain ⟨receipt, hm, hp⟩ := List.any_eq_true.mp h
          obtain ⟨hid, hrefused⟩ := of_decide_eq_true hp
          exact ⟨receipt, hm, hid.trans (Option.some.inj hx), .inl hrefused⟩
  | completionResult obs id slotName =>
      obtain ⟨receipt, hm, hp⟩ := List.any_eq_true.mp h
      obtain ⟨hid, hreleased⟩ := Bool.and_eq_true_iff.mp hp
      exact ⟨receipt, hm, (of_decide_eq_true hid).trans (Option.some.inj hx), .inr hreleased⟩
  | _ => cases hx

theorem Slotted.controller (h : Slotted w) (hc : (Driver.machine cfg).Reachable w.controller) {b : Driver.Action}
    {c : Driver.World} (hheard : w.heard b = true) (hstep : w.controller.step cfg b = some c) :
    Slotted { w with controller := c, outbox := c.engine.handed.drop w.controller.engine.handed.length } := by
  have hnext : (Driver.machine cfg).Reachable c := .next b hc hstep
  have htenured (hphase : c.phase = .looping) : Tenured (Over w.registry) (board c.engine) := by
    have hbefore := looping_before hstep hphase
    exact tenured_step hc hbefore (h.tenured hbefore) (fun _ => over_of_heard hheard) hstep hphase
  have hgrown := handed_prefix hc hstep
  refine ⟨htenured, fun place hplace => ?_, fun handoff hm => List.mem_of_mem_drop hm, fun receipt hm => ?_⟩
  · by_cases hphase : c.phase = .looping
    · exact (htenured hphase).exclusive ((bound_of_reachable hnext hphase).tracked place hplace)
    · have hbefore : Placing place w.controller := by
        refine fun sub hsub => hplace sub ?_
        obtain ⟨more, hlog⟩ := log_prefix hstep
        rw [submissions, ← hlog, List.filterMap_append]
        exact List.mem_append_left _ hsub
      have hkept := h.exclusive place hbefore
      rw [← handed_ended hc hstep hphase] at hkept
      exact hkept
  · obtain ⟨handoff, hin, hid⟩ := List.mem_map.mp (h.committed receipt hm)
    exact hid ▸ List.mem_map_of_mem (hgrown.subset hin)

theorem Slotted.step (h : Slotted w) (hw : (machine cfg limits).Reachable w) (hs : Stepped cfg limits w a w') :
    Slotted w' := by
  have hr := registry_of_reachable hw
  cases hs with
  | controller b c hidle hheard hstep => exact h.controller (controller_of_reachable hw) hheard hstep
  | commit key handoff outbox caller r houtbox hcaller hcommits hstep =>
      refine h.registry hr (step_grown (Steps.step_cases hstep)) w.calls (fun x hx => ?_) fun receipt hm => ?_
      · rw [houtbox]
        exact List.mem_cons_of_mem _ hx
      · obtain ⟨new, hid, he⟩ := receipts_commit hcaller hcommits (Steps.step_cases hstep)
        rw [he, List.mem_append] at hm
        refine hm.imp_right fun hm => ?_
        rw [List.mem_singleton.mp hm, hid, houtbox]
        exact List.mem_cons_self
  | manage op r hidle hop hnew hstep => exact h.apart hr hstep _ (receipts_begin (Steps.step_cases hstep))
  | registry b r hunaided hstep => exact h.apart hr hstep _ (receipts_unaided hunaided (Steps.step_cases hstep))

theorem slotted_of_reachable (h : (machine cfg limits).Reachable w) : Slotted w :=
  h.invariant (Slotted.init cfg) fun _ _ _ hw hi hstep => hi.step hw (step_cases hstep)

/-- The identity was committed by another client than the controller, or will be. -/
def Elsewhere (r : Listener.World) (id : TaskId) : Prop :=
  (∃ command ∈ r.sent, ∃ item ∈ command.items, item.id = id ∧ item.completion = none) ∨
    ∃ key caller, r.callers.lookup key = some caller ∧ .send ∈ caller.todo ∧ caller.call.tracked = false ∧
      id ∈ caller.call.items.map Listener.AddItem.id

theorem elsewhere_seen (hi : Identity.Identified r) (h : Elsewhere r x) : x ∈ r.seen := by
  rcases h with ⟨command, hc, item, hitem, rfl, -⟩ | ⟨key, caller, hk, hsend, -, hid⟩
  · exact hi.seen _ (Identity.mem_ids.mpr ⟨command, hc, item, hitem, rfl⟩)
  · exact ((hi.unsent key caller hk hsend).2 x hid).1

theorem elsewhere_step {b : Listener.World.Action} {r' : Listener.World} (hs : Steps.Stepped limits r b r')
    (h : Elsewhere r' x) : Elsewhere r x ∨
      ∃ call, b = .begin call ∧ call.tracked = false ∧ x ∈ call.items.map Listener.AddItem.id := by
  rcases h with ⟨command, hc, item, hitem, hid, hnone⟩ | ⟨key, caller, hk, hsend, htracked, hid⟩
  · refine .inl ?_
    rcases sent_step hs with he | ⟨key, caller, todo, -, hk, htodo, he⟩
    · exact .inl ⟨command, he ▸ hc, item, hitem, hid, hnone⟩
    · rw [he, List.mem_append] at hc
      rcases hc with hc | hc
      · exact .inl ⟨command, hc, item, hitem, hid, hnone⟩
      · obtain rfl := List.mem_singleton.mp hc
        have hin : x ∈ Identity.ids [caller.call.command key r.nextLatch] :=
          Identity.mem_ids.mpr ⟨_, List.mem_cons_self, item, hitem, hid⟩
        rw [Identity.command_ids] at hin
        refine .inr ⟨key, caller, hk, by rw [htodo]; exact List.mem_cons_self, ?_, hin⟩
        cases htracked : caller.call.tracked with
        | false => rfl
        | true =>
            cases hcall : caller.call with
            | controllerAdd i | reservedControllerAdd i =>
                rw [hcall] at hitem
                obtain rfl := List.mem_singleton.mp hitem
                cases hnone
            | _ =>
                rw [hcall] at htracked
                cases htracked
  · rcases callers_step hs hk with ⟨old, ho, hcall, htodo⟩ | ⟨rfl, -⟩
    · rw [hcall] at htracked hid
      exact .inl (.inr ⟨key, old, ho, htodo.subset hsend, htracked, hid⟩)
    · exact .inr ⟨caller.call, rfl, htracked, hid⟩

/-- Other clients bring identities the controller never saw. -/
theorem elsewhere_unlogged (h : (machine cfg limits).Reachable w) (he : Elsewhere w.registry x) :
    x ∉ (submissions w.controller.log).map Submission.id := by
  let apart (w : World) : Prop := ∀ x, Elsewhere w.registry x → x ∉ (submissions w.controller.log).map Submission.id
  have hinit : apart (World.new cfg) := fun _ _ hx => by cases hx
  refine h.invariant (P := apart) hinit (fun w a w' hw ih hs x he hx => ?_) x he
  cases step_cases hs with
  | controller b c hidle hheard hstep =>
      rcases log_step hstep with hlog | ⟨command, rfl, hlog⟩
      · rw [hlog] at hx
        exact ih x he hx
      · change x ∈ (submissions c.log).map Submission.id at hx
        rw [hlog, submissions_snoc, List.map_append, List.mem_append] at hx
        rcases hx with hx | hx
        · exact ih x he hx
        · cases command with
          | manageIdentity id operation reply => cases hx
          | submit sub =>
              obtain rfl := List.mem_singleton.mp hx
              have hseen := elsewhere_seen (steady_of_reachable (registry_of_reachable hw)).identified he
              simp [World.heard, hseen] at hheard
  | commit key handoff outbox caller r houtbox hcaller hcommits hstep =>
      rcases elsewhere_step (Steps.step_cases hstep) he with he | ⟨call, hb, -⟩
      · exact ih x he hx
      · cases hb
  | manage op r hidle hop hnew hstep =>
      rcases elsewhere_step (Steps.step_cases hstep) he with he | ⟨call, hb, -, hid⟩
      · exact ih x he hx
      · cases hb
        cases hop : op.2.1 <;> rw [hop] at hid <;> cases hid
  | registry b r hunaided hstep =>
      rcases elsewhere_step (Steps.step_cases hstep) he with he | ⟨call, rfl, htracked, hid⟩
      · exact ih x he hx
      · obtain ⟨item, hitem, rfl⟩ := List.mem_map.mp hid
        rw [World.unaided, htracked, Bool.false_or, List.all_eq_true] at hunaided
        have hnot := hunaided item hitem
        rw [Bool.not_eq_true', List.contains_eq_mem, decide_eq_false_iff_not] at hnot
        exact hnot hx

/-- The identity was submitted to this slot. -/
def Submitted (w : World) (name : String) (id : TaskId) : Prop :=
  ∃ sub ∈ submissions w.controller.log, sub.id = id ∧ sub.slotName = name

theorem outstanding_unique (h : (machine cfg limits).Reachable w) (hx : Submitted w name x) (hy : Submitted w name y)
    (hox : Outstanding w.registry x) (hoy : Outstanding w.registry y) : x = y := by
  have hslotted := slotted_of_reachable h
  have hi := (steady_of_reachable (registry_of_reachable h)).identified
  obtain ⟨place, hplace⟩ := exists_placing (controller_of_reachable h)
  obtain ⟨sub, hsub, rfl, rfl⟩ := hx
  obtain ⟨sub', hsub', rfl, hname⟩ := hy
  have hhanded {id : TaskId} (ho : Outstanding w.registry id) : id ∈ w.controller.engine.handed.map Handoff.id := by
    obtain ⟨receipt, hm, rfl, -⟩ := ho
    exact hslotted.committed receipt hm
  exact hslotted.exclusive place hplace _ (hhanded hox) _ (hhanded hoy) (hox.not_over hi) (hoy.not_over hi)
    ((hplace sub hsub).trans (hname.symm.trans (hplace sub' hsub').symm))

theorem live_outstanding (h : (machine cfg limits).Reachable w) (hx : Submitted w name x) {actor : State.Actor}
    (ha : w.registry.core.actors.lookup x = some actor) (hlive : actor.phase ≠ .exited) : Outstanding w.registry x := by
  obtain ⟨sub, hsub, rfl, -⟩ := hx
  refine outstanding_of_live (registry_of_reachable h) ha hlive fun command hc item hitem hid => ?_
  by_contra hnone
  rw [Option.not_isSome_iff_eq_none] at hnone
  exact elsewhere_unlogged h (.inl ⟨command, hc, item, hitem, hid, hnone⟩) (List.mem_map_of_mem hsub)

theorem slot_exclusion (h : (machine cfg limits).Reachable w) :
    (∀ name x y, Submitted w name x → Submitted w name y → Outstanding w.registry x → Outstanding w.registry y → x = y) ∧
    (∀ receipt ∈ receipts w.registry, receipt.completion ∈ w.registry.core.physical →
      ∀ actor, w.registry.core.actors.lookup receipt.id = some actor → actor.phase = .exited) ∧
    ∀ name x y actor actor', Submitted w name x → Submitted w name y →
      w.registry.core.actors.lookup x = some actor → actor.phase ≠ .exited →
      w.registry.core.actors.lookup y = some actor' → actor'.phase ≠ .exited → x = y := by
  refine ⟨fun _ _ _ hx hy hox hoy => outstanding_unique h hx hy hox hoy, fun receipt hm hl actor ha => ?_,
    fun _ x y _ _ hx hy ha hlive ha' hlive' => ?_⟩
  · obtain ⟨gone, hgone, hphase⟩ := exited_of_physical (steady_of_reachable (registry_of_reachable h)) hm hl
    have hgone : w.registry.core.actors.lookup receipt.id = some gone := hgone
    rw [ha] at hgone
    exact Option.some.inj hgone ▸ hphase
  · exact outstanding_unique h hx hy (live_outstanding h hx ha hlive) (live_outstanding h hy ha' hlive')

/-- A call of the controller up to its commit, and out of the gate. -/
def commitRun (key : Nat) (item : Listener.AddItem) : List Action :=
  [.registry (.begin (.controllerAdd item)), .registry (.call key), .registry (.call key), .registry (.call key), .commit key,
    .registry (.call key)]

/-- The first submission runs; the second replaces it. -/
def replaceRun : List Action :=
  [.controller (.send (.submit ⟨1, "a", .queue, none, some 10⟩)),
    .controller (.send (.submit ⟨2, "b", .replace, some "a", none⟩)),
    .controller (.command busyRegistry none)] ++ commitRun 0 ⟨1, "a", some 10, none⟩ ++
    [.registry (.listen .command), .registry (.listen .command)] ++ List.replicate 8 (.registry .work) ++
    [.controller (.admissionResult busyRegistry 1 "a" true), .controller (.command busyRegistry none)]

/-- The removal runs into its grace, and the actor outlives its membership. -/
def forceAbort : List Listener.World.Action :=
  sendRun 1 (.remove (.id 1) true) ++ List.replicate 4 .work ++ .owner 0 .abort :: List.replicate 8 (.owner 0 .advance)

def reapRun : List Listener.World.Action := [.actor 1 .exit, .reap 0 false, .reap 0 false, .reap 0 false]

def handoverRun : List Action :=
  replaceRun ++ forceAbort.map .registry ++ reapRun.map .registry ++ .controller (.completionResult busyRegistry 1 "a") ::
    commitRun 2 ⟨2, "b", none, none⟩

theorem slot_exclusion_outlived :
    ∃ w w', (machine tinyConfig smallConfig).after (.new tinyConfig) (replaceRun ++ forceAbort.map .registry) = some w ∧
      (machine tinyConfig smallConfig).after (.new tinyConfig) handoverRun = some w' ∧
      w.registry.core.tasks.lookup 1 = none ∧ (Submitted w "a" 1 ∧ Outstanding w.registry 1) ∧
      (∀ y, Submitted w "a" y → Outstanding w.registry y → y = 1) ∧
      w.step tinyConfig smallConfig (.controller (.completionResult busyRegistry 1 "a")) = none ∧
      (Submitted w' "a" 2 ∧ Outstanding w'.registry 2) ∧ ¬ Outstanding w'.registry 1 := by
  obtain ⟨w, hw, hp⟩ := (Option.any_eq_true (fun w : World => decide (receipts w.registry = [⟨1, 0, 0⟩] ∧
      admitted w.registry 0 = some true ∧ released w.registry 0 = false ∧
      submissions w.controller.log = [⟨1, "a", .queue, none, some 10⟩, ⟨2, "b", .replace, some "a", none⟩] ∧
      (w.registry.core.tasks.lookup 1).isNone ∧
      (w.step tinyConfig smallConfig (.controller (.completionResult busyRegistry 1 "a"))).isNone)) _).mp
    (show ((machine tinyConfig smallConfig).after (.new tinyConfig) (replaceRun ++ forceAbort.map .registry)).any _ = true by
      decide +kernel)
  obtain ⟨w', hw', hq⟩ := (Option.any_eq_true (fun w : World => decide (receipts w.registry = [⟨1, 0, 0⟩, ⟨2, 2, 1⟩] ∧
      admitted w.registry 2 = none ∧ released w.registry 1 = false ∧
      submissions w.controller.log = [⟨1, "a", .queue, none, some 10⟩, ⟨2, "b", .replace, some "a", none⟩])) _).mp
    (show ((machine tinyConfig smallConfig).after (.new tinyConfig) handoverRun).any _ = true by decide +kernel)
  obtain ⟨hreceipts, hadmitted, hreleased, hlog, hgone, hunheard⟩ := of_decide_eq_true hp
  obtain ⟨hreceipts', hadmitted', hreleased', hlog'⟩ := of_decide_eq_true hq
  obtain ⟨hexclusive, -, -⟩ := slot_exclusion (Machine.Reachable.after (M := machine tinyConfig smallConfig) .init hw)
  obtain ⟨hexclusive', -, -⟩ := slot_exclusion (Machine.Reachable.after (M := machine tinyConfig smallConfig) .init hw')
  have hfirst : Submitted w "a" 1 ∧ Outstanding w.registry 1 := by
    refine ⟨⟨_, by rw [hlog]; exact List.mem_cons_self, rfl, rfl⟩, _,
      by rw [hreceipts]; exact List.mem_cons_self, rfl, ?_, hreleased⟩
    rw [hadmitted]
    exact fun hx => by cases hx
  have hsecond : Submitted w' "a" 2 ∧ Outstanding w'.registry 2 := by
    refine ⟨⟨_, by rw [hlog']; exact List.mem_cons_of_mem _ List.mem_cons_self, rfl, rfl⟩, _,
      by rw [hreceipts']; exact List.mem_cons_of_mem _ List.mem_cons_self, rfl, ?_, hreleased'⟩
    rw [hadmitted']
    exact fun hx => by cases hx
  have hold : Submitted w' "a" 1 := ⟨_, by rw [hlog']; exact List.mem_cons_self, rfl, rfl⟩
  refine ⟨w, w', hw, hw', by simpa using hgone, hfirst, fun y hy ho => hexclusive "a" y 1 hy hfirst.1 ho hfirst.2,
    by simpa using hunheard, hsecond, fun ho => ?_⟩
  cases hexclusive' "a" 1 2 hold hsecond.1 ho hsecond.2

end Taskvisor.System.Slots
