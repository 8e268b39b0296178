import Taskvisor.Registry.Answers
import Taskvisor.System.Cancellation

namespace Taskvisor.System.Delivery

open Lib Runtime.Base Controller Controller.State Controller.Abstract Controller.Bridge Controller.Coherence
  Controller.Refinement Controller.Index Controller.Tracking Controller.Tenure Controller.Parity Registry
  Registry.Identity Registry.Growth Registry.Reach Registry.Answers Composed Receipts Slots Cancellation
open Controller.Outcomes (Spend Spends Receive Absorb)
open Registry.Listener (RegistryConfig AddItem Reply)

variable {cfg : ControllerConfig} {limits : RegistryConfig} {w w' : World} {a : Action} {r r' : Listener.World}
  {c c' : Driver.World} {id : TaskId} {sub : Submission} {tx : OutcomeTx} {answers : List (Option OutcomeTx × TaskOutcome)}

section Sends

variable {b b' : Board}

theorem sent_spend (s : Spend b b') : b.sent <+: b'.sent := by
  cases s with
  | keep _ _ hsent => exact hsent ▸ List.prefix_rfl
  | reject id kind reason _ _ hsent => exact hsent ▸ List.prefix_append _ _
  | hand id name _ _ hsent => exact hsent ▸ List.prefix_rfl

theorem sent_spends (s : Spends b b') : b.sent <+: b'.sent := by
  induction s with
  | refl => exact List.prefix_rfl
  | tail _ s ih => exact ih.trans (sent_spend s)

theorem sent_absorb (h : Absorb sub b b') : b.sent <+: b'.sent := by
  obtain ⟨b₁, b₂, hbefore, hreceive, hafter⟩ := h
  refine (sent_spends hbefore).trans (List.IsPrefix.trans ?_ (sent_spends hafter))
  cases hreceive with
  | sent kind reason _ _ hsent => exact hsent ▸ List.prefix_append _ _
  | handed name _ _ hsent | parked _ _ hsent => exact hsent ▸ List.prefix_rfl

/-- What the controller has told its watchers stays told. -/
theorem sent_step (hc : (Driver.machine cfg).Reachable c) {b : Driver.Action} (hstep : c.step cfg b = some c') :
    c.engine.sent <+: c'.engine.sent := by
  by_cases hphase : c.phase = .looping
  · have hsane := sane_of_reachable hc hphase
    cases hsane.turn hphase (fun _ _ => trivial) hstep with
    | sent command hfresh => exact List.prefix_rfl
    | submitted hcommands hentered =>
        refine sent_absorb (Outcomes.absorb_entered hsane.coherent (hsane.unknown _ ?_) hentered)
        rw [hcommands]
        exact List.mem_cons_self
    | managed hcommands hmoves => exact sent_spends (Outcomes.spends_moves hsane.coherent hmoves)
    | resolved hmoves => exact sent_spends (Outcomes.spends_moves hsane.coherent hmoves)
    | stopped => exact List.prefix_rfl
  · cases step_wind hphase hstep with
    | sent command hdrain hfresh => exact List.prefix_rfl
    | @drained command rest obs hdrain hcommands =>
        cases command with
        | submit sub => exact sent_absorb (Outcomes.absorb_drain obs sub)
        | manageIdentity id operation reply => exact List.prefix_rfl
    | finalized obs hdrain hcommands => exact sent_spends (Outcomes.spends_finalize obs c.engine).1
    | finished obs hfinal => exact sent_spends (Outcomes.spends_finalize obs c.engine).1

end Sends

section Shipped

/-- A commit sends the item of the handoff, with the sender it carries. -/
theorem sent_commit {key : Nat} {caller : Registry.Listener.Caller} {handoff : Handoff}
    (hk : r.callers.lookup key = some caller) (hcommits : World.commits handoff caller = true)
    (hs : Steps.Stepped limits r (.call key) r') :
    ∃ item, item.id = handoff.id ∧ item.done = handoff.done ∧ r'.sent = r.sent ++ [.add item key] := by
  obtain ⟨htracked, hp⟩ := Bool.and_eq_true_iff.mp hcommits
  obtain ⟨hhead, hsame⟩ := of_decide_eq_true hp
  obtain ⟨todo, htodo⟩ := List.head?_eq_some_iff.mp hhead
  have hsent := sends hk htodo hs
  cases hcall : caller.call with
  | controllerAdd item | reservedControllerAdd item =>
      rw [hcall] at hsame hsent
      obtain ⟨hid, hrest⟩ := Prod.mk.inj (List.head_eq_of_cons_eq hsame)
      exact ⟨{ item with completion := some r.nextLatch }, hid, (Prod.mk.inj hrest).2, hsent⟩
  | _ =>
      rw [hcall] at htracked
      cases htracked

/-- The controller's handoffs wait in the outbox or have become Adds. -/
def Shipped (w : World) : Prop :=
  ∀ handoff ∈ w.controller.engine.handed, handoff ∈ w.outbox ∨
    ∃ item reply, .add item reply ∈ w.registry.sent ∧ item.id = handoff.id ∧ item.done = handoff.done

theorem Shipped.step (h : Shipped w) (hw : (machine cfg limits).Reachable w) (hs : Stepped cfg limits w a w') :
    Shipped w' := by
  have hgrow {r : Listener.World} (hsent : w.registry.sent <+: r.sent) {handoff : Handoff}
      (ho : ∃ item reply, .add item reply ∈ w.registry.sent ∧ item.id = handoff.id ∧ item.done = handoff.done) :
      ∃ item reply, .add item reply ∈ r.sent ∧ item.id = handoff.id ∧ item.done = handoff.done := by
    obtain ⟨item, reply, hm, hsame⟩ := ho
    exact ⟨item, reply, hsent.subset hm, hsame⟩
  cases hs with
  | controller b c hidle hheard hstep =>
      intro handoff hm
      obtain ⟨more, hmore⟩ := handed_prefix (controller_of_reachable hw) hstep
      change handoff ∈ c.engine.handed at hm
      rw [← hmore] at hm
      rcases List.mem_append.mp hm with hm | hm
      · refine .inr ((h handoff hm).resolve_left fun ho => ?_)
        rw [hidle] at ho
        cases ho
      · refine .inl ?_
        change handoff ∈ c.engine.handed.drop _
        rw [← hmore, List.drop_left]
        exact hm
  | commit key first outbox caller r houtbox hcaller hcommits hstep =>
      intro handoff hm
      rcases h handoff hm with ho | ho
      · rw [houtbox] at ho
        rcases List.mem_cons.mp ho with rfl | ho
        · obtain ⟨item, hid, hdone, hsent⟩ := sent_commit hcaller hcommits (Steps.step_cases hstep)
          exact .inr ⟨item, key, hsent ▸ List.mem_append_right _ List.mem_cons_self, hid, hdone⟩
        · exact .inl ho
      · exact .inr (hgrow (step_grown (Steps.step_cases hstep)).sent ho)
  | manage op r hidle hop hnew hstep =>
      exact fun handoff hm => (h handoff hm).imp_right (hgrow (step_grown (Steps.step_cases hstep)).sent)
  | registry b r hunaided hstep =>
      exact fun handoff hm => (h handoff hm).imp_right (hgrow (step_grown (Steps.step_cases hstep)).sent)

theorem shipped_of_reachable (h : (machine cfg limits).Reachable w) : Shipped w :=
  h.invariant (P := Shipped) (fun _ hm => by cases hm) fun _ _ _ hw hi hstep => hi.step hw (step_cases hstep)

end Shipped

/-- What the watcher of a submission has been told, by the controller and by the
registry. -/
def answersOf (w : World) (id : TaskId) : List (Option OutcomeTx × TaskOutcome) :=
  ((w.controller.engine.sent.filter fun send => decide (send.1 = id)).map fun send => (some send.2.1, send.2.2)) ++
    told w.registry id

/-- Where the sender of a watched submission is, and what has been told through
it by then. -/
inductive Whereabouts (limits : RegistryConfig) (w : World) (sub : Submission) (tx : OutcomeTx) :
    List (Option OutcomeTx × TaskOutcome) → Prop
  | queued (h : sub ∈ submissions w.controller.commands) : Whereabouts limits w sub tx []
  | parked (h : w.controller.engine.state.watchers.lookup sub.id = some tx) : Whereabouts limits w sub tx []
  | rejected (kind : RejectionKind) (reason : String) (h : sub.id ∈ rejectedIds w.controller.engine) :
      Whereabouts limits w sub tx [(some tx, .rejected kind reason)]
  | shipping (handoff : Handoff) (h : handoff ∈ w.outbox) (hid : handoff.id = sub.id) (hdone : handoff.done = some tx) :
      Whereabouts limits w sub tx []
  | committed (item : AddItem) (reply : Reply) (answers : List (Option OutcomeTx × TaskOutcome))
      (h : .add item reply ∈ w.registry.sent) (hid : item.id = sub.id) (hdone : item.done = some tx)
      (hstanding : Standing limits w.registry item reply answers) : Whereabouts limits w sub tx answers

/-- What was not handed over never comes to the registry. -/
theorem told_unhanded (hw : (machine cfg limits).Reachable w) (hlog : id ∈ (submissions w.controller.log).map Submission.id)
    (h : id ∉ w.controller.engine.handed.map Handoff.id) : told w.registry id = [] := by
  have hr := registry_of_reachable hw
  refine told_untaken hr fun htaken => h ?_
  have hsent : id ∈ ids w.registry.sent := by
    rw [(steady_of_reachable hr).fenced.order, ids_append]
    exact List.mem_append_left _ htaken
  obtain ⟨receipt, hreceipt, rfl⟩ := List.mem_map.mp (receipt_of_sent hw hlog hsent)
  exact (slotted_of_reachable hw).committed receipt hreceipt

theorem told_outbox (hw : (machine cfg limits).Reachable w) (hlog : id ∈ (submissions w.controller.log).map Submission.id)
    {handoff : Handoff} (h : handoff ∈ w.outbox) (hid : handoff.id = id) : told w.registry id = [] := by
  have hr := registry_of_reachable hw
  refine told_untaken hr fun htaken => ?_
  have hsent : id ∈ ids w.registry.sent := by
    rw [(steady_of_reachable hr).fenced.order, ids_append]
    exact List.mem_append_left _ htaken
  obtain ⟨delivered, hhanded, hids⟩ := (watched_of_reachable hw).shipped
  have hdelivered : id ∈ delivered.map Handoff.id := hids ▸ receipt_of_sent hw hlog hsent
  have honce := handed_once (controller_of_reachable hw)
  rw [hhanded, List.map_append, List.nodup_append] at honce
  exact honce.2.2 id hdelivered id (List.mem_map.mpr ⟨handoff, h, hid⟩) rfl

section Controller

variable (hc : (Driver.machine cfg).Reachable c) (hsub : sub ∈ submissions c.log) (hdone : sub.done = some tx)

include hc hsub hdone

/-- The controller tells an identity through the sender it was submitted with. -/
theorem sends_of_id : (c.engine.sent.filter fun send => decide (send.1 = sub.id)) =
    c.engine.sent.filter fun send => decide (send.2.1 = tx) := by
  have hacc := Outcomes.accounted_of_reachable hc
  refine List.filter_congr fun send hsend => ?_
  obtain ⟨-, s, hs, hid, hd⟩ := hacc.owned.sent send hsend
  rw [decide_eq_decide]
  constructor
  · intro he
    obtain rfl := hacc.unique s hs sub hsub (.inl (hid.trans he))
    exact Option.some.inj (hd.symm.trans hdone)
  · rintro rfl
    exact hid.symm.trans (hacc.done_id hsub hdone s hs hd)

/-- A submission whose sender waits in the controller was not handed over. -/
theorem unhanded_of_held (h : sub ∈ submissions c.commands ∨ c.engine.state.watchers.lookup sub.id = some tx) :
    sub.id ∉ c.engine.handed.map Handoff.id := by
  intro hm
  have hreported := reported_of_reachable hc
  rcases h with h | h
  · exact hreported.unseen sub h (.inr (.inr (.inl hm)))
  · obtain ⟨hqueued, hcapacity⟩ := hreported.resting.settled sub.id (.inl hm)
    have hwatcher : (board c.engine).watcher sub.id ≠ none := by
      change c.engine.state.watchers.lookup sub.id ≠ none
      rw [h]
      exact Option.some_ne_none tx
    rcases hreported.resting.watched sub.id hwatcher with hq | hq
    · exact hq hqueued
    · exact hq hcapacity

/-- The sender waits in the controller, was spent on a rejection, or was handed
over. -/
theorem sender_cases :
    (sub ∈ submissions c.commands ∨ c.engine.state.watchers.lookup sub.id = some tx) ∧
        (c.engine.sent.filter fun send => decide (send.1 = sub.id)) = [] ∨
      (∃ kind reason, sub.id ∈ rejectedIds c.engine ∧
        (c.engine.sent.filter fun send => decide (send.1 = sub.id)) = [(sub.id, tx, .rejected kind reason)]) ∨
      ∃ handoff ∈ c.engine.handed, handoff.id = sub.id ∧ handoff.done = some tx ∧
        (c.engine.sent.filter fun send => decide (send.1 = sub.id)) = [] := by
  have hacc := Outcomes.accounted_of_reachable hc
  have honce := hacc.once sub hsub tx hdone
  rw [sends_of_id hc hsub hdone]
  have htally : Outcomes.tally (board c.engine) sub.id tx = (if c.engine.state.watchers.lookup sub.id = some tx then 1 else 0) +
      (c.engine.handed.countP (fun handoff => decide (handoff.done = some tx)) +
        c.engine.sent.countP fun send => decide (send.2.1 = tx)) := rfl
  rw [htally] at honce
  by_cases hsent : (c.engine.sent.filter fun send => decide (send.2.1 = tx)) = []
  · rw [List.countP_eq_length_filter (l := c.engine.sent), hsent] at honce
    by_cases hhanded : ∃ handoff ∈ c.engine.handed, handoff.done = some tx
    · obtain ⟨handoff, hm, hd⟩ := hhanded
      obtain ⟨s, hs, hid, hsd⟩ := hacc.owned.handed handoff hm tx hd
      exact .inr (.inr ⟨handoff, hm, hid.symm.trans (hacc.done_id hsub hdone s hs hsd), hd, hsent⟩)
    · have hzero : c.engine.handed.countP (fun handoff => decide (handoff.done = some tx)) = 0 := by
        rw [List.countP_eq_zero]
        intro handoff hm
        rw [decide_eq_true_eq]
        exact fun hd => hhanded ⟨handoff, hm, hd⟩
      refine .inl ⟨?_, hsent⟩
      by_cases hwatcher : c.engine.state.watchers.lookup sub.id = some tx
      · exact .inr hwatcher
      · rw [hzero, if_neg hwatcher] at honce
        have hpos : 0 < Outcomes.queuedWith tx c.commands := by
          simp only [List.length_nil] at honce
          omega
        obtain ⟨s, hs, hd⟩ := List.countP_pos_iff.mp hpos
        obtain rfl := hacc.unique s (hacc.logged s hs) sub hsub (.inr ⟨tx, of_decide_eq_true hd, hdone⟩)
        exact .inl hs
  · have hone : (c.engine.sent.filter fun send => decide (send.2.1 = tx)).length = 1 := by
      have hpos := List.length_pos_iff.mpr hsent
      rw [List.countP_eq_length_filter (l := c.engine.sent)] at honce
      omega
    obtain ⟨send, hsend⟩ := List.length_eq_one_iff.mp hone
    have hm : send ∈ c.engine.sent.filter fun send => decide (send.2.1 = tx) := hsend ▸ List.mem_cons_self
    obtain ⟨hin, htx⟩ := List.mem_filter.mp hm
    have htx := of_decide_eq_true htx
    obtain ⟨kind, reason, houtcome, hrejected⟩ := (reported_of_reachable hc).paired.matched send hin
    obtain ⟨-, s, hs, hid, hd⟩ := hacc.owned.sent send hin
    have hsame : send.1 = sub.id := hid.symm.trans (hacc.done_id hsub hdone s hs (htx ▸ hd))
    refine .inr (.inl ⟨kind, reason, hsame ▸ List.mem_map_of_mem hrejected, ?_⟩)
    rw [hsend, ← hsame, ← htx, ← houtcome]

end Controller

theorem whereabouts (hw : (machine cfg limits).Reachable w) (hsub : sub ∈ submissions w.controller.log)
    (hdone : sub.done = some tx) : Whereabouts limits w sub tx (answersOf w sub.id) := by
  have hc := controller_of_reachable hw
  have hlog : sub.id ∈ (submissions w.controller.log).map Submission.id := List.mem_map_of_mem hsub
  rcases sender_cases hc hsub hdone with ⟨hheld, hsent⟩ | ⟨kind, reason, hrejected, hsent⟩ | ⟨handoff, hm, hid, hd, hsent⟩
  · rw [answersOf, hsent, told_unhanded hw hlog (unhanded_of_held hc hsub hdone hheld)]
    exact hheld.elim .queued .parked
  · have hunhanded : sub.id ∉ w.controller.engine.handed.map Handoff.id := fun hh =>
      (reported_of_reachable hc).resting.apart sub.id hh hrejected
    rw [answersOf, hsent, told_unhanded hw hlog hunhanded]
    exact .rejected kind reason hrejected
  · rw [answersOf, hsent]
    rcases shipped_of_reachable hw handoff hm with ho | ⟨item, reply, hadd, hitem, hsender⟩
    · rw [told_outbox hw hlog ho hid]
      exact .shipping handoff ho hid hd
    · have hsame : item.id = sub.id := hitem.trans hid
      refine .committed item reply _ hadd hsame (hsender.trans hd) ?_
      rw [← hsame]
      exact standing (registry_of_reachable hw) hadd

theorem Whereabouts.length (h : Whereabouts limits w sub tx answers) : answers.length ≤ 1 := by
  cases h with
  | committed item reply answers h hid hdone hstanding => exact hstanding.length
  | _ => simp

theorem answers_grown (hw : (machine cfg limits).Reachable w) (hs : Stepped cfg limits w a w') :
    answersOf w id ⊆ answersOf w' id := by
  have hmove {sent : List (TaskId × OutcomeTx × TaskOutcome)} (h : w.controller.engine.sent <+: sent)
      {r : Listener.World} (hr : told w.registry id ⊆ told r id) :
      answersOf w id ⊆ ((sent.filter fun send => decide (send.1 = id)).map fun send => (some send.2.1, send.2.2)) ++ told r id := by
    intro answer hm
    refine List.mem_append.mpr ((List.mem_append.mp hm).imp (fun hx => ?_) fun hx => hr hx)
    obtain ⟨send, hsend, rfl⟩ := List.mem_map.mp hx
    obtain ⟨hin, hid⟩ := List.mem_filter.mp hsend
    exact List.mem_map_of_mem (List.mem_filter.mpr ⟨h.subset hin, hid⟩)
  cases hs with
  | controller b c hidle hheard hstep => exact hmove (sent_step (controller_of_reachable hw) hstep) fun _ hx => hx
  | commit key handoff outbox caller r houtbox hcaller hcommits hstep =>
      exact hmove List.prefix_rfl (told_grown (Steps.step_cases hstep))
  | manage op r hidle hop hnew hstep => exact hmove List.prefix_rfl (told_grown (Steps.step_cases hstep))
  | registry b r hunaided hstep => exact hmove List.prefix_rfl (told_grown (Steps.step_cases hstep))

/-- Whatever the order of submissions, registry decisions, exits, removals and
shutdowns, a watched submission is answered once and through its own sender, by
the side that ended it; the answer stands, and nobody is left waiting when both
sides are gone. -/
theorem submission_answered (hw : (machine cfg limits).Reachable w) (hsub : sub ∈ submissions w.controller.log)
    (hdone : sub.done = some tx) :
    Whereabouts limits w sub tx (answersOf w sub.id) ∧
      (w.controller.phase = .finished → w.outbox = [] → w.registry.mode = .exited → answersOf w sub.id ≠ []) ∧
      (answersOf w sub.id ≠ [] → ∀ run w', (machine cfg limits).after w run = some w' →
        answersOf w' sub.id = answersOf w sub.id) := by
  have hc := controller_of_reachable hw
  refine ⟨whereabouts hw hsub hdone, fun hphase houtbox hmode => ?_, fun hne run w' hrun => ?_⟩
  · have hwhere := whereabouts hw hsub hdone
    obtain ⟨hcommands, hwatchers⟩ := (Outcomes.closing_of_reachable hc).closed (.inr hphase)
    intro hnil
    rw [hnil] at hwhere
    cases hwhere with
    | queued h =>
        rw [hcommands] at h
        cases h
    | parked h => cases h.symm.trans (hwatchers sub.id)
    | shipping handoff h hid hd =>
        rw [houtbox] at h
        cases h
    | committed item reply _ h hid hd hstanding =>
        refine (answered_once (registry_of_reachable hw) h).2.1 hmode ?_
        rw [answersOf, List.append_eq_nil_iff] at hnil
        rw [hid]
        exact hnil.2
  · let kept (v : World) : Prop := sub ∈ submissions v.controller.log ∧ answersOf w sub.id ⊆ answersOf v sub.id
    obtain ⟨hsub', hkept⟩ : kept w' := by
      refine hw.keeps (P := kept) ⟨hsub, fun _ hx => hx⟩ (fun v a v' hv hk hstep => ?_) hrun
      have hs := step_cases hstep
      refine ⟨?_, fun _ hx => answers_grown hv hs (hk.2 hx)⟩
      cases hs with
      | controller b c hidle hheard hb =>
          have hlog := log_prefix hb
          exact (hlog.filterMap _).subset hk.1
      | _ => exact hk.1
    have hbefore := (whereabouts hw hsub hdone).length
    have hafter := (whereabouts (hw.after hrun) hsub' hdone).length
    obtain ⟨answer, hanswer⟩ := List.exists_mem_of_ne_nil _ hne
    rw [eq_singleton hbefore hanswer, eq_singleton hafter (hkept hanswer)]

/-- One submission runs to its end, and the one that finds it running is turned
away. -/
def deliverRun : List Action :=
  [.controller (.send (.submit ⟨1, "a", .queue, none, some 10⟩)),
    .controller (.send (.submit ⟨2, "b", .dropIfRunning, some "a", some 20⟩)),
    .controller (.command busyRegistry none)] ++ commitRun 0 ⟨1, "a", some 10, none⟩ ++
    [.registry (.listen .command), .registry (.listen .command)] ++ List.replicate 8 (.registry .work) ++
    [.controller (.admissionResult busyRegistry 1 "a" true), .controller (.command busyRegistry none),
      .registry (.actor 1 (.produce (.ok .completed))), .registry (.actor 1 .signal), .registry (.listen .completion),
      .registry (.listen .completion), .registry .work, .registry .work, .registry (.actor 1 .exit)] ++
    List.replicate 3 (.registry (.owner 0 .advance))

theorem submission_answered_turned :
    ∃ w, (machine tinyConfig smallConfig).after (.new tinyConfig) deliverRun = some w ∧
      answersOf w 1 = [(some 10, .completed)] ∧
      answersOf w 2 = [(some 20, .rejected .slotBusy "slot is busy; DropIfRunning rejected the submission (running)")] ∧
      Whereabouts smallConfig w ⟨1, "a", .queue, none, some 10⟩ 10 (answersOf w 1) ∧
      Whereabouts smallConfig w ⟨2, "b", .dropIfRunning, some "a", some 20⟩ 20 (answersOf w 2) := by
  obtain ⟨w, hw, hp⟩ := (Option.any_eq_true (fun w : World => decide (
      submissions w.controller.log =
        [⟨1, "a", .queue, none, some 10⟩, ⟨2, "b", .dropIfRunning, some "a", some 20⟩] ∧
      answersOf w 1 = [(some 10, .completed)] ∧ answersOf w 2 =
        [(some 20, .rejected .slotBusy "slot is busy; DropIfRunning rejected the submission (running)")])) _).mp
    (show ((machine tinyConfig smallConfig).after (.new tinyConfig) deliverRun).any _ = true by decide +kernel)
  obtain ⟨hlog, hfirst, hsecond⟩ := of_decide_eq_true hp
  have hreach : (machine tinyConfig smallConfig).Reachable w := .after .init hw
  have hmem₁ : (⟨1, "a", .queue, none, some 10⟩ : Submission) ∈ submissions w.controller.log := by simp [hlog]
  have hmem₂ : (⟨2, "b", .dropIfRunning, some "a", some 20⟩ : Submission) ∈ submissions w.controller.log := by simp [hlog]
  exact ⟨w, hw, hfirst, hsecond, (submission_answered hreach hmem₁ rfl).1, (submission_answered hreach hmem₂ rfl).1⟩

end Taskvisor.System.Delivery
