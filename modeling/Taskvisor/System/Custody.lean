import Taskvisor.System.Delivery

namespace Taskvisor.System.Custody

open Lib Runtime.Base Controller Controller.State Controller.Abstract Controller.Bridge Controller.Coherence Controller.Refinement
  Controller.Index Controller.Tracking Controller.Tenure Controller.Parity Controller.Precedence Registry
  Registry.Lifecycle Registry.Entries Registry.Identity Registry.Claims Registry.Growth Registry.Reach
  Registry.Withdrawal Registry.Answers Composed Receipts Slots Cancellation Delivery
open Registry.Listener (RegistryConfig AddItem Reply RegistryCommand)
open Registry.Steps (isRegistered)

variable {cfg : ControllerConfig} {limits : RegistryConfig} {w w' : World} {a : Action} {r r' : Listener.World}
  {c c' : Driver.World} {id : TaskId} {b : Listener.World.Action}

/-- Who answers for a submission. -/
inductive Stage
  | queued
  | waiting
  | rejected
  | committed
  | admitting
  | refused
  | member
  | leaving
  | left
deriving DecidableEq

/-- The way of a submission from the command queue to one of its three ends. -/
inductive Passes : Stage → Stage → Prop
  | wait : Passes .queued .waiting
  | start : Passes .queued .committed
  | turnAway : Passes .queued .rejected
  | promote : Passes .waiting .committed
  | withdraw : Passes .waiting .rejected
  | take : Passes .committed .admitting
  | refuse : Passes .admitting .refused
  | enter : Passes .admitting .member
  | claim : Passes .member .leaving
  | report : Passes .leaving .left

abbrev Path : Stage → Stage → Prop := Relation.ReflTransGen Passes

/-- Where the two components hold the submission. -/
inductive Placed (w : World) (id : TaskId) : Stage → Prop
  | queued (h : id ∈ (submissions w.controller.commands).map Submission.id) : Placed w id .queued
  | waiting (h : (w.controller.engine.state.queuedSlots.lookup id).isSome ∨
      (w.controller.engine.state.capacityPending.lookup id).isSome) : Placed w id .waiting
  | rejected (h : id ∈ rejectedIds w.controller.engine) : Placed w id .rejected
  | committed (h : id ∈ w.outbox.map Handoff.id ∨ id ∈ ids w.registry.commands) : Placed w id .committed
  | admitting (h : id ∈ awaited w.registry.job) : Placed w id .admitting
  | refused (h : id ∈ w.registry.rejections.map Prod.fst) : Placed w id .refused
  | member (h : isRegistered w.registry.core id) : Placed w id .member
  | leaving (h : ∃ key o, w.registry.core.owners.lookup key = some o ∧ o.id = id ∧ reportedAt o.stage = false) :
      Placed w id .leaving
  | left (h : outcomesOf w.registry.core.outcomes id = 1) : Placed w id .left

/-- How far the registry has come with a task it took. -/
def registryCustody (r : Listener.World) (id : TaskId) : Stage :=
  if (r.core.born.lookup id).isSome then
    if claimsOf r.core.claims id = [] then .member
    else if outcomesOf r.core.outcomes id = 0 then .leaving else .left
  else if id ∈ awaited r.job then .admitting else .refused

def custody (w : World) (id : TaskId) : Stage :=
  if id ∈ (submissions w.controller.commands).map Submission.id then .queued
  else if id ∈ rejectedIds w.controller.engine then .rejected
  else if id ∉ w.controller.engine.handed.map Handoff.id then .waiting
  else if id ∉ ids w.registry.taken then .committed
  else registryCustody w.registry id

def Logged (w : World) (id : TaskId) : Prop := id ∈ (submissions w.controller.log).map Submission.id

section Places

variable (hw : (machine cfg limits).Reachable w)

include hw

theorem unqueued_of_held (h : Held (board w.controller.engine) id) :
    id ∉ (submissions w.controller.commands).map Submission.id := by
  intro hm
  obtain ⟨sub, hsub, rfl⟩ := List.mem_map.mp hm
  exact (reported_of_reachable (controller_of_reachable hw)).unseen sub hsub h

theorem unrejected_of_handed (h : id ∈ w.controller.engine.handed.map Handoff.id) :
    id ∉ rejectedIds w.controller.engine :=
  (reported_of_reachable (controller_of_reachable hw)).resting.apart id h

theorem custody_of_handed (h : id ∈ w.controller.engine.handed.map Handoff.id) :
    custody w id = if id ∉ ids w.registry.taken then .committed else registryCustody w.registry id := by
  rw [custody, if_neg (unqueued_of_held hw (.inr (.inr (.inl h)))), if_neg (unrejected_of_handed hw h),
    if_neg (not_not.mpr h)]

theorem handed_of_taken (hlog : Logged w id) (h : id ∈ ids w.registry.taken) :
    id ∈ w.controller.engine.handed.map Handoff.id := by
  have hsent : id ∈ ids w.registry.sent := by
    rw [(steady_of_reachable (registry_of_reachable hw)).fenced.order, ids_append]
    exact List.mem_append_left _ h
  obtain ⟨receipt, hreceipt, rfl⟩ := List.mem_map.mp (receipt_of_sent hw hlog hsent)
  exact (slotted_of_reachable hw).committed receipt hreceipt

theorem custody_of_taken (hlog : Logged w id) (h : id ∈ ids w.registry.taken) :
    custody w id = registryCustody w.registry id := by
  rw [custody_of_handed hw (handed_of_taken hw hlog h), if_neg (not_not.mpr h)]

theorem untaken_of_outbox (hlog : Logged w id) (h : id ∈ w.outbox.map Handoff.id) : id ∉ ids w.registry.taken := by
  intro htaken
  have hr := registry_of_reachable hw
  have hsent : id ∈ ids w.registry.sent := by
    rw [(steady_of_reachable hr).fenced.order, ids_append]
    exact List.mem_append_left _ htaken
  obtain ⟨delivered, hhanded, hids⟩ := (watched_of_reachable hw).shipped
  have hdelivered : id ∈ delivered.map Handoff.id := hids ▸ receipt_of_sent hw hlog hsent
  have honce := handed_once (controller_of_reachable hw)
  rw [hhanded, List.map_append, List.nodup_append] at honce
  exact honce.2.2 id hdelivered id h rfl

end Places

section Members

variable {s : Registry.State.PreparedRegistration}

theorem claims_of_member (hst : Steady r) (hb : r.core.born.lookup id = some s) :
    claimsOf r.core.claims id = [] ↔ isRegistered r.core id := by
  obtain rfl := hst.settled.sound.seed id s hb
  exact (protocol_of_settled hst.settled hb).unclaimed

theorem outcomes_of_registered (hst : Steady r) (h : isRegistered r.core id) : outcomesOf r.core.outcomes id = 0 := by
  obtain ⟨name, handle, he⟩ := h
  obtain ⟨s, rfl, -, -, -, -, -, hout, -⟩ := Moves.registered_life hst.settled.sound he
  exact hout

theorem born_of_registered (hst : Steady r) (h : isRegistered r.core id) : (r.core.born.lookup id).isSome := by
  obtain ⟨name, handle, he⟩ := h
  obtain ⟨s, hb, -⟩ := Names.entry_seed hst.settled.sound he
  exact Option.isSome_iff_exists.mpr ⟨s, hb⟩

theorem born_taken (hst : Steady r) (h : (r.core.born.lookup id).isSome) : id ∈ ids r.taken := by
  obtain ⟨s, hb⟩ := Option.isSome_iff_exists.mp h
  exact hst.incoming.born id s hb

end Members

/-- A place is read off the tables. -/
theorem custody_of_placed (hw : (machine cfg limits).Reachable w) (hlog : Logged w id) {place : Stage}
    (h : Placed w id place) : custody w id = place := by
  have hr := registry_of_reachable hw
  have hst := steady_of_reachable hr
  have hsound := hst.settled.sound
  have hresting := (reported_of_reachable (controller_of_reachable hw)).resting
  cases h with
  | queued h => rw [custody, if_pos h]
  | waiting h =>
      have hheld : Held (board w.controller.engine) id :=
        h.elim (fun h => .inl (Option.isSome_iff_ne_none.mp h)) fun h => .inr (.inl (Option.isSome_iff_ne_none.mp h))
      have hunsettled : ¬ (id ∈ w.controller.engine.handed.map Handoff.id ∨ id ∈ rejectedIds w.controller.engine) := by
        intro hx
        obtain ⟨hq, hc⟩ := hresting.settled id hx
        rcases h with h | h
        · exact Option.isSome_iff_ne_none.mp h hq
        · exact Option.isSome_iff_ne_none.mp h hc
      rw [not_or] at hunsettled
      rw [custody, if_neg (unqueued_of_held hw hheld), if_neg hunsettled.2, if_pos hunsettled.1]
  | rejected h => rw [custody, if_neg (unqueued_of_held hw (.inr (.inr (.inr h)))), if_pos h]
  | committed h =>
      rcases h with h | h
      · have hhanded : id ∈ w.controller.engine.handed.map Handoff.id := by
          obtain ⟨handoff, hm, rfl⟩ := List.mem_map.mp h
          exact List.mem_map_of_mem ((slotted_of_reachable hw).outbox handoff hm)
        rw [custody_of_handed hw hhanded, if_pos (untaken_of_outbox hw hlog h)]
      · have hsent : id ∈ ids w.registry.sent := by
          rw [hst.fenced.order, ids_append]
          exact List.mem_append_right _ h
        obtain ⟨receipt, hreceipt, rfl⟩ := List.mem_map.mp (receipt_of_sent hw hlog hsent)
        rw [custody_of_handed hw ((slotted_of_reachable hw).committed receipt hreceipt),
          if_pos fun htaken => Withdrawal.not_waiting hst htaken h]
  | admitting h =>
      rw [custody_of_taken hw hlog (awaited_taken hst h), registryCustody, awaited_unborn hst h, if_pos h]
      rfl
  | refused h =>
      have hledger := ledger_of_reachable hr
      obtain ⟨hidle, hborn⟩ := hledger.apart id h
      obtain ⟨entry, he, rfl⟩ := List.mem_map.mp h
      obtain ⟨item, reply, error, hadd, rfl, -⟩ := hledger.entries entry he
      have htaken : item.id ∈ ids w.registry.taken := mem_ids.mpr ⟨_, hadd, item, List.mem_cons_self, rfl⟩
      rw [custody_of_taken hw hlog htaken, registryCustody, hborn, if_neg hidle]
      rfl
  | member h =>
      have hborn := born_of_registered hst h
      obtain ⟨s, hb⟩ := Option.isSome_iff_exists.mp hborn
      rw [custody_of_taken hw hlog (born_taken hst hborn), registryCustody, if_pos hborn,
        if_pos ((claims_of_member hst hb).mpr h)]
  | leaving h =>
      obtain ⟨key, o, hk, rfl, hreported⟩ := h
      obtain ⟨s, hid, hh⟩ := hsound.holding hk
      have hb : w.registry.core.born.lookup o.id = some s := hid ▸ hh.born
      have hborn : (w.registry.core.born.lookup o.id).isSome := Option.isSome_iff_exists.mpr ⟨s, hb⟩
      have hclaimed : claimsOf w.registry.core.claims o.id ≠ [] :=
        fun hx => (Honesty.owned_once hsound hk).1 ((claims_of_member hst hb).mp hx)
      have hzero : outcomesOf w.registry.core.outcomes o.id = 0 := by
        have hout : outcomesOf w.registry.core.outcomes s.id = if reportedAt o.stage then 1 else 0 := hh.owned.outcomes
        rwa [hid, hreported] at hout
      rw [custody_of_taken hw hlog (born_taken hst hborn), registryCustody, if_pos hborn, if_neg hclaimed, if_pos hzero]
  | left h =>
      have hborn : (w.registry.core.born.lookup id).isSome := by
        cases hb : w.registry.core.born.lookup id with
        | some s => rfl
        | none =>
            have hzero : outcomesOf w.registry.core.outcomes id = 0 := (hsound.blank id hb).outcomes
            rw [hzero] at h
            cases h
      obtain ⟨s, hb⟩ := Option.isSome_iff_exists.mp hborn
      have hclaimed : claimsOf w.registry.core.claims id ≠ [] := by
        intro hx
        rw [outcomes_of_registered hst ((claims_of_member hst hb).mp hx)] at h
        cases h
      rw [custody_of_taken hw hlog (born_taken hst hborn), registryCustody, if_pos hborn, if_neg hclaimed,
        if_neg (by rw [h]; exact Nat.one_ne_zero)]

/-- A submission is always somewhere. -/
theorem exists_placed (hw : (machine cfg limits).Reachable w) (hlog : Logged w id) : ∃ place, Placed w id place := by
  have hr := registry_of_reachable hw
  have hst := steady_of_reachable hr
  obtain ⟨sub, hsub, rfl⟩ := List.mem_map.mp hlog
  have hreported := reported_of_reachable (controller_of_reachable hw)
  rcases hreported.placed sub hsub with h | h | h | h | h
  · exact ⟨_, .queued (List.mem_map_of_mem h)⟩
  · exact ⟨_, .waiting (.inl (Option.isSome_iff_ne_none.mpr h))⟩
  · exact ⟨_, .waiting (.inr (Option.isSome_iff_ne_none.mpr h))⟩
  · obtain ⟨handoff, hm, hid⟩ := List.mem_map.mp h
    rcases shipped_of_reachable hw handoff hm with ho | ⟨item, reply, hadd, hitem, -⟩
    · exact ⟨_, .committed (.inl (hid ▸ List.mem_map_of_mem ho))⟩
    · have hsame : item.id = sub.id := hitem.trans hid
      rw [hst.fenced.order, List.mem_append] at hadd
      rcases hadd with hadd | hadd
      · rcases (ledger_of_reachable hr).each item reply hadd with hx | hx | hx
        · exact ⟨_, .admitting (hsame ▸ hx)⟩
        · obtain ⟨s, hb⟩ := Option.isSome_iff_exists.mp hx
          rcases member_outcomes hst.settled.sound hb with ⟨hopen | hopen, -⟩ | ⟨-, hout⟩
          · exact ⟨_, .member (hsame ▸ hopen)⟩
          · exact ⟨_, .leaving (hsame ▸ hopen)⟩
          · exact ⟨_, .left (hsame ▸ hout)⟩
        · exact ⟨_, .refused (hsame ▸ hx)⟩
      · exact ⟨_, .committed (.inr (mem_ids.mpr ⟨_, hadd, item, List.mem_cons_self, hsame⟩))⟩
  · exact ⟨_, .rejected h⟩

theorem placed_custody (hw : (machine cfg limits).Reachable w) (hlog : Logged w id) : Placed w id (custody w id) := by
  obtain ⟨place, h⟩ := exists_placed hw hlog
  rw [custody_of_placed hw hlog h]
  exact h

section Controller

theorem commands_step (hc : (Driver.machine cfg).Reachable c) {b : Driver.Action} (hstep : c.step cfg b = some c') :
    c'.commands <:+ c.commands ∨ ∃ command, Driver.fresh c.log command = true ∧ c'.commands = c.commands ++ [command] := by
  by_cases hphase : c.phase = .looping
  · cases (sane_of_reachable hc hphase).turn hphase (fun _ _ => trivial) hstep with
    | sent command hfresh => exact .inr ⟨command, hfresh, rfl⟩
    | submitted hcommands | managed hcommands =>
        rw [hcommands]
        exact .inl (List.suffix_cons _ _)
    | resolved | stopped => exact .inl List.suffix_rfl
  · cases step_wind hphase hstep with
    | sent command hdrain hfresh => exact .inr ⟨command, hfresh, rfl⟩
    | drained obs hdrain hcommands =>
        rw [hcommands]
        exact .inl (List.suffix_cons _ _)
    | finalized | finished => exact .inl List.suffix_rfl

/-- An identity enters the command queue once. -/
theorem unqueued_step (hc : (Driver.machine cfg).Reachable c) {b : Driver.Action} (hstep : c.step cfg b = some c')
    (hlog : id ∈ (submissions c.log).map Submission.id) (h : id ∉ (submissions c.commands).map Submission.id) :
    id ∉ (submissions c'.commands).map Submission.id := by
  rcases commands_step hc hstep with hsuffix | ⟨command, hfresh, he⟩
  · exact fun hm => h (((hsuffix.filterMap _).map Submission.id).subset hm)
  · rw [he, submissions_snoc, List.map_append, List.mem_append, not_or]
    refine ⟨h, fun hm => ?_⟩
    cases command with
    | manageIdentity other operation reply => cases hm
    | submit sub =>
        obtain rfl := List.mem_singleton.mp hm
        obtain ⟨old, hold, hid⟩ := List.mem_map.mp hlog
        exact (of_decide_eq_true hfresh old hold).1 hid

/-- What was neither handed over nor rejected is still with the controller. -/
theorem custody_of_kept (hhanded : id ∉ w.controller.engine.handed.map Handoff.id)
    (hrejected : id ∉ rejectedIds w.controller.engine) :
    custody w id = if id ∈ (submissions w.controller.commands).map Submission.id then .queued else .waiting := by
  rw [custody, if_neg hrejected, if_pos hhanded]

theorem controller_passes (hw : (machine cfg limits).Reachable w) (hw' : (machine cfg limits).Reachable w')
    (hlog : Logged w id) (hlog' : Logged w' id) {b : Driver.Action} (hstep : w.controller.step cfg b = some w'.controller)
    (hregistry : w'.registry = w.registry) : custody w' id = custody w id ∨ Passes (custody w id) (custody w' id) := by
  have hc := controller_of_reachable hw
  by_cases hh : id ∈ w.controller.engine.handed.map Handoff.id
  · have hgrown := handed_prefix hc hstep
    have hin : id ∈ w'.controller.engine.handed.map Handoff.id := (hgrown.map Handoff.id).subset hh
    rw [custody_of_handed hw hh, custody_of_handed hw' hin, hregistry]
    exact .inl rfl
  by_cases hr : id ∈ rejectedIds w.controller.engine
  · rw [custody_of_placed hw hlog (.rejected hr), custody_of_placed hw' hlog' (.rejected (rejected_step hstep hr))]
    exact .inl rfl
  rw [custody_of_kept hh hr]
  by_cases hr' : id ∈ rejectedIds w'.controller.engine
  · rw [custody_of_placed hw' hlog' (.rejected hr')]
    split
    · exact .inr .turnAway
    · exact .inr .withdraw
  by_cases hh' : id ∈ w'.controller.engine.handed.map Handoff.id
  · have huntaken : id ∉ ids w'.registry.taken := by
      rw [hregistry]
      exact fun htaken => hh (handed_of_taken hw hlog htaken)
    rw [custody_of_handed hw' hh', if_pos huntaken]
    split
    · exact .inr .start
    · exact .inr .promote
  rw [custody_of_kept hh' hr']
  by_cases hq : id ∈ (submissions w.controller.commands).map Submission.id
  · rw [if_pos hq]
    split
    · exact .inl rfl
    · exact .inr .wait
  · rw [if_neg hq, if_neg (unqueued_step hc hstep hlog hq)]
    exact .inl rfl

end Controller

section Registry

theorem claimsOf_grown {l l' : List (TaskId × Registry.State.Claimant)} (h : l <+: l') : claimsOf l id <+: claimsOf l' id :=
  (h.filter _).map Prod.snd

theorem outcomesOf_grown {l l' : List (TaskId × Option OutcomeTx × TaskOutcome)} (h : l <+: l') :
    outcomesOf l id ≤ outcomesOf l' id := h.sublist.countP_le

theorem outcomes_extend (hs : Steps.Stepped limits r b r') : r.core.outcomes <+: r'.core.outcomes := by
  rcases outcomes_step hs with he | ⟨key, o, outcome, -, he⟩
  · exact he ▸ List.prefix_rfl
  · exact he ▸ List.prefix_append _ _

/-- Only the owner of a removal reports about its task. -/
theorem outcomesOf_unclaimed (hst : Steady r) (hs : Steps.Stepped limits r b r') (h : isRegistered r.core id) :
    outcomesOf r'.core.outcomes id = 0 := by
  have hzero := outcomes_of_registered hst h
  rcases outcomes_step hs with he | ⟨key, o, outcome, hk, he⟩
  · rw [he, hzero]
  · have hne : o.id ≠ id := by
      rintro rfl
      exact (Honesty.owned_once hst.settled.sound hk).1 h
    rw [he, outcomesOf_append, if_neg hne, hzero]

theorem unborn_of_untaken (hst : Steady r) (h : id ∉ ids r.taken) : r.core.born.lookup id = none := by
  cases hb : r.core.born.lookup id with
  | none => rfl
  | some s => exact absurd (hst.incoming.born id s hb) h

/-- A task that is taken is at work from then on. -/
theorem taken_step (hs : Steps.Stepped limits r b r') (h : id ∉ ids r.taken) (h' : id ∈ ids r'.taken) :
    id ∈ awaited r'.job ∧ r'.core.born = r.core.born := by
  have hsame (he : r'.taken = r.taken) : id ∈ awaited r'.job ∧ r'.core.born = r.core.born := absurd (he ▸ h') h
  cases hs with
  | call key caller v hk hcall => exact hsame (by cases hcall <;> rfl)
  | shutdownStep instr todo v htodo hstep => exact hsame (by cases Steps.shutdownStep_cases hstep <;> rfl)
  | listen branch v hjob hlisten =>
      cases hlisten with
      | command command rest mode _ _ =>
          rw [ids_append, List.mem_append] at h'
          refine ⟨?_, rfl⟩
          rw [awaited, start_requested]
          exact List.mem_append_left _ (by simpa [Identity.ids] using h'.resolve_left h)
      | _ => exact hsame rfl
  | work job v hjob hwork => exact hsame hwork.frame.taken
  | _ => exact hsame rfl

theorem registryCustody_unborn (hb : r.core.born.lookup id = none) :
    registryCustody r id = if id ∈ awaited r.job then .admitting else .refused := by
  rw [registryCustody, hb]
  rfl

theorem registryCustody_born (hb : (r.core.born.lookup id).isSome) :
    registryCustody r id = if claimsOf r.core.claims id = [] then .member
      else if outcomesOf r.core.outcomes id = 0 then .leaving else .left := if_pos hb

/-- An admission at work ends with a refusal or with an unclaimed member. -/
theorem admission_passes (hst : Steady r) (hs : Steps.Stepped limits r b r') (hm : id ∈ awaited r.job) :
    registryCustody r' id = registryCustody r id ∨ Passes (registryCustody r id) (registryCustody r' id) := by
  have hunborn := awaited_unborn hst hm
  rw [registryCustody_unborn hunborn, if_pos hm]
  cases hb : r'.core.born.lookup id with
  | none =>
      rw [registryCustody_unborn hb]
      split
      · exact .inl rfl
      · exact .inr .refuse
  | some s =>
      have hunclaimed : claimsOf r'.core.claims id = [] := by
        by_contra hne
        obtain ⟨claimant, hc⟩ := List.exists_mem_of_ne_nil _ hne
        obtain ⟨⟨i, claimant⟩, hin, rfl⟩ := List.mem_map.mp hc
        obtain ⟨hmem, hi⟩ := List.mem_filter.mp hin
        obtain rfl := of_decide_eq_true hi
        rcases claimed_step hst hs hmem with hold | ⟨hregistered, -⟩
        · have hempty : claimsOf r.core.claims i = [] := (hst.settled.sound.blank i hunborn).claims
          have hin := mem_claimsOf hold
          rw [hempty] at hin
          cases hin
        · have hborn := born_of_registered hst hregistered
          rw [hunborn] at hborn
          cases hborn
      rw [registryCustody_born (by rw [hb]; rfl), if_pos hunclaimed]
      exact .inr .enter

theorem registry_passes (hst : Steady r) (hs : Steps.Stepped limits r b r') (htaken : id ∈ ids r.taken) :
    registryCustody r' id = registryCustody r id ∨ Passes (registryCustody r id) (registryCustody r' id) := by
  by_cases hm : id ∈ awaited r.job
  · exact admission_passes hst hs hm
  have hborn := born_kept hs hm
  cases hb : r.core.born.lookup id with
  | none =>
      have hm' : id ∉ awaited r'.job := fun hx => (awaited_step hs hx).elim hm (Withdrawal.not_waiting hst htaken)
      rw [registryCustody_unborn hb, registryCustody_unborn (hborn.trans hb), if_neg hm, if_neg hm']
      exact .inl rfl
  | some s =>
      have hsome : (r.core.born.lookup id).isSome := by rw [hb]; rfl
      rw [registryCustody_born hsome, registryCustody_born (hborn ▸ hsome)]
      by_cases hc : claimsOf r.core.claims id = []
      · rw [if_pos hc, outcomesOf_unclaimed hst hs ((claims_of_member hst hb).mp hc)]
        split
        · exact .inl rfl
        · exact .inr .claim
      · have hc' : claimsOf r'.core.claims id ≠ [] := fun hx => hc (by
          have hgrown : claimsOf r.core.claims id <+: claimsOf r'.core.claims id := claimsOf_grown (claims_step hs)
          rwa [hx, List.prefix_nil] at hgrown)
        rw [if_neg hc, if_neg hc']
        by_cases ho : outcomesOf r.core.outcomes id = 0
        · rw [if_pos ho]
          split
          · exact .inl rfl
          · exact .inr .report
        · have hle : outcomesOf r.core.outcomes id ≤ outcomesOf r'.core.outcomes id :=
            outcomesOf_grown (outcomes_extend hs)
          rw [if_neg ho, if_neg (by omega)]
          exact .inl rfl

/-- The registry moves under the controller. -/
theorem custody_registry (hw : (machine cfg limits).Reachable w) (hw' : (machine cfg limits).Reachable w')
    (hcontroller : w'.controller = w.controller)
    (hs : Steps.Stepped limits w.registry b w'.registry) :
    custody w' id = custody w id ∨ Passes (custody w id) (custody w' id) := by
  have hst := steady_of_reachable (registry_of_reachable hw)
  by_cases hh : id ∈ w.controller.engine.handed.map Handoff.id
  · have hh' : id ∈ w'.controller.engine.handed.map Handoff.id := hcontroller ▸ hh
    rw [custody_of_handed hw hh, custody_of_handed hw' hh']
    by_cases ht : id ∈ ids w.registry.taken
    · have ht' : id ∈ ids w'.registry.taken := ids_prefix (step_grown hs).taken ht
      rw [if_neg (not_not.mpr ht), if_neg (not_not.mpr ht')]
      exact registry_passes hst hs ht
    · rw [if_pos ht]
      by_cases ht' : id ∈ ids w'.registry.taken
      · obtain ⟨hm, hborn⟩ := taken_step hs ht ht'
        rw [if_neg (not_not.mpr ht'), registryCustody_unborn (hborn ▸ unborn_of_untaken hst ht), if_pos hm]
        exact .inr .take
      · rw [if_pos ht']
        exact .inl rfl
  · have hh' : id ∉ w'.controller.engine.handed.map Handoff.id := hcontroller ▸ hh
    rw [custody, custody, if_pos hh, if_pos hh', hcontroller]
    exact .inl rfl

end Registry

theorem logged_step (hs : Stepped cfg limits w a w') (hlog : Logged w id) : Logged w' id := by
  cases hs with
  | controller b c hidle hheard hstep =>
      have hgrown := log_prefix hstep
      exact ((hgrown.filterMap Driver.submission?).map Submission.id).subset hlog
  | _ => exact hlog

theorem custody_step (hw : (machine cfg limits).Reachable w) (hstep : (machine cfg limits).step w a = some w')
    (hlog : Logged w id) : custody w' id = custody w id ∨ Passes (custody w id) (custody w' id) := by
  have hw' : (machine cfg limits).Reachable w' := .next a hw hstep
  have hs := step_cases hstep
  have hlog' := logged_step hs hlog
  cases hs with
  | controller b c hidle hheard hb => exact controller_passes hw hw' hlog hlog' hb rfl
  | commit key handoff outbox caller r houtbox hcaller hcommits hr =>
      exact custody_registry hw hw' rfl (Steps.step_cases hr)
  | manage op r hidle hop hnew hr => exact custody_registry hw hw' rfl (Steps.step_cases hr)
  | registry b r hunaided hr => exact custody_registry hw hw' rfl (Steps.step_cases hr)

/-- At every moment a submission is in exactly one place of the controller or the
registry, and it moves from place to place along one way, without a step back. -/
theorem one_custody (hw : (machine cfg limits).Reachable w) (hlog : Logged w id) :
    (∃! stage, Placed w id stage) ∧ ∀ run w', (machine cfg limits).after w run = some w' →
      ∀ stage stage', Placed w id stage → Placed w' id stage' → Path stage stage' := by
  refine ⟨⟨custody w id, placed_custody hw hlog, fun stage h => (custody_of_placed hw hlog h).symm⟩, ?_⟩
  intro run w' hrun stage stage' h h'
  let kept (v : World) : Prop := Logged v id ∧ Path (custody w id) (custody v id)
  obtain ⟨hlog', hpath⟩ : kept w' := by
    refine hw.keeps (P := kept) ⟨hlog, .refl⟩ (fun v a v' hv hk hstep => ?_) hrun
    refine ⟨logged_step (step_cases hstep) hk.1, ?_⟩
    rcases custody_step hv hstep hk.1 with he | hpass
    · exact he ▸ hk.2
    · exact hk.2.tail hpass
  rw [← custody_of_placed hw hlog h, ← custody_of_placed (hw.after hrun) hlog' h']
  exact hpath

theorem one_custody_twice :
    ∃ w w', (machine tinyConfig smallConfig).after (.new tinyConfig) (deliverRun.take 2) = some w ∧
      (machine tinyConfig smallConfig).after w (deliverRun.drop 2) = some w' ∧
      (Placed w 1 .queued ∧ (∃! stage, Placed w 1 stage)) ∧ (Placed w 2 .queued ∧ (∃! stage, Placed w 2 stage)) ∧
      (Placed w' 1 .left ∧ Path .queued .left) ∧ (Placed w' 2 .rejected ∧ Path .queued .rejected) := by
  obtain ⟨w, hw, hp⟩ := (Option.any_eq_true (fun w : World => decide (
      (submissions w.controller.commands).map Submission.id = [1, 2] ∧
      (submissions w.controller.log).map Submission.id = [1, 2] ∧
      ((machine tinyConfig smallConfig).after w (deliverRun.drop 2)).any fun w' =>
        decide (outcomesOf w'.registry.core.outcomes 1 = 1 ∧ rejectedIds w'.controller.engine = [2]))) _).mp
    (show ((machine tinyConfig smallConfig).after (.new tinyConfig) (deliverRun.take 2)).any _ = true by decide +kernel)
  obtain ⟨hqueued, hlog, hp⟩ := of_decide_eq_true hp
  obtain ⟨w', hw', hq⟩ := (Option.any_eq_true _ _).mp hp
  obtain ⟨hout, hrejected⟩ := of_decide_eq_true hq
  have hreach : (machine tinyConfig smallConfig).Reachable w := .after .init hw
  have hfirst : Placed w 1 .queued := .queued (by simp [hqueued])
  have hsecond : Placed w 2 .queued := .queued (by simp [hqueued])
  have hleft : Placed w' 1 .left := .left hout
  have hturned : Placed w' 2 .rejected := .rejected (by simp [hrejected])
  obtain ⟨hone, hpath⟩ := one_custody hreach (show Logged w 1 by simp [Logged, hlog])
  obtain ⟨hone', hpath'⟩ := one_custody hreach (show Logged w 2 by simp [Logged, hlog])
  exact ⟨w, w', hw, hw', ⟨hfirst, hone⟩, ⟨hsecond, hone'⟩, ⟨hleft, hpath _ w' hw' _ _ hfirst hleft⟩,
    ⟨hturned, hpath' _ w' hw' _ _ hsecond hturned⟩⟩

end Taskvisor.System.Custody
