import Taskvisor.Registry.Fence

namespace Taskvisor.Registry.Identity

open Lib Runtime.Base Reaper State Listener Steps Gate Entries Fence

variable {cfg : RegistryConfig} {w w' : World} {a : World.Action} {c : Core} {id : TaskId}

def ids (commands : List RegistryCommand) : List TaskId := (commands.flatMap RegistryCommand.items).map AddItem.id

theorem ids_append (l l' : List RegistryCommand) : ids (l ++ l') = ids l ++ ids l' := by simp [ids]

theorem mem_ids {l : List RegistryCommand} : id ∈ ids l ↔ ∃ command ∈ l, ∃ item ∈ command.items, item.id = id := by
  simp only [ids, List.mem_map, List.mem_flatMap]
  constructor
  · rintro ⟨item, ⟨command, hc, hi⟩, he⟩
    exact ⟨command, hc, item, hi, he⟩
  · rintro ⟨command, hc, item, hi, he⟩
    exact ⟨item, ⟨command, hc, hi⟩, he⟩

theorem command_ids (call : Call) (key : Nat) (latch : RemovalCompletion) :
    ids [call.command key latch] = call.items.map AddItem.id := by
  cases call <;> simp [ids, Call.command, Call.items, RegistryCommand.items, Function.comp_def]

/-- An identity comes with one command. -/
theorem command_of_id {l : List RegistryCommand} (h : (ids l).Nodup) {c₁ c₂ : RegistryCommand}
    (h₁ : c₁ ∈ l) (h₂ : c₂ ∈ l) (hid₁ : id ∈ c₁.items.map AddItem.id) (hid₂ : id ∈ c₂.items.map AddItem.id) :
    c₁ = c₂ := by
  induction l with
  | nil => cases h₁
  | cons c l ih =>
      have hcons : ids (c :: l) = c.items.map AddItem.id ++ ids l := by simp [ids]
      rw [hcons, List.nodup_append] at h
      obtain ⟨-, hl, happart⟩ := h
      have htail {d : RegistryCommand} (hd : d ∈ l) (hid : id ∈ d.items.map AddItem.id) : id ∈ ids l := by
        obtain ⟨item, hitem, rfl⟩ := List.mem_map.mp hid
        exact mem_ids.mpr ⟨d, hd, item, hitem, rfl⟩
      rcases List.mem_cons.mp h₁ with rfl | hl₁ <;> rcases List.mem_cons.mp h₂ with rfl | hl₂
      · rfl
      · exact absurd rfl (happart id hid₁ id (htail hl₂ hid₂))
      · exact absurd rfl (happart id hid₂ id (htail hl₁ hid₁))
      · exact ih hl hl₁ hl₂

/-- Identities come from one counter: each is sent at most once, and the calls
that have not sent hold others. -/
structure Identified (w : World) : Prop where
  seen : ∀ id ∈ ids w.sent, id ∈ w.seen
  nodup : (ids w.sent).Nodup
  unsent : ∀ k caller, w.callers.lookup k = some caller → .send ∈ caller.todo →
    (caller.call.items.map AddItem.id).Nodup ∧ ∀ id ∈ caller.call.items.map AddItem.id, id ∈ w.seen ∧ id ∉ ids w.sent
  apart : ∀ k k' caller caller', w.callers.lookup k = some caller → w.callers.lookup k' = some caller' →
    .send ∈ caller.todo → .send ∈ caller'.todo → k ≠ k' →
      ∀ id ∈ caller.call.items.map AddItem.id, id ∉ caller'.call.items.map AddItem.id

theorem Identified.new : Identified World.new := by
  refine ⟨fun id hm => ?_, List.nodup_nil, fun k caller hk => ?_, fun k k' caller caller' hk => ?_⟩
  · cases hm
  · simp [World.new] at hk
  · simp [World.new] at hk

/-- Calls move on or end; nothing is sent. -/
theorem Identified.congr (h : Identified w) (hsent : w'.sent = w.sent) (hseen : w'.seen = w.seen)
    (hcallers : ∀ k caller, w'.callers.lookup k = some caller → .send ∈ caller.todo →
      ∃ old, w.callers.lookup k = some old ∧ .send ∈ old.todo ∧ caller.call = old.call) : Identified w' where
  seen := by rw [hsent, hseen]; exact h.seen
  nodup := by rw [hsent]; exact h.nodup
  unsent := by
    intro k caller hk hm
    obtain ⟨old, ho, hom, he⟩ := hcallers k caller hk hm
    rw [hsent, hseen, he]
    exact h.unsent k old ho hom
  apart := by
    intro k k' caller caller' hk hk' hm hm' hne
    obtain ⟨old, ho, hom, he⟩ := hcallers k caller hk hm
    obtain ⟨old', ho', hom', he'⟩ := hcallers k' caller' hk' hm'
    rw [he, he']
    exact h.apart k k' old old' ho ho' hom hom' hne

theorem Identified.begin (h : Identified w) (call : Call) (hnodup : (call.items.map AddItem.id).Nodup)
    (hfresh : ∀ id ∈ call.items.map AddItem.id, id ∉ w.seen) :
    Identified { w with
      callers := w.callers.insert w.nextCaller ⟨call, call.script, false⟩
      nextCaller := w.nextCaller + 1
      seen := w.seen ++ call.items.map AddItem.id } := by
  have hlook : ∀ k caller, (w.callers.insert w.nextCaller ⟨call, call.script, false⟩).lookup k = some caller →
      k = w.nextCaller ∧ caller.call = call ∨ k ≠ w.nextCaller ∧ w.callers.lookup k = some caller := by
    intro k caller hk
    obtain ⟨he, rfl⟩ | hk := Table.of_lookup_insert hk
    · exact .inl ⟨he, rfl⟩
    · exact .inr hk
  refine ⟨fun id hm => List.mem_append_left _ (h.seen id hm), h.nodup, fun k caller hk hm => ?_,
    fun k k' caller caller' hk hk' hm hm' hne id hid hid' => ?_⟩
  · rcases hlook k caller hk with ⟨-, rfl⟩ | ⟨-, ho⟩
    · exact ⟨hnodup, fun id hid => ⟨List.mem_append_right _ hid, fun hs => hfresh id hid (h.seen id hs)⟩⟩
    · obtain ⟨hn, hu⟩ := h.unsent k caller ho hm
      exact ⟨hn, fun id hid => ⟨List.mem_append_left _ (hu id hid).1, (hu id hid).2⟩⟩
  · rcases hlook k caller hk with ⟨he, hcall⟩ | ⟨-, ho⟩
    · rcases hlook k' caller' hk' with ⟨he', -⟩ | ⟨-, ho'⟩
      · exact hne (he.trans he'.symm)
      · rw [hcall] at hid
        exact hfresh id hid ((h.unsent k' caller' ho' hm').2 id hid').1
    · rcases hlook k' caller' hk' with ⟨-, hcall'⟩ | ⟨-, ho'⟩
      · rw [hcall'] at hid'
        exact hfresh id hid' ((h.unsent k caller ho hm).2 id hid).1
      · exact h.apart k k' caller caller' ho ho' hm hm' hne id hid hid'

theorem Identified.call (h : Identified w) (hg : Gated w) {key : Nat} {caller : Caller}
    (hk : w.callers.lookup key = some caller) (hs : Called w key caller w') : Identified w' := by
  have hmove {v : World} (hv : Called w key caller v) (hsent : v.sent = w.sent) (hseen : v.seen = w.seen) : Identified v := by
    refine h.congr hsent hseen fun k c hc hm => ?_
    rcases hv.callers hc with ⟨-, ho⟩ | ⟨rfl, hcall, instr, htodo⟩
    · exact ⟨c, ho, hm, rfl⟩
    · exact ⟨caller, hk, by rw [htodo]; exact List.mem_cons_of_mem _ hm, hcall⟩
  cases hs with
  | ended permits htodo => exact hmove (.ended permits htodo) rfl rfl
  | moved instr todo permit permits htodo h1 h2 h3 => exact hmove (.moved instr todo permit permits htodo h1 h2 h3) rfl rfl
  | entered todo htodo h1 h2 => exact hmove (.entered todo htodo h1 h2) rfl rfl
  | left todo htodo => exact hmove (.left todo htodo) rfl rfl
  | sent todo permits htodo =>
      obtain ⟨-, rfl⟩ := hg.at_send hk htodo
      have hpend : Instr.send ∈ caller.todo := by rw [htodo]; exact List.mem_cons_self
      obtain ⟨hn, hu⟩ := h.unsent key caller hk hpend
      have hids : ids (w.sent ++ [caller.call.command key w.nextLatch]) =
          ids w.sent ++ caller.call.items.map AddItem.id := by
        rw [ids_append, command_ids]
      have hlook : ∀ k c, (w.callers.insert key { caller with todo := [.leave], permit := false }).lookup k = some c →
          .send ∈ c.todo → k ≠ key ∧ w.callers.lookup k = some c := by
        intro k c hc hm
        obtain ⟨-, rfl⟩ | hc := Table.of_lookup_insert hc
        · simp at hm
        · exact hc
      refine ⟨fun id hm => ?_, ?_, fun k c hc hm => ?_, fun k k' c c' hc hc' hm hm' hne => ?_⟩
      · change id ∈ ids (w.sent ++ [_]) at hm
        rw [hids, List.mem_append] at hm
        exact hm.elim (h.seen id) fun hx => (hu id hx).1
      · change (ids (w.sent ++ [_])).Nodup
        rw [hids, List.nodup_append]
        exact ⟨h.nodup, hn, fun i hi j hj he => (hu j hj).2 (he ▸ hi)⟩
      · obtain ⟨hne, ho⟩ := hlook k c hc hm
        obtain ⟨hcn, hcu⟩ := h.unsent k c ho hm
        refine ⟨hcn, fun id hid => ⟨(hcu id hid).1, fun hx => ?_⟩⟩
        change id ∈ ids (w.sent ++ [_]) at hx
        rw [hids, List.mem_append] at hx
        exact hx.elim (hcu id hid).2 (h.apart k key c caller ho hk hm hpend hne id hid)
      · exact h.apart k k' c c' (hlook k c hc hm).2 (hlook k' c' hc' hm').2 hm hm' hne

theorem Identified.step (h : Identified w) (hg : Gated w) (hs : Stepped cfg w a w') : Identified w' := by
  have hsame {v : World} (hsent : v.sent = w.sent) (hseen : v.seen = w.seen) (hcallers : v.callers = w.callers) :
      Identified v :=
    h.congr hsent hseen fun k c hc hm => ⟨c, hcallers ▸ hc, hm, rfl⟩
  cases hs with
  | begin call hnodup hfresh => exact h.begin call hnodup hfresh
  | call key caller v hk hcall => exact h.call hg hk hcall
  | giveUp key caller permits hk _ =>
      refine h.congr rfl rfl fun k c hc hm => ?_
      exact ⟨c, (Table.of_lookup_erase hc).2, hm, rfl⟩
  | shutdownStep instr todo v htodo hstep => cases shutdownStep_cases hstep <;> exact hsame rfl rfl rfl
  | listen branch v hjob hlisten => cases hlisten <;> exact hsame rfl rfl rfl
  | work job v hjob hwork => exact hsame hwork.frame.sent hwork.frame.seen hwork.frame.callers
  | _ => exact hsame rfl rfl rfl

/-- The tasks of an admission before their actors are prepared. -/
def requested : Option Job → List AddItem
  | some (.names req) | some (.limit req _) | some (.prepare req) => req.items
  | _ => []

/-- The tasks of an admission after that and before they are inserted. -/
def prepared : Option Job → List PreparedRegistration
  | some (.lockedNames reg) | some (.lockedLimit reg) => reg.items
  | _ => []

theorem insertAll_born {items : List PreparedRegistration} {s : PreparedRegistration}
    (h : (c.insertAll items).born.lookup id = some s) : c.born.lookup id = some s ∨ s ∈ items ∧ s.id = id := by
  induction items generalizing c with
  | nil => exact .inl h
  | cons item items ih =>
      rcases ih (c := c.insertEntry item) h with hb | ⟨hm, he⟩
      · obtain ⟨hi, rfl⟩ | ⟨-, hb⟩ := Table.of_lookup_insert hb
        · exact .inr ⟨List.mem_cons_self, hi.symm⟩
        · exact .inl hb
      · exact .inr ⟨List.mem_cons_of_mem _ hm, he⟩

theorem insertAll_keep {items : List PreparedRegistration} (h : ∀ p ∈ items, p.id ≠ id) :
    (c.insertAll items).born.lookup id = c.born.lookup id := by
  induction items generalizing c with
  | nil => rfl
  | cons item items ih =>
      have hne : id ≠ item.id := (h item List.mem_cons_self).symm
      exact (ih (c := c.insertEntry item) fun p hp => h p (List.mem_cons_of_mem _ hp)).trans (AList.lookup_insert_ne hne)

theorem insertAll_lookup {items : List PreparedRegistration} {s : PreparedRegistration}
    (hids : (items.map PreparedRegistration.id).Nodup) (hm : s ∈ items) : (c.insertAll items).born.lookup s.id = some s := by
  induction items generalizing c with
  | nil => cases hm
  | cons item items ih =>
      rw [List.map_cons, List.nodup_cons] at hids
      rcases List.mem_cons.mp hm with rfl | hm
      · have hne : ∀ p ∈ items, p.id ≠ s.id := fun p hp he => hids.1 (he ▸ List.mem_map_of_mem hp)
        exact (insertAll_keep hne).trans (AList.lookup_insert _)
      · exact ih hids.2 hm

/-- An untracked task gets a latch of its own, a tracked one keeps its latch. -/
theorem prepareItems_spec (latch : RemovalCompletion) (items : List AddItem) :
    (World.prepareItems latch items).1.map PreparedRegistration.id = items.map AddItem.id ∧
    latch ≤ (World.prepareItems latch items).2 ∧
    (∀ p ∈ (World.prepareItems latch items).1, ∃ item ∈ items, item.id = p.id ∧ item.name = p.name ∧
      (item.completion = some p.completion ∨
        item.completion = none ∧ latch ≤ p.completion ∧ p.completion < (World.prepareItems latch items).2)) ∧
    (∀ p ∈ (World.prepareItems latch items).1, ∀ p' ∈ (World.prepareItems latch items).1, latch ≤ p.completion →
      p.completion = p'.completion → p.id = p'.id ∨ ∃ item ∈ items, item.completion = some p.completion) := by
  induction items generalizing latch with
  | nil => exact ⟨rfl, Nat.le_refl _, (fun _ hp => nomatch hp), (fun _ hp => nomatch hp)⟩
  | cons item items ih =>
      cases hc : item.completion with
      | some completion =>
          obtain ⟨hids, hle, hspec, hdist⟩ := ih latch
          have heq : World.prepareItems latch (item :: items) =
              (⟨item.id, item.name, item.done, completion⟩ :: (World.prepareItems latch items).1,
                (World.prepareItems latch items).2) := by
            simp [World.prepareItems, hc]
          rw [heq]
          refine ⟨by simp [hids], hle, fun p hp => ?_, fun p hp p' hp' hl he => ?_⟩
          · rcases List.mem_cons.mp hp with rfl | hp
            · exact ⟨item, List.mem_cons_self, rfl, rfl, .inl hc⟩
            · obtain ⟨i, hi, hx⟩ := hspec p hp
              exact ⟨i, List.mem_cons_of_mem _ hi, hx⟩
          · rcases List.mem_cons.mp hp with rfl | hp
            · exact .inr ⟨item, List.mem_cons_self, hc⟩
            · rcases List.mem_cons.mp hp' with rfl | hp'
              · exact .inr ⟨item, List.mem_cons_self, by rw [hc, he]⟩
              · rcases hdist p hp p' hp' hl he with hx | ⟨i, hi, hx⟩
                · exact .inl hx
                · exact .inr ⟨i, List.mem_cons_of_mem _ hi, hx⟩
      | none =>
          obtain ⟨hids, hle, hspec, hdist⟩ := ih (latch + 1)
          have heq : World.prepareItems latch (item :: items) =
              (⟨item.id, item.name, item.done, latch⟩ :: (World.prepareItems (latch + 1) items).1,
                (World.prepareItems (latch + 1) items).2) := by
            simp [World.prepareItems, hc]
          rw [heq]
          have hfirst : ∀ p ∈ (World.prepareItems (latch + 1) items).1, p.completion = latch →
              ∃ i ∈ item :: items, i.completion = some p.completion := by
            intro p hp he
            obtain ⟨i, hi, -, -, hx | ⟨-, hlt, -⟩⟩ := hspec p hp
            · exact ⟨i, List.mem_cons_of_mem _ hi, hx⟩
            · rw [he] at hlt
              exact absurd hlt (Nat.not_succ_le_self _)
          refine ⟨by simp [hids], Nat.le_of_succ_le hle, fun p hp => ?_, fun p hp p' hp' hl he => ?_⟩
          · rcases List.mem_cons.mp hp with rfl | hp
            · exact ⟨item, List.mem_cons_self, rfl, rfl, .inr ⟨hc, Nat.le_refl _, hle⟩⟩
            · obtain ⟨i, hi, h1, h2, hx⟩ := hspec p hp
              exact ⟨i, List.mem_cons_of_mem _ hi, h1, h2, hx.imp (fun he => he) fun ⟨h3, h4, h5⟩ => ⟨h3, Nat.le_of_succ_le h4, h5⟩⟩
          · rcases List.mem_cons.mp hp with rfl | hp
            · rcases List.mem_cons.mp hp' with rfl | hp'
              · exact .inl rfl
              · obtain ⟨i, hi, hx⟩ := hfirst p' hp' he.symm
                exact .inr ⟨i, hi, by rw [hx, ← he]⟩
            · rcases List.mem_cons.mp hp' with rfl | hp'
              · exact .inr (hfirst p hp he)
              · by_cases hlt : latch + 1 ≤ p.completion
                · rcases hdist p hp p' hp' hlt he with hx | ⟨i, hi, hx⟩
                  · exact .inl hx
                  · exact .inr ⟨i, List.mem_cons_of_mem _ hi, hx⟩
                · exact .inr (hfirst p hp (Nat.le_antisymm (Nat.le_of_not_lt hlt) hl))

/-- What the listener holds of the commands it took: members have come with
one of them, and the tasks of the admission at work are not members yet. -/
structure Incoming (w : World) : Prop where
  born : ∀ id s, w.core.born.lookup id = some s → id ∈ ids w.taken
  requests : ∀ item ∈ requested w.job, w.core.born.lookup item.id = none ∧ ∃ command ∈ w.taken, item ∈ command.items
  requests_nodup : ((requested w.job).map AddItem.id).Nodup
  prepares : ∀ item ∈ prepared w.job, w.core.born.lookup item.id = none ∧ item.id ∈ ids w.taken
  prepares_nodup : ((prepared w.job).map PreparedRegistration.id).Nodup

theorem Incoming.new : Incoming World.new := by
  refine ⟨fun id s hs => ?_, fun item hi => (nomatch hi), List.nodup_nil, fun item hi => (nomatch hi), List.nodup_nil⟩
  simp [World.new, Core.new] at hs

/-- No admission is at work any more, or it stands where it stood. -/
theorem Incoming.congr (h : Incoming w) (htaken : w'.taken = w.taken) (hborn : w'.core.born = w.core.born)
    (hreq : requested w'.job = [] ∨ requested w'.job = requested w.job)
    (hprep : prepared w'.job = [] ∨ prepared w'.job = prepared w.job) : Incoming w' where
  born := by rw [htaken, hborn]; exact h.born
  requests := by
    rw [htaken, hborn]
    rcases hreq with he | he <;> rw [he]
    · exact fun _ hi => nomatch hi
    · exact h.requests
  requests_nodup := by
    rcases hreq with he | he <;> rw [he]
    · exact List.nodup_nil
    · exact h.requests_nodup
  prepares := by
    rw [htaken, hborn]
    rcases hprep with he | he <;> rw [he]
    · exact fun _ hi => nomatch hi
    · exact h.prepares
  prepares_nodup := by
    rcases hprep with he | he <;> rw [he]
    · exact List.nodup_nil
    · exact h.prepares_nodup

theorem start_requested (command : RegistryCommand) : requested (some (World.start command)) = command.items := by
  cases command <;> rfl

theorem start_prepared (command : RegistryCommand) : prepared (some (World.start command)) = [] := by
  cases command <;> rfl

/-- Another command is taken: its identities are those of no member. -/
theorem Incoming.command (h : Incoming w) (hf : Fenced w) (hi : Identified w) {command : RegistryCommand}
    {rest : List RegistryCommand} {mode : Mode} (hc : w.commands = command :: rest) :
    Incoming
      { w with commands := rest, mode, job := some (World.start command), burst := 0, taken := w.taken ++ [command] } := by
  have hnodup := hi.nodup
  have hsplit : ids w.sent = ids w.taken ++ (ids [command] ++ ids rest) := by
    rw [hf.order, hc, ids_append, show command :: rest = [command] ++ rest from rfl, ids_append]
  rw [hsplit, List.nodup_append] at hnodup
  obtain ⟨-, hrest, hdis⟩ := hnodup
  have hone : ids [command] = command.items.map AddItem.id := by simp [ids]
  refine ⟨fun id s hs => ?_, fun item hm => ?_, ?_, fun item hm => ?_, ?_⟩
  · rw [ids_append]
    exact List.mem_append_left _ (h.born id s hs)
  · rw [start_requested] at hm
    refine ⟨?_, command, List.mem_append_right _ List.mem_cons_self, hm⟩
    cases hb : w.core.born.lookup item.id with
    | none => rfl
    | some s =>
        refine absurd rfl (hdis item.id (h.born _ _ hb) item.id (List.mem_append_left _ ?_))
        rw [hone]
        exact List.mem_map_of_mem hm
  · rw [start_requested, ← hone]
    exact (List.nodup_append.mp hrest).1
  · rw [start_prepared] at hm
    cases hm
  · rw [start_prepared]
    exact List.nodup_nil

theorem Incoming.work (h : Incoming w) {job : Job} (hjob : w.job = some job) (hs : Worked w job w') : Incoming w' := by
  have hsame {v : World} (htaken : v.taken = w.taken) (hborn : v.core.born = w.core.born)
      (hreq : requested v.job = [] ∨ requested v.job = requested (some job))
      (hprep : prepared v.job = [] ∨ prepared v.job = prepared (some job)) : Incoming v :=
    h.congr htaken hborn (hjob ▸ hreq) (hjob ▸ hprep)
  have hborn : w'.core.born = w.core.born ∨ ∃ reg, job = .lockedLimit reg ∧ w'.core = w.core.insertAll reg.items :=
    (work_recedes hs).imp_left Recedes.born
  cases hs with
  | prepare req =>
      obtain ⟨hids, -, hspec, -⟩ := prepareItems_spec w.nextLatch req.items
      have hreq := h.requests
      have hnodup := h.requests_nodup
      rw [hjob] at hreq hnodup
      refine ⟨h.born, (fun item hi => nomatch hi), List.nodup_nil, fun p hp => ?_, ?_⟩
      · obtain ⟨item, hi, hid, -⟩ := hspec p hp
        obtain ⟨hb, command, hc, hm⟩ := hreq item hi
        exact ⟨hid ▸ hb, mem_ids.mpr ⟨command, hc, item, hm, hid⟩⟩
      · change ((World.prepareItems w.nextLatch req.items).1.map PreparedRegistration.id).Nodup
        rw [hids]
        exact hnodup
  | insert reg =>
      have hprep := h.prepares
      rw [hjob] at hprep
      refine ⟨fun id s hs => ?_, (fun item hi => nomatch hi), List.nodup_nil, (fun item hi => nomatch hi), List.nodup_nil⟩
      rcases insertAll_born hs with hb | ⟨hm, he⟩
      · exact h.born id s hb
      · exact he ▸ (hprep s hm).2
  | names req current => exact hsame rfl rfl (.inr rfl) (.inl rfl)
  | limit req current => exact hsame rfl rfl (.inr rfl) (.inl rfl)
  | free reg hfree => exact hsame rfl rfl (.inl rfl) (.inr rfl)
  | reject | lose => exact hsame rfl rfl (.inl rfl) (.inl rfl)
  | win job target d id key core _ _ hclaim => exact hsame rfl (claim_recedes hclaim).born (.inl rfl) (.inl rfl)
  | _ =>
      rcases hborn with hb | ⟨reg, hj, -⟩
      · exact hsame rfl hb (.inl rfl) (.inl rfl)
      · cases hj

theorem Incoming.step (h : Incoming w) (hf : Fenced w) (hi : Identified w) (hs : Stepped cfg w a w') : Incoming w' := by
  have hsame {v : World} (htaken : v.taken = w.taken) (hcore : Recedes w.core v.core) (hjob : v.job = w.job) : Incoming v :=
    h.congr htaken hcore.born (.inr (by rw [hjob])) (.inr (by rw [hjob]))
  cases hs with
  | call key caller v hk hcall => cases hcall <;> exact hsame rfl (.same rfl rfl rfl rfl) rfl
  | shutdownStep instr todo v htodo hstep =>
      have hcore := shutdownStep_recedes hstep
      cases shutdownStep_cases hstep <;> exact hsame rfl hcore rfl
  | listen branch v hjob hlisten =>
      have hcore := listen_recedes hlisten
      cases hlisten with
      | command command rest mode hc hmode => exact h.command hf hi hc
      | completion id rest hmode hc => exact h.congr rfl rfl (.inl rfl) (.inl rfl)
      | _ => exact hsame rfl hcore rfl
  | work job v hjob hwork => exact h.work hjob hwork
  | owner key action o core ho hfree hcore => exact hsame rfl (stepOwner_recedes hcore) rfl
  | reap key poisoned core hcore => exact hsame rfl (stepReap_recedes hcore) rfl
  | actor id action core completions hcore => exact hsame rfl (stepActor_recedes hcore) rfl
  | _ => exact hsame rfl (.same rfl rfl rfl rfl) rfl

/-- The latch that goes with an identity: sent with its command, given to its
prepared actor, or kept by its registration. -/
def Assigned (w : World) (id : TaskId) (latch : RemovalCompletion) : Prop :=
  (∃ command ∈ w.sent, ∃ item ∈ command.items, item.id = id ∧ item.completion = some latch) ∨
    (∃ p ∈ prepared w.job, p.id = id ∧ p.completion = latch) ∨
      ∃ s, w.core.born.lookup id = some s ∧ s.completion = latch

/-- Latches are shared by no two identities, and no identity has two. -/
structure Latched (w : World) : Prop where
  bound : ∀ id latch, Assigned w id latch → latch < w.nextLatch
  injective : ∀ id id' latch, Assigned w id latch → Assigned w id' latch → id = id'
  functional : ∀ id latch latch', Assigned w id latch → Assigned w id latch' → latch = latch'

theorem Latched.new : Latched World.new := by
  have hnone : ∀ id latch, ¬ Assigned World.new id latch := by
    rintro id latch (⟨command, hm, -⟩ | ⟨p, hp, -⟩ | ⟨s, hs, -⟩)
    · cases hm
    · cases hp
    · simp [World.new, Core.new] at hs
  exact ⟨fun id l h => absurd h (hnone id l), fun id _ l h => absurd h (hnone id l), fun id l _ h => absurd h (hnone id l)⟩

theorem Latched.mono (h : Latched w) (hnext : w.nextLatch ≤ w'.nextLatch)
    (hold : ∀ id latch, Assigned w' id latch → Assigned w id latch) : Latched w' where
  bound := fun id l hl => Nat.lt_of_lt_of_le (h.bound id l (hold id l hl)) hnext
  injective := fun id id' l hl hl' => h.injective id id' l (hold _ _ hl) (hold _ _ hl')
  functional := fun id l l' hl hl' => h.functional id l l' (hold _ _ hl) (hold _ _ hl')

/-- What is assigned anew comes from the counter, one latch for one identity
that had none. -/
theorem Latched.extend (h : Latched w) (New : TaskId → RemovalCompletion → Prop) (hnext : w.nextLatch ≤ w'.nextLatch)
    (hold : ∀ id latch, Assigned w' id latch → Assigned w id latch ∨ New id latch)
    (hrange : ∀ id latch, New id latch → w.nextLatch ≤ latch ∧ latch < w'.nextLatch)
    (hinj : ∀ id id' latch, New id latch → New id' latch → id = id')
    (hfun : ∀ id latch latch', New id latch → New id latch' → latch = latch')
    (hfresh : ∀ id latch, New id latch → ∀ latch', ¬ Assigned w id latch') : Latched w' where
  bound := by
    intro id l hl
    rcases hold id l hl with hx | hx
    · exact Nat.lt_of_lt_of_le (h.bound id l hx) hnext
    · exact (hrange id l hx).2
  injective := by
    intro id id' l hl hl'
    rcases hold id l hl with hx | hx <;> rcases hold id' l hl' with hx' | hx'
    · exact h.injective id id' l hx hx'
    · exact absurd (h.bound id l hx) (Nat.not_lt.mpr (hrange id' l hx').1)
    · exact absurd (h.bound id' l hx') (Nat.not_lt.mpr (hrange id l hx).1)
    · exact hinj id id' l hx hx'
  functional := by
    intro id l l' hl hl'
    rcases hold id l hl with hx | hx <;> rcases hold id l' hl' with hx' | hx'
    · exact h.functional id l l' hx hx'
    · exact absurd hx (hfresh id l' hx' l)
    · exact absurd hx' (hfresh id l hx l')
    · exact hfun id l l' hx hx'

theorem assigned_sent (hf : Fenced w) (hc : Incoming w) {latch : RemovalCompletion} (h : Assigned w id latch) :
    id ∈ ids w.sent := by
  rw [hf.order, ids_append, List.mem_append]
  rcases h with ⟨command, hm, item, hi, rfl, -⟩ | ⟨p, hp, rfl, -⟩ | ⟨s, hs, -⟩
  · rw [hf.order, List.mem_append] at hm
    exact hm.imp (fun hm => mem_ids.mpr ⟨command, hm, item, hi, rfl⟩) fun hm => mem_ids.mpr ⟨command, hm, item, hi, rfl⟩
  · exact .inl (hc.prepares p hp).2
  · exact .inl (hc.born id s hs)

theorem nodup_item {l : List RegistryCommand} (h : (ids l).Nodup) {c₁ c₂ : RegistryCommand} {i₁ i₂ : AddItem} (h₁ : c₁ ∈ l)
    (h₂ : c₂ ∈ l) (hi₁ : i₁ ∈ c₁.items) (hi₂ : i₂ ∈ c₂.items) (he : i₁.id = i₂.id) : i₁ = i₂ :=
  List.inj_on_of_nodup_map h (List.mem_flatMap.mpr ⟨c₁, h₁, hi₁⟩) (List.mem_flatMap.mpr ⟨c₂, h₂, hi₂⟩) he

/-- The latches a command brings are those of the controller's two calls. -/
theorem command_latch {call : Call} {key : Nat} {latch : RemovalCompletion} {item : AddItem}
    (hi : item ∈ (call.command key latch).items) :
    item.completion = none ∨ call.tracked = true ∧ item.completion = some latch ∧ ids [call.command key latch] = [item.id] := by
  cases call with
  | addTask i | tryAddTask i => cases List.mem_singleton.mp hi; exact .inl rfl
  | controllerAdd i | reservedControllerAdd i => cases List.mem_singleton.mp hi; exact .inr ⟨rfl, rfl, rfl⟩
  | addBatch items =>
      obtain ⟨i, -, rfl⟩ := List.mem_map.mp hi
      exact .inl rfl
  | remove | cancel => cases hi

theorem Latched.send (h : Latched w) (hf : Fenced w) (hc : Incoming w) (hi : Identified w) {key : Nat} {caller : Caller}
    (hk : w.callers.lookup key = some caller) (hsend : Instr.send ∈ caller.todo)
    (hsent : w'.sent = w.sent ++ [caller.call.command key w.nextLatch]) (hjob : w'.job = w.job) (hcore : w'.core = w.core)
    (hnext : w'.nextLatch = if caller.call.tracked then w.nextLatch + 1 else w.nextLatch) : Latched w' := by
  let New (id : TaskId) (latch : RemovalCompletion) : Prop :=
    caller.call.tracked = true ∧ ids [caller.call.command key w.nextLatch] = [id] ∧ latch = w.nextLatch
  have hle : w.nextLatch ≤ w'.nextLatch := by
    rw [hnext]
    split
    · exact Nat.le_succ _
    · exact Nat.le_refl _
  refine h.extend New hle ?_ ?_ ?_ ?_ ?_
  · rintro id l (⟨command, hm, item, hit, he, hl⟩ | hx | hx)
    · rw [hsent, List.mem_append] at hm
      rcases hm with hm | hm
      · exact .inl (.inl ⟨command, hm, item, hit, he, hl⟩)
      · rw [List.mem_singleton.mp hm] at hit
        rcases command_latch hit with hn | ⟨ht, hs, hids⟩
        · rw [hn] at hl; cases hl
        · rw [hs] at hl
          cases hl
          exact .inr ⟨ht, he ▸ hids, rfl⟩
    · rw [hjob] at hx
      exact .inl (.inr (.inl hx))
    · rw [hcore] at hx
      exact .inl (.inr (.inr hx))
  · rintro id l ⟨ht, -, rfl⟩
    rw [hnext, if_pos ht]
    exact ⟨Nat.le_refl _, Nat.lt_succ_self _⟩
  · rintro id id' l ⟨-, he, -⟩ ⟨-, he', -⟩
    rw [he] at he'
    exact List.head_eq_of_cons_eq he'
  · rintro id l l' ⟨-, -, rfl⟩ ⟨-, -, rfl⟩
    rfl
  · rintro id l ⟨-, he, -⟩ l' hx
    rw [command_ids] at he
    exact ((hi.unsent key caller hk hsend).2 id (by rw [he]; exact List.mem_cons_self)).2 (assigned_sent hf hc hx)

theorem Latched.prepare (h : Latched w) (hf : Fenced w) (hc : Incoming w) (hi : Identified w) {req : AddRequest}
    (hjob : w.job = some (.prepare req)) :
    Latched { w with
      job := some (.lockedNames ⟨(World.prepareItems w.nextLatch req.items).1, req.reply, req.batch⟩)
      nextLatch := (World.prepareItems w.nextLatch req.items).2 } := by
  obtain ⟨-, hle, hspec, hdist⟩ := prepareItems_spec w.nextLatch req.items
  have hreq := hc.requests
  rw [hjob] at hreq
  have hsent : ∀ item ∈ req.items, ∃ command ∈ w.sent, item ∈ command.items := by
    intro item hit
    obtain ⟨-, command, hm, hx⟩ := hreq item hit
    exact ⟨command, hf.order ▸ List.mem_append_left _ hm, hx⟩
  let New (id : TaskId) (latch : RemovalCompletion) : Prop :=
    ∃ p ∈ (World.prepareItems w.nextLatch req.items).1, p.id = id ∧ p.completion = latch ∧ w.nextLatch ≤ latch ∧
      latch < (World.prepareItems w.nextLatch req.items).2 ∧ ∃ item ∈ req.items, item.id = id ∧ item.completion = none
  -- A latch that came with a command is older than every new one.
  have hold : ∀ item ∈ req.items, ∀ l, item.completion = some l → l < w.nextLatch := by
    intro item hit l hl
    obtain ⟨command, hm, hx⟩ := hsent item hit
    exact h.bound item.id l (.inl ⟨command, hm, item, hx, rfl, hl⟩)
  refine h.extend New hle ?_ ?_ ?_ ?_ ?_
  · rintro id l (hx | ⟨p, hp, rfl, rfl⟩ | hx)
    · exact .inl (.inl hx)
    · obtain ⟨item, hit, hid, -, hs | ⟨hn, hlo, hhi⟩⟩ := hspec p hp
      · obtain ⟨command, hm, hx⟩ := hsent item hit
        exact .inl (.inl ⟨command, hm, item, hx, hid, hs⟩)
      · exact .inr ⟨p, hp, rfl, rfl, hlo, hhi, item, hit, hid, hn⟩
    · exact .inl (.inr (.inr hx))
  · rintro id l ⟨p, -, -, -, hlo, hhi, -⟩
    exact ⟨hlo, hhi⟩
  · rintro id id' l ⟨p, hp, rfl, rfl, hlo, -⟩ ⟨p', hp', rfl, he, -⟩
    rcases hdist p hp p' hp' hlo he.symm with hx | ⟨item, hit, hs⟩
    · exact hx
    · exact absurd (hold item hit _ hs) (Nat.not_lt.mpr hlo)
  · rintro id l l' ⟨p, hp, rfl, rfl, -⟩ ⟨p', hp', he, rfl, -⟩
    have hn := hc.requests_nodup
    rw [hjob] at hn
    change (req.items.map AddItem.id).Nodup at hn
    rw [← (prepareItems_spec w.nextLatch req.items).1] at hn
    rw [List.inj_on_of_nodup_map hn hp hp' he.symm]
  · rintro id l ⟨-, -, -, -, -, -, item, hit, rfl, hn⟩ l' hx
    obtain ⟨command, hm, hin⟩ := hsent item hit
    rcases hx with ⟨command', hm', item', hit', he, hl⟩ | ⟨p, hp, -⟩ | ⟨s, hs, -⟩
    · rw [nodup_item hi.nodup hm' hm hit' hin he, hn] at hl
      cases hl
    · rw [hjob] at hp
      cases hp
    · rw [(hreq item hit).1] at hs
      cases hs

theorem Latched.work (h : Latched w) (hf : Fenced w) (hc : Incoming w) (hi : Identified w) {job : Job}
    (hjob : w.job = some job) (hs : Worked w job w') : Latched w' := by
  have hborn : w'.core.born = w.core.born ∨ ∃ reg, job = .lockedLimit reg ∧ w'.core = w.core.insertAll reg.items :=
    (work_recedes hs).imp_left Recedes.born
  have hsame {v : World} (hsent : v.sent = w.sent) (hcore : v.core.born = w.core.born) (hnext : v.nextLatch = w.nextLatch)
      (hprep : prepared v.job = [] ∨ prepared v.job = prepared (some job)) : Latched v := by
    refine h.mono (Nat.le_of_eq hnext.symm) ?_
    rintro id l (hx | ⟨p, hp, hx⟩ | hx)
    · exact .inl (hsent ▸ hx)
    · rcases hprep with he | he
      · rw [he] at hp; cases hp
      · exact .inr (.inl ⟨p, by rw [hjob, ← he]; exact hp, hx⟩)
    · exact .inr (.inr (hcore ▸ hx))
  cases hs with
  | prepare req => exact h.prepare hf hc hi hjob
  | insert reg =>
      refine h.mono (Nat.le_refl _) ?_
      rintro id l (hx | ⟨p, hp, -⟩ | ⟨s, hs, hl⟩)
      · exact .inl hx
      · cases hp
      · rcases insertAll_born hs with hb | ⟨hm, he⟩
        · exact .inr (.inr ⟨s, hb, hl⟩)
        · exact .inr (.inl ⟨s, by rw [hjob]; exact hm, he, hl⟩)
  | free reg hfree => exact hsame rfl rfl rfl (.inr rfl)
  | reject | lose => exact hsame rfl rfl rfl (.inl rfl)
  | win job target d id key core _ _ hclaim => exact hsame rfl (claim_recedes hclaim).born rfl (.inl rfl)
  | _ =>
      rcases hborn with hb | ⟨reg, hj, -⟩
      · exact hsame rfl hb rfl (.inl rfl)
      · cases hj

theorem Latched.step (h : Latched w) (hf : Fenced w) (hc : Incoming w) (hi : Identified w) (hs : Stepped cfg w a w') :
    Latched w' := by
  have hsame {v : World} (hsent : v.sent = w.sent) (hcore : Recedes w.core v.core) (hnext : v.nextLatch = w.nextLatch)
      (hprep : prepared v.job = [] ∨ v.job = w.job) : Latched v := by
    refine h.mono (Nat.le_of_eq hnext.symm) ?_
    rintro id l (hx | ⟨p, hp, hx⟩ | hx)
    · exact .inl (hsent ▸ hx)
    · rcases hprep with he | he
      · rw [he] at hp; cases hp
      · exact .inr (.inl ⟨p, by rw [← he]; exact hp, hx⟩)
    · exact .inr (.inr (hcore.born ▸ hx))
  cases hs with
  | call key caller v hk hcall =>
      cases hcall with
      | sent todo permits htodo =>
          exact h.send hf hc hi hk (by rw [htodo]; exact List.mem_cons_self) rfl rfl rfl rfl
      | _ => exact hsame rfl (.same rfl rfl rfl rfl) rfl (.inr rfl)
  | shutdownStep instr todo v htodo hstep =>
      have hcore := shutdownStep_recedes hstep
      cases shutdownStep_cases hstep <;> exact hsame rfl hcore rfl (.inr rfl)
  | listen branch v hjob hlisten =>
      have hcore := listen_recedes hlisten
      cases hlisten with
      | command command rest mode hcm hmode => exact hsame rfl hcore rfl (.inl (start_prepared command))
      | completion id rest hmode hcm => exact hsame rfl hcore rfl (.inl rfl)
      | _ => exact hsame rfl hcore rfl (.inr rfl)
  | work job v hjob hwork => exact h.work hf hc hi hjob hwork
  | owner key action o core ho hfree hcore => exact hsame rfl (stepOwner_recedes hcore) rfl (.inr rfl)
  | reap key poisoned core hcore => exact hsame rfl (stepReap_recedes hcore) rfl (.inr rfl)
  | actor id action core completions hcore => exact hsame rfl (stepActor_recedes hcore) rfl (.inr rfl)
  | _ => exact hsame rfl (.same rfl rfl rfl rfl) rfl (.inr rfl)

end Taskvisor.Registry.Identity
