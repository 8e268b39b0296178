import Taskvisor.Registry.Entries
import Taskvisor.Registry.Gate

namespace Taskvisor.Registry.Fence

open Lib Runtime.Base Reaper State Listener Steps Gate Entries

variable {cfg : RegistryConfig} {w w' : World} {a : World.Action}

/-- A call sends at most once, and its reply tells its command from others. -/
structure Numbered (w : World) : Prop where
  keys : ∀ command ∈ w.sent, command.reply < w.nextCaller
  unsent : ∀ k caller, w.callers.lookup k = some caller → (∃ command ∈ w.sent, command.reply = k) →
    caller.todo = [] ∨ caller.todo = [.leave]
  once : (w.sent.map RegistryCommand.reply).Nodup

theorem Numbered.new : Numbered World.new := by
  refine ⟨fun command hm => ?_, fun k caller hk => ?_, List.nodup_nil⟩
  · cases hm
  · simp [World.new] at hk

/-- Nothing is sent and calls only end. -/
theorem Numbered.congr (h : Numbered w) (hsent : w'.sent = w.sent) (hnext : w'.nextCaller = w.nextCaller)
    (hcallers : ∀ k caller, w'.callers.lookup k = some caller → w.callers.lookup k = some caller) : Numbered w' where
  keys := by rw [hsent, hnext]; exact h.keys
  unsent := by
    intro k caller hk
    rw [hsent]
    exact h.unsent k caller (hcallers k caller hk)
  once := by rw [hsent]; exact h.once

theorem command_reply (c : Call) (key : Nat) (latch : RemovalCompletion) : (c.command key latch).reply = key := by
  cases c <;> rfl

theorem Numbered.call (h : Numbered w) (hg : Gated w) {key : Nat} {caller : Caller}
    (hk : w.callers.lookup key = some caller) (hs : Called w key caller w') : Numbered w' := by
  -- A call that moves has not sent, unless all that is left is to leave the gate.
  have hmove {v : World} (hv : Called w key caller v) (hsent : v.sent = w.sent) (hnext : v.nextCaller = w.nextCaller) :
      Numbered v := by
    refine ⟨by rw [hsent, hnext]; exact h.keys, fun k c hc hm => ?_, by rw [hsent]; exact h.once⟩
    rw [hsent] at hm
    rcases hv.callers hc with ⟨-, ho⟩ | ⟨rfl, -, instr, htodo⟩
    · exact h.unsent k c ho hm
    · rcases h.unsent k caller hk hm with he | he
      · rw [he] at htodo; cases htodo
      · rw [he] at htodo; exact .inl (List.cons.inj htodo).2.symm
  cases hs with
  | sent todo permits htodo =>
      obtain ⟨-, rfl⟩ := hg.at_send hk htodo
      have hnew : ¬ ∃ command ∈ w.sent, command.reply = key := by
        intro hm
        rcases h.unsent key caller hk hm with he | he
        · rw [he] at htodo; cases htodo
        · rw [he] at htodo; cases htodo
      refine ⟨fun command hm => ?_, fun k c hc hm => ?_, ?_⟩
      · rcases List.mem_append.mp hm with hm | hm
        · exact h.keys command hm
        · rw [List.mem_singleton.mp hm, command_reply]
          exact hg.keys key caller hk
      · obtain ⟨-, rfl⟩ | ⟨hne, hc⟩ := Table.of_lookup_insert hc
        · exact .inr rfl
        · obtain ⟨command, hm, rfl⟩ := hm
          rcases List.mem_append.mp hm with hm | hm
          · exact h.unsent _ c hc ⟨command, hm, rfl⟩
          · rw [List.mem_singleton.mp hm, command_reply] at hne
            exact absurd rfl hne
      · change ((w.sent ++ [_]).map RegistryCommand.reply).Nodup
        rw [List.map_append, List.nodup_append]
        refine ⟨h.once, List.nodup_singleton _, fun r hr r' hr' => ?_⟩
        obtain ⟨command, hm, rfl⟩ := List.mem_map.mp hr
        rw [List.map_singleton, List.mem_singleton, command_reply] at hr'
        exact fun he => hnew ⟨command, hm, he.trans hr'⟩
  | ended permits htodo => exact hmove (.ended permits htodo) rfl rfl
  | moved instr todo permit permits htodo h1 h2 h3 => exact hmove (.moved instr todo permit permits htodo h1 h2 h3) rfl rfl
  | entered todo htodo h1 h2 => exact hmove (.entered todo htodo h1 h2) rfl rfl
  | left todo htodo => exact hmove (.left todo htodo) rfl rfl

theorem Numbered.step (h : Numbered w) (hg : Gated w) (hs : Stepped cfg w a w') : Numbered w' := by
  cases hs with
  | begin c =>
      refine ⟨fun command hm => Nat.lt_succ_of_lt (h.keys command hm), fun k caller hk hm => ?_, h.once⟩
      obtain ⟨he, -⟩ | ⟨-, hk⟩ := Table.of_lookup_insert hk
      · obtain ⟨command, hm, hr⟩ := hm
        exact absurd (he ▸ hr ▸ h.keys command hm) (Nat.lt_irrefl _)
      · exact h.unsent k caller hk hm
  | call key caller v hk hcall => exact h.call hg hk hcall
  | giveUp key caller permits hk _ =>
      exact h.congr rfl rfl fun _ _ hc => (Table.of_lookup_erase hc).2
  | shutdownStep instr todo v htodo hstep =>
      cases shutdownStep_cases hstep <;> exact h.congr rfl rfl fun _ _ hc => hc
  | listen branch v hjob hlisten => cases hlisten <;> exact h.congr rfl rfl fun _ _ hc => hc
  | work job v hjob hwork =>
      exact h.congr hwork.frame.sent hwork.frame.nextCaller fun k c hc => hwork.frame.callers ▸ hc
  | _ => exact h.congr rfl rfl fun _ _ hc => hc

/-- The loop has ended, or a fence is being handled. -/
def stopped : Mode → Bool
  | .looping | .selecting => false
  | _ => true

/-- The command channel has been drained for good. -/
def emptied : Mode → Bool
  | .controls | .drainFencing _ | .cancelling | .joining | .waiting | .exited => true
  | _ => false

/-- Fences and the end of the loop come after the flag, commands are handled in
the order of the channel, and an acknowledged fence has seen the last one. -/
structure Fenced (w : World) : Prop where
  cancelled : w.runtimeCancelled = true → w.shuttingDown = true
  controls : w.controls ≠ [] → w.shuttingDown = true
  stopped : stopped w.mode = true → w.shuttingDown = true
  order : w.sent = w.taken ++ w.commands
  answered : owed w = w.taken.map RegistryCommand.reply
  acked : w.acks ≠ [] → w.shuttingDown = true
  drained : w.acks ≠ [] ∨ emptied w.mode = true → w.commands = [] ∧ ∀ job, w.job = some job → isCommand job = false
  claims : ∀ todo, w.shutdown = some todo → w.acks ≠ [] ∨ claimsFenced todo = true

theorem stopped_of_emptied {mode : Mode} (h : emptied mode = true) : stopped mode = true := by
  cases mode <;> first | rfl | cases h

theorem Fenced.marked (h : Fenced w) (hd : w.acks ≠ [] ∨ emptied w.mode = true) : w.shuttingDown = true :=
  hd.elim h.acked fun he => h.stopped (stopped_of_emptied he)

theorem Fenced.new : Fenced World.new where
  cancelled := fun hx => nomatch hx
  controls := fun hx => absurd rfl hx
  stopped := fun hx => nomatch hx
  order := rfl
  answered := rfl
  acked := fun hx => absurd rfl hx
  drained := fun hx => hx.elim (fun hx => absurd rfl hx) (fun hx => nomatch hx)
  claims := fun _ hx => nomatch hx

/-- The handler moves on, or something outside the listener does. -/
theorem Fenced.frame (h : Fenced w) (hf : Frame w w') (howed : owed w' = owed w)
    (hjob : (∀ job, w.job = some job → isCommand job = false) → ∀ job, w'.job = some job → isCommand job = false) :
    Fenced w' where
  cancelled := by rw [hf.runtimeCancelled, hf.shuttingDown]; exact h.cancelled
  controls := by rw [hf.controls, hf.shuttingDown]; exact h.controls
  stopped := by rw [hf.mode, hf.shuttingDown]; exact h.stopped
  order := by rw [hf.sent, hf.taken, hf.commands]; exact h.order
  answered := by rw [howed, hf.taken]; exact h.answered
  acked := by rw [hf.acks, hf.shuttingDown]; exact h.acked
  drained := by
    rw [hf.acks, hf.mode, hf.commands]
    exact fun hd => ⟨(h.drained hd).1, hjob (h.drained hd).2⟩
  claims := by rw [hf.shutdown, hf.acks]; exact h.claims

/-- Only callers, permits and the gate change. -/
theorem Fenced.outside (h : Fenced w) (callers : Table Nat Caller) (nextCaller permits : Nat) (gate : Option GateHolder)
    (seen : List TaskId) : Fenced { w with callers, nextCaller, permits, gate, seen } :=
  ⟨h.cancelled, h.controls, h.stopped, h.order, h.answered, h.acked, h.drained, h.claims⟩

theorem Fenced.call (h : Fenced w) (hg : Gated w) {key : Nat} {caller : Caller}
    (hk : w.callers.lookup key = some caller) (hs : Called w key caller w') : Fenced w' := by
  cases hs with
  | ended permits => exact h.outside _ _ permits _ _
  | moved instr todo permit permits => exact h.outside _ _ permits _ _
  | entered todo => exact h.outside _ _ _ _ _
  | left todo => exact h.outside _ _ _ _ _
  | sent todo permits htodo =>
      have hopen : w.shuttingDown ≠ true := fun hf => hg.exclusive hf key (hg.at_send hk htodo).1
      refine ⟨h.cancelled, h.controls, h.stopped, ?_, h.answered, h.acked, fun hd => absurd (h.marked hd) hopen, h.claims⟩
      change w.sent ++ [_] = w.taken ++ (w.commands ++ [_])
      rw [h.order, List.append_assoc]

/-- The listener takes the oldest command: it is not drained. -/
theorem Fenced.command (h : Fenced w) (hjob : w.job = none) {command : RegistryCommand} {rest : List RegistryCommand}
    {mode : Mode} (hc : w.commands = command :: rest) (hmode : mode = w.mode ∨ w.mode = .selecting ∧ mode = .looping) :
    Fenced
      { w with commands := rest, mode, job := some (World.start command), burst := 0, taken := w.taken ++ [command] } := by
  have hbusy : ¬ (w.acks ≠ [] ∨ emptied w.mode = true) := by
    intro hd
    rw [(h.drained hd).1] at hc
    cases hc
  refine ⟨h.cancelled, h.controls, fun hst => ?_, ?_, ?_, h.acked, fun hd => absurd ?_ hbusy, h.claims⟩
  · rcases hmode with rfl | ⟨-, rfl⟩
    · exact h.stopped hst
    · cases hst
  · change w.sent = (w.taken ++ [command]) ++ rest
    rw [h.order, hc, List.append_assoc]
    rfl
  · have hold := h.answered
    rw [owed, hjob] at hold
    change w.replies.map Decision.reply ++ (unanswered (World.start command)).toList = (w.taken ++ [command]).map _
    rw [List.map_append, ← hold]
    cases command <;> simp [World.start, unanswered, RegistryCommand.reply]
  · refine hd.imp id fun he => ?_
    rcases hmode with rfl | ⟨-, rfl⟩
    · exact he
    · cases he

theorem Fenced.listen (h : Fenced w) (hjob : w.job = none) (hs : Listened w w') : Fenced w' := by
  -- With no handler at work the channel alone decides what is drained.
  have hempty (hc : w.commands = []) : w.commands = [] ∧ ∀ job, w.job = some job → isCommand job = false := by
    refine ⟨hc, fun job hj => ?_⟩
    rw [hjob] at hj
    cases hj
  have hstay (hm : emptied w.mode = true) : w.commands = [] ∧ ∀ job, w.job = some job → isCommand job = false :=
    h.drained (.inr hm)
  cases hs with
  | close hcancelled =>
      refine ⟨h.cancelled, h.controls, fun _ => h.cancelled hcancelled, h.order, h.answered, h.acked, fun hd => ?_, h.claims⟩
      exact h.drained (hd.imp id fun hx => nomatch hx)
  | select hmode burst =>
      refine ⟨h.cancelled, h.controls, (fun hx => nomatch hx), h.order, h.answered, h.acked, fun hd => ?_, h.claims⟩
      exact h.drained (hd.imp id fun hx => nomatch hx)
  | control fence rest mode hcontrols hmode =>
      have hflag : w.shuttingDown = true := h.controls (by rw [hcontrols]; exact fun hx => nomatch hx)
      refine ⟨h.cancelled, fun _ => hflag, fun _ => hflag, h.order, h.answered, h.acked, fun hd => ?_, h.claims⟩
      rcases hmode with ⟨-, rfl⟩ | ⟨hm, -⟩
      · exact h.drained (hd.imp id fun hx => nomatch hx)
      · exact hstay (by rw [hm]; rfl)
  | command command rest mode hc hmode => exact h.command hjob hc hmode
  | completion id rest hmode hc =>
      refine ⟨h.cancelled, h.controls, (fun hx => nomatch hx), h.order, ?_, h.acked, fun hd => ?_, h.claims⟩
      · have hold := h.answered
        rw [owed, hjob] at hold
        exact hold
      · refine ⟨(h.drained (hd.imp (fun hx => hx) fun hx => nomatch hx)).1, fun job hj => ?_⟩
        cases hj
        rfl
  | ack fence mode hc hmode =>
      have hflag : w.shuttingDown = true := h.stopped (by rcases hmode with ⟨hm, -⟩ | ⟨hm, -⟩ <;> rw [hm] <;> rfl)
      exact ⟨h.cancelled, h.controls, fun _ => hflag, h.order, h.answered, fun _ => hflag, fun _ => hempty hc,
        fun todo ht => .inl (by simp)⟩
  | drained hmode hc =>
      have hflag : w.shuttingDown = true := h.stopped (by rw [hmode]; rfl)
      exact ⟨h.cancelled, h.controls, fun _ => hflag, h.order, h.answered, h.acked, fun _ => hempty hc, h.claims⟩
  | claim hmode | cancel hmode | joined hmode | exit hmode =>
      have hm : emptied w.mode = true := by rw [hmode]; rfl
      exact ⟨h.cancelled, h.controls, fun _ => h.marked (.inr hm), h.order, h.answered, h.acked, fun _ => hstay hm, h.claims⟩

/-- The shutdown owner moves on. -/
theorem Fenced.reshut (h : Fenced w) (todo : List ShutdownInstr) (hc : w.acks ≠ [] ∨ claimsFenced todo = true)
    (core : Core) (gate : Option GateHolder) : Fenced { w with core, gate, shutdown := some todo } := by
  refine ⟨h.cancelled, h.controls, h.stopped, h.order, h.answered, h.acked, h.drained, fun t ht => ?_⟩
  cases ht
  exact hc

theorem Fenced.shutdownStep (h : Fenced w) (hg : Gated w) {instr : ShutdownInstr} {todo : List ShutdownInstr}
    (hs : w.shutdown = some (instr :: todo)) (hstep : w.shutdownStep instr todo = some w') : Fenced w' := by
  have hold := h.claims _ hs
  cases shutdownStep_cases hstep with
  | store =>
      have hnext := h.reshut todo hold w.core w.gate
      exact { hnext with
        cancelled := fun _ => rfl
        controls := fun _ => rfl
        stopped := fun _ => rfl
        acked := fun _ => rfl }
  | closed => exact h.reshut _ (.inr rfl) _ _
  | fence =>
      obtain ⟨-, -, hflag⟩ := hg.past_mark hs (by decide) (by decide) (by decide)
      have hnext := h.reshut (.awaitFence w.nextFence :: todo) (.inr rfl) w.core w.gate
      exact { hnext with controls := fun _ => hflag }
  | awaitFence fence hmem => exact h.reshut todo (.inl (List.ne_nil_of_mem hmem)) _ _
  | claim => exact h.reshut todo (hold.imp id fun hx => nomatch hx) _ _
  | cancelRuntime =>
      obtain ⟨-, -, hflag⟩ := hg.past_mark hs (by decide) (by decide) (by decide)
      have hnext := h.reshut todo hold w.core w.gate
      exact { hnext with cancelled := fun _ => hflag }
  | _ => exact h.reshut todo hold _ _

theorem Fenced.step (h : Fenced w) (hg : Gated w) (hs : Stepped cfg w a w') : Fenced w' := by
  cases hs with
  | begin c => exact h.outside _ _ _ _ _
  | call key caller v hk hcall => exact h.call hg hk hcall
  | giveUp key caller permits => exact h.outside _ _ permits _ _
  | shutdown trigger hnone =>
      refine ⟨h.cancelled, h.controls, h.stopped, h.order, h.answered, h.acked, h.drained, fun todo ht => ?_⟩
      cases ht
      exact .inr (script_shape trigger).2.2
  | shutdownStep instr todo v htodo hstep => exact h.shutdownStep hg htodo hstep
  | listen branch v hjob hlisten => exact h.listen hjob hlisten
  | work job v hjob hwork => exact h.frame hwork.frame (hwork.owed hjob) fun hc => hwork.command (hc job hjob)
  | owner key action o core => exact h.frame (.core w core _) rfl fun hc => hc
  | reap key poisoned core => exact h.frame (.core w core _) rfl fun hc => hc
  | actor id action core completions => exact h.frame (.core w core completions) rfl fun hc => hc
  | stray id completions => exact h.frame (.core w _ completions) rfl fun hc => hc

end Taskvisor.Registry.Fence
