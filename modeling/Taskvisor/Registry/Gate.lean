import Taskvisor.Registry.Steps
import Mathlib.Tactic.Common

namespace Taskvisor.Registry.Gate

open Lib Runtime.Base Reaper State Listener Steps

variable {cfg : RegistryConfig} {w w' : World} {key : Nat} {caller : Caller}

/-- What is left of a call that has not reached the gate: it sends only
between its gate check and the gate's release. -/
def approaching : List Instr → Bool
  | [.gate, .send, .leave] => true
  | .gate :: _ => false
  | .send :: _ => false
  | .leave :: _ => false
  | _ :: todo => approaching todo
  | [] => false

theorem approaching_script (c : Call) : approaching c.script = true := by
  cases c <;> rfl

theorem approaching_gate {todo : List Instr} (h : approaching (.gate :: todo) = true) : todo = [.send, .leave] := by
  unfold approaching at h
  split at h
  · next he => cases he; rfl
  all_goals simp_all

/-- Marks come whole. -/
def wellMarked : List ShutdownInstr → Bool
  | .acquire :: .store :: .leave :: todo => wellMarked todo
  | .acquire :: _ => false
  | .store :: _ => false
  | .leave :: _ => false
  | _ :: todo => wellMarked todo
  | [] => true

/-- The flag is stored before anything else is done. -/
def unmarked : List ShutdownInstr → Bool
  | .store :: _ => true
  | .acquire :: todo => unmarked todo
  | _ => false

/-- Every claim left comes after a fence. -/
def claimsFenced : List ShutdownInstr → Bool
  | .fence :: _ => true
  | .awaitFence _ :: _ => true
  | .claim :: _ => false
  | _ :: todo => claimsFenced todo
  | [] => true

theorem script_shape (trigger : ShutdownTrigger) :
    wellMarked trigger.script = true ∧ unmarked trigger.script = true ∧ claimsFenced trigger.script = true := by
  cases trigger <;> decide

/-- The gate is held by a call between its check and its release, or by the
shutdown owner inside a mark; once the flag is stored no call holds it. -/
structure Gated (w : World) : Prop where
  keys : ∀ k caller, w.callers.lookup k = some caller → k < w.nextCaller
  holder : ∀ k, w.gate = some (.caller k) → k < w.nextCaller
  caller : ∀ k caller, w.callers.lookup k = some caller →
    w.gate ≠ some (.caller k) ∧ (caller.todo = [] ∨ approaching caller.todo = true) ∨
      w.gate = some (.caller k) ∧ (caller.todo = [.send, .leave] ∨ caller.todo = [.leave])
  owner : ∀ todo, w.shutdown = some todo →
    w.gate ≠ some .shutdown ∧ wellMarked todo = true ∨
      w.gate = some .shutdown ∧ ∃ rest, (todo = .store :: .leave :: rest ∨ todo = .leave :: rest) ∧ wellMarked rest = true
  unmarked : ∀ todo, w.shutdown = some todo → w.shuttingDown = true ∨ unmarked todo = true
  idle : w.shutdown = none → w.gate ≠ some .shutdown ∧ w.shuttingDown = false
  exclusive : w.shuttingDown = true → ∀ k, w.gate ≠ some (.caller k)

theorem Gated.congr (h : Gated w) (hcallers : w'.callers = w.callers) (hnext : w'.nextCaller = w.nextCaller)
    (hgate : w'.gate = w.gate) (hflag : w'.shuttingDown = w.shuttingDown) (hshut : w'.shutdown = w.shutdown) : Gated w' where
  keys := by rw [hcallers, hnext]; exact h.keys
  holder := by rw [hgate, hnext]; exact h.holder
  caller := by rw [hcallers, hgate]; exact h.caller
  owner := by rw [hshut, hgate]; exact h.owner
  unmarked := by rw [hshut, hflag]; exact h.unmarked
  idle := by rw [hshut, hgate, hflag]; exact h.idle
  exclusive := by rw [hflag, hgate]; exact h.exclusive

theorem Gated.new : Gated World.new := by
  refine ⟨fun k c hk => ?_, fun k hk => ?_, fun k c hk => ?_, fun todo ht => ?_, fun todo ht => ?_, fun _ => ⟨?_, rfl⟩,
    fun hf => ?_⟩
  · simp [World.new] at hk
  · simp [World.new] at hk
  · simp [World.new] at hk
  · simp [World.new] at ht
  · simp [World.new] at ht
  · simp [World.new]
  · simp [World.new] at hf

/-- A call changes the table at its own key; the gate may pass to it or from
it. -/
theorem Gated.recall (h : Gated w) (key : Nat) (hflag : w'.shuttingDown = w.shuttingDown)
    (hshut : w'.shutdown = w.shutdown) (hnext : w.nextCaller ≤ w'.nextCaller) (hlt : key < w'.nextCaller)
    (hother : ∀ k caller, k ≠ key → w'.callers.lookup k = some caller → w.callers.lookup k = some caller)
    (hkey : ∀ caller, w'.callers.lookup key = some caller →
      w'.gate ≠ some (.caller key) ∧ (caller.todo = [] ∨ approaching caller.todo = true) ∨
        w'.gate = some (.caller key) ∧ (caller.todo = [.send, .leave] ∨ caller.todo = [.leave]))
    (hgate : ∀ holder, holder ≠ .caller key → (w'.gate = some holder ↔ w.gate = some holder))
    (hexcl : w.shuttingDown = true → w'.gate ≠ some (.caller key)) : Gated w' where
  keys := by
    intro k caller hk
    by_cases he : k = key
    · exact he ▸ hlt
    · exact Nat.lt_of_lt_of_le (h.keys k caller (hother k caller he hk)) hnext
  holder := by
    intro k hk
    by_cases he : k = key
    · exact he ▸ hlt
    · have hne : GateHolder.caller k ≠ .caller key := fun hx => he (GateHolder.caller.inj hx)
      exact Nat.lt_of_lt_of_le (h.holder k ((hgate _ hne).mp hk)) hnext
  caller := by
    intro k caller hk
    by_cases he : k = key
    · subst he
      exact hkey caller hk
    · have hne : GateHolder.caller k ≠ .caller key := fun hx => he (GateHolder.caller.inj hx)
      rw [Ne, hgate _ hne]
      exact h.caller k caller (hother k caller he hk)
  owner := by
    rw [hshut, Ne, hgate .shutdown (fun hx => nomatch hx)]
    exact h.owner
  unmarked := by rw [hshut, hflag]; exact h.unmarked
  idle := by
    rw [hshut, hflag, Ne, hgate .shutdown (fun hx => nomatch hx)]
    exact h.idle
  exclusive := by
    intro hf k
    rw [hflag] at hf
    by_cases he : k = key
    · exact he ▸ hexcl hf
    · have hne : GateHolder.caller k ≠ .caller key := fun hx => he (GateHolder.caller.inj hx)
      rw [Ne, hgate _ hne]
      exact h.exclusive hf k

section Calls

variable (h : Gated w) (hk : w.callers.lookup key = some caller)

include h hk

/-- A call away from the gate moves on. -/
theorem Gated.putCaller (hgate : w.gate ≠ some (.caller key)) (c : Caller) (htodo : approaching c.todo = true)
    (permits : Nat) : Gated ({ w with permits }.putCaller key c) := by
  refine h.recall key rfl rfl (Nat.le_refl _) (h.keys key caller hk) ?_ ?_ (fun _ _ => Iff.rfl) (fun _ => hgate)
  · intro k c' hne hc
    change (w.callers.insert key c).lookup k = some c' at hc
    rwa [AList.lookup_insert_ne hne] at hc
  · intro c' hc
    change (w.callers.insert key c).lookup key = some c' at hc
    rw [AList.lookup_insert] at hc
    cases hc
    exact .inl ⟨hgate, .inr htodo⟩

/-- A call away from the gate ends. -/
theorem Gated.dropCaller (hgate : w.gate ≠ some (.caller key)) (permits : Nat) :
    Gated { w with callers := w.callers.erase key, permits } := by
  refine h.recall key rfl rfl (Nat.le_refl _) (h.keys key caller hk) ?_ ?_ (fun _ _ => Iff.rfl) (fun _ => hgate)
  · intro k c' hne hc
    change (w.callers.erase key).lookup k = some c' at hc
    rwa [AList.lookup_erase_ne hne] at hc
  · intro c' hc
    change (w.callers.erase key).lookup key = some c' at hc
    rw [AList.lookup_erase] at hc
    cases hc

theorem Gated.away {instr : Instr} {todo : List Instr} (htodo : caller.todo = instr :: todo) (hsend : instr ≠ .send)
    (hleave : instr ≠ .leave) : w.gate ≠ some (.caller key) ∧ approaching (instr :: todo) = true := by
  rcases h.caller key caller hk with ⟨hg, hnil | hap⟩ | ⟨-, hs | hl⟩
  · rw [hnil] at htodo; cases htodo
  · exact ⟨hg, htodo ▸ hap⟩
  · rw [hs] at htodo; cases htodo; exact absurd rfl hsend
  · rw [hl] at htodo; cases htodo; exact absurd rfl hleave

theorem Gated.at_send {todo : List Instr} (htodo : caller.todo = .send :: todo) :
    w.gate = some (.caller key) ∧ todo = [.leave] := by
  rcases h.caller key caller hk with ⟨-, hnil | hap⟩ | ⟨hg, hs | hl⟩
  · rw [hnil] at htodo; cases htodo
  · rw [htodo] at hap; cases hap
  · rw [hs] at htodo; cases htodo; exact ⟨hg, rfl⟩
  · rw [hl] at htodo; cases htodo

theorem Gated.at_leave {todo : List Instr} (htodo : caller.todo = .leave :: todo) :
    w.gate = some (.caller key) ∧ todo = [] := by
  rcases h.caller key caller hk with ⟨-, hnil | hap⟩ | ⟨hg, hs | hl⟩
  · rw [hnil] at htodo; cases htodo
  · rw [htodo] at hap; cases hap
  · rw [hs] at htodo; cases htodo
  · rw [hl] at htodo; cases htodo; exact ⟨hg, rfl⟩

end Calls

theorem Gated.call (h : Gated w) (hk : w.callers.lookup key = some caller) (hs : Called w key caller w') : Gated w' := by
  have hother {c c' : Caller} {k : Nat} (hne : k ≠ key) (hc : (w.callers.insert key c).lookup k = some c') :
      w.callers.lookup k = some c' := by
    rwa [AList.lookup_insert_ne hne] at hc
  have hown {c c' : Caller} (hc : (w.callers.insert key c).lookup key = some c') : c = c' := by
    rw [AList.lookup_insert] at hc
    exact Option.some.inj hc
  cases hs with
  | ended permits htodo =>
      have hg : w.gate ≠ some (.caller key) := by
        rcases htodo with hnil | ⟨instr, todo, htodo, hsend, hleave⟩
        · rcases h.caller key caller hk with ⟨hg, -⟩ | ⟨-, he | he⟩
          · exact hg
          · rw [hnil] at he; cases he
          · rw [hnil] at he; cases he
        · exact (h.away hk htodo hsend hleave).1
      exact h.dropCaller hk hg permits
  | moved instr todo permit permits htodo hgate hsend hleave =>
      obtain ⟨hg, hap⟩ := h.away hk htodo hsend hleave
      refine h.putCaller hk hg _ ?_ permits
      cases instr <;> first | exact hap | exact absurd rfl hgate | exact absurd rfl hsend | exact absurd rfl hleave
  | entered todo htodo hnone hflag =>
      obtain ⟨hg, hap⟩ := h.away hk htodo (by decide) (by decide)
      refine h.recall key rfl rfl (Nat.le_refl _) (h.keys key caller hk) (fun _ _ => hother) (fun c' hc => ?_) ?_
        (fun hf => by rw [hflag] at hf; cases hf)
      · cases hown hc
        exact .inr ⟨rfl, .inl (approaching_gate hap)⟩
      · intro holder hne
        rw [hnone]
        exact ⟨fun hx => absurd (Option.some.inj hx).symm hne, fun hx => (nomatch hx)⟩
  | sent todo permits htodo =>
      obtain ⟨hg, rfl⟩ := h.at_send hk htodo
      refine h.recall key rfl rfl (Nat.le_refl _) (h.keys key caller hk) (fun _ _ => hother) (fun c' hc => ?_)
        (fun _ _ => Iff.rfl) (fun hf => absurd hg (h.exclusive hf key))
      cases hown hc
      exact .inr ⟨hg, .inr rfl⟩
  | left todo htodo =>
      obtain ⟨hg, rfl⟩ := h.at_leave hk htodo
      refine h.recall key rfl rfl (Nat.le_refl _) (h.keys key caller hk) (fun _ _ => hother) (fun c' hc => ?_) ?_
        (fun _ hx => nomatch hx)
      · cases hown hc
        exact .inl ⟨(fun hx => nomatch hx), .inl rfl⟩
      · intro holder hne
        rw [hg]
        exact ⟨fun hx => (nomatch hx), fun hx => absurd (Option.some.inj hx).symm hne⟩

theorem Gated.begin (h : Gated w) (c : Call) (seen : List TaskId) :
    Gated { w with
      callers := w.callers.insert w.nextCaller ⟨c, c.script, false⟩
      nextCaller := w.nextCaller + 1
      seen } := by
  have hgate : w.gate ≠ some (.caller w.nextCaller) := fun hx => Nat.lt_irrefl _ (h.holder _ hx)
  refine h.recall w.nextCaller rfl rfl (Nat.le_succ _) (Nat.lt_succ_self _) ?_ ?_ (fun _ _ => Iff.rfl) (fun _ => hgate)
  · intro k c' hne hc
    change (w.callers.insert w.nextCaller _).lookup k = some c' at hc
    rwa [AList.lookup_insert_ne hne] at hc
  · intro c' hc
    change (w.callers.insert w.nextCaller _).lookup w.nextCaller = some c' at hc
    rw [AList.lookup_insert] at hc
    cases hc
    exact .inl ⟨hgate, .inr (approaching_script c)⟩

theorem Gated.shutdown (h : Gated w) (hnone : w.shutdown = none) (trigger : ShutdownTrigger) :
    Gated { w with shutdown := some trigger.script } := by
  obtain ⟨hg, hf⟩ := h.idle hnone
  refine ⟨h.keys, h.holder, h.caller, fun todo ht => ?_, fun todo ht => ?_, fun hx => (nomatch hx), h.exclusive⟩
  · cases ht
    exact .inl ⟨hg, (script_shape trigger).1⟩
  · cases ht
    exact .inr (script_shape trigger).2.1

/-- The shutdown owner away from a mark: the gate is not its own and the flag
is stored. -/
theorem Gated.past_mark (h : Gated w) {instr : ShutdownInstr} {todo : List ShutdownInstr}
    (hs : w.shutdown = some (instr :: todo)) (hacquire : instr ≠ .acquire) (hstore : instr ≠ .store)
    (hleave : instr ≠ .leave) : w.gate ≠ some .shutdown ∧ wellMarked todo = true ∧ w.shuttingDown = true := by
  refine ⟨?_, ?_, ?_⟩
  · rcases h.owner _ hs with ⟨hg, -⟩ | ⟨-, rest, he | he, -⟩
    · exact hg
    · cases he; exact absurd rfl hstore
    · cases he; exact absurd rfl hleave
  · rcases h.owner _ hs with ⟨-, hm⟩ | ⟨-, rest, he | he, -⟩
    · cases instr <;> first | exact absurd rfl hacquire | exact absurd rfl hstore | exact absurd rfl hleave | exact hm
    · cases he; exact absurd rfl hstore
    · cases he; exact absurd rfl hleave
  · rcases h.unmarked _ hs with hf | hu
    · exact hf
    · cases instr <;> first | exact absurd rfl hacquire | exact absurd rfl hstore | cases hu

/-- The shutdown owner moves on past its marks; nothing of the gate changes. -/
theorem Gated.reshut (h : Gated w) {instr : ShutdownInstr} {todo todo' : List ShutdownInstr}
    (hs : w.shutdown = some (instr :: todo)) (hacquire : instr ≠ .acquire) (hstore : instr ≠ .store)
    (hleave : instr ≠ .leave) (hmarked : wellMarked todo = true → wellMarked todo' = true)
    (hcallers : w'.callers = w.callers) (hnext : w'.nextCaller = w.nextCaller) (hgate : w'.gate = w.gate)
    (hflag : w'.shuttingDown = w.shuttingDown) (hshut : w'.shutdown = some todo') : Gated w' := by
  obtain ⟨hg, hm, hf⟩ := h.past_mark hs hacquire hstore hleave
  refine ⟨?_, ?_, ?_, fun l hl => ?_, fun l hl => .inl (hflag.trans hf), fun hx => ?_, ?_⟩
  · rw [hcallers, hnext]; exact h.keys
  · rw [hgate, hnext]; exact h.holder
  · rw [hcallers, hgate]; exact h.caller
  · rw [hshut] at hl
    cases hl
    exact .inl ⟨hgate ▸ hg, hmarked hm⟩
  · rw [hshut] at hx
    cases hx
  · rw [hflag, hgate]; exact h.exclusive

theorem Gated.shutdownStep (h : Gated w) {instr : ShutdownInstr} {todo : List ShutdownInstr}
    (hs : w.shutdown = some (instr :: todo)) (hstep : w.shutdownStep instr todo = some w') : Gated w' := by
  cases shutdownStep_cases hstep with
  | acquire hnone =>
      obtain ⟨rest, rfl, hrest⟩ : ∃ rest, todo = .store :: .leave :: rest ∧ wellMarked rest = true := by
        rcases h.owner _ hs with ⟨-, hm⟩ | ⟨hg, -⟩
        · unfold wellMarked at hm
          split at hm
          all_goals simp_all
        · rw [hnone] at hg; cases hg
      refine ⟨h.keys, fun k hk => (nomatch hk), fun k c hc => ?_, fun l hl => ?_, fun l hl => ?_, fun hx => (nomatch hx),
        fun _ k hk => (nomatch hk)⟩
      · rcases h.caller k c hc with ⟨-, ht⟩ | ⟨hg, -⟩
        · exact .inl ⟨(fun hx => nomatch hx), ht⟩
        · rw [hnone] at hg; cases hg
      · cases hl
        exact .inr ⟨rfl, rest, .inl rfl, hrest⟩
      · cases hl
        exact .inr rfl
  | store =>
      obtain ⟨hg, rest, rfl, hrest⟩ : w.gate = some .shutdown ∧ ∃ rest, todo = .leave :: rest ∧ wellMarked rest = true := by
        rcases h.owner _ hs with ⟨-, hm⟩ | ⟨hg, rest, he | he, hrest⟩
        · cases hm
        · cases he; exact ⟨hg, rest, rfl, hrest⟩
        · cases he
      refine ⟨h.keys, h.holder, h.caller, fun l hl => ?_, fun _ _ => .inl rfl, fun hx => (nomatch hx), fun _ k => ?_⟩
      · cases hl
        exact .inr ⟨hg, rest, .inr rfl, hrest⟩
      · change w.gate ≠ _
        rw [hg]
        exact fun hx => nomatch hx
  | leave =>
      obtain ⟨hg, hrest⟩ : w.gate = some .shutdown ∧ wellMarked todo = true := by
        rcases h.owner _ hs with ⟨-, hm⟩ | ⟨hg, rest, he | he, hrest⟩
        · cases hm
        · cases he
        · cases he; exact ⟨hg, hrest⟩
      have hf : w.shuttingDown = true := by
        rcases h.unmarked _ hs with hf | hu
        · exact hf
        · cases hu
      refine ⟨h.keys, fun k hk => (nomatch hk), fun k c hc => ?_, fun l hl => ?_, fun _ _ => .inl hf, fun hx => (nomatch hx),
        fun _ k hk => (nomatch hk)⟩
      · rcases h.caller k c hc with ⟨-, ht⟩ | ⟨hx, -⟩
        · exact .inl ⟨(fun hx => nomatch hx), ht⟩
        · rw [hg] at hx; cases hx
      · cases hl
        exact .inl ⟨(fun hx => nomatch hx), hrest⟩
  | fence =>
      have hkeep : wellMarked todo = true → wellMarked (.awaitFence w.nextFence :: todo) = true := fun hm => hm
      exact h.reshut hs (by decide) (by decide) (by decide) hkeep rfl rfl rfl rfl rfl
  | awaitFence fence =>
      exact h.reshut hs (fun hx => nomatch hx) (fun hx => nomatch hx) (fun hx => nomatch hx) (fun hm => hm) rfl rfl rfl rfl
        rfl
  | closed => exact h.reshut hs (by decide) (by decide) (by decide) (fun _ => rfl) rfl rfl rfl rfl rfl
  | _ => exact h.reshut hs (by decide) (by decide) (by decide) (fun hm => hm) rfl rfl rfl rfl rfl

theorem Gated.frame (h : Gated w) (hf : Frame w w') : Gated w' :=
  h.congr hf.callers hf.nextCaller hf.gate hf.shuttingDown hf.shutdown

theorem Gated.step {a : World.Action} (h : Gated w) (hs : Stepped cfg w a w') : Gated w' := by
  cases hs with
  | begin c => exact h.begin c _
  | call key caller v hk hcall => exact h.call hk hcall
  | giveUp key caller permits hk hgate => exact h.dropCaller hk hgate permits
  | shutdown trigger hnone => exact h.shutdown hnone trigger
  | shutdownStep instr todo v htodo hstep => exact h.shutdownStep htodo hstep
  | listen branch v hjob hlisten => cases hlisten <;> exact h.congr rfl rfl rfl rfl rfl
  | work job v hjob hwork => exact h.frame hwork.frame
  | owner key action o core => exact h.frame (.core w core _)
  | reap key poisoned core => exact h.frame (.core w core _)
  | actor id action core completions => exact h.frame (.core w core completions)
  | stray id completions => exact h.frame (.core w _ completions)

end Taskvisor.Registry.Gate
