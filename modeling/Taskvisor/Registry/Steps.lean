import Taskvisor.Registry.Listener
import Mathlib.Tactic.Common

namespace Taskvisor.Registry.Steps

open Lib Runtime.Base Reaper State Listener

variable {cfg : RegistryConfig} {w w' : World} {job : Job}

/-- The handler of a command, as opposed to that of a completion identity. -/
def isCommand : Job → Bool
  | .completed _ | .probe _ | .inline _ => false
  | _ => true

/-- The statements of an admission that may refuse it. -/
def checking : Job → Bool
  | .names _ | .limit _ _ | .lockedNames _ | .lockedLimit _ => true
  | _ => false

/-- The reply a handler still owes. -/
def unanswered : Job → Option Reply
  | .names req | .limit req _ | .prepare req => some req.reply
  | .lockedNames reg | .lockedLimit reg | .inserted reg => some reg.reply
  | .remove _ reply | .cancel _ reply => some reply
  | .won _ decision .cancelling | .won _ decision .replying => some decision.reply
  | _ => none

def isRegistered (c : Core) (id : TaskId) : Prop := ∃ name handle, c.tasks.lookup id = some ⟨name, .registered handle⟩

/-- The answer of a remove or cancel command that claims nothing. -/
def Loses (c : Core) (d : Decision) : Prop :=
  d.answer = .remove false ∨ d.answer = .cancel none ∨
    ∃ id name completion, c.tasks.lookup id = some ⟨name, .removing completion⟩ ∧ d.target = some id ∧
      d.answer = .cancel (some ⟨id, false, completion⟩)

/-- The answer of a remove or cancel command that claims this entry. -/
def Wins (c : Core) (id : TaskId) (d : Decision) : Prop :=
  d.target = some id ∧ (d.answer = .remove true ∨
    ∃ name handle, c.tasks.lookup id = some ⟨name, .registered handle⟩ ∧
      d.answer = .cancel (some ⟨id, true, handle.completion⟩))

/-- Everything one statement of a handler can do. -/
inductive Worked (w : World) : Job → World → Prop
  | reject (job : Job) (reply : Reply) (batch : Bool) (dones : List (TaskId × Option OutcomeTx))
      (error : RuntimeError × RejectionKind × String) (hreply : unanswered job = some reply) (hjob : checking job = true) :
      Worked w job (w.reject reply batch dones error)
  | names (req : AddRequest) (current : Nat) : Worked w (.names req) { w with job := some (.limit req current) }
  | limit (req : AddRequest) (current : Nat) : Worked w (.limit req current) { w with job := some (.prepare req) }
  | prepare (req : AddRequest) :
      Worked w (.prepare req)
        { w with
          job := some (.lockedNames ⟨(World.prepareItems w.nextLatch req.items).1, req.reply, req.batch⟩)
          nextLatch := (World.prepareItems w.nextLatch req.items).2 }
  | free (reg : Registration)
      (hfree : World.firstConflict (World.takenName w.core) [] (reg.items.map PreparedRegistration.name) = none) :
      Worked w (.lockedNames reg) { w with job := some (.lockedLimit reg) }
  | insert (reg : Registration) :
      Worked w (.lockedLimit reg) { w with core := w.core.insertAll reg.items, job := some (.inserted reg) }
  | accept (reg : Registration) :
      Worked w (.inserted reg)
        ({ w with job := some (.spawning reg.items reg) }.answer ⟨reg.reply, none, .add (.ok ())⟩)
  | spawn (item : PreparedRegistration) (rest : List PreparedRegistration) (reg : Registration) :
      Worked w (.spawning (item :: rest) reg) { w with core := w.core.spawn item, job := some (.spawning rest reg) }
  | openGate (reg : Registration) :
      Worked w (.spawning [] reg) { w with core := reg.items.foldl Core.openGate w.core, job := none }
  | lose (job : Job) (target : Target) (d : Decision) (hjob : job = .remove target d.reply ∨ job = .cancel target d.reply)
      (htarget : d.target = World.resolve w.core target) (hfree : ∀ id, d.target = some id → ¬ isRegistered w.core id)
      (hd : Loses w.core d) : Worked w job ({ w with job := none }.answer d)
  | win (job : Job) (target : Target) (d : Decision) (id : TaskId) (key : Nat) (core : Core)
      (hjob : job = .remove target d.reply ∨ job = .cancel target d.reply) (htarget : World.resolve w.core target = some id)
      (hclaim : w.core.claimRegistered id .inline (.command d.reply) = some (key, core)) (hd : Wins w.core id d) :
      Worked w job { w with core, job := some (.won key d .cancelling) }
  | cancelToken (key : Nat) (d : Decision) :
      Worked w (.won key d .cancelling)
        { w with core := (d.target.map w.core.cancelToken).getD w.core, job := some (.won key d .replying) }
  | reply (key : Nat) (d : Decision) :
      Worked w (.won key d .replying) ({ w with job := some (.won key d .spawning) }.answer d)
  | launch (key : Nat) (d : Decision) :
      Worked w (.won key d .spawning) { w with core := w.core.launch key .detached, job := none }
  | signal (id : TaskId) (key : Nat) (core : Core)
      (hclaim : w.core.claimRegistered id .inline .completion = some (key, core)) :
      Worked w (.completed id) { w with core, job := some (.probe key) }
  | stale (id : TaskId) : Worked w (.completed id) { w with job := none }
  | ready (key : Nat) :
      Worked w (.probe key) { w with core := w.core.launch key .inline, job := some (.inline key) }
  | unready (key : Nat) : Worked w (.probe key) { w with core := w.core.launch key .detached, job := none }
  | joined (key : Nat) : Worked w (.inline key) { w with job := none }

theorem claimRegistered_of_registered {c : Core} {id : TaskId} (kind : OwnerKind) (claimant : Claimant) {name : String}
    {handle : Handle} (h : c.tasks.lookup id = some ⟨name, .registered handle⟩) :
    ∃ key core, c.claimRegistered id kind claimant = some (key, core) := by
  unfold Core.claimRegistered
  rw [h]
  exact ⟨_, _, rfl⟩

theorem not_registered_of_claim {c : Core} {id : TaskId} {kind : OwnerKind} {claimant : Claimant}
    (h : c.claimRegistered id kind claimant = none) : ¬ isRegistered c id := by
  rintro ⟨name, handle, he⟩
  obtain ⟨key, core, hc⟩ := claimRegistered_of_registered kind claimant he
  rw [h] at hc
  cases hc

theorem removeTask_cases (target : Target) (reply : Reply) : Worked w (.remove target reply) (w.removeTask target reply) := by
  unfold World.removeTask
  split
  · next hr =>
    exact .lose _ target ⟨reply, none, .remove false⟩ (.inl rfl) hr.symm (fun _ hx => nomatch hx) (.inl rfl)
  · next id hr =>
    split
    · next key core hc => exact .win _ target ⟨reply, some id, .remove true⟩ id key core (.inl rfl) hr hc ⟨rfl, .inl rfl⟩
    · next hc =>
      refine .lose _ target ⟨reply, some id, .remove false⟩ (.inl rfl) hr.symm (fun i hi => ?_) (.inl rfl)
      cases hi
      exact not_registered_of_claim hc

theorem cancelTask_cases (target : Target) (reply : Reply) : Worked w (.cancel target reply) (w.cancelTask target reply) := by
  unfold World.cancelTask
  split
  · next hr =>
    exact .lose _ target ⟨reply, none, .cancel none⟩ (.inr rfl) hr.symm (fun _ hx => nomatch hx) (.inr (.inl rfl))
  · next id hr =>
    split
    · next he =>
      refine .lose _ target ⟨reply, some id, .cancel none⟩ (.inr rfl) hr.symm (fun i hi => ?_) (.inr (.inl rfl))
      cases hi
      rintro ⟨name, handle, hx⟩
      rw [he] at hx
      cases hx
    · next name completion he =>
      refine .lose _ target ⟨reply, some id, .cancel (some ⟨id, false, completion⟩)⟩ (.inr rfl) hr.symm (fun i hi => ?_)
        (.inr (.inr ⟨id, name, completion, he, rfl, rfl⟩))
      cases hi
      rintro ⟨name', handle, hx⟩
      rw [he] at hx
      cases hx
    · next name handle he =>
      split
      · next key core hc =>
        exact .win _ target ⟨reply, some id, .cancel (some ⟨id, true, handle.completion⟩)⟩ id key core (.inr rfl) hr hc
          ⟨rfl, .inr ⟨name, handle, he, rfl⟩⟩
      · next hc => exact absurd ⟨name, handle, he⟩ (not_registered_of_claim hc)

theorem work_cases (hs : w.work cfg job = some w') : Worked w job w' := by
  cases job with
  | names req =>
      simp only [World.work] at hs
      split at hs
      · cases hs; exact .reject _ _ _ _ _ rfl rfl
      · cases hs; exact .names req _
  | limit req current =>
      simp only [World.work] at hs
      split at hs
      · cases hs; exact .reject _ _ _ _ _ rfl rfl
      · cases hs; exact .limit req current
  | prepare req => cases hs; exact .prepare req
  | lockedNames reg =>
      simp only [World.work] at hs
      split at hs
      · cases hs; exact .reject _ _ _ _ _ rfl rfl
      · next hfree => cases hs; exact .free reg hfree
  | lockedLimit reg =>
      simp only [World.work] at hs
      split at hs
      · cases hs; exact .reject _ _ _ _ _ rfl rfl
      · cases hs; exact .insert reg
  | inserted reg => cases hs; exact .accept reg
  | spawning rest reg =>
      cases rest with
      | nil => cases hs; exact .openGate reg
      | cons item rest => cases hs; exact .spawn item rest reg
  | remove target reply => cases hs; exact removeTask_cases target reply
  | cancel target reply => cases hs; exact cancelTask_cases target reply
  | won key d stage =>
      cases stage with
      | cancelling => cases hs; exact .cancelToken key d
      | replying => cases hs; exact .reply key d
      | spawning => cases hs; exact .launch key d
  | completed id =>
      simp only [World.work] at hs
      split at hs
      · next key core hc => cases hs; exact .signal id key core hc
      · cases hs; exact .stale id
  | probe key =>
      simp only [World.work] at hs
      split at hs
      · cases hs; exact .ready key
      · cases hs; exact .unready key
  | inline key =>
      simp only [World.work] at hs
      split at hs
      · cases hs
      · cases hs; exact .joined key

/-- Everything the listener can do between two handlers. -/
inductive Listened (w : World) : World → Prop
  | close (hcancelled : w.runtimeCancelled = true) : Listened w w.close
  | select (hmode : w.mode = .looping) (burst : Nat) : Listened w { w with mode := .selecting, burst }
  | control (fence : Nat) (rest : List Nat) (mode : Mode) (hcontrols : w.controls = fence :: rest)
      (hmode : (w.mode = .looping ∨ w.mode = .selecting) ∧ mode = .fencing fence ∨
        w.mode = .controls ∧ mode = .drainFencing fence) :
      Listened w { w with controls := rest, mode, burst := 0 }
  | command (command : RegistryCommand) (rest : List RegistryCommand) (mode : Mode) (hcommands : w.commands = command :: rest)
      (hmode : mode = w.mode ∨ w.mode = .selecting ∧ mode = .looping) :
      Listened w
        { w with commands := rest, mode, job := some (World.start command), burst := 0, taken := w.taken ++ [command] }
  | completion (id : TaskId) (rest : List TaskId) (hmode : w.mode = .selecting) (hcompletions : w.completions = id :: rest) :
      Listened w { w with completions := rest, mode := .looping, job := some (.completed id), burst := w.burst + 1 }
  | ack (fence : Nat) (mode : Mode) (hempty : w.commands = [])
      (hmode : w.mode = .fencing fence ∧ mode = .looping ∨ w.mode = .drainFencing fence ∧ mode = .controls) :
      Listened w { w with acks := w.acks ++ [fence], mode }
  | drained (hmode : w.mode = .draining) (hempty : w.commands = []) : Listened w { w with mode := .controls }
  | claim (hmode : w.mode = .controls) :
      Listened w { w with core := w.core.claimAll (.shutdown true) w.core.tasks.keys, mode := .cancelling }
  | cancel (hmode : w.mode = .cancelling) :
      Listened w { w with core := World.launchAll w.core (.shutdown true), mode := .joining }
  | joined (hmode : w.mode = .joining) : Listened w { w with mode := .waiting }
  | exit (hmode : w.mode = .waiting) : Listened w { w with mode := .exited }

theorem takeCommand_cases {mode : Mode} (hs : w.takeCommand mode = some w')
    (hmode : mode = w.mode ∨ w.mode = .selecting ∧ mode = .looping) : Listened w w' := by
  unfold World.takeCommand at hs
  split at hs
  · cases hs
  · next command rest hc => cases hs; exact .command command rest mode hc hmode

theorem takeCommand_none {mode : Mode} (hs : w.takeCommand mode = none) : w.commands = [] := by
  unfold World.takeCommand at hs
  split at hs
  · assumption
  · cases hs

theorem takeControl_cases {mode : Nat → Mode} (hs : w.takeControl mode = some w')
    (hmode : ∀ fence, (w.mode = .looping ∨ w.mode = .selecting) ∧ mode fence = .fencing fence ∨
      w.mode = .controls ∧ mode fence = .drainFencing fence) : Listened w w' := by
  unfold World.takeControl at hs
  split at hs
  · cases hs
  · next fence rest hc => cases hs; exact .control fence rest _ hc (hmode fence)

theorem fenceStep_cases {fence : Nat} (back : Mode)
    (hmode : w.mode = .fencing fence ∧ back = .looping ∨ w.mode = .drainFencing fence ∧ back = .controls) :
    Listened w (w.fenceStep fence w.mode back) := by
  unfold World.fenceStep
  cases ht : w.takeCommand w.mode with
  | none => exact .ack fence back (takeCommand_none ht) hmode
  | some v => exact takeCommand_cases ht (.inl rfl)

theorem listen_cases {branch : World.Branch} (hs : w.listen branch = some w') : Listened w w' := by
  unfold World.listen at hs
  split at hs
  · next hmode =>
    unfold World.loopTop at hs
    split at hs
    · next hc => cases hs; exact .close hc
    · split at hs
      · cases ht : w.takeControl .fencing with
        | some v =>
            rw [ht] at hs
            cases hs
            exact takeControl_cases ht fun _ => .inl ⟨.inl hmode, rfl⟩
        | none =>
            rw [ht] at hs
            cases hc : w.takeCommand .looping with
            | some v => rw [hc] at hs; cases hs; exact takeCommand_cases hc (.inl hmode.symm)
            | none => rw [hc] at hs; cases hs; exact .select hmode 0
      · cases hs; exact .select hmode w.burst
  · next hmode =>
    cases branch with
    | cancelled =>
        simp only [World.select] at hs
        split at hs
        · next hc => cases hs; exact .close hc
        · cases hs
    | completion =>
        simp only [World.select, World.takeCompletion] at hs
        split at hs
        · cases hs
        · next id rest hc => cases hs; exact .completion id rest hmode hc
    | control => exact takeControl_cases hs fun _ => .inl ⟨.inr hmode, rfl⟩
    | command => exact takeCommand_cases hs (.inr ⟨hmode, rfl⟩)
  · next fence hmode =>
    cases hs
    have h := fenceStep_cases (w := w) .looping (.inl ⟨hmode, rfl⟩)
    rwa [hmode] at h
  · next hmode =>
    cases ht : w.takeCommand .draining with
    | some v => rw [ht] at hs; cases hs; exact takeCommand_cases ht (.inl hmode.symm)
    | none => rw [ht] at hs; cases hs; exact .drained hmode (takeCommand_none ht)
  · next hmode =>
    cases ht : w.takeControl .drainFencing with
    | some v => rw [ht] at hs; cases hs; exact takeControl_cases ht fun _ => .inr ⟨hmode, rfl⟩
    | none => rw [ht] at hs; cases hs; exact .claim hmode
  · next fence hmode =>
    cases hs
    have h := fenceStep_cases (w := w) .controls (.inr ⟨hmode, rfl⟩)
    rwa [hmode] at h
  · next hmode => cases hs; exact .cancel hmode
  · next hmode =>
    split at hs
    · cases hs
    · cases hs; exact .joined hmode
  · next hmode =>
    split at hs
    · cases hs; exact .exit hmode
    · cases hs
  · cases hs

/-- What the handlers, the removal owners, the reap futures and the actors
leave alone. -/
structure Frame (w w' : World) : Prop where
  commands : w'.commands = w.commands
  closed : w'.closed = w.closed
  controls : w'.controls = w.controls
  mode : w'.mode = w.mode
  gate : w'.gate = w.gate
  shuttingDown : w'.shuttingDown = w.shuttingDown
  runtimeCancelled : w'.runtimeCancelled = w.runtimeCancelled
  callers : w'.callers = w.callers
  nextCaller : w'.nextCaller = w.nextCaller
  shutdown : w'.shutdown = w.shutdown
  acks : w'.acks = w.acks
  sent : w'.sent = w.sent
  taken : w'.taken = w.taken
  seen : w'.seen = w.seen

theorem Frame.core (w : World) (core : Core) (completions : List TaskId) : Frame w { w with core, completions } :=
  ⟨rfl, rfl, rfl, rfl, rfl, rfl, rfl, rfl, rfl, rfl, rfl, rfl, rfl, rfl⟩

theorem Worked.frame (h : Worked w job w') : Frame w w' := by
  cases h <;> exact ⟨rfl, rfl, rfl, rfl, rfl, rfl, rfl, rfl, rfl, rfl, rfl, rfl, rfl, rfl⟩

/-- The replies sent so far and the one the handler owes. -/
def owed (w : World) : List Reply := w.replies.map Decision.reply ++ (w.job.bind unanswered).toList

/-- A handler replies once. -/
theorem Worked.owed (hjob : w.job = some job) (h : Worked w job w') : owed w' = owed w := by
  unfold Steps.owed
  rw [hjob]
  cases h with
  | reject job reply batch dones error hreply _ => simp [World.reject, hreply]
  | lose job target d hj _ _ _ => rcases hj with rfl | rfl <;> simp [World.answer, unanswered]
  | win job target d id key core hj _ _ _ => rcases hj with rfl | rfl <;> simp [unanswered]
  | _ => simp [World.answer, unanswered]

/-- The handler of a completion identity never becomes that of a command. -/
theorem Worked.command (h : Worked w job w') (hjob : isCommand job = false) :
    ∀ job', w'.job = some job' → isCommand job' = false := by
  intro job' hj
  cases h with
  | reject => cases hj
  | lose job target d he _ _ _ => rcases he with rfl | rfl <;> cases hjob
  | win job target d id key core he _ _ _ => rcases he with rfl | rfl <;> cases hjob
  | signal | ready => cases hj; rfl
  | stale | unready | joined => cases hj
  | _ => cases hjob

/-- Everything one statement of a call can do. -/
inductive Called (w : World) (key : Nat) (caller : Caller) : World → Prop
  | ended (permits : Nat)
      (htodo : caller.todo = [] ∨ ∃ instr todo, caller.todo = instr :: todo ∧ instr ≠ .send ∧ instr ≠ .leave) :
      Called w key caller { w with callers := w.callers.erase key, permits }
  | moved (instr : Instr) (todo : List Instr) (permit : Bool) (permits : Nat) (htodo : caller.todo = instr :: todo)
      (hgate : instr ≠ .gate) (hsend : instr ≠ .send) (hleave : instr ≠ .leave) :
      Called w key caller ({ w with permits }.putCaller key { caller with todo, permit })
  | entered (todo : List Instr) (htodo : caller.todo = .gate :: todo) (hgate : w.gate = none)
      (hflag : w.shuttingDown = false) :
      Called w key caller ({ w with gate := some (.caller key) }.putCaller key { caller with todo })
  | sent (todo : List Instr) (permits : Nat) (htodo : caller.todo = .send :: todo) :
      Called w key caller
        ({ w with
          commands := w.commands ++ [caller.call.command key w.nextLatch]
          permits
          sent := w.sent ++ [caller.call.command key w.nextLatch]
          nextLatch := if caller.call.tracked then w.nextLatch + 1 else w.nextLatch }.putCaller key
            { caller with todo, permit := false })
  | left (todo : List Instr) (htodo : caller.todo = .leave :: todo) :
      Called w key caller ({ w with gate := none }.putCaller key { caller with todo })

theorem call_cases {key : Nat} {caller : Caller} (hs : w.call cfg key caller = some w') : Called w key caller w' := by
  have hdrop {instr : Instr} {todo : List Instr} (htodo : caller.todo = instr :: todo) (hsend : instr ≠ .send)
      (hleave : instr ≠ .leave) : Called w key caller (w.giveUp key caller) :=
    .ended _ (.inr ⟨instr, todo, htodo, hsend, hleave⟩)
  unfold World.call at hs
  split at hs
  · next htodo => cases hs; exact .ended w.permits (.inl htodo)
  · next todo htodo =>
    split at hs
    · cases hs; exact hdrop htodo (by decide) (by decide)
    · cases hs; exact .moved _ todo caller.permit w.permits htodo (by decide) (by decide) (by decide)
  · next todo htodo =>
    split at hs
    · cases hs; exact hdrop htodo (by decide) (by decide)
    · cases hs; exact .moved _ todo caller.permit w.permits htodo (by decide) (by decide) (by decide)
  · next todo htodo => cases hs; exact .moved _ todo caller.permit w.permits htodo (by decide) (by decide) (by decide)
  · next wait todo htodo =>
    have hne (instr : Instr) (hi : ∀ b, instr ≠ .reserve b) : Instr.reserve wait ≠ instr := fun hx => hi wait hx.symm
    split at hs
    · cases hs; exact hdrop htodo (hne _ (by simp)) (hne _ (by simp))
    · split at hs
      · split at hs
        · cases hs
        · cases hs; exact hdrop htodo (hne _ (by simp)) (hne _ (by simp))
      · cases hs; exact .moved _ todo true _ htodo (hne _ (by simp)) (hne _ (by simp)) (hne _ (by simp))
  · next todo htodo =>
    split at hs
    · cases hs
    · next hfree =>
      split at hs
      · cases hs; exact hdrop htodo (by decide) (by decide)
      · next hflag => cases hs; exact .entered todo htodo (by simpa using hfree) (by simpa using hflag)
  · next todo htodo => cases hs; exact .sent todo _ htodo
  · next todo htodo => cases hs; exact .left todo htodo

/-- A call stays the call it is and does its statements in order. -/
theorem Called.callers {key : Nat} {caller : Caller} (h : Called w key caller w') {k : Nat} {c : Caller}
    (hc : w'.callers.lookup k = some c) :
    k ≠ key ∧ w.callers.lookup k = some c ∨ k = key ∧ c.call = caller.call ∧ ∃ instr, caller.todo = instr :: c.todo := by
  have hput {c' : Caller} (hc : (w.callers.insert key c').lookup k = some c) :
      k ≠ key ∧ w.callers.lookup k = some c ∨ k = key ∧ c = c' := by
    exact (Table.of_lookup_insert hc).symm
  cases h with
  | ended permits htodo =>
      exact .inl (Table.of_lookup_erase hc)
  | moved instr todo permit permits htodo =>
      rcases hput hc with ho | ⟨hk, rfl⟩
      · exact .inl ho
      · exact .inr ⟨hk, rfl, instr, htodo⟩
  | entered todo htodo =>
      rcases hput hc with ho | ⟨hk, rfl⟩
      · exact .inl ho
      · exact .inr ⟨hk, rfl, .gate, htodo⟩
  | sent todo permits htodo =>
      rcases hput hc with ho | ⟨hk, rfl⟩
      · exact .inl ho
      · exact .inr ⟨hk, rfl, .send, htodo⟩
  | left todo htodo =>
      rcases hput hc with ho | ⟨hk, rfl⟩
      · exact .inl ho
      · exact .inr ⟨hk, rfl, .leave, htodo⟩

/-- Everything one statement of the shutdown owner can do. -/
inductive Shut (w : World) (todo : List ShutdownInstr) : ShutdownInstr → World → Prop
  | acquire (hfree : w.gate = none) : Shut w todo .acquire { w with gate := some .shutdown, shutdown := some todo }
  | store : Shut w todo .store { w with shuttingDown := true, shutdown := some todo }
  | leave : Shut w todo .leave { w with gate := none, shutdown := some todo }
  | closed (hclosed : w.closed = true) : Shut w todo .fence { w with shutdown := some [.cancelRuntime] }
  | fence (hopen : w.closed = false) :
      Shut w todo .fence
        { w with
          controls := w.controls ++ [w.nextFence]
          nextFence := w.nextFence + 1
          shutdown := some (.awaitFence w.nextFence :: todo) }
  | awaitFence (fence : Nat) (hack : fence ∈ w.acks) : Shut w todo (.awaitFence fence) { w with shutdown := some todo }
  | claim (hfree : w.lockHeld = false) :
      Shut w todo .claim
        { w with core := w.core.claimAll (.shutdown false) w.core.tasks.keys, shutdown := some todo }
  | cancel : Shut w todo .cancel { w with core := World.launchAll w.core (.shutdown false), shutdown := some todo }
  | join (hnone : World.hasOwner w.core (.shutdown false) = false) : Shut w todo .join { w with shutdown := some todo }
  | cancelRuntime : Shut w todo .cancelRuntime { w with runtimeCancelled := true, shutdown := some todo }

theorem shutdownStep_cases {instr : ShutdownInstr} {todo : List ShutdownInstr} (h : w.shutdownStep instr todo = some w') :
    Shut w todo instr w' := by
  cases instr with
  | acquire =>
      simp only [World.shutdownStep] at h
      split at h
      · cases h
      · next hgate => cases h; exact .acquire (by simpa using hgate)
  | store => cases h; exact .store
  | leave => cases h; exact .leave
  | fence =>
      simp only [World.shutdownStep] at h
      split at h
      · next hclosed => cases h; exact .closed hclosed
      · next hclosed => cases h; exact .fence (by simpa using hclosed)
  | awaitFence fence =>
      simp only [World.shutdownStep] at h
      split at h
      · next hack => cases h; exact .awaitFence fence hack
      · cases h
  | claim =>
      simp only [World.shutdownStep] at h
      split at h
      · cases h
      · next hlock => cases h; exact .claim (by simpa using hlock)
  | cancel => cases h; exact .cancel
  | join =>
      simp only [World.shutdownStep] at h
      split at h
      · cases h
      · next hnone => cases h; exact .join (by simpa using hnone)
  | cancelRuntime => cases h; exact .cancelRuntime

/-- Everything one step of the service can do, with its label. -/
inductive Stepped (cfg : RegistryConfig) (w : World) : World.Action → World → Prop
  | begin (c : Call) (hnodup : (c.items.map AddItem.id).Nodup) (hfresh : ∀ id ∈ c.items.map AddItem.id, id ∉ w.seen) :
      Stepped cfg w (.begin c)
        { w with
          callers := w.callers.insert w.nextCaller ⟨c, c.script, false⟩
          nextCaller := w.nextCaller + 1
          seen := w.seen ++ c.items.map AddItem.id }
  | call (key : Nat) (caller : Caller) (v : World) (hk : w.callers.lookup key = some caller) (hcall : Called w key caller v) :
      Stepped cfg w (.call key) v
  | giveUp (key : Nat) (caller : Caller) (permits : Nat) (hk : w.callers.lookup key = some caller)
      (hgate : w.gate ≠ some (.caller key)) :
      Stepped cfg w (.giveUp key) { w with callers := w.callers.erase key, permits }
  | shutdown (trigger : ShutdownTrigger) (hnone : w.shutdown = none) :
      Stepped cfg w (.shutdown trigger) { w with shutdown := some trigger.script }
  | shutdownStep (instr : ShutdownInstr) (todo : List ShutdownInstr) (v : World) (htodo : w.shutdown = some (instr :: todo))
      (hstep : w.shutdownStep instr todo = some v) : Stepped cfg w .shutdownStep v
  | listen (branch : World.Branch) (v : World) (hjob : w.job = none) (hlisten : Listened w v) :
      Stepped cfg w (.listen branch) v
  | work (job : Job) (v : World) (hjob : w.job = some job) (hwork : Worked w job v) : Stepped cfg w .work v
  | owner (key : Nat) (action : Core.OwnerAction) (o : Owner) (core : Core) (ho : w.core.owners.lookup key = some o)
      (hfree : w.blocked o action = false) (hcore : w.core.stepOwner key action = some core) :
      Stepped cfg w (.owner key action) { w with core }
  | reap (key : Nat) (poisoned : Bool) (core : Core) (hcore : w.core.stepReap key poisoned = some core) :
      Stepped cfg w (.reap key poisoned) { w with core }
  | actor (id : TaskId) (action : Core.ActorAction) (core : Core) (completions : List TaskId)
      (hcore : w.core.stepActor id action = some core) : Stepped cfg w (.actor id action) { w with core, completions }
  | stray (id : TaskId) (completions : List TaskId) : Stepped cfg w (.stray id) { w with completions }

theorem step_cases {a : World.Action} (hs : w.step cfg a = some w') : Stepped cfg w a w' := by
  cases a with
  | begin c =>
      simp only [World.step] at hs
      split at hs
      · next hf =>
        cases hs
        obtain ⟨hnodup, hfresh⟩ := of_decide_eq_true hf
        exact .begin c hnodup hfresh
      · cases hs
  | call key =>
      obtain ⟨caller, hk, hc⟩ := Option.bind_eq_some_iff.mp hs
      exact .call key caller w' hk (call_cases hc)
  | giveUp key =>
      simp only [World.step] at hs
      split at hs
      · next caller hk =>
        split at hs
        · cases hs
        · next hg => cases hs; exact .giveUp key caller _ hk hg
      · cases hs
  | shutdown trigger =>
      simp only [World.step] at hs
      split at hs
      · cases hs
      · next hn => cases hs; exact .shutdown trigger (by simpa using hn)
  | shutdownStep =>
      simp only [World.step] at hs
      split at hs
      · next instr todo ht => exact .shutdownStep instr todo w' ht hs
      · cases hs
  | listen branch =>
      simp only [World.step] at hs
      split at hs
      · cases hs
      · next hj => exact .listen branch w' (by simpa using hj) (listen_cases hs)
  | work =>
      obtain ⟨job, hj, hw⟩ := Option.bind_eq_some_iff.mp hs
      exact .work job w' hj (work_cases hw)
  | owner key action =>
      simp only [World.step, World.ownerStep] at hs
      split at hs
      · cases hs
      · next o ho =>
        split at hs
        · next hc =>
          obtain ⟨core, hcore, rfl⟩ := Option.map_eq_some_iff.mp hs
          have hfree : w.blocked o action = false := by simpa using (Bool.and_eq_true_iff.mp hc).2
          exact .owner key action o core ho hfree hcore
        · cases hs
  | reap key poisoned =>
      obtain ⟨core, hcore, rfl⟩ := Option.map_eq_some_iff.mp hs
      exact .reap key poisoned core hcore
  | actor id action =>
      obtain ⟨core, hcore, rfl⟩ := Option.map_eq_some_iff.mp hs
      unfold World.signalled
      split
      · split
        · exact .actor id action core w.completions hcore
        · exact .actor id action core _ hcore
      · exact .actor id action core w.completions hcore
  | stray id =>
      simp only [World.step] at hs
      split at hs
      · cases hs
      · cases hs; exact .stray id _

end Taskvisor.Registry.Steps
