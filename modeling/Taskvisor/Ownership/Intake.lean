import Taskvisor.Ownership.Headcount

namespace Taskvisor.Ownership.Intake

open Lib Workers Backlog Headcount

variable {q : WorkerQueue} {w w' : World} {s : WorkerState} {i : Nat} {a : Worker} {elapsed : Bool}

/-- A step of the threads, or a thread that cannot be had: no thread is
created, it does not take its launch, or a core worker does not report. -/
inductive Event
  | act (action : Action)
  | spawnFails (caller : Caller)
  | startFails

/-- The queue with the books of an observer: the batches accepted and the
batches taken with their workers, each in order, the batches whose worker is
done with them, and the passes through `take`. -/
structure Record where
  world : World
  failed : Bool
  accepted : List DropBatch
  taken : List (Nat × DropBatch)
  finished : Nat
  entries : Nat

def isStartup : Action → Bool
  | .startCore => true
  | .launch => true
  | .acknowledge => true
  | _ => false

def intake : Action → List DropBatch
  | .submit batch _ => [batch]
  | _ => []

def disposal : Action → Nat
  | .finish _ => 1
  | .unwind _ => 1
  | _ => 0

/-- The passes of a step through the loop of `take`. -/
def passes (w : World) (x : Action) : Nat := (entering w x).isSome.toNat

/-- The worker of a step, when it goes through the loop of `take`, with the
batch it then has. -/
def pickup (w w' : World) (x : Action) : List (Nat × DropBatch) :=
  match x with
  | .take i _ => ((w'.workers[i]?).bind fun a => (inHand a.position).map fun batch => (i, batch)).toList
  | .wake i _ =>
      if (entering w x).isSome then
        ((w'.workers[i]?).bind fun a => (inHand a.position).map fun batch => (i, batch)).toList
      else []
  | _ => []

namespace Record

def new : Record := ⟨.new, false, [], [], 0, 0⟩

def after (r : Record) (x : Action) (w : World) : Record where
  world := w
  failed := r.failed
  accepted := r.accepted ++ intake x
  taken := r.taken ++ pickup r.world w x
  finished := r.finished + disposal x
  entries := r.entries + passes r.world x

def step (q : WorkerQueue) (r : Record) : Event → Option Record
  | .act x => if r.failed && isStartup x then none else (r.world.step q x).map (r.after x)
  | .spawnFails caller =>
      match r.world.spawnOf caller with
      | some .check => some { r with world := r.world.moveSpawn caller }
      | _ => none
  | .startFails =>
      match r.failed, r.world.startup with
      | false, .fresh => some { r with failed := true }
      | false, .launching k =>
          if k < q.coreWorkers then
            some { r with failed := true, world := { r.world with state := r.world.state.close }.notifyAll }
          else none
      | false, .handshake _ =>
          some { r with failed := true, world := { r.world with state := r.world.state.close }.notifyAll }
      | _, _ => none

end Record

def machine (q : WorkerQueue) : Machine Record Event := ⟨Record.new, Record.step q⟩

/-- Each pass takes the batch at the head of the queue, if there is one. -/
structure Flow (w w' : World) (x : Action) : Prop where
  queue : w'.state.queue = (w.state.queue ++ intake x).drop (passes w x)
  taken : (pickup w w' x).map Prod.snd = (w.state.queue ++ intake x).take (passes w x)
  running : w.state.runningBatches + (pickup w w' x).length = w'.state.runningBatches + disposal x
  closed : w.state.closed = true → w'.state.closed = true ∧ intake x = []

/-- The step of a worker or of `start_core` that is no pass and does not touch
the queue. -/
theorem Flow.still {x : Action} (hx : intake x = []) (hp : passes w x = 0) (ht : pickup w w' x = [])
    (hq : w'.state.queue = w.state.queue) (hr : w.state.runningBatches = w'.state.runningBatches + disposal x)
    (hc : w'.state.closed = w.state.closed) : Flow w w' x where
  queue := by simp [hx, hp, hq]
  taken := by simp [hp, ht]
  running := by simp [ht, hr]
  closed := fun h => ⟨hc.trans h, hx⟩

theorem settle_now (w : World) (i : Nat) (a : Worker) (r : Release × WorkerState) :
    (w.settle i a r).state = r.2 := by
  obtain ⟨r, s⟩ := r
  rcases r with (_ | _) | _ | (_ | _) <;> rfl

theorem reserve_same (q : WorkerQueue) (s : WorkerState) :
    (q.reserveElasticLocked s).2.queue = s.queue ∧ (q.reserveElasticLocked s).2.runningBatches = s.runningBatches ∧
      (q.reserveElasticLocked s).2.closed = s.closed := by
  rcases reserve_cases q s with ⟨he, -⟩ | ⟨he, -⟩ <;> rw [he] <;> exact ⟨rfl, rfl, rfl⟩

theorem conclude_same (q : WorkerQueue) (core : Bool) (batch : DropBatch) (s : WorkerState) :
    (q.conclude core batch s).2.queue = s.queue ∧ (q.conclude core batch s).2.runningBatches = s.runningBatches ∧
      (q.conclude core batch s).2.closed = s.closed := by
  rcases conclude_cases q core batch s with ⟨he, -⟩ | he <;> rw [he] <;> exact ⟨rfl, rfl, rfl⟩

theorem settle_conclude (hi : w.workers[i]? = some a) (core : Bool) (batch : DropBatch) :
    ∃ c, (w.settle i a (q.conclude core batch s)).workers[i]? = some c ∧ inHand c.position = some batch := by
  have hlt := (List.getElem?_eq_some_iff.mp hi).1
  rcases conclude_cases q core batch s with ⟨he, -⟩ | he <;> rw [he]
  · exact ⟨(a.move (.spawning batch .check)).notify, by simp [World.settle, World.put, World.notifyAll, hlt], rfl⟩
  · exact ⟨(a.move (.running batch)).notify, by simp [World.settle, World.put, World.notifyAll, hlt], rfl⟩

/-- One pass through the loop of `take`, whatever the worker does next. -/
theorem settle_take (hi : w.workers[i]? = some a) (core elapsed : Bool) :
    ∃ c, (w.settle i a (q.takeLocked core elapsed s)).workers[i]? = some c ∧ inHand c.position = s.queue.head? ∧
      (q.takeLocked core elapsed s).2.queue = s.queue.tail ∧
      (q.takeLocked core elapsed s).2.runningBatches = s.runningBatches + s.queue.head?.toList.length ∧
      (q.takeLocked core elapsed s).2.closed = s.closed := by
  have hlt := (List.getElem?_eq_some_iff.mp hi).1
  cases hq : s.queue with
  | nil =>
      simp only [WorkerQueue.takeLocked, hq]
      split
      · exact ⟨a.move .leaving, by simp [World.settle, World.put, hlt], rfl, by simp [hq], rfl, rfl⟩
      · refine ⟨{ a with started := false, position := .idle .waiting }, ?_, rfl, by simp, rfl, rfl⟩
        rw [World.settle]
        split <;> simp [World.put, World.notifyAll, hlt]
  | cons batch queue =>
      simp only [WorkerQueue.takeLocked, hq]
      split
      · exact ⟨a.move (.expanding batch .waiting), by simp [World.settle, World.put, hlt], rfl, rfl, rfl, rfl⟩
      · obtain ⟨c, hc, hb⟩ := settle_conclude (q := q) (s := { s with queue, runningBatches := s.runningBatches + 1 })
          hi core batch
        obtain ⟨h₁, h₂, h₃⟩ := conclude_same q core batch { s with queue, runningBatches := s.runningBatches + 1 }
        exact ⟨c, hc, hb, h₁, h₂, h₃⟩

theorem Flow.pass {x : Action} (hi : w.workers[i]? = some a) (core elapsed : Bool)
    (hs : s.queue = w.state.queue ∧ s.runningBatches = w.state.runningBatches ∧ s.closed = w.state.closed)
    (hx : intake x = [] ∧ disposal x = 0) (hp : passes w x = 1) (hpick : ∀ w', pickup w w' x =
      ((w'.workers[i]?).bind fun a => (inHand a.position).map fun batch => (i, batch)).toList) :
    Flow w (w.settle i a (q.takeLocked core elapsed s)) x := by
  obtain ⟨c, hc, hb, hqueue, hrunning, hclosed⟩ := settle_take (q := q) (s := s) hi core elapsed
  have htaken : pickup w (w.settle i a (q.takeLocked core elapsed s)) x =
      (w.state.queue.head?.map fun batch => (i, batch)).toList := by
    rw [hpick, hc, ← hs.1, ← hb]
    rfl
  refine ⟨?_, ?_, ?_, fun h => ⟨?_, hx.1⟩⟩
  · rw [settle_now, hqueue, hs.1, hp, hx.1, List.append_nil, List.drop_one]
  · rw [htaken, hp, hx.1, List.append_nil]
    cases w.state.queue <;> rfl
  · rw [htaken, settle_now, hrunning, hs.1, hs.2.1, hx.2]
    cases w.state.queue <;> rfl
  · rw [settle_now, hclosed, hs.2.2, h]

theorem notifyOne_state {woken : Option Nat} (hn : w.notifyOne woken = some w') : w'.state = w.state := by
  cases woken with
  | none =>
      obtain ⟨-, rfl⟩ : w.workers.all (fun a => !a.position.isWaiting) = true ∧ w = w' := by
        simpa [World.notifyOne] using hn
      rfl
  | some i =>
      obtain ⟨a, hi, hif⟩ := Option.bind_eq_some_iff.mp hn
      obtain ⟨hw, rfl⟩ : a.position.isWaiting = true ∧ w.put i a.notify w.state = w' := by simpa using hif
      rfl

theorem Flow.submit {batch : DropBatch} {woken : Option Nat} {spawn : Bool} {subs : List Spawn}
    (hs : q.submit w.state batch = some (spawn, s))
    (hn : ({ w with state := s, submitters := subs } : World).notifyOne woken = some w') :
    Flow w w' (.submit batch woken) := by
  have hopen : w.state.closed = false := by
    by_contra hc
    simp [WorkerQueue.submit, hc] at hs
  have hreserve : q.reserveElasticLocked { w.state with queue := w.state.queue ++ [batch] } = (spawn, s) := by
    simpa [WorkerQueue.submit, hopen] using hs
  obtain ⟨hqueue, hrunning, -⟩ := reserve_same q { w.state with queue := w.state.queue ++ [batch] }
  rw [hreserve] at hqueue hrunning
  refine ⟨?_, ?_, ?_, fun h => ?_⟩
  · rw [notifyOne_state hn]
    exact hqueue
  · rfl
  · rw [notifyOne_state hn]
    exact hrunning.symm
  · simp [hopen] at h

theorem Flow.wake (hs : w.step q (.wake i elapsed) = some w') : Flow w w' (.wake i elapsed) := by
  simp only [World.step] at hs
  cases hi : w.workers[i]? with
  | none => simp [hi] at hs
  | some a =>
      cases hp : a.position with
      | idle wait =>
          cases wait with
          | waiting => simp [hi, hp] at hs
          | awake t =>
              have hentering : (entering w (.wake i elapsed)).isSome = true := by simp [entering, hi, hp]
              have hpasses : passes w (.wake i elapsed) = 1 := congrArg Bool.toNat hentering
              simp only [hi, hp] at hs
              split at hs
              · next hx =>
                cases hs
                have hq : w.state.queue = [] := by
                  simp only [Bool.and_eq_true, List.isEmpty_iff] at hx
                  exact hx.2
                have hlt := (List.getElem?_eq_some_iff.mp hi).1
                have htaken : pickup w (w.put i (a.move .gone) w.state.unidle.retire) (.wake i elapsed) = [] := by
                  simp [pickup, World.put, hlt, Worker.move, inHand]
                refine ⟨?_, ?_, ?_, fun h => ⟨h, rfl⟩⟩
                · simp [hpasses, hq, intake, World.put, WorkerState.unidle, WorkerState.retire]
                · simp [hq, htaken, intake]
                · rw [htaken]
                  rfl
              · cases hs
                exact .pass hi _ _ ⟨rfl, rfl, rfl⟩ ⟨rfl, rfl⟩ hpasses fun v => if_pos hentering
      | _ => simp [hi, hp] at hs

theorem flow_step (h : Kept q w) {x : Action} (hs : w.step q x = some w') : Flow w w' x := by
  cases x with
  | startCore =>
      simp only [World.step] at hs
      split at hs
      · cases hs; exact .still rfl rfl rfl rfl rfl rfl
      · cases hs
  | launch =>
      simp only [World.step] at hs
      split at hs
      · split at hs
        · cases hs; exact .still rfl rfl rfl rfl rfl rfl
        · cases hs; exact .still rfl rfl rfl rfl rfl rfl
      · cases hs
  | acknowledge =>
      simp only [World.step] at hs
      split at hs
      · split at hs
        · split at hs
          · cases hs
          · cases hs; exact .still rfl rfl rfl rfl rfl rfl
        · cases hs
      · cases hs
  | submit batch woken =>
      simp only [World.step] at hs
      split at hs
      · next hsub => exact .submit hsub hs
      · cases hs
  | spawnElastic caller =>
      simp only [World.step] at hs
      split at hs
      · split at hs
        · cases hs
          cases caller <;> exact .still rfl rfl rfl rfl rfl rfl
        · cases hs
          cases caller <;> exact .still rfl rfl rfl rfl rfl rfl
      · cases hs
  | cancelStarting caller =>
      simp only [World.step] at hs
      split at hs
      · cases hs; exact .still rfl rfl rfl rfl rfl rfl
      · cases hs
  | take i elapsed =>
      simp only [World.step] at hs
      split at hs
      · next a hi =>
        split at hs
        · next hp =>
          cases hs
          exact .pass hi _ _ ⟨rfl, rfl, rfl⟩ ⟨rfl, rfl⟩ (by simp [passes, entering, hi, hp]) fun v => rfl
        · next hp =>
          cases hs
          exact .pass hi _ _ ⟨rfl, rfl, rfl⟩ ⟨rfl, rfl⟩ (by simp [passes, entering, hi, hp]) fun v => rfl
        · cases hs
      · cases hs
  | rouse i timedOut =>
      simp only [World.step] at hs
      split at hs
      · split at hs
        · cases hs; exact .still rfl rfl rfl rfl rfl rfl
        · cases hs
      · cases hs
  | wake i elapsed => exact .wake hs
  | resume i elapsed =>
      simp only [World.step] at hs
      split at hs
      · next a hi =>
        split at hs
        · next batch t hp =>
          cases hs
          obtain ⟨hqueue, hrunning, hclosed⟩ := conclude_same q a.core batch w.state
          rw [WorkerQueue.resume]
          split
          · exact .still rfl rfl rfl rfl rfl rfl
          · exact .still rfl rfl rfl (by rw [settle_now, hqueue]) (by rw [settle_now, hrunning]; rfl)
              (by rw [settle_now, hclosed])
        · cases hs
      · cases hs
  | finish i =>
      simp only [World.step] at hs
      split at hs
      · next a hi =>
        split at hs
        · next hp =>
          cases hs
          have hpos := h.running_pos hi (by rw [hp]; rfl)
          exact .still rfl rfl rfl rfl (Nat.sub_add_cancel hpos).symm rfl
        · cases hs
      · cases hs
  | unwind i =>
      simp only [World.step] at hs
      split at hs
      · next a hi =>
        split at hs
        · next hp =>
          cases hs
          have hpos := h.running_pos hi (by rw [hp]; rfl)
          exact .still rfl rfl rfl rfl (Nat.sub_add_cancel hpos).symm rfl
        · cases hs
      · cases hs
  | exited i =>
      simp only [World.step] at hs
      split at hs
      · split at hs
        · cases hs
          obtain ⟨hqueue, hrunning, hclosed⟩ := reserve_same q w.state.retire
          exact .still rfl rfl rfl hqueue hrunning.symm hclosed
        · cases hs
      · cases hs
  | close =>
      simp only [World.step] at hs
      split at hs
      · cases hs
        exact ⟨by simp [World.notifyAll, WorkerState.close, passes, entering, intake], rfl, rfl, fun _ => ⟨rfl, rfl⟩⟩
      · cases hs

variable {r r' : Record}

structure Audited (q : WorkerQueue) (r : Record) : Prop where
  kept : Kept q r.world
  accepted : r.accepted = r.taken.map Prod.snd ++ r.world.state.queue
  taken : r.taken.length = r.finished + r.world.state.runningBatches

theorem step_act {x : Action} (hs : r.step q (.act x) = some r') :
    ∃ w, r.world.step q x = some w ∧ r' = r.after x w := by
  simp only [Record.step] at hs
  split at hs
  · cases hs
  · obtain ⟨w, hw, rfl⟩ := Option.map_eq_some_iff.mp hs
    exact ⟨w, hw, rfl⟩

theorem step_spawnFails {caller : Caller} (hs : r.step q (.spawnFails caller) = some r') :
    ∃ x, r.world.spawnOf caller = some x ∧ r' = { r with world := r.world.moveSpawn caller } := by
  simp only [Record.step] at hs
  split at hs
  · next hc => exact ⟨_, hc, (Option.some_inj.mp hs).symm⟩
  · cases hs

theorem step_startFails (hs : r.step q .startFails = some r') :
    r.world.startup ≠ .ready ∧ (r' = { r with failed := true } ∨ r.world.startup ≠ .fresh ∧
      r' = { r with failed := true, world := { r.world with state := r.world.state.close }.notifyAll }) := by
  simp only [Record.step] at hs
  split at hs
  · next hf =>
    cases hs
    exact ⟨by simp [hf], .inl rfl⟩
  · next hf =>
    split at hs
    · cases hs
      exact ⟨by simp [hf], .inr ⟨by simp [hf], rfl⟩⟩
    · cases hs
  · next hf =>
    cases hs
    exact ⟨by simp [hf], .inr ⟨by simp [hf], rfl⟩⟩
  · cases hs

theorem Audited.step (h : Audited q r) {e : Event} (hs : r.step q e = some r') : Audited q r' := by
  cases e with
  | act x =>
      obtain ⟨w, hw, rfl⟩ := step_act hs
      have hf := flow_step h.kept hw
      have htaken := h.taken
      have hrunning := hf.running
      refine ⟨h.kept.step hw, ?_, ?_⟩
      · simp only [Record.after]
        rw [h.accepted, List.map_append, hf.taken, hf.queue, List.append_assoc, List.append_assoc,
          List.take_append_drop]
      · simp only [Record.after, List.length_append]
        omega
  | spawnFails caller =>
      obtain ⟨x, hc, rfl⟩ := step_spawnFails hs
      have hsame : (r.world.moveSpawn caller).state = r.world.state := by cases caller <;> rfl
      refine ⟨h.kept.moveSpawn hc, ?_, ?_⟩
      · rw [hsame]
        exact h.accepted
      · rw [hsame]
        exact h.taken
  | startFails =>
      obtain ⟨-, rfl | ⟨hf, rfl⟩⟩ := step_startFails hs
      · exact ⟨h.kept, h.accepted, h.taken⟩
      · exact ⟨h.kept.close hf, h.accepted, h.taken⟩

theorem audited_of_reachable (h : (machine q).Reachable r) : Audited q r :=
  h.invariant ⟨kept_new, rfl, rfl⟩ fun _ _ _ _ hr hs => hr.step hs

/-- What has happened to the queue of `r` by the time of `r'`: every pass
through `take` took its head. -/
structure Drained (r r' : Record) : Prop where
  closed : r'.world.state.closed = true
  accepted : r'.accepted = r.accepted
  entries : r.entries ≤ r'.entries
  queue : r'.world.state.queue = r.world.state.queue.drop (r'.entries - r.entries)
  taken : r'.taken.map Prod.snd = r.taken.map Prod.snd ++ r.world.state.queue.take (r'.entries - r.entries)

theorem Drained.refl (h : r.world.state.closed = true) : Drained r r :=
  ⟨h, rfl, Nat.le_refl _, by simp, by simp⟩

theorem Drained.trans {r₁ r₂ r₃ : Record} (h : Drained r₁ r₂) (h' : Drained r₂ r₃) : Drained r₁ r₃ := by
  have he := h.entries
  have he' := h'.entries
  have hsum : r₃.entries - r₁.entries = (r₂.entries - r₁.entries) + (r₃.entries - r₂.entries) := by omega
  refine ⟨h'.closed, h'.accepted.trans h.accepted, Nat.le_trans he he', ?_, ?_⟩
  · rw [h'.queue, h.queue, List.drop_drop, hsum]
  · rw [h'.taken, h.taken, h.queue, hsum, List.take_add, List.append_assoc]

theorem Audited.drained_step (h : Audited q r) (hc : r.world.state.closed = true) {e : Event}
    (hs : r.step q e = some r') : Drained r r' := by
  cases e with
  | act x =>
      obtain ⟨w, hw, rfl⟩ := step_act hs
      have hf := flow_step h.kept hw
      obtain ⟨hclosed, hx⟩ := hf.closed hc
      have hn : (r.after x w).entries - r.entries = passes r.world x := Nat.add_sub_cancel_left ..
      refine ⟨hclosed, ?_, Nat.le_add_right _ _, ?_, ?_⟩
      · simp [Record.after, hx]
      · rw [hn]
        simpa [Record.after, hx] using hf.queue
      · rw [hn]
        simpa [Record.after, hx] using hf.taken
  | spawnFails caller =>
      obtain ⟨x, -, rfl⟩ := step_spawnFails hs
      cases caller <;> exact ⟨hc, rfl, Nat.le_refl _, by simp [World.moveSpawn], by simp⟩
  | startFails =>
      obtain ⟨-, rfl | ⟨-, rfl⟩⟩ := step_startFails hs
      · exact ⟨hc, rfl, Nat.le_refl _, by simp, by simp⟩
      · exact ⟨rfl, rfl, Nat.le_refl _, by simp [World.notifyAll, WorkerState.close], by simp⟩

theorem Audited.drained (h : (machine q).Reachable r) (hc : r.world.state.closed = true) {es : List Event}
    (hs : (machine q).after r es = some r') : Drained r r' :=
  h.keeps (P := Drained r) (.refl hc)
    (fun _ _ _ ht hd hs => hd.trans ((audited_of_reachable ht).drained_step hd.closed hs)) hs

/-- In every run the counters keep their places and no subtraction clamps, the
batches are taken in the order in which they were accepted, each by the one
worker that has it or is done with it, and on a closed queue no worker waits
and every pass through `take` takes the next batch left. -/
theorem worker_accounting (q : WorkerQueue) (r : Record) (h : (machine q).Reachable r) :
    Within q r.world ∧ (∀ x w', r.world.step q x = some w' → ∀ n ∈ decrements r.world x, 0 < n) ∧
      r.accepted = r.taken.map Prod.snd ++ r.world.state.queue ∧
      r.taken.length = r.finished + tally isHolding r.world.workers ∧
      (r.world.state.closed = true → (∀ a ∈ r.world.workers, a.position.isWaiting = false) ∧
        ∀ es r', (machine q).after r es = some r' → Drained r r') := by
  have ha := audited_of_reachable h
  refine ⟨ha.kept.within, fun _ _ hs _ hn => ha.kept.unclamped hs hn, ha.accepted, ?_,
    fun hc => ⟨ha.kept.roused hc, ?_⟩⟩
  · rw [← ha.kept.running]
    exact ha.taken
  · exact fun _ _ hs => Audited.drained h hc hs

/-- Three core workers are blocked, a fourth thread cannot be had, and the
batch behind them is taken after the queue was closed. -/
theorem worker_accounting_closed :
    ∃ r, (machine defaultQueue).after Record.new (blockedRun.map Event.act ++ [.act (.submit 3 none),
        .spawnFails (.submitter 0), .act (.cancelStarting (.submitter 0)), .act .close, .act (.finish 0),
        .act (.take 0 false)]) = some r ∧
      r.taken = [(0, 0), (1, 1), (2, 2), (0, 3)] ∧ r.accepted = [0, 1, 2, 3] ++ r.world.state.queue ∧
      r.world.state.closed = true ∧ Within defaultQueue r.world := by
  obtain ⟨r, hr, hp⟩ := (Option.any_eq_true (fun r : Record => decide (r.taken = [(0, 0), (1, 1), (2, 2), (0, 3)] ∧
      r.world.state.closed = true)) _).mp
    (show (Machine.after (machine defaultQueue) Record.new (blockedRun.map Event.act ++ [.act (.submit 3 none),
      .spawnFails (.submitter 0), .act (.cancelStarting (.submitter 0)), .act .close, .act (.finish 0),
      .act (.take 0 false)])).any _ = true by decide +kernel)
  obtain ⟨htaken, hclosed⟩ := of_decide_eq_true hp
  obtain ⟨hwithin, -, haccepted, -, -⟩ := worker_accounting defaultQueue r (Machine.Reachable.after .init hr)
  exact ⟨r, hr, htaken, by rw [haccepted, htaken]; rfl, hclosed, hwithin⟩

end Taskvisor.Ownership.Intake
