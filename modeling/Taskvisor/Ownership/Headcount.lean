import Taskvisor.Ownership.Backlog

namespace Taskvisor.Ownership.Headcount

open Lib Workers Backlog

variable {q : WorkerQueue} {w w' : World} {s : WorkerState} {i : Nat} {a b : Worker} {ws : List Worker}

def inHand : Position → Option DropBatch
  | .expanding batch _ => some batch
  | .spawning batch _ => some batch
  | .running batch => some batch
  | _ => none

def isHolding (x : Position) : Bool := (inHand x).isSome

/-- The values that the saturating subtractions of a step start from. -/
def decrements (w : World) : Action → List Nat
  | .cancelStarting _ => [w.state.startingWorkers]
  | .take i _ =>
      match w.workers[i]? with
      | some worker => if worker.position = .launched then [w.state.startingWorkers] else []
      | none => []
  | .wake i _ =>
      match w.workers[i]? with
      | some worker =>
          match worker.position with
          | .idle (.awake timedOut) =>
              w.state.idleWorkers ::
                if !worker.core && timedOut && w.state.queue.isEmpty then [w.state.liveWorkers] else []
          | _ => []
      | none => []
  | .finish _ => [w.state.runningBatches]
  | .unwind _ => [w.state.runningBatches]
  | .exited _ => [w.state.liveWorkers]
  | _ => []

/-- The core workers launched and those that have reported. -/
def launched : Startup → Nat
  | .handshake k => k + 1
  | .launching k => k
  | _ => 0

def reported : Startup → Nat
  | .handshake k => k
  | .launching k => k
  | _ => 0

/-- Until `start_core` is over nothing is queued and only core workers run. -/
structure Early (w : World) : Prop where
  queue : w.state.queue = []
  submitters : w.submitters = []
  workers : ∀ a ∈ w.workers, a.core = true ∧ isHolding a.position = false ∧ a.position.spawn = none
  length : w.workers.length = launched w.startup
  reported : ∀ j a, j < reported w.startup → w.workers[j]? = some a → a.started = false

structure Kept (q : WorkerQueue) (w : World) : Prop where
  counted : Counted q w
  running : w.state.runningBatches = tally isHolding w.workers
  single : w.startup = .ready → w.state.startingWorkers ≤ 1
  early : w.startup ≠ .ready → Early w
  unreported : ∀ a ∈ w.workers, a.position = .launched → a.core = true → a.started = true
  roused : w.state.closed = true → ∀ a ∈ w.workers, a.position.isWaiting = false

@[simp] theorem inHand_rouse (t : Bool) (x : Position) : inHand (x.rouse t) = inHand x :=
  rouse_congr rfl (fun _ => rfl) x

@[simp] theorem isHolding_rouse (t : Bool) (x : Position) : isHolding (x.rouse t) = isHolding x := by
  rw [isHolding, inHand_rouse, isHolding]

theorem rouse_launched {t : Bool} {x : Position} : x.rouse t = .launched ↔ x = .launched := by
  unfold Position.rouse
  split <;> simp

/-- What a worker may become while `start_core` is not over. -/
structure Docile (a b : Worker) : Prop where
  core : b.core = a.core
  holding : isHolding b.position = false
  spawn : b.position.spawn = none
  started : a.started = false → b.started = false

theorem Early.put (h : Early w) (hi : w.workers[i]? = some a) (hq : s.queue = []) (hb : Docile a b) :
    Early (w.put i b s) where
  queue := hq
  submitters := h.submitters
  workers := fun c hc => by
    rcases List.mem_or_eq_of_mem_set hc with hc | rfl
    · exact h.workers c hc
    · exact ⟨hb.core.trans (h.workers a (List.mem_of_getElem? hi)).1, hb.holding, hb.spawn⟩
  length := by simpa [World.put] using h.length
  reported := fun j c hj hc => by
    by_cases hij : i = j
    · subst hij
      obtain rfl : b = c := by
        have hlt := (List.getElem?_eq_some_iff.mp hi).1
        simpa [World.put, hlt] using hc
      exact hb.started (h.reported i a hj hi)
    · exact h.reported j c hj (by simpa [World.put, hij] using hc)

theorem Early.notifyAll (h : Early w) : Early w.notifyAll where
  queue := h.queue
  submitters := h.submitters
  workers := fun c hc => by
    obtain ⟨a, ha, rfl⟩ := List.mem_map.mp hc
    simpa [Worker.notify, Worker.move] using h.workers a ha
  length := by simpa [World.notifyAll] using h.length
  reported := fun j c hj hc => by
    obtain ⟨a, ha, rfl⟩ := Option.map_eq_some_iff.mp (List.getElem?_map.symm.trans hc)
    exact h.reported j a hj ha

/-- One worker moves and the counters move with it. -/
theorem Kept.put (h : Kept q w) (hi : w.workers[i]? = some a)
    (hidle : s.idleWorkers + (isIdle a.position).toNat = w.state.idleWorkers + (isIdle b.position).toNat)
    (hstarting : s.startingWorkers + (isStarting a.position).toNat =
      w.state.startingWorkers + (isStarting b.position).toNat)
    (hlive : s.liveWorkers + (isActive a.position).toNat = w.state.liveWorkers + (isActive b.position).toNat)
    (hrunning : s.runningBatches + (isHolding a.position).toNat =
      w.state.runningBatches + (isHolding b.position).toNat)
    (hmax : s.liveWorkers + s.startingWorkers ≤ q.maxWorkers)
    (hsingle : w.startup = .ready → s.startingWorkers ≤ 1)
    (hearly : w.startup ≠ .ready → s.queue = [] ∧ Docile a b) (hlaunched : b.position ≠ .launched)
    (hclosed : s.closed = true → w.state.closed = true ∧ b.position.isWaiting = false) : Kept q (w.put i b s) where
  counted := h.counted.put hi hidle hstarting hlive hmax
  running := by
    have hs := tally_set (p := isHolding) (b := b) hi
    have hw := h.running
    simp only [World.put]
    omega
  single := hsingle
  early := fun hr => (h.early hr).put hi (hearly hr).1 (hearly hr).2
  unreported := fun c hc hp => by
    rcases List.mem_or_eq_of_mem_set hc with hc | rfl
    · exact h.unreported c hc hp
    · exact absurd hp hlaunched
  roused := fun hs c hc => by
    rcases List.mem_or_eq_of_mem_set hc with hc | rfl
    · exact h.roused (hclosed hs).1 c hc
    · exact (hclosed hs).2

theorem Kept.notifyAll (h : Kept q w) : Kept q w.notifyAll where
  counted := h.counted.notifyAll
  running := h.running.trans (tally_map fun _ => isHolding_rouse _ _).symm
  single := h.single
  early := fun hr => (h.early hr).notifyAll
  unreported := fun c hc hp => by
    obtain ⟨a, ha, rfl⟩ := List.mem_map.mp hc
    exact h.unreported a ha (rouse_launched.mp hp)
  roused := fun _ c hc => by
    obtain ⟨a, ha, rfl⟩ := List.mem_map.mp hc
    exact isWaiting_rouse _ _

theorem conclude_cases (q : WorkerQueue) (core : Bool) (batch : DropBatch) (s : WorkerState) :
    q.conclude core batch s = (.done (.batch batch true), { s with startingWorkers := s.startingWorkers + 1 }) ∧
      s.startingWorkers = 0 ∧ s.liveWorkers < q.maxWorkers ∨
    q.conclude core batch s = (.done (.batch batch false), s) := by
  by_cases hm : q.mayReserve core s = true
  · rcases reserve_cases q s with ⟨hr, hs, hl⟩ | ⟨hr, -⟩
    · exact .inl ⟨by simp [WorkerQueue.conclude, hm, hr], hs, hl⟩
    · exact .inr (by simp [WorkerQueue.conclude, hm, hr])
  · exact .inr (by simp [WorkerQueue.conclude, hm])

/-- A live worker that has the batch in hand. -/
structure Carrying (w : World) (s : WorkerState) (a : Worker) : Prop where
  ready : w.startup = .ready
  idle : isIdle a.position = false
  starting : isStarting a.position = false
  active : isActive a.position = true
  idleWorkers : s.idleWorkers = w.state.idleWorkers
  startingWorkers : s.startingWorkers = w.state.startingWorkers
  liveWorkers : s.liveWorkers = w.state.liveWorkers
  running : s.runningBatches + (isHolding a.position).toNat = w.state.runningBatches + 1
  closed : s.closed = w.state.closed

/-- The worker goes on with its batch, and with as many starting workers more
as it has a start in hand. -/
theorem Kept.carry (h : Kept q w) (hi : w.workers[i]? = some a) (hc : Carrying w s a) {x : Position} {n : Nat}
    (hidle : isIdle x = false) (hactive : isActive x = true) (hholding : isHolding x = true) (hx : x ≠ .launched)
    (hn : n = s.startingWorkers + (isStarting x).toNat) (hmax : s.liveWorkers + n ≤ q.maxWorkers) (hsingle : n ≤ 1)
    (hwait : s.closed = true → x.isWaiting = false) :
    Kept q (w.put i (a.move x) { s with startingWorkers := n }) := by
  refine h.put hi ?_ ?_ ?_ ?_ hmax (fun _ => hsingle) (fun hr => absurd hc.ready hr) hx fun hs =>
    ⟨hc.closed.symm.trans hs, hwait hs⟩
  · rw [show isIdle (a.move x).position = false from hidle, hc.idle]
    exact congrArg (· + 0) hc.idleWorkers
  · rw [hc.starting, ← hc.startingWorkers]
    exact hn
  · rw [show isActive (a.move x).position = true from hactive, hc.active]
    exact congrArg (· + 1) hc.liveWorkers
  · rw [show isHolding (a.move x).position = true from hholding]
    exact hc.running

theorem Kept.expand (h : Kept q w) (hi : w.workers[i]? = some a) (hc : Carrying w s a) (batch : DropBatch)
    (hn : q.needsElasticLocked s = true) : Kept q (w.settle i a (.expand batch, s)) := by
  have hceil := h.counted.ceiling
  have hsingle := h.single hc.ready
  rw [← hc.liveWorkers, ← hc.startingWorkers] at hceil
  rw [← hc.startingWorkers] at hsingle
  have hopen := (needs_iff.mp hn).1
  exact h.carry (x := .expanding batch .waiting) hi hc rfl rfl rfl nofun rfl hceil hsingle
    fun hs => by simp [hopen] at hs

theorem Kept.conclude (h : Kept q w) (hi : w.workers[i]? = some a) (hc : Carrying w s a) (batch : DropBatch) :
    Kept q (w.settle i a (q.conclude a.core batch s)) := by
  have hceil := h.counted.ceiling
  have hsingle := h.single hc.ready
  rw [← hc.liveWorkers, ← hc.startingWorkers] at hceil
  rw [← hc.startingWorkers] at hsingle
  rcases conclude_cases q a.core batch s with ⟨he, hs, hl⟩ | he
  · rw [he]
    exact (h.carry (x := .spawning batch .check) hi hc rfl rfl rfl (by rintro ⟨⟩) rfl
      (by simpa [hs, isStarting] using Nat.succ_le_iff.mpr hl) (by simp [hs, isStarting]) fun _ => rfl).notifyAll
  · rw [he]
    exact (h.carry (x := .running batch) hi hc rfl rfl rfl (by rintro ⟨⟩) rfl hceil hsingle fun _ => rfl).notifyAll

theorem Kept.idle (h : Kept q w) (hi : w.workers[i]? = some a) (ht : a.position = .taking)
    (hq : w.state.queue = []) (hopen : w.state.closed = false) (announce : Bool) :
    Kept q (w.settle i a (.wait announce, { w.state with idleWorkers := w.state.idleWorkers + 1 })) := by
  have hput : ∀ {v : World} {c : Worker}, Kept q v → v.state = w.state → v.workers[i]? = some c →
      c.position = .taking → c.core = a.core →
      Kept q (v.put i { a with started := false, position := .idle .waiting }
        { w.state with idleWorkers := w.state.idleWorkers + 1 }) := by
    intro v c hv hs hc hp hcore
    refine hv.put hc ?_ ?_ ?_ ?_ ?_ ?_ (fun _ => ⟨hq, ⟨hcore.symm, rfl, rfl, fun _ => rfl⟩⟩) nofun fun hcl => ?_
    · simp [hp, hs, isIdle]
    · simp [hp, hs, isStarting]
    · simp [hp, hs, isActive]
    · simp [hp, hs, isHolding, inHand]
    · simpa only [hs] using hv.counted.ceiling
    · simpa only [hs] using hv.single
    · exact absurd hcl (by simp [hopen])
  cases announce with
  | false => exact hput h rfl hi ht rfl
  | true =>
      refine hput (c := a.notify) h.notifyAll rfl ?_ ?_ rfl
      · simp [World.notifyAll, hi]
      · simp [Worker.notify, Worker.move, ht, Position.rouse]

theorem Kept.exit (h : Kept q w) (hi : w.workers[i]? = some a) (ht : a.position = .taking)
    (hq : w.state.queue = []) : Kept q (w.settle i a (.done .exit, w.state)) := by
  refine h.put hi ?_ ?_ ?_ ?_ h.counted.ceiling h.single (fun _ => ⟨hq, rfl, rfl, rfl, id⟩) nofun fun hs => ⟨hs, rfl⟩
  all_goals simp [ht, Worker.move, isIdle, isStarting, isActive, isHolding, inHand]

theorem Kept.takeLocked (h : Kept q w) (hi : w.workers[i]? = some a) (ht : a.position = .taking) (elapsed : Bool) :
    Kept q (w.settle i a (q.takeLocked a.core elapsed w.state)) := by
  cases hq : w.state.queue with
  | nil =>
      by_cases hc : w.state.closed = true
      · simpa only [WorkerQueue.takeLocked, hq, hc, if_true] using h.exit hi ht hq
      · have hc : w.state.closed = false := by simpa using hc
        simpa only [WorkerQueue.takeLocked, hq, hc, Bool.false_eq_true, if_false] using h.idle hi ht hq hc _
  | cons batch queue =>
      have hready : w.startup = .ready := by
        by_contra hr
        simp [(h.early hr).queue] at hq
      have hc : Carrying w { w.state with queue, runningBatches := w.state.runningBatches + 1 } a := by
        refine ⟨hready, ?_, ?_, ?_, rfl, rfl, rfl, ?_, rfl⟩ <;>
          simp [ht, isIdle, isStarting, isActive, isHolding, inHand]
      simp only [WorkerQueue.takeLocked, hq]
      split
      · next hx =>
        simp only [Bool.and_eq_true, Bool.not_eq_true'] at hx
        exact h.expand hi hc batch hx.1.2
      · exact h.conclude hi hc batch

theorem Early.docile_rouse (h : Early w) (hi : w.workers[i]? = some a) (t : Bool) :
    Docile a (a.move (a.position.rouse t)) := by
  obtain ⟨-, hholding, hspawn⟩ := h.workers a (List.mem_of_getElem? hi)
  exact ⟨rfl, (isHolding_rouse _ _).trans hholding, (spawn_rouse _ _).trans hspawn, id⟩

theorem Kept.rouse (h : Kept q w) (hi : w.workers[i]? = some a) (hw : a.position.isWaiting = true) (t : Bool) :
    Kept q (w.put i (a.move (a.position.rouse t)) w.state) := by
  refine h.put hi ?_ ?_ ?_ ?_ h.counted.ceiling h.single
    (fun hr => ⟨(h.early hr).queue, (h.early hr).docile_rouse hi t⟩) ?_ fun hs => ⟨hs, isWaiting_rouse _ _⟩
  · exact congrArg (w.state.idleWorkers + ·.toNat) (isIdle_rouse _ _).symm
  · exact congrArg (w.state.startingWorkers + ·.toNat) (isStarting_rouse _ _).symm
  · exact congrArg (w.state.liveWorkers + ·.toNat) (isActive_rouse _ _).symm
  · exact congrArg (w.state.runningBatches + ·.toNat) (isHolding_rouse _ _).symm
  · intro hp
    rw [rouse_launched.mp hp] at hw
    cases hw

theorem Kept.notifyOne (h : Kept q w) {woken : Option Nat} (hn : w.notifyOne woken = some w') : Kept q w' := by
  cases woken with
  | none =>
      obtain ⟨-, rfl⟩ : w.workers.all (fun a => !a.position.isWaiting) = true ∧ w = w' := by
        simpa [World.notifyOne] using hn
      exact h
  | some i =>
      obtain ⟨a, hi, hif⟩ := Option.bind_eq_some_iff.mp hn
      obtain ⟨hw, rfl⟩ : a.position.isWaiting = true ∧ w.put i a.notify w.state = w' := by simpa using hif
      exact h.rouse hi hw false

/-- The threads are replaced by others that count alike. -/
theorem Kept.relist (h : Kept q w) (hr : w.startup = .ready) {subs : List Spawn}
    (hs : s.idleWorkers = w.state.idleWorkers ∧ s.liveWorkers = w.state.liveWorkers ∧
      s.runningBatches = w.state.runningBatches ∧ s.closed = w.state.closed)
    (hidle : tally isIdle ws = tally isIdle w.workers) (hlive : tally isActive ws = tally isActive w.workers)
    (hholding : tally isHolding ws = tally isHolding w.workers)
    (hstarting : s.startingWorkers = subs.length + tally isStarting ws)
    (hmax : s.liveWorkers + s.startingWorkers ≤ q.maxWorkers) (hsingle : s.startingWorkers ≤ 1)
    (hlaunched : ∀ a ∈ ws, a.position = .launched → a.core = true → a.started = true)
    (hroused : s.closed = true → ∀ a ∈ ws, a.position.isWaiting = false) : Kept q ⟨s, ws, subs, w.startup⟩ where
  counted :=
    { idle := hs.1.trans (h.counted.idle.trans hidle.symm)
      starting := by
        rw [hr]
        simp only [pending]
        omega
      live := hs.2.1.trans (h.counted.live.trans hlive.symm)
      ceiling := hmax
      unborn := fun hf => nomatch hr.symm.trans hf }
  running := hs.2.2.1.trans (h.running.trans hholding.symm)
  single := fun _ => hsingle
  early := fun hn => absurd hr hn
  unreported := hlaunched
  roused := hroused

theorem Kept.ready_of_spawn (h : Kept q w) {caller : Caller} {x : Spawn} (hc : w.spawnOf caller = some x) :
    w.startup = .ready := by
  by_contra hr
  cases caller with
  | submitter i => simp [World.spawnOf, (h.early hr).submitters] at hc
  | worker i =>
      obtain ⟨a, hi, hp⟩ := Option.bind_eq_some_iff.mp hc
      simp [((h.early hr).workers a (List.mem_of_getElem? hi)).2.2] at hp

theorem Kept.submit (h : Kept q w) (hr : w.startup = .ready) (batch : DropBatch) {woken : Option Nat} {spawn : Bool}
    (hs : q.submit w.state batch = some (spawn, s))
    (hn : ({ w with state := s, submitters := if spawn then w.submitters ++ [.check] else w.submitters } :
      World).notifyOne woken = some w') : Kept q w' := by
  have hopen : w.state.closed = false := by
    by_contra hc
    simp [WorkerQueue.submit, hc] at hs
  have hreserve : q.reserveElasticLocked { w.state with queue := w.state.queue ++ [batch] } = (spawn, s) := by
    simpa [WorkerQueue.submit, hopen] using hs
  have hstarting := h.counted.starting
  simp only [hr, pending, Nat.zero_add] at hstarting
  refine Kept.notifyOne (h.relist hr ?_ rfl rfl rfl ?_ ?_ ?_ h.unreported ?_) hn
  all_goals
    rcases reserve_cases q { w.state with queue := w.state.queue ++ [batch] } with ⟨he, h0, hl⟩ | ⟨he, -⟩
    all_goals
      obtain ⟨rfl, rfl⟩ := Prod.mk.inj (he.symm.trans hreserve)
  · exact ⟨rfl, rfl, rfl, rfl⟩
  · exact ⟨rfl, rfl, rfl, rfl⟩
  · simp only [if_true, List.length_append, List.length_singleton]
    omega
  · exact hstarting
  · simp only at h0 hl ⊢
    omega
  · exact h.counted.ceiling
  · exact Nat.le_of_eq (congrArg (· + 1) h0)
  · exact h.single hr
  · exact h.roused
  · exact h.roused

theorem spawned_counts {x : Spawn} {y : Position} (hy : y.spawn = some x) :
    isIdle y.spawned = isIdle y ∧ isActive y.spawned = isActive y ∧ isHolding y.spawned = isHolding y ∧
      y.spawned ≠ .launched ∧ y.spawned.isWaiting = false := by
  cases y <;> cases hy <;> exact ⟨rfl, rfl, rfl, nofun, rfl⟩

theorem canceled_counts {x : Spawn} {y : Position} (hy : y.spawn = some x) :
    isIdle y.canceled = isIdle y ∧ isStarting y.canceled = isStarting y ∧ isActive y.canceled = isActive y ∧
      isHolding y.canceled = isHolding y ∧ y.canceled ≠ .launched ∧ y.canceled.isWaiting = false := by
  cases y <;> cases hy <;> exact ⟨rfl, rfl, rfl, rfl, nofun, rfl⟩

theorem endSpawn_same (w : World) (caller : Caller) :
    (w.endSpawn caller).state = w.state ∧ (w.endSpawn caller).startup = w.startup := by
  cases caller <;> exact ⟨rfl, rfl⟩

theorem Kept.endSpawn_workers (h : Kept q w) {caller : Caller} {x : Spawn} (hc : w.spawnOf caller = some x)
    (hb : b ∈ (w.endSpawn caller).workers) : (b.position = .launched → b.core = true → b.started = true) ∧
      (w.state.closed = true → b.position.isWaiting = false) := by
  rcases mem_endSpawn hc hb with hb | ⟨a, -, hp, rfl⟩
  · exact ⟨h.unreported b hb, fun hs => h.roused hs b hb⟩
  · obtain ⟨-, -, -, hl, hw⟩ := spawned_counts hp
    exact ⟨fun hp => absurd hp hl, fun _ => hw⟩

/-- A start that succeeds leaves the launched worker to account for itself. -/
theorem Kept.spawnElastic (h : Kept q w) {caller : Caller} {x : Spawn} (hc : w.spawnOf caller = some x) :
    Kept q ((w.endSpawn caller).addWorker false) := by
  have hr := h.ready_of_spawn hc
  have hstarting := h.counted.starting
  have hend := starting_endSpawn hc
  simp only [hr, pending, Nat.zero_add] at hstarting
  obtain ⟨hs, hst⟩ := endSpawn_same w caller
  rw [show (w.endSpawn caller).addWorker false = ⟨w.state, (w.endSpawn caller).workers ++ [⟨false, false, .launched⟩],
    (w.endSpawn caller).submitters, w.startup⟩ by simp only [World.addWorker, hs, hst]]
  refine h.relist hr ⟨rfl, rfl, rfl, rfl⟩ ?_ ?_ ?_ ?_ h.counted.ceiling (h.single hr) (fun b hb => ?_) fun hs b hb => ?_
  · exact tally_snoc.trans (tally_endSpawn hc fun y hy => (spawned_counts hy).1)
  · exact tally_snoc.trans (tally_endSpawn hc fun y hy => (spawned_counts hy).2.1)
  · exact tally_snoc.trans (tally_endSpawn hc fun y hy => (spawned_counts hy).2.2.1)
  · rw [tally_snoc]
    simp only [isStarting, Bool.toNat_true]
    omega
  · rcases List.mem_append.mp hb with hb | hb
    · exact (h.endSpawn_workers hc hb).1
    · rw [List.mem_singleton.mp hb]
      exact fun _ hcore => absurd hcore Bool.false_ne_true
  · rcases List.mem_append.mp hb with hb | hb
    · exact (h.endSpawn_workers hc hb).2 hs
    · rw [List.mem_singleton.mp hb]
      rfl

/-- A start that failed gives its count back. -/
theorem Kept.cancelStarting (h : Kept q w) {caller : Caller} {x : Spawn} (hc : w.spawnOf caller = some x) :
    Kept q { w.endSpawn caller with state := w.state.cancelStartingWorker } := by
  have hr := h.ready_of_spawn hc
  have hstarting := h.counted.starting
  have hend := starting_endSpawn hc
  have hceil := h.counted.ceiling
  have hsingle := h.single hr
  simp only [hr, pending, Nat.zero_add] at hstarting
  rw [show ({ w.endSpawn caller with state := w.state.cancelStartingWorker } : World) =
    ⟨w.state.cancelStartingWorker, (w.endSpawn caller).workers, (w.endSpawn caller).submitters, w.startup⟩ by
    cases caller <;> rfl]
  refine h.relist hr ⟨rfl, rfl, rfl, rfl⟩ ?_ ?_ ?_ ?_ ?_ ?_ (fun b hb => (h.endSpawn_workers hc hb).1)
    fun hs b hb => (h.endSpawn_workers hc hb).2 hs
  · exact tally_endSpawn hc fun y hy => (spawned_counts hy).1
  · exact tally_endSpawn hc fun y hy => (spawned_counts hy).2.1
  · exact tally_endSpawn hc fun y hy => (spawned_counts hy).2.2.1
  · simp only [WorkerState.cancelStartingWorker]
    omega
  · simp only [WorkerState.cancelStartingWorker]
    omega
  · simp only [WorkerState.cancelStartingWorker]
    omega

theorem Kept.moveSpawn (h : Kept q w) {caller : Caller} {x : Spawn} (hc : w.spawnOf caller = some x) :
    Kept q (w.moveSpawn caller) := by
  have hr := h.ready_of_spawn hc
  cases caller with
  | submitter i =>
      have hstarting := h.counted.starting
      simp only [hr, pending, Nat.zero_add] at hstarting
      refine h.relist hr ⟨rfl, rfl, rfl, rfl⟩ rfl rfl rfl ?_ h.counted.ceiling (h.single hr) h.unreported h.roused
      rw [List.length_set]
      exact hstarting
  | worker i =>
      obtain ⟨a, hi, hp⟩ := Option.bind_eq_some_iff.mp hc
      obtain ⟨hidle, hstarting, hlive, hholding, hl, hw⟩ := canceled_counts hp
      rw [show w.moveSpawn (.worker i) = w.put i (a.move a.position.canceled) w.state by
        rw [World.moveSpawn, World.put, modify_of_getElem _ hi]]
      refine h.put hi ?_ ?_ ?_ ?_ h.counted.ceiling h.single (fun hn => absurd hr hn) hl fun hs => ⟨hs, hw⟩
      · exact congrArg (w.state.idleWorkers + ·.toNat) hidle.symm
      · exact congrArg (w.state.startingWorkers + ·.toNat) hstarting.symm
      · exact congrArg (w.state.liveWorkers + ·.toNat) hlive.symm
      · exact congrArg (w.state.runningBatches + ·.toNat) hholding.symm

theorem Kept.starting_pos (h : Kept q w) (hi : w.workers[i]? = some a) (ha : isStarting a.position = true) :
    0 < w.state.startingWorkers := by
  have hpos : 0 < tally isStarting w.workers := tally_pos.mpr ⟨a, List.mem_of_getElem? hi, ha⟩
  have := h.counted.starting
  omega

theorem Kept.idle_pos (h : Kept q w) (hi : w.workers[i]? = some a) (ha : isIdle a.position = true) :
    0 < w.state.idleWorkers :=
  h.counted.idle ▸ tally_pos.mpr ⟨a, List.mem_of_getElem? hi, ha⟩

theorem Kept.live_pos (h : Kept q w) (hi : w.workers[i]? = some a) (ha : isActive a.position = true) :
    0 < w.state.liveWorkers :=
  h.counted.live ▸ tally_pos.mpr ⟨a, List.mem_of_getElem? hi, ha⟩

theorem Kept.running_pos (h : Kept q w) (hi : w.workers[i]? = some a) (ha : isHolding a.position = true) :
    0 < w.state.runningBatches :=
  h.running ▸ tally_pos.mpr ⟨a, List.mem_of_getElem? hi, ha⟩

theorem Kept.ready_of_holding (h : Kept q w) (hi : w.workers[i]? = some a) (ha : isHolding a.position = true) :
    w.startup = .ready := by
  by_contra hr
  simp [((h.early hr).workers a (List.mem_of_getElem? hi)).2.1] at ha

/-- A worker that comes to the loop of `take` is first on the books as live
and as nothing else. -/
theorem Kept.enter (h : Kept q w) (hi : w.workers[i]? = some a) (hholding : isHolding a.position = false)
    (hs : s.queue = w.state.queue ∧ s.runningBatches = w.state.runningBatches ∧ s.closed = w.state.closed)
    (hidle : s.idleWorkers + (isIdle a.position).toNat = w.state.idleWorkers)
    (hstarting : s.startingWorkers + (isStarting a.position).toNat = w.state.startingWorkers)
    (hlive : s.liveWorkers + (isActive a.position).toNat = w.state.liveWorkers + 1)
    (hmax : s.liveWorkers + s.startingWorkers ≤ q.maxWorkers) (elapsed : Bool) :
    Kept q (w.settle i a (q.takeLocked a.core elapsed s)) := by
  have hput : Kept q (w.put i (a.move .taking) s) := by
    refine h.put hi hidle hstarting hlive ?_ hmax (fun hr => ?_) (fun hr => ⟨hs.1.trans (h.early hr).queue, ?_⟩) nofun
      fun hc => ⟨hs.2.2.symm.trans hc, rfl⟩
    · rw [hholding]
      exact congrArg (· + 0) hs.2.1
    · have := h.single hr
      omega
    · exact ⟨rfl, rfl, rfl, id⟩
  have hlt : i < w.workers.length := (List.getElem?_eq_some_iff.mp hi).1
  have ht := hput.takeLocked (i := i) (a := a.move .taking) (by simp [World.put, hlt]) rfl elapsed
  rw [settle_put] at ht
  exact ht

theorem Kept.take (h : Kept q w) (elapsed : Bool) (hs : w.step q (.take i elapsed) = some w') : Kept q w' := by
  simp only [World.step] at hs
  cases hi : w.workers[i]? with
  | none => simp [hi] at hs
  | some a =>
      have hceil := h.counted.ceiling
      cases hp : a.position with
      | launched =>
          simp only [hi, hp] at hs
          cases hs
          have hpos := h.starting_pos hi (by rw [hp]; rfl)
          refine h.enter (s := w.state.activate) hi ?_ ⟨rfl, rfl, rfl⟩ ?_ ?_ ?_ ?_ elapsed
          all_goals simp only [hp, WorkerState.activate, isIdle, isStarting, isActive, isHolding, inHand, Option.isSome]
          · exact Nat.add_zero _
          · exact Nat.sub_add_cancel hpos
          · rfl
          · omega
      | taking =>
          simp only [hi, hp] at hs
          cases hs
          refine h.enter hi ?_ ⟨rfl, rfl, rfl⟩ ?_ ?_ ?_ hceil elapsed <;>
            simp [hp, isIdle, isStarting, isActive, isHolding, inHand]
      | _ => simp [hi, hp] at hs

theorem Kept.wake (h : Kept q w) (elapsed : Bool) (hs : w.step q (.wake i elapsed) = some w') : Kept q w' := by
  simp only [World.step] at hs
  cases hi : w.workers[i]? with
  | none => simp [hi] at hs
  | some a =>
      have hceil := h.counted.ceiling
      cases hp : a.position with
      | idle wait =>
          cases wait with
          | waiting => simp [hi, hp] at hs
          | awake t =>
              simp only [hi, hp] at hs
              have hidle := h.idle_pos hi (by rw [hp]; rfl)
              have hlive := h.live_pos hi (by rw [hp]; rfl)
              split at hs
              · next hx =>
                cases hs
                simp only [Bool.and_eq_true, List.isEmpty_iff] at hx
                refine h.put hi ?_ ?_ ?_ ?_ ?_ h.single (fun _ => ⟨hx.2, rfl, rfl, rfl, id⟩) (by rintro ⟨⟩) fun hc => ⟨hc, rfl⟩
                all_goals simp only [hp, WorkerState.unidle, WorkerState.retire, Worker.move, isIdle, isStarting,
                  isActive, isHolding, inHand, Option.isSome, Bool.toNat_true, Bool.toNat_false]
                all_goals omega
              · cases hs
                refine h.enter (s := w.state.unidle) hi ?_ ⟨rfl, rfl, rfl⟩ ?_ ?_ ?_ hceil elapsed
                all_goals simp only [hp, WorkerState.unidle, isIdle, isStarting, isActive, isHolding, inHand,
                  Option.isSome]
                · exact Nat.sub_add_cancel hidle
                · rfl
                · rfl
      | _ => simp [hi, hp] at hs

theorem Kept.resume (h : Kept q w) (elapsed : Bool) (hs : w.step q (.resume i elapsed) = some w') : Kept q w' := by
  simp only [World.step] at hs
  cases hi : w.workers[i]? with
  | none => simp [hi] at hs
  | some a =>
      cases hp : a.position with
      | expanding batch wait =>
          cases wait with
          | waiting => simp [hi, hp] at hs
          | awake t =>
              simp only [hi, hp] at hs
              cases hs
              have hc : Carrying w w.state a := by
                refine ⟨h.ready_of_holding hi (by rw [hp]; rfl), ?_, ?_, ?_, rfl, rfl, rfl, ?_, rfl⟩ <;>
                  simp [hp, isIdle, isStarting, isActive, isHolding, inHand]
              simp only [WorkerQueue.resume]
              split
              · next hx => exact h.expand hi hc batch (Bool.and_eq_true _ _ ▸ hx).1
              · exact h.conclude hi hc batch
      | _ => simp [hi, hp] at hs

/-- The guard of the running batch gives its count back. -/
theorem Kept.finishBatch (h : Kept q w) (hi : w.workers[i]? = some a) {batch : DropBatch}
    (hp : a.position = .running batch) {x : Position} (hx : x = .taking ∨ x = .leaving) :
    Kept q (w.put i (a.move x) w.state.finishBatch) := by
  have hr := h.ready_of_holding hi (by rw [hp]; rfl)
  have hpos := h.running_pos hi (by rw [hp]; rfl)
  rcases hx with rfl | rfl
  all_goals
    refine h.put hi ?_ ?_ ?_ ?_ h.counted.ceiling h.single (fun hn => absurd hr hn) (by rintro ⟨⟩) fun hc => ⟨hc, rfl⟩
    · simp [hp, WorkerState.finishBatch, Worker.move, isIdle]
    · simp [hp, WorkerState.finishBatch, Worker.move, isStarting]
    · simp [hp, WorkerState.finishBatch, Worker.move, isActive]
    · simp only [hp, WorkerState.finishBatch, Worker.move, isHolding, inHand, Option.isSome, Bool.toNat_true,
        Bool.toNat_false]
      omega

theorem Kept.exited (h : Kept q w) (hi : w.workers[i]? = some a) (hp : a.position = .leaving) {spawn : Bool}
    (hs : q.workerExited w.state = (spawn, s)) :
    Kept q (w.put i (a.move (if spawn then .replacing .check else .gone)) s).notifyAll := by
  have hceil := h.counted.ceiling
  have hlive := h.live_pos hi (by rw [hp]; rfl)
  have hready : s.startingWorkers ≠ w.state.startingWorkers → w.startup = .ready := fun hne => by
    by_contra hr
    have hq := (h.early hr).queue
    have hn : q.needsElasticLocked w.state.retire = false := by
      simp [WorkerQueue.needsElasticLocked, WorkerState.retire, hq]
    rw [WorkerQueue.workerExited, WorkerQueue.reserveElasticLocked, hn] at hs
    cases hs
    exact hne rfl
  rcases reserve_cases q w.state.retire with ⟨he, h0, hl⟩ | ⟨he, -⟩
  · obtain ⟨rfl, rfl⟩ := Prod.mk.inj (he.symm.trans hs)
    have hr := hready (Nat.succ_ne_self _)
    simp only [WorkerState.retire] at h0 hl
    refine (h.put (b := a.move (.replacing .check))
      (s := { w.state.retire with startingWorkers := w.state.startingWorkers + 1 }) hi ?_ ?_ ?_ ?_ ?_ ?_
      (fun hn => absurd hr hn) (by rintro ⟨⟩) fun hc => ⟨hc, rfl⟩).notifyAll
    all_goals simp only [hp, WorkerState.retire, Worker.move, isIdle, isStarting, isActive, isHolding, inHand,
      Option.isSome, Bool.toNat_true, Bool.toNat_false]
    all_goals omega
  · obtain ⟨rfl, rfl⟩ := Prod.mk.inj (he.symm.trans hs)
    refine (h.put (b := a.move .gone) (s := w.state.retire) hi ?_ ?_ ?_ ?_ ?_ h.single
      (fun hr => ⟨(h.early hr).queue, rfl, rfl, rfl, id⟩) (by rintro ⟨⟩) fun hc => ⟨hc, rfl⟩).notifyAll
    all_goals simp only [hp, WorkerState.retire, Worker.move, isIdle, isStarting, isActive, isHolding, inHand,
      Option.isSome, Bool.toNat_true, Bool.toNat_false]
    all_goals omega

theorem Kept.close (h : Kept q w) (hf : w.startup ≠ .fresh) : Kept q { w with state := w.state.close }.notifyAll where
  counted := by
    have hc : Counted q { w with state := w.state.close } :=
      ⟨h.counted.idle, h.counted.starting, h.counted.live, h.counted.ceiling, fun hn => absurd hn hf⟩
    exact hc.notifyAll
  running := h.notifyAll.running
  single := h.single
  early := fun hr =>
    have he := h.notifyAll.early hr
    ⟨he.queue, he.submitters, he.workers, he.length, he.reported⟩
  unreported := h.notifyAll.unreported
  roused := fun _ c hc => by
    obtain ⟨a, ha, rfl⟩ := List.mem_map.mp hc
    exact isWaiting_rouse _ _

theorem Kept.startCore (h : Kept q w) (hf : w.startup = .fresh) :
    Kept q { w with state := { w.state with startingWorkers := q.coreWorkers }, startup := .launching 0 } := by
  obtain rfl := h.counted.unborn hf
  refine ⟨⟨rfl, rfl, rfl, ?_, nofun⟩, rfl, nofun, fun _ => ⟨rfl, rfl, nofun, rfl, nofun⟩, nofun, nofun⟩
  exact (Nat.zero_add _).trans_le q.core_le

theorem Kept.launch (h : Kept q w) {k : Nat} (hk : w.startup = .launching k) (hlt : k < q.coreWorkers) :
    Kept q { w.addWorker true with startup := .handshake k } := by
  have he := h.early (by simp [hk])
  have hlen : w.workers.length = k := he.length.trans (by rw [hk]; rfl)
  have hstarting := h.counted.starting
  simp only [hk, pending] at hstarting
  refine ⟨⟨?_, ?_, ?_, h.counted.ceiling, by rintro ⟨⟩⟩, ?_, by rintro ⟨⟩, fun _ => ⟨he.queue, he.submitters, ?_, ?_, ?_⟩, ?_, ?_⟩
  · exact h.counted.idle.trans (tally_snoc (p := isIdle) (b := ⟨true, true, .launched⟩)).symm
  · simp only [World.addWorker, tally_snoc, pending, isStarting, Bool.toNat_true]
    omega
  · exact h.counted.live.trans (tally_snoc (p := isActive) (b := ⟨true, true, .launched⟩)).symm
  · exact h.running.trans (tally_snoc (p := isHolding) (b := ⟨true, true, .launched⟩)).symm
  · intro a ha
    rcases List.mem_append.mp ha with ha | ha
    · exact he.workers a ha
    · rw [List.mem_singleton.mp ha]
      exact ⟨rfl, rfl, rfl⟩
  · simp [World.addWorker, hlen, launched]
  · intro j a hj ha
    have hj : j < k := hj
    refine he.reported j a (by rw [hk]; exact hj) ?_
    rw [← ha]
    exact (List.getElem?_append_left (hlen ▸ hj)).symm
  · intro a ha
    rcases List.mem_append.mp ha with ha | ha
    · exact h.unreported a ha
    · rw [List.mem_singleton.mp ha]
      exact fun _ _ => rfl
  · intro hc a ha
    rcases List.mem_append.mp ha with ha | ha
    · exact h.roused hc a ha
    · rw [List.mem_singleton.mp ha]
      rfl

theorem Kept.acknowledge (h : Kept q w) {k : Nat} (hk : w.startup = .handshake k) (hi : w.workers[k]? = some a)
    (ha : a.started = false) : Kept q { w with startup := .launching (k + 1) } := by
  have he := h.early (by simp [hk])
  have hstarting := h.counted.starting
  have hlen := he.length
  simp only [hk, pending, launched] at hstarting hlen
  refine ⟨⟨h.counted.idle, hstarting, h.counted.live, h.counted.ceiling, by rintro ⟨⟩⟩, h.running, by rintro ⟨⟩,
    fun _ => ⟨he.queue, he.submitters, he.workers, hlen, fun j b hj hb => ?_⟩, h.unreported, h.roused⟩
  rcases Nat.lt_succ_iff_lt_or_eq.mp hj with hj | rfl
  · exact he.reported j b (by rw [hk]; exact hj) hb
  · obtain rfl : a = b := Option.some_inj.mp (hi.symm.trans hb)
    exact ha

/-- Every core worker has reported, so none of them is starting any more. -/
theorem Kept.ready (h : Kept q w) {k : Nat} (hk : w.startup = .launching k) (hge : ¬ k < q.coreWorkers) :
    Kept q { w with startup := .ready } := by
  have he := h.early (by simp [hk])
  have hstarting := h.counted.starting
  simp only [hk, pending, he.submitters, List.length_nil, Nat.add_zero] at hstarting
  have hnone : tally isStarting w.workers = 0 := by
    refine List.countP_eq_zero.mpr fun a ha hp => ?_
    obtain ⟨hcore, -, hspawn⟩ := he.workers a ha
    obtain ⟨j, hj, hja⟩ := List.getElem_of_mem ha
    have hrep := he.reported j a (by rw [hk]; exact hj.trans_eq (he.length.trans (by rw [hk]; rfl)))
      (by rw [List.getElem?_eq_getElem hj, hja])
    cases hpa : a.position with
    | launched => simp [h.unreported a ha hpa hcore] at hrep
    | spawning batch x => simp [hpa, Position.spawn] at hspawn
    | replacing x => simp [hpa, Position.spawn] at hspawn
    | _ => simp [hpa, isStarting] at hp
  refine ⟨⟨h.counted.idle, ?_, h.counted.live, h.counted.ceiling, by rintro ⟨⟩⟩, h.running, fun _ => ?_,
    fun hr => absurd rfl hr, h.unreported, h.roused⟩
  · simp only [pending, he.submitters, List.length_nil]
    omega
  · simp only
    omega

theorem Kept.step (h : Kept q w) {x : Action} (hs : w.step q x = some w') : Kept q w' := by
  cases x with
  | startCore =>
      simp only [World.step] at hs
      split at hs
      · next hf => cases hs; exact h.startCore hf
      · cases hs
  | launch =>
      simp only [World.step] at hs
      split at hs
      · next k hk =>
        split at hs
        · next hlt => cases hs; exact h.launch hk hlt
        · next hge => cases hs; exact h.ready hk hge
      · cases hs
  | acknowledge =>
      simp only [World.step] at hs
      split at hs
      · next k hk =>
        split at hs
        · next a hi =>
          split at hs
          · cases hs
          · next ha => cases hs; exact h.acknowledge hk hi (by simpa using ha)
        · cases hs
      · cases hs
  | submit batch woken =>
      simp only [World.step] at hs
      split at hs
      · next spawn state hr hsub => exact h.submit hr batch hsub hs
      · cases hs
  | spawnElastic caller =>
      simp only [World.step] at hs
      split at hs
      · next hc =>
        split at hs
        · cases hs; exact h.moveSpawn hc
        · cases hs; exact h.spawnElastic hc
      · cases hs
  | cancelStarting caller =>
      simp only [World.step] at hs
      split at hs
      · next hc => cases hs; exact h.cancelStarting hc
      · cases hs
  | take i elapsed => exact h.take elapsed hs
  | rouse i timedOut =>
      simp only [World.step] at hs
      split at hs
      · next a hi =>
        split at hs
        · next hw => cases hs; exact h.rouse hi (Bool.and_eq_true _ _ ▸ hw).1 timedOut
        · cases hs
      · cases hs
  | wake i elapsed => exact h.wake elapsed hs
  | resume i elapsed => exact h.resume elapsed hs
  | finish i =>
      simp only [World.step] at hs
      split at hs
      · next a hi =>
        split at hs
        · next hp => cases hs; exact h.finishBatch hi hp (.inl rfl)
        · cases hs
      · cases hs
  | unwind i =>
      simp only [World.step] at hs
      split at hs
      · next a hi =>
        split at hs
        · next hp => cases hs; exact h.finishBatch hi hp (.inr rfl)
        · cases hs
      · cases hs
  | exited i =>
      simp only [World.step] at hs
      split at hs
      · next a hi =>
        split at hs
        · next hp => cases hs; exact h.exited hi hp rfl
        · cases hs
      · cases hs
  | close =>
      simp only [World.step] at hs
      split at hs
      · next hr => cases hs; exact h.close (by simp [hr])
      · cases hs

theorem kept_new : Kept q .new :=
  ⟨⟨rfl, rfl, rfl, Nat.zero_le _, fun _ => rfl⟩, rfl, nofun, fun _ => ⟨rfl, rfl, nofun, rfl, nofun⟩, nofun, nofun⟩

/-- No saturating subtraction of a step clamps. -/
theorem Kept.unclamped (h : Kept q w) {x : Action} (hs : w.step q x = some w') {n : Nat} (hn : n ∈ decrements w x) :
    0 < n := by
  cases x with
  | cancelStarting caller =>
      obtain rfl := List.mem_singleton.mp hn
      simp only [World.step] at hs
      split at hs
      · next hc =>
        have hend := starting_endSpawn hc
        have := h.counted.starting
        omega
      · cases hs
  | take i elapsed =>
      simp only [decrements] at hn
      split at hn
      · next a hi =>
        split at hn
        · next hp =>
          obtain rfl := List.mem_singleton.mp hn
          exact h.starting_pos hi (by rw [hp]; rfl)
        · cases hn
      · cases hn
  | wake i elapsed =>
      simp only [decrements] at hn
      split at hn
      · next a hi =>
        split at hn
        · next t hp =>
          rcases List.mem_cons.mp hn with rfl | hn
          · exact h.idle_pos hi (by rw [hp]; rfl)
          · split at hn
            · obtain rfl := List.mem_singleton.mp hn
              exact h.live_pos hi (by rw [hp]; rfl)
            · cases hn
        · cases hn
      · cases hn
  | finish i =>
      obtain rfl := List.mem_singleton.mp hn
      simp only [World.step] at hs
      split at hs
      · next a hi =>
        split at hs
        · next hp => exact h.running_pos hi (by rw [hp]; rfl)
        · cases hs
      · cases hs
  | unwind i =>
      obtain rfl := List.mem_singleton.mp hn
      simp only [World.step] at hs
      split at hs
      · next a hi =>
        split at hs
        · next hp => exact h.running_pos hi (by rw [hp]; rfl)
        · cases hs
      · cases hs
  | exited i =>
      obtain rfl := List.mem_singleton.mp hn
      simp only [World.step] at hs
      split at hs
      · next a hi =>
        split at hs
        · next hp => exact h.live_pos hi (by rw [hp]; rfl)
        · cases hs
      · cases hs
  | _ => cases hn

/-- The counters under the mutex keep their places. -/
structure Within (q : WorkerQueue) (w : World) : Prop where
  ceiling : w.state.liveWorkers + w.state.startingWorkers ≤ q.maxWorkers
  idle : w.state.idleWorkers ≤ w.state.liveWorkers
  running : w.state.runningBatches ≤ w.state.liveWorkers
  starting : w.startup = .ready → w.state.startingWorkers = 0 ∨ w.state.startingWorkers = 1

theorem Kept.within (h : Kept q w) : Within q w where
  ceiling := h.counted.ceiling
  idle := by
    rw [h.counted.idle, h.counted.live]
    refine List.countP_mono_left fun a _ ha => ?_
    cases hp : a.position <;> simp_all [isIdle, isActive]
  running := by
    rw [h.running, h.counted.live]
    refine List.countP_mono_left fun a _ ha => ?_
    cases hp : a.position <;> simp_all [isHolding, inHand, isActive]
  starting := fun hr => by
    have := h.single hr
    omega

end Taskvisor.Ownership.Headcount
