import Taskvisor.Ownership.Workers

namespace Taskvisor.Ownership.Backlog

open Lib Workers

variable {q : WorkerQueue} {w w' : World} {s : WorkerState} {i : Nat} {a b : Worker} {ws : List Worker}
  {p : Position → Bool}

def isIdle : Position → Bool
  | .idle _ => true
  | _ => false

/-- An idle worker that is on its way back to the mutex. -/
def isAlert : Position → Bool
  | .idle (.awake _) => true
  | _ => false

def isExpanding : Position → Bool
  | .expanding _ _ => true
  | _ => false

/-- A worker that accounts for one starting worker: it has not activated yet,
or it is inside `spawn_elastic`. -/
def isStarting : Position → Bool
  | .launched => true
  | .spawning _ _ => true
  | .replacing _ => true
  | _ => false

def isActive : Position → Bool
  | .launched => false
  | .replacing _ => false
  | .gone => false
  | _ => true

/-- A worker whose destructors have not returned. -/
def isRunning : Position → Bool
  | .running _ => true
  | _ => false

def tally (p : Position → Bool) (ws : List Worker) : Nat := ws.countP fun a => p a.position

theorem tally_set (hi : ws[i]? = some a) :
    tally p (ws.set i b) + (p a.position).toNat = tally p ws + (p b.position).toNat := by
  induction ws generalizing i with
  | nil => simp at hi
  | cons c ws ih =>
      cases i with
      | zero =>
          obtain rfl : c = a := by simpa using hi
          simp only [tally, List.set_cons_zero, List.countP_cons]
          cases p c.position <;> cases p b.position <;> simp
      | succ i =>
          have h := ih (by simpa using hi)
          simp only [tally, List.set_cons_succ, List.countP_cons] at h ⊢
          omega

theorem tally_snoc : tally p (ws ++ [b]) = tally p ws + (p b.position).toNat := by
  simp only [tally, List.countP_append, List.countP_cons, List.countP_nil]
  cases p b.position <;> simp

theorem tally_map {f : Worker → Worker} {p' : Position → Bool} (h : ∀ a, p (f a).position = p' a.position) :
    tally p (ws.map f) = tally p' ws := by
  simp only [tally, List.countP_map]
  exact congrArg (List.countP · ws) (funext h)

theorem tally_pos : 0 < tally p ws ↔ ∃ a ∈ ws, p a.position = true := List.countP_pos_iff

theorem rouse_congr {α : Type} {f : Position → α} {t : Bool} (hidle : f (.idle (.awake t)) = f (.idle .waiting))
    (hexpanding : ∀ batch, f (.expanding batch (.awake t)) = f (.expanding batch .waiting)) (x : Position) :
    f (x.rouse t) = f x := by
  unfold Position.rouse
  split
  · exact hidle
  · exact hexpanding _
  · rfl

@[simp] theorem isIdle_rouse (t : Bool) (x : Position) : isIdle (x.rouse t) = isIdle x :=
  rouse_congr rfl (fun _ => rfl) x

@[simp] theorem isExpanding_rouse (t : Bool) (x : Position) : isExpanding (x.rouse t) = isExpanding x :=
  rouse_congr rfl (fun _ => rfl) x

@[simp] theorem isStarting_rouse (t : Bool) (x : Position) : isStarting (x.rouse t) = isStarting x :=
  rouse_congr rfl (fun _ => rfl) x

@[simp] theorem isActive_rouse (t : Bool) (x : Position) : isActive (x.rouse t) = isActive x :=
  rouse_congr rfl (fun _ => rfl) x

@[simp] theorem spawn_rouse (t : Bool) (x : Position) : (x.rouse t).spawn = x.spawn := rouse_congr rfl (fun _ => rfl) x

@[simp] theorem isWaiting_rouse (t : Bool) (x : Position) : (x.rouse t).isWaiting = false := by
  unfold Position.rouse
  split
  · rfl
  · rfl
  · next h₁ h₂ =>
    cases x with
    | idle wait => cases wait with
      | waiting => exact absurd rfl h₁
      | awake t => rfl
    | expanding batch wait => cases wait with
      | waiting => exact absurd rfl (h₂ batch)
      | awake t => rfl
    | _ => rfl

@[simp] theorem isAlert_rouse (t : Bool) (x : Position) : isAlert (x.rouse t) = isIdle x := by
  unfold Position.rouse
  split
  · rfl
  · rfl
  · next h₁ _ =>
    cases x with
    | idle wait => cases wait with
      | waiting => exact absurd rfl h₁
      | awake t => rfl
    | _ => rfl

/-- The core workers that `start_core` has counted and not launched. -/
def pending (q : WorkerQueue) : Startup → Nat
  | .fresh => 0
  | .launching k => q.coreWorkers - k
  | .handshake k => q.coreWorkers - (k + 1)
  | .ready => 0

/-- The counters under the mutex are those of the threads. -/
structure Counted (q : WorkerQueue) (w : World) : Prop where
  idle : w.state.idleWorkers = tally isIdle w.workers
  starting : w.state.startingWorkers = pending q w.startup + w.submitters.length + tally isStarting w.workers
  live : w.state.liveWorkers = tally isActive w.workers
  ceiling : w.state.liveWorkers + w.state.startingWorkers ≤ q.maxWorkers
  unborn : w.startup = .fresh → w = .new

/-- What the waits on the shared condition variable rely on. Only elastic
workers expand, their wait is over once a worker is idle, so that a later
notification reaches the idle one, and a startup is cancelled only on a closed
queue. -/
structure Fit (s : WorkerState) (a : Worker) : Prop where
  elastic : isExpanding a.position = true → a.core = false
  roused : 0 < s.idleWorkers → isExpanding a.position = true → a.position.isWaiting = false
  canceled : a.position.spawn = some .cancel → s.closed = true

structure Attended (w : World) : Prop where
  workers : ∀ a ∈ w.workers, Fit w.state a
  submitters : .cancel ∈ w.submitters → w.state.closed = true

/-- Queued batches have awake workers as far as there are idle ones. -/
def Alerted (w : World) : Prop := min w.state.queue.length w.state.idleWorkers ≤ tally isAlert w.workers

/-- Work that needs an elastic worker has one in its expansion wait. -/
def Covered (q : WorkerQueue) (w : World) : Prop :=
  q.needsElasticLocked w.state = true → 0 < tally isExpanding w.workers

structure Sound (q : WorkerQueue) (w : World) : Prop where
  counted : Counted q w
  attended : Attended w
  alerted : Alerted w
  covered : Covered q w

theorem Counted.put (h : Counted q w) (hi : w.workers[i]? = some a)
    (hidle : s.idleWorkers + (isIdle a.position).toNat = w.state.idleWorkers + (isIdle b.position).toNat)
    (hstarting : s.startingWorkers + (isStarting a.position).toNat =
      w.state.startingWorkers + (isStarting b.position).toNat)
    (hlive : s.liveWorkers + (isActive a.position).toNat = w.state.liveWorkers + (isActive b.position).toNat)
    (hmax : s.liveWorkers + s.startingWorkers ≤ q.maxWorkers) : Counted q (w.put i b s) where
  idle := by
    have hs := tally_set (p := isIdle) (b := b) hi
    have hw := h.idle
    simp only [World.put]
    omega
  starting := by
    have hs := tally_set (p := isStarting) (b := b) hi
    have hw := h.starting
    simp only [World.put]
    omega
  live := by
    have hs := tally_set (p := isActive) (b := b) hi
    have hw := h.live
    simp only [World.put]
    omega
  ceiling := hmax
  unborn := fun hf => by
    rw [h.unborn hf] at hi
    cases hi

theorem Counted.notifyAll (h : Counted q w) : Counted q w.notifyAll where
  idle := h.idle.trans (tally_map fun _ => isIdle_rouse _ _).symm
  starting := by
    have hs : tally isStarting (w.workers.map Worker.notify) = tally isStarting w.workers :=
      tally_map fun _ => isStarting_rouse _ _
    simpa only [World.notifyAll, hs] using h.starting
  live := h.live.trans (tally_map fun _ => isActive_rouse _ _).symm
  ceiling := h.ceiling
  unborn := fun hf => by
    rw [h.unborn hf]
    rfl

theorem Fit.mono {s' : WorkerState} (h : Fit s a) (hidle : 0 < s'.idleWorkers → 0 < s.idleWorkers)
    (hclosed : s.closed = true → s'.closed = true) : Fit s' a :=
  ⟨h.elastic, fun hp => h.roused (hidle hp), fun hs => hclosed (h.canceled hs)⟩

theorem Fit.notify {s' : WorkerState} (h : Fit s a) (hclosed : s.closed = true → s'.closed = true) :
    Fit s' a.notify where
  elastic := by simpa [Worker.notify, Worker.move] using h.elastic
  roused := fun _ _ => isWaiting_rouse _ _
  canceled := fun hs => hclosed (h.canceled (by simpa [Worker.notify, Worker.move] using hs))

/-- A position that is neither an expansion wait nor a cancelled startup asks
for nothing. -/
theorem Fit.plain (hx : isExpanding b.position = false) (hc : b.position.spawn ≠ some .cancel) : Fit s b :=
  ⟨fun h => absurd h (by simp [hx]), fun _ h => absurd h (by simp [hx]), fun h => absurd h hc⟩

theorem Attended.put (h : Attended w) (hw : ∀ c ∈ w.workers, Fit s c) (hb : Fit s b)
    (hclosed : w.state.closed = true → s.closed = true) : Attended (w.put i b s) where
  workers := fun c hc => by
    rcases List.mem_or_eq_of_mem_set hc with hc | rfl
    · exact hw c hc
    · exact hb
  submitters := fun hm => hclosed (h.submitters hm)

theorem Attended.notifyAll (h : Attended w) : Attended w.notifyAll where
  workers := fun c hc => by
    obtain ⟨a, ha, rfl⟩ := List.mem_map.mp hc
    exact (h.workers a ha).notify id
  submitters := h.submitters

theorem alerted_notifyAll (h : Counted q w) : Alerted w.notifyAll := by
  have hs : tally isAlert (w.workers.map Worker.notify) = tally isIdle w.workers := tally_map fun _ => isAlert_rouse _ _
  have hw := h.idle
  simp only [Alerted, World.notifyAll, hs]
  omega

theorem tally_expanding_notifyAll : tally isExpanding w.notifyAll.workers = tally isExpanding w.workers :=
  tally_map fun _ => isExpanding_rouse _ _

theorem needs_iff : q.needsElasticLocked s = true ↔
    s.closed = false ∧ s.queue ≠ [] ∧ s.idleWorkers = 0 ∧ s.startingWorkers = 0 ∧ s.liveWorkers < q.maxWorkers := by
  simp [WorkerQueue.needsElasticLocked, and_assoc]

/-- A reservation leaves nothing to need, and counts one starting worker
exactly when it succeeds. -/
theorem reserve_cases (q : WorkerQueue) (s : WorkerState) :
    q.reserveElasticLocked s = (true, { s with startingWorkers := s.startingWorkers + 1 }) ∧ s.startingWorkers = 0 ∧
      s.liveWorkers < q.maxWorkers ∨
    q.reserveElasticLocked s = (false, s) ∧ q.needsElasticLocked s = false := by
  by_cases h : q.needsElasticLocked s = true
  · obtain ⟨-, -, -, hs, hl⟩ := needs_iff.mp h
    exact .inl ⟨if_pos h, hs, hl⟩
  · exact .inr ⟨if_neg h, by simpa using h⟩

theorem covered_of_starting (h : 0 < w.state.startingWorkers) : Covered q w := by
  intro hn
  have := (needs_iff.mp hn).2.2.2.1
  omega

theorem covered_of_not (h : q.needsElasticLocked w.state = false) : Covered q w := fun hn => by simp [h] at hn

theorem covered_of_empty (h : w.state.queue = []) : Covered q w := fun hn => absurd h (needs_iff.mp hn).2.1

theorem alerted_of_empty (h : w.state.queue = []) : Alerted w := by
  simp [Alerted, h]

/-- Inside `take` the worker is on the books as live and as nothing else. -/
structure Inside (q : WorkerQueue) (w : World) (i : Nat) (a : Worker) : Prop where
  counted : Counted q w
  attended : Attended w
  there : w.workers[i]? = some a
  taking : a.position = .taking

namespace Inside

theorem restate (h : Inside q w i a) (hidle : s.idleWorkers = w.state.idleWorkers)
    (hstarting : s.startingWorkers = w.state.startingWorkers) (hlive : s.liveWorkers = w.state.liveWorkers)
    (hclosed : s.closed = w.state.closed) : Inside q { w with state := s } i a where
  counted :=
    { idle := hidle.trans h.counted.idle
      starting := hstarting.trans h.counted.starting
      live := hlive.trans h.counted.live
      ceiling := by simpa only [hlive, hstarting] using h.counted.ceiling
      unborn := fun hf => by
        have hw := h.there
        rw [h.counted.unborn hf] at hw
        cases hw }
  attended :=
    { workers := fun c hc => (h.attended.workers c hc).mono (by simp [hidle]) (by simp [hclosed])
      submitters := fun hm => hclosed.trans (h.attended.submitters hm) }
  there := h.there
  taking := h.taking

theorem fits (h : Inside q w i a) (hidle : 0 < s.idleWorkers → 0 < w.state.idleWorkers)
    (hclosed : s.closed = w.state.closed) : ∀ c ∈ w.workers, Fit s c :=
  fun c hc => (h.attended.workers c hc).mono hidle (by simp [hclosed])

/-- The worker leaves `take` with a batch and wakes every waiter. -/
theorem hand (h : Inside q w i a) {x : Position} (hi : isIdle x = false) (hx : isExpanding x = false)
    (ha : isActive x = true) (hc : x.spawn ≠ some .cancel) (hidle : s.idleWorkers = w.state.idleWorkers)
    (hlive : s.liveWorkers = w.state.liveWorkers) (hclosed : s.closed = w.state.closed)
    (hstarting : s.startingWorkers = w.state.startingWorkers + (isStarting x).toNat)
    (hmax : s.liveWorkers + s.startingWorkers ≤ q.maxWorkers)
    (hcov : q.needsElasticLocked s = true → 0 < tally isExpanding w.workers) :
    Sound q (w.put i (a.move x) s).notifyAll := by
  have hcounted : Counted q (w.put i (a.move x) s) := by
    refine h.counted.put h.there ?_ ?_ ?_ hmax
    · rw [h.taking, show isIdle (a.move x).position = false from hi, hidle]
      rfl
    · rw [h.taking, hstarting]
      rfl
    · rw [h.taking, show isActive (a.move x).position = true from ha, hlive]
      rfl
  refine ⟨hcounted.notifyAll, (h.attended.put ?_ (.plain hx hc) (by simp [hclosed])).notifyAll,
    alerted_notifyAll hcounted, fun hn => ?_⟩
  · exact h.fits (by simp [hidle]) hclosed
  · have hset := tally_set (p := isExpanding) (b := a.move x) h.there
    have hpos := hcov hn
    rw [show isExpanding (a.move x).position = false from hx, h.taking] at hset
    rw [tally_expanding_notifyAll]
    exact Nat.lt_of_lt_of_eq hpos hset.symm

theorem conclude (h : Inside q w i a) (batch : DropBatch)
    (hcov : q.mayReserve a.core w.state = false → Covered q w) :
    Sound q (w.settle i a (q.conclude a.core batch w.state)) := by
  have hceil := h.counted.ceiling
  by_cases hm : q.mayReserve a.core w.state = true
  · rcases reserve_cases q w.state with ⟨hr, hs, hl⟩ | ⟨hr, hn⟩
    · simp only [WorkerQueue.conclude, hm, hr, if_true, World.settle]
      refine h.hand rfl rfl rfl nofun rfl rfl rfl rfl ?_ fun hn => ?_
      · simp only
        omega
      · exact absurd (needs_iff.mp hn).2.2.2.1 (Nat.succ_ne_zero _)
    · simp only [WorkerQueue.conclude, hm, hr, if_true, World.settle]
      exact h.hand rfl rfl rfl nofun rfl rfl rfl rfl hceil fun hn' => absurd hn' (by simp [hn])
  · have hm : q.mayReserve a.core w.state = false := by simpa using hm
    simp only [WorkerQueue.conclude, hm, World.settle]
    exact h.hand rfl rfl rfl nofun rfl rfl rfl rfl hceil (hcov hm)

theorem expand (h : Inside q w i a) (batch : DropBatch) (hcore : a.core = false)
    (hn : q.needsElasticLocked w.state = true) : Sound q (w.settle i a (.expand batch, w.state)) := by
  have hidle := (needs_iff.mp hn).2.2.1
  refine ⟨?_, ?_, ?_, fun _ => ?_⟩
  · refine h.counted.put h.there ?_ ?_ ?_ h.counted.ceiling <;>
      simp [h.taking, isIdle, isStarting, isActive, Worker.move]
  · refine h.attended.put (h.fits id rfl) ⟨fun _ => hcore, fun hp => ?_, nofun⟩ id
    omega
  · simp [Alerted, World.settle, World.put, hidle]
  · have hset := tally_set (p := isExpanding) (b := a.move (.expanding batch .waiting)) h.there
    rw [h.taking] at hset
    simp only [isExpanding, Worker.move, Bool.toNat_false, Bool.toNat_true] at hset
    simp only [World.settle, World.put, Worker.move]
    omega

theorem idle (h : Inside q w i a) (hq : w.state.queue = []) :
    Sound q (w.settle i a (.wait (w.state.idleWorkers + 1 == 1),
      { w.state with idleWorkers := w.state.idleWorkers + 1 })) := by
  by_cases hz : w.state.idleWorkers = 0
  · -- the first idle worker ends every expansion wait before it waits itself
    have hthere : w.notifyAll.workers[i]? = some a.notify := by
      simp [World.notifyAll, h.there]
    have htaking : a.notify.position = .taking := by
      simp [Worker.notify, Worker.move, h.taking, Position.rouse]
    simp only [World.settle, hz, Nat.zero_add, beq_self_eq_true, if_true]
    refine ⟨?_, ?_, alerted_of_empty hq, covered_of_empty hq⟩
    · refine h.counted.notifyAll.put hthere ?_ ?_ ?_ h.counted.ceiling <;>
        simp [htaking, isIdle, isStarting, isActive, World.notifyAll, hz]
    · refine h.attended.notifyAll.put (fun c hc => ?_) (.plain rfl nofun) id
      obtain ⟨d, hd, rfl⟩ := List.mem_map.mp hc
      exact (h.attended.workers d hd).notify id
  · have hannounce : (w.state.idleWorkers + 1 == 1) = false := by simp [hz]
    simp only [World.settle, hannounce, Bool.false_eq_true, if_false]
    refine ⟨?_, ?_, alerted_of_empty hq, covered_of_empty hq⟩
    · refine h.counted.put h.there ?_ ?_ ?_ h.counted.ceiling <;> simp [h.taking, isIdle, isStarting, isActive]
    · exact h.attended.put (h.fits (fun _ => Nat.pos_of_ne_zero hz) rfl) (.plain rfl nofun) id

theorem exit (h : Inside q w i a) (hq : w.state.queue = []) : Sound q (w.settle i a (.done .exit, w.state)) := by
  refine ⟨?_, ?_, alerted_of_empty hq, covered_of_empty hq⟩
  · refine h.counted.put h.there ?_ ?_ ?_ h.counted.ceiling <;>
      simp [h.taking, isIdle, isStarting, isActive, Worker.move]
  · exact h.attended.put (h.fits id rfl) (.plain rfl nofun) id

end Inside

/-- The state once the batch at the head of the queue is taken. -/
def behind (s : WorkerState) : WorkerState :=
  { s with queue := s.queue.tail, runningBatches := s.runningBatches + 1 }

theorem Inside.take (h : Inside q w i a) (elapsed : Bool)
    (hcov : q.mayReserve a.core w.state = false → Covered q { w with state := behind w.state }) :
    Sound q (w.settle i a (q.takeLocked a.core elapsed w.state)) := by
  cases hq : w.state.queue with
  | nil =>
      by_cases hc : w.state.closed = true
      · simpa only [WorkerQueue.takeLocked, hq, hc, if_true] using h.exit hq
      · simpa only [WorkerQueue.takeLocked, hq, hc, Bool.false_eq_true, if_false] using h.idle hq
  | cons batch queue =>
      have hbehind : behind w.state = { w.state with queue, runningBatches := w.state.runningBatches + 1 } := by
        simp [behind, hq]
      have hin : Inside q { w with state := behind w.state } i a := h.restate rfl rfl rfl rfl
      have hsettle : ∀ r, w.settle i a r = ({ w with state := behind w.state } : World).settle i a r := by
        rintro ⟨r, s⟩
        rcases r with (_ | _) | _ | (_ | _) <;> rfl
      simp only [WorkerQueue.takeLocked, hq, ← hbehind]
      rw [hsettle]
      split
      · next hx =>
        simp only [Bool.and_eq_true, Bool.not_eq_true'] at hx
        exact hin.expand batch hx.1.1 hx.1.2
      · exact hin.conclude batch hcov

/-- The worker that enters the loop of `take` by a step, and the state there. -/
def entering (w : World) : Action → Option (Worker × WorkerState)
  | .take i _ =>
      match w.workers[i]? with
      | some a =>
          match a.position with
          | .launched => some (a, w.state.activate)
          | .taking => some (a, w.state)
          | _ => none
      | none => none
  | .wake i _ =>
      match w.workers[i]? with
      | some a =>
          match a.position with
          | .idle (.awake _) => some (a, w.state.unidle)
          | _ => none
      | none => none
  | _ => none

/-- The step is not that of a core worker which takes a batch beside elastic
workers, none of them in its expansion wait, and leaves work that needs an
elastic worker. -/
def backed (q : WorkerQueue) (w : World) (x : Action) : Bool :=
  match entering w x with
  | some (a, s) =>
      q.mayReserve a.core s || !q.needsElasticLocked (behind s) || w.workers.any fun b => isExpanding b.position
  | none => true

theorem settle_put (w : World) (i : Nat) (a : Worker) (x : Position) (s : WorkerState) (r : Release × WorkerState) :
    (w.put i (a.move x) s).settle i (a.move x) r = w.settle i a r := by
  obtain ⟨r, t⟩ := r
  rcases r with (_ | _) | _ | (_ | _) <;>
    simp [World.settle, World.put, World.notifyAll, Worker.move, List.map_set]

/-- A worker comes to the loop of `take` from a position that is off the
expansion waits. -/
theorem Sound.inside (h : Sound q w) (hi : w.workers[i]? = some a)
    (hidle : s.idleWorkers + (isIdle a.position).toNat = w.state.idleWorkers)
    (hstarting : s.startingWorkers + (isStarting a.position).toNat = w.state.startingWorkers)
    (hlive : s.liveWorkers + (isActive a.position).toNat = w.state.liveWorkers + 1)
    (hmax : s.liveWorkers + s.startingWorkers ≤ q.maxWorkers) (hclosed : s.closed = w.state.closed) :
    Inside q (w.put i (a.move .taking) s) i (a.move .taking) where
  counted := h.counted.put hi hidle hstarting hlive hmax
  attended := by
    refine h.attended.put (fun c hc => (h.attended.workers c hc).mono ?_ (by simp [hclosed])) (.plain rfl nofun)
      (by simp [hclosed])
    omega
  there := by
    have hlt : i < w.workers.length := (List.getElem?_eq_some_iff.mp hi).1
    simp [World.put, hlt]
  taking := rfl

theorem Inside.enter (hin : Inside q (w.put i (a.move .taking) s) i (a.move .taking))
    (hi : w.workers[i]? = some a) (elapsed : Bool) (hx : isExpanding a.position = false)
    (hback : (q.mayReserve a.core s || !q.needsElasticLocked (behind s) ||
      w.workers.any fun b => isExpanding b.position) = true) :
    Sound q (w.settle i a (q.takeLocked a.core elapsed s)) := by
  have ht := hin.take elapsed fun hm hn => ?_
  · rw [settle_put] at ht
    exact ht
  · have hset := tally_set (p := isExpanding) (b := a.move .taking) hi
    have hm : q.mayReserve a.core s = false := hm
    have hn : q.needsElasticLocked (behind s) = true := hn
    rw [hm, hn] at hback
    have hpos : 0 < tally isExpanding w.workers := tally_pos.mpr (by simpa using hback)
    rw [hx] at hset
    exact Nat.lt_of_lt_of_eq hpos hset.symm

/-- A step that changes no counter keeps everything when it moves a worker
between positions that count alike. -/
theorem Sound.shift (h : Sound q w) (hi : w.workers[i]? = some a) {x : Position} (hidle : isIdle x = isIdle a.position)
    (hstarting : isStarting x = isStarting a.position) (hactive : isActive x = isActive a.position)
    (hx : isExpanding x = isExpanding a.position) (halert : isAlert a.position = true → isAlert x = true)
    (hfit : Fit w.state (a.move x)) (hs : s = { w.state with runningBatches := s.runningBatches }) :
    Sound q (w.put i (a.move x) s) := by
  rw [hs]
  refine ⟨?_, ?_, ?_, fun hn => ?_⟩
  · refine h.counted.put hi ?_ ?_ ?_ h.counted.ceiling <;> simp [Worker.move, hidle, hstarting, hactive]
  · exact h.attended.put (fun c hc => (h.attended.workers c hc).mono id id) (hfit.mono id id) id
  · have hset := tally_set (p := isAlert) (b := a.move x) hi
    have hle : (isAlert a.position).toNat ≤ (isAlert (a.move x).position).toNat := by
      cases ha : isAlert a.position with
      | false => simp
      | true => simp [Worker.move, halert ha]
    have := h.alerted
    simp only [Alerted, World.put] at this ⊢
    omega
  · have hset := tally_set (p := isExpanding) (b := a.move x) hi
    have hcov := h.covered hn
    rw [show isExpanding (a.move x).position = isExpanding a.position from hx] at hset
    exact Nat.lt_of_lt_of_eq hcov (Nat.add_right_cancel hset).symm

theorem Sound.rouse (h : Sound q w) (hi : w.workers[i]? = some a) (t : Bool) :
    Sound q (w.put i (a.move (a.position.rouse t)) w.state) := by
  have hfit := h.attended.workers a (List.mem_of_getElem? hi)
  refine h.shift hi (isIdle_rouse _ _) (isStarting_rouse _ _) (isActive_rouse _ _) (isExpanding_rouse _ _) ?_ ?_ rfl
  · intro ha
    rw [isAlert_rouse]
    revert ha
    cases a.position <;> simp [isAlert, isIdle]
  · exact ⟨by simpa [Worker.move] using hfit.elastic, fun _ _ => isWaiting_rouse _ _,
      by simpa [Worker.move] using hfit.canceled⟩

theorem Sound.startCore (h : Sound q w) (hs : w.startup = .fresh) :
    Sound q { w with state := { w.state with startingWorkers := q.coreWorkers }, startup := .launching 0 } := by
  obtain rfl := h.counted.unborn hs
  refine ⟨⟨rfl, by simp [pending, tally, World.new], rfl, ?_, nofun⟩, ⟨nofun, nofun⟩, alerted_of_empty rfl,
    covered_of_empty rfl⟩
  simpa [World.new, WorkerState.new] using q.core_le

/-- The threads are replaced by others that count alike, but for starts that
were cancelled on a closed queue. -/
theorem Sound.relist (h : Sound q w) {ws : List Worker} {subs : List Spawn} {x : Startup} {n : Nat}
    (hidle : tally isIdle ws = tally isIdle w.workers) (hlive : tally isActive ws = tally isActive w.workers)
    (hexp : tally isExpanding ws = tally isExpanding w.workers) (halert : tally isAlert ws = tally isAlert w.workers)
    (hfit : ∀ a ∈ ws, Fit w.state a) (hsub : .cancel ∈ subs → w.state.closed = true) (hx : x ≠ .fresh)
    (hstarting : n = pending q x + subs.length + tally isStarting ws)
    (hn : n = w.state.startingWorkers ∨ n ≤ w.state.startingWorkers ∧ w.state.closed = true) :
    Sound q { state := { w.state with startingWorkers := n }, workers := ws, submitters := subs, startup := x } where
  counted :=
    { idle := h.counted.idle.trans hidle.symm
      starting := hstarting
      live := h.counted.live.trans hlive.symm
      ceiling := by
        have := h.counted.ceiling
        simp only
        omega
      unborn := fun hf => absurd hf hx }
  attended := ⟨fun a ha => (hfit a ha).mono id id, hsub⟩
  alerted := by
    have := h.alerted
    simp only [Alerted, halert] at this ⊢
    exact this
  covered := by
    intro hneeds
    rcases hn with rfl | ⟨-, hclosed⟩
    · exact hexp ▸ h.covered hneeds
    · have := (needs_iff.mp hneeds).1
      simp only [hclosed] at this
      cases this

theorem Sound.launch (h : Sound q w) {k : Nat} (hs : w.startup = .launching k) (hk : k < q.coreWorkers) :
    Sound q { w.addWorker true with startup := .handshake k } := by
  have hw := h.counted.starting
  refine h.relist ?_ ?_ ?_ ?_ (fun a ha => ?_) h.attended.submitters nofun ?_ (.inl rfl)
  · exact tally_snoc
  · exact tally_snoc
  · exact tally_snoc
  · exact tally_snoc
  · rcases List.mem_append.mp ha with ha | ha
    · exact h.attended.workers a ha
    · rw [List.mem_singleton.mp ha]
      exact .plain rfl nofun
  · rw [World.addWorker, tally_snoc, hw, hs]
    simp only [pending, isStarting, Bool.toNat_true]
    omega

theorem Sound.restart (h : Sound q w) {x : Startup} (hx : pending q x = pending q w.startup) (hn : x ≠ .fresh) :
    Sound q { w with startup := x } :=
  h.relist rfl rfl rfl rfl h.attended.workers h.attended.submitters hn (hx ▸ h.counted.starting) (.inl rfl)

theorem modify_of_getElem {α : Type} {l : List α} {x : α} (f : α → α) (h : l[i]? = some x) :
    l.modify i f = l.set i (f x) := by
  have hlt : i < l.length := (List.getElem?_eq_some_iff.mp h).1
  refine List.ext_getElem? fun j => ?_
  rw [List.getElem?_modify, List.getElem?_set]
  split
  · next hj =>
    subst hj
    rw [h]
    rfl
  · simp

theorem workers_endSpawn (hi : w.workers[i]? = some a) :
    (w.endSpawn (.worker i)).workers = w.workers.set i (a.move a.position.spawned) := modify_of_getElem _ hi

theorem tally_endSpawn {caller : Caller} {x : Spawn} (hc : w.spawnOf caller = some x)
    (hp : ∀ y : Position, y.spawn = some x → p y.spawned = p y) :
    tally p (w.endSpawn caller).workers = tally p w.workers := by
  cases caller with
  | submitter i => rfl
  | worker i =>
      obtain ⟨a, hi, ha⟩ := Option.bind_eq_some_iff.mp hc
      have hset := tally_set (p := p) (b := a.move a.position.spawned) hi
      rw [show p (a.move a.position.spawned).position = p a.position from hp _ ha] at hset
      rw [workers_endSpawn hi]
      exact Nat.add_right_cancel hset

/-- The thread that is inside `spawn_elastic` leaves it, and one start with it. -/
theorem starting_endSpawn {caller : Caller} {x : Spawn} (hc : w.spawnOf caller = some x) :
    (w.endSpawn caller).submitters.length + tally isStarting (w.endSpawn caller).workers + 1 =
      w.submitters.length + tally isStarting w.workers := by
  cases caller with
  | submitter i =>
      have hlt : i < w.submitters.length := (List.getElem?_eq_some_iff.mp hc).1
      simp only [World.endSpawn, List.length_eraseIdx_of_lt hlt]
      omega
  | worker i =>
      obtain ⟨a, hi, hp⟩ := Option.bind_eq_some_iff.mp hc
      have hstarting : isStarting a.position = true ∧ isStarting a.position.spawned = false := by
        cases hpa : a.position <;> rw [hpa] at hp <;> simp_all [Position.spawn, Position.spawned, isStarting]
      have hset := tally_set (p := isStarting) (b := a.move a.position.spawned) hi
      rw [show isStarting (a.move a.position.spawned).position = false from hstarting.2, hstarting.1] at hset
      simp only [Bool.toNat_true, Bool.toNat_false] at hset
      rw [workers_endSpawn hi, show (w.endSpawn (.worker i)).submitters = w.submitters from rfl]
      omega

theorem mem_endSpawn {caller : Caller} {x : Spawn} (hc : w.spawnOf caller = some x)
    (hb : b ∈ (w.endSpawn caller).workers) :
    b ∈ w.workers ∨ ∃ a ∈ w.workers, a.position.spawn = some x ∧ b = a.move a.position.spawned := by
  cases caller with
  | submitter i => exact .inl hb
  | worker i =>
      obtain ⟨a, hi, hp⟩ := Option.bind_eq_some_iff.mp hc
      rw [workers_endSpawn hi] at hb
      rcases List.mem_or_eq_of_mem_set hb with hb | rfl
      · exact .inl hb
      · exact .inr ⟨a, List.mem_of_getElem? hi, hp, rfl⟩

theorem endSpawn_facts (h : Sound q w) {caller : Caller} {x : Spawn} (hc : w.spawnOf caller = some x) :
    (∀ p ∈ [isIdle, isActive, isExpanding, isAlert], tally p (w.endSpawn caller).workers = tally p w.workers) ∧
      (w.endSpawn caller).submitters.length + tally isStarting (w.endSpawn caller).workers + 1 =
        w.submitters.length + tally isStarting w.workers ∧
      (∀ a ∈ (w.endSpawn caller).workers, Fit w.state a) ∧
      (.cancel ∈ (w.endSpawn caller).submitters → w.state.closed = true) ∧ w.startup ≠ .fresh := by
  refine ⟨fun p hp => tally_endSpawn hc fun y hy => ?_, starting_endSpawn hc, fun b hb => ?_, fun hm => ?_, fun hf => ?_⟩
  · cases y <;> simp_all [Position.spawn, Position.spawned]
    all_goals rcases hp with rfl | rfl | rfl | rfl <;> rfl
  · rcases mem_endSpawn hc hb with hb | ⟨a, ha, hp, rfl⟩
    · exact h.attended.workers b hb
    · refine .plain ?_ ?_ <;> cases hpa : a.position <;> rw [hpa] at hp <;>
        simp_all [Worker.move, Position.spawn, Position.spawned, isExpanding]
  · cases caller with
    | submitter i => exact h.attended.submitters (List.mem_of_mem_eraseIdx hm)
    | worker i => exact h.attended.submitters hm
  · rw [h.counted.unborn hf] at hc
    cases caller <;> cases hc

theorem Sound.spawnElastic (h : Sound q w) {caller : Caller} {x : Spawn} (hc : w.spawnOf caller = some x) :
    Sound q ((w.endSpawn caller).addWorker false) := by
  obtain ⟨htally, hcount, hfit, hsub, hfresh⟩ := endSpawn_facts h hc
  have hw := h.counted.starting
  have hsame : (w.endSpawn caller).state = w.state ∧ (w.endSpawn caller).startup = w.startup := by
    cases caller <;> exact ⟨rfl, rfl⟩
  rw [show (w.endSpawn caller).addWorker false =
    { state := w.state, workers := (w.endSpawn caller).workers ++ [⟨false, false, .launched⟩],
      submitters := (w.endSpawn caller).submitters, startup := w.startup } by simp only [World.addWorker, hsame]]
  refine h.relist ?_ ?_ ?_ ?_ (fun a ha => ?_) hsub hfresh ?_ (.inl rfl)
  · exact tally_snoc.trans (htally _ (by simp))
  · exact tally_snoc.trans (htally _ (by simp))
  · exact tally_snoc.trans (htally _ (by simp))
  · exact tally_snoc.trans (htally _ (by simp))
  · rcases List.mem_append.mp ha with ha | ha
    · exact hfit a ha
    · rw [List.mem_singleton.mp ha]
      exact .plain rfl nofun
  · change w.state.startingWorkers = _
    rw [tally_snoc]
    simp only [isStarting, Bool.toNat_true]
    omega

theorem Sound.cancelStarting (h : Sound q w) {caller : Caller} (hc : w.spawnOf caller = some .cancel) :
    Sound q { w.endSpawn caller with state := w.state.cancelStartingWorker } := by
  obtain ⟨htally, hcount, hfit, hsub, hfresh⟩ := endSpawn_facts h hc
  have hw := h.counted.starting
  have hclosed : w.state.closed = true := by
    cases caller with
    | submitter i => exact h.attended.submitters (List.mem_of_getElem? hc)
    | worker i =>
        obtain ⟨a, hi, hp⟩ := Option.bind_eq_some_iff.mp hc
        exact (h.attended.workers a (List.mem_of_getElem? hi)).canceled hp
  rw [show ({ w.endSpawn caller with state := w.state.cancelStartingWorker } : World) =
    { state := { w.state with startingWorkers := w.state.startingWorkers - 1 },
      workers := (w.endSpawn caller).workers, submitters := (w.endSpawn caller).submitters, startup := w.startup } by
    cases caller <;> rfl]
  refine h.relist (htally _ (by simp)) (htally _ (by simp)) (htally _ (by simp)) (htally _ (by simp)) hfit hsub hfresh
    ?_ (.inr ⟨Nat.sub_le _ _, hclosed⟩)
  omega

theorem Sound.moveSpawn (h : Sound q w) {caller : Caller} {x : Spawn} (hc : w.spawnOf caller = some x)
    (hclosed : w.state.closed = true) : Sound q (w.moveSpawn caller) := by
  cases caller with
  | submitter i =>
      refine h.relist rfl rfl rfl rfl h.attended.workers (fun _ => hclosed) (fun hf => ?_) ?_ (.inl rfl)
      · rw [h.counted.unborn hf] at hc
        cases hc
      · rw [List.length_set]
        exact h.counted.starting
  | worker i =>
      obtain ⟨a, hi, hp⟩ := Option.bind_eq_some_iff.mp hc
      rw [show w.moveSpawn (.worker i) = w.put i (a.move a.position.canceled) w.state by
        rw [World.moveSpawn, World.put, modify_of_getElem _ hi]]
      refine h.shift hi ?_ ?_ ?_ ?_ ?_ ?_ rfl
      all_goals
        cases hpa : a.position <;> rw [hpa] at hp <;> simp_all [Position.spawn, Position.canceled, isIdle, isActive,
          isExpanding, isAlert, isStarting]
      all_goals exact ⟨nofun, fun _ => nofun, fun _ => hclosed⟩

theorem waiting_iff (hfit : Fit s a) (hpos : 0 < s.idleWorkers) (hw : a.position.isWaiting = true) :
    isIdle a.position = true ∧ isAlert a.position = false := by
  cases hp : a.position with
  | idle wait =>
      cases wait with
      | waiting => exact ⟨rfl, rfl⟩
      | awake t => simp [hp, Position.isWaiting] at hw
  | expanding batch wait =>
      rw [hfit.roused hpos (by rw [hp]; rfl)] at hw
      cases hw
  | _ => simp [hp, Position.isWaiting] at hw

/-- A notification for one more batch reaches an idle worker that was not
awake, if there is one. -/
theorem notifyOne_alerted (hc : Counted q w) (ha : Attended w) (hal : min w.state.queue.length w.state.idleWorkers ≤
    tally isAlert w.workers + 1) {woken : Option Nat} (hn : w.notifyOne woken = some w') : Alerted w' := by
  have hidle := hc.idle
  cases woken with
  | none =>
      obtain ⟨hall, rfl⟩ : w.workers.all (fun a => !a.position.isWaiting) = true ∧ w = w' := by
        simpa [World.notifyOne] using hn
      have heq : tally isAlert w.workers = tally isIdle w.workers := by
        refine List.countP_congr fun a hm => ?_
        have hw := List.all_eq_true.mp hall a hm
        cases hp : a.position with
        | idle wait => cases wait <;> simp_all [Position.isWaiting, isAlert, isIdle]
        | _ => simp [isAlert, isIdle]
      rw [Alerted, heq]
      omega
  | some i =>
      obtain ⟨a, hi, hif⟩ := Option.bind_eq_some_iff.mp hn
      obtain ⟨hw, rfl⟩ : a.position.isWaiting = true ∧ w.put i a.notify w.state = w' := by simpa using hif
      have hset := tally_set (p := isAlert) (b := a.notify) hi
      by_cases hpos : 0 < w.state.idleWorkers
      · obtain ⟨hi', ha'⟩ := waiting_iff (ha.workers a (List.mem_of_getElem? hi)) hpos hw
        rw [show isAlert a.notify.position = true from (isAlert_rouse _ _).trans hi', ha'] at hset
        simp only [Bool.toNat_false, Bool.toNat_true] at hset
        simp only [Alerted, World.put]
        omega
      · simp only [Alerted, World.put]
        omega

theorem notifyOne_sound (hc : Counted q w) (ha : Attended w) (hal : min w.state.queue.length w.state.idleWorkers ≤
    tally isAlert w.workers + 1) (hcov : Covered q w) {woken : Option Nat} (hn : w.notifyOne woken = some w') :
    Sound q w' := by
  have halerted := notifyOne_alerted hc ha hal hn
  cases woken with
  | none =>
      obtain ⟨-, rfl⟩ : w.workers.all (fun a => !a.position.isWaiting) = true ∧ w = w' := by
        simpa [World.notifyOne] using hn
      exact ⟨hc, ha, halerted, hcov⟩
  | some i =>
      obtain ⟨a, hi, hif⟩ := Option.bind_eq_some_iff.mp hn
      obtain ⟨-, rfl⟩ : a.position.isWaiting = true ∧ w.put i a.notify w.state = w' := by simpa using hif
      refine ⟨?_, ?_, halerted, fun hneeds => ?_⟩
      · refine hc.put hi ?_ ?_ ?_ hc.ceiling <;> simp [Worker.notify, Worker.move]
      · exact ha.put ha.workers ((ha.workers a (List.mem_of_getElem? hi)).notify id) id
      · have hset := tally_set (p := isExpanding) (b := a.notify) hi
        rw [show isExpanding a.notify.position = isExpanding a.position from isExpanding_rouse _ _] at hset
        exact Nat.lt_of_lt_of_eq (hcov hneeds) (Nat.add_right_cancel hset).symm

theorem Sound.submit (h : Sound q w) (hr : w.startup = .ready) (batch : DropBatch) {woken : Option Nat} {spawn : Bool}
    (hs : q.submit w.state batch = some (spawn, s))
    (hn : ({ w with state := s, submitters := if spawn then w.submitters ++ [.check] else w.submitters } :
      World).notifyOne woken = some w') : Sound q w' := by
  have hopen : w.state.closed = false := by
    by_contra hc
    simp [WorkerQueue.submit, hc] at hs
  have hreserve : q.reserveElasticLocked { w.state with queue := w.state.queue ++ [batch] } = (spawn, s) := by
    simpa [WorkerQueue.submit, hopen] using hs
  have hal : min (w.state.queue.length + 1) w.state.idleWorkers ≤ tally isAlert w.workers + 1 := by
    have := h.alerted
    simp only [Alerted] at this
    omega
  have hceil := h.counted.ceiling
  have hstarting := h.counted.starting
  rcases reserve_cases q { w.state with queue := w.state.queue ++ [batch] } with ⟨heq, hz, hl⟩ | ⟨heq, hneeds⟩
  · obtain ⟨rfl, rfl⟩ := Prod.mk.inj (heq.symm.trans hreserve)
    refine notifyOne_sound ?_ ?_ ?_ ?_ hn
    · refine ⟨h.counted.idle, ?_, h.counted.live, ?_, fun hf => nomatch hr.symm.trans hf⟩
      · simp only [if_true, List.length_append, List.length_singleton]
        omega
      · simp only at hz hl ⊢
        omega
    · refine ⟨fun a ha => (h.attended.workers a ha).mono id id, fun hm => ?_⟩
      rcases List.mem_append.mp hm with hm | hm
      · exact h.attended.submitters hm
      · cases List.mem_singleton.mp hm
    · simpa using hal
    · exact covered_of_starting (Nat.succ_pos _)
  · obtain ⟨rfl, rfl⟩ := Prod.mk.inj (heq.symm.trans hreserve)
    refine notifyOne_sound ?_ ?_ ?_ ?_ hn
    · exact ⟨h.counted.idle, hstarting, h.counted.live, hceil, fun hf => nomatch hr.symm.trans hf⟩
    · exact ⟨fun a ha => (h.attended.workers a ha).mono id id, h.attended.submitters⟩
    · simpa using hal
    · exact covered_of_not hneeds

theorem Sound.exited (h : Sound q w) (hi : w.workers[i]? = some a) (hp : a.position = .leaving) {spawn : Bool}
    (hs : q.workerExited w.state = (spawn, s)) :
    Sound q (w.put i (a.move (if spawn then .replacing .check else .gone)) s).notifyAll := by
  have hlive : w.state.retire.liveWorkers + 1 = w.state.liveWorkers := by
    have hpos : 0 < tally isActive w.workers := tally_pos.mpr ⟨a, List.mem_of_getElem? hi, by rw [hp]; rfl⟩
    have := h.counted.live
    simp only [WorkerState.retire]
    omega
  have hceil := h.counted.ceiling
  have hfit : ∀ c ∈ w.workers, Fit w.state c := h.attended.workers
  have hmax : w.state.retire.liveWorkers + w.state.retire.startingWorkers ≤ q.maxWorkers := by
    simp only [WorkerState.retire] at hlive ⊢
    omega
  rcases reserve_cases q w.state.retire with ⟨heq, hz, hl⟩ | ⟨heq, hneeds⟩
  · obtain ⟨rfl, rfl⟩ := Prod.mk.inj (heq.symm.trans hs)
    have hc : Counted q (w.put i (a.move (.replacing .check))
        { w.state.retire with startingWorkers := w.state.retire.startingWorkers + 1 }) := by
      refine h.counted.put hi ?_ ?_ ?_ ?_
      · simp [hp, isIdle, Worker.move, WorkerState.retire]
      · simp [hp, isStarting, Worker.move, WorkerState.retire]
      · simpa [hp, isActive, Worker.move] using hlive
      · simp only at hz hl ⊢
        omega
    refine ⟨hc.notifyAll, Attended.notifyAll ?_, alerted_notifyAll hc, covered_of_starting (Nat.succ_pos _)⟩
    exact h.attended.put (fun c hm => (hfit c hm).mono id id) (.plain rfl (by simp [Worker.move, Position.spawn])) id
  · obtain ⟨rfl, rfl⟩ := Prod.mk.inj (heq.symm.trans hs)
    have hc : Counted q (w.put i (a.move .gone) w.state.retire) := by
      refine h.counted.put hi ?_ ?_ ?_ hmax
      · simp [hp, isIdle, Worker.move, WorkerState.retire]
      · simp [hp, isStarting, Worker.move, WorkerState.retire]
      · simpa [hp, isActive, Worker.move] using hlive
    refine ⟨hc.notifyAll, Attended.notifyAll ?_, alerted_notifyAll hc, covered_of_not hneeds⟩
    exact h.attended.put (fun c hm => (hfit c hm).mono id id) (.plain rfl (by simp [Worker.move, Position.spawn])) id

theorem Sound.close (h : Sound q w) (hr : w.startup = .ready) : Sound q { w with state := w.state.close }.notifyAll := by
  have hc : Counted q { w with state := w.state.close } :=
    ⟨h.counted.idle, h.counted.starting, h.counted.live, h.counted.ceiling, fun hf => nomatch hr.symm.trans hf⟩
  refine ⟨hc.notifyAll, Attended.notifyAll ⟨fun a ha => (h.attended.workers a ha).mono id fun _ => rfl, fun _ => rfl⟩,
    alerted_notifyAll hc, fun hn => ?_⟩
  exact nomatch (needs_iff.mp hn).1

/-- An elastic worker leaves after an idle timeout. -/
theorem Sound.timeout (h : Sound q w) (hi : w.workers[i]? = some a) {t : Bool} (hp : a.position = .idle (.awake t))
    (hq : w.state.queue = []) : Sound q (w.put i (a.move .gone) w.state.unidle.retire) := by
  have hidle : 0 < w.state.idleWorkers :=
    h.counted.idle ▸ tally_pos.mpr ⟨a, List.mem_of_getElem? hi, by rw [hp]; rfl⟩
  have hlive : 0 < w.state.liveWorkers :=
    h.counted.live ▸ tally_pos.mpr ⟨a, List.mem_of_getElem? hi, by rw [hp]; rfl⟩
  have hceil := h.counted.ceiling
  refine ⟨?_, ?_, alerted_of_empty hq, covered_of_empty hq⟩
  · refine h.counted.put hi ?_ ?_ ?_ ?_
    · simp only [hp, isIdle, Worker.move, WorkerState.retire, WorkerState.unidle, Bool.toNat_true, Bool.toNat_false]
      omega
    · simp [hp, isStarting, Worker.move, WorkerState.retire, WorkerState.unidle]
    · simp only [hp, isActive, Worker.move, WorkerState.retire, WorkerState.unidle, Bool.toNat_true, Bool.toNat_false]
      omega
    · simp only [WorkerState.retire, WorkerState.unidle]
      omega
  · exact h.attended.put (fun c hm => (h.attended.workers c hm).mono (fun _ => hidle) id) (.plain rfl nofun) id

theorem Sound.resume (h : Sound q w) (hi : w.workers[i]? = some a) {batch : DropBatch} {wait : Wait}
    (hp : a.position = .expanding batch wait) (elapsed : Bool) :
    Sound q (w.settle i a (q.resume a.core elapsed batch w.state)) := by
  have hcore : a.core = false := (h.attended.workers a (List.mem_of_getElem? hi)).elastic (by rw [hp]; rfl)
  have hin : Inside q (w.put i (a.move .taking) w.state) i (a.move .taking) :=
    h.inside hi (by rw [hp]; rfl) (by rw [hp]; rfl) (by rw [hp]; rfl) h.counted.ceiling rfl
  rw [WorkerQueue.resume, ← settle_put w i a .taking w.state]
  split
  · next hx =>
    simp only [Bool.and_eq_true] at hx
    exact hin.expand batch hcore hx.1
  · refine hin.conclude batch fun hm => ?_
    simp [WorkerQueue.mayReserve, Worker.move, hcore] at hm

theorem Sound.take (h : Sound q w) (elapsed : Bool) (hb : backed q w (.take i elapsed) = true)
    (hs : w.step q (.take i elapsed) = some w') : Sound q w' := by
  simp only [World.step] at hs
  cases hi : w.workers[i]? with
  | none => simp [hi] at hs
  | some a =>
      have hceil := h.counted.ceiling
      cases hp : a.position with
      | launched =>
          obtain rfl : w.settle i a (q.takeLocked a.core elapsed w.state.activate) = w' := by simpa [hi, hp] using hs
          have hstarting : 0 < w.state.startingWorkers := by
            have hpos : 0 < tally isStarting w.workers := tally_pos.mpr ⟨a, List.mem_of_getElem? hi, by rw [hp]; rfl⟩
            have := h.counted.starting
            omega
          refine (h.inside (s := w.state.activate) hi ?_ ?_ ?_ ?_ rfl).enter hi elapsed (by rw [hp]; rfl) ?_
          · rw [hp]
            rfl
          · rw [hp]
            exact Nat.sub_add_cancel hstarting
          · rw [hp]
            rfl
          · simp only [WorkerState.activate]
            omega
          · simpa [backed, entering, hi, hp] using hb
      | taking =>
          obtain rfl : w.settle i a (q.takeLocked a.core elapsed w.state) = w' := by simpa [hi, hp] using hs
          refine (h.inside hi ?_ ?_ ?_ hceil rfl).enter hi elapsed (by rw [hp]; rfl) ?_
          · rw [hp]
            rfl
          · rw [hp]
            rfl
          · rw [hp]
            rfl
          · simpa [backed, entering, hi, hp] using hb
      | _ => simp [hi, hp] at hs

theorem Sound.wake (h : Sound q w) (elapsed : Bool) (hb : backed q w (.wake i elapsed) = true)
    (hs : w.step q (.wake i elapsed) = some w') : Sound q w' := by
  simp only [World.step] at hs
  cases hi : w.workers[i]? with
  | none => simp [hi] at hs
  | some a =>
      cases hp : a.position with
      | idle wait =>
          cases wait with
          | waiting => simp [hi, hp] at hs
          | awake t =>
              simp only [hi, hp] at hs
              split at hs
              · next hx =>
                cases hs
                simp only [Bool.and_eq_true, List.isEmpty_iff] at hx
                exact h.timeout hi hp hx.2
              · cases hs
                have hidle : 0 < w.state.idleWorkers :=
                  h.counted.idle ▸ tally_pos.mpr ⟨a, List.mem_of_getElem? hi, by rw [hp]; rfl⟩
                refine (h.inside (s := w.state.unidle) hi ?_ ?_ ?_ h.counted.ceiling rfl).enter hi elapsed (by rw [hp]; rfl) ?_
                · rw [hp]
                  exact Nat.sub_add_cancel hidle
                · rw [hp]
                  rfl
                · rw [hp]
                  rfl
                · simpa [backed, entering, hi, hp] using hb
      | _ => simp [hi, hp] at hs

theorem Sound.step (h : Sound q w) {x : Action} (hb : backed q w x = true) (hs : w.step q x = some w') : Sound q w' := by
  cases x with
  | startCore =>
      simp only [World.step] at hs
      split at hs
      · next hf => cases hs; exact h.startCore hf
      · cases hs
  | launch =>
      simp only [World.step] at hs
      split at hs
      · next k hk =>
        split at hs
        · next hlt => cases hs; exact h.launch hk hlt
        · next hge =>
          cases hs
          refine h.restart ?_ nofun
          simp only [hk, pending]
          omega
      · cases hs
  | acknowledge =>
      simp only [World.step] at hs
      split at hs
      · next k hk =>
        split at hs
        · split at hs
          · cases hs
          · cases hs
            exact h.restart (by simp only [hk, pending]) nofun
        · cases hs
      · cases hs
  | submit batch woken =>
      simp only [World.step] at hs
      split at hs
      · next spawn state hr hsub => exact h.submit hr batch hsub hs
      · cases hs
  | spawnElastic caller =>
      simp only [World.step] at hs
      split at hs
      · next hc =>
        split at hs
        · next hclosed => cases hs; exact h.moveSpawn hc hclosed
        · cases hs; exact h.spawnElastic hc
      · cases hs
  | cancelStarting caller =>
      simp only [World.step] at hs
      split at hs
      · next hc => cases hs; exact h.cancelStarting hc
      · cases hs
  | take i elapsed => exact h.take elapsed hb hs
  | rouse i timedOut =>
      simp only [World.step] at hs
      split at hs
      · next a hi =>
        split at hs
        · cases hs; exact h.rouse hi timedOut
        · cases hs
      · cases hs
  | wake i elapsed => exact h.wake elapsed hb hs
  | resume i elapsed =>
      simp only [World.step] at hs
      split at hs
      · next a hi =>
        split at hs
        · next hp => cases hs; exact h.resume hi hp elapsed
        · cases hs
      · cases hs
  | finish i =>
      simp only [World.step] at hs
      split at hs
      · next a hi =>
        split at hs
        · next hp =>
          cases hs
          refine h.shift hi ?_ ?_ ?_ ?_ ?_ (.plain rfl nofun) rfl <;> rw [hp] <;> first | rfl | exact nofun
        · cases hs
      · cases hs
  | unwind i =>
      simp only [World.step] at hs
      split at hs
      · next a hi =>
        split at hs
        · next hp =>
          cases hs
          refine h.shift hi ?_ ?_ ?_ ?_ ?_ (.plain rfl nofun) rfl <;> rw [hp] <;> first | rfl | exact nofun
        · cases hs
      · cases hs
  | exited i =>
      simp only [World.step] at hs
      split at hs
      · next a hi =>
        split at hs
        · next hp => cases hs; exact h.exited hi hp rfl
        · cases hs
      · cases hs
  | close =>
      simp only [World.step] at hs
      split at hs
      · next hr => cases hs; exact h.close hr
      · cases hs

theorem sound_new : Sound q .new :=
  ⟨⟨rfl, rfl, rfl, Nat.zero_le _, fun _ => rfl⟩, ⟨nofun, nofun⟩, alerted_of_empty rfl, covered_of_empty rfl⟩

theorem sound_of_reachable (h : ((machine q).guarded (backed q)).Reachable w) : Sound q w :=
  h.invariant sound_new fun _ _ _ _ hs ht => by
    obtain ⟨hb, ht⟩ := Machine.guarded_step ht
    exact hs.step hb ht

/-- An open queue with work in it has an awake worker that has yet to take, a
worker that is starting, an elastic worker in its expansion wait, or no budget
left. -/
def NotStranded (q : WorkerQueue) (w : World) : Prop :=
  w.state.closed = false → w.state.queue ≠ [] →
    (0 < w.state.idleWorkers ∧ ∃ a ∈ w.workers, isAlert a.position = true) ∨ 0 < w.state.startingWorkers ∨
      (∃ a ∈ w.workers, isExpanding a.position = true) ∨ w.state.liveWorkers = q.maxWorkers

/-- A worker outside user destructors that comes to the queue or starts
another worker. -/
def isTending : Position → Bool
  | .idle .waiting => false
  | .running _ => false
  | .gone => false
  | _ => true

/-- Work is left to a worker inside user destructors only when all of the
budget is. -/
def Unblocked (q : WorkerQueue) (w : World) : Prop :=
  w.state.closed = false → w.state.queue ≠ [] → tally isRunning w.workers < q.maxWorkers →
    (∃ a ∈ w.workers, isTending a.position = true) ∨ w.submitters ≠ [] ∨ w.startup ≠ .ready

theorem Sound.notStranded (h : Sound q w) : NotStranded q w := by
  intro hopen hq
  by_cases hidle : 0 < w.state.idleWorkers
  · have hal := h.alerted
    have hlen := List.length_pos_iff.mpr hq
    refine .inl ⟨hidle, tally_pos.mp ?_⟩
    simp only [Alerted] at hal
    omega
  · by_cases hs : 0 < w.state.startingWorkers
    · exact .inr (.inl hs)
    · by_cases hl : w.state.liveWorkers < q.maxWorkers
      · exact .inr (.inr (.inl (tally_pos.mp (h.covered (needs_iff.mpr ⟨hopen, hq, by omega, by omega, hl⟩)))))
      · have := h.counted.ceiling
        exact .inr (.inr (.inr (by omega)))

theorem tending_of {x : Position} (h : isAlert x = true ∨ isExpanding x = true ∨ isStarting x = true) :
    isTending x = true := by
  cases x with
  | idle wait => cases wait <;> simp_all [isAlert, isExpanding, isStarting, isTending]
  | _ => simp_all [isAlert, isExpanding, isStarting, isTending]

theorem Sound.unblocked (h : Sound q w) : Unblocked q w := by
  intro hopen hq hrun
  rcases h.notStranded hopen hq with ⟨-, a, ha, hp⟩ | hs | ⟨a, ha, hp⟩ | hl
  · exact .inl ⟨a, ha, tending_of (.inl hp)⟩
  · by_cases hr : w.startup = .ready
    · by_cases hsub : w.submitters = []
      · have hstarting := h.counted.starting
        simp only [hr, hsub, pending, List.length_nil] at hstarting
        obtain ⟨a, ha, hp⟩ := tally_pos.mp (show 0 < tally isStarting w.workers by omega)
        exact .inl ⟨a, ha, tending_of (.inr (.inr hp))⟩
      · exact .inr (.inl hsub)
    · exact .inr (.inr hr)
  · exact .inl ⟨a, ha, tending_of (.inr (.inl hp))⟩
  · -- every live worker that is not in a destructor is on its way, unless it is idle and not awake
    by_cases hidle : 0 < w.state.idleWorkers
    · have hal := h.alerted
      have hlen := List.length_pos_iff.mpr hq
      simp only [Alerted] at hal
      obtain ⟨a, ha, hp⟩ := tally_pos.mp (show 0 < tally isAlert w.workers by omega)
      exact .inl ⟨a, ha, tending_of (.inl hp)⟩
    · by_contra hnone
      simp only [not_or, not_exists, not_and] at hnone
      have hzero : tally isIdle w.workers = 0 := by
        have := h.counted.idle
        omega
      have heq : tally isActive w.workers ≤ tally isRunning w.workers := by
        refine List.countP_mono_left fun a ha hp => ?_
        have hidle := List.countP_eq_zero.mp hzero a ha
        have htend := hnone.1 a ha
        cases hpa : a.position <;> simp_all [isActive, isIdle, isTending, isRunning]
      have := h.counted.live
      omega

/-- The step outside the condition strands what it leaves. -/
theorem conclude_strands (i : Nat) (elapsed : Bool) (hm : q.mayReserve a.core s = false)
    (hn : q.needsElasticLocked (behind s) = true) (hx : ∀ b ∈ w.workers, isExpanding b.position = false) :
    ¬ NotStranded q (w.settle i a (q.takeLocked a.core elapsed s)) := by
  obtain ⟨hopen, hq, hidle, hstarting, hlive⟩ := needs_iff.mp hn
  have hcore : a.core = true := by
    by_contra hc
    simp [WorkerQueue.mayReserve, hc] at hm
  cases hsq : s.queue with
  | nil => simp [behind, hsq] at hq
  | cons batch queue =>
      have hbehind : behind s = { s with queue, runningBatches := s.runningBatches + 1 } := by simp [behind, hsq]
      have hm' : q.mayReserve true (behind s) = false := hcore ▸ hm
      have heq : w.settle i a (q.takeLocked a.core elapsed s) =
          (w.put i (a.move (.running batch)) (behind s)).notifyAll := by
        simp only [WorkerQueue.takeLocked, hsq, ← hbehind, hcore, Bool.not_true, Bool.false_and, Bool.false_eq_true,
          if_false, WorkerQueue.conclude, hm', World.settle]
      rw [heq]
      intro h
      rcases h hopen hq with ⟨hpos, -⟩ | hpos | ⟨b, hb, hp⟩ | hfull
      · exact absurd hpos (by simp [World.notifyAll, World.put, hidle])
      · exact absurd hpos (by simp [World.notifyAll, World.put, hstarting])
      · obtain ⟨c, hc, rfl⟩ := List.mem_map.mp hb
        rw [show isExpanding c.notify.position = isExpanding c.position from isExpanding_rouse _ _] at hp
        rcases List.mem_or_eq_of_mem_set hc with hc | rfl
        · simp [hx c hc] at hp
        · cases hp
      · exact absurd hfull (Nat.ne_of_lt hlive)

theorem stranded_of_unbacked {x : Action} (hb : backed q w x = false) (hs : w.step q x = some w') :
    ¬ NotStranded q w' := by
  cases he : entering w x with
  | none => simp [backed, he] at hb
  | some entry =>
      obtain ⟨a, s⟩ := entry
      simp only [backed, he, Bool.or_eq_false_iff, Bool.not_eq_false', List.any_eq_false, Bool.not_eq_true] at hb
      obtain ⟨⟨hm, hn⟩, hx⟩ := hb
      have hcore : a.core = true := by
        by_contra hc
        simp [WorkerQueue.mayReserve, hc] at hm
      cases x with
      | take i elapsed =>
          simp only [entering] at he
          split at he
          · next b hi =>
            split at he
            · next hp =>
              cases he
              obtain rfl : w.settle i a (q.takeLocked a.core elapsed w.state.activate) = w' := by
                simpa [World.step, hi, hp] using hs
              exact conclude_strands i elapsed hm hn hx
            · next hp =>
              cases he
              obtain rfl : w.settle i a (q.takeLocked a.core elapsed w.state) = w' := by
                simpa [World.step, hi, hp] using hs
              exact conclude_strands i elapsed hm hn hx
            · cases he
          · cases he
      | wake i elapsed =>
          simp only [entering] at he
          split at he
          · next b hi =>
            split at he
            · next hp =>
              cases he
              obtain rfl : w.settle i a (q.takeLocked a.core elapsed w.state.unidle) = w' := by
                simpa [World.step, hi, hp, hcore] using hs
              exact conclude_strands i elapsed hm hn hx
            · cases he
          · cases he
      | _ => cases he

/-- In every run whose steps meet the condition no work is stranded and no
blocked destructor holds work back, and the next step strands nothing exactly
when it meets the condition. -/
theorem backlog_served (q : WorkerQueue) (w : World) (h : ((machine q).guarded (backed q)).Reachable w) :
    NotStranded q w ∧ Unblocked q w ∧
      ∀ x w', w.step q x = some w' → (NotStranded q w' ↔ backed q w x = true) := by
  have hs := sound_of_reachable h
  refine ⟨hs.notStranded, hs.unblocked, fun x w' ht => ⟨fun hn => ?_, fun hb => (hs.step hb ht).notStranded⟩⟩
  by_contra hb
  exact stranded_of_unbacked (by simpa using hb) ht hn

/-- The default domain: three core workers, sixteen at most. -/
def defaultQueue : WorkerQueue := tryStartWith coreWorkerCount (some ⟨1024, by decide, by decide⟩)

/-- The three core workers start and are blocked one after the other. -/
def blockedRun : List Action :=
  [.startCore, .launch, .take 0 false, .acknowledge, .launch, .take 1 false, .acknowledge, .launch, .take 2 false,
    .acknowledge, .launch, .submit 0 (some 0), .wake 0 false, .submit 1 none, .wake 1 false, .submit 2 none,
    .wake 2 false]

/-- Two more batches come: the elastic worker takes one and waits for the
other to need a further worker. -/
theorem backlog_served_expanding :
    ∃ w, ((machine defaultQueue).guarded (backed defaultQueue)).after World.new
        (blockedRun ++ [.submit 3 none, .submit 4 none, .spawnElastic (.submitter 0), .take 3 false]) = some w ∧
      w.state.queue = [4] ∧ NotStranded defaultQueue w ∧ ∃ a ∈ w.workers, isExpanding a.position = true := by
  obtain ⟨w, hw, hp⟩ := (Option.any_eq_true (fun w : World => decide (w.state = ⟨[4], false, 4, 0, 0, 4⟩)) _).mp
    (show (Machine.after ((machine defaultQueue).guarded (backed defaultQueue)) World.new (blockedRun ++
      [.submit 3 none, .submit 4 none, .spawnElastic (.submitter 0), .take 3 false])).any _ = true by decide +kernel)
  have hs := of_decide_eq_true hp
  have h := (backlog_served defaultQueue w (Machine.Reachable.after .init hw)).1
  refine ⟨w, hw, by rw [hs], h, ?_⟩
  rcases h (by rw [hs]) (by rw [hs]; simp) with ⟨hpos, -⟩ | hpos | hx | hfull
  · simp [hs] at hpos
  · simp [hs] at hpos
  · exact hx
  · rw [hs] at hfull
    exact absurd hfull (by decide)

/-- One elastic worker beside the core has come to rest. Of five batches
submitted back to back it takes one and the core workers take three; the last
one has no worker and starts none. -/
def strandedRun : List Action :=
  blockedRun ++ [.submit 3 none, .spawnElastic (.submitter 0), .take 3 false, .finish 0, .finish 1, .finish 2,
    .finish 3, .take 0 false, .take 1 false, .take 2 false, .take 3 false, .submit 4 (some 3), .submit 5 (some 0),
    .submit 6 (some 1), .submit 7 (some 2), .submit 8 none, .wake 3 false, .wake 0 false, .wake 1 false, .wake 2 false]

theorem core_take_strands :
    ∃ w, (machine defaultQueue).Reachable w ∧ ¬ NotStranded defaultQueue w := by
  obtain ⟨w, hw, hp⟩ := (Option.any_eq_true (fun w : World => decide (w.state = ⟨[8], false, 4, 0, 0, 4⟩ ∧
      ∀ a ∈ w.workers, isExpanding a.position = false)) _).mp
    (show (Machine.after (machine defaultQueue) World.new strandedRun).any _ = true by decide +kernel)
  obtain ⟨hs, hx⟩ := of_decide_eq_true hp
  refine ⟨w, Machine.Reachable.after .init hw, fun h => ?_⟩
  rcases h (by rw [hs]) (by rw [hs]; simp) with ⟨hpos, -⟩ | hpos | ⟨a, ha, hp⟩ | hfull
  · simp [hs] at hpos
  · simp [hs] at hpos
  · simp [hx a ha] at hp
  · rw [hs] at hfull
    exact absurd hfull (by decide)

end Taskvisor.Ownership.Backlog
