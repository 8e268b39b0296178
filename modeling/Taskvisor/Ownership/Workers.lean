import Taskvisor.Lib.Machine
import Taskvisor.Lib.Usize

namespace Taskvisor.Ownership.Workers

open Lib

def coreWorkerCount : Nat := 3

def globalMaxWorkerCount : Nat := 16

def maxWorkerCount : Option NonZeroUsize → Nat
  | some capacity => min capacity.get globalMaxWorkerCount
  | none => globalMaxWorkerCount

/-- A charged batch of destructor jobs, known by its identity. -/
abbrev DropBatch := Nat

/-- The fields under the queue's mutex. -/
structure WorkerState where
  queue : List DropBatch
  closed : Bool
  liveWorkers : Nat
  idleWorkers : Nat
  startingWorkers : Nat
  runningBatches : Nat
deriving DecidableEq

/-- The limits of one queue. The executor never asks for more core workers
than its ceiling. -/
structure WorkerQueue where
  coreWorkers : Nat
  maxWorkers : Nat
  core_le : coreWorkers ≤ maxWorkers

def tryStartWith (workerCount : Nat) (capacity : Option NonZeroUsize) : WorkerQueue where
  coreWorkers := min workerCount (maxWorkerCount capacity)
  maxWorkers := maxWorkerCount capacity
  core_le := Nat.min_le_right _ _

inductive WorkerTake
  | batch (batch : DropBatch) (spawnElastic : Bool)
  | exit
deriving DecidableEq

/-- What `take` has come to when it releases the mutex. -/
inductive Release
  | done (take : WorkerTake)
  | expand (batch : DropBatch)
  | wait (announce : Bool)
deriving DecidableEq

namespace WorkerState

def new : WorkerState := ⟨[], false, 0, 0, 0, 0⟩

def cancelStartingWorker (state : WorkerState) : WorkerState :=
  { state with startingWorkers := state.startingWorkers - 1 }

def finishBatch (state : WorkerState) : WorkerState := { state with runningBatches := state.runningBatches - 1 }

def close (state : WorkerState) : WorkerState := { state with closed := true }

/-- The first call of `take` moves its worker from the starting to the live. -/
def activate (state : WorkerState) : WorkerState :=
  { state with startingWorkers := state.startingWorkers - 1, liveWorkers := state.liveWorkers + 1 }

def unidle (state : WorkerState) : WorkerState := { state with idleWorkers := state.idleWorkers - 1 }

def retire (state : WorkerState) : WorkerState := { state with liveWorkers := state.liveWorkers - 1 }

end WorkerState

namespace WorkerQueue

def needsElasticLocked (q : WorkerQueue) (state : WorkerState) : Bool :=
  !state.closed && !state.queue.isEmpty && state.idleWorkers == 0 && state.startingWorkers == 0 &&
    decide (state.liveWorkers < q.maxWorkers)

def reserveElasticLocked (q : WorkerQueue) (state : WorkerState) : Bool × WorkerState :=
  if q.needsElasticLocked state then (true, { state with startingWorkers := state.startingWorkers + 1 })
  else (false, state)

/-- The locked section of `submit`: `none` when the queue is closed, else
whether an elastic worker was reserved. -/
def submit (q : WorkerQueue) (state : WorkerState) (batch : DropBatch) : Option (Bool × WorkerState) :=
  if state.closed then none else some (q.reserveElasticLocked { state with queue := state.queue ++ [batch] })

def mayReserve (q : WorkerQueue) (core : Bool) (state : WorkerState) : Bool :=
  !core || decide (state.liveWorkers + state.startingWorkers ≤ q.coreWorkers)

/-- The end of `take`, with a batch in hand and the expansion wait over. -/
def conclude (q : WorkerQueue) (core : Bool) (batch : DropBatch) (state : WorkerState) : Release × WorkerState :=
  if q.mayReserve core state then
    let (spawnElastic, state) := q.reserveElasticLocked state
    (.done (.batch batch spawnElastic), state)
  else (.done (.batch batch false), state)

/-- One pass of the loop of `take`. `elapsed` says that the expansion delay is
over by the time the wait looks at the clock. -/
def takeLocked (q : WorkerQueue) (core elapsed : Bool) (state : WorkerState) : Release × WorkerState :=
  match state.queue with
  | batch :: queue =>
      let state := { state with queue, runningBatches := state.runningBatches + 1 }
      if !core && q.needsElasticLocked state && !elapsed then (.expand batch, state)
      else q.conclude core batch state
  | [] =>
      if state.closed then (.done .exit, state)
      else (.wait (state.idleWorkers + 1 == 1), { state with idleWorkers := state.idleWorkers + 1 })

/-- The mutex is taken again inside the expansion wait. -/
def resume (q : WorkerQueue) (core elapsed : Bool) (batch : DropBatch) (state : WorkerState) : Release × WorkerState :=
  if q.needsElasticLocked state && !elapsed then (.expand batch, state) else q.conclude core batch state

def workerExited (q : WorkerQueue) (state : WorkerState) : Bool × WorkerState := q.reserveElasticLocked state.retire

end WorkerQueue

/-- A waiter of the condition variable is `awake` once it was notified, timed
out or left the wait spuriously, and has not taken the mutex again. -/
inductive Wait
  | waiting
  | awake (timedOut : Bool)
deriving DecidableEq

/-- The locked sections that a call of `spawn_elastic` has ahead of it. -/
inductive Spawn
  | check
  | cancel
deriving DecidableEq

inductive Position
  | launched
  | taking
  | idle (wait : Wait)
  | expanding (batch : DropBatch) (wait : Wait)
  | spawning (batch : DropBatch) (spawn : Spawn)
  | running (batch : DropBatch)
  | leaving
  | replacing (spawn : Spawn)
  | gone
deriving DecidableEq

/-- One worker thread. `started` says that it still has its startup
acknowledgement to send. -/
structure Worker where
  core : Bool
  started : Bool
  position : Position
deriving DecidableEq

/-- `start_core`: every worker is launched and acknowledged in turn before the
queue is handed out. -/
inductive Startup
  | fresh
  | launching (worker : Nat)
  | handshake (worker : Nat)
  | ready
deriving DecidableEq

/-- The queue with its mutex free, the worker threads and the submitters that
are inside `spawn_elastic`. -/
structure World where
  state : WorkerState
  workers : List Worker
  submitters : List Spawn
  startup : Startup

inductive Caller
  | submitter (index : Nat)
  | worker (index : Nat)

inductive Action
  | startCore
  | launch
  | acknowledge
  | submit (batch : DropBatch) (woken : Option Nat)
  | spawnElastic (caller : Caller)
  | cancelStarting (caller : Caller)
  | take (worker : Nat) (elapsed : Bool)
  | rouse (worker : Nat) (timedOut : Bool)
  | wake (worker : Nat) (elapsed : Bool)
  | resume (worker : Nat) (elapsed : Bool)
  | finish (worker : Nat)
  | unwind (worker : Nat)
  | exited (worker : Nat)
  | close

def Position.rouse (timedOut : Bool) : Position → Position
  | .idle .waiting => .idle (.awake timedOut)
  | .expanding batch .waiting => .expanding batch (.awake timedOut)
  | p => p

def Position.isWaiting : Position → Bool
  | .idle .waiting => true
  | .expanding _ .waiting => true
  | _ => false

/-- The position after `spawn_elastic` returned to a worker. -/
def Position.spawned : Position → Position
  | .spawning batch _ => .running batch
  | .replacing _ => .gone
  | p => p

/-- The next section of the `spawn_elastic` a worker is in. -/
def Position.spawn : Position → Option Spawn
  | .spawning _ spawn => some spawn
  | .replacing spawn => some spawn
  | _ => none

def Position.canceled : Position → Position
  | .spawning batch _ => .spawning batch .cancel
  | .replacing _ => .replacing .cancel
  | p => p

def Worker.move (worker : Worker) (position : Position) : Worker := { worker with position }

def Worker.notify (worker : Worker) : Worker := worker.move (worker.position.rouse false)

namespace World

def new : World := ⟨.new, [], [], .fresh⟩

def put (w : World) (i : Nat) (worker : Worker) (state : WorkerState) : World :=
  { w with state, workers := w.workers.set i worker }

def notifyAll (w : World) : World := { w with workers := w.workers.map Worker.notify }

/-- `notify_one` takes one waiter off the wait when there is one. -/
def notifyOne (w : World) : Option Nat → Option World
  | none => if w.workers.all (fun worker => !worker.position.isWaiting) then some w else none
  | some i => do
      let worker ← w.workers[i]?
      if worker.position.isWaiting then some (w.put i worker.notify w.state) else none

/-- What the worker does on leaving the locked section of `take`. -/
def settle (w : World) (i : Nat) (worker : Worker) : Release × WorkerState → World
  | (.done (.batch batch spawnElastic), state) =>
      (w.put i (worker.move (if spawnElastic then .spawning batch .check else .running batch)) state).notifyAll
  | (.done .exit, state) => w.put i (worker.move .leaving) state
  | (.expand batch, state) => w.put i (worker.move (.expanding batch .waiting)) state
  | (.wait announce, state) =>
      (if announce then w.notifyAll else w).put i { worker with started := false, position := .idle .waiting } state

/-- The call of `spawn_elastic` that a caller is in. -/
def spawnOf (w : World) : Caller → Option Spawn
  | .submitter i => w.submitters[i]?
  | .worker i => w.workers[i]?.bind (·.position.spawn)

def moveSpawn (w : World) : Caller → World
  | .submitter i => { w with submitters := w.submitters.set i .cancel }
  | .worker i => { w with workers := w.workers.modify i fun worker => worker.move worker.position.canceled }

def endSpawn (w : World) : Caller → World
  | .submitter i => { w with submitters := w.submitters.eraseIdx i }
  | .worker i => { w with workers := w.workers.modify i fun worker => worker.move worker.position.spawned }

def addWorker (w : World) (core : Bool) : World := { w with workers := w.workers ++ [⟨core, core, .launched⟩] }

def step (q : WorkerQueue) (w : World) : Action → Option World
  | .startCore =>
      match w.startup with
      | .fresh => some { w with state := { w.state with startingWorkers := q.coreWorkers }, startup := .launching 0 }
      | _ => none
  | .launch =>
      match w.startup with
      | .launching k =>
          if k < q.coreWorkers then some { w.addWorker true with startup := .handshake k }
          else some { w with startup := .ready }
      | _ => none
  | .acknowledge =>
      match w.startup with
      | .handshake k =>
          match w.workers[k]? with
          | some worker => if worker.started then none else some { w with startup := .launching (k + 1) }
          | none => none
      | _ => none
  | .submit batch woken =>
      match w.startup, q.submit w.state batch with
      | .ready, some (spawn, state) =>
          ({ w with state, submitters := if spawn then w.submitters ++ [.check] else w.submitters } : World).notifyOne
            woken
      | _, _ => none
  | .spawnElastic caller =>
      match w.spawnOf caller with
      | some .check => if w.state.closed then some (w.moveSpawn caller) else some ((w.endSpawn caller).addWorker false)
      | _ => none
  | .cancelStarting caller =>
      match w.spawnOf caller with
      | some .cancel => some { w.endSpawn caller with state := w.state.cancelStartingWorker }
      | _ => none
  | .take i elapsed =>
      match w.workers[i]? with
      | some worker =>
          match worker.position with
          | .launched => some (w.settle i worker (q.takeLocked worker.core elapsed w.state.activate))
          | .taking => some (w.settle i worker (q.takeLocked worker.core elapsed w.state))
          | _ => none
      | none => none
  | .rouse i timedOut =>
      match w.workers[i]? with
      | some worker =>
          if worker.position.isWaiting && !(worker.core && timedOut) then
            some (w.put i (worker.move (worker.position.rouse timedOut)) w.state)
          else none
      | none => none
  | .wake i elapsed =>
      match w.workers[i]? with
      | some worker =>
          match worker.position with
          | .idle (.awake timedOut) =>
              if !worker.core && timedOut && w.state.queue.isEmpty then
                some (w.put i (worker.move .gone) w.state.unidle.retire)
              else some (w.settle i worker (q.takeLocked worker.core elapsed w.state.unidle))
          | _ => none
      | none => none
  | .resume i elapsed =>
      match w.workers[i]? with
      | some worker =>
          match worker.position with
          | .expanding batch (.awake _) => some (w.settle i worker (q.resume worker.core elapsed batch w.state))
          | _ => none
      | none => none
  | .finish i =>
      match w.workers[i]? with
      | some worker =>
          match worker.position with
          | .running _ => some (w.put i (worker.move .taking) w.state.finishBatch)
          | _ => none
      | none => none
  | .unwind i =>
      match w.workers[i]? with
      | some worker =>
          match worker.position with
          | .running _ => some (w.put i (worker.move .leaving) w.state.finishBatch)
          | _ => none
      | none => none
  | .exited i =>
      match w.workers[i]? with
      | some worker =>
          match worker.position with
          | .leaving =>
              let (spawn, state) := q.workerExited w.state
              some (w.put i (worker.move (if spawn then .replacing .check else .gone)) state).notifyAll
          | _ => none
      | none => none
  | .close =>
      match w.startup with
      | .ready => some { w with state := w.state.close }.notifyAll
      | _ => none

end World

def machine (q : WorkerQueue) : Machine World Action := ⟨World.new, World.step q⟩

end Taskvisor.Ownership.Workers
