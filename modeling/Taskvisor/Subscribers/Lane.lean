import Taskvisor.Lib.Machine
import Taskvisor.Lib.Usize

namespace Taskvisor.Subscribers.Lane

open Lib

inductive LanePhase
  | idle
  | scheduled
  | running
  | finished
deriving DecidableEq

inductive SubscriberExecution
  | shared
  | dedicated
deriving DecidableEq

/-- An event as the lane sees it: an identity for the callback, and whether
it is one of the library's own diagnostics. -/
structure Event where
  id : Nat
  isInternalDiagnostic : Bool
deriving DecidableEq

/-- The fields under the lane's mutex. `ownership` and `done` say whether the
stored subscriber and the completion sender are still there. -/
structure SubscriberLaneState where
  queue : List Event
  dropped : Nat
  phase : LanePhase
  closing : Bool
  abort : Bool
  closedReported : Bool
  ownership : Bool
  done : Bool

structure SubscriberLane where
  name : String
  capacity : NonZeroUsize
  execution : SubscriberExecution

inductive EnqueueResult
  | queued
  | scheduleShared
  | closed (name : String)
deriving DecidableEq

inductive Next
  | event (event : Event)
  | overflow (dropped : Nat)
  | finish
  | idle
deriving DecidableEq

def sharedCallbackQuantum : Nat := 64

namespace SubscriberLaneState

def new : SubscriberLaneState where
  queue := []
  dropped := 0
  phase := .idle
  closing := false
  abort := false
  closedReported := false
  ownership := true
  done := true

def enqueue (state : SubscriberLaneState) (lane : SubscriberLane) (event : Event) :
    EnqueueResult × SubscriberLaneState :=
  if state.phase = .finished then
    if !event.isInternalDiagnostic && !state.closedReported then
      (.closed lane.name, { state with closedReported := true })
    else (.queued, state)
  else if state.queue.length = lane.capacity.get then
    if !event.isInternalDiagnostic then (.queued, { state with dropped := saturatingAdd state.dropped 1 })
    else (.queued, state)
  else
    let state := { state with queue := state.queue ++ [event] }
    if state.phase = .idle then
      (if lane.execution = .dedicated then .queued else .scheduleShared, { state with phase := .scheduled })
    else (.queued, state)

/-- What both loops decide under the first lock of a turn. -/
def next (state : SubscriberLaneState) : Next × SubscriberLaneState :=
  if state.abort then (.finish, state)
  else match state.queue with
    | event :: queue => (.event event, { state with queue })
    | [] =>
      if state.dropped ≠ 0 then (.overflow state.dropped, { state with dropped := 0 })
      else if state.closing then (.finish, state)
      else (.idle, state)

def isDrained (state : SubscriberLaneState) : Bool := state.queue.isEmpty && state.dropped == 0

def finish (state : SubscriberLaneState) : SubscriberLaneState :=
  { state with phase := .finished, done := false }

def discard (state : SubscriberLaneState) : SubscriberLaneState := { state with queue := [], dropped := 0 }

end SubscriberLaneState

/-- Where the lane's worker stands. `used` counts the callbacks of a shared
turn; a dedicated worker leaves it at zero. -/
inductive Turn
  | away
  | entering
  | select (used : Nat)
  | act (next : Next) (used : Nat)
  | tail
  | finishing
  | requeue
  | failing
  | exited
deriving DecidableEq

inductive Callback
  | event (event : Event)
  | overflow (dropped : Nat)
deriving DecidableEq

/-- What one call of `enqueue` did with its event. -/
inductive Verdict
  | accepted
  | full
  | closed
deriving DecidableEq

/-- One lane with its worker, the entries for it in the shared ready queue, and
the subscriber set that feeds it. `emitting` is a fan-out that holds the set's
lock and still has to schedule the lane. The last four fields are a record of
what happened; no step reads them. -/
structure World where
  state : SubscriberLaneState
  turn : Turn
  ready : Nat
  sharedClosed : Bool
  started : Bool
  begun : Bool
  emitting : Bool
  offered : List (Event × Verdict)
  callbacks : List Callback
  submitted : Nat
  signalled : Nat

inductive Action
  | enqueue (event : Event)
  | scheduleShared
  | closeSet
  | beginClose
  | abort
  | detach
  | takeReady
  | enter
  | select
  | callback (survived : Bool)
  | settle
  | finishRunning
  | tail
  | requeue
  | unwind
  | failRunning
deriving DecidableEq

namespace World

def new : World where
  state := .new
  turn := .away
  ready := 0
  sharedClosed := false
  started := true
  begun := false
  emitting := false
  offered := []
  callbacks := []
  submitted := 0
  signalled := 0

def verdict (w : World) (lane : SubscriberLane) : Verdict :=
  if w.state.phase = .finished then .closed
  else if w.state.queue.length = lane.capacity.get then .full
  else .accepted

def enqueue (w : World) (lane : SubscriberLane) (event : Event) : World :=
  let (result, state) := w.state.enqueue lane event
  { w with
    state
    emitting := decide (result = .scheduleShared)
    offered := w.offered ++ [(event, w.verdict lane)] }

/-- `SharedQueue::schedule`. -/
def schedule (w : World) : World := if w.sharedClosed then w else { w with ready := w.ready + 1 }

/-- The subscriber goes to its cleanup bundle. -/
def submit (w : World) : World := { w with submitted := w.submitted + 1 }

/-- Phase `Finished` is stored and the completion sender, if still there, fires. -/
def complete (w : World) : World :=
  { w with
    state := w.state.finish
    signalled := if w.state.done then w.signalled + 1 else w.signalled }

/-- The subscriber stored in the lane, if any, leaves for cleanup. -/
def takeOwnership (w : World) : World :=
  if w.state.ownership then { w with state := { w.state with ownership := false } }.submit else w

def store (w : World) (phase : LanePhase) : World :=
  { w with state := { w.state with phase, ownership := true } }

def beginClose (w : World) : World :=
  let w := { w with begun := true, state := { w.state with closing := true } }
  if w.state.phase = .idle then w.complete.takeOwnership else w

def abort (w : World) : World :=
  let w := { w with state := { w.state.discard with closing := true, abort := true } }
  if w.state.phase = .idle ∨ w.state.phase = .scheduled then w.complete.takeOwnership else w

/-- The worker's place once it is done with a turn. -/
def leave (w : World) (lane : SubscriberLane) : World :=
  { w with turn := if lane.execution = .dedicated then .exited else .away }

def finishRunning (w : World) (lane : SubscriberLane) : World :=
  (({ w with state := w.state.discard }.complete).submit).leave lane

def failRunning (w : World) (lane : SubscriberLane) : World :=
  if w.state.phase = .finished then w.leave lane
  else (({ w with state := w.state.discard }.complete).takeOwnership).leave lane

/-- The first lock of `run_dedicated_lane`'s outer loop, which waits while the
lane is idle. -/
def enterDedicated (w : World) : Option World :=
  match w.state.phase with
  | .scheduled => some { w with turn := .select 0, state := { w.state with phase := .running, ownership := false } }
  | .finished => some { w with turn := .exited }
  | .idle => none
  | .running => none

/-- The first lock of `run_shared_quantum`. -/
def enterShared (w : World) : World :=
  if w.state.phase ≠ .scheduled ∨ w.state.abort then { w with turn := .away }
  else { w with turn := .select 0, state := { w.state with phase := .running, ownership := false } }

/-- The lane goes on to the next callback, or a shared lane ends its quantum. -/
def again (w : World) (lane : SubscriberLane) (used : Nat) : World :=
  { w with turn :=
      match lane.execution with
      | .dedicated => .select 0
      | .shared => if used + 1 = sharedCallbackQuantum then .tail else .select (used + 1) }

def callback (w : World) (lane : SubscriberLane) (call : Callback) (used : Nat) (survived : Bool) : World :=
  let w := { w with callbacks := w.callbacks ++ [call] }
  if survived then w.again lane used else { w with turn := .finishing }

/-- The `Idle` arm of `run_dedicated_lane`, under its second lock. -/
def settleDedicated (w : World) : World :=
  if w.state.abort || w.state.closing then { w with turn := .finishing }
  else if w.state.isDrained then { w.store .idle with turn := .away }
  else { w with turn := .select 0 }

/-- The `Idle` arm of `run_shared_quantum`, under its second lock. -/
def settleShared (w : World) : World :=
  if w.state.abort || w.state.closing then { w with turn := .finishing }
  else if w.state.isDrained then { w.store .idle with turn := .away }
  else { w.store .scheduled with turn := .requeue }

/-- The end of `run_shared_quantum`, after a full quantum of callbacks. -/
def tail (w : World) : World :=
  let empty := w.state.isDrained
  if w.state.abort || (w.state.closing && empty) then { w with turn := .finishing }
  else if empty then { w.store .idle with turn := .away }
  else { w.store .scheduled with turn := .requeue }

def step (lane : SubscriberLane) (w : World) : Action → Option World
  | .enqueue event => if w.started && !w.emitting then some (w.enqueue lane event) else none
  | .scheduleShared => if w.emitting then some { w.schedule with emitting := false } else none
  | .closeSet => if w.started && !w.emitting then some { w with started := false } else none
  | .beginClose => if !w.started && !w.begun && !w.state.abort then some w.beginClose else none
  | .abort => if !w.started then some w.abort else none
  | .detach =>
    if !w.started && (w.state.abort || !w.state.done) then some { w with sharedClosed := true, ready := 0 } else none
  | .takeReady =>
    match lane.execution, w.turn, w.ready with
    | .shared, .away, ready + 1 => some { w with ready, turn := .entering }
    | _, _, _ => none
  | .enter =>
    match lane.execution, w.turn with
    | .dedicated, .away => w.enterDedicated
    | .shared, .entering => some w.enterShared
    | _, _ => none
  | .select =>
    match w.turn with
    | .select used => some { w with turn := .act w.state.next.1 used, state := w.state.next.2 }
    | _ => none
  | .callback survived =>
    match w.turn with
    | .act (.event event) used => some (w.callback lane (.event event) used survived)
    | .act (.overflow dropped) used => some (w.callback lane (.overflow dropped) used survived)
    | _ => none
  | .settle =>
    match w.turn, lane.execution with
    | .act .idle _, .dedicated => some w.settleDedicated
    | .act .idle _, .shared => some w.settleShared
    | _, _ => none
  | .finishRunning =>
    match w.turn with
    | .act .finish _ => some (w.finishRunning lane)
    | .finishing => some (w.finishRunning lane)
    | _ => none
  | .tail =>
    match w.turn with
    | .tail => some w.tail
    | _ => none
  | .requeue =>
    match w.turn with
    | .requeue => some { w.schedule with turn := .away }
    | _ => none
  | .unwind =>
    match w.turn with
    | .act (.event _) _ => some { w.submit with turn := .failing }
    | .act (.overflow _) _ => some { w.submit with turn := .failing }
    | _ => none
  | .failRunning =>
    match w.turn with
    | .failing => some (w.failRunning lane)
    | _ => none

end World

def machine (lane : SubscriberLane) : Machine World Action := ⟨.new, World.step lane⟩

end Taskvisor.Subscribers.Lane
