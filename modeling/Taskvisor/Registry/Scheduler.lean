import Taskvisor.Lib.Machine
import Taskvisor.Runtime.Base
import Taskvisor.Actor.Retry

namespace Taskvisor.Registry.Scheduler

open Lib Runtime.Base
open Actor.Retry (ActorExitReason)

inductive ActorJoinError
  | panicked (cleanupPoisoned : Bool)
  | aborted
deriving DecidableEq

abbrev ActorResult := Except ActorJoinError ActorExitReason

/-- The ends of one actor's channel and task, of which there is one each. -/
structure Receiver where
deriving DecidableEq

structure JoinHandle where
deriving DecidableEq

structure AttemptReservation where
  id : TaskId
  name : String
deriving DecidableEq

/-- What a join resolves to. `nested` says whether the destructor of the panic
payload panics. -/
inductive Joined
  | output (undelivered : Option ActorResult)
  | panicked (nested : Bool)
  | cancelled

/-- The task around the actor's future. -/
inductive Wrapper
  | unspawned
  | discarded
  | running
  | produced (result : ActorResult)
  | sent (undelivered : Option ActorResult)
  | signalled (undelivered : Option ActorResult)
  | finished (joined : Joined)

structure Oneshot where
  value : Option ActorResult
  senderGone : Bool
  receiverGone : Bool

structure ActorHandle where
  join : Option JoinHandle
  result : Option Receiver
  ready : Option ActorResult
  logical : Option ActorResult
  reservation : Option AttemptReservation

/-- The arguments of `abort_actor` that the reaper keeps. -/
structure Reap where
  handle : JoinHandle
  result : Option Receiver
  ready : Option ActorResult

inductive Effect
  | registered (reservation : AttemptReservation)
  | abortRequested
  | submitted (reap : Reap)

/-- Where the owner of the handle is. -/
inductive Op
  | idle
  | polled
  | joined (joined : Joined)
  | registered (reap : Reap) (dropping : Bool)
  | requested (reap : Reap) (dropping : Bool)

/-- `stored` says whether the join handle was put into the slot. `result` is
what the wrapper produced, `aborted` whether `abort` was called. -/
structure World where
  wrapper : Wrapper
  joinSlot : Option JoinHandle
  stored : Bool
  channel : Oneshot
  completions : List TaskId
  cleanupPoisoned : Bool
  handle : ActorHandle
  op : Op
  yielded : List ActorResult
  dropped : Bool
  effects : List Effect
  result : Option ActorResult
  aborted : Bool

inductive Action
  | spawn
  | store
  | discard
  | poison
  | returns (reason : ActorExitReason)
  | panics (nested : Bool)
  | cancel
  | crash (nested : Bool)
  | send
  | signal
  | exit
  | probe
  | poll
  | pollJoin
  | complete
  | abort
  | drop
  | request
  | submit

namespace Oneshot

/-- The value, if the receiver is there to take it. -/
def send (channel : Oneshot) (result : ActorResult) : Option ActorResult × Oneshot :=
  if channel.receiverGone then (some result, { channel with senderGone := true })
  else (none, { channel with value := some result, senderGone := true })

end Oneshot

namespace ActorHandle

def new (reservation : AttemptReservation) : ActorHandle := ⟨none, some ⟨⟩, none, none, some reservation⟩

end ActorHandle

namespace World

def new (reservation : AttemptReservation) : World where
  wrapper := .unspawned
  joinSlot := none
  stored := false
  channel := ⟨none, false, false⟩
  completions := []
  cleanupPoisoned := false
  handle := .new reservation
  op := .idle
  yielded := []
  dropped := false
  effects := []
  result := none
  aborted := false

def loadJoin (w : World) : World :=
  match w.handle.join with
  | some _ => w
  | none => { w with handle := { w.handle with join := w.joinSlot }, joinSlot := none }

/-- The probe of the receiver, the same in `result_ready` and in `poll`. -/
def probe (w : World) : World :=
  match w.handle.ready, w.handle.result with
  | none, some _ =>
      match w.channel.value with
      | some result =>
          { w with channel := { w.channel with value := none }
                   handle := { w.handle with ready := some result, result := none } }
      | none => if w.channel.senderGone then { w with handle := { w.handle with result := none } } else w
  | _, _ => w

def resultReady (w : World) : Bool × World := (w.probe.handle.ready.isSome, w.probe)

/-- The fallback for a join, and the poison flag after it. -/
def fallback (cleanupPoisoned : Bool) : Joined → Option ActorResult × Bool
  | .output undelivered => (undelivered, cleanupPoisoned)
  | .panicked nested => (some (.error (.panicked (cleanupPoisoned || nested))), cleanupPoisoned || nested)
  | .cancelled => (some (.error .aborted), cleanupPoisoned)

def completeJoin (w : World) (joined : Joined) : ActorResult × World :=
  let (fallback, cleanupPoisoned) := fallback w.cleanupPoisoned joined
  let (_, w) := { w with cleanupPoisoned, handle := { w.handle with join := none, reservation := none } }.resultReady
  ((w.handle.ready.or fallback).getD (.error .aborted), { w with handle := { w.handle with ready := none } })

def yields (w : World) (result : ActorResult) : World := { w with yielded := w.yielded ++ [result], op := .idle }

def poll (w : World) : World :=
  match w.handle.logical with
  | some result => { w with handle := { w.handle with logical := none } }.yields result
  | none =>
      let w := w.loadJoin.probe
      { w with op := if w.handle.join.isSome then .polled else .idle }

/-- The fields of the handle go, and with them what it still owns. -/
def gone (w : World) : World :=
  { w with dropped := true
           channel := { w.channel with receiverGone := w.channel.receiverGone || w.handle.result.isSome }
           handle := ⟨none, none, none, none, none⟩ }

def abort (w : World) (dropping : Bool) : World :=
  let w := { w.loadJoin with aborted := true }
  match w.handle.join with
  | none => { w with handle := { w.handle with logical := some (.error .aborted) } }
  | some handle =>
      match w.handle.reservation with
      | none =>
          let w := { w with handle := { w.handle with join := none, logical := some (.error .aborted) }
                            effects := w.effects ++ [.abortRequested] }
          if dropping then w.gone else w
      | some reservation =>
          { w with handle := { w.handle with join := none, reservation := none, result := none, ready := none }
                   effects := w.effects ++ [.registered reservation]
                   op := .registered ⟨handle, w.handle.result, w.handle.ready⟩ dropping }

def drop (w : World) : World :=
  let w := w.loadJoin
  if w.handle.join.isSome then w.abort true else w.gone

/-- The end of `abort_actor`. -/
def submit (w : World) (reap : Reap) (dropping : Bool) : World :=
  let w := { w with effects := w.effects ++ [.submitted reap], op := .idle
                    handle := { w.handle with logical := some (.error .aborted) } }
  if dropping then w.gone else w

/-- What the wrapper awaited is there. -/
def produce (w : World) (result : ActorResult) : World := { w with wrapper := .produced result, result := some result }

/-- The wrapper ends without a result, and its sender with it. -/
def fails (w : World) (joined : Joined) : World :=
  { w with wrapper := .finished joined, channel := { w.channel with senderGone := true } }

/-- The handle is used once its task is stored. -/
def claimed (w : World) : Bool := w.stored && !w.dropped

def step (a : AttemptReservation) (w : World) : Action → Option World
  | .spawn =>
      match w.wrapper with
      | .unspawned => some { w with wrapper := .running }
      | _ => none
  | .store =>
      match w.wrapper with
      | .unspawned => none
      | .discarded => none
      | _ => if w.stored then none else some { w with joinSlot := some ⟨⟩, stored := true }
  | .discard =>
      match w.wrapper with
      | .unspawned => some { w with wrapper := .discarded, channel := { w.channel with senderGone := true } }
      | _ => none
  | .poison =>
      match w.wrapper with
      | .running => some { w with cleanupPoisoned := true }
      | _ => none
  | .returns reason =>
      match w.wrapper with
      | .running => some (w.produce (.ok reason))
      | _ => none
  | .panics nested =>
      match w.wrapper with
      | .running =>
          let cleanupPoisoned := w.cleanupPoisoned || nested
          some ({ w with cleanupPoisoned }.produce (.error (.panicked cleanupPoisoned)))
      | _ => none
  | .cancel =>
      match w.wrapper with
      | .running => some (w.fails .cancelled)
      | _ => none
  | .crash nested =>
      match w.wrapper with
      | .running => some (w.fails (.panicked nested))
      | _ => none
  | .send =>
      match w.wrapper with
      | .produced result =>
          let (undelivered, channel) := w.channel.send result
          some { w with wrapper := .sent undelivered, channel }
      | _ => none
  | .signal =>
      match w.wrapper with
      | .sent undelivered => some { w with wrapper := .signalled undelivered, completions := w.completions ++ [a.id] }
      | _ => none
  | .exit =>
      match w.wrapper with
      | .signalled undelivered => some { w with wrapper := .finished (.output undelivered) }
      | _ => none
  | .probe =>
      match w.op with
      | .idle => if w.claimed then some w.resultReady.2 else none
      | _ => none
  | .poll =>
      match w.op with
      | .idle => if w.claimed then some w.poll else none
      | _ => none
  | .pollJoin =>
      match w.op with
      | .polled =>
          match w.wrapper with
          | .finished joined => some { w with op := .joined joined }
          | _ => some { w with op := .idle }
      | _ => none
  | .complete =>
      match w.op with
      | .joined joined =>
          let (result, w) := w.completeJoin joined
          some (w.yields result)
      | _ => none
  | .abort =>
      match w.op with
      | .idle => if w.claimed then some (w.abort false) else none
      | _ => none
  | .drop =>
      match w.op with
      | .idle =>
          match w.wrapper with
          | .discarded => if w.dropped then none else some w.drop
          | _ => if w.claimed then some w.drop else none
      | _ => none
  | .request =>
      match w.op with
      | .registered reap dropping =>
          some { w with effects := w.effects ++ [.abortRequested], op := .requested reap dropping }
      | _ => none
  | .submit =>
      match w.op with
      | .requested reap dropping => some (w.submit reap dropping)
      | _ => none

end World

def machine (a : AttemptReservation) : Machine World Action := ⟨World.new a, World.step a⟩

end Taskvisor.Registry.Scheduler
