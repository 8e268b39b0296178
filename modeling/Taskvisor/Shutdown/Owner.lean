import Taskvisor.Registry.State

namespace Taskvisor.Shutdown.Owner

open Lib Runtime.Base Registry.State

/-- An operating-system error has its code, any other its kind and text. -/
inductive IoError
  | os (code : Int)
  | custom (kind : Nat) (text : String)
deriving DecidableEq

/-- The error that one caller gets: the code again, or the kind around the
shared source, which displays as the source does. -/
def IoError.rebuilt : IoError → IoError
  | .os code => .os code
  | .custom kind text => .custom kind text

inductive ShutdownTrigger
  | requested
  | natural
  | signalSetupFailed (source : IoError)
deriving DecidableEq

inductive ShutdownError
  | graceExceeded (grace : Nat) (stuck : List String)
  | signalSetupFailed (source : IoError)
  | shuttingDown
deriving DecidableEq

inductive ShutdownOutcome
  | completed
  | graceExceeded (grace : Nat) (stuck : List String)
  | signalSetupFailed (source : IoError)
  | shuttingDown
deriving DecidableEq

namespace ShutdownOutcome

def fromDrainResult : Except ShutdownError Unit → ShutdownOutcome
  | .ok () => .completed
  | .error (.graceExceeded grace stuck) => .graceExceeded grace stuck
  | .error _ => .shuttingDown

def intoResult : ShutdownOutcome → Except ShutdownError Unit
  | .completed => .ok ()
  | .graceExceeded grace stuck => .error (.graceExceeded grace stuck)
  | .signalSetupFailed source => .error (.signalSetupFailed source.rebuilt)
  | .shuttingDown => .error .shuttingDown

end ShutdownOutcome

inductive Phase
  | controller
  | registry
  | subscriberListener
  | subscriberWorkers
deriving DecidableEq

inductive Fault
  | drain
  | phase (phase : Phase)
  | owner
deriving DecidableEq

/-- What the workflow met, for the statements only: whether the fence was
acknowledged, the actors that `cancel_all_within` force-aborted, the removal
owners pending when their names were read, and the faults. -/
structure Report where
  fence : Bool
  forced : List String
  pending : Option PendingJoins
  faults : List Fault

def Report.new : Report := ⟨false, [], none, []⟩

/-- The places of the detached owner, with its locals: `drain_with_grace`,
with the loop of `cancel_all_within`, then `finish_shutdown_cleanup`, once more
after a panic of the owner, and the publication. -/
inductive Stage
  | mark
  | fence
  | claim
  | join (handles : List (TaskId × String)) (stuck : List String)
  | drained (stuck : List String)
  | waitJoins (stuck : List String)
  | names (stuck : List String)
  | cleanup (phase : Phase) (outcome : ShutdownOutcome) (clean : Bool)
  | again (phase : Phase)
  | publish (outcome : ShutdownOutcome)

inductive PhaseResult
  | clean
  | failed
  | panicked
deriving DecidableEq

/-- What the rest of the system decides in a step of the owner. -/
inductive Answer
  | go
  | fence (acknowledged : Bool)
  | claim (handles : List (TaskId × String))
  | join (elapsed : Bool)
  | timeout
  | phase (result : PhaseResult)
  | panic

structure Task where
  trigger : ShutdownTrigger
  stage : Stage
  report : Report

/-- The state of the runtime that the owner works on. -/
structure Shared where
  shuttingDown : Bool
  runtimeCancelled : Bool
  pending : PendingJoins

/-- The loop over the claimed entries in `cancel_all_within`. -/
def claimAll (pending : PendingJoins) (handles : List (TaskId × String)) : PendingJoins :=
  handles.foldl (fun pending handle => pending.incWithName handle.1 handle.2) pending

def drainResult (grace : Nat) (stuck : List String) : Except ShutdownError Unit :=
  if stuck.isEmpty then .ok () else .error (.graceExceeded grace stuck)

/-- `report_shutdown_panic` or a failed phase in `finish_shutdown_cleanup`. -/
def Report.fault (r : Report) (fault : Fault) : Report := { r with faults := r.faults ++ [fault] }

namespace Task

def into (t : Task) (stage : Stage) : Task := { t with stage }

/-- `resolve_shutdown` has its outcome: the cleanup follows. -/
def resolved (t : Task) (outcome : ShutdownOutcome) : Task := t.into (.cleanup .controller outcome true)

/-- The next phase, with the cancellation of the runtime token after the
controller's. -/
def nextPhase (s : Shared) : Phase → Shared × Option Phase
  | .controller => ({ s with runtimeCancelled := true }, some .registry)
  | .registry => (s, some .subscriberListener)
  | .subscriberListener => (s, some .subscriberWorkers)
  | .subscriberWorkers => (s, none)

/-- `SubscriberSet::close` reports nothing. -/
def allowed : Phase → PhaseResult → Bool
  | .subscriberWorkers, .failed => false
  | _, _ => true

def step (grace : Nat) (s : Shared) (t : Task) : Answer → Option (Shared × Task)
  | .go =>
    match t.stage with
    | .mark => some ({ s with shuttingDown := true }, t.into .fence)
    | .join [] stuck => some (s, t.into (.drained stuck))
    | .drained stuck => if s.pending.isEmpty then some (s, t.into (.waitJoins stuck)) else none
    | .waitJoins stuck => if s.pending.isEmpty then some (s, t.into (.names stuck)) else none
    | .names stuck =>
      some (s, ({ t with report := { t.report with pending := some s.pending } } : Task).resolved
        (.fromDrainResult (drainResult grace (stuck ++ s.pending.pendingNames))))
    | _ => none
  | .fence acknowledged =>
    match t.stage, t.trigger with
    | .fence, .signalSetupFailed source =>
      some (s, ({ t with report := { t.report with fence := acknowledged } } : Task).resolved (.signalSetupFailed source))
    | .fence, _ =>
      let t : Task := { t with report := { t.report with fence := acknowledged } }
      some (s, if acknowledged then t.into .claim else t.resolved (.fromDrainResult (.error .shuttingDown)))
    | _, _ => none
  | .claim handles =>
    match t.stage with
    | .claim => some ({ s with pending := claimAll s.pending handles }, t.into (.join handles []))
    | _ => none
  | .join elapsed =>
    match t.stage with
    | .join ((id, name) :: handles) stuck =>
      let s := { s with pending := s.pending.dec id }
      if elapsed then
        some (s, ({ t with report := { t.report with forced := t.report.forced ++ [name] } } : Task).into
          (.join handles (stuck ++ [name])))
      else some (s, t.into (.join handles stuck))
    | _ => none
  | .timeout =>
    match t.stage with
    | .drained stuck => some (s, t.into (.waitJoins stuck))
    | .waitJoins stuck => some (s, t.into (.names stuck))
    | _ => none
  | .phase result =>
    match t.stage with
    | .cleanup phase outcome clean =>
      if allowed phase result then
        let t := if result = .clean then t else { t with report := t.report.fault (.phase phase) }
        let clean := clean && decide (result = .clean)
        match nextPhase s phase with
        | (s, some next) => some (s, t.into (.cleanup next outcome clean))
        | (s, none) => some (s, t.into (.publish (if clean then outcome else .shuttingDown)))
      else none
    | .again phase =>
      if allowed phase result then
        match nextPhase s phase with
        | (s, some next) => some (s, t.into (.again next))
        | (s, none) => some (s, t.into (.publish .shuttingDown))
      else none
    | _ => none
  | .panic =>
    match t.stage with
    | .cleanup .. => some (s, ({ t with report := t.report.fault .owner } : Task).into (.again .controller))
    | .again _ => none
    | .publish _ => none
    | _ => some (s, ({ t with report := t.report.fault .drain } : Task).resolved .shuttingDown)

end Task

/-- What a shutdown is to answer. -/
def verdict (grace : Nat) (trigger : ShutdownTrigger) (r : Report) : ShutdownOutcome :=
  if r.faults.isEmpty then
    match trigger with
    | .signalSetupFailed source => .signalSetupFailed source
    | _ =>
      if r.fence then
        .fromDrainResult (drainResult grace (r.forced ++ (r.pending.map PendingJoins.pendingNames).getD []))
      else .shuttingDown
  else .shuttingDown

end Taskvisor.Shutdown.Owner
