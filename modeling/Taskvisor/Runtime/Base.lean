import Mathlib.Logic.Basic

namespace Taskvisor.Runtime.Base

/-- Identities are never reused; freshness is a guard of the machines. -/
abbrev TaskId := Nat

/-- The sending half of one watched outcome. -/
abbrev OutcomeTx := Nat

abbrev Instant := Nat

/-- The runtime errors that cross the controller and registry boundaries. -/
inductive RuntimeError
  | taskAlreadyExists (name : String)
  | resourceLimitReached (resource : String) (limit : Nat)
  | commandQueueFull
  | taskTerminationTimeout (id : TaskId)
  | shuttingDown
deriving DecidableEq, Repr

/-- The `Display` text; a timeout's duration is left out. -/
def RuntimeError.display : RuntimeError → String
  | .taskAlreadyExists name => "task name '" ++ name ++ "' already exists"
  | .resourceLimitReached resource limit => "resource limit reached for " ++ resource ++ ": " ++ toString limit
  | .commandQueueFull => "management command queue is full"
  | .taskTerminationTimeout id => "timeout waiting for task " ++ toString id ++ " termination"
  | .shuttingDown => "supervisor is shutting down"

inductive RejectionKind
  | alreadyExists
  | batchRejected
  | slotBusy
  | queueFull
  | supersededByReplace
  | removedFromQueue
  | controllerShuttingDown
  | admissionFailed
  | resourceLimit
deriving DecidableEq, Repr

/-- A watched outcome; the payloads of the task's own results are left out. -/
inductive TaskOutcome
  | completed
  | failed
  | fatal
  | canceled
  | forceAborted
  | panicked
  | rejected (kind : RejectionKind) (reason : String)
deriving DecidableEq, Repr

inductive EventKind
  | controllerRejected
  | controllerSubmitted
  | controllerSlotTransition
  | taskRemoveRequested
  | runtimeFailure
deriving DecidableEq, Repr

/-- One published event with the metadata the engine attaches. -/
structure Event where
  kind : EventKind
  task : Option String := none
  id : Option TaskId := none
  rejectionKind : Option RejectionKind := none
  reason : Option String := none
deriving DecidableEq, Repr

namespace Reasons

def alreadyExists : String := "a registered task already uses this name"
def removedFromQueue : String := "removed from controller queue before start"
def supersededByReplace : String := "superseded by a newer replacement"
def controllerShuttingDown : String := "controller is shutting down"
def controllerAdmissionInterrupted : String := "controller admission was interrupted before ownership transfer"
def dropIfRunning : String := "slot is busy; DropIfRunning rejected the submission"
def queueFull : String := "slot queue is full"
def registeredTaskLimit : String := "registered task limit reached"
def controllerSlotLimit : String := "controller slot limit reached"
def controllerPendingLimit : String := "controller pending limit reached"

end Reasons

end Taskvisor.Runtime.Base
