import Taskvisor.Lib.Duration
import Taskvisor.Lib.Panic

namespace Taskvisor.Actor.Attempt

open Lib

/-- A source error of the user, known by its identity. -/
abbrev Source := Nat

inductive TaskError
  | timeout (timeout : Duration)
  | fatal (reason : String) (exitCode : Option Int) (source : Option Source)
  | fail (reason : String) (exitCode : Option Int) (source : Option Source)
  | canceled
deriving DecidableEq

namespace TaskError

def display : TaskError → String
  | .timeout dur => "timed out after " ++ dur.debug
  | .fatal reason _ _ => "fatal error (no retry): " ++ reason
  | .fail reason _ _ => "execution failed: " ++ reason
  | .canceled => "context canceled"

def isRetryable : TaskError → Bool
  | .timeout _ => true
  | .fail _ _ _ => true
  | _ => false

def isFatal : TaskError → Bool
  | .fatal _ _ _ => true
  | _ => false

def exitCode : TaskError → Option Int
  | .fatal _ exitCode _ => exitCode
  | .fail _ exitCode _ => exitCode
  | _ => none

def intoSource : TaskError → Option Source
  | .fail _ _ source => source
  | .fatal _ _ source => source
  | _ => none

end TaskError

/-- A caught panic, and whether the destructor of its payload panics in turn. -/
structure Payload where
  content : PanicPayload
  nested : Bool
deriving DecidableEq

def panicToError (payload : Payload) : TaskError :=
  .fail ("task panicked: " ++ payload.content.text.getD "non-string panic payload") none none

/-- A destructor that panics is retained and poisons the cleanup. -/
def disposePanicPayload (payload : Payload) : Bool := payload.nested

structure CaughtFailure where
  error : TaskError
  cleanupPanicked : Bool
deriving DecidableEq

structure AttemptFailure where
  error : TaskError
  reason : String
  exitCode : Option Int
  cleanupPanicked : Bool
deriving DecidableEq

def AttemptFailure.new (error : TaskError) : AttemptFailure := ⟨error, error.display, error.exitCode, false⟩

def AttemptFailure.caught (failure : CaughtFailure) : AttemptFailure :=
  { AttemptFailure.new failure.error with cleanupPanicked := failure.cleanupPanicked }

inductive BackoffSource
  | failure
  | success
deriving DecidableEq

/-- The events of one actor, with the fields that differ between them. -/
inductive Published
  | attemptStarting (attempt : Nat)
  | attemptSucceeded (attempt : Nat)
  | attemptCanceled (attempt : Nat)
  | attemptFailed (attempt : Nat) (reason : String) (exitCode : Option Int)
  | attemptTimedOut (attempt : Nat) (timeout : Duration)
  | backoffScheduled (attempt : Nat) (source : BackoffSource) (delay : Duration) (reason : Option String)
deriving DecidableEq

inductive Effect
  | publish (event : Published)
  | spawned
  | destroyed
  | errorDestroyed
  | classified
  | retry (index : Nat)
  | observed
  | waits
deriving DecidableEq

/-- How polling the task's future ends: `drop` is the panic of its destructor,
`value` that of the destructor of the returned result. -/
inductive Polled
  | ready (result : Except TaskError Unit) (drop value : Option Payload)
  | panicked (payload : Payload) (drop : Option Payload)

/-- What the task and the timer do in one attempt. -/
inductive Behaviour
  | spawnPanics (payload : Payload)
  | finishes (polled : Polled)
  | expires (drop : Option Payload)

/-- The result and whether the cleanup got poisoned. -/
def dropFuture : Option Payload → Option CaughtFailure × Bool
  | none => (none, false)
  | some payload => (some ⟨panicToError payload, true⟩, disposePanicPayload payload)

def disposeValue (value : Option Payload) : Bool := value.any disposePanicPayload

/-- `CatchPanic::poll` from the poll that is not pending. -/
def catchPanic : Polled → Except CaughtFailure Unit × Bool
  | .ready result drop value =>
      match dropFuture drop with
      | (some failure, poisoned) => (.error failure, poisoned || disposeValue value)
      | (none, poisoned) => (result.mapError (⟨·, false⟩), poisoned)
  | .panicked payload drop =>
      let payloadPoisoned := disposePanicPayload payload
      let (cleanup, poisoned) := dropFuture drop
      (.error ⟨panicToError payload, payloadPoisoned || cleanup.isSome⟩, payloadPoisoned || poisoned)

/-- One attempt as it is handed back to the actor. -/
structure Returned where
  effects : List Effect
  result : Except AttemptFailure Unit
  poisoned : Bool

def publishFailed (attempt : Nat) (failure : AttemptFailure) : Effect :=
  .publish (.attemptFailed attempt failure.reason failure.exitCode)

/-- `run_once`. The timer runs only when a positive timeout is set. -/
def runOnce (timeout : Option Duration) (attempt : Nat) : Behaviour → Option Returned
  | .spawnPanics payload =>
      let failure := { AttemptFailure.new (panicToError payload) with cleanupPanicked := disposePanicPayload payload }
      some ⟨[publishFailed attempt failure], .error failure, disposePanicPayload payload⟩
  | .expires drop =>
      match timeout.filter fun dur => decide (0 < dur) with
      | none => none
      | some dur =>
          match dropFuture drop with
          | (some cleanupFailure, poisoned) =>
              let failure := AttemptFailure.caught cleanupFailure
              some ⟨[.spawned, .destroyed, publishFailed attempt failure], .error failure, poisoned⟩
          | (none, poisoned) =>
              some ⟨[.spawned, .destroyed, .publish (.attemptTimedOut attempt dur)],
                .error (AttemptFailure.new (.timeout dur)), poisoned⟩
  | .finishes polled =>
      match catchPanic polled with
      | (.ok (), poisoned) =>
          some ⟨[.spawned, .destroyed, .publish (.attemptSucceeded attempt)], .ok (), poisoned⟩
      | (.error ⟨.canceled, cleanupPanicked⟩, poisoned) =>
          let failure := { AttemptFailure.new .canceled with cleanupPanicked }
          some ⟨[.spawned, .destroyed, .publish (.attemptCanceled attempt)], .error failure, poisoned⟩
      | (.error caught, poisoned) =>
          let failure := AttemptFailure.caught caught
          some ⟨[.spawned, .destroyed, publishFailed attempt failure], .error failure, poisoned⟩

inductive Terminal (attempt : Nat) : Published → Prop
  | succeeded : Terminal attempt (.attemptSucceeded attempt)
  | canceled : Terminal attempt (.attemptCanceled attempt)
  | failed (reason : String) (exitCode : Option Int) : Terminal attempt (.attemptFailed attempt reason exitCode)
  | timedOut (timeout : Duration) : Terminal attempt (.attemptTimedOut attempt timeout)

variable {timeout : Option Duration} {attempt : Nat} {behaviour : Behaviour} {r : Returned}

/-- What is published at the end of an attempt. -/
structure Ends (attempt : Nat) (behaviour : Behaviour) (result : Except AttemptFailure Unit) (event : Published) :
    Prop where
  terminal : Terminal attempt event
  succeeded : event = .attemptSucceeded attempt ↔ result = .ok ()
  canceled : event = .attemptCanceled attempt ↔ ∃ failure, result = .error failure ∧ failure.error = .canceled
  timedOut : (∃ timeout, event = .attemptTimedOut attempt timeout) ↔ behaviour = .expires none
  failed : (∃ reason exitCode, event = .attemptFailed attempt reason exitCode) ↔
    ¬ (result = .ok () ∨ (∃ failure, result = .error failure ∧ failure.error = .canceled) ∨ behaviour = .expires none)

/-- The future, if there is one, is destroyed once and before the terminal
event. -/
def future : Behaviour → List Effect
  | .spawnPanics _ => []
  | _ => [.spawned, .destroyed]

theorem Ends.of_failed {failure : AttemptFailure} (hc : failure.error ≠ .canceled) (hb : behaviour ≠ .expires none)
    (reason : String) (exitCode : Option Int) :
    Ends attempt behaviour (.error failure) (.attemptFailed attempt reason exitCode) where
  terminal := .failed reason exitCode
  succeeded := by simp
  canceled := by simp [hc]
  timedOut := by simp [hb]
  failed := by simp [hc, hb]

theorem runOnce_ends (h : runOnce timeout attempt behaviour = some r) :
    ∃ event, r.effects = future behaviour ++ [.publish event] ∧ Ends attempt behaviour r.result event := by
  cases behaviour with
  | spawnPanics payload =>
      cases h
      exact ⟨_, rfl, .of_failed (by simp [AttemptFailure.new, panicToError]) (by simp) _ _⟩
  | expires drop =>
      simp only [runOnce] at h
      split at h
      · cases h
      · next dur hdur =>
        cases drop with
        | some payload =>
            cases h
            exact ⟨_, rfl, .of_failed (by simp [AttemptFailure.caught, AttemptFailure.new, panicToError]) (by simp) _ _⟩
        | none =>
            cases h
            refine ⟨_, rfl, .timedOut dur, by simp, ?_, by simp, by simp⟩
            simp [AttemptFailure.new]
  | finishes polled =>
      simp only [runOnce] at h
      split at h
      · cases h
        exact ⟨_, rfl, .succeeded, by simp, by simp, by simp, by simp⟩
      · cases h
        refine ⟨_, rfl, .canceled, by simp, ?_, by simp, ?_⟩ <;> simp [AttemptFailure.new]
      · next caught poisoned hne heq =>
        cases h
        refine ⟨_, rfl, .of_failed (fun hc => ?_) (by simp) _ _⟩
        obtain ⟨error, cleanupPanicked⟩ := caught
        obtain rfl : error = .canceled := hc
        exact hne cleanupPanicked rfl

end Taskvisor.Actor.Attempt
