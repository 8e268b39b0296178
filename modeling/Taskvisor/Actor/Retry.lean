import Taskvisor.Lib.Machine
import Taskvisor.Actor.Attempt
import Taskvisor.Policies.Backoff

namespace Taskvisor.Actor.Retry

open Lib Policies.Jitter Policies.Backoff Attempt

variable {F : Type} {ops : FloatOps F}

inductive RestartPolicy
  | never
  | onFailure
  | always (interval : Option Duration)
deriving DecidableEq

def RestartPolicy.retries : RestartPolicy → Bool
  | .never => false
  | .onFailure => true
  | .always _ => true

structure NonZeroU32 where
  get : Nat
  pos : 0 < get
  le : get ≤ u32Max

structure TaskActorParams (ops : FloatOps F) where
  restart : RestartPolicy
  backoff : BackoffPolicy ops
  timeout : Option Duration
  maxRetries : Option NonZeroU32

/-- `semaphore` says whether attempts are limited across the supervisor. -/
structure TaskActor (ops : FloatOps F) where
  params : TaskActorParams ops
  semaphore : Bool

inductive ActorExitReason
  | completed
  | exhausted (reason : String) (exitCode : Option Int) (source : Option Source)
  | canceled
  | panicked (cleanupPoisoned : Bool)
  | fatal (reason : String) (exitCode : Option Int) (source : Option Source)
deriving DecidableEq

inductive AttemptDecision
  | finished (result : Except AttemptFailure Unit)
  | retry (reason : String)
  | cleanupPanicked

/-- A decision, whether the error was destroyed for it, and whether that
poisoned the cleanup. -/
structure Classified where
  decision : AttemptDecision
  destroyed : Bool
  poisoned : Bool

def retriesExhausted (maxRetries : Option NonZeroU32) (backoffAttempt : Nat) : Bool :=
  maxRetries.any fun max => decide (max.get ≤ backoffAttempt)

/-- `errorDrop` is the panic of the error's destructor, in case it runs. -/
def classifyAttempt (result : Except AttemptFailure Unit) (restart : RestartPolicy) (maxRetries : Option NonZeroU32)
    (backoffAttempt : Nat) (errorDrop : Option Payload) : Classified :=
  match result with
  | .ok () => ⟨.finished (.ok ()), false, false⟩
  | .error failure =>
      if failure.cleanupPanicked then ⟨.cleanupPanicked, true, disposeValue errorDrop⟩
      else if !(restart.retries && failure.error.isRetryable) || retriesExhausted maxRetries backoffAttempt then
        ⟨.finished (.error failure), false, false⟩
      else
        match errorDrop with
        | none => ⟨.retry failure.reason, true, false⟩
        | some payload => ⟨.cleanupPanicked, true, disposePanicPayload payload⟩

def immediateRestartFloor : Duration := .fromMillis 1 one_le_wordMax

def flooredInterval (interval elapsed : Duration) : Duration :=
  max interval (immediateRestartFloor.saturatingSub elapsed)

def saturatingSucc (n : Nat) : Nat := min (n + 1) u32Max

abbrev Draw := {draw : Nat → Nat → Nat // InRange draw}

/-- An effect, with the activity flag and the permit at its time. -/
structure Entry where
  effect : Effect
  activity : Bool
  permit : Bool

inductive Outcome
  | success
  | retryable
  | fatal
  | canceled
  | cleanup
deriving DecidableEq

/-- One attempt as an observer sees it: how it ended, and whether the
destructor of its error panics. -/
structure Past where
  outcome : Outcome
  errorPanics : Bool
deriving DecidableEq

def outcomeOf : Except AttemptFailure Unit → Outcome
  | .ok () => .success
  | .error failure =>
      if failure.cleanupPanicked then .cleanup
      else if failure.error.isFatal then .fatal
      else if failure.error = .canceled then .canceled
      else .retryable

def Past.of (result : Except AttemptFailure Unit) (errorDrop : Option Payload) : Past :=
  ⟨outcomeOf result, errorDrop.isSome⟩

inductive Pc
  | head
  | acquire
  | recheck
  | attempting
  | returned (result : Except AttemptFailure Unit)
  | sleepCheck (delay : Duration)
  | sleeping (delay : Duration)
  | done (reason : ActorExitReason)

/-- The locals of `run`, with a log of its effects and a history of its
attempts. `token` is the runtime token. -/
structure World where
  pc : Pc
  token : Bool
  attempt : Nat
  backoffAttempt : Nat
  activity : Bool
  permit : Bool
  cleanupPoisoned : Bool
  log : List Entry
  history : List Past

inductive Action
  | cancel
  | head
  | acquired
  | closed
  | canceled
  | recheck
  | attempt (behaviour : Behaviour)
  | conclude (errorDrop : Option Payload) (draw : Draw) (elapsed : Duration)
  | checkSleep
  | wake (byToken : Bool)

namespace World

def new : World := ⟨.head, false, 0, 0, false, false, false, [], []⟩

def note (w : World) (effects : List Effect) : World :=
  { w with log := w.log ++ effects.map fun effect => ⟨effect, w.activity, w.permit⟩ }

def effects (w : World) : List Effect := w.log.map Entry.effect

@[simp] theorem effects_note (w : World) (es : List Effect) : (w.note es).effects = w.effects ++ es := by
  rw [effects, note, List.map_append, List.map_map]
  exact congrArg _ (List.map_id es)

/-- The token was seen cancelled. -/
def quit (w : World) : World := { w.note [.observed] with permit := false, pc := .done .canceled }

def exhausted (a : TaskActor ops) (w : World) (failure : AttemptFailure) : ActorExitReason :=
  let reason :=
    match a.params.maxRetries.filter fun _ => retriesExhausted a.params.maxRetries w.backoffAttempt with
    | some limit =>
        "retry limit reached after " ++ toString w.backoffAttempt ++ " of " ++ toString limit.get ++ " retries: " ++
          failure.reason
    | none => failure.reason
  .exhausted reason failure.exitCode failure.error.intoSource

/-- The branch taken on a decision, the guards released. -/
def actOn (w : World) (a : TaskActor ops) (draw : Draw) (elapsed : Duration) : AttemptDecision → World
  | .cleanupPanicked => { w with pc := .done (.panicked w.cleanupPoisoned) }
  | .retry reason =>
      let delay := a.params.backoff.delay draw w.backoffAttempt
      { w.note [.retry w.backoffAttempt, .publish (.backoffScheduled w.attempt .failure delay (some reason))] with
        backoffAttempt := saturatingSucc w.backoffAttempt
        pc := .sleepCheck delay }
  | .finished (.ok ()) =>
      let w := { w with backoffAttempt := 0 }
      match a.params.restart with
      | .always (some interval) =>
          let delay := flooredInterval interval elapsed
          { w.note [.publish (.backoffScheduled w.attempt .success delay none)] with pc := .sleepCheck delay }
      | .always none =>
          if elapsed < immediateRestartFloor then
            { w with pc := .sleepCheck (immediateRestartFloor.saturatingSub elapsed) }
          else { w with pc := .head }
      | _ => if w.token then w.quit else { w with pc := .done .completed }
  | .finished (.error failure) =>
      if failure.error.isFatal then
        { w with pc := .done (.fatal failure.reason failure.exitCode failure.error.intoSource) }
      else if failure.error = .canceled then { w with pc := .done .canceled }
      else { w with pc := .done (exhausted a w failure) }

/-- What classifying the result does. -/
def classifying (destroyed : Bool) : List Effect := if destroyed then [.errorDestroyed, .classified] else [.classified]

/-- The guards are released after the classification. -/
def release (w : World) (past : Past) (c : Classified) : World :=
  let w := { w with cleanupPoisoned := w.cleanupPoisoned || c.poisoned, history := w.history ++ [past] }
  { w.note (classifying c.destroyed) with activity := false, permit := false }

/-- The actor after `run_once` returned. -/
def conclude (a : TaskActor ops) (w : World) (result : Except AttemptFailure Unit) (errorDrop : Option Payload)
    (draw : Draw) (elapsed : Duration) : World :=
  let c := classifyAttempt result a.params.restart a.params.maxRetries w.backoffAttempt errorDrop
  (w.release (.of result errorDrop) c).actOn a draw elapsed c.decision

def step (a : TaskActor ops) (w : World) : Action → Option World
  | .cancel => some { w with token := true }
  | .head =>
      match w.pc with
      | .head =>
          if w.token then some w.quit
          else some { w with pc := if a.semaphore then .acquire else .recheck }
      | _ => none
  | .acquired =>
      match w.pc with
      | .acquire => some { w with permit := true, pc := .recheck }
      | _ => none
  | .closed =>
      match w.pc with
      | .acquire => some { w with pc := .done .canceled }
      | _ => none
  | .canceled =>
      match w.pc with
      | .acquire => if w.token then some w.quit else none
      | _ => none
  | .recheck =>
      match w.pc with
      | .recheck =>
          if w.token then some w.quit
          else
            let attempt := saturatingSucc w.attempt
            some { { w with attempt, activity := true }.note [.publish (.attemptStarting attempt)] with
                   pc := .attempting }
      | _ => none
  | .attempt behaviour =>
      match w.pc with
      | .attempting => (runOnce a.params.timeout w.attempt behaviour).map fun r =>
          { w.note r.effects with cleanupPoisoned := w.cleanupPoisoned || r.poisoned, pc := .returned r.result }
      | _ => none
  | .conclude errorDrop draw elapsed =>
      match w.pc with
      | .returned result => some (w.conclude a result errorDrop draw elapsed)
      | _ => none
  | .checkSleep =>
      match w.pc with
      | .sleepCheck delay => if w.token then some w.quit else some { w.note [.waits] with pc := .sleeping delay }
      | _ => none
  | .wake byToken =>
      match w.pc with
      | .sleeping delay =>
          if delay.isZero || byToken then
            if w.token then some w.quit else if delay.isZero then some { w with pc := .head } else none
          else some { w with pc := .head }
      | _ => none

end World

/-- The attempt is between its start and the release of its guards. -/
def Pc.holds : Pc → Bool
  | .attempting => true
  | .returned _ => true
  | _ => false

def Pc.ended : Pc → Bool
  | .done _ => true
  | _ => false

variable {a : TaskActor ops} {w w' : World}

/-- What one step does. -/
inductive Turn (a : TaskActor ops) (w : World) : World → Prop
  | cancel : Turn a w { w with token := true }
  | quit (ht : w.token = true) (hh : w.pc.holds = false) (he : w.pc.ended = false) : Turn a w w.quit
  | queue (hpc : w.pc = .head) (hs : a.semaphore = true) : Turn a w { w with pc := .acquire }
  | pass (hpc : w.pc = .head) (hs : a.semaphore = false) : Turn a w { w with pc := .recheck }
  | acquired (hpc : w.pc = .acquire) : Turn a w { w with permit := true, pc := .recheck }
  | closed (hpc : w.pc = .acquire) : Turn a w { w with pc := .done .canceled }
  | start (hpc : w.pc = .recheck) (ht : w.token = false) :
      Turn a w { { w with attempt := saturatingSucc w.attempt, activity := true }.note
        [.publish (.attemptStarting (saturatingSucc w.attempt))] with pc := .attempting }
  | attempt (hpc : w.pc = .attempting) {behaviour : Behaviour} {r : Returned}
      (hr : runOnce a.params.timeout w.attempt behaviour = some r) :
      Turn a w { w.note r.effects with cleanupPoisoned := w.cleanupPoisoned || r.poisoned, pc := .returned r.result }
  | conclude {result : Except AttemptFailure Unit} (hpc : w.pc = .returned result) (errorDrop : Option Payload)
      (draw : Draw) (elapsed : Duration) : Turn a w (w.conclude a result errorDrop draw elapsed)
  | sleep {delay : Duration} (hpc : w.pc = .sleepCheck delay) :
      Turn a w { w.note [.waits] with pc := .sleeping delay }
  | wake {delay : Duration} (hpc : w.pc = .sleeping delay) : Turn a w { w with pc := .head }

theorem turn_of_step {x : Action} (hs : w.step a x = some w') : Turn a w w' := by
  cases x with
  | cancel => cases hs; exact .cancel
  | head =>
      simp only [World.step] at hs
      split at hs
      · next hpc =>
        split at hs
        · next ht => cases hs; exact .quit ht (by simp [hpc, Pc.holds]) (by simp [hpc, Pc.ended])
        · cases hs
          by_cases hsem : a.semaphore = true
          · simpa [hsem] using Turn.queue hpc hsem
          · simpa [hsem] using Turn.pass hpc (by simpa using hsem)
      · cases hs
  | acquired =>
      simp only [World.step] at hs
      split at hs
      · next hpc => cases hs; exact .acquired hpc
      · cases hs
  | closed =>
      simp only [World.step] at hs
      split at hs
      · next hpc => cases hs; exact .closed hpc
      · cases hs
  | canceled =>
      simp only [World.step] at hs
      split at hs
      · next hpc =>
        split at hs
        · next ht => cases hs; exact .quit ht (by simp [hpc, Pc.holds]) (by simp [hpc, Pc.ended])
        · cases hs
      · cases hs
  | recheck =>
      simp only [World.step] at hs
      split at hs
      · next hpc =>
        split at hs
        · next ht => cases hs; exact .quit ht (by simp [hpc, Pc.holds]) (by simp [hpc, Pc.ended])
        · next ht => cases hs; exact .start hpc (by simpa using ht)
      · cases hs
  | attempt behaviour =>
      simp only [World.step] at hs
      split at hs
      · next hpc =>
        obtain ⟨r, hr, rfl⟩ := Option.map_eq_some_iff.mp hs
        exact .attempt hpc hr
      · cases hs
  | conclude errorDrop draw elapsed =>
      simp only [World.step] at hs
      split at hs
      · next result hpc => cases hs; exact .conclude hpc errorDrop draw elapsed
      · cases hs
  | checkSleep =>
      simp only [World.step] at hs
      split at hs
      · next delay hpc =>
        split at hs
        · next ht => cases hs; exact .quit ht (by simp [hpc, Pc.holds]) (by simp [hpc, Pc.ended])
        · cases hs; exact .sleep hpc
      · cases hs
  | wake byToken =>
      simp only [World.step] at hs
      split at hs
      · next delay hpc =>
        split at hs
        · split at hs
          · next ht => cases hs; exact .quit ht (by simp [hpc, Pc.holds]) (by simp [hpc, Pc.ended])
          · split at hs
            · cases hs; exact .wake hpc
            · cases hs
        · cases hs; exact .wake hpc
      · cases hs

def RestartPolicy.repeats : RestartPolicy → Bool
  | .always _ => true
  | _ => false

/-- The world `u` in which the actor acts on its decision: the guards are
released. -/
structure Released (w : World) (past : Past) (destroyed : Bool) (u : World) : Prop where
  history : u.history = w.history ++ [past]
  token : u.token = w.token
  attempt : u.attempt = w.attempt
  backoffAttempt : u.backoffAttempt = w.backoffAttempt
  activity : u.activity = false
  permit : u.permit = false
  log : u.log = w.log ++ (World.classifying destroyed).map fun effect => ⟨effect, w.activity, w.permit⟩

/-- How the actor goes on after an attempt. -/
inductive Acted (a : TaskActor ops) (u : World) (past : Past) (destroyed : Bool) : World → Prop
  | cleanup (h : past.outcome = .cleanup ∨ past.outcome = .retryable ∧ a.params.restart.retries = true ∧
        retriesExhausted a.params.maxRetries u.backoffAttempt = false ∧ past.errorPanics = true) (poisoned : Bool) :
      Acted a u past destroyed { u with pc := .done (.panicked poisoned) }
  | retry (ho : past.outcome = .retryable) (hr : a.params.restart.retries = true)
      (hx : retriesExhausted a.params.maxRetries u.backoffAttempt = false) (he : past.errorPanics = false)
      (hd : destroyed = true) (delay : Duration) (reason : String) :
      Acted a u past destroyed { u.note [.retry u.backoffAttempt,
        .publish (.backoffScheduled u.attempt .failure delay (some reason))] with
          backoffAttempt := saturatingSucc u.backoffAttempt
          pc := .sleepCheck delay }
  | interval (ho : past.outcome = .success) (hr : a.params.restart.repeats = true) (delay : Duration) :
      Acted a u past destroyed { u.note [.publish (.backoffScheduled u.attempt .success delay none)] with
        backoffAttempt := 0
        pc := .sleepCheck delay }
  | spaced (ho : past.outcome = .success) (hr : a.params.restart.repeats = true) (delay : Duration) :
      Acted a u past destroyed { u with backoffAttempt := 0, pc := .sleepCheck delay }
  | again (ho : past.outcome = .success) (hr : a.params.restart.repeats = true) :
      Acted a u past destroyed { u with backoffAttempt := 0, pc := .head }
  | observed (ho : past.outcome = .success) (hr : a.params.restart.repeats = false) (ht : u.token = true) :
      Acted a u past destroyed { u with backoffAttempt := 0 }.quit
  | completed (ho : past.outcome = .success) (hr : a.params.restart.repeats = false) :
      Acted a u past destroyed { u with backoffAttempt := 0, pc := .done .completed }
  | fatal (ho : past.outcome = .fatal) (reason : String) (exitCode : Option Int) (source : Option Source) :
      Acted a u past destroyed { u with pc := .done (.fatal reason exitCode source) }
  | canceled (ho : past.outcome = .canceled) : Acted a u past destroyed { u with pc := .done .canceled }
  | exhausted (ho : past.outcome = .retryable) (hx : a.params.restart.retries = false ∨
        retriesExhausted a.params.maxRetries u.backoffAttempt = true)
      (reason : String) (exitCode : Option Int) (source : Option Source) :
      Acted a u past destroyed { u with pc := .done (.exhausted reason exitCode source) }

theorem acted_success {u : World} {past : Past} {destroyed : Bool} (ho : past.outcome = .success) (draw : Draw)
    (elapsed : Duration) :
    Acted a u past destroyed (u.actOn a draw elapsed (.finished (.ok ()))) := by
  cases hr : a.params.restart with
  | always interval =>
      have hrep : a.params.restart.repeats = true := by rw [hr]; rfl
      cases interval with
      | some interval =>
          simp only [World.actOn, hr]
          exact .interval ho hrep _
      | none =>
          simp only [World.actOn, hr]
          split
          · exact .spaced ho hrep _
          · exact .again ho hrep
  | onFailure =>
      have hrep : a.params.restart.repeats = false := by rw [hr]; rfl
      simp only [World.actOn, hr]
      split
      · next ht => exact .observed ho hrep ht
      · exact .completed ho hrep
  | never =>
      have hrep : a.params.restart.repeats = false := by rw [hr]; rfl
      simp only [World.actOn, hr]
      split
      · next ht => exact .observed ho hrep ht
      · exact .completed ho hrep

theorem outcomeOf_error {failure : AttemptFailure} (hc : failure.cleanupPanicked = false) :
    outcomeOf (.error failure) = .retryable ∧ failure.error.isRetryable = true ∧ failure.error.isFatal = false ∧
        failure.error ≠ .canceled ∨
      outcomeOf (.error failure) = .fatal ∧ failure.error.isRetryable = false ∧ failure.error.isFatal = true ∨
      outcomeOf (.error failure) = .canceled ∧ failure.error.isRetryable = false ∧ failure.error.isFatal = false ∧
        failure.error = .canceled := by
  cases he : failure.error <;> simp [outcomeOf, hc, he, TaskError.isRetryable, TaskError.isFatal]

theorem acted_failure {u : World} {failure : AttemptFailure} {past : Past} {destroyed : Bool}
    (hp : past.outcome = outcomeOf (.error failure)) (hc : failure.cleanupPanicked = false)
    (hx : (!(a.params.restart.retries && failure.error.isRetryable) ||
      retriesExhausted a.params.maxRetries u.backoffAttempt) = true) (draw : Draw) (elapsed : Duration) :
    Acted a u past destroyed (u.actOn a draw elapsed (.finished (.error failure))) := by
  rcases outcomeOf_error hc with ⟨ho, hr, hf, hn⟩ | ⟨ho, -, hf⟩ | ⟨ho, -, hf, hn⟩
  · simp only [World.actOn, hf, hn, Bool.false_eq_true, if_false]
    refine .exhausted (hp.trans ho) ?_ _ _ _
    simpa [hr] using hx
  · simp only [World.actOn, hf, if_true]
    exact .fatal (hp.trans ho) _ _ _
  · rw [World.actOn, if_neg (by simp [hf]), if_pos hn]
    exact .canceled (hp.trans ho)

theorem released (w : World) (past : Past) (c : Classified) : Released w past c.destroyed (w.release past c) :=
  ⟨rfl, rfl, rfl, rfl, rfl, rfl, rfl⟩

theorem acted_classified (a : TaskActor ops) (u : World) (result : Except AttemptFailure Unit)
    (errorDrop : Option Payload) (draw : Draw) (elapsed : Duration) {c : Classified}
    (hc : classifyAttempt result a.params.restart a.params.maxRetries u.backoffAttempt errorDrop = c) :
    Acted a u (.of result errorDrop) c.destroyed (u.actOn a draw elapsed c.decision) := by
  subst hc
  cases result with
  | ok x => exact acted_success rfl draw elapsed
  | error failure =>
      have hp : (Past.of (.error failure) errorDrop).outcome = outcomeOf (.error failure) := rfl
      simp only [classifyAttempt]
      split
      · next hc => exact .cleanup (.inl (by simp [hp, outcomeOf, hc])) _
      · next hc =>
        have hc : failure.cleanupPanicked = false := by simpa using hc
        split
        · next hx => exact acted_failure hp hc hx draw elapsed
        · next hx =>
          simp only [Bool.or_eq_true, Bool.not_eq_true', Bool.and_eq_false_iff, not_or, Bool.not_eq_false,
            Bool.not_eq_true] at hx
          have ho : outcomeOf (.error failure) = .retryable := by
            rcases outcomeOf_error hc with ⟨ho, -⟩ | ⟨-, hr, -⟩ | ⟨-, hr, -⟩
            · exact ho
            · simp [hx.1.2] at hr
            · simp [hx.1.2] at hr
          cases errorDrop with
          | none =>
              have he : (Past.of (.error failure) none).errorPanics = false := rfl
              exact .retry (hp.trans ho) hx.1.1 hx.2 he rfl _ _
          | some payload =>
              have he : (Past.of (.error failure) (some payload)).errorPanics = true := rfl
              exact .cleanup (.inr ⟨hp.trans ho, hx.1.1, hx.2, he⟩) _

theorem conclude_acted (a : TaskActor ops) (w : World) (result : Except AttemptFailure Unit)
    (errorDrop : Option Payload) (draw : Draw) (elapsed : Duration) :
    ∃ destroyed u, Released w (.of result errorDrop) destroyed u ∧
      Acted a u (.of result errorDrop) destroyed (w.conclude a result errorDrop draw elapsed) :=
  ⟨_, _, released w _ _, acted_classified a _ result errorDrop draw elapsed rfl⟩

def machine (a : TaskActor ops) : Machine World Action := ⟨World.new, World.step a⟩

end Taskvisor.Actor.Retry
