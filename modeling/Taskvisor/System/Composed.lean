import Taskvisor.Controller.Tracking
import Taskvisor.Registry.Growth

namespace Taskvisor.System.Composed

open Lib Runtime.Base Controller Controller.State Registry Registry.Reaper Registry.Listener

/-- An Add of the controller in the registry queue: what `track_admission` and
`track_completion` wait for. -/
structure Receipt where
  id : TaskId
  reply : Reply
  completion : RemovalCompletion
deriving DecidableEq

/-- The controller with the registry it commits to. `outbox` holds the Adds of
the last controller step that are not sent yet, `calls` the registry call of
every identity operation that was polled. -/
structure World where
  controller : Driver.World
  registry : Listener.World
  outbox : List Handoff
  calls : List (IdentityReply × Reply)

def receipt? : RegistryCommand → Option Receipt
  | .add item reply => item.completion.map fun completion => ⟨item.id, reply, completion⟩
  | _ => none

def receipts (r : Listener.World) : List Receipt := r.sent.filterMap receipt?

def replyOf (r : Listener.World) (reply : Reply) : Option Answer :=
  (r.replies.find? fun d => decide (d.reply = reply)).map Decision.answer

/-- `track_admission`: a sender dropped without a reply counts as a refusal. -/
def admitted (r : Listener.World) (reply : Reply) : Option Bool :=
  match replyOf r reply with
  | some (.add (.ok _)) => some true
  | some (.add (.error _)) => some false
  | some _ => none
  | none => if r.mode = .exited then some false else none

/-- `wait_physical` returns. -/
def released (r : Listener.World) (completion : RemovalCompletion) : Bool :=
  decide (completion ∈ r.core.logical ∧ completion ∈ r.core.physical)

/-- What an identity operation returns; a cancellation waits for the logical
latch. -/
def concluded (r : Listener.World) (reply : Reply) : Option Bool :=
  match replyOf r reply with
  | some (.remove claimed) => some claimed
  | some (.cancel none) => some false
  | some (.cancel (some d)) => if d.completion ∈ r.core.logical then some d.claimed else none
  | _ => none

/-- The registry call of an identity operation. -/
def managementCall (id : TaskId) : IdentityOperation → Call
  | .remove => .remove (.id id) true
  | .tryRemove => .remove (.id id) false
  | .cancel | .cancelWithTimeout => .cancel (.id id) true
  | .tryCancel | .tryCancelWithTimeout => .cancel (.id id) false

inductive Action
  | controller (a : Driver.Action)
  | commit (key : Nat)
  | manage (op : TaskId × IdentityOperation × IdentityReply)
  | registry (a : Listener.World.Action)

namespace World

def new (cfg : ControllerConfig) : World := ⟨.new cfg, .new, [], []⟩

/-- What the controller learns comes from the registry: the reply to an Add,
both latches of an owner, the result of an identity operation. The shutdown flag
is never cleared, and a submission brings a new identity. -/
def heard (w : World) : Driver.Action → Bool
  | .admissionResult _ id _ accepted =>
    (receipts w.registry).any fun x => decide (x.id = id ∧ admitted w.registry x.reply = some accepted)
  | .completionResult _ id _ => (receipts w.registry).any fun x => decide (x.id = id) && released w.registry x.completion
  | .identityResult op (.ok claimed) =>
    w.calls.any fun call => decide (call.1 = op.2.2 ∧ concluded w.registry call.2 = some claimed)
  | .command obs _ => !obs.shutdown 1 || obs.shutdown 2
  | .send (.submit sub) => !w.registry.seen.contains sub.id
  | _ => true

/-- The call stands before the send of this Add. -/
def commits (handoff : Handoff) (caller : Caller) : Bool :=
  caller.call.tracked && decide (caller.todo.head? = some .send ∧
    caller.call.items.map (fun item => (item.id, item.name, item.done)) = [(handoff.id, handoff.name, handoff.done)])

/-- The registry moves on its own, but its tracked Adds are sent by the
controller. Other Adds bring identities of their own, and only the wrapper of an
actor sends its completion identity. -/
def unaided (w : World) : Listener.World.Action → Bool
  | .begin call =>
    call.tracked || call.items.all fun item => !((Index.submissions w.controller.log).map Submission.id).contains item.id
  | .call key => (w.registry.callers.lookup key).all fun caller =>
    !(caller.call.tracked && decide (caller.todo.head? = some .send))
  | .stray _ => false
  | _ => true

def step (cfg : ControllerConfig) (limits : RegistryConfig) (w : World) : Action → Option World
  | .controller a =>
    if w.outbox.isEmpty && w.heard a then
      (w.controller.step cfg a).map fun controller =>
        { w with controller, outbox := controller.engine.handed.drop w.controller.engine.handed.length }
    else none
  | .commit key =>
    match w.outbox, w.registry.callers.lookup key with
    | handoff :: outbox, some caller =>
      if commits handoff caller then
        (w.registry.step limits (.call key)).map fun registry => { w with registry, outbox }
      else none
    | _, _ => none
  | .manage op =>
    if w.outbox.isEmpty && w.controller.engine.operations.identityOperations.contains op &&
        !(w.calls.map Prod.fst).contains op.2.2 then
      (w.registry.step limits (.begin (managementCall op.1 op.2.1))).map fun registry =>
        { w with registry, calls := w.calls ++ [(op.2.2, w.registry.nextCaller)] }
    else none
  | .registry a => if w.unaided a then (w.registry.step limits a).map fun registry => { w with registry } else none

end World

def machine (cfg : ControllerConfig) (limits : RegistryConfig) : Machine World Action := ⟨.new cfg, World.step cfg limits⟩

variable {cfg : ControllerConfig} {limits : RegistryConfig} {w w' : World} {a : Action}

/-- Everything one step can do. -/
inductive Stepped (cfg : ControllerConfig) (limits : RegistryConfig) (w : World) : Action → World → Prop
  | controller (a : Driver.Action) (controller : Driver.World) (hidle : w.outbox = []) (hheard : w.heard a = true)
      (hstep : w.controller.step cfg a = some controller) :
      Stepped cfg limits w (.controller a)
        { w with controller, outbox := controller.engine.handed.drop w.controller.engine.handed.length }
  | commit (key : Nat) (handoff : Handoff) (outbox : List Handoff) (caller : Caller) (registry : Listener.World)
      (houtbox : w.outbox = handoff :: outbox) (hcaller : w.registry.callers.lookup key = some caller)
      (hcommits : World.commits handoff caller = true) (hstep : w.registry.step limits (.call key) = some registry) :
      Stepped cfg limits w (.commit key) { w with registry, outbox }
  | manage (op : TaskId × IdentityOperation × IdentityReply) (registry : Listener.World) (hidle : w.outbox = [])
      (hop : op ∈ w.controller.engine.operations.identityOperations) (hnew : op.2.2 ∉ w.calls.map Prod.fst)
      (hstep : w.registry.step limits (.begin (managementCall op.1 op.2.1)) = some registry) :
      Stepped cfg limits w (.manage op) { w with registry, calls := w.calls ++ [(op.2.2, w.registry.nextCaller)] }
  | registry (a : Listener.World.Action) (registry : Listener.World) (hunaided : w.unaided a = true)
      (hstep : w.registry.step limits a = some registry) : Stepped cfg limits w (.registry a) { w with registry }

theorem step_cases (hs : w.step cfg limits a = some w') : Stepped cfg limits w a w' := by
  cases a with
  | controller a =>
      simp only [World.step] at hs
      split at hs
      · next h =>
        obtain ⟨hidle, hheard⟩ := Bool.and_eq_true_iff.mp h
        obtain ⟨controller, hstep, rfl⟩ := Option.map_eq_some_iff.mp hs
        exact .controller a controller (List.isEmpty_iff.mp hidle) hheard hstep
      · cases hs
  | commit key =>
      simp only [World.step] at hs
      split at hs
      · next handoff outbox caller houtbox hcaller =>
        split at hs
        · next hcommits =>
          obtain ⟨registry, hstep, rfl⟩ := Option.map_eq_some_iff.mp hs
          exact .commit key handoff outbox caller registry houtbox hcaller hcommits hstep
        · cases hs
      · cases hs
  | manage op =>
      simp only [World.step] at hs
      split at hs
      · next h =>
        obtain ⟨h, hnew⟩ := Bool.and_eq_true_iff.mp h
        obtain ⟨hidle, hop⟩ := Bool.and_eq_true_iff.mp h
        obtain ⟨registry, hstep, rfl⟩ := Option.map_eq_some_iff.mp hs
        exact .manage op registry (List.isEmpty_iff.mp hidle) (by simpa using hop) (by simpa using hnew) hstep
      · cases hs
  | registry a =>
      simp only [World.step] at hs
      split at hs
      · next hunaided =>
        obtain ⟨registry, hstep, rfl⟩ := Option.map_eq_some_iff.mp hs
        exact .registry a registry hunaided hstep
      · cases hs

theorem controller_of_reachable (h : (machine cfg limits).Reachable w) : (Driver.machine cfg).Reachable w.controller := by
  refine h.invariant (P := fun w => (Driver.machine cfg).Reachable w.controller) .init fun w a w' _ hw hs => ?_
  cases step_cases hs with
  | controller a controller _ _ hstep => exact .next a hw hstep
  | _ => exact hw

theorem registry_of_reachable (h : (machine cfg limits).Reachable w) : (Listener.machine limits).Reachable w.registry := by
  refine h.invariant (P := fun w => (Listener.machine limits).Reachable w.registry) .init fun w a w' _ hw hs => ?_
  cases step_cases hs with
  | controller => exact hw
  | commit key _ _ _ registry _ _ _ hstep => exact .next (.call key) hw hstep
  | manage op registry _ _ _ hstep => exact .next (.begin _) hw hstep
  | registry a registry _ hstep => exact .next a hw hstep

end Taskvisor.System.Composed
