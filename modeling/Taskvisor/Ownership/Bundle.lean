import Taskvisor.Lib.Panic
import Taskvisor.Ownership.Capacity
import Mathlib.Data.List.Induction
import Mathlib.Data.List.TakeWhile

namespace Taskvisor.Ownership.Bundle

open Lib Capacity

/-- A user-owned value or callback, known by its identity. -/
abbrev Value := Nat

/-- A call of the broker by which a permit disposes of units. -/
inductive Call
  | release (units : Nat)
  | retire (units : Nat)
  | close
deriving DecidableEq

def Call.perform (b : CapacityBroker) : Call → CapacityBroker
  | .release units => b.release units
  | .retire units => b.retire units
  | .close => b.close

structure OwnershipPermit where
  units : Nat
deriving DecidableEq

namespace OwnershipPermit

def drop (permit : OwnershipPermit) : List Call := [.release permit.units]

def splitOne (permit : OwnershipPermit) : Option (OwnershipPermit × OwnershipPermit) :=
  if permit.units = 0 then none else some (⟨1⟩, ⟨permit.units - 1⟩)

def retire (permit : OwnershipPermit) : List Call := .retire permit.units :: drop ⟨0⟩

def closeWithoutRelease (_ : OwnershipPermit) : List Call := .close :: drop ⟨0⟩

end OwnershipPermit

def panicMessage (payload : PanicPayload) : String := payload.text.getD "non-string panic payload"

inductive Slot
  | retained
  | undeliveredOutcome
  | auxiliary
deriving DecidableEq

inductive Effect
  | job (slot : Slot) (value : Value)
  | report (reporter : Value) (message : String)
  | call (call : Call)
deriving DecidableEq

structure DropBatch where
  permit : Option OwnershipPermit
  retained : Option Value
  undeliveredOutcome : Option Value
  auxiliary : Option Value
  panicReporter : Option Value
  poisoned : Bool
deriving DecidableEq

/-- Every job runs inside its own panic boundary, and the first panic consumes
the reporter. The reporter's own panic is caught and has no effect. -/
def runJobs (panics : Slot → Option PanicPayload) : Option Value → List (Slot × Value) → Bool × List Effect
  | _, [] => (true, [])
  | reporter, (slot, value) :: jobs =>
      match panics slot with
      | none =>
          let (clean, effects) := runJobs panics reporter jobs
          (clean, .job slot value :: effects)
      | some payload =>
          let report := reporter.toList.map fun reporter => Effect.report reporter (panicMessage payload)
          let (_, effects) := runJobs panics none jobs
          (false, .job slot value :: report ++ effects)

namespace DropBatch

def jobs (batch : DropBatch) : List (Slot × Value) :=
  batch.retained.toList.map (Slot.retained, ·) ++ batch.undeliveredOutcome.toList.map (Slot.undeliveredOutcome, ·) ++
    batch.auxiliary.toList.map (Slot.auxiliary, ·)

/-- A batch that still has its permit closes admission. Its jobs are retained
permanently. -/
def drop (batch : DropBatch) : List Effect := (batch.permit.toList.flatMap (·.closeWithoutRelease)).map .call

/-- The batch as `run` leaves it to be dropped. -/
def spent (batch : DropBatch) : DropBatch :=
  { batch with permit := none, retained := none, undeliveredOutcome := none, auxiliary := none }

def run (batch : DropBatch) (panics : Slot → Option PanicPayload) : List Effect :=
  let (clean, effects) := runJobs panics batch.panicReporter batch.jobs
  let calls :=
    if clean && !batch.poisoned then batch.permit.toList.flatMap (·.drop) else batch.permit.toList.flatMap (·.retire)
  effects ++ calls.map .call ++ batch.spent.drop

end DropBatch

/-- What becomes of a submitted batch: the closed queue refuses it, a worker
runs it, or the queue is dropped with it. -/
inductive Fate
  | refused
  | ran (panics : Slot → Option PanicPayload)
  | dropped

/-- A refused batch closes admission and is retained permanently. -/
def DropBatch.settle (batch : DropBatch) : Fate → List Effect
  | .refused => [.call .close]
  | .ran panics => batch.run panics
  | .dropped => batch.drop

structure DropReservation where
  permit : Option OwnershipPermit

namespace DropReservation

def new (permit : OwnershipPermit) : DropReservation := ⟨some permit⟩

/-- Without a permit the expectation fails. -/
def submit (reservation : DropReservation) (retained : Value)
    (undeliveredOutcome auxiliary panicReporter : Option Value) (poisoned : Bool) : Option DropBatch :=
  reservation.permit.map fun permit =>
    ⟨some permit, some retained, undeliveredOutcome, auxiliary, panicReporter, poisoned⟩

end DropReservation

/-- Each accepted lifetime gets a permit of its own. -/
def splitReservations (combined : OwnershipPermit) : Nat → Option (List DropReservation × OwnershipPermit)
  | 0 => some ([], combined)
  | count + 1 => do
      let (permit, combined) ← combined.splitOne
      let (reservations, combined) ← splitReservations combined count
      some (.new permit :: reservations, combined)

/-- The reservations with the broker, the emptied permit dropped. The inner
`none` is the failed expectation. -/
def tryReserveMany (broker : CapacityBroker) (count : Nat) :
    Option (Option (List DropReservation)) × CapacityBroker :=
  if count = 0 then (some (some []), broker)
  else
    match broker.tryAcquire count with
    | (none, broker) => (none, broker)
    | (some units, broker) =>
        match splitReservations ⟨units⟩ count with
        | none => (some none, broker)
        | some (reservations, combined) => (some (some reservations), combined.drop.foldl Call.perform broker)

structure DropBundleInner where
  reservation : DropReservation
  retained : Value
  undeliveredOutcome : Option Value
  auxiliary : Option Value
  panicReporter : Option Value
  poisoned : Bool

/-- A bundle with what has come of it: the batches it submitted, where `none`
is a failed expectation, and the values retained permanently. -/
structure DropBundle where
  inner : Option DropBundleInner
  submitted : List (Option DropBatch)
  forgotten : List Value

namespace DropBundle

def new (reservation : DropReservation) (retained : Value) : DropBundle :=
  ⟨some ⟨reservation, retained, none, none, none, false⟩, [], []⟩

/-- One terminal value goes to its slot. A duplicate poisons the bundle and is
retained, and so is a value that comes after the submission. -/
def attach (get : DropBundleInner → Option Value) (set : DropBundleInner → Value → DropBundleInner)
    (bundle : DropBundle) (value : Value) : DropBundle :=
  match bundle.inner with
  | none => { bundle with forgotten := value :: bundle.forgotten }
  | some inner =>
      if (get inner).isSome then
        { bundle with inner := some { inner with poisoned := true }, forgotten := value :: bundle.forgotten }
      else { bundle with inner := some (set inner value) }

def attachOutcome : DropBundle → Value → DropBundle :=
  attach (·.undeliveredOutcome) fun inner outcome => { inner with undeliveredOutcome := some outcome }

def attachAuxiliary : DropBundle → Value → DropBundle :=
  attach (·.auxiliary) fun inner value => { inner with auxiliary := some value }

def attachPanicPayload : DropBundle → Value → DropBundle := attachAuxiliary

def attachPhysical : DropBundle → Value → DropBundle := attachAuxiliary

def setPanicReporter : DropBundle → Value → DropBundle :=
  attach (·.panicReporter) fun inner reporter => { inner with panicReporter := some reporter }

def poison (bundle : DropBundle) : DropBundle :=
  { bundle with inner := bundle.inner.map fun inner => { inner with poisoned := true } }

def submitInner (bundle : DropBundle) : DropBundle :=
  match bundle.inner with
  | none => bundle
  | some inner =>
      let batch := inner.reservation.submit inner.retained inner.undeliveredOutcome inner.auxiliary
        inner.panicReporter inner.poisoned
      { bundle with inner := none, submitted := batch :: bundle.submitted }

def drop : DropBundle → DropBundle := submitInner

end DropBundle

inductive Op
  | attachOutcome (outcome : Value)
  | attachPanicPayload (payload : Value)
  | attachPhysical (value : Value)
  | setPanicReporter (reporter : Value)
  | poison
  | submit
deriving DecidableEq

def Op.perform (bundle : DropBundle) : Op → DropBundle
  | .attachOutcome outcome => bundle.attachOutcome outcome
  | .attachPanicPayload payload => bundle.attachPanicPayload payload
  | .attachPhysical value => bundle.attachPhysical value
  | .setPanicReporter reporter => bundle.setPanicReporter reporter
  | .poison => bundle.poison
  | .submit => bundle.submitInner

/-- The whole life of the bundle of one reserved unit. -/
def lifetime (retained : Value) (ops : List Op) : DropBundle :=
  (ops.foldl Op.perform (.new (.new ⟨1⟩) retained)).drop

variable {bundle : DropBundle} {inner : DropBundleInner} {batch : DropBatch} {jobs : List (Slot × Value)}
  {panics : Slot → Option PanicPayload} {ops : List Op}

def Op.outcome : Op → Option Value
  | .attachOutcome outcome => some outcome
  | _ => none

def Op.auxiliary : Op → Option Value
  | .attachPanicPayload payload => some payload
  | .attachPhysical value => some value
  | _ => none

def Op.reporter : Op → Option Value
  | .setPanicReporter reporter => some reporter
  | _ => none

/-- The operations that find the bundle unsubmitted. -/
def beforeSubmit (ops : List Op) : List Op := ops.takeWhile (· ≠ .submit)

/-- A bundle is poisoned explicitly or by a duplicate attachment. -/
def poisonedBy (ops : List Op) : Bool :=
  ops.contains .poison || decide (1 < (ops.filterMap Op.outcome).length) ||
    decide (1 < (ops.filterMap Op.auxiliary).length) || decide (1 < (ops.filterMap Op.reporter).length)

/-- The contents that a sequence of attachments leaves in the bundle: of each
kind the first. -/
def contents (retained : Value) (ops : List Op) : DropBundleInner where
  reservation := .new ⟨1⟩
  retained
  undeliveredOutcome := (ops.filterMap Op.outcome).head?
  auxiliary := (ops.filterMap Op.auxiliary).head?
  panicReporter := (ops.filterMap Op.reporter).head?
  poisoned := poisonedBy ops

def batchOf (retained : Value) (ops : List Op) : DropBatch where
  permit := some ⟨1⟩
  retained := some retained
  undeliveredOutcome := (ops.filterMap Op.outcome).head?
  auxiliary := (ops.filterMap Op.auxiliary).head?
  panicReporter := (ops.filterMap Op.reporter).head?
  poisoned := poisonedBy ops

theorem attach_inner (get : DropBundleInner → Option Value) (set : DropBundleInner → Value → DropBundleInner)
    (h : bundle.inner = some inner) (value : Value) :
    (bundle.attach get set value).inner =
        some (if (get inner).isSome then { inner with poisoned := true } else set inner value) ∧
      (bundle.attach get set value).submitted = bundle.submitted := by
  simp only [DropBundle.attach, h]
  split <;> exact ⟨rfl, rfl⟩

theorem filterMap_snoc (f : Op → Option Value) (op : Op) :
    (ops ++ [op]).filterMap f = ops.filterMap f ++ (f op).toList := by
  rw [List.filterMap_append]
  cases h : f op <;> simp [h]

theorem contents_snoc (retained : Value) (ops : List Op) (op : Op) :
    contents retained (ops ++ [op]) =
      { reservation := .new ⟨1⟩
        retained
        undeliveredOutcome := (ops.filterMap Op.outcome ++ op.outcome.toList).head?
        auxiliary := (ops.filterMap Op.auxiliary ++ op.auxiliary.toList).head?
        panicReporter := (ops.filterMap Op.reporter ++ op.reporter.toList).head?
        poisoned := (ops ++ [op]).contains .poison ||
          decide (1 < (ops.filterMap Op.outcome ++ op.outcome.toList).length) ||
          decide (1 < (ops.filterMap Op.auxiliary ++ op.auxiliary.toList).length) ||
          decide (1 < (ops.filterMap Op.reporter ++ op.reporter.toList).length) } := by
  simp only [contents, poisonedBy, filterMap_snoc]

/-- The first attachment of a kind takes the slot, and every later one of them
poisons the bundle. -/
theorem perform_contents {retained : Value} {op : Op} (h : bundle.inner = some (contents retained ops))
    (hop : op ≠ .submit) : (op.perform bundle).inner = some (contents retained (ops ++ [op])) ∧
      (op.perform bundle).submitted = bundle.submitted := by
  cases op with
  | attachOutcome outcome =>
      obtain ⟨hi, hs⟩ := attach_inner (·.undeliveredOutcome)
        (fun inner outcome => { inner with undeliveredOutcome := some outcome }) h outcome
      refine ⟨hi.trans (congrArg some ?_), hs⟩
      rw [contents_snoc]
      cases hl : ops.filterMap Op.outcome <;>
        simp [contents, poisonedBy, Op.outcome, Op.auxiliary, Op.reporter, hl]
  | attachPanicPayload payload =>
      obtain ⟨hi, hs⟩ := attach_inner (·.auxiliary)
        (fun inner value => { inner with auxiliary := some value }) h payload
      refine ⟨hi.trans (congrArg some ?_), hs⟩
      rw [contents_snoc]
      cases hl : ops.filterMap Op.auxiliary <;>
        simp [contents, poisonedBy, Op.outcome, Op.auxiliary, Op.reporter, hl]
  | attachPhysical value =>
      obtain ⟨hi, hs⟩ := attach_inner (·.auxiliary)
        (fun inner value => { inner with auxiliary := some value }) h value
      refine ⟨hi.trans (congrArg some ?_), hs⟩
      rw [contents_snoc]
      cases hl : ops.filterMap Op.auxiliary <;>
        simp [contents, poisonedBy, Op.outcome, Op.auxiliary, Op.reporter, hl]
  | setPanicReporter reporter =>
      obtain ⟨hi, hs⟩ := attach_inner (·.panicReporter)
        (fun inner reporter => { inner with panicReporter := some reporter }) h reporter
      refine ⟨hi.trans (congrArg some ?_), hs⟩
      rw [contents_snoc]
      cases hl : ops.filterMap Op.reporter <;>
        simp [contents, poisonedBy, Op.outcome, Op.auxiliary, Op.reporter, hl]
  | poison =>
      refine ⟨?_, rfl⟩
      rw [contents_snoc]
      simp [Op.perform, DropBundle.poison, h, contents, Op.outcome, Op.auxiliary, Op.reporter]
  | submit => exact absurd rfl hop

theorem foldl_contents (retained : Value) (ops : List Op) (hops : Op.submit ∉ ops) :
    (ops.foldl Op.perform (.new (.new ⟨1⟩) retained)).inner = some (contents retained ops) ∧
      (ops.foldl Op.perform (.new (.new ⟨1⟩) retained)).submitted = [] := by
  induction ops using List.reverseRecOn with
  | nil => exact ⟨rfl, rfl⟩
  | append_singleton ops op ih =>
      simp only [List.mem_append, List.mem_singleton, not_or] at hops
      obtain ⟨hi, hs⟩ := ih hops.1
      rw [List.foldl_append]
      obtain ⟨hi', hs'⟩ := perform_contents hi (Ne.symm hops.2)
      exact ⟨hi', hs'.trans hs⟩

/-- Once its contents are gone, a bundle submits nothing. -/
theorem perform_spent (h : bundle.inner = none) (op : Op) :
    (op.perform bundle).inner = none ∧ (op.perform bundle).submitted = bundle.submitted := by
  cases op <;> simp [Op.perform, DropBundle.attachOutcome, DropBundle.attachPanicPayload, DropBundle.attachPhysical,
    DropBundle.attachAuxiliary, DropBundle.setPanicReporter, DropBundle.attach, DropBundle.poison,
    DropBundle.submitInner, h]

theorem foldl_spent (h : bundle.inner = none) (ops : List Op) :
    (ops.foldl Op.perform bundle).inner = none ∧ (ops.foldl Op.perform bundle).submitted = bundle.submitted := by
  induction ops generalizing bundle with
  | nil => exact ⟨h, rfl⟩
  | cons op ops ih =>
      obtain ⟨hi, hs⟩ := perform_spent h op
      obtain ⟨hi', hs'⟩ := ih hi
      exact ⟨hi', hs'.trans hs⟩

theorem submitInner_contents {retained : Value} (h : bundle.inner = some (contents retained ops))
    (hs : bundle.submitted = []) :
    bundle.submitInner.inner = none ∧ bundle.submitInner.submitted = [some (batchOf retained ops)] := by
  simp [DropBundle.submitInner, h, hs, contents, batchOf, DropReservation.submit, DropReservation.new]

/-- The bundle is submitted exactly once, with what was attached before the
first submission. -/
theorem submitted_once (retained : Value) (ops : List Op) :
    (lifetime retained ops).submitted = [some (batchOf retained (beforeSubmit ops))] := by
  have hpre : Op.submit ∉ beforeSubmit ops := fun hm => by simpa using List.mem_takeWhile_imp hm
  obtain ⟨hi, hs⟩ := foldl_contents retained (beforeSubmit ops) hpre
  obtain ⟨hi', hs'⟩ := submitInner_contents hi hs
  cases hrest : ops.dropWhile (· ≠ .submit) with
  | nil =>
      have hall : beforeSubmit ops = ops := by
        have := List.takeWhile_append_dropWhile (p := (· ≠ Op.submit)) (l := ops)
        rwa [hrest, List.append_nil] at this
      rw [hall] at hs' ⊢
      exact hs'
  | cons op rest =>
      obtain rfl : op = .submit := by
        have hhead := List.head?_dropWhile_not (fun op => decide (op ≠ Op.submit)) ops
        rw [hrest] at hhead
        simpa using hhead
      have hops : ops = beforeSubmit ops ++ .submit :: rest := by
        rw [beforeSubmit, ← hrest, List.takeWhile_append_dropWhile]
      obtain ⟨hi'', hs''⟩ := foldl_spent hi' rest
      have hfold : ops.foldl Op.perform (.new (.new ⟨1⟩) retained) =
          rest.foldl Op.perform ((beforeSubmit ops).foldl Op.perform (.new (.new ⟨1⟩) retained)).submitInner := by
        conv_lhs => rw [hops, List.foldl_append, List.foldl_cons]
        rfl
      rw [lifetime, hfold]
      exact (perform_spent hi'' .submit).2.trans (hs''.trans hs')

@[simp] def Effect.invoked : Effect → Option (Slot × Value)
  | .job slot value => some (slot, value)
  | _ => none

@[simp] def Effect.reported : Effect → Option (Value × String)
  | .report reporter message => some (reporter, message)
  | _ => none

@[simp] def Effect.called : Effect → Option Call
  | .call c => some c
  | _ => none

/-- The calls that dispose of something: a permit that is spent still releases
its zero units. -/
def charges (effects : List Effect) : List Call :=
  (effects.filterMap Effect.called).filter fun call => call ≠ .release 0 ∧ call ≠ .retire 0

def performAll (b : CapacityBroker) (effects : List Effect) : CapacityBroker :=
  (effects.filterMap Effect.called).foldl Call.perform b

/-- The report that the first panic makes. -/
def report (panics : Slot → Option PanicPayload) (reporter : Option Value) (jobs : List (Slot × Value)) :
    List (Value × String) :=
  match reporter, jobs.findSome? fun job => panics job.1 with
  | some reporter, some payload => [(reporter, panicMessage payload)]
  | _, _ => []

def returning (panics : Slot → Option PanicPayload) (jobs : List (Slot × Value)) : Bool :=
  jobs.all fun job => (panics job.1).isNone

theorem runJobs_none {slot : Slot} (hp : panics slot = none) (reporter : Option Value) (value : Value) :
    runJobs panics reporter ((slot, value) :: jobs) =
      ((runJobs panics reporter jobs).1, .job slot value :: (runJobs panics reporter jobs).2) := by
  simp [runJobs, hp]

theorem runJobs_some {slot : Slot} {payload : PanicPayload} (hp : panics slot = some payload)
    (reporter : Option Value) (value : Value) : runJobs panics reporter ((slot, value) :: jobs) =
      (false, .job slot value :: ((reporter.toList.map fun reporter => .report reporter (panicMessage payload)) ++
        (runJobs panics none jobs).2)) := by
  simp [runJobs, hp]

theorem runJobs_clean (reporter : Option Value) : (runJobs panics reporter jobs).1 = returning panics jobs := by
  induction jobs generalizing reporter with
  | nil => rfl
  | cons job jobs ih =>
      obtain ⟨slot, value⟩ := job
      cases hp : panics slot with
      | none => simpa [runJobs_none hp, returning, hp] using ih reporter
      | some payload => simp [runJobs_some hp, returning, hp]

theorem runJobs_invoked (reporter : Option Value) :
    (runJobs panics reporter jobs).2.filterMap Effect.invoked = jobs := by
  induction jobs generalizing reporter with
  | nil => rfl
  | cons job jobs ih =>
      obtain ⟨slot, value⟩ := job
      cases hp : panics slot with
      | none => simp [runJobs_none hp, ih reporter]
      | some payload =>
          have hjob : (Effect.job slot value).invoked = some (slot, value) := rfl
          rw [runJobs_some hp, List.filterMap_cons_some hjob, List.filterMap_append, ih none]
          cases reporter <;> rfl

theorem runJobs_called (reporter : Option Value) :
    (runJobs panics reporter jobs).2.filterMap Effect.called = [] := by
  induction jobs generalizing reporter with
  | nil => rfl
  | cons job jobs ih =>
      obtain ⟨slot, value⟩ := job
      cases hp : panics slot with
      | none => rw [runJobs_none hp, List.filterMap_cons_none rfl, ih reporter]
      | some payload =>
          rw [runJobs_some hp, List.filterMap_cons_none rfl, List.filterMap_append, ih none]
          cases reporter <;> rfl

theorem runJobs_reported (reporter : Option Value) :
    (runJobs panics reporter jobs).2.filterMap Effect.reported = report panics reporter jobs := by
  induction jobs generalizing reporter with
  | nil => cases reporter <;> rfl
  | cons job jobs ih =>
      obtain ⟨slot, value⟩ := job
      cases hp : panics slot with
      | none =>
          rw [runJobs_none hp, List.filterMap_cons_none rfl, ih reporter]
          simp [report, hp]
      | some payload =>
          rw [runJobs_some hp, List.filterMap_cons_none rfl, List.filterMap_append, ih none]
          cases reporter <;> simp [report, hp]

/-- A report comes after the job whose destructor panicked, and with its
message. -/
def Prompted (panics : Slot → Option PanicPayload) (effects : List Effect) : Prop :=
  ∀ before reporter message rest, effects = before ++ .report reporter message :: rest →
    ∃ slot value payload, .job slot value ∈ before ∧ panics slot = some payload ∧ message = panicMessage payload

theorem Prompted.cons {effects : List Effect} (h : Prompted panics effects) (slot : Slot) (value : Value) :
    Prompted panics (.job slot value :: effects) := by
  intro before reporter message rest he
  cases before with
  | nil => cases he
  | cons e before =>
      obtain ⟨s, v, payload, hm, hp⟩ := h before reporter message rest (List.cons.inj he).2
      exact ⟨s, v, payload, List.mem_cons_of_mem _ hm, hp⟩

theorem runJobs_prompted (reporter : Option Value) : Prompted panics (runJobs panics reporter jobs).2 := by
  induction jobs generalizing reporter with
  | nil => exact fun before _ _ _ he => by cases before <;> cases he
  | cons job jobs ih =>
      obtain ⟨slot, value⟩ := job
      cases hp : panics slot with
      | none =>
          rw [runJobs_none hp]
          exact (ih reporter).cons slot value
      | some payload =>
          cases reporter with
          | none =>
              rw [runJobs_some hp]
              exact (ih none).cons slot value
          | some reporter =>
              rw [runJobs_some hp]
              simp only [Option.toList, List.map_cons, List.map_nil, List.cons_append, List.nil_append]
              intro before r message rest he
              match before with
              | [] => cases he
              | [e] =>
                  simp only [List.cons_append, List.nil_append, List.cons.injEq, Effect.report.injEq] at he
                  obtain ⟨rfl, ⟨-, rfl⟩, -⟩ := he
                  exact ⟨slot, value, payload, List.mem_singleton.mpr rfl, hp, rfl⟩
              | e :: e' :: before =>
                  simp only [List.cons_append, List.cons.injEq] at he
                  obtain ⟨s, v, payload', hm, hs⟩ := ih none before r message rest he.2.2
                  exact ⟨s, v, payload', List.mem_cons_of_mem _ (List.mem_cons_of_mem _ hm), hs⟩

/-- What a worker does with the batch of one unit. -/
structure Ran (batch : DropBatch) (panics : Slot → Option PanicPayload) (effects : List Effect) : Prop where
  invoked : effects.filterMap Effect.invoked = batch.jobs
  reported : effects.filterMap Effect.reported = report panics batch.panicReporter batch.jobs
  prompted : Prompted panics effects
  charged : charges effects = if returning panics batch.jobs && !batch.poisoned then [.release 1] else [.retire 1]
  broker (b : CapacityBroker) :
    performAll b effects = if returning panics batch.jobs && !batch.poisoned then b.release 1 else b.retire 1

/-- What comes of a batch that no worker runs. -/
structure Unexecuted (effects : List Effect) : Prop where
  invoked : effects.filterMap Effect.invoked = []
  reported : effects.filterMap Effect.reported = []
  charged : charges effects = [.close]
  broker (b : CapacityBroker) : performAll b effects = b.close ∧ (performAll b effects).state.closed = true

theorem closed_close (b : CapacityBroker) : b.close.state.closed = true := by
  rw [CapacityBroker.close]
  split
  · next h => exact h
  · rw [CapacityBroker.closeWaitersLocked]
    split <;> rfl

theorem run_eq (h : batch.permit = some ⟨1⟩) :
    batch.run panics = (runJobs panics batch.panicReporter batch.jobs).2 ++
      if returning panics batch.jobs && !batch.poisoned then [.call (.release 1)]
      else [.call (.retire 1), .call (.release 0)] := by
  have hclean : (runJobs panics batch.panicReporter batch.jobs).1 = returning panics batch.jobs :=
    runJobs_clean batch.panicReporter
  simp only [DropBatch.run, h, hclean, DropBatch.spent, DropBatch.drop]
  split <;> simp [OwnershipPermit.drop, OwnershipPermit.retire]

theorem ran (h : batch.permit = some ⟨1⟩) (panics : Slot → Option PanicPayload) :
    Ran batch panics (batch.run panics) := by
  have hcalled : (runJobs panics batch.panicReporter batch.jobs).2.filterMap Effect.called = [] :=
    runJobs_called batch.panicReporter
  have hcalls : (batch.run panics).filterMap Effect.called =
      if returning panics batch.jobs && !batch.poisoned then [.release 1] else [.retire 1, .release 0] := by
    rw [run_eq h, List.filterMap_append, hcalled]
    split <;> simp
  refine ⟨?_, ?_, ?_, ?_, fun b => ?_⟩
  · rw [run_eq h, List.filterMap_append, runJobs_invoked]
    split <;> simp
  · rw [run_eq h, List.filterMap_append, runJobs_reported]
    split <;> simp
  · rw [run_eq h]
    intro before reporter message rest he
    -- the calls at the end hold no report, so that it is one of the jobs' effects
    have hlast : ∀ e ∈ (if returning panics batch.jobs && !batch.poisoned then [Effect.call (.release 1)]
        else [.call (.retire 1), .call (.release 0)]), e.reported = none := by
      intro e hm
      split at hm <;> simp only [List.mem_cons, List.not_mem_nil, or_false] at hm
      · rw [hm]
        rfl
      · rcases hm with rfl | rfl <;> rfl
    rcases List.append_eq_append_iff.mp he with ⟨mid, hbefore, hrest⟩ | ⟨mid, hbefore, hrest⟩
    · have := hlast (.report reporter message) (by rw [hrest]; exact List.mem_append_right _ List.mem_cons_self)
      cases this
    · cases mid with
      | nil =>
          have := hlast (.report reporter message) (by rw [List.nil_append] at hrest; rw [← hrest]; exact List.mem_cons_self)
          cases this
      | cons e mid =>
          obtain ⟨rfl, -⟩ := List.cons.inj hrest
          exact runJobs_prompted batch.panicReporter before reporter message mid hbefore
  · rw [charges, hcalls]
    split <;> rfl
  · rw [performAll, hcalls]
    split <;> rfl

theorem unexecuted_refused (batch : DropBatch) : Unexecuted (batch.settle .refused) :=
  ⟨rfl, rfl, rfl, fun b => ⟨rfl, closed_close b⟩⟩

theorem unexecuted_dropped (h : batch.permit = some ⟨1⟩) : Unexecuted (batch.settle .dropped) := by
  have heq : batch.settle .dropped = [.call .close, .call (.release 0)] := by
    simp [DropBatch.settle, DropBatch.drop, h, OwnershipPermit.closeWithoutRelease, OwnershipPermit.drop]
  rw [heq]
  exact ⟨rfl, rfl, rfl, fun b => ⟨rfl, closed_close b⟩⟩

/-- A batch of reservations has one unit each, and the emptied permit gives
nothing back. -/
theorem splitReservations_units (count : Nat) :
    splitReservations ⟨count⟩ count = some (List.replicate count (.new ⟨1⟩), ⟨0⟩) := by
  induction count with
  | zero => rfl
  | succ count ih => simp [splitReservations, OwnershipPermit.splitOne, ih, List.replicate_succ]

theorem tryReserveMany_units {b b' : CapacityBroker} {count : Nat} {reservations : Option (List DropReservation)}
    (h : tryReserveMany b count = (some reservations, b')) :
    reservations = some (List.replicate count (.new ⟨1⟩)) := by
  rw [tryReserveMany] at h
  split at h
  · next hz =>
    subst hz
    cases h
    rfl
  · split at h
    · cases h
    · next units b₁ ha =>
      have hunits : units = count := by
        rw [CapacityBroker.tryAcquire] at ha
        split_ifs at ha
        · cases ha
        · cases ha
        · split at ha
          · cases ha; rfl
          · split_ifs at ha
            · cases ha
            · cases ha; rfl
      subst hunits
      rw [splitReservations_units] at h
      cases h
      rfl

end Taskvisor.Ownership.Bundle
