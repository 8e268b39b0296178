import Taskvisor.Lib.Usize
import Taskvisor.Registry.Reaper

namespace Taskvisor.Registry.State

open Lib Runtime.Base Reaper

inductive ActorExitReason
  | completed
  | canceled
  | panicked
  | exhausted
  | fatal
deriving DecidableEq

inductive ActorJoinError
  | panicked
  | aborted
deriving DecidableEq

abbrev ActorResult := Except ActorJoinError ActorExitReason

def outcomeOf : ActorResult → TaskOutcome
  | .ok .completed => .completed
  | .ok .canceled => .canceled
  | .ok .panicked => .panicked
  | .ok .exhausted => .failed
  | .ok .fatal => .fatal
  | .error .panicked => .panicked
  | .error .aborted => .forceAborted

/-- Where the spawned wrapper stands: behind the start gate, in the task body,
after its result, after its completion identity, or physically gone. -/
inductive ActorPhase
  | gated
  | running
  | produced
  | signalled
  | exited
deriving DecidableEq

/-- `result` is what the wrapper sent through its one-shot. -/
structure Actor where
  name : String
  phase : ActorPhase
  result : Option ActorResult
  abortRequested : Bool

/-- What the claim moves out of a registered entry. The actor itself is the
spawned task of the same identity. -/
structure Handle where
  done : Option OutcomeTx
  completion : RemovalCompletion
deriving DecidableEq

inductive EntryState
  | registered (handle : Handle)
  | removing (completion : RemovalCompletion)
deriving DecidableEq

structure Entry where
  name : String
  state : EntryState
deriving DecidableEq

structure PendingJoins where
  counts : Table TaskId Nat
  names : Table TaskId String

namespace PendingJoins

def incWithName (pending : PendingJoins) (id : TaskId) (name : String) : PendingJoins where
  counts := pending.counts.insert id ((pending.counts.lookup id).getD 0 + 1)
  names := pending.names.insert id name

def dec (pending : PendingJoins) (id : TaskId) : PendingJoins :=
  match pending.counts.lookup id with
  | none => pending
  | some count =>
    if count ≤ 1 then ⟨pending.counts.erase id, pending.names.erase id⟩
    else { pending with counts := pending.counts.insert id (count - 1) }

def isEmpty (pending : PendingJoins) : Bool := pending.counts.entries.isEmpty

def pendingNames (pending : PendingJoins) : List String := Table.values pending.names

end PendingJoins

/-- Who runs a removal: a handler of the listener, a detached join task, the
loop of `cancel_all_within` (in the listener's exit or in the shutdown owner),
or the continuation of a dropped commit. -/
inductive OwnerKind
  | inline
  | detached
  | shutdown (listener : Bool)
  | continuation
deriving DecidableEq

/-- The next statement of a removal owner, from the claim to the last line of
the terminal finalizer. -/
inductive OwnerStage
  | claimed
  | joining
  | reserved
  | counted
  | requested
  | locking (outcome : TaskOutcome)
  | removed (outcome : TaskOutcome) (state : Option RemovalCompletion) (isEmpty : Bool)
  | reported (state : Option RemovalCompletion) (isEmpty : Bool)
  | settling (effects : List Effect) (state : Option RemovalCompletion) (isEmpty : Bool)
  | released (state : Option RemovalCompletion) (isEmpty : Bool)
deriving DecidableEq

structure Owner where
  id : TaskId
  kind : OwnerKind
  done : Option OutcomeTx
  completion : RemovalCompletion
  stage : OwnerStage
deriving DecidableEq

inductive ReapStage
  | waiting
  | settling (effects : List Effect)
deriving DecidableEq

/-- A reap future of the coordinator or of its detached fallback. -/
structure Reap where
  id : TaskId
  release : RemovalCompletion
  stage : ReapStage
deriving DecidableEq

/-- An actor prepared for registration, with its latches. -/
structure PreparedRegistration where
  id : TaskId
  name : String
  done : Option OutcomeTx
  completion : RemovalCompletion
deriving DecidableEq

inductive Claimant
  | command (reply : Nat)
  | completion
  | shutdown
deriving DecidableEq

/-- Registry membership, removal owners, physical actors and the reaper.
`born` and `claims` record every registration and every claim ever made. -/
structure Core where
  tasks : Table TaskId Entry
  byName : Table String TaskId
  pending : PendingJoins
  owners : Table Nat Owner
  nextOwner : Nat
  actors : Table TaskId Actor
  cancelled : List TaskId
  reaper : ReaperState
  active : Nat
  reaps : Table Nat Reap
  nextReap : Nat
  logical : List RemovalCompletion
  physical : List RemovalCompletion
  outcomes : List (TaskId × Option OutcomeTx × TaskOutcome)
  emptyNotices : Nat
  born : Table TaskId PreparedRegistration
  claims : List (TaskId × Claimant)

namespace Core

def new : Core where
  tasks := ∅
  byName := ∅
  pending := ⟨∅, ∅⟩
  owners := ∅
  nextOwner := 0
  actors := ∅
  cancelled := []
  reaper := ⟨∅, ∅⟩
  active := 0
  reaps := ∅
  nextReap := 0
  logical := []
  physical := []
  outcomes := []
  emptyNotices := 0
  born := ∅
  claims := []

def putOwner (c : Core) (key : Nat) (o : Owner) : Core := { c with owners := c.owners.insert key o }

def putActor (c : Core) (id : TaskId) (a : Actor) : Core := { c with actors := c.actors.insert id a }

/-- Both indexes take one accepted registration. -/
def insertEntry (c : Core) (item : PreparedRegistration) : Core :=
  { c with
    tasks := c.tasks.insert item.id ⟨item.name, .registered ⟨item.done, item.completion⟩⟩
    byName := c.byName.insert item.name item.id
    born := c.born.insert item.id item }

def insertAll (c : Core) (items : List PreparedRegistration) : Core := items.foldl insertEntry c

def spawn (c : Core) (item : PreparedRegistration) : Core := c.putActor item.id ⟨item.name, .gated, none, false⟩

/-- `start_tx.send_replace(true)` for one waiting actor. -/
def openGate (c : Core) (item : PreparedRegistration) : Core :=
  match c.actors.lookup item.id with
  | some a => if a.phase = .gated then c.putActor item.id { a with phase := .running } else c
  | none => c

/-- `claim_registered` under the state lock: the only handle moves to a new
owner, whose key comes back. -/
def claimRegistered (c : Core) (id : TaskId) (kind : OwnerKind) (claimant : Claimant) : Option (Nat × Core) :=
  match c.tasks.lookup id with
  | none => none
  | some entry =>
    match entry.state with
    | .removing _ => none
    | .registered handle =>
      some (c.nextOwner,
        { c with
          tasks := c.tasks.insert id { entry with state := .removing handle.completion }
          pending := c.pending.incWithName id entry.name
          owners := c.owners.insert c.nextOwner ⟨id, kind, handle.done, handle.completion, .claimed⟩
          nextOwner := c.nextOwner + 1
          claims := c.claims ++ [(id, claimant)] })

/-- The claims of `cancel_all_within`, in the order of the task map. -/
def claimAll (c : Core) (kind : OwnerKind) : List TaskId → Core
  | [] => c
  | id :: ids =>
    match c.claimRegistered id kind .shutdown with
    | some (_, c) => c.claimAll kind ids
    | none => c.claimAll kind ids

def cancelToken (c : Core) (id : TaskId) : Core := { c with cancelled := c.cancelled ++ [id] }

/-- The claimed handle starts to be joined, here or in another task. -/
def launch (c : Core) (key : Nat) (kind : OwnerKind) : Core :=
  match c.owners.lookup key with
  | some o => if o.stage = .claimed then c.putOwner key { o with kind, stage := .joining } else c
  | none => c

def applyEffect (c : Core) : Effect → Core
  | .uncount => { c with active := c.active - 1 }
  | .physical completion => { c with physical := c.physical ++ [completion] }

/-- The lock section of `PendingTerminalReport::commit`. -/
def commit (c : Core) (key : Nat) (o : Owner) (outcome : TaskOutcome) : Core :=
  match c.tasks.lookup o.id with
  | some ⟨name, .removing state⟩ =>
    let tasks := c.tasks.erase o.id
    { c with
      tasks
      byName := if c.byName.lookup name = some o.id then c.byName.erase name else c.byName
      owners := c.owners.insert key { o with stage := .removed outcome (some state) tasks.keys.isEmpty } }
  | _ => c.putOwner key { o with stage := .removed outcome none false }

/-- `ActorHandle::poll` is ready once the task is physically gone. -/
def joined (c : Core) (id : TaskId) : Option TaskOutcome :=
  match c.actors.lookup id with
  | some a => if a.phase = .exited then some (outcomeOf (a.result.getD (.error .aborted))) else none
  | none => none

/-- `ActorHandle::abort`: a spawned actor enters the reaper before the abort is
requested. -/
def abort (c : Core) (key : Nat) (o : Owner) : Core :=
  match c.actors.lookup o.id with
  | none => c.putOwner key { o with stage := .locking .forceAborted }
  | some a =>
    { c with
      reaper := c.reaper.register o.id a.name o.completion
      owners := c.owners.insert key { o with stage := .reserved } }

def requestAbort (c : Core) (id : TaskId) : Core :=
  match c.actors.lookup id with
  | some a => c.putActor id { a with abortRequested := true }
  | none => c

/-- The owner runs its next statement. -/
def advance (c : Core) (key : Nat) (o : Owner) : Option Core :=
  match o.stage with
  | .claimed => none
  | .joining => (c.joined o.id).map fun outcome => c.putOwner key { o with stage := .locking outcome }
  | .reserved => some ({ c with active := c.active + 1 }.putOwner key { o with stage := .counted })
  | .counted => some ((c.requestAbort o.id).putOwner key { o with stage := .requested })
  | .requested =>
    some { c with
      reaps := c.reaps.insert c.nextReap ⟨o.id, o.completion, .waiting⟩
      nextReap := c.nextReap + 1
      owners := c.owners.insert key { o with stage := .locking .forceAborted } }
  | .locking outcome => some (c.commit key o outcome)
  | .removed outcome state isEmpty =>
    some { c with
      outcomes := c.outcomes ++ [(o.id, o.done, outcome)]
      owners := c.owners.insert key { o with stage := .reported state isEmpty } }
  | .reported state isEmpty =>
    let (effects, reaper) := c.reaper.attachTerminal o.id state o.completion
    some { c with reaper, owners := c.owners.insert key { o with stage := .settling effects state isEmpty } }
  | .settling (effect :: effects) state isEmpty =>
    some ((c.applyEffect effect).putOwner key { o with stage := .settling effects state isEmpty })
  | .settling [] state isEmpty =>
    some { c with
      pending := c.pending.dec o.id
      owners := c.owners.insert key { o with stage := .released state isEmpty } }
  | .released state isEmpty =>
    some { c with
      logical := c.logical ++ state.toList ++ [o.completion]
      emptyNotices := if isEmpty then c.emptyNotices + 1 else c.emptyNotices
      owners := c.owners.erase key }

/-- Dropping a commit that waits for the state lock spawns its continuation. -/
def dropCommit (c : Core) (key : Nat) (o : Owner) : Option Core :=
  match o.stage with
  | .locking _ => if o.kind = .continuation then none else some (c.putOwner key { o with kind := .continuation })
  | _ => none

inductive OwnerAction
  | advance
  | abort
  | drop
deriving DecidableEq

def stepOwner (c : Core) (key : Nat) (action : OwnerAction) : Option Core :=
  match c.owners.lookup key with
  | none => none
  | some o =>
    match action with
    | .advance => c.advance key o
    | .abort => if o.stage = .joining ∧ o.kind ≠ .inline then some (c.abort key o) else none
    | .drop => c.dropCommit key o

/-- The reap future: the joined output meets its bundle, then the latches. -/
def stepReap (c : Core) (key : Nat) (poisoned : Bool) : Option Core :=
  match c.reaps.lookup key with
  | none => none
  | some reap =>
    match reap.stage with
    | .waiting =>
      if (c.joined reap.id).isSome then
        let (ready, reaper) := c.reaper.completePhysical reap.id reap.release poisoned
        some { c with
          reaper
          reaps := c.reaps.insert key { reap with stage := .settling ((ready.map ReadyRecord.effects).getD []) } }
      else none
    | .settling (effect :: effects) =>
      some { c.applyEffect effect with reaps := c.reaps.insert key { reap with stage := .settling effects } }
    | .settling [] => some { c with reaps := c.reaps.erase key }

inductive ActorAction
  | produce (result : ActorResult)
  | signal
  | exit
deriving DecidableEq

/-- The wrapper runs on, or an abort takes it away at an await point. -/
def stepActor (c : Core) (id : TaskId) (action : ActorAction) : Option Core :=
  match c.actors.lookup id with
  | none => none
  | some a =>
    match action, a.phase with
    | .produce result, .running => some (c.putActor id { a with phase := .produced, result := some result })
    | .signal, .produced => some (c.putActor id { a with phase := .signalled })
    | .exit, .signalled => some (c.putActor id { a with phase := .exited })
    | .exit, .gated => if a.abortRequested then some (c.putActor id { a with phase := .exited }) else none
    | .exit, .running => if a.abortRequested then some (c.putActor id { a with phase := .exited }) else none
    | _, _ => none

end Core

end Taskvisor.Registry.State
