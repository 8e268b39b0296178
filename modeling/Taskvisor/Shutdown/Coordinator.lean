import Taskvisor.Lib.Machine
import Taskvisor.Shutdown.Owner

namespace Taskvisor.Shutdown.Coordinator

open Lib Runtime.Base Registry.State Owner

/-- The static run methods, by what their shutdown future can yield. -/
inductive StaticRun
  | run
  | runUntil
  | runWithOsSignals
deriving DecidableEq

def StaticRun.yields : StaticRun → ShutdownTrigger → Bool
  | .runUntil, .requested => true
  | .runWithOsSignals, .requested => true
  | .runWithOsSignals, .signalSetupFailed _ => true
  | _, _ => false

/-- `begin_shutdown` after it found no operation. -/
inductive BeginStage
  | mark
  | install
  | flag
  | start
  | unlock
  | launch
deriving DecidableEq

/-- The places of a caller: `run_until_trigger` and `drive_shutdown`, then
`begin_shutdown`, `wait_started_shutdown` and the wait for the outcome. -/
inductive Pc
  | acquire
  | preflight
  | emptyCheck
  | emptyStart
  | select
  | triggeredStart (trigger : ShutdownTrigger)
  | reserve
  | check
  | batchStart
  | admission
  | reply
  | drive
  | lock (trigger : ShutdownTrigger)
  | look (trigger : ShutdownTrigger)
  | begin (trigger : ShutdownTrigger) (op : Nat) (runtime : Bool) (stage : BeginStage)
  | waitStarted
  | read
  | borrow (op : Nat)
  | changed (op : Nat)
deriving DecidableEq

/-- `claimed` is a run claim not committed; `empty` says that the run has no
initial tasks. -/
structure Caller where
  kind : Option StaticRun
  empty : Bool
  claimed : Bool
  pc : Pc
deriving DecidableEq

/-- What the rest of the system decides in a step of a caller: a result of a
fallible call, the arm of a `select`, and whether a Tokio runtime is current. -/
inductive Choice
  | go
  | ok
  | error
  | closed
  | trigger (trigger : ShutdownTrigger)
  | empty
  | runtime (current : Bool)
deriving DecidableEq

/-- A watch channel of one operation: its value, and whether its sender is
still there. -/
structure Channel where
  value : Option ShutdownOutcome
  sender : Bool
deriving DecidableEq

inductive AbandonInstr
  | load
  | mark
  | start
  | cancelRuntime
deriving DecidableEq

/-- The runtime core as its shutdown sees it. `lease` counts the public owners,
`abandoning` is the rest of the last one's drop. `tasks` are the detached
owners, by operation. The fields from `triggers` on are ghosts: the trigger of
each operation, those installed, what the waits returned, the reports behind
the published outcomes, and whether a caller has panicked. -/
structure World where
  lease : Nat
  abandoning : Option (List AbandonInstr)
  shared : Shared
  installed : Bool
  started : Bool
  running : Bool
  startup : Bool
  lock : Option Nat
  operation : Option Nat
  channels : List Channel
  callers : Table Nat Caller
  nextCaller : Nat
  tasks : Table Nat Task
  triggers : List ShutdownTrigger
  installs : List Nat
  verdicts : List (Nat × ShutdownOutcome)
  reports : List (Nat × Report)
  panicked : Bool

namespace World

def new : World where
  lease := 1
  abandoning := none
  shared := ⟨false, false, ⟨∅, ∅⟩⟩
  installed := false
  started := false
  running := false
  startup := false
  lock := none
  operation := none
  channels := []
  callers := ∅
  nextCaller := 0
  tasks := ∅
  triggers := []
  installs := []
  verdicts := []
  reports := []
  panicked := false

def move (w : World) (key : Nat) (c : Caller) (pc : Pc) : World :=
  { w with callers := w.callers.insert key { c with pc } }

/-- The claim is committed. -/
def commit (w : World) (key : Nat) (c : Caller) (pc : Pc) : World :=
  { w with callers := w.callers.insert key { c with pc, claimed := false } }

/-- The call ends or its future is dropped, with the drop of its claim. -/
def leave (w : World) (key : Nat) (c : Caller) : World :=
  { w with callers := w.callers.erase key, running := w.running && !c.claimed }

def settle (w : World) (op : Nat) (channel : Channel) : World :=
  { w with channels := w.channels.set op channel }

/-- One step of `begin_shutdown` that holds the lock or has just left it. -/
def beginStep (w : World) (key : Nat) (c : Caller) (trigger : ShutdownTrigger) (op : Nat) (runtime : Bool) :
    BeginStage → World
  | .mark => ({ w with shared := { w.shared with shuttingDown := true } } : World).move key c
      (.begin trigger op runtime .install)
  | .install => ({ w with operation := some op, installs := w.installs ++ [op] } : World).move key c
      (.begin trigger op runtime .flag)
  | .flag => ({ w with installed := true } : World).move key c (.begin trigger op runtime .start)
  | .start => ({ w with started := true } : World).move key c (.begin trigger op runtime .unlock)
  | .unlock => ({ w with lock := none } : World).move key c (.begin trigger op runtime .launch)
  | .launch =>
    if runtime then
      ({ w with tasks := w.tasks.insert op ⟨trigger, .mark, .new⟩ } : World).move key c (.borrow op)
    else
      ({ w with shared := { w.shared with runtimeCancelled := true } }.settle op ⟨some .shuttingDown, false⟩).move
        key c (.borrow op)

def yields (c : Caller) (trigger : ShutdownTrigger) : Bool := c.kind.any fun kind => kind.yields trigger

def call (w : World) (key : Nat) (c : Caller) (choice : Choice) : Option World :=
  match c.pc, choice with
  | .acquire, .go =>
    if w.running then some (w.leave key c)
    else some { w with running := true, callers := w.callers.insert key { c with claimed := true, pc := .preflight } }
  | .preflight, .ok => some (w.move key c (if c.empty then .emptyCheck else .select))
  | .preflight, .error => some (w.leave key c)
  | .emptyCheck, .go =>
    if w.shared.shuttingDown then some (w.commit key c .waitStarted) else some (w.move key c .emptyStart)
  | .emptyStart, .ok => some (({ w with startup := true } : World).commit key c .drive)
  | .emptyStart, .error => some (w.leave key c)
  | .select, .go => some (w.move key c (if w.started then .waitStarted else .reserve))
  | .select, .trigger trigger =>
    if !w.started && yields c trigger then some (w.move key c (.triggeredStart trigger)) else none
  | .triggeredStart trigger, .ok => some (({ w with startup := true } : World).commit key c (.lock trigger))
  | .triggeredStart _, .error => some (w.leave key c)
  | .reserve, .ok => some (w.move key c .check)
  | .reserve, .error => some (w.leave key c)
  | .check, .go =>
    if w.shared.shuttingDown then some (w.commit key c .waitStarted) else some (w.move key c .batchStart)
  | .batchStart, .ok => some (({ w with startup := true } : World).commit key c .admission)
  | .batchStart, .error => some (w.leave key c)
  | .admission, .go => if w.started then some (w.move key c .waitStarted) else none
  | .admission, .trigger trigger =>
    if !w.started && yields c trigger then some (w.move key c (.lock trigger)) else none
  | .admission, .ok => some (w.move key c .reply)
  | .admission, .closed => some (if w.started then w.move key c .waitStarted else w.leave key c)
  | .admission, .error => some (w.leave key c)
  | .reply, .ok => some (w.move key c .drive)
  | .reply, .closed => some (if w.started then w.move key c .waitStarted else w.leave key c)
  | .reply, .error => some (w.leave key c)
  | .drive, .go => if w.started then some (w.move key c .waitStarted) else none
  | .drive, .trigger trigger => if yields c trigger then some (w.move key c (.lock trigger)) else none
  | .drive, .empty => some (w.move key c (.lock .natural))
  | .lock trigger, .go =>
    if w.lock.isSome then none else some (({ w with lock := some key } : World).move key c (.look trigger))
  | .look trigger, .runtime current =>
    match w.operation with
    | some op => some (({ w with lock := none } : World).move key c (.borrow op))
    | none =>
      some (({ w with channels := w.channels ++ [⟨none, true⟩], triggers := w.triggers ++ [trigger] } : World).move
        key c (.begin trigger w.channels.length (w.startup || current) .mark))
  | .begin trigger op runtime stage, .go => some (w.beginStep key c trigger op runtime stage)
  | .waitStarted, .go => if w.started then some (w.move key c .read) else none
  | .read, .go =>
    if w.lock.isSome then none
    else match w.operation with
      | some op => some (w.move key c (.borrow op))
      | none => some { w.leave key c with panicked := true }
  | .borrow op, .go =>
    match (w.channels[op]?).bind Channel.value with
    | some outcome => some { w.leave key c with verdicts := w.verdicts ++ [(key, outcome)] }
    | none => some (w.move key c (.changed op))
  | .changed op, .go =>
    match w.channels[op]? with
    | some channel =>
      if channel.value.isSome then some (w.move key c (.borrow op))
      else if channel.sender then none
      else some { w.leave key c with verdicts := w.verdicts ++ [(key, .shuttingDown)] }
    | none => none
  | _, _ => none

/-- Where a future can be dropped: at its `await`s. -/
def suspended : Pc → Bool
  | .admission => true
  | .reply => true
  | .drive => true
  | .waitStarted => true
  | .changed _ => true
  | _ => false

inductive Action
  | share
  | release
  | abandonStep
  | shutdown
  | runStatic (kind : StaticRun) (empty : Bool)
  | call (key : Nat) (choice : Choice)
  | cancel (key : Nat)
  | owner (op : Nat) (answer : Answer)
  | publish (op : Nat)
  | lose (op : Nat)
  | claim (task : TaskId) (name : String)
  | finish (task : TaskId)

def enter (w : World) (c : Caller) : Option World :=
  if w.lease = 0 then none
  else some { w with callers := w.callers.insert w.nextCaller c, nextCaller := w.nextCaller + 1 }

def abandonStep (w : World) (rest : List AbandonInstr) : AbandonInstr → World
  | .load => { w with abandoning := some (if w.installed then [] else rest) }
  | .mark => { w with shared := { w.shared with shuttingDown := true }, abandoning := some rest }
  | .start => { w with started := true, abandoning := some rest }
  | .cancelRuntime => { w with shared := { w.shared with runtimeCancelled := true }, abandoning := some rest }

/-- `abandon`. -/
def abandonScript : List AbandonInstr := [.load, .mark, .start, .cancelRuntime]

/-- A caller borrows a public owner, so that the last one is released without
callers. Removal owners outside of the workflow come and go. The startup
runtime may drop the detached owner with its sender. -/
def step (grace : Nat) (w : World) : Action → Option World
  | .share => if w.lease = 0 then none else some { w with lease := w.lease + 1 }
  | .release =>
    if w.lease = 0 then none
    else if w.lease = 1 then
      if w.callers.keys.isEmpty then some { w with lease := 0, abandoning := some abandonScript } else none
    else some { w with lease := w.lease - 1 }
  | .abandonStep =>
    match w.abandoning with
    | some (instr :: rest) => some (w.abandonStep rest instr)
    | _ => none
  | .shutdown => w.enter ⟨none, true, false, .lock .requested⟩
  | .runStatic kind empty => w.enter ⟨some kind, empty, false, .acquire⟩
  | .call key choice => (w.callers.lookup key).bind fun c => w.call key c choice
  | .cancel key => (w.callers.lookup key).bind fun c => if suspended c.pc then some (w.leave key c) else none
  | .owner op answer =>
    (w.tasks.lookup op).bind fun t => (t.step grace w.shared answer).map fun (shared, t) =>
      { w with shared, tasks := w.tasks.insert op t }
  | .publish op =>
    (w.tasks.lookup op).bind fun t =>
      match t.stage with
      | .publish outcome =>
        some ({ w with tasks := w.tasks.erase op, reports := w.reports ++ [(op, t.report)] }.settle op
          ⟨some outcome, false⟩)
      | _ => none
  | .lose op =>
    (w.tasks.lookup op).map fun _ => ({ w with tasks := w.tasks.erase op } : World).settle op ⟨none, false⟩
  | .claim task name =>
    some { w with shared := { w.shared with pending := w.shared.pending.incWithName task name } }
  | .finish task => some { w with shared := { w.shared with pending := w.shared.pending.dec task } }

end World

def machine (grace : Nat) : Machine World World.Action := ⟨World.new, World.step grace⟩

end Taskvisor.Shutdown.Coordinator
