import Taskvisor.Lib.Machine
import Taskvisor.Registry.Reaper

namespace Taskvisor.Registry.Rendezvous

open Lib Runtime.Base Reaper ReaperState

/-- What a call of the reaper does after its locked section. A submitted
bundle is that of a record, named by the record's latch, or the caller's own. -/
inductive Op
  | count
  | submit (record : Option RemovalCompletion)
  | uncount
  | physical (completion : RemovalCompletion)
deriving DecidableEq

def ofEffect : Effect → Op
  | .uncount => .uncount
  | .physical completion => .physical completion

/-- `submit_ready`, with the submission of the record's bundle. -/
def submitReady (ready : ReadyRecord) : List Op := .submit (some ready.release) :: ready.effects.map ofEffect

/-- What the locked section of `attach_terminal` leaves to do: whether the
bundle is still the caller's, the releases to complete, and the record taken
ready. -/
structure Attached where
  immediate : Bool
  releases : Option TerminalReleases
  ready : Option ReadyRecord

def attachLocked (st : ReaperState) (id : TaskId) (releases : TerminalReleases) : Attached × ReaperState :=
  let records := (st.records.lookup id).getD []
  match (terminalIndex records releases).bind fun index => (records[index]?).map (index, ·) with
  | none => (⟨true, some releases, none⟩, st)
  | some (index, record) =>
    if !record.terminal then
      let (ready, st) := (st.putRecord id index
        { record with terminal := true, terminalReleases := some releases }).takeReadyRecord id index
      (⟨false, none, ready⟩, st)
    else if releases.sharesLatch record.release then (⟨true, none, none⟩, st)
    else if record.duplicateReleases.isNone then
      (⟨true, none, none⟩, st.putRecord id index { record with duplicateReleases := some releases })
    else (⟨true, some releases, none⟩, st.putRecord id index { record with poisoned := true })

def completeAll (releases : TerminalReleases) : List Op := releases.latches.map .physical

def Attached.ops (a : Attached) : List Op :=
  (if a.immediate then [.submit none] else []) ++ (a.releases.map completeAll).getD [] ++
    (a.ready.map submitReady).getD []

/-- The latches and the count alone, which is what the registry's own model of
the reaper follows. -/
def Attached.effects (a : Attached) : List Effect :=
  (a.releases.map fun releases => releases.latches.map .physical).getD [] ++ (a.ready.map ReadyRecord.effects).getD []

theorem attachTerminal_eq (st : ReaperState) (id : TaskId) (state : Option RemovalCompletion)
    (report : RemovalCompletion) : st.attachTerminal id state report =
      ((attachLocked st id ⟨state, report⟩).1.effects, (attachLocked st id ⟨state, report⟩).2) := by
  unfold ReaperState.attachTerminal attachLocked
  simp only
  cases (terminalIndex ((st.records.lookup id).getD []) ⟨state, report⟩).bind fun index =>
      (((st.records.lookup id).getD [])[index]?).map (index, ·) with
  | none => simp [Attached.effects]
  | some found =>
      obtain ⟨index, record⟩ := found
      simp only
      split
      · rfl
      · split
        · rfl
        · split
          · rfl
          · simp [Attached.effects]

/-- One registration: a latch is registered at most once. -/
structure Registration where
  id : TaskId
  name : String
  latch : RemovalCompletion
deriving DecidableEq

/-- The reaper with its lock free. `tails` are the calls that have left their
locked section. The fields from `registered` on are ghosts: the registrations,
the records that got a physical output or a bundle and those taken ready, the
releases each record was given, its own among them, the latches that came to an
identity that has no record of theirs, the bundles submitted, the latches
completed and the two sides of `active`. -/
structure World where
  state : ReaperState
  active : BitVec 64
  tails : Table Nat (List Op)
  registered : List Registration
  outputs : List RemovalCompletion
  bundles : List RemovalCompletion
  ready : List RemovalCompletion
  given : List (RemovalCompletion × RemovalCompletion)
  strays : List RemovalCompletion
  submitted : List RemovalCompletion
  completed : List RemovalCompletion
  counted : Nat
  uncounted : Nat

inductive Action
  | register (call : Nat) (id : TaskId) (name : String) (latch : RemovalCompletion)
  | completePhysical (call : Nat) (id : TaskId) (latch : RemovalCompletion) (poisoned : Bool)
  | attachTerminal (call : Nat) (id : TaskId) (state : Bool) (latch : RemovalCompletion)
  | run (call : Nat)

namespace World

def new : World := ⟨⟨∅, ∅⟩, 0, ∅, [], [], [], [], [], [], [], [], 0, 0⟩

/-- The record of an identity that has a latch. -/
def record (st : ReaperState) (id : TaskId) (latch : RemovalCompletion) : Option ReaperRecord :=
  ((st.records.lookup id).getD []).find? fun record => decide (record.release = latch)

/-- The record that `attach_terminal` picks. -/
def target (st : ReaperState) (id : TaskId) (releases : TerminalReleases) : Option ReaperRecord :=
  (terminalIndex ((st.records.lookup id).getD []) releases).bind (((st.records.lookup id).getD [])[·]?)

def register (w : World) (call : Nat) (id : TaskId) (name : String) (latch : RemovalCompletion) : World :=
  { w with
    state := w.state.register id name latch
    tails := w.tails.insert call [.count]
    registered := w.registered ++ [⟨id, name, latch⟩]
    given := w.given ++ [(latch, latch)] }

def completePhysical (w : World) (call : Nat) (id : TaskId) (latch : RemovalCompletion) (poisoned : Bool) : World :=
  let (ready, state) := w.state.completePhysical id latch poisoned
  { w with
    state
    tails := w.tails.insert call ((ready.map submitReady).getD [])
    outputs := w.outputs ++ ((record w.state id latch).map (·.release)).toList
    ready := w.ready ++ (ready.map (·.release)).toList }

def attachTerminal (w : World) (call : Nat) (id : TaskId) (releases : TerminalReleases) : World :=
  let (attached, state) := attachLocked w.state id releases
  { w with
    state
    tails := w.tails.insert call attached.ops
    bundles := w.bundles ++ ((target w.state id releases).map (·.release)).toList
    ready := w.ready ++ (attached.ready.map (·.release)).toList
    given := w.given ++ ((target w.state id releases).map fun record => (record.release, releases.report)).toList
    strays := if (record w.state id releases.report).isSome then w.strays else w.strays ++ [releases.report] }

def perform (w : World) : Op → World
  | .count => { w with active := w.active + 1, counted := w.counted + 1 }
  | .submit record => { w with submitted := w.submitted ++ record.toList }
  | .uncount => { w with active := w.active - 1, uncounted := w.uncounted + 1 }
  | .physical completion => { w with completed := w.completed ++ [completion] }

/-- Callers register a latch once, and give `attach_terminal` one latch. -/
def step (w : World) : Action → Option World
  | .register call id name latch =>
      if (w.tails.lookup call).isNone && !(w.registered.any fun r => decide (r.latch = latch)) then
        some (w.register call id name latch)
      else none
  | .completePhysical call id latch poisoned =>
      if (w.tails.lookup call).isNone then some (w.completePhysical call id latch poisoned) else none
  | .attachTerminal call id state latch =>
      if (w.tails.lookup call).isNone then
        some (w.attachTerminal call id ⟨if state then some latch else none, latch⟩)
      else none
  | .run call =>
      match w.tails.lookup call with
      | some (op :: ops) => some (({ w with tails := w.tails.insert call ops } : World).perform op)
      | some [] => some { w with tails := w.tails.erase call }
      | none => none

end World

def machine : Machine World Action := ⟨World.new, World.step⟩

end Taskvisor.Registry.Rendezvous
