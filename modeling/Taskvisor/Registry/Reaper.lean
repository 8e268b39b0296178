import Taskvisor.Lib.Table
import Taskvisor.Runtime.Base

namespace Taskvisor.Registry.Reaper

open Lib Runtime.Base

/-- A `RemovalCompletion`: one value names its logical and its physical latch,
so two of them share the physical latch when they are equal. -/
abbrev RemovalCompletion := Nat

structure TerminalReleases where
  state : Option RemovalCompletion
  report : RemovalCompletion
deriving DecidableEq

namespace TerminalReleases

def latches (releases : TerminalReleases) : List RemovalCompletion := releases.state.toList ++ [releases.report]

def sharesLatch (releases : TerminalReleases) (completion : RemovalCompletion) : Bool :=
  releases.state.all (fun state => decide (state = completion)) && decide (releases.report = completion)

end TerminalReleases

structure ReaperActivity where
  id : TaskId
  release : RemovalCompletion
deriving DecidableEq

/-- `physical` and `terminal` say which half of the rendezvous has arrived. -/
structure ReaperRecord where
  name : String
  physical : Bool
  terminal : Bool
  release : RemovalCompletion
  terminalReleases : Option TerminalReleases
  duplicateReleases : Option TerminalReleases
  poisoned : Bool
deriving DecidableEq

structure ReadyRecord where
  release : RemovalCompletion
  terminalReleases : TerminalReleases
  duplicateReleases : Option TerminalReleases
  poisoned : Bool
deriving DecidableEq

/-- What is done once the lock is released: `active.fetch_sub`, or one
physical latch completed. -/
inductive Effect
  | uncount
  | physical (completion : RemovalCompletion)
deriving DecidableEq

/-- `submit_ready`. -/
def ReadyRecord.effects (ready : ReadyRecord) : List Effect :=
  .uncount :: (ready.release :: ready.terminalReleases.latches ++
    (ready.duplicateReleases.map TerminalReleases.latches).getD []).map .physical

structure ReaperState where
  byName : Table String (List ReaperActivity)
  records : Table TaskId (List ReaperRecord)

namespace ReaperState

def reservesName (st : ReaperState) (name : String) : Bool := (st.byName.lookup name).isSome

def register (st : ReaperState) (id : TaskId) (name : String) (release : RemovalCompletion) : ReaperState where
  byName := st.byName.insert name ((st.byName.lookup name).getD [] ++ [⟨id, release⟩])
  records := st.records.insert id
    ((st.records.lookup id).getD [] ++ [⟨name, false, false, release, none, none, false⟩])

def putRecord (st : ReaperState) (id : TaskId) (index : Nat) (record : ReaperRecord) : ReaperState :=
  { st with records := st.records.insert id (((st.records.lookup id).getD []).set index record) }

/-- The record leaves its list and its reservation leaves the name; empty lists
leave the maps. -/
def removeRecord (st : ReaperState) (id : TaskId) (index : Nat) (record : ReaperRecord) : ReaperState :=
  let records := ((st.records.lookup id).getD []).eraseIdx index
  let activities := ((st.byName.lookup record.name).getD []).filter fun entry =>
    decide (entry.id ≠ id ∨ entry.release ≠ record.release)
  { byName := if activities.isEmpty then st.byName.erase record.name else st.byName.insert record.name activities
    records := if records.isEmpty then st.records.erase id else st.records.insert id records }

def takeReadyRecord (st : ReaperState) (id : TaskId) (index : Nat) : Option ReadyRecord × ReaperState :=
  match (st.records.lookup id).bind (·[index]?) with
  | none => (none, st)
  | some record =>
    match record.terminalReleases with
    | none => (none, st)
    | some releases =>
      if record.physical && record.terminal then
        (some ⟨record.release, releases, record.duplicateReleases, record.poisoned⟩, st.removeRecord id index record)
      else (none, st)

/-- A missing record keeps the physical output; a second one only poisons. -/
def completePhysical (st : ReaperState) (id : TaskId) (release : RemovalCompletion) (poisoned : Bool) :
    Option ReadyRecord × ReaperState :=
  let records := (st.records.lookup id).getD []
  let index := records.findIdx fun record => decide (record.release = release)
  match records[index]? with
  | none => (none, st)
  | some record =>
    if record.physical then (st.putRecord id index { record with poisoned := true }).takeReadyRecord id index
    else (st.putRecord id index { record with physical := true, poisoned := record.poisoned || poisoned }).takeReadyRecord
      id index

/-- The record that shares the latch, else the first without a bundle, else
the first. -/
def terminalIndex (records : List ReaperRecord) (releases : TerminalReleases) : Option Nat :=
  (records.findIdx? fun record => releases.sharesLatch record.release).orElse fun _ =>
    (records.findIdx? fun record => !record.terminal).orElse fun _ => if records.isEmpty then none else some 0

/-- The effects are those after the lock, in the order of the source. -/
def attachTerminal (st : ReaperState) (id : TaskId) (state : Option RemovalCompletion) (report : RemovalCompletion) :
    List Effect × ReaperState :=
  let releases : TerminalReleases := ⟨state, report⟩
  let records := (st.records.lookup id).getD []
  match (terminalIndex records releases).bind fun index => (records[index]?).map (index, ·) with
  | none => (releases.latches.map .physical, st)
  | some (index, record) =>
    if !record.terminal then
      let (ready, st) := (st.putRecord id index
        { record with terminal := true, terminalReleases := some releases }).takeReadyRecord id index
      ((ready.map ReadyRecord.effects).getD [], st)
    else if releases.sharesLatch record.release then ([], st)
    else if record.duplicateReleases.isNone then
      ([], st.putRecord id index { record with duplicateReleases := some releases })
    else (releases.latches.map .physical, st.putRecord id index { record with poisoned := true })

section Single

variable {st : ReaperState} {id : TaskId} {name : String} {latch : RemovalCompletion} {poisoned : Bool}

/-- An identity with one record gives it up: record and reservation leave. -/
def release (st : ReaperState) (id : TaskId) (name : String) (latch : RemovalCompletion) : ReaperState :=
  let activities := ((st.byName.lookup name).getD []).filter fun entry => decide (entry.id ≠ id ∨ entry.release ≠ latch)
  { byName := if activities.isEmpty then st.byName.erase name else st.byName.insert name activities
    records := st.records.erase id }

theorem putRecord_single {record : ReaperRecord} (h : st.records.lookup id = some [record]) (record' : ReaperRecord) :
    (st.putRecord id 0 record').records.lookup id = some [record'] := by
  simp [putRecord, h]

theorem removeRecord_putRecord {record : ReaperRecord} (h : st.records.lookup id = some [record])
    {record' : ReaperRecord} : (st.putRecord id 0 record').removeRecord id 0 record' =
      { st.release id record'.name record'.release with records := (st.records.insert id [record']).erase id } := by
  simp [removeRecord, putRecord, release, h]

theorem attachTerminal_absent (h : st.records.lookup id = none) (state : Option RemovalCompletion) :
    st.attachTerminal id state latch = ((⟨state, latch⟩ : TerminalReleases).latches.map .physical, st) := by
  simp [attachTerminal, terminalIndex, h]

theorem attachTerminal_first (h : st.records.lookup id = some [⟨name, false, false, latch, none, none, poisoned⟩]) :
    st.attachTerminal id (some latch) latch =
      ([], st.putRecord id 0 ⟨name, false, true, latch, some ⟨some latch, latch⟩, none, poisoned⟩) := by
  have hindex : terminalIndex [⟨name, false, false, latch, none, none, poisoned⟩] ⟨some latch, latch⟩ = some 0 := by
    simp [terminalIndex, TerminalReleases.sharesLatch]
  simp [attachTerminal, h, hindex, takeReadyRecord, putRecord_single h]

theorem attachTerminal_second (h : st.records.lookup id = some [⟨name, true, false, latch, none, none, poisoned⟩]) :
    st.attachTerminal id (some latch) latch =
      ([.uncount, .physical latch, .physical latch, .physical latch],
        { st.release id name latch with
          records := (st.records.insert id
            [⟨name, true, true, latch, some ⟨some latch, latch⟩, none, poisoned⟩]).erase id }) := by
  have hindex : terminalIndex [⟨name, true, false, latch, none, none, poisoned⟩] ⟨some latch, latch⟩ = some 0 := by
    simp [terminalIndex, TerminalReleases.sharesLatch]
  simp [attachTerminal, h, hindex, takeReadyRecord, putRecord_single h, removeRecord_putRecord h, ReadyRecord.effects,
    TerminalReleases.latches]

theorem completePhysical_first (h : st.records.lookup id = some [⟨name, false, false, latch, none, none, false⟩]) :
    st.completePhysical id latch poisoned =
      (none, st.putRecord id 0 ⟨name, true, false, latch, none, none, poisoned⟩) := by
  simp [completePhysical, h, takeReadyRecord, putRecord_single h]

theorem completePhysical_second
    (h : st.records.lookup id = some [⟨name, false, true, latch, some ⟨some latch, latch⟩, none, false⟩]) :
    st.completePhysical id latch poisoned =
      (some ⟨latch, ⟨some latch, latch⟩, none, poisoned⟩,
        { st.release id name latch with
          records := (st.records.insert id
            [⟨name, true, true, latch, some ⟨some latch, latch⟩, none, poisoned⟩]).erase id }) := by
  simp [completePhysical, h, takeReadyRecord, putRecord_single h, removeRecord_putRecord h]

end Single

end ReaperState

end Taskvisor.Registry.Reaper
