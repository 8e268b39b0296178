import Taskvisor.Lib.Usize
import Mathlib.Logic.Function.Basic

namespace Taskvisor.Ownership.Capacity

open Lib

def capacityWaiting : UInt8 := 0
def capacityGranted : UInt8 := 1
def capacityClosed : UInt8 := 2
def capacityTaken : UInt8 := 3
def capacityCanceled : UInt8 := 4

/-- The address of one shared signal; its status byte is kept by the broker
record below because the broker writes it under its own lock. -/
abbrev CapacitySignal := Nat

structure LimitedCapacityState where
  available : Nat
  effectiveCapacity : Nat
  waiters : List CapacitySignal
deriving DecidableEq

inductive CapacityMode
  | limited (state : LimitedCapacityState)
  | unlimited
deriving DecidableEq

structure CapacityState where
  closed : Bool
  mode : CapacityMode
deriving DecidableEq

structure CapacityRetirement where
  configuredCapacity : Nat
  effectiveCapacity : Nat
  retiredUnits : Nat
deriving DecidableEq

/-- The branches that the accounting is meant never to take. -/
inductive Fault
  | returnOverflow
  | returnExceeds
  | retireUnderflow
  | retireAvailable
  | unlimitedWaiter
  | invalidWait
  | invalidCancel
  | subtraction
deriving DecidableEq

/-- The broker with its mutex released. `faults` is a ghost record of the
defensive branches taken; nothing reads it. -/
structure CapacityBroker where
  limit : Option NonZeroUsize
  state : CapacityState
  status : CapacitySignal → UInt8
  nextSignal : CapacitySignal
  retirements : List CapacityRetirement
  faults : List Fault

def CapacityBroker.new (limit : Option NonZeroUsize) : CapacityBroker where
  limit := limit
  state :=
    { closed := false
      mode := match limit with
        | some limit => .limited ⟨limit.get, limit.get, []⟩
        | none => .unlimited }
  status := fun _ => capacityWaiting
  nextSignal := 0
  retirements := []
  faults := []

namespace CapacityBroker

def fault (b : CapacityBroker) (f : Fault) : CapacityBroker := { b with faults := f :: b.faults }

def setMode (b : CapacityBroker) (m : CapacityMode) : CapacityBroker :=
  { b with state := { b.state with mode := m } }

def setClosed (b : CapacityBroker) : CapacityBroker :=
  { b with state := { b.state with closed := true } }

def setStatus (b : CapacityBroker) (signal : CapacitySignal) (value : UInt8) : CapacityBroker :=
  { b with status := Function.update b.status signal value }

/-- `available -= units`, recording an underflow instead of wrapping. -/
def takeAvailable (b : CapacityBroker) (l : LimitedCapacityState) (units : Nat) : CapacityBroker :=
  match checkedSub l.available units with
  | some available => b.setMode (.limited { l with available })
  | none => b.fault .subtraction

inductive CapacityStart
  | ready (units : Nat)
  | waiting (signal : CapacitySignal)
deriving DecidableEq

/-- The units of the permit, or `none` for the capacity error. -/
def tryAcquire (b : CapacityBroker) (units : Nat) : Option Nat × CapacityBroker :=
  if units = 0 ∨ b.limit.any (fun limit => decide (limit.get < units)) then (none, b)
  else if b.state.closed then (none, b)
  else match b.state.mode with
    | .unlimited => (some units, b)
    | .limited l =>
      if l.effectiveCapacity < units ∨ l.waiters ≠ [] ∨ l.available < units then (none, b)
      else (some units, b.takeAvailable l units)

def startAcquireOne (b : CapacityBroker) : Option CapacityStart × CapacityBroker :=
  if b.state.closed then (none, b)
  else match b.state.mode with
    | .unlimited => (some (.ready 1), b)
    | .limited l =>
      if l.effectiveCapacity = 0 then (none, b)
      else if l.waiters = [] ∧ 0 < l.available then (some (.ready 1), b.takeAvailable l 1)
      else if b.limit.any (fun limit => decide (limit.get ≤ l.waiters.length)) then (none, b)
      else
        let signal := b.nextSignal
        let b := { b with nextSignal := signal + 1 }
        (some (.waiting signal),
          (b.setStatus signal capacityWaiting).setMode (.limited { l with waiters := l.waiters ++ [signal] }))

/-- `return_capacity_locked`; `false` closes the broker. -/
def returnCapacityLocked (b : CapacityBroker) (units : Nat) : Bool × CapacityBroker :=
  match b.state.mode with
  | .unlimited => (true, b)
  | .limited l =>
    match checkedAdd l.available units with
    | none => (false, (b.fault .returnOverflow).setClosed)
    | some available =>
      if l.effectiveCapacity < available then (false, (b.fault .returnExceeds).setClosed)
      else (true, b.setMode (.limited { l with available }))

def markAll (status : CapacitySignal → UInt8) (value : UInt8) (signals : List CapacitySignal) :
    CapacitySignal → UInt8 :=
  fun signal => if signal ∈ signals then value else status signal

def closeWaitersLocked (b : CapacityBroker) : CapacityBroker :=
  match b.state.mode with
  | .unlimited => b
  | .limited l =>
    { b with status := markAll b.status capacityClosed l.waiters }.setMode (.limited { l with waiters := [] })

/-- `dispatch_limited`: each round takes one unit and grants the front. -/
def dispatchLimited (b : CapacityBroker) : Nat → List CapacitySignal → CapacityBroker × Nat × List CapacitySignal
  | 0, waiters => (b, 0, waiters)
  | available, [] => (b, available, [])
  | available + 1, signal :: waiters => dispatchLimited (b.setStatus signal capacityGranted) available waiters

def dispatchLocked (b : CapacityBroker) : CapacityBroker :=
  if b.state.closed then b
  else match b.state.mode with
    | .unlimited => b
    | .limited l =>
      let (b, available, waiters) := b.dispatchLimited l.available l.waiters
      b.setMode (.limited { l with available, waiters })

def release (b : CapacityBroker) (units : Nat) : CapacityBroker :=
  if units = 0 then b
  else match b.returnCapacityLocked units with
    | (true, b) => b.dispatchLocked
    | (false, b) => b.closeWaitersLocked

def retire (b : CapacityBroker) (units : Nat) : CapacityBroker :=
  if units = 0 then b
  else if b.state.closed then b
  else match b.state.mode with
    | .unlimited => b
    | .limited l =>
      match checkedSub l.effectiveCapacity units with
      | none => (b.fault .retireUnderflow).setClosed.closeWaitersLocked
      | some effectiveCapacity =>
        if effectiveCapacity < l.available then (b.fault .retireAvailable).setClosed.closeWaitersLocked
        else
          let b := b.setMode (.limited { l with effectiveCapacity })
          let b := { b with retirements :=
            ⟨(b.limit.map NonZeroUsize.get).getD 0, effectiveCapacity, units⟩ :: b.retirements }
          if effectiveCapacity = 0 then b.setClosed.closeWaitersLocked else b.dispatchLocked

def close (b : CapacityBroker) : CapacityBroker :=
  if b.state.closed then b else b.setClosed.closeWaitersLocked

def cancelAndDispatch (b : CapacityBroker) (signal : CapacitySignal) : CapacityBroker :=
  (b.setStatus signal capacityCanceled).dispatchLocked

def cancel (b : CapacityBroker) (signal : CapacitySignal) : CapacityBroker :=
  let status := b.status signal
  if status = capacityWaiting then
    match b.state.mode with
    | .unlimited => ((b.fault .unlimitedWaiter).setClosed).setStatus signal capacityCanceled
    | .limited l =>
      (b.setMode (.limited { l with waiters := l.waiters.erase signal })).cancelAndDispatch signal
  else if status = capacityGranted then
    match b.returnCapacityLocked 1 with
    | (true, b) => b.cancelAndDispatch signal
    | (false, b) => (b.setStatus signal capacityCanceled).closeWaitersLocked
  else if status = capacityClosed then b.cancelAndDispatch signal
  else if status = capacityTaken ∨ status = capacityCanceled then b
  else (((b.fault .invalidCancel).setClosed).setStatus signal capacityCanceled).closeWaitersLocked

section Frame

variable (b : CapacityBroker) (signal : CapacitySignal) (units : Nat)

@[simp] theorem fault_retirements (f : Fault) : (b.fault f).retirements = b.retirements := rfl

@[simp] theorem setMode_retirements (m : CapacityMode) : (b.setMode m).retirements = b.retirements := rfl

@[simp] theorem setClosed_retirements : b.setClosed.retirements = b.retirements := rfl

@[simp] theorem setStatus_retirements (value : UInt8) : (b.setStatus signal value).retirements = b.retirements := rfl

@[simp] theorem takeAvailable_retirements (l : LimitedCapacityState) :
    (b.takeAvailable l units).retirements = b.retirements := by
  rw [takeAvailable]
  split <;> simp

@[simp] theorem closeWaitersLocked_retirements : b.closeWaitersLocked.retirements = b.retirements := by
  rw [closeWaitersLocked]
  split <;> simp

@[simp] theorem dispatchLimited_retirements (available : Nat) (waiters : List CapacitySignal) :
    (b.dispatchLimited available waiters).1.retirements = b.retirements := by
  fun_induction dispatchLimited b available waiters with
  | case1 => rfl
  | case2 => rfl
  | case3 b available signal waiters ih => simpa using ih

@[simp] theorem dispatchLocked_retirements : b.dispatchLocked.retirements = b.retirements := by
  rw [dispatchLocked]
  split
  · rfl
  · split <;> simp

@[simp] theorem returnCapacityLocked_retirements : (b.returnCapacityLocked units).2.retirements = b.retirements := by
  rw [returnCapacityLocked]
  split
  · rfl
  · split
    · simp
    · split <;> simp

@[simp] theorem release_retirements : (b.release units).retirements = b.retirements := by
  have hret := b.returnCapacityLocked_retirements units
  rw [release]
  split
  · rfl
  · split <;> simp_all

@[simp] theorem close_retirements : b.close.retirements = b.retirements := by
  rw [close]
  split <;> simp

@[simp] theorem cancel_retirements : (b.cancel signal).retirements = b.retirements := by
  have hret := b.returnCapacityLocked_retirements 1
  simp only [cancel, cancelAndDispatch]
  split_ifs
  · split <;> simp
  · split <;> simp_all
  all_goals simp

@[simp] theorem tryAcquire_retirements : (b.tryAcquire units).2.retirements = b.retirements := by
  rw [tryAcquire]
  split_ifs
  · rfl
  · rfl
  · split
    · rfl
    · split <;> simp

@[simp] theorem startAcquireOne_retirements : b.startAcquireOne.2.retirements = b.retirements := by
  rw [startAcquireOne]
  split_ifs
  · rfl
  · split
    · rfl
    · split_ifs <;> simp

end Frame

end CapacityBroker

end Taskvisor.Ownership.Capacity
