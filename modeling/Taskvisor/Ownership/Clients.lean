import Taskvisor.Lib.Machine
import Taskvisor.Ownership.Capacity
import Taskvisor.Lib.Table

namespace Taskvisor.Ownership.Clients

open Lib Capacity

/-- A waiting future. `observed` is the status read by the current turn of
its loop; the future can be dropped only while it is parked. -/
structure CapacityRequest where
  active : Bool
  observed : Option UInt8

/-- The broker with every live request and permit of every thread. -/
structure World where
  broker : CapacityBroker
  requests : Table CapacitySignal CapacityRequest
  permits : Table Nat Nat
  nextPermit : Nat

inductive Action
  | acquireOne
  | tryAcquire (units : Nat)
  | load (signal : CapacitySignal)
  | observe (signal : CapacitySignal)
  | dropRequest (signal : CapacitySignal)
  | splitOne (permit : Nat)
  | dropPermit (permit : Nat)
  | retirePermit (permit : Nat)
  | closeWithoutRelease (permit : Nat)
  | close

namespace World

def new (limit : Option NonZeroUsize) : World := ⟨.new limit, ∅, ∅, 0⟩

def setBroker (w : World) (b : CapacityBroker) : World := { w with broker := b }

def addPermit (w : World) (units : Nat) : World :=
  { w with permits := w.permits.insert w.nextPermit units, nextPermit := w.nextPermit + 1 }

/-- `Drop for CapacityRequest`. -/
def drop (w : World) (signal : CapacitySignal) (r : CapacityRequest) : World :=
  { w with broker := if r.active then w.broker.cancel signal else w.broker
           requests := w.requests.erase signal }

def acquireOne (w : World) : World :=
  match w.broker.startAcquireOne with
  | (none, b) => w.setBroker b
  | (some (.ready units), b) => (w.setBroker b).addPermit units
  | (some (.waiting signal), b) =>
    { w.setBroker b with requests := w.requests.insert signal ⟨true, none⟩ }

def tryAcquire (w : World) (units : Nat) : World :=
  match w.broker.tryAcquire units with
  | (none, b) => w.setBroker b
  | (some units, b) => (w.setBroker b).addPermit units

/-- The load of `CapacityRequest::wait`. A waiting status parks the future
again and leaves nothing observed. -/
def load (w : World) (signal : CapacitySignal) (r : CapacityRequest) : World :=
  if w.broker.status signal = capacityWaiting then w
  else { w with requests := w.requests.insert signal { r with observed := some (w.broker.status signal) } }

/-- The rest of that turn: take the grant, or report closure. The request is
disarmed before it is dropped. -/
def observe (w : World) (signal : CapacitySignal) (r : CapacityRequest) (status : UInt8) : World :=
  if status = capacityGranted then
    ((w.setBroker (w.broker.setStatus signal capacityTaken)).drop signal { r with active := false }).addPermit 1
  else if status = capacityClosed then w.drop signal { r with active := false }
  else (w.setBroker (w.broker.fault .invalidWait).close).drop signal { r with active := false }

def splitOne (w : World) (permit units : Nat) : World :=
  if units = 0 then w else { w with permits := w.permits.insert permit (units - 1) }.addPermit 1

def takePermit (w : World) (permit : Nat) (b : CapacityBroker) : World :=
  { w with permits := w.permits.erase permit, broker := b }

def step (w : World) : Action → Option World
  | .acquireOne => some w.acquireOne
  | .tryAcquire units => some (w.tryAcquire units)
  | .load signal => do
    let r ← w.requests.lookup signal
    if r.observed = none then some (w.load signal r) else none
  | .observe signal => do
    let r ← w.requests.lookup signal
    let status ← r.observed
    some (w.observe signal r status)
  | .dropRequest signal => do
    let r ← w.requests.lookup signal
    if r.observed = none then some (w.drop signal r) else none
  | .splitOne permit => do
    let units ← w.permits.lookup permit
    some (w.splitOne permit units)
  | .dropPermit permit => do
    let units ← w.permits.lookup permit
    some (w.takePermit permit (w.broker.release units))
  | .retirePermit permit => do
    let units ← w.permits.lookup permit
    some (w.takePermit permit (w.broker.retire units))
  | .closeWithoutRelease permit => do
    let _ ← w.permits.lookup permit
    some (w.takePermit permit w.broker.close)
  | .close => some (w.setBroker w.broker.close)

end World

def machine (limit : Option NonZeroUsize) : Machine World Action := ⟨.new limit, World.step⟩

end Taskvisor.Ownership.Clients
