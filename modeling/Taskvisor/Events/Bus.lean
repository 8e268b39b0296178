import Taskvisor.Lib.Machine
import Taskvisor.Lib.Table
import Taskvisor.Lib.Usize

namespace Taskvisor.Events.Bus

open Lib

variable {α : Type}

structure RingState (α : Type) where
  events : List α
  dropped : Nat
  closed : Bool

inductive BusMessage (α : Type)
  | event (event : α)
  | lagged (dropped : Nat) (event : α)
deriving DecidableEq

namespace BusMessage

def payload : BusMessage α → α
  | .event e => e
  | .lagged _ e => e

def skipped : BusMessage α → Nat
  | .event _ => 0
  | .lagged dropped _ => dropped

end BusMessage

namespace RingState

def new : RingState α := ⟨[], 0, false⟩

/-- The displaced event, whether the ring was empty, and the ring after it. -/
def pushRetainingNewest (state : RingState α) (event : α) (capacity : Nat) : Option α × Bool × RingState α :=
  if state.events.length = capacity then
    (state.events.head?, state.events.isEmpty,
      { state with dropped := saturatingAdd state.dropped 1, events := state.events.tail ++ [event] })
  else (none, state.events.isEmpty, { state with events := state.events ++ [event] })

def tryMessage (state : RingState α) : Option (BusMessage α × RingState α) :=
  match state.events with
  | [] => none
  | event :: events =>
      some (if state.dropped = 0 then .event event else .lagged state.dropped event,
        { state with events, dropped := 0 })

def closeAndTakePending (state : RingState α) : List α × Nat × RingState α :=
  (state.events, state.dropped, { events := [], dropped := 0, closed := true })

end RingState

/-- What the relay hands to the subscriber set. -/
inductive Emission (α : Type)
  | event (event : α)
  | subscriberOverflow (subscriber reason : String) (dropped : Nat)
deriving DecidableEq

def lagged (dropped : Nat) : Emission α :=
  .subscriberOverflow "subscriber_listener" ("lagged(" ++ toString dropped ++ ")") dropped

def shutdownRelayDrainLimit : Nat := 1024

/-- The receiver's pending notification future: registered, notified by
`notify_one`, or completed by a stored permit. -/
inductive Waiter
  | absent
  | waiting
  | notified
  | done
deriving DecidableEq

/-- A call of `publish_lazy` that passed the fast path. -/
inductive Publication (α : Type)
  | push (event : α)
  | notify

/-- The relay task: one turn of its select loop, then the shutdown drain. -/
inductive Relay (α : Type)
  | unstarted
  | select
  | receiving
  | awaiting
  | parked
  | emit (message : BusMessage α)
  | report (dropped : Nat)
  | draining (left dropped : Nat)
  | drainEmit (left dropped : Nat) (message : BusMessage α)
  | closing (dropped : Nat)
  | reporting (dropped : Nat)
  | finished

/-- A received message beside the events that were displaced before it. -/
structure Receipt (α : Type) where
  gap : List α
  message : BusMessage α

/-- The bus and its relay. The fields from `accepted` on are ghosts: the
events the ring took, those displaced and not yet reported, the messages of the
loop and of the drain, what the close took out, and the publisher that last
found the ring empty. -/
structure World (α : Type) where
  ring : RingState α
  enabled : Bool
  permit : Bool
  waiter : Waiter
  cancelled : Bool
  publishers : Table Nat (Publication α)
  relay : Relay α
  emitted : List (Emission α)
  accepted : List α
  displaced : List α
  relayed : List (Receipt α)
  drained : List (Receipt α)
  rest : List α
  filler : Nat

inductive Action (α : Type)
  | enable
  | load (publisher : Nat) (event : α)
  | push (publisher : Nat)
  | notify (publisher : Nat)
  | cancel
  | start
  | poll
  | tryMessage
  | await
  | emit
  | drain
  | close
  | finish

namespace World

def new : World α :=
  ⟨.new, false, false, .absent, false, ∅, .unstarted, [], [], [], [], [], [], 0⟩

def enable (w : World α) : World α := { w with enabled := w.enabled || !w.ring.closed }

def publish (w : World α) (capacity publisher : Nat) (event : α) : World α :=
  if w.ring.closed then { w with publishers := w.publishers.erase publisher }
  else
    let (displaced, becameNonempty, ring) := w.ring.pushRetainingNewest event capacity
    { w with
      ring
      publishers := if becameNonempty then w.publishers.insert publisher .notify else w.publishers.erase publisher
      accepted := w.accepted ++ [event]
      displaced := w.displaced ++ displaced.toList
      filler := if becameNonempty then publisher else w.filler }

def notifyOne (w : World α) : World α :=
  match w.waiter with
  | .waiting => { w with waiter := .notified }
  | _ => { w with permit := true }

/-- A fresh notification future, enabled before the ring is looked at. -/
def listen (w : World α) : World α :=
  if w.permit then { w with permit := false, waiter := .done, relay := .receiving }
  else { w with waiter := .waiting, relay := .receiving }

/-- A notified future that is dropped passes its notification on. -/
def unlisten (w : World α) : World α :=
  match w.waiter with
  | .notified => { w with permit := true, waiter := .absent }
  | _ => { w with waiter := .absent }

def startDrain (w : World α) (capacity : Nat) : World α :=
  { w.unlisten with relay := .draining (min capacity shutdownRelayDrainLimit) 0 }

/-- The relay task is polled at the top of its loop or where it is parked.
Cancellation comes first. -/
def poll (w : World α) (capacity : Nat) : Option (World α) :=
  match w.relay with
  | .select => some (if w.cancelled then w.startDrain capacity else w.listen)
  | .parked =>
      if w.cancelled then some (w.startDrain capacity)
      else match w.waiter with
        | .notified => some w.listen
        | .done => some w.listen
        | _ => none
  | _ => none

def receive (w : World α) : World α :=
  match w.ring.tryMessage with
  | some (message, ring) =>
      { w.unlisten with
        ring, relay := .emit message, relayed := w.relayed ++ [⟨w.displaced, message⟩], displaced := [] }
  | none => { w with relay := .awaiting }

def await (w : World α) : World α :=
  match w.waiter with
  | .notified => w.listen
  | .done => w.listen
  | _ => { w with relay := .parked }

def send (w : World α) (emission : Emission α) (relay : Relay α) : World α :=
  { w with emitted := w.emitted ++ [emission], relay }

def emit (w : World α) : Option (World α) :=
  match w.relay with
  | .emit (.event event) => some (w.send (.event event) .select)
  | .emit (.lagged dropped event) => some (w.send (.event event) (.report dropped))
  | .report dropped => some (w.send (lagged dropped) .select)
  | .drainEmit left dropped message =>
      some (w.send (.event message.payload) (.draining left (match message with
        | .event _ => dropped
        | .lagged skipped _ => saturatingAdd dropped skipped)))
  | _ => none

def drain (w : World α) : Option (World α) :=
  match w.relay with
  | .draining 0 dropped => some { w with relay := .closing dropped }
  | .draining (left + 1) dropped =>
      match w.ring.tryMessage with
      | some (message, ring) =>
          some { w with
            ring, relay := .drainEmit left dropped message, drained := w.drained ++ [⟨w.displaced, message⟩]
            displaced := [] }
      | none => some { w with relay := .closing dropped }
  | _ => none

def close (w : World α) : Option (World α) :=
  match w.relay with
  | .closing dropped =>
      let (pending, skipped, ring) := w.ring.closeAndTakePending
      some { w with
        ring, enabled := false, rest := w.displaced ++ pending, displaced := []
        relay := .reporting (saturatingAdd (saturatingAdd dropped skipped) (min pending.length wordMax)) }
  | _ => none

def finish (w : World α) : Option (World α) :=
  match w.relay with
  | .reporting dropped => some (if dropped = 0 then { w with relay := .finished } else w.send (lagged dropped) .finished)
  | _ => none

def step (capacity : Nat) (w : World α) : Action α → Option (World α)
  | .enable => some w.enable
  | .load publisher event =>
      if w.enabled && (w.publishers.lookup publisher).isNone then
        some { w with publishers := w.publishers.insert publisher (.push event) }
      else none
  | .push publisher =>
      match w.publishers.lookup publisher with
      | some (.push event) => some (w.publish capacity publisher event)
      | _ => none
  | .notify publisher =>
      match w.publishers.lookup publisher with
      | some .notify => some { w.notifyOne with publishers := w.publishers.erase publisher }
      | _ => none
  | .cancel => some { w with cancelled := true }
  | .start =>
      match w.relay with
      | .unstarted => some { w.enable with relay := .select }
      | _ => none
  | .poll => w.poll capacity
  | .tryMessage =>
      match w.relay with
      | .receiving => some w.receive
      | _ => none
  | .await =>
      match w.relay with
      | .awaiting => some w.await
      | _ => none
  | .emit => w.emit
  | .drain => w.drain
  | .close => w.close
  | .finish => w.finish

end World

/-- `Bus::new` clamps the capacity to at least one slot. -/
def machine (α : Type) (capacity : Nat) : Machine (World α) (Action α) := ⟨World.new, World.step (max capacity 1)⟩

end Taskvisor.Events.Bus
