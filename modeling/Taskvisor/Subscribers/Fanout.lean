import Taskvisor.Subscribers.Scheduling

namespace Taskvisor.Subscribers.Fanout

open Lib Lane Scheduling

/-- One subscriber of the set: its definition and its lane. -/
structure Seat where
  lane : SubscriberLane
  world : Lane.World

/-- `SubscriberState`, with the fan-out that holds its lock and the stages of
`close`. -/
inductive Stage
  | pending
  | started
  | emitting (event : Event) (next : Nat) (closed : List String)
  | scheduling (event : Event) (seat : Nat) (closed : List String)
  | closing (next : Nat)
  | draining
  | aborting (next : Nat)
  | detaching
  | closed
deriving DecidableEq

/-- The set with all its lanes, the ready queue that the shared lanes have in
common, and the lane their one worker is at. -/
structure World where
  stage : Stage
  seats : List Seat
  ready : List Nat
  sharedClosed : Bool
  serving : Option Nat
  reported : List String

inductive Action
  | start
  | emit (event : Event)
  | enqueue
  | schedule
  | release
  | close
  | beginClose
  | drained
  | expire
  | abort
  | detach
  | discard
  | take
  | work (seat : Nat) (action : Lane.Action)
deriving DecidableEq

/-- The steps a callback worker makes in a lane. -/
def isWork : Lane.Action → Bool
  | .enter => true
  | .select => true
  | .callback _ => true
  | .settle => true
  | .finishRunning => true
  | .tail => true
  | .requeue => true
  | .unwind => true
  | .failRunning => true
  | _ => false

namespace Seat

def closeSet (seat : Seat) : Seat := { seat with world := { seat.world with started := false } }

def detach (seat : Seat) : Seat := { seat with world := { seat.world with sharedClosed := true, ready := 0 } }

end Seat

namespace Stage

/-- The set's lock is held by a fan-out. -/
def isLocked : Stage → Bool
  | .emitting .. => true
  | .scheduling .. => true
  | _ => false

/-- Where the fan-out goes once the lane at `seat` has taken its event. -/
def fed (event : Event) (seat : Nat) (closed : List String) : EnqueueResult → Stage
  | .queued => .emitting event (seat + 1) closed
  | .scheduleShared => .scheduling event seat closed
  | .closed name => .emitting event (seat + 1) (closed ++ [name])

end Stage

namespace World

def new (lanes : List SubscriberLane) : World where
  stage := .pending
  seats := lanes.map fun lane => ⟨lane, .new⟩
  ready := []
  sharedClosed := false
  serving := none
  reported := []

/-- A step of the lane at `i`. -/
def act (w : World) (i : Nat) (a : Lane.Action) : Option World :=
  match w.seats[i]? with
  | some seat => (seat.world.step seat.lane a).map fun world => { w with seats := w.seats.set i { seat with world } }
  | none => none

/-- `SharedQueue::schedule`. -/
def push (w : World) (i : Nat) : World := if w.sharedClosed then w else { w with ready := w.ready ++ [i] }

/-- The shared worker is free again once its lane's turn is over. -/
def leave (w : World) (i : Nat) : World :=
  if w.seats[i]?.any fun seat => seat.lane.execution = .shared && seat.world.turn = .away then { w with serving := none } else w

def work (w : World) (i : Nat) (a : Lane.Action) : Option World :=
  (w.act i a).map fun v => (if a = .requeue then v.push i else v).leave i

def step (w : World) : Action → Option World
  | .start =>
      match w.stage with
      | .pending => some { w with stage := .started }
      | stage => if stage.isLocked then none else some w
  | .emit event =>
      match w.stage with
      | .started => some { w with stage := .emitting event 0 [] }
      | stage => if stage.isLocked then none else some w
  | .enqueue =>
      match w.stage with
      | .emitting event i closed =>
          match w.seats[i]? with
          | some seat =>
              (w.act i (.enqueue event)).map fun v =>
                { v with stage := .fed event i closed (seat.world.state.enqueue seat.lane event).1 }
          | none => none
      | _ => none
  | .schedule =>
      match w.stage with
      | .scheduling event i closed =>
          (w.act i .scheduleShared).map fun v => { v.push i with stage := .emitting event (i + 1) closed }
      | _ => none
  | .release =>
      match w.stage with
      | .emitting _ i closed =>
          if i = w.seats.length then some { w with stage := .started, reported := w.reported ++ closed } else none
      | _ => none
  | .close =>
      match w.stage with
      | .started => some { w with stage := .closing 0, seats := w.seats.map Seat.closeSet }
      | .pending => some { w with stage := .closed, seats := w.seats.map Seat.closeSet }
      | stage => if stage.isLocked then none else some w
  | .beginClose =>
      match w.stage with
      | .closing i =>
          if i = w.seats.length then some { w with stage := .draining }
          else (w.act i .beginClose).map fun v => { v with stage := .closing (i + 1) }
      | _ => none
  | .drained =>
      match w.stage with
      | .draining => if w.seats.all fun seat => !seat.world.state.done then some { w with stage := .detaching } else none
      | _ => none
  | .expire =>
      match w.stage with
      | .draining => some { w with stage := .aborting 0 }
      | _ => none
  | .abort =>
      match w.stage with
      | .aborting i =>
          if i = w.seats.length then some { w with stage := .detaching }
          else (w.act i .abort).map fun v => { v with stage := .aborting (i + 1) }
      | _ => none
  | .detach =>
      match w.stage with
      | .detaching => some { w with stage := .closed, seats := w.seats.map Seat.detach, sharedClosed := true, ready := [] }
      | _ => none
  | .discard =>
      match w.stage with
      | .started => some { w with stage := .aborting 0, seats := w.seats.map Seat.closeSet }
      | .pending => some { w with stage := .closed, seats := w.seats.map Seat.closeSet }
      | _ => none
  | .take =>
      match w.serving, w.ready with
      | none, i :: ready => (w.act i .takeReady).map fun v => { v with ready, serving := some i }
      | _, _ => none
  | .work i a =>
      match w.seats[i]? with
      | some seat =>
          if isWork a && (seat.lane.execution = .dedicated || w.serving = some i) then w.work i a else none
      | none => none

end World

def machine (lanes : List SubscriberLane) : Machine World Action := ⟨.new lanes, World.step⟩

variable {lane : SubscriberLane} {w w' : World}

section LaneFrame

variable {v v' : Lane.World}

/-- What a worker's step leaves alone in its lane, and its push. -/
structure Worked (v v' : Lane.World) (a : Lane.Action) : Prop where
  started : v'.started = v.started
  begun : v'.begun = v.begun
  emitting : v'.emitting = v.emitting
  sharedClosed : v'.sharedClosed = v.sharedClosed
  offered : v'.offered = v.offered
  abort : v'.state.abort = v.state.abort
  closing : v'.state.closing = v.state.closing
  done : v.state.done = false → v'.state.done = false
  ready : v'.ready = if a = .requeue ∧ v.sharedClosed = false then v.ready + 1 else v.ready

theorem worked {a : Lane.Action} (ha : isWork a = true) (hs : v.step lane a = some v') : Worked v v' a := by
  cases a <;> simp only [isWork, Bool.false_eq_true] at ha <;>
    constructor <;>
    grind [Lane.World.step, Lane.World.enterDedicated, Lane.World.enterShared, SubscriberLaneState.next,
      Lane.World.callback, Lane.World.again, Lane.World.settleDedicated, Lane.World.settleShared, Lane.World.tail,
      Lane.World.store, Lane.World.finishRunning, Lane.World.failRunning, Lane.World.complete, Lane.World.submit,
      Lane.World.leave, Lane.World.takeOwnership, Lane.World.schedule, SubscriberLaneState.finish,
      SubscriberLaneState.discard]

/-- What the set's own steps at a lane leave alone. -/
structure Tended (v v' : Lane.World) : Prop where
  turn : v'.turn = v.turn
  sharedClosed : v'.sharedClosed = v.sharedClosed
  callbacks : v'.callbacks = v.callbacks

theorem tended_enqueue {event : Event} (hs : v.step lane (.enqueue event) = some v') :
    Tended v v' ∧ v'.started = v.started ∧ v'.begun = v.begun ∧ v'.state.abort = v.state.abort ∧ v'.ready = v.ready ∧
      v'.emitting = decide ((v.state.enqueue lane event).1 = .scheduleShared) ∧
      v'.offered = v.offered ++ [(event, v.verdict lane)] ∧ v'.state.closing = v.state.closing := by
  simp only [Lane.World.step] at hs
  split at hs
  · cases hs
    refine ⟨⟨rfl, rfl, rfl⟩, rfl, rfl, ?_, rfl, rfl, rfl, ?_⟩ <;>
      simp only [Lane.World.enqueue, SubscriberLaneState.enqueue] <;> grind
  · cases hs

theorem tended_schedule (hs : v.step lane .scheduleShared = some v') :
    Tended v v' ∧ v'.started = v.started ∧ v'.begun = v.begun ∧ v'.state = v.state ∧ v'.emitting = false ∧
      v'.offered = v.offered ∧ v'.ready = if v.sharedClosed then v.ready else v.ready + 1 := by
  simp only [Lane.World.step, Lane.World.schedule] at hs
  split at hs
  · cases hs
    split <;> exact ⟨⟨rfl, rfl, rfl⟩, rfl, rfl, rfl, rfl, rfl, rfl⟩
  · cases hs

theorem tended_beginClose (hs : v.step lane .beginClose = some v') :
    Tended v v' ∧ v'.started = v.started ∧ v'.begun = true ∧ v'.state.abort = v.state.abort ∧ v'.emitting = v.emitting ∧
      v'.offered = v.offered ∧ v'.ready = v.ready ∧ v'.state.closing = true := by
  simp only [Lane.World.step] at hs
  split at hs
  · cases hs
    simp only [Lane.World.beginClose, Lane.World.complete, Lane.World.takeOwnership, Lane.World.submit,
      SubscriberLaneState.finish]
    split
    · split <;> exact ⟨⟨rfl, rfl, rfl⟩, rfl, rfl, rfl, rfl, rfl, rfl, rfl⟩
    · exact ⟨⟨rfl, rfl, rfl⟩, rfl, rfl, rfl, rfl, rfl, rfl, rfl⟩
  · cases hs

theorem tended_abort (hs : v.step lane .abort = some v') :
    Tended v v' ∧ v'.started = v.started ∧ v'.begun = v.begun ∧ v'.state.abort = true ∧ v'.emitting = v.emitting ∧
      v'.offered = v.offered ∧ v'.ready = v.ready ∧ v'.state.closing = true := by
  simp only [Lane.World.step] at hs
  split at hs
  · cases hs
    refine ⟨⟨abort_turn v, ?_, ?_⟩, ?_, ?_, ?_, ?_, ?_, ?_, ?_⟩ <;>
      grind [Lane.World.abort, Lane.World.complete, Lane.World.takeOwnership, Lane.World.submit,
        SubscriberLaneState.finish, SubscriberLaneState.discard]
  · cases hs

theorem taken (hs : v.step lane .takeReady = some v') :
    lane.execution = .shared ∧ v.turn = .away ∧ ∃ n, v.ready = n + 1 ∧ v' = { v with ready := n, turn := .entering } := by
  simp only [Lane.World.step] at hs
  split at hs
  · next n hex ht hn =>
    cases hs
    exact ⟨hex, ht, n, hn, rfl⟩
  · cases hs

theorem closing_of_begun (h : (Lane.machine lane).Reachable v) (hb : v.begun = true) : v.state.closing = true := by
  refine h.invariant (P := fun v => v.begun = true → v.state.closing = true) nofun (fun v a v' _ ih hs hb => ?_) hb
  replace hs : v.step lane a = some v' := hs
  by_cases hw : isWork a = true
  · have hworked := worked hw hs
    exact hworked.closing.trans (ih (hworked.begun.symm.trans hb))
  · cases a with
    | enqueue event =>
        obtain ⟨-, -, hbegun, -, -, -, -, hclosing⟩ := tended_enqueue hs
        exact hclosing.trans (ih (hbegun.symm.trans hb))
    | scheduleShared =>
        obtain ⟨-, -, hbegun, hstate, -⟩ := tended_schedule hs
        rw [hstate]
        exact ih (hbegun.symm.trans hb)
    | beginClose => exact (tended_beginClose hs).2.2.2.2.2.2.2
    | abort => exact (tended_abort hs).2.2.2.2.2.2.2
    | takeReady =>
        obtain ⟨-, -, n, -, rfl⟩ := taken hs
        exact ih hb
    | closeSet =>
        simp only [Lane.World.step] at hs
        split at hs <;> cases hs
        exact ih hb
    | detach =>
        simp only [Lane.World.step] at hs
        split at hs <;> cases hs
        exact ih hb
    | _ => exact absurd rfl hw

theorem not_exited (h : (Lane.machine lane).Reachable v) (hex : lane.execution = .shared) : v.turn ≠ .exited := by
  refine h.invariant (P := fun v => v.turn ≠ .exited) (by rintro ⟨⟩) fun v a v' _ ht hs => ?_
  replace hs : v.step lane a = some v' := hs
  cases a with
  | enqueue event => rw [(tended_enqueue hs).1.turn]; exact ht
  | scheduleShared => rw [(tended_schedule hs).1.turn]; exact ht
  | beginClose => rw [(tended_beginClose hs).1.turn]; exact ht
  | abort => rw [(tended_abort hs).1.turn]; exact ht
  | takeReady =>
      obtain ⟨-, -, n, -, rfl⟩ := taken hs
      rintro ⟨⟩
  | _ =>
      grind [Lane.World.step, Lane.World.enterShared, Lane.World.callback, Lane.World.again, Lane.World.settleShared,
        Lane.World.tail, Lane.World.store, Lane.World.finishRunning, Lane.World.failRunning, Lane.World.complete,
        Lane.World.submit, Lane.World.leave, Lane.World.takeOwnership, Lane.World.schedule]

/-- The worker at a lane always has a step there. -/
theorem exists_work (h : (Lane.machine lane).Reachable v) (hex : lane.execution = .shared) (ht : v.turn ≠ .away) :
    ∃ a v', isWork a = true ∧ v.step lane a = some v' := by
  cases hturn : v.turn with
  | away => exact absurd hturn ht
  | entering => exact ⟨.enter, _, rfl, by simp [Lane.World.step, hex, hturn]; rfl⟩
  | select used => exact ⟨.select, _, rfl, by simp only [Lane.World.step, hturn]; rfl⟩
  | act next used =>
      cases next with
      | event event => exact ⟨.callback true, _, rfl, by simp only [Lane.World.step, hturn]; rfl⟩
      | overflow dropped => exact ⟨.callback true, _, rfl, by simp only [Lane.World.step, hturn]; rfl⟩
      | finish => exact ⟨.finishRunning, _, rfl, by simp only [Lane.World.step, hturn]; rfl⟩
      | idle => exact ⟨.settle, _, rfl, by simp only [Lane.World.step, hturn, hex]; rfl⟩
  | tail => exact ⟨.tail, _, rfl, by simp only [Lane.World.step, hturn]; rfl⟩
  | finishing => exact ⟨.finishRunning, _, rfl, by simp only [Lane.World.step, hturn]; rfl⟩
  | requeue => exact ⟨.requeue, _, rfl, by simp only [Lane.World.step, hturn]; rfl⟩
  | failing => exact ⟨.failRunning, _, rfl, by simp only [Lane.World.step, hturn]; rfl⟩
  | exited => exact absurd hturn (not_exited h hex)

end LaneFrame

/-- The lane at `i` has come to `world`. -/
def World.place (w : World) (i : Nat) (seat : Seat) (world : Lane.World) : World :=
  { w with seats := w.seats.set i { seat with world } }

/-- Everything a step of the set can do. -/
inductive Stepped (w : World) : Action → World → Prop
  | start (h : w.stage = .pending) : Stepped w .start { w with stage := .started }
  | restart (h : w.stage ≠ .pending) (hlock : w.stage.isLocked = false) : Stepped w .start w
  | emit (event : Event) (h : w.stage = .started) : Stepped w (.emit event) { w with stage := .emitting event 0 [] }
  | ignore (event : Event) (h : w.stage ≠ .started) (hlock : w.stage.isLocked = false) : Stepped w (.emit event) w
  | enqueue {event i closed seat world} (h : w.stage = .emitting event i closed) (hi : w.seats[i]? = some seat)
      (hl : seat.world.step seat.lane (.enqueue event) = some world) :
      Stepped w .enqueue
        { w.place i seat world with stage := .fed event i closed (seat.world.state.enqueue seat.lane event).1 }
  | schedule {event i closed seat world} (h : w.stage = .scheduling event i closed) (hi : w.seats[i]? = some seat)
      (hl : seat.world.step seat.lane .scheduleShared = some world) :
      Stepped w .schedule { (w.place i seat world).push i with stage := .emitting event (i + 1) closed }
  | release {event closed} (h : w.stage = .emitting event w.seats.length closed) :
      Stepped w .release { w with stage := .started, reported := w.reported ++ closed }
  | close (h : w.stage = .started) :
      Stepped w .close { w with stage := .closing 0, seats := w.seats.map Seat.closeSet }
  | dismiss {a} (ha : a = .close ∨ a = .discard) (h : w.stage = .pending) :
      Stepped w a { w with stage := .closed, seats := w.seats.map Seat.closeSet }
  | reclose (h : w.stage ≠ .started ∧ w.stage ≠ .pending) (hlock : w.stage.isLocked = false) : Stepped w .close w
  | beginClose {i seat world} (h : w.stage = .closing i) (hi : w.seats[i]? = some seat)
      (hl : seat.world.step seat.lane .beginClose = some world) :
      Stepped w .beginClose { w.place i seat world with stage := .closing (i + 1) }
  | begun (h : w.stage = .closing w.seats.length) : Stepped w .beginClose { w with stage := .draining }
  | drained (h : w.stage = .draining) (hdone : ∀ seat ∈ w.seats, seat.world.state.done = false) :
      Stepped w .drained { w with stage := .detaching }
  | expire (h : w.stage = .draining) : Stepped w .expire { w with stage := .aborting 0 }
  | abort {i seat world} (h : w.stage = .aborting i) (hi : w.seats[i]? = some seat)
      (hl : seat.world.step seat.lane .abort = some world) :
      Stepped w .abort { w.place i seat world with stage := .aborting (i + 1) }
  | aborted (h : w.stage = .aborting w.seats.length) : Stepped w .abort { w with stage := .detaching }
  | detach (h : w.stage = .detaching) :
      Stepped w .detach { w with stage := .closed, seats := w.seats.map Seat.detach, sharedClosed := true, ready := [] }
  | discard (h : w.stage = .started) :
      Stepped w .discard { w with stage := .aborting 0, seats := w.seats.map Seat.closeSet }
  | take {i ready seat world} (h : w.ready = i :: ready) (hserving : w.serving = none) (hi : w.seats[i]? = some seat)
      (hl : seat.world.step seat.lane .takeReady = some world) :
      Stepped w .take { w.place i seat world with ready, serving := some i }
  | work {i a seat world} (ha : isWork a = true) (hi : w.seats[i]? = some seat)
      (hat : seat.lane.execution = .dedicated ∨ w.serving = some i) (hl : seat.world.step seat.lane a = some world) :
      Stepped w (.work i a)
        { w.place i seat world with
          ready := if a = .requeue ∧ w.sharedClosed = false then w.ready ++ [i] else w.ready
          serving := if seat.lane.execution = .shared ∧ world.turn = .away then none else w.serving }

theorem act_cases {i : Nat} {a : Lane.Action} (h : w.act i a = some w') :
    ∃ seat world, w.seats[i]? = some seat ∧ seat.world.step seat.lane a = some world ∧ w' = w.place i seat world := by
  unfold World.act at h
  split at h
  · next seat hi =>
    obtain ⟨world, hl, rfl⟩ := Option.map_eq_some_iff.mp h
    exact ⟨seat, world, hi, hl, rfl⟩
  · cases h

theorem place_get {i : Nat} {seat : Seat} {world : Lane.World} (hi : w.seats[i]? = some seat) :
    (w.place i seat world).seats[i]? = some { seat with world } := by
  obtain ⟨hlt, -⟩ := List.getElem?_eq_some_iff.mp hi
  exact List.getElem?_set_self hlt

theorem place_get_ne {i j : Nat} (seat : Seat) (world : Lane.World) (hij : i ≠ j) :
    (w.place i seat world).seats[j]? = w.seats[j]? := List.getElem?_set_ne hij

theorem leave_place {i : Nat} {seat : Seat} {world : Lane.World} {a : Lane.Action} (hi : w.seats[i]? = some seat) :
    World.leave (if a = .requeue then (w.place i seat world).push i else w.place i seat world) i =
      { w.place i seat world with
        ready := if a = .requeue ∧ w.sharedClosed = false then w.ready ++ [i] else w.ready
        serving := if seat.lane.execution = .shared ∧ world.turn = .away then none else w.serving } := by
  have hpushed : (if a = .requeue then (w.place i seat world).push i else w.place i seat world) =
      { w.place i seat world with
        ready := if a = .requeue ∧ w.sharedClosed = false then w.ready ++ [i] else w.ready } := by
    cases hc : w.sharedClosed <;> by_cases ha : a = .requeue <;> simp [World.push, World.place, hc, ha]
  rw [hpushed]
  simp only [World.leave, place_get hi, Option.any_some, Bool.and_eq_true, decide_eq_true_eq]
  split <;> rfl

theorem step_cases {a : Action} (hs : w.step a = some w') : Stepped w a w' := by
  have bind : ∀ {i b f}, (w.act i b).map f = some w' → ∃ seat world, w.seats[i]? = some seat ∧
      seat.world.step seat.lane b = some world ∧ w' = f (w.place i seat world) := by
    intro i b f h
    obtain ⟨v, hv, rfl⟩ := Option.map_eq_some_iff.mp h
    obtain ⟨seat, world, hi, hl, rfl⟩ := act_cases hv
    exact ⟨seat, world, hi, hl, rfl⟩
  cases a with
  | start =>
      simp only [World.step] at hs
      split at hs
      · next h => cases hs; exact .start h
      · next h =>
        split at hs
        · cases hs
        · next hlock => cases hs; exact .restart h (by simpa using hlock)
  | emit event =>
      simp only [World.step] at hs
      split at hs
      · next h => cases hs; exact .emit event h
      · next h =>
        split at hs
        · cases hs
        · next hlock => cases hs; exact .ignore event h (by simpa using hlock)
  | enqueue =>
      simp only [World.step] at hs
      split at hs
      · next event i closed h =>
        split at hs
        · next seat hi =>
          obtain ⟨seat', world, hi', hl, rfl⟩ := bind hs
          obtain rfl := Option.some.inj (hi.symm.trans hi')
          exact .enqueue h hi hl
        · cases hs
      · cases hs
  | schedule =>
      simp only [World.step] at hs
      split at hs
      · next event i closed h =>
        obtain ⟨seat, world, hi, hl, rfl⟩ := bind hs
        exact .schedule h hi hl
      · cases hs
  | release =>
      simp only [World.step] at hs
      split at hs
      · next event i closed h =>
        split at hs
        · next hlen => cases hs; exact .release (hlen ▸ h)
        · cases hs
      · cases hs
  | close =>
      simp only [World.step] at hs
      split at hs
      · next h => cases hs; exact .close h
      · next h => cases hs; exact .dismiss (.inl rfl) h
      · next hstarted hpending =>
        split at hs
        · cases hs
        · next hlock => cases hs; exact .reclose ⟨hstarted, hpending⟩ (by simpa using hlock)
  | beginClose =>
      simp only [World.step] at hs
      split at hs
      · next i h =>
        split at hs
        · next hlen => cases hs; exact .begun (hlen ▸ h)
        · obtain ⟨seat, world, hi, hl, rfl⟩ := bind hs
          exact .beginClose h hi hl
      · cases hs
  | drained =>
      simp only [World.step] at hs
      split at hs
      · next h =>
        split at hs
        · next hdone => cases hs; exact .drained h (by simpa using hdone)
        · cases hs
      · cases hs
  | expire =>
      simp only [World.step] at hs
      split at hs
      · next h => cases hs; exact .expire h
      · cases hs
  | abort =>
      simp only [World.step] at hs
      split at hs
      · next i h =>
        split at hs
        · next hlen => cases hs; exact .aborted (hlen ▸ h)
        · obtain ⟨seat, world, hi, hl, rfl⟩ := bind hs
          exact .abort h hi hl
      · cases hs
  | detach =>
      simp only [World.step] at hs
      split at hs
      · next h => cases hs; exact .detach h
      · cases hs
  | discard =>
      simp only [World.step] at hs
      split at hs
      · next h => cases hs; exact .discard h
      · next h => cases hs; exact .dismiss (.inr rfl) h
      · cases hs
  | take =>
      simp only [World.step] at hs
      split at hs
      · next i ready hserving h =>
        obtain ⟨seat, world, hi, hl, rfl⟩ := bind hs
        exact .take h hserving hi hl
      · cases hs
  | work i a =>
      simp only [World.step] at hs
      split at hs
      · next seat hi =>
        split at hs
        · next hok =>
          simp only [Bool.and_eq_true, Bool.or_eq_true, decide_eq_true_eq] at hok
          obtain ⟨seat', world, hi', hl, rfl⟩ := bind hs
          obtain rfl := Option.some.inj (hi.symm.trans hi')
          rw [leave_place hi]
          exact .work hok.1 hi hok.2 hl
        · cases hs
      · cases hs

end Taskvisor.Subscribers.Fanout
