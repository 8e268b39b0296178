import Mathlib.Data.List.Induction
import Taskvisor.Events.Settlement
import Taskvisor.Subscribers.Delivery
import Taskvisor.Subscribers.Rotation

namespace Taskvisor.System.Pipeline

open Lib Events Events.Accounting Subscribers Subscribers.Account Subscribers.Delivery Subscribers.Rotation
open Subscribers.Lane (Event SubscriberLane)

variable {lanes : List SubscriberLane} {capacity : Nat}

/-- The event bus with its relay, and the subscriber set that the relay feeds. -/
structure World where
  bus : Bus.World Event
  set : Fanout.World

inductive Action
  | bus (action : Bus.Action Event)
  | set (action : Fanout.Action)

/-- What a lane gets: an overflow event is one of the library's diagnostics. -/
def toLane : Bus.Emission Event → Event
  | .event event => event
  | .subscriberOverflow _ _ dropped => ⟨dropped, true⟩

def isIdle : Bus.Relay Event → Bool
  | .unstarted => true
  | .finished => true
  | _ => false

/-- The relay starts after the set, and waits for a fan-out to return. -/
def mayRelay (w : World) : Bus.Action Event → Bool
  | .start => decide (w.set.stage = .started)
  | .poll => !w.set.stage.isLocked
  | .tryMessage => !w.set.stage.isLocked
  | .await => !w.set.stage.isLocked
  | .emit => !w.set.stage.isLocked
  | .drain => !w.set.stage.isLocked
  | .close => !w.set.stage.isLocked
  | .finish => !w.set.stage.isLocked
  | _ => true

/-- Only the relay emits, and the set is closed once the relay is joined. -/
def maySet (w : World) : Fanout.Action → Bool
  | .emit _ => false
  | .close => isIdle w.bus.relay
  | .discard => isIdle w.bus.relay
  | _ => true

namespace World

def new (lanes : List SubscriberLane) : World := ⟨.new, .new lanes⟩

/-- The relay's step on the bus, with `emit_arc` for what it emits. -/
def relay (w : World) (bus : Bus.World Event) : Option World :=
  match bus.emitted.drop w.bus.emitted.length with
  | [] => some { w with bus }
  | emission :: _ => (w.set.step (.emit (toLane emission))).map fun set => ⟨bus, set⟩

def step (capacity : Nat) (w : World) : Action → Option World
  | .bus a => if mayRelay w a then (w.bus.step capacity a).bind w.relay else none
  | .set a => if maySet w a then (w.set.step a).map fun set => { w with set } else none

end World

def machine (lanes : List SubscriberLane) (capacity : Nat) : Machine World Action :=
  ⟨.new lanes, World.step (max capacity 1)⟩

/-- No abort, no callback that takes its lane down, no idle decision that a
close has overtaken, and no drop beyond the counter's last value. -/
def whole (w : World) : Action → Bool
  | .bus _ => true
  | .set .expire => false
  | .set .abort => false
  | .set .discard => false
  | .set .enqueue =>
    match w.set.stage with
    | .emitting event i _ => w.set.seats[i]?.all fun seat => intact seat.lane seat.world (.enqueue event)
    | _ => true
  | .set (.work i a) => w.set.seats[i]?.all fun seat => graceful seat.world a && intact seat.lane seat.world a
  | .set _ => true

variable {w w' : World}

section Relay

variable {b b' : Bus.World Event}

/-- Only a relay in the middle of its work emits, and one event at a time. -/
theorem emitted_step {a : Bus.Action Event} (hs : b.step capacity a = some b') :
    b'.emitted = b.emitted ∨ ∃ emission, b'.emitted = b.emitted ++ [emission] ∧ isIdle b.relay = false ∧
      (a = .emit ∨ a = .finish) := by
  cases a with
  | emit =>
      right
      simp only [Bus.World.step, Bus.World.emit] at hs
      split at hs
      · next hr => cases hs; exact ⟨_, rfl, by rw [hr]; rfl, .inl rfl⟩
      · next hr => cases hs; exact ⟨_, rfl, by rw [hr]; rfl, .inl rfl⟩
      · next hr => cases hs; exact ⟨_, rfl, by rw [hr]; rfl, .inl rfl⟩
      · next hr => cases hs; exact ⟨_, rfl, by rw [hr]; rfl, .inl rfl⟩
      · cases hs
  | finish =>
      simp only [Bus.World.step, Bus.World.finish] at hs
      split at hs
      · next hr =>
        split at hs
        · cases hs; exact .inl rfl
        · cases hs; exact .inr ⟨_, rfl, by rw [hr]; rfl, .inr rfl⟩
      · cases hs
  | _ =>
      left
      grind [Bus.World.step, Bus.World.poll, Bus.World.drain, Bus.World.close, Bus.World.receive, Bus.World.await,
        Bus.World.listen, Bus.World.unlisten, Bus.World.startDrain, Bus.World.notifyOne, Bus.World.enable,
        Bus.World.publish]

theorem idle_step {a : Bus.Action Event} (hs : b.step capacity a = some b') (hidle : isIdle b.relay = true) :
    b'.relay = b.relay ∨ a = .start := by
  cases a <;>
    grind [Bus.World.step, Bus.World.poll, Bus.World.drain, Bus.World.close, Bus.World.emit, Bus.World.finish,
      Bus.World.notifyOne, Bus.World.enable, Bus.World.publish, isIdle]

end Relay

/-- The fan-out has come past the lane at `i`. -/
def reached : Fanout.Stage → Nat → Bool
  | .emitting _ next _, i => decide (i < next)
  | .scheduling _ seat _, i => decide (i ≤ seat)
  | _, _ => true

def inFlight : Fanout.Stage → Option Event
  | .emitting event _ _ => some event
  | .scheduling event _ _ => some event
  | _ => none

def isRunning : Fanout.Stage → Bool
  | .started => true
  | stage => stage.isLocked

/-- The emissions as the lanes get them, in order. -/
def sent (w : World) : List Event := w.bus.emitted.map toLane

structure Piped (lanes : List SubscriberLane) (capacity : Nat) (w : World) : Prop where
  bus : (Bus.machine Event capacity).Reachable w.bus
  set : Sound lanes w.set
  seats : ∀ (i : Nat) (seat : Fanout.Seat), w.set.seats[i]? = some seat → (intactMachine seat.lane).Reachable seat.world
  offered : ∀ (i : Nat) (seat : Fanout.Seat), w.set.seats[i]? = some seat →
    seat.world.offered.map Prod.fst = if reached w.set.stage i then sent w else (sent w).dropLast
  flight : ∀ event, inFlight w.set.stage = some event → ∃ before, sent w = before ++ [event]
  busy : isIdle w.bus.relay = false → isRunning w.set.stage = true

section Set

variable {s s' : Fanout.World}

theorem offered_step {lane : SubscriberLane} {v v' : Lane.World} {b : Lane.Action} (hs : v.step lane b = some v')
    (hb : ∀ event, b ≠ .enqueue event) : v'.offered = v.offered := by
  by_cases hw : Fanout.isWork b = true
  · exact (Fanout.worked hw hs).offered
  · cases b with
    | enqueue event => exact absurd rfl (hb event)
    | scheduleShared => exact (Fanout.tended_schedule hs).2.2.2.2.2.1
    | beginClose => exact (Fanout.tended_beginClose hs).2.2.2.2.2.1
    | abort => exact (Fanout.tended_abort hs).2.2.2.2.2.1
    | takeReady =>
        obtain ⟨-, -, n, -, rfl⟩ := Fanout.taken hs
        rfl
    | closeSet =>
        simp only [Lane.World.step] at hs
        split at hs <;> cases hs
        rfl
    | detach =>
        simp only [Lane.World.step] at hs
        split at hs <;> cases hs
        rfl
    | _ => exact absurd rfl hw

/-- Only `enqueue` offers a lane something. -/
theorem quiet (h : Sound lanes s) {a : Fanout.Action} (hs : s.step a = some s') (ha : a ≠ .enqueue) {i : Nat}
    {moved : Fanout.Seat} (hm : s'.seats[i]? = some moved) :
    ∃ seat, s.seats[i]? = some seat ∧ moved.world.offered = seat.world.offered := by
  obtain ⟨seat, hi, -, heq | ⟨b, hmoved, hl⟩⟩ := h.moved hs hm
  · exact ⟨seat, hi, by rw [heq]⟩
  · refine ⟨seat, hi, offered_step hl fun event hb => ?_⟩
    subst hb
    cases hmoved with
    | enqueue => exact ha rfl
    | work _ hwork => cases hwork

theorem reached_step {a : Fanout.Action} (hs : s.step a = some s') (ha : a ≠ .enqueue) (he : ∀ event, a ≠ .emit event)
    {i : Nat} (hi : i < s.seats.length) : reached s'.stage i = reached s.stage i := by
  cases Fanout.step_cases hs with
  | start hw => rw [hw]; rfl
  | restart => rfl
  | emit event => exact absurd rfl (he event)
  | ignore event => exact absurd rfl (he event)
  | enqueue => exact absurd rfl ha
  | schedule hw =>
      rw [hw]
      exact decide_eq_decide.mpr Nat.lt_succ_iff
  | release hw =>
      rw [hw]
      exact (decide_eq_true hi).symm
  | close hw => rw [hw]; rfl
  | dismiss _ hw => rw [hw]; rfl
  | reclose => rfl
  | beginClose hw => rw [hw]; rfl
  | begun hw => rw [hw]; rfl
  | drained hw => rw [hw]; rfl
  | expire hw => rw [hw]; rfl
  | abort hw => rw [hw]; rfl
  | aborted hw => rw [hw]; rfl
  | detach hw => rw [hw]; rfl
  | discard hw => rw [hw]; rfl
  | take => rfl
  | work => rfl

/-- The event on its way stays the same, or has come to every lane. -/
theorem inFlight_step {a : Fanout.Action} (hs : s.step a = some s') (he : ∀ event, a ≠ .emit event) :
    inFlight s'.stage = inFlight s.stage ∨ inFlight s'.stage = none := by
  cases Fanout.step_cases hs with
  | emit event => exact absurd rfl (he event)
  | ignore event => exact absurd rfl (he event)
  | @enqueue event i closed seat world hw =>
      left
      rw [hw]
      cases (seat.world.state.enqueue seat.lane event).1 <;> rfl
  | schedule hw => rw [hw]; exact .inl rfl
  | restart => exact .inl rfl
  | reclose => exact .inl rfl
  | take => exact .inl rfl
  | work => exact .inl rfl
  | _ => exact .inr rfl

/-- A running set goes on running until it is closed. -/
theorem running_step {a : Fanout.Action} (hs : s.step a = some s') (hrun : isRunning s.stage = true)
    (ha : a ≠ .close ∧ a ≠ .discard) : isRunning s'.stage = true := by
  have stuck : ∀ {stage}, s.stage = stage → isRunning stage = false → isRunning s'.stage = true := by
    intro stage hw hstage
    rw [hw, hstage] at hrun
    cases hrun
  cases Fanout.step_cases hs with
  | start => rfl
  | restart => exact hrun
  | emit => rfl
  | ignore => exact hrun
  | @enqueue event i closed seat => cases (seat.world.state.enqueue seat.lane event).1 <;> rfl
  | schedule => rfl
  | release => rfl
  | close => exact absurd rfl ha.1
  | dismiss hor => exact absurd hor (not_or.mpr ha)
  | reclose => exact hrun
  | beginClose hw => exact stuck hw rfl
  | begun hw => exact stuck hw rfl
  | drained hw => exact stuck hw rfl
  | expire hw => exact stuck hw rfl
  | abort hw => exact stuck hw rfl
  | aborted hw => exact stuck hw rfl
  | detach hw => exact stuck hw rfl
  | discard => exact absurd rfl ha.2
  | take => exact hrun
  | work => exact hrun

end Set

theorem piped_new (lanes : List SubscriberLane) (capacity : Nat) : Piped lanes capacity (.new lanes) where
  bus := .init
  set := sound_new lanes
  seats := by
    intro i seat hi
    change (lanes.map fun lane => (⟨lane, .new⟩ : Fanout.Seat))[i]? = some seat at hi
    rw [List.getElem?_map] at hi
    obtain ⟨lane, -, rfl⟩ := Option.map_eq_some_iff.mp hi
    exact .init
  offered := by
    intro i seat hi
    change (lanes.map fun lane => (⟨lane, .new⟩ : Fanout.Seat))[i]? = some seat at hi
    rw [List.getElem?_map] at hi
    obtain ⟨lane, -, rfl⟩ := Option.map_eq_some_iff.mp hi
    rfl
  flight := nofun
  busy := nofun

/-- The bus moves and the set is left alone. -/
theorem Piped.silent (h : Piped lanes capacity w) {a : Bus.Action Event} {b : Bus.World Event} (hmay : mayRelay w a = true)
    (hb : w.bus.step (max capacity 1) a = some b) (hsame : b.emitted = w.bus.emitted) :
    Piped lanes capacity { w with bus := b } where
  bus := .next a h.bus hb
  set := h.set
  seats := h.seats
  offered := by
    intro i seat hi
    rw [h.offered i seat hi, sent, sent, hsame]
  flight := by
    intro event he
    rw [sent, hsame]
    exact h.flight event he
  busy := by
    intro hidle
    cases hw : isIdle w.bus.relay with
    | false => exact h.busy hw
    | true =>
        rcases idle_step hb hw with hrelay | rfl
        · rw [hrelay, hw] at hidle
          cases hidle
        · change isRunning w.set.stage = true
          rw [of_decide_eq_true hmay]
          rfl

/-- The relay hands an emission to the set. -/
theorem Piped.hand (h : Piped lanes capacity w) {a : Bus.Action Event} {b : Bus.World Event} {s : Fanout.World}
    {emission : Bus.Emission Event} (hb : w.bus.step (max capacity 1) a = some b)
    (hmore : b.emitted = w.bus.emitted ++ [emission]) (hrun : isRunning w.set.stage = true)
    (hlock : w.set.stage.isLocked = false) (hs : w.set.step (.emit (toLane emission)) = some s) :
    Piped lanes capacity ⟨b, s⟩ := by
  have hstage : w.set.stage = .started := by
    cases hw : w.set.stage <;> first | rfl | (rw [hw] at hrun hlock; simp [isRunning] at hrun hlock; simp_all)
  have hs' : s = { w.set with stage := .emitting (toLane emission) 0 [] } := by
    simp only [Fanout.World.step, hstage] at hs
    exact (Option.some.inj hs).symm
  have hsent : sent ⟨b, s⟩ = sent w ++ [toLane emission] := by
    rw [sent, hmore, List.map_append]
    rfl
  refine ⟨.next a h.bus hb, h.set.step hs, ?_, ?_, ?_, ?_⟩
  · rw [hs']
    exact h.seats
  · intro i seat hi
    rw [hs'] at hi
    rw [h.offered i seat hi, hsent, List.dropLast_concat, hs', hstage]
    rfl
  · intro event he
    rw [hs'] at he
    cases he
    exact ⟨sent w, hsent⟩
  · intro _
    rw [hs']
    rfl

theorem Piped.set_step (h : Piped lanes capacity w) {a : Fanout.Action} {s : Fanout.World} (hmay : maySet w a = true)
    (hok : whole w (.set a) = true) (hs : w.set.step a = some s) : Piped lanes capacity { w with set := s } := by
  have hemit : ∀ event, a ≠ .emit event := by
    rintro event rfl
    cases hmay
  refine ⟨h.bus, h.set.step hs, fun i moved hm => ?_, fun i moved hm => ?_, fun event he => ?_, fun hidle => ?_⟩
  · obtain ⟨seat, hi, hlane, heq | ⟨b, hmoved, hl⟩⟩ := h.set.moved hs hm
    · rw [hlane, heq]
      exact h.seats i seat hi
    · have hguard : (graceful seat.world b && intact seat.lane seat.world b) = true := by
        cases hmoved with
        | enqueue hw =>
            rw [Bool.and_eq_true]
            exact ⟨rfl, by simpa [whole, hw, hi] using hok⟩
        | work _ hwork => simpa [whole, hi] using hok
        | abort => cases hok
        | _ => rfl
      rw [hlane]
      refine .next b (h.seats i seat hi) ?_
      change (if graceful seat.world b && intact seat.lane seat.world b then seat.world.step seat.lane b else none) = _
      rw [if_pos hguard]
      exact hl
  · by_cases ha : a = .enqueue
    · subst ha
      cases Fanout.step_cases hs with
      | @enqueue event j closed seat v hw hj hl =>
          have hnext : ∀ k, reached (Fanout.Stage.fed event j closed (seat.world.state.enqueue seat.lane event).1) k =
              decide (k ≤ j) := by
            intro k
            cases (seat.world.state.enqueue seat.lane event).1 <;>
              simp [Fanout.Stage.fed, reached, Nat.lt_succ_iff]
          obtain ⟨before, hbefore⟩ := h.flight event (by rw [hw]; rfl)
          change moved.world.offered.map Prod.fst = if reached (Fanout.Stage.fed event j closed _) i then _ else _
          rw [hnext]
          change (w.set.place j seat v).seats[i]? = some moved at hm
          by_cases hji : j = i
          · subst hji
            rw [Fanout.place_get hj] at hm
            cases hm
            have hold := h.offered j seat hj
            rw [hw, reached, if_neg (by simp), hbefore, List.dropLast_concat] at hold
            rw [if_pos (by simp)]
            change v.offered.map Prod.fst = sent w
            rw [(Fanout.tended_enqueue hl).2.2.2.2.2.2.1, List.map_append, hold, hbefore]
            rfl
          · rw [Fanout.place_get_ne _ _ hji] at hm
            rw [h.offered i moved hm, hw, reached]
            have hiff : (i < j) = (i ≤ j) := propext (by omega)
            simp only [hiff]
            rfl
      | dismiss hor => exact absurd hor (by simp)
    · obtain ⟨seat, hi, hoff⟩ := quiet h.set hs ha hm
      rw [hoff, h.offered i seat hi, ← reached_step hs ha hemit (List.getElem?_eq_some_iff.mp hi).1]
      rfl
  · rcases inFlight_step hs hemit with heq | hnone
    · exact h.flight event (heq.symm.trans he)
    · rw [hnone] at he
      cases he
  · have hrun := h.busy hidle
    refine running_step hs hrun ⟨?_, ?_⟩
    · rintro rfl
      cases hmay.symm.trans hidle
    · rintro rfl
      cases hmay.symm.trans hidle

theorem Piped.step (h : Piped lanes capacity w) {a : Action} (hok : whole w a = true)
    (hs : w.step (max capacity 1) a = some w') : Piped lanes capacity w' := by
  cases a with
  | set a =>
      simp only [World.step] at hs
      split at hs
      · next hmay =>
        obtain ⟨s, hset, rfl⟩ := Option.map_eq_some_iff.mp hs
        exact h.set_step hmay hok hset
      · cases hs
  | bus a =>
      simp only [World.step] at hs
      split at hs
      · next hmay =>
        obtain ⟨b, hb, hrelay⟩ := Option.bind_eq_some_iff.mp hs
        rcases emitted_step hb with hsame | ⟨emission, hmore, hbusy, ha⟩
        · simp only [World.relay, hsame, List.drop_length] at hrelay
          cases hrelay
          exact h.silent hmay hb hsame
        · simp only [World.relay, hmore, List.drop_left] at hrelay
          obtain ⟨s, hset, rfl⟩ := Option.map_eq_some_iff.mp hrelay
          have hlock : w.set.stage.isLocked = false := by
            rcases ha with rfl | rfl <;> simpa [mayRelay] using hmay
          exact h.hand hb hmore (h.busy hbusy) hlock hset
      · cases hs

/-- The runs without an abort and without a lane that fails. -/
def wholeMachine (lanes : List SubscriberLane) (capacity : Nat) : Machine World Action :=
  (machine lanes capacity).guarded whole

theorem piped_of_reachable (h : (wholeMachine lanes capacity).Reachable w) : Piped lanes capacity w :=
  h.invariant (piped_new lanes capacity) fun _ _ _ _ hw hs => by
    obtain ⟨hok, hs⟩ := Machine.guarded_step hs
    exact hw.step hok hs

section Ledger

variable {α : Type}

def event? : Bus.Emission α → Option α
  | .event event => some event
  | .subscriberOverflow _ _ _ => none

/-- The events that an emission reports lost. -/
def lag : Bus.Emission α → Nat
  | .event _ => 0
  | .subscriberOverflow _ _ dropped => dropped

variable (log : List (Bus.Receipt α))

theorem events_relayed : (log.flatMap relayOutput).filterMap event? = log.map fun r => r.message.payload := by
  induction log with
  | nil => rfl
  | cons r log ih =>
      rw [List.flatMap_cons, List.filterMap_append, ih]
      cases hm : r.message <;> simp [relayOutput, hm, event?, Bus.lagged, Bus.BusMessage.payload]

theorem events_drained : (log.map drainOutput).filterMap event? = log.map fun r => r.message.payload := by
  induction log with
  | nil => rfl
  | cons r log ih => simp only [List.map_cons, List.filterMap_cons, drainOutput, event?, ih]

theorem payloads_sublist : (log.map fun r => r.message.payload).Sublist (spread log) := by
  induction log with
  | nil => exact .slnil
  | cons r log ih =>
      have hspread : spread (r :: log) = r.gap ++ r.message.payload :: spread log := by simp [spread]
      rw [hspread, List.map_cons]
      exact (ih.cons_cons _).trans (List.sublist_append_right _ _)

theorem length_spread : (spread log).length = (gaps log).length + log.length := by
  induction log with
  | nil => rfl
  | cons r log ih =>
      simp only [spread, gaps, List.flatMap_cons, List.length_append, List.length_cons, List.length_nil] at ih ⊢
      omega

theorem lags_relayed (h : ∀ r ∈ log, Accounting.Faithful r) :
    ((log.flatMap relayOutput).map lag).sum = (gaps log).length := by
  induction log with
  | nil => rfl
  | cons r log ih =>
      have hrest := ih fun s hs => h s (List.mem_cons_of_mem _ hs)
      have hgap := (h r List.mem_cons_self).skipped
      have hcount : (gaps (r :: log)).length = r.gap.length + (gaps log).length := by simp [gaps]
      rw [List.flatMap_cons, List.map_append, List.sum_append, hrest, hcount, ← hgap]
      congr 1
      cases hm : r.message <;> simp [relayOutput, hm, lag, Bus.lagged, Bus.BusMessage.skipped]

theorem lags_drained : ((log.map drainOutput).map lag).sum = 0 := by
  induction log with
  | nil => rfl
  | cons r log ih => simp only [List.map_cons, List.sum_cons, drainOutput, lag, ih]

theorem diagnostic_eq (n : Nat) :
    ((diagnostic n : List (Bus.Emission α)).map lag).sum = n ∧ (diagnostic n : List (Bus.Emission α)).filterMap event? = [] := by
  unfold diagnostic
  split
  · next hn => exact ⟨hn.symm, rfl⟩
  · exact ⟨rfl, rfl⟩

variable {b : Bus.World α}

/-- The relay passes on accepted events only, in their order. -/
theorem relayed_in_order (h : Conserved b) : (b.emitted.filterMap event?).Sublist b.accepted := by
  have hinitial : b.emitted.Sublist (b.relayed.flatMap relayOutput ++ b.drained.map drainOutput ++ farewell b) := by
    rw [← h.emitted]
    exact List.sublist_append_left _ _
  have hfarewell : (farewell b).filterMap event? = [] := by
    unfold farewell
    split
    · exact (diagnostic_eq _).2
    · rfl
  have hevents := hinitial.filterMap event?
  rw [List.filterMap_append, List.filterMap_append, events_relayed, events_drained, hfarewell, List.append_nil] at hevents
  refine hevents.trans (((payloads_sublist _).append (payloads_sublist _)).trans ?_)
  rw [h.layout, List.append_assoc, List.append_assoc]
  exact List.sublist_append_left _ _

/-- A relay that is done has passed on every accepted event or reported it lost. -/
theorem relayed_complete (h : Conserved b) (hr : b.relay = .finished) :
    b.accepted.length = (b.emitted.filterMap event?).length + (b.emitted.map lag).sum := by
  have hclosed : b.ring.closed = true := by rw [h.closed, hr]; rfl
  obtain ⟨hevents, hdisplaced⟩ := h.emptied hclosed
  have hemitted := h.emitted
  simp only [hr, inHand, farewell, List.append_nil] at hemitted
  have hlayout := congrArg List.length h.layout
  simp only [hevents, hdisplaced, List.append_nil, List.length_append, length_spread] at hlayout
  have hd := diagnostic_eq (α := α) ((gaps b.drained).length + b.rest.length)
  rw [hlayout, hemitted]
  simp only [List.filterMap_append, events_relayed, events_drained, hd.2, List.append_nil, List.map_append,
    List.sum_append, List.length_append, List.length_map, lags_relayed _ h.relayed, lags_drained, hd.1]
  omega

end Ledger

section Lane

variable {lane : SubscriberLane} {v : Lane.World}

def isOrdinary (event : Event) : Bool := !event.isInternalDiagnostic

theorem accepted_sublist (offered : List (Event × Lane.Verdict)) : (accepted offered).Sublist (offered.map Prod.fst) := by
  induction offered with
  | nil => exact .slnil
  | cons offer offered ih =>
      rw [accepted, List.filterMap_cons, List.map_cons]
      by_cases hv : offer.2 = .accepted
      · rw [if_pos hv]
        exact ih.cons_cons _
      · rw [if_neg hv]
        exact ih.cons _

/-- An open lane takes an ordinary event or counts it. -/
theorem ordinary_eq (offered : List (Event × Lane.Verdict)) (h : ∀ offer ∈ offered, offer.2 ≠ .closed) :
    (offered.map Prod.fst).countP isOrdinary = (accepted offered).countP isOrdinary + refused offered := by
  induction offered using List.reverseRecOn with
  | nil => rfl
  | append_singleton offered offer ih =>
      obtain ⟨event, verdict⟩ := offer
      have hrest := ih fun o ho => h o (List.mem_append_left _ ho)
      have hopen := h (event, verdict) (List.mem_append_right _ List.mem_cons_self)
      rw [List.map_append, List.countP_append, hrest, accepted_snoc, refused_snoc, List.countP_append]
      cases verdict with
      | accepted =>
          simp [isOrdinary]
          omega
      | full => cases hi : event.isInternalDiagnostic <;> simp [isOrdinary, hi] <;> omega
      | closed => exact absurd rfl hopen

end Lane

theorem Piped.delivered_sublist (h : Piped lanes capacity w) {i : Nat} {seat : Fanout.Seat}
    (hi : w.set.seats[i]? = some seat) : (delivered seat.world.callbacks).Sublist (sent w) := by
  have hf := faithful_of_reachable (h.seats i seat hi)
  have hdelivered : (delivered seat.world.callbacks).Sublist (accepted seat.world.offered) := by
    rw [← hf.events]
    exact List.sublist_append_left _ _
  refine hdelivered.trans ((accepted_sublist _).trans ?_)
  rw [h.offered i seat hi]
  split
  · exact List.Sublist.refl _
  · exact List.dropLast_sublist _

/-- A finished lane was open until the relay was done. -/
theorem Piped.settled (h : Piped lanes capacity w) {i : Nat} {seat : Fanout.Seat} (hi : w.set.seats[i]? = some seat)
    (hp : seat.world.state.phase = .finished) : seat.world.offered.map Prod.fst = sent w := by
  have hf := faithful_of_reachable (h.seats i seat hi)
  have hclosing : seat.world.state.closing = true := by
    have hplaced := hf.placed
    rw [hp] at hplaced
    exact hplaced.finished_closing.2
  have hstarted : seat.world.started = false := by
    cases hs : seat.world.started with
    | false => rfl
    | true => exact absurd (hclosing.symm.trans (hf.opened hs)) nofun
  have hstage := (h.set.seated i seat hi).started
  rw [hstarted] at hstage
  rw [h.offered i seat hi]
  cases hw : w.set.stage <;> first | rfl | (rw [hw] at hstage; cases hstage)

theorem ordinary_events (emitted : List (Bus.Emission Event)) :
    (emitted.map toLane).filter isOrdinary = (emitted.filterMap event?).filter isOrdinary := by
  induction emitted with
  | nil => rfl
  | cons emission emitted ih =>
      cases emission with
      | event event =>
          simp only [List.map_cons, toLane, List.filterMap_cons, event?, List.filter_cons, ih]
      | subscriberOverflow subscriber reason dropped =>
          simp only [List.map_cons, toLane, List.filterMap_cons, event?, List.filter_cons, ih]
          rfl

/-- What becomes of the ordinary events of a finished run at one lane: each was
delivered, or counted in an overflow callback of the lane. -/
theorem Piped.accounted (h : Piped lanes capacity w) {i : Nat} {seat : Fanout.Seat} (hi : w.set.seats[i]? = some seat)
    (hp : seat.world.state.phase = .finished) :
    ((w.bus.emitted.filterMap event?).filter isOrdinary).length =
      ((delivered seat.world.callbacks).filter isOrdinary).length + overflowed seat.world.callbacks := by
  have hf := faithful_of_reachable (h.seats i seat hi)
  obtain ⟨hdelivered, hoverflowed⟩ := Faithful.complete hf hp
  have hcount := ordinary_eq seat.world.offered hf.offers
  rw [h.settled hi hp, List.countP_eq_length_filter, List.countP_eq_length_filter, sent, ordinary_events] at hcount
  rw [hcount, hdelivered, hoverflowed]

def auditAndMetrics : List SubscriberLane := [⟨"audit", .two, .dedicated⟩, ⟨"metrics", .two, .shared⟩]

/-- One event goes to a dedicated and a shared lane, and everything is closed. -/
def deliveryRun : List Action :=
  [.set .start, .bus .start, .bus (.load 0 ⟨7, false⟩), .bus (.push 0), .bus (.notify 0), .bus .poll, .bus .tryMessage,
    .bus .emit, .set .enqueue, .set .enqueue, .set .schedule, .set .release, .bus .cancel, .bus .poll, .bus .drain,
    .bus .close, .bus .finish, .set .close, .set .beginClose, .set .beginClose, .set .beginClose] ++
  [Lane.Action.enter, .select, .callback true, .select, .finishRunning].map (fun a => .set (.work 0 a)) ++
  .set .take :: [Lane.Action.enter, .select, .callback true, .select, .finishRunning].map (fun a => .set (.work 1 a))

def isFinished : Bus.Relay Event → Bool
  | .finished => true
  | _ => false

end Taskvisor.System.Pipeline
