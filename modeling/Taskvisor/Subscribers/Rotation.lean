import Mathlib.Data.List.Nodup
import Taskvisor.Subscribers.Fanout

namespace Taskvisor.Subscribers.Rotation

open Lib Account Fanout Scheduling
open Lane hiding World Action machine

variable {lanes : List SubscriberLane} {lane : SubscriberLane} {w w' : World} {i : Nat} {seat : Seat} {v : Lane.World}

def isOpen : Stage → Bool
  | .pending => true
  | .started => true
  | .emitting .. => true
  | .scheduling .. => true
  | _ => false

/-- The fan-out owes the lane at `i` a place in the ready queue. -/
def owes : Stage → Nat → Bool
  | .scheduling _ seat _, i => decide (seat = i)
  | _, _ => false

/-- How far the close has come with the lane at `i`. -/
def Retiring : Stage → Nat → Lane.World → Prop
  | .closing next, i, v => v.begun = decide (i < next) ∧ v.state.abort = false
  | .draining, _, v => v.state.closing = true
  | .aborting next, i, v => i < next → v.state.abort = true
  | .detaching, _, v => v.state.abort = true ∨ v.state.done = false
  | .closed, _, _ => True
  | _, _, v => v.begun = false ∧ v.state.abort = false

/-- The lane at `i` as the set sees it. -/
structure Seated (w : World) (i : Nat) (seat : Seat) : Prop where
  reachable : (Lane.machine seat.lane).Reachable seat.world
  started : seat.world.started = isOpen w.stage
  emitting : seat.world.emitting = owes w.stage i
  retiring : Retiring w.stage i seat.world
  ready : seat.world.ready = w.ready.count i
  sharedClosed : seat.world.sharedClosed = w.sharedClosed
  serving : seat.lane.execution = .shared → (w.serving = some i ↔ seat.world.turn ≠ .away)

structure Sound (lanes : List SubscriberLane) (w : World) : Prop where
  lanes : w.seats.map Seat.lane = lanes
  seated : ∀ i seat, w.seats[i]? = some seat → Seated w i seat
  listed : ∀ i ∈ w.ready, i < w.seats.length
  served : ∀ i, w.serving = some i → ∃ seat, w.seats[i]? = some seat ∧ seat.lane.execution = .shared

theorem retiring_open {stage : Stage} (h : isOpen stage = true) :
    Retiring stage i v ↔ v.begun = false ∧ v.state.abort = false := by
  cases stage <;> first | rfl | cases h

theorem Retiring.keep {stage : Stage} {u : Lane.World} (h : Retiring stage i u) (hbegun : v.begun = u.begun)
    (habort : v.state.abort = u.state.abort) (hclosing : v.state.closing = u.state.closing)
    (hdone : u.state.done = false → v.state.done = false) : Retiring stage i v := by
  cases stage with
  | closing next => exact ⟨hbegun.trans h.1, habort.trans h.2⟩
  | draining => exact hclosing.trans h
  | aborting next => exact fun hlt => habort.trans (h hlt)
  | detaching => exact h.imp habort.trans hdone
  | closed => trivial
  | _ => exact ⟨hbegun.trans h.1, habort.trans h.2⟩

/-- What the step leaves alone around a lane it does not touch. -/
theorem Seated.other (h : Seated w i seat) (hopen : isOpen w'.stage = isOpen w.stage)
    (howes : owes w'.stage i = owes w.stage i) (hret : Retiring w.stage i seat.world → Retiring w'.stage i seat.world)
    (hready : w'.ready.count i = w.ready.count i) (hclosed : w'.sharedClosed = w.sharedClosed)
    (hserving : w'.serving = some i ↔ w.serving = some i) : Seated w' i seat where
  reachable := h.reachable
  started := h.started.trans hopen.symm
  emitting := h.emitting.trans howes.symm
  retiring := hret h.retiring
  ready := h.ready.trans hready.symm
  sharedClosed := h.sharedClosed.trans hclosed.symm
  serving := fun hex => hserving.trans (h.serving hex)

theorem Sound.place (h : Sound lanes w) (hi : w.seats[i]? = some seat) (hseats : w'.seats = (w.place i seat v).seats)
    (hmoved : Seated w' i { seat with world := v })
    (hother : ∀ j other, i ≠ j → Seated w j other → Seated w' j other) (hlisted : ∀ j ∈ w'.ready, j ∈ w.ready ∨ j = i)
    (hserved : ∀ j, w'.serving = some j → w.serving = some j ∨ j = i ∧ seat.lane.execution = .shared) :
    Sound lanes w' where
  lanes := by
    obtain ⟨hlt, hget⟩ := List.getElem?_eq_some_iff.mp hi
    rw [hseats, ← h.lanes, World.place, List.map_set]
    have hlt : i < (w.seats.map Seat.lane).length := by rwa [List.length_map]
    have hlane : seat.lane = (w.seats.map Seat.lane)[i] := by simp [hget]
    rw [hlane, List.set_getElem_self]
  seated := by
    intro j other hj
    rw [hseats] at hj
    by_cases hij : i = j
    · subst hij
      rw [place_get hi] at hj
      cases hj
      exact hmoved
    · rw [place_get_ne _ _ hij] at hj
      exact hother j other hij (h.seated j other hj)
  listed := by
    intro j hj
    rw [hseats, World.place, List.length_set]
    rcases hlisted j hj with hj | rfl
    · exact h.listed j hj
    · exact (List.getElem?_eq_some_iff.mp hi).1
  served := by
    intro j hj
    rw [hseats]
    by_cases hij : i = j
    · subst hij
      refine ⟨_, place_get hi, ?_⟩
      rcases hserved i hj with hj | ⟨-, hex⟩
      · obtain ⟨other, hother, hex⟩ := h.served i hj
        obtain rfl := Option.some.inj (hi.symm.trans hother)
        exact hex
      · exact hex
    · rcases hserved j hj with hj | ⟨rfl, -⟩
      · rw [place_get_ne _ _ hij]
        exact h.served j hj
      · exact absurd rfl hij

/-- A step that moves no lane. -/
theorem Sound.shift (h : Sound lanes w) (hseats : w'.seats = w.seats) (hready : w'.ready = w.ready)
    (hclosed : w'.sharedClosed = w.sharedClosed) (hserving : w'.serving = w.serving)
    (hopen : isOpen w'.stage = isOpen w.stage) (howes : ∀ j, owes w'.stage j = owes w.stage j)
    (hret : ∀ j other, w.seats[j]? = some other → Retiring w.stage j other.world → Retiring w'.stage j other.world) :
    Sound lanes w' where
  lanes := by rw [hseats, h.lanes]
  seated := by
    intro j other hj
    rw [hseats] at hj
    exact (h.seated j other hj).other hopen (howes j) (hret j other hj) (by rw [hready]) hclosed (by rw [hserving])
  listed := by
    rw [hseats, hready]
    exact h.listed
  served := by
    rw [hseats, hserving]
    exact h.served

/-- A step that moves every lane. -/
theorem Sound.spread (h : Sound lanes w) (f : Seat → Seat) (hlane : ∀ seat, (f seat).lane = seat.lane)
    (hseats : w'.seats = w.seats.map f) (hmoved : ∀ j other, Seated w j other → Seated w' j (f other))
    (hlisted : ∀ j ∈ w'.ready, j ∈ w.ready) (hserving : w'.serving = w.serving) : Sound lanes w' where
  lanes := by
    rw [hseats, List.map_map, ← h.lanes]
    apply List.map_congr_left
    intro seat _
    exact hlane seat
  seated := by
    intro j other hj
    rw [hseats, List.getElem?_map] at hj
    obtain ⟨seat, hseat, rfl⟩ := Option.map_eq_some_iff.mp hj
    exact hmoved j seat (h.seated j seat hseat)
  listed := by
    intro j hj
    rw [hseats, List.length_map]
    exact h.listed j (hlisted j hj)
  served := by
    intro j hj
    rw [hserving] at hj
    obtain ⟨seat, hseat, hex⟩ := h.served j hj
    refine ⟨f seat, ?_, (congrArg _ (hlane seat)).trans hex⟩
    rw [hseats, List.getElem?_map, hseat]
    rfl

theorem sound_new (lanes : List SubscriberLane) : Sound lanes (.new lanes) where
  lanes := by
    rw [Fanout.World.new, List.map_map]
    exact List.map_id _
  seated := by
    intro j seat hj
    rw [Fanout.World.new, List.getElem?_map] at hj
    obtain ⟨lane, -, rfl⟩ := Option.map_eq_some_iff.mp hj
    exact ⟨.init, rfl, rfl, ⟨rfl, rfl⟩, rfl, rfl, fun _ => ⟨nofun, fun h => absurd rfl h⟩⟩
  listed := nofun
  served := nofun

/-- A lane that is fed, or put in the queue for it. -/
theorem Sound.enqueue (h : Sound lanes w) {event : Event} {closed : List String} (hw : w.stage = .emitting event i closed)
    (hi : w.seats[i]? = some seat) (hl : seat.world.step seat.lane (.enqueue event) = some v) :
    Sound lanes { w.place i seat v with stage := .fed event i closed (seat.world.state.enqueue seat.lane event).1 } := by
  have hs := h.seated i seat hi
  obtain ⟨ht, hstarted, hbegun, habort, hready, hemitting, -, -⟩ := tended_enqueue hl
  have hopen : ∀ result, isOpen (Stage.fed event i closed result) = true := by rintro ⟨⟩ <;> rfl
  refine h.place hi rfl ?_ (fun j other hij hj => ?_) (fun j hj => .inl hj) (fun j hj => .inl hj)
  · refine ⟨.next (.enqueue event) hs.reachable hl, ?_, ?_, ?_, hready.trans hs.ready, ht.sharedClosed.trans hs.sharedClosed, ?_⟩
    · rw [hstarted, hs.started, hw, hopen]
      rfl
    · rw [hemitting]
      cases (seat.world.state.enqueue seat.lane event).1 <;> simp [Stage.fed, owes]
    · have hret := hs.retiring
      rw [hw, retiring_open rfl] at hret
      rw [retiring_open (hopen _), hbegun, habort]
      exact hret
    · intro hex
      rw [ht.turn]
      exact hs.serving hex
  · refine hj.other ?_ ?_ (fun hret => ?_) rfl rfl Iff.rfl
    · rw [hopen, hw]
      rfl
    · rw [hw]
      cases (seat.world.state.enqueue seat.lane event).1 <;> simp [Stage.fed, owes, hij]
    · rw [hw, retiring_open rfl] at hret
      rw [retiring_open (hopen _)]
      exact hret

theorem Sound.schedule (h : Sound lanes w) {event : Event} {closed : List String} (hw : w.stage = .scheduling event i closed)
    (hi : w.seats[i]? = some seat) (hl : seat.world.step seat.lane .scheduleShared = some v) :
    Sound lanes { (w.place i seat v).push i with stage := .emitting event (i + 1) closed } := by
  have hs := h.seated i seat hi
  obtain ⟨ht, hstarted, hbegun, hstate, hemitting, -, hready⟩ := tended_schedule hl
  have hpushed : ∀ j, ((w.place i seat v).push i).ready.count j =
      w.ready.count j + if i = j ∧ w.sharedClosed = false then 1 else 0 := by
    intro j
    cases hc : w.sharedClosed <;> simp [World.push, World.place, hc, List.count_singleton]
  have hrest : ((w.place i seat v).push i).seats = (w.place i seat v).seats ∧
      ((w.place i seat v).push i).sharedClosed = w.sharedClosed ∧ ((w.place i seat v).push i).serving = w.serving := by
    unfold World.push
    split <;> exact ⟨rfl, rfl, rfl⟩
  refine h.place hi hrest.1 ?_ (fun j other hij hj => ?_) (fun j hj => ?_) (fun j hj => .inl (hrest.2.2 ▸ hj))
  · refine ⟨.next .scheduleShared hs.reachable hl, ?_, hemitting, ?_, ?_, ht.sharedClosed.trans (hs.sharedClosed.trans hrest.2.1.symm), ?_⟩
    · rw [hstarted, hs.started, hw]
      rfl
    · have hret := hs.retiring
      rw [hw, retiring_open rfl] at hret
      rw [retiring_open rfl, hbegun, hstate]
      exact hret
    · change v.ready = ((w.place i seat v).push i).ready.count i
      rw [hpushed, hready, hs.sharedClosed, hs.ready]
      cases w.sharedClosed <;> simp
    · intro hex
      change ((w.place i seat v).push i).serving = some i ↔ _
      rw [hrest.2.2, ht.turn]
      exact hs.serving hex
  · refine hj.other ?_ ?_ (fun hret => ?_) ?_ hrest.2.1 ?_
    · rw [hw]
      rfl
    · rw [hw]
      simp [owes, hij]
    · rw [hw, retiring_open rfl] at hret
      exact hret
    · change ((w.place i seat v).push i).ready.count j = _
      rw [hpushed, if_neg (fun hx => hij hx.1), Nat.add_zero]
    · change ((w.place i seat v).push i).serving = some j ↔ _
      rw [hrest.2.2]
  · change j ∈ ((w.place i seat v).push i).ready at hj
    unfold World.push at hj
    split at hj
    · exact .inl hj
    · exact (List.mem_append.mp hj).imp id List.mem_singleton.mp

theorem Sound.beginClose (h : Sound lanes w) (hw : w.stage = .closing i) (hi : w.seats[i]? = some seat)
    (hl : seat.world.step seat.lane .beginClose = some v) :
    Sound lanes { w.place i seat v with stage := .closing (i + 1) } := by
  have hs := h.seated i seat hi
  obtain ⟨ht, hstarted, hbegun, habort, hemitting, -, hready, -⟩ := tended_beginClose hl
  have hret := hs.retiring
  rw [hw] at hret
  refine h.place hi rfl ?_ (fun j other hij hj => ?_) (fun j hj => .inl hj) (fun j hj => .inl hj)
  · refine ⟨.next .beginClose hs.reachable hl, ?_, ?_, ⟨?_, ?_⟩, hready.trans hs.ready, ht.sharedClosed.trans hs.sharedClosed, ?_⟩
    · rw [hstarted, hs.started, hw]
      rfl
    · rw [hemitting, hs.emitting, hw]
      rfl
    · simp [hbegun]
    · exact habort.trans hret.2
    · intro hex
      rw [ht.turn]
      exact hs.serving hex
  · refine hj.other ?_ ?_ (fun hold => ?_) rfl rfl Iff.rfl
    · rw [hw]
      rfl
    · rw [hw]
      rfl
    · rw [hw] at hold
      refine ⟨hold.1.trans (decide_eq_decide.mpr ?_), hold.2⟩
      omega

theorem Sound.abort (h : Sound lanes w) (hw : w.stage = .aborting i) (hi : w.seats[i]? = some seat)
    (hl : seat.world.step seat.lane .abort = some v) : Sound lanes { w.place i seat v with stage := .aborting (i + 1) } := by
  have hs := h.seated i seat hi
  obtain ⟨ht, hstarted, hbegun, habort, hemitting, -, hready, -⟩ := tended_abort hl
  refine h.place hi rfl ?_ (fun j other hij hj => ?_) (fun j hj => .inl hj) (fun j hj => .inl hj)
  · refine ⟨.next .abort hs.reachable hl, ?_, ?_, fun _ => habort, hready.trans hs.ready,
      ht.sharedClosed.trans hs.sharedClosed, ?_⟩
    · rw [hstarted, hs.started, hw]
      rfl
    · rw [hemitting, hs.emitting, hw]
      rfl
    · intro hex
      rw [ht.turn]
      exact hs.serving hex
  · refine hj.other ?_ ?_ (fun hold hlt => ?_) rfl rfl Iff.rfl
    · rw [hw]
      rfl
    · rw [hw]
      rfl
    · rw [hw] at hold
      exact hold (by omega)

theorem Sound.take (h : Sound lanes w) {ready : List Nat} (hw : w.ready = i :: ready) (hserving : w.serving = none)
    (hi : w.seats[i]? = some seat) (hl : seat.world.step seat.lane .takeReady = some v) :
    Sound lanes { w.place i seat v with ready, serving := some i } := by
  have hs := h.seated i seat hi
  obtain ⟨hex, -, n, hn, rfl⟩ := taken hl
  refine h.place hi rfl ?_ (fun j other hij hj => ?_) (fun j hj => ?_) (fun j hj => ?_)
  · have hcount := hs.ready
    rw [hw, List.count_cons_self, hn] at hcount
    exact ⟨.next .takeReady hs.reachable hl, hs.started, hs.emitting, hs.retiring.keep rfl rfl rfl id, Nat.succ.inj hcount, hs.sharedClosed,
      fun _ => ⟨fun _ => nofun, fun _ => rfl⟩⟩
  · refine hj.other rfl rfl id ?_ rfl ?_
    · rw [hw, List.count_cons_of_ne hij]
    · rw [hserving]
      exact ⟨fun hx => absurd (Option.some.inj hx) hij, nofun⟩
  · rw [hw]
    exact .inl (List.mem_cons_of_mem _ hj)
  · exact .inr ⟨(Option.some.inj hj).symm, hex⟩

theorem Sound.work (h : Sound lanes w) {a : Lane.Action} (ha : isWork a = true) (hi : w.seats[i]? = some seat)
    (hat : seat.lane.execution = .dedicated ∨ w.serving = some i) (hl : seat.world.step seat.lane a = some v) :
    Sound lanes
      { w.place i seat v with
        ready := if a = .requeue ∧ w.sharedClosed = false then w.ready ++ [i] else w.ready
        serving := if seat.lane.execution = .shared ∧ v.turn = .away then none else w.serving } := by
  have hs := h.seated i seat hi
  have hwork := worked ha hl
  have atWork : seat.lane.execution = .shared → w.serving = some i := fun hex =>
    hat.resolve_left fun hd => by
      rw [hex] at hd
      cases hd
  refine h.place hi rfl ?_ (fun j other hij hj => ?_) (fun j hj => ?_) (fun j hj => ?_)
  · refine ⟨.next a hs.reachable hl, hwork.started.trans hs.started, hwork.emitting.trans hs.emitting, ?_, ?_,
      hwork.sharedClosed.trans hs.sharedClosed, fun hex => ?_⟩
    · exact hs.retiring.keep hwork.begun hwork.abort hwork.closing hwork.done
    · rw [hwork.ready, hs.sharedClosed, hs.ready]
      split
      · rw [List.count_append, List.count_singleton_self]
      · rfl
    · have hex : seat.lane.execution = .shared := hex
      simp only [hex, atWork hex, true_and]
      split
      · next ht => exact ⟨nofun, fun hx => absurd ht hx⟩
      · next ht => exact ⟨fun _ => ht, fun _ => rfl⟩
  · refine hj.other rfl rfl id ?_ rfl ?_
    · split
      · rw [List.count_append, List.count_singleton, if_neg (by simpa using hij)]
        rfl
      · rfl
    · change (if seat.lane.execution = .shared ∧ v.turn = .away then none else w.serving) = some j ↔ _
      split
      · next hx =>
        rw [atWork hx.1]
        exact ⟨nofun, fun hx => absurd (Option.some.inj hx) hij⟩
      · exact Iff.rfl
  · split at hj
    · exact (List.mem_append.mp hj).imp id List.mem_singleton.mp
    · exact .inl hj
  · change (if seat.lane.execution = .shared ∧ v.turn = .away then none else w.serving) = some j at hj
    split at hj
    · cases hj
    · exact .inl hj

theorem Seated.shuts (h : Seated w i seat) (hopen : isOpen w.stage = true) (hlock : w.stage.isLocked = false) :
    seat.world.step seat.lane .closeSet = some seat.closeSet.world := by
  have hemitting : seat.world.emitting = false := by
    rw [h.emitting]
    cases hs : w.stage <;> first | rfl | (rw [hs] at hlock; cases hlock)
  have hstarted : seat.world.started = true := h.started.trans hopen
  simp [Lane.World.step, hstarted, hemitting, Seat.closeSet]

theorem Seated.detaches (h : Seated w i seat) (hw : w.stage = .detaching) :
    seat.world.step seat.lane .detach = some seat.detach.world := by
  have hret := h.retiring
  have hstarted := h.started
  rw [hw] at hret hstarted
  have hok : (!seat.world.started && (seat.world.state.abort || !seat.world.state.done)) = true := by
    rcases hret with hx | hx <;> simp [hstarted, hx, isOpen]
  simp [Lane.World.step, hok, Seat.detach]

theorem Seated.closeSet (h : Seated w i seat) (hopen : isOpen w.stage = true) (hlock : w.stage.isLocked = false)
    {stage : Stage} (hstage : stage = .closing 0 ∨ stage = .aborting 0 ∨ stage = .closed) :
    Seated { w with stage, seats := w.seats.map Seat.closeSet } i seat.closeSet := by
  have hret := (retiring_open hopen).mp h.retiring
  have hemitting := h.emitting
  have howes : owes w.stage i = false := by
    cases hs : w.stage <;> first | rfl | (rw [hs] at hlock; cases hlock)
  rw [howes] at hemitting
  refine ⟨.next .closeSet h.reachable (h.shuts hopen hlock), ?_, ?_, ?_, h.ready, h.sharedClosed, h.serving⟩
  · rcases hstage with rfl | rfl | rfl <;> rfl
  · rcases hstage with rfl | rfl | rfl <;> exact hemitting
  · rcases hstage with rfl | rfl | rfl
    · exact ⟨by simp [Seat.closeSet, hret.1], hret.2⟩
    · exact nofun
    · trivial

theorem Seated.detach (h : Seated w i seat) (hw : w.stage = .detaching) :
    Seated { w with stage := .closed, seats := w.seats.map Seat.detach, sharedClosed := true, ready := [] } i seat.detach := by
  have hstarted := h.started
  have hemitting := h.emitting
  rw [hw] at hstarted hemitting
  exact ⟨.next .detach h.reachable (h.detaches hw), hstarted, hemitting, trivial, rfl, rfl, h.serving⟩

theorem Sound.step (h : Sound lanes w) {a : Action} (hs : w.step a = some w') : Sound lanes w' := by
  have shifted : ∀ {stage reported}, isOpen stage = isOpen w.stage → (∀ j, owes stage j = owes w.stage j) →
      (∀ j other, w.seats[j]? = some other → Retiring w.stage j other.world → Retiring stage j other.world) →
      Sound lanes { w with stage, reported } := fun hopen howes hret => h.shift rfl rfl rfl rfl hopen howes hret
  have opened : ∀ {stage reported}, isOpen stage = true → isOpen w.stage = true → (∀ j, owes stage j = false) →
      (∀ j, owes w.stage j = false) → Sound lanes { w with stage, reported } := by
    intro stage reported hstage hw howes howes'
    refine shifted (hstage.trans hw.symm) (fun j => (howes j).trans (howes' j).symm) fun j other _ hret => ?_
    rw [retiring_open hstage]
    rwa [retiring_open hw] at hret
  cases step_cases hs with
  | start hw => exact opened rfl (by rw [hw]; rfl) (fun _ => rfl) (by rw [hw]; exact fun _ => rfl)
  | restart => exact h
  | emit event hw => exact opened rfl (by rw [hw]; rfl) (fun _ => rfl) (by rw [hw]; exact fun _ => rfl)
  | ignore => exact h
  | enqueue hw hi hl => exact h.enqueue hw hi hl
  | schedule hw hi hl => exact h.schedule hw hi hl
  | release hw => exact opened rfl (by rw [hw]; rfl) (fun _ => rfl) (by rw [hw]; exact fun _ => rfl)
  | close hw =>
      exact h.spread Seat.closeSet (fun _ => rfl) rfl
        (fun j other hj => hj.closeSet (by rw [hw]; rfl) (by rw [hw]; rfl) (.inl rfl)) (fun j hj => hj) rfl
  | dismiss ha hw =>
      exact h.spread Seat.closeSet (fun _ => rfl) rfl
        (fun j other hj => hj.closeSet (by rw [hw]; rfl) (by rw [hw]; rfl) (.inr (.inr rfl))) (fun j hj => hj) rfl
  | reclose => exact h
  | beginClose hw hi hl => exact h.beginClose hw hi hl
  | begun hw =>
      refine shifted (by rw [hw]; rfl) (by rw [hw]; exact fun _ => rfl) (fun j other hj hret => ?_)
      rw [hw] at hret
      exact closing_of_begun (h.seated j other hj).reachable
        (hret.1.trans (decide_eq_true (List.getElem?_eq_some_iff.mp hj).1))
  | drained hw hdone =>
      exact shifted (by rw [hw]; rfl) (by rw [hw]; exact fun _ => rfl)
        (fun j other hj _ => .inr (hdone other (List.mem_of_getElem? hj)))
  | expire hw => exact shifted (by rw [hw]; rfl) (by rw [hw]; exact fun _ => rfl) (fun _ _ _ _ => nofun)
  | abort hw hi hl => exact h.abort hw hi hl
  | aborted hw =>
      refine shifted (by rw [hw]; rfl) (by rw [hw]; exact fun _ => rfl) (fun j other hj hret => .inl ?_)
      rw [hw] at hret
      exact hret (List.getElem?_eq_some_iff.mp hj).1
  | detach hw => exact h.spread Seat.detach (fun _ => rfl) rfl (fun j other hj => hj.detach hw) nofun rfl
  | discard hw =>
      exact h.spread Seat.closeSet (fun _ => rfl) rfl
        (fun j other hj => hj.closeSet (by rw [hw]; rfl) (by rw [hw]; rfl) (.inr (.inl rfl))) (fun j hj => hj) rfl
  | take hw hserving hi hl => exact h.take hw hserving hi hl
  | work ha hi hat hl => exact h.work ha hi hat hl

/-- The step of the lane at `i` that is part of a step of the set. -/
inductive Moved (w : World) (i : Nat) : Action → Lane.Action → Prop
  | enqueue {event closed} (h : w.stage = .emitting event i closed) : Moved w i .enqueue (.enqueue event)
  | schedule : Moved w i .schedule .scheduleShared
  | closeSet (a : Action) : Moved w i a .closeSet
  | beginClose : Moved w i .beginClose .beginClose
  | abort : Moved w i .abort .abort
  | detach : Moved w i .detach .detach
  | take : Moved w i .take .takeReady
  | work (a : Lane.Action) (ha : isWork a = true) : Moved w i (.work i a) a

/-- Every lane makes one step or none. -/
theorem Sound.moved (h : Sound lanes w) {a : Action} (hs : w.step a = some w') {moved : Seat}
    (hm : w'.seats[i]? = some moved) :
    ∃ seat, w.seats[i]? = some seat ∧ moved.lane = seat.lane ∧
      (moved.world = seat.world ∨ ∃ b, Moved w i a b ∧ seat.world.step seat.lane b = some moved.world) := by
  have still : ∀ {b : Action}, w.seats[i]? = some moved → ∃ seat, w.seats[i]? = some seat ∧ moved.lane = seat.lane ∧
      (moved.world = seat.world ∨ ∃ c, Moved w i b c ∧ seat.world.step seat.lane c = some moved.world) :=
    fun hi => ⟨moved, hi, rfl, .inl rfl⟩
  have placed : ∀ {j seat v b c}, w.seats[j]? = some seat → seat.world.step seat.lane c = some v → Moved w j b c →
      (w.place j seat v).seats[i]? = some moved → ∃ seat, w.seats[i]? = some seat ∧ moved.lane = seat.lane ∧
        (moved.world = seat.world ∨ ∃ c, Moved w i b c ∧ seat.world.step seat.lane c = some moved.world) := by
    intro j seat v b c hj hl hmoved hm
    by_cases hji : j = i
    · subst hji
      rw [place_get hj] at hm
      cases hm
      exact ⟨seat, hj, rfl, .inr ⟨c, hmoved, hl⟩⟩
    · rw [place_get_ne _ _ hji] at hm
      exact still hm
  have shut : ∀ {b}, isOpen w.stage = true → w.stage.isLocked = false → (w.seats.map Seat.closeSet)[i]? = some moved →
      ∃ seat, w.seats[i]? = some seat ∧ moved.lane = seat.lane ∧
        (moved.world = seat.world ∨ ∃ c, Moved w i b c ∧ seat.world.step seat.lane c = some moved.world) := by
    intro b hopen hlock hm
    rw [List.getElem?_map] at hm
    obtain ⟨seat, hi, rfl⟩ := Option.map_eq_some_iff.mp hm
    exact ⟨seat, hi, rfl, .inr ⟨.closeSet, .closeSet b, (h.seated i seat hi).shuts hopen hlock⟩⟩
  cases step_cases hs with
  | enqueue hw hj hl => exact placed hj hl (.enqueue hw) hm
  | schedule hw hj hl =>
      refine placed hj hl .schedule ?_
      rw [← hm]
      simp only [World.push]
      split <;> rfl
  | close hw => exact shut (by rw [hw]; rfl) (by rw [hw]; rfl) hm
  | dismiss ha hw => exact shut (by rw [hw]; rfl) (by rw [hw]; rfl) hm
  | beginClose hw hj hl => exact placed hj hl .beginClose hm
  | abort hw hj hl => exact placed hj hl .abort hm
  | detach hw =>
      change (w.seats.map Seat.detach)[i]? = some moved at hm
      rw [List.getElem?_map] at hm
      obtain ⟨seat, hi, rfl⟩ := Option.map_eq_some_iff.mp hm
      exact ⟨seat, hi, rfl, .inr ⟨.detach, .detach, (h.seated i seat hi).detaches hw⟩⟩
  | discard hw => exact shut (by rw [hw]; rfl) (by rw [hw]; rfl) hm
  | take hw hserving hj hl => exact placed hj hl .take hm
  | work ha hj hat hl => exact placed hj hl (.work _ ha) hm
  | _ => exact still hm

theorem sound_of_reachable (h : (machine lanes).Reachable w) : Sound lanes w :=
  h.invariant (sound_new lanes) fun _ _ _ _ hw hs => hw.step hs

theorem Seated.arranged (h : Seated w i seat) : Arranged seat.lane seat.world :=
  Scheduling.arranged (interleaved_of_reachable h.reachable)

theorem Seated.ready_le (h : Seated w i seat) : seat.world.ready ≤ 1 := by
  have ha := h.arranged
  cases hex : seat.lane.execution with
  | dedicated =>
      have hturns := (ha.dedicated hex).1
      rw [turns] at hturns
      omega
  | shared =>
      cases hc : seat.world.sharedClosed with
      | true =>
          rw [ha.closed hc]
          exact Nat.zero_le _
      | false =>
          have hturns := (ha.shared hex hc).le_one
          rw [turns] at hturns
          omega

theorem Sound.nodup (h : Sound lanes w) : w.ready.Nodup := by
  rw [List.nodup_iff_count_le_one]
  intro i
  by_cases hi : i ∈ w.ready
  · have hseat := List.getElem?_eq_getElem (h.listed i hi)
    have hs := h.seated i _ hseat
    rw [← hs.ready]
    exact hs.ready_le
  · rw [List.count_eq_zero_of_not_mem hi]
    exact Nat.zero_le _

/-- Whoever has events is at the worker, in its queue, or about to be put there. -/
theorem Seated.awaited (h : Seated w i seat) (hex : seat.lane.execution = .shared) (hopen : w.sharedClosed = false)
    (hp : seat.world.state.phase ≠ .finished) (hwork : seat.world.state.queue ≠ [] ∨ seat.world.state.dropped ≠ 0) :
    w.serving = some i ∨ i ∈ w.ready ∨ owes w.stage i = true := by
  have ha := h.arranged
  have hdue := ha.shared hex (h.sharedClosed.trans hopen)
  have hseat := ha.seat
  cases hphase : seat.world.state.phase with
  | idle =>
      obtain ⟨hq, hd, -⟩ := ha.idle hphase
      exact absurd hwork (by simp [hq, hd])
  | finished => exact absurd hphase hp
  | running =>
      refine .inl ((h.serving hex).mpr fun ht => ?_)
      rw [hphase, ht] at hseat
      exact hseat
  | scheduled =>
      rw [hphase] at hdue
      change turns seat.world = 1 at hdue
      by_cases ht : seat.world.turn = .away
      · rw [turns, ht, owed_away, Nat.add_zero] at hdue
        cases hemitting : seat.world.emitting with
        | true => exact .inr (.inr (h.emitting.symm.trans hemitting))
        | false =>
            rw [hemitting, Bool.toNat_false, Nat.add_zero, h.ready] at hdue
            exact .inr (.inl (List.count_pos_iff.mp (by omega)))
      · exact .inl ((h.serving hex).mpr ht)

/-- The steps of the shared worker. -/
def serves (w : World) : Action → Bool
  | .take => true
  | .work i _ => decide (w.serving = some i)
  | _ => false

theorem Sound.worker (h : Sound lanes w) (hne : w.serving ≠ none ∨ w.ready ≠ []) :
    ∃ a, serves w a = true ∧ (w.step a).isSome = true := by
  cases hserving : w.serving with
  | some i =>
      obtain ⟨seat, hi, hex⟩ := h.served i hserving
      have hs := h.seated i seat hi
      obtain ⟨a, v, ha, hl⟩ := exists_work hs.reachable hex ((hs.serving hex).mp hserving)
      refine ⟨.work i a, by simp [serves, hserving], ?_⟩
      simp [Fanout.World.step, World.work, World.act, hi, ha, hserving, hl]
  | none =>
      cases hready : w.ready with
      | nil => exact absurd hne (by simp [hserving, hready])
      | cons i ready =>
          have hi : i ∈ w.ready := by rw [hready]; exact List.mem_cons_self
          obtain ⟨seat, hseat⟩ : ∃ seat, w.seats[i]? = some seat := ⟨_, List.getElem?_eq_getElem (h.listed i hi)⟩
          have hs := h.seated i seat hseat
          have hcount := hs.ready
          rw [hready, List.count_cons_self] at hcount
          have hex : seat.lane.execution = .shared := by
            cases hex : seat.lane.execution with
            | shared => rfl
            | dedicated =>
                have hturns := (hs.arranged.dedicated hex).1
                rw [turns] at hturns
                omega
          have ht : seat.world.turn = .away := by
            by_contra ht
            rw [(hs.serving hex).mpr ht] at hserving
            cases hserving
          refine ⟨.take, rfl, ?_⟩
          simp [Fanout.World.step, World.act, hserving, hready, hseat, Lane.World.step, hex, ht, hcount]

/-- A turn of a shared lane on a budget: a charged step takes one from what
the turn has left, and the pop that begins it brings no more than a quantum. -/
structure Budget (charge : Lane.Action → Bool) (cost : Turn → Nat) (quantum : Nat) : Prop where
  work : ∀ {lane u v a}, (Lane.machine lane).Reachable u → lane.execution = .shared → isWork a = true →
    u.step lane a = some v → cost v.turn + (charge a).toNat ≤ cost u.turn
  take : cost .entering + (charge .takeReady).toNat ≤ quantum

/-- What is left to the lane that the shared worker is at. -/
def remaining (cost : Turn → Nat) (w : World) : Nat :=
  match w.serving with
  | some i => (w.seats[i]?.map fun seat => cost seat.world.turn).getD 0
  | none => 0

/-- The charged steps of the shared worker. -/
def charges (charge : Lane.Action → Bool) (w : World) : Action → Bool
  | .take => charge .takeReady
  | .work i a => decide (w.serving = some i) && charge a
  | _ => false

variable {charge : Lane.Action → Bool} {cost : Turn → Nat} {quantum : Nat}

theorem remaining_of_serving (hserving : w.serving = some i) (hi : w.seats[i]? = some seat) :
    remaining cost w = cost seat.world.turn := by
  simp [remaining, hserving, hi]

theorem remaining_served (hi : w.seats[i]? = some seat) (ready : List Nat) :
    remaining cost { w with ready, serving := some i } = cost seat.world.turn := by
  simp [remaining, hi]

/-- A step that leaves the worker where it is and every lane's turn alone. -/
theorem remaining_eq (hserving : w'.serving = w.serving)
    (hturn : ∀ j : Nat, (w'.seats[j]?.map fun seat => seat.world.turn) = w.seats[j]?.map fun seat => seat.world.turn) :
    remaining cost w' = remaining cost w := by
  unfold remaining
  rw [hserving]
  cases w.serving with
  | none => rfl
  | some j =>
      have h := congrArg (Option.map cost) (hturn j)
      simp only [Option.map_map] at h
      exact congrArg (Option.getD · 0) h

theorem turns_place (hi : w.seats[i]? = some seat) (ht : v.turn = seat.world.turn) (j : Nat) :
    ((w.place i seat v).seats[j]?.map fun seat => seat.world.turn) = w.seats[j]?.map fun seat => seat.world.turn := by
  by_cases hij : i = j
  · subst hij
    rw [place_get hi, hi]
    exact congrArg some ht
  · rw [place_get_ne _ _ hij]

theorem turns_map (f : Seat → Seat) (hf : ∀ seat, (f seat).world.turn = seat.world.turn) (seats : List Seat) (j : Nat) :
    ((seats.map f)[j]?.map fun seat => seat.world.turn) = seats[j]?.map fun seat => seat.world.turn := by
  rw [List.getElem?_map, Option.map_map]
  exact congrArg (fun g => Option.map g seats[j]?) (funext hf)

theorem Budget.worked (hb : Budget charge cost quantum) (h : Sound lanes w) {a : Lane.Action} (ha : isWork a = true)
    (hi : w.seats[i]? = some seat) (hat : seat.lane.execution = .dedicated ∨ w.serving = some i)
    (hl : seat.world.step seat.lane a = some v) :
    remaining cost { w.place i seat v with
      serving := if seat.lane.execution = .shared ∧ v.turn = .away then none else w.serving } +
      (if charges charge w (.work i a) then 1 else 0) ≤ remaining cost w := by
  cases hex : seat.lane.execution with
  | shared =>
      have hserving : w.serving = some i := hat.resolve_left fun hd => by
        rw [hex] at hd
        cases hd
      have hcharge : (if charges charge w (.work i a) then 1 else 0) = (charge a).toNat := by
        rw [charges, decide_eq_true hserving, Bool.true_and]
        exact (Bool.cond_eq_ite _ _ _).symm
      have hwork := hb.work (h.seated i seat hi).reachable hex ha hl
      rw [remaining_of_serving hserving hi, hcharge]
      refine Nat.le_trans (Nat.add_le_add_right ?_ _) hwork
      by_cases ht : v.turn = .away
      · simp [remaining, ht]
      · rw [if_neg (fun hx => ht hx.2), hserving]
        exact Nat.le_of_eq (remaining_served (place_get hi) _)
  | dedicated =>
      have hne : w.serving ≠ some i := by
        intro hserving
        obtain ⟨other, hother, hshared⟩ := h.served i hserving
        obtain rfl := Option.some.inj (hi.symm.trans hother)
        rw [hex] at hshared
        cases hshared
      have hsame : remaining cost (w.place i seat v) = remaining cost w := by
        unfold remaining
        change (match w.serving with | some j => _ | none => 0) = _
        cases hserving : w.serving with
        | none => rfl
        | some j =>
            have hij : i ≠ j := by
              rintro rfl
              exact hne hserving
            exact congrArg (fun found => (Option.map (fun seat : Seat => cost seat.world.turn) found).getD 0)
              (place_get_ne seat v hij)
      have hcharge : (if charges charge w (.work i a) then 1 else 0) = 0 := by simp [charges, hne]
      rw [hcharge, if_neg (by rintro ⟨⟨⟩, -⟩)]
      exact Nat.le_of_eq hsame

/-- A waiting lane's budget falls by every charged step. -/
theorem Budget.step (hb : Budget charge cost quantum) (h : Sound lanes w) {a : Action} (hs : w.step a = some w')
    (hi : i ∈ w.ready) (hi' : i ∈ w'.ready) :
    quantum * w'.ready.idxOf i + remaining cost w' + (if charges charge w a then 1 else 0) ≤
      quantum * w.ready.idxOf i + remaining cost w := by
  have still : ∀ {u : World} {b : Action}, charges charge w b = false → u.ready.idxOf i = w.ready.idxOf i →
      u.serving = w.serving →
      (∀ j : Nat, (u.seats[j]?.map fun seat => seat.world.turn) = w.seats[j]?.map fun seat => seat.world.turn) →
      quantum * u.ready.idxOf i + remaining cost u + (if charges charge w b then 1 else 0) ≤
        quantum * w.ready.idxOf i + remaining cost w := by
    intro u b hcharge hidx hserving hturn
    rw [hidx, remaining_eq hserving hturn, hcharge]
    exact Nat.le_refl _
  cases step_cases hs with
  | start => exact still rfl rfl rfl fun _ => rfl
  | restart => exact still rfl rfl rfl fun _ => rfl
  | emit => exact still rfl rfl rfl fun _ => rfl
  | ignore => exact still rfl rfl rfl fun _ => rfl
  | enqueue _ hj hl => exact still rfl rfl rfl (turns_place hj (tended_enqueue hl).1.turn)
  | schedule _ hj hl =>
      refine still rfl ?_ ?_ ?_
      · simp only [World.push]
        split
        · rfl
        · exact List.idxOf_append_of_mem hi
      · simp only [World.push]
        split <;> rfl
      · simp only [World.push]
        split <;> exact turns_place hj (tended_schedule hl).1.turn
  | release => exact still rfl rfl rfl fun _ => rfl
  | close => exact still rfl rfl rfl (turns_map Seat.closeSet (fun _ => rfl) _)
  | dismiss ha => rcases ha with rfl | rfl <;> exact still rfl rfl rfl (turns_map Seat.closeSet (fun _ => rfl) _)
  | reclose => exact still rfl rfl rfl fun _ => rfl
  | beginClose _ hj hl => exact still rfl rfl rfl (turns_place hj (tended_beginClose hl).1.turn)
  | begun => exact still rfl rfl rfl fun _ => rfl
  | drained => exact still rfl rfl rfl fun _ => rfl
  | expire => exact still rfl rfl rfl fun _ => rfl
  | abort _ hj hl => exact still rfl rfl rfl (turns_place hj (tended_abort hl).1.turn)
  | aborted => exact still rfl rfl rfl fun _ => rfl
  | detach => cases hi'
  | discard => exact still rfl rfl rfl (turns_map Seat.closeSet (fun _ => rfl) _)
  | @take j ready seat v hready hserving hj hl =>
      -- the head of the queue leaves it, so that whoever waits moves up
      obtain ⟨-, -, n, -, rfl⟩ := taken hl
      have hne : j ≠ i := by
        rintro rfl
        have hnodup := h.nodup
        rw [hready] at hnodup
        exact (List.nodup_cons.mp hnodup).1 hi'
      have hidx : w.ready.idxOf i = ready.idxOf i + 1 := by
        rw [hready, List.idxOf_cons_ne _ hne]
      have hbefore : remaining cost w = 0 := by simp [remaining, hserving]
      have hafter : remaining cost { w.place j seat { seat.world with ready := n, turn := .entering } with
          ready, serving := some j } = cost .entering := remaining_served (place_get hj) ready
      have htake := hb.take
      have hcharge : (if charges charge w .take then 1 else 0) = (charge .takeReady).toNat := (Bool.cond_eq_ite _ _ _).symm
      rw [hidx, hbefore, hafter, hcharge, Nat.mul_succ]
      change quantum * ready.idxOf i + _ + _ ≤ _
      omega
  | @work j a seat v ha hj hat hl =>
      have hidx : (if a = .requeue ∧ w.sharedClosed = false then w.ready ++ [j] else w.ready).idxOf i = w.ready.idxOf i := by
        split
        · exact List.idxOf_append_of_mem hi
        · rfl
      have hspent := hb.worked h ha hj hat hl
      change quantum * (if a = .requeue ∧ w.sharedClosed = false then w.ready ++ [j] else w.ready).idxOf i +
        remaining cost { w.place j seat v with
          serving := if seat.lane.execution = .shared ∧ v.turn = .away then none else w.serving } + _ ≤ _
      rw [hidx]
      omega

/-- The callbacks of a turn, from its pop on. -/
def callbacksLeft : Turn → Nat
  | .entering => sharedCallbackQuantum
  | t => left t

/-- The steps of a turn. -/
def stepsLeft : Turn → Nat
  | .entering => 2 * sharedCallbackQuantum + 3
  | .select used => 2 * (sharedCallbackQuantum - used) + 2
  | .act _ used => 2 * (sharedCallbackQuantum - used) + 1
  | .tail => 2
  | .finishing => 1
  | .requeue => 1
  | .failing => 1
  | .away => 0
  | .exited => 0

def turnSteps : Nat := 2 * sharedCallbackQuantum + 4

theorem entered {u : Lane.World} (hex : lane.execution = .shared) (hl : u.step lane .enter = some v) :
    u.turn = .entering ∧ (v.turn = .away ∨ v.turn = .select 0) := by
  simp only [Lane.World.step, hex] at hl
  split at hl
  · next hd _ => cases hd
  · next ht =>
    cases hl
    refine ⟨ht, ?_⟩
    unfold Lane.World.enterShared
    split
    · exact .inl rfl
    · exact .inr rfl
  · cases hl

theorem not_entering {u : Lane.World} {a : Lane.Action} (hex : lane.execution = .shared) (ha : isWork a = true)
    (hne : a ≠ .enter) (hl : u.step lane a = some v) : u.turn ≠ .entering ∧ v.turn ≠ .entering := by
  cases a <;> simp only [isWork, Bool.false_eq_true] at ha <;>
    grind [Lane.World.step, Lane.World.callback, Lane.World.again, Lane.World.settleShared, Lane.World.tail,
      Lane.World.store, Lane.World.finishRunning, Lane.World.failRunning, Lane.World.complete, Lane.World.submit,
      Lane.World.leave, Lane.World.takeOwnership, Lane.World.schedule]

theorem used_lt {u : Lane.World} (h : (Lane.machine lane).Reachable u) {next : Next} {used : Nat}
    (ht : u.turn = .act next used) : used < sharedCallbackQuantum := by
  have hseat := (arranged (interleaved_of_reachable h)).seat
  rw [hseat.running (.inr (.inl ⟨next, used, ht⟩)), ht] at hseat
  exact hseat

theorem callback_budget : Budget invokes callbacksLeft sharedCallbackQuantum where
  work := by
    intro lane u v a hr hex ha hl
    by_cases henter : a = .enter
    · subst henter
      obtain ⟨ht, hv | hv⟩ := entered hex hl
      · rw [ht, hv]
        exact Nat.zero_le _
      · rw [ht, hv]
        exact Nat.le_refl _
    · obtain ⟨hu, hv⟩ := not_entering hex ha henter hl
      have heq : ∀ {t : Turn}, t ≠ .entering → callbacksLeft t = left t := by
        intro t ht
        cases t <;> first | rfl | exact absurd rfl ht
      have hspent := (arranged (interleaved_of_reachable hr)).spends hex henter (step_of_step hl)
      rw [heq hu, heq hv]
      omega
  take := Nat.le_refl _

theorem step_budget : Budget (fun _ => true) stepsLeft turnSteps where
  work := by
    intro lane u v a hr hex ha hl
    have hact : ∀ next used, u.turn = .act next used → used < sharedCallbackQuantum :=
      fun next used ht => used_lt hr ht
    cases a <;> simp only [isWork, Bool.false_eq_true] at ha <;>
      grind [Lane.World.step, Lane.World.enterShared, Lane.World.callback, Lane.World.again, Lane.World.settleShared,
        Lane.World.tail, Lane.World.store, Lane.World.finishRunning, Lane.World.failRunning, Lane.World.complete,
        Lane.World.submit, Lane.World.leave, Lane.World.takeOwnership, Lane.World.schedule, stepsLeft]
  take := Nat.le_refl _

theorem callbacksLeft_le (t : Turn) : callbacksLeft t ≤ sharedCallbackQuantum := by
  unfold callbacksLeft
  split
  · exact Nat.le_refl _
  · exact left_le _

theorem stepsLeft_le (t : Turn) : stepsLeft t ≤ turnSteps := by
  cases t <;> simp only [stepsLeft, turnSteps] <;> omega

theorem remaining_le (hcost : ∀ t, cost t ≤ quantum) (w : World) : remaining cost w ≤ quantum := by
  unfold remaining
  split
  · next j hserving =>
    cases w.seats[j]? with
    | none => exact Nat.zero_le _
    | some seat => exact hcost _
  · exact Nat.zero_le _

/-- While a lane waits, the turns before it use up what stands before it. -/
theorem Budget.waits (hb : Budget charge cost quantum) (hcost : ∀ t, cost t ≤ quantum)
    (h : (machine lanes).Reachable w) {run : List Action} (hrun : (machine lanes).after w run = some w')
    (hwait : ∀ u ∈ (machine lanes).visited w run, i ∈ u.ready) :
    quantum * w'.ready.idxOf i + (machine lanes).charged (charges charge) w run ≤ quantum * (w.ready.idxOf i + 1) := by
  have hspent := h.charged_le (charges charge) (fun u => quantum * u.ready.idxOf i + remaining cost u)
    (fun s a t hs hi hi' ht => hb.step (sound_of_reachable hs) ht hi hi') hrun hwait
  have hle := remaining_le hcost w
  rw [Nat.mul_succ]
  omega

/-- The shared lanes take turns: none stands twice in the ready queue, none
with events is forgotten, and the worker always has a step when one waits. -/
theorem shared_turns (h : (machine lanes).Reachable w) :
    w.ready.Nodup ∧
    (∀ i seat, w.seats[i]? = some seat → seat.lane.execution = .shared → w.sharedClosed = false →
      seat.world.state.phase ≠ .finished → seat.world.state.queue ≠ [] ∨ seat.world.state.dropped ≠ 0 →
      w.serving = some i ∨ i ∈ w.ready ∨ owes w.stage i = true) ∧
    (w.serving ≠ none ∨ w.ready ≠ [] → ∃ a, serves w a = true ∧ (w.step a).isSome = true) :=
  have hs := sound_of_reachable h
  ⟨hs.nodup, fun i seat hi hex hopen hp hwork => (hs.seated i seat hi).awaited hex hopen hp hwork, hs.worker⟩

def twoLanes : List SubscriberLane := [⟨"audit", .two, .shared⟩, ⟨"metrics", .two, .shared⟩]

/-- Both lanes are fed, and the worker is in the callback of the first. -/
def turnRun : List Action :=
  [.start, .emit ⟨0, false⟩, .enqueue, .schedule, .enqueue, .schedule, .release, .take, .work 0 .enter, .work 0 .select]

theorem shared_turns_second :
    ∃ w, (machine twoLanes).after (.new twoLanes) turnRun = some w ∧ w.serving = some 0 ∧ w.ready.Nodup ∧ 1 ∈ w.ready ∧
      ∃ a, serves w a = true ∧ (w.step a).isSome = true := by
  obtain ⟨w, hw, hp⟩ := (Option.any_eq_true (fun w : World => decide (w.serving = some 0 ∧ 1 ∈ w.ready)) _).mp
    (show (Machine.after (machine twoLanes) (.new twoLanes) turnRun).any _ = true by decide +kernel)
  obtain ⟨hserving, hready⟩ := of_decide_eq_true hp
  obtain ⟨hnodup, -, hworker⟩ := shared_turns (Machine.Reachable.after (M := machine _) .init hw)
  exact ⟨w, hw, hserving, hnodup, hready, hworker (.inr (List.ne_nil_of_mem hready))⟩

/-- A lane that waits in the ready queue is overtaken by nobody: until it is
popped the worker makes at most a quantum of callbacks, and a turn's worth of
steps, for each lane before it and the one it is at. -/
theorem bounded_rotation (h : (machine lanes).Reachable w) {run : List Action}
    (hrun : (machine lanes).after w run = some w') (hwait : ∀ u ∈ (machine lanes).visited w run, i ∈ u.ready) :
    sharedCallbackQuantum * w'.ready.idxOf i + (machine lanes).charged (charges invokes) w run ≤
      sharedCallbackQuantum * (w.ready.idxOf i + 1) ∧
    turnSteps * w'.ready.idxOf i + (machine lanes).charged (charges fun _ => true) w run ≤
      turnSteps * (w.ready.idxOf i + 1) ∧
    ∀ u ∈ (machine lanes).visited w run, ∃ a, serves u a = true ∧ (u.step a).isSome = true := by
  refine ⟨callback_budget.waits callbacksLeft_le h hrun hwait, step_budget.waits stepsLeft_le h hrun hwait, fun u hu => ?_⟩
  exact (sound_of_reachable (h.visited hu)).worker (.inr (List.ne_nil_of_mem (hwait u hu)))

def waitRun : List Action := [.work 0 (.callback true), .work 0 .select, .emit ⟨1, false⟩, .enqueue, .work 0 .settle]

theorem bounded_rotation_second :
    ∃ w w', (machine twoLanes).after (.new twoLanes) turnRun = some w ∧ (machine twoLanes).after w waitRun = some w' ∧
      (machine twoLanes).charged (charges invokes) w waitRun = 1 ∧
      sharedCallbackQuantum * w'.ready.idxOf 1 + (machine twoLanes).charged (charges invokes) w waitRun ≤
        sharedCallbackQuantum * (w.ready.idxOf 1 + 1) := by
  obtain ⟨w, hw, hp⟩ := (Option.any_eq_true (fun w : World => decide
      ((∀ u ∈ (machine twoLanes).visited w waitRun, 1 ∈ u.ready) ∧
        (machine twoLanes).charged (charges invokes) w waitRun = 1) &&
      ((machine twoLanes).after w waitRun).isSome) _).mp
    (show (Machine.after (machine twoLanes) (.new twoLanes) turnRun).any _ = true by decide +kernel)
  rw [Bool.and_eq_true, decide_eq_true_eq] at hp
  obtain ⟨⟨hwait, hone⟩, hsome⟩ := hp
  obtain ⟨w', hw'⟩ := Option.isSome_iff_exists.mp hsome
  exact ⟨w, w', hw, hw', hone, (bounded_rotation (Machine.Reachable.after (M := machine _) .init hw) hw' hwait).1⟩

end Taskvisor.Subscribers.Rotation
