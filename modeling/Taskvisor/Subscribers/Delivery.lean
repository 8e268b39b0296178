import Taskvisor.Subscribers.Account

namespace Taskvisor.Subscribers.Delivery

open Lib Lane Account

variable {lane : SubscriberLane} {w w' : World}

/-- The steps of the lane's own worker. -/
def isWorker : Action → Bool
  | .takeReady => true
  | .enter => true
  | .select => true
  | .callback _ => true
  | .settle => true
  | .finishRunning => true
  | .tail => true
  | .requeue => true
  | _ => false

def place : Turn → Nat
  | .act (.event _) _ => 9
  | .act (.overflow _) _ => 9
  | .tail => 8
  | .requeue => 7
  | .away => 6
  | .entering => 5
  | .select _ => 4
  | .act .idle _ => 3
  | .act .finish _ => 2
  | .finishing => 1
  | .failing => 0
  | .exited => 0

/-- How far the worker of a closing lane is from its end. -/
def work (w : World) : Nat :=
  10 * (w.state.queue.length + if w.state.dropped = 0 then 0 else 1) + place w.turn

/-- The worker does not carry an idle decision that is out of date. -/
def Fresh (w : World) : Prop := ∀ used, w.turn = .act .idle used → w.state.isDrained = true

/-- One step of the worker of a closing lane. -/
structure Advance (lane : SubscriberLane) (w w' : World) (a : Action) : Prop where
  worker : isWorker a = true
  graceful : graceful w a = true
  intact : intact lane w a = true
  step : w.step lane a = some w'
  progress : w'.state.phase = .finished ∨ work w' < work w
  closing : w'.state.closing = true
  offered : w'.offered = w.offered
  fresh : Fresh w'

theorem advance_select (h : Faithful lane w) (hc : w.state.closing = true) {used : Nat} (ht : w.turn = .select used) :
    ∃ w', Advance lane w w' .select := by
  have hstep : w.step lane .select = some { w with turn := .act w.state.next.1 used, state := w.state.next.2 } := by
    simp [World.step, ht]
  cases hq : w.state.queue with
  | cons event queue =>
      have hn : w.state.next = (.event event, { w.state with queue }) := by
        simp [SubscriberLaneState.next, h.aborted, hq]
      rw [hn] at hstep
      refine ⟨_, rfl, rfl, rfl, hstep, .inr ?_, hc, rfl, by rintro _ ⟨⟩⟩
      simp only [work, place, ht, hq, List.length_cons]
      omega
  | nil =>
      by_cases hd : w.state.dropped = 0
      · have hn : w.state.next = (.finish, w.state) := by
          simp [SubscriberLaneState.next, h.aborted, hq, hd, hc]
        rw [hn] at hstep
        refine ⟨_, rfl, rfl, rfl, hstep, .inr ?_, hc, rfl, by rintro _ ⟨⟩⟩
        simp only [work, place, ht]
        omega
      · have hn : w.state.next = (.overflow w.state.dropped, { w.state with dropped := 0 }) := by
          simp [SubscriberLaneState.next, h.aborted, hq, hd]
        rw [hn] at hstep
        refine ⟨_, rfl, rfl, rfl, hstep, .inr ?_, hc, rfl, by rintro _ ⟨⟩⟩
        simp only [work, place, ht, hd, if_true, if_false]
        omega

theorem advance_callback (hc : w.state.closing = true) (call : Callback) (used : Nat) (hp : place w.turn = 9)
    (hs : w.step lane (.callback true) = some (w.callback lane call used true)) :
    ∃ w', Advance lane w w' (.callback true) := by
  have hturn : ∀ t, (w.callback lane call used true).turn = t → place t < 9 ∧ ∀ used, t ≠ .act .idle used := by
    rintro t rfl
    simp only [World.callback, World.again, if_true]
    split
    · exact ⟨by simp [place], by rintro _ ⟨⟩⟩
    · split <;> exact ⟨by simp [place], by rintro _ ⟨⟩⟩
  refine ⟨_, rfl, rfl, rfl, hs, .inr ?_, hc, rfl, fun used' ht => absurd rfl ((hturn _ ht).2 used')⟩
  simp only [work, hp]
  exact Nat.add_lt_add_left (hturn _ rfl).1 _

theorem advance_finish (hc : w.state.closing = true)
    (hs : w.step lane .finishRunning = some (w.finishRunning lane)) : ∃ w', Advance lane w w' .finishRunning := by
  refine ⟨_, rfl, rfl, rfl, hs, .inl rfl, hc, rfl, ?_⟩
  intro used ht
  simp only [World.finishRunning, World.leave] at ht
  split at ht <;> cases ht

theorem advance_tail (h : Faithful lane w) (hc : w.state.closing = true) (ht : w.turn = .tail) :
    ∃ w', Advance lane w w' .tail := by
  have hstep : w.step lane .tail = some w.tail := by simp [World.step, ht]
  by_cases hd : w.state.isDrained = true
  · have hw : w.tail = { w with turn := .finishing } := by simp [World.tail, hc, hd]
    rw [hw] at hstep
    refine ⟨_, rfl, rfl, rfl, hstep, .inr ?_, hc, rfl, by rintro _ ⟨⟩⟩
    simp only [work, place, ht]
    omega
  · have hw : w.tail = { w.store .scheduled with turn := .requeue } := by simp [World.tail, h.aborted, hd]
    rw [hw] at hstep
    refine ⟨_, rfl, rfl, rfl, hstep, .inr ?_, hc, rfl, by rintro _ ⟨⟩⟩
    simp only [work, place, ht, World.store]
    omega

/-- A closing lane that has not finished has a step for its worker. -/
theorem advance (h : Faithful lane w) (hc : w.state.closing = true) (hn : w.state.phase ≠ .finished) (hf : Fresh w) :
    ∃ a w', Advance lane w w' a := by
  have hpl := h.placed
  have hstarted : w.started = false := by
    by_contra hs
    simp [h.opened (by simpa using hs)] at hc
  have hemitting : w.emitting = false := by
    by_contra he
    simp [h.emitting (by simpa using he)] at hstarted
  cases ht : w.turn with
  | away =>
      rw [ht] at hpl
      have hp : w.state.phase = .scheduled := by
        cases hp : w.state.phase <;> simp_all [Placed]
      cases hex : lane.execution with
      | dedicated =>
          refine ⟨.enter, { w with turn := .select 0, state := { w.state with phase := .running, ownership := false } },
            rfl, rfl, rfl, by simp [World.step, World.enterDedicated, hex, ht, hp], .inr ?_, hc, rfl, by rintro _ ⟨⟩⟩
          simp only [work, place, ht]
          omega
      | shared =>
          have hready := h.shared hex
          simp only [turns, ht, owed_away, hemitting, Bool.toNat_false, hp, if_true] at hready
          refine ⟨.takeReady, { w with ready := 0, turn := .entering }, rfl, rfl, rfl, ?_, .inr ?_, hc, rfl, by rintro _ ⟨⟩⟩
          · simp only [World.step, hex, ht]
            rw [show w.ready = 1 by omega]
          · simp only [work, place, ht]
            omega
  | entering =>
      have hp := h.scheduled_of_entering ht
      have hex : lane.execution = .shared := by
        cases hex : lane.execution with
        | shared => rfl
        | dedicated =>
            have := (h.dedicated hex).1
            simp [turns, ht] at this
      refine ⟨.enter, { w with turn := .select 0, state := { w.state with phase := .running, ownership := false } },
        rfl, rfl, rfl, by simp [World.step, World.enterShared, hex, ht, hp, h.aborted], .inr ?_, hc, rfl, by rintro _ ⟨⟩⟩
      simp only [work, place, ht]
      omega
  | select used => exact ⟨.select, advance_select h hc ht⟩
  | act next used =>
      cases next with
      | event event =>
          exact ⟨.callback true, advance_callback hc (.event event) used (by rw [ht]; rfl) (by simp [World.step, ht])⟩
      | overflow dropped =>
          exact ⟨.callback true, advance_callback hc (.overflow dropped) used (by rw [ht]; rfl) (by simp [World.step, ht])⟩
      | finish => exact ⟨.finishRunning, advance_finish hc (by simp [World.step, ht])⟩
      | idle =>
          have hdr := hf used ht
          refine ⟨.settle, { w with turn := .finishing }, rfl, rfl, by simp [intact, hdr], ?_, .inr ?_, hc, rfl, by rintro _ ⟨⟩⟩
          · cases hex : lane.execution <;>
              simp [World.step, ht, hex, World.settleDedicated, World.settleShared, hc]
          · simp only [work, place, ht]
            omega
  | tail => exact ⟨.tail, advance_tail h hc ht⟩
  | finishing => exact ⟨.finishRunning, advance_finish hc (by simp [World.step, ht])⟩
  | requeue =>
      refine ⟨.requeue, { w with ready := w.ready + 1, turn := .away }, rfl, rfl, rfl, ?_, .inr ?_, hc, rfl, by rintro _ ⟨⟩⟩
      · simp [World.step, ht, h.schedule hn]
      · simp only [work, place, ht]
        omega
  | failing =>
      rw [ht] at hpl
      cases hp : w.state.phase <;> simp [hp, Placed] at hpl
  | exited =>
      rw [ht] at hpl
      cases hp : w.state.phase <;> simp_all [Placed]

/-- The lane of a machine whose steps all meet both conditions. -/
def intactMachine (lane : SubscriberLane) : Machine World Action :=
  (machine lane).guarded fun w a => graceful w a && intact lane w a

theorem faithful_of_reachable (h : (intactMachine lane).Reachable w) : Faithful lane w :=
  h.invariant Faithful.new fun _ a _ _ hf hs => by
    obtain ⟨hok, hs⟩ := Machine.guarded_step hs
    simp only [Bool.and_eq_true] at hok
    exact hf.step hok.1 hok.2 hs

/-- Left to itself the worker of a closing lane finishes it. -/
theorem drains (h : Faithful lane w) (hc : w.state.closing = true) (hf : Fresh w) :
    ∃ word t, (∀ a ∈ word, isWorker a = true) ∧ (intactMachine lane).after w word = some t ∧ Faithful lane t ∧
      t.state.phase = .finished ∧ t.offered = w.offered := by
  generalize hn : work w = n
  induction n using Nat.strongRecOn generalizing w with
  | _ n ih =>
      by_cases hp : w.state.phase = .finished
      · exact ⟨[], w, nofun, rfl, h, hp, rfl⟩
      · obtain ⟨a, w', ha⟩ := advance h hc hp hf
        have hstep : (intactMachine lane).step w a = some w' := by
          simp [intactMachine, Machine.guarded, ha.graceful, ha.intact, machine, ha.step]
        have h' := h.step ha.graceful ha.intact ha.step
        rcases ha.progress with hfin | hwork
        · refine ⟨[a], w', by simpa using ha.worker, ?_, h', hfin, ha.offered⟩
          rw [Machine.after_cons, hstep]
          rfl
        · obtain ⟨word, t, hworker, hafter, ht, htfin, hoff⟩ := ih (work w') (hn ▸ hwork) h' ha.closing ha.fresh rfl
          refine ⟨a :: word, t, ?_, ?_, ht, htfin, hoff.trans ha.offered⟩
          · intro b hb
            rcases List.mem_cons.mp hb with rfl | hb
            · exact ha.worker
            · exact hworker b hb
          · rw [Machine.after_cons, hstep]
            exact hafter

theorem Faithful.complete (h : Faithful lane w) (hp : w.state.phase = .finished) :
    delivered w.callbacks = accepted w.offered ∧ overflowed w.callbacks = refused w.offered := by
  have hpl := h.placed
  have hevents := h.events
  have hdrops := h.drops
  rw [hp] at hpl
  obtain ⟨hq, hd⟩ := isDrained_iff.mp hpl.finished_closing.1
  have hheld : heldEvents w.turn = [] ∧ heldDropped w.turn = 0 := by
    cases ht : w.turn <;> rw [ht] at hpl <;> simp_all [Placed, heldEvents, heldDropped]
  rw [hheld.1, hq] at hevents
  rw [hheld.2, hd] at hdrops
  exact ⟨by simpa using hevents, by simpa using hdrops⟩

/-- Over every run whose steps meet the condition: what was accepted has been
delivered, is in the worker's hand or is queued, in order, and the refusals are
in overflow callbacks or still counted. A finished lane has nothing left, and a
closing one can always be finished by its worker. -/
theorem lane_delivery (lane : SubscriberLane) (w : World) (h : (intactMachine lane).Reachable w) :
    delivered w.callbacks ++ (heldEvents w.turn ++ w.state.queue) = accepted w.offered ∧
      overflowed w.callbacks + heldDropped w.turn + w.state.dropped = refused w.offered ∧
      (∀ offer ∈ w.offered, offer.2 ≠ .closed) ∧
      (w.state.phase = .finished →
        delivered w.callbacks = accepted w.offered ∧ overflowed w.callbacks = refused w.offered) ∧
      (w.state.closing = true → Fresh w →
        ∃ word t, (∀ a ∈ word, isWorker a = true) ∧ (intactMachine lane).after w word = some t ∧
          t.state.phase = .finished ∧ delivered t.callbacks = accepted w.offered ∧
          overflowed t.callbacks = refused w.offered) := by
  have hf := faithful_of_reachable h
  refine ⟨hf.events, hf.drops, hf.offers, Faithful.complete hf, fun hc hfresh => ?_⟩
  obtain ⟨word, t, hworker, hafter, ht, hfin, hoff⟩ := drains hf hc hfresh
  obtain ⟨hd, ho⟩ := Faithful.complete ht hfin
  rw [hoff] at hd ho
  exact ⟨word, t, hworker, hafter, hfin, hd, ho⟩

def overflowRun : List Action :=
  [.enqueue ⟨0, false⟩, .enqueue ⟨1, false⟩, .enter, .select, .enqueue ⟨2, false⟩, .callback true, .closeSet,
    .beginClose, .select, .callback true, .select, .callback true, .select, .finishRunning]

/-- A full lane of one: the second event is refused, the third delivered, and
the close drains both and the count. -/
theorem lane_delivery_overflow :
    ∃ w, (intactMachine ⟨"audit", ⟨1, by decide, by decide⟩, .dedicated⟩).after World.new overflowRun = some w ∧
      w.state.phase = .finished ∧ accepted w.offered = [⟨0, false⟩, ⟨2, false⟩] ∧ refused w.offered = 1 ∧
      delivered w.callbacks = [⟨0, false⟩, ⟨2, false⟩] ∧ overflowed w.callbacks = 1 := by
  obtain ⟨w, hw, hp⟩ := (Option.any_eq_true (fun w : World => decide (w.state.phase = .finished ∧
      accepted w.offered = [⟨0, false⟩, ⟨2, false⟩] ∧ refused w.offered = 1)) _).mp
    (show (Machine.after (intactMachine ⟨"audit", ⟨1, by decide, by decide⟩, .dedicated⟩) World.new overflowRun).any _ =
      true by decide +kernel)
  obtain ⟨hfin, hacc, href⟩ := of_decide_eq_true hp
  obtain ⟨hd, ho⟩ := (lane_delivery _ w (Machine.Reachable.after .init hw)).2.2.2.1 hfin
  exact ⟨w, hw, hfin, hacc, href, hd.trans hacc, ho.trans href⟩

/-- What every graceful run should give once the lane is finished. -/
def Complete (lane : SubscriberLane) : Prop :=
  ∀ w, ((machine lane).guarded graceful).Reachable w → w.state.phase = .finished →
    delivered w.callbacks = accepted w.offered ∧ overflowed w.callbacks = refused w.offered

def loses (w : World) : Bool :=
  decide (w.state.phase = .finished) && decide (delivered w.callbacks ≠ accepted w.offered)

theorem not_complete_of_run (word : List Action)
    (h : (((machine lane).guarded graceful).after World.new word).any loses = true) : ¬ Complete lane := by
  intro hc
  obtain ⟨w, hw, hl⟩ := (Option.any_eq_true _ _).mp h
  simp only [loses, Bool.and_eq_true, decide_eq_true_eq] at hl
  exact hl.2 (hc w (Machine.Reachable.after .init hw) hl.1).1

/-- The worker sees an empty lane, an event arrives, the close begins, and the
worker finishes the lane on its old decision. Both loops do it. -/
theorem close_overtakes_idle :
    ¬ Complete ⟨"audit", ⟨2, by decide, by decide⟩, .dedicated⟩ ∧
      ¬ Complete ⟨"audit", ⟨2, by decide, by decide⟩, .shared⟩ := by
  refine ⟨not_complete_of_run [.enqueue ⟨0, false⟩, .enter, .select, .callback true, .select, .enqueue ⟨1, false⟩,
      .closeSet, .beginClose, .settle, .finishRunning] ?_,
    not_complete_of_run [.enqueue ⟨0, false⟩, .scheduleShared, .takeReady, .enter, .select, .callback true, .select,
      .enqueue ⟨1, false⟩, .closeSet, .beginClose, .settle, .finishRunning] ?_⟩
  · decide +kernel
  · decide +kernel

end Taskvisor.Subscribers.Delivery
