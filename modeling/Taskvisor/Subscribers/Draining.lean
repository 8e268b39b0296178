import Taskvisor.Lib.Count
import Taskvisor.Subscribers.Delivery
import Taskvisor.Subscribers.Rotation

namespace Taskvisor.Subscribers.Draining

open Lib Account Scheduling Fanout Rotation
open Lane hiding World Action machine

variable {lanes : List SubscriberLane} {lane : SubscriberLane} {w w' : World} {i : Nat} {seat : Seat} {v v' : Lane.World}

/-- How many more steps the workers can make in a closing lane, at most. -/
def steps (v : Lane.World) : Nat :=
  if v.state.phase = .finished then
    2 * v.ready + match v.turn with
      | .requeue => 5
      | .entering => 2
      | .away => 1
      | _ => 0
  else 10 * (v.state.queue.length + if v.state.dropped = 0 then 0 else 1) + Delivery.place v.turn + 2

theorem steps_running (hp : v.state.phase ≠ .finished) :
    steps v = 10 * (v.state.queue.length + if v.state.dropped = 0 then 0 else 1) + Delivery.place v.turn + 2 := if_neg hp

/-- A lane that comes to its end has no turn in the queue. -/
theorem ready_zero (h : Arranged lane v) (hp : v.state.phase = .running) : v.ready = 0 := by
  cases hex : lane.execution with
  | dedicated =>
      have hturns := (h.dedicated hex).1
      rw [turns] at hturns
      omega
  | shared =>
      cases hc : v.sharedClosed with
      | true => exact h.closed hc
      | false =>
          have hdue := h.shared hex hc
          rw [hp, turns] at hdue
          change v.ready + v.emitting.toNat + owed v.turn = 0 at hdue
          omega

theorem steps_finishRunning (h : Arranged lane v) (hp : v.state.phase = .running) :
    steps (v.finishRunning lane) < steps v := by
  have hready := ready_zero h hp
  have hfin : (v.finishRunning lane).state.phase = .finished := rfl
  have hready' : (v.finishRunning lane).ready = 0 := hready
  rw [steps, if_pos hfin, hready', steps_running (by rw [hp]; exact nofun)]
  simp only [Lane.World.finishRunning]
  rcases leave_turn ({ v with state := v.state.discard }.complete.submit) lane with ht | ht <;> rw [ht] <;> simp <;> omega

theorem steps_lt (hr : (Lane.machine lane).Reachable v) (hc : v.state.closing = true) {a : Lane.Action}
    (ha : isWork a = true ∨ a = .takeReady) (hl : v.step lane a = some v') : steps v' < steps v := by
  have h := arranged (interleaved_of_reachable hr)
  have hseat := h.seat
  have habort := h.aborted
  have hrunning : ∀ {t}, v.turn = t →
      ((∃ used, t = .select used) ∨ (∃ next used, t = .act next used) ∨ t = .tail ∨ t = .finishing) →
      v.state.phase = .running := fun ht hx => Scheduling.Seat.running (ht ▸ hseat) hx
  cases a with
  | takeReady =>
      obtain ⟨-, ht, n, hn, rfl⟩ := taken hl
      by_cases hp : v.state.phase = .finished
      · simp only [steps, hp, if_true, ht, hn]
        omega
      · rw [steps_running hp, steps, if_neg hp, ht]
        simp only [Delivery.place]
        omega
  | enter =>
      have hentering := fun ht : v.turn = .entering => Scheduling.Seat.entering (ht ▸ hseat)
      grind [Lane.World.step, Lane.World.enterDedicated, Lane.World.enterShared, steps, Delivery.place]
  | select =>
      have hp := fun used (ht : v.turn = .select used) => hrunning ht (.inl ⟨used, rfl⟩)
      grind [Lane.World.step, SubscriberLaneState.next, steps, Delivery.place]
  | callback survived =>
      have hp := fun next used (ht : v.turn = .act next used) => hrunning ht (.inr (.inl ⟨next, used, rfl⟩))
      grind [Lane.World.step, Lane.World.callback, Lane.World.again, steps, Delivery.place]
  | settle =>
      have hp := fun next used (ht : v.turn = .act next used) => hrunning ht (.inr (.inl ⟨next, used, rfl⟩))
      grind [Lane.World.step, Lane.World.settleDedicated, Lane.World.settleShared, steps, Delivery.place]
  | finishRunning =>
      simp only [Lane.World.step] at hl
      split at hl
      · next used ht =>
        cases hl
        exact steps_finishRunning h (hrunning ht (.inr (.inl ⟨_, _, rfl⟩)))
      · next ht =>
        cases hl
        exact steps_finishRunning h (hrunning ht (.inr (.inr (.inr rfl))))
      · cases hl
  | tail =>
      have hp := fun ht : v.turn = .tail => hrunning ht (.inr (.inr (.inl rfl)))
      grind [Lane.World.step, Lane.World.tail, Lane.World.store, SubscriberLaneState.isDrained, steps, Delivery.place]
  | requeue =>
      have hp := fun ht : v.turn = .requeue => Scheduling.Seat.requeue (ht ▸ hseat)
      grind [Lane.World.step, Lane.World.schedule, steps, Delivery.place]
  | unwind =>
      have hp := fun next used (ht : v.turn = .act next used) => hrunning ht (.inr (.inl ⟨next, used, rfl⟩))
      grind [Lane.World.step, Lane.World.submit, steps, Delivery.place]
  | failRunning =>
      have hp : v.turn = .failing → v.state.phase = .running := fun ht => by
        rw [ht] at hseat
        cases hp : v.state.phase <;> first | rfl | (rw [hp] at hseat; exact hseat.elim)
      have hready := ready_zero h
      grind [Lane.World.step, Lane.World.failRunning, Lane.World.leave, Lane.World.takeOwnership, Lane.World.complete,
        Lane.World.submit, SubscriberLaneState.discard, SubscriberLaneState.finish, steps, Delivery.place]
  | _ => simp [isWork] at ha

/-- The queue is closed last. -/
theorem queue_open (h : (machine lanes).Reachable w) : w.sharedClosed = true → w.stage = .closed := by
  refine h.invariant (P := fun w => w.sharedClosed = true → w.stage = .closed) nofun fun w a w' _ ih hs hc => ?_
  have moves : ∀ {stage}, w.stage = stage → stage ≠ .closed → w.sharedClosed = true → w'.stage = .closed :=
    fun hw hne hc => absurd (hw.symm.trans (ih hc)) hne
  cases step_cases hs with
  | start hw => exact moves hw nofun hc
  | restart => exact ih hc
  | emit _ hw => exact moves hw nofun hc
  | ignore => exact ih hc
  | enqueue hw => exact moves hw nofun hc
  | @schedule event i closed seat v hw =>
      refine moves hw nofun ?_
      change ((w.place i seat v).push i).sharedClosed = true at hc
      unfold World.push at hc
      split at hc
      · assumption
      · exact hc
  | release hw => exact moves hw nofun hc
  | close hw => exact moves hw nofun hc
  | dismiss => rfl
  | reclose => exact ih hc
  | beginClose hw => exact moves hw nofun hc
  | begun hw => exact moves hw nofun hc
  | drained hw => exact moves hw nofun hc
  | expire hw => exact moves hw nofun hc
  | abort hw => exact moves hw nofun hc
  | aborted hw => exact moves hw nofun hc
  | detach => rfl
  | discard hw => exact moves hw nofun hc
  | take => exact ih hc
  | work => exact ih hc

/-- A lane that has not signalled its end has a step for its worker, or its
turn in the queue. -/
theorem exists_step (h : Seated w i seat) (hw : w.stage = .draining) (hopen : w.sharedClosed = false)
    (hdone : seat.world.state.done = true) :
    (∃ a v', isWork a = true ∧ seat.world.step seat.lane a = some v' ∧
      (seat.lane.execution = .dedicated ∨ w.serving = some i)) ∨ i ∈ w.ready := by
  have ha := h.arranged
  have hclosing := h.retiring
  have hemitting := h.emitting
  rw [hw] at hclosing hemitting
  have hseat := ha.seat
  have hfinished : seat.world.state.phase ≠ .finished := of_decide_eq_true (ha.done.symm.trans hdone)
  have hidle : seat.world.state.phase ≠ .idle := fun hp => absurd (hclosing.symm.trans (ha.idle hp).2.2) nofun
  cases hex : seat.lane.execution with
  | shared =>
      by_cases ht : seat.world.turn = .away
      · right
        have hp : seat.world.state.phase = .scheduled := by
          rw [ht] at hseat
          cases hp : seat.world.state.phase with
          | scheduled => rfl
          | running =>
              rw [hp] at hseat
              exact hseat.elim
          | idle => exact absurd hp hidle
          | finished => exact absurd hp hfinished
        have hdue := ha.shared hex (h.sharedClosed.trans hopen)
        rw [hp] at hdue
        change turns seat.world = 1 at hdue
        have hemitting : seat.world.emitting = false := hemitting
        rw [turns, ht, owed_away, hemitting, Bool.toNat_false, h.ready] at hdue
        exact List.count_pos_iff.mp (by omega)
      · obtain ⟨a, v', hwork, hl⟩ := exists_work h.reachable hex ht
        exact .inl ⟨a, v', hwork, hl, .inr ((h.serving hex).mpr ht)⟩
  | dedicated =>
      left
      obtain ⟨hturns, htail⟩ := ha.dedicated hex
      rw [turns] at hturns
      cases hp : seat.world.state.phase with
      | idle => exact absurd hp hidle
      | finished => exact absurd hp hfinished
      | scheduled =>
          rw [hp] at hseat
          have ht : seat.world.turn = .away := by
            have howed : owed seat.world.turn = 0 := by omega
            cases ht : seat.world.turn <;> rw [ht] at hseat howed <;> first | rfl | exact hseat.elim | cases howed
          exact ⟨.enter, _, rfl, by simp only [Lane.World.step, hex, ht, Lane.World.enterDedicated, hp]; rfl, .inl rfl⟩
      | running =>
          rw [hp] at hseat
          cases ht : seat.world.turn with
          | select used => exact ⟨.select, _, rfl, by simp only [Lane.World.step, ht]; rfl, .inl rfl⟩
          | act next used =>
              cases next with
              | event event => exact ⟨.callback true, _, rfl, by simp only [Lane.World.step, ht]; rfl, .inl rfl⟩
              | overflow dropped => exact ⟨.callback true, _, rfl, by simp only [Lane.World.step, ht]; rfl, .inl rfl⟩
              | finish => exact ⟨.finishRunning, _, rfl, by simp only [Lane.World.step, ht]; rfl, .inl rfl⟩
              | idle => exact ⟨.settle, _, rfl, by simp only [Lane.World.step, ht, hex]; rfl, .inl rfl⟩
          | tail => exact absurd ht htail
          | finishing => exact ⟨.finishRunning, _, rfl, by simp only [Lane.World.step, ht]; rfl, .inl rfl⟩
          | failing => exact ⟨.failRunning, _, rfl, by simp only [Lane.World.step, ht]; rfl, .inl rfl⟩
          | _ =>
              rw [ht] at hseat
              exact hseat.elim

/-- The steps of the callback workers. -/
def drives : Action → Bool
  | .take => true
  | .work _ _ => true
  | _ => false

/-- While the close waits, either every lane has signalled or some worker can
go on. -/
theorem progress (h : (machine lanes).Reachable w) (hw : w.stage = .draining) :
    (w.step .drained).isSome = true ∨ ∃ a, drives a = true ∧ (w.step a).isSome = true := by
  have hs := sound_of_reachable h
  by_cases hall : ∀ seat ∈ w.seats, seat.world.state.done = false
  · left
    have hdone : (w.seats.all fun seat => !seat.world.state.done) = true := by simpa using hall
    simp only [Fanout.World.step, hw, hdone, if_true]
    rfl
  · right
    obtain ⟨seat, hx⟩ := not_forall.mp hall
    obtain ⟨hm, hdone⟩ := Classical.not_imp.mp hx
    obtain ⟨i, hi⟩ := List.mem_iff_getElem?.mp hm
    have hopen : w.sharedClosed = false := by
      cases hc : w.sharedClosed with
      | false => rfl
      | true =>
          have hended := queue_open h hc
          rw [hw] at hended
          cases hended
    rcases exists_step (hs.seated i seat hi) hw hopen (by simpa using hdone) with ⟨a, v', ha, hl, hat⟩ | hready
    · refine ⟨.work i a, rfl, ?_⟩
      have hok : (isWork a && (decide (seat.lane.execution = .dedicated) || decide (w.serving = some i))) = true := by
        rcases hat with hat | hat <;> simp [ha, hat]
      simp [Fanout.World.step, World.work, World.act, hi, hok, hl]
    · obtain ⟨a, ha, hstep⟩ := hs.worker (.inr (List.ne_nil_of_mem hready))
      refine ⟨a, ?_, hstep⟩
      cases a <;> first | rfl | cases ha

/-- The steps left to all the workers of a closing set. -/
def togo (w : World) : Nat := (w.seats.map fun seat => steps seat.world).sum

theorem togo_step (h : Sound lanes w) {a : Action} (hs : w.step a = some w') (hw : w.stage = .draining)
    (hw' : w'.stage = .draining) : togo w' + (if drives a then 1 else 0) ≤ togo w := by
  have placed : ∀ {i seat v b}, w.seats[i]? = some seat → (isWork b = true ∨ b = .takeReady) →
      seat.world.step seat.lane b = some v → ((w.place i seat v).seats.map fun s => steps s.world).sum + 1 ≤ togo w := by
    intro i seat v b hi hb hl
    have hseat := h.seated i seat hi
    have hclosing := hseat.retiring
    rw [hw] at hclosing
    have hlt := steps_lt hseat.reachable hclosing hb hl
    have hsum : ((w.place i seat v).seats.map fun s => steps s.world).sum + steps seat.world = togo w + steps v :=
      sum_map_set (fun s => steps s.world) w.seats _ hi
    omega
  have away : ∀ {stage}, w.stage = stage → stage ≠ .draining → togo w' + (if drives a then 1 else 0) ≤ togo w :=
    fun hstage hne => absurd (hstage.symm.trans hw) hne
  cases step_cases hs with
  | start hstage => exact away hstage nofun
  | restart => exact Nat.le_refl _
  | emit _ hstage => exact away hstage nofun
  | ignore => exact Nat.le_refl _
  | enqueue hstage => exact away hstage nofun
  | schedule hstage => exact away hstage nofun
  | release hstage => exact away hstage nofun
  | close hstage => exact away hstage nofun
  | dismiss _ hstage => exact away hstage nofun
  | reclose => exact Nat.le_refl _
  | beginClose hstage => exact away hstage nofun
  | begun hstage => exact away hstage nofun
  | drained => cases hw'
  | expire => cases hw'
  | abort hstage => exact away hstage nofun
  | aborted hstage => exact away hstage nofun
  | detach hstage => exact away hstage nofun
  | discard hstage => exact away hstage nofun
  | take _ _ hi hl => exact placed hi (.inr rfl) hl
  | work ha hi _ hl => exact placed hi (.inl ha) hl

/-- The wait of `close` is bounded: in every run the workers make no more steps
in it than were left at its start, and until every lane has signalled one of
them can go on. -/
theorem close_waits (h : (machine lanes).Reachable w) {run : List Action} (hrun : (machine lanes).after w run = some w')
    (hstage : ∀ u ∈ (machine lanes).visited w run, u.stage = .draining) :
    togo w' + (machine lanes).charged (fun _ a => drives a) w run ≤ togo w ∧
    ∀ u ∈ (machine lanes).visited w run,
      (u.step .drained).isSome = true ∨ ∃ a, drives a = true ∧ (u.step a).isSome = true :=
  ⟨h.charged_le (fun _ a => drives a) togo (fun _ _ _ hs hw hw' ht => togo_step (sound_of_reachable hs) ht hw hw') hrun
    hstage, fun _ hu => progress (h.visited hu) (hstage _ hu)⟩

def bothKinds : List SubscriberLane := [⟨"audit", .two, .dedicated⟩, ⟨"metrics", .two, .shared⟩]

def closeRun : List Action :=
  [.start, .emit ⟨0, false⟩, .enqueue, .enqueue, .schedule, .release, .close, .beginClose, .beginClose, .beginClose]

def drainRun : List Action := [.work 0 .enter, .take, .work 0 .select, .work 1 .enter]

theorem close_waits_both :
    ∃ w w', (machine bothKinds).after (.new bothKinds) closeRun = some w ∧ (machine bothKinds).after w drainRun = some w' ∧
      (machine bothKinds).charged (fun _ a => drives a) w drainRun = 4 ∧
      togo w' + (machine bothKinds).charged (fun _ a => drives a) w drainRun ≤ togo w := by
  obtain ⟨w, hw, hp⟩ := (Option.any_eq_true (fun w : World => decide
      ((∀ u ∈ (machine bothKinds).visited w drainRun, u.stage = .draining) ∧
        (machine bothKinds).charged (fun _ a => drives a) w drainRun = 4) &&
      ((machine bothKinds).after w drainRun).isSome) _).mp
    (show (Machine.after (machine bothKinds) (.new bothKinds) closeRun).any _ = true by decide +kernel)
  rw [Bool.and_eq_true, decide_eq_true_eq] at hp
  obtain ⟨⟨hstage, hfour⟩, hsome⟩ := hp
  obtain ⟨w', hw'⟩ := Option.isSome_iff_exists.mp hsome
  exact ⟨w, w', hw, hw', hfour, (close_waits (Machine.Reachable.after (M := machine _) .init hw) hw' hstage).1⟩

end Taskvisor.Subscribers.Draining
