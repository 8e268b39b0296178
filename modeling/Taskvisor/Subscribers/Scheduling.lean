import Taskvisor.Subscribers.Account

namespace Taskvisor.Subscribers.Scheduling

open Lib Lane Account

variable {lane : SubscriberLane} {w w' : World}

/-- The steps in any order: nothing is left of the order in which the set emits,
closes, aborts and detaches its worker, but that one lock is held while a lane
is fed and scheduled. -/
def step (lane : SubscriberLane) (w : World) : Action → Option World
  | .enqueue event => if w.emitting then none else some (w.enqueue lane event)
  | .beginClose => some w.beginClose
  | .abort => some w.abort
  | .detach => some { w with sharedClosed := true, ready := 0 }
  | a => w.step lane a

def interleaved (lane : SubscriberLane) : Machine World Action := ⟨.new, step lane⟩

theorem step_of_step {a : Action} (h : w.step lane a = some w') : step lane w a = some w' := by
  cases a with
  | enqueue event =>
      simp only [World.step, Bool.and_eq_true, Bool.not_eq_true'] at h
      split at h
      · next hg => simpa [step, hg.2] using h
      · cases h
  | beginClose =>
      simp only [World.step] at h
      split at h
      · exact h
      · cases h
  | abort =>
      simp only [World.step] at h
      split at h
      · exact h
      · cases h
  | detach =>
      simp only [World.step] at h
      split at h
      · exact h
      · cases h
  | _ => exact h

theorem interleaved_of_reachable (h : (machine lane).Reachable w) : (interleaved lane).Reachable w := by
  induction h with
  | init => exact .init
  | next a _ ht ih => exact .next a ih (step_of_step ht)

/-- The places of the worker, with the callbacks a turn still has. -/
def Seat : LanePhase → Turn → Prop
  | .idle, .away => True
  | .scheduled, .away => True
  | .scheduled, .entering => True
  | .scheduled, .requeue => True
  | .running, .select used => used < sharedCallbackQuantum
  | .running, .act _ used => used < sharedCallbackQuantum
  | .running, .tail => True
  | .running, .finishing => True
  | .running, .failing => True
  | .finished, .away => True
  | .finished, .entering => True
  | .finished, .requeue => True
  | .finished, .exited => True
  | _, _ => False

def owns : LanePhase → Bool
  | .idle => true
  | .scheduled => true
  | _ => false

def completed : LanePhase → Nat
  | .finished => 1
  | _ => 0

/-- Whether the subscriber has left for its cleanup. -/
def handed : LanePhase → Turn → Nat
  | .finished, _ => 1
  | _, .failing => 1
  | _, _ => 0

/-- How many turns an open queue owes a lane. -/
def Due : LanePhase → Nat → Prop
  | .scheduled, n => n = 1
  | .finished, n => n ≤ 1
  | _, n => n = 0

structure Arranged (lane : SubscriberLane) (w : World) : Prop where
  seat : Seat w.state.phase w.turn
  idle : w.state.phase = .idle → w.state.queue = [] ∧ w.state.dropped = 0 ∧ w.state.closing = false
  aborted : w.state.abort = true → w.state.closing = true ∧ w.state.phase ≠ .scheduled
  capacity : w.state.queue.length ≤ lane.capacity.get
  ownership : w.state.ownership = owns w.state.phase
  done : w.state.done = decide (w.state.phase ≠ .finished)
  signalled : w.signalled = completed w.state.phase
  submitted : w.submitted = handed w.state.phase w.turn
  shared : lane.execution = .shared → w.sharedClosed = false → Due w.state.phase (turns w)
  closed : w.sharedClosed = true → w.ready = 0
  dedicated : lane.execution = .dedicated → turns w = 0 ∧ w.turn ≠ .tail

theorem arranged_new (lane : SubscriberLane) : Arranged lane .new where
  seat := trivial
  idle := fun _ => ⟨rfl, rfl, rfl⟩
  aborted := nofun
  capacity := Nat.zero_le _
  ownership := rfl
  done := rfl
  signalled := rfl
  submitted := rfl
  shared := fun _ _ => rfl
  closed := fun _ => rfl
  dedicated := fun _ => ⟨rfl, nofun⟩

theorem Seat.away_of_idle {t : Turn} (h : Seat .idle t) : t = .away := by
  cases t <;> first | rfl | exact h.elim

theorem Due.le_one {p : LanePhase} {n : Nat} (h : Due p n) : n ≤ 1 := by
  cases p <;> simp only [Due] at h <;> omega

/-- What `begin_close` and `abort` do to a lane that runs or has finished. -/
theorem Arranged.marks (h : Arranged lane w) (hp : w.state.phase ≠ .idle) (begun : Bool) {queue : List Event}
    (hq : queue.length ≤ lane.capacity.get) (dropped : Nat) {closing abort : Bool}
    (ha : abort = true → closing = true ∧ w.state.phase ≠ .scheduled) :
    Arranged lane { w with begun, state := { w.state with queue, dropped, closing, abort } } :=
  { h with
    idle := fun hi => absurd hi hp
    aborted := ha
    capacity := hq }

/-- What `begin_close` and `abort` do to a lane that has its subscriber. -/
theorem Arranged.retire (h : Arranged lane w) (hp : owns w.state.phase = true) (begun : Bool) {queue : List Event}
    (hq : queue.length ≤ lane.capacity.get) (dropped : Nat) {closing abort : Bool} (ha : abort = true → closing = true) :
    Arranged lane
      { w with begun, state := { w.state with queue, dropped, closing, abort } }.complete.takeOwnership := by
  have ho : w.state.ownership = true := h.ownership.trans hp
  have hn : w.state.phase ≠ .finished := fun hf => by simp [hf, owns] at hp
  have hd : w.state.done = true := by rw [h.done]; exact decide_eq_true hn
  have hs : w.signalled = 0 := by
    rw [h.signalled]
    cases hph : w.state.phase <;> first | rfl | exact absurd hph hn
  have hseat := h.seat
  have hturn : Seat .finished w.turn ∧ handed w.state.phase w.turn = 0 := by
    cases hph : w.state.phase <;> rw [hph] at hseat hp <;> cases ht : w.turn <;> rw [ht] at hseat <;>
      first | exact ⟨trivial, rfl⟩ | exact hseat.elim | cases hp
  have hsub : w.submitted = 0 := h.submitted.trans hturn.2
  simp only [World.complete, World.takeOwnership, World.submit, SubscriberLaneState.finish, ho, hd, if_true]
  exact
    { seat := hturn.1
      idle := by rintro ⟨⟩
      aborted := fun hab => ⟨ha hab, by rintro ⟨⟩⟩
      capacity := hq
      ownership := rfl
      done := rfl
      signalled := by rw [hs]; rfl
      submitted := by rw [hsub]; rfl
      shared := fun hex hc => (h.shared hex hc).le_one
      closed := h.closed
      dedicated := h.dedicated }

theorem Arranged.beginClose (h : Arranged lane w) : Arranged lane w.beginClose := by
  rw [World.beginClose]
  by_cases hi : w.state.phase = .idle
  · rw [if_pos hi]
    exact h.retire (by rw [hi]; rfl) true h.capacity w.state.dropped fun _ => rfl
  · rw [if_neg hi]
    exact h.marks hi true h.capacity w.state.dropped fun hab => ⟨rfl, (h.aborted hab).2⟩

theorem Arranged.abort (h : Arranged lane w) : Arranged lane w.abort := by
  by_cases hp : w.state.phase = .idle ∨ w.state.phase = .scheduled
  · rw [show w.abort = _ from if_pos hp]
    refine h.retire ?_ w.begun (Nat.zero_le _) 0 fun _ => rfl
    rcases hp with hp | hp <;> rw [hp] <;> rfl
  · rw [show w.abort = _ from if_neg hp]
    rw [not_or] at hp
    exact h.marks hp.1 w.begun (Nat.zero_le _) 0 fun _ => ⟨rfl, hp.2⟩

theorem enqueue_finished (lane : SubscriberLane) (hf : w.state.phase = .finished) (he : w.emitting = false) (event : Event) :
    ∃ closedReported, w.enqueue lane event =
      { w with state := { w.state with closedReported }, offered := w.offered ++ [(event, w.verdict lane)] } := by
  by_cases hr : (!event.isInternalDiagnostic && !w.state.closedReported) = true
  · exact ⟨true, by simp [World.enqueue, SubscriberLaneState.enqueue, hf, hr, he]⟩
  · refine ⟨w.state.closedReported, ?_⟩
    simp only [World.enqueue, SubscriberLaneState.enqueue, hf, hr, he, if_true]
    rw [← hf]
    rfl

theorem enqueue_full (hf : w.state.phase ≠ .finished) (hq : w.state.queue.length = lane.capacity.get)
    (he : w.emitting = false) (event : Event) : ∃ dropped, w.enqueue lane event =
      { w with state := { w.state with dropped }, offered := w.offered ++ [(event, w.verdict lane)] } := by
  by_cases hi : event.isInternalDiagnostic = true
  · exact ⟨w.state.dropped, by simp [World.enqueue, SubscriberLaneState.enqueue, hf, hq, hi, he]⟩
  · exact ⟨saturatingAdd w.state.dropped 1, by simp [World.enqueue, SubscriberLaneState.enqueue, hf, hq, hi, he]⟩

theorem enqueue_accepted (hf : w.state.phase ≠ .finished) (hq : w.state.queue.length ≠ lane.capacity.get)
    (hi : w.state.phase ≠ .idle) (he : w.emitting = false) (event : Event) : w.enqueue lane event =
      { w with
        state := { w.state with queue := w.state.queue ++ [event] }
        offered := w.offered ++ [(event, w.verdict lane)] } := by
  simp [World.enqueue, SubscriberLaneState.enqueue, hf, hq, hi, he]

theorem enqueue_idle (hq : w.state.queue.length ≠ lane.capacity.get) (hi : w.state.phase = .idle) (event : Event) :
    w.enqueue lane event =
      { w with
        state := { w.state with queue := w.state.queue ++ [event], phase := .scheduled }
        emitting := decide (lane.execution = .shared)
        offered := w.offered ++ [(event, w.verdict lane)] } := by
  cases hex : lane.execution <;> simp [World.enqueue, SubscriberLaneState.enqueue, hq, hi, hex]

/-- An idle lane becomes scheduled, and a shared one is about to be pushed. -/
theorem Arranged.wakes (h : Arranged lane w) (hi : w.state.phase = .idle) (he : w.emitting = false)
    {queue : List Event} (hq : queue.length ≤ lane.capacity.get) (offered : List (Event × Verdict)) :
    Arranged lane
      { w with
        state := { w.state with queue, phase := .scheduled }
        emitting := decide (lane.execution = .shared)
        offered } := by
  have haway : w.turn = .away := Seat.away_of_idle (hi ▸ h.seat)
  exact
    { h with
      seat := by
        rw [haway]
        trivial
      idle := nofun
      aborted := fun hab => absurd ((h.aborted hab).1.symm.trans (h.idle hi).2.2) (by simp)
      capacity := hq
      ownership := by rw [h.ownership, hi]; rfl
      done := by rw [h.done, hi]; rfl
      signalled := by rw [h.signalled, hi]; rfl
      submitted := by rw [h.submitted, hi, haway]; rfl
      shared := fun hex hc => by
        have hd : turns w = 0 := by
          have := h.shared hex hc
          rwa [hi] at this
        simp only [turns, he, haway, owed_away, Bool.toNat_false] at hd
        simp only [Due, turns, hex, haway, owed_away, decide_true, Bool.toNat_true]
        omega
      dedicated := fun hex => by
        have hd := (h.dedicated hex).1
        simp only [turns, he, haway, owed_away, Bool.toNat_false] at hd
        refine ⟨?_, by simp [haway]⟩
        simp [turns, hex, haway]
        omega }

theorem Arranged.enqueue (h : Arranged lane w) (event : Event) (he : w.emitting = false) :
    Arranged lane (w.enqueue lane event) := by
  by_cases hf : w.state.phase = .finished
  · obtain ⟨closedReported, hw⟩ := enqueue_finished lane hf he event
    rw [hw]
    exact { h with }
  · by_cases hq : w.state.queue.length = lane.capacity.get
    · have hni : w.state.phase ≠ .idle := by
        intro hi
        rw [(h.idle hi).1] at hq
        exact absurd hq (Nat.ne_of_lt lane.capacity.pos)
      obtain ⟨dropped, hw⟩ := enqueue_full hf hq he event
      rw [hw]
      exact { h with idle := fun hi => absurd hi hni }
    · have hlt : (w.state.queue ++ [event]).length ≤ lane.capacity.get := by
        rw [List.length_append]
        exact Nat.lt_of_le_of_ne h.capacity hq
      by_cases hi : w.state.phase = .idle
      · rw [enqueue_idle hq hi]
        exact h.wakes hi he hlt _
      · rw [enqueue_accepted hf hq hi he]
        exact { h with
          idle := fun hidle => absurd hidle hi
          capacity := hlt }

theorem schedule_closed (hc : w.sharedClosed = true) : w.schedule = w := by
  rw [World.schedule, if_pos hc]

theorem schedule_open (hc : w.sharedClosed = false) : w.schedule = { w with ready := w.ready + 1 } := by
  rw [World.schedule, if_neg (by simp [hc])]

/-- The push that was due. -/
theorem Arranged.pushes (h : Arranged lane w) {emitting : Bool} {turn : Turn}
    (hn : 1 + emitting.toNat + owed turn = w.emitting.toNat + owed w.turn) (hs : Seat w.state.phase turn)
    (hh : handed w.state.phase turn = handed w.state.phase w.turn) :
    Arranged lane { w.schedule with emitting, turn } := by
  have hded : lane.execution = .dedicated → False := fun hex => by
    have hd := (h.dedicated hex).1
    rw [turns] at hd
    omega
  cases hc : w.sharedClosed with
  | true =>
      rw [schedule_closed hc]
      exact { h with
        seat := hs
        submitted := h.submitted.trans hh.symm
        shared := fun _ ho => absurd (hc.symm.trans ho) (by simp)
        dedicated := fun hex => (hded hex).elim }
  | false =>
      rw [schedule_open hc]
      exact { h with
        seat := hs
        submitted := h.submitted.trans hh.symm
        shared := fun hex _ => by
          have hturns : w.ready + 1 + emitting.toNat + owed turn = turns w := by
            rw [turns]
            omega
          have hd := h.shared hex hc
          rw [← hturns] at hd
          exact hd
        closed := fun ho => absurd (hc.symm.trans ho) (by simp)
        dedicated := fun hex => (hded hex).elim }

theorem Arranged.scheduleShared (h : Arranged lane w) (he : w.emitting = true) :
    Arranged lane { w.schedule with emitting := false } := by
  have hp : Arranged lane { w.schedule with emitting := false, turn := w.turn } :=
    h.pushes (by rw [he]; rfl) h.seat rfl
  have hturn : w.schedule.turn = w.turn := by rw [World.schedule]; split <;> rfl
  rwa [← hturn] at hp

theorem Seat.requeue {p : LanePhase} (h : Seat p .requeue) : p = .scheduled ∨ p = .finished := by
  cases p <;> first | exact .inl rfl | exact .inr rfl | exact h.elim

theorem Seat.entering {p : LanePhase} (h : Seat p .entering) : p = .scheduled ∨ p = .finished := by
  cases p <;> first | exact .inl rfl | exact .inr rfl | exact h.elim

theorem Arranged.requeue (h : Arranged lane w) (ht : w.turn = .requeue) :
    Arranged lane { w.schedule with turn := .away } := by
  have hseat := h.seat
  rw [ht] at hseat
  have hp : Arranged lane { w.schedule with emitting := w.emitting, turn := .away } := by
    refine h.pushes (by rw [ht, owed_away, owed_requeue]; omega) ?_ ?_
    · rcases hseat.requeue with hp | hp <;> rw [hp] <;> trivial
    · rcases hseat.requeue with hp | hp <;> rw [hp, ht] <;> rfl
  have hemitting : w.schedule.emitting = w.emitting := by rw [World.schedule]; split <;> rfl
  rwa [← hemitting] at hp

theorem Arranged.takeReady (h : Arranged lane w) {ready : Nat} (hex : lane.execution = .shared) (ht : w.turn = .away)
    (hr : w.ready = ready + 1) : Arranged lane { w with ready, turn := .entering } := by
  have hc : w.sharedClosed = false := by
    cases hc : w.sharedClosed with
    | false => rfl
    | true => simp [h.closed hc] at hr
  have hdue := h.shared hex hc
  have hseat := h.seat
  have hsub := h.submitted
  have hturns : turns w = ready + w.emitting.toNat + 1 := by
    rw [turns, ht, hr, owed_away]
    omega
  rw [hturns] at hdue
  have hp : w.state.phase = .scheduled ∨ w.state.phase = .finished := by
    cases hp : w.state.phase <;> simp [hp, Due] at hdue ⊢
  exact { h with
    seat := by rcases hp with hp | hp <;> rw [hp] <;> trivial
    submitted := by rcases hp with hp | hp <;> rw [hp, ht] at hsub <;> rw [hp] <;> exact hsub
    shared := fun _ _ => hdue
    closed := fun ho => absurd (hc.symm.trans ho) (by simp)
    dedicated := fun hd => by simp [hex] at hd }

/-- The worker takes a scheduled lane. -/
theorem Arranged.enters (h : Arranged lane w) (hp : w.state.phase = .scheduled)
    (ht : lane.execution = .dedicated ∧ w.turn = .away ∨ lane.execution = .shared ∧ w.turn = .entering) :
    Arranged lane { w with turn := .select 0, state := { w.state with phase := .running, ownership := false } } := by
  have hsub := h.submitted
  exact
    { h with
      seat := (by decide : 0 < sharedCallbackQuantum)
      idle := by rintro ⟨⟩
      aborted := fun hab => ⟨(h.aborted hab).1, by rintro ⟨⟩⟩
      ownership := rfl
      done := by rw [h.done, hp]; rfl
      signalled := by rw [h.signalled, hp]; rfl
      submitted := by
        rcases ht with ⟨-, ht⟩ | ⟨-, ht⟩ <;> rw [hp, ht] at hsub <;> exact hsub
      shared := fun hex hc => by
        rcases ht with ⟨hd, -⟩ | ⟨-, ht⟩
        · simp [hex] at hd
        · have hdue := h.shared hex hc
          rw [hp] at hdue
          simp only [Due, turns, ht, owed_entering] at hdue
          simp only [Due, turns, owed_select]
          omega
      dedicated := fun hex => by
        rcases ht with ⟨-, ht⟩ | ⟨hs, -⟩
        · have hd := (h.dedicated hex).1
          simp only [turns, ht, owed_away] at hd
          simp only [turns, owed_select]
          exact ⟨hd, by rintro ⟨⟩⟩
        · simp [hex] at hs }

/-- The worker leaves a finished lane alone. -/
theorem Arranged.turnsAway (h : Arranged lane w) (hp : w.state.phase = .finished) {turn : Turn}
    (hs : Seat .finished turn) (ho : owed turn = 0) : Arranged lane { w with turn } :=
  { h with
    seat := hp ▸ hs
    submitted := by
      have hsub := h.submitted
      rw [hp] at hsub ⊢
      exact hsub
    shared := fun hex hc => by
      have hdue := h.shared hex hc
      rw [hp] at hdue ⊢
      simp only [Due, turns, ho] at hdue ⊢
      omega
    dedicated := fun hex => by
      have hd := (h.dedicated hex).1
      simp only [turns, ho] at hd ⊢
      refine ⟨by omega, fun ht => ?_⟩
      rw [ht] at hs
      exact hs }

theorem Seat.running_owed {t : Turn} (h : Seat .running t) : owed t = 0 := by
  cases t <;> first | rfl | exact h.elim

/-- The worker goes on with a running lane. -/
theorem Arranged.runs (h : Arranged lane w) (hp : w.state.phase = .running) (turn : Turn) (hs : Seat .running turn)
    (hh : handed .running turn = handed .running w.turn) (htail : lane.execution = .dedicated → turn ≠ .tail)
    {queue : List Event} (hq : queue.length ≤ lane.capacity.get) (dropped : Nat) (callbacks : List Callback) :
    Arranged lane { w with turn, callbacks, state := { w.state with queue, dropped } } := by
  have hseat := h.seat
  have hsub := h.submitted
  rw [hp] at hseat hsub
  have hturns : w.ready + w.emitting.toNat + owed turn = turns w := by
    rw [turns, hs.running_owed, hseat.running_owed]
  exact
    { h with
      seat := hp ▸ hs
      idle := fun hi => absurd (hp.symm.trans hi) (by rintro ⟨⟩)
      capacity := hq
      submitted := by
        rw [hsub, ← hh, hp]
      shared := fun hex hc => by
        have hd := h.shared hex hc
        rw [← hturns] at hd
        exact hd
      dedicated := fun hex => ⟨hturns.trans (h.dedicated hex).1, htail hex⟩ }

/-- The subscriber goes back into the lane, which parks or is about to be pushed. -/
theorem Arranged.stores (h : Arranged lane w) (hp : w.state.phase = .running) (hf : handed .running w.turn = 0)
    {phase : LanePhase} {turn : Turn} (ha : w.state.abort = false)
    (hpt : phase = .idle ∧ turn = .away ∧ w.state.isDrained = true ∧ w.state.closing = false ∨
      phase = .scheduled ∧ turn = .requeue ∧ lane.execution = .shared) :
    Arranged lane { w.store phase with turn } := by
  have hseat := h.seat
  have hsub := h.submitted
  rw [hp] at hseat hsub
  have hturns : turns w = w.ready + w.emitting.toNat := by rw [turns, hseat.running_owed, Nat.add_zero]
  exact
    { seat := by rcases hpt with ⟨rfl, rfl, -⟩ | ⟨rfl, rfl, -⟩ <;> trivial
      idle := fun hi => by
        rcases hpt with ⟨-, -, hd, hc⟩ | ⟨rfl, -⟩
        · exact ⟨(isDrained_iff.mp hd).1, (isDrained_iff.mp hd).2, hc⟩
        · cases hi
      aborted := fun hab => absurd (ha.symm.trans hab) (by simp)
      capacity := h.capacity
      ownership := by rcases hpt with ⟨rfl, -⟩ | ⟨rfl, -⟩ <;> rfl
      done := by
        refine h.done.trans ?_
        rw [hp]
        rcases hpt with ⟨rfl, -⟩ | ⟨rfl, -⟩ <;> rfl
      signalled := by
        refine h.signalled.trans ?_
        rw [hp]
        rcases hpt with ⟨rfl, -⟩ | ⟨rfl, -⟩ <;> rfl
      submitted := by
        refine (hsub.trans hf).trans ?_
        rcases hpt with ⟨rfl, rfl, -⟩ | ⟨rfl, rfl, -⟩ <;> rfl
      shared := fun hex hc => by
        have hd := h.shared hex hc
        rw [hp, hturns] at hd
        change w.ready + w.emitting.toNat = 0 at hd
        rcases hpt with ⟨rfl, rfl, -⟩ | ⟨rfl, rfl, -⟩
        · exact hd
        · change w.ready + w.emitting.toNat + 1 = 1
          omega
      closed := h.closed
      dedicated := fun hex => by
        rcases hpt with ⟨-, rfl, -⟩ | ⟨-, -, hs⟩
        · have hd := (h.dedicated hex).1
          rw [hturns] at hd
          exact ⟨hd, by rintro ⟨⟩⟩
        · simp [hex] at hs }

theorem leave_turn (w : World) (lane : SubscriberLane) :
    (w.leave lane).turn = .exited ∨ (w.leave lane).turn = .away := by
  rw [World.leave]
  split
  · exact .inl rfl
  · exact .inr rfl

/-- A running lane becomes finished, its subscriber having left. -/
theorem Arranged.ends (h : Arranged lane w) (hp : w.state.phase = .running) {turn : Turn}
    (ht : turn = .exited ∨ turn = .away) :
    Arranged lane
      { w with
        turn
        state := { w.state with queue := [], dropped := 0, phase := .finished, done := false }
        submitted := 1
        signalled := w.signalled + 1 } := by
  have hseat := h.seat
  rw [hp] at hseat
  have hturns : w.ready + w.emitting.toNat + owed turn = turns w := by
    rw [turns, hseat.running_owed]
    rcases ht with rfl | rfl <;> rfl
  exact
    { seat := by rcases ht with rfl | rfl <;> trivial
      idle := by rintro ⟨⟩
      aborted := fun hab => ⟨(h.aborted hab).1, by rintro ⟨⟩⟩
      capacity := Nat.zero_le _
      ownership := by
        refine h.ownership.trans ?_
        rw [hp]
        rfl
      done := rfl
      signalled := by
        rw [h.signalled, hp]
        rfl
      submitted := rfl
      shared := fun hex hc => by
        have hd := h.shared hex hc
        rw [← hturns] at hd
        exact hd.le_one
      closed := h.closed
      dedicated := fun hex => by
        refine ⟨hturns.trans (h.dedicated hex).1, ?_⟩
        rcases ht with rfl | rfl <;> rintro ⟨⟩ }

theorem Arranged.finishRunning (h : Arranged lane w) (hp : w.state.phase = .running) (hf : handed .running w.turn = 0) :
    Arranged lane (w.finishRunning lane) := by
  have hd : w.state.done = true := by rw [h.done, hp]; rfl
  have hs : w.submitted = 0 := by rw [h.submitted, hp, hf]
  have hw : w.finishRunning lane =
      { w with
        turn := (w.leave lane).turn
        state := { w.state with queue := [], dropped := 0, phase := .finished, done := false }
        submitted := 1
        signalled := w.signalled + 1 } := by
    simp [World.finishRunning, World.complete, World.submit, World.leave, SubscriberLaneState.discard,
      SubscriberLaneState.finish, hd, hs]
  rw [hw]
  exact h.ends hp (leave_turn w lane)

theorem Arranged.failRunning (h : Arranged lane w) (ht : w.turn = .failing) : Arranged lane (w.failRunning lane) := by
  have hseat := h.seat
  have hsub := h.submitted
  rw [ht] at hseat
  have hp : w.state.phase = .running := by
    cases hp : w.state.phase <;> rw [hp] at hseat <;> first | rfl | exact hseat.elim
  have hd : w.state.done = true := by rw [h.done, hp]; rfl
  have ho : w.state.ownership = false := by rw [h.ownership, hp]; rfl
  rw [hp, ht] at hsub
  have hw : w.failRunning lane =
      { w with
        turn := (w.leave lane).turn
        state := { w.state with queue := [], dropped := 0, phase := .finished, done := false }
        submitted := 1
        signalled := w.signalled + 1 } := by
    simp [World.failRunning, World.complete, World.takeOwnership, World.leave, SubscriberLaneState.discard,
      SubscriberLaneState.finish, hd, ho, hp, hsub, handed]
  rw [hw]
  exact h.ends hp (leave_turn w lane)

theorem Seat.running {p : LanePhase} {t : Turn} (h : Seat p t)
    (ht : (∃ used, t = .select used) ∨ (∃ next used, t = .act next used) ∨ t = .tail ∨ t = .finishing) :
    p = .running := by
  rcases ht with ⟨used, rfl⟩ | ⟨next, used, rfl⟩ | rfl | rfl <;> cases p <;> first | rfl | exact h.elim

theorem Arranged.enterDedicated (h : Arranged lane w) (hex : lane.execution = .dedicated) (ht : w.turn = .away)
    (hs : w.enterDedicated = some w') : Arranged lane w' := by
  simp only [World.enterDedicated] at hs
  split at hs
  · next hp => cases hs; exact h.enters hp (.inl ⟨hex, ht⟩)
  · next hp => cases hs; exact h.turnsAway hp trivial rfl
  · cases hs
  · cases hs

theorem Arranged.enterShared (h : Arranged lane w) (hex : lane.execution = .shared) (ht : w.turn = .entering) :
    Arranged lane w.enterShared := by
  have hseat := h.seat
  rw [ht] at hseat
  rw [World.enterShared]
  split
  · next hor =>
    refine h.turnsAway ?_ trivial rfl
    rcases hseat.entering with hp | hp
    · rcases hor with hne | hab
      · exact absurd hp hne
      · exact absurd hp (h.aborted hab).2
    · exact hp
  · next hor =>
    rw [not_or, not_not] at hor
    exact h.enters hor.1 (.inr ⟨hex, ht⟩)

theorem Arranged.select (h : Arranged lane w) {used : Nat} (ht : w.turn = .select used) :
    Arranged lane { w with turn := .act w.state.next.1 used, state := w.state.next.2 } := by
  have hseat := h.seat
  rw [ht] at hseat
  have hp := hseat.running (.inl ⟨used, rfl⟩)
  rw [hp] at hseat
  obtain ⟨next, queue, dropped, hnext, hq⟩ : ∃ next queue dropped, w.state.next =
      (next, { w.state with queue, dropped }) ∧ queue.length ≤ lane.capacity.get := by
    simp only [SubscriberLaneState.next]
    split
    · exact ⟨_, _, _, rfl, h.capacity⟩
    · split
      · next event queue hqueue =>
        refine ⟨_, _, _, rfl, ?_⟩
        have hc := h.capacity
        rw [hqueue, List.length_cons] at hc
        omega
      · split
        · exact ⟨_, _, _, rfl, h.capacity⟩
        · split
          · exact ⟨_, _, _, rfl, h.capacity⟩
          · exact ⟨_, _, _, rfl, h.capacity⟩
  rw [hnext]
  exact h.runs hp (.act next used) hseat (by rw [ht]; rfl) (fun _ => by rintro ⟨⟩) hq dropped w.callbacks

theorem Arranged.callback (h : Arranged lane w) {next : Next} {used : Nat} (ht : w.turn = .act next used)
    (call : Callback) (survived : Bool) : Arranged lane (w.callback lane call used survived) := by
  have hseat := h.seat
  rw [ht] at hseat
  have hp := hseat.running (.inr (.inl ⟨next, used, rfl⟩))
  rw [hp] at hseat
  have hlt : used < sharedCallbackQuantum := hseat
  cases survived with
  | false => exact h.runs hp .finishing trivial (by rw [ht]; rfl) (fun _ => by rintro ⟨⟩) h.capacity _ _
  | true =>
      cases hex : lane.execution with
      | dedicated =>
          have hr : Arranged lane { w with turn := .select 0, callbacks := w.callbacks ++ [call], state := w.state } :=
            h.runs hp (.select 0) (by decide : 0 < sharedCallbackQuantum) (by rw [ht]; rfl) (fun _ => by rintro ⟨⟩) h.capacity _ _
          simpa [World.callback, World.again, hex] using hr
      | shared =>
          by_cases hq : used + 1 = sharedCallbackQuantum
          · have hr : Arranged lane { w with turn := .tail, callbacks := w.callbacks ++ [call], state := w.state } :=
              h.runs hp .tail trivial (by rw [ht]; rfl) (fun hd => by simp [hex] at hd) h.capacity _ _
            simpa [World.callback, World.again, hex, hq] using hr
          · have hr : Arranged lane
                { w with turn := .select (used + 1), callbacks := w.callbacks ++ [call], state := w.state } :=
              h.runs hp (.select (used + 1)) (Nat.lt_of_le_of_ne hlt hq : used + 1 < sharedCallbackQuantum)
                (by rw [ht]; rfl) (fun _ => by rintro ⟨⟩) h.capacity _ _
            simpa [World.callback, World.again, hex, hq] using hr

/-- The end of a turn that found nothing more, or has used up its callbacks. -/
theorem Arranged.parks (h : Arranged lane w) (hp : w.state.phase = .running) (hf : handed .running w.turn = 0) :
    Arranged lane { w with turn := .finishing } ∧ Arranged lane { w with turn := .select 0 } ∧
      (w.state.abort = false → w.state.closing = false → w.state.isDrained = true →
        Arranged lane { w.store .idle with turn := .away }) ∧
      (w.state.abort = false → lane.execution = .shared → Arranged lane { w.store .scheduled with turn := .requeue }) := by
  refine ⟨?_, ?_, fun ha hc hd => ?_, fun ha hex => ?_⟩
  · exact h.runs hp .finishing trivial hf.symm (fun _ => nofun) h.capacity _ _
  · exact h.runs hp (.select 0) (by decide : 0 < sharedCallbackQuantum) hf.symm (fun _ => nofun) h.capacity _ _
  · exact h.stores hp hf ha (.inl ⟨rfl, rfl, hd, hc⟩)
  · exact h.stores hp hf ha (.inr ⟨rfl, rfl, hex⟩)

theorem Arranged.settle (h : Arranged lane w) {next : Next} {used : Nat} (ht : w.turn = .act next used) :
    (lane.execution = .dedicated → Arranged lane w.settleDedicated) ∧
      (lane.execution = .shared → Arranged lane w.settleShared) := by
  have hseat := h.seat
  rw [ht] at hseat
  have hp := hseat.running (.inr (.inl ⟨next, used, rfl⟩))
  obtain ⟨hfin, hsel, hidle, hsch⟩ := h.parks hp (by rw [ht]; rfl)
  refine ⟨fun hex => ?_, fun hex => ?_⟩
  · rw [World.settleDedicated]
    split
    · exact hfin
    · next hac =>
      rw [Bool.or_eq_true, not_or, Bool.not_eq_true, Bool.not_eq_true] at hac
      split
      · next hd => exact hidle hac.1 hac.2 hd
      · exact hsel
  · rw [World.settleShared]
    split
    · exact hfin
    · next hac =>
      rw [Bool.or_eq_true, not_or, Bool.not_eq_true, Bool.not_eq_true] at hac
      split
      · next hd => exact hidle hac.1 hac.2 hd
      · exact hsch hac.1 hex

theorem Arranged.tail (h : Arranged lane w) (ht : w.turn = .tail) : Arranged lane w.tail := by
  have hseat := h.seat
  rw [ht] at hseat
  have hp := hseat.running (.inr (.inr (.inl rfl)))
  have hex : lane.execution = .shared := by
    cases hex : lane.execution with
    | shared => rfl
    | dedicated => exact absurd ht (h.dedicated hex).2
  obtain ⟨hfin, -, hidle, hsch⟩ := h.parks hp (by rw [ht]; rfl)
  simp only [World.tail]
  split
  · exact hfin
  · next hac =>
    rw [Bool.or_eq_true, not_or, Bool.not_eq_true, Bool.not_eq_true, Bool.and_eq_false_iff] at hac
    split
    · next hd =>
      refine hidle hac.1 (hac.2.resolve_right ?_) hd
      simp [hd]
    · exact hsch hac.1 hex

theorem Arranged.unwind (h : Arranged lane w) {next : Next} {used : Nat} (ht : w.turn = .act next used) :
    Arranged lane { w.submit with turn := .failing } := by
  have hseat := h.seat
  have hsub := h.submitted
  rw [ht] at hseat hsub
  have hp := hseat.running (.inr (.inl ⟨next, used, rfl⟩))
  rw [hp] at hsub
  have hturns : w.ready + w.emitting.toNat + owed .failing = turns w := by rw [turns, ht]; rfl
  exact
    { h with
      seat := by
        change Seat w.state.phase .failing
        rw [hp]
        trivial
      submitted := by
        change w.submitted + 1 = handed w.state.phase .failing
        rw [hsub, hp]
        rfl
      shared := fun hex hc => by
        have hd := h.shared hex hc
        rw [← hturns] at hd
        exact hd
      dedicated := fun hex => ⟨hturns.trans (h.dedicated hex).1, by rintro ⟨⟩⟩ }

theorem Arranged.step (h : Arranged lane w) {a : Action} (hs : step lane w a = some w') : Arranged lane w' := by
  cases a with
  | enqueue event =>
      simp only [Scheduling.step] at hs
      split at hs
      · cases hs
      · next he => cases hs; exact h.enqueue event (by simpa using he)
  | scheduleShared =>
      simp only [Scheduling.step, World.step] at hs
      split at hs
      · next he => cases hs; exact h.scheduleShared he
      · cases hs
  | closeSet =>
      simp only [Scheduling.step, World.step] at hs
      split at hs
      · cases hs; exact { h with }
      · cases hs
  | beginClose => cases hs; exact h.beginClose
  | abort => cases hs; exact h.abort
  | detach =>
      cases hs
      exact { h with
        shared := fun _ ho => by cases ho
        closed := fun _ => rfl
        dedicated := fun hex => by
          obtain ⟨hd, ht⟩ := h.dedicated hex
          simp only [turns] at hd ⊢
          exact ⟨by omega, ht⟩ }
  | takeReady =>
      simp only [Scheduling.step, World.step] at hs
      split at hs
      · next hex ht hr => cases hs; exact h.takeReady hex ht hr
      · cases hs
  | enter =>
      simp only [Scheduling.step, World.step] at hs
      split at hs
      · next hex ht => exact h.enterDedicated hex ht hs
      · next hex ht => cases hs; exact h.enterShared hex ht
      · cases hs
  | select =>
      simp only [Scheduling.step, World.step] at hs
      split at hs
      · next used ht => cases hs; exact h.select ht
      · cases hs
  | callback survived =>
      simp only [Scheduling.step, World.step] at hs
      split at hs
      · next event used ht => cases hs; exact h.callback ht _ survived
      · next dropped used ht => cases hs; exact h.callback ht _ survived
      · cases hs
  | settle =>
      simp only [Scheduling.step, World.step] at hs
      split at hs
      · next ht hex => cases hs; exact (h.settle ht).1 hex
      · next ht hex => cases hs; exact (h.settle ht).2 hex
      · cases hs
  | finishRunning =>
      simp only [Scheduling.step, World.step] at hs
      have hseat := h.seat
      split at hs
      · next used ht =>
        cases hs
        rw [ht] at hseat
        exact h.finishRunning (hseat.running (.inr (.inl ⟨_, _, rfl⟩))) (by rw [ht]; rfl)
      · next ht =>
        cases hs
        rw [ht] at hseat
        exact h.finishRunning (hseat.running (.inr (.inr (.inr rfl)))) (by rw [ht]; rfl)
      · cases hs
  | tail =>
      simp only [Scheduling.step, World.step] at hs
      split at hs
      · next ht => cases hs; exact h.tail ht
      · cases hs
  | requeue =>
      simp only [Scheduling.step, World.step] at hs
      split at hs
      · next ht => cases hs; exact h.requeue ht
      · cases hs
  | unwind =>
      simp only [Scheduling.step, World.step] at hs
      split at hs
      · next event used ht => cases hs; exact h.unwind ht
      · next dropped used ht => cases hs; exact h.unwind ht
      · cases hs
  | failRunning =>
      simp only [Scheduling.step, World.step] at hs
      split at hs
      · next ht => cases hs; exact h.failRunning ht
      · cases hs

theorem arranged (h : (interleaved lane).Reachable w) : Arranged lane w :=
  h.invariant (arranged_new lane) fun _ _ _ _ hw hs => hw.step hs

theorem schedule_state (w : World) : w.schedule.state = w.state := by
  rw [World.schedule]
  split <;> rfl

/-- Nothing brings a finished lane back. -/
theorem Arranged.absorbs (h : Arranged lane w) (hp : w.state.phase = .finished) {a : Action}
    (hs : Scheduling.step lane w a = some w') : w'.state.phase = .finished := by
  have hseat := h.seat
  rw [hp] at hseat
  cases a with
  | enqueue event =>
      simp only [Scheduling.step] at hs
      split at hs
      · cases hs
      · next he =>
        cases hs
        obtain ⟨closedReported, hw⟩ := enqueue_finished lane hp (by simpa using he) event
        rw [hw]
        exact hp
  | scheduleShared =>
      simp only [Scheduling.step, World.step] at hs
      split at hs
      · cases hs
        exact (congrArg SubscriberLaneState.phase (schedule_state w)).trans hp
      · cases hs
  | closeSet =>
      simp only [Scheduling.step, World.step] at hs
      split at hs
      · cases hs; exact hp
      · cases hs
  | beginClose =>
      cases hs
      rw [show w.beginClose = _ from if_neg (by simp [hp])]
      exact hp
  | abort =>
      cases hs
      rw [show w.abort = _ from if_neg (by simp [hp, SubscriberLaneState.discard])]
      exact hp
  | detach => cases hs; exact hp
  | takeReady =>
      simp only [Scheduling.step, World.step] at hs
      split at hs
      · cases hs; exact hp
      · cases hs
  | enter =>
      simp only [Scheduling.step, World.step] at hs
      split at hs
      · simp only [World.enterDedicated, hp] at hs
        cases hs
        exact hp
      · cases hs
        rw [show w.enterShared = _ from if_pos (by simp [hp])]
        exact hp
      · cases hs
  | select =>
      simp only [Scheduling.step, World.step] at hs
      split at hs
      · next used ht => rw [ht] at hseat; exact hseat.elim
      · cases hs
  | callback survived =>
      simp only [Scheduling.step, World.step] at hs
      split at hs
      · next event used ht => rw [ht] at hseat; exact hseat.elim
      · next dropped used ht => rw [ht] at hseat; exact hseat.elim
      · cases hs
  | settle =>
      simp only [Scheduling.step, World.step] at hs
      split at hs
      · next ht hex => rw [ht] at hseat; exact hseat.elim
      · next ht hex => rw [ht] at hseat; exact hseat.elim
      · cases hs
  | finishRunning =>
      simp only [Scheduling.step, World.step] at hs
      split at hs
      · next used ht => rw [ht] at hseat; exact hseat.elim
      · next ht => rw [ht] at hseat; exact hseat.elim
      · cases hs
  | tail =>
      simp only [Scheduling.step, World.step] at hs
      split at hs
      · next ht => rw [ht] at hseat; exact hseat.elim
      · cases hs
  | requeue =>
      simp only [Scheduling.step, World.step] at hs
      split at hs
      · cases hs
        exact (congrArg SubscriberLaneState.phase (schedule_state w)).trans hp
      · cases hs
  | unwind =>
      simp only [Scheduling.step, World.step] at hs
      split at hs
      · next event used ht => rw [ht] at hseat; exact hseat.elim
      · next dropped used ht => rw [ht] at hseat; exact hseat.elim
      · cases hs
  | failRunning =>
      simp only [Scheduling.step, World.step] at hs
      split at hs
      · next ht => rw [ht] at hseat; exact hseat.elim
      · cases hs

/-- The callbacks a shared turn still has. -/
def left : Turn → Nat
  | .select used => sharedCallbackQuantum - used
  | .act _ used => sharedCallbackQuantum - used
  | _ => 0

def invokes : Action → Bool
  | .callback _ => true
  | .unwind => true
  | _ => false

theorem left_le (t : Turn) : left t ≤ sharedCallbackQuantum := by
  cases t <;> simp only [left] <;> omega

theorem schedule_turn (w : World) : w.schedule.turn = w.turn := by
  rw [World.schedule]
  split <;> rfl

theorem takeOwnership_turn (w : World) : w.takeOwnership.turn = w.turn := by
  rw [World.takeOwnership]
  split <;> rfl

theorem beginClose_turn (w : World) : w.beginClose.turn = w.turn := by
  rw [World.beginClose]
  split
  · exact takeOwnership_turn _
  · rfl

theorem abort_turn (w : World) : w.abort.turn = w.turn := by
  rw [World.abort]
  split
  · exact takeOwnership_turn _
  · rfl

theorem left_leave (w : World) : left (w.leave lane).turn = 0 := by
  rcases leave_turn w lane with ht | ht <;> rw [ht] <;> rfl

theorem left_finishRunning (w : World) : left (w.finishRunning lane).turn = 0 := left_leave _

theorem left_failRunning (w : World) : left (w.failRunning lane).turn = 0 := by
  rw [World.failRunning]
  split <;> exact left_leave _

theorem left_settleShared (w : World) : left w.settleShared.turn = 0 := by
  rw [World.settleShared]
  split
  · rfl
  · split <;> rfl

theorem left_tail (w : World) : left w.tail.turn = 0 := by
  simp only [World.tail]
  split
  · rfl
  · split <;> rfl

theorem left_callback (hex : lane.execution = .shared) {used : Nat} (hlt : used < sharedCallbackQuantum)
    (call : Callback) (survived : Bool) :
    1 + left (w.callback lane call used survived).turn ≤ sharedCallbackQuantum - used := by
  cases survived with
  | false =>
      change 1 + 0 ≤ _
      omega
  | true =>
      simp only [World.callback, World.again, hex, if_true]
      split
      · change 1 + 0 ≤ _
        omega
      · simp only [left]
        omega

/-- A callback takes from what the turn has left, and only `enter` refills it. -/
theorem Arranged.spends (h : Arranged lane w) (hex : lane.execution = .shared) {a : Action} (ha : a ≠ .enter)
    (hs : Scheduling.step lane w a = some w') : (invokes a).toNat + left w'.turn ≤ left w.turn := by
  have hseat := h.seat
  have idle : ∀ {t : Turn}, left t = 0 → false.toNat + left t ≤ left w.turn := fun ht => by
    rw [ht]
    exact Nat.zero_le _
  have act : ∀ {next : Next} {used : Nat}, w.turn = .act next used → used < sharedCallbackQuantum := by
    intro next used ht
    rw [ht] at hseat
    rw [hseat.running (.inr (.inl ⟨next, used, rfl⟩))] at hseat
    exact hseat
  have same : ∀ {t : Turn}, t = w.turn → false.toNat + left t ≤ left w.turn := fun ht =>
    Nat.le_of_eq (by rw [ht, Bool.toNat_false, Nat.zero_add])
  cases a with
  | enter => exact absurd rfl ha
  | enqueue event =>
      simp only [Scheduling.step] at hs
      split at hs
      · cases hs
      · cases hs; exact same rfl
  | scheduleShared =>
      simp only [Scheduling.step, World.step] at hs
      split at hs
      · cases hs; exact same (schedule_turn w)
      · cases hs
  | closeSet =>
      simp only [Scheduling.step, World.step] at hs
      split at hs
      · cases hs; exact same rfl
      · cases hs
  | beginClose => cases hs; exact same (beginClose_turn w)
  | abort => cases hs; exact same (abort_turn w)
  | detach => cases hs; exact same rfl
  | takeReady =>
      simp only [Scheduling.step, World.step] at hs
      split at hs
      · cases hs; exact idle rfl
      · cases hs
  | select =>
      simp only [Scheduling.step, World.step] at hs
      split at hs
      · next used ht =>
        cases hs
        rw [ht]
        exact Nat.le_of_eq (Nat.zero_add _)
      · cases hs
  | callback survived =>
      simp only [Scheduling.step, World.step] at hs
      split at hs
      · next event used ht => cases hs; rw [ht]; exact left_callback hex (act ht) _ survived
      · next dropped used ht => cases hs; rw [ht]; exact left_callback hex (act ht) _ survived
      · cases hs
  | settle =>
      simp only [Scheduling.step, World.step] at hs
      split at hs
      · next hd => simp [hex] at hd
      · cases hs; exact idle (left_settleShared w)
      · cases hs
  | finishRunning =>
      simp only [Scheduling.step, World.step] at hs
      split at hs
      · cases hs; exact idle (left_finishRunning w)
      · cases hs; exact idle (left_finishRunning w)
      · cases hs
  | tail =>
      simp only [Scheduling.step, World.step] at hs
      split at hs
      · cases hs; exact idle (left_tail w)
      · cases hs
  | requeue =>
      simp only [Scheduling.step, World.step] at hs
      split at hs
      · cases hs; exact idle rfl
      · cases hs
  | unwind =>
      have spent : ∀ {next : Next} {used : Nat}, w.turn = .act next used → 1 + left .failing ≤ left w.turn := by
        intro next used ht
        have hlt := act ht
        rw [ht]
        change 1 ≤ sharedCallbackQuantum - used
        omega
      simp only [Scheduling.step, World.step] at hs
      split at hs
      · next event used ht => cases hs; exact spent ht
      · next dropped used ht => cases hs; exact spent ht
      · cases hs
  | failRunning =>
      simp only [Scheduling.step, World.step] at hs
      split at hs
      · cases hs; exact idle (left_failRunning w)
      · cases hs

/-- The callbacks of a run in which the worker takes the lane no more. -/
theorem spent (h : (interleaved lane).Reachable w) (hex : lane.execution = .shared) {word : List Action}
    (hword : Action.enter ∉ word) (hw : (interleaved lane).after w word = some w') :
    word.countP invokes + left w'.turn ≤ left w.turn := by
  induction word generalizing w with
  | nil =>
      cases hw
      exact Nat.le_of_eq (Nat.zero_add _)
  | cons a word ih =>
      rw [List.mem_cons, not_or] at hword
      obtain ⟨m, hm, ht⟩ := Option.bind_eq_some_iff.mp hw
      have hstep := (arranged h).spends hex (Ne.symm hword.1) hm
      have hrest := ih (.next a h hm) hword.2 ht
      rw [List.countP_cons]
      cases hi : invokes a with
      | true =>
          rw [hi, Bool.toNat_true] at hstep
          rw [if_pos rfl]
          omega
      | false =>
          rw [hi, Bool.toNat_false] at hstep
          rw [if_neg (by simp)]
          omega

/-- A turn runs from its `enter` up to the next one. -/
theorem turn_callbacks (h : (interleaved lane).Reachable w) (hex : lane.execution = .shared) {word : List Action}
    (hword : Action.enter ∉ word) (hw : (interleaved lane).after w (.enter :: word) = some w') :
    word.countP invokes ≤ sharedCallbackQuantum := by
  obtain ⟨m, hm, ht⟩ := Option.bind_eq_some_iff.mp hw
  have hspent := spent (.next .enter h hm) hex hword ht
  have hle := left_le m.turn
  omega

theorem absorbed (h : (interleaved lane).Reachable w) (hp : w.state.phase = .finished) {word : List Action}
    (hw : (interleaved lane).after w word = some w') : w'.state.phase = .finished :=
  h.keeps hp (fun _ _ _ hr hf hs => (arranged hr).absorbs hf hs) hw

/-- A lane whose turns are neither lost nor doubled. `ready` counts its entries
in the shared queue, `emitting` and `requeue` a push that is due, and `entering`
an entry the worker has popped. -/
structure Disciplined (lane : SubscriberLane) (w : World) : Prop where
  idle : w.state.phase = .idle → w.state.queue = [] ∧ w.state.dropped = 0 ∧ w.state.closing = false
  ownership : w.state.ownership = true ↔ w.state.phase = .idle ∨ w.state.phase = .scheduled
  submitted : w.submitted ≤ 1 ∧ (w.state.ownership = true → w.submitted = 0) ∧
    (w.state.phase = .finished → w.submitted = 1)
  capacity : w.state.queue.length ≤ lane.capacity.get
  scheduled : lane.execution = .shared → w.sharedClosed = false → w.state.phase = .scheduled →
    w.ready + w.emitting.toNat + (decide (w.turn = .requeue)).toNat + (decide (w.turn = .entering)).toNat = 1
  alone : lane.execution = .shared → w.sharedClosed = false → w.state.phase = .running →
    w.ready = 0 ∧ w.emitting = false
  signalled : w.signalled = if w.state.phase = .finished then 1 else 0
  absorbing : w.state.phase = .finished → ∀ word w', (interleaved lane).after w word = some w' →
    w'.state.phase = .finished ∧ w'.signalled = 1 ∧ w'.submitted = 1
  quantum : lane.execution = .shared → ∀ word w', Action.enter ∉ word →
    (interleaved lane).after w (.enter :: word) = some w' → word.countP invokes ≤ sharedCallbackQuantum

theorem owed_eq (t : Turn) : owed t = (decide (t = .requeue)).toNat + (decide (t = .entering)).toNat := by
  cases t <;> rfl

theorem Arranged.ownership_iff (h : Arranged lane w) :
    w.state.ownership = true ↔ w.state.phase = .idle ∨ w.state.phase = .scheduled := by
  rw [h.ownership]
  cases w.state.phase <;> simp [owns]

theorem Arranged.submitted_le (h : Arranged lane w) : w.submitted ≤ 1 := by
  rw [h.submitted]
  cases w.state.phase <;> cases w.turn <;> simp [handed]

theorem Arranged.submitted_zero (h : Arranged lane w) (ho : w.state.ownership = true) : w.submitted = 0 := by
  have hseat := h.seat
  rw [h.submitted]
  rcases h.ownership_iff.mp ho with hp | hp <;> rw [hp] at hseat ⊢ <;> cases ht : w.turn <;>
    rw [ht] at hseat <;> first | rfl | exact hseat.elim

theorem Arranged.submitted_one (h : Arranged lane w) (hp : w.state.phase = .finished) : w.submitted = 1 := by
  rw [h.submitted, hp]
  rfl

theorem Arranged.signalled_eq (h : Arranged lane w) : w.signalled = if w.state.phase = .finished then 1 else 0 := by
  rw [h.signalled]
  cases w.state.phase <;> rfl

/-- Every interleaving keeps the lane's turns in order. -/
theorem lane_scheduling (lane : SubscriberLane) (w : World) (h : (interleaved lane).Reachable w) :
    Disciplined lane w where
  idle := (arranged h).idle
  ownership := (arranged h).ownership_iff
  submitted := ⟨(arranged h).submitted_le, (arranged h).submitted_zero, (arranged h).submitted_one⟩
  capacity := (arranged h).capacity
  scheduled := fun hex hc hp => by
    have hdue := (arranged h).shared hex hc
    rw [hp, turns, owed_eq, ← Nat.add_assoc] at hdue
    exact hdue
  alone := fun hex hc hp => by
    have hdue := (arranged h).shared hex hc
    rw [hp, turns] at hdue
    change w.ready + w.emitting.toNat + owed w.turn = 0 at hdue
    cases he : w.emitting with
    | false => exact ⟨by omega, rfl⟩
    | true => simp [he] at hdue
  signalled := (arranged h).signalled_eq
  absorbing := fun hp word w' hw => by
    have hf := absorbed h hp hw
    have ha := arranged (h.after hw)
    exact ⟨hf, ha.signalled_eq.trans (if_pos hf), ha.submitted_one hf⟩
  quantum := fun hex _ _ hword hw => turn_callbacks h hex hword hw

def audit : SubscriberLane := ⟨"audit", .two, .shared⟩

def popRun : List Action := [.enqueue ⟨0, false⟩, .scheduleShared, .takeReady]

/-- The worker has popped the lane and is about to lock it. -/
theorem lane_scheduling_popped :
    ∃ w, (machine audit).after World.new popRun = some w ∧ w.state.phase = .scheduled ∧ Disciplined audit w := by
  obtain ⟨w, hw, hp⟩ := (Option.any_eq_true (fun w : World => decide (w.state.phase = .scheduled)) _).mp
    (show (Machine.after (machine audit) World.new popRun).any _ = true by decide +kernel)
  exact ⟨w, hw, of_decide_eq_true hp,
    lane_scheduling _ w (interleaved_of_reachable (Machine.Reachable.after .init hw))⟩

/-- Between the pop and the worker's lock of the lane no entry is left in the
queue, and none is about to be pushed. -/
theorem scheduled_unlisted :
    ¬ ∀ lane w, (machine lane).Reachable w → lane.execution = .shared → w.sharedClosed = false →
      w.state.phase = .scheduled → w.ready = 1 ∨ w.emitting = true ∨ w.turn = .requeue := by
  intro hc
  obtain ⟨w, hw, hp⟩ := (Option.any_eq_true (fun w : World => decide (w.state.phase = .scheduled ∧
      w.sharedClosed = false ∧ w.ready = 0 ∧ w.emitting = false ∧ w.turn = .entering)) _).mp
    (show (Machine.after (machine audit) World.new popRun).any _ = true by decide +kernel)
  obtain ⟨hphase, hclosed, hready, hemitting, hturn⟩ := of_decide_eq_true hp
  have hlisted := hc audit w (Machine.Reachable.after .init hw) rfl hclosed hphase
  simp [hready, hemitting, hturn] at hlisted

end Taskvisor.Subscribers.Scheduling
