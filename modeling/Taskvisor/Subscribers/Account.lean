import Taskvisor.Subscribers.Lane

namespace Taskvisor.Subscribers.Account

open Lib Lane

variable {lane : SubscriberLane} {w w' : World}

def Callback.event? : Callback → Option Event
  | .event event => some event
  | .overflow _ => none

def Callback.dropped : Callback → Nat
  | .event _ => 0
  | .overflow dropped => dropped

/-- The events passed to `on_event`, in order. -/
def delivered (callbacks : List Callback) : List Event := callbacks.filterMap Callback.event?

def overflowed (callbacks : List Callback) : Nat := (callbacks.map Callback.dropped).sum

def accepted (offered : List (Event × Verdict)) : List Event :=
  offered.filterMap fun offer => if offer.2 = .accepted then some offer.1 else none

/-- Ordinary events turned away because the lane was full. -/
def refused (offered : List (Event × Verdict)) : Nat :=
  offered.countP fun offer => decide (offer.2 = .full) && !offer.1.isInternalDiagnostic

def heldEvents : Turn → List Event
  | .act (.event event) _ => [event]
  | _ => []

def heldDropped : Turn → Nat
  | .act (.overflow dropped) _ => dropped
  | _ => 0

/-- No abort, and no callback that takes its lane down. -/
def graceful (_ : World) : Action → Bool
  | .abort => false
  | .callback survived => survived
  | .unwind => false
  | _ => true

/-- The step does not act on an idle decision that a close has overtaken, and
does not count a drop beyond the counter's last value. -/
def intact (lane : SubscriberLane) (w : World) : Action → Bool
  | .settle => !w.state.closing || w.state.isDrained
  | .enqueue event =>
    event.isInternalDiagnostic || decide (w.verdict lane ≠ .full) || decide (w.state.dropped < wordMax)
  | _ => true

/-- The relation between the phase, the worker's place and the rest. -/
def Placed : LanePhase → Turn → SubscriberLaneState → Prop
  | .idle, .away, s => s.isDrained = true ∧ s.closing = false
  | .scheduled, .away, _ => True
  | .scheduled, .entering, _ => True
  | .scheduled, .requeue, _ => True
  | .running, .select _, _ => True
  | .running, .act .finish _, s => s.isDrained = true ∧ s.closing = true
  | .running, .act _ _, _ => True
  | .running, .tail, _ => True
  | .running, .finishing, s => s.isDrained = true ∧ s.closing = true
  | .finished, .away, s => s.isDrained = true ∧ s.closing = true
  | .finished, .exited, s => s.isDrained = true ∧ s.closing = true
  | _, _, _ => False

def owed : Turn → Nat
  | .entering => 1
  | .requeue => 1
  | _ => 0

section Owed

variable (used : Nat) (next : Next)

@[simp] theorem owed_away : owed .away = 0 := rfl
@[simp] theorem owed_entering : owed .entering = 1 := rfl
@[simp] theorem owed_select : owed (.select used) = 0 := rfl
@[simp] theorem owed_act : owed (.act next used) = 0 := rfl
@[simp] theorem owed_tail : owed .tail = 0 := rfl
@[simp] theorem owed_finishing : owed .finishing = 0 := rfl
@[simp] theorem owed_requeue : owed .requeue = 1 := rfl
@[simp] theorem owed_exited : owed .exited = 0 := rfl

end Owed

/-- The turns still owed to a scheduled lane. -/
def turns (w : World) : Nat := w.ready + w.emitting.toNat + owed w.turn

theorem Placed.finished_closing {t : Turn} {s : SubscriberLaneState} (h : Placed .finished t s) :
    s.isDrained = true ∧ s.closing = true := by
  cases t <;> simp_all [Placed]

structure Faithful (lane : SubscriberLane) (w : World) : Prop where
  events : delivered w.callbacks ++ (heldEvents w.turn ++ w.state.queue) = accepted w.offered
  drops : overflowed w.callbacks + heldDropped w.turn + w.state.dropped = refused w.offered
  offers : ∀ offer ∈ w.offered, offer.2 ≠ .closed
  placed : Placed w.state.phase w.turn w.state
  opened : w.started = true → w.state.closing = false
  emitting : w.emitting = true → w.started = true
  begun : w.begun = w.state.closing
  aborted : w.state.abort = false
  done : w.state.done = false → w.state.phase = .finished
  stopped : w.sharedClosed = true → w.state.phase = .finished
  shared : lane.execution = .shared → turns w = if w.state.phase = .scheduled then 1 else 0
  dedicated : lane.execution = .dedicated → turns w = 0 ∧ w.turn ≠ .tail

theorem isDrained_iff {s : SubscriberLaneState} : s.isDrained = true ↔ s.queue = [] ∧ s.dropped = 0 := by
  simp [SubscriberLaneState.isDrained]

/-- While the lane is open only an idle phase constrains the rest. -/
theorem Placed.congr {p : LanePhase} {t : Turn} {s s' : SubscriberLaneState} (h : Placed p t s)
    (hc : s.closing = false) (hp : p ≠ .idle) : Placed p t s' := by
  cases p with
  | idle => exact absurd rfl hp
  | scheduled => cases t <;> exact h
  | running =>
      cases t with
      | act next used => cases next <;> simp_all [Placed]
      | finishing => simp_all [Placed]
      | _ => exact h
  | finished => cases t <;> simp_all [Placed]

theorem Placed.idle_away {t : Turn} {s : SubscriberLaneState} (h : Placed .idle t s) :
    t = .away ∧ s.isDrained = true ∧ s.closing = false := by
  cases t <;> simp_all [Placed]

theorem Placed.running_of_select {p : LanePhase} {s : SubscriberLaneState} {used : Nat} (h : Placed p (.select used) s) :
    p = .running := by
  cases p <;> simp_all [Placed]

theorem Placed.running_of_act {p : LanePhase} {s : SubscriberLaneState} {next : Next} {used : Nat}
    (h : Placed p (.act next used) s) : p = .running := by
  cases p <;> cases next <;> simp_all [Placed]

theorem Faithful.new : Faithful lane World.new where
  events := rfl
  drops := rfl
  offers := nofun
  placed := ⟨rfl, rfl⟩
  opened := fun _ => rfl
  emitting := nofun
  begun := rfl
  aborted := rfl
  done := nofun
  stopped := nofun
  shared := fun _ => rfl
  dedicated := fun _ => ⟨rfl, nofun⟩

theorem Faithful.not_full (h : Faithful lane w) (hi : w.state.phase = .idle) :
    w.state.queue.length ≠ lane.capacity.get := by
  have hp := h.placed
  rw [hi] at hp
  have hq := (isDrained_iff.mp hp.idle_away.2.1).1
  have := lane.capacity.pos
  rw [hq, List.length_nil]
  omega

theorem accepted_snoc (offered : List (Event × Verdict)) (event : Event) (v : Verdict) :
    accepted (offered ++ [(event, v)]) = accepted offered ++ if v = .accepted then [event] else [] := by
  by_cases hv : v = .accepted <;> simp [accepted, hv]

theorem refused_snoc (offered : List (Event × Verdict)) (event : Event) (v : Verdict) :
    refused (offered ++ [(event, v)]) =
      refused offered + if v = .full ∧ event.isInternalDiagnostic = false then 1 else 0 := by
  by_cases hv : v = .full <;> by_cases he : event.isInternalDiagnostic = true <;> simp [refused, hv, he]

theorem Faithful.enqueue (h : Faithful lane w) {event : Event} (hs : w.started = true) (he : w.emitting = false)
    (hi : intact lane w (.enqueue event) = true) : Faithful lane (w.enqueue lane event) := by
  have hopen := h.opened hs
  have hnf : w.state.phase ≠ .finished := by
    intro hp
    have hpl := h.placed
    rw [hp] at hpl
    simp [hpl.finished_closing.2] at hopen
  by_cases hfull : w.state.queue.length = lane.capacity.get
  · have hverdict : w.verdict lane = .full := by simp [World.verdict, hnf, hfull]
    have hni : w.state.phase ≠ .idle := fun hp => h.not_full hp hfull
    let n := if event.isInternalDiagnostic then 0 else 1
    have hw : w.enqueue lane event =
        { w with state := { w.state with dropped := w.state.dropped + n }, offered := w.offered ++ [(event, .full)] } := by
      by_cases hint : event.isInternalDiagnostic = true
      · simp [World.enqueue, SubscriberLaneState.enqueue, hnf, hfull, hint, hverdict, he, n]
      · have hlt : w.state.dropped < wordMax := by simpa [intact, hint, hverdict] using hi
        have hadd : saturatingAdd w.state.dropped 1 = w.state.dropped + 1 := by
          rw [saturatingAdd]
          exact Nat.min_eq_left hlt
        simp [World.enqueue, SubscriberLaneState.enqueue, hnf, hfull, hint, hverdict, he, n, hadd]
    rw [hw]
    exact
      { h with
        events := by
          rw [accepted_snoc, if_neg nofun, List.append_nil]
          exact h.events
        drops := by
          have hd := h.drops
          rw [refused_snoc]
          by_cases hint : event.isInternalDiagnostic = true <;> simp [n, hint] <;> omega
        offers := fun offer ho => by
          rcases List.mem_append.mp ho with ho | ho
          · exact h.offers offer ho
          · rw [List.mem_singleton.mp ho]
            exact nofun
        placed := h.placed.congr hopen hni }
  · have hverdict : w.verdict lane = .accepted := by simp [World.verdict, hnf, hfull]
    let wake := decide (w.state.phase = .idle ∧ lane.execution = .shared)
    have hw : w.enqueue lane event =
        { w with
          state := { w.state with
            queue := w.state.queue ++ [event]
            phase := if w.state.phase = .idle then .scheduled else w.state.phase }
          emitting := wake
          offered := w.offered ++ [(event, .accepted)] } := by
      by_cases hidle : w.state.phase = .idle <;> cases hex : lane.execution <;>
        simp [World.enqueue, SubscriberLaneState.enqueue, hfull, hverdict, hidle, hex, hnf, wake]
    rw [hw]
    have hidle_away (hidle : w.state.phase = .idle) : w.turn = .away := by
      have hpl := h.placed
      rw [hidle] at hpl
      exact hpl.idle_away.1
    exact
      { events := by
          rw [accepted_snoc, if_pos rfl, ← h.events]
          simp only [List.append_assoc]
        drops := by
          rw [refused_snoc]
          simpa using h.drops
        offers := fun offer ho => by
          rcases List.mem_append.mp ho with ho | ho
          · exact h.offers offer ho
          · rw [List.mem_singleton.mp ho]
            exact nofun
        placed := by
          by_cases hidle : w.state.phase = .idle
          · simp only [hidle, if_true, hidle_away hidle]
            trivial
          · simp only [hidle, if_false]
            exact h.placed.congr hopen hidle
        opened := h.opened
        emitting := fun _ => hs
        begun := h.begun
        aborted := h.aborted
        done := fun hd => absurd (h.done hd) hnf
        stopped := fun hd => absurd (h.stopped hd) hnf
        shared := fun hex => by
          have ht := h.shared hex
          by_cases hidle : w.state.phase = .idle
          · simp [turns, hidle, hidle_away hidle, he, wake, hex] at ht ⊢
            omega
          · simp [turns, hidle, he, wake] at ht ⊢
            exact ht
        dedicated := fun hex => by
          have ht := h.dedicated hex
          simpa [turns, he, wake, hex] using ht }

theorem Faithful.not_finished (h : Faithful lane w) (hc : w.state.closing = false) : w.state.phase ≠ .finished := by
  intro hp
  have hpl := h.placed
  rw [hp] at hpl
  simp [hpl.finished_closing.2] at hc

theorem Faithful.schedule (h : Faithful lane w) (hp : w.state.phase ≠ .finished) :
    w.schedule = { w with ready := w.ready + 1 } := by
  have hs : w.sharedClosed = false := by
    by_contra hs
    exact hp (h.stopped (by simpa using hs))
  simp [World.schedule, hs]

theorem Faithful.scheduleShared (h : Faithful lane w) (he : w.emitting = true) :
    Faithful lane { w.schedule with emitting := false } := by
  have hopen := h.opened (h.emitting he)
  rw [h.schedule (h.not_finished hopen)]
  exact
    { h with
      emitting := nofun
      shared := fun hex => by
        have ht := h.shared hex
        simp [turns, he] at ht ⊢
        omega
      dedicated := fun hex => by
        have ht := (h.dedicated hex).1
        simp [turns, he] at ht }

theorem Faithful.beginClose (h : Faithful lane w) (hs : w.started = false) (he : w.begun = false) :
    Faithful lane w.beginClose := by
  have hc : w.state.closing = false := h.begun.symm.trans he
  by_cases hidle : w.state.phase = .idle
  · have hpl := h.placed
    rw [hidle] at hpl
    obtain ⟨haway, hdrained, -⟩ := hpl.idle_away
    have hw : ∃ ownership submitted signalled, w.beginClose =
        { w with
          begun := true
          state := { w.state with closing := true, phase := .finished, done := false, ownership }
          submitted
          signalled } := by
      by_cases ho : w.state.ownership = true
      · exact ⟨false, w.submitted + 1, if w.state.done then w.signalled + 1 else w.signalled, by
          simp [World.beginClose, hidle, World.complete, World.takeOwnership, World.submit, SubscriberLaneState.finish, ho]⟩
      · exact ⟨w.state.ownership, w.submitted, if w.state.done then w.signalled + 1 else w.signalled, by
          simp [World.beginClose, hidle, World.complete, World.takeOwnership, SubscriberLaneState.finish, ho]⟩
    obtain ⟨ownership, submitted, signalled, hw⟩ := hw
    rw [hw]
    exact
      { h with
        placed := by
          rw [haway]
          exact ⟨hdrained, rfl⟩
        opened := fun ho => by simp [hs] at ho
        begun := rfl
        done := fun _ => rfl
        stopped := fun _ => rfl
        shared := fun hex => by simpa [turns, hidle] using h.shared hex }
  · have hw : w.beginClose = { w with begun := true, state := { w.state with closing := true } } := by
      simp [World.beginClose, hidle]
    rw [hw]
    exact
      { h with
        placed := h.placed.congr hc hidle
        opened := fun ho => by simp [hs] at ho
        begun := rfl }

theorem Faithful.detach (h : Faithful lane w) (hf : w.state.phase = .finished) :
    Faithful lane { w with sharedClosed := true, ready := 0 } :=
  { h with
    stopped := fun _ => hf
    shared := fun hex => by
      have ht := h.shared hex
      simp only [turns, hf, reduceCtorEq, if_false] at ht ⊢
      omega
    dedicated := fun hex => by
      obtain ⟨ht, htail⟩ := h.dedicated hex
      refine ⟨?_, htail⟩
      simp only [turns] at ht ⊢
      omega }

theorem Faithful.takeReady (h : Faithful lane w) {ready : Nat} (hex : lane.execution = .shared) (ht : w.turn = .away)
    (hr : w.ready = ready + 1) : Faithful lane { w with ready, turn := .entering } := by
  have hturns := h.shared hex
  have hp : w.state.phase = .scheduled := by
    by_contra hp
    simp [turns, hr, hp] at hturns
  exact
    { h with
      events := by simpa [heldEvents, ht] using h.events
      drops := by simpa [heldDropped, ht] using h.drops
      placed := by
        rw [hp]
        trivial
      shared := fun _ => by
        simp [turns, ht, hr] at hturns ⊢
        omega
      dedicated := fun hd => by simp [hex] at hd }

/-- The worker takes the scheduled lane; a shared lane pays with its turn. -/
theorem Faithful.enter (h : Faithful lane w) (hp : w.state.phase = .scheduled)
    (ht : lane.execution = .dedicated ∧ w.turn = .away ∨ lane.execution = .shared ∧ w.turn = .entering) :
    Faithful lane { w with turn := .select 0, state := { w.state with phase := .running, ownership := false } } := by
  have hheld : heldEvents w.turn = [] ∧ heldDropped w.turn = 0 := by
    rcases ht with ⟨-, ht⟩ | ⟨-, ht⟩ <;> simp [ht, heldEvents, heldDropped]
  exact
    { h with
      events := by
        have he := h.events
        rwa [hheld.1] at he
      drops := by
        have hd := h.drops
        rwa [hheld.2] at hd
      placed := trivial
      done := fun hd => absurd (hp.symm.trans (h.done hd)) nofun
      stopped := fun hd => absurd (hp.symm.trans (h.stopped hd)) nofun
      shared := fun hex => by
        have hturns := h.shared hex
        rcases ht with ⟨hd, -⟩ | ⟨-, ht⟩
        · simp [hex] at hd
        · simp [turns, hp, ht] at hturns ⊢
          omega
      dedicated := fun hex => by
        have hturns := (h.dedicated hex).1
        rcases ht with ⟨-, ht⟩ | ⟨hs, -⟩
        · exact ⟨by simpa [turns, ht] using hturns, nofun⟩
        · simp [hex] at hs }

/-- A running worker moves on inside its turn, having touched only the queue,
the drop counter and the callbacks. -/
theorem Faithful.move (h : Faithful lane w) {turn : Turn} {callbacks : List Callback} {queue : List Event}
    {dropped : Nat} (hp : w.state.phase = .running)
    (htoken : turns { w with turn } = turns w) (htail : lane.execution = .dedicated → turn ≠ .tail)
    (hevents : delivered callbacks ++ (heldEvents turn ++ queue) = accepted w.offered)
    (hdrops : overflowed callbacks + heldDropped turn + dropped = refused w.offered)
    (hplaced : Placed .running turn { w.state with queue, dropped }) :
    Faithful lane { w with turn, callbacks, state := { w.state with queue, dropped } } :=
  { h with
    events := hevents
    drops := hdrops
    placed := by
      rw [hp]
      exact hplaced
    shared := fun hex => htoken.trans (h.shared hex)
    dedicated := fun hex => ⟨htoken.trans (h.dedicated hex).1, htail hex⟩ }

theorem Faithful.scheduled_of_entering (h : Faithful lane w) (ht : w.turn = .entering) : w.state.phase = .scheduled := by
  have hpl := h.placed
  rw [ht] at hpl
  cases hp : w.state.phase <;> simp_all [Placed]

/-- A dedicated worker that finds its lane finished leaves for good. -/
theorem Faithful.leaveFinished (h : Faithful lane w) (hp : w.state.phase = .finished) (ht : w.turn = .away) :
    Faithful lane { w with turn := .exited } := by
  have hpl := h.placed
  have hevents := h.events
  have hdrops := h.drops
  rw [ht] at hevents hdrops
  rw [hp] at hpl
  have htoken : turns { w with turn := .exited } = turns w := by simp [turns, ht]
  exact
    { h with
      events := hevents
      drops := hdrops
      placed := by
        rw [hp]
        exact hpl.finished_closing
      shared := fun hex => htoken.trans (h.shared hex)
      dedicated := fun hex => ⟨htoken.trans (h.dedicated hex).1, nofun⟩ }

theorem Faithful.select (h : Faithful lane w) {used : Nat} (ht : w.turn = .select used) :
    Faithful lane { w with turn := .act w.state.next.1 used, state := w.state.next.2 } := by
  have hpl := h.placed
  have hevents := h.events
  have hdrops := h.drops
  rw [ht] at hpl hevents hdrops
  have hp := hpl.running_of_select
  have hmove (next : Next) : turns { w with turn := .act next used } = turns w := by simp [turns, ht]
  cases hq : w.state.queue with
  | cons event queue =>
      have hn : w.state.next = (.event event, { w.state with queue, dropped := w.state.dropped }) := by
        simp [SubscriberLaneState.next, h.aborted, hq]
      rw [hn]
      rw [hq] at hevents
      exact h.move hp (hmove _) nofun hevents hdrops trivial
  | nil =>
      rw [hq] at hevents
      by_cases hd : w.state.dropped = 0
      · have hn : w.state.next = (if w.state.closing then .finish else .idle, w.state) := by
          cases hc : w.state.closing <;> simp [SubscriberLaneState.next, h.aborted, hq, hd, hc]
        rw [hn]
        refine h.move hp (hmove _) nofun ?_ ?_ ?_
        · rw [hq]
          split <;> exact hevents
        · split <;> exact hdrops
        · split
          · exact ⟨isDrained_iff.mpr ⟨hq, hd⟩, by assumption⟩
          · trivial
      · have hn : w.state.next = (.overflow w.state.dropped, { w.state with queue := w.state.queue, dropped := 0 }) := by
          simp [SubscriberLaneState.next, h.aborted, hq, hd]
        rw [hn]
        refine h.move hp (hmove _) nofun ?_ ?_ trivial
        · rw [hq]
          exact hevents
        · simpa [heldDropped] using hdrops

theorem Faithful.callback (h : Faithful lane w) {call : Callback} {next : Next} {used : Nat}
    (ht : w.turn = .act next used) (hev : heldEvents w.turn = (Callback.event? call).toList)
    (hdr : heldDropped w.turn = Callback.dropped call) : Faithful lane (w.callback lane call used true) := by
  have hpl := h.placed
  have hevents := h.events
  have hdrops := h.drops
  rw [hev] at hevents
  rw [hdr] at hdrops
  rw [ht] at hpl
  let turn := (w.again lane used).turn
  have hturn : turn = .tail ∧ lane.execution = .shared ∨ ∃ used', turn = .select used' := by
    simp only [turn, World.again]
    split
    · exact .inr ⟨0, rfl⟩
    · next hex =>
      split
      · exact .inl ⟨rfl, hex⟩
      · exact .inr ⟨used + 1, rfl⟩
  have hheld : heldEvents turn = [] ∧ heldDropped turn = 0 ∧ turns { w with turn } = turns w ∧
      Placed .running turn w.state := by
    rcases hturn with ⟨hturn, -⟩ | ⟨used', hturn⟩ <;> simp [hturn, heldEvents, heldDropped, turns, ht, Placed]
  refine h.move hpl.running_of_act hheld.2.2.1 ?_ ?_ ?_ hheld.2.2.2
  · intro hex htail
    rcases hturn with ⟨-, hturn⟩ | ⟨used', hturn⟩
    · simp [hex] at hturn
    · exact absurd (hturn.symm.trans htail) nofun
  · change delivered (w.callbacks ++ [call]) ++ (heldEvents turn ++ w.state.queue) = _
    rw [hheld.1, ← hevents]
    cases call <;> simp [delivered, Callback.event?]
  · change overflowed (w.callbacks ++ [call]) + heldDropped turn + w.state.dropped = _
    rw [hheld.2.1, ← hdrops]
    cases call <;> simp [overflowed, Callback.dropped]

/-- The worker holds no event and no count, and is inside its turn. -/
structure Empty (w : World) : Prop where
  running : w.state.phase = .running
  events : heldEvents w.turn = []
  dropped : heldDropped w.turn = 0
  token : owed w.turn = 0

theorem Faithful.empty_of_idle (h : Faithful lane w) {used : Nat} (ht : w.turn = .act .idle used) : Empty w where
  running := by
    have hpl := h.placed
    rw [ht] at hpl
    exact hpl.running_of_act
  events := by rw [ht]; rfl
  dropped := by rw [ht]; rfl
  token := by rw [ht]; rfl

theorem Faithful.empty_of_tail (h : Faithful lane w) (ht : w.turn = .tail) : Empty w where
  running := by
    have hpl := h.placed
    rw [ht] at hpl
    cases hp : w.state.phase <;> simp_all [Placed]
  events := by rw [ht]; rfl
  dropped := by rw [ht]; rfl
  token := by rw [ht]; rfl

theorem Faithful.toFinishing (h : Faithful lane w) (he : Empty w) (hd : w.state.isDrained = true)
    (hc : w.state.closing = true) : Faithful lane { w with turn := .finishing } := by
  have hevents := h.events
  have hdrops := h.drops
  rw [he.events] at hevents
  rw [he.dropped] at hdrops
  exact h.move he.running (by simp [turns, he.token]) nofun hevents hdrops ⟨hd, hc⟩

theorem Faithful.toSelect (h : Faithful lane w) (he : Empty w) : Faithful lane { w with turn := .select 0 } := by
  have hevents := h.events
  have hdrops := h.drops
  rw [he.events] at hevents
  rw [he.dropped] at hdrops
  exact h.move he.running (by simp [turns, he.token]) nofun hevents hdrops trivial

/-- The worker parks the drained lane and leaves. -/
theorem Faithful.park (h : Faithful lane w) (he : Empty w) (hd : w.state.isDrained = true)
    (hc : w.state.closing = false) : Faithful lane { w.store .idle with turn := .away } := by
  have hevents := h.events
  have hdrops := h.drops
  rw [he.events] at hevents
  rw [he.dropped] at hdrops
  have htoken : turns { w.store .idle with turn := .away } = turns w := by
    simp [turns, World.store, he.token]
  exact
    { h with
      events := hevents
      drops := hdrops
      placed := ⟨hd, hc⟩
      done := fun hd => absurd (he.running.symm.trans (h.done hd)) nofun
      stopped := fun hd => absurd (he.running.symm.trans (h.stopped hd)) nofun
      shared := fun hex => by
        rw [htoken, h.shared hex, he.running]
        rfl
      dedicated := fun hex => ⟨htoken.trans (h.dedicated hex).1, nofun⟩ }

/-- The shared worker stores the lane for a further turn, still to be queued. -/
theorem Faithful.yield (h : Faithful lane w) (he : Empty w) (hex : lane.execution = .shared) :
    Faithful lane { w.store .scheduled with turn := .requeue } := by
  have hevents := h.events
  have hdrops := h.drops
  have hshared := h.shared hex
  rw [he.events] at hevents
  rw [he.dropped] at hdrops
  exact
    { h with
      events := hevents
      drops := hdrops
      placed := trivial
      done := fun hd => absurd (he.running.symm.trans (h.done hd)) nofun
      stopped := fun hd => absurd (he.running.symm.trans (h.stopped hd)) nofun
      shared := fun _ => by
        simp only [turns, he.token, he.running, reduceCtorEq, if_false] at hshared
        simp only [turns, World.store, owed_requeue, if_true]
        omega
      dedicated := fun hd => by simp [hex] at hd }

theorem Faithful.settleDedicated (h : Faithful lane w) {used : Nat} (ht : w.turn = .act .idle used)
    (hi : intact lane w .settle = true) : Faithful lane w.settleDedicated := by
  have he := h.empty_of_idle ht
  rw [World.settleDedicated, h.aborted, Bool.false_or]
  split_ifs with hc hd
  · exact h.toFinishing he (by simpa [intact, hc] using hi) hc
  · exact h.park he hd (by simpa using hc)
  · exact h.toSelect he

theorem Faithful.settleShared (h : Faithful lane w) {used : Nat} (ht : w.turn = .act .idle used)
    (hex : lane.execution = .shared) (hi : intact lane w .settle = true) : Faithful lane w.settleShared := by
  have he := h.empty_of_idle ht
  rw [World.settleShared, h.aborted, Bool.false_or]
  split_ifs with hc hd
  · exact h.toFinishing he (by simpa [intact, hc] using hi) hc
  · exact h.park he hd (by simpa using hc)
  · exact h.yield he hex

/-- The end of a quantum reads the queue and the close flag under one lock, so
it needs no condition. -/
theorem Faithful.tail (h : Faithful lane w) (ht : w.turn = .tail) : Faithful lane w.tail := by
  have he := h.empty_of_tail ht
  have hex : lane.execution = .shared := by
    cases hex : lane.execution with
    | shared => rfl
    | dedicated => exact absurd ht (h.dedicated hex).2
  simp only [World.tail, h.aborted, Bool.false_or, Bool.and_eq_true]
  split_ifs with hc hd
  · exact h.toFinishing he hc.2 hc.1
  · exact h.park he hd (by simpa [hd] using hc)
  · exact h.yield he hex

theorem Faithful.finishRunning (h : Faithful lane w) (he : Empty w) (hd : w.state.isDrained = true)
    (hc : w.state.closing = true) : Faithful lane (w.finishRunning lane) := by
  have hevents := h.events
  have hdrops := h.drops
  obtain ⟨hq, hz⟩ := isDrained_iff.mp hd
  rw [he.events, hq] at hevents
  rw [he.dropped, hz] at hdrops
  let turn : Turn := if lane.execution = .dedicated then .exited else .away
  have hturn : turn = .exited ∨ turn = .away := by
    simp only [turn]
    split
    · exact .inl rfl
    · exact .inr rfl
  have hheld : heldEvents turn = [] ∧ heldDropped turn = 0 ∧ turns { w with turn } = turns w ∧ turn ≠ .tail := by
    rcases hturn with hturn | hturn <;> simp [hturn, heldEvents, heldDropped, turns, he.token]
  exact
    { h with
      events := by
        change delivered w.callbacks ++ (heldEvents turn ++ []) = _
        rw [hheld.1]
        exact hevents
      drops := by
        change overflowed w.callbacks + heldDropped turn + 0 = _
        rw [hheld.2.1]
        exact hdrops
      placed := by
        change Placed .finished turn _
        rcases hturn with hturn | hturn <;> rw [hturn] <;> exact ⟨rfl, hc⟩
      done := fun _ => rfl
      stopped := fun _ => rfl
      shared := fun hex => by
        change turns { w with turn } = 0
        rw [hheld.2.2.1, h.shared hex, he.running]
        rfl
      dedicated := fun hex => ⟨hheld.2.2.1.trans (h.dedicated hex).1, hheld.2.2.2⟩ }

theorem Faithful.requeue (h : Faithful lane w) (ht : w.turn = .requeue) :
    Faithful lane { w.schedule with turn := .away } := by
  have hpl := h.placed
  have hevents := h.events
  have hdrops := h.drops
  rw [ht] at hpl hevents hdrops
  have hp : w.state.phase = .scheduled := by
    cases hp : w.state.phase <;> simp_all [Placed]
  rw [h.schedule (by simp [hp])]
  exact
    { h with
      events := hevents
      drops := hdrops
      placed := by
        rw [hp]
        trivial
      shared := fun hex => by
        have hturns := h.shared hex
        simp only [turns, ht, owed_requeue] at hturns
        simp only [turns, owed_away]
        omega
      dedicated := fun hex => by
        have hturns := (h.dedicated hex).1
        simp [turns, ht] at hturns }

theorem Faithful.finishes (h : Faithful lane w) (ht : w.turn = .finishing ∨ ∃ used, w.turn = .act .finish used) :
    Faithful lane (w.finishRunning lane) := by
  have hpl := h.placed
  have hempty : w.state.phase = .running ∧ w.state.isDrained = true ∧ w.state.closing = true := by
    rcases ht with ht | ⟨used, ht⟩ <;> rw [ht] at hpl <;> cases hp : w.state.phase <;> simp_all [Placed]
  refine h.finishRunning ⟨hempty.1, ?_, ?_, ?_⟩ hempty.2.1 hempty.2.2 <;>
    rcases ht with ht | ⟨used, ht⟩ <;> rw [ht] <;> rfl

theorem Faithful.step {a : Action} (h : Faithful lane w) (hg : graceful w a = true) (hi : intact lane w a = true)
    (hs : w.step lane a = some w') : Faithful lane w' := by
  cases a with
  | enqueue event =>
      simp only [World.step] at hs
      split_ifs at hs with hguard
      simp only [Bool.and_eq_true, Bool.not_eq_true'] at hguard
      exact Option.some.inj hs ▸ h.enqueue hguard.1 hguard.2 hi
  | scheduleShared =>
      simp only [World.step] at hs
      split_ifs at hs with hguard
      exact Option.some.inj hs ▸ h.scheduleShared hguard
  | closeSet =>
      simp only [World.step] at hs
      split_ifs at hs with hguard
      simp only [Bool.and_eq_true, Bool.not_eq_true'] at hguard
      exact Option.some.inj hs ▸
        { h with
          opened := nofun
          emitting := fun he => by simp [hguard.2] at he }
  | beginClose =>
      simp only [World.step] at hs
      split_ifs at hs with hguard
      simp only [Bool.and_eq_true, Bool.not_eq_true'] at hguard
      exact Option.some.inj hs ▸ h.beginClose hguard.1.1 hguard.1.2
  | abort => simp [graceful] at hg
  | detach =>
      simp only [World.step] at hs
      split_ifs at hs with hguard
      simp only [h.aborted, Bool.false_or, Bool.and_eq_true, Bool.not_eq_true'] at hguard
      exact Option.some.inj hs ▸ h.detach (h.done hguard.2)
  | takeReady =>
      simp only [World.step] at hs
      split at hs
      · next hex ht hr => exact Option.some.inj hs ▸ h.takeReady hex ht hr
      · cases hs
  | enter =>
      simp only [World.step] at hs
      split at hs
      · next hex ht =>
        rw [World.enterDedicated] at hs
        split at hs
        · next hp => exact Option.some.inj hs ▸ h.enter hp (.inl ⟨hex, ht⟩)
        · next hp => exact Option.some.inj hs ▸ h.leaveFinished hp ht
        · cases hs
        · cases hs
      · next hex ht =>
        have hp := h.scheduled_of_entering ht
        have hw : w.enterShared =
            { w with turn := .select 0, state := { w.state with phase := .running, ownership := false } } := by
          simp [World.enterShared, hp, h.aborted]
        rw [hw] at hs
        exact Option.some.inj hs ▸ h.enter hp (.inr ⟨hex, ht⟩)
      · cases hs
  | select =>
      simp only [World.step] at hs
      split at hs
      · next used ht => exact Option.some.inj hs ▸ h.select ht
      · cases hs
  | callback survived =>
      obtain rfl : survived = true := hg
      simp only [World.step] at hs
      split at hs
      · next event used ht => exact Option.some.inj hs ▸ h.callback ht (by rw [ht]; rfl) (by rw [ht]; rfl)
      · next dropped used ht => exact Option.some.inj hs ▸ h.callback ht (by rw [ht]; rfl) (by rw [ht]; rfl)
      · cases hs
  | settle =>
      simp only [World.step] at hs
      split at hs
      · next used ht hex => exact Option.some.inj hs ▸ h.settleDedicated ht hi
      · next used ht hex => exact Option.some.inj hs ▸ h.settleShared ht hex hi
      · cases hs
  | finishRunning =>
      simp only [World.step] at hs
      split at hs
      · next used ht => exact Option.some.inj hs ▸ h.finishes (.inr ⟨used, ht⟩)
      · next ht => exact Option.some.inj hs ▸ h.finishes (.inl ht)
      · cases hs
  | tail =>
      simp only [World.step] at hs
      split at hs
      · next ht => exact Option.some.inj hs ▸ h.tail ht
      · cases hs
  | requeue =>
      simp only [World.step] at hs
      split at hs
      · next ht => exact Option.some.inj hs ▸ h.requeue ht
      · cases hs
  | unwind => simp [graceful] at hg
  | failRunning =>
      simp only [World.step] at hs
      split at hs
      · next ht =>
        have hpl := h.placed
        rw [ht] at hpl
        cases hp : w.state.phase <;> simp [hp, Placed] at hpl
      · cases hs

end Taskvisor.Subscribers.Account
