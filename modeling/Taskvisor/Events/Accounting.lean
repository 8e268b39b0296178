import Taskvisor.Events.Bus

namespace Taskvisor.Events.Accounting

open Lib Bus

variable {α : Type} {w w' : World α} {capacity : Nat}

/-- The message says how many events were displaced before its own. -/
def Faithful (r : Receipt α) : Prop :=
  match r.message with
  | .event _ => r.gap = []
  | .lagged dropped _ => dropped = r.gap.length ∧ dropped ≠ 0

/-- The accepted events that a log of messages stands for, in order. -/
def spread (log : List (Receipt α)) : List α := log.flatMap fun r => r.gap ++ [r.message.payload]

def gaps (log : List (Receipt α)) : List α := log.flatMap Receipt.gap

def relayOutput (r : Receipt α) : List (Emission α) :=
  match r.message with
  | .event e => [.event e]
  | .lagged dropped e => [.event e, lagged dropped]

def drainOutput (r : Receipt α) : Emission α := .event r.message.payload

def diagnostic (dropped : Nat) : List (Emission α) := if dropped = 0 then [] else [lagged dropped]

/-- What the relay has in hand to emit for messages it has received. -/
def inHand : Relay α → List (Emission α)
  | .emit (.event e) => [.event e]
  | .emit (.lagged dropped e) => [.event e, lagged dropped]
  | .report dropped => [lagged dropped]
  | .drainEmit _ _ message => [.event message.payload]
  | _ => []

/-- The count the relay carries into its last diagnostic. -/
def Carried (w : World α) : Prop :=
  match w.relay with
  | .draining _ dropped => w.rest = [] ∧ dropped = (gaps w.drained).length
  | .drainEmit _ dropped message => w.rest = [] ∧ dropped + message.skipped = (gaps w.drained).length
  | .closing dropped => w.rest = [] ∧ dropped = (gaps w.drained).length
  | .reporting dropped => dropped = (gaps w.drained).length + w.rest.length
  | .finished => True
  | _ => w.rest = [] ∧ w.drained = []

def isClosing : Relay α → Bool
  | .reporting _ => true
  | .finished => true
  | _ => false

def farewell (w : World α) : List (Emission α) :=
  match w.relay with
  | .finished => diagnostic ((gaps w.drained).length + w.rest.length)
  | _ => []

structure Conserved (w : World α) : Prop where
  dropped : w.ring.dropped = w.displaced.length
  layout : w.accepted = spread w.relayed ++ spread w.drained ++ w.rest ++ w.displaced ++ w.ring.events
  relayed : ∀ r ∈ w.relayed, Faithful r
  drained : ∀ r ∈ w.drained, Faithful r
  emitted : w.emitted ++ inHand w.relay =
    w.relayed.flatMap relayOutput ++ w.drained.map drainOutput ++ farewell w
  carried : Carried w
  closed : w.ring.closed = isClosing w.relay
  emptied : w.ring.closed = true → w.ring.events = [] ∧ w.displaced = []

@[simp] theorem spread_nil : spread ([] : List (Receipt α)) = [] := rfl

@[simp] theorem gaps_nil : gaps ([] : List (Receipt α)) = [] := rfl

theorem spread_snoc (log : List (Receipt α)) (r : Receipt α) :
    spread (log ++ [r]) = spread log ++ (r.gap ++ [r.message.payload]) := by
  simp [spread]

theorem gaps_snoc (log : List (Receipt α)) (r : Receipt α) : gaps (log ++ [r]) = gaps log ++ r.gap := by
  simp [gaps]

theorem length_gaps_le (log : List (Receipt α)) : (gaps log).length ≤ (spread log).length := by
  induction log with
  | nil => exact Nat.le_refl _
  | cons r log ih =>
      simp only [gaps, spread, List.flatMap_cons, List.length_append] at ih ⊢
      omega

theorem Faithful.skipped {r : Receipt α} (h : Faithful r) : r.message.skipped = r.gap.length := by
  unfold Faithful at h
  split at h
  · next hm => simp [hm, BusMessage.skipped, h]
  · next hm => simp [hm, BusMessage.skipped, h.1]

/-- A message out of a ring whose count is exact. -/
theorem tryMessage_cases {ring ring' : RingState α} {message : BusMessage α}
    (h : ring.tryMessage = some (message, ring')) {displaced : List α} (hd : ring.dropped = displaced.length) :
    ring.events = message.payload :: ring'.events ∧ ring'.dropped = 0 ∧ ring'.closed = ring.closed ∧
      Faithful ⟨displaced, message⟩ := by
  unfold RingState.tryMessage at h
  split at h
  · cases h
  · next event events he =>
    simp only [Option.some.injEq, Prod.mk.injEq] at h
    obtain ⟨hm, rfl⟩ := h
    by_cases hz : ring.dropped = 0
    · rw [if_pos hz] at hm
      subst hm
      exact ⟨he, rfl, rfl, List.length_eq_zero_iff.mp (hd ▸ hz)⟩
    · rw [if_neg hz] at hm
      subst hm
      exact ⟨he, rfl, rfl, hd, hz⟩

theorem conserved_new : Conserved (World.new : World α) :=
  ⟨rfl, rfl, nofun, nofun, rfl, ⟨rfl, rfl⟩, rfl, nofun⟩

/-- A step that leaves the ring, the logs and the emissions alone keeps the
books while the relay stays in a phase that reads them alike. -/
theorem Conserved.of_eq (h : Conserved w) (hring : w'.ring = w.ring) (hacc : w'.accepted = w.accepted)
    (hdis : w'.displaced = w.displaced) (hrel : w'.relayed = w.relayed) (hdra : w'.drained = w.drained)
    (hrest : w'.rest = w.rest) (hem : w'.emitted ++ inHand w'.relay = w.emitted ++ inHand w.relay)
    (hfar : farewell w' = farewell w) (hcar : Carried w → Carried w') (hclo : isClosing w'.relay = isClosing w.relay) :
    Conserved w' where
  dropped := by rw [hring, hdis, h.dropped]
  layout := by rw [hring, hacc, hdis, hrel, hdra, hrest, h.layout]
  relayed := hrel ▸ h.relayed
  drained := hdra ▸ h.drained
  emitted := by rw [hem, hrel, hdra, hfar, h.emitted]
  carried := hcar h.carried
  closed := by rw [hring, hclo, h.closed]
  emptied := by
    rw [hring, hdis]
    exact h.emptied

/-- A push keeps every event in the ring or hands it out as displaced. -/
theorem push_spec (ring : RingState α) (event : α) (hcap : 0 < capacity) :
    ∃ displaced becameNonempty ring', ring.pushRetainingNewest event capacity = (displaced, becameNonempty, ring') ∧
      displaced.toList ++ ring'.events = ring.events ++ [event] ∧
      (ring.dropped + 1 ≤ wordMax → ring'.dropped = ring.dropped + displaced.toList.length) ∧
      ring'.closed = ring.closed ∧ becameNonempty = ring.events.isEmpty ∧ ring'.events ≠ [] := by
  unfold RingState.pushRetainingNewest
  split
  · next hfull =>
    cases he : ring.events with
    | nil =>
        rw [he] at hfull
        exact absurd hcap (by simp [← hfull])
    | cons old events => exact ⟨some old, false, _, rfl, rfl, saturatingAdd_of_le, rfl, rfl, by simp⟩
  · exact ⟨none, ring.events.isEmpty, _, rfl, rfl, fun _ => rfl, rfl, rfl, by simp⟩

theorem Conserved.publish (h : Conserved w) (hcap : 0 < capacity) (publisher : Nat) (event : α)
    (hu : (w.publish capacity publisher event).accepted.length ≤ wordMax) :
    Conserved (w.publish capacity publisher event) := by
  unfold World.publish at hu ⊢
  split
  · exact h.of_eq rfl rfl rfl rfl rfl rfl rfl rfl id rfl
  · next hopen =>
    obtain ⟨displaced, became, ring, hpush, hevents, hdropped, hclosed, -, -⟩ := push_spec w.ring event hcap
    rw [if_neg hopen, hpush] at hu
    rw [hpush]
    have hlen := congrArg List.length h.layout
    simp only [List.length_append, List.length_singleton] at hu hlen
    have hd := h.dropped
    exact
      { dropped := by
          rw [hdropped (by omega), List.length_append, hd]
        layout := by
          simp only [h.layout, List.append_assoc, hevents]
        relayed := h.relayed
        drained := h.drained
        emitted := h.emitted
        carried := h.carried
        closed := hclosed.trans h.closed
        emptied := fun hc => absurd (hclosed.symm.trans hc) hopen }

section Waiter

@[simp] theorem unlisten_ring (w : World α) : w.unlisten.ring = w.ring := by
  unfold World.unlisten
  split <;> rfl

@[simp] theorem unlisten_accepted (w : World α) : w.unlisten.accepted = w.accepted := by
  unfold World.unlisten
  split <;> rfl

@[simp] theorem unlisten_displaced (w : World α) : w.unlisten.displaced = w.displaced := by
  unfold World.unlisten
  split <;> rfl

@[simp] theorem unlisten_relayed (w : World α) : w.unlisten.relayed = w.relayed := by
  unfold World.unlisten
  split <;> rfl

@[simp] theorem unlisten_drained (w : World α) : w.unlisten.drained = w.drained := by
  unfold World.unlisten
  split <;> rfl

@[simp] theorem unlisten_rest (w : World α) : w.unlisten.rest = w.rest := by
  unfold World.unlisten
  split <;> rfl

@[simp] theorem unlisten_emitted (w : World α) : w.unlisten.emitted = w.emitted := by
  unfold World.unlisten
  split <;> rfl

end Waiter

/-- The relay is in its loop with no message in hand. -/
def isFree : Relay α → Bool
  | .select => true
  | .receiving => true
  | .awaiting => true
  | .parked => true
  | .unstarted => true
  | _ => false

theorem free_facts (h : isFree w.relay = true) : inHand w.relay = [] ∧ farewell w = [] ∧ isClosing w.relay = false ∧
    (Carried w ↔ w.rest = [] ∧ w.drained = []) := by
  unfold farewell Carried
  cases hr : w.relay <;> simp_all [isFree, inHand, isClosing]

/-- The relay moves on in its loop. -/
theorem Conserved.turn (h : Conserved w) (hf : isFree w.relay = true) (hf' : isFree w'.relay = true)
    (hring : w'.ring = w.ring) (hacc : w'.accepted = w.accepted) (hdis : w'.displaced = w.displaced)
    (hrel : w'.relayed = w.relayed) (hdra : w'.drained = w.drained) (hrest : w'.rest = w.rest)
    (hem : w'.emitted = w.emitted) : Conserved w' := by
  obtain ⟨hh, hfar, hclo, hcar⟩ := free_facts hf
  obtain ⟨hh', hfar', hclo', hcar'⟩ := free_facts hf'
  refine h.of_eq hring hacc hdis hrel hdra hrest ?_ (hfar'.trans hfar.symm) ?_ (hclo'.trans hclo.symm)
  · rw [hh, hh', hem]
  · rw [hcar, hcar', hrest, hdra]
    exact id

theorem Conserved.listen (h : Conserved w) (hf : isFree w.relay = true) : Conserved w.listen := by
  unfold World.listen
  split <;> exact h.turn hf rfl rfl rfl rfl rfl rfl rfl rfl

theorem Conserved.startDrain (h : Conserved w) (hf : isFree w.relay = true) : Conserved (w.startDrain capacity) := by
  obtain ⟨hh, hfar, hclo, hcar⟩ := free_facts hf
  obtain ⟨hrest, hdrained⟩ := hcar.mp h.carried
  refine h.of_eq (unlisten_ring w) (unlisten_accepted w) (unlisten_displaced w) (unlisten_relayed w)
    (unlisten_drained w) (unlisten_rest w) ?_ hfar.symm (fun _ => ?_) hclo.symm
  · rw [hh]
    exact congrArg (· ++ []) (unlisten_emitted w)
  · simp [Carried, World.startDrain, hrest, hdrained]

theorem Conserved.poll (h : Conserved w) (hs : w.poll capacity = some w') : Conserved w' := by
  unfold World.poll at hs
  split at hs
  · next hr =>
    have hf : isFree w.relay = true := by rw [hr]; rfl
    cases hs
    split
    · exact h.startDrain hf
    · exact h.listen hf
  · next hr =>
    have hf : isFree w.relay = true := by rw [hr]; rfl
    split at hs
    · cases hs
      exact h.startDrain hf
    · split at hs
      · cases hs
        exact h.listen hf
      · cases hs
        exact h.listen hf
      · cases hs
  · cases hs

theorem Conserved.await (h : Conserved w) (hr : w.relay = .awaiting) : Conserved w.await := by
  have hf : isFree w.relay = true := by rw [hr]; rfl
  unfold World.await
  split
  · exact h.listen hf
  · exact h.listen hf
  · exact h.turn hf rfl rfl rfl rfl rfl rfl rfl rfl

theorem Conserved.receive (h : Conserved w) (hr : w.relay = .receiving) : Conserved w.receive := by
  have hf : isFree w.relay = true := by rw [hr]; rfl
  unfold World.receive
  cases hm : w.ring.tryMessage with
  | none => exact h.turn hf rfl rfl rfl rfl rfl rfl rfl rfl
  | some found =>
      obtain ⟨message, ring⟩ := found
      obtain ⟨hh, hfar, hclo, hcar⟩ := free_facts hf
      obtain ⟨hrest, hdrained⟩ := hcar.mp h.carried
      obtain ⟨hevents, hdropped, hclosed, hfaithful⟩ := tryMessage_cases hm h.dropped
      have hopen : ring.closed = false := by rw [hclosed, h.closed, hclo]
      have hemitted := h.emitted
      rw [hh, hfar, hdrained] at hemitted
      exact
        { dropped := hdropped
          layout := by simp [h.layout, hevents, hrest, hdrained, spread_snoc]
          relayed := by
            intro r hm
            rcases List.mem_append.mp hm with hm | hm
            · exact h.relayed r hm
            · rw [List.mem_singleton.mp hm]
              exact hfaithful
          drained := by simp [hdrained]
          emitted := by
            simp only [List.append_nil, List.map_nil] at hemitted
            cases message <;> simp [hemitted, hdrained, inHand, farewell, relayOutput]
          carried := by simp [Carried, hrest, hdrained]
          closed := hopen
          emptied := fun hc => absurd hc (by simp [hopen]) }

/-- The relay emits the head of what it has in hand. -/
theorem Conserved.send (h : Conserved w) {emission : Emission α} {relay : Relay α}
    (hh : inHand w.relay = emission :: inHand relay) (hfar : farewell (w.send emission relay) = farewell w)
    (hcar : Carried w → Carried (w.send emission relay)) (hclo : isClosing relay = isClosing w.relay) :
    Conserved (w.send emission relay) := by
  refine h.of_eq rfl rfl rfl rfl rfl rfl ?_ hfar hcar hclo
  rw [hh]
  simp [World.send]

theorem length_le_of_layout (h : Conserved w) (hu : w.accepted.length ≤ wordMax) :
    (gaps w.drained).length + w.rest.length + w.displaced.length + w.ring.events.length ≤ wordMax := by
  have hlen := congrArg List.length h.layout
  have hle := length_gaps_le w.drained
  simp only [List.length_append] at hlen
  omega

theorem Conserved.emit (h : Conserved w) (hu : w.accepted.length ≤ wordMax) (hs : w.emit = some w') :
    Conserved w' := by
  have hcar := h.carried
  have hfar : ∀ e r, isClosing w.relay = false → isClosing r = false → farewell (w.send e r) = farewell w := by
    intro e r hw hr
    unfold farewell
    cases hwr : w.relay <;> cases r <;> simp_all [isClosing, World.send]
  unfold World.emit at hs
  split at hs
  · next e hr =>
    cases hs
    refine h.send (by rw [hr]; rfl) (hfar _ _ (by rw [hr]; rfl) rfl) ?_ (by rw [hr]; rfl)
    simp [Carried, World.send, hr]
  · next dropped e hr =>
    cases hs
    refine h.send (by rw [hr]; rfl) (hfar _ _ (by rw [hr]; rfl) rfl) ?_ (by rw [hr]; rfl)
    simp [Carried, World.send, hr]
  · next dropped hr =>
    cases hs
    refine h.send (by rw [hr]; rfl) (hfar _ _ (by rw [hr]; rfl) rfl) ?_ (by rw [hr]; rfl)
    simp [Carried, World.send, hr]
  · next left dropped message hr =>
    cases hs
    refine h.send (by rw [hr]; rfl) (hfar _ _ (by rw [hr]; rfl) rfl) ?_ (by rw [hr]; rfl)
    simp only [Carried, World.send, hr] at hcar ⊢
    obtain ⟨hrest, hcount⟩ := hcar
    refine fun _ => ⟨hrest, ?_⟩
    cases message with
    | event e => simpa [BusMessage.skipped] using hcount
    | lagged skipped e =>
        have hle := length_le_of_layout h hu
        simp only [BusMessage.skipped] at hcount ⊢
        rw [saturatingAdd_of_le (by omega), hcount]
  · cases hs

theorem Conserved.drain (h : Conserved w) (hs : w.drain = some w') : Conserved w' := by
  have hcar := h.carried
  have hemitted := h.emitted
  have hclosing : ∀ left dropped, w.relay = .draining left dropped →
      Conserved { w with relay := .closing dropped } := by
    intro left dropped hr
    refine h.of_eq rfl rfl rfl rfl rfl rfl (by rw [hr]; rfl) ?_ ?_ (by rw [hr]; rfl)
    · simp [farewell, hr]
    · simp [Carried, hr]
  unfold World.drain at hs
  split at hs
  · next dropped hr =>
    cases hs
    exact hclosing _ _ hr
  · next left dropped hr =>
    split at hs
    · next message ring hm =>
      cases hs
      obtain ⟨hevents, hdropped, hclosed, hfaithful⟩ := tryMessage_cases hm h.dropped
      have hopen : ring.closed = false := by rw [hclosed, h.closed, hr]; rfl
      simp only [Carried, hr] at hcar
      simp only [hr, inHand, farewell, List.append_nil] at hemitted
      exact
        { dropped := hdropped
          layout := by simp [h.layout, hevents, hcar.1, spread_snoc]
          relayed := h.relayed
          drained := by
            intro r hm
            rcases List.mem_append.mp hm with hm | hm
            · exact h.drained r hm
            · rw [List.mem_singleton.mp hm]
              exact hfaithful
          emitted := by simp [inHand, farewell, hemitted, drainOutput]
          carried := by
            have hskipped := hfaithful.skipped
            simp only at hskipped
            simp [Carried, hcar.1, hcar.2, gaps_snoc, hskipped]
          closed := hopen
          emptied := fun hc => absurd hc (by simp [hopen]) }
    · cases hs
      exact hclosing _ _ hr
  · cases hs

theorem Conserved.close (h : Conserved w) (hu : w.accepted.length ≤ wordMax) (hs : w.close = some w') :
    Conserved w' := by
  have hcar := h.carried
  have hemitted := h.emitted
  have hle := length_le_of_layout h hu
  unfold World.close at hs
  split at hs
  · next dropped hr =>
    cases hs
    simp only [Carried, hr] at hcar
    simp only [hr, inHand, farewell, List.append_nil] at hemitted
    exact
      { dropped := rfl
        layout := by simp [h.layout, hcar.1]
        relayed := h.relayed
        drained := h.drained
        emitted := by simpa [inHand, farewell] using hemitted
        carried := by
          have hd := h.dropped
          simp only [Carried, List.length_append]
          rw [Nat.min_eq_left (by omega), saturatingAdd_of_le (a := dropped) (by omega),
            saturatingAdd_of_le (by omega)]
          omega
        closed := rfl
        emptied := fun _ => ⟨rfl, rfl⟩ }
  · cases hs

theorem Conserved.finish (h : Conserved w) (hs : w.finish = some w') : Conserved w' := by
  have hcar := h.carried
  have hemitted := h.emitted
  unfold World.finish at hs
  split at hs
  · next dropped hr =>
    cases hs
    simp only [Carried, hr] at hcar
    simp only [hr, inHand, farewell, List.append_nil] at hemitted
    have heq : (if dropped = 0 then { w with relay := .finished } else w.send (lagged dropped) .finished) =
        { w with emitted := w.emitted ++ diagnostic dropped, relay := .finished } := by
      unfold diagnostic
      split
      · simp
      · rfl
    rw [heq]
    exact
      { dropped := h.dropped
        layout := h.layout
        relayed := h.relayed
        drained := h.drained
        emitted := by simp [inHand, farewell, hemitted, ← hcar]
        carried := trivial
        closed := by rw [h.closed, hr]; rfl
        emptied := h.emptied }
  · cases hs

theorem accepted_step {a : Action α} (hs : w.step capacity a = some w') :
    w.accepted <+: w'.accepted ∧ (w.ring.closed = true → w'.ring.closed = true ∧ w'.accepted = w.accepted) := by
  have hsame : w'.accepted = w.accepted → (w.ring.closed = true → w'.ring.closed = true) →
      w.accepted <+: w'.accepted ∧ (w.ring.closed = true → w'.ring.closed = true ∧ w'.accepted = w.accepted) :=
    fun hacc hclo => ⟨hacc ▸ List.prefix_rfl, fun hc => ⟨hclo hc, hacc⟩⟩
  have hmessage : ∀ {message : BusMessage α} {ring : RingState α}, w.ring.tryMessage = some (message, ring) →
      ring.closed = w.ring.closed := by
    intro message ring hm
    unfold RingState.tryMessage at hm
    split at hm
    · cases hm
    · cases hm
      rfl
  cases a with
  | push publisher =>
      simp only [World.step] at hs
      split at hs
      · cases hs
        unfold World.publish
        split
        · next hc => exact ⟨List.prefix_rfl, fun _ => ⟨hc, rfl⟩⟩
        · next hc => exact ⟨List.prefix_append _ _, fun h => absurd h hc⟩
      · cases hs
  | _ =>
      grind [World.step, World.poll, World.emit, World.drain, World.close, World.finish, World.receive, World.await,
        World.listen, World.unlisten, World.startDrain, World.send, World.notifyOne, World.enable,
        RingState.closeAndTakePending]

theorem Conserved.step (h : Conserved w) (hcap : 0 < capacity) {a : Action α} (hs : w.step capacity a = some w')
    (hu : w'.accepted.length ≤ wordMax) : Conserved w' := by
  have hw : w.accepted.length ≤ wordMax := Nat.le_trans (accepted_step hs).1.length_le hu
  cases a with
  | enable =>
      cases hs
      exact h.of_eq rfl rfl rfl rfl rfl rfl rfl rfl id rfl
  | load publisher event =>
      simp only [World.step] at hs
      split at hs
      · cases hs
        exact h.of_eq rfl rfl rfl rfl rfl rfl rfl rfl id rfl
      · cases hs
  | push publisher =>
      simp only [World.step] at hs
      split at hs
      · cases hs
        exact h.publish hcap _ _ hu
      · cases hs
  | notify publisher =>
      simp only [World.step] at hs
      split at hs
      · cases hs
        unfold World.notifyOne
        split <;> exact h.of_eq rfl rfl rfl rfl rfl rfl rfl rfl id rfl
      · cases hs
  | cancel =>
      cases hs
      exact h.of_eq rfl rfl rfl rfl rfl rfl rfl rfl id rfl
  | start =>
      simp only [World.step] at hs
      split at hs
      · next hr =>
        cases hs
        exact h.turn (by rw [hr]; rfl) rfl rfl rfl rfl rfl rfl rfl rfl
      · cases hs
  | poll => exact h.poll hs
  | tryMessage =>
      simp only [World.step] at hs
      split at hs
      · next hr =>
        cases hs
        exact h.receive hr
      · cases hs
  | await =>
      simp only [World.step] at hs
      split at hs
      · next hr =>
        cases hs
        exact h.await hr
      · cases hs
  | emit => exact h.emit hw hs
  | drain => exact h.drain hs
  | close => exact h.close hw hs
  | finish => exact h.finish hs

/-- The relay has a notification future of its own. -/
def isListening : Relay α → Bool
  | .receiving => true
  | .awaiting => true
  | .parked => true
  | _ => false

/-- The relay saw an empty ring after it registered. -/
def isExpecting : Relay α → Bool
  | .awaiting => true
  | .parked => true
  | _ => false

/-- Whoever fills the ring that the relay found empty has its notification
still to send, or has sent it. -/
structure Wakeful (w : World α) : Prop where
  listening : isListening w.relay = true → w.waiter ≠ .absent
  expecting : isExpecting w.relay = true → w.waiter = .waiting → w.ring.events ≠ [] →
    w.publishers.lookup w.filler = some .notify

theorem Wakeful.deaf (h : isListening w.relay = false) : Wakeful w where
  listening := fun hl => absurd hl (by simp [h])
  expecting := fun he => by
    cases hr : w.relay <;> simp_all [isListening, isExpecting]

theorem wakeful_listen (w : World α) : Wakeful w.listen := by
  unfold World.listen
  split <;> exact ⟨fun _ => nofun, nofun⟩

theorem Wakeful.publish (h : Wakeful w) (hcap : 0 < capacity) {publisher : Nat} {event : α}
    (hp : w.publishers.lookup publisher = some (.push event)) : Wakeful (w.publish capacity publisher event) := by
  have hother : ∀ {table : Table Nat (Publication α)}, (∀ p, p ≠ publisher → table.lookup p = w.publishers.lookup p) →
      w.publishers.lookup w.filler = some .notify → table.lookup w.filler = some .notify := by
    intro table htable hf
    rw [htable, hf]
    intro he
    rw [he, hp] at hf
    cases hf
  unfold World.publish
  split
  · refine ⟨h.listening, fun he hw hn => hother (fun p hne => ?_) (h.expecting he hw hn)⟩
    exact AList.lookup_erase_ne hne
  · obtain ⟨displaced, became, ring, hpush, -, -, -, hbecame, -⟩ := push_spec w.ring event hcap
    rw [hpush]
    refine ⟨h.listening, fun he hw _ => ?_⟩
    cases hempty : w.ring.events with
    | nil =>
        obtain rfl : became = true := by simp [hbecame, hempty]
        exact AList.lookup_insert w.publishers
    | cons old events =>
        obtain rfl : became = false := by simp [hbecame, hempty]
        refine hother (fun p hne => AList.lookup_erase_ne hne) (h.expecting he hw ?_)
        simp [hempty]

theorem Wakeful.notify (h : Wakeful w) (publisher : Nat) :
    Wakeful { w.notifyOne with publishers := w.publishers.erase publisher } := by
  unfold World.notifyOne
  split
  · exact ⟨fun _ => nofun, fun _ hw => nomatch hw⟩
  · next hne => exact ⟨h.listening, fun _ hw => absurd hw hne⟩

theorem Wakeful.poll (hs : w.poll capacity = some w') : Wakeful w' := by
  unfold World.poll at hs
  split at hs
  · cases hs
    split
    · exact .deaf rfl
    · exact wakeful_listen w
  · split at hs
    · cases hs
      exact .deaf rfl
    · split at hs
      · cases hs
        exact wakeful_listen w
      · cases hs
        exact wakeful_listen w
      · cases hs
  · cases hs

theorem Wakeful.receive (h : Wakeful w) (hr : w.relay = .receiving) : Wakeful w.receive := by
  unfold World.receive
  cases hm : w.ring.tryMessage with
  | some found => exact .deaf rfl
  | none =>
      refine ⟨fun _ => h.listening (by rw [hr]; rfl), fun _ _ hn => absurd ?_ hn⟩
      unfold RingState.tryMessage at hm
      split at hm
      · next he => exact he
      · cases hm

theorem Wakeful.await (h : Wakeful w) (hr : w.relay = .awaiting) : Wakeful w.await := by
  unfold World.await
  split
  · exact wakeful_listen w
  · exact wakeful_listen w
  · exact ⟨fun _ => h.listening (by rw [hr]; rfl), fun _ => h.expecting (by rw [hr]; rfl)⟩

theorem Wakeful.step (h : Wakeful w) (hcap : 0 < capacity) {a : Action α} (hs : w.step capacity a = some w') :
    Wakeful w' := by
  cases a with
  | enable =>
      cases hs
      exact ⟨h.listening, h.expecting⟩
  | load publisher event =>
      simp only [World.step] at hs
      split at hs
      · next hok =>
        cases hs
        simp only [Bool.and_eq_true, Option.isNone_iff_eq_none] at hok
        refine ⟨h.listening, fun he hw hn => ?_⟩
        have hf := h.expecting he hw hn
        have hne : w.filler ≠ publisher := fun hp => by
          rw [hp, hok.2] at hf
          cases hf
        exact (AList.lookup_insert_ne hne).trans hf
      · cases hs
  | push publisher =>
      simp only [World.step] at hs
      split at hs
      · next hp =>
        cases hs
        exact h.publish hcap hp
      · cases hs
  | notify publisher =>
      simp only [World.step] at hs
      split at hs
      · cases hs
        exact h.notify publisher
      · cases hs
  | cancel =>
      cases hs
      exact ⟨h.listening, h.expecting⟩
  | start =>
      simp only [World.step] at hs
      split at hs
      · cases hs
        exact .deaf rfl
      · cases hs
  | poll => exact .poll hs
  | tryMessage =>
      simp only [World.step] at hs
      split at hs
      · next hr =>
        cases hs
        exact h.receive hr
      · cases hs
  | await =>
      simp only [World.step] at hs
      split at hs
      · next hr =>
        cases hs
        exact h.await hr
      · cases hs
  | emit =>
      simp only [World.step, World.emit] at hs
      split at hs <;> cases hs <;> exact .deaf rfl
  | drain =>
      simp only [World.step, World.drain] at hs
      split at hs
      · cases hs
        exact .deaf rfl
      · split at hs <;> cases hs <;> exact .deaf rfl
      · cases hs
  | close =>
      simp only [World.step, World.close] at hs
      split at hs <;> cases hs
      exact .deaf rfl
  | finish =>
      simp only [World.step, World.finish] at hs
      split at hs <;> cases hs
      split <;> exact .deaf rfl

end Taskvisor.Events.Accounting
