import Taskvisor.Registry.Scheduler

namespace Taskvisor.Registry.Join

open Lib Runtime.Base Scheduler

variable {a : AttemptReservation} {w w' : World}

/-- The channel and the result while the wrapper is where it is. -/
def Wiring (w : World) : Wrapper → Prop
  | .unspawned => w.result = none ∧ w.channel = ⟨none, false, false⟩ ∧ w.stored = false
  | .discarded => w.result = none ∧ w.channel.value = none ∧ w.channel.senderGone = true ∧ w.stored = false
  | .running => w.result = none ∧ w.channel = ⟨none, false, false⟩
  | .produced result => w.result = some result ∧ w.channel = ⟨none, false, false⟩
  | .sent undelivered => undelivered = none ∧ w.result.isSome = true ∧ w.channel.senderGone = true
  | .signalled undelivered => undelivered = none ∧ w.result.isSome = true ∧ w.channel.senderGone = true
  | .finished (.output undelivered) => undelivered = none ∧ w.result.isSome = true ∧ w.channel.senderGone = true
  | .finished _ => w.result = none ∧ w.channel.value = none ∧ w.channel.senderGone = true

def signals (a : AttemptReservation) : Wrapper → List TaskId
  | .signalled _ => [a.id]
  | .finished (.output _) => [a.id]
  | _ => []

structure Wired (a : AttemptReservation) (w : World) : Prop where
  wiring : Wiring w w.wrapper
  completions : w.completions = signals a w.wrapper

/-- The result, or the way to it, is with the holder of these two. -/
inductive Custody (w : World) : Option Receiver → Option ActorResult → Prop
  | held (hv : w.channel.senderGone = true → w.channel.value = w.result) : Custody w (some ⟨⟩) none
  | taken {result : ActorResult} (hr : w.result = some result) : Custody w none (some result)
  | closed (hr : w.result = none) (hs : w.channel.senderGone = true) : Custody w none none

theorem Custody.congr {result : Option Receiver} {ready : Option ActorResult} (h : Custody w result ready)
    (hc : w'.channel = w.channel) (hr : w'.result = w.result) : Custody w' result ready := by
  cases h with
  | held hv => exact .held (by rw [hc, hr]; exact hv)
  | taken h => exact .taken (hr.trans h)
  | closed h hs => exact .closed (hr.trans h) (by rw [hc]; exact hs)

/-- Nothing is left in the handle but what `abort` puts there. -/
structure Spent (w : World) : Prop where
  stored : w.stored = true
  join : w.handle.join = none
  joinSlot : w.joinSlot = none
  result : w.handle.result = none
  ready : w.handle.ready = none
  reservation : w.handle.reservation = none

structure Owned (a : AttemptReservation) (w : World) : Prop where
  stored : w.stored = true
  dropped : w.dropped = false
  effects : w.effects = []
  yielded : w.yielded = []
  aborted : w.aborted = false
  logical : w.handle.logical = none
  reservation : w.handle.reservation = some a
  join : w.handle.join = some ⟨⟩ ∧ w.joinSlot = none ∨ w.handle.join = none ∧ w.joinSlot = some ⟨⟩
  custody : Custody w w.handle.result w.handle.ready

/-- What a handle whose `abort` was called still has to say. -/
def Aborting (w : World) : Prop :=
  w.dropped = false → w.handle.logical = some (.error .aborted) ∨ .error .aborted ∈ w.yielded

inductive Stage (a : AttemptReservation) (w : World) : Op → Prop
  | fresh (hs : w.stored = false) (hh : w.handle = .new a) (hj : w.joinSlot = none) (hd : w.dropped = false)
      (he : w.effects = []) (hy : w.yielded = []) (ha : w.aborted = false) (hc : Custody w (some ⟨⟩) none) :
      Stage a w .idle
  | discarded (hw : w.wrapper = .discarded) (hd : w.dropped = true) (he : w.effects = []) (hy : w.yielded = [])
      (ha : w.aborted = false) : Stage a w .idle
  | owned (h : Owned a w) : Stage a w .idle
  | polled (h : Owned a w) (hj : w.handle.join.isSome = true) : Stage a w .polled
  | joined (h : Owned a w) (hj : w.handle.join.isSome = true) {joined : Joined} (hw : w.wrapper = .finished joined) :
      Stage a w (.joined joined)
  | registered {reap : Reap} {dropping : Bool} (h : Spent w) (hd : w.dropped = false)
      (he : w.effects = [.registered a]) (hy : w.yielded = []) (ha : w.aborted = true)
      (hc : Custody w reap.result reap.ready) : Stage a w (.registered reap dropping)
  | requested {reap : Reap} {dropping : Bool} (h : Spent w) (hd : w.dropped = false)
      (he : w.effects = [.registered a, .abortRequested]) (hy : w.yielded = []) (ha : w.aborted = true)
      (hc : Custody w reap.result reap.ready) : Stage a w (.requested reap dropping)
  | aborted (h : Spent w) {reap : Reap} (he : w.effects = [.registered a, .abortRequested, .submitted reap])
      (hc : Custody w reap.result reap.ready) (hy : ∀ v ∈ w.yielded, v = .error .aborted) (ha : w.aborted = true)
      (hl : Aborting w) : Stage a w .idle
  | resolved (h : Spent w) (he : w.effects = []) {joined : Joined} (hw : w.wrapper = .finished joined)
      {value : ActorResult} {rest : List ActorResult} (hy : w.yielded = value :: rest)
      (hv : ∀ result, w.result = some result → value = result) (hn : w.aborted = false → rest = [])
      (ha : w.aborted = true → Aborting w) : Stage a w .idle

/-- No more can be yielded than was put there by `abort`. -/
structure Kept (a : AttemptReservation) (w : World) : Prop where
  wired : Wired a w
  stage : Stage a w w.op
  logical : ∀ v, w.handle.logical = some v → v = .error .aborted ∧ w.aborted = true
  receiver : w.channel.receiverGone = true → w.wrapper = .discarded

theorem kept_new (a : AttemptReservation) : Kept a (.new a) where
  wired := ⟨⟨rfl, rfl, rfl⟩, rfl⟩
  stage := .fresh rfl rfl rfl rfl rfl rfl rfl (.held fun h => by cases h)
  logical := fun _ h => by cases h
  receiver := fun h => by cases h

/-- A step of the wrapper, that leaves the handle alone. -/
structure Beside (w w' : World) : Prop where
  handle : w'.handle = w.handle
  joinSlot : w'.joinSlot = w.joinSlot
  stored : w'.stored = w.stored
  op : w'.op = w.op
  yielded : w'.yielded = w.yielded
  dropped : w'.dropped = w.dropped
  effects : w'.effects = w.effects
  aborted : w'.aborted = w.aborted
  custody : ∀ {result : Option Receiver} {ready : Option ActorResult}, Custody w result ready → Custody w' result ready
  discarded : w.wrapper = .discarded → w'.wrapper = .discarded
  finished : ∀ {joined : Joined}, w.wrapper = .finished joined → w'.wrapper = .finished joined ∧ w'.result = w.result

theorem Owned.beside (h : Owned a w) (hb : Beside w w') : Owned a w' where
  stored := hb.stored.trans h.stored
  dropped := hb.dropped.trans h.dropped
  effects := hb.effects.trans h.effects
  yielded := hb.yielded.trans h.yielded
  aborted := hb.aborted.trans h.aborted
  logical := by rw [hb.handle, h.logical]
  reservation := by rw [hb.handle, h.reservation]
  join := by rw [hb.handle, hb.joinSlot]; exact h.join
  custody := by rw [hb.handle]; exact hb.custody h.custody

theorem Spent.beside (h : Spent w) (hb : Beside w w') : Spent w' where
  stored := hb.stored.trans h.stored
  join := by rw [hb.handle, h.join]
  joinSlot := hb.joinSlot.trans h.joinSlot
  result := by rw [hb.handle, h.result]
  ready := by rw [hb.handle, h.ready]
  reservation := by rw [hb.handle, h.reservation]

theorem Aborting.beside (h : Aborting w) (hb : Beside w w') : Aborting w' := by
  rw [Aborting, hb.dropped, hb.handle, hb.yielded]
  exact h

theorem Stage.beside {op : Op} (h : Stage a w op) (hb : Beside w w') : Stage a w' op := by
  cases h with
  | fresh hs hh hj hd he hy ha hc =>
      exact .fresh (hb.stored.trans hs) (hb.handle.trans hh) (hb.joinSlot.trans hj) (hb.dropped.trans hd)
        (hb.effects.trans he) (hb.yielded.trans hy) (hb.aborted.trans ha) (hb.custody hc)
  | discarded hw hd he hy ha =>
      exact .discarded (hb.discarded hw) (hb.dropped.trans hd) (hb.effects.trans he) (hb.yielded.trans hy)
        (hb.aborted.trans ha)
  | owned h => exact .owned (h.beside hb)
  | polled h hj => exact .polled (h.beside hb) (by rw [hb.handle, hj])
  | joined h hj hw => exact .joined (h.beside hb) (by rw [hb.handle, hj]) (hb.finished hw).1
  | registered h hd he hy ha hc =>
      exact .registered (h.beside hb) (hb.dropped.trans hd) (hb.effects.trans he) (hb.yielded.trans hy)
        (hb.aborted.trans ha) (hb.custody hc)
  | requested h hd he hy ha hc =>
      exact .requested (h.beside hb) (hb.dropped.trans hd) (hb.effects.trans he) (hb.yielded.trans hy)
        (hb.aborted.trans ha) (hb.custody hc)
  | aborted h he hc hy ha hl =>
      exact .aborted (h.beside hb) (hb.effects.trans he) (hb.custody hc) (by rw [hb.yielded]; exact hy)
        (hb.aborted.trans ha) (hl.beside hb)
  | resolved h he hw hy hv hn ha =>
      obtain ⟨hw', hr⟩ := hb.finished hw
      exact .resolved (h.beside hb) (hb.effects.trans he) hw' (hb.yielded.trans hy) (by rw [hr]; exact hv)
        (by rw [hb.aborted]; exact hn) (by rw [hb.aborted]; exact fun h => (ha h).beside hb)

theorem Kept.beside (h : Kept a w) (hb : Beside w w') (hw : Wired a w')
    (hr : w'.channel.receiverGone = w.channel.receiverGone) : Kept a w' where
  wired := hw
  stage := hb.op ▸ h.stage.beside hb
  logical := fun v hv => by rw [hb.aborted]; exact h.logical v (hb.handle ▸ hv)
  receiver := fun hg => hb.discarded (h.receiver (hr ▸ hg))

theorem Kept.produce (h : Kept a w) (hw : w.wrapper = .running) (result : ActorResult) (cleanupPoisoned : Bool) :
    Kept a ({ w with cleanupPoisoned }.produce result) := by
  obtain ⟨hwire, hcomp⟩ := h.wired
  rw [hw] at hwire hcomp
  obtain ⟨hres, hchan⟩ := hwire
  refine h.beside ⟨rfl, rfl, rfl, rfl, rfl, rfl, rfl, rfl, fun hc => ?_, fun hd => ?_, fun hf => ?_⟩ ⟨⟨rfl, hchan⟩, hcomp⟩ rfl
  · cases hc with
    | held => exact .held fun hs => by simp [World.produce, hchan] at hs
    | taken hr => simp [hres] at hr
    | closed _ hs => simp [hchan] at hs
  · simp [hw] at hd
  · simp [hw] at hf

theorem Kept.fails (h : Kept a w) (hw : w.wrapper = .running) {joined : Joined}
    (hj : ∀ undelivered, joined ≠ .output undelivered) : Kept a (w.fails joined) := by
  obtain ⟨hwire, hcomp⟩ := h.wired
  rw [hw] at hwire hcomp
  obtain ⟨hres, hchan⟩ := hwire
  have hval : w.channel.value = none := by rw [hchan]
  refine h.beside ⟨rfl, rfl, rfl, rfl, rfl, rfl, rfl, rfl, fun hc => ?_, fun hd => ?_, fun hf => ?_⟩ ?_ rfl
  · cases hc with
    | held => exact .held fun _ => hval.trans hres.symm
    | taken hr => simp [hres] at hr
    | closed hr => exact .closed hr rfl
  · simp [hw] at hd
  · simp [hw] at hf
  · cases joined with
    | output undelivered => exact absurd rfl (hj undelivered)
    | panicked | cancelled => exact ⟨⟨hres, hval, rfl⟩, hcomp⟩

theorem Kept.discard (h : Kept a w) (hw : w.wrapper = .unspawned) :
    Kept a { w with wrapper := .discarded, channel := { w.channel with senderGone := true } } := by
  obtain ⟨hwire, hcomp⟩ := h.wired
  rw [hw] at hwire hcomp
  obtain ⟨hres, hchan, hst⟩ := hwire
  have hval : w.channel.value = none := by rw [hchan]
  refine h.beside ⟨rfl, rfl, rfl, rfl, rfl, rfl, rfl, rfl, fun hc => ?_, fun hd => ?_, fun hf => ?_⟩
    ⟨⟨hres, hval, rfl, hst⟩, hcomp⟩ rfl
  · cases hc with
    | held => exact .held fun _ => hval.trans hres.symm
    | taken hr => simp [hres] at hr
    | closed hr => exact .closed hr rfl
  · simp [hw] at hd
  · simp [hw] at hf

theorem Kept.send (h : Kept a w) {result : ActorResult} (hw : w.wrapper = .produced result) :
    Kept a { w with wrapper := .sent (w.channel.send result).1, channel := (w.channel.send result).2 } := by
  obtain ⟨hwire, hcomp⟩ := h.wired
  rw [hw] at hwire hcomp
  obtain ⟨hres, hchan⟩ := hwire
  have hsend : w.channel.send result = (none, ⟨some result, true, false⟩) := by rw [hchan]; rfl
  rw [hsend]
  refine h.beside ⟨rfl, rfl, rfl, rfl, rfl, rfl, rfl, rfl, fun hc => ?_, fun hd => ?_, fun hf => ?_⟩
    ⟨⟨rfl, by rw [hres]; rfl, rfl⟩, hcomp⟩ (by rw [hchan])
  · cases hc with
    | held => exact .held fun _ => hres.symm
    | taken hr => exact .taken hr
    | closed hr => simp [hres] at hr
  · simp [hw] at hd
  · simp [hw] at hf

theorem Spent.probe (h : Spent w) : w.probe = w := by
  rw [World.probe, h.ready, h.result]

theorem Spent.loadJoin (h : Spent w) : w.loadJoin = w := by
  have hj := h.joinSlot
  have hn := h.join
  obtain ⟨wrapper, joinSlot, stored, channel, completions, cleanupPoisoned, ⟨join, result, ready, logical, reservation⟩⟩ := w
  obtain rfl : joinSlot = none := hj
  obtain rfl : join = none := hn
  rfl

/-- What probing the receiver and loading the join handle leave alone. -/
structure Reads (w w' : World) : Prop where
  wrapper : w'.wrapper = w.wrapper
  completions : w'.completions = w.completions
  result : w'.result = w.result
  op : w'.op = w.op
  stored : w'.stored = w.stored
  aborted : w'.aborted = w.aborted
  logical : w'.handle.logical = w.handle.logical
  channel : w'.channel = { w.channel with value := w'.channel.value }
  value : w'.channel.value = w.channel.value ∨ w'.channel.value = none

theorem Reads.trans {w'' : World} (h : Reads w w') (h' : Reads w' w'') : Reads w w'' where
  wrapper := h'.wrapper.trans h.wrapper
  completions := h'.completions.trans h.completions
  result := h'.result.trans h.result
  op := h'.op.trans h.op
  stored := h'.stored.trans h.stored
  aborted := h'.aborted.trans h.aborted
  logical := h'.logical.trans h.logical
  channel := by rw [h'.channel, h.channel]
  value := by
    rcases h'.value with hv | hv
    · rw [hv]
      exact h.value
    · exact .inr hv

theorem Wired.reads (h : Wired a w) (hr : Reads w w') : Wired a w' := by
  obtain ⟨hw, hc⟩ := h
  have hchan (hch : w.channel = ⟨none, false, false⟩) : w'.channel = ⟨none, false, false⟩ := by
    have hv : w'.channel.value = none := by
      rcases hr.value with hv | hv
      · rw [hv, hch]
      · exact hv
    rw [hr.channel, hv, hch]
  have hval (hv : w.channel.value = none) : w'.channel.value = none := hr.value.elim (·.trans hv) id
  have hgone : w'.channel.senderGone = w.channel.senderGone := by rw [hr.channel]
  refine ⟨?_, by rw [hr.completions, hr.wrapper, hc]⟩
  rw [hr.wrapper]
  cases hwr : w.wrapper with
  | unspawned =>
      rw [hwr] at hw
      exact ⟨hr.result.trans hw.1, hchan hw.2.1, hr.stored.trans hw.2.2⟩
  | discarded =>
      rw [hwr] at hw
      exact ⟨hr.result.trans hw.1, hval hw.2.1, hgone.trans hw.2.2.1, hr.stored.trans hw.2.2.2⟩
  | running =>
      rw [hwr] at hw
      exact ⟨hr.result.trans hw.1, hchan hw.2⟩
  | produced result =>
      rw [hwr] at hw
      exact ⟨hr.result.trans hw.1, hchan hw.2⟩
  | sent undelivered | signalled undelivered =>
      rw [hwr] at hw
      exact ⟨hw.1, by rw [hr.result]; exact hw.2.1, hgone.trans hw.2.2⟩
  | finished joined =>
      rw [hwr] at hw
      cases joined with
      | output undelivered => exact ⟨hw.1, by rw [hr.result]; exact hw.2.1, hgone.trans hw.2.2⟩
      | panicked | cancelled => exact ⟨hr.result.trans hw.1, hval hw.2.1, hgone.trans hw.2.2⟩

theorem Owned.loadJoin_eq (h : Owned a w) :
    w.loadJoin = { w with handle := { w.handle with join := some ⟨⟩ }, joinSlot := none } := by
  have hj := h.join
  obtain ⟨wrapper, joinSlot, stored, channel, completions, cleanupPoisoned, ⟨join, result, ready, logical, reservation⟩⟩ := w
  rcases hj with ⟨hj, hs⟩ | ⟨hj, hs⟩
  · obtain rfl : join = some ⟨⟩ := hj
    obtain rfl : joinSlot = none := hs
    rfl
  · obtain rfl : join = none := hj
    obtain rfl : joinSlot = some ⟨⟩ := hs
    rfl

theorem Owned.loadJoin (h : Owned a w) : Owned a w.loadJoin ∧ w.loadJoin.handle.join = some ⟨⟩ ∧ Reads w w.loadJoin := by
  rw [h.loadJoin_eq]
  refine ⟨⟨h.stored, h.dropped, h.effects, h.yielded, h.aborted, h.logical, h.reservation, .inl ⟨rfl, rfl⟩, ?_⟩, rfl,
    rfl, rfl, rfl, rfl, rfl, rfl, rfl, rfl, .inl rfl⟩
  exact h.custody.congr rfl rfl

/-- A probe moves the result, if it is there, and nothing else. -/
structure Probes (w w' : World) : Prop extends Reads w w' where
  join : w'.handle.join = w.handle.join
  reservation : w'.handle.reservation = w.handle.reservation
  joinSlot : w'.joinSlot = w.joinSlot
  dropped : w'.dropped = w.dropped
  effects : w'.effects = w.effects
  yielded : w'.yielded = w.yielded
  custody : Custody w' w'.handle.result w'.handle.ready
  settled : w.channel.senderGone = true → w'.handle.result = none ∧ w'.handle.ready = w.result

theorem Wired.senderGone (h : Wired a w) {value : ActorResult} (hv : w.channel.value = some value) :
    w.channel.senderGone = true := by
  have hw := h.wiring
  cases hwr : w.wrapper with
  | unspawned => rw [hwr] at hw; simp [hw.2.1] at hv
  | discarded => rw [hwr] at hw; exact hw.2.2.1
  | running => rw [hwr] at hw; simp [hw.2] at hv
  | produced result => rw [hwr] at hw; simp [hw.2] at hv
  | sent undelivered | signalled undelivered => rw [hwr] at hw; exact hw.2.2
  | finished joined =>
      rw [hwr] at hw
      cases joined <;> exact hw.2.2

theorem Wired.probe (hw : Wired a w) (h : Custody w w.handle.result w.handle.ready) : Probes w w.probe := by
  have hgone : ∀ value, w.channel.value = some value → w.channel.senderGone = true := fun _ => hw.senderGone
  obtain ⟨wrapper, joinSlot, stored, ⟨value, senderGone, receiverGone⟩, completions, cleanupPoisoned,
    ⟨join, result, ready, logical, reservation⟩, op, yielded, dropped, effects, produced, aborted⟩ := w
  cases h with
  | held hv =>
      cases value with
      | some result =>
          have hr : some result = produced := hv (hgone result rfl)
          exact ⟨⟨rfl, rfl, rfl, rfl, rfl, rfl, rfl, rfl, .inr rfl⟩, rfl, rfl, rfl, rfl, rfl, rfl, .taken hr.symm,
            fun _ => ⟨rfl, hr⟩⟩
      | none =>
          cases senderGone with
          | true =>
              exact ⟨⟨rfl, rfl, rfl, rfl, rfl, rfl, rfl, rfl, .inr rfl⟩, rfl, rfl, rfl, rfl, rfl, rfl,
                .closed (hv rfl).symm rfl, fun hs => ⟨rfl, hv hs⟩⟩
          | false =>
              exact ⟨⟨rfl, rfl, rfl, rfl, rfl, rfl, rfl, rfl, .inr rfl⟩, rfl, rfl, rfl, rfl, rfl, rfl, .held hv,
                fun hs => by cases hs⟩
  | taken hr =>
      exact ⟨⟨rfl, rfl, rfl, rfl, rfl, rfl, rfl, rfl, .inl rfl⟩, rfl, rfl, rfl, rfl, rfl, rfl, .taken hr,
        fun _ => ⟨rfl, hr.symm⟩⟩
  | closed hr hs =>
      exact ⟨⟨rfl, rfl, rfl, rfl, rfl, rfl, rfl, rfl, .inl rfl⟩, rfl, rfl, rfl, rfl, rfl, rfl, .closed hr hs,
        fun _ => ⟨rfl, hr.symm⟩⟩

theorem Owned.probe (h : Owned a w) (hw : Wired a w) : Owned a w.probe := by
  have hp := hw.probe h.custody
  refine ⟨hp.stored.trans h.stored, hp.dropped.trans h.dropped, hp.effects.trans h.effects, hp.yielded.trans h.yielded,
    hp.aborted.trans h.aborted, hp.logical.trans h.logical, hp.reservation.trans h.reservation, ?_, hp.custody⟩
  rw [hp.join, hp.joinSlot]
  exact h.join

theorem Kept.reads (h : Kept a w) (hr : Reads w w') (hs : Stage a w' w'.op) : Kept a w' where
  wired := h.wired.reads hr
  stage := hs
  logical := fun v hv => by rw [hr.aborted]; exact h.logical v (hr.logical ▸ hv)
  receiver := fun hg => hr.wrapper.trans (h.receiver (by rw [hr.channel] at hg; exact hg))

/-- A claimed handle owns its task, or is spent. -/
inductive Claim (a : AttemptReservation) (w : World) : Prop
  | owned (h : Owned a w)
  | aborted (h : Spent w) {reap : Reap} (he : w.effects = [.registered a, .abortRequested, .submitted reap])
      (hc : Custody w reap.result reap.ready) (hy : ∀ v ∈ w.yielded, v = .error .aborted) (ha : w.aborted = true)
      (hl : Aborting w)
  | resolved (h : Spent w) (he : w.effects = []) {joined : Joined} (hw : w.wrapper = .finished joined)
      {value : ActorResult} {rest : List ActorResult} (hy : w.yielded = value :: rest)
      (hv : ∀ result, w.result = some result → value = result) (hn : w.aborted = false → rest = [])
      (ha : w.aborted = true → Aborting w)

theorem Kept.claim (h : Kept a w) (hop : w.op = .idle) (hc : w.claimed = true) : Claim a w := by
  have hs := h.stage
  rw [World.claimed, Bool.and_eq_true, Bool.not_eq_true'] at hc
  rw [hop] at hs
  cases hs with
  | fresh hs => simp [hs] at hc
  | discarded _ hd => simp [hd] at hc
  | owned h => exact .owned h
  | aborted h he hcu hy ha hl => exact .aborted h he hcu hy ha hl
  | resolved h he hw hy hv hn ha => exact .resolved h he hw hy hv hn ha

theorem Claim.stage (h : Claim a w) (hop : w.op = .idle) : Stage a w w.op := by
  rw [hop]
  cases h with
  | owned h => exact .owned h
  | aborted h he hcu hy ha hl => exact .aborted h he hcu hy ha hl
  | resolved h he hw hy hv hn ha => exact .resolved h he hw hy hv hn ha

theorem Kept.probe (h : Kept a w) (hop : w.op = .idle) (hc : w.claimed = true) : Kept a w.probe := by
  cases h.claim hop hc with
  | owned ho =>
      have hp := h.wired.probe ho.custody
      exact h.reads hp.toReads ((Claim.owned (ho.probe h.wired)).stage (hp.op.trans hop))
  | aborted hs => rw [hs.probe]; exact h
  | resolved hs => rw [hs.probe]; exact h

theorem Owned.withOp (h : Owned a w) (op : Op) : Owned a { w with op } :=
  ⟨h.stored, h.dropped, h.effects, h.yielded, h.aborted, h.logical, h.reservation, h.join, h.custody.congr rfl rfl⟩

theorem Kept.withOp (h : Kept a w) {op : Op} (hs : Stage a { w with op } op) : Kept a { w with op } :=
  ⟨⟨h.wired.wiring, h.wired.completions⟩, hs, h.logical, h.receiver⟩

/-- What `poll` does to a handle that owns its task. -/
theorem Owned.poll_eq (h : Owned a w) (hw : Wired a w) : ∃ u, w.poll = { u with op := .polled } ∧ Owned a u ∧
    u.handle.join = some ⟨⟩ ∧ Reads w u ∧ (w.channel.senderGone = true → u.handle.ready = w.result) := by
  obtain ⟨hl, hj, hr⟩ := h.loadJoin
  have hp := (hw.reads hr).probe hl.custody
  have hj' : w.loadJoin.probe.handle.join = some ⟨⟩ := hp.join.trans hj
  refine ⟨w.loadJoin.probe, ?_, hl.probe (hw.reads hr), hj', hr.trans hp.toReads, fun hs => ?_⟩
  · rw [World.poll, h.logical]
    simp only [hj', Option.isSome_some, if_true]
  · exact (hp.settled (by rw [hr.channel]; exact hs)).2.trans hr.result

theorem Spent.poll_eq (h : Spent w) (hop : w.op = .idle) (hl : w.handle.logical = none) : w.poll = w := by
  rw [World.poll, hl]
  simp only [h.loadJoin, h.probe, h.join, Option.isSome_none, Bool.false_eq_true, if_false]
  rw [← hop]

theorem Kept.poll (h : Kept a w) (hop : w.op = .idle) (hc : w.claimed = true) : Kept a w.poll := by
  cases h.claim hop hc with
  | owned ho =>
      obtain ⟨u, hu, hou, hj, hr, -⟩ := ho.poll_eq h.wired
      rw [hu]
      have hk : Kept a u := h.reads hr ((Claim.owned hou).stage (hr.op.trans hop))
      exact hk.withOp (.polled (hou.withOp _) (by rw [hj]; rfl))
  | aborted hs he hcu hy ha hl =>
      cases hlog : w.handle.logical with
      | none => rw [hs.poll_eq hop hlog]; exact h
      | some v =>
          obtain ⟨rfl, -⟩ := h.logical v hlog
          rw [World.poll, hlog]
          refine ⟨⟨h.wired.wiring, h.wired.completions⟩, ?_, (fun v hv => by cases hv), h.receiver⟩
          refine .aborted ⟨hs.stored, hs.join, hs.joinSlot, hs.result, hs.ready, hs.reservation⟩ he (hcu.congr rfl rfl) ?_ ha ?_
          · exact fun v hv => (List.mem_append.mp hv).elim (hy v) List.mem_singleton.mp
          · exact fun _ => .inr (List.mem_append_right _ (List.mem_singleton.mpr rfl))
  | resolved hs he hw hy hv hn ha =>
      cases hlog : w.handle.logical with
      | none => rw [hs.poll_eq hop hlog]; exact h
      | some v =>
          obtain ⟨rfl, hab⟩ := h.logical v hlog
          rw [World.poll, hlog]
          refine ⟨⟨h.wired.wiring, h.wired.completions⟩, ?_, (fun v hv => by cases hv), h.receiver⟩
          refine .resolved ⟨hs.stored, hs.join, hs.joinSlot, hs.result, hs.ready, hs.reservation⟩ he hw
            ((congrArg (· ++ _) hy).trans (List.cons_append)) hv (fun hf => ?_) fun _ _ => ?_
          · exact absurd (hab.symm.trans hf) (by simp)
          · exact .inr (List.mem_append_right _ (List.mem_singleton.mpr rfl))

theorem Kept.pollJoin (h : Kept a w) (hop : w.op = .polled) :
    (∀ joined, w.wrapper = .finished joined → Kept a { w with op := .joined joined }) ∧ Kept a { w with op := .idle } := by
  have hs := h.stage
  rw [hop] at hs
  cases hs with
  | polled ho hj =>
      refine ⟨fun joined hw => h.withOp ?_, h.withOp (.owned (ho.withOp _))⟩
      exact .joined (ho.withOp (.joined joined)) hj hw

theorem Wired.finished (h : Wired a w) {joined : Joined} (hw : w.wrapper = .finished joined) :
    w.channel.senderGone = true := by
  have hwire := h.wiring
  rw [hw] at hwire
  cases joined <;> exact hwire.2.2

/-- What a join resolves to. -/
theorem Owned.completeJoin_eq (h : Owned a w) (hwd : Wired a w) {joined : Joined} (hw : w.wrapper = .finished joined)
    (hj : w.handle.join.isSome = true) :
    ∃ u, w.completeJoin joined = ((w.result.or (World.fallback w.cleanupPoisoned joined).1).getD (.error .aborted), u) ∧
      Spent u ∧ u.dropped = false ∧ u.effects = [] ∧ u.yielded = [] ∧ Reads w u := by
  have hj : w.joinSlot = none := by
    rcases h.join with ⟨-, hn⟩ | ⟨hn, -⟩
    · exact hn
    · simp [hn] at hj
  generalize hb : (World.fallback w.cleanupPoisoned joined).2 = b
  have hv : Wired a { w with cleanupPoisoned := b, handle := { w.handle with join := none, reservation := none } } :=
    ⟨hwd.wiring, hwd.completions⟩
  have hp := hv.probe (h.custody.congr rfl rfl)
  obtain ⟨hres, hready⟩ := hp.settled (hwd.finished hw)
  generalize hu : World.probe _ = u at hp hres hready
  refine ⟨{ u with handle := { u.handle with ready := none } }, ?_, ⟨hp.stored.trans h.stored, hp.join, hp.joinSlot.trans hj,
    hres, rfl, hp.reservation⟩, hp.dropped.trans h.dropped, hp.effects.trans h.effects, hp.yielded.trans h.yielded,
    ⟨hp.wrapper, hp.completions, hp.result, hp.op, hp.stored, hp.aborted, hp.logical, hp.channel, hp.value⟩⟩
  rw [World.completeJoin]
  simp only [World.resultReady, hb, hu, hready]

theorem or_fallback {result : ActorResult} {fallback : Option ActorResult} (hr : w.result = some result) :
    (w.result.or fallback).getD (.error .aborted) = result := by
  rw [hr]
  rfl

theorem Kept.complete (h : Kept a w) {joined : Joined} (hop : w.op = .joined joined) :
    Kept a ((w.completeJoin joined).2.yields (w.completeJoin joined).1) := by
  have hs := h.stage
  rw [hop] at hs
  cases hs with
  | joined ho hj hw =>
      obtain ⟨u, hu, hsp, hd, he, hy, hr⟩ := ho.completeJoin_eq h.wired hw hj
      rw [hu]
      have hwd := h.wired.reads hr
      have hlog : u.handle.logical = none := hr.logical.trans ho.logical
      have hyield (v : ActorResult) : u.yielded ++ [v] = [v] := by rw [hy]; rfl
      refine ⟨⟨hwd.wiring, hwd.completions⟩, ?_, fun v hv => ?_, fun hg => ?_⟩
      · refine .resolved ⟨hsp.stored, hsp.join, hsp.joinSlot, hsp.result, hsp.ready, hsp.reservation⟩ he
          (hr.wrapper.trans hw) (hyield _) (fun result hres => ?_) (fun _ => rfl) fun ha => ?_
        · exact or_fallback (hr.result.symm.trans hres)
        · exact absurd (ha.symm.trans (hr.aborted.trans ho.aborted)) (by simp)
      · exact absurd (hv.symm.trans hlog) (by simp)
      · exact hr.wrapper.trans (h.receiver (by rw [World.yields, hr.channel] at hg; exact hg))

theorem Spent.gone_eq (h : Spent w) : w.gone = { w with dropped := true, handle := ⟨none, none, none, none, none⟩ } := by
  simp [World.gone, h.result]

/-- What `abort` does to a handle that owns its task. -/
theorem Owned.abort_eq (h : Owned a w) (dropping : Bool) :
    w.abort dropping =
      { w with
        handle := ⟨none, none, none, none, none⟩
        joinSlot := none
        aborted := true
        effects := [.registered a]
        op := .registered ⟨⟨⟩, w.handle.result, w.handle.ready⟩ dropping } := by
  rw [World.abort, h.loadJoin_eq]
  simp only [h.reservation, h.effects, h.logical, List.nil_append]

theorem Kept.abortOwned (h : Kept a w) (ho : Owned a w) (dropping : Bool) : Kept a (w.abort dropping) := by
  rw [ho.abort_eq]
  refine ⟨⟨h.wired.wiring, h.wired.completions⟩, ?_, (fun v hv => by cases hv), h.receiver⟩
  exact .registered ⟨ho.stored, rfl, rfl, rfl, rfl, rfl⟩ ho.dropped rfl ho.yielded rfl (ho.custody.congr rfl rfl)

/-- What `abort` does to a spent handle. -/
theorem Spent.abort_eq (h : Spent w) (dropping : Bool) :
    w.abort dropping = { w with aborted := true, handle := { w.handle with logical := some (.error .aborted) } } := by
  rw [World.abort, h.loadJoin]
  simp only [h.join]

theorem Kept.abort (h : Kept a w) (hop : w.op = .idle) (hc : w.claimed = true) : Kept a (w.abort false) := by
  have hlog (u : World) (hu : u = { w with aborted := true, handle := { w.handle with logical := some (.error .aborted) } })
      (hs : Stage a u u.op) : Kept a u := by
    subst hu
    refine ⟨⟨h.wired.wiring, h.wired.completions⟩, hs, fun v hv => ?_, h.receiver⟩
    exact ⟨(Option.some.inj hv).symm, rfl⟩
  cases h.claim hop hc with
  | owned ho => exact h.abortOwned ho false
  | aborted hs he hcu hy ha hl =>
      refine hlog _ (hs.abort_eq false) ?_
      rw [hs.abort_eq]
      exact hop ▸ .aborted ⟨hs.stored, hs.join, hs.joinSlot, hs.result, hs.ready, hs.reservation⟩ he (hcu.congr rfl rfl) hy
        rfl fun _ => .inl rfl
  | resolved hs he hw hy hv hn ha =>
      refine hlog _ (hs.abort_eq false) ?_
      rw [hs.abort_eq]
      exact hop ▸ .resolved ⟨hs.stored, hs.join, hs.joinSlot, hs.result, hs.ready, hs.reservation⟩ he hw hy hv
        (fun hf => by cases hf) fun _ _ => .inl rfl

theorem Kept.request (h : Kept a w) {reap : Reap} {dropping : Bool} (hop : w.op = .registered reap dropping) :
    Kept a { w with effects := w.effects ++ [.abortRequested], op := .requested reap dropping } := by
  have hs := h.stage
  rw [hop] at hs
  cases hs with
  | registered hsp hd he hy ha hc =>
      refine ⟨⟨h.wired.wiring, h.wired.completions⟩, ?_, h.logical, h.receiver⟩
      have heffects : w.effects ++ [.abortRequested] = [.registered a, .abortRequested] := by rw [he]; rfl
      exact .requested ⟨hsp.stored, hsp.join, hsp.joinSlot, hsp.result, hsp.ready, hsp.reservation⟩ hd heffects hy ha
        (hc.congr rfl rfl)

theorem Kept.submit (h : Kept a w) {reap : Reap} {dropping : Bool} (hop : w.op = .requested reap dropping) :
    Kept a (w.submit reap dropping) := by
  have hs := h.stage
  rw [hop] at hs
  cases hs with
  | requested hsp hd he hy ha hc =>
      have heffects : w.effects ++ [.submitted reap] = [.registered a, .abortRequested, .submitted reap] := by rw [he]; rfl
      have hyielded : ∀ v ∈ w.yielded, v = .error .aborted := by simp [hy]
      cases dropping with
      | false =>
          refine ⟨⟨h.wired.wiring, h.wired.completions⟩, ?_, fun v hv => ⟨(Option.some.inj hv).symm, ha⟩, h.receiver⟩
          exact .aborted ⟨hsp.stored, hsp.join, hsp.joinSlot, hsp.result, hsp.ready, hsp.reservation⟩ heffects
            (hc.congr rfl rfl) hyielded ha fun _ => .inl rfl
      | true =>
          have hs : Spent (w.submit reap false) :=
            ⟨hsp.stored, hsp.join, hsp.joinSlot, hsp.result, hsp.ready, hsp.reservation⟩
          rw [show w.submit reap true = (w.submit reap false).gone from rfl, hs.gone_eq]
          refine ⟨⟨h.wired.wiring, h.wired.completions⟩, ?_, (fun v hv => by cases hv), h.receiver⟩
          exact .aborted ⟨hsp.stored, rfl, hsp.joinSlot, rfl, rfl, rfl⟩ heffects (hc.congr rfl rfl) hyielded ha
            fun hf => by cases hf

/-- A spent handle is dropped with nothing in it. -/
theorem Kept.gone (h : Kept a w) (hop : w.op = .idle) (hc : w.claimed = true) (hsp : Spent w) : Kept a w.gone := by
  rw [hsp.gone_eq]
  refine ⟨⟨h.wired.wiring, h.wired.completions⟩, ?_, (fun v hv => by cases hv), h.receiver⟩
  change Stage a _ w.op
  rw [hop]
  cases h.claim hop hc with
  | owned ho => exact absurd (hsp.reservation.symm.trans ho.reservation) (by simp)
  | aborted _ he hcu hy ha hl =>
      exact .aborted ⟨hsp.stored, rfl, hsp.joinSlot, rfl, rfl, rfl⟩ he (hcu.congr rfl rfl) hy ha fun hf => by cases hf
  | resolved _ he hw hy hv hn ha =>
      exact .resolved ⟨hsp.stored, rfl, hsp.joinSlot, rfl, rfl, rfl⟩ he hw hy hv hn fun _ hf => by cases hf

theorem Claim.owned_or (h : Claim a w) : Owned a w ∨ Spent w := by
  cases h with
  | owned ho => exact .inl ho
  | aborted hsp => exact .inr hsp
  | resolved hsp => exact .inr hsp

theorem Owned.drop_eq (h : Owned a w) : w.drop = w.loadJoin.abort true := by
  simp only [World.drop, h.loadJoin.2.1, Option.isSome_some, if_true]

theorem Spent.drop_eq (h : Spent w) : w.drop = w.gone := by
  simp only [World.drop, h.loadJoin, h.join, Option.isSome_none, Bool.false_eq_true, if_false]

theorem Kept.drop (h : Kept a w) (hop : w.op = .idle) (hc : w.claimed = true) : Kept a w.drop := by
  rcases (h.claim hop hc).owned_or with ho | hsp
  · obtain ⟨hl, -, hr⟩ := ho.loadJoin
    rw [ho.drop_eq]
    exact (h.reads hr ((Claim.owned hl).stage (hr.op.trans hop))).abortOwned hl true
  · rw [hsp.drop_eq]
    exact h.gone hop hc hsp

/-- A handle whose actor was discarded is dropped with no task behind it. -/
theorem Kept.dropDiscarded (h : Kept a w) (hop : w.op = .idle) (hw : w.wrapper = .discarded) (hd : w.dropped = false) :
    Kept a w.drop := by
  have hwire := h.wired.wiring
  have hs := h.stage
  rw [hop] at hs
  rw [hw] at hwire
  cases hs with
  | fresh hst hh hj _ he hy ha hc =>
      have hdrop : w.drop = w.gone := by simp [World.drop, World.loadJoin, hh, hj, ActorHandle.new, World.gone]
      rw [hdrop]
      refine ⟨⟨?_, h.wired.completions⟩, ?_, (fun v hv => by cases hv), fun _ => hw⟩
      · change Wiring _ w.wrapper
        rw [hw]
        exact hwire
      · change Stage a _ w.op
        rw [hop]
        exact .discarded hw rfl he hy ha
  | discarded _ hd' => exact absurd (hd.symm.trans hd') (by simp)
  | owned ho => exact absurd (hwire.2.2.2.symm.trans ho.stored) (by simp)
  | aborted hsp => exact absurd (hwire.2.2.2.symm.trans hsp.stored) (by simp)
  | resolved hsp => exact absurd (hwire.2.2.2.symm.trans hsp.stored) (by simp)

/-- The task is there before its handle is stored. -/
theorem Kept.store (h : Kept a w) (hu : w.wrapper ≠ .unspawned) (hd : w.wrapper ≠ .discarded) (hs : w.stored = false) :
    Kept a { w with joinSlot := some ⟨⟩, stored := true } := by
  have hwire : Wiring { w with joinSlot := some ⟨⟩, stored := true } w.wrapper := by
    have hw := h.wired.wiring
    cases hwr : w.wrapper with
    | unspawned => exact absurd hwr hu
    | discarded => exact absurd hwr hd
    | running | produced | sent | signalled => rw [hwr] at hw; exact hw
    | finished joined => rw [hwr] at hw; cases joined <;> exact hw
  refine ⟨⟨hwire, h.wired.completions⟩, ?_, h.logical, h.receiver⟩
  have hst := h.stage
  change Stage a _ w.op
  generalize w.op = op at hst
  cases hst with
  | fresh _ hh hj hdr he hy ha hc =>
      refine .owned ⟨rfl, hdr, he, hy, ha, ?_, ?_, .inr ⟨?_, rfl⟩, ?_⟩
      · exact congrArg ActorHandle.logical hh
      · exact congrArg ActorHandle.reservation hh
      · exact congrArg ActorHandle.join hh
      · change Custody _ w.handle.result w.handle.ready
        rw [hh]
        exact hc.congr rfl rfl
  | discarded hw => exact absurd hw hd
  | owned ho | polled ho | joined ho => exact absurd (hs.symm.trans ho.stored) (by simp)
  | registered hsp | requested hsp | aborted hsp | resolved hsp => exact absurd (hs.symm.trans hsp.stored) (by simp)

/-- The wrapper goes on, and the channel stays as it is. -/
theorem Kept.goesOn (h : Kept a w) {wrapper : Wrapper} {completions : List TaskId}
    (hw : Wired a { w with wrapper, completions }) (hd : w.wrapper ≠ .discarded)
    (hf : ∀ joined, w.wrapper ≠ .finished joined) : Kept a { w with wrapper, completions } :=
  h.beside ⟨rfl, rfl, rfl, rfl, rfl, rfl, rfl, rfl, fun hc => hc.congr rfl rfl, fun hw => absurd hw hd,
    fun hw => absurd hw (hf _)⟩ hw rfl

theorem Kept.step (h : Kept a w) {x : Action} (hs : w.step a x = some w') : Kept a w' := by
  cases x with
  | spawn =>
      simp only [World.step] at hs
      split at hs
      · next hw =>
        cases hs
        obtain ⟨hwire, hcomp⟩ := h.wired
        rw [hw] at hwire hcomp
        exact h.goesOn ⟨⟨hwire.1, hwire.2.1⟩, hcomp⟩ (by simp [hw]) (by simp [hw])
      · cases hs
  | store =>
      simp only [World.step] at hs
      split at hs
      · cases hs
      · cases hs
      · next hu hd =>
        split at hs
        · cases hs
        · next hst => cases hs; exact h.store hu hd (by simpa using hst)
  | discard =>
      simp only [World.step] at hs
      split at hs
      · next hw => cases hs; exact h.discard hw
      · cases hs
  | poison =>
      simp only [World.step] at hs
      split at hs
      · cases hs
        exact h.beside ⟨rfl, rfl, rfl, rfl, rfl, rfl, rfl, rfl, fun hc => hc.congr rfl rfl, id, fun hf => ⟨hf, rfl⟩⟩
          ⟨h.wired.wiring, h.wired.completions⟩ rfl
      · cases hs
  | returns reason =>
      simp only [World.step] at hs
      split at hs
      · next hw => cases hs; exact h.produce hw _ w.cleanupPoisoned
      · cases hs
  | panics nested =>
      simp only [World.step] at hs
      split at hs
      · next hw => cases hs; exact h.produce hw _ _
      · cases hs
  | cancel =>
      simp only [World.step] at hs
      split at hs
      · next hw => cases hs; exact h.fails hw (by simp)
      · cases hs
  | crash nested =>
      simp only [World.step] at hs
      split at hs
      · next hw => cases hs; exact h.fails hw (by simp)
      · cases hs
  | send =>
      simp only [World.step] at hs
      split at hs
      · next result hw => cases hs; exact h.send hw
      · cases hs
  | signal =>
      simp only [World.step] at hs
      split at hs
      · next undelivered hw =>
        cases hs
        obtain ⟨hwire, hcomp⟩ := h.wired
        rw [hw] at hwire hcomp
        exact h.goesOn ⟨hwire, by rw [hcomp]; rfl⟩ (by simp [hw]) (by simp [hw])
      · cases hs
  | exit =>
      simp only [World.step] at hs
      split at hs
      · next undelivered hw =>
        cases hs
        obtain ⟨hwire, hcomp⟩ := h.wired
        rw [hw] at hwire hcomp
        exact h.goesOn ⟨hwire, hcomp⟩ (by simp [hw]) (by simp [hw])
      · cases hs
  | probe =>
      simp only [World.step] at hs
      split at hs
      · next hop =>
        split at hs
        · next hc => cases hs; exact h.probe hop hc
        · cases hs
      · cases hs
  | poll =>
      simp only [World.step] at hs
      split at hs
      · next hop =>
        split at hs
        · next hc => cases hs; exact h.poll hop hc
        · cases hs
      · cases hs
  | pollJoin =>
      simp only [World.step] at hs
      split at hs
      · next hop =>
        split at hs
        · next joined hw => cases hs; exact (h.pollJoin hop).1 joined hw
        · cases hs; exact (h.pollJoin hop).2
      · cases hs
  | complete =>
      simp only [World.step] at hs
      split at hs
      · next joined hop => cases hs; exact h.complete hop
      · cases hs
  | abort =>
      simp only [World.step] at hs
      split at hs
      · next hop =>
        split at hs
        · next hc => cases hs; exact h.abort hop hc
        · cases hs
      · cases hs
  | drop =>
      simp only [World.step] at hs
      split at hs
      · next hop =>
        split at hs
        · next hw =>
          split at hs
          · cases hs
          · next hd => cases hs; exact h.dropDiscarded hop hw (by simpa using hd)
        · split at hs
          · next hc => cases hs; exact h.drop hop hc
          · cases hs
      · cases hs
  | request =>
      simp only [World.step] at hs
      split at hs
      · next reap dropping hop => cases hs; exact h.request hop
      · cases hs
  | submit =>
      simp only [World.step] at hs
      split at hs
      · next reap dropping hop => cases hs; exact h.submit hop
      · cases hs

theorem kept (h : (machine a).Reachable w) : Kept a w :=
  h.invariant (kept_new a) fun _ _ _ _ hk hs => hk.step hs

def Wrapper.finished : Wrapper → Bool
  | .finished _ => true
  | _ => false

/-- The task was spawned and did not end. -/
def Wrapper.runs : Wrapper → Bool
  | .unspawned => false
  | .discarded => false
  | wrapper => !Wrapper.finished wrapper

/-- What holds of an actor's handle after any run. -/
structure Resolution (a : AttemptReservation) (w : World) : Prop where
  /-- Without an abort the one value yielded is what the wrapper produced. -/
  value : w.aborted = false → w.yielded = [] ∨ ∃ joined v, w.wrapper = .finished joined ∧ w.yielded = [v] ∧
    ∀ result, w.result = some result → v = result
  /-- It is yielded as soon as the task ended, whatever was probed before. -/
  resolves : ∀ joined result, w.wrapper = .finished joined → w.result = some result → w.op = .idle →
    w.claimed = true → w.aborted = false → w.yielded = [] →
      ∃ w', (machine a).after w [.poll, .pollJoin, .complete] = some w' ∧ w'.yielded = [result]
  signal : w.completions = [] ∨ w.completions = [a.id]
  ready : a.id ∈ w.completions → w.aborted = false → w.dropped = false → w.yielded = [] → w.resultReady.1 = true
  /-- The registration precedes the request. -/
  effects : w.effects = [] ∨ w.effects = [.registered a] ∨ w.effects = [.registered a, .abortRequested] ∨
    ∃ reap, w.effects = [.registered a, .abortRequested, .submitted reap]
  /-- An abort of an owned task begins with the registration and takes the way
  to the result. -/
  aborts : ∀ w', w.step a .abort = some w' → w.handle.join.isSome = true ∨ w.joinSlot.isSome = true →
    w.effects = [] ∧ w'.effects = [.registered a] ∧ w'.handle.result = none ∧ w'.handle.ready = none ∧
      w'.op = .registered ⟨⟨⟩, w.handle.result, w.handle.ready⟩ false
  /-- The way to the result, and the result if it was received, end up with
  the reaper, and the handle yields that it was aborted. -/
  transfers : w.op = .idle → w.claimed = true → w.handle.join.isSome = true ∨ w.joinSlot.isSome = true →
    ∃ w', (machine a).after w [.abort, .request, .submit, .poll] = some w' ∧ w'.yielded = [.error .aborted] ∧
      w'.effects = [.registered a, .abortRequested, .submitted ⟨⟨⟩, w.handle.result, w.handle.ready⟩]
  /-- The result stays within reach of the reaper. -/
  reaped : ∀ reap, (.submitted reap ∈ w.effects ∨ ∃ dropping, w.op = .registered reap dropping ∨
    w.op = .requested reap dropping) → Custody w reap.result reap.ready
  aborted : w.aborted = true → w.op = .idle →
    ((∃ reap, w.effects = [.registered a, .abortRequested, .submitted reap]) ∨
      w.effects = [] ∧ w.yielded ≠ [] ∧ Wrapper.finished w.wrapper = true) ∧
    (w.dropped = false → w.handle.logical = some (.error .aborted) ∨ .error .aborted ∈ w.yielded)
  /-- No task goes on without a handle or a record of the reaper. -/
  owner : Wrapper.runs w.wrapper = true → w.dropped = false ∧ (w.stored = false ∨ w.handle.join.isSome = true ∨
    w.joinSlot.isSome = true) ∨ .registered a ∈ w.effects

theorem Kept.value (h : Kept a w) (ha : w.aborted = false) : w.yielded = [] ∨ ∃ joined v,
    w.wrapper = .finished joined ∧ w.yielded = [v] ∧ ∀ result, w.result = some result → v = result := by
  have hs := h.stage
  generalize w.op = op at hs
  cases hs with
  | fresh _ _ _ _ _ hy => exact .inl hy
  | discarded _ _ _ hy => exact .inl hy
  | owned ho | polled ho | joined ho => exact .inl ho.yielded
  | registered _ _ _ hy | requested _ _ _ hy => exact .inl hy
  | aborted _ _ _ _ hab => exact absurd (ha.symm.trans hab) (by simp)
  | resolved _ _ hw hy hv hn => exact .inr ⟨_, _, hw, hn ha ▸ hy, hv⟩

theorem Kept.owned (h : Kept a w) (hop : w.op = .idle) (hc : w.claimed = true) (ha : w.aborted = false)
    (hy : w.yielded = []) : Owned a w := by
  cases h.claim hop hc with
  | owned ho => exact ho
  | aborted _ _ _ _ hab => exact absurd (ha.symm.trans hab) (by simp)
  | resolved _ _ _ hy' => exact absurd (hy.symm.trans hy') (by simp)

theorem Kept.resolves (h : Kept a w) {joined : Joined} {result : ActorResult} (hw : w.wrapper = .finished joined)
    (hr : w.result = some result) (hop : w.op = .idle) (hc : w.claimed = true) (ha : w.aborted = false)
    (hy : w.yielded = []) : ∃ w', (machine a).after w [.poll, .pollJoin, .complete] = some w' ∧ w'.yielded = [result] := by
  have ho := h.owned hop hc ha hy
  obtain ⟨u, hu, hou, hj, hreads, -⟩ := ho.poll_eq h.wired
  have hwu : u.wrapper = .finished joined := hreads.wrapper.trans hw
  have hwired : Wired a u := h.wired.reads hreads
  obtain ⟨v, hv, -, -, -, hyv, -⟩ := (hou.withOp (.joined joined)).completeJoin_eq
    ⟨hwired.wiring, hwired.completions⟩ hwu (by rw [hj]; rfl)
  have hpoll : w.step a .poll = some { u with op := .polled } := by simp only [World.step, hop, hc, if_true, hu]
  have hjoin : World.step a { u with op := .polled } .pollJoin = some { u with op := .joined joined } := by
    simp only [World.step, hwu]
  have hcomplete : World.step a { u with op := .joined joined } .complete =
      some (v.yields result) := by
    simp only [World.step, hv]
    rw [or_fallback (hreads.result.trans hr)]
  refine ⟨v.yields result, ?_, ?_⟩
  · simp only [Machine.after_cons, machine, hpoll, hjoin, hcomplete, Option.bind_some]
    rfl
  · rw [World.yields, hyv]
    rfl

theorem signals_or (a : AttemptReservation) (wrapper : Wrapper) : signals a wrapper = [] ∨ signals a wrapper = [a.id] := by
  cases wrapper with
  | unspawned | discarded | running | produced | sent => exact .inl rfl
  | signalled => exact .inr rfl
  | finished joined =>
      cases joined with
      | output => exact .inr rfl
      | panicked | cancelled => exact .inl rfl

/-- Once the completion is signalled, the result was sent. -/
theorem Wired.signalled (h : Wired a w) (hm : a.id ∈ w.completions) :
    w.result.isSome = true ∧ w.channel.senderGone = true := by
  obtain ⟨hwire, hcomp⟩ := h
  rw [hcomp] at hm
  cases hw : w.wrapper with
  | unspawned | discarded | running | produced | sent => rw [hw] at hm; cases hm
  | signalled => rw [hw] at hwire; exact hwire.2
  | finished joined =>
      rw [hw] at hm hwire
      cases joined with
      | output => exact hwire.2
      | panicked | cancelled => cases hm

theorem Kept.custody (h : Kept a w) (ha : w.aborted = false) (hd : w.dropped = false) (hy : w.yielded = []) :
    Custody w w.handle.result w.handle.ready := by
  have hs := h.stage
  generalize w.op = op at hs
  cases hs with
  | fresh _ hh _ _ _ _ _ hc => rw [hh]; exact hc
  | discarded _ hd' => exact absurd (hd.symm.trans hd') (by simp)
  | owned ho | polled ho | joined ho => exact ho.custody
  | registered _ _ _ _ hab | requested _ _ _ _ hab => exact absurd (ha.symm.trans hab) (by simp)
  | aborted _ _ _ _ hab => exact absurd (ha.symm.trans hab) (by simp)
  | resolved _ _ _ hy' => exact absurd (hy.symm.trans hy') (by simp)

theorem Kept.ready (h : Kept a w) (hm : a.id ∈ w.completions) (ha : w.aborted = false) (hd : w.dropped = false)
    (hy : w.yielded = []) : w.resultReady.1 = true := by
  obtain ⟨hr, hs⟩ := h.wired.signalled hm
  change w.probe.handle.ready.isSome = true
  rw [((h.wired.probe (h.custody ha hd hy)).settled hs).2, hr]

theorem Kept.effects (h : Kept a w) : w.effects = [] ∨ w.effects = [.registered a] ∨
    w.effects = [.registered a, .abortRequested] ∨ ∃ reap, w.effects = [.registered a, .abortRequested, .submitted reap] := by
  have hs := h.stage
  generalize w.op = op at hs
  cases hs with
  | fresh _ _ _ _ he => exact .inl he
  | discarded _ _ he => exact .inl he
  | owned ho | polled ho | joined ho => exact .inl ho.effects
  | registered _ _ he => exact .inr (.inl he)
  | requested _ _ he => exact .inr (.inr (.inl he))
  | aborted _ he => exact .inr (.inr (.inr ⟨_, he⟩))
  | resolved _ he => exact .inl he

theorem Kept.aborts (h : Kept a w) (hs : w.step a .abort = some w')
    (hj : w.handle.join.isSome = true ∨ w.joinSlot.isSome = true) :
    w.effects = [] ∧ w'.effects = [.registered a] ∧ w'.handle.result = none ∧ w'.handle.ready = none ∧
      w'.op = .registered ⟨⟨⟩, w.handle.result, w.handle.ready⟩ false := by
  simp only [World.step] at hs
  split at hs
  · next hop =>
    split at hs
    · next hc =>
      cases hs
      rcases (h.claim hop hc).owned_or with ho | hsp
      · rw [ho.abort_eq]
        exact ⟨ho.effects, rfl, rfl, rfl, rfl⟩
      · simp [hsp.join, hsp.joinSlot] at hj
    · cases hs
  · cases hs

theorem transfers_after (a : AttemptReservation) {reap : Reap} (hop : w.op = .registered reap false)
    (hs : w.stored = true) (hd : w.dropped = false) :
    ∃ w', (machine a).after w [.request, .submit, .poll] = some w' ∧ w'.yielded = w.yielded ++ [.error .aborted] ∧
      w'.effects = w.effects ++ [.abortRequested] ++ [.submitted reap] := by
  obtain ⟨wrapper, joinSlot, stored, channel, completions, cleanupPoisoned, handle, op, yielded, dropped⟩ := w
  obtain rfl : op = .registered reap false := hop
  obtain rfl : stored = true := hs
  obtain rfl : dropped = false := hd
  exact ⟨_, rfl, rfl, rfl⟩

theorem Kept.transfers (h : Kept a w) (hop : w.op = .idle) (hc : w.claimed = true)
    (hj : w.handle.join.isSome = true ∨ w.joinSlot.isSome = true) :
    ∃ w', (machine a).after w [.abort, .request, .submit, .poll] = some w' ∧ w'.yielded = [.error .aborted] ∧
      w'.effects = [.registered a, .abortRequested, .submitted ⟨⟨⟩, w.handle.result, w.handle.ready⟩] := by
  rcases (h.claim hop hc).owned_or with ho | hsp
  · have habort : (machine a).step w .abort = some (w.abort false) := by
      simp only [machine, World.step, hop, hc, if_true]
    have heq := ho.abort_eq false
    obtain ⟨w', hw', hy, he⟩ := transfers_after a (w := w.abort false) (by rw [heq]) (by rw [heq]; exact ho.stored)
      (by rw [heq]; exact ho.dropped)
    refine ⟨w', ?_, ?_, ?_⟩
    · rw [Machine.after_cons, habort]
      exact hw'
    · rw [hy, heq]
      exact congrArg (· ++ _) ho.yielded
    · rw [he, heq]
      rfl
  · simp [hsp.join, hsp.joinSlot] at hj

theorem Kept.reaped (h : Kept a w) {reap : Reap} (hr : .submitted reap ∈ w.effects ∨ ∃ dropping,
    w.op = .registered reap dropping ∨ w.op = .requested reap dropping) : Custody w reap.result reap.ready := by
  have hs := h.stage
  generalize w.op = op at hs hr
  cases hs with
  | fresh _ _ _ _ he => simp [he] at hr
  | discarded _ _ he => simp [he] at hr
  | owned ho | polled ho | joined ho => simp [ho.effects] at hr
  | registered _ _ he _ _ hc => 
      simp [he] at hr
      exact hr ▸ hc
  | requested _ _ he _ _ hc =>
      simp [he] at hr
      exact hr ▸ hc
  | aborted _ he hc =>
      simp [he] at hr
      exact hr ▸ hc
  | resolved _ he => simp [he] at hr

theorem Kept.aborted (h : Kept a w) (ha : w.aborted = true) (hop : w.op = .idle) :
    ((∃ reap, w.effects = [.registered a, .abortRequested, .submitted reap]) ∨
      w.effects = [] ∧ w.yielded ≠ [] ∧ Wrapper.finished w.wrapper = true) ∧
    (w.dropped = false → w.handle.logical = some (.error .aborted) ∨ .error .aborted ∈ w.yielded) := by
  have hs := h.stage
  rw [hop] at hs
  cases hs with
  | fresh _ _ _ _ _ _ hab => exact absurd (ha.symm.trans hab) (by simp)
  | discarded _ _ _ _ hab => exact absurd (ha.symm.trans hab) (by simp)
  | owned ho => exact absurd (ha.symm.trans ho.aborted) (by simp)
  | aborted _ he _ _ _ hl => exact ⟨.inl ⟨_, he⟩, hl⟩
  | resolved _ he hw hy _ _ hl => exact ⟨.inr ⟨he, by simp [hy], by rw [hw]; rfl⟩, hl ha⟩

theorem Kept.owner (h : Kept a w) (hr : Wrapper.runs w.wrapper = true) :
    w.dropped = false ∧ (w.stored = false ∨ w.handle.join.isSome = true ∨ w.joinSlot.isSome = true) ∨
      .registered a ∈ w.effects := by
  have hs := h.stage
  generalize w.op = op at hs
  have howned (ho : Owned a w) : w.dropped = false ∧
      (w.stored = false ∨ w.handle.join.isSome = true ∨ w.joinSlot.isSome = true) := by
    refine ⟨ho.dropped, .inr ?_⟩
    rcases ho.join with ⟨hj, -⟩ | ⟨-, hj⟩
    · exact .inl (by rw [hj]; rfl)
    · exact .inr (by rw [hj]; rfl)
  cases hs with
  | fresh hst _ _ hd => exact .inl ⟨hd, .inl hst⟩
  | discarded hw => rw [hw] at hr; cases hr
  | owned ho | polled ho | joined ho => exact .inl (howned ho)
  | registered _ _ he | requested _ _ he => exact .inr (by simp [he])
  | aborted _ he => exact .inr (by simp [he])
  | resolved _ _ hw => rw [hw] at hr; cases hr

theorem actor_resolution (a : AttemptReservation) (w : World) (h : (machine a).Reachable w) : Resolution a w where
  value := (kept h).value
  resolves := fun _ _ hw hr hop hc ha hy => (kept h).resolves hw hr hop hc ha hy
  signal := (kept h).wired.completions ▸ signals_or a w.wrapper
  ready := (kept h).ready
  effects := (kept h).effects
  aborts := fun _ => (kept h).aborts
  transfers := (kept h).transfers
  reaped := fun _ => (kept h).reaped
  aborted := (kept h).aborted
  owner := (kept h).owner

def probed : AttemptReservation := ⟨1, "probed"⟩

/-- The completion is signalled before the handle is stored, and the result is
probed before the task ended. -/
def probing : List Action :=
  [.spawn, .returns .completed, .send, .signal, .store, .probe, .poll, .pollJoin, .exit, .poll, .pollJoin, .complete]

theorem actor_resolution_probed :
    ∃ w, (machine probed).after (.new probed) probing = some w ∧ w.yielded = [.ok .completed] ∧ Resolution probed w := by
  obtain ⟨w, hw, hy⟩ : ∃ w, (machine probed).after (.new probed) probing = some w ∧ w.yielded = [.ok .completed] :=
    ⟨_, rfl, rfl⟩
  exact ⟨w, hw, hy, actor_resolution probed w (.after .init hw)⟩

end Taskvisor.Registry.Join
