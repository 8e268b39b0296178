import Taskvisor.Actor.Streak

namespace Taskvisor.Actor.Bracket

open Lib Policies.Jitter Policies.Backoff Attempt Retry Streak

variable {F : Type} {ops : FloatOps F} {a : TaskActor ops} {w w' : World}

def publishedOf : Effect → Option Published
  | .publish event => some event
  | _ => none

def published (log : List Entry) : List Published := log.filterMap fun e => publishedOf e.effect

/-- What is published for one attempt. -/
inductive Block (k : Nat) : List Published → Prop
  | plain {event : Published} (ht : Terminal k event) : Block k [.attemptStarting k, event]
  | backoff {event : Published} (ht : Terminal k event) (source : BackoffSource) (delay : Duration)
      (reason : Option String) : Block k [.attemptStarting k, event, .backoffScheduled k source delay reason]

/-- The words of `n` blocks, the `i`-th of them numbered `num i`. -/
inductive Blocks (num : Nat → Nat) : Nat → List Published → Prop
  | nil : Blocks num 0 []
  | snoc {n : Nat} {es block : List Published} (hw : Blocks num n es) (hb : Block (num n) block) :
      Blocks num (n + 1) (es ++ block)

def flagged (activity permit : Bool) (es : List Effect) : List Entry := es.map fun effect => ⟨effect, activity, permit⟩

/-- One attempt, up to the release of its guards. -/
inductive Attempted (a : TaskActor ops) (k : Nat) (destroyed : Bool) : List Effect → Prop
  | mk {behaviour : Behaviour} {r : Returned} (hr : runOnce a.params.timeout k behaviour = some r) :
      Attempted a k destroyed (.publish (.attemptStarting k) :: r.effects ++ World.classifying destroyed)

/-- What follows once the guards are released. -/
inductive Followed (k : Nat) (destroyed : Bool) : List Effect → Prop
  | none : Followed k destroyed []
  | failure (hd : destroyed = true) (index : Nat) (delay : Duration) (reason : String) :
      Followed k destroyed [.retry index, .publish (.backoffScheduled k .failure delay (some reason))]
  | success (delay : Duration) : Followed k destroyed [.publish (.backoffScheduled k .success delay none)]

/-- The log of `n` whole attempts, and of what the actor does between them. -/
inductive Word (a : TaskActor ops) : Nat → List Entry → Prop
  | nil : Word a 0 []
  | attempt {n : Nat} {log : List Entry} {destroyed : Bool} {es fs : List Effect} (hw : Word a n log)
      (he : Attempted a (number n) destroyed es) (hf : Followed (number n) destroyed fs) :
      Word a (n + 1) (log ++ flagged true a.semaphore es ++ flagged false false fs)
  | waits {n : Nat} {log : List Entry} (hw : Word a n log) : Word a n (log ++ flagged false false [.waits])
  | observed {n : Nat} {log : List Entry} (hw : Word a n log) (permit : Bool) :
      Word a n (log ++ flagged false permit [.observed])

def Pc.permits (pc : Pc) : Bool :=
  match pc with
  | .recheck => true
  | pc => pc.holds

/-- The log while the actor is at `pc`. -/
def Logged (a : TaskActor ops) (w : World) : Pc → Prop
  | .attempting => ∃ log, Word a w.history.length log ∧
      w.log = log ++ flagged true a.semaphore [.publish (.attemptStarting (number w.history.length))]
  | .returned result => ∃ log behaviour r, Word a w.history.length log ∧
      runOnce a.params.timeout (number w.history.length) behaviour = some r ∧ r.result = result ∧
      w.log = log ++ flagged true a.semaphore (.publish (.attemptStarting (number w.history.length)) :: r.effects)
  | _ => Word a w.history.length w.log

structure Held (a : TaskActor ops) (w : World) : Prop where
  activity : w.activity = w.pc.holds
  permit : w.permit = (a.semaphore && Pc.permits w.pc)
  logged : Logged a w w.pc

theorem flagged_append (activity permit : Bool) (es fs : List Effect) :
    flagged activity permit (es ++ fs) = flagged activity permit es ++ flagged activity permit fs := List.map_append

theorem note_log (w : World) (es : List Effect) : (w.note es).log = w.log ++ flagged w.activity w.permit es := rfl

theorem Logged.word (h : Logged a w w.pc) (hh : w.pc.holds = false) : Word a w.history.length w.log := by
  cases hpc : w.pc <;> rw [hpc] at h hh <;> first | exact h | cases hh

theorem Logged.of_word {pc : Pc} (hw : Word a w.history.length w.log) (hh : pc.holds = false) : Logged a w pc := by
  cases pc <;> first | exact hw | cases hh

theorem held_new (a : TaskActor ops) : Held a .new := ⟨rfl, by simp [World.new, Pc.permits, Pc.holds], .nil⟩

theorem Held.released (h : Held a w) (hpc : w.pc.holds = true) : w.activity = true ∧ w.permit = a.semaphore := by
  have hp : Pc.permits w.pc = true := by
    cases hw : w.pc <;> rw [hw] at hpc <;> first | rfl | exact hpc
  exact ⟨h.activity.trans hpc, by rw [h.permit, hp, Bool.and_true]⟩

/-- Outside an attempt. -/
theorem Held.of_word (hh : w.pc.holds = false) (ha : w.activity = false)
    (hp : w.permit = (a.semaphore && Pc.permits w.pc)) (hw : Word a w.history.length w.log) : Held a w :=
  ⟨ha.trans hh.symm, hp, .of_word hw hh⟩

theorem Held.start (h : Held a w) (hpc : w.pc = .recheck) (hn : saturatingSucc w.attempt = number w.history.length) :
    Held a { { w with attempt := saturatingSucc w.attempt, activity := true }.note
      [.publish (.attemptStarting (saturatingSucc w.attempt))] with pc := .attempting } := by
  have hperm : w.permit = a.semaphore := by rw [h.permit, hpc]; exact Bool.and_true _
  refine ⟨rfl, hperm.trans (Bool.and_true _).symm, w.log, h.logged.word (by rw [hpc]; rfl), ?_⟩
  rw [hn, ← hperm]
  rfl

theorem Held.attempt (h : Held a w) (hpc : w.pc = .attempting) (hn : w.attempt = number w.history.length)
    {behaviour : Behaviour} {r : Returned} (hr : runOnce a.params.timeout w.attempt behaviour = some r) :
    Held a { w.note r.effects with cleanupPoisoned := w.cleanupPoisoned || r.poisoned, pc := .returned r.result } := by
  have hlog := h.logged
  obtain ⟨ha, hp⟩ := h.released (by rw [hpc]; rfl)
  rw [hpc] at hlog
  obtain ⟨log, hword, hl⟩ := hlog
  have hnote : (w.note r.effects).log =
      log ++ flagged true a.semaphore (.publish (.attemptStarting (number w.history.length)) :: r.effects) := by
    rw [← List.singleton_append, flagged_append, ← List.append_assoc, ← hl, note_log, ha, hp]
  exact ⟨ha, hp.trans (Bool.and_true _).symm, log, behaviour, r, hword, hn ▸ hr, rfl, hnote⟩

theorem Held.conclude (h : Held a w) {result : Except AttemptFailure Unit} (hpc : w.pc = .returned result)
    {past : Past} {destroyed : Bool} {u : World} (hn : u.attempt = number w.history.length)
    (hu : Released w past destroyed u) (ht : Acted a u past destroyed w') : Held a w' := by
  have hlog := h.logged
  obtain ⟨ha, hp⟩ := h.released (by rw [hpc]; rfl)
  rw [hpc] at hlog
  obtain ⟨log, behaviour, r, hword, hr, -, hl⟩ := hlog
  have hlen : u.history.length = w.history.length + 1 := by rw [hu.history, List.length_append]; rfl
  have hul : u.log = log ++ flagged true a.semaphore
      (.publish (.attemptStarting (number w.history.length)) :: r.effects ++ World.classifying destroyed) := by
    rw [hu.log, hl, flagged_append, ← List.append_assoc, ha, hp]
    rfl
  have hnote (fs : List Effect) : (u.note fs).log = u.log ++ flagged false false fs := by
    rw [note_log, hu.activity, hu.permit]
  have hnext {fs : List Effect} (hf : Followed (number w.history.length) destroyed fs) :
      Word a u.history.length (u.note fs).log := by
    rw [hlen, hnote, hul]
    exact hword.attempt ⟨hr⟩ hf
  have hdone : Word a u.history.length u.log := by
    have hnone := hnext .none
    rwa [hnote, show flagged false false [] = [] from rfl, List.append_nil] at hnone
  have hno : u.permit = (a.semaphore && false) := by rw [hu.permit, Bool.and_false]
  cases ht with
  | cleanup | fatal | canceled | exhausted | spaced | again | completed => exact .of_word rfl hu.activity hno hdone
  | retry ho hre hx he hd delay reason => exact .of_word rfl hu.activity hno (hn ▸ hnext (.failure hd _ delay reason))
  | interval ho hre delay => exact .of_word rfl hu.activity hno (hn ▸ hnext (.success delay))
  | observed ho hre htok => exact .of_word rfl hu.activity (Bool.and_false _).symm (hnote _ ▸ hdone.observed false)

theorem Held.turn (h : Held a w) (hk : Kept a w) (hq : w.pc = .acquire → a.semaphore = true) (ht : Turn a w w') :
    Held a w' := by
  cases ht with
  | cancel => exact ⟨h.activity, h.permit, h.logged⟩
  | quit htok hh he =>
      have ha : w.activity = false := h.activity.trans hh
      have hw : Word a w.history.length (w.note [.observed]).log := by
        rw [note_log, ha]
        exact (h.logged.word hh).observed w.permit
      exact .of_word rfl ha (Bool.and_false _).symm hw
  | queue hpc hs =>
      have hh : w.pc.holds = false := by rw [hpc]; rfl
      have hp : w.permit = (a.semaphore && false) := by rw [h.permit, hpc]; rfl
      exact .of_word rfl (h.activity.trans hh) hp (h.logged.word hh)
  | pass hpc hs =>
      have hh : w.pc.holds = false := by rw [hpc]; rfl
      have hp : w.permit = (a.semaphore && true) := by rw [h.permit, hpc, hs]; rfl
      exact .of_word rfl (h.activity.trans hh) hp (h.logged.word hh)
  | acquired hpc =>
      have hh : w.pc.holds = false := by rw [hpc]; rfl
      exact .of_word rfl (h.activity.trans hh) (by rw [hq hpc]; rfl) (h.logged.word hh)
  | closed hpc =>
      have hh : w.pc.holds = false := by rw [hpc]; rfl
      have hp : w.permit = (a.semaphore && false) := by rw [h.permit, hpc]; rfl
      exact .of_word rfl (h.activity.trans hh) hp (h.logged.word hh)
  | start hpc htok => exact h.start hpc (hk.saturatingSucc_attempt (by rw [hpc]; rfl))
  | attempt hpc hr => exact h.attempt hpc (hk.attempt_number (by rw [hpc]; rfl)) hr
  | conclude hpc errorDrop draw elapsed =>
      obtain ⟨destroyed, u, hu, hact⟩ := conclude_acted a w _ errorDrop draw elapsed
      exact h.conclude hpc (hu.attempt.trans (hk.attempt_number (by rw [hpc]; rfl))) hu hact
  | sleep hpc =>
      have hh : w.pc.holds = false := by rw [hpc]; rfl
      have ha : w.activity = false := h.activity.trans hh
      have hp : w.permit = false := by rw [h.permit, hpc]; exact Bool.and_false _
      have hw : Word a w.history.length (w.note [.waits]).log := by
        rw [note_log, ha, hp]
        exact (h.logged.word hh).waits
      exact .of_word rfl ha (hp.trans (Bool.and_false _).symm) hw
  | wake hpc =>
      have hh : w.pc.holds = false := by rw [hpc]; rfl
      have hp : w.permit = (a.semaphore && false) := by rw [h.permit, hpc]; rfl
      exact .of_word rfl (h.activity.trans hh) hp (h.logged.word hh)

theorem held (h : (machine a).Reachable w) : Held a w :=
  h.invariant (held_new a) fun _ _ _ hs hw ht => hw.turn (kept hs) (acquire_semaphore hs) (turn_of_step ht)

theorem published_append (log log' : List Entry) : published (log ++ log') = published log ++ published log' :=
  List.filterMap_append

theorem published_flagged (activity permit : Bool) (es : List Effect) :
    published (flagged activity permit es) = es.filterMap publishedOf := by
  rw [published, flagged, List.filterMap_map]
  rfl

theorem publishedOf_starting (k : Nat) (es : List Effect) :
    (.publish (.attemptStarting k) :: es : List Effect).filterMap publishedOf =
      .attemptStarting k :: es.filterMap publishedOf := rfl

/-- What an attempt publishes at its end. -/
theorem runOnce_published {timeout : Option Duration} {k : Nat} {behaviour : Behaviour} {r : Returned}
    (h : runOnce timeout k behaviour = some r) : ∃ event, Terminal k event ∧ r.effects.filterMap publishedOf = [event] := by
  obtain ⟨event, he, hends⟩ := runOnce_ends h
  refine ⟨event, hends.terminal, ?_⟩
  rw [he]
  cases behaviour <;> rfl

theorem Attempted.published {k : Nat} {destroyed : Bool} {es : List Effect} (h : Attempted a k destroyed es) :
    ∃ event, Terminal k event ∧ es.filterMap publishedOf = [.attemptStarting k, event] := by
  obtain ⟨hr⟩ := h
  obtain ⟨event, hterm, he⟩ := runOnce_published hr
  refine ⟨event, hterm, ?_⟩
  have hc : (World.classifying destroyed).filterMap publishedOf = [] := by cases destroyed <;> rfl
  rw [List.cons_append, publishedOf_starting, List.filterMap_append, he, hc]
  rfl

theorem Word.blocks {n : Nat} {log : List Entry} (h : Word a n log) : Blocks number n (published log) := by
  induction h with
  | nil => exact .nil
  | attempt hw he hf ih =>
      obtain ⟨event, hterm, hes⟩ := Attempted.published he
      rw [published_append, published_append, published_flagged, published_flagged, hes, List.append_assoc]
      refine ih.snoc ?_
      cases hf with
      | none => exact .plain hterm
      | failure _ index delay reason => exact .backoff hterm .failure delay (some reason)
      | success delay => exact .backoff hterm .success delay none
  | waits hw ih =>
      rwa [published_append, published_flagged, List.filterMap_cons_none rfl, List.filterMap_nil, List.append_nil]
  | observed hw permit ih =>
      rwa [published_append, published_flagged, List.filterMap_cons_none rfl, List.filterMap_nil, List.append_nil]

/-- The effects of an attempt, as long as its guards are held. -/
def bracketed : Effect → Bool
  | .publish (.backoffScheduled _ _ _ _) => false
  | .publish _ => true
  | .spawned => true
  | .destroyed => true
  | .errorDestroyed => true
  | .classified => true
  | _ => false

/-- The effects of a backoff. -/
def backsOff : Effect → Bool
  | .publish (.backoffScheduled _ _ _ _) => true
  | .retry _ => true
  | .waits => true
  | _ => false

/-- The guards are held in an attempt and not in a backoff. -/
structure Placed (a : TaskActor ops) (e : Entry) : Prop where
  bracketed : bracketed e.effect = true → e.activity = true ∧ e.permit = a.semaphore
  backsOff : backsOff e.effect = true → e.activity = false ∧ e.permit = false

theorem placed_attempting {es : List Effect} (h : ∀ effect ∈ es, backsOff effect = false) :
    ∀ e ∈ flagged true a.semaphore es, Placed a e := by
  intro e he
  obtain ⟨effect, hm, rfl⟩ := List.mem_map.mp he
  exact ⟨fun _ => ⟨rfl, rfl⟩, fun hb => absurd ((h effect hm).symm.trans hb) (by simp)⟩

theorem placed_between {es : List Effect} {permit : Bool} (h : ∀ effect ∈ es, bracketed effect = false)
    (hp : ∀ effect ∈ es, backsOff effect = true → permit = false) : ∀ e ∈ flagged false permit es, Placed a e := by
  intro e he
  obtain ⟨effect, hm, rfl⟩ := List.mem_map.mp he
  exact ⟨fun hb => absurd ((h effect hm).symm.trans hb) (by simp), fun hb => ⟨rfl, hp effect hm hb⟩⟩

theorem runOnce_backsOff {timeout : Option Duration} {k : Nat} {behaviour : Behaviour} {r : Returned}
    (h : runOnce timeout k behaviour = some r) : ∀ effect ∈ r.effects, backsOff effect = false := by
  obtain ⟨event, he, hends⟩ := runOnce_ends h
  rw [he]
  cases hends.terminal <;> cases behaviour <;> simp [future, backsOff]

theorem Attempted.backsOff {k : Nat} {destroyed : Bool} {es : List Effect} (h : Attempted a k destroyed es) :
    ∀ effect ∈ es, backsOff effect = false := by
  obtain ⟨hr⟩ := h
  intro effect hm
  rcases List.mem_append.mp hm with hm | hm
  · rcases List.mem_cons.mp hm with rfl | hm
    · rfl
    · exact runOnce_backsOff hr effect hm
  · cases destroyed with
    | false =>
        rw [List.mem_singleton.mp hm]
        rfl
    | true =>
        rcases List.mem_pair.mp hm with rfl | rfl <;> rfl

theorem Followed.bracketed {k : Nat} {destroyed : Bool} {fs : List Effect} (h : Followed k destroyed fs) :
    ∀ effect ∈ fs, bracketed effect = false := by
  cases h <;> simp [Bracket.bracketed]

theorem Word.placed {n : Nat} {log : List Entry} (h : Word a n log) : ∀ e ∈ log, Placed a e := by
  induction h with
  | nil => exact fun e he => by cases he
  | attempt hw he hf ih =>
      intro e hm
      rcases List.mem_append.mp hm with hm | hm
      · exact (List.mem_append.mp hm).elim (ih e) (placed_attempting (Attempted.backsOff he) e)
      · exact placed_between (Followed.bracketed hf) (fun _ _ _ => rfl) e hm
  | waits hw ih =>
      exact fun e hm => (List.mem_append.mp hm).elim (ih e)
        (placed_between (by simp [Bracket.bracketed]) (fun _ _ _ => rfl) e)
  | observed hw permit ih =>
      exact fun e hm => (List.mem_append.mp hm).elim (ih e)
        (placed_between (by simp [Bracket.bracketed]) (by simp [Bracket.backsOff]) e)

theorem Logged.placed (h : Logged a w w.pc) : ∀ e ∈ w.log, Placed a e := by
  cases hh : w.pc.holds with
  | false => exact (h.word hh).placed
  | true =>
      cases hpc : w.pc with
      | attempting =>
          rw [hpc] at h
          obtain ⟨log, hw, hl⟩ := h
          rw [hl]
          exact fun e hm => (List.mem_append.mp hm).elim (hw.placed e) (placed_attempting (by simp [backsOff]) e)
      | returned result =>
          rw [hpc] at h
          obtain ⟨log, behaviour, r, hw, hr, -, hl⟩ := h
          rw [hl]
          refine fun e hm => (List.mem_append.mp hm).elim (hw.placed e) (placed_attempting (fun effect hm => ?_) e)
          rcases List.mem_cons.mp hm with rfl | hm
          · rfl
          · exact runOnce_backsOff hr effect hm
      | head | acquire | recheck | sleepCheck | sleeping | done => rw [hpc] at hh; cases hh

/-- What is published while an attempt is under way. -/
theorem Logged.opened (h : Logged a w w.pc) (hh : w.pc.holds = true) :
    ∃ es, Blocks number w.history.length es ∧
      (published w.log = es ++ [.attemptStarting (number w.history.length)] ∨
        ∃ event, Terminal (number w.history.length) event ∧
          published w.log = es ++ [.attemptStarting (number w.history.length), event]) := by
  cases hpc : w.pc with
  | attempting =>
      rw [hpc] at h
      obtain ⟨log, hw, hl⟩ := h
      refine ⟨_, hw.blocks, .inl ?_⟩
      rw [hl, published_append, published_flagged]
      rfl
  | returned result =>
      rw [hpc] at h
      obtain ⟨log, behaviour, r, hw, hr, -, hl⟩ := h
      obtain ⟨event, hterm, he⟩ := runOnce_published hr
      refine ⟨_, hw.blocks, .inr ⟨event, hterm, ?_⟩⟩
      rw [hl, published_append, published_flagged, publishedOf_starting, he]
  | head | acquire | recheck | sleepCheck | sleeping | done => rw [hpc] at hh; cases hh

/-- What holds of the effects of the actor after any run. -/
structure Bracketed (a : TaskActor ops) (w : World) : Prop where
  /-- One attempt, whatever the task does in it. -/
  attempt : ∀ timeout k behaviour r, runOnce timeout k behaviour = some r →
    ∃ event, r.effects = future behaviour ++ [.publish event] ∧ Ends k behaviour r.result event
  word : w.pc.holds = false → Word a w.history.length w.log
  blocks : w.pc.holds = false → Blocks number w.history.length (published w.log)
  opened : w.pc.holds = true → ∃ es, Blocks number w.history.length es ∧
    (published w.log = es ++ [.attemptStarting (number w.history.length)] ∨
      ∃ event, Terminal (number w.history.length) event ∧
        published w.log = es ++ [.attemptStarting (number w.history.length), event])
  placed : ∀ e ∈ w.log, Placed a e
  activity : w.activity = w.pc.holds
  permit : w.permit = (a.semaphore && Pc.permits w.pc)

/-- Starts again at once after every success. -/
def restarting : TaskActor wholeFactors := ⟨⟨.always none, .constant tenthSecond, none, none⟩, false⟩

def success : List Action :=
  [.head, .recheck, .attempt (.finishes (.ready (.ok ()) none none)),
    .conclude none ⟨_, inRange_lowest⟩ (.fromSecs 1 one_le_wordMax)]

def startNumber : Published → Option Nat
  | .attemptStarting attempt => some attempt
  | _ => none

theorem Blocks.starts {num : Nat → Nat} {n : Nat} {es : List Published} (h : Blocks num n es) :
    es.filterMap startNumber = (List.range n).map num := by
  induction h with
  | nil => rfl
  | snoc hw hb ih =>
      rw [List.filterMap_append, ih, List.range_succ, List.map_append]
      cases hb with
      | plain ht => cases ht <;> rfl
      | backoff ht => cases ht <;> rfl

theorem success_repeats (hpc : w.pc = .head) (ht : w.token = false) :
    ∃ w', (machine restarting).after w success = some w' ∧ w'.pc = .head ∧ w'.token = false ∧
      w'.history.length = w.history.length + 1 := by
  obtain ⟨pc, token, attempt, backoffAttempt, activity, permit, cleanupPoisoned, log, history⟩ := w
  obtain rfl : pc = .head := hpc
  obtain rfl : token = false := ht
  exact ⟨_, rfl, rfl, rfl, List.length_append⟩

theorem succeeded (n : Nat) :
    ∃ w, (machine restarting).Reachable w ∧ w.pc = .head ∧ w.token = false ∧ w.history.length = n := by
  induction n with
  | zero => exact ⟨_, .init, rfl, rfl, rfl⟩
  | succ n ih =>
      obtain ⟨w, hr, hpc, ht, hn⟩ := ih
      obtain ⟨w', hw, hpc', ht', hn'⟩ := success_repeats hpc ht
      exact ⟨w', hr.after hw, hpc', ht', by rw [hn', hn]⟩

end Taskvisor.Actor.Bracket
