import Taskvisor.Actor.Retry
import Mathlib.Data.List.Range

namespace Taskvisor.Actor.Streak

open Lib Policies.Jitter Policies.Backoff Attempt Retry

variable {F : Type} {ops : FloatOps F} {p : TaskActorParams ops} {a : TaskActor ops} {w w' : World}

inductive Exit
  | completed
  | exhausted
  | canceled
  | fatal
  | panicked
deriving DecidableEq

/-- A success may be reported as canceled, when the token is. -/
def Exit.Is : Exit → ActorExitReason → Prop
  | .completed, reason => reason = .completed ∨ reason = .canceled
  | .exhausted, reason => ∃ text exitCode source, reason = .exhausted text exitCode source
  | .canceled, reason => reason = .canceled
  | .fatal, reason => ∃ text exitCode source, reason = .fatal text exitCode source
  | .panicked, reason => ∃ cleanupPoisoned, reason = .panicked cleanupPoisoned

def next (n : Nat) (past : Past) : Nat := if past.outcome = .success then 0 else n + 1

/-- The attempts since the start or the last success. -/
def streak (history : List Past) : Nat := history.foldl next 0

/-- What the policy makes of an attempt that follows `n` others in its streak:
the actor goes on, or it ends. -/
def verdict (p : TaskActorParams ops) (n : Nat) (past : Past) : Option Exit :=
  match past.outcome with
  | .success => if p.restart.repeats then none else some .completed
  | .fatal => some .fatal
  | .canceled => some .canceled
  | .cleanup => some .panicked
  | .retryable =>
      if p.restart.retries then
        if p.maxRetries.any (·.get == n) then some .exhausted
        else if past.errorPanics then some .panicked
        else none
      else some .exhausted

def Continues (p : TaskActorParams ops) (history : List Past) : Prop :=
  ∀ pre past, pre ++ [past] <+: history → verdict p (streak pre) past = none

/-- How a history ends: between two attempts, or with the attempt that ended
it. -/
inductive Stopped (a : TaskActor ops) (token : Bool) (history : List Past) : ActorExitReason → Prop
  | between (hc : Continues a.params history) (ht : token = true ∨ a.semaphore = true) :
      Stopped a token history .canceled
  | after {pre : List Past} {past : Past} {exit : Exit} {reason : ActorExitReason} (hh : history = pre ++ [past])
      (hc : Continues a.params pre) (hv : verdict a.params (streak pre) past = some exit) (he : exit.Is reason)
      (ht : reason = .canceled → exit = .completed → token = true) : Stopped a token history reason

/-- The backoff index of every retry. -/
def retryIndices (p : TaskActorParams ops) : Nat → List Past → List Nat
  | _, [] => []
  | n, past :: rest =>
      (if past.outcome = .retryable ∧ verdict p n past = none then [min n u32Max] else []) ++
        retryIndices p (next n past) rest

def startOf : Effect → Option Nat
  | .publish (.attemptStarting attempt) => some attempt
  | _ => none

def retryOf : Effect → Option Nat
  | .retry index => some index
  | _ => none

def number (i : Nat) : Nat := min (i + 1) u32Max

theorem streak_snoc (history : List Past) (past : Past) : streak (history ++ [past]) = next (streak history) past := by
  rw [streak, List.foldl_append]
  rfl

theorem retryIndices_snoc (n : Nat) (history : List Past) (past : Past) :
    retryIndices p n (history ++ [past]) = retryIndices p n history ++
      (if past.outcome = .retryable ∧ verdict p (history.foldl next n) past = none
        then [min (history.foldl next n) u32Max] else []) := by
  induction history generalizing n with
  | nil => exact List.append_nil _
  | cons first history ih =>
      rw [List.cons_append, retryIndices, ih, retryIndices, List.append_assoc]
      rfl

theorem Continues.nil : Continues p [] := fun pre past h => by simp at h

theorem Continues.snoc {history : List Past} (h : Continues p history) {past : Past}
    (hv : verdict p (streak history) past = none) : Continues p (history ++ [past]) := by
  intro pre past' hpre
  rcases List.prefix_concat_iff.mp hpre with heq | hpre
  · obtain ⟨rfl, hp⟩ := List.append_inj' heq rfl
    obtain rfl := List.singleton_inj.mp hp
    exact hv
  · exact h pre past' hpre

/-- The whole of a continued history is within the limit. -/
theorem Continues.limited {history : List Past} (h : Continues p history) {max : NonZeroU32}
    (hm : p.maxRetries = some max) : streak history ≤ max.get := by
  induction history using List.reverseRecOn with
  | nil => exact Nat.zero_le _
  | append_singleton history past ih =>
      have hle := ih fun pre past' hpre => h pre past' (hpre.trans (List.prefix_append _ _))
      have hv := h history past (List.prefix_refl _)
      rw [streak_snoc, next]
      split
      · exact Nat.zero_le _
      · next ho =>
        refine Nat.lt_of_le_of_ne hle fun heq => ?_
        cases hpast : past.outcome <;> simp_all [verdict]

theorem retriesExhausted_eq {history : List Past} (h : Continues p history) :
    retriesExhausted p.maxRetries (min (streak history) u32Max) = p.maxRetries.any (·.get == streak history) := by
  cases hm : p.maxRetries with
  | none => rfl
  | some max =>
      have hle := h.limited hm
      have htop := max.le
      rw [Bool.eq_iff_iff]
      simp only [retriesExhausted, Option.any_some, decide_eq_true_eq, beq_iff_eq]
      omega

/-- The attempts begun so far. -/
def begun (w : World) : Nat := w.history.length + w.pc.holds.toNat

structure Kept (a : TaskActor ops) (w : World) : Prop where
  starts : w.effects.filterMap startOf = (List.range (begun w)).map number
  attempt : w.attempt = min (begun w) u32Max
  retried : w.effects.filterMap retryOf = retryIndices a.params 0 w.history
  deaf : .observed ∉ w.effects.dropLast
  unobserved : w.pc.ended = false → .observed ∉ w.effects
  continues : w.pc.ended = false → Continues a.params w.history
  backoffAttempt : w.pc.ended = false → w.backoffAttempt = min (streak w.history) u32Max
  stopped : ∀ reason, w.pc = .done reason → Stopped a w.token w.history reason

theorem Stopped.mono {token token' : Bool} {history : List Past} {reason : ActorExitReason}
    (h : Stopped a token history reason) (ht : token = true → token' = true) : Stopped a token' history reason := by
  cases h with
  | between hc hor => exact .between hc (hor.imp_left ht)
  | after hh hc hv he htok => exact .after hh hc hv he fun hr hx => ht (htok hr hx)

theorem Pc.ended_of_holds {pc : Pc} (h : pc.holds = true) : pc.ended = false := by
  cases pc <;> first | rfl | cases h

theorem kept_new (a : TaskActor ops) : Kept a .new where
  starts := rfl
  attempt := rfl
  retried := rfl
  deaf := by simp [World.new, World.effects]
  unobserved := by simp [World.new, World.effects]
  continues := fun _ => .nil
  backoffAttempt := fun _ => rfl
  stopped := fun reason h => by cases h

theorem Kept.saturatingSucc_attempt (h : Kept a w) (hp : w.pc.holds = false) :
    saturatingSucc w.attempt = number w.history.length := by
  have hbegun : begun w = w.history.length := by rw [begun, hp]; rfl
  rw [h.attempt, hbegun, saturatingSucc, number]
  omega

theorem Kept.attempt_number (h : Kept a w) (hp : w.pc.holds = true) : w.attempt = number w.history.length := by
  have hbegun : begun w = w.history.length + 1 := by rw [begun, hp]; rfl
  rw [h.attempt, hbegun, number]

theorem notMem_dropLast_append {es fs : List Effect} {e : Effect} (h : e ∉ es) (hf : e ∉ fs.dropLast) :
    e ∉ (es ++ fs).dropLast := by
  cases fs with
  | nil => exact fun hm => h ((List.dropLast_sublist _).subset (by simpa using hm))
  | cons f fs =>
      rw [List.dropLast_append_of_ne_nil (by simp)]
      simpa [h] using hf

/-- Between two attempts, or within one. -/
theorem Kept.moves (h : Kept a w) (he : w.pc.ended = false) {es : List Effect} (hl : w'.effects = w.effects ++ es)
    (hs : es.filterMap startOf = []) (hr : es.filterMap retryOf = []) (ho : .observed ∉ es)
    (hh : w'.history = w.history) (ha : w'.attempt = w.attempt) (hb : w'.backoffAttempt = w.backoffAttempt)
    (hp : w'.pc.holds = w.pc.holds) (he' : w'.pc.ended = false) : Kept a w' := by
  have hbegun : begun w' = begun w := by rw [begun, begun, hh, hp]
  refine ⟨?_, ?_, ?_, ?_, fun _ => ?_, fun _ => ?_, fun _ => ?_, fun reason hpc => ?_⟩
  · rw [hl, List.filterMap_append, hs, List.append_nil, hbegun, h.starts]
  · rw [ha, hbegun, h.attempt]
  · rw [hl, List.filterMap_append, hr, List.append_nil, hh, h.retried]
  · rw [hl]
    exact notMem_dropLast_append (h.unobserved he) fun hm => ho ((List.dropLast_sublist _).subset hm)
  · rw [hl, List.mem_append]
    exact not_or.mpr ⟨h.unobserved he, ho⟩
  · rw [hh]
    exact h.continues he
  · rw [hb, hh]
    exact h.backoffAttempt he
  · rw [hpc] at he'
    cases he'

theorem Kept.starting (h : Kept a w) (hpc : w.pc = .recheck)
    (hl : w'.effects = w.effects ++ [.publish (.attemptStarting (saturatingSucc w.attempt))])
    (hh : w'.history = w.history) (ha : w'.attempt = saturatingSucc w.attempt)
    (hb : w'.backoffAttempt = w.backoffAttempt) (hpc' : w'.pc = .attempting) : Kept a w' := by
  have he : w.pc.ended = false := by rw [hpc]; rfl
  have hbegun : begun w = w.history.length := by rw [begun, hpc]; rfl
  have hbegun' : begun w' = w.history.length + 1 := by rw [begun, hpc', hh]; rfl
  have hnext : saturatingSucc w.attempt = number w.history.length := h.saturatingSucc_attempt (by rw [hpc]; rfl)
  refine ⟨?_, ?_, ?_, ?_, fun _ => ?_, fun _ => ?_, fun _ => ?_, fun reason hp => ?_⟩
  · rw [hl, List.filterMap_append, h.starts, hbegun, hbegun', List.range_succ, List.map_append, hnext]
    rfl
  · rw [ha, hnext, hbegun', number]
  · rw [hl, List.filterMap_append, h.retried, hh]
    exact List.append_nil _
  · rw [hl]
    exact notMem_dropLast_append (h.unobserved he) (by simp)
  · rw [hl, List.mem_append]
    exact not_or.mpr ⟨h.unobserved he, by simp⟩
  · rw [hh]
    exact h.continues he
  · rw [hb, hh]
    exact h.backoffAttempt he
  · rw [hpc'] at hp
    cases hp

/-- The actor ends between two attempts. -/
theorem Kept.quits (h : Kept a w) (hh : w.pc.holds = false) (he : w.pc.ended = false) {es : List Effect}
    (hl : w'.effects = w.effects ++ es) (hes : es = [] ∨ es = [.observed]) (hist : w'.history = w.history)
    (ha : w'.attempt = w.attempt) (hpc : w'.pc = .done .canceled) (ht : w'.token = true ∨ a.semaphore = true) :
    Kept a w' := by
  have hbegun : begun w' = begun w := by rw [begun, begun, hist, hpc, hh]; rfl
  have he' : w'.pc.ended = true := by rw [hpc]; rfl
  refine ⟨?_, ?_, ?_, ?_, fun hn => ?_, fun hn => ?_, fun hn => ?_, fun reason hp => ?_⟩
  · rw [hl, List.filterMap_append, h.starts, hbegun]
    rcases hes with rfl | rfl <;> exact List.append_nil _
  · rw [ha, h.attempt, hbegun]
  · rw [hl, List.filterMap_append, h.retried, hist]
    rcases hes with rfl | rfl <;> exact List.append_nil _
  · rw [hl]
    refine notMem_dropLast_append (h.unobserved he) ?_
    rcases hes with rfl | rfl <;> simp
  · exact absurd (he'.symm.trans hn) (by simp)
  · exact absurd (he'.symm.trans hn) (by simp)
  · exact absurd (he'.symm.trans hn) (by simp)
  · obtain rfl := Pc.done.inj (hpc.symm.trans hp)
    rw [hist]
    exact .between (h.continues he) ht

/-- The attempt that was under way lets the actor go on. -/
theorem Kept.goesOn (h : Kept a w) (hp : w.pc.holds = true) {past : Past}
    (hv : verdict a.params (streak w.history) past = none) {es : List Effect} (hl : w'.effects = w.effects ++ es)
    (hs : es.filterMap startOf = [])
    (hr : es.filterMap retryOf = if past.outcome = .retryable then [min (streak w.history) u32Max] else [])
    (ho : .observed ∉ es) (hh : w'.history = w.history ++ [past]) (ha : w'.attempt = w.attempt)
    (hb : w'.backoffAttempt = min (next (streak w.history) past) u32Max) (hp' : w'.pc.holds = false)
    (he' : w'.pc.ended = false) : Kept a w' := by
  have he : w.pc.ended = false := Pc.ended_of_holds hp
  have hbegun : begun w' = begun w := by rw [begun, begun, hh, hp, hp', List.length_append]; rfl
  refine ⟨?_, ?_, ?_, ?_, fun _ => ?_, fun _ => ?_, fun _ => ?_, fun reason hpc => ?_⟩
  · rw [hl, List.filterMap_append, hs, List.append_nil, hbegun, h.starts]
  · rw [ha, hbegun, h.attempt]
  · rw [hl, List.filterMap_append, h.retried, hr, hh, retryIndices_snoc]
    simp only [show w.history.foldl next 0 = streak w.history from rfl, hv, and_true]
  · rw [hl]
    exact notMem_dropLast_append (h.unobserved he) fun hm => ho ((List.dropLast_sublist _).subset hm)
  · rw [hl, List.mem_append]
    exact not_or.mpr ⟨h.unobserved he, ho⟩
  · rw [hh]
    exact (h.continues he).snoc hv
  · rw [hb, hh, streak_snoc]
  · rw [hpc] at he'
    cases he'

/-- The attempt that was under way ends the actor. -/
theorem Kept.endsWith (h : Kept a w) (hp : w.pc.holds = true) {past : Past} {exit : Exit} {reason : ActorExitReason}
    (hv : verdict a.params (streak w.history) past = some exit) (hx : exit.Is reason)
    (ht : reason = .canceled → exit = .completed → w'.token = true) {es : List Effect}
    (hl : w'.effects = w.effects ++ es) (hs : es.filterMap startOf = []) (hr : es.filterMap retryOf = [])
    (ho : .observed ∉ es.dropLast) (hh : w'.history = w.history ++ [past]) (ha : w'.attempt = w.attempt)
    (hpc : w'.pc = .done reason) : Kept a w' := by
  have he : w.pc.ended = false := Pc.ended_of_holds hp
  have he' : w'.pc.ended = true := by rw [hpc]; rfl
  have hbegun : begun w' = begun w := by rw [begun, begun, hh, hp, hpc, List.length_append]; rfl
  refine ⟨?_, ?_, ?_, ?_, fun hn => ?_, fun hn => ?_, fun hn => ?_, fun other hp => ?_⟩
  · rw [hl, List.filterMap_append, hs, List.append_nil, hbegun, h.starts]
  · rw [ha, hbegun, h.attempt]
  · rw [hl, List.filterMap_append, h.retried, hr, hh, retryIndices_snoc]
    simp [show w.history.foldl next 0 = streak w.history from rfl, hv]
  · rw [hl]
    exact notMem_dropLast_append (h.unobserved he) ho
  · exact absurd (he'.symm.trans hn) (by simp)
  · exact absurd (he'.symm.trans hn) (by simp)
  · exact absurd (he'.symm.trans hn) (by simp)
  · obtain rfl := Pc.done.inj (hpc.symm.trans hp)
    exact .after hh (h.continues he) hv hx ht

theorem Released.effects {past : Past} {destroyed : Bool} {u : World} (h : Released w past destroyed u) :
    u.effects = w.effects ++ World.classifying destroyed := by
  rw [World.effects, World.effects, h.log, List.map_append, List.map_map]
  exact congrArg _ (List.map_id _)

theorem Kept.concluded (h : Kept a w) (hp : w.pc.holds = true) {past : Past} {destroyed : Bool} {u : World}
    (hu : Released w past destroyed u) (ht : Acted a u past destroyed w') : Kept a w' := by
  have he : w.pc.ended = false := Pc.ended_of_holds hp
  have hb : u.backoffAttempt = min (streak w.history) u32Max := hu.backoffAttempt.trans (h.backoffAttempt he)
  have hx : retriesExhausted a.params.maxRetries u.backoffAttempt =
      a.params.maxRetries.any (·.get == streak w.history) := by
    rw [hb]
    exact retriesExhausted_eq (h.continues he)
  have hl := Released.effects hu
  generalize hes : World.classifying destroyed = es at hl
  have hnote (fs : List Effect) : (u.note fs).effects = w.effects ++ (es ++ fs) := by
    rw [World.effects_note, hl, List.append_assoc]
  have hs : es.filterMap startOf = [] := by subst hes; cases destroyed <;> rfl
  have hr : es.filterMap retryOf = [] := by subst hes; cases destroyed <;> rfl
  have ho : .observed ∉ es := by subst hes; cases destroyed <;> simp [World.classifying]
  have ho' : .observed ∉ es.dropLast := fun hm => ho ((List.dropLast_sublist _).subset hm)
  cases ht with
  | cleanup hc poisoned =>
      have hv : verdict a.params (streak w.history) past = some .panicked := by
        rcases hc with hc | ⟨hc, hret, hnot, hdrop⟩
        · rw [verdict, hc]
        · rw [hx] at hnot
          simp only [verdict, hc, hret, hnot, hdrop, if_true, Bool.false_eq_true, if_false]
      exact h.endsWith hp hv ⟨poisoned, rfl⟩ (fun hr => by cases hr) hl hs hr ho' hu.history hu.attempt rfl
  | retry hout hret hnot hdrop _ delay reason =>
      have hv : verdict a.params (streak w.history) past = none := by
        rw [hx] at hnot
        simp only [verdict, hout, hret, hnot, hdrop, if_true, Bool.false_eq_true, if_false]
      refine h.goesOn hp hv (hnote _) ?_ ?_ ?_ hu.history hu.attempt ?_ rfl rfl
      · rw [List.filterMap_append, hs]
        rfl
      · rw [List.filterMap_append, hr, hout, hb]
        rfl
      · exact fun hm => (List.mem_append.mp hm).elim ho (by simp)
      · have hne : past.outcome ≠ .success := by simp [hout]
        refine (congrArg saturatingSucc hb).trans ?_
        rw [next, if_neg hne, saturatingSucc]
        omega
  | interval hout hrep delay =>
      have hv : verdict a.params (streak w.history) past = none := by
        simp only [verdict, hout, hrep, if_true]
      have hzero : 0 = min (next (streak w.history) past) u32Max := by rw [next, if_pos hout, Nat.zero_min]
      refine h.goesOn hp hv (hnote _) ?_ ?_ ?_ hu.history hu.attempt hzero rfl rfl
      · rw [List.filterMap_append, hs]
        rfl
      · rw [List.filterMap_append, hr, hout]
        rfl
      · exact fun hm => (List.mem_append.mp hm).elim ho (by simp)
  | spaced hout hrep delay =>
      have hv : verdict a.params (streak w.history) past = none := by
        simp only [verdict, hout, hrep, if_true]
      have hzero : 0 = min (next (streak w.history) past) u32Max := by rw [next, if_pos hout, Nat.zero_min]
      exact h.goesOn hp hv hl hs (by rw [hr, hout]; rfl) ho hu.history hu.attempt hzero rfl rfl
  | again hout hrep =>
      have hv : verdict a.params (streak w.history) past = none := by
        simp only [verdict, hout, hrep, if_true]
      have hzero : 0 = min (next (streak w.history) past) u32Max := by rw [next, if_pos hout, Nat.zero_min]
      exact h.goesOn hp hv hl hs (by rw [hr, hout]; rfl) ho hu.history hu.attempt hzero rfl rfl
  | observed hout hrep htok =>
      have hv : verdict a.params (streak w.history) past = some .completed := by
        simp only [verdict, hout, hrep, Bool.false_eq_true, if_false]
      refine h.endsWith hp hv (.inr rfl) (fun _ _ => htok) (hnote _) ?_ ?_ ?_ hu.history hu.attempt rfl
      · rw [List.filterMap_append, hs]
        rfl
      · rw [List.filterMap_append, hr]
        rfl
      · exact notMem_dropLast_append ho (by simp)
  | completed hout hrep =>
      have hv : verdict a.params (streak w.history) past = some .completed := by
        simp only [verdict, hout, hrep, Bool.false_eq_true, if_false]
      exact h.endsWith hp hv (.inl rfl) (fun hr => by cases hr) hl hs hr ho' hu.history hu.attempt rfl
  | fatal hout reason exitCode source =>
      have hv : verdict a.params (streak w.history) past = some .fatal := by rw [verdict, hout]
      exact h.endsWith hp hv ⟨_, _, _, rfl⟩ (fun hr => by cases hr) hl hs hr ho' hu.history hu.attempt rfl
  | canceled hout =>
      have hv : verdict a.params (streak w.history) past = some .canceled := by rw [verdict, hout]
      exact h.endsWith hp hv rfl (fun _ hr => by cases hr) hl hs hr ho' hu.history hu.attempt rfl
  | exhausted hout hor reason exitCode source =>
      have hv : verdict a.params (streak w.history) past = some .exhausted := by
        rw [hx] at hor
        rcases hor with hret | hany
        · simp only [verdict, hout, hret, Bool.false_eq_true, if_false]
        · simp only [verdict, hout, hany, if_true, ite_self]
      exact h.endsWith hp hv ⟨_, _, _, rfl⟩ (fun hr => by cases hr) hl hs hr ho' hu.history hu.attempt rfl

/-- Within an attempt nothing is started, retried or observed. -/
theorem runOnce_quiet {timeout : Option Duration} {attempt : Nat} {behaviour : Behaviour} {r : Returned}
    (h : runOnce timeout attempt behaviour = some r) :
    r.effects.filterMap startOf = [] ∧ r.effects.filterMap retryOf = [] ∧ .observed ∉ r.effects := by
  obtain ⟨event, he, hends⟩ := runOnce_ends h
  rw [he]
  cases hends.terminal <;> cases behaviour <;> exact ⟨rfl, rfl, by simp [future]⟩

theorem acquire_turn (h : w.pc = .acquire → a.semaphore = true) (ht : Turn a w w') (hpc : w'.pc = .acquire) :
    a.semaphore = true := by
  cases ht with
  | cancel => exact h hpc
  | queue _ hs => exact hs
  | quit | pass | acquired | closed | start | attempt | sleep | wake => cases hpc
  | conclude _ errorDrop draw elapsed =>
      obtain ⟨_, u, -, hact⟩ := conclude_acted a w _ errorDrop draw elapsed
      generalize w.conclude a _ errorDrop draw elapsed = w' at hpc hact
      cases hact <;> cases hpc

theorem acquire_semaphore (h : (machine a).Reachable w) : w.pc = .acquire → a.semaphore = true := by
  refine h.invariant (P := fun w => w.pc = .acquire → a.semaphore = true) (fun hpc => by cases hpc) ?_
  exact fun w x w' _ hw hs => acquire_turn hw (turn_of_step hs)

theorem Kept.turn (h : Kept a w) (hq : w.pc = .acquire → a.semaphore = true) (ht : Turn a w w') : Kept a w' := by
  have hnil : w.effects = w.effects ++ [] := (List.append_nil _).symm
  have hno : Effect.observed ∉ [] := by simp
  cases ht with
  | cancel =>
      refine ⟨h.starts, h.attempt, h.retried, h.deaf, h.unobserved, h.continues, h.backoffAttempt, ?_⟩
      exact fun reason hpc => (h.stopped reason hpc).mono fun _ => rfl
  | quit htok hh he => exact h.quits hh he (World.effects_note _ _) (.inr rfl) rfl rfl rfl (.inl htok)
  | queue hpc hs =>
      exact h.moves (by rw [hpc]; rfl) hnil rfl rfl hno rfl rfl rfl (by rw [hpc]; rfl) rfl
  | pass hpc hs =>
      exact h.moves (by rw [hpc]; rfl) hnil rfl rfl hno rfl rfl rfl (by rw [hpc]; rfl) rfl
  | acquired hpc =>
      exact h.moves (by rw [hpc]; rfl) hnil rfl rfl hno rfl rfl rfl (by rw [hpc]; rfl) rfl
  | closed hpc =>
      exact h.quits (by rw [hpc]; rfl) (by rw [hpc]; rfl) hnil (.inl rfl) rfl rfl rfl (.inr (hq hpc))
  | start hpc htok => exact h.starting hpc (World.effects_note _ _) rfl rfl rfl rfl
  | attempt hpc hr =>
      obtain ⟨hs, hre, ho⟩ := runOnce_quiet hr
      exact h.moves (by rw [hpc]; rfl) (World.effects_note _ _) hs hre ho rfl rfl rfl (by rw [hpc]; rfl) rfl
  | conclude hpc errorDrop draw elapsed =>
      obtain ⟨_, u, hu, hact⟩ := conclude_acted a w _ errorDrop draw elapsed
      exact h.concluded (by rw [hpc]; rfl) hu hact
  | sleep hpc =>
      exact h.moves (by rw [hpc]; rfl) (World.effects_note _ _) rfl rfl (by simp) rfl rfl rfl (by rw [hpc]; rfl) rfl
  | wake hpc =>
      exact h.moves (by rw [hpc]; rfl) hnil rfl rfl hno rfl rfl rfl (by rw [hpc]; rfl) rfl

theorem kept (h : (machine a).Reachable w) : Kept a w :=
  h.invariant (kept_new a) fun _ _ _ hs hw ht => hw.turn (acquire_semaphore hs) (turn_of_step ht)

theorem verdict_never (hr : p.restart = .never) (n : Nat) (past : Past) : verdict p n past ≠ none := by
  cases ho : past.outcome <;> simp [verdict, ho, hr, RestartPolicy.repeats, RestartPolicy.retries]

theorem Continues.never {history : List Past} (h : Continues p history) (hr : p.restart = .never) : history = [] := by
  cases history with
  | nil => rfl
  | cons past history => exact absurd (h [] past ⟨history, rfl⟩) (verdict_never hr _ _)

theorem verdict_endless (hr : p.restart.retries = true) (hm : p.maxRetries = none) (n : Nat) {past : Past}
    (ho : past.outcome = .retryable) (he : past.errorPanics = false) : verdict p n past = none := by
  simp [verdict, ho, hr, hm, he]

theorem Pc.ended_or (pc : Pc) : pc.ended = false ∨ ∃ reason, pc = .done reason := by
  cases pc <;> simp [Pc.ended]

theorem Kept.exits (h : Kept a w) {pre : List Past} {past : Past} {exit : Exit} (hp : pre ++ [past] <+: w.history)
    (hv : verdict a.params (streak pre) past = some exit) :
    w.history = pre ++ [past] ∧ ∃ reason, w.pc = .done reason ∧ exit.Is reason ∧
      (reason = .canceled → exit = .completed → w.token = true) := by
  have hno (hc : Continues a.params w.history) : False := by simp [hc pre past hp] at hv
  rcases Pc.ended_or w.pc with he | ⟨reason, hpc⟩
  · exact (hno (h.continues he)).elim
  · cases h.stopped reason hpc with
    | between hc => exact (hno hc).elim
    | after hh hc hv' hx ht =>
        rw [hh] at hp
        rcases List.prefix_concat_iff.mp hp with heq | hp
        · obtain ⟨rfl, hlast⟩ := List.append_inj' heq rfl
          obtain rfl := List.singleton_inj.mp hlast
          obtain rfl := Option.some.inj (hv.symm.trans hv')
          exact ⟨hh, reason, hpc, hx, ht⟩
        · simp [hc pre past hp] at hv

/-- Each attempt but the one that ended the actor let it go on. -/
theorem Kept.before (h : Kept a w) {pre : List Past} {past : Past} (hp : pre ++ [past] <+: w.history) :
    Continues a.params pre := by
  rcases Pc.ended_or w.pc with he | ⟨reason, hpc⟩
  · exact fun pre' past' hp' => h.continues he pre' past' (hp'.trans ((List.prefix_append _ _).trans hp))
  · cases h.stopped reason hpc with
    | between hc => exact fun pre' past' hp' => hc pre' past' (hp'.trans ((List.prefix_append _ _).trans hp))
    | after hh hc =>
        rw [hh] at hp
        rcases List.prefix_concat_iff.mp hp with heq | hp
        · obtain ⟨rfl, -⟩ := List.append_inj' heq rfl
          exact hc
        · exact fun pre' past' hp' => hc pre' past' (hp'.trans ((List.prefix_append _ _).trans hp))

theorem verdict_exhausted {max : NonZeroU32} (hr : p.restart.retries = true) (hm : p.maxRetries = some max) {n : Nat}
    {past : Past} : verdict p n past = some .exhausted ↔ past.outcome = .retryable ∧ n = max.get := by
  cases ho : past.outcome with
  | retryable =>
      simp only [verdict, ho, hr, hm, if_true, Option.any_some, beq_iff_eq, true_and]
      split
      · next heq => simp [heq]
      · next hne => split <;> simp [Ne.symm hne]
  | success => simp [verdict, ho]
  | fatal | canceled | cleanup => simp [verdict, ho]

/-- What holds of the retry loop after any run. -/
structure RetryLoop (a : TaskActor ops) (w : World) : Prop where
  /-- The attempts are numbered, and one starts only after all others ended. -/
  numbered : w.effects.filterMap startOf = (List.range (w.history.length + w.pc.holds.toNat)).map number
  /-- Each retry uses the number of retries before it in its streak. -/
  retried : w.effects.filterMap retryOf = retryIndices a.params 0 w.history
  limited : ∀ max, a.params.maxRetries = some max →
    (∀ pre past, pre ++ [past] <+: w.history → streak pre + 1 ≤ max.get + 1) ∧
      (w.pc.holds = true → streak w.history + 1 ≤ max.get + 1)
  exits : ∀ pre past exit, pre ++ [past] <+: w.history → verdict a.params (streak pre) past = some exit →
    w.history = pre ++ [past] ∧ ∃ reason, w.pc = .done reason ∧ exit.Is reason ∧
      (reason = .canceled → exit = .completed → w.token = true)
  onlyThen : ∀ reason, w.pc = .done reason → Stopped a w.token w.history reason
  exhausted : a.params.restart.retries = true → ∀ max, a.params.maxRetries = some max →
    ((∃ text exitCode source, w.pc = .done (.exhausted text exitCode source)) ↔
      ∃ pre past, w.history = pre ++ [past] ∧ past.outcome = .retryable ∧ streak pre = max.get)
  never : a.params.restart = .never → w.history.length ≤ 1 ∧ (w.history ≠ [] → w.pc.ended = true)
  endless : a.params.restart.retries = true → a.params.maxRetries = none →
    (∀ past ∈ w.history, past.outcome = .retryable ∧ past.errorPanics = false) → ∀ reason, w.pc = .done reason →
      reason = .canceled ∧ (w.token = true ∨ a.semaphore = true)
  /-- Nothing follows once the token is seen cancelled. -/
  deaf : .observed ∉ w.effects.dropLast ∧ (.observed ∈ w.effects → w.pc.ended = true)

theorem Kept.exhausted (h : Kept a w) (hr : a.params.restart.retries = true) {max : NonZeroU32}
    (hm : a.params.maxRetries = some max) :
    (∃ text exitCode source, w.pc = .done (.exhausted text exitCode source)) ↔
      ∃ pre past, w.history = pre ++ [past] ∧ past.outcome = .retryable ∧ streak pre = max.get := by
  constructor
  · rintro ⟨text, exitCode, source, hpc⟩
    cases h.stopped _ hpc with
    | @after pre past exit _ hh hc hv hx ht =>
        have hexit : exit = .exhausted := by
          cases exit with
          | exhausted => rfl
          | completed => simp [Exit.Is] at hx
          | canceled => cases hx
          | fatal => simp [Exit.Is] at hx
          | panicked => simp [Exit.Is] at hx
        rw [hexit] at hv
        exact ⟨pre, past, hh, (verdict_exhausted hr hm).mp hv⟩
  · rintro ⟨pre, past, hh, ho, hn⟩
    obtain ⟨-, reason, hpc, ⟨text, exitCode, source, rfl⟩, -⟩ :=
      h.exits ⟨[], by rw [List.append_nil, hh]⟩ ((verdict_exhausted hr hm).mpr ⟨ho, hn⟩)
    exact ⟨text, exitCode, source, hpc⟩

theorem Kept.never (h : Kept a w) (hr : a.params.restart = .never) :
    w.history.length ≤ 1 ∧ (w.history ≠ [] → w.pc.ended = true) := by
  rcases Pc.ended_or w.pc with he | ⟨reason, hpc⟩
  · have hnil := (h.continues he).never hr
    exact ⟨by rw [hnil]; exact Nat.zero_le _, fun hne => absurd hnil hne⟩
  · refine ⟨?_, fun _ => by rw [hpc]; rfl⟩
    cases h.stopped reason hpc with
    | between hc => rw [hc.never hr]; exact Nat.zero_le _
    | after hh hc => rw [hh, hc.never hr]; rfl

theorem Kept.endless (h : Kept a w) (hr : a.params.restart.retries = true) (hm : a.params.maxRetries = none)
    (hall : ∀ past ∈ w.history, past.outcome = .retryable ∧ past.errorPanics = false) {reason : ActorExitReason}
    (hpc : w.pc = .done reason) : reason = .canceled ∧ (w.token = true ∨ a.semaphore = true) := by
  cases h.stopped reason hpc with
  | between hc ht => exact ⟨rfl, ht⟩
  | @after pre past exit _ hh hc hv hx ht =>
      obtain ⟨ho, he⟩ := hall past (by simp [hh])
      simp [verdict_endless hr hm _ ho he] at hv

/-- One retry, after a constant delay. -/
def oneRetry : TaskActor wholeFactors :=
  ⟨⟨.onFailure, .constant tenthSecond, none, some ⟨1, Nat.one_pos, by decide⟩⟩, false⟩

def failsOnce : List Action :=
  [.head, .recheck, .attempt (.finishes (.ready (.error (.fail "refused" (some 7) none)) none none)),
    .conclude none ⟨_, inRange_lowest⟩ 0]

end Taskvisor.Actor.Streak
