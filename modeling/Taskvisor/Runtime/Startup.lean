import Taskvisor.Lib.Table
import Taskvisor.Subscribers.Fanout

namespace Taskvisor.Runtime.Startup

open Lib
open Subscribers.Lane (SubscriberLane)
open Subscribers.Fanout (Seat)

/-- What the builder has connected. A set with a subscriber enables the bus. -/
structure Wiring where
  definitions : List SubscriberLane
  controller : Bool

/-- `SubscriberWorkerLaunch`. -/
inductive Job
  | shared
  | dedicated (lane : Nat)
deriving DecidableEq

/-- The channel of one thread: nothing sent, its job, or the sender dropped. -/
inductive Launch
  | pending
  | sent (job : Job)
  | dropped
deriving DecidableEq

inductive ThreadPhase
  | receiving
  | running
  | exited
deriving DecidableEq

structure Thread where
  launch : Launch
  phase : ThreadPhase
deriving DecidableEq

namespace Thread

def new : Thread := ⟨.pending, .receiving⟩

/-- The body of a spawned thread: `recv`, then the worker it was sent. -/
def step (t : Thread) : Option Thread :=
  match t.phase, t.launch with
  | .receiving, .sent _ => some { t with phase := .running }
  | .receiving, .dropped => some { t with phase := .exited }
  | .running, _ => some { t with phase := .exited }
  | _, _ => none

/-- A send fails once the receiver is gone. -/
def send (t : Thread) (job : Job) : Option Thread :=
  if t.phase = .exited then none else some { t with launch := .sent job }

end Thread

/-- `SubscriberState`; `handles` are the threads of the started workers. -/
inductive SetState
  | pending (definitions : List SubscriberLane)
  | started (lanes : List Seat) (shared : Bool) (handles : List Nat)
  | closed

/-- The next statement of the call that holds `startup_gate`. From `spawning`
to `launching` it holds the lock of the subscriber set as well. -/
inductive Stage
  | recheck
  | current
  | subscribers
  | spawning (definitions : List SubscriberLane) (launchers : List Nat)
  | dropping (launchers threads : List Nat)
  | joining (threads : List Nat)
  | sharing (definitions : List SubscriberLane) (launchers : List Nat)
  | launching (definitions : List SubscriberLane) (launchers : List Nat) (lanes : List Seat) (shared : Bool)
      (handles : List Nat)
  | relay
  | reaper
  | listener
  | controller
  | publish
  | store

def Stage.holdsSet : Stage → Bool
  | .spawning .. | .dropping .. | .joining .. | .sharing .. | .launching .. => true
  | _ => false

inductive RuntimeError
  | tokioRuntimeUnavailable
  | threadStartFailed
deriving DecidableEq

inductive Returned
  | ok
  | failed (error : RuntimeError)
  | panicked
deriving DecidableEq

/-- A call before the gate, with the Tokio runtime of its thread. -/
structure Caller where
  runtime : Option Nat
  loaded : Bool

/-- The call inside of the gate. -/
structure Attempt where
  key : Nat
  runtime : Option Nat
  stage : Stage

/-- How often each worker was launched. Each of the first three takes a
receiver that is there once. -/
structure Launched where
  relays : Nat
  reapers : Nat
  listeners : Nat
  controllers : Nat
deriving DecidableEq

/-- The fields of `SupervisorCore` that startup writes, with the state of its
subscriber set and the threads spawned so far. -/
structure Core where
  started : Bool
  subs : SetState
  threads : List Thread
  launched : Launched
  controllerAlive : Bool
  startupRuntime : Option Nat

structure World where
  core : Core
  gate : Option Attempt
  callers : Table Nat Caller
  nextCaller : Nat
  returned : List (Nat × Returned)

inductive Action
  | call (runtime : Option Nat)
  | load (key : Nat)
  | lock (key : Nat)
  | advance (spawned : Bool)
  | thread (index : Nat)
  | close
  | dropController

def sharedNeeded (definitions : List SubscriberLane) : Bool :=
  definitions.any fun definition => decide (definition.execution = .shared)

def dedicatedWorkers (definitions : List SubscriberLane) : Nat :=
  definitions.countP fun definition => decide (definition.execution = .dedicated)

def workerCount (definitions : List SubscriberLane) : Nat :=
  (if sharedNeeded definitions then 1 else 0) + dedicatedWorkers definitions

namespace Core

def new (wiring : Wiring) : Core where
  started := false
  subs := .pending wiring.definitions
  threads := []
  launched := ⟨0, 0, 0, 0⟩
  controllerAlive := wiring.controller
  startupRuntime := none

def putThread (c : Core) (i : Nat) (t : Thread) : Core := { c with threads := c.threads.set i t }

def send (c : Core) (i : Nat) (job : Job) : Option Core :=
  (c.threads[i]?.bind fun t => t.send job).map (c.putThread i)

end Core

namespace World

def new (wiring : Wiring) : World where
  core := .new wiring
  gate := none
  callers := ∅
  nextCaller := 0
  returned := []

def goto (w : World) (a : Attempt) (core : Core) (stage : Stage) : World :=
  { w with core, gate := some { a with stage } }

/-- The call returns or unwinds; its guards release the locks. -/
def leave (w : World) (a : Attempt) (core : Core) (result : Returned) : World :=
  { w with core, gate := none, returned := w.returned ++ [(a.key, result)] }

/-- The next launcher is sent its job; both `expect`s of a launch panic. -/
def launch (w : World) (a : Attempt) (launchers : List Nat) (job : Job) (next : Nat → List Nat → Stage) : World :=
  match launchers with
  | [] => w.leave a w.core .panicked
  | i :: launchers =>
    match w.core.send i job with
    | some core => w.goto a core (next i launchers)
    | none => w.leave a w.core .panicked

/-- A worker takes its receiver and is spawned on the current runtime. -/
def take (w : World) (a : Attempt) (count : Nat) (launched : Launched) (next : Stage) : World :=
  if count = 0 ∧ a.runtime.isSome then w.goto a { w.core with launched } next else w.leave a w.core .panicked

/-- `SupervisorCore::start` behind the gate, with `SubscriberSet::start_with`
in the middle; `spawned` is the result of the operating system. -/
def advance (wiring : Wiring) (w : World) (a : Attempt) (spawned : Bool) : Option World :=
  match a.stage with
  | .recheck => some (if w.core.started then w.leave a w.core .ok else w.goto a w.core .current)
  | .current =>
    some (if a.runtime.isSome then w.goto a w.core .subscribers
      else w.leave a w.core (.failed .tokioRuntimeUnavailable))
  | .subscribers =>
    match w.core.subs with
    | .pending definitions =>
      if a.runtime.isNone then some (w.leave a w.core (.failed .tokioRuntimeUnavailable))
      else if definitions.isEmpty then some (w.goto a { w.core with subs := .started [] false [] } .relay)
      else some (w.goto a w.core (.spawning definitions []))
    | _ => some (w.goto a w.core .relay)
  | .spawning definitions launchers =>
    if launchers.length < workerCount definitions then
      if spawned then
        some (w.goto a { w.core with threads := w.core.threads ++ [Thread.new] }
          (.spawning definitions (launchers ++ [w.core.threads.length])))
      else some (w.goto a w.core (.dropping launchers []))
    else some (w.goto a { w.core with subs := .pending [] } (.sharing definitions launchers))
  | .dropping (i :: launchers) threads =>
    (w.core.threads[i]?).map fun t =>
      w.goto a (w.core.putThread i { t with launch := .dropped }) (.dropping launchers (threads ++ [i]))
  | .dropping [] threads => some (w.goto a w.core (.joining threads))
  | .joining (i :: threads) =>
    if w.core.threads[i]?.any fun t => decide (t.phase = .exited) then some (w.goto a w.core (.joining threads))
    else none
  | .joining [] => some (w.leave a w.core (.failed .threadStartFailed))
  | .sharing definitions launchers =>
    if sharedNeeded definitions then
      some (w.launch a launchers .shared fun i launchers => .launching definitions launchers [] true [i])
    else some (w.goto a w.core (.launching definitions launchers [] false []))
  | .launching (definition :: definitions) launchers lanes shared handles =>
    if definition.execution = .dedicated then
      some (w.launch a launchers (.dedicated lanes.length) fun i launchers =>
        .launching definitions launchers (lanes ++ [⟨definition, .new⟩]) shared (handles ++ [i]))
    else some (w.goto a w.core (.launching definitions launchers (lanes ++ [⟨definition, .new⟩]) shared handles))
  | .launching [] launchers lanes shared handles =>
    some (if launchers.isEmpty then w.goto a { w.core with subs := .started lanes shared handles } .relay
      else w.leave a w.core .panicked)
  | .relay =>
    some (if wiring.definitions.isEmpty then w.goto a w.core .reaper
      else w.take a w.core.launched.relays { w.core.launched with relays := w.core.launched.relays + 1 } .reaper)
  | .reaper =>
    some (w.take a w.core.launched.reapers { w.core.launched with reapers := w.core.launched.reapers + 1 } .listener)
  | .listener =>
    some (w.take a w.core.launched.listeners { w.core.launched with listeners := w.core.launched.listeners + 1 }
      .controller)
  | .controller =>
    some (if w.core.controllerAlive ∧ w.core.launched.controllers = 0 then
        w.take a 0 { w.core.launched with controllers := w.core.launched.controllers + 1 } .publish
      else w.goto a w.core .publish)
  | .publish =>
    some (if w.core.startupRuntime.isNone then w.goto a { w.core with startupRuntime := a.runtime } .store
      else w.leave a w.core .panicked)
  | .store => some (w.leave a { w.core with started := true } .ok)

def step (wiring : Wiring) (w : World) : Action → Option World
  | .call runtime =>
    some { w with callers := w.callers.insert w.nextCaller ⟨runtime, false⟩, nextCaller := w.nextCaller + 1 }
  | .load key =>
    match w.callers.lookup key with
    | some ⟨runtime, false⟩ =>
      some (if w.core.started then { w with callers := w.callers.erase key, returned := w.returned ++ [(key, .ok)] }
        else { w with callers := w.callers.insert key ⟨runtime, true⟩ })
    | _ => none
  | .lock key =>
    match w.callers.lookup key, w.gate with
    | some ⟨runtime, true⟩, none =>
      some { w with callers := w.callers.erase key, gate := some ⟨key, runtime, .recheck⟩ }
    | _, _ => none
  | .advance spawned => w.gate.bind fun a => w.advance wiring a spawned
  | .thread i =>
    (w.core.threads[i]?.bind Thread.step).map fun t => { w with core := w.core.putThread i t }
  | .close =>
    if w.gate.any fun a => a.stage.holdsSet then none else some { w with core := { w.core with subs := .closed } }
  | .dropController => some { w with core := { w.core with controllerAlive := false } }

end World

def machine (wiring : Wiring) : Machine World Action := ⟨.new wiring, World.step wiring⟩

def sharedJobs (shared : Bool) : List Job := if shared then [.shared] else []

/-- The jobs of the dedicated workers, the first lane being the `n`th. -/
def dedicatedJobs : Nat → List SubscriberLane → List Job
  | _, [] => []
  | n, definition :: definitions =>
    (if definition.execution = .dedicated then [.dedicated n] else []) ++ dedicatedJobs (n + 1) definitions

/-- One job for the shared lanes, if there are any, and one for each dedicated
lane. -/
def jobs (definitions : List SubscriberLane) : List Job :=
  sharedJobs (sharedNeeded definitions) ++ dedicatedJobs 0 definitions

theorem dedicatedJobs_append (n : Nat) (definitions : List SubscriberLane) (definition : SubscriberLane) :
    dedicatedJobs n (definitions ++ [definition]) =
      dedicatedJobs n definitions ++ if definition.execution = .dedicated then [.dedicated (n + definitions.length)] else [] := by
  induction definitions generalizing n with
  | nil => simp [dedicatedJobs]
  | cons d definitions ih =>
      rw [List.cons_append, dedicatedJobs, dedicatedJobs, ih, List.append_assoc, List.length_cons,
        Nat.add_right_comm, Nat.add_assoc]

theorem mem_dedicatedJobs {n : Nat} {definitions : List SubscriberLane} {job : Job} (h : job ∈ dedicatedJobs n definitions) :
    ∃ i, n ≤ i ∧ job = .dedicated i := by
  induction definitions generalizing n with
  | nil => cases h
  | cons d definitions ih =>
      rw [dedicatedJobs, List.mem_append] at h
      rcases h with h | h
      · split at h
        · exact ⟨n, Nat.le_refl n, List.mem_singleton.mp h⟩
        · cases h
      · obtain ⟨i, hi, rfl⟩ := ih h
        exact ⟨i, Nat.le_of_succ_le hi, rfl⟩

theorem dedicatedJobs_nodup (n : Nat) (definitions : List SubscriberLane) : (dedicatedJobs n definitions).Nodup := by
  induction definitions generalizing n with
  | nil => exact List.nodup_nil
  | cons d definitions ih =>
      rw [dedicatedJobs]
      refine List.nodup_append'.mpr ⟨?_, ih (n + 1), ?_⟩
      · split
        · exact List.nodup_singleton _
        · exact List.nodup_nil
      · intro job hl hr
        split at hl
        · obtain ⟨i, hi, he⟩ := mem_dedicatedJobs hr
          rw [List.mem_singleton.mp hl, Job.dedicated.injEq] at he
          omega
        · cases hl

theorem jobs_nodup (definitions : List SubscriberLane) : (jobs definitions).Nodup := by
  refine List.nodup_append'.mpr ⟨?_, dedicatedJobs_nodup 0 definitions, ?_⟩
  · unfold sharedJobs
    split
    · exact List.nodup_singleton _
    · exact List.nodup_nil
  · intro job hl hr
    obtain ⟨i, -, rfl⟩ := mem_dedicatedJobs hr
    unfold sharedJobs at hl
    split at hl
    · cases List.mem_singleton.mp hl
    · cases hl

variable {threads : List Thread} {i : Nat} {t t' : Thread}
  {waiting dropped handles : List Nat} {served : List Job}

def Serves (threads : List Thread) (i : Nat) (job : Job) : Prop := ∃ t, threads[i]? = some t ∧ t.launch = .sent job

/-- Every thread that has not ended waits for its launch, has seen its sender
dropped, or was sent one of the jobs. -/
structure Crew (threads : List Thread) (waiting dropped handles : List Nat) (served : List Job) : Prop where
  nodup : waiting.Nodup
  waits : ∀ i ∈ waiting, threads[i]? = some .new
  loses : ∀ i ∈ dropped, ∃ t, threads[i]? = some t ∧ t.launch = .dropped
  serves : List.Forall₂ (Serves threads) handles served
  rest : ∀ (i : Nat) (t : Thread), threads[i]? = some t → t.phase = .exited ∨ i ∈ waiting ∨ i ∈ dropped ∨ i ∈ handles

theorem Crew.nil : Crew [] [] [] [] [] :=
  ⟨List.nodup_nil, fun _ h => absurd h List.not_mem_nil, fun _ h => absurd h List.not_mem_nil, .nil,
    fun i t h => by rw [List.getElem?_nil] at h; cases h⟩

theorem Serves.job {job job' : Job} (h : Serves threads i job) (h' : Serves threads i job') : job = job' := by
  obtain ⟨t, ht, hl⟩ := h
  obtain ⟨t', ht', hl'⟩ := h'
  rw [ht] at ht'
  cases ht'
  exact Launch.sent.inj (hl.symm.trans hl')

/-- Different jobs have different threads. -/
theorem handles_nodup (h : List.Forall₂ (Serves threads) handles served) (hn : served.Nodup) : handles.Nodup := by
  induction h with
  | nil => exact List.nodup_nil
  | @cons i job handles served hi h ih =>
      obtain ⟨hj, hn⟩ := List.nodup_cons.mp hn
      refine List.nodup_cons.mpr ⟨fun hmem => ?_, ih hn⟩
      obtain ⟨k, hk, hik⟩ := List.getElem_of_mem hmem
      have hlen : k < served.length := h.length_eq ▸ hk
      have hserve := h.get hk hlen
      rw [List.get_eq_getElem, hik] at hserve
      rw [hi.job hserve] at hj
      exact hj (List.getElem_mem hlen)

theorem Crew.spawn (h : Crew threads waiting dropped handles served) :
    Crew (threads ++ [.new]) (waiting ++ [threads.length]) dropped handles served := by
  have hold : ∀ {i : Nat} {t : Thread}, threads[i]? = some t → (threads ++ [.new])[i]? = some t := fun hi =>
    (List.getElem?_append_left (List.getElem?_eq_some_iff.mp hi).1).trans hi
  refine ⟨?_, fun i hi => ?_, fun i hi => ?_, h.serves.imp fun i job hs => ?_, fun i t hi => ?_⟩
  · refine List.nodup_append'.mpr ⟨h.nodup, List.nodup_singleton _, fun i hi hl => ?_⟩
    rw [List.mem_singleton.mp hl] at hi
    exact Nat.lt_irrefl _ (List.getElem?_eq_some_iff.mp (h.waits _ hi)).1
  · rcases List.mem_append.mp hi with hi | hi
    · exact hold (h.waits i hi)
    · rw [List.mem_singleton.mp hi]
      exact List.getElem?_concat_length
  · obtain ⟨t, ht, hl⟩ := h.loses i hi
    exact ⟨t, hold ht, hl⟩
  · obtain ⟨t, ht, hl⟩ := hs
    exact ⟨t, hold ht, hl⟩
  · by_cases hlt : i < threads.length
    · rw [List.getElem?_append_left hlt] at hi
      exact (h.rest i t hi).imp_right fun hr => hr.imp_left fun hm => List.mem_append_left _ hm
    · have hlen := (List.getElem?_eq_some_iff.mp hi).1
      rw [List.length_append, List.length_singleton] at hlen
      have hie : i = threads.length := by omega
      exact .inr (.inl (List.mem_append_right _ (List.mem_singleton.mpr hie)))

theorem get_set_ne {j : Nat} (hij : i ≠ j) (hj : threads[j]? = some t) : (threads.set i t')[j]? = some t :=
  (List.getElem?_set_ne hij).trans hj

/-- What a thread was told before stays when a waiting one is told something. -/
theorem Crew.told_stays (h : Crew threads (i :: waiting) dropped handles served) {j : Nat} (hj : threads[j]? = some t)
    (ht : t.launch ≠ .pending) : (threads.set i t')[j]? = some t := by
  refine get_set_ne (fun hij => ht ?_) hj
  have hnew := h.waits i List.mem_cons_self
  rw [hij, hj] at hnew
  cases hnew
  rfl

/-- The first waiting thread gets its launch, or loses its sender. -/
theorem Crew.tell (h : Crew threads (i :: waiting) dropped handles served) (launch : Launch) (lost : List Nat)
    {handled : List Nat} {jobs : List Job} (hlost : ∀ j ∈ dropped ++ lost, j ∈ dropped ∨ j = i ∧ launch = .dropped)
    (hserves : List.Forall₂ (Serves (threads.set i ⟨launch, .receiving⟩)) handled jobs)
    (hi : i ∈ lost ∨ i ∈ handled) :
    Crew (threads.set i ⟨launch, .receiving⟩) waiting (dropped ++ lost) (handles ++ handled) (served ++ jobs) := by
  obtain ⟨hnot, hnodup⟩ := List.nodup_cons.mp h.nodup
  have hlt := (List.getElem?_eq_some_iff.mp (h.waits i List.mem_cons_self)).1
  refine ⟨hnodup, fun j hj => ?_, fun j hj => ?_, List.rel_append (h.serves.imp fun j job hs => ?_) hserves, fun j t hj => ?_⟩
  · exact get_set_ne (fun he => hnot (he ▸ hj)) (h.waits j (List.mem_cons_of_mem _ hj))
  · rcases hlost j hj with hj | ⟨rfl, rfl⟩
    · obtain ⟨t, ht, hl⟩ := h.loses j hj
      exact ⟨t, h.told_stays ht (by rw [hl]; rintro ⟨⟩), hl⟩
    · exact ⟨_, List.getElem?_set_self hlt, rfl⟩
  · obtain ⟨t, ht, hl⟩ := hs
    exact ⟨t, h.told_stays ht (by rw [hl]; rintro ⟨⟩), hl⟩
  · by_cases hij : i = j
    · subst hij
      exact .inr (.inr (hi.imp (List.mem_append_right _) (List.mem_append_right _)))
    · rw [List.getElem?_set_ne hij] at hj
      rcases h.rest j t hj with hr | hr | hr | hr
      · exact .inl hr
      · exact .inr (.inl ((List.mem_cons.mp hr).resolve_left (Ne.symm hij)))
      · exact .inr (.inr (.inl (List.mem_append_left _ hr)))
      · exact .inr (.inr (.inr (List.mem_append_left _ hr)))

theorem Crew.send (h : Crew threads (i :: waiting) [] handles served) (job : Job) :
    Crew (threads.set i ⟨.sent job, .receiving⟩) waiting [] (handles ++ [i]) (served ++ [job]) := by
  have hlt := (List.getElem?_eq_some_iff.mp (h.waits i List.mem_cons_self)).1
  exact h.tell (.sent job) [] (fun j hj => .inl hj)
    (.cons ⟨_, List.getElem?_set_self hlt, rfl⟩ .nil) (.inr (List.mem_singleton_self i))

theorem Crew.drop (h : Crew threads (i :: waiting) dropped [] []) :
    Crew (threads.set i ⟨.dropped, .receiving⟩) waiting (dropped ++ [i]) [] [] := by
  refine h.tell .dropped [i] (fun j hj => ?_) .nil (.inl (List.mem_singleton_self i))
  exact (List.mem_append.mp hj).imp_right fun hj => ⟨List.mem_singleton.mp hj, rfl⟩

/-- A thread that has ended need not be joined. -/
theorem Crew.join (h : Crew threads [] (i :: dropped) [] []) (hi : threads[i]? = some t) (ht : t.phase = .exited) :
    Crew threads [] dropped [] [] := by
  refine ⟨h.nodup, h.waits, fun j hj => h.loses j (List.mem_cons_of_mem _ hj), h.serves, fun j u hj => ?_⟩
  rcases h.rest j u hj with hr | hr | hr | hr
  · exact .inl hr
  · exact .inr (.inl hr)
  · rcases List.mem_cons.mp hr with rfl | hr
    · rw [hi] at hj
      cases hj
      exact .inl ht
    · exact .inr (.inr (.inl hr))
  · exact .inr (.inr (.inr hr))

theorem Thread.step_cases (h : t.step = some t') : t'.launch = t.launch ∧ t ≠ .new ∧ t.phase ≠ .exited := by
  obtain ⟨launch, phase⟩ := t
  cases phase <;> cases launch <;> cases h <;> exact ⟨rfl, by rintro ⟨⟩, by rintro ⟨⟩⟩

/-- The threads run on their own. -/
theorem Crew.thread (h : Crew threads waiting dropped handles served) (hi : threads[i]? = some t) (ht : t.step = some t') :
    Crew (threads.set i t') waiting dropped handles served := by
  obtain ⟨hlaunch, hnew, hphase⟩ := Thread.step_cases ht
  have hlt := (List.getElem?_eq_some_iff.mp hi).1
  have hkept : ∀ {j : Nat} {u : Thread} {l : Launch}, threads[j]? = some u → u.launch = l →
      ∃ v, (threads.set i t')[j]? = some v ∧ v.launch = l := by
    intro j u l hj hl
    by_cases hij : i = j
    · subst hij
      rw [hi] at hj
      cases hj
      exact ⟨t', List.getElem?_set_self hlt, hlaunch.trans hl⟩
    · exact ⟨u, get_set_ne hij hj, hl⟩
  refine ⟨h.nodup, fun j hj => ?_, fun j hj => ?_, h.serves.imp fun j job hs => ?_, fun j u hj => ?_⟩
  · have hw := h.waits j hj
    refine get_set_ne (fun he => hnew ?_) hw
    rw [he, hw] at hi
    exact (Option.some.inj hi).symm
  · obtain ⟨u, hu, hl⟩ := h.loses j hj
    exact hkept hu hl
  · obtain ⟨u, hu, hl⟩ := hs
    exact hkept hu hl
  · by_cases hij : i = j
    · subst hij
      exact .inr ((h.rest i t hi).resolve_left hphase)
    · rw [List.getElem?_set_ne hij] at hj
      exact h.rest j u hj

end Taskvisor.Runtime.Startup
