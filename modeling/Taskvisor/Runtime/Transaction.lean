import Taskvisor.Runtime.Startup

namespace Taskvisor.Runtime.Transaction

open Lib Startup
open Subscribers.Lane (SubscriberLane)
open Subscribers.Fanout (Seat)

variable {wiring : Wiring} {c c' : Core} {w w' : World} {a : Attempt} {threads : List Thread} {i : Nat} {t t' : Thread}
  {waiting dropped handles : List Nat} {served : List Job}

def seats (definitions : List SubscriberLane) : List Seat := definitions.map fun definition => ⟨definition, .new⟩

/-- The launches up to one statement of the startup, and no others. -/
structure Upto (wiring : Wiring) (c : Core) (n : Nat) : Prop where
  unrelayed : n = 0 → c.launched.relays = 0
  relays : 1 ≤ n → c.launched.relays = if wiring.definitions = [] then 0 else 1
  reapers : c.launched.reapers = if 2 ≤ n then 1 else 0
  listeners : c.launched.listeners = if 3 ≤ n then 1 else 0
  before : n < 4 → c.launched.controllers = 0
  controllers : 4 ≤ n → c.launched.controllers = 1 ∨ c.launched.controllers = 0 ∧ c.controllerAlive = false
  attached : c.controllerAlive = true ∨ c.launched.controllers ≠ 0 → wiring.controller = true
  runtime : c.startupRuntime.isSome = decide (5 ≤ n)

/-- The set is started with a lane for each definition and a thread for each
job, or it was closed since. -/
inductive Wired (wiring : Wiring) (c : Core) : Prop
  | started (handles : List Nat)
      (subs : c.subs = .started (seats wiring.definitions) (sharedNeeded wiring.definitions) handles)
      (crew : Crew c.threads [] [] handles (jobs wiring.definitions)) : Wired wiring c
  | closed (handles : List Nat) (served : List Job) (subs : c.subs = .closed)
      (crew : Crew c.threads [] [] handles served) : Wired wiring c

/-- Nothing is launched and no thread is left. -/
structure Idle (wiring : Wiring) (c : Core) : Prop where
  started : c.started = false
  upto : Upto wiring c 0
  subs : c.subs = .pending wiring.definitions ∨ c.subs = .closed
  crew : Crew c.threads [] [] [] []

/-- What the set holds while the call has its lock. -/
structure Locked (wiring : Wiring) (c : Core) (definitions : List SubscriberLane) : Prop where
  started : c.started = false
  upto : Upto wiring c 0
  subs : c.subs = .pending definitions

inductive Rested (wiring : Wiring) (c : Core) : Prop
  | idle (h : Idle wiring c) : Rested wiring c
  | up (started : c.started = true) (upto : Upto wiring c 5) (wired : Wired wiring c) : Rested wiring c

/-- How many launches lie before a statement of the tail. -/
def order : Stage → Option Nat
  | .relay => some 0
  | .reaper => some 1
  | .listener => some 2
  | .controller => some 3
  | .publish => some 4
  | .store => some 5
  | _ => none

/-- What holds at each statement of the call inside of the gate. -/
inductive Placed (wiring : Wiring) (c : Core) (runtime : Option Nat) : Stage → Prop
  | recheck (h : Rested wiring c) : Placed wiring c runtime .recheck
  | current (h : Idle wiring c) : Placed wiring c runtime .current
  | subscribers (h : Idle wiring c) (hr : runtime.isSome = true) : Placed wiring c runtime .subscribers
  | spawning (launchers : List Nat) (h : Locked wiring c wiring.definitions) (hr : runtime.isSome = true)
      (hlen : launchers.length ≤ workerCount wiring.definitions) (crew : Crew c.threads launchers [] [] []) :
      Placed wiring c runtime (.spawning wiring.definitions launchers)
  | dropping (launchers threads : List Nat) (h : Locked wiring c wiring.definitions)
      (crew : Crew c.threads launchers threads [] []) : Placed wiring c runtime (.dropping launchers threads)
  | joining (threads : List Nat) (h : Locked wiring c wiring.definitions) (crew : Crew c.threads [] threads [] []) :
      Placed wiring c runtime (.joining threads)
  | sharing (launchers : List Nat) (h : Locked wiring c []) (hr : runtime.isSome = true)
      (hlen : launchers.length = workerCount wiring.definitions) (crew : Crew c.threads launchers [] [] []) :
      Placed wiring c runtime (.sharing wiring.definitions launchers)
  | launching (done rest : List SubscriberLane) (launchers handles : List Nat) (h : Locked wiring c [])
      (hr : runtime.isSome = true) (hall : done ++ rest = wiring.definitions)
      (hlen : launchers.length = dedicatedWorkers rest)
      (crew : Crew c.threads launchers [] handles (sharedJobs (sharedNeeded wiring.definitions) ++ dedicatedJobs 0 done)) :
      Placed wiring c runtime (.launching rest launchers (seats done) (sharedNeeded wiring.definitions) handles)
  | tail (stage : Stage) (n : Nat) (hn : order stage = some n) (started : c.started = false) (upto : Upto wiring c n)
      (wired : Wired wiring c) (hr : runtime.isSome = true) : Placed wiring c runtime stage

structure Sound (wiring : Wiring) (w : World) : Prop where
  returned : ∀ key result, (key, result) ∈ w.returned →
    result ≠ .panicked ∧ (result = .ok → w.core.started = true)
  free : w.gate = none → Rested wiring w.core
  held : ∀ a, w.gate = some a → Placed wiring w.core a.runtime a.stage

theorem Wired.congr (h : Wired wiring c) (hs : c'.subs = c.subs) (ht : c'.threads = c.threads) : Wired wiring c' := by
  cases h with
  | started handles subs crew => exact .started handles (hs.trans subs) (ht ▸ crew)
  | closed handles served subs crew => exact .closed handles served (hs.trans subs) (ht ▸ crew)

theorem Sound.new (wiring : Wiring) : Sound wiring (.new wiring) := by
  refine ⟨fun _ _ h => absurd h List.not_mem_nil, fun _ => .idle ⟨rfl, ?_, .inl rfl, Crew.nil⟩, fun a ha => by cases ha⟩
  exact ⟨fun _ => rfl, fun h => absurd h (by omega), rfl, rfl, fun _ => rfl, fun h => absurd h (by omega),
    fun h => h.elim id fun h => absurd rfl h, rfl⟩

section Attempt

variable (h : Sound wiring w)

include h

theorem Sound.goto {stage : Stage} (hstarted : c.started = w.core.started) (hp : Placed wiring c a.runtime stage) :
    Sound wiring (w.goto a c stage) := by
  refine ⟨fun key result hm => ?_, fun hg => (by cases hg), fun b hb => ?_⟩
  · obtain ⟨hne, hok⟩ := h.returned key result hm
    exact ⟨hne, fun hr => hstarted.trans (hok hr)⟩
  · cases hb
    exact hp

theorem Sound.leave {result : Returned} (hstarted : w.core.started = true → c.started = true)
    (hne : result ≠ .panicked) (hok : result = .ok → c.started = true) (hr : Rested wiring c) :
    Sound wiring (w.leave a c result) := by
  refine ⟨fun key r hm => ?_, fun _ => hr, fun b hb => (by cases hb)⟩
  rcases List.mem_append.mp hm with hm | hm
  · obtain ⟨hne, hok⟩ := h.returned key r hm
    exact ⟨hne, fun hr => hstarted (hok hr)⟩
  · cases List.mem_singleton.mp hm
    exact ⟨hne, hok⟩

/-- No receiver is taken twice, and the runtime is there. -/
theorem Sound.take {n : Nat} {launched : Launched} {next : Stage} (hr : a.runtime.isSome = true)
    (hstarted : w.core.started = false) (hwired : Wired wiring w.core) (hnext : order next = some n)
    (hupto : Upto wiring { w.core with launched } n) : Sound wiring (w.take a 0 launched next) := by
  rw [World.take, if_pos ⟨rfl, hr⟩]
  exact h.goto rfl (.tail next n hnext hstarted hupto (hwired.congr rfl rfl) hr)

end Attempt

theorem workerCount_eq (definitions : List SubscriberLane) :
    workerCount definitions = (sharedJobs (sharedNeeded definitions)).length + dedicatedWorkers definitions := by
  unfold workerCount sharedJobs
  split <;> rfl

theorem dedicatedWorkers_cons (definition : SubscriberLane) (definitions : List SubscriberLane) :
    dedicatedWorkers (definition :: definitions) =
      dedicatedWorkers definitions + if definition.execution = .dedicated then 1 else 0 := by
  simp [dedicatedWorkers, List.countP_cons]

theorem seats_append (definitions : List SubscriberLane) (definition : SubscriberLane) :
    seats (definitions ++ [definition]) = seats definitions ++ [⟨definition, .new⟩] := List.map_append

theorem send_waiting {job : Job} (h : Crew c.threads (i :: waiting) dropped handles served) :
    c.send i job = some (c.putThread i ⟨.sent job, .receiving⟩) := by
  rw [Core.send, h.waits i List.mem_cons_self]
  rfl

theorem Locked.put {definitions : List SubscriberLane} (h : Locked wiring c definitions) (i : Nat) (t : Thread) :
    Locked wiring (c.putThread i t) definitions :=
  ⟨h.started, ⟨h.upto.unrelayed, h.upto.relays, h.upto.reapers, h.upto.listeners, h.upto.before, h.upto.controllers, h.upto.attached,
    h.upto.runtime⟩, h.subs⟩

theorem Upto.congr {n : Nat} (h : Upto wiring c n) (hl : c'.launched = c.launched)
    (ha : c'.controllerAlive = true → c.controllerAlive = true) (hr : c'.startupRuntime = c.startupRuntime) :
    Upto wiring c' n := by
  refine ⟨hl ▸ h.unrelayed, hl ▸ h.relays, hl ▸ h.reapers, hl ▸ h.listeners, hl ▸ h.before, fun hn => ?_, fun hx => ?_, hr ▸ h.runtime⟩
  · rw [hl]
    refine (h.controllers hn).imp_right fun ⟨hz, hd⟩ => ⟨hz, ?_⟩
    cases hc : c'.controllerAlive with
    | false => rfl
    | true => rw [ha hc] at hd; cases hd
  · rw [hl] at hx
    exact h.attached (hx.imp_left ha)

section Advance

variable {spawned : Bool} (h : Sound wiring w) (hs : w.advance wiring a spawned = some w')

include h hs

theorem advance_subscribers (hstage : a.stage = .subscribers) (hi : Idle wiring w.core) (hr : a.runtime.isSome = true) :
    Sound wiring w' := by
  simp only [World.advance, hstage] at hs
  rcases hi.subs with hsubs | hsubs
  · simp only [hsubs, Option.isNone_eq_false_iff.mpr hr, Bool.false_eq_true, if_false] at hs
    split at hs
    · next hempty =>
      cases hs
      have hnil : wiring.definitions = [] := List.isEmpty_iff.mp hempty
      refine h.goto rfl (.tail .relay 0 rfl hi.started (hi.upto.congr rfl id rfl) (.started [] ?_ ?_) hr)
      · rw [hnil]; rfl
      · rw [hnil]; exact hi.crew
    · cases hs
      exact h.goto rfl (.spawning [] ⟨hi.started, hi.upto, hsubs⟩ hr (Nat.zero_le _) hi.crew)
  · simp only [hsubs] at hs
    cases hs
    exact h.goto rfl (.tail .relay 0 rfl hi.started hi.upto (.closed [] [] hsubs hi.crew) hr)

theorem advance_spawning {launchers : List Nat} (hstage : a.stage = .spawning wiring.definitions launchers)
    (hl : Locked wiring w.core wiring.definitions) (hr : a.runtime.isSome = true)
    (hlen : launchers.length ≤ workerCount wiring.definitions) (crew : Crew w.core.threads launchers [] [] []) :
    Sound wiring w' := by
  simp only [World.advance, hstage] at hs
  split at hs
  · next hlt =>
    split at hs <;> cases hs
    · refine h.goto rfl (.spawning _ ⟨hl.started, hl.upto.congr rfl id rfl, hl.subs⟩ hr ?_ crew.spawn)
      rw [List.length_append, List.length_singleton]
      exact hlt
    · exact h.goto rfl (.dropping launchers [] hl crew)
  · next hlt =>
    cases hs
    exact h.goto rfl (.sharing launchers ⟨hl.started, hl.upto.congr rfl id rfl, rfl⟩ hr
      (Nat.le_antisymm hlen (Nat.le_of_not_lt hlt)) crew)

theorem advance_dropping {launchers threads : List Nat} (hstage : a.stage = .dropping launchers threads)
    (hl : Locked wiring w.core wiring.definitions) (crew : Crew w.core.threads launchers threads [] []) :
    Sound wiring w' := by
  simp only [World.advance, hstage] at hs
  cases launchers with
  | nil =>
      cases hs
      exact h.goto rfl (.joining threads hl crew)
  | cons i launchers =>
      simp only [crew.waits i List.mem_cons_self, Option.map_some] at hs
      cases hs
      exact h.goto rfl (.dropping launchers _ (hl.put i _) crew.drop)

/-- The last thread of a failed attempt has ended before its error returns. -/
theorem advance_joining {threads : List Nat} (hstage : a.stage = .joining threads)
    (hl : Locked wiring w.core wiring.definitions) (crew : Crew w.core.threads [] threads [] []) : Sound wiring w' := by
  simp only [World.advance, hstage] at hs
  cases threads with
  | nil =>
      cases hs
      exact h.leave id (by rintro ⟨⟩) (by rintro ⟨⟩) (.idle ⟨hl.started, hl.upto, .inl hl.subs, crew⟩)
  | cons i threads =>
      simp only at hs
      split at hs
      · next hex =>
        cases hs
        obtain ⟨t, ht, hphase⟩ := (Option.any_eq_true _ _).mp hex
        exact h.goto rfl (.joining threads hl (crew.join ht (of_decide_eq_true hphase)))
      · cases hs

theorem advance_sharing {launchers : List Nat} (hstage : a.stage = .sharing wiring.definitions launchers)
    (hl : Locked wiring w.core []) (hr : a.runtime.isSome = true)
    (hlen : launchers.length = workerCount wiring.definitions) (crew : Crew w.core.threads launchers [] [] []) :
    Sound wiring w' := by
  simp only [World.advance, hstage] at hs
  rw [workerCount_eq, sharedJobs] at hlen
  have hnext : ∀ {c : Core} {launchers handles : List Nat}, Locked wiring c [] →
      launchers.length = dedicatedWorkers wiring.definitions →
      Crew c.threads launchers [] handles (sharedJobs (sharedNeeded wiring.definitions)) →
      Placed wiring c a.runtime
        (.launching wiring.definitions launchers [] (sharedNeeded wiring.definitions) handles) :=
    fun {_ launchers handles} hl hlen crew =>
      .launching [] wiring.definitions launchers handles hl hr rfl hlen (by rwa [dedicatedJobs, List.append_nil])
  split at hs
  · next hshared =>
    rw [hshared] at hlen hnext
    cases launchers with
    | nil =>
        simp only [if_true, List.length_nil, List.length_singleton] at hlen
        omega
    | cons i launchers =>
        simp only [World.launch, send_waiting crew] at hs
        cases hs
        refine h.goto rfl (hnext (hl.put i _) ?_ (crew.send .shared))
        rw [if_pos rfl, List.length_cons, List.length_singleton, Nat.add_comm 1] at hlen
        exact Nat.succ.inj hlen
  · next hshared =>
    rw [Bool.not_eq_true] at hshared
    rw [hshared] at hlen hnext
    cases hs
    exact h.goto rfl (hnext hl (by simpa using hlen) crew)

theorem advance_launching {done rest : List SubscriberLane} {launchers handles : List Nat}
    (hstage : a.stage = .launching rest launchers (seats done) (sharedNeeded wiring.definitions) handles)
    (hl : Locked wiring w.core []) (hr : a.runtime.isSome = true) (hall : done ++ rest = wiring.definitions)
    (hlen : launchers.length = dedicatedWorkers rest)
    (crew : Crew w.core.threads launchers [] handles
      (sharedJobs (sharedNeeded wiring.definitions) ++ dedicatedJobs 0 done)) : Sound wiring w' := by
  simp only [World.advance, hstage] at hs
  cases rest with
  | nil =>
      rw [List.append_nil] at hall
      subst hall
      have hnil : launchers = [] := List.eq_nil_of_length_eq_zero hlen
      subst hnil
      cases hs
      exact h.goto rfl (.tail .relay 0 rfl hl.started (hl.upto.congr rfl id rfl) (.started handles rfl crew) hr)
  | cons definition rest =>
      have hall' : (done ++ [definition]) ++ rest = wiring.definitions := by rw [List.append_assoc]; exact hall
      have hjobs := dedicatedJobs_append 0 done definition
      rw [Nat.zero_add] at hjobs
      simp only at hs
      split at hs
      · next hex =>
        rw [if_pos hex] at hjobs
        rw [dedicatedWorkers_cons, if_pos hex] at hlen
        cases launchers with
        | nil => cases hlen
        | cons i launchers =>
            simp only [World.launch, send_waiting crew, seats, List.length_map] at hs
            cases hs
            rw [← seats, ← seats_append]
            refine h.goto rfl (.launching _ rest launchers _ (hl.put i _) hr hall' (Nat.succ.inj hlen) ?_)
            rw [hjobs, ← List.append_assoc]
            exact crew.send _
      · next hex =>
        rw [if_neg hex, List.append_nil] at hjobs
        rw [dedicatedWorkers_cons, if_neg hex] at hlen
        cases hs
        rw [← seats_append]
        refine h.goto rfl (.launching _ rest launchers handles hl hr hall' hlen ?_)
        rw [hjobs]
        exact crew

end Advance

theorem advance_tail {spawned : Bool} (h : Sound wiring w) {n : Nat} (hn : order a.stage = some n)
    (hstarted : w.core.started = false) (hup : Upto wiring w.core n) (hwired : Wired wiring w.core)
    (hr : a.runtime.isSome = true) (hs : w.advance wiring a spawned = some w') : Sound wiring w' := by
  cases hstage : a.stage with
  | relay =>
      rw [hstage] at hn
      cases hn
      simp only [World.advance, hstage] at hs
      split at hs
      · next hempty =>
        cases hs
        refine h.goto rfl (.tail .reaper 1 rfl hstarted ⟨fun hx => absurd hx (by omega), fun _ => ?_, hup.reapers,
          hup.listeners, fun _ => hup.before (by omega), fun hx => absurd hx (by omega), hup.attached, hup.runtime⟩
          hwired hr)
        exact (hup.unrelayed rfl).trans (if_pos (List.isEmpty_iff.mp hempty)).symm
      · next hempty =>
        rw [hup.unrelayed rfl] at hs
        cases hs
        refine h.take hr hstarted hwired rfl ⟨fun hx => absurd hx (by omega), fun _ => ?_, hup.reapers, hup.listeners,
          fun _ => hup.before (by omega), fun hx => absurd hx (by omega), hup.attached, hup.runtime⟩
        exact (if_neg fun hx => hempty (List.isEmpty_iff.mpr hx)).symm
  | reaper =>
      rw [hstage] at hn
      cases hn
      have hzero : w.core.launched.reapers = 0 := hup.reapers
      simp only [World.advance, hstage, hzero] at hs
      cases hs
      exact h.take hr hstarted hwired rfl ⟨fun hx => absurd hx (by omega),
        fun _ => hup.relays (by omega), rfl, hup.listeners, fun _ => hup.before (by omega),
        fun hx => absurd hx (by omega), hup.attached, hup.runtime⟩
  | listener =>
      rw [hstage] at hn
      cases hn
      have hzero : w.core.launched.listeners = 0 := hup.listeners
      simp only [World.advance, hstage, hzero] at hs
      cases hs
      exact h.take hr hstarted hwired rfl ⟨fun hx => absurd hx (by omega),
        fun _ => hup.relays (by omega), hup.reapers, rfl, fun _ => hup.before (by omega),
        fun hx => absurd hx (by omega), hup.attached, hup.runtime⟩
  | controller =>
      rw [hstage] at hn
      cases hn
      have hzero : w.core.launched.controllers = 0 := hup.before (by omega)
      simp only [World.advance, hstage, hzero] at hs
      split at hs <;> cases hs
      · next halive =>
        exact h.take hr hstarted hwired rfl ⟨fun hx => absurd hx (by omega),
          fun _ => hup.relays (by omega), hup.reapers, hup.listeners, fun hx => absurd hx (by omega),
          fun _ => .inl rfl, fun _ => hup.attached (.inl halive.1), hup.runtime⟩
      · next halive =>
        refine h.goto rfl (.tail .publish 4 rfl hstarted ⟨fun hx => absurd hx (by omega),
          fun _ => hup.relays (by omega), hup.reapers, hup.listeners,
          fun hx => absurd hx (by omega), fun _ => .inr ⟨hzero, ?_⟩, hup.attached, hup.runtime⟩ hwired hr)
        exact Bool.eq_false_iff.mpr fun hx => halive ⟨hx, trivial⟩
  | publish =>
      rw [hstage] at hn
      cases hn
      have hnone : w.core.startupRuntime.isNone = true := by simpa using hup.runtime
      simp only [World.advance, hstage, hnone, if_true] at hs
      cases hs
      exact h.goto rfl (.tail .store 5 rfl hstarted ⟨fun hx => absurd hx (by omega),
        fun _ => hup.relays (by omega), hup.reapers, hup.listeners,
        fun hx => absurd hx (by omega), fun _ => hup.controllers (by omega), hup.attached, hr⟩ (hwired.congr rfl rfl) hr)
  | store =>
      rw [hstage] at hn
      cases hn
      simp only [World.advance, hstage] at hs
      cases hs
      exact h.leave (fun _ => rfl) (by rintro ⟨⟩) (fun _ => rfl)
        (.up rfl (hup.congr rfl id rfl) (hwired.congr rfl rfl))
  | _ => rw [hstage] at hn; cases hn

theorem advance_sound {spawned : Bool} (h : Sound wiring w) (ha : w.gate = some a)
    (hs : w.advance wiring a spawned = some w') : Sound wiring w' := by
  have hp := h.held a ha
  generalize hstage : a.stage = stage at hp
  cases hp with
  | recheck hrest =>
      simp only [World.advance, hstage] at hs
      split at hs <;> cases hs
      · next hstarted => exact h.leave id (by rintro ⟨⟩) (fun _ => hstarted) hrest
      · next hstarted =>
        cases hrest with
        | idle hi => exact h.goto rfl (.current hi)
        | up hup => exact absurd hup hstarted
  | current hi =>
      simp only [World.advance, hstage] at hs
      split at hs <;> cases hs
      · next hr => exact h.goto rfl (.subscribers hi hr)
      · exact h.leave id (by rintro ⟨⟩) (by rintro ⟨⟩) (.idle hi)
  | subscribers hi hr => exact advance_subscribers h hs hstage hi hr
  | spawning launchers hl hr hlen crew => exact advance_spawning h hs hstage hl hr hlen crew
  | dropping launchers threads hl crew => exact advance_dropping h hs hstage hl crew
  | joining threads hl crew => exact advance_joining h hs hstage hl crew
  | sharing launchers hl hr hlen crew => exact advance_sharing h hs hstage hl hr hlen crew
  | launching done rest launchers handles hl hr hall hlen crew =>
      exact advance_launching h hs hstage hl hr hall hlen crew
  | tail stage n hn hstarted hup hwired hr => exact advance_tail h (by rw [hstage]; exact hn) hstarted hup hwired hr hs

/-- What the other steps do to the core. -/
inductive Disturbed (c : Core) : Core → Prop
  | thread (i : Nat) (t t' : Thread) (hi : c.threads[i]? = some t) (ht : t.step = some t') : Disturbed c (c.putThread i t')
  | close : Disturbed c { c with subs := .closed }
  | dropController : Disturbed c { c with controllerAlive := false }

theorem Disturbed.upto {n : Nat} (hd : Disturbed c c') (h : Upto wiring c n) : Upto wiring c' n := by
  cases hd with
  | thread i t t' hi ht => exact h.congr rfl id rfl
  | close => exact h.congr rfl id rfl
  | dropController => exact h.congr rfl (by rintro ⟨⟩) rfl

theorem Disturbed.crew (hd : Disturbed c c') (h : Crew c.threads waiting dropped handles served) :
    Crew c'.threads waiting dropped handles served := by
  cases hd with
  | thread i t t' hi ht => exact h.thread hi ht
  | close => exact h
  | dropController => exact h

theorem Disturbed.started (hd : Disturbed c c') : c'.started = c.started := by cases hd <;> rfl

theorem Disturbed.subs (hd : Disturbed c c') : c'.subs = c.subs ∨ c'.subs = .closed := by
  cases hd with
  | thread => exact .inl rfl
  | close => exact .inr rfl
  | dropController => exact .inl rfl

theorem Disturbed.wired (hd : Disturbed c c') (h : Wired wiring c) : Wired wiring c' := by
  cases h with
  | started handles subs crew =>
      rcases hd.subs with hs | hs
      · exact .started handles (hs.trans subs) (hd.crew crew)
      · exact .closed handles _ hs (hd.crew crew)
  | closed handles served subs crew =>
      exact .closed handles served (hd.subs.elim (fun hs => hs.trans subs) id) (hd.crew crew)

theorem Disturbed.idle (hd : Disturbed c c') (h : Idle wiring c) : Idle wiring c' :=
  ⟨hd.started.trans h.started, hd.upto h.upto,
    hd.subs.elim (fun hs => h.subs.imp hs.trans hs.trans) .inr, hd.crew h.crew⟩

theorem Disturbed.rested (hd : Disturbed c c') (h : Rested wiring c) : Rested wiring c' := by
  cases h with
  | idle hi => exact .idle (hd.idle hi)
  | up hstarted hup hwired => exact .up (hd.started.trans hstarted) (hd.upto hup) (hd.wired hwired)

theorem Disturbed.placed {runtime : Option Nat} {stage : Stage} (hd : Disturbed c c')
    (hkept : stage.holdsSet = true → c'.subs = c.subs) (h : Placed wiring c runtime stage) :
    Placed wiring c' runtime stage := by
  have hlocked : ∀ {definitions : List SubscriberLane}, stage.holdsSet = true → Locked wiring c definitions →
      Locked wiring c' definitions := fun hstage hl =>
    ⟨hd.started.trans hl.started, hd.upto hl.upto, (hkept hstage).trans hl.subs⟩
  cases h with
  | recheck hrest => exact .recheck (hd.rested hrest)
  | current hi => exact .current (hd.idle hi)
  | subscribers hi hr => exact .subscribers (hd.idle hi) hr
  | spawning launchers hl hr hlen crew => exact .spawning launchers (hlocked rfl hl) hr hlen (hd.crew crew)
  | dropping launchers threads hl crew => exact .dropping launchers threads (hlocked rfl hl) (hd.crew crew)
  | joining threads hl crew => exact .joining threads (hlocked rfl hl) (hd.crew crew)
  | sharing launchers hl hr hlen crew => exact .sharing launchers (hlocked rfl hl) hr hlen (hd.crew crew)
  | launching done rest launchers handles hl hr hall hlen crew =>
      exact .launching done rest launchers handles (hlocked rfl hl) hr hall hlen (hd.crew crew)
  | tail stage n hn hstarted hup hwired hr =>
      exact .tail stage n hn (hd.started.trans hstarted) (hd.upto hup) (hd.wired hwired) hr

theorem Sound.disturb (h : Sound wiring w) (hd : Disturbed w.core c)
    (hkept : ∀ a, w.gate = some a → a.stage.holdsSet = true → c.subs = w.core.subs) :
    Sound wiring { w with core := c } :=
  ⟨fun key result hm => (h.returned key result hm).imp_right fun hok hr => hd.started.trans (hok hr),
    fun hg => hd.rested (h.free hg), fun a ha => hd.placed (hkept a ha) (h.held a ha)⟩

theorem step_sound (h : Sound wiring w) {action : Action} (hs : w.step wiring action = some w') : Sound wiring w' := by
  cases action with
  | call runtime => cases hs; exact ⟨h.returned, h.free, h.held⟩
  | load key =>
      simp only [World.step] at hs
      split at hs
      · split at hs <;> cases hs
        · next hstarted =>
          refine ⟨fun k result hm => ?_, h.free, h.held⟩
          rcases List.mem_append.mp hm with hm | hm
          · exact h.returned k result hm
          · cases List.mem_singleton.mp hm
            exact ⟨by rintro ⟨⟩, fun _ => hstarted⟩
        · exact ⟨h.returned, h.free, h.held⟩
      · cases hs
  | lock key =>
      simp only [World.step] at hs
      split at hs
      · next hg =>
        cases hs
        refine ⟨h.returned, fun hx => (by cases hx), fun b hb => ?_⟩
        cases hb
        exact .recheck (h.free hg)
      · cases hs
  | advance spawned =>
      obtain ⟨a, ha, hs⟩ := Option.bind_eq_some_iff.mp hs
      exact advance_sound h ha hs
  | thread i =>
      obtain ⟨t', ht, rfl⟩ := Option.map_eq_some_iff.mp hs
      obtain ⟨t, hi, ht⟩ := Option.bind_eq_some_iff.mp ht
      exact h.disturb (.thread i t t' hi ht) fun _ _ _ => rfl
  | close =>
      simp only [World.step] at hs
      split at hs
      · cases hs
      · next hfree =>
        cases hs
        refine h.disturb .close fun a ha hstage => absurd ?_ hfree
        rw [ha]
        exact hstage
  | dropController =>
      cases hs
      exact h.disturb .dropController fun _ _ _ => rfl

theorem sound_of_reachable (h : (machine wiring).Reachable w) : Sound wiring w :=
  h.invariant (Sound.new wiring) fun _ _ _ _ hw hs => step_sound hw hs

/-- The launches of a started runtime. -/
structure Complete (wiring : Wiring) (c : Core) : Prop where
  relays : c.launched.relays = if wiring.definitions = [] then 0 else 1
  reapers : c.launched.reapers = 1
  listeners : c.launched.listeners = 1
  controllers : c.launched.controllers = 1 ∧ wiring.controller = true ∨
    c.launched.controllers = 0 ∧ c.controllerAlive = false
  runtime : c.startupRuntime.isSome = true
  subs : ∀ definitions, c.subs ≠ .pending definitions

/-- The subscriber set has started: the lanes the set's own machine begins
with, and one thread of its own for each job. -/
structure Staffed (wiring : Wiring) (threads : List Thread) (lanes : List Seat) (shared : Bool) (handles : List Nat) :
    Prop where
  lanes : lanes = (Subscribers.Fanout.machine wiring.definitions).init.seats
  shared : shared = sharedNeeded wiring.definitions
  serves : List.Forall₂ (Serves threads) handles (jobs wiring.definitions)
  nodup : handles.Nodup
  others : ∀ (i : Nat) (t : Thread), threads[i]? = some t → t.phase = .exited ∨ i ∈ handles

theorem Wired.staffed (h : Wired wiring c) {lanes : List Seat} {shared : Bool} {handles : List Nat}
    (hs : c.subs = .started lanes shared handles) : Staffed wiring c.threads lanes shared handles := by
  cases h with
  | started handles' subs crew =>
      rw [subs] at hs
      cases hs
      refine ⟨rfl, rfl, crew.serves, handles_nodup crew.serves (jobs_nodup _), fun i t hi => ?_⟩
      exact (crew.rest i t hi).imp_right fun hr =>
        (hr.resolve_left List.not_mem_nil).resolve_left List.not_mem_nil
  | closed _ _ subs => rw [subs] at hs; cases hs

theorem Wired.not_pending (h : Wired wiring c) (definitions : List SubscriberLane) : c.subs ≠ .pending definitions := by
  intro hs
  cases h with
  | started _ subs => rw [subs] at hs; cases hs
  | closed _ _ subs => rw [subs] at hs; cases hs

theorem Idle.exited (h : Idle wiring c) (ht : t ∈ c.threads) : t.phase = .exited := by
  obtain ⟨i, hi⟩ := List.mem_iff_getElem?.mp ht
  exact (h.crew.rest i t hi).resolve_right fun hr =>
    hr.elim List.not_mem_nil fun hr => hr.elim List.not_mem_nil List.not_mem_nil

theorem Upto.complete (h : Upto wiring c 5) (hwired : Wired wiring c) : Complete wiring c := by
  refine ⟨h.relays (by omega), h.reapers, h.listeners, ?_, h.runtime, hwired.not_pending⟩
  exact (h.controllers (by omega)).imp_left fun hone => ⟨hone, h.attached (.inr (by omega))⟩

/-- Nothing is launched, whoever holds the locks. -/
structure Early (wiring : Wiring) (c : Core) : Prop where
  started : c.started = false
  upto : Upto wiring c 0
  subs : ∀ lanes shared handles, c.subs ≠ .started lanes shared handles

theorem Idle.early (h : Idle wiring c) : Early wiring c := by
  refine ⟨h.started, h.upto, fun lanes shared handles hs => ?_⟩
  rcases h.subs with hx | hx <;> rw [hx] at hs <;> cases hs

theorem Locked.early {definitions : List SubscriberLane} (h : Locked wiring c definitions) : Early wiring c :=
  ⟨h.started, h.upto, fun lanes shared handles hs => by rw [h.subs] at hs; cases hs⟩

/-- The set is wired, and launches are under way or all made. -/
structure Late (wiring : Wiring) (c : Core) (n : Nat) : Prop where
  upto : Upto wiring c n
  wired : Wired wiring c
  all : c.started = true → n = 5

theorem Rested.when (h : Rested wiring c) : Early wiring c ∨ ∃ n, Late wiring c n := by
  cases h with
  | idle hi => exact .inl hi.early
  | up hstarted hup hwired => exact .inr ⟨5, hup, hwired, fun _ => rfl⟩

/-- A call behind the second check finds the flag clear. -/
theorem Placed.when {runtime : Option Nat} {stage : Stage} (h : Placed wiring c runtime stage) :
    (Early wiring c ∨ ∃ n, Late wiring c n) ∧ (c.started = true → stage = .recheck) := by
  have early : ∀ {p : Prop}, Early wiring c → (Early wiring c ∨ ∃ n, Late wiring c n) ∧ (c.started = true → p) := by
    intro p he
    refine ⟨.inl he, fun hstarted => ?_⟩
    rw [he.started] at hstarted
    cases hstarted
  cases h with
  | recheck hrest => exact ⟨hrest.when, fun _ => rfl⟩
  | current hi => exact early hi.early
  | subscribers hi => exact early hi.early
  | spawning _ hl => exact early hl.early
  | dropping _ _ hl => exact early hl.early
  | joining _ hl => exact early hl.early
  | sharing _ hl => exact early hl.early
  | launching _ _ _ _ hl => exact early hl.early
  | tail stage n hn hf hup hwired =>
      have late : ∀ {p : Prop}, c.started = true → p := fun hx => by rw [hf] at hx; cases hx
      exact ⟨.inr ⟨n, hup, hwired, late⟩, late⟩

theorem Sound.when (h : Sound wiring w) : Early wiring w.core ∨ ∃ n, Late wiring w.core n := by
  cases hg : w.gate with
  | none => exact (h.free hg).when
  | some a => exact (h.held a hg).when.1

theorem Sound.upto (h : Sound wiring w) : ∃ n, Upto wiring w.core n := by
  rcases h.when with he | ⟨n, hl⟩
  · exact ⟨0, he.upto⟩
  · exact ⟨n, hl.upto⟩

theorem Sound.staffed (h : Sound wiring w) {lanes : List Seat} {shared : Bool} {handles : List Nat}
    (hs : w.core.subs = .started lanes shared handles) : Staffed wiring w.core.threads lanes shared handles := by
  rcases h.when with he | ⟨n, hl⟩
  · exact absurd hs (he.subs lanes shared handles)
  · exact hl.wired.staffed hs

theorem Sound.complete (h : Sound wiring w) (hstarted : w.core.started = true) : Complete wiring w.core := by
  rcases h.when with he | ⟨n, hl⟩
  · rw [he.started] at hstarted
    cases hstarted
  · have hn := hl.all hstarted
    subst hn
    exact hl.upto.complete hl.wired

/-- No step undoes or repeats a launch of a started runtime. -/
theorem started_step (h : Sound wiring w) (hstarted : w.core.started = true) {action : Action}
    (hs : w.step wiring action = some w') : w'.core.started = true ∧ w'.core.launched = w.core.launched ∧
      w'.core.startupRuntime = w.core.startupRuntime := by
  cases action with
  | load key =>
      simp only [World.step] at hs
      split at hs
      · split at hs <;> cases hs <;> exact ⟨hstarted, rfl, rfl⟩
      · cases hs
  | lock key =>
      simp only [World.step] at hs
      split at hs <;> cases hs
      exact ⟨hstarted, rfl, rfl⟩
  | advance spawned =>
      obtain ⟨a, ha, hs⟩ := Option.bind_eq_some_iff.mp hs
      have hstage := (h.held a ha).when.2 hstarted
      simp only [World.advance, hstage, hstarted, if_true] at hs
      cases hs
      exact ⟨hstarted, rfl, rfl⟩
  | thread i =>
      obtain ⟨t, -, rfl⟩ := Option.map_eq_some_iff.mp hs
      exact ⟨hstarted, rfl, rfl⟩
  | close =>
      simp only [World.step] at hs
      split at hs <;> cases hs
      exact ⟨hstarted, rfl, rfl⟩
  | _ => cases hs; exact ⟨hstarted, rfl, rfl⟩

/-- Startup is all or nothing, for any number of concurrent calls. No call
panics and none returns `Ok` before every worker is launched, each at most once
and each thread of the set with a job of its own; a failed attempt leaves the
definitions as they were and no thread behind. -/
theorem transactional_startup (h : (machine wiring).Reachable w) :
    (∀ key result, (key, result) ∈ w.returned → result ≠ .panicked ∧ (result = .ok → w.core.started = true)) ∧
    (w.gate = none → w.core.started = false → w.core.launched = ⟨0, 0, 0, 0⟩ ∧ w.core.startupRuntime = none ∧
      (w.core.subs = .pending wiring.definitions ∨ w.core.subs = .closed) ∧ ∀ t ∈ w.core.threads, t.phase = .exited) ∧
    (w.core.started = true → Complete wiring w.core) ∧
    (∀ lanes shared handles, w.core.subs = .started lanes shared handles →
      Staffed wiring w.core.threads lanes shared handles) ∧
    (w.core.launched.relays ≤ 1 ∧ w.core.launched.reapers ≤ 1 ∧ w.core.launched.listeners ≤ 1 ∧
      w.core.launched.controllers ≤ 1) ∧
    ∀ run w', (machine wiring).after w run = some w' → w.core.started = true → w'.core.started = true ∧
      w'.core.launched = w.core.launched ∧ w'.core.startupRuntime = w.core.startupRuntime := by
  have hs := sound_of_reachable h
  refine ⟨hs.returned, fun hg hf => ?_, hs.complete, fun _ _ _ hsubs => hs.staffed hsubs, ?_,
    fun run w' hrun hstarted => ?_⟩
  · cases hs.free hg with
    | idle hi =>
        have hu := hi.upto
        refine ⟨?_, by simpa using hu.runtime, hi.subs, fun t ht => hi.exited ht⟩
        have hl : w.core.launched = ⟨w.core.launched.relays, w.core.launched.reapers, w.core.launched.listeners,
          w.core.launched.controllers⟩ := rfl
        rw [hl, hu.unrelayed rfl, hu.reapers, hu.listeners, hu.before (by omega)]
        rfl
    | up hstarted => rw [hf] at hstarted; cases hstarted
  · obtain ⟨n, hu⟩ := hs.upto
    refine ⟨?_, ?_, ?_, ?_⟩
    · rcases Nat.eq_zero_or_pos n with hn | hn
      · exact (hu.unrelayed hn).trans_le (Nat.zero_le 1)
      · rw [hu.relays hn]; split <;> omega
    · rw [hu.reapers]; split <;> omega
    · rw [hu.listeners]; split <;> omega
    · rcases Nat.lt_or_ge n 4 with hn | hn
      · exact (hu.before hn).trans_le (Nat.zero_le 1)
      · rcases hu.controllers hn with hc | ⟨hc, -⟩ <;> omega
  · let kept (v : World) : Prop := v.core.started = true ∧ v.core.launched = w.core.launched ∧
      v.core.startupRuntime = w.core.startupRuntime
    refine h.keeps (P := kept) ⟨hstarted, rfl, rfl⟩ (fun v a v' hv hk hstep => ?_) hrun
    obtain ⟨hflag, hl, hr⟩ := started_step (sound_of_reachable hv) hk.1 hstep
    exact ⟨hflag, hl.trans hk.2.1, hr.trans hk.2.2⟩

def threeLanes : Wiring where
  definitions := [⟨"audit", .two, .dedicated⟩, ⟨"metrics", .two, .shared⟩, ⟨"trace", .two, .dedicated⟩]
  controller := true

/-- A call whose second thread fails to spawn, its rollback, and a retry. -/
def retryRun : List Action :=
  [.call (some 7), .load 0, .lock 0, .advance true, .advance true, .advance true, .advance true, .advance false,
    .advance true, .advance true, .thread 0, .advance true, .advance true] ++
  [.call (some 7), .load 1, .lock 1] ++ List.replicate 18 (.advance true)

theorem transactional_startup_retry :
    ∃ w, (machine threeLanes).after (.new threeLanes) retryRun = some w ∧
      w.returned = [(0, .failed .threadStartFailed), (1, .ok)] ∧ w.core.threads.length = 4 ∧
      Complete threeLanes w.core := by
  obtain ⟨w, hw, hp⟩ := (Option.any_eq_true (fun w : World => decide (
      w.returned = [(0, .failed .threadStartFailed), (1, .ok)] ∧ w.core.threads.length = 4 ∧
      w.core.started = true)) _).mp
    (show (Machine.after (machine threeLanes) (.new threeLanes) retryRun).any _ = true by decide +kernel)
  obtain ⟨hreturned, hthreads, hstarted⟩ := of_decide_eq_true hp
  exact ⟨w, hw, hreturned, hthreads,
    (transactional_startup (Machine.Reachable.after (M := machine _) .init hw)).2.2.1 hstarted⟩

end Taskvisor.Runtime.Transaction
