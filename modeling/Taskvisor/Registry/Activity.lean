import Taskvisor.Lib.Sort
import Taskvisor.Registry.Exclusion
import Mathlib.Data.String.Basic

namespace Taskvisor.Registry.Activity

open Lib Lib.Sort Runtime.Base Reaper State Lifecycle Moves Names Listener Steps Entries Reach Claims Exclusion

/-- A call of `is_alive` or of `alive_snapshot`. -/
inductive Question
  | isAlive (name : String)
  | aliveSnapshot
deriving DecidableEq

inductive Answer
  | alive (alive : Bool)
  | names (names : List String)
deriving DecidableEq

/-- The activity bits read for one name. -/
structure Group where
  name : String
  ids : List TaskId
deriving DecidableEq

/-- The next statement of a query; `found` holds the names whose bit was read
as set. -/
inductive Stage
  | asked
  | registry (groups : List Group) (found : List String)
  | unlocked (found : List String)
  | reaper (groups : List Group) (found : List String)
  | answered (answer : Answer)
deriving DecidableEq

structure Query where
  question : Question
  stage : Stage
deriving DecidableEq

/-- The registry service with the activity bits of its entries and the queries
that read them. An entry is read under its lock, its bit in a later step: the
interleavings the two locks allow are among those of this machine. -/
structure Service where
  world : World
  active : List TaskId
  queries : Table Nat Query
  nextQuery : Nat

/-- What the query takes from the registry state. -/
def registryGroups (c : Core) : Question → List Group
  | .isAlive name =>
    match c.byName.lookup name with
    | some id => if (c.tasks.lookup id).isSome then [⟨name, [id]⟩] else []
    | none => []
  | .aliveSnapshot => c.tasks.entries.map fun entry => ⟨entry.2.name, [entry.1]⟩

/-- What it takes from the reaper state. -/
def reaperGroups (st : ReaperState) : Question → List Group
  | .isAlive name => ((st.byName.lookup name).map fun activities => ⟨name, activities.map ReaperActivity.id⟩).toList
  | .aliveSnapshot => st.byName.entries.map fun entry => ⟨entry.1, entry.2.map ReaperActivity.id⟩

/-- One `activity.load`; `any` stops at the first bit that is set. -/
def load (active : List TaskId) (found : List String) : List Group → Option (List Group × List String)
  | [] => none
  | ⟨_, []⟩ :: groups => some (groups, found)
  | ⟨name, id :: ids⟩ :: groups =>
    if id ∈ active then some (groups, found ++ [name]) else some (⟨name, ids⟩ :: groups, found)

/-- `registered || …` asks the reaper only when the registry said no. -/
def shortCircuits : Question → List String → Bool
  | .isAlive _, found => !found.isEmpty
  | .aliveSnapshot, _ => false

def conclude (found : List String) : Question → Answer
  | .isAlive _ => .alive (!found.isEmpty)
  | .aliveSnapshot => .names (sortDedup found)

namespace Service

def new : Service := ⟨World.new, [], ∅, 0⟩

/-- The query runs its next statement. -/
def advance (s : Service) (q : Query) : Option Stage :=
  match q.stage with
  | .asked => some (.registry (registryGroups s.world.core q.question) [])
  | .registry groups found =>
    match load s.active found groups with
    | some (groups, found) => some (.registry groups found)
    | none => some (.unlocked found)
  | .unlocked found =>
    if shortCircuits q.question found then some (.answered (conclude found q.question))
    else some (.reaper (reaperGroups s.world.core.reaper q.question) found)
  | .reaper groups found =>
    match load s.active found groups with
    | some (groups, found) => some (.reaper groups found)
    | none => some (.answered (conclude found q.question))
  | .answered _ => none

/-- The guard of an attempt is dropped before its actor goes on, and before
the join of an aborted one. -/
def quiet (active : List TaskId) : World.Action → Bool
  | .actor id _ => decide (id ∉ active)
  | _ => true

def running (c : Core) (id : TaskId) : Bool := (c.actors.lookup id).any fun a => decide (a.phase = .running)

inductive Action
  | registry (a : World.Action)
  | begin (id : TaskId)
  | finish (id : TaskId)
  | ask (question : Question)
  | query (key : Nat)

def step (cfg : RegistryConfig) (s : Service) : Action → Option Service
  | .registry a => if quiet s.active a then (s.world.step cfg a).map fun world => { s with world } else none
  | .begin id =>
    if running s.world.core id && decide (id ∉ s.active) then some { s with active := s.active ++ [id] } else none
  | .finish id => if id ∈ s.active then some { s with active := s.active.erase id } else none
  | .ask question =>
    some { s with queries := s.queries.insert s.nextQuery ⟨question, .asked⟩, nextQuery := s.nextQuery + 1 }
  | .query key =>
    (s.queries.lookup key).bind fun q =>
      (s.advance q).map fun stage => { s with queries := s.queries.insert key { q with stage } }

/-- An actor of this name has its activity bit set. -/
def Alive (s : Service) (id : TaskId) (n : String) : Prop :=
  id ∈ s.active ∧ ∃ actor, s.world.core.actors.lookup id = some actor ∧ actor.name = n

end Service

def machine (cfg : RegistryConfig) : Machine Service Service.Action := ⟨.new, Service.step cfg⟩

def Question.Asks : Question → String → Prop
  | .isAlive name, n => n = name
  | .aliveSnapshot, _ => True

/-- The answer to the question reports the name. -/
def Reports (question : Question) (answer : Answer) (n : String) : Prop :=
  match question, answer with
  | .isAlive name, .alive alive => n = name ∧ alive = true
  | .aliveSnapshot, .names names => n ∈ names
  | _, _ => False

variable {cfg : RegistryConfig} {w w' : World} {c c' : Core} {id : TaskId} {n : String} {key : Nat} {s t : Service}
  {a : Service.Action} {question : Question} {answer : Answer} {groups groups' : List Group} {found found' : List String}

section Running

open Service (running)

theorem running_iff : running c id = true ↔ ∃ actor, c.actors.lookup id = some actor ∧ actor.phase = .running := by
  simp [running, Option.any_eq_true]

/-- An actor runs on until a step of its own. -/
theorem running_step {b : World.Action} (hst : Steady w) (h : running w.core id = true) (hs : Stepped cfg w b w')
    (hother : ∀ action, b ≠ .actor id action) : running w'.core id = true := by
  obtain ⟨actor, ha, hp⟩ := running_iff.mp h
  obtain ⟨actor', ha', hsame | hgated | ⟨action, hb, -⟩⟩ := actor_step hst.settled hs ha
  · exact running_iff.mpr ⟨actor', ha', hsame.trans hp⟩
  · cases hp.symm.trans hgated
  · exact absurd hb (hother action)

end Running

/-- The bit is still to be read for the name. -/
def Listed (groups : List Group) (id : TaskId) (n : String) : Prop := ∃ g ∈ groups, g.name = n ∧ id ∈ g.ids

section Load

variable {active : List TaskId}

theorem load_none (h : load active found groups = none) : ¬ Listed groups id n := by
  unfold load at h
  split at h
  · rintro ⟨g, hg, -⟩
    cases hg
  · cases h
  · split at h <;> cases h

/-- A bit that is set is found or stays among those to be read. -/
theorem load_keeps (h : load active found groups = some (groups', found')) (hid : id ∈ active)
    (hn : n ∈ found ∨ Listed groups id n) : n ∈ found' ∨ Listed groups' id n := by
  unfold load at h
  split at h
  · cases h
  · cases h
    refine hn.imp_right ?_
    rintro ⟨g, hg, hname, hmem⟩
    rcases List.mem_cons.mp hg with rfl | hg
    · cases hmem
    · exact ⟨g, hg, hname, hmem⟩
  · next name i ids rest =>
    split at h
    · cases h
      rcases hn with hn | ⟨g, hg, rfl, hmem⟩
      · exact .inl (List.mem_append_left _ hn)
      · rcases List.mem_cons.mp hg with rfl | hg
        · exact .inl (List.mem_append_right _ List.mem_cons_self)
        · exact .inr ⟨g, hg, rfl, hmem⟩
    · next hi =>
      cases h
      refine hn.imp_right ?_
      rintro ⟨g, hg, hname, hmem⟩
      rcases List.mem_cons.mp hg with rfl | hg
      · rcases List.mem_cons.mp hmem with rfl | hmem
        · exact absurd hid hi
        · exact ⟨⟨name, ids⟩, List.mem_cons_self, hname, hmem⟩
      · exact ⟨g, List.mem_cons_of_mem _ hg, hname, hmem⟩

/-- What is left to read was to be read before, under the same names. -/
theorem load_groups (h : load active found groups = some (groups', found')) :
    ∀ g' ∈ groups', ∃ g ∈ groups, g.name = g'.name ∧ ∀ i ∈ g'.ids, i ∈ g.ids := by
  intro g' hg'
  unfold load at h
  split at h
  · cases h
  · cases h; exact ⟨g', List.mem_cons_of_mem _ hg', rfl, fun _ hi => hi⟩
  · next name i ids rest =>
    split at h
    · cases h; exact ⟨g', List.mem_cons_of_mem _ hg', rfl, fun _ hi => hi⟩
    · cases h
      rcases List.mem_cons.mp hg' with rfl | hg'
      · exact ⟨⟨name, i :: ids⟩, List.mem_cons_self, rfl, fun _ hi => List.mem_cons_of_mem _ hi⟩
      · exact ⟨g', List.mem_cons_of_mem _ hg', rfl, fun _ hi => hi⟩

/-- What is found had its bit set. -/
theorem load_found (h : load active found groups = some (groups', found')) :
    ∀ m ∈ found', m ∈ found ∨ ∃ i ∈ active, Listed groups i m := by
  intro m hm
  unfold load at h
  split at h
  · cases h
  · cases h; exact .inl hm
  · next name i ids rest =>
    split at h
    · next hi =>
      cases h
      rcases List.mem_append.mp hm with hm | hm
      · exact .inl hm
      · rw [List.mem_singleton.mp hm]
        exact .inr ⟨i, hi, ⟨name, i :: ids⟩, List.mem_cons_self, rfl, List.mem_cons_self⟩
    · cases h; exact .inl hm

end Load

/-- Everything one step can do, with its label. -/
inductive Turned (cfg : RegistryConfig) (s : Service) : Service.Action → Service → Prop
  | registry (b : World.Action) (world : World) (hquiet : ∀ i action, b = .actor i action → i ∉ s.active)
      (hstep : s.world.step cfg b = some world) : Turned cfg s (.registry b) { s with world }
  | begin (id : TaskId) (hrun : Service.running s.world.core id = true) :
      Turned cfg s (.begin id) { s with active := s.active ++ [id] }
  | finish (id : TaskId) : Turned cfg s (.finish id) { s with active := s.active.erase id }
  | ask (question : Question) :
      Turned cfg s (.ask question)
        { s with queries := s.queries.insert s.nextQuery ⟨question, .asked⟩, nextQuery := s.nextQuery + 1 }
  | query (key : Nat) (q : Query) (stage : Stage) (hk : s.queries.lookup key = some q) (hstage : s.advance q = some stage) :
      Turned cfg s (.query key) { s with queries := s.queries.insert key { q with stage } }

theorem turned_of_step (h : s.step cfg a = some t) : Turned cfg s a t := by
  cases a with
  | registry b =>
      simp only [Service.step] at h
      split at h
      · next hq =>
        obtain ⟨world, hw, rfl⟩ := Option.map_eq_some_iff.mp h
        refine .registry b world (fun i action hb => ?_) hw
        rw [hb] at hq
        exact of_decide_eq_true hq
      · cases h
  | begin id =>
      simp only [Service.step] at h
      split at h
      · next hr => cases h; exact .begin id (Bool.and_eq_true_iff.mp hr).1
      · cases h
  | finish id =>
      simp only [Service.step] at h
      split at h
      · cases h; exact .finish id
      · cases h
  | ask question => cases h; exact .ask question
  | query key =>
      obtain ⟨q, hk, h⟩ := Option.bind_eq_some_iff.mp h
      obtain ⟨stage, hstage, rfl⟩ := Option.map_eq_some_iff.mp h
      exact .query key q stage hk hstage

/-- The registry under the queries runs as it does alone. -/
theorem registry_of_reachable (h : (machine cfg).Reachable s) : (Listener.machine cfg).Reachable s.world := by
  refine h.invariant (P := fun s => (Listener.machine cfg).Reachable s.world) .init fun s a t _ hs hstep => ?_
  cases turned_of_step hstep with
  | registry b world _ hb => exact .next b hs hb
  | _ => exact hs

/-- A set activity bit belongs to an actor in its body. -/
theorem running_of_active (h : (machine cfg).Reachable s) : ∀ i ∈ s.active, Service.running s.world.core i = true := by
  refine h.invariant (P := fun s => ∀ i ∈ s.active, Service.running s.world.core i = true) (fun _ hi => nomatch hi)
    fun s a t hr hs hstep i hi => ?_
  cases turned_of_step hstep with
  | registry b world hquiet hb =>
      exact running_step (steady_of_reachable (registry_of_reachable hr)) (hs i hi) (step_cases hb)
        fun action he => hquiet i action he hi
  | begin id hrun =>
      rcases List.mem_append.mp hi with hi | hi
      · exact hs i hi
      · rw [List.mem_singleton.mp hi]; exact hrun
  | finish id => exact hs i (List.mem_of_mem_erase hi)
  | ask | query => exact hs i hi

/-- One query and what is known of its stage. -/
def Watched (key : Nat) (question : Question) (R : Core → Stage → Prop) (s : Service) : Prop :=
  key < s.nextQuery ∧ ∃ stage, s.queries.lookup key = some ⟨question, stage⟩ ∧ R s.world.core stage

/-- The rule for a query: what the registry keeps and the statements of the
query keep, every step keeps. -/
theorem Watched.step {R : Core → Stage → Prop} (h : Watched key question R s) (hs : s.step cfg a = some t)
    (hcore : ∀ b w stage, s.world.step cfg b = some w → R s.world.core stage → R w.core stage)
    (hadvance : ∀ stage stage', R s.world.core stage → s.advance ⟨question, stage⟩ = some stage' →
      R s.world.core stage') : Watched key question R t := by
  obtain ⟨hlt, stage, hk, hR⟩ := h
  cases turned_of_step hs with
  | registry b world _ hb => exact ⟨hlt, stage, hk, hcore b world stage hb hR⟩
  | begin | finish => exact ⟨hlt, stage, hk, hR⟩
  | ask => exact ⟨Nat.lt_succ_of_lt hlt, stage, (AList.lookup_insert_ne (Nat.ne_of_lt hlt)).trans hk, hR⟩
  | query k q stage' hk' hstage =>
      by_cases he : key = k
      · subst he
        obtain rfl := Option.some.inj (hk.symm.trans hk')
        exact ⟨hlt, stage', AList.lookup_insert _, hadvance stage stage' hR hstage⟩
      · exact ⟨hlt, stage, (AList.lookup_insert_ne he).trans hk, hR⟩

/-- The registration of the identity bears the name. -/
def Bears (c : Core) (id : TaskId) (n : String) : Prop := ∃ p, c.born.lookup id = some p ∧ p.name = n

theorem entry_bears (hs : Sound c) {e : Entry} (he : c.tasks.lookup id = some e) : Bears c id e.name := by
  obtain ⟨p, hb, -, hname⟩ := entry_seed hs he
  exact ⟨p, hb, hname.symm⟩

theorem bears_of_alive (h : (machine cfg).Reachable s) (ha : s.Alive id n) :
    Bears s.world.core id n ∧ Occupied s.world.core id := by
  obtain ⟨hactive, actor, hlook, rfl⟩ := ha
  obtain ⟨b, hb, hphase⟩ := running_iff.mp (running_of_active h id hactive)
  obtain rfl := Option.some.inj (hlook.symm.trans hb)
  have hsound := (steady_of_reachable (registry_of_reachable h)).settled.sound
  obtain ⟨p, hborn, hname, hocc⟩ := occupied_of_live hsound hlook (by rw [hphase]; decide)
  exact ⟨⟨p, hborn, hname.symm⟩, hocc⟩

theorem alive_of_bears (h : (machine cfg).Reachable s) (hactive : id ∈ s.active) (hb : Bears s.world.core id n) :
    s.Alive id n := by
  obtain ⟨actor, hlook, hphase⟩ := running_iff.mp (running_of_active h id hactive)
  have hsound := (steady_of_reachable (registry_of_reachable h)).settled.sound
  obtain ⟨p, hborn, hname, -⟩ := occupied_of_live hsound hlook (by rw [hphase]; decide)
  obtain ⟨p', hborn', rfl⟩ := hb
  obtain rfl := Option.some.inj (hborn.symm.trans hborn')
  exact ⟨hactive, actor, hlook, hname⟩

section Groups

variable (hn : Named c)

include hn

theorem registryGroups_listed (hs : Sound c) (hb : Bears c id n) (hasks : question.Asks n) :
    Listed (registryGroups c question) id n ∨ c.tasks.lookup id = none := by
  cases he : c.tasks.lookup id with
  | none => exact .inr rfl
  | some e =>
      refine .inl ?_
      obtain ⟨p, hp, hx⟩ := entry_bears hs he
      obtain ⟨p', hp', rfl⟩ := hb
      obtain rfl := Option.some.inj (hp.symm.trans hp')
      cases question with
      | isAlive name =>
          have hindex : c.byName.lookup name = some id := (hn.index name id).mpr (by rw [he, ← hasks, hx]; rfl)
          refine ⟨⟨name, [id]⟩, ?_, hasks.symm, List.mem_cons_self⟩
          simp [registryGroups, hindex, he]
      | aliveSnapshot =>
          exact ⟨⟨e.name, [id]⟩, List.mem_map_of_mem (AList.mem_lookup_iff.mp he), hx.symm, List.mem_cons_self⟩

/-- After the commit the reaper still lists the actor. -/
theorem reaperGroups_listed (hb : Bears c id n) (ho : Occupied c id) (hgone : c.tasks.lookup id = none)
    (hasks : question.Asks n) : Listed (reaperGroups c.reaper question) id n := by
  obtain ⟨p, hp, rfl⟩ := hb
  have hrecord : (c.reaper.records.lookup id).isSome := ho.resolve_left (by rw [hgone]; exact Bool.false_ne_true)
  have hres := (hn.reserved p.name _).mpr ⟨id, p, hp, rfl, hrecord, rfl⟩
  cases question with
  | isAlive name =>
      obtain rfl : p.name = name := hasks
      exact ⟨⟨p.name, [id]⟩, by simp [reaperGroups, hres], rfl, List.mem_cons_self⟩
  | aliveSnapshot =>
      exact ⟨⟨p.name, [id]⟩, List.mem_map_of_mem (AList.mem_lookup_iff.mp hres), rfl, List.mem_cons_self⟩

theorem registryGroups_bear (hs : Sound c) :
    ∀ g ∈ registryGroups c question, question.Asks g.name ∧ ∀ i ∈ g.ids, Bears c i g.name := by
  intro g hg
  cases question with
  | isAlive name =>
      simp only [registryGroups] at hg
      split at hg
      · next i hi =>
        split at hg
        · obtain rfl := List.mem_singleton.mp hg
          refine ⟨rfl, fun j hj => ?_⟩
          obtain rfl := List.mem_singleton.mp hj
          obtain ⟨e, he, rfl⟩ := Option.map_eq_some_iff.mp ((hn.index name j).mp hi)
          exact entry_bears hs he
        · cases hg
      · cases hg
  | aliveSnapshot =>
      obtain ⟨⟨i, e⟩, hmem, rfl⟩ := List.mem_map.mp hg
      refine ⟨trivial, fun j hj => ?_⟩
      obtain rfl := List.mem_singleton.mp hj
      exact entry_bears hs (AList.mem_lookup_iff.mpr hmem)

theorem reaperGroups_bear :
    ∀ g ∈ reaperGroups c.reaper question, question.Asks g.name ∧ ∀ i ∈ g.ids, Bears c i g.name := by
  have hlist {m : String} {activities : List ReaperActivity} (hm : c.reaper.byName.lookup m = some activities) :
      ∀ i ∈ activities.map ReaperActivity.id, Bears c i m := by
    obtain ⟨j, p, hp, hname, -, rfl⟩ := (hn.reserved m activities).mp hm
    intro i hi
    obtain rfl := List.mem_singleton.mp hi
    exact ⟨p, hp, hname⟩
  intro g hg
  cases question with
  | isAlive name =>
      obtain ⟨activities, hm, rfl⟩ := Option.map_eq_some_iff.mp (Option.mem_toList.mp hg)
      exact ⟨rfl, hlist hm⟩
  | aliveSnapshot =>
      obtain ⟨⟨m, activities⟩, hmem, rfl⟩ := List.mem_map.mp hg
      exact ⟨trivial, hlist (AList.mem_lookup_iff.mpr hmem)⟩

end Groups

theorem reports_of_found (hasks : question.Asks n) (hn : n ∈ found) : Reports question (conclude found question) n := by
  cases question with
  | isAlive name => exact ⟨hasks, by cases found <;> first | rfl | cases hn⟩
  | aliveSnapshot => exact mem_sortDedup.mpr hn

theorem found_of_reports (h : Reports question (conclude found question) n) (hasks : ∀ m ∈ found, question.Asks m) :
    n ∈ found := by
  cases question with
  | isAlive name =>
      obtain ⟨rfl, hne⟩ := h
      cases found with
      | nil => cases hne
      | cons m found => rw [show m = n from hasks m List.mem_cons_self]; exact List.mem_cons_self
  | aliveSnapshot => exact mem_sortDedup.mp h

theorem reports_of_shortCircuits (hasks : question.Asks n) (h : shortCircuits question found = true) :
    Reports question (conclude found question) n := by
  cases question with
  | isAlive name => exact ⟨hasks, h⟩
  | aliveSnapshot => cases h

theorem advance_answered {q : Query} (h : s.advance q = some (.answered answer)) :
    ∃ found, answer = conclude found q.question := by
  unfold Service.advance at h
  split at h
  · cases h
  · split at h <;> cases h
  · next found _ =>
    split at h
    · cases h; exact ⟨found, rfl⟩
    · cases h
  · next groups found _ =>
    split at h
    · cases h
    · cases h; exact ⟨found, rfl⟩
  · cases h

/-- The answer will report the name: it is found, or its bit is still to be
read, or it has left the registry for the reaper. -/
def Promised (question : Question) (id : TaskId) (n : String) (c : Core) : Stage → Prop
  | .asked => True
  | .registry groups found => (n ∈ found ∨ Listed groups id n) ∨ c.tasks.lookup id = none
  | .unlocked found => n ∈ found ∨ c.tasks.lookup id = none
  | .reaper groups found => n ∈ found ∨ Listed groups id n
  | .answered answer => Reports question answer n

theorem Promised.advance (h : (machine cfg).Reachable s) (hactive : s.Alive id n) (hasks : question.Asks n)
    {stage stage' : Stage} (hp : Promised question id n s.world.core stage) (hs : s.advance ⟨question, stage⟩ = some stage') :
    Promised question id n s.world.core stage' := by
  have hset := (steady_of_reachable (registry_of_reachable h)).settled
  obtain ⟨hbears, hocc⟩ := bears_of_alive h hactive
  cases stage with
  | asked =>
      cases hs
      exact (registryGroups_listed hset.named hset.sound hbears hasks).imp_left .inr
  | registry groups found =>
      simp only [Service.advance] at hs
      split at hs
      · next hload => cases hs; exact hp.imp_left (load_keeps hload hactive.1)
      · next hload =>
        cases hs
        exact hp.imp_left fun hp => hp.resolve_right (load_none hload)
  | unlocked found =>
      simp only [Service.advance] at hs
      split at hs
      · next hshort => cases hs; exact reports_of_shortCircuits hasks hshort
      · cases hs; exact hp.imp_right fun hgone => reaperGroups_listed hset.named hbears hocc hgone hasks
  | reaper groups found =>
      simp only [Service.advance] at hs
      split at hs
      · next hload => cases hs; exact load_keeps hload hactive.1 hp
      · next hload =>
        cases hs
        exact reports_of_found hasks (hp.resolve_right (load_none hload))
  | answered answer => cases hs

/-- Entries never come back, so the promise outlives the registry's steps. -/
theorem Promised.registry (hst : Steady w) {b : World.Action} (hs : w.step cfg b = some w') (hb : Bears w.core id n)
    {stage : Stage} (hp : Promised question id n w.core stage) : Promised question id n w'.core stage := by
  have hgone (hnone : w.core.tasks.lookup id = none) : w'.core.tasks.lookup id = none := by
    cases he : w'.core.tasks.lookup id with
    | none => rfl
    | some e =>
        obtain ⟨p, hborn, -⟩ := hb
        cases step_entry hst (step_cases hs) id with
        | progress hprog =>
            have hsome := hprog.present (by rw [he]; rfl)
            rw [hnone] at hsome
            cases hsome
        | enter _ _ hunborn => rw [hborn] at hunborn; cases hunborn
  cases stage with
  | asked => trivial
  | registry groups found => exact hp.imp_right hgone
  | unlocked found => exact hp.imp_right hgone
  | reaper groups found => exact hp
  | answered answer => exact hp

/-- The answer does not report the name: it is not among those found, and the
bits still to be read are those of registrations. -/
def Unreported (question : Question) (n : String) (c : Core) : Stage → Prop
  | .asked => True
  | .registry groups found | .reaper groups found =>
    (∀ g ∈ groups, question.Asks g.name ∧ ∀ i ∈ g.ids, Bears c i g.name) ∧ ∀ m ∈ found, question.Asks m ∧ m ≠ n
  | .unlocked found => ∀ m ∈ found, question.Asks m ∧ m ≠ n
  | .answered answer => ¬ Reports question answer n

theorem unreported_of_found (h : ∀ m ∈ found, question.Asks m ∧ m ≠ n) : ¬ Reports question (conclude found question) n :=
  fun hr => (h n (found_of_reports hr fun m hm => (h m hm).1)).2 rfl

theorem unreported_load (h : (machine cfg).Reachable s) (hidle : ∀ i, ¬ s.Alive i n)
    (hload : load s.active found groups = some (groups', found'))
    (hp : (∀ g ∈ groups, question.Asks g.name ∧ ∀ i ∈ g.ids, Bears s.world.core i g.name) ∧
      ∀ m ∈ found, question.Asks m ∧ m ≠ n) :
    (∀ g ∈ groups', question.Asks g.name ∧ ∀ i ∈ g.ids, Bears s.world.core i g.name) ∧
      ∀ m ∈ found', question.Asks m ∧ m ≠ n := by
  refine ⟨fun g' hg' => ?_, fun m hm => ?_⟩
  · obtain ⟨g, hg, hname, hids⟩ := load_groups hload g' hg'
    rw [← hname]
    exact ⟨(hp.1 g hg).1, fun i hi => (hp.1 g hg).2 i (hids i hi)⟩
  · rcases load_found hload m hm with hm | ⟨i, hi, g, hg, rfl, hmem⟩
    · exact hp.2 m hm
    · refine ⟨(hp.1 g hg).1, fun he => hidle i ?_⟩
      rw [← he]
      exact alive_of_bears h hi ((hp.1 g hg).2 i hmem)

theorem Unreported.advance (h : (machine cfg).Reachable s) (hidle : ∀ i, ¬ s.Alive i n) {stage stage' : Stage}
    (hp : Unreported question n s.world.core stage) (hs : s.advance ⟨question, stage⟩ = some stage') :
    Unreported question n s.world.core stage' := by
  have hset := (steady_of_reachable (registry_of_reachable h)).settled
  cases stage with
  | asked =>
      cases hs
      exact ⟨registryGroups_bear hset.named hset.sound, fun _ hm => nomatch hm⟩
  | registry groups found =>
      simp only [Service.advance] at hs
      split at hs
      · next hload => cases hs; exact unreported_load h hidle hload hp
      · cases hs; exact hp.2
  | unlocked found =>
      simp only [Service.advance] at hs
      split at hs
      · cases hs; exact unreported_of_found hp
      · cases hs; exact ⟨reaperGroups_bear hset.named, hp⟩
  | reaper groups found =>
      simp only [Service.advance] at hs
      split at hs
      · next hload => cases hs; exact unreported_load h hidle hload hp
      · cases hs; exact unreported_of_found hp.2
  | answered answer => cases hs

theorem Unreported.registry (hst : Steady w) {b : World.Action} (hs : w.step cfg b = some w') {stage : Stage}
    (hp : Unreported question n w.core stage) : Unreported question n w'.core stage := by
  have hborn {i : TaskId} {m : String} (hb : Bears w.core i m) : Bears w'.core i m := by
    obtain ⟨p, hp, hname⟩ := hb
    exact ⟨p, born_step hst (step_cases hs) hp, hname⟩
  cases stage with
  | asked => trivial
  | registry groups found => exact ⟨fun g hg => ⟨(hp.1 g hg).1, fun i hi => hborn ((hp.1 g hg).2 i hi)⟩, hp.2⟩
  | unlocked found => exact hp
  | reaper groups found => exact ⟨fun g hg => ⟨(hp.1 g hg).1, fun i hi => hborn ((hp.1 g hg).2 i hi)⟩, hp.2⟩
  | answered answer => exact hp

/-- What holds of every stage of a query, from its call to its return, under a
condition on the states between. -/
theorem watched_answer {R : Core → Stage → Prop} {A : Service → Prop} {s' m : Service} {v : List Service.Action}
    (hs : (machine cfg).Reachable s) (hcall : s.step cfg (.ask question) = some s')
    (hrun : (machine cfg).after s' v = some m) (hreturn : m.step cfg (.query s.nextQuery) = some t)
    (hanswer : t.queries.lookup s.nextQuery = some ⟨question, .answered answer⟩)
    (hA : ∀ u ∈ (machine cfg).visited s' v, A u) (hinit : ∀ c, R c .asked)
    (hcore : ∀ u b w stage, (machine cfg).Reachable u → A u → u.world.step cfg b = some w → R u.world.core stage →
      R w.core stage)
    (hadvance : ∀ u stage stage', (machine cfg).Reachable u → A u → R u.world.core stage →
      u.advance ⟨question, stage⟩ = some stage' → R u.world.core stage') : R t.world.core (.answered answer) := by
  have hstep {u u' : Service} {b : Service.Action} (hu : (machine cfg).Reachable u) (hAu : A u)
      (hw : Watched s.nextQuery question R u) (hb : u.step cfg b = some u') : Watched s.nextQuery question R u' :=
    hw.step hb (fun b w stage => hcore u b w stage hu hAu) fun stage stage' => hadvance u stage stage' hu hAu
  have hs' : (machine cfg).Reachable s' := .next (.ask question) hs hcall
  have hwatched : Watched s.nextQuery question R s' := by
    cases hcall
    exact ⟨Nat.lt_succ_self _, .asked, AList.lookup_insert _, hinit _⟩
  obtain ⟨hAm, hm⟩ := hs'.keeps_within hwatched (fun u b u' hu hAu _ hw hb => hstep hu hAu hw hb) hrun hA
  obtain ⟨-, stage, hlook, hR⟩ := hstep (hs'.after hrun) hAm hm hreturn
  rw [hanswer] at hlook
  cases hlook
  exact hR

theorem activity_query {s' m : Service} {v : List Service.Action} (hs : (machine cfg).Reachable s)
    (hcall : s.step cfg (.ask question) = some s') (hrun : (machine cfg).after s' v = some m)
    (hreturn : m.step cfg (.query s.nextQuery) = some t)
    (hanswer : t.queries.lookup s.nextQuery = some ⟨question, .answered answer⟩) :
    (∀ n, question.Asks n → (∃ id, ∀ u ∈ (machine cfg).visited s' v, u.Alive id n) → Reports question answer n) ∧
    (∀ n, Reports question answer n → ∃ u ∈ (machine cfg).visited s' v, ∃ id, u.Alive id n) ∧
    (question = .aliveSnapshot → ∃ names, answer = .names names ∧ names.Pairwise (· < ·)) := by
  have hsteady {u : Service} (hu : (machine cfg).Reachable u) := steady_of_reachable (registry_of_reachable hu)
  refine ⟨fun n hasks => ?_, fun n hreports => ?_, ?_⟩
  · rintro ⟨id, halive⟩
    exact watched_answer (R := Promised question id n) (A := (·.Alive id n)) hs hcall hrun hreturn hanswer
      halive (fun _ => trivial) (fun u b w stage hu hA hb hp => hp.registry (hsteady hu) hb (bears_of_alive hu hA).1)
      fun u stage stage' hu hA hp hadv => hp.advance hu hA hasks hadv
  · by_contra hnone
    have hidle : ∀ u ∈ (machine cfg).visited s' v, ∀ i, ¬ u.Alive i n := fun u hu i ha => hnone ⟨u, hu, i, ha⟩
    have hun := watched_answer (R := Unreported question n) (A := fun u => ∀ i, ¬ u.Alive i n) hs hcall hrun hreturn
      hanswer hidle (fun _ => trivial) (fun u b w stage hu _ hb hp => hp.registry (hsteady hu) hb)
      fun u stage stage' hu hA hp hadv => hp.advance hu hA hadv
    exact hun hreports
  · rintro rfl
    cases turned_of_step hreturn with
    | query key q stage hk hstage =>
        obtain ⟨asked, old⟩ := q
        rw [AList.lookup_insert] at hanswer
        cases hanswer
        obtain ⟨found, rfl⟩ := advance_answered hstage
        exact ⟨_, rfl, pairwise_sortDedup found⟩

def attemptRun : List Service.Action := addRun.map .registry ++ [.begin 1]

/-- Between the call of the query and its reads the task is removed; its actor
outlives it. -/
def handoverRun : List Service.Action :=
  (outlivedRun.drop addRun.length).map .registry ++ List.replicate 4 (.query 0)

theorem activity_query_handover :
    ∃ s s' m t answer, (machine smallConfig).after .new attemptRun = some s ∧
      s.step smallConfig (.ask (.isAlive "a")) = some s' ∧ (machine smallConfig).after s' handoverRun = some m ∧
      m.step smallConfig (.query s.nextQuery) = some t ∧
      t.queries.lookup s.nextQuery = some ⟨.isAlive "a", .answered answer⟩ ∧ m.world.core.tasks.lookup 1 = none ∧
      Reports (.isAlive "a") answer "a" := by
  obtain ⟨s, hs, hp⟩ := (Option.any_eq_true (fun s : Service => (s.step smallConfig (.ask (.isAlive "a"))).any fun s' =>
      ((machine smallConfig).visited s' handoverRun).all (fun u => decide (1 ∈ u.active ∧
        (u.world.core.actors.lookup 1).map Actor.name = some "a")) &&
      ((machine smallConfig).after s' handoverRun).any fun m => (m.step smallConfig (.query s.nextQuery)).any fun t =>
        decide (m.world.core.tasks.lookup 1 = none ∧
          t.queries.lookup s.nextQuery = some ⟨.isAlive "a", .answered (.alive true)⟩)) _).mp
    (show ((machine smallConfig).after .new attemptRun).any _ = true by decide +kernel)
  obtain ⟨s', hcall, hp⟩ := Option.any_eq_true _ _ |>.mp hp
  obtain ⟨halive, hp⟩ := Bool.and_eq_true_iff.mp hp
  obtain ⟨m, hrun, hp⟩ := Option.any_eq_true _ _ |>.mp hp
  obtain ⟨t, hreturn, hp⟩ := Option.any_eq_true _ _ |>.mp hp
  obtain ⟨hgone, hanswer⟩ := of_decide_eq_true hp
  have hreach : (machine smallConfig).Reachable s := Machine.Reachable.init.after hs
  obtain ⟨hreports, -, -⟩ := activity_query hreach hcall hrun hreturn hanswer
  refine ⟨s, s', m, t, _, hs, hcall, hrun, hreturn, hanswer, hgone, hreports "a" rfl ⟨1, fun u hu => ?_⟩⟩
  obtain ⟨hactive, hname⟩ := of_decide_eq_true (List.all_eq_true.mp halive u hu)
  obtain ⟨actor, hlook, hname⟩ := Option.map_eq_some_iff.mp hname
  exact ⟨hactive, actor, hlook, hname⟩

end Taskvisor.Registry.Activity
