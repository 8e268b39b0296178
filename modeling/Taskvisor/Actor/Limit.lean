import Mathlib.Algebra.Order.BigOperators.Group.List
import Mathlib.Algebra.Order.Group.Nat
import Taskvisor.Lib.Semaphore
import Taskvisor.Lib.Table
import Taskvisor.Lib.Usize
import Taskvisor.Runtime.Base
import Taskvisor.Actor.Bracket

namespace Taskvisor.Actor.Limit

open Lib Runtime.Base Policies.Jitter Policies.Backoff Attempt Retry Bracket

variable {F : Type} {ops : FloatOps F}

/-- A spawned actor. -/
structure Seat (ops : FloatOps F) where
  actor : TaskActor ops
  world : Retry.World

/-- All actors of one supervisor, with the semaphore they share. -/
structure World (ops : FloatOps F) where
  semaphore : Option (Semaphore TaskId)
  seats : Table TaskId (Seat ops)

/-- `acquire` polls the acquisition; `abort` drops the whole future of the
actor. -/
inductive Action (ops : FloatOps F)
  | spawn (id : TaskId) (params : TaskActorParams ops)
  | acquire (id : TaskId)
  | run (id : TaskId) (a : Retry.Action)
  | abort (id : TaskId)

/-- Decided by the semaphore, which is never closed. -/
def external : Retry.Action → Bool
  | .acquired => true
  | .closed => true
  | _ => false

def waits : Pc → Bool
  | .acquire => true
  | _ => false

namespace World

def new (maxConcurrent : Option NonZeroUsize) : World ops := ⟨maxConcurrent.map fun limit => .new limit.get, ∅⟩

/-- What the actor gives up when it keeps this much: its permit, or its place
in the line. -/
def settle (id : TaskId) (old : Retry.World) (permit waiting : Bool) (s : Semaphore TaskId) : Semaphore TaskId :=
  if old.permit && !permit then s.release
  else if waits old.pc && !waiting then s.cancel id
  else s

def acquire (id : TaskId) (seat : Seat ops) (world : Retry.World) (seats : Table TaskId (Seat ops))
    (s : Semaphore TaskId) : Option (World ops) :=
  if id ∈ s.granted then some ⟨some (s.take id), seats.insert id { seat with world }⟩
  else if id ∈ s.waiters then none
  else
    let (ready, s) := s.request id
    some ⟨some s, if ready then seats.insert id { seat with world } else seats⟩

def step (w : World ops) : Action ops → Option (World ops)
  | .spawn id params =>
      if (w.seats.lookup id).isSome then none
      else some { w with seats := w.seats.insert id ⟨⟨params, w.semaphore.isSome⟩, .new⟩ }
  | .acquire id =>
      (w.seats.lookup id).bind fun seat => w.semaphore.bind fun s =>
        (seat.world.step seat.actor .acquired).bind fun world => acquire id seat world w.seats s
  | .run id a =>
      if external a then none
      else
        (w.seats.lookup id).bind fun seat => (seat.world.step seat.actor a).map fun world =>
          { w with
            semaphore := w.semaphore.map (settle id seat.world world.permit (waits world.pc))
            seats := w.seats.insert id { seat with world } }
  | .abort id =>
      (w.seats.lookup id).map fun seat =>
        { w with
          semaphore := w.semaphore.map (settle id seat.world false false)
          seats := w.seats.erase id }

end World

def machine (ops : FloatOps F) (maxConcurrent : Option NonZeroUsize) : Machine (World ops) (Action ops) :=
  ⟨.new maxConcurrent, World.step⟩

variable {w w' : World ops} {x : Action ops} {s : Semaphore TaskId} {id k : TaskId} {seat : Seat ops} {u u' : Retry.World}
  {actor : TaskActor ops} {a : Retry.Action}

/-- What one step does while attempts are limited. -/
inductive Stepped (seats : Table TaskId (Seat ops)) (s : Semaphore TaskId) : World ops → Prop
  | spawn (id : TaskId) (params : TaskActorParams ops) (hnew : seats.lookup id = none) :
      Stepped seats s ⟨some s, seats.insert id ⟨⟨params, true⟩, .new⟩⟩
  | granted (id : TaskId) (seat : Seat ops) (hk : seats.lookup id = some seat) (hpc : seat.world.pc = .acquire)
      (hg : id ∈ s.granted) :
      Stepped seats s ⟨some (s.take id), seats.insert id { seat with world := { seat.world with permit := true, pc := .recheck } }⟩
  | ready (id : TaskId) (seat : Seat ops) (hk : seats.lookup id = some seat) (hpc : seat.world.pc = .acquire)
      (hl : id ∉ s.line) (hr : (s.request id).1 = true) :
      Stepped seats s ⟨some (s.request id).2,
        seats.insert id { seat with world := { seat.world with permit := true, pc := .recheck } }⟩
  | queued (id : TaskId) (seat : Seat ops) (hk : seats.lookup id = some seat) (hpc : seat.world.pc = .acquire)
      (hl : id ∉ s.line) (hr : (s.request id).1 = false) : Stepped seats s ⟨some (s.request id).2, seats⟩
  | ran (id : TaskId) (seat : Seat ops) (a : Retry.Action) (world : Retry.World) (hk : seats.lookup id = some seat)
      (ha : external a = false) (hs : seat.world.step seat.actor a = some world) :
      Stepped seats s ⟨some (World.settle id seat.world world.permit (waits world.pc) s),
        seats.insert id { seat with world }⟩
  | aborted (id : TaskId) (seat : Seat ops) (hk : seats.lookup id = some seat) :
      Stepped seats s ⟨some (World.settle id seat.world false false s), seats.erase id⟩

theorem acquired_step (hs : u.step actor .acquired = some u') :
    u.pc = .acquire ∧ u' = { u with permit := true, pc := .recheck } := by
  simp only [Retry.World.step] at hs
  split at hs
  · next hpc => exact ⟨hpc, (Option.some.inj hs).symm⟩
  · cases hs

theorem step_cases (hw : w.semaphore = some s) (hstep : w.step x = some w') : Stepped w.seats s w' := by
  cases x with
  | spawn id params =>
      simp only [World.step] at hstep
      split at hstep
      · cases hstep
      · next hnew =>
        obtain rfl := Option.some.inj hstep
        rw [hw]
        exact .spawn id params (by simpa using hnew)
  | acquire id =>
      obtain ⟨seat, hk, hstep⟩ := Option.bind_eq_some_iff.mp hstep
      obtain ⟨_, hs', hstep⟩ := Option.bind_eq_some_iff.mp hstep
      obtain rfl := Option.some.inj (hw.symm.trans hs')
      obtain ⟨world, ha, hstep⟩ := Option.bind_eq_some_iff.mp hstep
      obtain ⟨hpc, rfl⟩ := acquired_step ha
      simp only [World.acquire] at hstep
      split at hstep
      · next hg =>
        obtain rfl := Option.some.inj hstep
        exact .granted id seat hk hpc hg
      · next hg =>
        split at hstep
        · cases hstep
        · next hn =>
          have hl : id ∉ s.line := fun hm => (List.mem_append.mp hm).elim hg hn
          obtain rfl := Option.some.inj hstep
          cases hr : (s.request id).1 with
          | true => exact .ready id seat hk hpc hl hr
          | false => exact .queued id seat hk hpc hl hr
  | run id a =>
      simp only [World.step] at hstep
      split at hstep
      · cases hstep
      · next ha =>
        obtain ⟨seat, hk, hstep⟩ := Option.bind_eq_some_iff.mp hstep
        obtain ⟨world, hs, rfl⟩ := Option.map_eq_some_iff.mp hstep
        rw [hw]
        exact .ran id seat a world hk (by simpa using ha) hs
  | abort id =>
      obtain ⟨seat, hk, rfl⟩ := Option.map_eq_some_iff.mp hstep
      rw [hw]
      exact .aborted id seat hk

section Permit

theorem waits_iff {pc : Pc} : waits pc = true ↔ pc = .acquire := by cases pc <;> simp [waits]

theorem acquire_step (hpc : u.pc = .acquire) (ha : external a = false) (hs : u.step actor a = some u') :
    u' = { u with token := true } ∨ u' = u.quit := by
  cases a with
  | acquired | closed => cases ha
  | cancel => exact .inl (Option.some.inj hs).symm
  | canceled =>
      simp only [Retry.World.step, hpc] at hs
      split at hs
      · exact .inr (Option.some.inj hs).symm
      · cases hs
  | _ => simp [Retry.World.step, hpc] at hs

theorem acquire_permit (hr : (Retry.machine actor).Reachable u) (hpc : u.pc = .acquire) : u.permit = false := by
  rw [(held hr).permit, hpc]
  exact Bool.and_false _

/-- Only the semaphore hands an actor a permit. -/
theorem permit_step (hr : (Retry.machine actor).Reachable u) (hlimited : actor.semaphore = true)
    (ha : external a = false) (hs : u.step actor a = some u') (hp : u'.permit = true) : u.permit = true := by
  have hold := (held hr).permit
  have hnew := (held (.next a hr hs)).permit
  rw [hlimited, Bool.true_and] at hold hnew
  by_cases hpc : u.pc = .acquire
  · obtain rfl | rfl := acquire_step hpc ha hs
    · exact hp
    · cases hp
  · rw [hp] at hnew
    cases turn_of_step hs with
    | cancel => exact hp
    | acquired hx | closed hx => exact absurd hx hpc
    | quit | queue | sleep | wake => cases hnew
    | pass _ hfree => rw [hlimited] at hfree; cases hfree
    | start hx | attempt hx | conclude hx => rw [hold, hx]; rfl

end Permit

def grip (u : Retry.World) : Nat := if u.permit then 1 else 0

/-- The permits that actors hold. -/
def gripped (seats : Table TaskId (Seat ops)) : Nat := Table.total (fun seat => grip seat.world) seats

/-- The attempts that are under way. -/
def running (seats : Table TaskId (Seat ops)) : Nat := Table.total (fun seat => if seat.world.pc.holds then 1 else 0) seats

structure Sound (limit : Nat) (seats : Table TaskId (Seat ops)) (s : Semaphore TaskId) : Prop where
  units : s.units + gripped seats = limit
  fair : s.Fair
  line : ∀ id ∈ s.line, ∃ seat, seats.lookup id = some seat ∧ seat.world.pc = .acquire
  actors : ∀ id seat, seats.lookup id = some seat →
    seat.actor.semaphore = true ∧ (Retry.machine seat.actor).Reachable seat.world

section Settle

variable {permit waiting : Bool}

theorem settle_units (hp : permit = true → u.permit = true) :
    (World.settle id u permit waiting s).units + (if permit then 1 else 0) = s.units + grip u := by
  unfold World.settle grip
  cases permit with
  | true =>
      rw [hp rfl]
      split
      · next h => cases h
      · split
        · rw [Semaphore.units_cancel]
        · rfl
  | false =>
      cases hu : u.permit with
      | true => exact Semaphore.units_release s
      | false =>
          split
          · next h => cases h
          · split
            · rw [Semaphore.units_cancel]
            · rfl

theorem settle_fair (h : s.Fair) : (World.settle id u permit waiting s).Fair := by
  unfold World.settle
  split
  · exact h.release
  · split
    · exact h.cancel
    · exact h

theorem settle_line (hk : k ∈ (World.settle id u permit waiting s).line) : k ∈ s.line := by
  unfold World.settle at hk
  split at hk
  · exact Semaphore.line_release s ▸ hk
  · split at hk
    · rw [Semaphore.line_cancel] at hk
      exact List.mem_of_mem_erase hk
    · exact hk

/-- Who stops to wait leaves the line. -/
theorem settle_left (h : s.Fair) (hu : u.permit = false) (hpc : u.pc = .acquire) :
    id ∉ (World.settle id u permit false s).line := by
  unfold World.settle
  rw [hu, hpc]
  exact fun hm => (List.Nodup.mem_erase_iff h.once).mp (Semaphore.line_cancel s id ▸ hm) |>.1 rfl

end Settle

section Sound

variable {limit : Nat} {seats : Table TaskId (Seat ops)}

theorem Sound.new (limit : Nat) : Sound limit (∅ : Table TaskId (Seat ops)) (.new limit) where
  units := rfl
  fair := Semaphore.fair_new limit
  line := fun id h => by cases h
  actors := fun id seat h => by cases h

theorem gripped_insert (hk : seats.lookup id = some seat) (other : Seat ops) :
    gripped (seats.insert id other) + grip seat.world = gripped seats + grip other.world := Table.total_update _ hk other

theorem gripped_erase (hk : seats.lookup id = some seat) : gripped seats = grip seat.world + gripped (seats.erase id) :=
  Table.total_of_lookup _ hk

/-- The seat of an actor that moved. -/
theorem actors_insert (h : ∀ id seat, seats.lookup id = some seat →
      seat.actor.semaphore = true ∧ (Retry.machine seat.actor).Reachable seat.world)
    (hseat : seat.actor.semaphore = true ∧ (Retry.machine seat.actor).Reachable seat.world) :
    ∀ id' seat', (seats.insert id seat).lookup id' = some seat' →
      seat'.actor.semaphore = true ∧ (Retry.machine seat'.actor).Reachable seat'.world := by
  intro id' seat' hk
  obtain ⟨rfl, rfl⟩ | ⟨-, hk⟩ := Table.of_lookup_insert hk
  · exact hseat
  · exact h id' seat' hk

theorem Sound.spawn (h : Sound limit seats s) (hnew : seats.lookup id = none) (params : TaskActorParams ops) :
    Sound limit (seats.insert id ⟨⟨params, true⟩, .new⟩) s where
  units := by
    rw [gripped, Table.total_insert_of_none _ hnew]
    exact h.units
  fair := h.fair
  line := fun k hk => by
    obtain ⟨seat, hl, hpc⟩ := h.line k hk
    have hne : k ≠ id := by
      rintro rfl
      rw [hnew] at hl
      cases hl
    exact ⟨seat, by rwa [AList.lookup_insert_ne hne], hpc⟩
  actors := actors_insert h.actors ⟨rfl, .init⟩

/-- An actor in the line gets its permit. -/
theorem Sound.acquired (h : Sound limit seats s) {t : Semaphore TaskId} (hk : seats.lookup id = some seat)
    (hpc : seat.world.pc = .acquire) (hunits : t.units + 1 = s.units) (hfair : t.Fair) (hline : t.line = s.line.erase id) :
    Sound limit (seats.insert id { seat with world := { seat.world with permit := true, pc := .recheck } }) t where
  units := by
    obtain ⟨-, hr⟩ := h.actors id seat hk
    have htotal : gripped (seats.insert id { seat with world := { seat.world with permit := true, pc := .recheck } }) +
        grip seat.world = gripped seats + 1 := gripped_insert hk _
    have hold : grip seat.world = 0 := by rw [grip, acquire_permit hr hpc]; rfl
    have hsum := h.units
    omega
  fair := hfair
  line := fun k hm => by
    rw [hline, List.Nodup.mem_erase_iff h.fair.once] at hm
    obtain ⟨other, hl, hw⟩ := h.line k hm.2
    exact ⟨other, by rwa [AList.lookup_insert_ne hm.1], hw⟩
  actors := by
    obtain ⟨hlimited, hr⟩ := h.actors id seat hk
    refine actors_insert h.actors ⟨hlimited, .next .acquired hr ?_⟩
    simp only [Retry.machine, Retry.World.step, hpc]

theorem Sound.queued (h : Sound limit seats s) {t : Semaphore TaskId} (hk : seats.lookup id = some seat)
    (hpc : seat.world.pc = .acquire) (hunits : t.units = s.units) (hfair : t.Fair) (hline : t.line = s.line ++ [id]) :
    Sound limit seats t where
  units := hunits ▸ h.units
  fair := hfair
  line := fun k hm => by
    rw [hline, List.mem_append] at hm
    obtain hm | hm := hm
    · exact h.line k hm
    · obtain rfl := List.mem_singleton.mp hm
      exact ⟨seat, hk, hpc⟩
  actors := h.actors

theorem Sound.ran (h : Sound limit seats s) (hk : seats.lookup id = some seat) (ha : external a = false)
    (hs : seat.world.step seat.actor a = some u) :
    Sound limit (seats.insert id { seat with world := u }) (World.settle id seat.world u.permit (waits u.pc) s) where
  units := by
    obtain ⟨hlimited, hr⟩ := h.actors id seat hk
    have htotal : gripped (seats.insert id { seat with world := u }) + grip seat.world = gripped seats + grip u :=
      gripped_insert hk _
    have hunits : (World.settle id seat.world u.permit (waits u.pc) s).units + grip u = s.units + grip seat.world :=
      settle_units (permit_step hr hlimited ha hs)
    have hsum := h.units
    omega
  fair := settle_fair h.fair
  line := fun k hm => by
    obtain ⟨other, hl, hw⟩ := h.line k (settle_line hm)
    by_cases hne : k = id
    · subst hne
      obtain rfl := Option.some.inj (hk.symm.trans hl)
      refine ⟨_, AList.lookup_insert _, ?_⟩
      by_contra hleft
      have hno : waits u.pc = false := by
        rw [← Bool.not_eq_true, waits_iff]
        exact hleft
      rw [hno] at hm
      obtain rfl | rfl := acquire_step hw ha hs
      · exact hleft hw
      · exact settle_left h.fair (acquire_permit (h.actors k _ hk).2 hw) hw hm
    · exact ⟨other, by rwa [AList.lookup_insert_ne hne], hw⟩
  actors := by
    obtain ⟨hlimited, hr⟩ := h.actors id seat hk
    exact actors_insert h.actors ⟨hlimited, .next a hr hs⟩

theorem Sound.aborted (h : Sound limit seats s) (hk : seats.lookup id = some seat) :
    Sound limit (seats.erase id) (World.settle id seat.world false false s) where
  units := by
    have hunits : (World.settle id seat.world false false s).units + 0 = s.units + grip seat.world :=
      settle_units (fun hp => by cases hp)
    have hsum := h.units
    rw [gripped_erase hk] at hsum
    omega
  fair := settle_fair h.fair
  line := fun k hm => by
    obtain ⟨other, hl, hw⟩ := h.line k (settle_line hm)
    have hne : k ≠ id := by
      rintro rfl
      obtain rfl := Option.some.inj (hk.symm.trans hl)
      exact settle_left h.fair (acquire_permit (h.actors k _ hk).2 hw) hw hm
    exact ⟨other, by rwa [AList.lookup_erase_ne hne], hw⟩
  actors := fun k other hl => h.actors k other (Table.of_lookup_erase hl).2

theorem Sound.step (h : Sound limit seats s) (hs : Stepped seats s w') :
    ∃ t, w'.semaphore = some t ∧ Sound limit w'.seats t := by
  cases hs with
  | spawn id params hnew => exact ⟨_, rfl, h.spawn hnew params⟩
  | granted id seat hk hpc hg =>
      exact ⟨_, rfl, h.acquired hk hpc (Semaphore.units_take hg) (h.fair.take hg) (Semaphore.line_take hg)⟩
  | ready id seat hk hpc hl hr =>
      have hunits := Semaphore.units_request s id
      have hline := Semaphore.line_request s id
      rw [if_pos hr] at hunits hline
      exact ⟨_, rfl, h.acquired hk hpc hunits.symm (h.fair.request hl) (hline.trans (List.erase_of_not_mem hl).symm)⟩
  | queued id seat hk hpc hl hr =>
      have hunits := Semaphore.units_request s id
      have hline := Semaphore.line_request s id
      rw [if_neg (by simp [hr])] at hunits hline
      exact ⟨_, rfl, h.queued hk hpc hunits.symm (h.fair.request hl) hline⟩
  | ran id seat a u hk ha hs => exact ⟨_, rfl, h.ran hk ha hs⟩
  | aborted id seat hk => exact ⟨_, rfl, h.aborted hk⟩

end Sound

section Reachable

variable {limit : NonZeroUsize}

theorem sound_of_reachable (hw : (machine ops (some limit)).Reachable w) :
    ∃ s, w.semaphore = some s ∧ Sound limit.get w.seats s := by
  refine hw.invariant (P := fun w => ∃ s, w.semaphore = some s ∧ Sound limit.get w.seats s) ⟨_, rfl, .new limit.get⟩ ?_
  rintro w x w' - ⟨s, hs, h⟩ hstep
  exact h.step (step_cases hs hstep)

/-- An attempt under way holds a permit. -/
theorem running_le {seats : Table TaskId (Seat ops)} (h : Sound limit.get seats s) : running seats ≤ gripped seats := by
  refine List.sum_le_sum fun seat hm => ?_
  obtain ⟨id, hk⟩ := Table.mem_values.mp hm
  obtain ⟨hlimited, hr⟩ := h.actors id seat hk
  split
  · next hh =>
    have hp := ((held hr).released hh).2
    rw [grip, hp, hlimited]
    rfl
  · exact Nat.zero_le _

/-- Across all actors of a supervisor never more attempts are under way than
permits, no permit is lost or made, and none stays free while an actor waits. -/
theorem concurrency_limit (hw : (machine ops (some limit)).Reachable w) :
    ∃ s, w.semaphore = some s ∧ running w.seats ≤ limit.get ∧
      s.available + s.granted.length + gripped w.seats = limit.get ∧ (s.waiters ≠ [] → s.available = 0) ∧
      ((∀ id seat, w.seats.lookup id = some seat → seat.world.pc.ended = true) → s.available = limit.get) ∧
      ∀ id seat, w.seats.lookup id = some seat →
        (Retry.machine seat.actor).Reachable seat.world ∧ seat.world.permit = Pc.permits seat.world.pc := by
  obtain ⟨s, hs, h⟩ := sound_of_reachable hw
  have hunits : s.available + s.granted.length + gripped w.seats = limit.get := h.units
  have hrunning := running_le h
  have hpermit : ∀ id seat, w.seats.lookup id = some seat → seat.world.permit = Pc.permits seat.world.pc := by
    intro id seat hk
    obtain ⟨hlimited, hr⟩ := h.actors id seat hk
    rw [(held hr).permit, hlimited, Bool.true_and]
  refine ⟨s, hs, by omega, hunits, h.fair.empty, fun hended => ?_, fun id seat hk => ⟨(h.actors id seat hk).2, hpermit id seat hk⟩⟩
  have hline : s.line = [] := by
    by_contra hne
    obtain ⟨id, hm⟩ := List.exists_mem_of_ne_nil _ hne
    obtain ⟨seat, hk, hpc⟩ := h.line id hm
    have hx := hended id seat hk
    rw [hpc] at hx
    cases hx
  have hgranted : s.granted = [] := (List.append_eq_nil_iff.mp hline).1
  have hgripped : gripped w.seats = 0 := by
    refine List.sum_eq_zero fun n hn => ?_
    obtain ⟨seat, hm, rfl⟩ := List.mem_map.mp hn
    obtain ⟨id, hk⟩ := Table.mem_values.mp hm
    have hx := hended id seat hk
    have hp := hpermit id seat hk
    have hfree : Pc.permits seat.world.pc = false := by
      cases hpc : seat.world.pc with
      | done reason => rfl
      | _ => rw [hpc] at hx; cases hx
    change (if seat.world.permit = true then 1 else 0) = 0
    rw [hp, hfree]
    rfl
  rw [hgranted, hgripped] at hunits
  exact hunits

theorem settle_place {k : TaskId} {permit waiting : Bool} (hk : k ∈ s.waiters)
    (hk' : k ∈ (World.settle id u permit waiting s).waiters) (h : s.Fair) :
    (World.settle id u permit waiting s).place k ≤ s.place k := by
  unfold World.settle at hk' ⊢
  split
  · next hp =>
    rw [if_pos hp] at hk'
    exact Nat.le_of_eq (Semaphore.place_release hk hk' h)
  · next hp =>
    rw [if_neg hp] at hk'
    split
    · next hw =>
      rw [if_pos hw] at hk'
      refine Semaphore.place_cancel hk hk' h ?_
      rintro rfl
      have hline : id ∈ (s.cancel id).line := List.mem_append_right _ hk'
      rw [Semaphore.line_cancel] at hline
      exact (List.Nodup.mem_erase_iff h.once).mp hline |>.1 rfl
    · exact Nat.le_refl _

theorem settle_returned (id : TaskId) (u : Retry.World) (permit waiting : Bool) (s : Semaphore TaskId) :
    s.returned ≤ (World.settle id u permit waiting s).returned := by
  unfold World.settle
  split
  · rw [Semaphore.release_returned]
    exact Nat.le_succ _
  · split
    · exact Semaphore.returned_cancel s id
    · exact Nat.le_refl _

theorem returned_step {seats : Table TaskId (Seat ops)} {t : Semaphore TaskId} (hs : Stepped seats s w')
    (ht : w'.semaphore = some t) : s.returned ≤ t.returned := by
  cases hs with
  | spawn | granted =>
      obtain rfl := Option.some.inj ht
      exact Nat.le_refl _
  | ready | queued =>
      obtain rfl := Option.some.inj ht
      exact Nat.le_of_eq (Semaphore.request_returned s _).symm
  | ran | aborted =>
      obtain rfl := Option.some.inj ht
      exact settle_returned _ _ _ _ s

theorem place_step {seats : Table TaskId (Seat ops)} {t : Semaphore TaskId} (h : s.Fair) (hs : Stepped seats s w')
    (ht : w'.semaphore = some t) (hk : k ∈ s.waiters) (hk' : k ∈ t.waiters) : t.place k ≤ s.place k := by
  cases hs with
  | spawn | granted =>
      obtain rfl := Option.some.inj ht
      exact Nat.le_refl _
  | ready | queued =>
      obtain rfl := Option.some.inj ht
      exact Nat.le_of_eq (Semaphore.place_request hk _)
  | ran | aborted =>
      obtain rfl := Option.some.inj ht
      exact settle_place hk hk' h

/-- The actor is in the line without a permit. -/
def Waiting (w : World ops) (id : TaskId) : Prop := ∃ s, w.semaphore = some s ∧ id ∈ s.waiters

instance (w : World ops) (id : TaskId) : Decidable (Waiting w id) :=
  decidable_of_iff (w.semaphore.any fun s => decide (id ∈ s.waiters)) (by simp [Waiting, Option.any_eq_true])

/-- The first of three actors gets the only permit, the others queue up. -/
def queueRun : List (Action wholeFactors) :=
  [.spawn 1 restarting.params, .spawn 2 restarting.params, .spawn 3 restarting.params, .run 1 .head, .run 2 .head,
    .run 3 .head, .acquire 1, .acquire 2, .acquire 3, .run 1 .recheck]

theorem concurrency_limit_queue :
    ∃ w, (machine wholeFactors (some .one)).after (.new (some .one)) queueRun = some w ∧ running w.seats = 1 ∧
      ∃ s, w.semaphore = some s ∧ running w.seats ≤ 1 ∧ (s.waiters ≠ [] → s.available = 0) := by
  obtain ⟨w, hw, hone⟩ : ∃ w, (machine wholeFactors (some .one)).after (.new (some .one)) queueRun = some w ∧
      running w.seats = 1 := ⟨_, rfl, rfl⟩
  obtain ⟨s, hs, hle, -, hbusy, -⟩ := concurrency_limit (Machine.Reachable.after (M := machine _ _) .init hw)
  exact ⟨w, hw, hone, s, hs, hle, hbusy⟩

def finishRun : List (Action wholeFactors) := (success.drop 2).map (.run 1) ++ [.acquire 2]

end Reachable

end Taskvisor.Actor.Limit
