import Taskvisor.Registry.Moves

namespace Taskvisor.Registry.Names

open Lib Runtime.Base Reaper State Lifecycle Moves

variable {c c' : Core} {s t : PreparedRegistration} {id id' : TaskId} {key : Nat} {o : Owner} {r : Reap} {n : String}

/-- The identity keeps its name from others: it is a member, or its actor is
being reaped. -/
def Occupied (c : Core) (id : TaskId) : Prop := (c.tasks.lookup id).isSome ∨ (c.reaper.records.lookup id).isSome

structure Named (c : Core) : Prop where
  index : ∀ n id, c.byName.lookup n = some id ↔ (c.tasks.lookup id).map Entry.name = some n
  reserved : ∀ n activities, c.reaper.byName.lookup n = some activities ↔
    ∃ id s, c.born.lookup id = some s ∧ s.name = n ∧ (c.reaper.records.lookup id).isSome ∧
      activities = [⟨id, s.completion⟩]
  apart : ∀ id id' s s', c.born.lookup id = some s → c.born.lookup id' = some s' → Occupied c id → Occupied c id' →
    s.name = s'.name → id = id'

theorem entry_seed (h : Sound c) {e : Entry} (he : c.tasks.lookup id = some e) :
    ∃ s, c.born.lookup id = some s ∧ s.id = id ∧ e.name = s.name := by
  obtain ⟨s, hs, rfl⟩ := h.born_of_view id fun hb => by
    have hnone : c.tasks.lookup id = none := hb.entry
    rw [he] at hnone
    cases hnone
  refine ⟨s, hs, rfl, ?_⟩
  obtain ⟨-, phase, hm, -⟩ := h.life _ _ hs
  have hv : (view c s.id).entry = some e := he
  cases hm with
  | registered entry _ _ _ _ _ => rw [entry] at hv; cases hv; rfl
  | owned key o claimant owners claims latch owned =>
      rw [owned.entry] at hv
      split at hv
      · cases hv; rfl
      · cases hv
  | gone _ entry _ _ _ _ _ _ => rw [entry] at hv; cases hv

theorem record_seed (h : Sound c) (hr : (c.reaper.records.lookup id).isSome) : ∃ s, c.born.lookup id = some s := by
  obtain ⟨s, hs, -⟩ := h.born_of_view id fun hb => by
    have hnone : c.reaper.records.lookup id = none := hb.records
    rw [hnone] at hr
    cases hr
  exact ⟨s, hs⟩

theorem Named.new : Named Core.new := by
  refine ⟨fun n id => ?_, fun n activities => ?_, fun id id' s s' hs => ?_⟩
  · simp [Core.new]
  · simp [Core.new]
  · simp [Core.new] at hs

/-- The names stay in order and no identity comes to occupy one. -/
structure Narrowed (c c' : Core) : Prop where
  named : Named c'
  born : c'.born = c.born
  occupied : ∀ id, Occupied c' id → Occupied c id

theorem Narrowed.trans {c'' : Core} (h : Narrowed c c') (h' : Narrowed c' c'') : Narrowed c c'' :=
  ⟨h'.named, h'.born.trans h.born, fun id ho => h.occupied id (h'.occupied id ho)⟩

/-- Membership, reservations and their names stay as they are. -/
theorem Named.congr (h : Named c) (hborn : c'.born = c.born) (hbyName : c'.byName = c.byName)
    (htasks : ∀ id, (c'.tasks.lookup id).map Entry.name = (c.tasks.lookup id).map Entry.name)
    (hreserved : c'.reaper.byName = c.reaper.byName)
    (hrecords : ∀ id, (c'.reaper.records.lookup id).isSome = (c.reaper.records.lookup id).isSome) : Narrowed c c' := by
  have hocc : ∀ id, Occupied c' id → Occupied c id := by
    intro id ho
    have hsome : (c'.tasks.lookup id).isSome = (c.tasks.lookup id).isSome := by
      simpa only [Option.isSome_map] using congrArg Option.isSome (htasks id)
    unfold Occupied at ho ⊢
    rwa [hsome, hrecords] at ho
  refine ⟨⟨fun n id => ?_, fun n activities => ?_, fun id id' s s' hs hs' ho ho' => ?_⟩, hborn, hocc⟩
  · rw [hbyName, htasks]; exact h.index n id
  · rw [hreserved, h.reserved, hborn]
    simp only [hrecords]
  · rw [hborn] at hs hs'
    exact h.apart id id' s s' hs hs' (hocc id ho) (hocc id' ho')

section

variable (h : Named c)

include h

/-- Terminal commit takes a member out of both indexes. -/
theorem Named.remove {e : Entry} (he : c.tasks.lookup id = some e) :
    c.byName.lookup e.name = some id ∧
      Narrowed c { c with tasks := c.tasks.erase id, byName := c.byName.erase e.name } := by
  have hown : c.byName.lookup e.name = some id := (h.index e.name id).mpr (by rw [he]; rfl)
  have hocc : ∀ i, Occupied { c with tasks := c.tasks.erase id, byName := c.byName.erase e.name } i → Occupied c i := by
    rintro i (ht | hr)
    · refine .inl ?_
      change ((c.tasks.erase id).lookup i).isSome at ht
      rw [Table.lookup_erase_ite] at ht
      split at ht
      · cases ht
      · exact ht
    · exact .inr hr
  refine ⟨hown, ⟨fun n i => ?_, h.reserved, fun i j u v hu hv ho ho' => ?_⟩, rfl, hocc⟩
  swap
  · exact h.apart i j u v hu hv (hocc i ho) (hocc j ho')
  change (c.byName.erase e.name).lookup n = some i ↔ ((c.tasks.erase id).lookup i).map Entry.name = some n
  rw [Table.lookup_erase_ite, Table.lookup_erase_ite]
  by_cases hn : n = e.name <;> by_cases hi : i = id
  · simp [hn, hi]
  · have hno : (c.tasks.lookup i).map Entry.name ≠ some e.name := fun hx => by
      rw [← h.index, hown] at hx
      exact hi (Option.some.inj hx).symm
    simp only [hn, hi, if_true, if_false]
    exact ⟨fun hx => (nomatch hx), fun hx => absurd hx hno⟩
  · have hno : c.byName.lookup n ≠ some id := fun hx => by
      rw [h.index, he] at hx
      exact hn (Option.some.inj hx).symm
    simp only [hn, hi, if_true, if_false, Option.map_none]
    exact ⟨fun hx => absurd hx hno, fun hx => (nomatch hx)⟩
  · simp [hn, hi, h.index]

/-- The rendezvous releases record and reservation together. -/
theorem Named.release (hborn : c.born.lookup s.id = some s) (hrecord : (c.reaper.records.lookup s.id).isSome)
    {records : Table TaskId (List ReaperRecord)}
    (hrecords : ∀ i, records.lookup i = if i = s.id then none else c.reaper.records.lookup i) :
    Narrowed c { c with reaper := { c.reaper.release s.id s.name s.completion with records } } := by
  have hown : c.reaper.byName.lookup s.name = some [⟨s.id, s.completion⟩] :=
    (h.reserved _ _).mpr ⟨s.id, s, hborn, rfl, hrecord, rfl⟩
  have hby : ∀ n, (c.reaper.release s.id s.name s.completion).byName.lookup n =
      if n = s.name then none else c.reaper.byName.lookup n := by
    intro n
    have hempty : (c.reaper.release s.id s.name s.completion).byName = c.reaper.byName.erase s.name := by
      simp [ReaperState.release, hown]
    rw [hempty, Table.lookup_erase_ite]
  have hocc : ∀ i, Occupied { c with reaper := { c.reaper.release s.id s.name s.completion with records } } i →
      Occupied c i := by
    rintro i (ht | hr)
    · exact .inl ht
    · refine .inr ?_
      change (records.lookup i).isSome at hr
      rw [hrecords] at hr
      split at hr
      · cases hr
      · exact hr
  refine ⟨⟨h.index, fun n activities => ?_, fun i j u v hu hv ho ho' => ?_⟩, rfl, hocc⟩
  swap
  · exact h.apart i j u v hu hv (hocc i ho) (hocc j ho')
  rw [hby]
  constructor
  · intro hx
    split at hx
    · cases hx
    · next hne =>
      obtain ⟨i, u, hu, hn, hr, ha⟩ := (h.reserved _ _).mp hx
      have hi : i ≠ s.id := by
        rintro rfl
        rw [hborn] at hu
        cases hu
        exact hne hn.symm
      exact ⟨i, u, hu, hn, by rw [hrecords, if_neg hi]; exact hr, ha⟩
  · rintro ⟨i, u, hu, hn, hr, rfl⟩
    change (records.lookup i).isSome at hr
    rw [hrecords] at hr
    split at hr
    · cases hr
    · next hi =>
      have hne : n ≠ s.name := fun hx => hi (h.apart i s.id u s hu hborn (.inr hr) (.inr hrecord) (hn.trans hx))
      rw [if_neg hne]
      exact (h.reserved _ _).mpr ⟨i, u, hu, hn, hr, rfl⟩

end

section

variable (hs : Sound c) (h : Named c)

include hs h

/-- A member's name is reserved by nobody else. -/
theorem Named.member_apart {e : Entry} (he : c.tasks.lookup id = some e) (hborn : c.born.lookup id' = some t)
    (ho : Occupied c id') (hn : t.name = e.name) : id' = id := by
  obtain ⟨s, hb, -, hname⟩ := entry_seed hs he
  exact h.apart id' id t s hborn hb ho (.inl (Option.isSome_iff_exists.mpr ⟨e, he⟩)) (hn.trans hname)

/-- `insertEntry` under a name that neither map holds. -/
theorem Named.insertEntry (hid : c.born.lookup s.id = none) (hfree : c.byName.lookup s.name = none)
    (hunreserved : c.reaper.byName.lookup s.name = none) : Named (c.insertEntry s) := by
  have hblank := hs.blank s.id hid
  have htask : c.tasks.lookup s.id = none := hblank.entry
  have hrecord : c.reaper.records.lookup s.id = none := hblank.records
  have hborn : ∀ i, (c.insertEntry s).born.lookup i = if i = s.id then some s else c.born.lookup i :=
    fun i => Table.lookup_insert_ite _ _ _ _
  have hvacant : ∀ i u, c.born.lookup i = some u → Occupied c i → u.name ≠ s.name := by
    intro i u hu ho hname
    rcases ho with ht | hr
    · obtain ⟨e, he⟩ := Option.isSome_iff_exists.mp ht
      obtain ⟨u', hu', -, hn⟩ := entry_seed hs he
      rw [hu] at hu'
      cases hu'
      have hin := (h.index s.name i).mpr (by rw [he]; exact congrArg some (hn.trans hname))
      rw [hfree] at hin
      cases hin
    · have hin := (h.reserved s.name [⟨i, u.completion⟩]).mpr ⟨i, u, hu, hname, hr, rfl⟩
      rw [hunreserved] at hin
      cases hin
  have hold : ∀ i, i ≠ s.id → (Occupied (c.insertEntry s) i ↔ Occupied c i) := by
    intro i hne
    unfold Occupied
    rw [show (c.insertEntry s).tasks.lookup i = c.tasks.lookup i from AList.lookup_insert_ne hne]
    rfl
  refine ⟨fun n i => ?_, fun n activities => ?_, fun i j u v hu hv ho ho' hname => ?_⟩
  · change (c.byName.insert s.name s.id).lookup n = some i ↔ ((c.tasks.insert s.id _).lookup i).map Entry.name = some n
    rw [Table.lookup_insert_ite, Table.lookup_insert_ite]
    by_cases hn : n = s.name <;> by_cases hi : i = s.id
    · simp [hn, hi]
    · have hno : (c.tasks.lookup i).map Entry.name ≠ some n := fun he => by
        rw [← h.index, hn, hfree] at he
        cases he
      simp [hn, hi, Ne.symm hi, hn ▸ hno]
    · have hno : c.byName.lookup n ≠ some s.id := fun he => by
        rw [h.index, htask] at he
        cases he
      simp [hn, hi, Ne.symm hn, hno]
    · simp [hn, hi, h.index]
  · change c.reaper.byName.lookup n = some activities ↔ _
    rw [h.reserved]
    constructor
    · rintro ⟨i, u, hu, hn, hr, ha⟩
      have hne : i ≠ s.id := fun he => by rw [he, hid] at hu; cases hu
      exact ⟨i, u, by rw [hborn, if_neg hne, hu], hn, hr, ha⟩
    · rintro ⟨i, u, hu, hn, hr, ha⟩
      have hr : (c.reaper.records.lookup i).isSome := hr
      rw [hborn] at hu
      split at hu
      · next he => rw [he, hrecord] at hr; cases hr
      · exact ⟨i, u, hu, hn, hr, ha⟩
  · rw [hborn] at hu hv
    split at hu <;> split at hv
    · next hi hj => exact hi.trans hj.symm
    · next hj =>
      cases hu
      exact absurd hname.symm (hvacant j v hv ((hold j hj).mp ho'))
    · next hi _ =>
      cases hv
      exact absurd hname (hvacant i u hu ((hold i hi).mp ho))
    · next hi hj => exact h.apart i j u v hu hv ((hold i hi).mp ho) ((hold j hj).mp ho') hname

/-- A force-abort reserves the name of a member for its actor. -/
theorem Named.register (he : c.tasks.lookup s.id = some ⟨s.name, .removing s.completion⟩)
    (hborn : c.born.lookup s.id = some s) (hrecord : c.reaper.records.lookup s.id = none) :
    Narrowed c { c with reaper := c.reaper.register s.id s.name s.completion } := by
  have hfree : c.reaper.byName.lookup s.name = none := by
    cases hx : c.reaper.byName.lookup s.name with
    | none => rfl
    | some activities =>
        obtain ⟨i, u, hu, hn, hr, -⟩ := (h.reserved _ _).mp hx
        rw [h.member_apart hs he hu (.inr hr) hn, hrecord] at hr
        cases hr
  have hrec : ∀ i, (c.reaper.register s.id s.name s.completion).records.lookup i =
      if i = s.id then some [⟨s.name, false, false, s.completion, none, none, false⟩] else c.reaper.records.lookup i := by
    intro i
    change (c.reaper.records.insert s.id _).lookup i = _
    rw [Table.lookup_insert_ite, hrecord]
    rfl
  have hocc : ∀ i, Occupied { c with reaper := c.reaper.register s.id s.name s.completion } i → Occupied c i := by
    rintro i (ht | hr)
    · exact .inl ht
    · change ((c.reaper.register s.id s.name s.completion).records.lookup i).isSome at hr
      rw [hrec] at hr
      split at hr
      · next hi => exact .inl (by rw [hi, he]; rfl)
      · exact .inr hr
  refine ⟨⟨h.index, fun n activities => ?_, fun i j u v hu hv ho ho' => ?_⟩, rfl, hocc⟩
  swap
  · exact h.apart i j u v hu hv (hocc i ho) (hocc j ho')
  have hby : (c.reaper.register s.id s.name s.completion).byName.lookup n =
      if n = s.name then some [⟨s.id, s.completion⟩] else c.reaper.byName.lookup n := by
    change (c.reaper.byName.insert s.name _).lookup n = _
    rw [Table.lookup_insert_ite, hfree]
    rfl
  rw [hby]
  constructor
  · intro hx
    split at hx
    · next hn => cases hx; exact ⟨s.id, s, hborn, hn.symm, by rw [hrec, if_pos rfl]; rfl, rfl⟩
    · obtain ⟨i, u, hu, hn, hr, ha⟩ := (h.reserved _ _).mp hx
      refine ⟨i, u, hu, hn, ?_, ha⟩
      rw [hrec]
      split
      · rfl
      · exact hr
  · rintro ⟨i, u, hu, hn, hr, rfl⟩
    rw [hrec] at hr
    split at hr
    · next hi =>
      subst hi
      have hu : c.born.lookup s.id = some u := hu
      rw [hborn] at hu
      cases hu
      rw [if_pos hn.symm]
    · next hi =>
      rw [if_neg fun hx => hi (h.member_apart hs he hu (.inr hr) (hn.trans hx))]
      exact (h.reserved _ _).mpr ⟨i, u, hu, hn, hr, rfl⟩

end

/-- Nothing that names depend on changes. -/
theorem Named.keep (h : Named c) (hborn : c'.born = c.born) (hbyName : c'.byName = c.byName) (htasks : c'.tasks = c.tasks)
    (hreaper : c'.reaper = c.reaper) : Narrowed c c' :=
  h.congr hborn hbyName (fun _ => by rw [htasks]) (by rw [hreaper]) (fun _ => by rw [hreaper])

theorem erase_insert_lookup (records : Table TaskId (List ReaperRecord)) (id : TaskId) (l : List ReaperRecord) (i : TaskId) :
    ((records.insert id l).erase id).lookup i = if i = id then none else records.lookup i := by
  rw [Table.lookup_erase_ite]
  split
  · rfl
  · next hi => rw [Table.lookup_insert_ite, if_neg hi]

section Owners

variable (hs : Sound c) (h : Named c) (hk : c.owners.lookup key = some o)

include hs h hk

theorem Named.locking {outcome : TaskOutcome} (hstage : o.stage = .locking outcome) : Narrowed c (c.commit key o outcome) := by
  obtain ⟨s, isEmpty, hid, hh, heq⟩ := commit_eq hs hk hstage
  have he : c.tasks.lookup s.id = some ⟨s.name, .removing s.completion⟩ := by
    rw [show c.tasks.lookup s.id = _ from hh.owned.entry, hstage]
    rfl
  obtain ⟨hown, hnamed⟩ := h.remove he
  rw [heq, if_pos hown]
  exact hnamed.trans (hnamed.named.keep rfl rfl rfl rfl)

theorem Named.abort (hstage : o.stage = .joining) : Narrowed c (c.abort key o) := by
  obtain ⟨s, hid, hh⟩ := hs.holding hk
  have hbody := hh.body
  rw [hstage] at hbody
  have he : c.tasks.lookup s.id = some ⟨s.name, .removing s.completion⟩ := by
    rw [show c.tasks.lookup s.id = _ from hh.owned.entry, hstage]
    rfl
  unfold Core.abort
  split
  · exact h.keep rfl rfl rfl rfl
  · next a ha =>
    have hname : a.name = s.name := hh.name a (hid ▸ ha)
    cases hbody with
    | idle hrec _ _ =>
        rw [← hid, hname, hh.owned.completion]
        have hreg := Named.register hs h he hh.born hrec
        exact hreg.trans (hreg.named.keep rfl rfl rfl rfl)

theorem Named.reported {state : Option RemovalCompletion} {isEmpty : Bool} (hstage : o.stage = .reported state isEmpty)
    {owners : Table Nat Owner} :
    Narrowed c { c with reaper := (c.reaper.attachTerminal o.id state o.completion).2, owners } := by
  obtain ⟨s, hid, hh⟩ := hs.holding hk
  have hstate : state = some s.completion := hh.owned.state state (by rw [hstage]; rfl)
  have hbody := hh.body
  rw [hstage] at hbody
  rw [hstate, ← hid, hh.owned.completion]
  cases hbody with
  | joined _ hrec _ _ =>
      rw [ReaperState.attachTerminal_absent hrec]
      exact h.keep rfl rfl rfl rfl
  | reaping k hrec _ _ =>
      rw [ReaperState.attachTerminal_first hrec]
      have hrec : c.reaper.records.lookup s.id = _ := hrec
      refine h.congr rfl rfl (fun _ => rfl) rfl fun i => ?_
      change ((c.reaper.records.insert s.id _).lookup i).isSome = _
      rw [Table.lookup_insert_ite]
      split
      · next hi => rw [hi, hrec]; rfl
      · rfl
  | reaped p _ hrec _ _ =>
      rw [ReaperState.attachTerminal_second hrec]
      have hrec : c.reaper.records.lookup s.id = _ := hrec
      have hrel := h.release hh.born (by rw [hrec]; rfl) (erase_insert_lookup c.reaper.records s.id
        [⟨s.name, true, true, s.completion, some ⟨some s.completion, s.completion⟩, none, p⟩])
      exact hrel.trans (hrel.named.keep rfl rfl rfl rfl)

theorem Named.advance (ha : c.advance key o = some c') : Narrowed c c' := by
  unfold Core.advance at ha
  split at ha
  · cases ha
  · obtain ⟨outcome, -, rfl⟩ := Option.map_eq_some_iff.mp ha
    exact h.keep rfl rfl rfl rfl
  · cases ha; exact h.keep rfl rfl rfl rfl
  · cases ha
    unfold Core.requestAbort
    split
    · exact h.keep rfl rfl rfl rfl
    · exact h.keep rfl rfl rfl rfl
  · cases ha; exact h.keep rfl rfl rfl rfl
  · next hstage => cases ha; exact Named.locking hs h hk hstage
  · cases ha; exact h.keep rfl rfl rfl rfl
  · next hstage => cases ha; exact Named.reported hs h hk hstage
  · next effect _ _ _ _ =>
    cases ha
    cases effect <;> exact h.keep rfl rfl rfl rfl
  · cases ha; exact h.keep rfl rfl rfl rfl
  · cases ha; exact h.keep rfl rfl rfl rfl

end Owners

theorem Named.stepOwner (hs : Sound c) (h : Named c) {action : Core.OwnerAction}
    (ha : c.stepOwner key action = some c') : Narrowed c c' := by
  unfold Core.stepOwner at ha
  split at ha
  · cases ha
  · next o hk =>
    cases action with
    | advance => exact Named.advance hs h hk ha
    | abort =>
        simp only at ha
        split at ha
        · next hstage => cases ha; exact Named.abort hs h hk hstage.1
        · cases ha
    | drop =>
        simp only [Core.dropCommit] at ha
        split at ha
        · split at ha
          · cases ha
          · cases ha; exact h.keep rfl rfl rfl rfl
        · cases ha

theorem Named.reap_waiting (hs : Sound c) (h : Named c) (hk : c.reaps.lookup key = some r) (hstage : r.stage = .waiting)
    {poisoned : Bool} {ready : Option ReadyRecord} {reaper : ReaperState} {reaps : Table Nat Reap}
    (hp : c.reaper.completePhysical r.id r.release poisoned = (ready, reaper)) : Narrowed c { c with reaper, reaps } := by
  obtain ⟨s, hid, hborn, hv, hlife⟩ := reap_seed hs hk
  obtain ⟨-, phase, -, hb⟩ := hlife
  obtain ⟨rfl, -, -, hrec⟩ := waiting_body hb hv hstage
  rcases hrec with ⟨-, hrec⟩ | ⟨-, hrec⟩
  · rw [ReaperState.completePhysical_first hrec] at hp
    cases hp
    have hrec : c.reaper.records.lookup s.id = _ := hrec
    refine h.congr rfl rfl (fun _ => rfl) rfl fun i => ?_
    change ((c.reaper.records.insert s.id _).lookup i).isSome = _
    rw [Table.lookup_insert_ite]
    split
    · next hi => rw [hi, hrec]; rfl
    · rfl
  · rw [ReaperState.completePhysical_second hrec] at hp
    cases hp
    have hrec : c.reaper.records.lookup s.id = _ := hrec
    have hrel := h.release hborn (by rw [hrec]; rfl) (erase_insert_lookup c.reaper.records s.id
      [⟨s.name, true, true, s.completion, some ⟨some s.completion, s.completion⟩, none, poisoned⟩])
    exact hrel.trans (hrel.named.keep rfl rfl rfl rfl)

theorem Named.stepReap (hs : Sound c) (h : Named c) {poisoned : Bool} (ha : c.stepReap key poisoned = some c') :
    Narrowed c c' := by
  unfold Core.stepReap at ha
  split at ha
  · cases ha
  · next r hk =>
    split at ha
    · next hstage =>
      split at ha
      · cases ha; exact Named.reap_waiting hs h hk hstage rfl
      · cases ha
    · next effect _ _ =>
      cases ha
      cases effect <;> exact h.keep rfl rfl rfl rfl
    · cases ha; exact h.keep rfl rfl rfl rfl

theorem Named.claim (h : Named c) {kind : OwnerKind} {claimant : Claimant}
    (ha : c.claimRegistered id kind claimant = some (key, c')) : Narrowed c c' := by
  obtain ⟨name, handle, he, -, rfl⟩ := claimRegistered_eq ha
  refine h.congr rfl rfl (fun i => ?_) rfl fun _ => rfl
  rw [Table.lookup_insert_ite]
  split
  · next hi => rw [hi, he]; rfl
  · rfl

end Taskvisor.Registry.Names
