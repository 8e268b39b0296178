import Taskvisor.Registry.Claims

namespace Taskvisor.Registry.Exclusion

open Lib Runtime.Base Reaper State Lifecycle Names Listener Steps Entries Fence Identity Reach Claims

variable {cfg : RegistryConfig} {w w' : World} {a : World.Action} {c c' : Core} {id : TaskId} {s : PreparedRegistration}
  {n : String}

/-- An entry or a reaper record bears the name. -/
def Held (c : Core) (n : String) : Prop :=
  (∃ id e, c.tasks.lookup id = some e ∧ e.name = n) ∨
    ∃ id records, c.reaper.records.lookup id = some records ∧ ∃ record ∈ records, record.name = n

/-- Every record stands under the name of its registration. -/
theorem record_name (hs : Sound c) {records : List ReaperRecord} (hr : c.reaper.records.lookup id = some records)
    {record : ReaperRecord} (hm : record ∈ records) : ∃ s, c.born.lookup id = some s ∧ record.name = s.name := by
  obtain ⟨s, hb⟩ := record_seed hs (Option.isSome_iff_exists.mpr ⟨records, hr⟩)
  refine ⟨s, hb, ?_⟩
  obtain ⟨-, phase, -, hbody⟩ := hs.life id s hb
  rw [← hs.seed id s hb] at hr
  have hv : (view c s.id).records = some records := hr
  cases hbody with
  | idle hx | joined _ hx | settling _ hx | released _ hx => rw [hv] at hx; cases hx
  | reserved hx | reaping _ hx | reaped _ _ hx | waiting _ hx =>
      rw [hv] at hx
      cases hx
      rw [List.mem_singleton.mp hm]

theorem held_claimed (hs : Sound c) (h : Held c n) : ¬ Unclaimed c n := by
  intro hu
  rcases h with ⟨id, e, he, hname⟩ | ⟨id, records, hr, record, hm, hname⟩
  · obtain ⟨s, hb, -, hx⟩ := entry_seed hs he
    exact hu id s hb (.inl (Option.isSome_iff_exists.mpr ⟨e, he⟩)) (hx.symm.trans hname)
  · obtain ⟨s, hb, hx⟩ := record_name hs hr hm
    exact hu id s hb (.inr (Option.isSome_iff_exists.mpr ⟨records, hr⟩)) (hx.symm.trans hname)

theorem held_taken (hs : Sound c) (hn : Named c) (h : Held c n) : World.takenName c n = true := by
  cases ht : World.takenName c n with
  | true => rfl
  | false => exact absurd (takenName_false hs hn ht) (held_claimed hs h)

/-- The lookups of an admission report a name of its own when one is held. -/
theorem firstConflict_some (hs : Sound c) (hn : Named c) (h : Held c n) {names : List String} (hm : n ∈ names) :
    ∃ m ∈ names, World.firstConflict (World.takenName c) [] names = some m := by
  cases hf : World.firstConflict (World.takenName c) [] names with
  | none =>
      have hfree := ((firstConflict_none.mp hf).2 n hm).1
      rw [held_taken hs hn h] at hfree
      cases hfree
  | some m => exact ⟨m, firstConflict_mem hf, rfl⟩
where
  firstConflict_mem {taken : String → Bool} {earlier names : List String} {m : String}
      (h : World.firstConflict taken earlier names = some m) : m ∈ names := by
    induction names generalizing earlier with
    | nil => cases h
    | cons k names ih =>
        unfold World.firstConflict at h
        split at h
        · cases h; exact List.mem_cons_self
        · exact List.mem_cons_of_mem _ (ih h)

theorem indexed_of_pre {stage : OwnerStage} (h : phaseOf stage = .pre) : indexed stage = true := by
  cases stage with
  | settling effects state isEmpty => cases effects <;> cases h
  | removed | reported | released => cases h
  | _ => rfl

/-- An actor that is not physically gone keeps its name occupied. -/
theorem occupied_of_live (hs : Sound c) {actor : Actor} (ha : c.actors.lookup id = some actor) (hlive : actor.phase ≠ .exited) :
    ∃ s, c.born.lookup id = some s ∧ actor.name = s.name ∧ Occupied c id := by
  obtain ⟨s, hb, rfl⟩ := hs.born_of_view id fun hblank => by
    have hnone : c.actors.lookup id = none := hblank.actor
    rw [ha] at hnone
    cases hnone
  obtain ⟨hname, phase, hm, hbody⟩ := hs.life _ _ hb
  refine ⟨s, hb, hname actor ha, ?_⟩
  have hgone : ¬ Exited (view c s.id) := by
    rintro ⟨b, hx, he⟩
    have hx : c.actors.lookup s.id = some b := hx
    rw [ha] at hx
    cases hx
    exact hlive he
  have hrecord {records : List ReaperRecord} (hx : (view c s.id).records = some records) : Occupied c s.id :=
    .inr (Option.isSome_iff_exists.mpr ⟨records, hx⟩)
  -- Before the terminal commit the entry holds the name, after it the record.
  have hentry {o : Owner} (ho : Owned s (view c s.id) o) (hi : indexed o.stage = true) : Occupied c s.id := by
    have hx : c.tasks.lookup s.id = _ := ho.entry
    rw [if_pos hi] at hx
    exact .inl (Option.isSome_iff_exists.mpr ⟨_, hx⟩)
  cases hm with
  | registered entry => exact .inl (Option.isSome_iff_exists.mpr ⟨_, entry⟩)
  | owned key o claimant owners claims latch owned =>
      by_cases hi : indexed o.stage = true
      · exact hentry owned hi
      · generalize hp : phaseOf o.stage = phase at hbody
        cases hbody with
        | idle => exact absurd (indexed_of_pre hp) hi
        | reserved hx => exact hrecord hx
        | joined hx | reaped _ hx | settling hx | released hx => exact absurd hx hgone
        | reaping _ hx | waiting _ hx => exact hrecord hx
  | gone claimant entry count owners outcomes claims actor latch =>
      cases hbody with
      | waiting _ hx => exact hrecord hx
      | released hx => exact absurd hx hgone

/-- Entries go in under names nobody holds. -/
theorem inserted_free (hst : Steady w) (hs : Stepped cfg w a w') (habsent : w.core.tasks.lookup id = none) {e : Entry}
    (he : w'.core.tasks.lookup id = some e) : ¬ Held w.core e.name := by
  rcases step_recedes hs with hr | ⟨reg, hjob, hcore⟩
  · have hx := (hr.entry id).present (by rw [he]; rfl)
    rw [habsent] at hx
    cases hx
  · rw [hcore] at he
    rcases insertAll_tasks (c := w.core) reg.items id with ⟨p, hp, rfl, hx⟩ | hx
    · rw [he] at hx
      cases hx
      exact fun hheld => held_claimed hst.settled.sound hheld ((hst.settled.free reg hjob).2 p hp)
    · rw [he, habsent] at hx
      cases hx

theorem name_exclusion (h : (machine cfg).Reachable w) :
    (∀ n id, w.core.byName.lookup n = some id ↔ ∃ e, w.core.tasks.lookup id = some e ∧ e.name = n) ∧
    (∀ id id' actor actor', w.core.actors.lookup id = some actor → w.core.actors.lookup id' = some actor' →
      actor.phase ≠ .exited → actor'.phase ≠ .exited → actor.name = actor'.name → id = id') ∧
    (∀ n req, Held w.core n → w.job = some (.names req) → n ∈ req.items.map AddItem.name →
      ∃ m ∈ req.items.map AddItem.name, w.step cfg .work = some (w.rejectRequest req (World.alreadyExists m))) ∧
    (∀ n reg, Held w.core n → w.job = some (.lockedNames reg) → n ∈ reg.items.map PreparedRegistration.name →
      ∃ m ∈ reg.items.map PreparedRegistration.name,
        w.step cfg .work = some (w.rejectRegistration reg (World.alreadyExists m))) ∧
    ∀ a w' id e, w.step cfg a = some w' → w.core.tasks.lookup id = none → w'.core.tasks.lookup id = some e →
      ¬ Held w.core e.name := by
  have hst := steady_of_reachable h
  obtain ⟨hs, hn⟩ : Sound w.core ∧ Named w.core := ⟨hst.settled.sound, hst.settled.named⟩
  refine ⟨fun n id => ?_, fun id id' actor actor' ha ha' hl hl' he => ?_, fun n req hheld hjob hm => ?_,
    fun n reg hheld hjob hm => ?_, fun a w' id e hstep hnone he => inserted_free hst (step_cases hstep) hnone he⟩
  · rw [hn.index, Option.map_eq_some_iff]
  · obtain ⟨s, hb, hname, ho⟩ := occupied_of_live hs ha hl
    obtain ⟨s', hb', hname', ho'⟩ := occupied_of_live hs ha' hl'
    exact hn.apart id id' s s' hb hb' ho ho' (hname.symm.trans (he.trans hname'))
  · obtain ⟨m, hmem, hx⟩ := firstConflict_some hs hn hheld hm
    exact ⟨m, hmem, by simp only [World.step, hjob, Option.bind_some, World.work, hx]⟩
  · obtain ⟨m, hmem, hx⟩ := firstConflict_some hs hn hheld hm
    exact ⟨m, hmem, by simp only [World.step, hjob, Option.bind_some, World.work, hx]⟩

/-- The removal of a task gives up its join and ends; the actor lives on. -/
def outlivedRun : List World.Action :=
  addRun ++ sendRun 1 (.remove (.id 1) true) ++ List.replicate 4 .work ++ .owner 0 .abort ::
    List.replicate 8 (.owner 0 .advance)

/-- The request whose names the listener checks next. -/
def checking : Option Job → Option AddRequest
  | some (.names req) => some req
  | _ => none

theorem job_of_checking {job : Option Job} {req : AddRequest} (h : checking job = some req) : job = some (.names req) := by
  unfold checking at h
  split at h
  · exact congrArg (fun req => some (Job.names req)) (Option.some.inj h)
  · cases h

theorem name_exclusion_outlived :
    ∃ w req, (machine smallConfig).after World.new (outlivedRun ++ sendRun 2 (.addTask ⟨2, "a", none, none⟩)) = some w ∧
      w.core.tasks.lookup 1 = none ∧ Held w.core "a" ∧
      w.step smallConfig .work = some (w.rejectRequest req (World.alreadyExists "a")) := by
  obtain ⟨w, hw, hp⟩ := (Option.any_eq_true (fun w : World => decide (w.core.tasks.lookup 1 = none ∧
      ((w.core.reaper.records.lookup 1).getD []).map ReaperRecord.name = ["a"] ∧
      (checking w.job).map AddRequest.items = some [⟨2, "a", none, none⟩])) _).mp
    (show (Machine.after (machine smallConfig) World.new
      (outlivedRun ++ sendRun 2 (.addTask ⟨2, "a", none, none⟩))).any _ = true by decide +kernel)
  obtain ⟨hgone, hrecord, hchecking⟩ := of_decide_eq_true hp
  obtain ⟨req, hreq, hreqitems⟩ := Option.map_eq_some_iff.mp hchecking
  have hheld : Held w.core "a" := by
    cases hr : w.core.reaper.records.lookup 1 with
    | none => rw [hr] at hrecord; cases hrecord
    | some records =>
        rw [hr] at hrecord
        have hmem : "a" ∈ records.map ReaperRecord.name := by
          rw [show records.map ReaperRecord.name = ["a"] from hrecord]
          exact List.mem_cons_self
        obtain ⟨record, hm, hname⟩ := List.mem_map.mp hmem
        exact .inr ⟨1, records, hr, record, hm, hname⟩
  obtain ⟨-, -, hreject, -⟩ := name_exclusion (Machine.Reachable.after (M := machine smallConfig) .init hw)
  have hitems : req.items.map AddItem.name = ["a"] := by rw [hreqitems]; rfl
  obtain ⟨m, hm, hstep⟩ := hreject "a" req hheld (job_of_checking hreq) (by rw [hitems]; exact List.mem_cons_self)
  rw [hitems, List.mem_singleton] at hm
  exact ⟨w, req, hw, hgone, hheld, hm ▸ hstep⟩

end Taskvisor.Registry.Exclusion
