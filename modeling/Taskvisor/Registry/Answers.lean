import Taskvisor.Registry.Honesty
import Taskvisor.Registry.Withdrawal

namespace Taskvisor.Registry.Answers

open Lib Runtime.Base Reaper State Lifecycle Names Listener Steps Entries Fence Identity Reach Claims Growth Withdrawal
  Honesty

variable {cfg : RegistryConfig} {w w' : World} {act : World.Action} {c c' : Core} {id : TaskId} {job : Job}
  {req : AddRequest} {item : AddItem} {reply : Reply} {latch : RemovalCompletion}

section Refusals

/-- An admission from its first check up to its insertion, with its request. -/
inductive Admits (req : AddRequest) : Job → Prop
  | names : Admits req (.names req)
  | limit (current : Nat) : Admits req (.limit req current)
  | prepare : Admits req (.prepare req)
  | lockedNames (latch : RemovalCompletion) :
      Admits req (.lockedNames ⟨(World.prepareItems latch req.items).1, req.reply, req.batch⟩)
  | lockedLimit (latch : RemovalCompletion) :
      Admits req (.lockedLimit ⟨(World.prepareItems latch req.items).1, req.reply, req.batch⟩)

/-- An error a check of these names can give. -/
def Fails (cfg : RegistryConfig) (names : List String) (error : Commitment.Failure) : Prop :=
  (∃ name ∈ names, error = World.alreadyExists name) ∨
    ∃ limit, cfg.maxRegisteredTasks = some limit ∧ error = World.limitReached limit.get

/-- Everything one statement of an admission can do before its members are in. -/
inductive Admitted (cfg : RegistryConfig) (w : World) (req : AddRequest) (job : Job) : World → Prop
  | refuse (error : Commitment.Failure) (herror : Fails cfg (req.items.map AddItem.name) error) :
      Admitted cfg w req job (w.reject req.reply req.batch (Commitment.watchers req.items) error)
  | proceed (next : Job) (nextLatch : RemovalCompletion) (hnext : Admits req next) :
      Admitted cfg w req job { w with job := some next, nextLatch }
  | insert (latch : RemovalCompletion)
      (hjob : job = .lockedLimit ⟨(World.prepareItems latch req.items).1, req.reply, req.batch⟩) :
      Admitted cfg w req job
        { w with
          core := w.core.insertAll (World.prepareItems latch req.items).1
          job := some (.inserted ⟨(World.prepareItems latch req.items).1, req.reply, req.batch⟩) }

theorem firstConflict_mem {taken : String → Bool} {earlier names : List String} {name : String}
    (h : World.firstConflict taken earlier names = some name) : name ∈ names := by
  induction names generalizing earlier with
  | nil => cases h
  | cons head names ih =>
      rw [World.firstConflict] at h
      split at h
      · cases h
        exact List.mem_cons_self
      · exact List.mem_cons_of_mem _ (ih h)

theorem fails_limit {current incoming limit : Nat} (names : List String)
    (h : World.registeredLimitExceeded cfg c current incoming = some limit) :
    Fails cfg names (World.limitReached limit) := by
  obtain ⟨most, hmost, he⟩ := Option.bind_eq_some_iff.mp h
  refine .inr ⟨most, hmost, ?_⟩
  split at he
  · split at he
    · cases he
      rfl
    · cases he
  · cases he
    rfl

theorem admitted_work (h : Admits req job) (hs : w.work cfg job = some w') : Admitted cfg w req job w' := by
  have hnames (latch : RemovalCompletion) : (World.prepareItems latch req.items).1.map PreparedRegistration.name =
      req.items.map AddItem.name := Admission.prepareItems_map latch req.items fun fields => fields.2.1
  have hwatchers (latch : RemovalCompletion) : (World.prepareItems latch req.items).1.map (fun p => (p.id, p.done)) =
      Commitment.watchers req.items := Admission.prepareItems_map latch req.items fun fields => (fields.1, fields.2.2)
  cases h with
  | names =>
      simp only [World.work] at hs
      split at hs
      · next name hconflict =>
        cases hs
        exact .refuse (World.alreadyExists name) (.inl ⟨name, firstConflict_mem hconflict, rfl⟩)
      · cases hs
        exact .proceed _ w.nextLatch (.limit w.core.tasks.size)
  | limit current =>
      simp only [World.work] at hs
      split at hs
      · next limit hlimit =>
        cases hs
        exact .refuse (World.limitReached limit) (fails_limit _ hlimit)
      · cases hs
        exact .proceed _ w.nextLatch .prepare
  | prepare =>
      cases hs
      exact .proceed _ (World.prepareItems w.nextLatch req.items).2 (.lockedNames w.nextLatch)
  | lockedNames latch =>
      simp only [World.work, hnames] at hs
      split at hs
      · next name hconflict =>
        cases hs
        rw [World.rejectRegistration, hwatchers]
        exact .refuse (World.alreadyExists name) (.inl ⟨name, firstConflict_mem hconflict, rfl⟩)
      · cases hs
        exact .proceed _ w.nextLatch (.lockedLimit latch)
  | lockedLimit latch =>
      simp only [World.work] at hs
      split at hs
      · next limit hlimit =>
        cases hs
        rw [World.rejectRegistration, hwatchers]
        exact .refuse (World.limitReached limit) (fails_limit _ hlimit)
      · cases hs
        exact .insert latch rfl

theorem Admits.awaited (h : Admits req job) : awaited (some job) = req.items.map AddItem.id := by
  cases h with
  | lockedNames latch | lockedLimit latch =>
      exact (List.nil_append _).trans (prepareItems_spec latch req.items).1
  | _ => exact List.append_nil _

end Refusals

section Ledger

def admission : Job → Bool
  | .names _ | .limit _ _ | .prepare _ | .lockedNames _ | .lockedLimit _ => true
  | _ => false

theorem awaited_of_other (h : admission job = false) : awaited (some job) = [] := by
  cases job <;> first | rfl | cases h

/-- The rejections delivered so far. Each is that of one Add, which was told the
same error, and an Add is at work, has made its member, or was rejected. -/
structure Ledger (cfg : RegistryConfig) (w : World) : Prop where
  opened : ∀ job, w.job = some job → admission job = true →
    ∃ command ∈ w.taken, ∃ req, World.start command = .names req ∧ Admits req job
  entries : ∀ entry ∈ w.rejections, ∃ item reply error, .add item reply ∈ w.taken ∧
    entry = (item.id, item.done, .rejected error.2.1 error.2.2) ∧ Fails cfg [item.name] error ∧
    ⟨reply, none, .add (.error error.1)⟩ ∈ w.replies
  apart : ∀ id ∈ w.rejections.map Prod.fst, id ∉ awaited w.job ∧ w.core.born.lookup id = none
  once : (w.rejections.map Prod.fst).Nodup
  each : ∀ item reply, .add item reply ∈ w.taken →
    item.id ∈ awaited w.job ∨ (w.core.born.lookup item.id).isSome ∨ item.id ∈ w.rejections.map Prod.fst

theorem Ledger.new : Ledger cfg World.new where
  opened := fun _ hj => by cases hj
  entries := fun _ he => by cases he
  apart := fun _ hid => by cases hid
  once := List.nodup_nil
  each := fun _ _ hc => by cases hc

/-- No admission moves. -/
theorem Ledger.keep (h : Ledger cfg w) (htaken : w'.taken = w.taken) (hrejections : w'.rejections = w.rejections)
    (hborn : w'.core.born = w.core.born) (hreplies : w.replies ⊆ w'.replies) (hawaited : awaited w'.job = awaited w.job)
    (hjob : ∀ job, w'.job = some job → admission job = true → w.job = some job) : Ledger cfg w' where
  opened := by
    intro job hj ha
    rw [htaken]
    exact h.opened job (hjob job hj ha) ha
  entries := by
    intro entry he
    rw [hrejections] at he
    obtain ⟨item, reply, error, hc, hentry, hfails, hreply⟩ := h.entries entry he
    exact ⟨item, reply, error, htaken ▸ hc, hentry, hfails, hreplies hreply⟩
  apart := by
    rw [hrejections, hawaited, hborn]
    exact h.apart
  once := by
    rw [hrejections]
    exact h.once
  each := by
    rw [htaken, hrejections, hawaited, hborn]
    exact h.each

theorem awaited_unborn (hst : Steady w) (h : id ∈ awaited w.job) : w.core.born.lookup id = none := by
  rcases List.mem_append.mp h with hm | hm
  · obtain ⟨item, hitem, rfl⟩ := List.mem_map.mp hm
    exact (hst.incoming.requests item hitem).1
  · obtain ⟨item, hitem, rfl⟩ := List.mem_map.mp hm
    exact (hst.incoming.prepares item hitem).1

theorem taken_nodup (hst : Steady w) : (ids w.taken).Nodup := by
  have hnodup := hst.identified.nodup
  rw [hst.fenced.order, ids_append, List.nodup_append] at hnodup
  exact hnodup.1

/-- The admission at work and an Add with one of its identities have one
command. -/
theorem command_of_awaited (hst : Steady w) {command : RegistryCommand} (hc : command ∈ w.taken)
    (hstart : World.start command = .names req) (hadmits : Admits req job) (hadd : .add item reply ∈ w.taken)
    (hid : item.id ∈ awaited (some job)) : command = .add item reply := by
  have hitems : command.items = req.items := by
    cases command <;> cases hstart <;> rfl
  rw [hadmits.awaited, ← hitems] at hid
  exact command_of_id (taken_nodup hst) hc hadd hid List.mem_cons_self

/-- The queue hands out its head. -/
theorem Ledger.command (h : Ledger cfg w) (hst : Steady w) (hjob : w.job = none) {command : RegistryCommand}
    {rest : List RegistryCommand} (hcommands : w.commands = command :: rest) (mode : Mode) (burst : Nat) :
    Ledger cfg { w with commands := rest, mode, job := some (World.start command), burst, taken := w.taken ++ [command] } where
  opened := by
    intro job hj ha
    obtain rfl := Option.some.inj hj
    refine ⟨command, List.mem_append_right _ List.mem_cons_self, ?_⟩
    cases command with
    | add item reply | addBatch items reply => exact ⟨_, rfl, .names⟩
    | _ => cases ha
  entries := by
    intro entry he
    obtain ⟨item, reply, error, hc, hentry⟩ := h.entries entry he
    exact ⟨item, reply, error, List.mem_append_left _ hc, hentry⟩
  apart := by
    intro id hid
    obtain ⟨-, hborn⟩ := h.apart id hid
    refine ⟨fun hm => ?_, hborn⟩
    obtain ⟨entry, he, rfl⟩ := List.mem_map.mp hid
    obtain ⟨item, reply, error, hc, rfl, -⟩ := h.entries entry he
    have htaken : item.id ∈ ids w.taken := mem_ids.mpr ⟨_, hc, item, List.mem_cons_self, rfl⟩
    refine not_waiting hst htaken ?_
    rw [awaited, start_requested, start_prepared, List.map_nil, List.append_nil] at hm
    obtain ⟨other, hother, hsame⟩ := List.mem_map.mp hm
    exact mem_ids.mpr ⟨command, hcommands ▸ List.mem_cons_self, other, hother, hsame⟩
  once := h.once
  each := by
    intro item reply hc
    rcases List.mem_append.mp hc with hc | hc
    · have hold := h.each item reply hc
      rw [hjob] at hold
      exact hold.imp_left fun hm => by cases hm
    · obtain rfl := List.mem_singleton.mp hc
      exact .inl List.mem_cons_self

/-- The admission at work fails a check. -/
theorem Ledger.refuse (h : Ledger cfg w) (hst : Steady w) (hjob : w.job = some job) {command : RegistryCommand}
    (hc : command ∈ w.taken) (hstart : World.start command = .names req) (hadmits : Admits req job)
    {error : Commitment.Failure} (herror : Fails cfg (req.items.map AddItem.name) error) :
    Ledger cfg (w.reject req.reply req.batch (Commitment.watchers req.items) error) := by
  have hawaited := hadmits.awaited
  cases command with
  | remove | cancel => cases hstart
  | addBatch items reply =>
      cases hstart
      refine ⟨(fun _ hj => by cases hj), fun entry he => ?_, fun id hid => ?_, ?_, fun item reply' hadd => ?_⟩
      · obtain ⟨item, reply', error', hadd, hentry, hfails, hreply⟩ := h.entries entry (by simpa [World.reject] using he)
        exact ⟨item, reply', error', hadd, hentry, hfails, List.mem_append_left _ hreply⟩
      · have hid : id ∈ w.rejections.map Prod.fst := by simpa [World.reject] using hid
        exact ⟨(fun hm => by cases hm), (h.apart id hid).2⟩
      · simpa [World.reject] using h.once
      · have hold := h.each item reply' hadd
        rw [hjob] at hold
        refine .inr ((hold.resolve_left fun hm => ?_).imp_right fun hm => by simpa [World.reject] using hm)
        cases command_of_awaited hst hc rfl hadmits hadd hm
  | add item reply =>
      cases hstart
      have hm : item.id ∈ awaited w.job := by
        rw [hjob, hawaited]
        exact List.mem_cons_self
      have hrejections : (w.reject reply false (Commitment.watchers [item]) error).rejections =
          w.rejections ++ [(item.id, item.done, .rejected error.2.1 error.2.2)] := rfl
      refine ⟨(fun _ hj => by cases hj), fun entry he => ?_, fun id hid => ?_, ?_, fun other reply' hadd => ?_⟩
      · rcases List.mem_append.mp he with he | he
        · obtain ⟨other, reply', error', hadd, hentry, hfails, hreply⟩ := h.entries entry he
          exact ⟨other, reply', error', hadd, hentry, hfails, List.mem_append_left _ hreply⟩
        · obtain rfl := List.mem_singleton.mp he
          exact ⟨item, reply, error, hc, rfl, herror, List.mem_append_right _ List.mem_cons_self⟩
      · refine ⟨(fun hx => by cases hx), ?_⟩
        rw [hrejections, List.map_append, List.mem_append] at hid
        rcases hid with hid | hid
        · exact (h.apart id hid).2
        · obtain rfl := List.mem_singleton.mp hid
          have hborn := awaited_unborn hst hm
          exact hborn
      · rw [hrejections, List.map_append, List.nodup_append]
        refine ⟨h.once, List.nodup_singleton _, ?_⟩
        rintro id hid _ hsame rfl
        obtain rfl := List.mem_singleton.mp hsame
        exact (h.apart _ hid).1 hm
      · rw [hrejections, List.map_append, List.mem_append]
        have hold := h.each other reply' hadd
        rcases hold with hold | hold | hold
        · rw [hjob, hawaited] at hold
          exact .inr (.inr (.inr hold))
        · exact .inr (.inl hold)
        · exact .inr (.inr (.inl hold))

theorem Ledger.insert (h : Ledger cfg w) (hst : Steady w) (hjob : w.job = some job) (hadmits : Admits req job)
    (hprepared : prepared (some job) = (World.prepareItems latch req.items).1) :
    Ledger cfg
      { w with
        core := w.core.insertAll (World.prepareItems latch req.items).1
        job := some (.inserted ⟨(World.prepareItems latch req.items).1, req.reply, req.batch⟩) } := by
  have hids : (World.prepareItems latch req.items).1.map PreparedRegistration.id = awaited w.job := by
    rw [hjob, hadmits.awaited]
    exact (prepareItems_spec latch req.items).1
  have hnodup : ((World.prepareItems latch req.items).1.map PreparedRegistration.id).Nodup := by
    have hall := hst.incoming.prepares_nodup
    rwa [hjob, hprepared] at hall
  refine ⟨fun job hj ha => ?_, h.entries, fun id hid => ⟨(fun hm => by cases hm), ?_⟩, h.once, fun item reply hadd => ?_⟩
  · obtain rfl := Option.some.inj hj
    cases ha
  · obtain ⟨hidle, hborn⟩ := h.apart id hid
    refine (insertAll_keep fun p hp he => hidle ?_).trans hborn
    exact hids ▸ he ▸ List.mem_map_of_mem hp
  · refine .inr ((h.each item reply hadd).elim (fun hm => .inl ?_) (Or.imp_left fun hb => ?_))
    · rw [← hids] at hm
      obtain ⟨p, hp, he⟩ := List.mem_map.mp hm
      have hborn : (w.core.insertAll (World.prepareItems latch req.items).1).born.lookup p.id = some p :=
        insertAll_lookup hnodup hp
      rw [← he, hborn]
      rfl
    · by_cases hm : item.id ∈ awaited w.job
      · rw [awaited_unborn hst hm] at hb
        cases hb
      · have hkept : (w.core.insertAll (World.prepareItems latch req.items).1).born.lookup item.id =
            w.core.born.lookup item.id := insertAll_keep fun p hp he => hm (hids ▸ he ▸ List.mem_map_of_mem hp)
        rw [hkept]
        exact hb

theorem Ledger.listen (h : Ledger cfg w) (hst : Steady w) (hjob : w.job = none) (hs : Listened w w') : Ledger cfg w' := by
  cases hs with
  | command command rest mode hcommands _ => exact h.command hst hjob hcommands mode 0
  | completion id rest _ _ =>
      refine h.keep rfl rfl rfl (fun _ hx => hx) (by rw [hjob]; rfl) fun job hj ha => ?_
      obtain rfl := Option.some.inj hj
      cases ha
  | claim =>
      exact h.keep rfl rfl (claimAll_recedes (c := w.core) (.shutdown true) _).born (fun _ hx => hx) rfl fun _ hj _ => hj
  | cancel =>
      exact h.keep rfl rfl (launchAll_unmoved (c := w.core) (.shutdown true)).born (fun _ hx => hx) rfl fun _ hj _ => hj
  | _ => exact h.keep rfl rfl rfl (fun _ hx => hx) rfl fun _ hj _ => hj

theorem Ledger.enter (h : Ledger cfg w) (hst : Steady w) (hjob : w.job = some job) (ha : admission job = true)
    (hs : w.work cfg job = some w') : Ledger cfg w' := by
  obtain ⟨command, hc, req, hstart, hadmits⟩ := h.opened job hjob ha
  cases admitted_work hadmits hs with
  | refuse error herror => exact h.refuse hst hjob hc hstart hadmits herror
  | proceed next nextLatch hnext =>
      refine ⟨fun j hj _ => ?_, h.entries, fun id hid => ?_, h.once, fun item reply hadd => ?_⟩
      · obtain rfl := Option.some.inj hj
        exact ⟨command, hc, req, hstart, hnext⟩
      · rw [hnext.awaited, ← hadmits.awaited, ← hjob]
        exact h.apart id hid
      · rw [hnext.awaited, ← hadmits.awaited, ← hjob]
        exact h.each item reply hadd
  | insert latch hlocked => exact h.insert hst hjob hadmits (by rw [hlocked]; rfl)

theorem Ledger.work (h : Ledger cfg w) (hjob : w.job = some job) (ha : admission job = false)
    (hs : Worked w job w') : Ledger cfg w' := by
  have hquiet {v : World} (htaken : v.taken = w.taken) (hrejections : v.rejections = w.rejections)
      (hborn : v.core.born = w.core.born) (hreplies : w.replies ⊆ v.replies)
      (hnext : ∀ next, v.job = some next → admission next = false) : Ledger cfg v := by
    refine h.keep htaken hrejections hborn hreplies ?_ fun j hj hx => ?_
    · rw [hjob, awaited_of_other ha]
      cases hj : v.job with
      | none => rfl
      | some next => exact awaited_of_other (hnext next hj)
    · rw [hnext j hj] at hx
      cases hx
  have hmore (d : Decision) : w.replies ⊆ w.replies ++ [d] := fun _ hx => List.mem_append_left _ hx
  cases hs with
  | reject job reply batch dones error hreply hcheck => cases job <;> cases hcheck <;> cases ha
  | names | limit | prepare | free | insert => cases ha
  | accept reg => exact hquiet rfl rfl rfl (hmore _) (by rintro _ ⟨⟩; rfl)
  | spawn item rest reg => exact hquiet rfl rfl rfl (fun _ hx => hx) (by rintro _ ⟨⟩; rfl)
  | openGate reg =>
      exact hquiet rfl rfl (openGate_unmoved (c := w.core) reg.items).born (fun _ hx => hx) (by rintro _ ⟨⟩)
  | lose job target d => exact hquiet rfl rfl rfl (hmore d) (by rintro _ ⟨⟩)
  | win job target d id key core _ _ hclaim _ =>
      exact hquiet rfl rfl (claim_recedes hclaim).born (fun _ hx => hx) (by rintro _ ⟨⟩; rfl)
  | cancelToken key d =>
      obtain ⟨reply, target, answer⟩ := d
      cases target <;> exact hquiet rfl rfl rfl (fun _ hx => hx) (by rintro _ ⟨⟩; rfl)
  | reply key d => exact hquiet rfl rfl rfl (hmore d) (by rintro _ ⟨⟩; rfl)
  | launch key d =>
      exact hquiet rfl rfl (launch_unmoved (c := w.core) key .detached).born (fun _ hx => hx) (by rintro _ ⟨⟩)
  | signal id key core hclaim => exact hquiet rfl rfl (claim_recedes hclaim).born (fun _ hx => hx) (by rintro _ ⟨⟩; rfl)
  | stale id => exact hquiet rfl rfl rfl (fun _ hx => hx) (by rintro _ ⟨⟩)
  | ready key =>
      exact hquiet rfl rfl (launch_unmoved (c := w.core) key .inline).born (fun _ hx => hx) (by rintro _ ⟨⟩; rfl)
  | unready key =>
      exact hquiet rfl rfl (launch_unmoved (c := w.core) key .detached).born (fun _ hx => hx) (by rintro _ ⟨⟩)
  | joined key => exact hquiet rfl rfl rfl (fun _ hx => hx) (by rintro _ ⟨⟩)

theorem Ledger.step (h : Ledger cfg w) (hst : Steady w) (hs : w.step cfg act = some w') : Ledger cfg w' := by
  have hstay {v : World} (htaken : v.taken = w.taken) (hrejections : v.rejections = w.rejections)
      (hborn : v.core.born = w.core.born) (hreplies : v.replies = w.replies) (hjob : v.job = w.job) : Ledger cfg v := by
    refine h.keep htaken hrejections hborn (hreplies ▸ fun _ hx => hx) (by rw [hjob]) fun j hj _ => ?_
    rw [← hjob]
    exact hj
  cases step_cases hs with
  | call key caller v hk hcall => cases hcall <;> exact hstay rfl rfl rfl rfl rfl
  | shutdownStep instr todo v htodo hstep =>
      cases shutdownStep_cases hstep with
      | claim => exact hstay rfl rfl (claimAll_recedes (c := w.core) (.shutdown false) _).born rfl rfl
      | cancel => exact hstay rfl rfl (launchAll_unmoved (c := w.core) (.shutdown false)).born rfl rfl
      | _ => exact hstay rfl rfl rfl rfl rfl
  | listen branch v hjob hlisten => exact h.listen hst hjob hlisten
  | work job v hjob hwork =>
      cases ha : admission job with
      | true =>
          simp only [World.step, hjob, Option.bind_some] at hs
          exact h.enter hst hjob ha hs
      | false => exact h.work hjob ha hwork
  | owner key action o core ho hfree hcore => exact hstay rfl rfl (stepOwner_recedes hcore).born rfl rfl
  | reap key poisoned core hcore => exact hstay rfl rfl (stepReap_recedes hcore).born rfl rfl
  | actor i action core completions hcore => exact hstay rfl rfl (stepActor_recedes hcore).born rfl rfl
  | _ => exact hstay rfl rfl rfl rfl rfl

theorem ledger_of_reachable (h : (machine cfg).Reachable w) : Ledger cfg w :=
  h.invariant Ledger.new fun _ _ _ hr hi hstep => hi.step (steady_of_reachable hr) hstep

end Ledger

section Seeds

theorem prepared_item {p : PreparedRegistration} {items : List AddItem}
    (hp : p ∈ (World.prepareItems latch items).1) :
    ∃ item ∈ items, item.id = p.id ∧ item.name = p.name ∧ item.done = p.done := by
  have hfields := Admission.prepareItems_map latch items fun fields => fields
  have hm : (p.id, p.name, p.done) ∈ (World.prepareItems latch items).1.map fun p => (p.id, p.name, p.done) :=
    List.mem_map_of_mem hp
  rw [hfields] at hm
  obtain ⟨item, hitem, he⟩ := List.mem_map.mp hm
  obtain ⟨hid, hrest⟩ := Prod.mk.inj he
  obtain ⟨hname, hdone⟩ := Prod.mk.inj hrest
  exact ⟨item, hitem, hid, hname, hdone⟩

/-- A member has the name and the sender of the item it came with. -/
def Seeded (w : World) : Prop :=
  ∀ id s, w.core.born.lookup id = some s →
    ∃ command ∈ w.taken, ∃ item ∈ command.items, item.id = id ∧ item.name = s.name ∧ item.done = s.done

theorem Seeded.step (h : Seeded w) (hl : Ledger cfg w) (hs : Stepped cfg w act w') : Seeded w' := by
  intro id s hb
  have hold (hb : w.core.born.lookup id = some s) :
      ∃ command ∈ w'.taken, ∃ item ∈ command.items, item.id = id ∧ item.name = s.name ∧ item.done = s.done := by
    obtain ⟨command, hc, hitem⟩ := h id s hb
    exact ⟨command, (step_grown hs).taken.subset hc, hitem⟩
  rcases step_recedes hs with hr | ⟨reg, hjob, hcore⟩
  · rw [hr.born] at hb
    exact hold hb
  · rw [hcore] at hb
    rcases insertAll_born hb with hb | ⟨hm, rfl⟩
    · exact hold hb
    · obtain ⟨command, hc, req, hstart, hadmits⟩ := hl.opened _ hjob rfl
      cases hadmits with
      | lockedLimit latch =>
          obtain ⟨item, hitem, hfields⟩ := prepared_item hm
          refine ⟨command, (step_grown hs).taken.subset hc, item, ?_, hfields⟩
          cases command <;> cases hstart <;> exact hitem

theorem Seeded.new : Seeded World.new := fun id s hb => by simp [World.new, Core.new] at hb

theorem seeded_of_reachable (h : (machine cfg).Reachable w) : Seeded w :=
  h.invariant (P := Seeded) Seeded.new fun _ _ _ hr hi hstep => hi.step (ledger_of_reachable hr) (step_cases hstep)

end Seeds

section Delivery

variable {key : Nat} {o : Owner}

/-- A removal reports once its entry is out. -/
theorem stepOwner_outcomes {action : Core.OwnerAction} (hc : c.stepOwner key action = some c') : c'.outcomes = c.outcomes ∨
    ∃ o outcome, c.owners.lookup key = some o ∧ c'.outcomes = c.outcomes ++ [(o.id, o.done, outcome)] := by
  unfold Core.stepOwner at hc
  split at hc
  · cases hc
  · next o hk =>
    cases action with
    | advance =>
        simp only [Core.advance] at hc
        split at hc
        · cases hc
        · obtain ⟨outcome, -, rfl⟩ := Option.map_eq_some_iff.mp hc
          exact .inl rfl
        · cases hc
          exact .inl rfl
        · cases hc
          refine .inl ?_
          unfold Core.requestAbort
          split <;> rfl
        · cases hc
          exact .inl rfl
        · cases hc
          refine .inl ?_
          unfold Core.commit
          split <;> rfl
        · next outcome state isEmpty _ =>
          cases hc
          exact .inr ⟨o, outcome, hk, rfl⟩
        · cases hc
          exact .inl rfl
        · next effect effects state isEmpty _ =>
          cases hc
          cases effect <;> exact .inl rfl
        · cases hc
          exact .inl rfl
        · cases hc
          exact .inl rfl
    | abort =>
        simp only at hc
        split at hc
        · cases hc
          refine .inl ?_
          unfold Core.abort
          split <;> rfl
        · cases hc
    | drop =>
        simp only [Core.dropCommit] at hc
        split at hc
        · split at hc
          · cases hc
          · cases hc
            exact .inl rfl
        · cases hc

theorem claim_outcomes {kind : OwnerKind} {claimant : Claimant} (hc : c.claimRegistered id kind claimant = some (key, c')) :
    c'.outcomes = c.outcomes := by
  obtain ⟨name, handle, -, -, rfl⟩ := Moves.claimRegistered_eq hc
  rfl

theorem claimAll_outcomes (kind : OwnerKind) (ids : List TaskId) : (c.claimAll kind ids).outcomes = c.outcomes :=
  claimAll_keeps (P := fun d => d.outcomes = c.outcomes) ids rfl fun _ _ _ _ hd hc => (claim_outcomes hc).trans hd

theorem launch_outcomes (key : Nat) (kind : OwnerKind) : (c.launch key kind).outcomes = c.outcomes := by
  unfold Core.launch
  split
  · split <;> rfl
  · rfl

theorem launchAll_outcomes (kind : OwnerKind) : (World.launchAll c kind).outcomes = c.outcomes :=
  launchAll_keeps (P := fun d => d.outcomes = c.outcomes) rfl (fun _ _ hd => hd) fun _ key hd =>
    (launch_outcomes key kind).trans hd

theorem openGate_outcomes (items : List PreparedRegistration) : (items.foldl Core.openGate c).outcomes = c.outcomes := by
  induction items generalizing c with
  | nil => rfl
  | cons item items ih =>
      refine (ih (c := c.openGate item)).trans ?_
      unfold Core.openGate
      split
      · split <;> rfl
      · rfl

theorem insertAll_outcomes (items : List PreparedRegistration) : (c.insertAll items).outcomes = c.outcomes := by
  induction items generalizing c with
  | nil => rfl
  | cons item items ih => exact ih (c := c.insertEntry item)

theorem stepReap_outcomes {poisoned : Bool} (hc : c.stepReap key poisoned = some c') : c'.outcomes = c.outcomes := by
  unfold Core.stepReap at hc
  split at hc
  · cases hc
  · split at hc
    · split at hc
      · cases hc
        rfl
      · cases hc
    · next effect effects _ =>
      cases hc
      cases effect <;> rfl
    · cases hc
      rfl

theorem work_outcomes (hs : Worked w job w') : w'.core.outcomes = w.core.outcomes := by
  cases hs with
  | insert reg => exact insertAll_outcomes reg.items
  | openGate reg => exact openGate_outcomes reg.items
  | win _ _ _ _ _ _ _ _ hclaim _ => exact claim_outcomes hclaim
  | cancelToken key d =>
      obtain ⟨reply, target, answer⟩ := d
      cases target <;> rfl
  | launch key d => exact launch_outcomes key .detached
  | signal _ _ _ hclaim => exact claim_outcomes hclaim
  | ready key => exact launch_outcomes key .inline
  | unready key => exact launch_outcomes key .detached
  | _ => rfl

/-- Outcomes are delivered by the owners of removals, one at a time. -/
theorem outcomes_step (hs : Stepped cfg w act w') : w'.core.outcomes = w.core.outcomes ∨
    ∃ key o outcome, w.core.owners.lookup key = some o ∧
      w'.core.outcomes = w.core.outcomes ++ [(o.id, o.done, outcome)] := by
  cases hs with
  | call key caller v hk hcall => exact .inl (congrArg Core.outcomes (call_core hcall))
  | shutdownStep instr todo v htodo hstep =>
      cases shutdownStep_cases hstep with
      | claim => exact .inl (claimAll_outcomes (.shutdown false) _)
      | cancel => exact .inl (launchAll_outcomes (.shutdown false))
      | _ => exact .inl rfl
  | listen branch v hjob hlisten =>
      cases hlisten with
      | claim => exact .inl (claimAll_outcomes (.shutdown true) _)
      | cancel => exact .inl (launchAll_outcomes (.shutdown true))
      | _ => exact .inl rfl
  | work job v hjob hwork => exact .inl (work_outcomes hwork)
  | owner key action o core ho hfree hcore =>
      rcases stepOwner_outcomes hcore with he | ⟨p, outcome, hp, he⟩
      · exact .inl he
      · exact .inr ⟨key, p, outcome, hp, he⟩
  | reap key poisoned core hcore => exact .inl (stepReap_outcomes hcore)
  | actor i action core completions hcore =>
      obtain ⟨old, new, -, rfl⟩ := stepActor_put hcore
      exact .inl rfl
  | _ => exact .inl rfl

/-- An outcome goes to the sender its member came with. -/
def Addressed (w : World) : Prop :=
  ∀ entry ∈ w.core.outcomes, ∃ s, w.core.born.lookup entry.1 = some s ∧ entry.2.1 = s.done

theorem Addressed.step (h : Addressed w) (hst : Steady w) (hs : Stepped cfg w act w') : Addressed w' := by
  intro entry he
  have hold (he : entry ∈ w.core.outcomes) : ∃ s, w'.core.born.lookup entry.1 = some s ∧ entry.2.1 = s.done := by
    obtain ⟨s, hb, hdone⟩ := h entry he
    exact ⟨s, born_step hst hs hb, hdone⟩
  rcases outcomes_step hs with hsame | ⟨key, o, outcome, hk, hmore⟩
  · exact hold (hsame ▸ he)
  · rw [hmore] at he
    rcases List.mem_append.mp he with he | he
    · exact hold he
    · obtain rfl := List.mem_singleton.mp he
      obtain ⟨s, hid, hh⟩ := hst.settled.sound.holding hk
      exact ⟨s, born_step hst hs (hid ▸ hh.born), hh.owned.done⟩

theorem addressed_of_reachable (h : (machine cfg).Reachable w) : Addressed w :=
  h.invariant (P := Addressed) (fun _ he => by cases he) fun _ _ _ hr hi hstep =>
    hi.step (steady_of_reachable hr) (step_cases hstep)

end Delivery

section Swept

/-- The exit of the listener has claimed what was left. -/
def swept : Mode → Bool
  | .cancelling | .joining | .waiting | .exited => true
  | _ => false

/-- After its claims no entry is registered, and the listener leaves when every
pending join is over. -/
structure Swept (w : World) : Prop where
  claimed : swept w.mode = true → ∀ id, ¬ isRegistered w.core id
  joined : w.mode = .exited → ∀ id, w.core.pending.counts.lookup id = none

theorem emptied_of_swept {mode : Mode} (h : swept mode = true) : emptied mode = true := by
  cases mode <;> first | rfl | cases h

theorem claim_none {kind : OwnerKind} {claimant : Claimant} (h : ¬ isRegistered c id) :
    c.claimRegistered id kind claimant = none := by
  cases hc : c.claimRegistered id kind claimant with
  | none => rfl
  | some claimed => exact absurd (registered_of_claim hc) h

theorem claimAll_none {kind : OwnerKind} (h : ∀ id, ¬ isRegistered c id) (ids : List TaskId) : c.claimAll kind ids = c := by
  induction ids with
  | nil => rfl
  | cons id ids ih =>
      rw [Core.claimAll, claim_none (h id)]
      exact ih

theorem dec_none {pending : PendingJoins} (h : ∀ id, pending.counts.lookup id = none) (i id : TaskId) :
    (pending.dec i).counts.lookup id = none := by
  rw [PendingJoins.dec, h i]
  exact h id

variable {key : Nat}

theorem stepOwner_unpending {action : Core.OwnerAction} (hc : c.stepOwner key action = some c')
    (h : ∀ id, c.pending.counts.lookup id = none) (id : TaskId) : c'.pending.counts.lookup id = none := by
  unfold Core.stepOwner at hc
  split at hc
  · cases hc
  · next o hk =>
    cases action with
    | advance =>
        simp only [Core.advance] at hc
        split at hc
        · cases hc
        · obtain ⟨outcome, -, rfl⟩ := Option.map_eq_some_iff.mp hc
          exact h id
        · cases hc
          exact h id
        · cases hc
          unfold Core.requestAbort
          split <;> exact h id
        · cases hc
          exact h id
        · cases hc
          unfold Core.commit
          split <;> exact h id
        · cases hc
          exact h id
        · cases hc
          exact h id
        · next effect effects state isEmpty _ =>
          cases hc
          cases effect <;> exact h id
        · cases hc
          exact dec_none h o.id id
        · cases hc
          exact h id
    | abort =>
        simp only at hc
        split at hc
        · cases hc
          unfold Core.abort
          split <;> exact h id
        · cases hc
    | drop =>
        simp only [Core.dropCommit] at hc
        split at hc
        · split at hc
          · cases hc
          · cases hc
            exact h id
        · cases hc

theorem launch_pending (key : Nat) (kind : OwnerKind) : (c.launch key kind).pending = c.pending := by
  unfold Core.launch
  split
  · split <;> rfl
  · rfl

theorem launchAll_pending (kind : OwnerKind) : (World.launchAll c kind).pending = c.pending :=
  launchAll_keeps (P := fun d => d.pending = c.pending) rfl (fun _ _ hd => hd) fun _ key hd =>
    (launch_pending key kind).trans hd

theorem stepReap_pending {poisoned : Bool} (hc : c.stepReap key poisoned = some c') : c'.pending = c.pending := by
  unfold Core.stepReap at hc
  split at hc
  · cases hc
  · split at hc
    · split at hc
      · cases hc
        rfl
      · cases hc
    · next effect effects _ =>
      cases hc
      cases effect <;> rfl
    · cases hc
      rfl

/-- No handler of a command is at work any more. -/
theorem work_pending (hidle : isCommand job = false) (h : ∀ id, ¬ isRegistered w.core id) (hs : Worked w job w') :
    w'.core.pending = w.core.pending := by
  cases hs with
  | reject job reply batch dones error hreply hcheck => cases job <;> cases hcheck <;> cases hidle
  | win job target d id key core hj => rcases hj with rfl | rfl <;> cases hidle
  | lose job target d hj => rcases hj with rfl | rfl <;> cases hidle
  | signal id key core hclaim => exact absurd (registered_of_claim hclaim) (h id)
  | ready key => exact launch_pending key .inline
  | unready key => exact launch_pending key .detached
  | stale | joined => rfl
  | _ => cases hidle

theorem Swept.step (h : Swept w) (hst : Steady w) (hstep : w.step cfg act = some w') : Swept w' := by
  have hkeep {v : World} (hcore : v.core = w.core) (hmode : v.mode = w.mode) : Swept v :=
    ⟨by rw [hmode, hcore]; exact h.claimed, by rw [hmode, hcore]; exact h.joined⟩
  have hmove {v : World} (hmode : v.mode = w.mode)
      (hclaimed : (∀ id, ¬ isRegistered w.core id) → ∀ id, ¬ isRegistered v.core id)
      (hjoined : (∀ id, ¬ isRegistered w.core id) → (∀ id, w.core.pending.counts.lookup id = none) →
        ∀ id, v.core.pending.counts.lookup id = none) : Swept v := by
    refine ⟨fun hx => hclaimed (h.claimed (hmode ▸ hx)), fun hx => ?_⟩
    rw [hmode] at hx
    exact hjoined (h.claimed (by rw [hx]; rfl)) (h.joined hx)
  have hrecede {d : Core} (hr : Recedes w.core d) (hnone : ∀ id, ¬ isRegistered w.core id) (id : TaskId) :
      ¬ isRegistered d id := fun hreg => hnone id (Recedes.registered hr hreg)
  cases step_cases hstep with
  | call key caller v hk hcall => exact hkeep (call_core hcall) (by cases hcall <;> rfl)
  | shutdownStep instr todo v htodo hinstr =>
      cases shutdownStep_cases hinstr with
      | claim =>
          refine hmove rfl (hrecede (claimAll_recedes (c := w.core) (.shutdown false) _)) fun hnone hpending => ?_
          change ∀ id, (w.core.claimAll (.shutdown false) w.core.tasks.keys).pending.counts.lookup id = none
          rw [claimAll_none hnone]
          exact hpending
      | cancel =>
          refine hmove rfl (hrecede (launchAll_unmoved (c := w.core) (.shutdown false)).recedes) fun _ hpending => ?_
          change ∀ id, (World.launchAll w.core (.shutdown false)).pending.counts.lookup id = none
          rw [launchAll_pending]
          exact hpending
      | _ => exact hkeep rfl rfl
  | listen branch v hjob hlisten =>
      cases hlisten with
      | close | select => exact ⟨(fun hx => by cases hx), fun hx => by cases hx⟩
      | control fence rest mode _ hmode => rcases hmode with ⟨-, rfl⟩ | ⟨-, rfl⟩ <;> exact ⟨(fun hx => by cases hx), fun hx => by cases hx⟩
      | command command rest mode hcommands hmode =>
          rcases hmode with rfl | ⟨-, rfl⟩
          · exact hkeep rfl rfl
          · exact ⟨(fun hx => by cases hx), fun hx => by cases hx⟩
      | completion | drained => exact ⟨(fun hx => by cases hx), fun hx => by cases hx⟩
      | ack fence mode _ hmode => rcases hmode with ⟨-, rfl⟩ | ⟨-, rfl⟩ <;> exact ⟨(fun hx => by cases hx), fun hx => by cases hx⟩
      | claim hmode => exact ⟨fun _ => claimAll_complete (.shutdown true), fun hx => by cases hx⟩
      | cancel hmode =>
          refine ⟨fun _ => hrecede (launchAll_unmoved (c := w.core) (.shutdown true)).recedes (h.claimed (by rw [hmode]; rfl)), ?_⟩
          exact fun hx => by cases hx
      | joined hmode => exact ⟨fun _ => h.claimed (by rw [hmode]; rfl), fun hx => by cases hx⟩
      | exit hmode =>
          refine ⟨fun _ => h.claimed (by rw [hmode]; rfl), fun _ id => ?_⟩
          simp only [World.step, hjob, Option.isSome_none, Bool.false_eq_true, if_false, World.listen, hmode] at hstep
          split at hstep
          · next hempty =>
            by_contra hne
            obtain ⟨count, hcount⟩ := Option.ne_none_iff_exists'.mp hne
            have hkey := Table.mem_keys_iff.mpr ⟨count, hcount⟩
            rw [List.isEmpty_iff.mp hempty] at hkey
            cases hkey
          · cases hstep
  | work job v hjob hwork =>
      have hmode := hwork.frame.mode
      cases hx : swept w.mode with
      | false =>
          refine ⟨fun hy => ?_, fun hy => ?_⟩
          · rw [hmode, hx] at hy
            cases hy
          · rw [← hmode, hy] at hx
            cases hx
      | true =>
          have hidle := (hst.fenced.drained (.inr (emptied_of_swept hx))).2 job hjob
          rcases work_recedes hwork with hr | ⟨reg, rfl, -⟩
          · refine hmove hmode (hrecede hr) fun hnone hpending => ?_
            rw [work_pending hidle hnone hwork]
            exact hpending
          · cases hidle
  | owner key action o core ho hfree hcore =>
      exact hmove rfl (hrecede (stepOwner_recedes hcore)) fun _ hpending => stepOwner_unpending hcore hpending
  | reap key poisoned core hcore =>
      refine hmove rfl (hrecede (stepReap_recedes hcore)) fun _ hpending => ?_
      change ∀ id, core.pending.counts.lookup id = none
      rw [stepReap_pending hcore]
      exact hpending
  | actor i action core completions hcore =>
      refine hmove rfl (hrecede (stepActor_recedes hcore)) fun _ hpending => ?_
      obtain ⟨old, new, -, rfl⟩ := stepActor_put hcore
      exact hpending
  | _ => exact hkeep rfl rfl

theorem Swept.new : Swept World.new := ⟨(fun hx => by cases hx), fun hx => by cases hx⟩

theorem swept_of_reachable (h : (machine cfg).Reachable w) : Swept w :=
  h.invariant Swept.new fun _ _ _ hr hi hstep => hi.step (steady_of_reachable hr) hstep

end Swept

/-- What the watcher of an identity has been told, with the sender it was told
through. -/
def told (w : World) (id : TaskId) : List (Option OutcomeTx × TaskOutcome) :=
  ((w.rejections ++ w.core.outcomes).filter fun entry => decide (entry.1 = id)).map Prod.snd

/-- The member is still in place, or its removal has not reported yet. -/
def Unreported (c : Core) (id : TaskId) : Prop :=
  isRegistered c id ∨ ∃ key o, c.owners.lookup key = some o ∧ o.id = id ∧ reportedAt o.stage = false

/-- How far an Add has come, and what its watcher has been told by then. -/
inductive Standing (cfg : RegistryConfig) (w : World) (item : AddItem) (reply : Reply) :
    List (Option OutcomeTx × TaskOutcome) → Prop
  | queued (hqueued : .add item reply ∈ w.commands) : Standing cfg w item reply []
  | admitting (hawaited : item.id ∈ awaited w.job) : Standing cfg w item reply []
  | rejected (error : Commitment.Failure) (hfails : Fails cfg [item.name] error)
      (hreply : ⟨reply, none, .add (.error error.1)⟩ ∈ w.replies) (hborn : w.core.born.lookup item.id = none) :
      Standing cfg w item reply [(item.done, .rejected error.2.1 error.2.2)]
  | member (hborn : (w.core.born.lookup item.id).isSome) (hopen : Unreported w.core item.id) :
      Standing cfg w item reply []
  | left (outcome : TaskOutcome) (hborn : (w.core.born.lookup item.id).isSome) (hclosed : ¬ Unreported w.core item.id)
      (hexplained : Explained w.core item.id outcome) : Standing cfg w item reply [(item.done, outcome)]

theorem barred_of_unreported {stage : OwnerStage} (h : reportedAt stage = false) : barred stage = true := by
  cases stage <;> first | rfl | cases h

theorem told_of {id : TaskId} {rejections outcomes : List (TaskId × Option OutcomeTx × TaskOutcome)}
    (hrejections : (w.rejections.filter fun entry => decide (entry.1 = id)) = rejections)
    (houtcomes : (w.core.outcomes.filter fun entry => decide (entry.1 = id)) = outcomes) :
    told w id = rejections.map Prod.snd ++ outcomes.map Prod.snd := by
  rw [told, List.filter_append, hrejections, houtcomes, List.map_append]

theorem unrejected (h : id ∉ w.rejections.map Prod.fst) :
    (w.rejections.filter fun entry => decide (entry.1 = id)) = [] := by
  rw [List.filter_eq_nil_iff]
  intro entry he
  rw [decide_eq_true_eq]
  rintro rfl
  exact h (List.mem_map_of_mem he)

theorem unreported_outcomes (h : outcomesOf c.outcomes id = 0) :
    (c.outcomes.filter fun entry => decide (entry.1 = id)) = [] := by
  rw [outcomesOf, List.countP_eq_length_filter] at h
  exact List.length_eq_zero_iff.mp h

theorem unborn_outcomes (hs : Sound c) (h : c.born.lookup id = none) :
    (c.outcomes.filter fun entry => decide (entry.1 = id)) = [] := unreported_outcomes (hs.blank id h).outcomes

/-- A member has reported once, or not yet. -/
theorem member_outcomes (hs : Sound c) {s : PreparedRegistration} (hb : c.born.lookup id = some s) :
    Unreported c id ∧ outcomesOf c.outcomes id = 0 ∨ ¬ Unreported c id ∧ outcomesOf c.outcomes id = 1 := by
  obtain rfl := hs.seed id s hb
  obtain ⟨-, phase, hm, -⟩ := hs.life _ _ hb
  cases hm with
  | registered entry count owners outcomes claims latch => exact .inl ⟨.inl ⟨s.name, _, entry⟩, outcomes⟩
  | owned key o claimant owners claims latch owned =>
      have hkey := ownersOf_eq_some.mp owners.at
      have hreported : outcomesOf c.outcomes s.id = if reportedAt o.stage then 1 else 0 := owned.outcomes
      cases hx : reportedAt o.stage with
      | false =>
          rw [hx] at hreported
          exact .inl ⟨.inr ⟨key, o, hkey.1, hkey.2, hx⟩, hreported⟩
      | true =>
          rw [hx] at hreported
          refine .inr ⟨?_, hreported⟩
          rintro (⟨name, handle, he⟩ | ⟨k, p, hp, hid, hy⟩)
          · have hentry : c.tasks.lookup s.id = _ := owned.entry
            rw [he] at hentry
            split at hentry <;> cases hentry
          · obtain ⟨-, rfl⟩ := owners.eq (ownersOf_eq_some.mpr ⟨hp, hid⟩)
            cases hx.symm.trans hy
  | gone claimant entry count owners outcomes claims actor latch =>
      refine .inr ⟨?_, outcomes⟩
      rintro (⟨name, handle, he⟩ | ⟨k, p, hp, hid, -⟩)
      · cases Eq.trans (Eq.symm entry) he
      · exact owners_of_void owners ⟨k, p, hp, hid⟩

/-- Nobody is told about what the listener has not taken. -/
theorem told_untaken (hw : (machine cfg).Reachable w) (h : id ∉ ids w.taken) : told w id = [] := by
  have hst := steady_of_reachable hw
  have hunborn : w.core.born.lookup id = none := by
    cases hb : w.core.born.lookup id with
    | none => rfl
    | some s => exact absurd (hst.incoming.born id s hb) h
  refine told_of (unrejected fun hr => ?_) (unborn_outcomes hst.settled.sound hunborn)
  obtain ⟨entry, he, rfl⟩ := List.mem_map.mp hr
  obtain ⟨item, reply, error, hadd, rfl, -⟩ := (ledger_of_reachable hw).entries entry he
  exact h (mem_ids.mpr ⟨_, hadd, item, List.mem_cons_self, rfl⟩)

theorem standing (hw : (machine cfg).Reachable w) (hc : .add item reply ∈ w.sent) :
    Standing cfg w item reply (told w item.id) := by
  have hst := steady_of_reachable hw
  have hs := hst.settled.sound
  have hl := ledger_of_reachable hw
  rw [hst.fenced.order, List.mem_append] at hc
  have hcommand : item.id ∈ (RegistryCommand.add item reply).items.map AddItem.id := List.mem_cons_self
  rcases hc with hc | hc
  · rcases hl.each item reply hc with hm | hb | hr
    · rw [told_of (unrejected fun hr => (hl.apart item.id hr).1 hm) (unborn_outcomes hs (awaited_unborn hst hm))]
      exact .admitting hm
    · obtain ⟨s, hb⟩ := Option.isSome_iff_exists.mp hb
      have hunrejected := unrejected (w := w) fun hr => by cases hb.symm.trans (hl.apart item.id hr).2
      rcases member_outcomes hs hb with ⟨hopen, hzero⟩ | ⟨hclosed, hone⟩
      · rw [told_of hunrejected (unreported_outcomes hzero)]
        exact .member (Option.isSome_iff_exists.mpr ⟨s, hb⟩) hopen
      · rw [outcomesOf, List.countP_eq_length_filter] at hone
        obtain ⟨entry, hentry⟩ := List.length_eq_one_iff.mp hone
        have hm : entry ∈ w.core.outcomes.filter fun entry => decide (entry.1 = item.id) := hentry ▸ List.mem_cons_self
        obtain ⟨hin, hid⟩ := List.mem_filter.mp hm
        have hid := of_decide_eq_true hid
        obtain ⟨t, ht, hdone⟩ := addressed_of_reachable hw entry hin
        obtain rfl := Option.some.inj ((hid ▸ ht).symm.trans hb)
        obtain ⟨command, hcommand', other, hother, hsame, -, hsender⟩ := seeded_of_reachable hw item.id t hb
        obtain rfl := command_of_id (taken_nodup hst) hcommand' hc (hsame ▸ List.mem_map_of_mem hother) hcommand
        obtain rfl := List.mem_singleton.mp hother
        have hexplained := (honest_of_reachable hw).outcomes entry hin
        have hvalue : entry.2 = (other.done, entry.2.2) := Prod.ext (hdone.trans hsender.symm) rfl
        rw [told_of hunrejected hentry, List.map_singleton, hvalue]
        exact .left entry.2.2 (Option.isSome_iff_exists.mpr ⟨t, hb⟩) hclosed (hid ▸ hexplained)
    · have hborn := (hl.apart item.id hr).2
      obtain ⟨entry, he, hid⟩ := List.mem_map.mp hr
      obtain ⟨other, reply', error, hadd, rfl, hfails, hreply⟩ := hl.entries entry he
      obtain ⟨rfl, rfl⟩ := RegistryCommand.add.inj
        (command_of_id (taken_nodup hst) hadd hc (hid ▸ List.mem_cons_self) hcommand)
      have hfilter : (w.rejections.filter fun entry => decide (entry.1 = other.id)) =
          [(other.id, other.done, .rejected error.2.1 error.2.2)] := filter_eq_singleton hl.once he
      rw [told_of hfilter (unborn_outcomes hs hborn)]
      exact .rejected error hfails hreply hborn
  · have huntaken : item.id ∉ ids w.taken := fun hm =>
      not_waiting hst hm (mem_ids.mpr ⟨_, hc, item, List.mem_cons_self, rfl⟩)
    rw [told_untaken hw huntaken]
    exact .queued hc

/-- Rejections are delivered by the checks of admissions. -/
theorem rejections_step (hs : Stepped cfg w act w') : w.rejections <+: w'.rejections := by
  cases hs with
  | call key caller v hk hcall => cases hcall <;> exact List.prefix_rfl
  | shutdownStep instr todo v htodo hstep => cases shutdownStep_cases hstep <;> exact List.prefix_rfl
  | listen branch v hjob hlisten => cases hlisten <;> exact List.prefix_rfl
  | work job v hjob hwork =>
      cases hwork with
      | reject job reply batch dones error _ _ => exact List.prefix_append _ _
      | cancelToken key d =>
          obtain ⟨reply, target, answer⟩ := d
          cases target <;> exact List.prefix_rfl
      | _ => exact List.prefix_rfl
  | _ => exact List.prefix_rfl

theorem told_grown (hs : Stepped cfg w act w') : told w id ⊆ told w' id := by
  have hrejections : w.rejections ⊆ w'.rejections := (rejections_step hs).subset
  have houtcomes : w.core.outcomes ⊆ w'.core.outcomes := by
    rcases outcomes_step hs with he | ⟨key, o, outcome, -, he⟩
    · rw [he]
      exact fun _ hx => hx
    · rw [he]
      exact List.subset_append_left _ _
  refine List.map_subset _ fun entry he => ?_
  obtain ⟨hm, hid⟩ := List.mem_filter.mp he
  refine List.mem_filter.mpr ⟨?_, hid⟩
  exact List.mem_append.mpr ((List.mem_append.mp hm).imp (fun hx => hrejections hx) fun hx => houtcomes hx)

theorem Standing.length {answers : List (Option OutcomeTx × TaskOutcome)} (h : Standing cfg w item reply answers) :
    answers.length ≤ 1 := by
  cases h <;> simp

/-- Every Add is answered once, through its own sender and for a reason the
service can show; the answer stands, and the listener leaves nobody waiting. -/
theorem answered_once (hw : (machine cfg).Reachable w) (hc : .add item reply ∈ w.sent) :
    Standing cfg w item reply (told w item.id) ∧ (w.mode = .exited → told w item.id ≠ []) ∧
      (told w item.id ≠ [] → ∀ run w', (machine cfg).after w run = some w' → told w' item.id = told w item.id) := by
  have hst := steady_of_reachable hw
  refine ⟨standing hw hc, fun hmode hnil => ?_, fun hne run w' hrun => ?_⟩
  · have hemptied : w.acks ≠ [] ∨ emptied w.mode = true := .inr (by rw [hmode]; rfl)
    obtain ⟨hcommands, hjob⟩ := hst.fenced.drained hemptied
    have hswept := swept_of_reachable hw
    have hstanding := standing hw hc
    rw [hnil] at hstanding
    cases hstanding with
    | queued hqueued =>
        rw [hcommands] at hqueued
        cases hqueued
    | admitting hawaited =>
        cases hj : w.job with
        | none =>
            rw [hj] at hawaited
            cases hawaited
        | some job =>
            have hother : admission job = false := by
              have hidle := hjob job hj
              cases job <;> first | rfl | cases hidle
            rw [hj, awaited_of_other hother] at hawaited
            cases hawaited
    | member hborn hopen =>
        rcases hopen with hr | ⟨key, o, hk, hid, hreported⟩
        · exact hswept.claimed (by rw [hmode]; rfl) item.id hr
        · obtain ⟨s, -, hh⟩ := hst.settled.sound.holding hk
          have hcount : w.core.pending.counts.lookup s.id = _ := hh.owned.count
          rw [hswept.joined hmode s.id, if_pos (barred_of_unreported hreported)] at hcount
          cases hcount
  · let kept (v : World) : Prop := .add item reply ∈ v.sent ∧ told w item.id ⊆ told v item.id
    obtain ⟨hsent, hkept⟩ : kept w' := by
      refine hw.keeps (P := kept) ⟨hc, fun _ hx => hx⟩ (fun v a v' hv hk hstep => ?_) hrun
      have hs := step_cases hstep
      exact ⟨(step_grown hs).sent.subset hk.1, fun _ hx => told_grown hs (hk.2 hx)⟩
    have hbefore := (standing hw hc).length
    have hafter := (standing (hw.after hrun) hsent).length
    obtain ⟨answer, hanswer⟩ := List.exists_mem_of_ne_nil _ hne
    rw [eq_singleton hbefore hanswer, eq_singleton hafter (hkept hanswer)]

/-- A second task with the name of a running one is refused, and the first one
runs to its end. -/
def conflictRun : List World.Action :=
  addRun ++ sendRun 1 (.addTask ⟨2, "a", some 20, none⟩) ++
    [.work, .actor 1 (.produce (.ok .completed)), .actor 1 .signal, .listen .completion, .listen .completion, .work, .work,
      .actor 1 .exit] ++ List.replicate 3 (.owner 0 .advance)

theorem answered_once_conflict :
    ∃ w, (machine smallConfig).after World.new conflictRun = some w ∧
      told w 1 = [(some 10, .completed)] ∧ told w 2 = [(some 20, .rejected .alreadyExists Reasons.alreadyExists)] ∧
      Standing smallConfig w ⟨1, "a", some 10, none⟩ 0 (told w 1) ∧
      Standing smallConfig w ⟨2, "a", some 20, none⟩ 1 (told w 2) := by
  obtain ⟨w, hw, hp⟩ := (Option.any_eq_true (fun w : World => decide (
      w.sent = [.add ⟨1, "a", some 10, none⟩ 0, .add ⟨2, "a", some 20, none⟩ 1] ∧
      told w 1 = [(some 10, .completed)] ∧ told w 2 = [(some 20, .rejected .alreadyExists Reasons.alreadyExists)])) _).mp
    (show (Machine.after (machine smallConfig) World.new conflictRun).any _ = true by decide +kernel)
  obtain ⟨hsent, hfirst, hsecond⟩ := of_decide_eq_true hp
  have hreach : (machine smallConfig).Reachable w := Machine.Reachable.after .init hw
  have hmem₁ : .add ⟨1, "a", some 10, none⟩ 0 ∈ w.sent := by simp [hsent]
  have hmem₂ : .add ⟨2, "a", some 20, none⟩ 1 ∈ w.sent := by simp [hsent]
  exact ⟨w, hw, hfirst, hsecond, (answered_once hreach hmem₁).1, (answered_once hreach hmem₂).1⟩

end Taskvisor.Registry.Answers
