import Taskvisor.Registry.Admission

namespace Taskvisor.Registry.Commitment

open Lib Runtime.Base Reaper State Listener Steps Entries Reach Admission

variable {cfg : RegistryConfig} {w w' v : World} {a : World.Action} {job : Job} {seen : List World} {acts : List Act}
  {limit : Option NonZeroUsize} {latch : RemovalCompletion} {r initial locked : Reading}

abbrev Failure := RuntimeError × RejectionKind × String

/-- The error of a check, in the words of the service. -/
def failureOf (limit : Option NonZeroUsize) (r : Reading) (names : List String) : Option Failure :=
  ((World.firstConflict r.taken [] names).map World.alreadyExists).or
    ((registeredLimitExceeded limit r.current r.reaping names.length).map World.limitReached)

def watchers (items : List AddItem) : List (TaskId × Option OutcomeTx) := items.map fun item => (item.id, item.done)

def refusal (batch : Bool) (watchers : List (TaskId × Option OutcomeTx)) (error : Failure) : List Act :=
  .reply (.error error.1) ::
    if batch then [] else watchers.map fun item => .deliver item.1 item.2 (.rejected error.2.1 error.2.2)

/-- An act the service carries out and records; events are not part of its
state. -/
def recorded : Act → Bool
  | .publishAdded .. | .publishAddFailed .. => false
  | _ => true

/-- The acts of one statement of an admission. -/
def actsOf (cfg : RegistryConfig) (w : World) : Job → List Act
  | .names req =>
    match World.firstConflict (World.takenName w.core) [] (req.items.map AddItem.name) with
    | some name => refusal req.batch (watchers req.items) (World.alreadyExists name)
    | none => []
  | .limit req current =>
    match World.registeredLimitExceeded cfg w.core current req.items.length with
    | some limit => refusal req.batch (watchers req.items) (World.limitReached limit)
    | none => []
  | .lockedNames reg =>
    match World.firstConflict (World.takenName w.core) [] (reg.items.map PreparedRegistration.name) with
    | some name => refusal reg.batch (reg.items.map fun item => (item.id, item.done)) (World.alreadyExists name)
    | none => []
  | .lockedLimit reg =>
    match World.registeredLimitExceeded cfg w.core w.core.tasks.size reg.items.length with
    | some limit => refusal reg.batch (reg.items.map fun item => (item.id, item.done)) (World.limitReached limit)
    | none => reg.items.map .insert
  | .inserted _ => [.reply (.ok ())]
  | .spawning (item :: _) _ => [.schedule item]
  | .spawning [] reg => [.openGate reg.items]
  | _ => []

/-- The statements of the two admission handlers. -/
def admitting : Job → Bool
  | .names _ | .limit _ _ | .prepare _ | .lockedNames _ | .lockedLimit _ | .inserted _ | .spawning _ _ => true
  | _ => false

def answer : Act → Option Answer
  | .reply result => some (.add result)
  | _ => none

def delivered : Act → Option (TaskId × Option OutcomeTx × TaskOutcome)
  | .deliver id done outcome => some (id, done, outcome)
  | _ => none

/-- A step of the service did these acts of the handler that owes `reply`. -/
structure Carried (reply : Option Reply) (acts : List Act) (w w' : World) : Prop where
  core : w'.core = acts.foldl Act.run w.core
  replies : w'.replies = w.replies ++ (acts.filterMap answer).flatMap fun answer => reply.toList.map (⟨·, none, answer⟩)
  rejections : w'.rejections = w.rejections ++ acts.filterMap delivered

theorem refusal_carried (w : World) (reply : Reply) (batch : Bool) (watchers : List (TaskId × Option OutcomeTx))
    (error : Failure) : Carried (some reply) (refusal batch watchers error) w (w.reject reply batch watchers error) := by
  cases batch with
  | true => exact ⟨rfl, rfl, rfl⟩
  | false =>
      have hrun (l : List (TaskId × Option OutcomeTx)) (c : Core) :
          (l.map fun item => Act.deliver item.1 item.2 (.rejected error.2.1 error.2.2)).foldl Act.run c = c := by
        rw [List.foldl_map]
        exact List.foldl_fixed l
      have hanswer (l : List (TaskId × Option OutcomeTx)) :
          (l.map fun item => Act.deliver item.1 item.2 (.rejected error.2.1 error.2.2)).filterMap answer = [] := by
        simp [List.filterMap_map, answer, Function.comp_def]
      have hdelivered (l : List (TaskId × Option OutcomeTx)) :
          (l.map fun item => Act.deliver item.1 item.2 (.rejected error.2.1 error.2.2)).filterMap delivered =
            l.map fun item => (item.1, item.2, .rejected error.2.1 error.2.2) := by
        simp [List.filterMap_map, delivered, Function.comp_def]
      refine ⟨(hrun watchers _).symm, ?_, ?_⟩
      · simp [refusal, World.reject, answer, hanswer]
      · exact congrArg (w.rejections ++ ·) (hdelivered watchers).symm

/-- Each statement of the service does its acts and nothing else. -/
theorem work_carried (hs : w.work cfg job = some w') (ha : admitting job = true) :
    Carried (unanswered job) (actsOf cfg w job) w w' := by
  cases job with
  | names req =>
      cases hf : World.firstConflict (World.takenName w.core) [] (req.items.map AddItem.name) with
      | some _ =>
          simp only [World.work, hf] at hs
          simp only [actsOf, hf]
          obtain rfl := Option.some.inj hs
          exact refusal_carried ..
      | none =>
          simp only [World.work, hf] at hs
          simp only [actsOf, hf]
          obtain rfl := Option.some.inj hs
          exact ⟨rfl, (List.append_nil _).symm, (List.append_nil _).symm⟩
  | limit req current =>
      cases hf : World.registeredLimitExceeded cfg w.core current req.items.length with
      | some _ =>
          simp only [World.work, hf] at hs
          simp only [actsOf, hf]
          obtain rfl := Option.some.inj hs
          exact refusal_carried ..
      | none =>
          simp only [World.work, hf] at hs
          simp only [actsOf, hf]
          obtain rfl := Option.some.inj hs
          exact ⟨rfl, (List.append_nil _).symm, (List.append_nil _).symm⟩
  | prepare req => cases hs; exact ⟨rfl, (List.append_nil _).symm, (List.append_nil _).symm⟩
  | lockedNames reg =>
      cases hf : World.firstConflict (World.takenName w.core) [] (reg.items.map PreparedRegistration.name) with
      | some _ =>
          simp only [World.work, hf] at hs
          simp only [actsOf, hf]
          obtain rfl := Option.some.inj hs
          exact refusal_carried ..
      | none =>
          simp only [World.work, hf] at hs
          simp only [actsOf, hf]
          obtain rfl := Option.some.inj hs
          exact ⟨rfl, (List.append_nil _).symm, (List.append_nil _).symm⟩
  | lockedLimit reg =>
      cases hf : World.registeredLimitExceeded cfg w.core (Table.size w.core.tasks) reg.items.length with
      | some _ =>
          simp only [World.work, hf] at hs
          simp only [actsOf, hf]
          obtain rfl := Option.some.inj hs
          exact refusal_carried ..
      | none =>
          simp only [World.work, hf] at hs
          simp only [actsOf, hf]
          obtain rfl := Option.some.inj hs
          refine ⟨(run_inserts _ _).symm, ?_, ?_⟩
          · simp [List.filterMap_map, answer, Function.comp_def]
          · simp [List.filterMap_map, delivered, Function.comp_def]
  | inserted reg => cases hs; exact ⟨rfl, rfl, (List.append_nil _).symm⟩
  | spawning rest reg =>
      cases rest with
      | nil => cases hs; exact ⟨rfl, (List.append_nil _).symm, (List.append_nil _).symm⟩
      | cons item rest => cases hs; exact ⟨rfl, (List.append_nil _).symm, (List.append_nil _).symm⟩
  | _ => cases ha

/-- What one check of the running service read: the names, the number of
entries and the number of reaped attempts, each where its statement ran. -/
def reading (names size active : World) : Reading where
  byName := fun name => (names.core.byName.lookup name).isSome
  reserves := names.core.reaper.reservesName
  current := Table.size size.core.tasks
  reaping := active.core.active

/-- The check read states of this part of the run. -/
def ReadIn (seen : List World) (r : Reading) : Prop :=
  ∃ names ∈ seen, ∃ size ∈ seen, ∃ active ∈ seen, r = reading names size active

/-- A handler runs until it returns; others take their steps in between. -/
inductive Handled (cfg : RegistryConfig) : World → List World → List Act → World → Prop
  | returned (w : World) (hjob : w.job = none) : Handled cfg w [w] [] w
  | other {w v w' : World} {seen : List World} {acts : List Act} (a : World.Action) (hbusy : w.job.isSome) (ha : a ≠ .work)
      (hstep : w.step cfg a = some v) (h : Handled cfg v seen acts w') : Handled cfg w (w :: seen) acts w'
  | work {w v w' : World} {seen : List World} {acts : List Act} (job : Job) (hjob : w.job = some job)
      (hstep : w.work cfg job = some v) (h : Handled cfg v seen acts w') :
      Handled cfg w (w :: seen) (actsOf cfg w job ++ acts) w'

theorem other_job (hs : w.step cfg a = some v) (hbusy : w.job.isSome) (ha : a ≠ .work) : v.job = w.job := by
  cases step_cases hs with
  | call key caller v hk hcall => cases hcall <;> rfl
  | shutdownStep instr todo v htodo hstep => cases shutdownStep_cases hstep <;> rfl
  | listen branch v hjob hlisten => rw [hjob] at hbusy; cases hbusy
  | work => exact absurd rfl ha
  | _ => rfl

theorem Handled.ended (h : Handled cfg w seen acts w') (hjob : w.job = none) : acts = [] := by
  cases h with
  | returned => rfl
  | other a hbusy => rw [hjob] at hbusy; cases hbusy
  | work job hj => rw [hjob] at hj; cases hj

/-- The handler runs its next statement in some later state. -/
theorem Handled.next (h : Handled cfg w seen acts w') (hjob : w.job = some job) :
    ∃ u ∈ seen, ∃ v rest acts', u.work cfg job = some v ∧ Handled cfg v rest acts' w' ∧ rest ⊆ seen ∧
      acts = actsOf cfg u job ++ acts' := by
  induction h with
  | returned w hnone => rw [hjob] at hnone; cases hnone
  | other a hbusy ha hstep h ih =>
      obtain ⟨u, hu, v, rest, acts', hwork, hrest, hsub, rfl⟩ := ih ((other_job hstep hbusy ha).trans hjob)
      exact ⟨u, List.mem_cons_of_mem _ hu, v, rest, acts', hwork, hrest, fun x hx => List.mem_cons_of_mem _ (hsub hx), rfl⟩
  | @work w v w' seen acts job' hj hstep h ih =>
      rw [hjob] at hj
      cases hj
      exact ⟨w, List.mem_cons_self, v, seen, acts, hstep, h, fun x hx => List.mem_cons_of_mem _ hx, rfl⟩

theorem Handled.spawning {rest : List PreparedRegistration} {reg : Registration} (h : Handled cfg w seen acts w')
    (hjob : w.job = some (.spawning rest reg)) : acts = rest.map .schedule ++ [.openGate reg.items] := by
  induction rest generalizing w seen acts with
  | nil =>
      obtain ⟨u, -, v, _, acts', hwork, hv, -, rfl⟩ := h.next hjob
      obtain rfl := Option.some.inj hwork
      rw [hv.ended rfl]
      rfl
  | cons item rest ih =>
      obtain ⟨u, -, v, _, acts', hwork, hv, -, rfl⟩ := h.next hjob
      obtain rfl := Option.some.inj hwork
      rw [ih hv rfl]
      rfl

/-- What is left to do once the entries are in. -/
def settle (prepared : List PreparedRegistration) : List Act :=
  .reply (.ok ()) :: (prepared.map .schedule ++ [.openGate prepared])

theorem Handled.inserted {reg : Registration} (h : Handled cfg w seen acts w') (hjob : w.job = some (.inserted reg)) :
    acts = settle reg.items := by
  obtain ⟨u, -, v, _, acts', hwork, hv, -, rfl⟩ := h.next hjob
  obtain rfl := Option.some.inj hwork
  rw [hv.spawning rfl]
  rfl

theorem failureOf_reading {names size active : World} {l : List String} :
    failureOf cfg.maxRegisteredTasks (reading names size active) l =
      ((World.firstConflict (World.takenName names.core) [] l).map World.alreadyExists).or
        ((World.registeredLimitExceeded cfg active.core (Table.size size.core.tasks) l.length).map World.limitReached) := rfl

/-- The check under the write lock, and what follows it. -/
theorem Handled.lockedNames {reg : Registration} (h : Handled cfg w seen acts w') (hjob : w.job = some (.lockedNames reg)) :
    ∃ r, ReadIn seen r ∧
      acts = match failureOf cfg.maxRegisteredTasks r (reg.items.map PreparedRegistration.name) with
        | some error => refusal reg.batch (reg.items.map fun item => (item.id, item.done)) error
        | none => reg.items.map .insert ++ settle reg.items := by
  obtain ⟨u, hu, v, seen', acts', hwork, hv, hsub, rfl⟩ := h.next hjob
  cases hf : World.firstConflict (World.takenName u.core) [] (reg.items.map PreparedRegistration.name) with
  | some name =>
      refine ⟨reading u u u, ⟨u, hu, u, hu, u, hu, rfl⟩, ?_⟩
      simp only [World.work, hf] at hwork
      obtain rfl := Option.some.inj hwork
      rw [failureOf_reading, hf, hv.ended rfl]
      simp only [actsOf, hf, List.append_nil, Option.map_some, Option.some_or]
  | none =>
      simp only [World.work, hf] at hwork
      obtain rfl := Option.some.inj hwork
      obtain ⟨x, hx, y, _, acts₂, hwork, hy, -, rfl⟩ := hv.next rfl
      refine ⟨reading u x x, ⟨u, hu, x, hsub hx, x, hsub hx, rfl⟩, ?_⟩
      rw [failureOf_reading, hf, List.length_map]
      simp only [actsOf, hf, List.nil_append, Option.map_none, Option.none_or]
      cases hl : World.registeredLimitExceeded cfg x.core (Table.size x.core.tasks) reg.items.length with
      | some limit =>
          simp only [World.work, hl] at hwork
          obtain rfl := Option.some.inj hwork
          simp only [hy.ended rfl, List.append_nil, Option.map_some]
      | none =>
          simp only [World.work, hl] at hwork
          obtain rfl := Option.some.inj hwork
          simp only [hy.inserted rfl, Option.map_none]

/-- Both handlers without their events. -/
def outline (limit : Option NonZeroUsize) (batch : Bool) (initial locked : Reading) (items : List AddItem)
    (prepared : List PreparedRegistration) : List Act :=
  match (failureOf limit initial (items.map AddItem.name)).or (failureOf limit locked (items.map AddItem.name)) with
  | some error => refusal batch (watchers items) error
  | none => prepared.map .insert ++ settle prepared

theorem Handled.names {req : AddRequest} (h : Handled cfg w seen acts w') (hjob : w.job = some (.names req)) :
    ∃ latch initial locked, ReadIn seen initial ∧ ReadIn seen locked ∧
      acts = outline cfg.maxRegisteredTasks req.batch initial locked req.items (World.prepareItems latch req.items).1 := by
  obtain ⟨u, hu, v, seen', acts', hwork, hv, hsub, rfl⟩ := h.next hjob
  cases hf : World.firstConflict (World.takenName u.core) [] (req.items.map AddItem.name) with
  | some name =>
      have hread : ReadIn seen (reading u u u) := ⟨u, hu, u, hu, u, hu, rfl⟩
      refine ⟨0, reading u u u, reading u u u, hread, hread, ?_⟩
      simp only [World.work, hf] at hwork
      obtain rfl := Option.some.inj hwork
      rw [outline, failureOf_reading, hf, hv.ended rfl]
      simp only [actsOf, hf, List.append_nil, Option.map_some, Option.some_or]
  | none =>
      simp only [World.work, hf] at hwork
      obtain rfl := Option.some.inj hwork
      obtain ⟨x, hx, y, seen'', acts₂, hwork, hy, hsub', rfl⟩ := hv.next rfl
      have hread : ReadIn seen (reading u u x) := ⟨u, hu, u, hu, x, hsub hx, rfl⟩
      cases hl : World.registeredLimitExceeded cfg x.core (Table.size u.core.tasks) req.items.length with
      | some limit =>
          refine ⟨0, reading u u x, reading u u x, hread, hread, ?_⟩
          simp only [World.work, hl] at hwork
          obtain rfl := Option.some.inj hwork
          rw [outline, failureOf_reading, hf, List.length_map, hl, hy.ended rfl]
          simp only [actsOf, hf, hl, List.append_nil, List.nil_append, Option.map_none, Option.none_or, Option.map_some,
            Option.some_or]
      | none =>
          simp only [World.work, hl] at hwork
          obtain rfl := Option.some.inj hwork
          obtain ⟨z, -, t, seen₃, acts₃, hwork, ht, hsub₃, rfl⟩ := hy.next rfl
          obtain rfl := Option.some.inj hwork
          obtain ⟨locked, hlocked, rfl⟩ := ht.lockedNames rfl
          have hwithin : seen₃ ⊆ seen := fun s hs => hsub (hsub' (hsub₃ hs))
          have hreadLocked : ReadIn seen locked := by
            obtain ⟨n, hn, s, hs, a, ha, he⟩ := hlocked
            exact ⟨n, hwithin hn, s, hwithin hs, a, hwithin ha, he⟩
          refine ⟨z.nextLatch, reading u u x, locked, hread, hreadLocked, ?_⟩
          have hnames : (World.prepareItems z.nextLatch req.items).1.map PreparedRegistration.name =
              req.items.map AddItem.name := prepareItems_map z.nextLatch req.items fun fields => fields.2.1
          have hwatchers : (World.prepareItems z.nextLatch req.items).1.map (fun p => (p.id, p.done)) = watchers req.items :=
            prepareItems_map z.nextLatch req.items fun fields => (fields.1, fields.2.2)
          simp only [actsOf, hf, hl, List.nil_append, hnames, hwatchers, outline]
          rw [failureOf_reading, hf, List.length_map, hl]
          rfl

theorem filter_reports {reports : List Act} (h : ∀ act ∈ reports, recorded act = false) (act : Act)
    (ha : recorded act = true) : (reports ++ [act]).filter recorded = [act] := by
  rw [List.filter_append, List.filter_eq_nil_iff.mpr fun a hm => by simp [h a hm]]
  simp [ha]

theorem rejectBatch_outline (limit : Option NonZeroUsize) (r : Reading) (keys : List Key)
    (watchers : List (TaskId × Option OutcomeTx)) :
    (rejectBatch limit r keys).map (List.filter recorded) =
      (failureOf limit r (keys.map Prod.snd)).map (refusal true watchers) := by
  simp only [rejectBatch, failureOf, conflictsOf_firstConflict, List.length_map]
  cases World.firstConflict r.taken [] (keys.map Prod.snd) with
  | some name =>
      refine congrArg some (filter_reports (fun act hact => ?_) _ rfl)
      obtain ⟨key, -, rfl⟩ := List.mem_map.mp hact
      unfold conflictReport
      split <;> rfl
  | none =>
      simp only [Option.map_none, Option.none_or, Option.map_map]
      refine congrArg (Option.map · _) (funext fun l => filter_reports (fun act hact => ?_) _ rfl)
      obtain ⟨key, -, rfl⟩ := List.mem_map.mp hact
      rfl

theorem filter_commit (prepared : List PreparedRegistration) :
    (commit prepared).filter recorded = prepared.map .insert ++ settle prepared := by
  have hmap (f : PreparedRegistration → Act) (hf : ∀ p, recorded (f p) = true) :
      (prepared.map f).filter recorded = prepared.map f := by
    refine List.filter_eq_self.mpr fun act hact => ?_
    obtain ⟨p, -, rfl⟩ := List.mem_map.mp hact
    exact hf p
  have hadded : (prepared.map fun p => Act.publishAdded p.id p.name).filter recorded = [] := by
    refine List.filter_eq_nil_iff.mpr fun act hact => ?_
    obtain ⟨p, -, rfl⟩ := List.mem_map.mp hact
    exact Bool.false_ne_true
  simp only [commit, List.filter_append, hmap Act.insert fun _ => rfl, hadded, hmap Act.schedule fun _ => rfl,
    List.append_assoc]
  rfl

theorem batch_outline (items : List AddBatchItem) :
    (spawnAndRegisterBatch limit latch initial locked items).filter recorded =
      outline limit true initial locked (items.map AddBatchItem.item) (prepareBatch latch items) := by
  have hnames : (items.map AddBatchItem.item).map AddItem.name = (items.map AddBatchItem.key).map Prod.snd := by
    rw [List.map_map, List.map_map]
    rfl
  have hinitial := rejectBatch_outline limit initial (items.map AddBatchItem.key) (watchers (items.map AddBatchItem.item))
  have hlocked := rejectBatch_outline limit locked (items.map AddBatchItem.key) (watchers (items.map AddBatchItem.item))
  rw [spawnAndRegisterBatch_eq, getD_agrees hinitial hlocked, filter_commit, outline, hnames]
  cases (failureOf limit initial _).or (failureOf limit locked _) <;> rfl

theorem validate_eq (name : String) : validate limit r name = failureOf limit r [name] := by
  unfold validate failureOf World.firstConflict
  by_cases h : r.taken name = true
  · simp [h]
  · simp [h, World.firstConflict]

theorem single_outline (item : AddItem) :
    (spawnAndRegister limit latch initial locked item).filter recorded =
      outline limit false initial locked [item] (World.prepareItems latch [item]).1 := by
  have hprepared : (World.prepareItems latch [item]).1 = [prepareRegistration latch item] := by
    unfold World.prepareItems prepareRegistration
    split <;> simp [World.prepareItems, *]
  rw [hprepared, spawnAndRegister_eq, outline, validate_eq, validate_eq]
  simp only [List.map_cons, List.map_nil]
  cases (failureOf limit initial [item.name]).or (failureOf limit locked [item.name]) <;> rfl

/-- A run that sees the handler return contains its statements. -/
theorem handled_of_after {l : List World.Action} (h : (machine cfg).after w l = some w') (hbusy : w.job.isSome)
    (hjob : w'.job = none) :
    ∃ l₁ l₂ v seen acts, l = l₁ ++ l₂ ∧ (machine cfg).after w l₁ = some v ∧ Handled cfg w seen acts v := by
  induction l generalizing w with
  | nil =>
      cases h
      rw [hjob] at hbusy
      cases hbusy
  | cons a l ih =>
      obtain ⟨u, hu, hl⟩ := Option.bind_eq_some_iff.mp h
      have hextend {l₁ : List World.Action} {v : World} (hv : (machine cfg).after u l₁ = some v) :
          (machine cfg).after w (a :: l₁) = some v := by
        rw [Machine.after_cons, show (machine cfg).step w a = some u from hu]
        exact hv
      by_cases ha : a = .work
      · subst ha
        obtain ⟨job, hj, hwork⟩ := Option.bind_eq_some_iff.mp hu
        cases hn : u.job with
        | none => exact ⟨[.work], l, u, _, _, rfl, hextend rfl, .work job hj hwork (.returned u hn)⟩
        | some job' =>
            obtain ⟨l₁, l₂, v, seen, acts, rfl, hv, hhandled⟩ := ih hl (by rw [hn]; rfl)
            exact ⟨.work :: l₁, l₂, v, _, _, rfl, hextend hv, .work job hj hwork hhandled⟩
      · obtain ⟨l₁, l₂, v, seen, acts, rfl, hv, hhandled⟩ := ih hl (by rw [other_job hu hbusy ha]; exact hbusy)
        exact ⟨a :: l₁, l₂, v, _, _, rfl, hextend hv, .other a hbusy ha hu hhandled⟩

/-- The tasks and the reply of the command an admission came with. -/
def source : Option Job → Option (List TaskId × Reply)
  | some (.names req) | some (.limit req _) | some (.prepare req) => some (req.items.map AddItem.id, req.reply)
  | some (.lockedNames reg) | some (.lockedLimit reg) | some (.inserted reg) | some (.spawning _ reg) =>
    some (reg.items.map PreparedRegistration.id, reg.reply)
  | _ => none

def okReply (reply : Reply) : Decision := ⟨reply, none, .add (.ok ())⟩

/-- The task came with a command that was told `Ok`. -/
def Granted (w : World) (id : TaskId) : Prop :=
  ∃ command ∈ w.taken, id ∈ command.items.map AddItem.id ∧ okReply command.reply ∈ w.replies

theorem Granted.mono {id : TaskId} (h : Granted w id) (htaken : w.taken ⊆ w'.taken) (hreplies : w.replies ⊆ w'.replies) :
    Granted w' id := by
  obtain ⟨command, hcommand, hid, hreply⟩ := h
  exact ⟨command, htaken hcommand, hid, hreplies hreply⟩

/-- Actors are spawned only for tasks whose reply is sent. -/
structure Sourced (w : World) : Prop where
  taken : ∀ ids reply, source w.job = some (ids, reply) →
    ∃ command ∈ w.taken, command.items.map AddItem.id = ids ∧ command.reply = reply
  spawning : ∀ rest reg, w.job = some (.spawning rest reg) → okReply reg.reply ∈ w.replies ∧ ∀ p ∈ rest, p ∈ reg.items
  actors : ∀ id, (w.core.actors.lookup id).isSome → Granted w id

theorem Sourced.new : Sourced World.new :=
  ⟨(fun _ _ h => nomatch h), (fun _ _ h => nomatch h), fun id h => by simp [World.new, Core.new] at h⟩

theorem Sourced.peopled (h : Sourced w) (hp : Peopled w.core w'.core) (htaken : w.taken ⊆ w'.taken)
    (hreplies : w.replies ⊆ w'.replies) : ∀ id, (w'.core.actors.lookup id).isSome → Granted w' id := by
  intro id ha
  rw [hp] at ha
  exact (h.actors id ha).mono htaken hreplies

/-- The handler stands where it stood. -/
theorem Sourced.stay (h : Sourced w) (hp : Peopled w.core w'.core) (htaken : w'.taken = w.taken)
    (hreplies : w'.replies = w.replies) (hjob : w'.job = w.job) : Sourced w' where
  taken := by rw [hjob, htaken]; exact h.taken
  spawning := by rw [hjob, hreplies]; exact h.spawning
  actors := h.peopled hp (htaken ▸ fun _ hx => hx) (hreplies ▸ fun _ hx => hx)

/-- The handler moves on inside the same admission, or to no admission. -/
theorem Sourced.move (h : Sourced w) (hp : Peopled w.core w'.core) (htaken : w'.taken = w.taken)
    (hreplies : w.replies ⊆ w'.replies) (hsource : source w'.job = none ∨ source w'.job = source w.job)
    (hspawn : ∀ rest reg, w'.job ≠ some (.spawning rest reg)) : Sourced w' where
  taken := by
    rw [htaken]
    rcases hsource with hs | hs
    · rw [hs]; exact fun _ _ hx => nomatch hx
    · rw [hs]; exact h.taken
  spawning := fun rest reg hj => absurd hj (hspawn rest reg)
  actors := h.peopled hp (htaken ▸ fun _ hx => hx) hreplies

theorem claimAll_peopled {c : Core} {kind : OwnerKind} (ids : List TaskId) : Peopled c (c.claimAll kind ids) :=
  .same (claimAll_actors kind ids)

theorem launchAll_peopled {c : Core} (kind : OwnerKind) : Peopled c (World.launchAll c kind) :=
  .same (launchAll_actors kind)

theorem Sourced.work (h : Sourced w) (hjob : w.job = some job) (hs : Worked w job w') : Sourced w' := by
  have hmove {v : World} (hp : Peopled w.core v.core) (htaken : v.taken = w.taken) (hreplies : w.replies ⊆ v.replies)
      (hsource : source v.job = none ∨ source v.job = source (some job))
      (hspawn : ∀ rest reg, v.job ≠ some (.spawning rest reg)) : Sourced v :=
    h.move hp htaken hreplies (hjob ▸ hsource) hspawn
  have hmore (d : Decision) : w.replies ⊆ w.replies ++ [d] := fun _ hx => List.mem_append_left _ hx
  cases hs with
  | reject job reply batch watchers error _ _ => exact hmove (.same rfl) rfl (hmore _) (.inl rfl) fun _ _ hx => nomatch hx
  | names req current => exact hmove (.same rfl) rfl (fun _ hx => hx) (.inr rfl) fun _ _ hx => nomatch hx
  | limit req current => exact hmove (.same rfl) rfl (fun _ hx => hx) (.inr rfl) fun _ _ hx => nomatch hx
  | prepare req =>
      refine hmove (.same rfl) rfl (fun _ hx => hx) (.inr ?_) fun _ _ hx => nomatch hx
      exact congrArg (fun ids => some (ids, req.reply)) (prepareItems_map w.nextLatch req.items fun fields => fields.1)
  | free reg _ => exact hmove (.same rfl) rfl (fun _ hx => hx) (.inr rfl) fun _ _ hx => nomatch hx
  | insert reg => exact hmove (.same (insertAll_actors _)) rfl (fun _ hx => hx) (.inr rfl) fun _ _ hx => nomatch hx
  | accept reg =>
      refine ⟨fun ids reply hsource => h.taken ids reply (by rw [hjob]; exact hsource), fun rest reg' hx => ?_,
        h.peopled (.same rfl) (fun _ hx => hx) (hmore _)⟩
      cases hx
      exact ⟨List.mem_append_right _ List.mem_cons_self, fun p hp => hp⟩
  | spawn item rest reg =>
      obtain ⟨hreply, hrest⟩ := h.spawning (item :: rest) reg hjob
      obtain ⟨command, hcommand, hids, hcmd⟩ := h.taken _ reg.reply (by rw [hjob]; rfl)
      refine ⟨fun ids reply hsource => h.taken ids reply (by rw [hjob]; exact hsource), fun rest' reg' hx => ?_,
        fun id ha => ?_⟩
      · cases hx
        exact ⟨hreply, fun p hp => hrest p (List.mem_cons_of_mem _ hp)⟩
      · change ((w.core.actors.insert item.id _).lookup id).isSome at ha
        rw [Table.lookup_insert_ite] at ha
        split at ha
        · next hid =>
          refine ⟨command, hcommand, ?_, hcmd ▸ hreply⟩
          rw [hids, hid]
          exact List.mem_map_of_mem (hrest item List.mem_cons_self)
        · exact h.actors id ha
  | openGate reg => exact hmove (openGate_peopled _) rfl (fun _ hx => hx) (.inl rfl) fun _ _ hx => nomatch hx
  | lose job target d hj => exact hmove (.same rfl) rfl (hmore _) (.inl rfl) fun _ _ hx => nomatch hx
  | win job target d id key core hj htarget hclaim =>
      exact hmove (claim_peopled hclaim) rfl (fun _ hx => hx) (.inl rfl) fun _ _ hx => nomatch hx
  | cancelToken key d =>
      obtain ⟨reply, target, answer⟩ := d
      cases target <;> exact hmove (.same rfl) rfl (fun _ hx => hx) (.inl rfl) fun _ _ hx => nomatch hx
  | reply key d => exact hmove (.same rfl) rfl (hmore _) (.inl rfl) fun _ _ hx => nomatch hx
  | launch key d => exact hmove (launch_peopled key .detached) rfl (fun _ hx => hx) (.inl rfl) fun _ _ hx => nomatch hx
  | signal id key core hclaim =>
      exact hmove (claim_peopled hclaim) rfl (fun _ hx => hx) (.inl rfl) fun _ _ hx => nomatch hx
  | stale id => exact hmove (.same rfl) rfl (fun _ hx => hx) (.inl rfl) fun _ _ hx => nomatch hx
  | ready key => exact hmove (launch_peopled key .inline) rfl (fun _ hx => hx) (.inl rfl) fun _ _ hx => nomatch hx
  | unready key => exact hmove (launch_peopled key .detached) rfl (fun _ hx => hx) (.inl rfl) fun _ _ hx => nomatch hx
  | joined key => exact hmove (.same rfl) rfl (fun _ hx => hx) (.inl rfl) fun _ _ hx => nomatch hx

theorem Sourced.listen (h : Sourced w) (hs : Listened w w') : Sourced w' := by
  have hstay {v : World} (hp : Peopled w.core v.core) (htaken : v.taken = w.taken) (hreplies : v.replies = w.replies)
      (hj : v.job = w.job) : Sourced v := h.stay hp htaken hreplies hj
  cases hs with
  | command command rest mode _ _ =>
      refine ⟨fun ids reply hsource => ?_, fun rest reg hx => ?_,
        h.peopled (.same rfl) (fun _ hx => List.mem_append_left _ hx) fun _ hx => hx⟩
      · refine ⟨command, List.mem_append_right _ List.mem_cons_self, ?_⟩
        cases command <;> cases hsource <;> exact ⟨rfl, rfl⟩
      · cases command <;> cases hx
  | completion id rest _ _ =>
      exact h.move (.same rfl) rfl (fun _ hx => hx) (.inl rfl) fun _ _ hx => nomatch hx
  | claim => exact hstay (claimAll_peopled _) rfl rfl rfl
  | cancel => exact hstay (launchAll_peopled _) rfl rfl rfl
  | _ => exact hstay (.same rfl) rfl rfl rfl

theorem Sourced.step (h : Sourced w) (hs : Stepped cfg w a w') : Sourced w' := by
  cases hs with
  | call key caller v hk hcall => cases hcall <;> exact h.stay (.same rfl) rfl rfl rfl
  | shutdownStep instr todo v htodo hstep =>
      cases shutdownStep_cases hstep with
      | claim => exact h.stay (claimAll_peopled _) rfl rfl rfl
      | cancel => exact h.stay (launchAll_peopled _) rfl rfl rfl
      | _ => exact h.stay (.same rfl) rfl rfl rfl
  | listen branch v _ hlisten => exact h.listen hlisten
  | work job v hjob hwork => exact h.work hjob hwork
  | owner key action o core ho hfree hcore => exact h.stay (stepOwner_peopled hcore) rfl rfl rfl
  | reap key poisoned core hcore => exact h.stay (.same (stepReap_actors hcore)) rfl rfl rfl
  | actor id action core completions hcore => exact h.stay (stepActor_peopled hcore) rfl rfl rfl
  | _ => exact h.stay (.same rfl) rfl rfl rfl

theorem sourced_of_reachable (h : (machine cfg).Reachable w) : Sourced w :=
  h.invariant Sourced.new fun _ _ _ _ hs hstep => hs.step (step_cases hstep)

/-- A batch comes without watchers and latches. -/
def Bare (command : RegistryCommand) : Prop :=
  ∀ items reply, command = .addBatch items reply → ∃ l : List AddBatchItem, items = l.map AddBatchItem.item

theorem command_bare (call : Call) (reply : Reply) (latch : RemovalCompletion) : Bare (call.command reply latch) := by
  intro items reply' he
  cases call with
  | addBatch l =>
      cases he
      exact ⟨l.map fun item => ⟨item.id, item.name⟩, by simp [AddBatchItem.item, Function.comp_def]⟩
  | _ => cases he

/-- An admission at its first statement is that of a command. -/
structure Entered (w : World) : Prop where
  sent : ∀ command ∈ w.sent, Bare command
  names : ∀ req, w.job = some (.names req) → ∃ command ∈ w.taken, World.start command = .names req

theorem Entered.keep (h : Entered w) (hsent : w'.sent = w.sent) (htaken : w'.taken = w.taken)
    (hjob : ∀ req, w'.job = some (.names req) → w.job = some (.names req)) : Entered w' :=
  ⟨hsent ▸ h.sent, fun req hj => htaken ▸ h.names req (hjob req hj)⟩

theorem Worked.leaves (hs : Worked w job w') (req : AddRequest) : w'.job ≠ some (.names req) := by
  cases hs <;> exact fun hx => nomatch hx

theorem Entered.step (h : Entered w) (hs : Stepped cfg w a w') : Entered w' := by
  cases hs with
  | call key caller v hk hcall =>
      cases hcall with
      | sent todo permits htodo =>
          refine ⟨fun command hm => ?_, h.names⟩
          rcases List.mem_append.mp hm with hm | hm
          · exact h.sent command hm
          · rw [List.mem_singleton.mp hm]
            exact command_bare caller.call key w.nextLatch
      | _ => exact h.keep rfl rfl fun _ hx => hx
  | shutdownStep instr todo v htodo hstep => cases shutdownStep_cases hstep <;> exact h.keep rfl rfl fun _ hx => hx
  | listen branch v _ hlisten =>
      cases hlisten with
      | command command rest mode _ _ =>
          exact ⟨h.sent, fun req hx => ⟨command, List.mem_append_right _ List.mem_cons_self, Option.some.inj hx⟩⟩
      | completion id rest _ _ => exact h.keep rfl rfl fun _ hx => nomatch hx
      | _ => exact h.keep rfl rfl fun _ hx => hx
  | work job v hjob hwork =>
      exact h.keep hwork.frame.sent hwork.frame.taken fun req hx => absurd hx (Worked.leaves hwork req)
  | _ => exact h.keep rfl rfl fun _ hx => hx

theorem entered_of_reachable (h : (machine cfg).Reachable w) : Entered w :=
  h.invariant ⟨(fun _ hm => nomatch hm), fun _ hx => nomatch hx⟩ fun _ _ _ _ hs hstep => hs.step (step_cases hstep)

/-- The acts of a handler are those of one of the two functions, on what its
checks read. -/
def Refines (cfg : RegistryConfig) (req : AddRequest) (seen : List World) (acts : List Act) : Prop :=
  ∃ latch initial locked, ReadIn seen initial ∧ ReadIn seen locked ∧
    ((∃ item, req.items = [item] ∧ req.batch = false ∧
        acts = (spawnAndRegister cfg.maxRegisteredTasks latch initial locked item).filter recorded) ∨
      ∃ items, req.items = items.map AddBatchItem.item ∧ req.batch = true ∧ (items.map AddBatchItem.id).Nodup ∧
        acts = (spawnAndRegisterBatch cfg.maxRegisteredTasks latch initial locked items).filter recorded)

theorem handled_refines (hw : (machine cfg).Reachable w) {req : AddRequest} (hjob : w.job = some (.names req))
    (h : Handled cfg w seen acts w') : Refines cfg req seen acts := by
  have hst := steady_of_reachable hw
  have hent := entered_of_reachable hw
  obtain ⟨command, hcommand, hstart⟩ := hent.names req hjob
  have hbare : Bare command := hent.sent command (hst.fenced.order ▸ List.mem_append_left _ hcommand)
  have hids : (req.items.map AddItem.id).Nodup := by
    have := hst.incoming.requests_nodup
    rwa [hjob] at this
  obtain ⟨latch, initial, locked, hinitial, hlocked, rfl⟩ := h.names hjob
  refine ⟨latch, initial, locked, hinitial, hlocked, ?_⟩
  cases command with
  | add item reply =>
      cases hstart
      exact .inl ⟨item, rfl, rfl, (single_outline item).symm⟩
  | addBatch items reply =>
      obtain ⟨l, rfl⟩ := hbare items reply rfl
      cases hstart
      rw [List.map_map] at hids
      exact .inr ⟨l, rfl, rfl, hids, (batch_outline l).symm⟩
  | remove target reply => cases hstart
  | cancel target reply => cases hstart

/-- Everything one batch decides, whatever its two checks read. -/
structure Decides (limit : Option NonZeroUsize) (latch : RemovalCompletion) (initial locked : Reading)
    (items : List AddBatchItem) (acts : List Act) : Prop where
  accepted : Act.reply (.ok ()) ∈ acts ↔ Admissible limit initial (names items) ∧ Admissible limit locked (names items)
  committed : Act.reply (.ok ()) ∈ acts →
    acts = commit (prepareBatch latch items) ∧ ∀ c, Indexed (prepareBatch latch items) c (acts.foldl Act.run c)
  refused : Act.reply (.ok ()) ∉ acts → Refusal acts ∧ ∀ c, acts.foldl Act.run c = c
  initialConflict : Conflicted initial.taken items → NamesReported initial.taken items acts
  lockedConflict : Admissible limit initial (names items) → Conflicted locked.taken items →
    NamesReported locked.taken items acts

theorem spawnAndRegisterBatch_decides {items : List AddBatchItem} (hids : (items.map AddBatchItem.id).Nodup) :
    Decides limit latch initial locked items (spawnAndRegisterBatch limit latch initial locked items) := by
  refine ⟨batch_accepted, fun hok => ?_, fun hok => ?_, initial_conflict hids, locked_conflict hids⟩
  · obtain ⟨hinitial, hlocked⟩ := batch_accepted.mp hok
    have hpreparedIds : ((prepareBatch latch items).map PreparedRegistration.id).Nodup := by
      have hkeys := congrArg (List.map Prod.fst) (prepareBatch_keys latch items)
      rw [keys_ids, List.map_map] at hkeys
      exact hkeys ▸ hids
    have hpreparedNames : ((prepareBatch latch items).map PreparedRegistration.name).Nodup := by
      have hkeys := congrArg (List.map Prod.snd) (prepareBatch_keys latch items)
      rw [keys_names, List.map_map] at hkeys
      exact hkeys ▸ hinitial.distinct
    rw [batch_commit hinitial hlocked]
    exact ⟨rfl, fun c => commit_indexed c hpreparedIds hpreparedNames⟩
  · have hrefusal : Refusal (spawnAndRegisterBatch limit latch initial locked items) :=
      batch_refusal (mt batch_accepted.mpr hok)
    exact ⟨hrefusal, hrefusal.run⟩

theorem admission_atomicity (hw : (machine cfg).Reachable w) :
    (∀ limit latch initial locked (items : List AddBatchItem), (items.map AddBatchItem.id).Nodup →
      Decides limit latch initial locked items (spawnAndRegisterBatch limit latch initial locked items)) ∧
    (∀ limit latch initial locked (item : AddItem),
      decision (spawnAndRegisterBatch limit latch initial locked [⟨item.id, item.name⟩]) =
        decision (spawnAndRegister limit latch initial locked item)) ∧
    (∀ req l w', w.job = some (.names req) → (machine cfg).after w l = some w' → w'.job = none →
      ∃ l₁ l₂ v seen acts, l = l₁ ++ l₂ ∧ (machine cfg).after w l₁ = some v ∧ Handled cfg w seen acts v ∧
        Refines cfg req seen acts) ∧
    (∀ job v, w.work cfg job = some v → admitting job = true → Carried (unanswered job) (actsOf cfg w job) w v) ∧
    ∀ id a, w.core.actors.lookup id = some a → (w.core.born.lookup id).isSome ∧ Granted w id := by
  refine ⟨fun _ _ _ _ _ hids => spawnAndRegisterBatch_decides hids, fun _ _ _ _ item => batch_of_one item,
    fun req l w' hjob hl hreturned => ?_, fun job v hs ha => work_carried hs ha, fun id a ha => ⟨?_, ?_⟩⟩
  · obtain ⟨l₁, l₂, v, seen, acts, he, hv, hhandled⟩ := handled_of_after hl (by rw [hjob]; rfl) hreturned
    exact ⟨l₁, l₂, v, seen, acts, he, hv, hhandled, handled_refines hw hjob hhandled⟩
  · cases hb : w.core.born.lookup id with
    | some s => rfl
    | none =>
        have hblank := ((steady_of_reachable hw).settled.sound.blank id hb).actor
        change w.core.actors.lookup id = none at hblank
        rw [ha] at hblank
        cases hblank
  · exact (sourced_of_reachable hw).actors id (by rw [ha]; rfl)

def vacant : Reading := ⟨fun _ => false, fun _ => false, 0, 0⟩

def entering (w : World) : Bool :=
  match w.job with
  | some (.names _) => true
  | _ => false

theorem admission_atomicity_added :
    (spawnAndRegisterBatch none 0 vacant vacant [⟨1, "b"⟩, ⟨2, "a"⟩, ⟨3, "a"⟩])[1]? =
      some (.publishAddFailed 2 "a" .batchRejected batchRejected) ∧
    (spawnAndRegisterBatch none 0 vacant vacant [⟨1, "b"⟩, ⟨2, "a"⟩, ⟨3, "a"⟩])[2]? =
      some (.publishAddFailed 3 "a" .alreadyExists Reasons.alreadyExists) ∧
    ∃ w v, (machine smallConfig).after World.new (sendRun 0 (.addTask ⟨1, "a", some 10, none⟩)) = some w ∧
      (machine smallConfig).after World.new addRun = some v ∧
      (∃ req u seen acts, w.job = some (.names req) ∧ Handled smallConfig w seen acts u ∧ Refines smallConfig req seen acts) ∧
      ∃ a, v.core.actors.lookup 1 = some a ∧ a.phase = .running ∧ Granted v 1 := by
  obtain ⟨w, hw, hp⟩ := (Option.any_eq_true (fun w : World => entering w) _).mp
    (show ((machine smallConfig).after World.new (sendRun 0 (.addTask ⟨1, "a", some 10, none⟩))).any _ = true by
      decide +kernel)
  obtain ⟨v, hv, hq⟩ := (Option.any_eq_true (fun v : World => decide (v.job.isNone = true ∧
      (v.core.actors.lookup 1).map Actor.phase = some .running)) _).mp
    (show ((machine smallConfig).after World.new addRun).any _ = true by decide +kernel)
  obtain ⟨hreturned, hrunning⟩ := of_decide_eq_true hq
  obtain ⟨a, ha, hphase⟩ := Option.map_eq_some_iff.mp hrunning
  obtain ⟨hbatch, -, hrun, -, -⟩ := admission_atomicity (Machine.Reachable.after (M := machine smallConfig) .init hw)
  obtain ⟨-, -, -, -, hactors⟩ := admission_atomicity (Machine.Reachable.after (M := machine smallConfig) .init hv)
  have hnames : ∃ req, w.job = some (.names req) := by
    unfold entering at hp
    split at hp
    · next req hj => exact ⟨req, hj⟩
    · cases hp
  obtain ⟨req, hreq⟩ := hnames
  have hlater : (machine smallConfig).after w (List.replicate 8 .work) = some v := by
    have hsplit := hv
    rw [addRun, Machine.after, List.foldlM_append] at hsplit
    rw [Machine.after] at hw
    rw [hw] at hsplit
    exact hsplit
  obtain ⟨l₁, l₂, u, seen, acts, -, -, hhandled, hrefines⟩ := hrun req _ v hreq hlater (by simpa using hreturned)
  have hconflict : Conflicted vacant.taken [⟨1, "b"⟩, ⟨2, "a"⟩, ⟨3, "a"⟩] :=
    ⟨[⟨1, "b"⟩, ⟨2, "a"⟩], ⟨3, "a"⟩, [], rfl, .inr (by decide)⟩
  have hdecides := hbatch none 0 vacant vacant [⟨1, "b"⟩, ⟨2, "a"⟩, ⟨3, "a"⟩] (by decide)
  have hreports := (hdecides.initialConflict hconflict).reports
  refine ⟨?_, ?_, w, v, hw, hv, ⟨req, u, seen, acts, hreq, hhandled, hrefines⟩, a, ha, hphase, (hactors 1 a ha).2⟩
  · exact hreports [⟨1, "b"⟩] ⟨2, "a"⟩ [⟨3, "a"⟩] rfl
  · exact hreports [⟨1, "b"⟩, ⟨2, "a"⟩] ⟨3, "a"⟩ [] rfl

end Taskvisor.Registry.Commitment
