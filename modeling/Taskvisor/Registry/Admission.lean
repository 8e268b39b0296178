import Taskvisor.Registry.Reach

namespace Taskvisor.Registry.Admission

open Lib Runtime.Base Reaper State Listener

abbrev Key := TaskId × String

/-- What one check reads: the names of the registry and of the reaper, the
number of entries, and the number of attempts the reaper holds. -/
structure Reading where
  byName : String → Bool
  reserves : String → Bool
  current : Nat
  reaping : Nat

def Reading.taken (r : Reading) (name : String) : Bool := r.byName name || r.reserves name

/-- A batch item has no watcher and no latch of its own. -/
structure AddBatchItem where
  id : TaskId
  name : String

namespace AddBatchItem

def key (item : AddBatchItem) : Key := (item.id, item.name)

def item (item : AddBatchItem) : AddItem := ⟨item.id, item.name, none, none⟩

end AddBatchItem

/-- The shared effects of an admission, in program order. -/
inductive Act
  | insert (item : PreparedRegistration)
  | publishAdded (id : TaskId) (name : String)
  | publishAddFailed (id : TaskId) (name : String) (kind : RejectionKind) (reason : String)
  | reply (result : Except RuntimeError Unit)
  | deliver (id : TaskId) (done : Option OutcomeTx) (outcome : TaskOutcome)
  | schedule (item : PreparedRegistration)
  | openGate (items : List PreparedRegistration)

def registeredLimitExceeded (limit : Option NonZeroUsize) (current reaping incoming : Nat) : Option Nat :=
  limit.bind fun limit =>
    match (checkedAdd current reaping).bind (checkedAdd · incoming) with
    | some total => if limit.get < total then some limit.get else none
    | none => some limit.get

/-- `seen`, `conflicting_ids` and `first_conflict` of one check of a batch. -/
structure Conflicts where
  seen : List String
  conflictingIds : List TaskId
  firstConflict : Option String

def Conflicts.visit (taken : String → Bool) (conflicts : Conflicts) (item : Key) : Conflicts :=
  let repeatsInBatch := decide (item.2 ∈ conflicts.seen)
  if taken item.2 || repeatsInBatch then
    ⟨item.2 :: conflicts.seen, item.1 :: conflicts.conflictingIds, conflicts.firstConflict.or (some item.2)⟩
  else { conflicts with seen := item.2 :: conflicts.seen }

def conflictsOf (taken : String → Bool) (items : List Key) : Conflicts :=
  items.foldl (Conflicts.visit taken) ⟨[], [], none⟩

def batchRejected : String := "another item rejected the all-or-nothing batch"

def conflictReport (conflictingIds : List TaskId) (item : Key) : Act :=
  if item.1 ∈ conflictingIds then .publishAddFailed item.1 item.2 .alreadyExists Reasons.alreadyExists
  else .publishAddFailed item.1 item.2 .batchRejected batchRejected

def limitReport (current limit : Nat) (item : Key) : Act :=
  .publishAddFailed item.1 item.2 .resourceLimit
    (Reasons.registeredTaskLimit ++ ": " ++ toString current ++ "/" ++ toString limit)

/-- The rejection of a batch by one check, whether before the preparation or
under the write lock. -/
def rejectBatch (limit : Option NonZeroUsize) (r : Reading) (items : List Key) : Option (List Act) :=
  let conflicts := conflictsOf r.taken items
  match conflicts.firstConflict with
  | some name =>
    some (items.map (conflictReport conflicts.conflictingIds) ++ [.reply (.error (.taskAlreadyExists name))])
  | none =>
    (registeredLimitExceeded limit r.current r.reaping items.length).map fun limit =>
      items.map (limitReport r.current limit) ++ [.reply (.error (.resourceLimitReached "registered_tasks" limit))]

/-- The indexes, the events, the reply, the actors, the shared gate. -/
def commit (prepared : List PreparedRegistration) : List Act :=
  prepared.map .insert ++ prepared.map (fun item => .publishAdded item.id item.name) ++ [.reply (.ok ())] ++
    prepared.map .schedule ++ [.openGate prepared]

/-- `prepare_registration` for each item, with a latch of its own. -/
def prepareBatch (latch : RemovalCompletion) (items : List AddBatchItem) : List PreparedRegistration :=
  (World.prepareItems latch (items.map AddBatchItem.item)).1

def spawnAndRegisterBatch (limit : Option NonZeroUsize) (latch : RemovalCompletion) (initial locked : Reading)
    (items : List AddBatchItem) : List Act :=
  match rejectBatch limit initial (items.map AddBatchItem.key) with
  | some acts => acts
  | none =>
    let prepared := prepareBatch latch items
    match rejectBatch limit locked (prepared.map fun item => (item.id, item.name)) with
    | some acts => acts
    | none => commit prepared

def validate (limit : Option NonZeroUsize) (r : Reading) (name : String) : Option (RuntimeError × RejectionKind × String) :=
  if r.taken name then some (World.alreadyExists name)
  else (registeredLimitExceeded limit r.current r.reaping 1).map World.limitReached

def rejectAdd (item : AddItem) (error : RuntimeError × RejectionKind × String) : List Act :=
  [.reply (.error error.1), .deliver item.id item.done (.rejected error.2.1 error.2.2),
    .publishAddFailed item.id item.name error.2.1 error.2.2]

def prepareRegistration (latch : RemovalCompletion) (item : AddItem) : PreparedRegistration :=
  ⟨item.id, item.name, item.done, item.completion.getD latch⟩

def spawnAndRegister (limit : Option NonZeroUsize) (latch : RemovalCompletion) (initial locked : Reading)
    (item : AddItem) : List Act :=
  match validate limit initial item.name with
  | some error => rejectAdd item error
  | none =>
    let prepared := prepareRegistration latch item
    match validate limit locked prepared.name with
    | some error => rejectAdd item error
    | none =>
      [.insert prepared, .publishAdded prepared.id prepared.name, .reply (.ok ()), .schedule prepared, .openGate [prepared]]

/-- The effect of an act on the registry. -/
def Act.run (c : Core) : Act → Core
  | .insert item => c.insertEntry item
  | .schedule item => c.spawn item
  | .openGate items => items.foldl Core.openGate c
  | _ => c

variable {limit : Option NonZeroUsize} {latch : RemovalCompletion} {r initial locked : Reading} {taken : String → Bool}
  {keys : List Key} {items : List AddBatchItem} {c : Core}

theorem registeredLimitExceeded_none {current reaping incoming : Nat} :
    registeredLimitExceeded limit current reaping incoming = none ↔
      ∀ l, limit = some l → current + reaping + incoming ≤ l.get := by
  cases limit with
  | none => simp [registeredLimitExceeded]
  | some l =>
      have hmax := l.le
      simp only [registeredLimitExceeded, Option.bind_some, checkedAdd, Option.some.injEq, forall_eq']
      by_cases h1 : current + reaping ≤ wordMax
      · rw [if_pos h1, Option.bind_some]
        by_cases h2 : current + reaping + incoming ≤ wordMax
        · rw [if_pos h2]
          by_cases h3 : l.get < current + reaping + incoming
          · simp only [if_pos h3, reduceCtorEq, false_iff]; omega
          · simp only [if_neg h3, true_iff]; omega
        · simp only [if_neg h2, reduceCtorEq, false_iff]; omega
      · simp only [if_neg h1, Option.bind_none, reduceCtorEq, false_iff]; omega

/-- The item is refused for its name: it is taken, or an earlier item has it. -/
def Clashes (taken : String → Bool) (earlier : List String) (name : String) : Prop := taken name = true ∨ name ∈ earlier

instance (earlier : List String) (name : String) : Decidable (Clashes taken earlier name) := instDecidableOr

theorem visit_eq (conflicts : Conflicts) (item : Key) :
    conflicts.visit taken item =
      if Clashes taken conflicts.seen item.2 then
        ⟨item.2 :: conflicts.seen, item.1 :: conflicts.conflictingIds, conflicts.firstConflict.or (some item.2)⟩
      else { conflicts with seen := item.2 :: conflicts.seen } := by
  simp [Conflicts.visit, Clashes]

theorem visit_seen (conflicts : Conflicts) (item : Key) : (conflicts.visit taken item).seen = item.2 :: conflicts.seen := by
  rw [visit_eq]
  split <;> rfl

theorem foldl_seen (conflicts : Conflicts) :
    (keys.foldl (Conflicts.visit taken) conflicts).seen = (keys.map Prod.snd).reverse ++ conflicts.seen := by
  induction keys generalizing conflicts with
  | nil => rfl
  | cons key keys ih => simp [ih, visit_seen]

theorem foldl_conflictingIds_mono {conflicts : Conflicts} {id : TaskId} (h : id ∈ conflicts.conflictingIds) :
    id ∈ (keys.foldl (Conflicts.visit taken) conflicts).conflictingIds := by
  induction keys generalizing conflicts with
  | nil => exact h
  | cons key keys ih =>
      refine ih ?_
      rw [visit_eq]
      split
      · exact List.mem_cons_of_mem _ h
      · exact h

theorem of_mem_conflictingIds {conflicts : Conflicts} {id : TaskId}
    (h : id ∈ (keys.foldl (Conflicts.visit taken) conflicts).conflictingIds) :
    id ∈ conflicts.conflictingIds ∨ id ∈ keys.map Prod.fst := by
  induction keys generalizing conflicts with
  | nil => exact .inl h
  | cons key keys ih =>
      rcases ih h with hm | hm
      · rw [visit_eq] at hm
        split at hm
        · rcases List.mem_cons.mp hm with rfl | hm
          · exact .inr List.mem_cons_self
          · exact .inl hm
        · exact .inl hm
      · exact .inr (List.mem_cons_of_mem _ hm)

/-- Identities differ, so that the set of conflicting ones tells which items
clashed. -/
theorem mem_conflictingIds (taken : String → Bool) {before after : List Key} {key : Key}
    (hids : ((before ++ key :: after).map Prod.fst).Nodup) :
    key.1 ∈ (conflictsOf taken (before ++ key :: after)).conflictingIds ↔ Clashes taken (before.map Prod.snd) key.2 := by
  rw [List.map_append, List.map_cons, List.nodup_append] at hids
  obtain ⟨-, hafter, hapart⟩ := hids
  have hold : key.1 ∉ (before.foldl (Conflicts.visit taken) ⟨[], [], none⟩).conflictingIds := by
    intro hm
    rcases of_mem_conflictingIds hm with hm | hm
    · cases hm
    · exact hapart _ hm _ List.mem_cons_self rfl
  have hseen : Clashes taken (before.foldl (Conflicts.visit taken) ⟨[], [], none⟩).seen key.2 ↔
      Clashes taken (before.map Prod.snd) key.2 := by
    rw [foldl_seen]
    simp [Clashes]
  rw [conflictsOf, List.foldl_append, List.foldl_cons, ← hseen]
  constructor
  · intro hm
    rcases of_mem_conflictingIds hm with hm | hm
    · rw [visit_eq] at hm
      split at hm
      · assumption
      · exact absurd hm hold
    · exact absurd hm (List.nodup_cons.mp hafter).1
  · intro hclash
    refine foldl_conflictingIds_mono ?_
    rw [visit_eq, if_pos hclash]
    exact List.mem_cons_self

/-- The first conflict a check finds is that of the service's lookup. -/
theorem foldl_firstConflict (conflicts : Conflicts) :
    (keys.foldl (Conflicts.visit taken) conflicts).firstConflict =
      conflicts.firstConflict.or (World.firstConflict taken conflicts.seen (keys.map Prod.snd)) := by
  induction keys generalizing conflicts with
  | nil => simp [World.firstConflict]
  | cons key keys ih =>
      rw [List.foldl_cons, ih, visit_seen, visit_eq, List.map_cons, World.firstConflict]
      by_cases h : Clashes taken conflicts.seen key.2
      · rw [if_pos h, if_pos (by simpa [Clashes] using h), Option.or_assoc, Option.some_or]
      · rw [if_neg h, if_neg (by simpa [Clashes] using h)]

theorem conflictsOf_firstConflict :
    (conflictsOf taken keys).firstConflict = World.firstConflict taken [] (keys.map Prod.snd) :=
  (foldl_firstConflict _).trans (Option.none_or)

theorem firstConflict_some {earlier names : List String} {name : String}
    (h : World.firstConflict taken earlier names = some name) :
    ∃ before after, names = before ++ name :: after ∧ Clashes taken (before.reverse ++ earlier) name ∧
      ∀ b m a, before = b ++ m :: a → ¬ Clashes taken (b.reverse ++ earlier) m := by
  induction names generalizing earlier with
  | nil => cases h
  | cons m names ih =>
      unfold World.firstConflict at h
      split at h
      · next hx =>
        cases h
        exact ⟨[], names, rfl, by simpa [Clashes] using hx, fun b m a hb => by simp at hb⟩
      · next hx =>
        obtain ⟨before, after, rfl, hclash, hfirst⟩ := ih h
        refine ⟨m :: before, after, rfl, by simpa [Clashes] using hclash, fun b k a hb => ?_⟩
        rcases List.cons_eq_append_iff.mp hb with ⟨rfl, he⟩ | ⟨b, rfl, he⟩
        · cases he
          simpa [Clashes] using hx
        · simpa [Clashes] using hfirst b k a he

/-- A check lets the items pass: no name is taken or repeated, and they all fit
under the limit. -/
structure Admissible (limit : Option NonZeroUsize) (r : Reading) (names : List String) : Prop where
  distinct : names.Nodup
  free : ∀ name ∈ names, r.byName name = false ∧ r.reserves name = false
  room : ∀ l, limit = some l → r.current + r.reaping + names.length ≤ l.get

theorem taken_false {name : String} : r.taken name = false ↔ r.byName name = false ∧ r.reserves name = false :=
  Bool.or_eq_false_iff

theorem rejectBatch_none : rejectBatch limit r keys = none ↔ Admissible limit r (keys.map Prod.snd) := by
  have hnone : (conflictsOf r.taken keys).firstConflict = none ↔
      (keys.map Prod.snd).Nodup ∧ ∀ name ∈ keys.map Prod.snd, r.byName name = false ∧ r.reserves name = false := by
    rw [conflictsOf_firstConflict, Reach.firstConflict_none]
    simp [taken_false]
  cases hf : (conflictsOf r.taken keys).firstConflict with
  | some name =>
      simp only [rejectBatch, hf, reduceCtorEq, false_iff]
      intro h
      have := hnone.mpr ⟨h.distinct, h.free⟩
      rw [hf] at this
      cases this
  | none =>
      obtain ⟨hdistinct, hfree⟩ := hnone.mp hf
      simp only [rejectBatch, hf, Option.map_eq_none_iff, registeredLimitExceeded_none]
      constructor
      · exact fun h => ⟨hdistinct, hfree, by simpa using h⟩
      · exact fun h => by simpa using h.room

/-- The preparation keeps the tasks, their order and their watchers. -/
theorem prepareItems_fields (latch : RemovalCompletion) (items : List AddItem) :
    (World.prepareItems latch items).1.map (fun p => (p.id, p.name, p.done)) =
      items.map fun item => (item.id, item.name, item.done) := by
  induction items generalizing latch with
  | nil => rfl
  | cons item items ih =>
      unfold World.prepareItems
      split
      · exact congrArg _ (ih latch)
      · exact congrArg _ (ih (latch + 1))

theorem prepareItems_map {α : Type} (latch : RemovalCompletion) (items : List AddItem)
    (f : TaskId × String × Option OutcomeTx → α) :
    (World.prepareItems latch items).1.map (fun p => f (p.id, p.name, p.done)) =
      items.map fun item => f (item.id, item.name, item.done) := by
  simpa [Function.comp_def] using congrArg (List.map f) (prepareItems_fields latch items)

theorem prepareBatch_keys (latch : RemovalCompletion) (items : List AddBatchItem) :
    (prepareBatch latch items).map (fun p => (p.id, p.name)) = items.map AddBatchItem.key := by
  rw [prepareBatch, prepareItems_map latch _ fun fields => (fields.1, fields.2.1), List.map_map]
  rfl

theorem keys_names (items : List AddBatchItem) : (items.map AddBatchItem.key).map Prod.snd = items.map AddBatchItem.name := by
  rw [List.map_map]
  rfl

theorem keys_ids (items : List AddBatchItem) : (items.map AddBatchItem.key).map Prod.fst = items.map AddBatchItem.id := by
  rw [List.map_map]
  rfl

/-- A batch is refused by the first check, by the second, or it is committed. -/
theorem spawnAndRegisterBatch_eq :
    spawnAndRegisterBatch limit latch initial locked items =
      ((rejectBatch limit initial (items.map AddBatchItem.key)).or
        (rejectBatch limit locked (items.map AddBatchItem.key))).getD (commit (prepareBatch latch items)) := by
  unfold spawnAndRegisterBatch
  cases rejectBatch limit initial (items.map AddBatchItem.key) with
  | some acts => rfl
  | none =>
      simp only [prepareBatch_keys, Option.none_or]
      cases rejectBatch limit locked (items.map AddBatchItem.key) <;> rfl

/-- A refusal reports failures and sends one error; no other effect is in it. -/
def Refusal (acts : List Act) : Prop :=
  ∃ reports error, acts = reports ++ [.reply (.error error)] ∧
    ∀ act ∈ reports, ∃ id name kind reason, act = .publishAddFailed id name kind reason

theorem rejectBatch_refusal {acts : List Act} (h : rejectBatch limit r keys = some acts) : Refusal acts := by
  unfold rejectBatch at h
  simp only at h
  split at h
  · next name _ =>
    cases h
    refine ⟨_, .taskAlreadyExists name, rfl, fun act hact => ?_⟩
    obtain ⟨key, -, rfl⟩ := List.mem_map.mp hact
    unfold conflictReport
    split
    · exact ⟨_, _, _, _, rfl⟩
    · exact ⟨_, _, _, _, rfl⟩
  · obtain ⟨l, -, rfl⟩ := Option.map_eq_some_iff.mp h
    refine ⟨_, .resourceLimitReached "registered_tasks" l, rfl, fun act hact => ?_⟩
    obtain ⟨key, -, rfl⟩ := List.mem_map.mp hact
    exact ⟨_, _, _, _, rfl⟩

theorem Refusal.not_ok {acts : List Act} (h : Refusal acts) : Act.reply (.ok ()) ∉ acts := by
  obtain ⟨reports, error, rfl, hreports⟩ := h
  intro hm
  rcases List.mem_append.mp hm with hm | hm
  · obtain ⟨id, name, kind, reason, hx⟩ := hreports _ hm
    cases hx
  · cases List.mem_singleton.mp hm

theorem Refusal.run {acts : List Act} (h : Refusal acts) (c : Core) : acts.foldl Act.run c = c := by
  obtain ⟨reports, error, rfl, hreports⟩ := h
  rw [List.foldl_append]
  induction reports with
  | nil => rfl
  | cons act reports ih =>
      obtain ⟨id, name, kind, reason, rfl⟩ := hreports act List.mem_cons_self
      exact ih fun act hact => hreports act (List.mem_cons_of_mem _ hact)

/-- Both indexes hold the registrations, and otherwise what they held. -/
structure Indexed (prepared : List PreparedRegistration) (c c' : Core) : Prop where
  task : ∀ p ∈ prepared, c'.tasks.lookup p.id = some ⟨p.name, .registered ⟨p.done, p.completion⟩⟩
  name : ∀ p ∈ prepared, c'.byName.lookup p.name = some p.id
  otherTask : ∀ id, id ∉ prepared.map PreparedRegistration.id → c'.tasks.lookup id = c.tasks.lookup id
  otherName : ∀ name, name ∉ prepared.map PreparedRegistration.name → c'.byName.lookup name = c.byName.lookup name

theorem insertAll_indexed {prepared : List PreparedRegistration} (c : Core)
    (hids : (prepared.map PreparedRegistration.id).Nodup) (hnames : (prepared.map PreparedRegistration.name).Nodup) :
    Indexed prepared c (c.insertAll prepared) := by
  induction prepared generalizing c with
  | nil => exact ⟨(fun _ hp => nomatch hp), (fun _ hp => nomatch hp), fun _ _ => rfl, fun _ _ => rfl⟩
  | cons item rest ih =>
      rw [List.map_cons, List.nodup_cons] at hids hnames
      have h := ih (c.insertEntry item) hids.2 hnames.2
      refine ⟨fun p hp => ?_, fun p hp => ?_, fun id hid => ?_, fun name hname => ?_⟩
      · rcases List.mem_cons.mp hp with rfl | hp
        · exact (h.otherTask p.id hids.1).trans (AList.lookup_insert _)
        · exact h.task p hp
      · rcases List.mem_cons.mp hp with rfl | hp
        · exact (h.otherName p.name hnames.1).trans (AList.lookup_insert _)
        · exact h.name p hp
      · rw [List.map_cons, List.mem_cons, not_or] at hid
        exact (h.otherTask id hid.2).trans (AList.lookup_insert_ne hid.1)
      · rw [List.map_cons, List.mem_cons, not_or] at hname
        exact (h.otherName name hname.2).trans (AList.lookup_insert_ne hname.1)

theorem run_inserts (prepared : List PreparedRegistration) (c : Core) :
    (prepared.map Act.insert).foldl Act.run c = c.insertAll prepared := by
  rw [List.foldl_map]
  rfl

theorem Indexed.congr {prepared : List PreparedRegistration} {c' c'' : Core} (h : Indexed prepared c c')
    (htasks : c''.tasks = c'.tasks) (hnames : c''.byName = c'.byName) : Indexed prepared c c'' :=
  ⟨htasks ▸ h.task, hnames ▸ h.name, htasks ▸ h.otherTask, hnames ▸ h.otherName⟩

/-- What follows the insertions of a commit leaves the indexes alone. -/
theorem foldl_keeps {α : Type} {f : Core → α → Core} (hf : ∀ c a, (f c a).tasks = c.tasks ∧ (f c a).byName = c.byName)
    (l : List α) (c : Core) : (l.foldl f c).tasks = c.tasks ∧ (l.foldl f c).byName = c.byName := by
  induction l generalizing c with
  | nil => exact ⟨rfl, rfl⟩
  | cons a l ih => exact ⟨(ih _).1.trans (hf c a).1, (ih _).2.trans (hf c a).2⟩

theorem commit_indexed {prepared : List PreparedRegistration} (c : Core)
    (hids : (prepared.map PreparedRegistration.id).Nodup) (hnames : (prepared.map PreparedRegistration.name).Nodup) :
    Indexed prepared c ((commit prepared).foldl Act.run c) := by
  have hgate (d : Core) (p : PreparedRegistration) : (d.openGate p).tasks = d.tasks ∧ (d.openGate p).byName = d.byName := by
    unfold Core.openGate
    split
    · split <;> exact ⟨rfl, rfl⟩
    · exact ⟨rfl, rfl⟩
  have hadded (d : Core) : (prepared.map fun p => Act.publishAdded p.id p.name).foldl Act.run d = d := by
    rw [List.foldl_map]
    exact List.foldl_fixed prepared
  unfold commit
  simp only [List.foldl_append, run_inserts, hadded]
  obtain ⟨htasks, hbyName⟩ := foldl_keeps (f := fun d p => Act.run d (.schedule p)) (fun _ _ => ⟨rfl, rfl⟩) prepared
    (c.insertAll prepared)
  obtain ⟨htasks', hbyName'⟩ := foldl_keeps (f := Core.openGate) hgate prepared
    ((prepared.map Act.schedule).foldl Act.run (c.insertAll prepared))
  rw [← List.foldl_map] at htasks hbyName
  exact (insertAll_indexed c hids hnames).congr (htasks'.trans htasks) (hbyName'.trans hbyName)

def names (items : List AddBatchItem) : List String := items.map AddBatchItem.name

theorem rejectBatch_admissible :
    rejectBatch limit r (items.map AddBatchItem.key) = none ↔ Admissible limit r (names items) := by
  rw [rejectBatch_none, keys_names, names]

theorem batch_commit (hinitial : Admissible limit initial (names items)) (hlocked : Admissible limit locked (names items)) :
    spawnAndRegisterBatch limit latch initial locked items = commit (prepareBatch latch items) := by
  rw [spawnAndRegisterBatch_eq, rejectBatch_admissible.mpr hinitial, rejectBatch_admissible.mpr hlocked]
  rfl

theorem batch_refusal (h : ¬ (Admissible limit initial (names items) ∧ Admissible limit locked (names items))) :
    Refusal (spawnAndRegisterBatch limit latch initial locked items) := by
  rw [spawnAndRegisterBatch_eq]
  cases hi : rejectBatch limit initial (items.map AddBatchItem.key) with
  | some acts => exact rejectBatch_refusal hi
  | none =>
      cases hl : rejectBatch limit locked (items.map AddBatchItem.key) with
      | some acts => exact rejectBatch_refusal hl
      | none => exact absurd ⟨rejectBatch_admissible.mp hi, rejectBatch_admissible.mp hl⟩ h

/-- The batch is accepted exactly when both checks let it pass. -/
theorem batch_accepted :
    Act.reply (.ok ()) ∈ spawnAndRegisterBatch limit latch initial locked items ↔
      Admissible limit initial (names items) ∧ Admissible limit locked (names items) := by
  constructor
  · intro hm
    by_contra h
    exact (batch_refusal h).not_ok hm
  · rintro ⟨hinitial, hlocked⟩
    rw [batch_commit hinitial hlocked]
    simp [commit]

/-- A single add goes the same way. -/
theorem spawnAndRegister_eq (item : AddItem) :
    spawnAndRegister limit latch initial locked item =
      (((validate limit initial item.name).or (validate limit locked item.name)).map (rejectAdd item)).getD
        (commit [prepareRegistration latch item]) := by
  unfold spawnAndRegister
  cases validate limit initial item.name with
  | some error => rfl
  | none =>
      simp only [show (prepareRegistration latch item).name = item.name from rfl, Option.none_or]
      cases validate limit locked item.name <;> rfl

/-- Two ways of deciding that agree on each check agree on the outcome. -/
theorem getD_agrees {α β ε : Type} {f : β → α} {g : ε → α} {a b : Option β} {a' b' : Option ε} (ha : a.map f = a'.map g)
    (hb : b.map f = b'.map g) (c : β) : f ((a.or b).getD c) = ((a'.or b').map g).getD (f c) := by
  cases a' with
  | some x =>
      obtain ⟨y, rfl, hy⟩ := Option.map_eq_some_iff.mp ha
      exact hy
  | none =>
      obtain rfl := Option.map_eq_none_iff.mp ha
      cases b' with
      | some x =>
          obtain ⟨y, rfl, hy⟩ := Option.map_eq_some_iff.mp hb
          exact hy
      | none =>
          obtain rfl := Option.map_eq_none_iff.mp hb
          rfl

/-- Some item of the batch is refused for its name. -/
def Conflicted (taken : String → Bool) (items : List AddBatchItem) : Prop :=
  ∃ before item after, items = before ++ item :: after ∧ Clashes taken (names before) item.name

/-- The report of a name conflict: each item learns whether it clashed itself,
and the error names the first that did. -/
structure NamesReported (taken : String → Bool) (items : List AddBatchItem) (acts : List Act) : Prop where
  reports : ∀ before item after, items = before ++ item :: after →
    acts[before.length]? = some (if Clashes taken (names before) item.name
      then .publishAddFailed item.id item.name .alreadyExists Reasons.alreadyExists
      else .publishAddFailed item.id item.name .batchRejected batchRejected)
  error : ∃ before item after, items = before ++ item :: after ∧ Clashes taken (names before) item.name ∧
    (∀ b i a, before = b ++ i :: a → ¬ Clashes taken (names b) i.name) ∧
    acts.drop items.length = [.reply (.error (.taskAlreadyExists item.name))]

theorem Conflicted.found (h : Conflicted taken items) :
    ∃ name, (conflictsOf taken (items.map AddBatchItem.key)).firstConflict = some name := by
  rw [conflictsOf_firstConflict, keys_names, ← Option.isSome_iff_exists, Option.isSome_iff_ne_none]
  intro hnone
  obtain ⟨hdistinct, hfree⟩ := Reach.firstConflict_none.mp hnone
  obtain ⟨before, item, after, rfl, htaken | hrepeats⟩ := h
  · have hfalse := (hfree item.name (by simp)).1
    rw [htaken] at hfalse
    cases hfalse
  · rw [List.map_append, List.map_cons, List.nodup_append] at hdistinct
    exact hdistinct.2.2 _ hrepeats _ List.mem_cons_self rfl

theorem Conflicted.reject (h : Conflicted r.taken items) (limit : Option NonZeroUsize)
    (hids : (items.map AddBatchItem.id).Nodup) :
    ∃ acts, rejectBatch limit r (items.map AddBatchItem.key) = some acts ∧ NamesReported r.taken items acts := by
  obtain ⟨name, hname⟩ := h.found
  have heq : rejectBatch limit r (items.map AddBatchItem.key) =
      some ((items.map AddBatchItem.key).map
          (conflictReport (conflictsOf r.taken (items.map AddBatchItem.key)).conflictingIds) ++
        [.reply (.error (.taskAlreadyExists name))]) := by
    simp only [rejectBatch, hname]
  refine ⟨_, heq, fun before item after he => ?_, ?_⟩
  · have hmem : item.id ∈ (conflictsOf r.taken (items.map AddBatchItem.key)).conflictingIds ↔
        Clashes r.taken (names before) item.name := by
      have hkeys : items.map AddBatchItem.key = before.map AddBatchItem.key ++ item.key :: after.map AddBatchItem.key := by
        rw [he, List.map_append, List.map_cons]
      have hnodup : ((items.map AddBatchItem.key).map Prod.fst).Nodup := by rwa [keys_ids]
      rw [hkeys] at hnodup ⊢
      have hclash := mem_conflictingIds r.taken hnodup
      rwa [keys_names] at hclash
    generalize (conflictsOf r.taken (items.map AddBatchItem.key)).conflictingIds = conflictingIds at hmem ⊢
    have hat : ((items.map AddBatchItem.key).map (conflictReport conflictingIds))[before.length]? =
        some (conflictReport conflictingIds item.key) := by
      rw [he]
      simp
    rw [List.getElem?_append_left (by simp [he]), hat, conflictReport]
    by_cases hc : Clashes r.taken (names before) item.name
    · rw [if_pos hc]
      exact congrArg some (if_pos (hmem.mpr hc))
    · rw [if_neg hc]
      exact congrArg some (if_neg (hc ∘ hmem.mp))
  · rw [conflictsOf_firstConflict, keys_names] at hname
    obtain ⟨before, after, he, hclash, hfirst⟩ := firstConflict_some hname
    obtain ⟨l₁, l₂, rfl, rfl, he₂⟩ := List.map_eq_append_iff.mp he
    obtain ⟨item, l₃, rfl, rfl, rfl⟩ := List.map_eq_cons_iff.mp he₂
    refine ⟨l₁, item, l₃, rfl, by simpa [Clashes, names] using hclash, fun b i a hb => ?_, ?_⟩
    · have := hfirst (names b) i.name (names a) (by rw [hb, List.map_append, List.map_cons]; rfl)
      simpa [Clashes] using this
    · rw [List.drop_append_of_le_length (by simp), List.drop_of_length_le (by simp), List.nil_append]

theorem initial_conflict (hids : (items.map AddBatchItem.id).Nodup) (h : Conflicted initial.taken items) :
    NamesReported initial.taken items (spawnAndRegisterBatch limit latch initial locked items) := by
  obtain ⟨acts, hacts, hreported⟩ := h.reject limit hids
  rwa [spawnAndRegisterBatch_eq, hacts]

theorem locked_conflict (hids : (items.map AddBatchItem.id).Nodup) (hinitial : Admissible limit initial (names items))
    (h : Conflicted locked.taken items) :
    NamesReported locked.taken items (spawnAndRegisterBatch limit latch initial locked items) := by
  obtain ⟨acts, hacts, hreported⟩ := h.reject limit hids
  rwa [spawnAndRegisterBatch_eq, rejectBatch_admissible.mpr hinitial, hacts]

/-- The acts that decide an admission: registrations, `TaskAdded`, the reply,
the actors and the gate. -/
def Act.decides : Act → Bool
  | .publishAddFailed .. | .deliver .. => false
  | _ => true

/-- A registration without its watcher and its latch. -/
def plain (item : PreparedRegistration) : PreparedRegistration := { item with done := none, completion := 0 }

def Act.plain : Act → Act
  | .insert item => .insert (Admission.plain item)
  | .schedule item => .schedule (Admission.plain item)
  | .openGate items => .openGate (items.map Admission.plain)
  | act => act

def Act.failure : Act → Option (TaskId × String × RejectionKind)
  | .publishAddFailed id name kind _ => some (id, name, kind)
  | _ => none

/-- What an admission decides, whatever the order and the reason text of its
reports. -/
def decision (acts : List Act) : List Act × List (TaskId × String × RejectionKind) :=
  ((acts.filter Act.decides).map Act.plain, acts.filterMap Act.failure)

theorem rejectBatch_one (limit : Option NonZeroUsize) (r : Reading) (item : AddItem) :
    (rejectBatch limit r [(item.id, item.name)]).map decision =
      (validate limit r item.name).map fun error => decision (rejectAdd item error) := by
  have hclash : (conflictsOf r.taken [(item.id, item.name)]) =
      if r.taken item.name then ⟨[item.name], [item.id], some item.name⟩ else ⟨[item.name], [], none⟩ := by
    simp [conflictsOf, Conflicts.visit]
  unfold rejectBatch validate
  rw [hclash]
  by_cases ht : r.taken item.name = true
  · simp only [if_pos ht, Option.map_some, List.map_cons, conflictReport, List.mem_singleton, if_true]
    rfl
  · simp only [if_neg ht, Option.map_map]
    rfl

/-- The four copies of the validation agree: a batch of one is decided as a
single add. -/
theorem batch_of_one (item : AddItem) :
    decision (spawnAndRegisterBatch limit latch initial locked [⟨item.id, item.name⟩]) =
      decision (spawnAndRegister limit latch initial locked item) := by
  rw [spawnAndRegisterBatch_eq, spawnAndRegister_eq]
  refine (getD_agrees (rejectBatch_one limit initial item) (rejectBatch_one limit locked item) _).trans ?_
  cases (validate limit initial item.name).or (validate limit locked item.name) <;> rfl

end Taskvisor.Registry.Admission
