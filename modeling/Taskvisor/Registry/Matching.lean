import Taskvisor.Registry.Rendezvous

namespace Taskvisor.Registry.Matching

open Lib Runtime.Base Reaper ReaperState Rendezvous
open World (record target)

section Records

variable {l : List ReaperRecord} {i : Nat} {r r' : ReaperRecord} {latch : RemovalCompletion}

def Distinct (l : List ReaperRecord) : Prop := (l.map ReaperRecord.release).Nodup

def pick (l : List ReaperRecord) (latch : RemovalCompletion) : Option ReaperRecord :=
  l.find? fun record => decide (record.release = latch)

theorem pick_release (h : pick l latch = some r) : r.release = latch := by
  simpa using List.find?_some h

theorem pick_cons (c : ReaperRecord) (l : List ReaperRecord) (latch : RemovalCompletion) :
    pick (c :: l) latch = if c.release = latch then some c else pick l latch := by
  by_cases h : c.release = latch <;> simp [pick, h]

theorem pick_eq_none : pick l latch = none ↔ ∀ r ∈ l, r.release ≠ latch := by
  simp [pick]

theorem pick_of_getElem (hd : Distinct l) (hi : l[i]? = some r) : pick l r.release = some r := by
  induction l generalizing i with
  | nil => simp at hi
  | cons c l ih =>
      obtain ⟨hc, hd⟩ := List.nodup_cons.mp hd
      cases i with
      | zero =>
          obtain rfl : c = r := by simpa using hi
          simp [pick_cons]
      | succ i =>
          have hi : l[i]? = some r := by simpa using hi
          have hne : c.release ≠ r.release := fun he =>
            hc (he ▸ List.mem_map.mpr ⟨r, List.mem_of_getElem? hi, rfl⟩)
          rw [pick_cons, if_neg hne, ih hd hi]

theorem map_release_set (hr : r'.release = r.release) (hi : l[i]? = some r) :
    (l.set i r').map ReaperRecord.release = l.map ReaperRecord.release := by
  refine List.ext_getElem? fun j => ?_
  rw [List.getElem?_map, List.getElem?_set, List.getElem?_map]
  split
  · next hj =>
    subst hj
    rw [hi, if_pos (List.getElem?_eq_some_iff.mp hi).1]
    exact congrArg some hr
  · rfl

theorem pick_set (hd : Distinct l) (hi : l[i]? = some r) (hr : r'.release = r.release) :
    pick (l.set i r') latch = if latch = r.release then some r' else pick l latch := by
  induction l generalizing i with
  | nil => simp at hi
  | cons c l ih =>
      obtain ⟨hc, hd⟩ := List.nodup_cons.mp hd
      cases i with
      | zero =>
          obtain rfl : c = r := by simpa using hi
          rw [List.set_cons_zero, pick_cons, pick_cons, hr]
          by_cases hl : c.release = latch
          · simp [hl]
          · simp [hl, Ne.symm hl]
      | succ i =>
          have hi : l[i]? = some r := by simpa using hi
          have hne : c.release ≠ r.release := fun he =>
            hc (he ▸ List.mem_map.mpr ⟨r, List.mem_of_getElem? hi, rfl⟩)
          rw [List.set_cons_succ, pick_cons, pick_cons, ih hd hi]
          by_cases hl : latch = r.release
          · subst hl
            simp [hne]
          · simp [hl]

theorem pick_eraseIdx (hd : Distinct l) (hi : l[i]? = some r) :
    pick (l.eraseIdx i) latch = if latch = r.release then none else pick l latch := by
  induction l generalizing i with
  | nil => simp at hi
  | cons c l ih =>
      obtain ⟨hc, hd⟩ := List.nodup_cons.mp hd
      cases i with
      | zero =>
          obtain rfl : c = r := by simpa using hi
          rw [List.eraseIdx_cons_zero, pick_cons]
          by_cases hl : latch = c.release
          · subst hl
            simp only [if_true]
            exact pick_eq_none.mpr fun s hs he => hc (he ▸ List.mem_map.mpr ⟨s, hs, rfl⟩)
          · simp [hl, Ne.symm hl]
      | succ i =>
          have hi : l[i]? = some r := by simpa using hi
          have hne : c.release ≠ r.release := fun he =>
            hc (he ▸ List.mem_map.mpr ⟨r, List.mem_of_getElem? hi, rfl⟩)
          rw [List.eraseIdx_cons_succ, pick_cons, pick_cons, ih hd hi]
          by_cases hl : latch = r.release
          · subst hl
            simp [hne]
          · simp [hl]

theorem distinct_eraseIdx (hd : Distinct l) (i : Nat) : Distinct (l.eraseIdx i) :=
  hd.sublist ((List.eraseIdx_sublist l i).map _)

end Records

variable {st st' : ReaperState} {id : TaskId} {name : String} {latch : RemovalCompletion} {i : Nat}
  {r r' : ReaperRecord}

def recordsOf (st : ReaperState) (id : TaskId) : List ReaperRecord := (st.records.lookup id).getD []

def reserved (st : ReaperState) (name : String) : List ReaperActivity := (st.byName.lookup name).getD []

/-- The lists of the two maps are never empty, and the records of an identity
have their own latches. -/
structure Solid (st : ReaperState) : Prop where
  distinct : ∀ id, Distinct (recordsOf st id)
  records : ∀ id l, st.records.lookup id = some l → l ≠ []
  names : ∀ name l, st.byName.lookup name = some l → l ≠ []

theorem record_eq (st : ReaperState) (id : TaskId) (latch : RemovalCompletion) :
    record st id latch = pick (recordsOf st id) latch := rfl

theorem recordsOf_insert (st : ReaperState) (id id' : TaskId) (l : List ReaperRecord)
    (byName : Table String (List ReaperActivity)) :
    recordsOf ⟨byName, st.records.insert id l⟩ id' = if id' = id then l else recordsOf st id' := by
  unfold recordsOf
  rw [Table.lookup_insert_ite]
  split <;> rfl

/-- One record is replaced by another of the same latch, or leaves. -/
structure Revised (st st' : ReaperState) (id : TaskId) (r : ReaperRecord) (out : Option ReaperRecord) : Prop where
  solid : Solid st'
  record : ∀ id' latch, record st' id' latch = if id' = id ∧ latch = r.release then out else record st id' latch
  names : ∀ name a, a ∈ reserved st' name ↔
    a ∈ reserved st name ∧ (out = none → name = r.name → a ≠ ⟨id, r.release⟩)

theorem revised_put (hs : Solid st) (hi : (recordsOf st id)[i]? = some r) (hr : r'.release = r.release) :
    Revised st (st.putRecord id i r') id r (some r') where
  solid :=
    { distinct := fun id' => by
        rw [ReaperState.putRecord, recordsOf_insert]
        split
        · have hmap := map_release_set hr hi
          exact (congrArg List.Nodup hmap).mpr (hs.distinct id)
        · exact hs.distinct id'
      records := fun id' l hl => by
        obtain ⟨-, rfl⟩ | ⟨-, hl⟩ := Table.of_lookup_insert hl
        · intro hnil
          have hlt := (List.getElem?_eq_some_iff.mp hi).1
          have hlen := congrArg List.length hnil
          rw [List.length_set, List.length_nil] at hlen
          unfold recordsOf at hlt
          omega
        · exact hs.records id' l hl
      names := hs.names }
  record := fun id' latch => by
    rw [record_eq, record_eq, ReaperState.putRecord, recordsOf_insert]
    by_cases hid : id' = id
    · subst hid
      rw [if_pos rfl]
      exact (pick_set (hs.distinct id') hi hr).trans (by simp)
    · simp [hid]
  names := fun name a => by simp [reserved, ReaperState.putRecord]

theorem recordsOf_remove (st : ReaperState) (id id' : TaskId) (i : Nat) (r : ReaperRecord) :
    recordsOf (st.removeRecord id i r) id' =
      if id' = id then (recordsOf st id).eraseIdx i else recordsOf st id' := by
  have hlookup : (st.removeRecord id i r).records.lookup id' =
      if ((recordsOf st id).eraseIdx i).isEmpty then (st.records.erase id).lookup id'
      else (st.records.insert id ((recordsOf st id).eraseIdx i)).lookup id' := by
    unfold ReaperState.removeRecord
    exact apply_ite (AList.lookup id') _ _ _
  unfold recordsOf at hlookup ⊢
  rw [hlookup]
  split
  · next he =>
    rw [Table.lookup_erase_ite]
    split
    · exact (List.isEmpty_iff.mp he).symm
    · rfl
  · rw [Table.lookup_insert_ite]
    split <;> rfl

theorem reserved_remove (st : ReaperState) (id : TaskId) (i : Nat) (r : ReaperRecord) (name : String) :
    reserved (st.removeRecord id i r) name = if name = r.name then
      (reserved st name).filter fun entry => decide (entry.id ≠ id ∨ entry.release ≠ r.release)
      else reserved st name := by
  unfold ReaperState.removeRecord reserved
  simp only
  split
  · next he =>
    rw [Table.lookup_erase_ite]
    split
    · next hn =>
      subst hn
      exact (List.isEmpty_iff.mp he).symm
    · rfl
  · rw [Table.lookup_insert_ite]
    split
    · next hn => subst hn; rfl
    · rfl

theorem revised_remove (hs : Solid st) (hi : (recordsOf st id)[i]? = some r) :
    Revised st (st.removeRecord id i r) id r none where
  solid :=
    { distinct := fun id' => by
        rw [recordsOf_remove]
        split
        · exact distinct_eraseIdx (hs.distinct id) i
        · exact hs.distinct id'
      records := fun id' l hl => by
        unfold ReaperState.removeRecord at hl
        simp only at hl
        split at hl
        · exact hs.records id' l (Table.of_lookup_erase hl).2
        · next hne =>
          obtain ⟨-, rfl⟩ | ⟨-, hl⟩ := Table.of_lookup_insert hl
          · simpa using hne
          · exact hs.records id' l hl
      names := fun name l hl => by
        unfold ReaperState.removeRecord at hl
        simp only at hl
        split at hl
        · exact hs.names name l (Table.of_lookup_erase hl).2
        · next hne =>
          obtain ⟨-, rfl⟩ | ⟨-, hl⟩ := Table.of_lookup_insert hl
          · simpa using hne
          · exact hs.names name l hl }
  record := fun id' latch => by
    rw [record_eq, record_eq, recordsOf_remove]
    by_cases hid : id' = id
    · subst hid
      rw [if_pos rfl]
      exact (pick_eraseIdx (hs.distinct id') hi).trans (by simp)
    · simp [hid]
  names := fun name a => by
    rw [reserved_remove]
    obtain ⟨aid, arelease⟩ := a
    split
    · next hn =>
      subst hn
      simp only [List.mem_filter, decide_eq_true_eq, forall_const, ne_eq, ReaperActivity.mk.injEq, not_and_or]
    · next hn => simp [hn]

def unmatched (name : String) (latch : RemovalCompletion) : ReaperRecord :=
  ⟨name, false, false, latch, none, none, false⟩

theorem recordsOf_register (st : ReaperState) (id id' : TaskId) (name : String) (latch : RemovalCompletion) :
    recordsOf (st.register id name latch) id' =
      if id' = id then recordsOf st id ++ [unmatched name latch] else recordsOf st id' :=
  recordsOf_insert st id id' _ _

theorem record_register (h : record st id latch = none) {id' : TaskId} {l : RemovalCompletion} :
    record (st.register id name latch) id' l =
      if id' = id ∧ l = latch then some (unmatched name latch) else record st id' l := by
  rw [record_eq] at h
  rw [record_eq, record_eq, recordsOf_register]
  by_cases hid : id' = id
  · subst hid
    rw [if_pos rfl, pick, List.find?_append]
    by_cases hl : l = latch
    · subst hl
      rw [pick] at h
      rw [h]
      simp [unmatched]
    · simp [unmatched, hl, Ne.symm hl, pick]
  · simp [hid]

theorem solid_register (hs : Solid st) (h : record st id latch = none) : Solid (st.register id name latch) where
  distinct := fun id' => by
    rw [recordsOf_register]
    split
    · rw [Distinct, List.map_append]
      refine List.nodup_append.mpr ⟨hs.distinct id, List.nodup_singleton _, fun a ha b hb he => ?_⟩
      obtain ⟨r, hr, rfl⟩ := List.mem_map.mp ha
      rw [List.mem_singleton.mp hb] at he
      exact pick_eq_none.mp h r hr he
    · exact hs.distinct id'
  records := fun id' l hl => by
    obtain ⟨-, rfl⟩ | ⟨-, hl⟩ := Table.of_lookup_insert hl
    · simp
    · exact hs.records id' l hl
  names := fun name' l hl => by
    obtain ⟨-, rfl⟩ | ⟨-, hl⟩ := Table.of_lookup_insert hl
    · simp
    · exact hs.names name' l hl

theorem mem_reserved_register {name' : String} {a : ReaperActivity} :
    a ∈ reserved (st.register id name latch) name' ↔ a ∈ reserved st name' ∨ name' = name ∧ a = ⟨id, latch⟩ := by
  unfold reserved ReaperState.register
  rw [Table.lookup_insert_ite]
  by_cases hn : name' = name
  · subst hn
    simp
  · simp [hn]

/-- After an update of one record, `take_ready_record` takes it exactly when
it has both halves. -/
theorem take_put (hi : (recordsOf st id)[i]? = some r) (r' : ReaperRecord) :
    (st.putRecord id i r').takeReadyRecord id i =
      match r'.terminalReleases with
      | some releases =>
          if r'.physical && r'.terminal then
            (some ⟨r'.release, releases, r'.duplicateReleases, r'.poisoned⟩,
              (st.putRecord id i r').removeRecord id i r')
          else (none, st.putRecord id i r')
      | none => (none, st.putRecord id i r') := by
  have hlt := (List.getElem?_eq_some_iff.mp hi).1
  have hget : ((st.putRecord id i r').records.lookup id).bind (·[i]?) = some r' := by
    rw [ReaperState.putRecord, Table.lookup_insert_ite, if_pos rfl]
    exact List.getElem?_set_self hlt
  unfold ReaperState.takeReadyRecord
  rw [hget]
  cases h : r'.terminalReleases <;> simp [h]

theorem Revised.trans (h : Revised st st' id r (some r')) (hr : r'.release = r.release) (hn : r'.name = r.name)
    {st'' : ReaperState} (h' : Revised st' st'' id r' none) : Revised st st'' id r none where
  solid := h'.solid
  record := fun id' latch => by
    rw [h'.record, h.record, hr]
    split <;> rfl
  names := fun name a => by
    rw [h'.names, h.names, hr, hn]
    simp

theorem take_revised (hs : Solid st) (hi : (recordsOf st id)[i]? = some r) (hr : r'.release = r.release)
    (hn : r'.name = r.name) {ready : Option ReadyRecord}
    (ht : (st.putRecord id i r').takeReadyRecord id i = (ready, st')) :
    (ready = none ∧ Revised st st' id r (some r') ∧
        (r'.physical = true → r'.terminal = true → r'.terminalReleases = none)) ∨
      ∃ releases, r'.physical = true ∧ r'.terminal = true ∧ r'.terminalReleases = some releases ∧
        ready = some ⟨r'.release, releases, r'.duplicateReleases, r'.poisoned⟩ ∧ Revised st st' id r none := by
  have hput := revised_put hs hi hr
  have hlt := (List.getElem?_eq_some_iff.mp hi).1
  have hget : (recordsOf (st.putRecord id i r') id)[i]? = some r' := by
    rw [ReaperState.putRecord, recordsOf_insert, if_pos rfl]
    exact List.getElem?_set_self hlt
  rw [take_put hi] at ht
  cases hrel : r'.terminalReleases with
  | none =>
      rw [hrel] at ht
      cases ht
      exact .inl ⟨rfl, hput, fun _ _ => rfl⟩
  | some releases =>
      rw [hrel] at ht
      simp only at ht
      split at ht
      · next hboth =>
        cases ht
        simp only [Bool.and_eq_true] at hboth
        exact .inr ⟨releases, hboth.1, hboth.2, rfl, rfl, hput.trans hr hn (revised_remove hput.solid hget)⟩
      · next hboth =>
        cases ht
        refine .inl ⟨rfl, hput, fun hp htm => absurd ?_ hboth⟩
        simp [hp, htm]

/-- The record with a latch is the one at the index the source computes. -/
theorem record_eq_getElem (st : ReaperState) (id : TaskId) (latch : RemovalCompletion) : record st id latch =
    (recordsOf st id)[(recordsOf st id).findIdx fun record => decide (record.release = latch)]? :=
  List.find?_eq_getElem?_findIdx

/-- The record as a physical output leaves it. -/
def reaped (r : ReaperRecord) (poisoned : Bool) : ReaperRecord :=
  if r.physical then { r with poisoned := true } else { r with physical := true, poisoned := r.poisoned || poisoned }

theorem reaped_same (r : ReaperRecord) (poisoned : Bool) : (reaped r poisoned).physical = true ∧
    (reaped r poisoned).release = r.release ∧ (reaped r poisoned).name = r.name ∧
    (reaped r poisoned).terminal = r.terminal ∧ (reaped r poisoned).terminalReleases = r.terminalReleases ∧
    (reaped r poisoned).duplicateReleases = r.duplicateReleases := by
  unfold reaped
  split
  · next hp => exact ⟨hp, rfl, rfl, rfl, rfl, rfl⟩
  · exact ⟨rfl, rfl, rfl, rfl, rfl, rfl⟩

theorem completePhysical_cases {poisoned : Bool} {ready : Option ReadyRecord}
    (h : st.completePhysical id latch poisoned = (ready, st')) :
    (record st id latch = none ∧ ready = none ∧ st' = st) ∨
      ∃ i r, (recordsOf st id)[i]? = some r ∧ record st id latch = some r ∧
        (st.putRecord id i (reaped r poisoned)).takeReadyRecord id i = (ready, st') := by
  rw [record_eq_getElem]
  unfold ReaperState.completePhysical at h
  simp only at h
  split at h
  · next hnone =>
    cases h
    exact .inl ⟨hnone, rfl, rfl⟩
  · next r hr =>
    refine .inr ⟨_, r, hr, hr, ?_⟩
    unfold reaped
    split
    · next hp => rwa [if_pos hp] at h
    · next hp => rwa [if_neg hp] at h

/-- What `attach_terminal` looks for is a record with its latch, and it takes
another one only where there is none. -/
theorem target_cases (st : ReaperState) (id : TaskId) {releases : TerminalReleases}
    (hone : releases.state.all fun state => decide (state = releases.report)) :
    (target st id releases = none ∧ recordsOf st id = []) ∨
      ∃ i r, terminalIndex (recordsOf st id) releases = some i ∧ (recordsOf st id)[i]? = some r ∧
        target st id releases = some r ∧
        (releases.report = r.release ∨ record st id releases.report = none) := by
  have hshares : ∀ r : ReaperRecord, releases.sharesLatch r.release = decide (r.release = releases.report) := by
    intro r
    unfold TerminalReleases.sharesLatch
    cases hs : releases.state with
    | none => simp [eq_comm]
    | some state =>
        rw [hs] at hone
        have : state = releases.report := by simpa using hone
        simp [this, eq_comm]
  have hfound : ∀ i r, terminalIndex (recordsOf st id) releases = some i → (recordsOf st id)[i]? = some r →
      target st id releases = some r := fun i r hi hr => Option.bind_eq_some_iff.mpr ⟨i, hi, hr⟩
  cases hmatch : (recordsOf st id).findIdx? fun record => releases.sharesLatch record.release with
  | some i =>
      obtain ⟨hlt, hp, -⟩ := List.findIdx?_eq_some_iff_getElem.mp hmatch
      have hget : (recordsOf st id)[i]? = some (recordsOf st id)[i] := List.getElem?_eq_getElem hlt
      have hindex : terminalIndex (recordsOf st id) releases = some i := by simp [terminalIndex, hmatch]
      rw [hshares] at hp
      exact .inr ⟨i, _, hindex, hget, hfound i _ hindex hget, .inl (of_decide_eq_true hp).symm⟩
  | none =>
      have hnone : record st id releases.report = none := by
        refine pick_eq_none.mpr fun r hr => ?_
        have := List.findIdx?_eq_none_iff.mp hmatch r hr
        rw [hshares] at this
        exact of_decide_eq_false this
      have hother : ∀ i, terminalIndex (recordsOf st id) releases = some i → i < (recordsOf st id).length →
          ∃ i r, terminalIndex (recordsOf st id) releases = some i ∧ (recordsOf st id)[i]? = some r ∧
            target st id releases = some r ∧
            (releases.report = r.release ∨ record st id releases.report = none) := fun i hi hlt =>
        have hget : (recordsOf st id)[i]? = some (recordsOf st id)[i] := List.getElem?_eq_getElem hlt
        ⟨i, _, hi, hget, hfound i _ hi hget, .inr hnone⟩
      cases hfree : (recordsOf st id).findIdx? fun record => !record.terminal with
      | some i =>
          obtain ⟨hlt, -, -⟩ := List.findIdx?_eq_some_iff_getElem.mp hfree
          exact .inr (hother i (by simp [terminalIndex, hmatch, hfree]) hlt)
      | none =>
          cases hl : recordsOf st id with
          | nil =>
              refine .inl ⟨?_, rfl⟩
              unfold recordsOf at hl
              simp [target, hl, terminalIndex]
          | cons c l =>
              have hindex : terminalIndex (recordsOf st id) releases = some 0 := by
                unfold terminalIndex
                rw [hmatch, hfree, hl]
                rfl
              rw [← hl]
              exact .inr (hother 0 hindex (by rw [hl]; exact Nat.succ_pos _))

/-- The record as a terminal bundle leaves it. -/
def bundled (r : ReaperRecord) (releases : TerminalReleases) : ReaperRecord :=
  { r with terminal := true, terminalReleases := some releases }

/-- The five ends of the locked section of `attach_terminal`. -/
inductive Attaching (st : ReaperState) (id : TaskId) (releases : TerminalReleases) : Attached → ReaperState → Prop
  | absent (hrecords : recordsOf st id = []) : Attaching st id releases ⟨true, some releases, none⟩ st
  | first {i : Nat} {r : ReaperRecord} {ready : Option ReadyRecord} {st' : ReaperState}
      (hi : (recordsOf st id)[i]? = some r) (ht : target st id releases = some r) (hterm : r.terminal = false)
      (hlatch : releases.report = r.release ∨ record st id releases.report = none)
      (htake : (st.putRecord id i (bundled r releases)).takeReadyRecord id i = (ready, st')) :
      Attaching st id releases ⟨false, none, ready⟩ st'
  | canonical {i : Nat} {r : ReaperRecord} (hi : (recordsOf st id)[i]? = some r) (ht : target st id releases = some r)
      (hterm : r.terminal = true) (hlatch : releases.report = r.release) :
      Attaching st id releases ⟨true, none, none⟩ st
  | duplicate {i : Nat} {r : ReaperRecord} (hi : (recordsOf st id)[i]? = some r)
      (ht : target st id releases = some r) (hterm : r.terminal = true) (hdup : r.duplicateReleases = none)
      (hlatch : record st id releases.report = none) :
      Attaching st id releases ⟨true, none, none⟩ (st.putRecord id i { r with duplicateReleases := some releases })
  | surplus {i : Nat} {r : ReaperRecord} (hi : (recordsOf st id)[i]? = some r) (ht : target st id releases = some r)
      (hterm : r.terminal = true) (hlatch : record st id releases.report = none) :
      Attaching st id releases ⟨true, some releases, none⟩ (st.putRecord id i { r with poisoned := true })

theorem attachLocked_cases (st : ReaperState) (id : TaskId) {releases : TerminalReleases}
    (hone : releases.state.all fun state => decide (state = releases.report)) :
    Attaching st id releases (attachLocked st id releases).1 (attachLocked st id releases).2 := by
  have hshares : ∀ r : ReaperRecord, releases.sharesLatch r.release = true → releases.report = r.release := by
    intro r hr
    simp only [TerminalReleases.sharesLatch, Bool.and_eq_true, decide_eq_true_eq] at hr
    exact hr.2
  have hshared : ∀ r : ReaperRecord, releases.report = r.release → releases.sharesLatch r.release = true := by
    intro r hr
    rw [hr] at hone
    simp [TerminalReleases.sharesLatch, hone, hr]
  rcases target_cases st id hone with ⟨-, hrecords⟩ | ⟨i, r, hindex, hi, ht, hlatch⟩
  · have heq : attachLocked st id releases = (⟨true, some releases, none⟩, st) := by
      unfold recordsOf at hrecords
      simp [attachLocked, hrecords, terminalIndex]
    rw [heq]
    exact .absent hrecords
  · have hfound : ((terminalIndex ((st.records.lookup id).getD []) releases).bind fun index =>
        (((st.records.lookup id).getD [])[index]?).map (index, ·)) = some (i, r) := by
      unfold recordsOf at hindex hi
      rw [hindex]
      exact congrArg (Option.map (i, ·)) hi
    unfold attachLocked
    simp only [hfound]
    by_cases hterm : r.terminal = true
    · rw [if_neg (by simp [hterm])]
      by_cases hsh : releases.sharesLatch r.release = true
      · rw [if_pos hsh]
        exact .canonical hi ht hterm (hshares r hsh)
      · have hnone := hlatch.resolve_left fun he => hsh (hshared r he)
        rw [if_neg hsh]
        by_cases hdup : r.duplicateReleases = none
        · rw [if_pos (by simp [hdup])]
          exact .duplicate hi ht hterm hdup hnone
        · rw [if_neg (by simpa using hdup)]
          exact .surplus hi ht hterm hnone
    · have hterm : r.terminal = false := by simpa using hterm
      rw [if_pos (by simp [hterm])]
      exact .first hi ht hterm hlatch rfl

end Taskvisor.Registry.Matching
