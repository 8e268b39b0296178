import Taskvisor.Registry.Matching

namespace Taskvisor.Registry.Handover

open Lib Runtime.Base Reaper Rendezvous Matching
open World (record target)

variable {w w' : World} {st : ReaperState} {id : TaskId} {latch : RemovalCompletion} {r r' : ReaperRecord} {call : Nat}
  {ops : List Op}

/-- The records are the registrations not taken ready, each with the halves
that came for it. -/
structure Matched (w : World) : Prop where
  solid : Solid w.state
  unique : (w.registered.map Registration.latch).Nodup
  known : ∀ id latch r, record w.state id latch = some r → ⟨id, r.name, latch⟩ ∈ w.registered ∧ latch ∉ w.ready
  present : ∀ g ∈ w.registered, g.latch ∉ w.ready → ∃ r, record w.state g.id g.latch = some r ∧ r.name = g.name
  names : ∀ name id latch, ⟨id, latch⟩ ∈ reserved w.state name ↔ ∃ r, record w.state id latch = some r ∧ r.name = name
  physical : ∀ id latch r, record w.state id latch = some r → (r.physical = true ↔ latch ∈ w.outputs)
  terminal : ∀ id latch r, record w.state id latch = some r → (r.terminal = true ↔ latch ∈ w.bundles)
  releases : ∀ id latch r, record w.state id latch = some r → r.terminal = r.terminalReleases.isSome
  apart : ∀ id latch r, record w.state id latch = some r → ¬ (r.physical = true ∧ r.terminal = true)
  logged : ∀ latch, latch ∈ w.outputs ∨ latch ∈ w.bundles → latch ∈ w.registered.map Registration.latch
  nodup : w.ready.Nodup
  ready : ∀ latch ∈ w.ready, latch ∈ w.registered.map Registration.latch ∧ latch ∈ w.outputs ∧ latch ∈ w.bundles

theorem matched_new : Matched World.new where
  solid := ⟨fun _ => List.nodup_nil, fun _ _ h => (nomatch h), fun _ _ h => (nomatch h)⟩
  unique := List.nodup_nil
  known := fun _ _ _ h => (nomatch h)
  present := fun _ h => (nomatch h)
  names := fun _ _ _ => ⟨fun h => (nomatch h), fun ⟨_, h, _⟩ => (nomatch h)⟩
  physical := fun _ _ _ h => (nomatch h)
  terminal := fun _ _ _ h => (nomatch h)
  releases := fun _ _ _ h => (nomatch h)
  apart := fun _ _ _ h => (nomatch h)
  logged := fun _ h => h.elim nofun nofun
  nodup := List.nodup_nil
  ready := fun _ h => (nomatch h)

theorem record_release (h : record st id latch = some r) : r.release = latch := pick_release h

/-- A latch has one identity. -/
theorem Matched.identity (h : Matched w) {id' : TaskId} (hr : record w.state id latch = some r)
    (hr' : record w.state id' latch = some r') : id' = id := by
  have ha := (h.known _ _ _ hr).1
  have hb := (h.known _ _ _ hr').1
  exact congrArg Registration.id (List.inj_on_of_nodup_map h.unique hb ha rfl)

/-- The records after one of them was revised. -/
theorem Matched.revised (h : Matched w) (hr : record w.state id latch = some r) {out : Option ReaperRecord}
    (hrev : Revised w.state st id r out) {id' : TaskId} {l : RemovalCompletion} {s : ReaperRecord} :
    record st id' l = some s ↔ (id' = id ∧ l = latch ∧ out = some s) ∨ (l ≠ latch ∧ record w.state id' l = some s) := by
  rw [hrev.record, record_release hr]
  by_cases he : id' = id ∧ l = latch
  · rw [if_pos he]
    obtain ⟨rfl, rfl⟩ := he
    simp
  · rw [if_neg he]
    constructor
    · intro hs
      refine .inr ⟨fun hl => he ⟨?_, hl⟩, hs⟩
      subst hl
      exact h.identity hr hs
    · rintro (⟨rfl, rfl, -⟩ | ⟨-, hs⟩)
      · exact absurd ⟨rfl, rfl⟩ he
      · exact hs

/-- One record gets a half and stays. -/
theorem Matched.keep (h : Matched w) (hr : record w.state id latch = some r)
    (hrev : Revised w.state w'.state id r (some r')) (hname : r'.name = r.name)
    (hreg : w'.registered = w.registered) (hready : w'.ready = w.ready)
    (hout : ∀ l, l ∈ w'.outputs ↔ l ∈ w.outputs ∨ l = latch ∧ r'.physical = true)
    (hbun : ∀ l, l ∈ w'.bundles ↔ l ∈ w.bundles ∨ l = latch ∧ r'.terminal = true)
    (hphys : r.physical = true → r'.physical = true) (hterm : r.terminal = true → r'.terminal = true)
    (hrel : r'.terminal = r'.terminalReleases.isSome) (hapart : ¬ (r'.physical = true ∧ r'.terminal = true)) :
    Matched w' where
  solid := hrev.solid
  unique := hreg ▸ h.unique
  known := fun id' l s hs => by
    rw [hreg, hready]
    rcases (h.revised hr hrev).mp hs with ⟨rfl, rfl, he⟩ | ⟨-, hs⟩
    · cases he
      rw [hname]
      exact h.known _ _ _ hr
    · exact h.known _ _ _ hs
  present := fun g hg hn => by
    rw [hreg] at hg
    rw [hready] at hn
    obtain ⟨s, hs, hsn⟩ := h.present g hg hn
    by_cases hl : g.latch = latch
    · have hs' : record w.state g.id latch = some s := hl ▸ hs
      have hid := h.identity hr hs'
      subst hid
      obtain rfl : s = r := Option.some.inj (hs'.symm.trans hr)
      exact ⟨r', (h.revised hr hrev).mpr (.inl ⟨rfl, hl, rfl⟩), hname.trans hsn⟩
    · exact ⟨s, (h.revised hr hrev).mpr (.inr ⟨hl, hs⟩), hsn⟩
  names := fun name id' l => by
    rw [hrev.names, h.names]
    constructor
    · rintro ⟨⟨s, hs, hsn⟩, -⟩
      by_cases hl : l = latch
      · subst hl
        have hid := h.identity hr hs
        subst hid
        obtain rfl : s = r := Option.some.inj (hs.symm.trans hr)
        exact ⟨r', (h.revised hr hrev).mpr (.inl ⟨rfl, rfl, rfl⟩), hname.trans hsn⟩
      · exact ⟨s, (h.revised hr hrev).mpr (.inr ⟨hl, hs⟩), hsn⟩
    · rintro ⟨s, hs, hsn⟩
      refine ⟨?_, nofun⟩
      rcases (h.revised hr hrev).mp hs with ⟨rfl, rfl, he⟩ | ⟨-, hs⟩
      · cases he
        exact ⟨r, hr, hname.symm.trans hsn⟩
      · exact ⟨s, hs, hsn⟩
  physical := fun id' l s hs => by
    rw [hout]
    rcases (h.revised hr hrev).mp hs with ⟨rfl, rfl, he⟩ | ⟨hl, hs⟩
    · cases he
      have := h.physical _ _ _ hr
      simp only [true_and]
      exact ⟨.inr, fun ho => ho.elim (fun ho => hphys (this.mpr ho)) id⟩
    · simp [hl, h.physical _ _ _ hs]
  terminal := fun id' l s hs => by
    rw [hbun]
    rcases (h.revised hr hrev).mp hs with ⟨rfl, rfl, he⟩ | ⟨hl, hs⟩
    · cases he
      have := h.terminal _ _ _ hr
      simp only [true_and]
      exact ⟨.inr, fun ho => ho.elim (fun ho => hterm (this.mpr ho)) id⟩
    · simp [hl, h.terminal _ _ _ hs]
  releases := fun id' l s hs => by
    rcases (h.revised hr hrev).mp hs with ⟨-, -, he⟩ | ⟨-, hs⟩
    · cases he
      exact hrel
    · exact h.releases _ _ _ hs
  apart := fun id' l s hs => by
    rcases (h.revised hr hrev).mp hs with ⟨-, -, he⟩ | ⟨-, hs⟩
    · cases he
      exact hapart
    · exact h.apart _ _ _ hs
  logged := fun l hl => by
    rw [hout, hbun] at hl
    rw [hreg]
    by_cases he : l = latch
    · rw [he]
      exact List.mem_map.mpr ⟨_, (h.known _ _ _ hr).1, rfl⟩
    · exact h.logged l (by simpa [he] using hl)
  nodup := hready ▸ h.nodup
  ready := fun l hl => by
    rw [hready] at hl
    obtain ⟨h1, h2, h3⟩ := h.ready l hl
    exact ⟨hreg ▸ h1, (hout l).mpr (.inl h2), (hbun l).mpr (.inl h3)⟩

/-- One record is taken ready. -/
theorem Matched.take (h : Matched w) (hr : record w.state id latch = some r)
    (hrev : Revised w.state w'.state id r none) (hreg : w'.registered = w.registered)
    (hready : w'.ready = w.ready ++ [latch]) (hout : ∀ l, l ∈ w'.outputs ↔ l ∈ w.outputs ∨ l = latch)
    (hbun : ∀ l, l ∈ w'.bundles ↔ l ∈ w.bundles ∨ l = latch) : Matched w' where
  solid := hrev.solid
  unique := hreg ▸ h.unique
  known := fun id' l s hs => by
    rw [hreg, hready]
    rcases (h.revised hr hrev).mp hs with ⟨-, -, he⟩ | ⟨hl, hs⟩
    · cases he
    · obtain ⟨hk, hn⟩ := h.known _ _ _ hs
      exact ⟨hk, by simp [hn, hl]⟩
  present := fun g hg hn => by
    rw [hreg] at hg
    rw [hready] at hn
    simp only [List.mem_append, List.mem_singleton, not_or] at hn
    obtain ⟨s, hs, hsn⟩ := h.present g hg hn.1
    exact ⟨s, (h.revised hr hrev).mpr (.inr ⟨hn.2, hs⟩), hsn⟩
  names := fun name id' l => by
    rw [hrev.names, h.names]
    constructor
    · rintro ⟨⟨s, hs, hsn⟩, hne⟩
      have hl : l ≠ latch := fun hl => by
        subst hl
        have hid := h.identity hr hs
        subst hid
        obtain rfl : s = r := Option.some.inj (hs.symm.trans hr)
        exact hne rfl hsn.symm (by rw [record_release hr])
      exact ⟨s, (h.revised hr hrev).mpr (.inr ⟨hl, hs⟩), hsn⟩
    · rintro ⟨s, hs, hsn⟩
      rcases (h.revised hr hrev).mp hs with ⟨-, -, he⟩ | ⟨hl, hs⟩
      · cases he
      · refine ⟨⟨s, hs, hsn⟩, fun _ _ he => hl ?_⟩
        exact (congrArg ReaperActivity.release he).trans (record_release hr)
  physical := fun id' l s hs => by
    rcases (h.revised hr hrev).mp hs with ⟨-, -, he⟩ | ⟨hl, hs⟩
    · cases he
    · simp [hout, hl, h.physical _ _ _ hs]
  terminal := fun id' l s hs => by
    rcases (h.revised hr hrev).mp hs with ⟨-, -, he⟩ | ⟨hl, hs⟩
    · cases he
    · simp [hbun, hl, h.terminal _ _ _ hs]
  releases := fun id' l s hs => by
    rcases (h.revised hr hrev).mp hs with ⟨-, -, he⟩ | ⟨hl, hs⟩
    · cases he
    · exact h.releases _ _ _ hs
  apart := fun id' l s hs => by
    rcases (h.revised hr hrev).mp hs with ⟨-, -, he⟩ | ⟨hl, hs⟩
    · cases he
    · exact h.apart _ _ _ hs
  logged := fun l hl => by
    rw [hout, hbun] at hl
    rw [hreg]
    by_cases he : l = latch
    · rw [he]
      exact List.mem_map.mpr ⟨_, (h.known _ _ _ hr).1, rfl⟩
    · exact h.logged l (by simpa [he] using hl)
  nodup := by
    rw [hready]
    refine List.nodup_append.mpr ⟨h.nodup, List.nodup_singleton _, fun a ha b hb => ?_⟩
    rw [List.mem_singleton.mp hb]
    exact fun he => (h.known _ _ _ hr).2 (he ▸ ha)
  ready := fun l hl => by
    rw [hready] at hl
    rw [hout, hbun, hreg]
    rcases List.mem_append.mp hl with hl | hl
    · obtain ⟨h1, h2, h3⟩ := h.ready l hl
      exact ⟨h1, .inl h2, .inl h3⟩
    · rw [List.mem_singleton.mp hl]
      exact ⟨List.mem_map.mpr ⟨_, (h.known _ _ _ hr).1, rfl⟩, .inr rfl, .inr rfl⟩

theorem Matched.unrecorded (h : Matched w) (id : TaskId) (hfresh : latch ∉ w.registered.map Registration.latch) :
    record w.state id latch = none := by
  cases hr : record w.state id latch with
  | none => rfl
  | some r => exact absurd (List.mem_map.mpr ⟨_, (h.known _ _ _ hr).1, rfl⟩) hfresh

theorem Matched.register (h : Matched w) (call : Nat) (id : TaskId) (name : String)
    (hfresh : latch ∉ w.registered.map Registration.latch) : Matched (w.register call id name latch) := by
  have hnone := fun id' => h.unrecorded id' hfresh
  have hunready : latch ∉ w.ready := fun hm => hfresh (h.ready latch hm).1
  have hrecord : ∀ id' l s, record (w.register call id name latch).state id' l = some s ↔
      (id' = id ∧ l = latch ∧ s = unmatched name latch) ∨ (l ≠ latch ∧ record w.state id' l = some s) := by
    intro id' l s
    change record (w.state.register id name latch) id' l = some s ↔ _
    rw [record_register (hnone id)]
    by_cases hl : l = latch
    · subst hl
      by_cases hid : id' = id
      · simp [hid, eq_comm]
      · simp [hid, hnone id']
    · simp [hl]
  exact
    { solid := solid_register h.solid (hnone id)
      unique := by
        simp only [World.register, List.map_append]
        refine List.nodup_append.mpr ⟨h.unique, List.nodup_singleton _, fun a ha b hb he => ?_⟩
        rw [List.mem_singleton.mp hb] at he
        have he : a = latch := he
        exact hfresh (he ▸ ha)
      known := fun id' l s hs => by
        rcases (hrecord id' l s).mp hs with ⟨rfl, rfl, rfl⟩ | ⟨-, hs⟩
        · exact ⟨List.mem_append_right _ (List.mem_singleton.mpr rfl), hunready⟩
        · obtain ⟨hk, hn⟩ := h.known _ _ _ hs
          exact ⟨List.mem_append_left _ hk, hn⟩
      present := fun g hg hn => by
        rcases List.mem_append.mp hg with hg | hg
        · obtain ⟨s, hs, hsn⟩ := h.present g hg hn
          have hl : g.latch ≠ latch := fun hl => hfresh (hl ▸ List.mem_map.mpr ⟨g, hg, rfl⟩)
          exact ⟨s, (hrecord _ _ _).mpr (.inr ⟨hl, hs⟩), hsn⟩
        · rw [List.mem_singleton.mp hg]
          exact ⟨unmatched name latch, (hrecord _ _ _).mpr (.inl ⟨rfl, rfl, rfl⟩), rfl⟩
      names := fun name' id' l => by
        change _ ∈ reserved (w.state.register id name latch) name' ↔ _
        rw [mem_reserved_register, h.names]
        constructor
        · rintro (⟨s, hs, hsn⟩ | ⟨rfl, he⟩)
          · have hl : l ≠ latch := fun hl => by
              rw [hl, hnone id'] at hs
              cases hs
            exact ⟨s, (hrecord _ _ _).mpr (.inr ⟨hl, hs⟩), hsn⟩
          · cases he
            exact ⟨unmatched name' latch, (hrecord _ _ _).mpr (.inl ⟨rfl, rfl, rfl⟩), rfl⟩
        · rintro ⟨s, hs, hsn⟩
          rcases (hrecord _ _ _).mp hs with ⟨rfl, rfl, rfl⟩ | ⟨-, hs⟩
          · exact .inr ⟨hsn.symm, rfl⟩
          · exact .inl ⟨s, hs, hsn⟩
      physical := fun id' l s hs => by
        rcases (hrecord id' l s).mp hs with ⟨rfl, rfl, rfl⟩ | ⟨-, hs⟩
        · exact ⟨nofun, fun ho => absurd (h.logged _ (.inl ho)) hfresh⟩
        · exact h.physical _ _ _ hs
      terminal := fun id' l s hs => by
        rcases (hrecord id' l s).mp hs with ⟨rfl, rfl, rfl⟩ | ⟨-, hs⟩
        · exact ⟨nofun, fun ho => absurd (h.logged _ (.inr ho)) hfresh⟩
        · exact h.terminal _ _ _ hs
      releases := fun id' l s hs => by
        rcases (hrecord id' l s).mp hs with ⟨-, -, rfl⟩ | ⟨-, hs⟩
        · rfl
        · exact h.releases _ _ _ hs
      apart := fun id' l s hs => by
        rcases (hrecord id' l s).mp hs with ⟨-, -, rfl⟩ | ⟨-, hs⟩
        · exact fun hb => nomatch hb.1
        · exact h.apart _ _ _ hs
      logged := fun l hl => by
        rw [World.register, List.map_append]
        exact List.mem_append_left _ (h.logged l hl)
      nodup := h.nodup
      ready := fun l hl => by
        obtain ⟨h1, h2, h3⟩ := h.ready l hl
        refine ⟨?_, h2, h3⟩
        rw [World.register, List.map_append]
        exact List.mem_append_left _ h1 }

theorem Matched.of_eq (h : Matched w) (hstate : w'.state = w.state) (hreg : w'.registered = w.registered)
    (hout : ∀ l, l ∈ w'.outputs ↔ l ∈ w.outputs) (hbun : ∀ l, l ∈ w'.bundles ↔ l ∈ w.bundles)
    (hready : w'.ready = w.ready) : Matched w' where
  solid := hstate ▸ h.solid
  unique := hreg ▸ h.unique
  known := by rw [hstate, hreg, hready]; exact h.known
  present := by rw [hstate, hreg, hready]; exact h.present
  names := by rw [hstate]; exact h.names
  physical := by simpa only [hstate, hout] using h.physical
  terminal := by simpa only [hstate, hbun] using h.terminal
  releases := by rw [hstate]; exact h.releases
  apart := by rw [hstate]; exact h.apart
  logged := by simpa only [hreg, hout, hbun] using h.logged
  nodup := hready ▸ h.nodup
  ready := by simpa only [hreg, hready, hout, hbun] using h.ready

/-- The latches a record holds beside its own. -/
def held (r : ReaperRecord) : List RemovalCompletion :=
  (r.terminalReleases.map TerminalReleases.latches).getD [] ++
    (r.duplicateReleases.map TerminalReleases.latches).getD []

/-- In a list of operations, a latch that did not stray is completed after the
bundle of its ready record was submitted. -/
def Ordered (w : World) : List RemovalCompletion → List Op → Prop
  | _, [] => True
  | submitted, .submit record :: ops => Ordered w (submitted ++ record.toList) ops
  | submitted, .physical latch :: ops =>
      (latch ∈ w.strays ∨ latch ∈ w.ready ∧ latch ∈ submitted) ∧ Ordered w submitted ops
  | submitted, .count :: ops => Ordered w submitted ops
  | submitted, .uncount :: ops => Ordered w submitted ops

def Awaited (w : World) (latch : RemovalCompletion) : Prop :=
  ∃ call ops, w.tails.lookup call = some ops ∧ Op.physical latch ∈ ops

/-- What becomes of the latches. -/
structure Released (w : World) : Prop where
  held : ∀ id latch r, record w.state id latch = some r → ∀ l ∈ held r, l ∈ w.strays ∨ l = latch
  tails : ∀ call ops, w.tails.lookup call = some ops → Ordered w w.submitted ops
  completed : ∀ latch ∈ w.completed, latch ∈ w.strays ∨ latch ∈ w.ready ∧ latch ∈ w.submitted
  given : ∀ g ∈ w.given, (∃ id r, record w.state id g.1 = some r ∧ (g.2 = g.1 ∨ g.2 ∈ Handover.held r)) ∨
    g.2 ∈ w.completed ∨ Awaited w g.2

theorem Ordered.mono (hstrays : w.strays ⊆ w'.strays) (hready : w.ready ⊆ w'.ready) {s s' : List RemovalCompletion}
    (hs : s ⊆ s') (h : Ordered w s ops) : Ordered w' s' ops := by
  induction ops generalizing s s' with
  | nil => trivial
  | cons op ops ih =>
      cases op with
      | count => exact ih hs h
      | uncount => exact ih hs h
      | submit record =>
          refine ih (fun l hl => ?_) h
          rcases List.mem_append.mp hl with hl | hl
          · exact List.mem_append_left _ (hs hl)
          · exact List.mem_append_right _ hl
      | physical latch =>
          exact ⟨h.1.imp (fun h => hstrays h) fun h => ⟨hready h.1, hs h.2⟩, ih hs h.2⟩

theorem ordered_physical {s : List RemovalCompletion} (l : List RemovalCompletion)
    (h : ∀ latch ∈ l, latch ∈ w.strays ∨ latch ∈ w.ready ∧ latch ∈ s) : Ordered w s (l.map .physical) := by
  induction l with
  | nil => trivial
  | cons latch l ih => exact ⟨h latch List.mem_cons_self, ih fun x hx => h x (List.mem_cons_of_mem _ hx)⟩

/-- A call enters its tail: nothing that was awaited is lost. -/
theorem awaited_insert (hfree : w.tails.lookup call = none) (htails : w'.tails = w.tails.insert call ops) {l : RemovalCompletion}
    (h : Awaited w l) : Awaited w' l := by
  obtain ⟨c, os, hc, hm⟩ := h
  refine ⟨c, os, ?_, hm⟩
  rw [htails, Table.lookup_insert_ite, if_neg, hc]
  rintro rfl
  rw [hfree] at hc
  cases hc

/-- A call leaves its locked section with a well-ordered tail. -/
theorem Released.enter (h : Released w) (hfree : w.tails.lookup call = none) (htails : w'.tails = w.tails.insert call ops)
    (hstrays : w.strays ⊆ w'.strays) (hready : w.ready ⊆ w'.ready) (hsub : w'.submitted = w.submitted)
    (hcom : w'.completed = w.completed) (hops : Ordered w' w.submitted ops)
    (hheld : ∀ id latch r, record w'.state id latch = some r → ∀ l ∈ Handover.held r, l ∈ w'.strays ∨ l = latch)
    (hgiven : ∀ g ∈ w'.given, g ∈ w.given ∨ (∃ id r, record w'.state id g.1 = some r ∧
      (g.2 = g.1 ∨ g.2 ∈ Handover.held r)) ∨ Op.physical g.2 ∈ ops)
    (hkept : ∀ id latch r, record w.state id latch = some r →
      (∃ r', record w'.state id latch = some r' ∧ Handover.held r ⊆ Handover.held r') ∨
        Op.physical latch ∈ ops ∧ ∀ l ∈ Handover.held r, Op.physical l ∈ ops) : Released w' where
  held := hheld
  tails := fun c os hc => by
    rw [htails] at hc
    rw [hsub]
    obtain ⟨-, rfl⟩ | ⟨-, hc⟩ := Table.of_lookup_insert hc
    · exact hops
    · exact (h.tails c os hc).mono hstrays hready fun _ => id
  completed := fun l hl => by
    rw [hcom] at hl
    rw [hsub]
    exact (h.completed l hl).imp (fun hs => hstrays hs) fun hr => ⟨hready hr.1, hr.2⟩
  given := fun g hg => by
    have hnew : Op.physical g.2 ∈ ops → Awaited w' g.2 := fun hm =>
      ⟨call, ops, by rw [htails, Table.lookup_insert_ite, if_pos rfl], hm⟩
    rcases hgiven g hg with hold | hrec | hop
    · rcases h.given g hold with ⟨id, r, hr, hm⟩ | hc | ha
      · rcases hkept id g.1 r hr with ⟨r', hr', hsubset⟩ | ⟨hown, hall⟩
        · exact .inl ⟨id, r', hr', hm.imp (fun hm => hm) fun hm => hsubset hm⟩
        · rcases hm with hm | hm
          · exact .inr (.inr (hnew (hm ▸ hown)))
          · exact .inr (.inr (hnew (hall _ hm)))
      · exact .inr (.inl (hcom ▸ hc))
      · exact .inr (.inr (awaited_insert hfree htails ha))
    · exact .inl hrec
    · exact .inr (.inr (hnew hop))

/-- `active` is its increments less its decrements, and those that are still
to come make up the registrations and the ready records. -/
structure Tallied (w : World) : Prop where
  active : w.active = BitVec.ofNat 64 w.counted - BitVec.ofNat 64 w.uncounted
  counted : w.counted + Table.total (List.count .count) w.tails = w.registered.length
  uncounted : w.uncounted + Table.total (List.count .uncount) w.tails = w.ready.length

theorem Tallied.enter (h : Tallied w) (hfree : w.tails.lookup call = none) (htails : w'.tails = w.tails.insert call ops)
    (hactive : w'.active = w.active) (hcounted : w'.counted = w.counted) (huncounted : w'.uncounted = w.uncounted)
    (hreg : w'.registered.length = w.registered.length + ops.count .count)
    (hready : w'.ready.length = w.ready.length + ops.count .uncount) : Tallied w' where
  active := by rw [hactive, hcounted, huncounted, h.active]
  counted := by rw [hcounted, htails, Table.total_insert_of_none _ hfree, hreg, ← h.counted, Nat.add_assoc]
  uncounted := by rw [huncounted, htails, Table.total_insert_of_none _ hfree, hready, ← h.uncounted, Nat.add_assoc]

theorem count_physical (l : List RemovalCompletion) :
    (l.map Op.physical).count .count = 0 ∧ (l.map Op.physical).count .uncount = 0 := by
  constructor <;> exact List.count_eq_zero.mpr (by simp)

theorem submitReady_eq (release : RemovalCompletion) (releases : TerminalReleases) (dup : Option TerminalReleases)
    (poisoned : Bool) : submitReady ⟨release, releases, dup, poisoned⟩ = .submit (some release) :: .uncount ::
      (release :: (releases.latches ++ (dup.map TerminalReleases.latches).getD [])).map .physical := by
  simp [submitReady, ReadyRecord.effects, ofEffect, Function.comp_def]

theorem count_submitReady (ready : ReadyRecord) :
    (submitReady ready).count .count = 0 ∧ (submitReady ready).count .uncount = 1 := by
  obtain ⟨release, releases, dup, poisoned⟩ := ready
  rw [submitReady_eq]
  obtain ⟨hcount, huncount⟩ := count_physical
    (release :: (releases.latches ++ (dup.map TerminalReleases.latches).getD []))
  constructor
  · rw [List.count_cons, List.count_cons, hcount]
    rfl
  · rw [List.count_cons, List.count_cons, huncount]
    rfl

structure Sound (w : World) : Prop where
  matched : Matched w
  released : Released w
  tallied : Tallied w

theorem sound_new : Sound World.new :=
  ⟨matched_new, ⟨fun _ _ _ h => (nomatch h), fun _ _ h => (nomatch h), fun _ h => (nomatch h), fun _ h => (nomatch h)⟩,
    ⟨rfl, rfl, rfl⟩⟩

theorem Sound.register (h : Sound w) (hfree : w.tails.lookup call = none) (id : TaskId) (name : String)
    (hfresh : latch ∉ w.registered.map Registration.latch) : Sound (w.register call id name latch) := by
  have hm := h.matched.register call id name hfresh
  have hnone := fun id' => h.matched.unrecorded id' hfresh
  refine ⟨hm, ?_, ?_⟩
  · refine h.released.enter hfree rfl (List.Subset.refl _) (List.Subset.refl _) rfl rfl trivial ?_ (fun g hg => ?_) ?_
    · intro id' l r hr
      change record (w.state.register id name latch) id' l = some r at hr
      rw [record_register (hnone id)] at hr
      split at hr
      · cases hr
        simp [Handover.held, unmatched]
      · exact h.released.held _ _ _ hr
    · rcases List.mem_append.mp hg with hg | hg
      · exact .inl hg
      · rw [List.mem_singleton.mp hg]
        refine .inr (.inl ⟨id, unmatched name latch, ?_, .inl rfl⟩)
        change record (w.state.register id name latch) id latch = _
        rw [record_register (hnone id), if_pos ⟨rfl, rfl⟩]
    · intro id' l r hr
      refine .inl ⟨r, ?_, List.Subset.refl _⟩
      change record (w.state.register id name latch) id' l = some r
      rw [record_register (hnone id), if_neg, hr]
      rintro ⟨-, rfl⟩
      rw [hnone] at hr
      cases hr
  · exact h.tallied.enter hfree rfl rfl rfl rfl (by simp [World.register]) (by simp [World.register])

/-- The tail of a call that took a record ready. -/
theorem ready_tail (w' : World) (hr : record w.state id latch = some r) (hready : latch ∈ w'.ready)
    {releases : TerminalReleases} (hrel : r'.release = r.release) (hreleases : r'.terminalReleases = some releases)
    (hheld : ∀ l ∈ held r', l ∈ w'.strays ∨ l = latch) (s : List RemovalCompletion) :
    Ordered w' s (submitReady ⟨r'.release, releases, r'.duplicateReleases, r'.poisoned⟩) ∧
      Op.physical latch ∈ submitReady ⟨r'.release, releases, r'.duplicateReleases, r'.poisoned⟩ ∧
      ∀ l ∈ held r', Op.physical l ∈ submitReady ⟨r'.release, releases, r'.duplicateReleases, r'.poisoned⟩ := by
  have hlatch : r'.release = latch := hrel.trans (record_release hr)
  have hheld' : held r' = releases.latches ++ (r'.duplicateReleases.map TerminalReleases.latches).getD [] := by
    simp [held, hreleases]
  rw [submitReady_eq, ← hheld', hlatch]
  refine ⟨ordered_physical _ fun l hl => ?_, by simp, fun l hl => by simp [hl]⟩
  rcases List.mem_cons.mp hl with rfl | hl
  · exact .inr ⟨hready, by simp⟩
  · rcases hheld l hl with hs | rfl
    · exact .inl hs
    · exact .inr ⟨hready, by simp⟩

/-- A call changes one record, which stays. -/
theorem Sound.amend (h : Sound w) (hfree : w.tails.lookup call = none) (hr : record w.state id latch = some r)
    (hrev : Revised w.state w'.state id r (some r')) (hname : r'.name = r.name)
    (htails : w'.tails = w.tails.insert call ops) (hreg : w'.registered = w.registered) (hready : w'.ready = w.ready)
    (hsub : w'.submitted = w.submitted) (hcom : w'.completed = w.completed) (hactive : w'.active = w.active)
    (hcounted : w'.counted = w.counted) (huncounted : w'.uncounted = w.uncounted) (hstrays : w.strays ⊆ w'.strays)
    (hout : ∀ l, l ∈ w'.outputs ↔ l ∈ w.outputs ∨ l = latch ∧ r'.physical = true)
    (hbun : ∀ l, l ∈ w'.bundles ↔ l ∈ w.bundles ∨ l = latch ∧ r'.terminal = true)
    (hphys : r.physical = true → r'.physical = true) (hterm : r.terminal = true → r'.terminal = true)
    (hisSome : r'.terminal = r'.terminalReleases.isSome) (hapart : ¬ (r'.physical = true ∧ r'.terminal = true))
    (hops : Ordered w' w.submitted ops) (hcount : ops.count .count = 0) (huncount : ops.count .uncount = 0)
    (hheld : ∀ l ∈ held r', l ∈ held r ∨ l ∈ w'.strays ∨ l = latch) (hmore : held r ⊆ held r')
    (hgiven : ∀ g ∈ w'.given, g ∈ w.given ∨ g.1 = latch ∧ (g.2 = latch ∨ g.2 ∈ held r') ∨ Op.physical g.2 ∈ ops) :
    Sound w' := by
  have hrevised : ∀ {id' l s}, record w'.state id' l = some s ↔
      (id' = id ∧ l = latch ∧ some r' = some s) ∨ (l ≠ latch ∧ record w.state id' l = some s) :=
    h.matched.revised hr hrev
  refine ⟨?_, ?_, ?_⟩
  · exact h.matched.keep hr hrev hname hreg hready hout hbun hphys hterm hisSome hapart
  · refine h.released.enter hfree htails hstrays (hready ▸ List.Subset.refl _) hsub hcom hops ?_ ?_ ?_
    · intro id' l s hs x hx
      rcases hrevised.mp hs with ⟨-, rfl, he⟩ | ⟨-, hs⟩
      · cases he
        rcases hheld x hx with hx | hx
        · exact (h.released.held _ _ _ hr x hx).imp (fun hs => hstrays hs) fun he => he
        · exact hx
      · exact (h.released.held _ _ _ hs x hx).imp (fun hx => hstrays hx) fun hx => hx
    · intro g hg
      rcases hgiven g hg with hg | ⟨h1, h2⟩ | hg
      · exact .inl hg
      · exact .inr (.inl ⟨id, r', h1 ▸ hrevised.mpr (.inl ⟨rfl, rfl, rfl⟩), h1 ▸ h2⟩)
      · exact .inr (.inr hg)
    · intro id' l s hs
      by_cases hl : l = latch
      · subst hl
        have hid := h.matched.identity hr hs
        subst hid
        obtain rfl : s = r := Option.some.inj (hs.symm.trans hr)
        exact .inl ⟨r', hrevised.mpr (.inl ⟨rfl, rfl, rfl⟩), hmore⟩
      · exact .inl ⟨s, hrevised.mpr (.inr ⟨hl, hs⟩), List.Subset.refl _⟩
  · exact h.tallied.enter hfree htails hactive hcounted huncounted (by simp [hreg, hcount]) (by simp [hready, huncount])

/-- One record gets a half: it stays, or it is taken and its latches are in
the tail of the call. -/
theorem Sound.revise (h : Sound w) (hfree : w.tails.lookup call = none) (hr : record w.state id latch = some r)
    (hrel : r'.release = r.release) (hname : r'.name = r.name) {i : Nat} (hi : (recordsOf w.state id)[i]? = some r)
    {ready : Option ReadyRecord}
    (htake : (w.state.putRecord id i r').takeReadyRecord id i = (ready, w'.state))
    (htails : w'.tails = w.tails.insert call ((ready.map submitReady).getD []))
    (hreg : w'.registered = w.registered) (hready : w'.ready = w.ready ++ (ready.map (·.release)).toList)
    (hsub : w'.submitted = w.submitted) (hcom : w'.completed = w.completed) (hactive : w'.active = w.active)
    (hcounted : w'.counted = w.counted) (huncounted : w'.uncounted = w.uncounted) (hstrays : w.strays ⊆ w'.strays)
    (hout : ∀ l, l ∈ w'.outputs ↔ l ∈ w.outputs ∨ l = latch ∧ r'.physical = true)
    (hbun : ∀ l, l ∈ w'.bundles ↔ l ∈ w.bundles ∨ l = latch ∧ r'.terminal = true)
    (hphys : r.physical = true → r'.physical = true) (hterm : r.terminal = true → r'.terminal = true)
    (hisSome : r'.terminal = r'.terminalReleases.isSome)
    (hheld : ∀ l ∈ held r', l ∈ held r ∨ l ∈ w'.strays ∨ l = latch) (hmore : held r ⊆ held r')
    (hgiven : ∀ g ∈ w'.given, g ∈ w.given ∨ g.1 = latch ∧ (g.2 = latch ∨ g.2 ∈ held r')) : Sound w' := by
  have hlatch : r'.release = latch := hrel.trans (record_release hr)
  rcases take_revised h.matched.solid hi hrel hname htake with
    ⟨rfl, hrev, hnot⟩ | ⟨releases, hp, ht, hreleases, rfl, hrev⟩
  · refine h.amend hfree hr hrev hname htails hreg (by simpa using hready) hsub hcom hactive hcounted huncounted hstrays
      hout hbun hphys hterm hisSome (fun hboth => ?_) trivial rfl rfl hheld hmore
      fun g hg => (hgiven g hg).imp (fun hg => hg) .inl
    have hnone := hnot hboth.1 hboth.2
    rw [hboth.2, hnone] at hisSome
    cases hisSome
  · have hall : ∀ l ∈ held r', l ∈ w'.strays ∨ l = latch := fun l hl =>
      (hheld l hl).elim (fun hl => (h.released.held _ _ _ hr l hl).imp (fun hs => hstrays hs) fun he => he) fun hl => hl
    have hready' : w'.ready = w.ready ++ [latch] := by simpa [hlatch] using hready
    have hrevised : ∀ {id' l s}, record w'.state id' l = some s ↔
        (id' = id ∧ l = latch ∧ none = some s) ∨ (l ≠ latch ∧ record w.state id' l = some s) :=
      h.matched.revised hr hrev
    obtain ⟨hordered, hown, hops⟩ := ready_tail w' hr
      (hready' ▸ List.mem_append_right _ (List.mem_singleton.mpr rfl)) hrel hreleases hall w.submitted
    refine ⟨?_, ?_, ?_⟩
    · exact h.matched.take hr hrev hreg hready' (fun l => (hout l).trans (by simp [hp]))
        fun l => (hbun l).trans (by simp [ht])
    · refine h.released.enter hfree htails hstrays (hready' ▸ List.subset_append_left _ _) hsub hcom hordered ?_ ?_ ?_
      · intro id' l s hs
        rcases hrevised.mp hs with ⟨-, -, he⟩ | ⟨-, hs⟩
        · cases he
        · exact fun x hx => (h.released.held _ _ _ hs x hx).imp (fun hx => hstrays hx) fun hx => hx
      · intro g hg
        rcases hgiven g hg with hg | ⟨-, rfl | h2⟩
        · exact .inl hg
        · exact .inr (.inr hown)
        · exact .inr (.inr (hops _ h2))
      · intro id' l s hs
        by_cases hl : l = latch
        · subst hl
          have hid := h.matched.identity hr hs
          subst hid
          obtain rfl : s = r := Option.some.inj (hs.symm.trans hr)
          exact .inr ⟨hown, fun x hx => hops x (hmore hx)⟩
        · exact .inl ⟨s, hrevised.mpr (.inr ⟨hl, hs⟩), List.Subset.refl _⟩
    · obtain ⟨hcount, huncount⟩ := count_submitReady ⟨r'.release, releases, r'.duplicateReleases, r'.poisoned⟩
      refine h.tallied.enter hfree htails hactive hcounted huncounted ?_ ?_
      · simp [hreg, hcount]
      · simp [hready', huncount]

/-- A call that finds nothing to change, with a tail of its own business. -/
theorem Sound.pass (h : Sound w) (hfree : w.tails.lookup call = none) (htails : w'.tails = w.tails.insert call ops)
    (hstate : w'.state = w.state) (hreg : w'.registered = w.registered) (hready : w'.ready = w.ready)
    (hsub : w'.submitted = w.submitted) (hcom : w'.completed = w.completed) (hactive : w'.active = w.active)
    (hcounted : w'.counted = w.counted) (huncounted : w'.uncounted = w.uncounted) (hstrays : w.strays ⊆ w'.strays)
    (hout : ∀ l, l ∈ w'.outputs ↔ l ∈ w.outputs) (hbun : ∀ l, l ∈ w'.bundles ↔ l ∈ w.bundles)
    (hops : Ordered w' w.submitted ops) (hcount : ops.count .count = 0) (huncount : ops.count .uncount = 0)
    (hgiven : ∀ g ∈ w'.given, g ∈ w.given ∨ (∃ id r, record w.state id g.1 = some r ∧ (g.2 = g.1 ∨ g.2 ∈ held r)) ∨
      Op.physical g.2 ∈ ops) : Sound w' := by
  refine ⟨h.matched.of_eq hstate hreg hout hbun hready, ?_, ?_⟩
  · refine h.released.enter hfree htails hstrays (hready ▸ List.Subset.refl _) hsub hcom hops ?_ ?_ ?_
    · intro id l r hr x hx
      rw [hstate] at hr
      exact (h.released.held _ _ _ hr x hx).imp (fun hs => hstrays hs) fun he => he
    · rwa [hstate]
    · intro id l r hr
      exact .inl ⟨r, hstate ▸ hr, List.Subset.refl _⟩
  · exact h.tallied.enter hfree htails hactive hcounted huncounted (by simp [hreg, hcount]) (by simp [hready, huncount])

theorem Sound.completePhysical (h : Sound w) (hfree : w.tails.lookup call = none) (id : TaskId) (latch : RemovalCompletion)
    (poisoned : Bool) : Sound (w.completePhysical call id latch poisoned) := by
  cases hcall : w.state.completePhysical id latch poisoned with
  | mk ready state =>
      unfold World.completePhysical
      rw [hcall]
      rcases completePhysical_cases hcall with ⟨hnone, rfl, rfl⟩ | ⟨i, r, hi, hr, htake⟩
      · refine h.pass hfree rfl rfl rfl ?_ rfl rfl rfl rfl rfl (List.Subset.refl _) ?_ (fun _ => Iff.rfl) trivial rfl rfl
          fun g hg => .inl hg
        · simp
        · simp [hnone]
      · obtain ⟨hp, hrel, hname, hterm, hreleases, hdup⟩ := reaped_same r poisoned
        have hlatch := record_release hr
        have hheld : held (reaped r poisoned) = held r := by simp [held, hreleases, hdup]
        refine h.revise hfree hr hrel hname hi htake rfl rfl rfl rfl rfl rfl rfl rfl (List.Subset.refl _) ?_ ?_
          (fun _ => hp) (fun ht => hterm.trans ht) ?_ ?_ ?_ fun g hg => .inl hg
        · intro l
          simp [hr, hlatch, hp]
        · intro l
          have := h.matched.terminal _ _ _ hr
          rw [hterm, this]
          exact ⟨.inl, fun hl => hl.elim (fun hl => hl) fun hl => hl.1 ▸ hl.2⟩
        · rw [hterm, hreleases]
          exact h.matched.releases _ _ _ hr
        · rw [hheld]
          exact fun l hl => .inl hl
        · rw [hheld]
          exact List.Subset.refl _

theorem ordered_complete (hs : latch ∈ w.strays) {releases : TerminalReleases}
    (hall : ∀ l ∈ releases.latches, l = latch) (s : List RemovalCompletion) :
    Ordered w s (.submit none :: completeAll releases) :=
  ordered_physical releases.latches fun l hl => .inl (hall l hl ▸ hs)

theorem count_complete (releases : TerminalReleases) : (Op.submit none :: completeAll releases).count .count = 0 ∧
    (Op.submit none :: completeAll releases).count .uncount = 0 := by
  obtain ⟨hcount, huncount⟩ := count_physical releases.latches
  constructor
  · rw [List.count_cons, completeAll, hcount]
    rfl
  · rw [List.count_cons, completeAll, huncount]
    rfl

theorem Sound.attachTerminal (h : Sound w) (hfree : w.tails.lookup call = none) (id : TaskId)
    {releases : TerminalReleases} (hone : releases.state.all fun state => decide (state = releases.report)) :
    Sound (w.attachTerminal call id releases) := by
  have hlatches : ∀ l ∈ releases.latches, l = releases.report := by
    intro l hl
    rcases List.mem_append.mp hl with hl | hl
    · obtain ⟨state, hs⟩ : ∃ state, releases.state = some state := by
        cases hs : releases.state with
        | none => simp [hs] at hl
        | some state => exact ⟨state, rfl⟩
      simp only [hs, Option.toList_some, List.mem_singleton, Option.all_some, decide_eq_true_eq] at hl hone
      rw [hl, hone]
    · exact List.mem_singleton.mp hl
  have hreport : releases.report ∈ releases.latches := by simp [TerminalReleases.latches]
  have hstray : record w.state id releases.report = none →
      releases.report ∈ (w.attachTerminal call id releases).strays := by
    intro hnone
    simp [World.attachTerminal, hnone]
  have hstrays : w.strays ⊆ (w.attachTerminal call id releases).strays := by
    intro l hl
    simp only [World.attachTerminal]
    split
    · exact hl
    · exact List.mem_append_left _ hl
  have hphysical : ∀ r, record w.state id r.release = some r → ∀ l, l ∈ w.outputs ↔
      l ∈ w.outputs ∨ l = r.release ∧ r.physical = true := by
    intro r hr l
    have hp := h.matched.physical _ _ _ hr
    exact ⟨.inl, fun hl => hl.elim (fun hl => hl) fun hl => hl.1 ▸ hp.mp hl.2⟩
  have hcases := attachLocked_cases w.state id hone
  have hstate : (w.attachTerminal call id releases).state = (attachLocked w.state id releases).2 := rfl
  have htails : (w.attachTerminal call id releases).tails =
      w.tails.insert call (attachLocked w.state id releases).1.ops := rfl
  have hready : (w.attachTerminal call id releases).ready =
      w.ready ++ ((attachLocked w.state id releases).1.ready.map (·.release)).toList := rfl
  have hbundles : (w.attachTerminal call id releases).bundles =
      w.bundles ++ ((target w.state id releases).map (·.release)).toList := rfl
  have hgiven : (w.attachTerminal call id releases).given =
      w.given ++ ((target w.state id releases).map fun record => (record.release, releases.report)).toList := rfl
  generalize attachLocked w.state id releases = result at hcases hstate htails hready
  obtain ⟨attached, state⟩ := result
  simp only at hcases hstate htails hready
  cases hcases with
  | absent hrecords =>
      have hnone : record w.state id releases.report = none := by rw [record_eq, hrecords]; rfl
      have htarget : target w.state id releases = none := by
        unfold recordsOf at hrecords
        simp [target, hrecords]
      have htails : (w.attachTerminal call id releases).tails =
          w.tails.insert call (.submit none :: completeAll releases) := by simpa [Attached.ops] using htails
      refine h.pass hfree htails hstate rfl (by simpa using hready) rfl rfl rfl rfl rfl hstrays (fun _ => Iff.rfl) ?_
        (ordered_complete (hstray hnone) hlatches _) (count_complete releases).1 (count_complete releases).2 fun g hg => ?_
      · simp [hbundles, htarget]
      · rw [hgiven, htarget] at hg
        exact .inl (by simpa using hg)
  | @first i r ready st' hi ht hterm hlatch htake =>
      have hr : record w.state id r.release = some r := pick_of_getElem (h.matched.solid.distinct id) hi
      have hreleases : r.terminalReleases = none := by
        have hisSome := h.matched.releases _ _ _ hr
        rw [hterm] at hisSome
        simpa using hisSome.symm
      have hheld : held (bundled r releases) = releases.latches ++ held r := by simp [held, bundled, hreleases]
      have htails : (w.attachTerminal call id releases).tails = w.tails.insert call ((ready.map submitReady).getD []) := by
        simpa [Attached.ops] using htails
      refine h.revise hfree hr (show (bundled r releases).release = r.release from rfl) rfl hi (hstate ▸ htake) htails rfl
        hready rfl rfl rfl rfl rfl hstrays (hphysical r hr) ?_ (fun hp => hp) (fun _ => rfl) rfl ?_ ?_ fun g hg => ?_
      · intro l
        simp [hbundles, ht, bundled]
      · intro l hl
        rw [hheld] at hl
        rcases List.mem_append.mp hl with hl | hl
        · rw [hlatches l hl]
          exact .inr (hlatch.elim .inr fun hnone => .inl (hstray hnone))
        · exact .inl hl
      · rw [hheld]
        exact List.subset_append_right _ _
      · rw [hgiven, ht] at hg
        rcases List.mem_append.mp hg with hg | hg
        · exact .inl hg
        · obtain rfl : g = (r.release, releases.report) := by simpa using hg
          exact .inr ⟨rfl, .inr (hheld ▸ List.mem_append_left _ hreport)⟩
  | @canonical i r hi ht hterm hlatch =>
      have hr : record w.state id r.release = some r := pick_of_getElem (h.matched.solid.distinct id) hi
      have hbundled := (h.matched.terminal _ _ _ hr).mp hterm
      have htails : (w.attachTerminal call id releases).tails = w.tails.insert call [.submit none] := by
        simpa [Attached.ops] using htails
      refine h.pass hfree htails hstate rfl (by simpa using hready) rfl rfl rfl rfl rfl hstrays (fun _ => Iff.rfl) ?_
        trivial rfl rfl fun g hg => ?_
      · intro l
        simp only [hbundles, ht, Option.map_some, Option.toList_some, List.mem_append, List.mem_singleton]
        exact ⟨fun hl => hl.elim (fun hl => hl) fun hl => hl ▸ hbundled, .inl⟩
      · rw [hgiven, ht] at hg
        rcases List.mem_append.mp hg with hg | hg
        · exact .inl hg
        · obtain rfl : g = (r.release, releases.report) := by simpa using hg
          exact .inr (.inl ⟨id, r, hr, .inl hlatch⟩)
  | @duplicate i r hi ht hterm hdup hlatch =>
      have hr : record w.state id r.release = some r := pick_of_getElem (h.matched.solid.distinct id) hi
      have hbundled := (h.matched.terminal _ _ _ hr).mp hterm
      have hheld : held { r with duplicateReleases := some releases } = held r ++ releases.latches := by
        simp [held, hdup]
      have hrev : Revised w.state (w.attachTerminal call id releases).state id r
          (some { r with duplicateReleases := some releases }) := by
        rw [hstate]
        exact revised_put h.matched.solid hi rfl
      have htails : (w.attachTerminal call id releases).tails = w.tails.insert call [.submit none] := by
        simpa [Attached.ops] using htails
      refine h.amend hfree hr hrev rfl htails rfl (by simpa using hready) rfl rfl rfl rfl rfl hstrays
        (hphysical r hr) ?_ (fun hp => hp) (fun ht => ht) (h.matched.releases id r.release r hr)
        (h.matched.apart id r.release r hr) trivial rfl rfl ?_ ?_ fun g hg => ?_
      · intro l
        simp [hbundles, ht, hterm]
      · intro l hl
        rw [hheld] at hl
        rcases List.mem_append.mp hl with hl | hl
        · exact .inl hl
        · exact .inr (.inl (hlatches l hl ▸ hstray hlatch))
      · rw [hheld]
        exact List.subset_append_left _ _
      · rw [hgiven, ht] at hg
        rcases List.mem_append.mp hg with hg | hg
        · exact .inl hg
        · obtain rfl : g = (r.release, releases.report) := by simpa using hg
          exact .inr (.inl ⟨rfl, .inr (hheld ▸ List.mem_append_right _ hreport)⟩)
  | @surplus i r hi ht hterm hlatch =>
      have hr : record w.state id r.release = some r := pick_of_getElem (h.matched.solid.distinct id) hi
      have hrev : Revised w.state (w.attachTerminal call id releases).state id r (some { r with poisoned := true }) := by
        rw [hstate]
        exact revised_put h.matched.solid hi rfl
      have htails : (w.attachTerminal call id releases).tails =
          w.tails.insert call (.submit none :: completeAll releases) := by simpa [Attached.ops] using htails
      refine h.amend hfree hr hrev rfl htails rfl (by simpa using hready) rfl rfl rfl rfl rfl hstrays
        (hphysical r hr) ?_ (fun hp => hp) (fun ht => ht) (h.matched.releases id r.release r hr)
        (h.matched.apart id r.release r hr) (ordered_complete (hstray hlatch) hlatches _) (count_complete releases).1 (count_complete releases).2
        (fun l hl => .inl hl) (List.Subset.refl _) fun g hg => ?_
      · intro l
        simp [hbundles, ht, hterm]
      · rw [hgiven, ht] at hg
        rcases List.mem_append.mp hg with hg | hg
        · exact .inl hg
        · obtain rfl : g = (r.release, releases.report) := by simpa using hg
          exact .inr (.inr (List.mem_cons_of_mem _ (List.mem_map.mpr ⟨_, hreport, rfl⟩)))

/-- A tail gets on by one operation. -/
theorem Released.advance (h : Released w) {op : Op} (hc : w.tails.lookup call = some (op :: ops))
    (htails : w'.tails = w.tails.insert call ops) (hstate : w'.state = w.state) (hstrays : w'.strays = w.strays)
    (hready : w'.ready = w.ready) (hgiven : w'.given = w.given) (hsub : w.submitted ⊆ w'.submitted)
    (hops : Ordered w w'.submitted ops)
    (hcom : ∀ l, l ∈ w'.completed ↔ l ∈ w.completed ∨ op = .physical l) : Released w' where
  held := by
    rw [hstate, hstrays]
    exact h.held
  tails := fun c os hos => by
    rw [htails] at hos
    obtain ⟨-, rfl⟩ | ⟨-, hos⟩ := Table.of_lookup_insert hos
    · exact hops.mono (hstrays ▸ List.Subset.refl _) (hready ▸ List.Subset.refl _) (List.Subset.refl _)
    · exact (h.tails c os hos).mono (hstrays ▸ List.Subset.refl _) (hready ▸ List.Subset.refl _) hsub
  completed := fun l hl => by
    rw [hstrays, hready]
    rcases (hcom l).mp hl with hl | rfl
    · exact (h.completed l hl).imp (fun hs => hs) fun hr => ⟨hr.1, hsub hr.2⟩
    · exact (h.tails call _ hc).1.imp (fun hs => hs) fun hr => ⟨hr.1, hsub hr.2⟩
  given := fun g hg => by
    rw [hgiven] at hg
    rw [hstate]
    rcases h.given g hg with hr | hl | ⟨c, os, hos, hm⟩
    · exact .inl hr
    · exact .inr (.inl ((hcom _).mpr (.inl hl)))
    · by_cases he : c = call
      · subst he
        rw [hc] at hos
        cases hos
        rcases List.mem_cons.mp hm with rfl | hm
        · exact .inr (.inl ((hcom _).mpr (.inr rfl)))
        · exact .inr (.inr ⟨c, ops, by rw [htails, Table.lookup_insert_ite, if_pos rfl], hm⟩)
      · exact .inr (.inr ⟨c, os, by rw [htails, Table.lookup_insert_ite, if_neg he, hos], hm⟩)

theorem Sound.perform (h : Sound w) {op : Op} (hc : w.tails.lookup call = some (op :: ops)) :
    Sound (({ w with tails := w.tails.insert call ops } : World).perform op) := by
  have hordered := h.released.tails call _ hc
  have hcount := Table.total_update (List.count .count) hc ops
  have huncount := Table.total_update (List.count .uncount) hc ops
  have hc1 := h.tallied.counted
  have hc2 := h.tallied.uncounted
  cases op with
  | count =>
      refine ⟨h.matched.of_eq rfl rfl (fun _ => Iff.rfl) (fun _ => Iff.rfl) rfl, ?_, ?_⟩
      · refine h.released.advance hc rfl rfl rfl rfl rfl (List.Subset.refl _) hordered fun l => ?_
        simp [World.perform]
      · rw [List.count_cons_self] at hcount
        rw [List.count_cons_of_ne (by simp)] at huncount
        refine ⟨?_, ?_, ?_⟩
        · simp only [World.perform, h.tallied.active, BitVec.ofNat_add]
          exact BitVec.sub_add_comm
        · simp only [World.perform]
          omega
        · simp only [World.perform]
          omega
  | uncount =>
      refine ⟨h.matched.of_eq rfl rfl (fun _ => Iff.rfl) (fun _ => Iff.rfl) rfl, ?_, ?_⟩
      · refine h.released.advance hc rfl rfl rfl rfl rfl (List.Subset.refl _) hordered fun l => ?_
        simp [World.perform]
      · rw [List.count_cons_of_ne (by simp)] at hcount
        rw [List.count_cons_self] at huncount
        refine ⟨?_, ?_, ?_⟩
        · simp only [World.perform, h.tallied.active, BitVec.ofNat_add]
          exact BitVec.sub_sub _ _ _
        · simp only [World.perform]
          omega
        · simp only [World.perform]
          omega
  | submit record =>
      refine ⟨h.matched.of_eq rfl rfl (fun _ => Iff.rfl) (fun _ => Iff.rfl) rfl, ?_, ?_⟩
      · refine h.released.advance hc rfl rfl rfl rfl rfl (List.subset_append_left _ _) hordered fun l => ?_
        simp [World.perform]
      · rw [List.count_cons_of_ne (by simp)] at hcount huncount
        refine ⟨h.tallied.active, ?_, ?_⟩
        · simp only [World.perform]
          omega
        · simp only [World.perform]
          omega
  | physical latch =>
      refine ⟨h.matched.of_eq rfl rfl (fun _ => Iff.rfl) (fun _ => Iff.rfl) rfl, ?_, ?_⟩
      · refine h.released.advance hc rfl rfl rfl rfl rfl (List.Subset.refl _) hordered.2 fun l => ?_
        simp [World.perform, eq_comm]
      · rw [List.count_cons_of_ne (by simp)] at hcount huncount
        refine ⟨h.tallied.active, ?_, ?_⟩
        · simp only [World.perform]
          omega
        · simp only [World.perform]
          omega

/-- A call returns. -/
theorem Sound.return (h : Sound w) (hc : w.tails.lookup call = some []) :
    Sound { w with tails := w.tails.erase call } := by
  have hcount := Table.total_of_lookup (List.count .count) hc
  have huncount := Table.total_of_lookup (List.count .uncount) hc
  have hc1 := h.tallied.counted
  have hc2 := h.tallied.uncounted
  refine ⟨h.matched.of_eq rfl rfl (fun _ => Iff.rfl) (fun _ => Iff.rfl) rfl, ?_, ⟨h.tallied.active, ?_, ?_⟩⟩
  · refine ⟨h.released.held, fun c os hos => ?_, h.released.completed, fun g hg => ?_⟩
    · refine Ordered.mono (w := w) ?_ ?_ ?_ (h.released.tails c os (Table.of_lookup_erase hos).2)
      all_goals exact List.Subset.refl _
    · refine (h.released.given g hg).imp (fun hr => hr) (Or.imp (fun hl => hl) ?_)
      rintro ⟨c, os, hos, hm⟩
      refine ⟨c, os, ?_, hm⟩
      rw [Table.lookup_erase_ite, if_neg, hos]
      rintro rfl
      rw [hc] at hos
      cases hos
      cases hm
  · simp only [List.count_nil] at hcount ⊢
    omega
  · simp only [List.count_nil] at huncount ⊢
    omega

theorem Sound.step (h : Sound w) {a : Action} (hs : w.step a = some w') : Sound w' := by
  cases a with
  | register call id name latch =>
      simp only [World.step] at hs
      split at hs
      · next hok =>
        cases hs
        simp only [Bool.and_eq_true, Option.isNone_iff_eq_none, Bool.not_eq_true', List.any_eq_false,
          decide_eq_true_eq] at hok
        refine h.register hok.1 id name fun hm => ?_
        obtain ⟨g, hg, he⟩ := List.mem_map.mp hm
        exact hok.2 g hg he
      · cases hs
  | completePhysical call id latch poisoned =>
      simp only [World.step] at hs
      split at hs
      · next hok =>
        cases hs
        exact h.completePhysical (Option.isNone_iff_eq_none.mp hok) id latch poisoned
      · cases hs
  | attachTerminal call id state latch =>
      simp only [World.step] at hs
      split at hs
      · next hok =>
        cases hs
        refine h.attachTerminal (Option.isNone_iff_eq_none.mp hok) id ?_
        cases state <;> simp
      · cases hs
  | run call =>
      simp only [World.step] at hs
      split at hs
      · next op ops hc =>
        cases hs
        exact h.perform hc
      · next hc =>
        cases hs
        exact h.return hc
      · cases hs

theorem sound_of_reachable (h : machine.Reachable w) : Sound w :=
  h.invariant sound_new fun _ _ _ _ hs ht => hs.step ht

theorem Matched.ready_iff (h : Matched w) {g : Registration} (hg : g ∈ w.registered) :
    g.latch ∈ w.ready ↔ g.latch ∈ w.outputs ∧ g.latch ∈ w.bundles := by
  refine ⟨fun hr => (h.ready _ hr).2, fun ⟨ho, hb⟩ => ?_⟩
  by_contra hn
  obtain ⟨r, hr, -⟩ := h.present g hg hn
  exact h.apart _ _ _ hr ⟨(h.physical _ _ _ hr).mpr ho, (h.terminal _ _ _ hr).mpr hb⟩

theorem Matched.reserved_iff (h : Matched w) {g : Registration} (hg : g ∈ w.registered) :
    ⟨g.id, g.latch⟩ ∈ reserved w.state g.name ↔ g.latch ∉ w.ready := by
  rw [h.names]
  exact ⟨fun ⟨r, hr, _⟩ => (h.known _ _ _ hr).2, fun hn => h.present g hg hn⟩

theorem Matched.pairs (h : Matched w) (name : String) (id : TaskId) (latch : RemovalCompletion) :
    ⟨id, latch⟩ ∈ reserved w.state name ↔ ∃ r ∈ recordsOf w.state id, r.release = latch ∧ r.name = name := by
  rw [h.names]
  constructor
  · rintro ⟨r, hr, hname⟩
    exact ⟨r, List.mem_of_find?_eq_some hr, record_release hr, hname⟩
  · rintro ⟨r, hr, rfl, hname⟩
    obtain ⟨i, hi⟩ := List.mem_iff_getElem?.mp hr
    exact ⟨r, pick_of_getElem (h.solid.distinct id) hi, hname⟩

theorem Matched.reservesName_iff (h : Matched w) (name : String) :
    w.state.reservesName name = true ↔ ∃ g ∈ w.registered, g.name = name ∧ g.latch ∉ w.ready := by
  constructor
  · intro hr
    obtain ⟨l, hl⟩ := Option.isSome_iff_exists.mp hr
    obtain ⟨a, ha⟩ := List.exists_mem_of_ne_nil l (h.solid.names name l hl)
    have hmem : (⟨a.id, a.release⟩ : ReaperActivity) ∈ reserved w.state name := by simpa [reserved, hl] using ha
    obtain ⟨r, hr, hname⟩ := (h.names name a.id a.release).mp hmem
    obtain ⟨hk, hn⟩ := h.known _ _ _ hr
    exact ⟨_, hk, hname, hn⟩
  · rintro ⟨g, hg, rfl, hn⟩
    have hmem := (h.reserved_iff hg).mpr hn
    by_contra hr
    rw [ReaperState.reservesName, Bool.not_eq_true, Option.isSome_eq_false_iff, Option.isNone_iff_eq_none] at hr
    simp [reserved, hr] at hmem

/-- A call that is left alone completes its latches. -/
theorem Awaited.completes (h : Awaited w latch) :
    ∃ call n w', machine.after w (List.replicate n (.run call)) = some w' ∧ latch ∈ w'.completed := by
  obtain ⟨call, ops, hc, hm⟩ := h
  refine ⟨call, ?_⟩
  induction ops generalizing w with
  | nil => cases hm
  | cons op ops ih =>
      have hstep : machine.step w (.run call) =
          some (({ w with tails := w.tails.insert call ops } : World).perform op) := by
        change World.step w (.run call) = _
        simp only [World.step, hc]
      rcases List.mem_cons.mp hm with rfl | hm
      · refine ⟨1, ({ w with tails := w.tails.insert call ops } : World).perform (.physical latch), ?_, ?_⟩
        · rw [List.replicate_one, Machine.after_cons, hstep]
          rfl
        · exact List.mem_append_right _ (List.mem_singleton.mpr rfl)
      · have hnext : (({ w with tails := w.tails.insert call ops } : World).perform op).tails.lookup call = some ops := by
          cases op <;> simp [World.perform]
        obtain ⟨n, w', hw', hl⟩ := ih hnext hm
        refine ⟨n + 1, w', ?_, hl⟩
        rw [List.replicate_succ, Machine.after_cons, hstep]
        exact hw'

theorem Released.given_ready (h : Released w) (hm : Matched w) {g : RemovalCompletion × RemovalCompletion}
    (hg : g ∈ w.given) (hr : g.1 ∈ w.ready) : g.2 ∈ w.completed ∨ Awaited w g.2 :=
  (h.given g hg).resolve_left fun ⟨_, _, hrec, _⟩ => (hm.known _ _ _ hrec).2 hr

theorem attachTerminal_unrecorded (h : recordsOf w.state id = []) (releases : TerminalReleases) :
    (w.attachTerminal call id releases).state = w.state ∧
      (w.attachTerminal call id releases).tails.lookup call = some (.submit none :: completeAll releases) := by
  have hindex : ReaperState.terminalIndex ((w.state.records.lookup id).getD []) releases = none := by
    unfold recordsOf at h
    rw [h]
    rfl
  simp [World.attachTerminal, attachLocked, hindex, Attached.ops]

/-- The rendezvous of the physical outputs and the terminal bundles. -/
theorem reaper_rendezvous (w : World) (h : machine.Reachable w) :
    (w.ready.Nodup ∧ (∀ latch ∈ w.ready, latch ∈ w.registered.map Registration.latch) ∧
      ∀ g ∈ w.registered, g.latch ∈ w.ready ↔ g.latch ∈ w.outputs ∧ g.latch ∈ w.bundles) ∧
    ((∀ g ∈ w.registered, ⟨g.id, g.latch⟩ ∈ reserved w.state g.name ↔ g.latch ∉ w.ready) ∧
      ∀ name, w.state.reservesName name = true ↔ ∃ g ∈ w.registered, g.name = name ∧ g.latch ∉ w.ready) ∧
    (∀ latch ∈ w.completed, latch ∉ w.strays → latch ∈ w.ready ∧ latch ∈ w.submitted) ∧
    (∀ g ∈ w.given, g.1 ∈ w.ready → g.2 ∈ w.completed ∨
      ∃ call n w', machine.after w (List.replicate n (.run call)) = some w' ∧ g.2 ∈ w'.completed) ∧
    (w.active = BitVec.ofNat 64 w.counted - BitVec.ofNat 64 w.uncounted ∧
      w.counted + Table.total (List.count .count) w.tails = w.registered.length ∧
      w.uncounted + Table.total (List.count .uncount) w.tails = w.ready.length) ∧
    (∀ name id latch, ⟨id, latch⟩ ∈ reserved w.state name ↔
      ∃ r ∈ recordsOf w.state id, r.release = latch ∧ r.name = name) ∧
    (∀ call id state latch w', recordsOf w.state id = [] → w.step (.attachTerminal call id state latch) = some w' →
      w'.state = w.state ∧ w'.tails.lookup call =
        some (.submit none :: completeAll ⟨if state then some latch else none, latch⟩)) := by
  have hs := sound_of_reachable h
  have hm := hs.matched
  refine ⟨⟨hm.nodup, fun latch hl => (hm.ready latch hl).1, fun g hg => hm.ready_iff hg⟩,
    ⟨fun g hg => hm.reserved_iff hg, hm.reservesName_iff⟩, ?_, ?_,
    ⟨hs.tallied.active, hs.tallied.counted, hs.tallied.uncounted⟩, hm.pairs, ?_⟩
  · intro latch hl hn
    exact (hs.released.completed latch hl).resolve_left hn
  · intro g hg hr
    exact (hs.released.given_ready hm hg hr).imp (fun hc => hc) Awaited.completes
  · intro call id state latch w' hnone hstep
    simp only [World.step] at hstep
    split at hstep
    · cases hstep
      exact attachTerminal_unrecorded hnone _
    · cases hstep

/-- Two records of one identity: the first is handed over with a bundle of a
foreign latch and a duplicate one. -/
def foreignRun : List Action :=
  [.register 0 1 "a" 0, .run 0, .register 1 1 "b" 1, .run 1, .attachTerminal 2 1 true 7, .attachTerminal 3 1 false 1,
    .attachTerminal 4 1 true 8, .run 4, .completePhysical 5 1 0 false, .run 5, .run 5, .run 5, .run 5, .run 5]

theorem reaper_rendezvous_foreign : ∃ w, machine.Reachable w ∧ w.ready = [0] ∧ w.completed = [0, 7, 7] ∧
    (w.active = 1 ∧ ∀ g ∈ w.given, g.1 ∈ w.ready → g.2 ∈ w.completed ∨
      ∃ call n w', machine.after w (List.replicate n (.run call)) = some w' ∧ g.2 ∈ w'.completed) := by
  obtain ⟨w, hw, hd⟩ := (Option.any_eq_true
    (fun w : World => decide (w.ready = [0] ∧ w.completed = [0, 7, 7] ∧ w.active = 1)) _).mp
    (show (machine.after World.new foreignRun).any _ = true by decide +kernel)
  obtain ⟨hready, hcompleted, hactive⟩ := of_decide_eq_true hd
  have hreach : machine.Reachable w := Machine.Reachable.init.after hw
  exact ⟨w, hreach, hready, hcompleted, hactive, (reaper_rendezvous w hreach).2.2.2.1⟩

/-- A second bundle for a record just taken ready finds no record and
completes the latch while the record's own bundle is still to be submitted; one
for another identity completes it with the record still there. -/
theorem rendezvous_latch_early :
    (∃ w, machine.Reachable w ∧ w.completed = [0] ∧ w.ready = [0] ∧ w.submitted = []) ∧
    ∃ w, machine.Reachable w ∧ w.completed = [0] ∧ w.ready = [] ∧ ⟨1, 0⟩ ∈ reserved w.state "a" := by
  refine ⟨?_, ?_⟩
  · obtain ⟨w, hw, hd⟩ := (Option.any_eq_true
      (fun w : World => decide (w.completed = [0] ∧ w.ready = [0] ∧ w.submitted = [])) _).mp
      (show (machine.after World.new [.register 0 1 "a" 0, .run 0, .completePhysical 1 1 0 false,
        .attachTerminal 2 1 true 0, .attachTerminal 3 1 false 0, .run 3, .run 3]).any _ = true by decide +kernel)
    exact ⟨w, Machine.Reachable.init.after hw, of_decide_eq_true hd⟩
  · obtain ⟨w, hw, hd⟩ := (Option.any_eq_true
      (fun w : World => decide (w.completed = [0] ∧ w.ready = [] ∧ ⟨1, 0⟩ ∈ reserved w.state "a")) _).mp
      (show (machine.after World.new [.register 0 1 "a" 0, .run 0, .attachTerminal 1 2 false 0, .run 1,
        .run 1]).any _ = true by decide +kernel)
    exact ⟨w, Machine.Reachable.init.after hw, of_decide_eq_true hd⟩

end Taskvisor.Registry.Handover
