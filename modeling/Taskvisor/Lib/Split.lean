import Mathlib.Data.List.Nodup

namespace Taskvisor.Lib

variable {α κ : Type*} {R : List α → α → Prop} {l l' before after : List α} {x : α} {key : α → Option κ} {k : κ}

/-- Some entry of the list stands so to the entries before it. -/
def Splits (R : List α → α → Prop) (l : List α) : Prop := ∃ before x after, l = before ++ x :: after ∧ R before x

theorem Splits.mono (h : Splits R l) (hl : l <+: l') : Splits R l' := by
  obtain ⟨before, x, after, rfl, hr⟩ := h
  obtain ⟨more, rfl⟩ := hl
  exact ⟨before, x, after ++ more, by rw [List.append_assoc, List.cons_append], hr⟩

theorem mem_keys (hx : x ∈ l) (hkey : key x = some k) : k ∈ l.filterMap key := List.mem_filterMap.mpr ⟨x, hx, hkey⟩

/-- The entry of a key no two entries share is found in each prefix that has the
key. -/
theorem Splits.restrict (h : Splits R l') (hl : l <+: l') (honce : (l'.filterMap key).Nodup)
    (hkey : ∀ before x, R before x → key x = some k) (hm : k ∈ l.filterMap key) : Splits R l := by
  obtain ⟨before, x, after, he, hr⟩ := h
  obtain ⟨more, rfl⟩ := hl
  rw [List.filterMap_append, List.nodup_append] at honce
  have hx : x ∉ more := fun hx => honce.2.2 k hm k (mem_keys hx (hkey before x hr)) rfl
  rcases List.append_eq_append_iff.mp he with ⟨mid, -, hmore⟩ | ⟨mid, rfl, hmore⟩
  · exact absurd (hmore ▸ List.mem_append_right _ List.mem_cons_self) hx
  · cases mid with
    | nil => exact absurd (hmore.subst (motive := fun l => x ∈ l) List.mem_cons_self) hx
    | cons first mid =>
        obtain ⟨rfl, -⟩ := List.cons.inj hmore
        exact ⟨before, x, mid, rfl, hr⟩

/-- The entry of such a key is the only one that can stand so. -/
theorem Splits.at (h : Splits R (before ++ x :: after)) (honce : ((before ++ x :: after).filterMap key).Nodup)
    (hkey : ∀ before x, R before x → key x = some k) (hx : key x = some k) : R before x := by
  obtain ⟨first, y, rest, he, hr⟩ := h
  have hy := hkey first y hr
  rw [List.filterMap_append, List.filterMap_cons, hx, List.nodup_append, List.nodup_cons] at honce
  obtain ⟨-, ⟨hafter, -⟩, hapart⟩ := honce
  have hbefore : k ∉ before.filterMap key := fun hm => hapart k hm k List.mem_cons_self rfl
  rcases List.append_eq_append_iff.mp he with ⟨mid, rfl, hrest⟩ | ⟨mid, rfl, hrest⟩
  · cases mid with
    | nil =>
        obtain ⟨rfl, -⟩ := List.cons.inj hrest
        rwa [List.append_nil] at hr
    | cons z mid =>
        obtain ⟨-, rfl⟩ := List.cons.inj hrest
        exact absurd (mem_keys (List.mem_append_right _ List.mem_cons_self) hy) hafter
  · cases mid with
    | nil =>
        obtain ⟨rfl, -⟩ := List.cons.inj hrest
        rwa [List.append_nil]
    | cons z mid =>
        obtain ⟨rfl, -⟩ := List.cons.inj hrest
        exact absurd (mem_keys (List.mem_append_right _ List.mem_cons_self) hy) hbefore

theorem eq_of_key {y : α} (honce : (l.filterMap key).Nodup) (hx : x ∈ l) (hy : y ∈ l) (hkx : key x = some k)
    (hky : key y = some k) : x = y := by
  obtain ⟨before, after, rfl⟩ := List.append_of_mem hx
  obtain ⟨first, rest, he⟩ := List.append_of_mem hy
  have h : Splits (fun _ z => z = y) (before ++ x :: after) := ⟨first, y, rest, he, rfl⟩
  exact h.at honce (fun _ z hz => hz.symm ▸ hky) hkx

theorem eq_singleton (hl : l.length ≤ 1) (hx : x ∈ l) : l = [x] := by
  obtain ⟨before, after, rfl⟩ := List.append_of_mem hx
  rw [List.length_append, List.length_cons] at hl
  have hbefore : before = [] := List.length_eq_zero_iff.mp (by omega)
  have hafter : after = [] := List.length_eq_zero_iff.mp (by omega)
  rw [hbefore, hafter, List.nil_append]

/-- The entries of a key no two entries share. -/
theorem filter_eq_singleton [DecidableEq κ] {f : α → κ} (honce : (l.map f).Nodup) (hx : x ∈ l) :
    (l.filter fun y => decide (f y = f x)) = [x] := by
  obtain ⟨before, after, rfl⟩ := List.append_of_mem hx
  rw [List.map_append, List.map_cons, List.nodup_append, List.nodup_cons] at honce
  obtain ⟨-, ⟨hafter, -⟩, hapart⟩ := honce
  have hnone {l : List α} (h : ∀ y ∈ l, f y ≠ f x) : (l.filter fun y => decide (f y = f x)) = [] :=
    List.filter_eq_nil_iff.mpr fun y hy => by simpa using h y hy
  have hbefore := hnone fun y hy => hapart _ (List.mem_map_of_mem hy) _ List.mem_cons_self
  have hrest : (after.filter fun y => decide (f y = f x)) = [] := hnone fun y hy he => hafter (he ▸ List.mem_map_of_mem hy)
  rw [List.filter_append, List.filter_cons, hbefore, hrest]
  simp

end Taskvisor.Lib
