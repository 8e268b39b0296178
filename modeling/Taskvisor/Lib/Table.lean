import Mathlib.Algebra.GroupWithZero.Nat
import Mathlib.Data.List.AList

namespace Taskvisor.Lib

universe u v

/-- A finite map with one entry for each key. The order of the entries is that
of insertion; no statement depends on it. -/
abbrev Table (α : Type u) (β : Type v) := AList fun _ : α => β

namespace Table

variable {α : Type u} {β : Type v}

def values (s : Table α β) : List β := s.entries.map Sigma.snd

def size (s : Table α β) : Nat := s.entries.length

theorem keys_length (s : Table α β) : s.keys.length = size s := by
  rw [AList.keys, List.keys, List.length_map]
  rfl

variable [DecidableEq α] {s : Table α β} {a c : α} {b : β}

theorem lookup_insert_ite (s : Table α β) (a c : α) (b : β) :
    (s.insert a b).lookup c = if c = a then some b else s.lookup c := by
  by_cases h : c = a
  · subst h; simp
  · simp [h, AList.lookup_insert_ne]

theorem lookup_erase_ite (s : Table α β) (a c : α) :
    (s.erase a).lookup c = if c = a then none else s.lookup c := by
  by_cases h : c = a
  · subst h; simp
  · simp [h, AList.lookup_erase_ne]

theorem of_lookup_insert {b' : β} (h : (s.insert a b').lookup c = some b) :
    c = a ∧ b = b' ∨ c ≠ a ∧ s.lookup c = some b := by
  rw [lookup_insert_ite] at h
  split at h
  · next hc => exact .inl ⟨hc, (Option.some.inj h).symm⟩
  · next hc => exact .inr ⟨hc, h⟩

theorem of_lookup_erase (h : (s.erase a).lookup c = some b) : c ≠ a ∧ s.lookup c = some b := by
  rw [lookup_erase_ite] at h
  split at h
  · cases h
  · next hc => exact ⟨hc, h⟩

/-- Keys below a counter stay below it when the next key is used. -/
theorem lt_succ_of_lookup_insert {t : Table Nat β} {next k : Nat} (hkeys : ∀ k b, t.lookup k = some b → k < next)
    {b b' : β} (h : (t.insert next b').lookup k = some b) : k < next + 1 := by
  obtain ⟨rfl, -⟩ | ⟨-, h⟩ := of_lookup_insert h
  · exact Nat.lt_succ_self _
  · exact Nat.lt_succ_of_lt (hkeys k b h)

theorem mem_of_lookup (h : s.lookup a = some b) : a ∈ s := AList.lookup_isSome.mp (by simp [h])

theorem exists_lookup (h : a ∈ s) : ∃ b, s.lookup a = some b :=
  Option.isSome_iff_exists.mp (AList.lookup_isSome.mpr h)

theorem mem_keys_iff : a ∈ s.keys ↔ ∃ b, s.lookup a = some b :=
  ⟨fun h => exists_lookup (AList.mem_keys.mpr h), fun ⟨_, h⟩ => AList.mem_keys.mp (mem_of_lookup h)⟩

theorem values_insert (s : Table α β) (a : α) (b : β) : values (s.insert a b) = b :: values (s.erase a) := by
  rw [values, AList.entries_insert]
  rfl

theorem values_insert_of_notMem (h : a ∉ s) : values (s.insert a b) = b :: values s := by
  rw [values, AList.entries_insert_of_notMem h]
  rfl

/-- A present entry is the head of a permutation of the table. -/
theorem perm_erase_of_lookup (h : s.lookup a = some b) : s.entries.Perm (⟨a, b⟩ :: (s.erase a).entries) := by
  obtain ⟨c, l₁, l₂, -, hl, he⟩ := List.exists_of_kerase (AList.mem_keys.mp (mem_of_lookup h))
  have hc : s.lookup a = some c := AList.mem_lookup_iff.mpr (by rw [hl]; simp)
  have hcb : c = b := Option.some.inj (hc.symm.trans h)
  subst hcb
  change s.entries.Perm (⟨a, c⟩ :: s.entries.kerase a)
  rw [he, hl]
  exact List.perm_middle

theorem values_perm_of_lookup (h : s.lookup a = some b) : (values s).Perm (b :: values (s.erase a)) := by
  simpa only [values, List.map_cons] using (perm_erase_of_lookup h).map Sigma.snd

theorem mem_values : b ∈ values s ↔ ∃ a, s.lookup a = some b := by
  constructor
  · intro h
    obtain ⟨⟨a, b'⟩, he, rfl⟩ := List.mem_map.mp h
    exact ⟨a, AList.mem_lookup_iff.mpr he⟩
  · rintro ⟨a, h⟩
    exact List.mem_map.mpr ⟨⟨a, b⟩, AList.mem_lookup_iff.mp h, rfl⟩

theorem entries_eq_nil : s.entries = [] ↔ ∀ a, s.lookup a = none := by
  constructor
  · intro hs a
    rw [AList.lookup_eq_none, AList.mem_keys, AList.keys, hs]
    exact List.not_mem_nil
  · intro hs
    refine List.eq_nil_iff_forall_not_mem.mpr fun entry he => ?_
    have hm : entry.1 ∈ s := AList.mem_keys.mpr (List.mem_map.mpr ⟨entry, he, rfl⟩)
    exact AList.lookup_eq_none.mp (hs entry.1) hm

theorem values_eq_nil : values s = [] ↔ ∀ a, s.lookup a = none := by
  rw [← entries_eq_nil, values, List.map_eq_nil_iff]

theorem size_of_lookup (h : s.lookup a = some b) : size s = size (s.erase a) + 1 := (perm_erase_of_lookup h).length_eq

/-- Tables with the same content have the same size. -/
theorem size_congr {t : Table α β} (h : ∀ c, s.lookup c = t.lookup c) : size s = size t := by
  have hperm : s.keys.Perm t.keys := by
    rw [List.perm_ext_iff_of_nodup (AList.keys_nodup s) (AList.keys_nodup t)]
    intro c
    rw [mem_keys_iff, mem_keys_iff, h]
  rw [← keys_length, ← keys_length, hperm.length_eq]

/-- A value that only one key can have is counted at that key. -/
theorem count_values [DecidableEq β] (h : ∀ c, s.lookup c = some b → c = a) :
    (values s).count b = if s.lookup a = some b then 1 else 0 := by
  split
  · next hb =>
    have hrest : b ∉ values (s.erase a) := by
      intro hm
      obtain ⟨c, hc⟩ := mem_values.mp hm
      rw [lookup_erase_ite] at hc
      split at hc
      · cases hc
      · next hne => exact hne (h c hc)
    rw [(values_perm_of_lookup hb).count_eq, List.count_cons_self, List.count_eq_zero.mpr hrest]
  · next hb =>
    refine List.count_eq_zero.mpr fun hm => hb ?_
    obtain ⟨c, hc⟩ := mem_values.mp hm
    exact h c hc ▸ hc

theorem size_insert_of_lookup (h : s.lookup a = some b) (b' : β) : size (s.insert a b') = size s := by
  rw [size_of_lookup (AList.lookup_insert s), size_of_lookup h]
  refine congrArg (· + 1) (size_congr fun c => ?_)
  rw [lookup_erase_ite, lookup_erase_ite, lookup_insert_ite]
  split <;> rfl

theorem size_insert_of_none (h : s.lookup a = none) (b : β) : size (s.insert a b) = size s + 1 := by
  rw [size_of_lookup (AList.lookup_insert s)]
  refine congrArg (· + 1) (size_congr fun c => ?_)
  rw [lookup_erase_ite, lookup_insert_ite]
  split
  · next hc => rw [hc, h]
  · rfl

theorem size_erase_le (s : Table α β) (a : α) : size (s.erase a) ≤ size s := by
  cases h : s.lookup a with
  | some b =>
      rw [size_of_lookup h]
      exact Nat.le_succ _
  | none =>
      refine Nat.le_of_eq (size_congr fun c => ?_)
      rw [lookup_erase_ite]
      split
      · next hc => rw [hc, h]
      · rfl

theorem size_insert_le (s : Table α β) (a : α) (b : β) : size (s.insert a b) ≤ size s + 1 := by
  cases h : s.lookup a with
  | some old =>
      rw [size_insert_of_lookup h]
      exact Nat.le_succ _
  | none => exact Nat.le_of_eq (size_insert_of_none h b)

def total (f : β → Nat) (s : Table α β) : Nat := ((values s).map f).sum

theorem total_of_lookup (f : β → Nat) (h : s.lookup a = some b) : total f s = f b + total f (s.erase a) := by
  unfold total
  rw [((values_perm_of_lookup h).map f).sum_nat, List.map_cons, List.sum_cons]

theorem total_insert (f : β → Nat) (s : Table α β) (a : α) (b : β) : total f (s.insert a b) = f b + total f (s.erase a) := by
  rw [total, values_insert, List.map_cons, List.sum_cons]
  rfl

/-- The total after one entry changed. -/
theorem total_update (f : β → Nat) (h : s.lookup a = some b) (b' : β) : total f (s.insert a b') + f b = total f s + f b' := by
  rw [total_insert, total_of_lookup f h]
  omega

theorem total_insert_of_none (f : β → Nat) (h : s.lookup a = none) (b : β) : total f (s.insert a b) = total f s + f b := by
  have hmem : a ∉ s := fun hm => by
    obtain ⟨c, hc⟩ := exists_lookup hm
    rw [h] at hc
    cases hc
  rw [total, values_insert_of_notMem hmem, List.map_cons, List.sum_cons, Nat.add_comm]
  rfl

end Table

end Taskvisor.Lib
