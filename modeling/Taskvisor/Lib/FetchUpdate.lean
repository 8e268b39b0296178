import Taskvisor.Lib.Machine
import Taskvisor.Lib.Table

namespace Taskvisor.Lib.FetchUpdate

universe u

variable {σ : Type u} {f : σ → Option σ} {init v : σ} {n : Nat}

/-- The value of a cell after `n` updates. -/
def iterate (f : σ → Option σ) (init : σ) : Nat → Option σ
  | 0 => some init
  | n + 1 => (iterate f init n).bind f

/-- A caller of `fetch_update`: it loads, then exchanges until nobody came in
between, and returns the value it replaced. -/
inductive Pc (σ : Type u)
  | load
  | exchange (previous : σ)
  | returned (previous : σ)
  | refused (previous : σ)
deriving DecidableEq

/-- An atomic cell with its callers. `order` lists the exchanges that succeeded,
with what each replaced. -/
structure World (σ : Type u) where
  cell : σ
  callers : Table Nat (Pc σ)
  order : List (Nat × σ)

/-- A weak exchange may also fail for no reason. -/
inductive Action
  | begin (key : Nat)
  | load (key : Nat)
  | exchange (key : Nat) (spurious : Bool)

namespace World

def new (init : σ) : World σ := ⟨init, ∅, []⟩

def put (w : World σ) (key : Nat) (pc : Pc σ) : World σ := { w with callers := w.callers.insert key pc }

def exchange [DecidableEq σ] (f : σ → Option σ) (w : World σ) (key : Nat) (spurious : Bool) (previous : σ) : World σ :=
  match f previous with
  | none => w.put key (.refused previous)
  | some next =>
      if spurious = false ∧ w.cell = previous then
        { w.put key (.returned previous) with cell := next, order := w.order ++ [(key, previous)] }
      else w.put key (.exchange w.cell)

def step [DecidableEq σ] (f : σ → Option σ) (w : World σ) : Action → Option (World σ)
  | .begin key => if (w.callers.lookup key).isSome then none else some (w.put key .load)
  | .load key => if w.callers.lookup key = some .load then some (w.put key (.exchange w.cell)) else none
  | .exchange key spurious =>
      match w.callers.lookup key with
      | some (.exchange previous) => some (w.exchange f key spurious previous)
      | _ => none

end World

variable [DecidableEq σ] {w w' : World σ} {key : Nat} {a : Action}

def machine (f : σ → Option σ) (init : σ) : Machine (World σ) Action := ⟨.new init, World.step f⟩

/-- What one step does. -/
inductive Stepped (f : σ → Option σ) (w : World σ) : World σ → Prop
  | begin (key : Nat) (hk : w.callers.lookup key = none) : Stepped f w (w.put key .load)
  | read (key : Nat) (pc : Pc σ) (hk : w.callers.lookup key = some pc) (hopen : ∀ v, pc ≠ .returned v) :
      Stepped f w (w.put key (.exchange w.cell))
  | swapped (key : Nat) (next : σ) (hk : w.callers.lookup key = some (.exchange w.cell)) (hf : f w.cell = some next) :
      Stepped f w { w.put key (.returned w.cell) with cell := next, order := w.order ++ [(key, w.cell)] }
  | refused (key : Nat) (previous : σ) (hk : w.callers.lookup key = some (.exchange previous)) (hf : f previous = none) :
      Stepped f w (w.put key (.refused previous))

theorem step_cases (hs : w.step f a = some w') : Stepped f w w' := by
  cases a with
  | begin key =>
      simp only [World.step] at hs
      split at hs
      · cases hs
      · next hk =>
        obtain rfl := Option.some.inj hs
        exact .begin key (by simpa using hk)
  | load key =>
      simp only [World.step] at hs
      split at hs
      · next hk =>
        obtain rfl := Option.some.inj hs
        exact .read key _ hk fun v hx => by cases hx
      · cases hs
  | exchange key spurious =>
      simp only [World.step] at hs
      split at hs
      · next previous hk =>
        obtain rfl := Option.some.inj hs
        unfold World.exchange
        split
        · next hf => exact .refused key previous hk hf
        · next next hf =>
          split
          · next hsame =>
            obtain ⟨-, rfl⟩ := hsame
            exact .swapped key next hk hf
          · exact .read key _ hk fun v hx => by cases hx
      · cases hs

section Iterate

omit [DecidableEq σ]

theorem iterate_of_le {m : Nat} (h : (iterate f init m).isSome) (hn : n ≤ m) : (iterate f init n).isSome := by
  induction m with
  | zero =>
      obtain rfl := Nat.le_zero.mp hn
      exact h
  | succ m ih =>
      obtain rfl | hlt := Nat.eq_or_lt_of_le hn
      · exact h
      · refine ih ?_ (Nat.le_of_lt_succ hlt)
        cases hm : iterate f init m with
        | some v => rfl
        | none => rw [iterate, hm] at h; cases h

/-- Nothing follows a value that has no successor. -/
theorem last_of_none {m : Nat} {c : σ} (hm : iterate f init m = some c) (hn : n ≤ m) (hv : iterate f init n = some v)
    (hf : f v = none) : v = c := by
  obtain rfl | hlt := Nat.eq_or_lt_of_le hn
  · exact Option.some.inj (hv.symm.trans hm)
  · have hsome : (iterate f init (n + 1)).isSome := iterate_of_le (by rw [hm]; rfl) hlt
    rw [iterate, hv, Option.bind_some, hf] at hsome
    cases hsome

end Iterate

/-- The updates take effect one after the other, each on what the one before
left: every caller returns the value at its own place in that order. -/
structure Linear (f : σ → Option σ) (init : σ) (w : World σ) : Prop where
  cell : iterate f init w.order.length = some w.cell
  values : w.order.map (some ∘ Prod.snd) = (List.range w.order.length).map (iterate f init)
  placed : ∀ key v, w.callers.lookup key = some (.returned v) ↔ (key, v) ∈ w.order
  once : (w.order.map Prod.fst).Nodup
  seen : ∀ key v, w.callers.lookup key = some (.exchange v) → ∃ n, n ≤ w.order.length ∧ iterate f init n = some v
  refused : ∀ key v, w.callers.lookup key = some (.refused v) → v = w.cell ∧ f v = none

section Linear

omit [DecidableEq σ]

theorem linear_new (f : σ → Option σ) (init : σ) : Linear f init (.new init) where
  cell := rfl
  values := rfl
  placed := fun key v => by simp [World.new]
  once := List.nodup_nil
  seen := fun key v h => by cases h
  refused := fun key v h => by cases h

/-- A caller that has not returned yet moves on without an exchange. -/
theorem Linear.put (h : Linear f init w) {pc : Pc σ} (hold : ∀ v, w.callers.lookup key ≠ some (.returned v))
    (hnew : ∀ v, pc ≠ .returned v) (hseen : ∀ v, pc = .exchange v → v = w.cell)
    (hrefused : ∀ v, pc = .refused v → v = w.cell ∧ f v = none) : Linear f init (w.put key pc) where
  cell := h.cell
  values := h.values
  placed := fun k v => by
    by_cases hk : k = key
    · subst hk
      refine iff_of_false (fun hx => ?_) fun hx => hold v ((h.placed k v).mpr hx)
      rw [World.put, AList.lookup_insert] at hx
      exact hnew v (Option.some.inj hx)
    · rw [World.put, AList.lookup_insert_ne hk]
      exact h.placed k v
  once := h.once
  seen := fun k v hk => by
    obtain ⟨-, hpc⟩ | ⟨-, hk⟩ := Table.of_lookup_insert hk
    · obtain rfl := hseen v hpc.symm
      exact ⟨_, Nat.le_refl _, h.cell⟩
    · exact h.seen k v hk
  refused := fun k v hk => by
    obtain ⟨-, hpc⟩ | ⟨-, hk⟩ := Table.of_lookup_insert hk
    · exact hrefused v hpc.symm
    · exact h.refused k v hk

theorem Linear.swap (h : Linear f init w) {next : σ} (hk : w.callers.lookup key = some (.exchange w.cell))
    (hf : f w.cell = some next) :
    Linear f init { w.put key (.returned w.cell) with cell := next, order := w.order ++ [(key, w.cell)] } where
  cell := by
    rw [List.length_append, List.length_singleton, iterate, h.cell]
    exact hf
  values := by
    rw [List.map_append, h.values, List.length_append, List.length_singleton, List.range_succ, List.map_append,
      List.map_singleton, List.map_singleton, h.cell]
    rfl
  placed := fun k v => by
    rw [List.mem_append, List.mem_singleton, World.put]
    by_cases hkey : k = key
    · subst hkey
      have hno : (k, v) ∉ w.order := by
        rw [← h.placed, hk]
        exact fun hx => by cases hx
      rw [AList.lookup_insert]
      constructor
      · intro hv
        cases hv
        exact .inr rfl
      · intro hv
        cases hv.resolve_left hno
        rfl
    · rw [AList.lookup_insert_ne hkey, h.placed]
      exact ⟨.inl, fun hx => hx.resolve_right fun he => hkey (Prod.mk.inj he).1⟩
  once := by
    rw [List.map_append, List.nodup_append]
    refine ⟨h.once, List.nodup_singleton _, fun a ha b hb hab => ?_⟩
    obtain rfl : b = key := List.mem_singleton.mp hb
    obtain ⟨⟨k, v⟩, hm, he⟩ := List.mem_map.mp ha
    obtain rfl : k = b := he.trans hab
    have hx := (h.placed k v).mpr hm
    rw [hk] at hx
    cases hx
  seen := fun k v hx => by
    obtain ⟨-, hpc⟩ | ⟨-, hx⟩ := Table.of_lookup_insert hx
    · cases hpc
    · obtain ⟨n, hn, hv⟩ := h.seen k v hx
      exact ⟨n, by rw [List.length_append]; exact Nat.le_add_right_of_le hn, hv⟩
  refused := fun k v hx => by
    obtain ⟨-, hpc⟩ | ⟨-, hx⟩ := Table.of_lookup_insert hx
    · cases hpc
    · obtain ⟨rfl, hnone⟩ := h.refused k v hx
      rw [hf] at hnone
      cases hnone

theorem Linear.step (h : Linear f init w) (hs : Stepped f w w') : Linear f init w' := by
  cases hs with
  | begin key hk =>
      refine h.put (fun v hx => ?_) (fun v hx => by cases hx) (fun v hx => by cases hx) fun v hx => by cases hx
      rw [hk] at hx
      cases hx
  | read key pc hk hopen =>
      refine h.put (fun v hx => ?_) (fun v hx => by cases hx) (fun v hx => by cases hx; rfl) fun v hx => by cases hx
      rw [hk] at hx
      exact hopen v (Option.some.inj hx)
  | swapped key next hk hf => exact h.swap hk hf
  | refused key previous hk hf =>
      refine h.put (fun v hx => ?_) (fun v hx => by cases hx) (fun v hx => by cases hx) fun v hx => ?_
      · rw [hk] at hx
        cases hx
      · cases hx
        obtain ⟨n, hn, hv⟩ := h.seen key previous hk
        exact ⟨last_of_none h.cell hn hv hf, hf⟩

end Linear

theorem linear_of_reachable (h : (machine f init).Reachable w) : Linear f init w :=
  h.invariant (linear_new f init) fun _ _ _ _ hw hs => hw.step (step_cases hs)

omit [DecidableEq σ] in
/-- What the place of an exchange says about its value. -/
theorem Linear.value (h : Linear f init w) {v : σ} (hn : w.order[n]? = some (key, v)) : iterate f init n = some v := by
  have hvalues : (w.order.map (some ∘ Prod.snd))[n]? = ((List.range w.order.length).map (iterate f init))[n]? := by
    rw [h.values]
  obtain ⟨hlt, -⟩ := List.getElem?_eq_some_iff.mp hn
  rw [List.getElem?_map, hn, List.getElem?_map, List.getElem?_range hlt] at hvalues
  exact (Option.some.inj hvalues).symm

omit [DecidableEq σ] in
/-- The order of the exchanges is never revised. -/
theorem order_grows (hs : Stepped f w w') : w.order <+: w'.order := by
  cases hs with
  | swapped => exact List.prefix_append _ _
  | _ => exact List.prefix_rfl

theorem order_after {w : World σ} {run : List Action} (h : (machine f init).Reachable w)
    (hrun : (machine f init).after w run = some w') : w.order <+: w'.order := by
  refine h.keeps (P := fun v => w.order <+: v.order) List.prefix_rfl (fun _ _ _ _ hv hs => ?_) hrun
  exact hv.trans (order_grows (step_cases hs))

end Taskvisor.Lib.FetchUpdate
