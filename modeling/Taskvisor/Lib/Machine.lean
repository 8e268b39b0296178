import Mathlib.Logic.Basic

namespace Taskvisor.Lib

universe u v

/-- A machine takes labelled steps. The label carries every choice of the
environment, so that one step is a partial function of the state. -/
structure Machine (σ : Type u) (α : Type v) where
  init : σ
  step : σ → α → Option σ

namespace Machine

variable {σ : Type u} {α : Type v} {M : Machine σ α} {s t : σ}

inductive Reachable (M : Machine σ α) : σ → Prop
  | init : Reachable M M.init
  | next {s t : σ} (a : α) (hs : Reachable M s) (ht : M.step s a = some t) : Reachable M t

/-- The state after a word of labels, absent once a label is not enabled. -/
def after (M : Machine σ α) (s : σ) (w : List α) : Option σ := w.foldlM M.step s

theorem after_cons (a : α) (w : List α) : M.after s (a :: w) = (M.step s a).bind (M.after · w) := rfl

theorem Reachable.after (hs : M.Reachable s) {w : List α} (h : M.after s w = some t) : M.Reachable t := by
  induction w generalizing s with
  | nil => cases h; exact hs
  | cons a w ih =>
      obtain ⟨m, hm, ht⟩ := Option.bind_eq_some_iff.mp h
      exact ih (.next a hs hm) ht

/-- The invariant rule: what holds at the start and is kept by every step out
of a reachable state holds in every reachable state. -/
theorem Reachable.invariant {P : σ → Prop} (h : M.Reachable s) (hinit : P M.init)
    (hstep : ∀ s a t, M.Reachable s → P s → M.step s a = some t → P t) : P s := by
  induction h with
  | init => exact hinit
  | next a hs ht ih => exact hstep _ a _ hs ih ht

/-- The run rule: what every step out of a reachable state keeps, a whole run
keeps. -/
theorem Reachable.keeps {P : σ → Prop} (hs : M.Reachable s) (hP : P s)
    (hstep : ∀ s a t, M.Reachable s → P s → M.step s a = some t → P t) {w : List α} (h : M.after s w = some t) : P t := by
  induction w generalizing s with
  | nil => cases h; exact hP
  | cons a w ih =>
      obtain ⟨m, hm, ht⟩ := Option.bind_eq_some_iff.mp h
      exact ih (.next a hs hm) (hstep s a m hs hP hm) ht

/-- The states a word passes, its first and its last among them. -/
def visited (M : Machine σ α) : σ → List α → List σ
  | s, [] => [s]
  | s, a :: w => s :: ((M.step s a).map fun t => visited M t w).getD []

theorem mem_visited_head (s : σ) (w : List α) : s ∈ M.visited s w := by cases w <;> exact List.mem_cons_self

theorem Reachable.visited (hs : M.Reachable s) {w : List α} {m : σ} (hm : m ∈ M.visited s w) : M.Reachable m := by
  induction w generalizing s with
  | nil => exact List.mem_singleton.mp hm ▸ hs
  | cons a w ih =>
      rcases List.mem_cons.mp hm with rfl | hm
      · exact hs
      · cases ht : M.step s a with
        | none =>
            rw [ht] at hm
            cases hm
        | some t =>
            rw [ht] at hm
            exact ih (.next a hs ht) hm

/-- The window rule: while a condition holds in every state of the window,
what its steps keep under that condition is kept to the end. -/
theorem Reachable.keeps_within {P A : σ → Prop} (hs : M.Reachable s) (hP : P s)
    (hstep : ∀ s a t, M.Reachable s → A s → A t → P s → M.step s a = some t → P t) {w : List α}
    (h : M.after s w = some t) (hA : ∀ m ∈ M.visited s w, A m) : A t ∧ P t := by
  induction w generalizing s with
  | nil => cases h; exact ⟨hA _ List.mem_cons_self, hP⟩
  | cons a w ih =>
      obtain ⟨m, hm, ht⟩ := Option.bind_eq_some_iff.mp h
      have hrest : ∀ u ∈ M.visited m w, A u := fun u hu =>
        hA u (List.mem_cons_of_mem _ (by rw [hm]; exact hu))
      have hAs := hA s List.mem_cons_self
      exact ih (.next a hs hm) (hstep s a m hs hAs (hrest m (mem_visited_head m w)) hP hm) ht hrest

/-- How many steps of a word a predicate charges. -/
def charged (M : Machine σ α) (p : σ → α → Bool) : σ → List α → Nat
  | _, [] => 0
  | s, a :: w => (if p s a then 1 else 0) + ((M.step s a).map fun t => charged M p t w).getD 0

/-- The budget rule: when every charged step of the window lowers the budget,
and no step raises it, the window charges no more than it had at the start. -/
theorem Reachable.charged_le {A : σ → Prop} (hs : M.Reachable s) (p : σ → α → Bool) (left : σ → Nat)
    (hstep : ∀ s a t, M.Reachable s → A s → A t → M.step s a = some t → left t + (if p s a then 1 else 0) ≤ left s)
    {w : List α} (h : M.after s w = some t) (hA : ∀ m ∈ M.visited s w, A m) : left t + M.charged p s w ≤ left s := by
  induction w generalizing s with
  | nil => cases h; exact Nat.le_refl _
  | cons a w ih =>
      obtain ⟨m, hm, ht⟩ := Option.bind_eq_some_iff.mp h
      have hrest : ∀ u ∈ M.visited m w, A u := fun u hu =>
        hA u (List.mem_cons_of_mem _ (by rw [hm]; exact hu))
      have hone := hstep s a m hs (hA s List.mem_cons_self) (hrest m (mem_visited_head m w)) hm
      have htail := ih (.next a hs hm) ht hrest
      have hsum : M.charged p s (a :: w) = (if p s a then 1 else 0) + M.charged p m w := by
        rw [charged, hm]
        rfl
      omega

/-- The balance rule: what every step moves from one count to another, or
charges, a run moves or charges in all. -/
theorem Reachable.charged_balance (hs : M.Reachable s) (p : σ → α → Bool) (f g : σ → Nat)
    (hstep : ∀ s a t, M.Reachable s → M.step s a = some t → f t + (if p s a then 1 else 0) + g s = f s + g t)
    {w : List α} (h : M.after s w = some t) : f t + M.charged p s w + g s = f s + g t := by
  induction w generalizing s with
  | nil => cases h; rfl
  | cons a w ih =>
      obtain ⟨m, hm, ht⟩ := Option.bind_eq_some_iff.mp h
      have hone := hstep s a m hs hm
      have htail := ih (.next a hs hm) ht
      have hsum : M.charged p s (a :: w) = (if p s a then 1 else 0) + M.charged p m w := by
        rw [charged, hm]
        rfl
      omega

theorem Reachable.charged_mono (hs : M.Reachable s) {p q : σ → α → Bool}
    (hpq : ∀ s a t, M.Reachable s → M.step s a = some t → p s a = true → q s a = true) {w : List α}
    (h : M.after s w = some t) : M.charged p s w ≤ M.charged q s w := by
  induction w generalizing s with
  | nil => exact Nat.le_refl _
  | cons a w ih =>
      obtain ⟨m, hm, ht⟩ := Option.bind_eq_some_iff.mp h
      have htail := ih (.next a hs hm) ht
      have hone : (if p s a then 1 else 0) ≤ if q s a then 1 else 0 := by
        by_cases hp : p s a = true
        · exact Nat.le_of_eq (by rw [if_pos hp, if_pos (hpq s a m hs hm hp)])
        · rw [if_neg hp]
          exact Nat.zero_le _
      rw [charged, charged, hm]
      exact Nat.add_le_add hone htail

/-- The machine whose steps all meet a condition on the state before them. -/
def guarded (M : Machine σ α) (ok : σ → α → Bool) : Machine σ α where
  init := M.init
  step := fun s a => if ok s a then M.step s a else none

theorem guarded_step {ok : σ → α → Bool} {a : α} (h : (M.guarded ok).step s a = some t) :
    ok s a = true ∧ M.step s a = some t := by
  by_cases hok : ok s a = true
  · exact ⟨hok, by simpa only [guarded, hok, if_true] using h⟩
  · simp [guarded, hok] at h

theorem Reachable.of_guarded {ok : σ → α → Bool} (h : (M.guarded ok).Reachable s) : M.Reachable s := by
  induction h with
  | init => exact .init
  | next a _ ht ih => exact .next a ih (guarded_step ht).2

end Machine

end Taskvisor.Lib
