import Taskvisor.Events.Accounting

namespace Taskvisor.Events.Settlement

open Lib Bus Accounting

variable {α : Type} {w : World α} {capacity k : Nat}

/-- The events that a ledger books on one emission. -/
def books (ledger : List (α × Nat)) (j : Nat) : List α := (ledger.filter fun entry => entry.2 == j).map Prod.fst

/-- An emitted event stands for itself, a diagnostic for as many events as it
counts. -/
def Booked : Option (Emission α) → List α → Prop
  | none, events => events = []
  | some (.event event), events => events = [event]
  | some (.subscriberOverflow _ _ dropped), events => events.length = dropped

/-- The ledger books every event on one of the emissions, numbered from `k`. -/
def Settles (k : Nat) (emitted : List (Emission α)) (ledger : List (α × Nat)) : Prop :=
  ∀ j, Booked (if j < k then none else emitted[j - k]?) (books ledger j)

theorem books_append (l₁ l₂ : List (α × Nat)) (j : Nat) : books (l₁ ++ l₂) j = books l₁ j ++ books l₂ j := by
  simp [books]

theorem books_const (events : List α) (k j : Nat) : books (events.map (·, k)) j = if j = k then events else [] := by
  by_cases h : j = k
  · subst h
    simp [books, List.filter_map, Function.comp_def]
  · simp [books, h, Ne.symm h]

theorem Booked.perm {emission : Option (Emission α)} {b b' : List α} (h : Booked emission b) (hp : b.Perm b') :
    Booked emission b' := by
  cases emission with
  | none =>
      subst h
      exact hp.nil_eq.symm
  | some emission =>
      cases emission with
      | event event =>
          subst h
          exact (List.singleton_perm.mp hp).symm
      | subscriberOverflow subscriber reason dropped => exact hp.length_eq.symm.trans h

theorem Settles.perm {emitted : List (Emission α)} {l l' : List (α × Nat)} (h : Settles k emitted l) (hp : l.Perm l') :
    Settles k emitted l' := fun j => (h j).perm ((hp.filter _).map _)

theorem Settles.append {out₁ out₂ : List (Emission α)} {l₁ l₂ : List (α × Nat)} (h₁ : Settles k out₁ l₁)
    (h₂ : Settles (k + out₁.length) out₂ l₂) : Settles k (out₁ ++ out₂) (l₁ ++ l₂) := by
  intro j
  rw [books_append]
  by_cases hlow : j < k + out₁.length
  · -- the second ledger books nothing this early
    have hnone := h₂ j
    rw [if_pos hlow] at hnone
    have hnone : books l₂ j = [] := hnone
    have h := h₁ j
    rw [hnone, List.append_nil]
    split
    · next hk => simpa only [hk, if_true] using h
    · next hk =>
      rw [if_neg hk] at h
      rwa [List.getElem?_append_left (by omega)]
  · have hk : ¬ j < k := by omega
    have hnone : books l₁ j = [] := by
      have h := h₁ j
      rw [if_neg hk, List.getElem?_eq_none (by omega)] at h
      exact h
    have h := h₂ j
    rw [if_neg hlow] at h
    rw [hnone, List.nil_append, if_neg hk, List.getElem?_append_right (by omega)]
    rwa [Nat.sub_sub]

theorem Settles.nil : Settles k ([] : List (Emission α)) [] := by
  intro j
  simp [books, Booked]

theorem settles_event (k : Nat) (e : α) : Settles k [.event e] [(e, k)] := by
  intro j
  have hb : books [(e, k)] j = if j = k then [e] else [] := books_const [e] k j
  rw [hb]
  by_cases hj : j = k
  · subst hj
    simp [Booked]
  · by_cases hk : j < k
    · simp [hj, hk, Booked]
    · rw [if_neg hk, if_neg hj, List.getElem?_eq_none (by simp; omega)]
      rfl

theorem settles_diagnostic (k : Nat) (events : List α) :
    Settles k (diagnostic events.length) (events.map (·, k)) := by
  intro j
  rw [books_const]
  unfold diagnostic
  by_cases hz : events.length = 0
  · rw [List.length_eq_zero_iff.mp hz]
    simp [Booked]
  · rw [if_neg hz]
    by_cases hj : j = k
    · subst hj
      simp [Booked, lagged]
    · by_cases hk : j < k
      · simp [hj, hk, Booked]
      · rw [if_neg hk, if_neg hj, List.getElem?_eq_none (by simp; omega)]
        rfl

/-- The ledger of the relay loop: a gap goes on the diagnostic right after
the event that ended it. -/
def relayLedger (k : Nat) : List (Receipt α) → List (α × Nat)
  | [] => []
  | r :: log => r.gap.map (·, k + 1) ++ (r.message.payload, k) :: relayLedger (k + (relayOutput r).length) log

/-- The ledger of the drain: every gap goes on the last diagnostic. -/
def drainLedger (last k : Nat) : List (Receipt α) → List (α × Nat)
  | [] => []
  | r :: log => r.gap.map (·, last) ++ (r.message.payload, k) :: drainLedger last (k + 1) log

theorem relayLedger_fst (log : List (Receipt α)) (k : Nat) : (relayLedger k log).map Prod.fst = spread log := by
  induction log generalizing k with
  | nil => rfl
  | cons r log ih => simp [relayLedger, spread, ih, Function.comp_def]

theorem drainLedger_fst (log : List (Receipt α)) (last k : Nat) : (drainLedger last k log).map Prod.fst = spread log := by
  induction log generalizing k with
  | nil => rfl
  | cons r log ih => simp [drainLedger, spread, ih, Function.comp_def]

theorem relayOutput_eq {r : Receipt α} (h : Faithful r) :
    relayOutput r = [.event r.message.payload] ++ diagnostic r.gap.length := by
  unfold Faithful at h
  unfold relayOutput diagnostic
  split at h
  · next hm => simp [hm, h, BusMessage.payload]
  · next hm =>
    rw [hm, ← h.1, if_neg h.2]
    rfl

theorem relay_settles (log : List (Receipt α)) (h : ∀ r ∈ log, Faithful r) (k : Nat) :
    Settles k (log.flatMap relayOutput) (relayLedger k log) := by
  induction log generalizing k with
  | nil => exact .nil
  | cons r log ih =>
      have hr := relayOutput_eq (h r List.mem_cons_self)
      have hone : Settles k (relayOutput r) (r.gap.map (·, k + 1) ++ [(r.message.payload, k)]) := by
        rw [hr]
        exact ((settles_event k r.message.payload).append (settles_diagnostic (k + 1) r.gap)).perm List.perm_append_comm
      have hrest := ih (fun s hs => h s (List.mem_cons_of_mem _ hs)) (k + (relayOutput r).length)
      simpa [relayLedger] using hone.append hrest

theorem drain_settles (log : List (Receipt α)) (k : Nat) (extra : List α) :
    Settles k (log.map drainOutput ++ diagnostic ((gaps log).length + extra.length))
      (drainLedger (k + log.length) k log ++ extra.map (·, k + log.length)) := by
  induction log generalizing k extra with
  | nil => simpa [drainLedger] using settles_diagnostic k extra
  | cons r log ih =>
      -- the gap joins what the last diagnostic has to count anyway
      have hrest := (settles_event k r.message.payload).append (ih (k + 1) (r.gap ++ extra))
      have hlast : k + 1 + log.length = k + (r :: log).length := by simp; omega
      have hcount : (gaps log).length + (r.gap ++ extra).length = (gaps (r :: log)).length + extra.length := by
        simp [gaps]
        omega
      rw [hlast, hcount] at hrest
      refine hrest.perm ?_
      simp only [drainLedger, List.map_append, List.append_assoc]
      exact List.perm_append_comm_assoc ((r.message.payload, k) :: drainLedger _ (k + 1) log) _ _

/-- The ledger of a whole run of the relay. -/
def settlement (w : World α) : List (α × Nat) :=
  let start := 0 + (w.relayed.flatMap relayOutput).length
  let last := start + w.drained.length
  relayLedger 0 w.relayed ++ (drainLedger last start w.drained ++ w.rest.map (·, last))

/-- The messages the relay has received, in order. -/
def received (w : World α) : List (BusMessage α) := (w.relayed ++ w.drained).map Receipt.message

/-- The losses reported by the first `n` messages. -/
def reported (messages : List (BusMessage α)) (n : Nat) : Nat := ((messages.take n).map BusMessage.skipped).sum

theorem spread_getElem (log : List (Receipt α)) (h : ∀ r ∈ log, Faithful r) (n : Nat) {m : BusMessage α}
    (hn : (log.map Receipt.message)[n]? = some m) :
    (spread log)[n + reported (log.map Receipt.message) (n + 1)]? = some m.payload := by
  induction log generalizing n with
  | nil => simp at hn
  | cons r log ih =>
      have hr := (h r List.mem_cons_self).skipped
      have hspread : spread (r :: log) = r.gap ++ r.message.payload :: spread log := by simp [spread]
      cases n with
      | zero =>
          obtain rfl : r.message = m := by simpa using hn
          have hsum : reported ((r :: log).map Receipt.message) (0 + 1) = r.gap.length := by simp [reported, hr]
          rw [hspread, hsum, List.getElem?_append_right (by omega)]
          simp
      | succ n =>
          have hm := ih (fun s hs => h s (List.mem_cons_of_mem _ hs)) n (by simpa using hn)
          have hsum : reported ((r :: log).map Receipt.message) (n + 1 + 1) =
              r.gap.length + reported (log.map Receipt.message) (n + 1) := by simp [reported, hr]
          rw [hspread, hsum, List.getElem?_append_right (by omega)]
          rw [show n + 1 + (r.gap.length + reported (log.map Receipt.message) (n + 1)) - r.gap.length =
            (n + reported (log.map Receipt.message) (n + 1)) + 1 by omega]
          exact hm

theorem spread_append (l₁ l₂ : List (Receipt α)) : spread (l₁ ++ l₂) = spread l₁ ++ spread l₂ := List.flatMap_append

theorem conserved_of_reachable (h : (machine α capacity).Reachable w) (hu : w.accepted.length ≤ wordMax) :
    Conserved w := by
  induction h with
  | init => exact conserved_new
  | next a hs ht ih =>
      have hw := Nat.le_trans (accepted_step ht).1.length_le hu
      exact (ih hw).step (Nat.le_max_right _ _) ht hu

theorem wakeful_of_reachable (h : (machine α capacity).Reachable w) : Wakeful w :=
  h.invariant (.deaf rfl) fun _ _ _ _ hw ht => hw.step (Nat.le_max_right _ _) ht

theorem accepted_after {word : List (Action α)} {w' : World α} (hc : w.ring.closed = true)
    (h : (machine α capacity).after w word = some w') : w'.ring.closed = true ∧ w'.accepted = w.accepted := by
  induction word generalizing w with
  | nil =>
      cases h
      exact ⟨hc, rfl⟩
  | cons a word ih =>
      obtain ⟨m, hm, ht⟩ := Option.bind_eq_some_iff.mp h
      obtain ⟨hclosed, hacc⟩ := (accepted_step hm).2 hc
      exact hacc ▸ ih hclosed ht

/-- For every capacity and run, while the accepted events can be counted in a
word: a message carries the event after all that were received or reported
lost up to it; the relay is not parked on events without a notification that
was delivered or that the publisher of the first of them has still to deliver;
a finished relay has booked every accepted event on one emission; and a closed
ring accepts nothing. -/
theorem event_accounting (capacity : Nat) (w : World α) (h : (machine α capacity).Reachable w)
    (hu : w.accepted.length ≤ wordMax) :
    (∀ n m, (received w)[n]? = some m → w.accepted[n + reported (received w) (n + 1)]? = some m.payload) ∧
      (w.relay = .parked → w.ring.events ≠ [] →
        w.waiter = .notified ∨ w.waiter = .done ∨ w.publishers.lookup w.filler = some .notify) ∧
      (w.relay = .finished → ∃ ledger : List (α × Nat), ledger.map Prod.fst = w.accepted ∧
        ∀ j, Booked w.emitted[j]? (books ledger j)) ∧
      (w.ring.closed = true → ∀ word w', (machine α capacity).after w word = some w' →
        w'.accepted = w.accepted) := by
  have hc := conserved_of_reachable h hu
  have hwake := wakeful_of_reachable h
  refine ⟨fun n m hn => ?_, fun hr hne => ?_, fun hr => ?_, fun hclosed word w' ht => (accepted_after hclosed ht).2⟩
  · have hfaithful : ∀ r ∈ w.relayed ++ w.drained, Faithful r := by
      intro r hm
      rcases List.mem_append.mp hm with hm | hm
      · exact hc.relayed r hm
      · exact hc.drained r hm
    unfold received at hn ⊢
    have hget := spread_getElem _ hfaithful n hn
    have hlt := (List.getElem?_eq_some_iff.mp hget).1
    rw [hc.layout, ← spread_append, List.append_assoc, List.append_assoc, List.getElem?_append_left hlt]
    exact hget
  · cases hwaiter : w.waiter with
    | absent => exact absurd hwaiter (hwake.listening (by rw [hr]; rfl))
    | waiting => exact .inr (.inr (hwake.expecting (by rw [hr]; rfl) hwaiter hne))
    | notified => exact .inl rfl
    | done => exact .inr (.inl rfl)
  · have hclosed : w.ring.closed = true := by rw [hc.closed, hr]; rfl
    obtain ⟨hevents, hdisplaced⟩ := hc.emptied hclosed
    have hemitted := hc.emitted
    simp only [hr, inHand, farewell, List.append_nil] at hemitted
    have hall := (relay_settles w.relayed hc.relayed 0).append (drain_settles w.drained _ w.rest)
    refine ⟨settlement w, ?_, fun j => ?_⟩
    · simp [settlement, hc.layout, hevents, hdisplaced, relayLedger_fst, drainLedger_fst, Function.comp_def]
    · have hj := hall j
      rw [if_neg (Nat.not_lt_zero j)] at hj
      rw [hemitted, List.append_assoc]
      exact hj

/-- A ring of one slot: two gaps in the loop and the drain, and one event that
comes between the drain and the close. -/
def lossyRun : List (Action Nat) :=
  [.enable, .load 0 10, .push 0, .notify 0, .load 1 11, .push 1, .start, .poll, .tryMessage, .emit, .emit, .poll,
    .tryMessage, .await, .load 2 12, .push 2, .load 3 13, .push 3, .cancel, .notify 2, .poll, .drain, .emit, .load 4 14,
    .push 4, .drain, .close, .finish]

def isFinished : Relay Nat → Bool
  | .finished => true
  | _ => false

theorem event_accounting_lossy :
    ∃ w, (machine Nat 0).after World.new lossyRun = some w ∧ w.accepted = [10, 11, 12, 13, 14] ∧
      w.emitted = [.event 11, lagged 1, .event 13, lagged 2] ∧
      ∃ ledger : List (Nat × Nat), ledger.map Prod.fst = w.accepted ∧ ∀ j, Booked w.emitted[j]? (books ledger j) := by
  obtain ⟨w, hw, hp⟩ := (Option.any_eq_true (fun w : World Nat => decide (w.accepted = [10, 11, 12, 13, 14] ∧
      w.emitted = [.event 11, lagged 1, .event 13, lagged 2]) && isFinished w.relay) _).mp
    (show (Machine.after (machine Nat 0) World.new lossyRun).any _ = true by decide +kernel)
  simp only [Bool.and_eq_true, decide_eq_true_eq] at hp
  obtain ⟨⟨hacc, hem⟩, hfin⟩ := hp
  have hr : w.relay = .finished := by
    cases hr : w.relay <;> simp_all [isFinished]
  exact ⟨w, hw, hacc, hem, (event_accounting 0 w (Machine.Reachable.after .init hw) (by rw [hacc]; decide)).2.2.1 hr⟩

end Taskvisor.Events.Settlement
