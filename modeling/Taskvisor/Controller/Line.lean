import Taskvisor.Controller.State

namespace Taskvisor.Controller.Line

open Runtime.Base State

/-- A slot as its users see it: who owns it and who waits, in order. -/
@[ext]
structure Standing where
  owner : Option TaskId
  queue : List TaskId
deriving DecidableEq

/-- What an operation leaves, and whom it turned away, in order. -/
structure Outcome where
  line : Standing
  rejected : List TaskId
deriving DecidableEq

namespace Standing

def empty : Standing := ⟨none, []⟩

/-- A submission meets the line. An owner is found only where `admissible`; a
new place in the queue needs `room`. -/
def submit (line : Standing) (maxQueue : Nat) (room admissible : Bool) (policy : AdmissionPolicy) (id : TaskId) : Outcome :=
  match line.owner with
  | none => if admissible then ⟨{ line with owner := some id }, []⟩ else ⟨line, [id]⟩
  | some _ =>
    match policy with
    | .queue =>
      if line.queue.length < maxQueue ∧ room = true then ⟨{ line with queue := line.queue ++ [id] }, []⟩ else ⟨line, [id]⟩
    | .replace =>
      match line.queue with
      | [] => if room then ⟨{ line with queue := [id] }, []⟩ else ⟨line, [id]⟩
      | head :: tail => ⟨{ line with queue := id :: tail }, [head]⟩
    | .dropIfRunning => ⟨line, [id]⟩

/-- The owner has gone: candidates leave in order until one is admissible. The
number counts the pending entries, the candidate's own included. -/
def promote (admissible : Nat → TaskId → Bool) : Nat → List TaskId → Outcome
  | _, [] => ⟨empty, []⟩
  | used, id :: rest =>
    if admissible (used - 1) id then ⟨⟨some id, rest⟩, []⟩
    else { promote admissible (used - 1) rest with rejected := id :: (promote admissible (used - 1) rest).rejected }

def remove (line : Standing) (id : TaskId) : Outcome := ⟨{ line with queue := line.queue.erase id }, [id]⟩

variable {line : Standing} {x y id : TaskId} {admissible : Nat → TaskId → Bool} {queue : List TaskId}

/-- A vacant line has nobody waiting. -/
def Served (line : Standing) : Prop := line.owner = none → line.queue = []

theorem promote_served (used : Nat) (queue : List TaskId) : Served (promote admissible used queue).line := by
  induction queue generalizing used with
  | nil => exact fun _ => rfl
  | cons id rest ih =>
      rw [promote]
      split
      · exact nofun
      · exact ih (used - 1)

theorem submit_served (h : Served line) (maxQueue : Nat) (room admissible : Bool) (policy : AdmissionPolicy) (id : TaskId) :
    Served (line.submit maxQueue room admissible policy id).line := by
  cases howner : line.owner with
  | none =>
      simp only [submit, howner]
      split
      · exact nofun
      · exact h
  | some owner =>
      cases policy with
      | queue =>
          simp only [submit, howner]
          split
          · exact nofun
          · exact h
      | replace =>
          simp only [submit, howner]
          split
          · split
            · exact nofun
            · exact h
          · exact nofun
      | dropIfRunning =>
          simp only [submit, howner]
          exact h

theorem remove_served (h : Served line) (id : TaskId) : Served (line.remove id).line := by
  intro hn
  have hq := h hn
  simp [remove, hq]

/-- The suffix behind the first admissible candidate is the new queue, and all
those ahead of it were turned away. -/
theorem promote_split (used : Nat) (queue : List TaskId) :
    (∃ failed id rest, queue = failed ++ id :: rest ∧ (promote admissible used queue).line = ⟨some id, rest⟩ ∧
      (promote admissible used queue).rejected = failed) ∨
    ((promote admissible used queue).line = empty ∧ (promote admissible used queue).rejected = queue) := by
  induction queue generalizing used with
  | nil => exact .inr ⟨rfl, rfl⟩
  | cons id rest ih =>
      rw [promote]
      split
      · exact .inl ⟨[], id, rest, rfl, rfl, rfl⟩
      · rcases ih (used - 1) with ⟨failed, next, suffix, hq, hl, hr⟩ | ⟨hl, hr⟩
        · exact .inl ⟨id :: failed, next, suffix, by rw [hq]; rfl, hl, by rw [hr]⟩
        · exact .inr ⟨hl, by rw [hr]⟩

theorem promote_order (used : Nat) (h : [x, y].Sublist queue) :
    (promote admissible used queue).line.owner = some x ∨ x ∈ (promote admissible used queue).rejected ∨
      [x, y].Sublist (promote admissible used queue).line.queue := by
  induction queue generalizing used with
  | nil => cases h
  | cons id rest ih =>
      rw [promote]
      cases h with
      | cons _ hrest =>
          split
          · exact .inr (.inr hrest)
          · rcases ih (used - 1) hrest with ho | hr | hq
            · exact .inl ho
            · exact .inr (.inl (List.mem_cons_of_mem _ hr))
            · exact .inr (.inr hq)
      | cons_cons _ hrest =>
          split
          · exact .inl rfl
          · exact .inr (.inl List.mem_cons_self)

theorem submit_order (h : [x, y].Sublist line.queue) (maxQueue : Nat) (room admissible : Bool) (policy : AdmissionPolicy)
    (id : TaskId) : x ∈ (line.submit maxQueue room admissible policy id).rejected ∨
      [x, y].Sublist (line.submit maxQueue room admissible policy id).line.queue := by
  cases howner : line.owner with
  | none =>
      simp only [submit, howner]
      split <;> exact .inr h
  | some owner =>
      cases policy with
      | queue =>
          simp only [submit, howner]
          split
          · exact .inr (h.trans (List.sublist_append_left _ _))
          · exact .inr h
      | replace =>
          simp only [submit, howner]
          split
          · next hq =>
            rw [hq] at h
            cases h
          · next head tail hq =>
            rw [hq] at h
            cases h with
            | cons _ hrest => exact .inr (hrest.cons _)
            | cons_cons _ hrest => exact .inl List.mem_cons_self
      | dropIfRunning =>
          simp only [submit, howner]
          exact .inr h

theorem remove_order (h : [x, y].Sublist line.queue) (id : TaskId) :
    x ∈ (line.remove id).rejected ∨ y ∈ (line.remove id).rejected ∨ [x, y].Sublist (line.remove id).line.queue := by
  by_cases hx : x = id
  · exact .inl (by simp [remove, hx])
  by_cases hy : y = id
  · exact .inr (.inl (by simp [remove, hy]))
  refine .inr (.inr ?_)
  have herase := h.erase id
  have hnot : id ∉ [x, y] := by simp [Ne.symm hx, Ne.symm hy]
  rwa [List.erase_of_not_mem hnot] at herase

end Standing

end Taskvisor.Controller.Line
