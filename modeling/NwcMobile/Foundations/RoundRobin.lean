import Mathlib.Data.List.Basic
import Mathlib.Tactic

/-!
Round robin over a queue. A turn serves the front of the queue, up to a limit,
and puts it at the end.
-/

namespace RoundRobin

variable {α : Type} {limit : Nat} {queue queue' : List α} {batches : List (List α)} {a : α}

/-- Turns one after the other, with what each served. -/
inductive Turns (limit : Nat) (queue : List α) : List (List α) → List α → Prop
  | none : Turns limit queue [] queue
  | snoc {batches : List (List α)} {queue' : List α} :
      Turns limit queue batches queue' →
      Turns limit queue (batches ++ [queue'.take limit])
        (queue'.drop limit ++ queue'.take limit)

/-- As long as nothing comes round again, the turns serve the queue from its front. -/
theorem Turns.served (h : Turns limit queue batches queue')
    (hle : batches.length * limit ≤ queue.length) :
    batches.flatten = queue.take (batches.length * limit) ∧
      queue' = queue.drop (batches.length * limit) ++ queue.take (batches.length * limit) := by
  induction h with
  | none => simp
  | @snoc batches queue' _ ih =>
    rw [List.length_append, List.length_singleton, Nat.succ_mul] at hle ⊢
    obtain ⟨hserved, rfl⟩ := ih (by omega)
    have hfront : limit ≤ (queue.drop (batches.length * limit)).length := by
      rw [List.length_drop]
      omega
    rw [List.take_append_of_le_length hfront, List.drop_append_of_le_length hfront, List.drop_drop,
      List.flatten_append, hserved, List.flatten_singleton, List.append_assoc, List.take_add]
    exact ⟨rfl, rfl⟩

/-- Whatever still waits stands at the front, and the rest has been served. -/
theorem Turns.front (h : Turns limit queue batches queue') :
    (∃ rest, queue' = queue.drop (batches.length * limit) ++ rest) ∧
      ∀ a ∈ queue.take (batches.length * limit), a ∈ batches.flatten := by
  induction h with
  | none => simp
  | @snoc batches queue' _ ih =>
    obtain ⟨⟨rest, rfl⟩, hserved⟩ := ih
    rw [List.length_append, List.length_singleton, Nat.succ_mul]
    constructor
    · rw [List.drop_append, List.drop_drop, List.append_assoc]
      exact ⟨_, rfl⟩
    · intro a ha
      rw [List.flatten_append, List.flatten_singleton, List.mem_append, List.take_append,
        List.mem_append]
      rw [List.take_add, List.mem_append] at ha
      rcases ha with hearlier | hnow
      · exact Or.inl (hserved a hearlier)
      · exact Or.inr (Or.inl hnow)

/-- Enough turns serve everything that was queued. -/
theorem Turns.covers (h : Turns limit queue batches queue')
    (hle : queue.length ≤ batches.length * limit) : ∀ a ∈ queue, a ∈ batches.flatten := by
  intro a ha
  apply h.front.2
  rwa [List.take_of_length_le hle]

/-- Turns that fit the queue exactly serve everything once. -/
theorem Turns.exact (h : Turns limit queue batches queue')
    (heq : batches.length * limit = queue.length) : batches.flatten = queue := by
  rw [(h.served heq.le).1, heq, List.take_length]

end RoundRobin
