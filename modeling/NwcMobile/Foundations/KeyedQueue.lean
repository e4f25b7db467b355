import Mathlib.Tactic

/-!
A bounded queue that holds at most one entry for each key. A new entry takes the
place of an older one of its key at the end of the queue; beyond the bound the
oldest entries are dropped.
-/

namespace KeyedQueue

universe u v

variable {α : Type u} {κ : Type v} [DecidableEq κ] (key : α → κ)

/-- The queue with a new entry at its end, before it is cut to its bound. -/
def renewed (q : List α) (a : α) : List α := (q.filter fun b => key b != key a) ++ [a]

def push (maximum : Nat) (q : List α) (a : α) : List α :=
  (renewed key q a).drop ((renewed key q a).length - maximum)

/-- The queue without the entries of some keys. -/
def discard (keys : κ → Bool) (q : List α) : List α := q.filter fun b => !keys (key b)

/-- No key twice, and no more entries than the bound. -/
structure Bounded (maximum : Nat) (q : List α) : Prop where
  distinct : (q.map key).Nodup
  bounded : q.length ≤ maximum

variable {key} {maximum : Nat} {q : List α} {a b : α}

omit [DecidableEq κ] in
theorem bounded_nil : Bounded key maximum ([] : List α) := ⟨List.nodup_nil, Nat.zero_le _⟩

theorem renewed_distinct (h : (q.map key).Nodup) : ((renewed key q a).map key).Nodup := by
  rw [renewed, List.map_append, List.nodup_append]
  refine ⟨h.sublist (List.filter_sublist.map key), List.nodup_singleton _, ?_⟩
  intro k hk k' hk'
  obtain ⟨b, hb, rfl⟩ := List.mem_map.mp hk
  rw [List.map_singleton, List.mem_singleton] at hk'
  rw [hk']
  exact bne_iff_ne.mp (List.mem_filter.mp hb).2

theorem Bounded.push (h : Bounded key maximum q) : Bounded key maximum (push key maximum q a) := by
  constructor
  · rw [KeyedQueue.push, List.map_drop]
    exact (renewed_distinct h.distinct).sublist (List.drop_sublist _ _)
  · rw [KeyedQueue.push, List.length_drop]
    omega

omit [DecidableEq κ] in
theorem Bounded.discard {keys : κ → Bool} (h : Bounded key maximum q) :
    Bounded key maximum (discard key keys q) :=
  ⟨h.distinct.sublist (List.filter_sublist.map key),
    (List.length_filter_le _ _).trans h.bounded⟩

theorem mem_renewed : b ∈ renewed key q a ↔ (b ∈ q ∧ key b ≠ key a) ∨ b = a := by
  simp [renewed]

theorem mem_of_mem_push (h : b ∈ push key maximum q a) : (b ∈ q ∧ key b ≠ key a) ∨ b = a :=
  mem_renewed.mp (List.mem_of_mem_drop h)

/-- The new entry is never the one that is dropped. -/
theorem push_self (hmaximum : 0 < maximum) : a ∈ push key maximum q a := by
  have hlength : (renewed key q a).length = (q.filter fun b => key b != key a).length + 1 := by
    simp [renewed]
  rw [push, renewed, List.drop_append_of_le_length (by rw [← renewed, hlength]; omega)]
  simp

/-- An entry is lost to a newer one of its key, or it was among the oldest of too many. -/
theorem lost_by_push (hmem : b ∈ q) (hlost : b ∉ push key maximum q a) :
    key b = key a ∨ (maximum < (renewed key q a).length ∧
      b ∈ (renewed key q a).take ((renewed key q a).length - maximum)) := by
  by_cases hkey : key b = key a
  · exact Or.inl hkey
  · right
    have hrenewed : b ∈ renewed key q a := mem_renewed.mpr (Or.inl ⟨hmem, hkey⟩)
    rw [← List.take_append_drop ((renewed key q a).length - maximum) (renewed key q a),
      List.mem_append] at hrenewed
    rcases hrenewed with hold | hkept
    · refine ⟨?_, hold⟩
      by_contra hfits
      rw [Nat.sub_eq_zero_of_le (Nat.not_lt.mp hfits)] at hold
      cases hold
    · exact absurd hkept hlost

end KeyedQueue
