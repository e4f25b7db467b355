import Mathlib.Data.List.TakeWhile
import Mathlib.Algebra.BigOperators.Group.Finset.Basic
import Mathlib.Data.Finset.Basic
import Mathlib.Tactic

/-!
Rotation by key. A pass inspects some of the entries that wait, smallest keys
first, and raises the key of each. No entry is inspected more often than its key
is below another's before that other one is inspected, so none waits forever.
-/

namespace Rotation

variable {ι : Type} [DecidableEq ι]

/-- One pass: which entries wait and under which key before and after it, and which it
inspected in turn. Raised keys reach a floor, such as the time of the pass. -/
structure Pass (floor : Nat) (waiting : Finset ι) (key : ι → Nat) (inspected : List ι)
    (waiting' : Finset ι) (key' : ι → Nat) : Prop where
  waited : ∀ i ∈ inspected, i ∈ waiting
  distinct : inspected.Nodup
  ordered : inspected.Pairwise fun i j => key i ≤ key j
  first : ∀ i ∈ inspected, ∀ j ∈ waiting, j ∉ inspected → key i ≤ key j
  raised : ∀ i ∈ inspected, i ∈ waiting' → key i + 1 ≤ key' i ∧ floor ≤ key' i
  kept : ∀ j, j ∉ inspected → key' j = key j
  stays : ∀ j ∈ waiting, j ∉ inspected → j ∈ waiting'
  shrinks : waiting' ⊆ waiting

/-- Passes one after the other, the oldest first. -/
inductive Passes (floor : Nat) :
    Finset ι → (ι → Nat) → List (List ι) → Finset ι → (ι → Nat) → Prop
  | nil {waiting key} : Passes floor waiting key [] waiting key
  | cons {waiting key inspected waiting' key' history waiting'' key''}
      (pass : Pass floor waiting key inspected waiting' key')
      (later : Passes floor waiting' key' history waiting'' key'') :
      Passes floor waiting key (inspected :: history) waiting'' key''

variable {floor : Nat} {waiting waiting' waiting'' : Finset ι} {key key' key'' : ι → Nat}
  {inspected : List ι} {history : List (List ι)} {i j : ι}

/-- The inspections of a history before the first one of an entry. -/
def before (j : ι) (history : List (List ι)) : List ι := history.flatten.takeWhile (· ≠ j)

theorem takeWhile_ne_append {earlier later : List ι} (h : j ∉ earlier) :
    (earlier ++ j :: later).takeWhile (· ≠ j) = earlier := by
  rw [List.takeWhile_append_of_pos]
  · simp
  · intro i hi
    have hne : i ≠ j := by
      rintro rfl
      exact h hi
    simpa using hne

theorem before_cons_of_mem {earlier later : List ι} (h : j ∉ earlier) :
    before j ((earlier ++ j :: later) :: history) = earlier := by
  rw [before, List.flatten_cons, List.append_assoc, List.cons_append, takeWhile_ne_append h]

theorem before_cons_of_not_mem (h : j ∉ inspected) :
    before j (inspected :: history) = inspected ++ before j history := by
  rw [before, List.flatten_cons, List.takeWhile_append_of_pos]
  · rfl
  · intro i hi
    have hne : i ≠ j := by
      rintro rfl
      exact h hi
    simpa using hne

theorem before_subset : before j history ⊆ history.flatten := List.takeWhile_subset _

omit [DecidableEq ι] in
/-- What does not wait any more is not inspected again. -/
theorem Passes.not_inspected (h : Passes floor waiting key history waiting' key')
    (hi : i ∉ waiting) : i ∉ history.flatten := by
  induction h with
  | nil => simp
  | cons pass _ ih =>
    rw [List.flatten_cons, List.mem_append, not_or]
    exact ⟨fun hmem => hi (pass.waited i hmem), ih fun hmem => hi (pass.shrinks hmem)⟩

theorem Passes.count_of_not_waiting (h : Passes floor waiting key history waiting' key')
    (hi : i ∉ waiting) : (before j history).count i = 0 :=
  List.count_eq_zero_of_not_mem fun hmem => h.not_inspected hi (before_subset hmem)

/-- One pass inspects an entry before another at most once, and only one whose key is not
above the other's. -/
theorem Pass.count_before (h : Pass floor waiting key inspected waiting' key') (hj : j ∈ waiting)
    {earlier : List ι} (hearlier : earlier = inspected ∧ j ∉ inspected ∨
      ∃ later, inspected = earlier ++ j :: later) :
    earlier.count i ≤ 1 ∧ (i ∈ earlier → key i ≤ key j) := by
  rcases hearlier with ⟨rfl, hnot⟩ | ⟨later, rfl⟩
  · exact ⟨List.nodup_iff_count_le_one.mp h.distinct i, fun hi => h.first i hi j hj hnot⟩
  · refine ⟨List.nodup_iff_count_le_one.mp (List.nodup_append.mp h.distinct).1 i, ?_⟩
    intro hi
    exact (List.pairwise_append.mp h.ordered).2.2 i hi j List.mem_cons_self

/-- Before an entry is inspected, another one is inspected at most once for each step its key
lies below. -/
theorem Passes.bypass (h : Passes floor waiting key history waiting' key') (hj : j ∈ waiting) :
    (before j history).count i ≤ key j + 1 - key i := by
  induction h with
  | nil => simp [before]
  | @cons waiting key inspected waiting' key' history waiting'' key'' pass later ih =>
    by_cases hmem : j ∈ inspected
    · obtain ⟨earlier, rest, rfl, hnot⟩ := List.eq_append_cons_of_mem hmem
      rw [before_cons_of_mem hnot]
      obtain ⟨hcount, hkey⟩ := pass.count_before (i := i) hj (Or.inr ⟨rest, rfl⟩)
      by_cases hi : i ∈ earlier
      · have hle := hkey hi
        omega
      · rw [List.count_eq_zero_of_not_mem hi]
        exact Nat.zero_le _
    · rw [before_cons_of_not_mem hmem, List.count_append]
      obtain ⟨hcount, hkey⟩ := pass.count_before (i := i) hj (Or.inl ⟨rfl, hmem⟩)
      have hrest := ih (pass.stays j hj hmem)
      rw [pass.kept j hmem] at hrest
      by_cases hi : i ∈ inspected
      · have hle := hkey hi
        by_cases hwaits : i ∈ waiting'
        · have hraised := (pass.raised i hi hwaits).1
          omega
        · rw [later.count_of_not_waiting hwaits]
          omega
      · rw [List.count_eq_zero_of_not_mem hi]
        rw [pass.kept i hi] at hrest
        omega

/-- A key raised to the floor is above every key that lies further below. -/
theorem Passes.bypass_floor (h : Passes floor waiting key history waiting' key')
    (hj : j ∈ waiting) : (before j history).count i ≤ 1 + (key j + 1 - floor) := by
  induction h with
  | nil => simp [before]
  | @cons waiting key inspected waiting' key' history waiting'' key'' pass later ih =>
    by_cases hmem : j ∈ inspected
    · obtain ⟨earlier, rest, rfl, hnot⟩ := List.eq_append_cons_of_mem hmem
      rw [before_cons_of_mem hnot]
      have hcount := (pass.count_before (i := i) hj (Or.inr ⟨rest, rfl⟩)).1
      omega
    · rw [before_cons_of_not_mem hmem, List.count_append]
      have hcount := (pass.count_before (i := i) hj (Or.inl ⟨rfl, hmem⟩)).1
      have hwaits := pass.stays j hj hmem
      by_cases hi : i ∈ inspected
      · by_cases hstays : i ∈ waiting'
        · have hraised := (pass.raised i hi hstays).2
          have hrest := later.bypass (i := i) hwaits
          rw [pass.kept j hmem] at hrest
          omega
        · rw [later.count_of_not_waiting hstays]
          omega
      · rw [List.count_eq_zero_of_not_mem hi]
        have hrest := ih hwaits
        rw [pass.kept j hmem] at hrest
        omega

/-- Passes that inspect something each reach every entry: there are no more of them than
inspections that may come before it. -/
theorem Passes.length_le (h : Passes floor waiting key history waiting' key') {bound : ι → Nat}
    (hsome : ∀ inspected ∈ history, inspected ≠ []) (hnot : j ∉ history.flatten)
    (hbound : ∀ i, (before j history).count i ≤ bound i) :
    history.length ≤ ∑ i ∈ waiting.erase j, bound i := by
  have hall : before j history = history.flatten := by
    rw [before, List.takeWhile_eq_self_iff]
    intro i hi
    have hne : i ≠ j := by
      rintro rfl
      exact hnot hi
    simpa using hne
  have hmem : ∀ i ∈ (history.flatten : Multiset ι), i ∈ waiting.erase j := by
    intro i hi
    rw [Multiset.mem_coe] at hi
    rw [Finset.mem_erase]
    refine ⟨fun hij => hnot (hij ▸ hi), ?_⟩
    by_contra hwaits
    exact h.not_inspected hwaits hi
  have hlength : history.length ≤ history.flatten.length := by
    clear h hnot hbound hall hmem
    induction history with
    | nil => simp
    | cons inspected history ih =>
      have hpos := List.length_pos_of_ne_nil (hsome inspected List.mem_cons_self)
      have hrest := ih fun inspected hmem => hsome inspected (List.mem_cons_of_mem _ hmem)
      rw [List.flatten_cons, List.length_append, List.length_cons]
      omega
  calc history.length
      ≤ history.flatten.length := hlength
    _ = ∑ i ∈ waiting.erase j, history.flatten.count i := by
      rw [← Multiset.coe_card, ← Multiset.sum_count_eq_card hmem]
      simp only [Multiset.coe_count]
    _ ≤ ∑ i ∈ waiting.erase j, bound i := by
      apply Finset.sum_le_sum
      intro i _
      rw [← hall]
      exact hbound i

end Rotation
