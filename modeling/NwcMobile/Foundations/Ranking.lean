import Mathlib.Data.List.Sort
import Mathlib.Tactic

/-!
Lists ranked by a key from the greatest down, ties in input order, and the pages
a ranked list is read in.
-/

namespace Ranking

variable {α κ : Type} [LinearOrder κ] {key : α → κ} {xs ys : List α}

/-- The stable sort by descending key. -/
def ranked (key : α → κ) (xs : List α) : List α :=
  xs.insertionSort fun a b => key b ≤ key a

instance key_total : Std.Total fun a b : α => key b ≤ key a := ⟨fun a b => le_total (key b) (key a)⟩

instance key_trans : IsTrans α fun a b => key b ≤ key a := ⟨fun _ _ _ hab hbc => hbc.trans hab⟩

theorem ranked_perm : (ranked key xs).Perm xs := List.perm_insertionSort _ xs

@[simp] theorem length_ranked : (ranked key xs).length = xs.length :=
  List.length_insertionSort _ xs

theorem ranked_pairwise : (ranked key xs).Pairwise fun a b => key b ≤ key a :=
  List.pairwise_insertionSort _ xs

/-- An inserted element precedes every element of its own key. -/
theorem filter_orderedInsert (key : α → κ) (rank : κ) (x : α) (xs : List α) :
    (xs.orderedInsert (fun a b => key b ≤ key a) x).filter (fun a => key a = rank) =
      (x :: xs).filter fun a => key a = rank := by
  induction xs with
  | nil => rfl
  | cons y ys ih =>
    by_cases hle : key y ≤ key x
    · rw [List.orderedInsert_cons, if_pos hle]
    · rw [List.orderedInsert_cons, if_neg hle, List.filter_cons, ih]
      have hne : ¬ (key x = rank ∧ key y = rank) := by
        rintro ⟨rfl, hy⟩
        exact hle hy.le
      by_cases hx : key x = rank <;> by_cases hy : key y = rank
      · exact absurd ⟨hx, hy⟩ hne
      all_goals simp [hx, hy]

/-- Elements of one key keep their input order. -/
theorem filter_ranked (rank : κ) :
    (ranked key xs).filter (fun a => key a = rank) = xs.filter fun a => key a = rank := by
  induction xs with
  | nil => rfl
  | cons x xs ih =>
    have hinsert := filter_orderedInsert key rank x (ranked key xs)
    simp only [ranked, List.insertionSort_cons] at hinsert ih ⊢
    rw [hinsert, List.filter_cons, List.filter_cons, ih]

/-- Ranking more elements keeps the others in place. -/
theorem ranked_sublist (h : xs.Sublist ys) : (ranked key xs).Sublist (ranked key ys) := by
  induction h with
  | slnil => exact List.Sublist.refl _
  | cons y _ ih => exact ih.trans (List.sublist_orderedInsert y _)
  | cons_cons y _ ih => exact List.Sublist.orderedInsert_sublist y ih ranked_pairwise

/-- The elements from an offset on, up to a limit. -/
def page (limit offset : Nat) (xs : List α) : List α := (xs.drop offset).take limit

/-- Consecutive pages are a prefix of the list. -/
theorem flatMap_page (limit pages : Nat) :
    (List.range pages).flatMap (fun index => page limit (index * limit) xs) =
      xs.take (pages * limit) := by
  induction pages with
  | zero => simp
  | succ pages ih =>
    rw [List.range_succ, List.flatMap_append, ih, Nat.succ_mul, List.take_add]
    simp [page]

theorem flatMap_page_eq {limit pages : Nat} (h : xs.length ≤ pages * limit) :
    (List.range pages).flatMap (fun index => page limit (index * limit) xs) = xs := by
  rw [flatMap_page, List.take_of_length_le h]

section Lexicographic

variable {r : α → α → Prop}

/-- By a key first and by another relation where the keys are equal. -/
theorem total_lex [Std.Total r] :
    Std.Total fun a b => key a < key b ∨ (key a = key b ∧ r a b) := by
  constructor
  intro a b
  rcases lt_trichotomy (key a) (key b) with hlt | heq | hgt
  · exact Or.inl (Or.inl hlt)
  · cases Std.Total.total (r := r) a b with
    | inl hab => exact Or.inl (Or.inr ⟨heq, hab⟩)
    | inr hba => exact Or.inr (Or.inr ⟨heq.symm, hba⟩)
  · exact Or.inr (Or.inl hgt)

theorem trans_lex [IsTrans α r] :
    IsTrans α fun a b => key a < key b ∨ (key a = key b ∧ r a b) := by
  constructor
  rintro a b c (hab | ⟨hab, rab⟩) (hbc | ⟨hbc, rbc⟩)
  · exact Or.inl (hab.trans hbc)
  · exact Or.inl (hbc ▸ hab)
  · exact Or.inl (hab ▸ hbc)
  · exact Or.inr ⟨hab.trans hbc, IsTrans.trans a b c rab rbc⟩

end Lexicographic

/-- What stands in the first part of an ordered list precedes what does not. -/
theorem rel_of_take {r : α → α → Prop} (h : xs.Pairwise r) {limit : Nat} {a b : α}
    (ha : a ∈ xs.take limit) (hb : b ∈ xs) (hnot : b ∉ xs.take limit) : r a b := by
  rw [← List.take_append_drop limit xs] at h hb
  rw [List.mem_append] at hb
  exact (List.pairwise_append.mp h).2.2 a ha b (hb.resolve_left hnot)

end Ranking
