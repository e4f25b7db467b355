import Mathlib.Tactic
import Mathlib.Algebra.BigOperators.Group.List.Basic
import Mathlib.Data.List.Sort

/-!
Tables of a relational store. A schema carries what the store enforces on its
own: a check on every row and a conflict relation between two rows that share
a primary or unique key. A table holds its rows together with the proof that
both hold, so an invalid table cannot be built and each writing statement
reports failure when its result would break a constraint.
-/

namespace Relational

universe u

/-- The constraints of one table. Two rows conflict when they agree on the
primary key or on some unique index. -/
structure Schema (ρ : Type u) where
  check : ρ → Bool
  conflict : ρ → ρ → Bool
  conflict_symm : ∀ a b, conflict a b = conflict b a

/-- Rows in insertion order, each passing the check and no two in conflict. -/
@[ext] structure Table {ρ : Type u} (S : Schema ρ) where
  rows : List ρ
  checked : ∀ r ∈ rows, S.check r = true
  distinct : rows.Pairwise fun a b => S.conflict a b = false

variable {ρ : Type u} {S : Schema ρ}

instance : Membership ρ (Table S) := ⟨fun t r => r ∈ t.rows⟩

/-- A predicate that fixes the value of a key selects at most one row. -/
def Schema.Key (S : Schema ρ) (p : ρ → Bool) : Prop :=
  ∀ a b, p a = true → p b = true → S.conflict a b = true

theorem Schema.Key.mono {p q : ρ → Bool} (hq : S.Key q)
    (h : ∀ r, p r = true → q r = true) : S.Key p :=
  fun a b ha hb => hq a b (h a ha) (h b hb)

namespace Table

theorem mem_rows {t : Table S} {r : ρ} : r ∈ t.rows ↔ r ∈ t := Iff.rfl

def empty (S : Schema ρ) : Table S := ⟨[], by simp, List.Pairwise.nil⟩

@[simp] theorem not_mem_empty (r : ρ) : r ∉ Table.empty S := by
  simp [← mem_rows, empty]

/-- The rows a query returns, in table order. -/
def select (t : Table S) (p : ρ → Bool) : List ρ := t.rows.filter p

/-- A query for one optional row. -/
def selectRow (t : Table S) (p : ρ → Bool) : Option ρ := t.rows.find? p

/-- Whether some row satisfies the predicate. -/
def any (t : Table S) (p : ρ → Bool) : Bool := t.rows.any p

/-- The number of rows a statement with this condition touches. -/
def count (t : Table S) (p : ρ → Bool) : Nat := (t.rows.filter p).length

/-- Insert one row, failing on a check or a key conflict. -/
def insert (t : Table S) (r : ρ) : Option (Table S) :=
  if h : S.check r = true ∧ ∀ x ∈ t.rows, S.conflict x r = false then
    some
      { rows := t.rows ++ [r]
        checked := by
          intro x hx
          rcases List.mem_append.mp hx with hold | hnew
          · exact t.checked x hold
          · rw [List.mem_singleton.mp hnew]
            exact h.1
        distinct := by
          rw [List.pairwise_append]
          refine ⟨t.distinct, List.pairwise_singleton _ _, ?_⟩
          intro x hx y hy
          rw [List.mem_singleton.mp hy]
          exact h.2 x hx }
  else none

/-- Insert one row unless a row with the same value of a key is present. A
conflict on any other key is still an error. -/
def insertOrIgnore (t : Table S) (sameKey : ρ → Bool) (r : ρ) : Option (Table S) :=
  if t.rows.any sameKey then
    if S.check r then some t else none
  else t.insert r

/-- Insert one row, skipping it when any constraint stands against it. -/
def insertOrSkip (t : Table S) (r : ρ) : Table S := (t.insert r).getD t

/-- Insert the rows of a list one after another; the first failure fails all. -/
def insertAll (t : Table S) (rows : List ρ) : Option (Table S) := rows.foldlM insert t

/-- Rewrite every row satisfying `p`, failing when the result breaks a
constraint. -/
def update (t : Table S) (p : ρ → Bool) (f : ρ → ρ) : Option (Table S) :=
  let rows := t.rows.map fun r => if p r then f r else r
  if h : (∀ r ∈ rows, S.check r = true) ∧ rows.Pairwise fun a b => S.conflict a b = false then
    some ⟨rows, h.1, h.2⟩
  else none

/-- Insert one row, or rewrite the rows with the same value of a key. -/
def upsert (t : Table S) (sameKey : ρ → Bool) (r : ρ) (f : ρ → ρ) : Option (Table S) :=
  if t.rows.any sameKey then t.update sameKey f else t.insert r

/-- Insert or rewrite one row for each entry of a list, one after another. -/
def upsertAll {κ : Type u} (t : Table S) (sameKey : κ → ρ → Bool) (row : κ → ρ) (entries : List κ) :
    Option (Table S) :=
  entries.foldlM (fun t entry => t.upsert (sameKey entry) (row entry) fun _ => row entry) t

def delete (t : Table S) (p : ρ → Bool) : Table S where
  rows := t.rows.filter fun r => !p r
  checked := fun r hr => t.checked r (List.mem_of_mem_filter hr)
  distinct := t.distinct.sublist List.filter_sublist

/-- The sum of a quantity over all rows. -/
def total (t : Table S) (g : ρ → Nat) : Nat := (t.rows.map g).sum

section Membership

variable {t t' : Table S} {p : ρ → Bool} {f : ρ → ρ} {r x : ρ}

theorem mem_insert (h : t.insert r = some t') : x ∈ t' ↔ x ∈ t ∨ x = r := by
  unfold insert at h
  split at h
  · obtain rfl := Option.some.inj h
    simp [← mem_rows]
  · cases h

theorem insert_no_conflict (h : t.insert r = some t') (hx : x ∈ t) :
    S.conflict x r = false := by
  unfold insert at h
  split at h
  · rename_i hok
    exact hok.2 x hx
  · cases h

theorem insert_self (h : t.insert r = some t') : r ∈ t' :=
  (mem_insert h).mpr (Or.inr rfl)

theorem mem_insertAll {rows : List ρ} (h : t.insertAll rows = some t') :
    x ∈ t' ↔ x ∈ t ∨ x ∈ rows := by
  induction rows generalizing t with
  | nil =>
    obtain rfl := Option.some.inj h
    simp
  | cons r rest ih =>
    obtain ⟨t₁, hinsert, hrest⟩ := Option.bind_eq_some_iff.mp h
    rw [ih hrest, mem_insert hinsert, List.mem_cons]
    tauto

theorem rows_update (h : t.update p f = some t') :
    t'.rows = t.rows.map fun r => if p r then f r else r := by
  simp only [update] at h
  split at h
  · obtain rfl := Option.some.inj h
    rfl
  · cases h

theorem mem_update (h : t.update p f = some t') :
    x ∈ t' ↔ ∃ y ∈ t, x = if p y then f y else y := by
  simp only [← mem_rows, rows_update h, List.mem_map, eq_comm]

/-- A row the condition leaves alone is still there. -/
theorem mem_update_of_not (h : t.update p f = some t') (hx : x ∈ t) (hp : p x = false) :
    x ∈ t' :=
  (mem_update h).mpr ⟨x, hx, by simp [hp]⟩

/-- A row the condition selects is replaced by its image. -/
theorem mem_update_of_pos (h : t.update p f = some t') (hx : x ∈ t) (hp : p x = true) :
    f x ∈ t' :=
  (mem_update h).mpr ⟨x, hx, by simp [hp]⟩

@[simp] theorem mem_delete : x ∈ t.delete p ↔ x ∈ t ∧ p x = false := by
  simp [← mem_rows, delete]

theorem check_of_mem (h : x ∈ t) : S.check x = true := t.checked x h

theorem insertOrIgnore_cases (h : t.insertOrIgnore p r = some t') :
    (t' = t ∧ ∃ x ∈ t, p x = true) ∨
      ((∀ x ∈ t, p x = false) ∧ t.insert r = some t') := by
  unfold insertOrIgnore at h
  split at h
  · rename_i hany
    obtain ⟨y, hy, hp⟩ := List.any_eq_true.mp hany
    split at h
    · exact Or.inl ⟨(Option.some.inj h).symm, y, hy, hp⟩
    · cases h
  · rename_i hany
    refine Or.inr ⟨?_, h⟩
    intro y hy
    simpa using fun hp => hany (List.any_eq_true.mpr ⟨y, hy, hp⟩)

end Membership

section Selection

variable {t : Table S} {p : ρ → Bool} {a b r : ρ}

theorem eq_of_conflict (ha : a ∈ t) (hb : b ∈ t) (h : S.conflict a b = true) : a = b := by
  by_contra hne
  have : Std.Symm fun x y : ρ => S.conflict x y = false :=
    ⟨fun x y hxy => (S.conflict_symm y x).trans hxy⟩
  have hfalse := t.distinct.forall ha hb hne
  rw [h] at hfalse
  cases hfalse

theorem eq_of_key (hkey : S.Key p) (ha : a ∈ t) (hb : b ∈ t)
    (hpa : p a = true) (hpb : p b = true) : a = b :=
  eq_of_conflict ha hb (hkey a b hpa hpb)

theorem selectRow_mem (h : t.selectRow p = some r) : r ∈ t ∧ p r = true :=
  ⟨List.mem_of_find?_eq_some h, List.find?_some h⟩

theorem selectRow_eq_some (hkey : S.Key p) :
    t.selectRow p = some r ↔ r ∈ t ∧ p r = true := by
  constructor
  · exact selectRow_mem
  · rintro ⟨hr, hp⟩
    cases h : t.selectRow p with
    | none =>
      have := List.find?_eq_none.mp h r hr
      simp [hp] at this
    | some s =>
      obtain ⟨hs, hps⟩ := selectRow_mem h
      rw [eq_of_key hkey hs hr hps hp]

theorem selectRow_eq_none : t.selectRow p = none ↔ ∀ r ∈ t, p r = false := by
  simp [selectRow, List.find?_eq_none, ← mem_rows]

theorem any_eq_true : t.any p = true ↔ ∃ r ∈ t, p r = true := by
  simp [any, List.any_eq_true, ← mem_rows]

theorem any_eq_false : t.any p = false ↔ ∀ r ∈ t, p r = false := by
  simp [any, List.any_eq_false, ← mem_rows]

theorem mem_select : r ∈ t.select p ↔ r ∈ t ∧ p r = true := by
  simp [select, ← mem_rows]

/-- A key selects exactly one row once it selects some. -/
theorem count_eq_one (hkey : S.Key p) (hr : r ∈ t) (hp : p r = true) : t.count p = 1 := by
  have hmem : r ∈ t.rows.filter p := List.mem_filter.mpr ⟨hr, hp⟩
  have hdistinct : (t.rows.filter p).Pairwise fun a b => S.conflict a b = false :=
    t.distinct.sublist List.filter_sublist
  unfold count
  match hrows : t.rows.filter p with
  | [] => simp [hrows] at hmem
  | [_] => rfl
  | a :: b :: rest =>
    rw [hrows, List.pairwise_cons] at hdistinct
    have ha : a ∈ t.rows.filter p := by simp [hrows]
    have hb : b ∈ t.rows.filter p := by simp [hrows]
    have hconflict := hkey a b (List.mem_filter.mp ha).2 (List.mem_filter.mp hb).2
    rw [hdistinct.1 b List.mem_cons_self] at hconflict
    cases hconflict

/-- An update that keeps every key and every check succeeds. -/
theorem update_succeeds {f : ρ → ρ} (hcheck : ∀ s ∈ t, p s = true → S.check (f s) = true)
    (hkeys : ∀ a b, S.conflict (if p a then f a else a) (if p b then f b else b) = S.conflict a b) :
    ∃ t', t.update p f = some t' := by
  unfold update
  refine ⟨_, dif_pos ⟨?_, ?_⟩⟩
  · intro s hs
    obtain ⟨o, ho, rfl⟩ := List.mem_map.mp hs
    split
    · rename_i hpo
      exact hcheck o ho hpo
    · exact t.checked o ho
  · rw [List.pairwise_map]
    exact t.distinct.imp fun {a b} hab => (hkeys a b).trans hab

theorem count_pos (h : t.count p ≠ 0) : ∃ r ∈ t, p r = true := by
  obtain ⟨r, hr⟩ := List.exists_mem_of_length_pos (Nat.pos_of_ne_zero h)
  exact ⟨r, List.mem_of_mem_filter hr, (List.mem_filter.mp hr).2⟩

end Selection

section Replacement

variable {t : Table S} {p q : ρ → Bool} {f : ρ → ρ} {r : ρ}

private theorem key_iff (hkey : S.Key p) (hr : r ∈ t) (hp : p r = true)
    (hq : ∀ s, q s = true → p s = true) (hqr : q r = true) {s : ρ} (hs : s ∈ t.rows) :
    q s = p s := by
  by_cases hps : p s = true
  · rw [hps, eq_of_key hkey hs hr hps hp, hqr]
  · have hqs : ¬ q s = true := fun hqs => hps (hq s hqs)
    simp only [Bool.not_eq_true] at hps hqs
    rw [hps, hqs]

/-- A guarded update of the one row a key selects replaces that row. -/
theorem update_eq_replace (hkey : S.Key p) (hr : r ∈ t) (hp : p r = true)
    (hq : ∀ s, q s = true → p s = true) (hqr : q r = true) :
    t.update q f = t.update p fun _ => f r := by
  have hrows : (t.rows.map fun s => if q s then f s else s) =
      t.rows.map fun s => if p s then f r else s := by
    apply List.map_congr_left
    intro s hs
    rw [key_iff hkey hr hp hq hqr hs]
    by_cases hps : p s = true
    · simp only [hps, if_true]
      rw [eq_of_key hkey hs hr hps hp]
    · simp [hps]
  simp only [update, hrows]

/-- A guarded delete of the one row a key selects deletes by that key. -/
theorem delete_eq_delete (hkey : S.Key p) (hr : r ∈ t) (hp : p r = true)
    (hq : ∀ s, q s = true → p s = true) (hqr : q r = true) : t.delete q = t.delete p := by
  apply Table.ext
  apply List.filter_congr
  intro s hs
  rw [key_iff hkey hr hp hq hqr hs]

/-- After a replacement the new row is the only one the key can select. -/
theorem mem_replace {t' : Table S} {r' : ρ} (h : t.update p (fun _ => r') = some t') {s : ρ} :
    s ∈ t' ↔ (s ∈ t ∧ p s = false) ∨ (s = r' ∧ ∃ o ∈ t, p o = true) := by
  rw [mem_update h]
  constructor
  · rintro ⟨o, ho, rfl⟩
    by_cases hp : p o = true
    · exact Or.inr ⟨by simp [hp], o, ho, hp⟩
    · simp only [Bool.not_eq_true] at hp
      exact Or.inl (by simpa [hp] using ho)
  · rintro (⟨hs, hp⟩ | ⟨rfl, o, ho, hp⟩)
    · exact ⟨s, hs, by simp [hp]⟩
    · exact ⟨o, ho, by simp [hp]⟩

/-- Only what an update does to the rows it selects matters. -/
theorem update_congr {g : ρ → ρ} (h : ∀ s ∈ t, p s = true → f s = g s) :
    t.update p f = t.update p g := by
  have hrows : (t.rows.map fun s => if p s then f s else s) =
      t.rows.map fun s => if p s then g s else s := by
    apply List.map_congr_left
    intro s hs
    split
    · rename_i hp
      exact h s hs hp
    · rfl
  simp only [update, hrows]

theorem upsert_congr {g : ρ → ρ} (h : ∀ s ∈ t, p s = true → f s = g s) :
    t.upsert p r f = t.upsert p r g := by
  rw [upsert, upsert, update_congr h]

/-- A key that an update leaves alone selects the updated row. -/
theorem selectRow_update {t' : Table S} {q : ρ → Bool} (h : t.update p f = some t')
    (hq : ∀ s, q (f s) = q s) :
    t'.selectRow q = (t.selectRow q).map fun s => if p s then f s else s := by
  have hsame : (q ∘ fun s => if p s then f s else s) = q := by
    funext s
    rw [Function.comp_apply]
    split
    · exact hq s
    · rfl
  rw [selectRow, rows_update h, List.find?_map, hsame, selectRow]

/-- A deletion that spares the rows a query can select does not change its answer. -/
theorem selectRow_delete_of_not {q : ρ → Bool} (h : ∀ s ∈ t, q s = true → p s = false) :
    (t.delete p).selectRow q = t.selectRow q := by
  rw [selectRow, delete, List.find?_filter, selectRow]
  apply List.find?_congr
  intro s hs
  by_cases hqs : q s = true
  · simp [hqs, h s hs hqs]
  · simp [hqs]

theorem selectRow_delete_of_pos {q : ρ → Bool} (h : ∀ s ∈ t, q s = true → p s = true) :
    (t.delete p).selectRow q = none := by
  rw [selectRow_eq_none]
  intro s hs
  rw [mem_delete] at hs
  by_contra hqs
  rw [Bool.not_eq_false] at hqs
  rw [h s hs.1 hqs] at hs
  cases hs.2

/-- A key selects the row it selected before the deletion, if that is not deleted. -/
theorem selectRow_delete {q : ρ → Bool} (hkey : S.Key q) :
    (t.delete p).selectRow q = (t.selectRow q).filter fun s => !p s := by
  cases hrow : t.selectRow q with
  | none =>
    rw [selectRow_eq_none] at hrow
    apply selectRow_eq_none.mpr
    intro s hs
    exact hrow s (mem_delete.mp hs).1
  | some r =>
    obtain ⟨hr, hq⟩ := selectRow_mem hrow
    have hown : ∀ s ∈ t, q s = true → s = r := fun s hs hqs => eq_of_key hkey hs hr hqs hq
    rw [Option.filter_some]
    cases hp : p r with
    | false =>
      rw [selectRow_delete_of_not fun s hs hqs => by rw [hown s hs hqs, hp], hrow]
      rfl
    | true =>
      rw [selectRow_delete_of_pos fun s hs hqs => by rw [hown s hs hqs, hp]]
      rfl

/-- After an upsert the new row is the only one with its key. -/
theorem mem_upsert {t' : Table S} {r' s : ρ} (h : t.upsert p r' (fun _ => r') = some t') :
    s ∈ t' ↔ (s ∈ t ∧ p s = false) ∨ s = r' := by
  unfold upsert at h
  split at h
  · rename_i hany
    obtain ⟨o, ho, hp⟩ := List.any_eq_true.mp hany
    rw [mem_replace h]
    constructor
    · rintro (hold | ⟨hnew, -⟩)
      · exact Or.inl hold
      · exact Or.inr hnew
    · rintro (hold | hnew)
      · exact Or.inl hold
      · exact Or.inr ⟨hnew, o, ho, hp⟩
  · rename_i hany
    have hnone : ∀ o ∈ t, p o = false := by
      intro o ho
      by_contra hp
      exact hany (List.any_eq_true.mpr ⟨o, ho, by simpa using hp⟩)
    rw [mem_insert h]
    constructor
    · rintro (hold | hnew)
      · exact Or.inl ⟨hold, hnone s hold⟩
      · exact Or.inr hnew
    · rintro (⟨hold, -⟩ | hnew)
      · exact Or.inl hold
      · exact Or.inr hnew

/-- Upserting entries of different keys leaves one row for each and keeps the rows of
all other keys. -/
theorem mem_upsertAll {κ : Type u} {t' : Table S} {sameKey : κ → ρ → Bool} {row : κ → ρ}
    {entries : List κ} {s : ρ}
    (hdistinct : entries.Pairwise fun a b => sameKey b (row a) = false)
    (h : t.upsertAll sameKey row entries = some t') :
    s ∈ t' ↔ (s ∈ t ∧ ∀ entry ∈ entries, sameKey entry s = false) ∨
      ∃ entry ∈ entries, s = row entry := by
  induction entries generalizing t with
  | nil =>
    obtain rfl := Option.some.inj h
    simp
  | cons first rest ih =>
    obtain ⟨t₁, hfirst, hrest⟩ := Option.bind_eq_some_iff.mp h
    obtain ⟨hothers, hpairwise⟩ := List.pairwise_cons.mp hdistinct
    rw [ih hpairwise hrest, mem_upsert hfirst]
    simp only [List.forall_mem_cons, List.exists_mem_cons_iff]
    constructor
    · rintro (⟨⟨hold, hkey⟩ | hnew, hkeys⟩ | hlater)
      · exact Or.inl ⟨hold, hkey, hkeys⟩
      · exact Or.inr (Or.inl hnew)
      · exact Or.inr (Or.inr hlater)
    · rintro (⟨hold, hkey, hkeys⟩ | hnew | hlater)
      · exact Or.inl ⟨Or.inl ⟨hold, hkey⟩, hkeys⟩
      · exact Or.inl ⟨Or.inr hnew, hnew ▸ hothers⟩
      · exact Or.inr hlater

/-- Inserting rows that are valid and conflict with nothing but themselves adds them
all. -/
theorem mem_insertOrSkip {s : ρ} (hcheck : S.check r = true)
    (hself : ∀ o ∈ t, S.conflict o r = true → o = r) : s ∈ t.insertOrSkip r ↔ s ∈ t ∨ s = r := by
  unfold insertOrSkip
  cases hinsert : t.insert r with
  | some t' => exact mem_insert hinsert
  | none =>
    have hpresent : r ∈ t := by
      unfold insert at hinsert
      split at hinsert
      · cases hinsert
      · rename_i hfails
        by_contra habsent
        refine hfails ⟨hcheck, fun o ho => ?_⟩
        by_contra hconflict
        rw [Bool.not_eq_false] at hconflict
        exact habsent (hself o ho hconflict ▸ ho)
    rw [Option.getD_none]
    constructor
    · exact Or.inl
    · rintro (hold | rfl)
      · exact hold
      · exact hpresent

theorem mem_insertOrSkipAll {rows : List ρ} {s : ρ} (hcheck : ∀ r ∈ rows, S.check r = true)
    (hself : ∀ o, o ∈ t ∨ o ∈ rows → ∀ r ∈ rows, S.conflict o r = true → o = r) :
    s ∈ rows.foldl insertOrSkip t ↔ s ∈ t ∨ s ∈ rows := by
  induction rows generalizing t with
  | nil => simp
  | cons first rest ih =>
    have hmem : ∀ {o}, o ∈ t.insertOrSkip first ↔ o ∈ t ∨ o = first :=
      mem_insertOrSkip (hcheck first List.mem_cons_self)
        fun o ho => hself o (Or.inl ho) first List.mem_cons_self
    rw [List.foldl_cons, ih, hmem, List.mem_cons, or_assoc]
    · exact fun r hr => hcheck r (List.mem_cons_of_mem _ hr)
    · intro o ho r hr
      refine hself o ?_ r (List.mem_cons_of_mem _ hr)
      rw [hmem] at ho
      rw [List.mem_cons]
      tauto

end Replacement

section Totals

variable {t t' : Table S} {p : ρ → Bool} {f : ρ → ρ} {g : ρ → Nat} {r : ρ}

theorem total_insert (h : t.insert r = some t') : t'.total g = t.total g + g r := by
  unfold insert at h
  split at h
  · obtain rfl := Option.some.inj h
    simp [total]
  · cases h

private theorem sum_split_update (rows : List ρ) (hr : r ∈ rows)
    (honly : ∀ x ∈ rows, p x = true → x = r) (hp : p r = true)
    (hnodup : rows.Nodup) :
    (rows.map fun x => g (if p x then f x else x)).sum + g r =
      (rows.map g).sum + g (f r) := by
  induction rows with
  | nil => cases hr
  | cons x rest ih =>
    obtain ⟨hfresh, hrest⟩ := List.nodup_cons.mp hnodup
    rcases List.mem_cons.mp hr with rfl | hmem
    · have hsame : (rest.map fun y => g (if p y then f y else y)) = rest.map g := by
        apply List.map_congr_left
        intro y hy
        have hpy : p y = false := by
          by_contra hpy
          have := honly y (List.mem_cons_of_mem _ hy) (by simpa using hpy)
          exact hfresh (this ▸ hy)
        simp [hpy]
      simp only [List.map_cons, List.sum_cons, hsame, hp, if_true]
      omega
    · have hne : p x = false := by
        by_contra hpx
        have := honly x List.mem_cons_self (by simpa using hpx)
        exact hfresh (this ▸ hmem)
      have := ih hmem (fun y hy => honly y (List.mem_cons_of_mem _ hy)) hrest
      simp only [List.map_cons, List.sum_cons, hne, Bool.false_eq_true, if_false]
      omega

private theorem sum_split_delete (rows : List ρ) (hr : r ∈ rows)
    (honly : ∀ x ∈ rows, p x = true → x = r) (hp : p r = true)
    (hnodup : rows.Nodup) :
    ((rows.filter fun x => !p x).map g).sum + g r = (rows.map g).sum := by
  induction rows with
  | nil => cases hr
  | cons x rest ih =>
    obtain ⟨hfresh, hrest⟩ := List.nodup_cons.mp hnodup
    rcases List.mem_cons.mp hr with rfl | hmem
    · have hkeep : (rest.filter fun y => !p y) = rest := by
        apply List.filter_eq_self.mpr
        intro y hy
        by_contra hpy
        have := honly y (List.mem_cons_of_mem _ hy) (by simpa using hpy)
        exact hfresh (this ▸ hy)
      simp only [List.filter_cons, hp, Bool.not_true, Bool.false_eq_true, if_false, hkeep,
        List.map_cons, List.sum_cons]
      omega
    · have hne : p x = false := by
        by_contra hpx
        have := honly x List.mem_cons_self (by simpa using hpx)
        exact hfresh (this ▸ hmem)
      have := ih hmem (fun y hy => honly y (List.mem_cons_of_mem _ hy)) hrest
      simp only [List.filter_cons, hne, Bool.not_false, if_true, List.map_cons, List.sum_cons]
      omega

/-- Two rows at different positions never conflict, so a table whose rows
conflict with themselves holds each of them once. -/
theorem nodup (hself : ∀ a, S.conflict a a = true) (t : Table S) : t.rows.Nodup := by
  refine t.distinct.imp ?_
  rintro a b hab rfl
  rw [hself a] at hab
  cases hab

/-- Updating the one row a key selects exchanges its share of the total. -/
theorem total_update (hself : ∀ a, S.conflict a a = true) (hkey : S.Key p)
    (hr : r ∈ t) (hp : p r = true) (h : t.update p f = some t') :
    t'.total g + g r = t.total g + g (f r) := by
  simp only [total, rows_update h, List.map_map]
  exact sum_split_update t.rows hr (fun x hx hpx => eq_of_key hkey hx hr hpx hp) hp
    (t.nodup hself)

/-- Deleting the one row a key selects removes its share of the total. -/
theorem total_delete (hself : ∀ a, S.conflict a a = true) (hkey : S.Key p)
    (hr : r ∈ t) (hp : p r = true) : (t.delete p).total g + g r = t.total g :=
  sum_split_delete t.rows hr (fun _ hx hpx => eq_of_key hkey hx hr hpx hp) hp (t.nodup hself)

theorem total_eq_zero (h : ∀ x ∈ t, g x = 0) : t.total g = 0 := by
  apply List.sum_eq_zero
  intro n hn
  obtain ⟨x, hx, rfl⟩ := List.mem_map.mp hn
  exact h x hx

theorem le_total (hr : r ∈ t) : g r ≤ t.total g :=
  List.single_le_sum (fun _ _ => Nat.zero_le _) _ (List.mem_map_of_mem hr)

end Totals

section Order

variable {t : Table S} {p : ρ → Bool}

/-- Rows listed by a strictly increasing quantity are what a query for them, ordered by
that quantity, returns. -/
theorem select_ordered (hself : ∀ a, S.conflict a a = true) {rows : List ρ}
    {rank : ρ → Nat} (hmem : ∀ r, r ∈ t ∧ p r = true ↔ r ∈ rows)
    (hrank : rows.Pairwise fun a b => rank a < rank b) :
    ((t.select p).insertionSort fun a b => rank a ≤ rank b) = rows := by
  have hranks : (rows.map rank).Nodup := by
    rw [List.Nodup, List.pairwise_map]
    exact hrank.imp Nat.ne_of_lt
  have hperm : ((t.select p).insertionSort fun a b => rank a ≤ rank b).Perm rows := by
    apply (List.perm_insertionSort _ _).trans
    apply (List.perm_ext_iff_of_nodup ((t.nodup hself).filter _) hranks.of_map).mpr
    intro r
    rw [← hmem]
    exact mem_select
  apply hperm.eq_of_pairwise
  · intro a b ha hb hab hba
    exact List.inj_on_of_nodup_map hranks (hperm.mem_iff.mp ha) hb (Nat.le_antisymm hab hba)
  · have : Std.Total fun a b : ρ => rank a ≤ rank b := ⟨fun a b => Nat.le_total _ _⟩
    have : IsTrans ρ fun a b => rank a ≤ rank b := ⟨fun a b c => Nat.le_trans⟩
    exact List.pairwise_insertionSort _ _
  · exact hrank.imp Nat.le_of_lt

/-- Tables with the same rows of a query return them in the same order, if no two of these
rows share their rank. -/
theorem select_ordered_congr (hself : ∀ a, S.conflict a a = true) {t' : Table S} {rank : ρ → Nat}
    (hmem : ∀ r, p r = true → (r ∈ t ↔ r ∈ t'))
    (hrank : ∀ a b, p a = true → p b = true → rank a = rank b → S.conflict a b = true) :
    ((t.select p).insertionSort fun a b => rank a ≤ rank b) =
      (t'.select p).insertionSort fun a b => rank a ≤ rank b := by
  have hperm : ((t.select p).insertionSort fun a b => rank a ≤ rank b).Perm
      ((t'.select p).insertionSort fun a b => rank a ≤ rank b) := by
    apply (List.perm_insertionSort _ _).trans
    apply List.Perm.trans _ (List.perm_insertionSort _ _).symm
    apply (List.perm_ext_iff_of_nodup ((t.nodup hself).filter _) ((t'.nodup hself).filter _)).mpr
    intro r
    by_cases hp : p r = true
    · rw [List.mem_filter, List.mem_filter]
      exact and_congr_left fun _ => hmem r hp
    · simp [hp]
  have : Std.Total fun a b : ρ => rank a ≤ rank b := ⟨fun a b => Nat.le_total _ _⟩
  have : IsTrans ρ fun a b => rank a ≤ rank b := ⟨fun a b c => Nat.le_trans⟩
  apply hperm.eq_of_pairwise
  · intro a b ha hb hab hba
    obtain ⟨hmemA, hpA⟩ := mem_select.mp ((List.perm_insertionSort _ _).mem_iff.mp ha)
    obtain ⟨hmemB, hpB⟩ := mem_select.mp
      ((List.perm_insertionSort _ _).mem_iff.mp (hperm.symm.mem_iff.mp hb))
    exact eq_of_conflict hmemA hmemB (hrank a b hpA hpB (Nat.le_antisymm hab hba))
  · exact List.pairwise_insertionSort _ _
  · exact List.pairwise_insertionSort _ _

end Order

end Table

end Relational
