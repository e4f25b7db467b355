import NwcMobile.Foundations.Table

/-!
Schemas that grow. What a version of a schema adds, a column or a whole table, is absent
before that version and present from it on, so a row of an old version has no cell to
invent. Going up one version fills what that version adds and keeps the rest; what many
such steps leave is already decided by the version they started from.
-/

namespace Relational

universe u v

/-- What schema version `since` adds, at schema version `version`. -/
inductive Added (since version : Nat) (α : Type u) : Type u where
  | absent (before : version < since)
  | present (reached : since ≤ version) (value : α)
deriving DecidableEq

namespace Added

variable {since version : Nat} {α : Type u} {β : Type v}

/-- Go up one version: what that version adds is created with `fill`. -/
def next (fill : α) : Added since version α → Added since (version + 1) α
  | absent before =>
    if created : since = version + 1 then present (by omega) fill else absent (by omega)
  | present reached value => present (by omega) value

/-- The same where computing the initial contents may fail. -/
def create (fill : Option α) : Added since version α → Option (Added since (version + 1) α)
  | absent before =>
    if created : since = version + 1 then fill.map (present (by omega))
    else some (absent (by omega))
  | present reached value => some (present (by omega) value)

/-- The value, or what creating it would fill in. -/
def filled (fill : α) : Added since version α → α
  | absent _ => fill
  | present _ value => value

def map (f : α → β) : Added since version α → Added since version β
  | absent before => absent before
  | present reached value => present reached (f value)

/-- A check on a column holds where there is a column. -/
def All (p : α → Prop) : Added since version α → Prop
  | absent _ => True
  | present _ value => p value

instance (p : α → Prop) [DecidablePred p] : (c : Added since version α) → Decidable (c.All p)
  | absent _ => inferInstanceAs (Decidable True)
  | present _ value => inferInstanceAs (Decidable (p value))

variable {c : Added since version α} {fill : α} {p : α → Prop}

/-- Creating a part on the way changes nothing about what it is filled with. -/
@[simp] theorem filled_next : (c.next fill).filled fill = c.filled fill := by
  cases c with
  | absent before =>
    simp only [next]
    split <;> rfl
  | present reached value => rfl

@[simp] theorem filled_map {f : α → β} : (c.map f).filled (f fill) = f (c.filled fill) := by
  cases c <;> rfl

theorem all_next (h : c.All p) (hfill : p fill) : (c.next fill).All p := by
  cases c with
  | absent before =>
    simp only [next]
    split
    · exact hfill
    · trivial
  | present reached value => exact h

theorem All.filled (h : c.All p) (hfill : p fill) : p (c.filled fill) := by
  cases c with
  | absent before => exact hfill
  | present reached value => exact h

end Added

variable {ρ σ : Type u} {S : Schema ρ} {S' : Schema σ} {f : ρ → σ}

/-- A change of the shape of a table's rows under which the checks and the keys carry over. -/
structure Schema.Carries (S : Schema ρ) (S' : Schema σ) (f : ρ → σ) : Prop where
  check : ∀ r, S.check r = true → S'.check (f r) = true
  conflict : ∀ a b, S'.conflict (f a) (f b) = S.conflict a b

namespace Table

/-- Give every row its next shape. -/
def mapRows (h : S.Carries S' f) (t : Table S) : Table S' where
  rows := t.rows.map f
  checked := by
    intro s hs
    obtain ⟨r, hr, rfl⟩ := List.mem_map.mp hs
    exact h.check r (t.checked r hr)
  distinct := by
    rw [List.pairwise_map]
    exact t.distinct.imp fun hab => (h.conflict _ _).trans hab

/-- Rows that pass the check and clash with nothing are all inserted. -/
theorem insertAll_succeeds {t : Table S} {rows : List ρ}
    (hcheck : ∀ r ∈ rows, S.check r = true)
    (hdistinct : rows.Pairwise fun a b => S.conflict a b = false)
    (hnew : ∀ s ∈ t, ∀ r ∈ rows, S.conflict s r = false) :
    ∃ t', t.insertAll rows = some t' ∧ t'.rows = t.rows ++ rows := by
  induction rows generalizing t with
  | nil => exact ⟨t, rfl, by simp⟩
  | cons r rest ih =>
    rw [List.pairwise_cons] at hdistinct
    obtain ⟨t₁, hinsert, hrows⟩ : ∃ t₁, t.insert r = some t₁ ∧ t₁.rows = t.rows ++ [r] := by
      refine ⟨_, dif_pos ⟨hcheck r List.mem_cons_self, ?_⟩, rfl⟩
      intro s hs
      exact hnew s hs r List.mem_cons_self
    have hrest : ∃ t', t₁.insertAll rest = some t' ∧ t'.rows = t₁.rows ++ rest := by
      apply ih (fun s hs => hcheck s (List.mem_cons_of_mem _ hs)) hdistinct.2
      intro s hs s' hs'
      rcases (mem_insert hinsert).mp hs with hold | rfl
      · exact hnew s hold s' (List.mem_cons_of_mem _ hs')
      · exact hdistinct.1 s' hs'
    obtain ⟨t', ht', hrows'⟩ := hrest
    refine ⟨t', Option.bind_eq_some_iff.mpr ⟨t₁, hinsert, ht'⟩, ?_⟩
    simp [hrows', hrows]

end Table

namespace Added

variable {since version : Nat}

/-- The rows of a table; a table that is not there yet has none. -/
def rows (t : Added since version (Table S)) : List ρ := (t.map Table.rows).filled []

/-- Go up one version with a table: every row takes its next shape, and the table is
created empty when its time has come. -/
def grow (h : S.Carries S' f) (t : Added since version (Table S)) :
    Added since (version + 1) (Table S') :=
  (t.map (Table.mapRows h)).next (.empty S')

@[simp] theorem rows_grow (h : S.Carries S' f) (t : Added since version (Table S)) :
    (t.grow h).rows = t.rows.map f := by
  cases t with
  | absent before =>
    simp only [grow, map, next]
    split <;> rfl
  | present reached t => rfl

@[simp] theorem rows_next (t : Added since version (Table S)) :
    (t.next (.empty S)).rows = t.rows := by
  cases t with
  | absent before =>
    simp only [next]
    split <;> rfl
  | present reached t => rfl

/-- The table with every row in its current shape. -/
def read (h : S.Carries S' f) (t : Added since version (Table S)) : Table S' :=
  (t.map (Table.mapRows h)).filled (.empty S')

@[simp] theorem rows_read (h : S.Carries S' f) (t : Added since version (Table S)) :
    (t.read h).rows = t.rows.map f := by
  cases t <;> rfl

@[simp] theorem rows_filled (t : Added since version (Table S)) :
    (t.filled (.empty S)).rows = t.rows := by
  cases t <;> rfl

end Added

end Relational
