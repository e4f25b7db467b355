import Mathlib.Tactic

/-!
Computations that may fail with an error of a fixed type. A store operation
written in this style reads its inputs, checks its guards and returns the next
state only on its last line, so an early error leaves the caller's state as it
was. The inversion lemmas below peel such a computation apart one bind at a
time; no proof about an operation has to unfold the error monad.
-/

namespace Fallible

universe u v

variable {ε : Type u} {α β : Type v}

/-- Continue only when `condition` holds. -/
def ensure (condition : Bool) (error : ε) : Except ε Unit :=
  if condition then .ok () else .error error

/-- The value of an optional lookup, or `error` when there is none. -/
def okOr (value : Option α) (error : ε) : Except ε α :=
  match value with
  | some a => .ok a
  | none => .error error

/-- Replace whatever error a computation fails with. -/
def mapErr {δ : Type u} (x : Except δ α) (error : ε) : Except ε α :=
  match x with
  | .ok a => .ok a
  | .error _ => .error error

@[simp] theorem bind_eq_ok {x : Except ε α} {f : α → Except ε β} {b : β} :
    (x >>= f) = .ok b ↔ ∃ a, x = .ok a ∧ f a = .ok b := by
  cases x with
  | error e => simp [bind, Except.bind]
  | ok a => simp [bind, Except.bind]

@[simp] theorem pure_eq_ok {a b : α} : (pure a : Except ε α) = .ok b ↔ a = b := by
  simp [pure, Except.pure]

@[simp] theorem ok_bind (a : α) (f : α → Except ε β) : (Except.ok a >>= f) = f a := rfl

@[simp] theorem error_bind (e : ε) (f : α → Except ε β) :
    (Except.error e >>= f) = .error e := rfl

theorem map_bind_eq {γ : Type v} (x : Except ε α) (f : α → Except ε β) (g : β → γ) :
    (x >>= f).map g = x >>= fun a => (f a).map g := by
  cases x <;> rfl

@[simp] theorem ensure_eq_ok {condition : Bool} {error : ε} {done : Unit} :
    ensure condition error = .ok done ↔ condition = true := by
  cases condition <;> simp [ensure]

@[simp] theorem ensure_eq_error {condition : Bool} {error e : ε} :
    ensure condition error = .error e ↔ condition = false ∧ error = e := by
  cases condition <;> simp [ensure]

@[simp] theorem okOr_eq_ok {value : Option α} {error : ε} {a : α} :
    okOr value error = .ok a ↔ value = some a := by
  cases value <;> simp [okOr]

@[simp] theorem okOr_eq_error {value : Option α} {error e : ε} :
    okOr value error = .error e ↔ value = none ∧ error = e := by
  cases value <;> simp [okOr]

@[simp] theorem mapErr_eq_ok {δ : Type u} {x : Except δ α} {error : ε} {a : α} :
    mapErr x error = .ok a ↔ x = .ok a := by
  cases x <;> simp [mapErr]

@[simp] theorem mapErr_eq_error {δ : Type u} {x : Except δ α} {error e : ε} :
    mapErr x error = .error e ↔ (∃ d, x = .error d) ∧ error = e := by
  cases x <;> simp [mapErr]

theorem option_mapM_eq_some {o : Option α} {f : α → Except ε β} {b : β} :
    o.mapM f = .ok (some b) ↔ ∃ a, o = some a ∧ f a = .ok b := by
  cases o with
  | none => simp [pure, Except.pure]
  | some a =>
    cases hf : f a with
    | error e => simp [hf, Functor.map, Except.map]
    | ok c => simp [hf, Functor.map, Except.map]

theorem option_mapM_eq_none {o : Option α} {f : α → Except ε β} :
    o.mapM f = .ok none ↔ o = none := by
  cases o with
  | none => simp [pure, Except.pure]
  | some a =>
    cases hf : f a with
    | error e => simp [hf, Functor.map, Except.map]
    | ok c => simp [hf, Functor.map, Except.map]

/-- Every result of a traversal comes from one of its inputs. -/
theorem mem_of_mapM {f : α → Except ε β} {xs : List α} {ys : List β} (h : xs.mapM f = .ok ys) :
    ∀ y ∈ ys, ∃ x ∈ xs, f x = .ok y := by
  induction xs generalizing ys with
  | nil =>
    intro y hy
    rw [List.mapM_nil, pure_eq_ok] at h
    simp [← h] at hy
  | cons x rest ih =>
    intro y hy
    simp only [List.mapM_cons, bind_eq_ok, pure_eq_ok] at h
    obtain ⟨b, hb, bs, hbs, rfl⟩ := h
    rcases List.mem_cons.mp hy with rfl | hrest
    · exact ⟨x, List.mem_cons_self, hb⟩
    · obtain ⟨x', hx', hf⟩ := ih hbs y hrest
      exact ⟨x', List.mem_cons_of_mem _ hx', hf⟩

theorem length_of_mapM {f : α → Except ε β} {xs : List α} {ys : List β}
    (h : xs.mapM f = .ok ys) : ys.length = xs.length := by
  induction xs generalizing ys with
  | nil =>
    cases h
    rfl
  | cons x xs ih =>
    simp only [List.mapM_cons, bind_eq_ok, pure_eq_ok] at h
    obtain ⟨y, -, rest, hrest, rfl⟩ := h
    rw [List.length_cons, List.length_cons, ih hrest]

theorem map_of_mapM {γ : Type v} {f : α → Except ε β} {g : β → γ} {k : α → γ} {xs : List α}
    {ys : List β} (hf : ∀ x y, f x = .ok y → g y = k x) (h : xs.mapM f = .ok ys) :
    ys.map g = xs.map k := by
  induction xs generalizing ys with
  | nil =>
    cases h
    rfl
  | cons x xs ih =>
    simp only [List.mapM_cons, bind_eq_ok, pure_eq_ok] at h
    obtain ⟨y, hy, rest, hrest, rfl⟩ := h
    rw [List.map_cons, List.map_cons, hf x y hy, ih hrest]

/-- Two traversals that agree wherever both succeed have the same results. -/
theorem mapM_agree {δ : Type u} {f : α → Except ε β} {g : α → Except δ β} {xs : List α}
    {ys zs : List β} (hfg : ∀ a b c, f a = .ok b → g a = .ok c → b = c)
    (hf : xs.mapM f = .ok ys) (hg : xs.mapM g = .ok zs) : ys = zs := by
  induction xs generalizing ys zs with
  | nil =>
    cases hf
    cases hg
    rfl
  | cons first rest ih =>
    simp only [List.mapM_cons, bind_eq_ok, pure_eq_ok] at hf hg
    obtain ⟨b, hb, bs, hbs, rfl⟩ := hf
    obtain ⟨c, hc, cs, hcs, rfl⟩ := hg
    rw [hfg first b c hb hc, ih hbs hcs]

/-- Every input of a traversal that succeeds has its result in the list. -/
theorem mapM_mem {f : α → Except ε β} {xs : List α} {ys : List β} {a : α}
    (h : xs.mapM f = .ok ys) (ha : a ∈ xs) : ∃ b ∈ ys, f a = .ok b := by
  induction xs generalizing ys with
  | nil => cases ha
  | cons first rest ih =>
    simp only [List.mapM_cons, bind_eq_ok, pure_eq_ok] at h
    obtain ⟨b, hb, bs, hbs, rfl⟩ := h
    rcases List.mem_cons.mp ha with rfl | hrest
    · exact ⟨b, List.mem_cons_self, hb⟩
    · obtain ⟨b', hmem, hf⟩ := ih hbs hrest
      exact ⟨b', List.mem_cons_of_mem _ hmem, hf⟩

/-- A traversal succeeds where the computation succeeds on every input. -/
theorem mapM_succeeds {f : α → Except ε β} {xs : List α} (h : ∀ a ∈ xs, ∃ b, f a = .ok b) :
    ∃ ys, xs.mapM f = .ok ys := by
  induction xs with
  | nil => exact ⟨[], rfl⟩
  | cons first rest ih =>
    obtain ⟨b, hb⟩ := h first List.mem_cons_self
    obtain ⟨bs, hbs⟩ := ih fun a ha => h a (List.mem_cons_of_mem _ ha)
    exact ⟨b :: bs, by simp [hb, hbs]⟩

/-- A traversal whose results are known is a map. -/
theorem mapM_eq_map {f : α → Except ε β} {g : α → β} {xs : List α}
    (h : ∀ a ∈ xs, f a = .ok (g a)) : xs.mapM f = .ok (xs.map g) := by
  induction xs with
  | nil => rfl
  | cons first rest ih =>
    have hrest := ih fun a ha => h a (List.mem_cons_of_mem _ ha)
    simp [h first List.mem_cons_self, hrest]

/-- A bind fails with `e` either in its first part or in its continuation. -/
theorem bind_eq_error {x : Except ε α} {f : α → Except ε β} {e : ε} :
    (x >>= f) = .error e ↔ x = .error e ∨ ∃ a, x = .ok a ∧ f a = .error e := by
  cases x with
  | error e' => simp [bind, Except.bind]
  | ok a => simp [bind, Except.bind]

/-- A bind does not fail with `e` if neither part does. -/
theorem bind_ne_error {x : Except ε α} {f : α → Except ε β} {e : ε} (hx : x ≠ .error e)
    (hf : ∀ a, x = .ok a → f a ≠ .error e) : (x >>= f) ≠ .error e := by
  intro h
  rcases bind_eq_error.mp h with herror | ⟨a, hok, herror⟩
  · exact hx herror
  · exact hf a hok herror

section Errors

variable {P : ε → Prop} {x : Except ε α} {e : ε}

/-- Every error the computation can fail with is one of `P`. -/
def FailsOnly (P : ε → Prop) (x : Except ε α) : Prop := ∀ e, x = .error e → P e

theorem failsOnly_ok {a : α} : FailsOnly P (.ok a : Except ε α) := nofun

theorem FailsOnly.bind {f : α → Except ε β} (h : FailsOnly P x)
    (hf : ∀ a, x = .ok a → FailsOnly P (f a)) : FailsOnly P (x >>= f) := by
  intro e herror
  rcases bind_eq_error.mp herror with hfirst | ⟨a, hok, hrest⟩
  · exact h e hfirst
  · exact hf a hok e hrest

theorem FailsOnly.map {f : α → β} (h : FailsOnly P x) : FailsOnly P (x.map f) := by
  intro e herror
  cases x with
  | error e' =>
    cases herror
    exact h e rfl
  | ok a => cases herror

theorem failsOnly_ensure {condition : Bool} (h : condition = false → P e) :
    FailsOnly P (ensure condition e) := by
  intro e' herror
  obtain ⟨hcondition, rfl⟩ := ensure_eq_error.mp herror
  exact h hcondition

theorem failsOnly_okOr {value : Option α} (h : value = none → P e) :
    FailsOnly P (okOr value e) := by
  intro e' herror
  obtain ⟨hnone, rfl⟩ := okOr_eq_error.mp herror
  exact h hnone

theorem failsOnly_mapErr {δ : Type u} {x : Except δ α} (h : P e) : FailsOnly P (mapErr x e) := by
  intro e' herror
  obtain ⟨-, rfl⟩ := mapErr_eq_error.mp herror
  exact h

theorem failsOnly_mapM {f : β → Except ε α} {xs : List β} (hf : ∀ b ∈ xs, FailsOnly P (f b)) :
    FailsOnly P (xs.mapM f) := by
  induction xs with
  | nil => exact failsOnly_ok
  | cons first rest ih =>
    rw [List.mapM_cons]
    have hrest := ih fun b hb => hf b (List.mem_cons_of_mem _ hb)
    exact (hf first List.mem_cons_self).bind fun a _ => hrest.bind fun as _ => failsOnly_ok

theorem failsOnly_option {f : β → Except ε α} {value : Option β}
    (hf : ∀ b, value = some b → FailsOnly P (f b)) : FailsOnly P (value.mapM f) := by
  cases value with
  | none => exact failsOnly_ok
  | some b => exact (hf b rfl).bind fun a _ => failsOnly_ok

theorem failsOnly_foldlM {f : α → β → Except ε α} (hf : ∀ a b, FailsOnly P (f a b))
    (xs : List β) (a : α) : FailsOnly P (xs.foldlM f a) := by
  induction xs generalizing a with
  | nil => exact failsOnly_ok
  | cons first rest ih =>
    rw [List.foldlM_cons]
    exact (hf a first).bind fun b _ => ih b

end Errors

/-- Commit on success; on failure the store is as it was. -/
def settle {σ : Type v} (outcome : Except ε (α × σ)) (s : σ) : Except ε α × σ :=
  match outcome with
  | .ok (value, next) => (.ok value, next)
  | .error e => (.error e, s)

theorem settle_eq_ok {σ : Type v} {outcome : Except ε (α × σ)} {s s' : σ} {a : α} :
    settle outcome s = (.ok a, s') ↔ outcome = .ok (a, s') := by
  cases outcome <;> simp [settle, Prod.ext_iff]

theorem settle_eq_error {σ : Type v} {outcome : Except ε (α × σ)} {s s' : σ} {e : ε}
    (h : settle outcome s = (.error e, s')) : outcome = .error e ∧ s' = s := by
  cases outcome with
  | ok result => simp [settle] at h
  | error e' =>
    obtain ⟨he, hs⟩ := Prod.mk.inj h
    exact ⟨by rw [Except.error.inj he], hs.symm⟩

end Fallible
