import Mathlib.Tactic

/-!
Runs of a labelled transition system together with their history. A history
lists every step taken, newest first, with the state before and after it, so a
property of a run can speak about what happened earlier as well as about the
state reached.
-/

namespace Transition

universe u v

variable {σ : Type u} {Λ : Type v}

/-- One step that was taken. -/
structure Event (σ : Type u) (Λ : Type v) where
  before : σ
  label : Λ
  after : σ

/-- `Run step s history m`: from `s` the recorded steps lead to `m`. -/
inductive Run (step : σ → Λ → σ → Prop) (s : σ) : List (Event σ Λ) → σ → Prop
  | refl : Run step s [] s
  | tail {history : List (Event σ Λ)} {m m' : σ} {label : Λ} :
      Run step s history m → step m label m' → Run step s (⟨m, label, m'⟩ :: history) m'

variable {step step' : σ → Λ → σ → Prop} {s m m' : σ}
  {history earlier later : List (Event σ Λ)} {event : Event σ Λ}

/-- Of two recorded steps the first is the earlier one, the same one, or newer. -/
theorem places_ordered {recent newer past older : List (Event σ Λ)} {a b : Event σ Λ}
    (h : recent ++ a :: past = newer ++ b :: older) :
    past.length < older.length ∨ (a = b ∧ past = older) ∨ a ∈ newer := by
  rcases List.append_eq_append_iff.mp h with ⟨between, rfl, htail⟩ | ⟨between, rfl, htail⟩
  · cases between with
    | nil => exact Or.inr (Or.inl (List.cons.inj htail))
    | cons first rest =>
      obtain ⟨rfl, -⟩ := List.cons.inj htail
      exact Or.inr (Or.inr (by simp))
  · cases between with
    | nil =>
      obtain ⟨rfl, rfl⟩ := List.cons.inj htail
      exact Or.inr (Or.inl ⟨rfl, rfl⟩)
    | cons first rest =>
      have holder : older = rest ++ a :: past := (List.cons.inj htail).2
      left
      rw [holder, List.length_append, List.length_cons]
      omega

/-- Two recorded steps are the same one, or one of them was taken after the other. -/
theorem places_cases {recent newer past older : List (Event σ Λ)} {a b : Event σ Λ}
    (h : recent ++ a :: past = newer ++ b :: older) :
    (a = b ∧ past = older) ∨ (∃ between, past = between ++ b :: older) ∨
      ∃ between, older = between ++ a :: past := by
  rcases List.append_eq_append_iff.mp h with ⟨between, rfl, htail⟩ | ⟨between, rfl, htail⟩
  · cases between with
    | nil => exact Or.inl (List.cons.inj htail)
    | cons first rest => exact Or.inr (Or.inl ⟨rest, (List.cons.inj htail).2⟩)
  · cases between with
    | nil =>
      obtain ⟨rfl, rfl⟩ := List.cons.inj htail
      exact Or.inl ⟨rfl, rfl⟩
    | cons first rest => exact Or.inr (Or.inr ⟨rest, (List.cons.inj htail).2⟩)

namespace Run

/-- What holds at the start and survives each step holds wherever a run ends. -/
theorem invariant {I : σ → Prop} (hrun : Run step s history m) (hs : I s)
    (hstep : ∀ a label b, I a → step a label b → I b) : I m := by
  induction hrun with
  | refl => exact hs
  | tail _ hlast ih => exact hstep _ _ _ ih hlast

/-- The same for a property that also reads the history so far. -/
theorem history_invariant {J : List (Event σ Λ) → σ → Prop} (hrun : Run step s history m)
    (hs : J [] s)
    (hstep : ∀ past a label b, Run step s past a → J past a → step a label b →
      J (⟨a, label, b⟩ :: past) b) : J history m := by
  induction hrun with
  | refl => exact hs
  | tail hpast hlast ih => exact hstep _ _ _ _ hpast ih hlast

/-- A run is cut at any recorded step into what came before it, the step and
what came after it. -/
theorem split (hrun : Run step s (later ++ event :: earlier) m) :
    Run step s earlier event.before ∧ step event.before event.label event.after ∧
      Run step event.after later m := by
  induction later generalizing m with
  | nil =>
    cases hrun with
    | tail hpast hlast => exact ⟨hpast, hlast, .refl⟩
  | cons last rest ih =>
    cases hrun with
    | tail hpast hlast =>
      obtain ⟨hearlier, hevent, hrest⟩ := ih hpast
      exact ⟨hearlier, hevent, hrest.tail hlast⟩

/-- A step in front of a run. -/
theorem cons_first {label : Λ} (hrun : Run step m' history m) (hfirst : step s label m') :
    Run step s (history ++ [⟨s, label, m'⟩]) m := by
  induction hrun with
  | refl => exact Run.refl.tail hfirst
  | tail _ hlast ih => exact ih.tail hlast

/-- A run seen through a map of states and a reading of steps is a run of any
system that simulates each step. -/
theorem map {σ' : Type*} {Λ' : Type*} {target : σ' → Λ' → σ' → Prop} {f : σ → σ'}
    {g : Event σ Λ → Λ'} (hrun : Run step s history m)
    (h : ∀ a label b, step a label b → target (f a) (g ⟨a, label, b⟩) (f b)) :
    Run target (f s) (history.map fun event => ⟨f event.before, g event, f event.after⟩) (f m) := by
  induction hrun with
  | refl => exact .refl
  | tail _ hlast ih => exact ih.tail (h _ _ _ hlast)

/-- The same when some steps leave the mapped state alone: they are left out. -/
theorem project {σ' : Type*} {Λ' : Type*} {target : σ' → Λ' → σ' → Prop} {f : σ → σ'}
    {g : Λ → Option Λ'} (hrun : Run step s history m)
    (h : ∀ a label b, step a label b →
      (∃ label', g label = some label' ∧ target (f a) label' (f b)) ∨
        (g label = none ∧ f b = f a)) :
    Run target (f s)
      (history.filterMap fun event => (g event.label).map fun label' =>
        ⟨f event.before, label', f event.after⟩) (f m) := by
  induction hrun with
  | refl => exact .refl
  | @tail past a b label _ hlast ih =>
    simp only [List.filterMap_cons]
    obtain ⟨label', hlabel, hstep⟩ | ⟨hlabel, hsame⟩ := h a label b hlast
    · rw [hlabel]
      exact ih.tail hstep
    · rw [hlabel, Option.map_none, hsame]
      exact ih

theorem step_of_mem (hrun : Run step s history m) (hmem : event ∈ history) :
    step event.before event.label event.after := by
  obtain ⟨later, earlier, rfl⟩ := List.append_of_mem hmem
  exact hrun.split.2.1

end Run

end Transition
