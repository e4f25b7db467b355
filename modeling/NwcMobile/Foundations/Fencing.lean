import NwcMobile.Foundations.Transition

/-!
A resource guarded by a fencing token. Whoever acquires the resource gets a
token; only the token the resource currently records can use it, give it back or
finish it. A finished resource keeps its result until it is forgotten. When
every acquisition draws a token not drawn before, a token that lost the resource
never regains it.
-/

namespace Fencing

open Transition

universe u v

variable {τ : Type u} {ρ : Type v}

/-- What the resource records. -/
inductive Slot (τ : Type u) (ρ : Type v) where
  | vacant
  | held (token : τ)
  | released
  | finished (result : ρ)

inductive Action (τ : Type u) (ρ : Type v) where
  | acquire (token : τ)
  | use (token : τ)
  | release (token : τ)
  | finish (token : τ) (result : ρ)
  | forget
  | idle

inductive Step : Slot τ ρ → Action τ ρ → Slot τ ρ → Prop
  | acquire {s : Slot τ ρ} {t : τ} (hopen : ∀ r, s ≠ .finished r) : Step s (.acquire t) (.held t)
  | use {t : τ} : Step (.held t) (.use t) (.held t)
  | release {t : τ} : Step (.held t) (.release t) .released
  | finish {t : τ} {r : ρ} : Step (.held t) (.finish t r) (.finished r)
  | forget {r : ρ} : Step (.finished r) .forget .vacant
  | idle {s : Slot τ ρ} : Step s .idle s

/-- The token an action draws. -/
def Action.drawn : Action τ ρ → Option τ
  | .acquire t => some t
  | _ => none

/-- The token an action presents to the resource. -/
def Action.presented : Action τ ρ → Option τ
  | .use t => some t
  | .release t => some t
  | .finish t _ => some t
  | _ => none

/-- The action takes the resource away from the holder of `t`. -/
def Action.Retires (t : τ) : Action τ ρ → Prop
  | .acquire t' => t' ≠ t
  | .release t' => t' = t
  | .finish t' _ => t' = t
  | _ => False

/-- The tokens drawn along a history, newest first. -/
def drawn (history : List (Event (Slot τ ρ) (Action τ ρ))) : List τ :=
  history.filterMap fun event => event.label.drawn

variable {s s' : Slot τ ρ} {a : Action τ ρ} {t : τ} {r : ρ}
  {history earlier later : List (Event (Slot τ ρ) (Action τ ρ))}
  {event : Event (Slot τ ρ) (Action τ ρ)}

theorem Step.held_of_presented (h : Step s a s') (hpresented : a.presented = some t) :
    s = .held t := by
  cases h with
  | use => exact congrArg Slot.held (Option.some.inj hpresented)
  | release => exact congrArg Slot.held (Option.some.inj hpresented)
  | finish => exact congrArg Slot.held (Option.some.inj hpresented)
  | acquire hopen => cases hpresented
  | forget => cases hpresented
  | idle => cases hpresented

/-- The only way to start holding is to draw the token. -/
theorem Step.held_cases (h : Step s a s') (hheld : s' = .held t) :
    s = .held t ∨ a.drawn = some t := by
  cases h with
  | acquire hopen => exact Or.inr (congrArg some (Slot.held.inj hheld))
  | use => exact Or.inl hheld
  | idle => exact Or.inl hheld
  | release => cases hheld
  | finish => cases hheld
  | forget => cases hheld

theorem Step.not_held_of_retires (h : Step s a s') (hretires : a.Retires t) : s' ≠ .held t := by
  cases h with
  | acquire hopen => exact fun heq => hretires (Slot.held.inj heq)
  | release => exact fun heq => by cases heq
  | finish => exact fun heq => by cases heq
  | use => exact hretires.elim
  | forget => exact hretires.elim
  | idle => exact hretires.elim

/-- Without drawing it again, a token that does not hold the resource does not
come to hold it. -/
theorem not_held (hrun : Run Step s later s') (hs : s ≠ .held t) (hdrawn : t ∉ drawn later) :
    s' ≠ .held t ∧ ∀ event ∈ later, event.before ≠ .held t := by
  induction hrun with
  | refl => exact ⟨hs, fun event hevent => absurd hevent List.not_mem_nil⟩
  | @tail past m m' label hpast hlast ih =>
    have hpastDrawn : t ∉ drawn past := by
      intro hmem
      apply hdrawn
      simp only [drawn, List.filterMap_cons] at hmem ⊢
      split
      · exact hmem
      · exact List.mem_cons_of_mem _ hmem
    obtain ⟨hm, hbefore⟩ := ih hpastDrawn
    refine ⟨?_, ?_⟩
    · intro hheld
      rcases hlast.held_cases hheld with hprior | hdraw
      · exact hm hprior
      · apply hdrawn
        simp only [drawn, List.filterMap_cons, hdraw]
        exact List.mem_cons_self
    · intro event hevent
      rcases List.mem_cons.mp hevent with rfl | hold
      · exact hm
      · exact hbefore event hold

/-- Whoever holds the resource drew its token. -/
theorem drawn_of_held (hrun : Run Step .vacant history s) (hheld : s = .held t) :
    t ∈ drawn history := by
  by_contra hnot
  exact (not_held hrun (by simp) hnot).1 hheld

theorem drawn_append (later earlier : List (Event (Slot τ ρ) (Action τ ρ))) :
    drawn (later ++ earlier) = drawn later ++ drawn earlier :=
  List.filterMap_append

/-- Fencing: a token drawn before the event that retires it is presented in no
later step. -/
theorem retired (hrun : Run Step .vacant (later ++ event :: earlier) s)
    (hfresh : (drawn (later ++ event :: earlier)).Nodup) (ht : t ∈ drawn earlier)
    (hretires : event.label.Retires t) :
    ∀ event' ∈ later, event'.label.presented ≠ some t := by
  obtain ⟨-, hevent, hlater⟩ := hrun.split
  have hnotDrawn : t ∉ drawn later := by
    intro hmem
    rw [drawn_append] at hfresh
    refine (List.disjoint_of_nodup_append hfresh) hmem ?_
    simp only [drawn, List.filterMap_cons] at ht ⊢
    split
    · exact ht
    · exact List.mem_cons_of_mem _ ht
  have hnever := (not_held hlater (hevent.not_held_of_retires hretires) hnotDrawn).2
  intro event' hevent' hpresented
  exact hnever event' hevent' ((hlater.step_of_mem hevent').held_of_presented hpresented)

/-- A finished resource keeps its result until it is forgotten. -/
theorem finished_stays (hrun : Run Step (.finished r) later s)
    (hkept : ∀ event ∈ later, event.label ≠ .forget) :
    s = .finished r ∧ ∀ event ∈ later, event.label = .idle := by
  induction hrun with
  | refl => exact ⟨rfl, fun event hevent => absurd hevent List.not_mem_nil⟩
  | @tail past m m' label hpast hlast ih =>
    obtain ⟨rfl, hidle⟩ := ih fun event hevent => hkept event (List.mem_cons_of_mem _ hevent)
    have hlabel : label ≠ .forget := hkept _ List.mem_cons_self
    cases hlast with
    | acquire hopen => exact absurd rfl (hopen r)
    | forget => exact absurd rfl hlabel
    | idle =>
      refine ⟨rfl, ?_⟩
      intro event hevent
      rcases List.mem_cons.mp hevent with rfl | hold
      · rfl
      · exact hidle event hold

end Fencing
