import NwcMobile.Foundations.Transition
import NwcMobile.Ledger.WakeRegistration
import NwcMobile.Nwa

/-!
Coordination of an application's wake-registration passes. The coordinator lets
one pass run at a time and holds back a pass until the desired state is refreshed
durably; a completion does not say which pass it completes.
-/

namespace NwcMobile

open Transition

inductive ApplicationRegistrationBegin where
  | busy
  | refreshRequired
  | ready
deriving DecidableEq, Repr

/-- The result of one registration worker pass. -/
structure ApplicationRegistrationPass where
  applied : Nat
  deferred : Nat
  nextAttemptAt : Option Nat
  failed : Bool
deriving DecidableEq, Repr

namespace ApplicationRegistrationPass

def completed (applied deferred : Nat) (nextAttemptAt : Option Nat) :
    ApplicationRegistrationPass := ⟨applied, deferred, nextAttemptAt, false⟩

end ApplicationRegistrationPass

inductive ApplicationRegistrationCompletion where
  | ignored
  | runAgain
  | failed (retryAt : Nat)
  | deferred (retryAt : Option Nat)
  | applied (applied : Nat) (retryAt : Option Nat)
  | idle (retryAt : Option Nat)
deriving DecidableEq, Repr

/-- Process-local state: whether a pass runs, whether the desired state must be refreshed, and
the token of the latest timer. -/
structure ApplicationRegistrationCoordinator where
  inFlight : Bool
  refreshPending : Bool
  retryToken : BitVec 64
deriving DecidableEq, Repr

def u64Max : Nat := 2 ^ 64 - 1

namespace ApplicationRegistrationCoordinator

/-- `ApplicationRegistrationCoordinator::default`. -/
def default : ApplicationRegistrationCoordinator := ⟨false, false, 0⟩

variable (c : ApplicationRegistrationCoordinator)

def markRefreshPending : ApplicationRegistrationCoordinator := { c with refreshPending := true }

def completeRefresh : ApplicationRegistrationCoordinator := { c with refreshPending := false }

/-- Attempt to claim one pass. -/
def begin : ApplicationRegistrationBegin × ApplicationRegistrationCoordinator :=
  if c.inFlight then (.busy, c)
  else if c.refreshPending then (.refreshRequired, c)
  else (.ready, { c with retryToken := c.retryToken + 1, inFlight := true })

def finish (pass : ApplicationRegistrationPass) (now : UnixTimestamp) :
    ApplicationRegistrationCompletion × ApplicationRegistrationCoordinator :=
  if c.inFlight = false then (.ignored, c)
  else
    let completion :=
      if c.refreshPending then .runAgain
      else if pass.failed then .failed (min (now + 30) u64Max)
      else if pass.deferred > 0 then .deferred pass.nextAttemptAt
      else if pass.applied > 0 then .applied pass.applied pass.nextAttemptAt
      else .idle pass.nextAttemptAt
    (completion, { c with inFlight := false })

/-- The new token, which is the coordinator's from now on. -/
def scheduleRetry : ApplicationRegistrationCoordinator :=
  { c with retryToken := c.retryToken + 1 }

def retryIsCurrent (token : BitVec 64) : Bool := token == c.retryToken

def reset : ApplicationRegistrationCoordinator := ⟨false, false, c.retryToken + 1⟩

end ApplicationRegistrationCoordinator

inductive RegistrationStart where
  | busy
  | ready
deriving DecidableEq, Repr

/-- The failures of the service that a registration operation passes on. -/
inductive MobileServiceError where
  | registration (error : WakeRegistrationError)
  | stateUnavailable
deriving DecidableEq, Repr

/-- The manager's part in registration: its service's ledger and its coordinator. -/
structure NwcApplicationManager where
  ledger : Ledger
  registration : ApplicationRegistrationCoordinator

namespace NwcApplicationManager

variable (m : NwcApplicationManager)

def markRegistrationRefreshPending : NwcApplicationManager :=
  { m with registration := m.registration.markRefreshPending }

/-- Refresh the desired registration state durably if necessary and claim one pass. -/
def beginRegistration (enabled : Bool) (now : UnixTimestamp) :
    Except MobileServiceError RegistrationStart × NwcApplicationManager :=
  match m.registration.begin with
  | (.busy, _) => (.ok .busy, m)
  | (.ready, registration) => (.ok .ready, { m with registration })
  | (.refreshRequired, _) =>
    match m.ledger.requeueActiveWakeRegistrationsWithState enabled now with
    | .error error => (.error (.registration error), m)
    | .ok (_, ledger) =>
      match m.registration.completeRefresh.begin with
      | (.ready, registration) => (.ok .ready, { ledger, registration })
      | (_, registration) => (.ok .busy, { ledger, registration })

def finishRegistration (pass : ApplicationRegistrationPass) (now : UnixTimestamp) :
    ApplicationRegistrationCompletion × NwcApplicationManager :=
  ((m.registration.finish pass now).1, { m with registration := (m.registration.finish pass now).2 })

def scheduleRegistrationRetry : NwcApplicationManager :=
  { m with registration := m.registration.scheduleRetry }

/-- `reset_session`; `cleared` is whether the service could drop its pending request. -/
def resetSession (cleared : Bool) : Except MobileServiceError Unit × NwcApplicationManager :=
  if cleared then (.ok (), { m with registration := m.registration.reset })
  else (.error .stateUnavailable, m)

end NwcApplicationManager

/-- The manager together with the passes its host runs: those begun since the last reset, and
those begun before it. -/
structure RegistrationWorld where
  manager : NwcApplicationManager
  running : List Nat
  stale : List Nat
  begun : Nat

inductive RegistrationLabel where
  | markRefresh
  | begin (enabled : Bool) (now : UnixTimestamp)
  | finish (id : Nat) (pass : ApplicationRegistrationPass) (now : UnixTimestamp)
  | finishLate (id : Nat) (pass : ApplicationRegistrationPass) (now : UnixTimestamp)
  | scheduleRetry
  | reset (cleared : Bool)
  | outside (ledger : Ledger)

/-- One operation of the host, or a change of the ledger by others. A pass that `begin` answered
`ready` finishes once, possibly after a reset. -/
inductive RegistrationStep : RegistrationWorld → RegistrationLabel → RegistrationWorld → Prop
  | markRefresh (w) :
      RegistrationStep w .markRefresh { w with manager := w.manager.markRegistrationRefreshPending }
  | ready (w enabled now manager)
      (h : w.manager.beginRegistration enabled now = (.ok .ready, manager)) :
      RegistrationStep w (.begin enabled now)
        ⟨manager, w.begun :: w.running, w.stale, w.begun + 1⟩
  | notReady (w enabled now answer manager)
      (h : w.manager.beginRegistration enabled now = (answer, manager)) (hready : answer ≠ .ok .ready) :
      RegistrationStep w (.begin enabled now) { w with manager }
  | finish (w id pass now) (h : id ∈ w.running) :
      RegistrationStep w (.finish id pass now)
        { w with manager := (w.manager.finishRegistration pass now).2, running := w.running.erase id }
  | finishLate (w id pass now) (h : id ∈ w.stale) :
      RegistrationStep w (.finishLate id pass now)
        { w with manager := (w.manager.finishRegistration pass now).2, stale := w.stale.erase id }
  | scheduleRetry (w) :
      RegistrationStep w .scheduleRetry { w with manager := w.manager.scheduleRegistrationRetry }
  | reset (w manager) (h : w.manager.resetSession true = (.ok (), manager)) :
      RegistrationStep w (.reset true) ⟨manager, [], w.running ++ w.stale, w.begun⟩
  | resetFailed (w) : RegistrationStep w (.reset false) w
  | outside (w ledger) :
      RegistrationStep w (.outside ledger) { w with manager := { w.manager with ledger } }

abbrev RegistrationHistory := List (Event RegistrationWorld RegistrationLabel)

abbrev RegistrationRun (l : Ledger) : RegistrationHistory → RegistrationWorld → Prop :=
  Run RegistrationStep ⟨⟨l, .default⟩, [], [], 0⟩

/-- A pass begun before a reset finishes, with this result. -/
def LateFinish (event : Event RegistrationWorld RegistrationLabel)
    (pass : ApplicationRegistrationPass) (now : UnixTimestamp) : Prop :=
  ∃ id, event.label = .finishLate id pass now

/-- No pass begun before a reset finishes while one begun after it runs. -/
def FinishesFirst (history : RegistrationHistory) : Prop :=
  ∀ event ∈ history, ∀ pass now, LateFinish event pass now → event.before.running = []

/-- A pass that was held back refreshed the desired state durably. -/
def DurableRefresh (event : Event RegistrationWorld RegistrationLabel) : Prop :=
  ∃ enabled now count, event.label = .begin enabled now ∧
    event.before.manager.ledger.requeueActiveWakeRegistrationsWithState enabled now =
      .ok (count, event.after.manager.ledger)

section Steps

variable {m m' : NwcApplicationManager} {enabled : Bool} {now : UnixTimestamp}
  {answer : Except MobileServiceError RegistrationStart}

/-- A pass is claimed only where none runs, and a mark is cleared only by a durable refresh. -/
theorem beginRegistration_cases (h : m.beginRegistration enabled now = (answer, m')) :
    (answer ≠ .ok .ready ∧ m' = m) ∨
    (answer = .ok .ready ∧ m.registration.inFlight = false ∧ m'.registration.inFlight = true ∧
      (m.registration.refreshPending = false ∨
        ∃ count, m.ledger.requeueActiveWakeRegistrationsWithState enabled now =
          .ok (count, m'.ledger))) := by
  obtain ⟨ledger, inFlight, refreshPending, token⟩ := m
  cases inFlight with
  | true =>
    simp [NwcApplicationManager.beginRegistration, ApplicationRegistrationCoordinator.begin] at h
    obtain ⟨rfl, rfl⟩ := h
    simp
  | false =>
    cases refreshPending with
    | false =>
      simp [NwcApplicationManager.beginRegistration, ApplicationRegistrationCoordinator.begin] at h
      obtain ⟨rfl, rfl⟩ := h
      simp
    | true =>
      simp only [NwcApplicationManager.beginRegistration, ApplicationRegistrationCoordinator.begin,
        ApplicationRegistrationCoordinator.completeRefresh] at h
      cases hrefresh : ledger.requeueActiveWakeRegistrationsWithState enabled now with
      | error error =>
        simp [hrefresh] at h
        obtain ⟨rfl, rfl⟩ := h
        simp
      | ok result =>
        simp [hrefresh] at h
        obtain ⟨rfl, rfl⟩ := h
        right
        exact ⟨rfl, rfl, rfl, Or.inr ⟨result.1, rfl⟩⟩

theorem resetSession_ok (h : m.resetSession true = (.ok (), m')) :
    m'.registration.inFlight = false := by
  simp only [NwcApplicationManager.resetSession, if_true, Prod.mk.injEq, true_and] at h
  rw [← h]
  rfl

theorem finish_inFlight (c : ApplicationRegistrationCoordinator)
    (pass : ApplicationRegistrationPass) : (c.finish pass now).2.inFlight = false := by
  unfold ApplicationRegistrationCoordinator.finish
  split
  · assumption
  · rfl

theorem finish_refreshPending (c : ApplicationRegistrationCoordinator)
    (pass : ApplicationRegistrationPass) :
    (c.finish pass now).2.refreshPending = c.refreshPending := by
  unfold ApplicationRegistrationCoordinator.finish
  split <;> rfl

/-- A completion where no pass runs is ignored. -/
theorem finishRegistration_ignored (h : m.registration.inFlight = false)
    (pass : ApplicationRegistrationPass) : m.finishRegistration pass now = (.ignored, m) := by
  simp [NwcApplicationManager.finishRegistration, ApplicationRegistrationCoordinator.finish, h]

/-- The coordinator knows whether a pass begun since the last reset runs, and there is at most
one. -/
structure RegistrationWorld.Serial (w : RegistrationWorld) : Prop where
  one : w.running.length ≤ 1
  claimed : w.manager.registration.inFlight = true ↔ w.running ≠ []

theorem RegistrationWorld.Serial.idle {w : RegistrationWorld} (h : w.Serial)
    (hnone : w.running = []) : w.manager.registration.inFlight = false := by
  rw [Bool.eq_false_iff, Ne, h.claimed, not_not]
  exact hnone

variable {w w' : RegistrationWorld} {label : RegistrationLabel}

theorem serial_step (h : w.Serial) (hstep : RegistrationStep w label w')
    (hlate : ∀ pass now, LateFinish ⟨w, label, w'⟩ pass now → w.running = []) : w'.Serial := by
  cases hstep with
  | markRefresh => exact ⟨h.one, h.claimed⟩
  | ready enabled now manager hbegin =>
    obtain ⟨hrefused, -⟩ | ⟨-, hidle, hbusy, -⟩ := beginRegistration_cases hbegin
    · exact absurd rfl hrefused
    · have hnone : w.running = [] := by
        by_contra hsome
        rw [h.claimed.mpr hsome] at hidle
        cases hidle
      exact ⟨by simp [hnone], by simp [hbusy]⟩
  | notReady enabled now answer manager hbegin hready =>
    obtain ⟨-, rfl⟩ | ⟨hclaimed, -⟩ := beginRegistration_cases hbegin
    · exact h
    · exact absurd hclaimed hready
  | finish id pass now hmem =>
    have hgone : w.running.erase id = [] := by
      have hlength := List.length_erase_of_mem hmem
      have hone := h.one
      exact List.eq_nil_of_length_eq_zero (by omega)
    exact ⟨by simp [hgone], by simp [hgone, NwcApplicationManager.finishRegistration, finish_inFlight]⟩
  | finishLate id pass now hmem =>
    have hidle := h.idle (hlate pass now ⟨id, rfl⟩)
    rw [finishRegistration_ignored hidle]
    exact ⟨h.one, h.claimed⟩
  | scheduleRetry => exact ⟨h.one, h.claimed⟩
  | reset manager hreset => exact ⟨by simp, by simp [resetSession_ok hreset]⟩
  | resetFailed => exact h
  | outside ledger => exact ⟨h.one, h.claimed⟩

/-- A refresh mark stays until a durable refresh or a reset. -/
theorem mark_step (hmark : w.manager.registration.refreshPending = true)
    (hstep : RegistrationStep w label w') :
    w'.manager.registration.refreshPending = true ∨ DurableRefresh ⟨w, label, w'⟩ ∨
      label = .reset true := by
  cases hstep with
  | markRefresh => exact Or.inl rfl
  | ready enabled now manager hbegin =>
    obtain ⟨hrefused, -⟩ | ⟨-, -, -, hunmarked | ⟨count, hrefresh⟩⟩ := beginRegistration_cases hbegin
    · exact absurd rfl hrefused
    · rw [hmark] at hunmarked
      cases hunmarked
    · exact Or.inr (Or.inl ⟨enabled, now, count, rfl, hrefresh⟩)
  | notReady enabled now answer manager hbegin hready =>
    obtain ⟨-, rfl⟩ | ⟨hclaimed, -⟩ := beginRegistration_cases hbegin
    · exact Or.inl hmark
    · exact absurd hclaimed hready
  | finish id pass now hmem =>
    exact Or.inl ((finish_refreshPending _ pass).trans hmark)
  | finishLate id pass now hmem =>
    exact Or.inl ((finish_refreshPending _ pass).trans hmark)
  | scheduleRetry => exact Or.inl hmark
  | reset manager hreset => exact Or.inr (Or.inr rfl)
  | resetFailed => exact Or.inl hmark
  | outside ledger => exact Or.inl hmark

end Steps

section Runs

variable {l : Ledger} {history later earlier : RegistrationHistory} {w w' : RegistrationWorld}
  {event : Event RegistrationWorld RegistrationLabel}

theorem serial_run (hrun : RegistrationRun l history w) (hfirst : FinishesFirst history) :
    w.Serial := by
  induction hrun with
  | refl => exact ⟨by simp, by simp [ApplicationRegistrationCoordinator.default]⟩
  | tail _ hlast ih =>
    have hpast := ih fun event hmem => hfirst event (List.mem_cons_of_mem _ hmem)
    exact serial_step hpast hlast (hfirst _ List.mem_cons_self)

theorem mark_run (hrun : Run RegistrationStep w later w')
    (hmark : w.manager.registration.refreshPending = true) :
    w'.manager.registration.refreshPending = true ∨
      ∃ event ∈ later, DurableRefresh event ∨ event.label = .reset true := by
  induction hrun with
  | refl => exact Or.inl hmark
  | tail _ hlast ih =>
    rcases ih with hkept | ⟨event, hmem, hcleared⟩
    · rcases mark_step hkept hlast with hstill | hcleared
      · exact Or.inl hstill
      · exact Or.inr ⟨_, List.mem_cons_self, hcleared⟩
    · exact Or.inr ⟨event, List.mem_cons_of_mem _ hmem, hcleared⟩

end Runs

/-- Where every pass begun before a reset finishes before a newer one runs, its completion is
ignored and passes never overlap; and a refresh mark is cleared only by a durable refresh done
after it or by a reset. -/
theorem registration_passes_never_overlap {l : Ledger} {history : RegistrationHistory}
    {w : RegistrationWorld} (hrun : RegistrationRun l history w) :
    (FinishesFirst history → w.running.length ≤ 1 ∧
      ∀ event ∈ history, ∀ pass now, LateFinish event pass now →
        event.before.manager.finishRegistration pass now = (.ignored, event.before.manager)) ∧
    ∀ later earlier event, history = later ++ event :: earlier → event.label = .markRefresh →
      w.manager.registration.refreshPending = true ∨
        ∃ clearing ∈ later, DurableRefresh clearing ∨ clearing.label = .reset true := by
  constructor
  · intro hfirst
    refine ⟨(serial_run hrun hfirst).one, ?_⟩
    intro event hmem pass now hlate
    obtain ⟨later, earlier, rfl⟩ := List.append_of_mem hmem
    have hpast := hrun.split.1
    have hserial := serial_run hpast fun event hearlier =>
      hfirst event (List.mem_append_right later (List.mem_cons_of_mem _ hearlier))
    exact finishRegistration_ignored (hserial.idle (hfirst event hmem pass now hlate)) pass
  · rintro later earlier event rfl hlabel
    obtain ⟨-, hstep, hlater⟩ := hrun.split
    apply mark_run hlater
    obtain ⟨before, label, after⟩ := event
    subst hlabel
    change RegistrationStep before .markRefresh after at hstep
    cases hstep
    rfl

namespace Sample

def idleWorld : RegistrationWorld := ⟨⟨.empty, .default⟩, [], [], 0⟩

/-- A session with one pass, reset while the pass runs. -/
def resetWorld : RegistrationWorld := ⟨⟨.empty, ⟨false, false, 2⟩⟩, [], [0], 1⟩

theorem step_first : RegistrationStep idleWorld (.begin true 0)
    ⟨⟨.empty, ⟨true, false, 1⟩⟩, [0], [], 1⟩ := .ready idleWorld true 0 _ rfl

theorem step_reset : RegistrationStep ⟨⟨.empty, ⟨true, false, 1⟩⟩, [0], [], 1⟩ (.reset true)
    resetWorld := .reset _ _ rfl

theorem step_second : RegistrationStep resetWorld (.begin true 0)
    ⟨⟨.empty, ⟨true, false, 3⟩⟩, [1], [0], 2⟩ := .ready resetWorld true 0 _ rfl

/-- The first pass completes while the second one runs. -/
theorem step_late : RegistrationStep ⟨⟨.empty, ⟨true, false, 3⟩⟩, [1], [0], 2⟩
    (.finishLate 0 (.completed 0 0 none) 0) ⟨⟨.empty, ⟨false, false, 3⟩⟩, [1], [], 2⟩ :=
  .finishLate _ 0 _ 0 (by simp)

theorem step_third : RegistrationStep ⟨⟨.empty, ⟨false, false, 3⟩⟩, [1], [], 2⟩ (.begin true 0)
    ⟨⟨.empty, ⟨true, false, 4⟩⟩, [2, 1], [], 3⟩ := .ready _ true 0 _ rfl

theorem step_mark : RegistrationStep ⟨⟨.empty, ⟨true, false, 1⟩⟩, [0], [], 1⟩ .markRefresh
    ⟨⟨.empty, ⟨true, true, 1⟩⟩, [0], [], 1⟩ := .markRefresh _

theorem step_reset_marked : RegistrationStep ⟨⟨.empty, ⟨true, true, 1⟩⟩, [0], [], 1⟩ (.reset true)
    resetWorld := .reset _ _ rfl

/-- The first pass completes after the reset and before another one begins. -/
theorem step_early : RegistrationStep resetWorld (.finishLate 0 (.completed 0 0 none) 0)
    ⟨⟨.empty, ⟨false, false, 2⟩⟩, [], [], 1⟩ := .finishLate _ 0 _ 0 (by simp [resetWorld])

end Sample

/-- A late completion ends the pass that runs, so that a third one begins beside it; and a reset
clears a mark made while a pass ran. -/
theorem late_completion_ends_newer_pass :
    (∃ history w event, RegistrationRun .empty history w ∧ w.running.length = 2 ∧
      event ∈ history ∧ LateFinish event (.completed 0 0 none) 0 ∧
      (event.before.manager.finishRegistration (.completed 0 0 none) 0).1 = .idle none) ∧
    ∃ later event earlier w, RegistrationRun .empty (later ++ event :: earlier) w ∧
      event.label = .markRefresh ∧ event.before.running ≠ [] ∧
      w.manager.registration.refreshPending = false ∧
      ∀ other ∈ later, ¬ DurableRefresh other := by
  constructor
  · have hrun := ((((Run.refl.tail Sample.step_first).tail Sample.step_reset).tail
      Sample.step_second).tail Sample.step_late).tail Sample.step_third
    refine ⟨_, _, _, hrun, rfl, List.mem_cons_of_mem _ List.mem_cons_self, ⟨0, rfl⟩, rfl⟩
  · have hrun := ((Run.refl.tail Sample.step_first).tail Sample.step_mark).tail
      Sample.step_reset_marked
    refine ⟨[_], _, [_], _, hrun, rfl, by simp, rfl, ?_⟩
    intro other hother
    rw [List.mem_singleton] at hother
    subst hother
    rintro ⟨_, _, _, hlabel, -⟩
    cases hlabel

theorem registration_passes_never_overlap_reset : ∃ history w,
    RegistrationRun .empty history w ∧ history.length = 4 ∧ w.running.length ≤ 1 := by
  have hrun : RegistrationRun .empty _ _ := (((Run.refl.tail Sample.step_first).tail
    Sample.step_reset).tail Sample.step_early).tail (.ready _ true 0 _ rfl)
  refine ⟨_, _, hrun, rfl, ((registration_passes_never_overlap hrun).1 ?_).1⟩
  intro event hmem pass now ⟨id, hlabel⟩
  simp only [List.mem_cons, List.not_mem_nil, or_false] at hmem
  rcases hmem with rfl | rfl | rfl | rfl
  · cases hlabel
  · rfl
  · cases hlabel
  · cases hlabel

end NwcMobile
