import NwcMobile.Host

/-!
The foreground coordinator: process-local ownership of wake work and its bounded
retries. It maps what an execution ended with to the application's next action.
-/

namespace NwcMobile

/-- Bounded retry policy for application-owned wake execution. -/
structure ForegroundWakePolicy where
  maximumRetryAttempts : Nat
  queuedRetryBaseDelay : Duration
  attempts_positive : maximumRetryAttempts ≠ 0
  attempts_bounded : maximumRetryAttempts < 2 ^ 8
  delay_positive : queuedRetryBaseDelay.isZero = false
  delay_bounded : queuedRetryBaseDelay ≤ Duration.max

/-- `ForegroundWakePolicy::new`, on a `u8` and a duration. -/
def ForegroundWakePolicy.new (maximumRetryAttempts : Nat) (queuedRetryBaseDelay : Duration)
    (hattempts : maximumRetryAttempts < 2 ^ 8) (hdelay : queuedRetryBaseDelay ≤ Duration.max) :
    Option ForegroundWakePolicy :=
  if h : maximumRetryAttempts = 0 ∨ queuedRetryBaseDelay.isZero = true then none
  else some ⟨maximumRetryAttempts, queuedRetryBaseDelay, fun hzero => h (Or.inl hzero), hattempts,
    (Bool.not_eq_true _).mp fun hzero => h (Or.inr hzero), hdelay⟩

/-- `ForegroundWakePolicy::default`. -/
def ForegroundWakePolicy.default : ForegroundWakePolicy where
  maximumRetryAttempts := 5
  queuedRetryBaseDelay := .fromSecs 2
  attempts_positive := by decide
  attempts_bounded := by decide
  delay_positive := rfl
  delay_bounded := by decide

inductive ForegroundWakeOutcome where
  | completed
  | alreadyProcessed
  | rejected (code : RejectionCode)
  | retryExhausted
deriving DecidableEq, Repr

inductive ForegroundWakeRetryCause where
  | engine (reason : RetryReason)
  | queuedForApplication (reason : QueueReason)
deriving DecidableEq, Repr

inductive ForegroundWakeDecision where
  | finished (outcome : ForegroundWakeOutcome)
  | retry (delay : Duration) (cause : ForegroundWakeRetryCause)
deriving DecidableEq, Repr

/-- `ForegroundWakeCoordinator`: the wakes in flight and the retries scheduled for
each. -/
structure ForegroundWakeCoordinator (K : Type) where
  inFlight : Finset K
  attempts : K → Option Nat
  policy : ForegroundWakePolicy

/-- `2_u32.saturating_pow(attempt - 1)` times the base delay. -/
def queuedRetryDelay (policy : ForegroundWakePolicy) (attempt : Nat) : Duration :=
  policy.queuedRetryBaseDelay.saturatingMul (min (2 ^ (attempt - 1)) (2 ^ 32 - 1))

namespace ForegroundWakeCoordinator

variable {K : Type} [DecidableEq K]

def new (policy : ForegroundWakePolicy) : ForegroundWakeCoordinator K := ⟨∅, fun _ => none, policy⟩

variable (c : ForegroundWakeCoordinator K) (identifier : K)

/-- Claims process-local ownership; the flag is false for a duplicate task. -/
def begin : Bool × ForegroundWakeCoordinator K :=
  (decide (identifier ∉ c.inFlight), { c with inFlight := insert identifier c.inFlight })

def isInFlight : Bool := decide (identifier ∈ c.inFlight)

def retryAttempts : Nat := (c.attempts identifier).getD 0

def retryDue : Bool × ForegroundWakeCoordinator K :=
  (decide (identifier ∈ c.inFlight), { c with inFlight := c.inFlight.erase identifier })

def forget : ForegroundWakeCoordinator K :=
  { c with inFlight := c.inFlight.erase identifier
           attempts := Function.update c.attempts identifier none }

def reset : ForegroundWakeCoordinator K :=
  { c with inFlight := ∅, attempts := fun _ => none }

/-- Count one more attempt, if the policy still allows one. -/
def nextAttempt : Option Nat × ForegroundWakeCoordinator K :=
  if c.policy.maximumRetryAttempts ≤ c.retryAttempts identifier then
    (none, { c with attempts := Function.update c.attempts identifier (some (c.retryAttempts identifier)) })
  else
    (some (c.retryAttempts identifier + 1),
      { c with attempts :=
          Function.update c.attempts identifier (some (c.retryAttempts identifier + 1)) })

def finish (outcome : ForegroundWakeOutcome) :
    ForegroundWakeDecision × ForegroundWakeCoordinator K :=
  (.finished outcome, c.forget identifier)

def retry (delay : Duration) (cause : ForegroundWakeRetryCause) :
    ForegroundWakeDecision × ForegroundWakeCoordinator K :=
  match c.nextAttempt identifier with
  | (some _, c') => (.retry delay cause, c')
  | (none, c') => c'.finish identifier .retryExhausted

/-- `handle_disposition`. -/
def handleDisposition (disposition : WakeDisposition) :
    ForegroundWakeDecision × ForegroundWakeCoordinator K :=
  match disposition with
  | .completed _ => c.finish identifier .completed
  | .alreadyProcessed _ => c.finish identifier .alreadyProcessed
  | .rejected code _ => c.finish identifier (.rejected code)
  | .retryAfter delay reason _ => c.retry identifier delay (.engine reason)
  | .queuedForApplication reason _ =>
    match c.nextAttempt identifier with
    | (some attempt, c') =>
      (.retry (queuedRetryDelay c'.policy attempt) (.queuedForApplication reason), c')
    | (none, c') => c'.finish identifier .retryExhausted

end ForegroundWakeCoordinator

/-- The coordinators a process that uses this policy can have. -/
inductive ForegroundReachable {K : Type} [DecidableEq K] (policy : ForegroundWakePolicy) :
    ForegroundWakeCoordinator K → Prop
  | new : ForegroundReachable policy (.new policy)
  | begin {c : ForegroundWakeCoordinator K} (h : ForegroundReachable policy c) (identifier : K) :
      ForegroundReachable policy (c.begin identifier).2
  | retryDue {c : ForegroundWakeCoordinator K} (h : ForegroundReachable policy c) (identifier : K) :
      ForegroundReachable policy (c.retryDue identifier).2
  | forget {c : ForegroundWakeCoordinator K} (h : ForegroundReachable policy c) (identifier : K) :
      ForegroundReachable policy (c.forget identifier)
  | reset {c : ForegroundWakeCoordinator K} (h : ForegroundReachable policy c) :
      ForegroundReachable policy c.reset
  | handle {c : ForegroundWakeCoordinator K} (h : ForegroundReachable policy c) (identifier : K)
      (disposition : WakeDisposition) :
      ForegroundReachable policy (c.handleDisposition identifier disposition).2

section Decisions

variable {K : Type} [DecidableEq K] {policy : ForegroundWakePolicy}
  {c c' : ForegroundWakeCoordinator K} {identifier : K} {disposition : WakeDisposition}
  {delay : Duration} {cause : ForegroundWakeRetryCause} {attempt : Nat}

@[simp] theorem forget_policy : (c.forget identifier).policy = c.policy := rfl

/-- Counting an attempt keeps the policy; an attempt that is granted is within it. -/
theorem nextAttempt_cases (identifier : K) (c : ForegroundWakeCoordinator K) :
    (c.nextAttempt identifier).2.policy = c.policy ∧
      ∀ attempt, (c.nextAttempt identifier).1 = some attempt →
        0 < attempt ∧ attempt ≤ c.policy.maximumRetryAttempts := by
  unfold ForegroundWakeCoordinator.nextAttempt
  split
  · exact ⟨rfl, nofun⟩
  · rename_i hleft
    constructor
    · rfl
    · intro attempt hattempt
      cases hattempt
      omega

theorem handleDisposition_policy :
    (c.handleDisposition identifier disposition).2.policy = c.policy := by
  have hnext := (nextAttempt_cases identifier c).1
  cases disposition with
  | completed notification => rfl
  | alreadyProcessed notification => rfl
  | rejected code notification => rfl
  | retryAfter delay reason notification =>
    simp only [ForegroundWakeCoordinator.handleDisposition, ForegroundWakeCoordinator.retry]
    split
    · rename_i heq
      rw [heq] at hnext
      exact hnext
    · rename_i heq
      rw [heq] at hnext
      exact hnext
  | queuedForApplication reason notification =>
    simp only [ForegroundWakeCoordinator.handleDisposition]
    split
    · rename_i heq
      rw [heq] at hnext
      exact hnext
    · rename_i heq
      rw [heq] at hnext
      exact hnext

/-- A coordinator keeps the policy it was created with. -/
theorem ForegroundReachable.policy_eq (h : ForegroundReachable policy c) : c.policy = policy := by
  induction h with
  | new => rfl
  | begin h identifier ih => exact ih
  | retryDue h identifier ih => exact ih
  | forget h identifier ih => exact ih
  | reset h ih => exact ih
  | handle h identifier disposition ih => exact handleDisposition_policy.trans ih

/-- The delay of a decided retry: the engine's own, or the backed-off base delay. -/
theorem handleDisposition_retry
    (h : (c.handleDisposition identifier disposition).1 = .retry delay cause) :
    (∃ reason notification, disposition = .retryAfter delay reason notification) ∨
      ∃ attempt, 0 < attempt ∧ attempt ≤ c.policy.maximumRetryAttempts ∧
        delay = queuedRetryDelay c.policy attempt := by
  obtain ⟨hpolicy, hattempt⟩ := nextAttempt_cases identifier c
  cases disposition with
  | completed notification => cases h
  | alreadyProcessed notification => cases h
  | rejected code notification => cases h
  | retryAfter engineDelay reason notification =>
    simp only [ForegroundWakeCoordinator.handleDisposition, ForegroundWakeCoordinator.retry] at h
    split at h
    · cases h
      exact Or.inl ⟨reason, notification, rfl⟩
    · cases h
  | queuedForApplication reason notification =>
    simp only [ForegroundWakeCoordinator.handleDisposition] at h
    split at h
    · rename_i attempt c' heq
      rw [heq] at hpolicy hattempt
      cases h
      obtain ⟨hpositive, hwithin⟩ := hattempt attempt rfl
      exact Or.inr ⟨attempt, hpositive, hwithin, by rw [hpolicy]⟩
    · cases h

/-- Backing off never goes below the base delay. -/
theorem base_le_queuedRetryDelay : policy.queuedRetryBaseDelay ≤ queuedRetryDelay policy attempt := by
  have hfactor : 1 ≤ min (2 ^ (attempt - 1)) (2 ^ 32 - 1) :=
    Nat.le_min.mpr ⟨Nat.one_le_two_pow, by omega⟩
  rw [Duration.le_iff]
  apply Nat.le_min.mpr
  constructor
  · exact Nat.le_mul_of_pos_right _ hfactor
  · exact policy.delay_bounded

/-- The first retry of a queued wake waits exactly for the base delay. -/
theorem queuedRetryDelay_one : queuedRetryDelay policy 1 = policy.queuedRetryBaseDelay := by
  have hbounded := Duration.le_iff.mp policy.delay_bounded
  simp [queuedRetryDelay, Duration.saturatingMul, Nat.min_eq_left hbounded]

end Decisions

end NwcMobile
