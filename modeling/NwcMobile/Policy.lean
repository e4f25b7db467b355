import NwcMobile.Types

/-!
Spending policy of a connection and the bounds on untrusted wake inputs.
-/

namespace NwcMobile

open Fallible

inductive BudgetInterval where
  | never
  | hourly
  | daily
  | weekly
  | monthly
  | yearly
deriving DecidableEq, Repr

/-- The fixed duration of a renewable interval. -/
def BudgetInterval.duration : BudgetInterval → Option Duration
  | .never => none
  | .hourly => some (.fromSecs (60 * 60))
  | .daily => some (.fromSecs (24 * 60 * 60))
  | .weekly => some (.fromSecs (7 * 24 * 60 * 60))
  | .monthly => some (.fromSecs (30 * 24 * 60 * 60))
  | .yearly => some (.fromSecs (365 * 24 * 60 * 60))

inductive FeePolicy where
  | countTowardBudget (maximumFeeSat : Nat)
  | excludeForCompatibility
deriving DecidableEq, Repr

structure BudgetPolicy where
  limitSat : Nat
  interval : BudgetInterval
  feePolicy : FeePolicy
deriving DecidableEq, Repr

/-- Methods are a set; its iteration order is the declaration order. -/
structure ConnectionPolicy where
  methods : Finset NwcMethod
  budget : BudgetPolicy
deriving DecidableEq

def NwcMethod.all : List NwcMethod :=
  [.getInfo, .getBalance, .makeInvoice, .payInvoice, .lookupInvoice, .listTransactions]

theorem NwcMethod.mem_all (method : NwcMethod) : method ∈ NwcMethod.all := by
  cases method <;> simp [NwcMethod.all]

namespace ConnectionPolicy

def new (methods : List NwcMethod) (budget : BudgetPolicy) : ConnectionPolicy :=
  ⟨methods.toFinset, budget⟩

def allows (policy : ConnectionPolicy) (method : NwcMethod) : Bool :=
  decide (method ∈ policy.methods)

/-- The granted methods in stable order. -/
def methodList (policy : ConnectionPolicy) : List NwcMethod :=
  NwcMethod.all.filter policy.allows

theorem mem_methodList {policy : ConnectionPolicy} {method : NwcMethod} :
    method ∈ policy.methodList ↔ method ∈ policy.methods := by
  simp [methodList, allows, NwcMethod.mem_all]

end ConnectionPolicy

/-- Bounds on untrusted wakes and on how long replay state is kept. -/
structure WakePolicy where
  maximumEventAge : Duration
  maximumFutureSkew : Duration
  replayRetention : Duration
  maximumPayloadBytes : Nat
  maximumRelaysPerConnection : Nat
deriving DecidableEq, Repr

/-- `WakePolicy::new`: state must be retained as long as an event may be accepted. -/
def WakePolicy.new (maximumEventAge maximumFutureSkew replayRetention : Duration)
    (maximumPayloadBytes maximumRelaysPerConnection : Nat) : Except DomainError WakePolicy := do
  let requiredRetention ← okOr (maximumEventAge.checkedAdd maximumFutureSkew) .invalidWakePolicy
  ensure (!(maximumEventAge.isZero || decide (replayRetention < requiredRetention) ||
    maximumPayloadBytes == 0 || maximumRelaysPerConnection == 0)) .invalidWakePolicy
  pure ⟨maximumEventAge, maximumFutureSkew, replayRetention, maximumPayloadBytes,
    maximumRelaysPerConnection⟩

/-- `WakePolicy::accepts_event_time`, on whole seconds. -/
def WakePolicy.acceptsEventTime (policy : WakePolicy) (createdAt now : UnixTimestamp) : Bool :=
  if createdAt > now then
    decide (createdAt - now ≤ policy.maximumFutureSkew.asSecs)
  else
    decide (now - createdAt ≤ policy.maximumEventAge.asSecs)

/-- The policy passed the checks of its constructor. -/
def WakePolicy.Checked (policy : WakePolicy) : Prop :=
  WakePolicy.new policy.maximumEventAge policy.maximumFutureSkew policy.replayRetention
    policy.maximumPayloadBytes policy.maximumRelaysPerConnection = .ok policy

/-- Truncating each duration to whole seconds keeps the retention long enough. -/
theorem WakePolicy.Checked.retention {policy : WakePolicy} (h : policy.Checked) :
    policy.maximumEventAge.asSecs + policy.maximumFutureSkew.asSecs ≤
      policy.replayRetention.asSecs := by
  simp only [WakePolicy.Checked, WakePolicy.new, bind_eq_ok, okOr_eq_ok, ensure_eq_ok] at h
  obtain ⟨required, hadd, -, hchecks, -⟩ := h
  simp only [Duration.checkedAdd] at hadd
  split at hadd
  · cases hadd
    simp only [Bool.not_eq_true', Bool.or_eq_false_iff, decide_eq_false_iff_not] at hchecks
    have hretained : policy.maximumEventAge.nanos + policy.maximumFutureSkew.nanos ≤
        policy.replayRetention.nanos := Nat.le_of_not_lt hchecks.1.1.2
    unfold Duration.asSecs Duration.nanosPerSec
    omega
  · cases hadd

theorem WakePolicy.acceptsEventTime_iff {policy : WakePolicy} {createdAt now : Nat} :
    policy.acceptsEventTime createdAt now = true ↔
      createdAt ≤ now + policy.maximumFutureSkew.asSecs ∧
        now ≤ createdAt + policy.maximumEventAge.asSecs := by
  unfold WakePolicy.acceptsEventTime
  by_cases hfuture : now < createdAt
  · rw [if_pos hfuture, decide_eq_true_eq]
    change createdAt - now ≤ _ ↔ _
    omega
  · rw [if_neg hfuture, decide_eq_true_eq]
    change now - createdAt ≤ _ ↔ _
    omega

/-- Once an event was accepted, it is not accepted again after its retention. -/
theorem WakePolicy.Checked.rejects {policy : WakePolicy} (h : policy.Checked)
    {createdAt accepted now : Nat} (haccepted : policy.acceptsEventTime createdAt accepted = true)
    (hnow : accepted + policy.replayRetention.asSecs < now) :
    policy.acceptsEventTime createdAt now = false := by
  have hretention := h.retention
  rw [WakePolicy.acceptsEventTime_iff] at haccepted
  rw [← Bool.not_eq_true, WakePolicy.acceptsEventTime_iff]
  omega

end NwcMobile
