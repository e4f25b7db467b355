import NwcMobile.Host

/-!
The payment reconciler: one bounded pass over unresolved attempts that asks the
wallet for their status and never starts a payment.
-/

namespace NwcMobile

open Program Prog

def maxPaymentReconciliationBatch : Nat := 100

inductive PaymentReconciliationError where
  | invalidBatchSize
  | accounting (error : PaymentAccountingError)
deriving DecidableEq, Repr

structure PaymentReconciliationReport where
  examined : Nat
  succeeded : Nat
  failed : Nat
  discarded : Nat
  unresolved : Nat
  deferred : Nat
  interrupted : Bool
  needsRetry : Bool
deriving DecidableEq, Repr

/-- The report and whether an attempt was skipped without a query. -/
structure ReconciliationPass where
  report : PaymentReconciliationReport
  skippedWithoutQuery : Bool
deriving DecidableEq, Repr

def emptyReport : PaymentReconciliationReport := ⟨0, 0, 0, 0, 0, 0, false, false⟩

/-- Account for the status of one attempt; the count it adds to, or the
accounting error that stops the pass. -/
def applyStatus (attempt : PaymentAttempt) (report : PaymentReconciliationReport)
    (status : PaymentStatus) :
    HostProg (Except PaymentAccountingError PaymentReconciliationReport) :=
  if status ≠ .unknown ∧ attempt.mayDiscloseSettlement = false then do
    let now ← clockNow
    let released ← payments (.releaseUninitiatedPayment attempt.paymentHash now)
    pure (released.map fun _ => { report with discarded := report.discarded + 1 })
  else
    match status with
    | .unknown => pure (.ok { report with unresolved := report.unresolved + 1 })
    | .pending =>
      if attempt.state = .reserved then do
        let now ← clockNow
        let marked ← payments (.markPaymentPending attempt.paymentHash now)
        pure (marked.map fun _ => { report with unresolved := report.unresolved + 1 })
      else pure (.ok { report with unresolved := report.unresolved + 1 })
    | .succeeded _ amount fee => do
      let now ← clockNow
      let marked ← payments (.markPaymentSucceeded attempt.paymentHash amount fee now)
      pure (marked.map fun _ => { report with succeeded := report.succeeded + 1 })
    | .failed _ => do
      let now ← clockNow
      let marked ← payments (.markPaymentFailed attempt.paymentHash now)
      pure (marked.map fun _ => { report with failed := report.failed + 1 })

/-- The loop over the selected attempts. -/
def reconcileAttempts : List PaymentAttempt → ReconciliationPass →
    HostProg (Except PaymentAccountingError ReconciliationPass)
  | [], pass => pure (.ok pass)
  | attempt :: rest, pass =>
    if attempt.state = .reserved ∧ attempt.wasInitiated = true then
      reconcileAttempts rest { pass with skippedWithoutQuery := true }
    else do
      let context ← deadlineContext
      match context with
      | none => pure (.ok { pass with report := { pass.report with interrupted := true } })
      | some context => do
        let examined := { pass.report with examined := pass.report.examined + 1 }
        let status ← wallet (.paymentStatus attempt.paymentHash) context
        match status with
        | .error _ =>
          reconcileAttempts rest
            { pass with report := { examined with deferred := examined.deferred + 1 } }
        | .ok status => do
          let updated ← applyStatus attempt examined status
          match updated with
          | .error error => pure (.error error)
          | .ok report => reconcileAttempts rest { pass with report }

/-- `PaymentReconciler::reconcile`. -/
def reconcile (maxAttempts : Nat) :
    HostProg (Except PaymentReconciliationError PaymentReconciliationReport) :=
  if maxAttempts = 0 ∨ maxPaymentReconciliationBatch < maxAttempts then
    pure (.error .invalidBatchSize)
  else do
    let context ← deadlineContext
    match context with
    | none => pure (.ok { emptyReport with interrupted := true, needsRetry := true })
    | some _ => do
      let loaded ← payments (.loadUnresolvedPaymentAttempts maxAttempts)
      match loaded with
      | .error error => pure (.error (.accounting error))
      | .ok (attempts, hasAdditionalAttempts) => do
        let pass ← reconcileAttempts attempts ⟨emptyReport, false⟩
        match pass with
        | .error error => pure (.error (.accounting error))
        | .ok pass =>
          pure (.ok { pass.report with
            needsRetry := hasAdditionalAttempts || pass.skippedWithoutQuery ||
              pass.report.interrupted || pass.report.unresolved != 0 ||
              pass.report.deferred != 0 })

end NwcMobile
