import NwcMobile.Engine.Responses

/-!
The payment path: quoting, reserving, marking and starting one payment, and
accounting for whatever status the wallet reports.
-/

namespace NwcMobile

open Program Prog Nip47

def maximumInvoiceBytes : Nat := 16384

def msatToSatCeil (amountMsat : AmountMsat) : Option Nat :=
  (checkedAdd amountMsat 999).map (· / 1000)

def paymentFailureCode : PaymentFailure → ErrorCode
  | .insufficientFunds => .insufficientBalance
  | .invalidInvoice | .noRoute | .recipientRejected | .other => .paymentFailed

def failureDiagnostic : PaymentFailure → WakeDiagnosticCode
  | .insufficientFunds => .paymentInsufficientFunds
  | _ => .paymentBackendFailed

/-- `TrackedNwcPayment::new`. -/
def TrackedNwcPayment.new (eventId : EventId) (paymentHash : PaymentHash)
    (connection : ActiveConnection) (invoice : String) (amount fee : AmountMsat)
    (preimage : PaymentPreimage) (createdAt settledAt : UnixTimestamp) : TrackedNwcPayment where
  requestEventId := eventId
  paymentHash := paymentHash
  connectionId := connection.id
  connectionRevision := connection.revision
  invoice := invoice
  amount := amount
  fee := fee
  preimage := preimage
  createdAt := createdAt
  settledAt := settledAt
  notificationEventJson := none

variable (x : Crates)

def paymentError (r : ClaimedRequest) (errorCode : ErrorCode) (rejection : RejectionCode) :
    HostProg WakeDisposition :=
  respondWithError x r .payInvoice errorCode rejection

/-- Record that the payment may still settle and hand the claim back. -/
def keepPending (r : ClaimedRequest) (paymentHash : PaymentHash) : HostProg WakeDisposition := do
  let now ← clockNow
  let marked ← payments (.markPaymentPending paymentHash now)
  match marked with
  | .error _ => releaseToApplication r.lease .ledgerBusy
  | .ok _ => retryClaim r.lease .walletUnavailable

def finishSucceeded (r : ClaimedRequest) (invoice : String) (paymentHash : PaymentHash)
    (preimage : PaymentPreimage) (amount fee : AmountMsat) : HostProg WakeDisposition := do
  recordDiagnostic .paymentSucceeded
  let settledAt ← clockNow
  let marked ← payments (.markPaymentSucceeded paymentHash amount fee settledAt)
  match marked with
  | .error _ => releaseToApplication r.lease .ledgerBusy
  | .ok _ => do
    let recorded ← records (.recordNwcSentPayment
      (.new r.validated.id paymentHash r.connection invoice amount fee preimage settledAt settledAt)
      r.connection.relays)
    match recorded with
    | .error _ => releaseToApplication r.lease .ledgerBusy
    | .ok _ => do
      let active ← ensureClaimConnectionActive r.connection r.lease
      match active with
      | .error disposition => pure disposition
      | .ok _ =>
        commitAndPublish x r
          ⟨.payInvoice, none, some (.payInvoice (Hex32.toHex preimage.bytes) (some fee))⟩

def finishPaymentStatus (r : ClaimedRequest) (invoice : String) (paymentHash : PaymentHash)
    (status : PaymentStatus) : HostProg WakeDisposition :=
  match status with
  | .unknown | .pending => do
    recordDiagnostic .paymentPending
    keepPending r paymentHash
  | .succeeded preimage amount fee => finishSucceeded x r invoice paymentHash preimage amount fee
  | .failed reason => do
    recordDiagnostic (failureDiagnostic reason)
    let now ← clockNow
    let marked ← payments (.markPaymentFailed paymentHash now)
    match marked with
    | .error _ => releaseToApplication r.lease .ledgerBusy
    | .ok _ => paymentError x r (paymentFailureCode reason) .invalidRequest

/-- Cross the host boundary and account for the answer. -/
def startPayment (r : ClaimedRequest) (invoice : String) (explicitAmount : Option AmountMsat)
    (attempt : PaymentAttempt) : HostProg WakeDisposition := do
  let context ← deadlineContext
  match context with
  | none => retryClaim r.lease .walletUnavailable
  | some context => do
    let started ← wallet (.startPayment
      ⟨invoice, explicitAmount, attempt.feeReserveSat, r.validated.id⟩) context
    match started with
    | .ok status => finishPaymentStatus x r invoice attempt.paymentHash status
    | .error error =>
      if error.confirmsPaymentWasNotSubmitted then
        finishPaymentStatus x r invoice attempt.paymentHash (.failed .other)
      else do
        recordDiagnostic .paymentBackendFailed
        keepPending r attempt.paymentHash

/-- The marker is written before the host boundary is crossed, unless the
attempt already carries it. -/
def initiatePayment (r : ClaimedRequest) (invoice : String) (explicitAmount : Option AmountMsat)
    (attempt : PaymentAttempt) : HostProg WakeDisposition :=
  if attempt.wasInitiated then startPayment x r invoice explicitAmount attempt
  else do
    let context ← deadlineContext
    match context with
    | none => retryClaim r.lease .walletUnavailable
    | some _ => do
      let now ← clockNow
      let marked ← payments (.markPaymentInitiated attempt.paymentHash now)
      match marked with
      | .error _ => releaseToApplication r.lease .ledgerBusy
      | .ok _ => startPayment x r invoice explicitAmount attempt

/-- The end of `continue_payment`, once no earlier status settles the matter. -/
def resumePayment (r : ClaimedRequest) (invoice : String) (explicitAmount : Option AmountMsat)
    (attempt : PaymentAttempt) : HostProg WakeDisposition := do
  let active ← ensureClaimConnectionActive r.connection r.lease
  match active with
  | .error disposition => pure disposition
  | .ok _ =>
    if attempt.state = .succeeded then retryClaim r.lease .walletUnavailable
    else initiatePayment x r invoice explicitAmount attempt

/-- A status observed before this attempt crossed the host boundary belongs to
another payer: the reservation is released and the status is not disclosed. -/
def discardForeignStatus (r : ClaimedRequest) (attempt : PaymentAttempt) :
    HostProg WakeDisposition := do
  let now ← clockNow
  let released ← payments (.releaseUninitiatedPayment attempt.paymentHash now)
  match released with
  | .error _ => releaseToApplication r.lease .ledgerBusy
  | .ok _ => paymentError x r .other .invalidRequest

/-- The part of `continue_payment` that consults the wallet first. -/
def checkPaymentStatus (r : ClaimedRequest) (invoice : String)
    (explicitAmount : Option AmountMsat) (attempt : PaymentAttempt) :
    HostProg WakeDisposition := do
  let context ← deadlineContext
  match context with
  | none => retryClaim r.lease .walletUnavailable
  | some context => do
    let status ← wallet (.paymentStatus attempt.paymentHash) context
    match status with
    | .error _ => do
      recordDiagnostic .paymentStatusLookupFailed
      retryClaim r.lease .walletUnavailable
    | .ok .unknown => resumePayment x r invoice explicitAmount attempt
    | .ok status =>
      if attempt.mayDiscloseSettlement then
        finishPaymentStatus x r invoice attempt.paymentHash status
      else discardForeignStatus x r attempt

/-- `continue_payment`: continue a durable attempt without quoting it again. -/
def continuePayment (r : ClaimedRequest) (invoice : String) (explicitAmount : Option AmountMsat)
    (attempt : PaymentAttempt) : HostProg WakeDisposition :=
  if attempt.legacyInitiationAmbiguous then paymentError x r .other .invalidRequest
  else if attempt.state = .failed then do
    let active ← ensureClaimConnectionActive r.connection r.lease
    match active with
    | .error disposition => pure disposition
    | .ok _ => paymentError x r .paymentFailed .invalidRequest
  else if attempt.state = .reserved ∧ attempt.wasInitiated = true then
    resumePayment x r invoice explicitAmount attempt
  else checkPaymentStatus x r invoice explicitAmount attempt

def reserveQuoted (r : ClaimedRequest) (payment : Nip47.PayInvoiceRequest)
    (paymentHash : PaymentHash) (principalSat : Nat) : HostProg WakeDisposition := do
  let now ← clockNow
  let reservation ← payments (.reservePayment r.validated.id paymentHash r.connection principalSat now)
  match reservation with
  | .ok (.reserved attempt) => continuePayment x r payment.invoice payment.amount attempt
  | .ok (.existing attempt) => continuePayment x r payment.invoice payment.amount attempt
  | .ok (.alreadyTracked _) => paymentError x r .rateLimited .invalidRequest
  | .error .budgetExceeded => do
    recordDiagnostic .paymentBudgetExceeded
    paymentError x r .quotaExceeded .budgetExceeded
  | .error .connectionUnavailable => rejectClaim r.lease .connectionUnavailable
  | .error .invalidAmount | .error .valueOutOfRange | .error .reservationConflict =>
    paymentError x r .other .invalidRequest
  | .error _ => releaseToApplication r.lease .ledgerBusy

/-- A new payment is quoted and reserved before anything else happens. -/
def quotePayment (r : ClaimedRequest) (payment : Nip47.PayInvoiceRequest) :
    HostProg WakeDisposition := do
  let context ← deadlineContext
  match context with
  | none => releaseToApplication r.lease .deadline
  | some context => do
    let quote ← wallet (.quotePayment payment.invoice payment.amount) context
    match quote with
    | .error error => do
      recordDiagnostic .paymentQuoteFailed
      if error.isRetryable then retryClaim r.lease .walletUnavailable
      else if error.kind = .cancelled then releaseToApplication r.lease .deadline
      else paymentError x r .other .invalidRequest
    | .ok quote =>
      match msatToSatCeil quote.principal with
      | none => paymentError x r .other .invalidRequest
      | some principalSat =>
        if principalSat = 0 then paymentError x r .other .invalidRequest
        else reserveQuoted x r payment quote.paymentHash principalSat

def executePayment (r : ClaimedRequest) (payment : Nip47.PayInvoiceRequest) :
    HostProg WakeDisposition := do
  let existing ← payments (.loadPaymentAttemptByEvent r.validated.id)
  match existing with
  | .error _ => releaseToApplication r.lease .ledgerBusy
  | .ok (some attempt) =>
    if attempt.connectionId ≠ r.connection.id ∨
        attempt.connectionRevision ≠ r.connection.revision then
      paymentError x r .other .invalidRequest
    else continuePayment x r payment.invoice payment.amount attempt
  | .ok none =>
    if payment.invoice.isEmpty || decide (payment.invoice.utf8ByteSize > maximumInvoiceBytes) then
      paymentError x r .other .invalidRequest
    else quotePayment x r payment

end NwcMobile
