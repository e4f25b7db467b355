import NwcMobile.Foundations.Program
import NwcMobile.Ledger.Operations
import NwcMobile.NostrValidation

/-!
The capabilities a host supplies to the engine, and the operations the engine
performs over them: the ledger, the clock, the deadline, relays, the secret store
and the wallet. The host's answers are unconstrained.
-/

namespace NwcMobile

open Program Prog

inductive HostErrorKind where
  | unavailable
  | timedOut
  | cancelled
  | rejected
  | notFound
  | alreadyInProgress
  | internal
deriving DecidableEq, Repr

structure HostError where
  kind : HostErrorKind
deriving DecidableEq, Repr

def HostError.isRetryable (error : HostError) : Bool :=
  match error.kind with
  | .unavailable | .timedOut | .alreadyInProgress => true
  | _ => false

def HostError.confirmsPaymentWasNotSubmitted (error : HostError) : Bool :=
  match error.kind with
  | .rejected | .notFound => true
  | _ => false

/-- The remaining budget a host call may use. -/
structure OperationContext where
  budget : Duration
deriving DecidableEq, Repr

inductive NwcNotificationType where
  | paymentReceived
  | paymentSent
deriving DecidableEq, Repr

def NwcNotificationType.asStr : NwcNotificationType → String
  | .paymentReceived => "payment_received"
  | .paymentSent => "payment_sent"

/-- Sets iterate in declaration order. -/
structure WalletInfo where
  publicKey : Option PublicKey
  methods : Finset NwcMethod
  notifications : Finset NwcNotificationType
deriving DecidableEq

def WalletInfo.methodList (info : WalletInfo) : List NwcMethod :=
  NwcMethod.all.filter fun method => decide (method ∈ info.methods)

def WalletInfo.notificationList (info : WalletInfo) : List NwcNotificationType :=
  [NwcNotificationType.paymentReceived, .paymentSent].filter fun notification =>
    decide (notification ∈ info.notifications)

structure MakeInvoiceRequest where
  amount : AmountMsat
  description : Option String
  expiry : Duration
deriving DecidableEq, Repr

structure CreatedInvoice where
  invoice : String
  paymentHash : PaymentHash
  amount : AmountMsat
  expiresAt : UnixTimestamp
deriving DecidableEq, Repr

/-- A request to pay, bound to the request event by its idempotency key. -/
structure PayInvoiceRequest where
  invoice : String
  amount : Option AmountMsat
  maximumFee : AmountSat
  idempotencyKey : EventId
deriving DecidableEq, Repr

structure PaymentQuote where
  paymentHash : PaymentHash
  principal : AmountMsat
deriving DecidableEq, Repr

inductive PaymentFailure where
  | invalidInvoice
  | insufficientFunds
  | noRoute
  | recipientRejected
  | other
deriving DecidableEq, Repr

inductive PaymentStatus where
  | unknown
  | pending
  | succeeded (preimage : PaymentPreimage) (amount fee : AmountMsat)
  | failed (reason : PaymentFailure)
deriving DecidableEq, Repr

inductive InvoiceLookup where
  | paymentHash (hash : PaymentHash)
  | invoice (invoice : String)
deriving DecidableEq, Repr

inductive TransactionDirection where
  | incoming
  | outgoing
deriving DecidableEq, Repr

structure WalletTransaction where
  paymentHash : Option PaymentHash
  direction : TransactionDirection
  amount : AmountMsat
  fee : AmountMsat
  createdAt : UnixTimestamp
  settledAt : Option UnixTimestamp
  status : PaymentStatus
deriving DecidableEq, Repr

/-- The limit has 16 bits in the source and the offset 32. Both are plain numbers here: parsing
a request bounds them, and the pages are stated for every number. -/
structure ListTransactionsRequest where
  from? : Option UnixTimestamp
  until? : Option UnixTimestamp
  limit : Nat
  offset : Nat
  direction : Option TransactionDirection
  includeUnpaid : Bool
deriving DecidableEq, Repr

/-- The platform-independent fields of a wake notification. -/
structure WakeInput where
  relay : String
  eventId : EventId
  walletServicePubkey : PublicKey
  embeddedEventJson : Option String
deriving DecidableEq, Repr

inductive NotificationHint where
  | processing
  | completed
  | request (method : NwcMethod)
  | openApplication
deriving DecidableEq, Repr

inductive QueueReason where
  | deadline
  | secureStorageUnavailable
  | walletUnavailable
  | unsupportedInBackground
  | ledgerBusy
deriving DecidableEq, Repr

inductive RetryReason where
  | relayUnavailable
  | walletUnavailable
  | responsePublishFailed
  | responsePersistenceFailed
  | registrationUnavailable
deriving DecidableEq, Repr

inductive RejectionCode where
  | invalidWakePayload
  | connectionUnavailable
  | relayNotAllowed
  | eventMismatch
  | invalidEvent
  | invalidRequest
  | eventOutsideFreshnessWindow
  | methodNotAllowed
  | budgetExceeded
deriving DecidableEq, Repr

/-- The platform-neutral result of executing a wake. -/
inductive WakeDisposition where
  | completed (notification : NotificationHint)
  | alreadyProcessed (notification : NotificationHint)
  | queuedForApplication (reason : QueueReason) (notification : NotificationHint)
  | retryAfter (delay : Duration) (reason : RetryReason) (notification : NotificationHint)
  | rejected (code : RejectionCode) (notification : NotificationHint)
deriving DecidableEq, Repr

inductive WakeDiagnosticCode where
  | paymentRequestAccepted
  | paymentQuoteFailed
  | paymentBudgetExceeded
  | paymentStatusLookupFailed
  | paymentInsufficientFunds
  | paymentBackendFailed
  | paymentPending
  | paymentSucceeded
  | responsePublishFailed
deriving DecidableEq, Repr

/-- The wallet backend's interface. -/
inductive WalletOp where
  | getInfo
  | getBalance
  | makeInvoice (request : MakeInvoiceRequest)
  | quotePayment (invoice : String) (amount : Option AmountMsat)
  | paymentStatus (paymentHash : PaymentHash)
  | startPayment (request : PayInvoiceRequest)
  | lookupInvoice (request : InvoiceLookup)
  | listTransactions (request : ListTransactionsRequest)
deriving DecidableEq, Repr

abbrev WalletOp.Value : WalletOp → Type
  | .getInfo => WalletInfo
  | .getBalance => AmountMsat
  | .makeInvoice _ => CreatedInvoice
  | .quotePayment .. => PaymentQuote
  | .paymentStatus _ => PaymentStatus
  | .startPayment _ => PaymentStatus
  | .lookupInvoice _ => Option WalletTransaction
  | .listTransactions _ => List WalletTransaction

/-- Everything a component asks of its environment. -/
inductive HostOp where
  | ledger (op : LedgerOp)
  | clockNow
  | isCancelled
  | deadlineRemaining
  | nonce
  | fetchEvent (relay : SecureRelayUrl) (eventId : EventId) (maximumEventBytes : Nat)
      (context : OperationContext)
  | publishEvent (relay : SecureRelayUrl) (eventJson : String) (context : OperationContext)
  | loadNwcSecret (connectionId : ConnectionId) (context : OperationContext)
  | wallet (op : WalletOp) (context : OperationContext)
  | recordDiagnostic (code : WakeDiagnosticCode)

abbrev HostOp.Reply : HostOp → Type
  | .ledger op => op.Reply
  | .clockNow => UnixTimestamp
  | .isCancelled => Bool
  | .deadlineRemaining => Duration
  | .nonce => BitVec 256
  | .fetchEvent .. => Except HostError (Option String)
  | .publishEvent .. => Except HostError Unit
  | .loadNwcSecret .. => Except HostError NwcSecretKey
  | .wallet op _ => Except HostError op.Value
  | .recordDiagnostic _ => Unit

abbrev HostProg (α : Type) := Prog HostOp HostOp.Reply α

abbrev HostCall := Call HostOp HostOp.Reply

abbrev HostLog := Log HostOp HostOp.Reply

def ask (op : HostOp) : HostProg op.Reply := perform op

def registry (op : RegistryOp) : HostProg (Except RegistryError op.Value) :=
  ask (.ledger (.registry op))

def payments (op : PaymentOp) : HostProg (Except PaymentAccountingError op.Value) :=
  ask (.ledger (.payment op))

def claims (op : ClaimOp) : HostProg (Except LedgerError op.Value) :=
  ask (.ledger (.claim op))

def records (op : RecordOp) : HostProg (Except LedgerError op.Value) :=
  ask (.ledger (.record op))

def wallet (op : WalletOp) (context : OperationContext) : HostProg (Except HostError op.Value) :=
  ask (.wallet op context)

def clockNow : HostProg UnixTimestamp := ask .clockNow

def recordDiagnostic (code : WakeDiagnosticCode) : HostProg Unit := ask (.recordDiagnostic code)

/-- `OperationDeadline::remaining`: what the monotonic clock leaves of the budget. -/
def deadlineRemaining : HostProg Duration := ask .deadlineRemaining

/-- `OperationDeadline::context`: nothing once cancelled or out of time. -/
def deadlineContext : HostProg (Option OperationContext) := do
  let cancelled ← ask .isCancelled
  if cancelled then pure none
  else do
    let remaining ← deadlineRemaining
    pure (if remaining.isZero then none else some ⟨remaining⟩)

end NwcMobile
