import NwcMobile.Host

/-!
The notification worker: one bounded pass over the sent payments and the created
invoices that still owe a notification. A record is published to its relays, and
then completed, discarded or kept for another pass.
-/

namespace NwcMobile

open Program Prog Fallible

namespace Nip47

/-- The payload of a settled payment; its metadata are never set. -/
structure PaymentNotification where
  transactionType : Option TransactionType
  state : Option TransactionState
  invoice : String
  description : Option String
  descriptionHash : Option String
  preimage : String
  paymentHash : String
  amount : Nat
  feesPaid : Nat
  createdAt : Nat
  expiresAt : Option Nat
  settledAt : Nat
deriving DecidableEq, Repr

inductive Notification where
  | paymentReceived (notification : PaymentNotification)
  | paymentSent (notification : PaymentNotification)
deriving DecidableEq, Repr

end Nip47

inductive InvoiceNotificationError where
  | ledger
  | wallet
  | secret
  | build
deriving DecidableEq, Repr

/-- Counts from one bounded pass. -/
structure InvoiceNotificationWorkerReport where
  inspected : Nat
  pending : Nat
  expired : Nat
  delivered : Nat
  retryable : Nat
deriving DecidableEq, Repr

namespace InvoiceNotificationWorkerReport

def empty : InvoiceNotificationWorkerReport := ⟨0, 0, 0, 0, 0⟩

/-- Whether another worker pass is required. -/
def hasPendingWork (report : InvoiceNotificationWorkerReport) : Bool :=
  decide (report.pending > 0) || decide (report.retryable > 0)

end InvoiceNotificationWorkerReport

/-- Records one pass reads of each kind. -/
def defaultBatchSize : Nat := 20

def settlementReconciliationGraceSeconds : Nat := 24 * 60 * 60

def notificationKind : Nat := 23197

/-- The kind of a notification for a client that speaks the older encryption. -/
def walletConnectNotificationKind : Nat := 23196

section Events

variable (x : Crates) (asJson : Nip47.Notification → String)

/-- `nonce` is what the random source yields to the encryption and the signature. -/
def buildNotificationEvent (connection : ActiveConnection) (walletSecret : NwcSecretKey)
    (plaintext : String) (createdAt : UnixTimestamp) (nonce : BitVec 256) :
    Except InvoiceNotificationError String := do
  let publicKey ← okOr (x.secretPublicKey walletSecret) .secret
  ensure (publicKey == connection.walletServicePubkey) .secret
  let recipient := ["p", Hex32.toHex connection.clientPubkey.bytes]
  let content ← okOr
    (x.encrypt connection.encryption walletSecret connection.clientPubkey plaintext nonce) .build
  let event : UnsignedEvent :=
    match connection.encryption with
    | .nip44V2 => ⟨notificationKind, [recipient, ["encryption", "nip44_v2"]], createdAt, content⟩
    | .legacyNip04 => ⟨walletConnectNotificationKind, [recipient], createdAt, content⟩
  okOr (x.signEvent walletSecret event nonce) .build

def buildPaymentReceivedNotificationEvent (connection : ActiveConnection)
    (walletSecret : NwcSecretKey) (invoice : TrackedNwcInvoice) (transaction : WalletTransaction)
    (nonce : BitVec 256) : Except InvoiceNotificationError String :=
  match transaction.status with
  | .succeeded preimage amount fee => do
    ensure (transaction.direction == .incoming &&
      transaction.paymentHash == some invoice.paymentHash) .build
    let settledAt ← okOr transaction.settledAt .build
    let notification : Nip47.PaymentNotification :=
      { transactionType := some .incoming, state := some .settled, invoice := invoice.invoice
        description := invoice.description, descriptionHash := none
        preimage := Hex32.toHex preimage.bytes, paymentHash := Hex32.toHex invoice.paymentHash.bytes
        amount, feesPaid := fee, createdAt := invoice.createdAt
        expiresAt := some invoice.expiresAt, settledAt }
    buildNotificationEvent x connection walletSecret (asJson (.paymentReceived notification))
      settledAt nonce
  | .unknown | .pending | .failed _ => .error .build

def buildPaymentSentNotificationEvent (connection : ActiveConnection)
    (walletSecret : NwcSecretKey) (payment : TrackedNwcPayment) (nonce : BitVec 256) :
    Except InvoiceNotificationError String :=
  let notification : Nip47.PaymentNotification :=
    { transactionType := some .outgoing, state := some .settled, invoice := payment.invoice
      description := none, descriptionHash := none
      preimage := Hex32.toHex payment.preimage.bytes
      paymentHash := Hex32.toHex payment.paymentHash.bytes, amount := payment.amount
      feesPaid := payment.fee, createdAt := payment.createdAt, expiresAt := none
      settledAt := payment.settledAt }
  buildNotificationEvent x connection walletSecret (asJson (.paymentSent notification))
    payment.settledAt nonce

end Events

namespace InvoiceNotificationWorker

def notifications (op : NotificationOp) : HostProg (Except LedgerError op.Value) :=
  records (.notification op)

/-- `map_err(..)?`: continue with a result, or give up with the error. -/
def orFail {ε α β : Type} (error : InvoiceNotificationError) (step : HostProg (Except ε α))
    (next : α → HostProg (Except InvoiceNotificationError β)) :
    HostProg (Except InvoiceNotificationError β) := do
  let reply ← step
  match reply with
  | .ok value => next value
  | .error _ => pure (.error error)

/-- The connection a record was made under, as long as it is active at that revision. -/
def recordConnection {β : Type} (connectionId : ConnectionId) (revision : ConnectionRevision)
    (next : Option ActiveConnection → HostProg (Except InvoiceNotificationError β)) :
    HostProg (Except InvoiceNotificationError β) :=
  orFail .ledger (registry (.loadActiveConnection connectionId)) fun connection =>
    next (connection.filter fun c => c.revision == revision)

/-- The relay loop: whether some relay could not be reached. Every acknowledgement is
stored before the next relay is tried. -/
def publishToRelays (context : HostProg (Option OperationContext))
    (acknowledge : SecureRelayUrl → UnixTimestamp → HostProg (Except LedgerError Unit))
    (eventJson : String) :
    List SecureRelayUrl → Bool → HostProg (Except InvoiceNotificationError Bool)
  | [], failed => pure (.ok failed)
  | relay :: rest, failed => do
    let granted ← context
    match granted with
    | none => pure (.ok true)
    | some granted => do
      let published ← ask (.publishEvent relay eventJson granted)
      match published with
      | .ok _ => do
        let now ← clockNow
        orFail .ledger (acknowledge relay now) fun _ =>
          publishToRelays context acknowledge eventJson rest failed
      | .error _ => publishToRelays context acknowledge eventJson rest true

/-- Publish a record's event to the relays that are owed it, and retire the record once
every one of them has it. -/
def deliver (undelivered : HostProg (Except LedgerError (List SecureRelayUrl)))
    (context : HostProg (Option OperationContext))
    (acknowledge : SecureRelayUrl → UnixTimestamp → HostProg (Except LedgerError Unit))
    (complete : UnixTimestamp → HostProg (Except LedgerError Unit)) (eventJson : String)
    (report : InvoiceNotificationWorkerReport) :
    HostProg (Except InvoiceNotificationError InvoiceNotificationWorkerReport) :=
  orFail .ledger undelivered fun relays => do
    let failed ← publishToRelays context acknowledge eventJson relays false
    match failed with
    | .error error => pure (.error error)
    | .ok true => pure (.ok { report with retryable := report.retryable + 1 })
    | .ok false => do
      let now ← clockNow
      orFail .ledger (complete now) fun _ =>
        pure (.ok { report with delivered := report.delivered + 1 })

def deliverSent (eventId : EventId) :
    String → InvoiceNotificationWorkerReport →
      HostProg (Except InvoiceNotificationError InvoiceNotificationWorkerReport) :=
  deliver (notifications (.undeliveredNwcSentRelays eventId)) deadlineContext
    (fun relay now => notifications (.acknowledgeNwcSentRelay eventId relay now))
    fun now => notifications (.completeNwcSentNotification eventId now)

/-- The invoice loop asks once more whether it is cancelled. -/
def cancellableContext : HostProg (Option OperationContext) := do
  let cancelled ← ask .isCancelled
  if cancelled then pure none else deadlineContext

/-- The source completes an invoice without relays left at once, which is what an empty
loop leads to. -/
def deliverInvoice (eventId : EventId) :
    String → InvoiceNotificationWorkerReport →
      HostProg (Except InvoiceNotificationError InvoiceNotificationWorkerReport) :=
  deliver (notifications (.undeliveredNwcInvoiceRelays eventId)) cancellableContext
    (fun relay now => notifications (.acknowledgeNwcInvoiceRelay eventId relay now))
    fun now => notifications (.completeNwcInvoiceNotification eventId now)

variable (x : Crates) (asJson : Nip47.Notification → String)

/-- The event stored for a payment, or one built and stored now; none without time. -/
def sentEvent (connection : ActiveConnection) (payment : TrackedNwcPayment) :
    HostProg (Except InvoiceNotificationError (Option String)) :=
  match payment.notificationEventJson with
  | some event => pure (.ok (some event))
  | none => do
    let context ← deadlineContext
    match context with
    | none => pure (.ok none)
    | some context =>
      orFail .secret (ask (.loadNwcSecret connection.id context)) fun secret => do
        let nonce ← ask .nonce
        match buildPaymentSentNotificationEvent x asJson connection secret payment nonce with
        | .error error => pure (.error error)
        | .ok proposed =>
          orFail .ledger
            (notifications (.storeNwcSentNotificationEvent payment.requestEventId proposed))
            fun event => pure (.ok (some event))

/-- The body of the payment loop, after the payment is counted as inspected. -/
def processPayment (payment : TrackedNwcPayment) (report : InvoiceNotificationWorkerReport) :
    HostProg (Except InvoiceNotificationError (ForInStep InvoiceNotificationWorkerReport)) :=
  recordConnection payment.connectionId payment.connectionRevision fun connection =>
    match connection with
    | none =>
      orFail .ledger (notifications (.discardNwcSentPayment payment.requestEventId)) fun _ =>
        pure (.ok (.yield { report with expired := report.expired + 1 }))
    | some connection => do
      let event ← sentEvent x asJson connection payment
      match event with
      | .error error => pure (.error error)
      | .ok none => pure (.ok (.done { report with retryable := report.retryable + 1 }))
      | .ok (some event) => do
        let delivered ← deliverSent payment.requestEventId event report
        pure (delivered.map .yield)

/-- The payment loop: cancellation ends it before the next payment is counted. -/
def processPayments : List TrackedNwcPayment → InvoiceNotificationWorkerReport →
    HostProg (Except InvoiceNotificationError InvoiceNotificationWorkerReport)
  | [], report => pure (.ok report)
  | payment :: rest, report => do
    let cancelled ← ask .isCancelled
    if cancelled then pure (.ok report)
    else do
      let step ← processPayment x asJson payment { report with inspected := report.inspected + 1 }
      match step with
      | .error error => pure (.error error)
      | .ok (.done report) => pure (.ok report)
      | .ok (.yield report) => processPayments rest report

def deferOrExpireInvoice (invoice : TrackedNwcInvoice) (report : InvoiceNotificationWorkerReport) :
    HostProg (Except InvoiceNotificationError InvoiceNotificationWorkerReport) := do
  let staleAt := min (invoice.expiresAt + settlementReconciliationGraceSeconds) (2 ^ 64 - 1)
  let now ← clockNow
  if now ≥ staleAt then do
    let completedAt ← clockNow
    orFail .ledger (notifications (.expireNwcInvoice invoice.requestEventId completedAt)) fun _ =>
      pure (.ok { report with expired := report.expired + 1 })
  else pure (.ok { report with pending := report.pending + 1 })

/-- When the wallet saw the settlement, or now. -/
def settlementTime (transaction : WalletTransaction) : HostProg UnixTimestamp :=
  match transaction.settledAt with
  | some settledAt => pure settledAt
  | none => clockNow

/-- An invoice the wallet reports as paid: build, store and publish its event. -/
def notifyReceived (invoice : TrackedNwcInvoice) (transaction : WalletTransaction)
    (report : InvoiceNotificationWorkerReport) :
    HostProg (Except InvoiceNotificationError InvoiceNotificationWorkerReport) :=
  recordConnection invoice.connectionId invoice.connectionRevision fun connection =>
    match connection with
    | none => do
      let now ← clockNow
      orFail .ledger (notifications (.expireNwcInvoice invoice.requestEventId now)) fun _ =>
        pure (.ok { report with expired := report.expired + 1 })
    | some connection => do
      let context ← deadlineContext
      match context with
      | none => pure (.ok { report with retryable := report.retryable + 1 })
      | some context =>
        orFail .secret (ask (.loadNwcSecret connection.id context)) fun secret => do
          let nonce ← ask .nonce
          match buildPaymentReceivedNotificationEvent x asJson connection secret invoice
              transaction nonce with
          | .error error => pure (.error error)
          | .ok proposed => do
            let createdAt ← settlementTime transaction
            orFail .ledger (notifications
              (.storeNwcInvoiceNotificationEvent invoice.requestEventId proposed createdAt))
              fun event => deliverInvoice invoice.requestEventId event report

/-- Ask the wallet whether an invoice without an event was paid. -/
def lookupAndNotify (invoice : TrackedNwcInvoice) (report : InvoiceNotificationWorkerReport) :
    HostProg (Except InvoiceNotificationError InvoiceNotificationWorkerReport) := do
  let context ← deadlineContext
  match context with
  | none => pure (.ok { report with retryable := report.retryable + 1 })
  | some context => do
    let found ← wallet (.lookupInvoice (.paymentHash invoice.paymentHash)) context
    match found with
    | .error _ => pure (.ok { report with retryable := report.retryable + 1 })
    | .ok none => deferOrExpireInvoice invoice report
    | .ok (some transaction) =>
      match transaction.status with
      | .succeeded .. => notifyReceived x asJson invoice transaction report
      | .unknown | .pending | .failed _ => deferOrExpireInvoice invoice report

def processInvoice (invoice : TrackedNwcInvoice) (report : InvoiceNotificationWorkerReport) :
    HostProg (Except InvoiceNotificationError InvoiceNotificationWorkerReport) := do
  let report := { report with inspected := report.inspected + 1 }
  let now ← clockNow
  orFail .ledger (notifications (.touchNwcInvoice invoice.requestEventId now)) fun _ =>
    match invoice.notificationEventJson with
    | some event => deliverInvoice invoice.requestEventId event report
    | none => lookupAndNotify x asJson invoice report

def processInvoices : List TrackedNwcInvoice → InvoiceNotificationWorkerReport →
    HostProg (Except InvoiceNotificationError InvoiceNotificationWorkerReport)
  | [], report => pure (.ok report)
  | invoice :: rest, report => do
    let cancelled ← ask .isCancelled
    if cancelled then pure (.ok report)
    else do
      let processed ← processInvoice x asJson invoice report
      match processed with
      | .error error => pure (.error error)
      | .ok report => processInvoices rest report

/-- `run_scoped`: the payments first, then the invoices. -/
def runScoped (walletServicePubkey : Option PublicKey) :
    HostProg (Except InvoiceNotificationError InvoiceNotificationWorkerReport) :=
  orFail .ledger
    (match walletServicePubkey with
    | some publicKey =>
      notifications (.pendingNwcSentPaymentsForWallet publicKey defaultBatchSize)
    | none => notifications (.pendingNwcSentPayments defaultBatchSize)) fun payments => do
      let sent ← processPayments x asJson payments .empty
      match sent with
      | .error error => pure (.error error)
      | .ok report =>
        orFail .ledger
          (match walletServicePubkey with
          | some publicKey => notifications (.pendingNwcInvoicesForWallet publicKey defaultBatchSize)
          | none => notifications (.pendingNwcInvoices defaultBatchSize)) fun invoices =>
            processInvoices x asJson invoices report

def run : HostProg (Except InvoiceNotificationError InvoiceNotificationWorkerReport) :=
  runScoped x asJson none

def runForWallet (walletServicePubkey : PublicKey) :
    HostProg (Except InvoiceNotificationError InvoiceNotificationWorkerReport) :=
  runScoped x asJson (some walletServicePubkey)

/-- One exact invoice, ahead of the older ones. -/
def runInvoice (requestEventId : EventId) :
    HostProg (Except InvoiceNotificationError InvoiceNotificationWorkerReport) :=
  orFail .ledger (notifications (.pendingNwcInvoice requestEventId)) fun invoice =>
    match invoice with
    | none => pure (.ok .empty)
    | some invoice => processInvoice x asJson invoice .empty

end InvoiceNotificationWorker

end NwcMobile
