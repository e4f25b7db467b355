import NwcMobile.Ledger.Events

/-!
The durable records the engine leaves for the notification worker, invoices it
created and payments it settled for a request, and what the worker does to them
while it delivers their notifications.
-/

namespace NwcMobile

open Fallible Relational

/-- A durable invoice created for one authenticated request. -/
structure TrackedNwcInvoice where
  requestEventId : EventId
  paymentHash : PaymentHash
  connectionId : ConnectionId
  connectionRevision : ConnectionRevision
  invoice : String
  description : Option String
  amount : AmountMsat
  createdAt : UnixTimestamp
  expiresAt : UnixTimestamp
  notificationEventJson : Option String
deriving DecidableEq

/-- A successful outgoing payment awaiting `payment_sent` delivery. -/
structure TrackedNwcPayment where
  requestEventId : EventId
  paymentHash : PaymentHash
  connectionId : ConnectionId
  connectionRevision : ConnectionRevision
  invoice : String
  amount : AmountMsat
  fee : AmountMsat
  preimage : PaymentPreimage
  createdAt : UnixTimestamp
  settledAt : UnixTimestamp
  notificationEventJson : Option String
deriving DecidableEq

namespace Notifications

def sqliteI64 (value : Nat) : Except LedgerError Nat := i64TryFrom value .valueOutOfRange

def decodeInvoice (row : CreatedInvoiceRow) : Except LedgerError TrackedNwcInvoice := do
  let connectionId ← mapErr (ConnectionId.parse row.connectionId) .databaseUnavailable
  pure
    { requestEventId := row.requestEventId, paymentHash := row.paymentHash, connectionId
      connectionRevision := row.connectionRevision, invoice := row.invoice
      description := row.description, amount := row.amountMsat, createdAt := row.createdAt
      expiresAt := row.expiresAt, notificationEventJson := row.notificationEventJson }

def decodeSentPayment (row : SentPaymentRow) : Except LedgerError TrackedNwcPayment := do
  let connectionId ← mapErr (ConnectionId.parse row.connectionId) .databaseUnavailable
  pure
    { requestEventId := row.requestEventId, paymentHash := row.paymentHash, connectionId
      connectionRevision := row.connectionRevision, invoice := row.invoice
      amount := row.amountMsat, fee := row.feeMsat, preimage := row.preimage
      createdAt := row.createdAt, settledAt := row.settledAt
      notificationEventJson := row.notificationEventJson }

/-- The relay rows of a record, skipping positions that are already present. -/
def insertRelays (table : Table notificationRelaySchema) (eventId : EventId)
    (relays : List SecureRelayUrl) : Except LedgerError (Table notificationRelaySchema) :=
  relays.zipIdx.foldlM (fun t entry => do
    let position ← sqliteI64 entry.2
    okOr (t.insertOrIgnore (fun r => r.requestEventId == eventId && r.position == position)
      ⟨eventId, position, entry.1.value, none⟩) .databaseUnavailable) table

def maxPendingBatch : Nat := 100

/-- The limit of a batch of pending records. -/
def pendingLimit (maximum : Nat) : Except LedgerError Nat := do
  ensure (!(maximum == 0 || decide (maximum > maxPendingBatch))) .invalidPruneBatch
  sqliteI64 maximum

def checkNotificationEvent (json : String) : Except LedgerError Unit :=
  ensure (!(json.isEmpty || decide (json.utf8ByteSize > maxNotificationEventBytes)))
    .responseTooLarge

/-- Some relay of the record has not received its notification yet. -/
def undelivered (table : Table notificationRelaySchema) (eventId : EventId) : Bool :=
  table.any fun r => r.requestEventId == eventId && r.deliveredAt.isNone

/-- The relays a notification has not reached yet, in order. -/
def undeliveredRelays (x : Crates) (table : Table notificationRelaySchema) (eventId : EventId) :
    Except LedgerError (List SecureRelayUrl) :=
  ((table.select fun r => r.requestEventId == eventId && r.deliveredAt.isNone).insertionSort
    fun a b => a.position ≤ b.position).mapM fun r =>
      mapErr (SecureRelayUrl.parse x r.relayUrl) .corruptData

/-- Mark a relay of a record as delivered, once. -/
def acknowledgeRelay (table : Table notificationRelaySchema) (eventId : EventId)
    (relay : SecureRelayUrl) (deliveredAt : UnixTimestamp) :
    Except LedgerError (Table notificationRelaySchema) := do
  let deliveredAt ← sqliteI64 deliveredAt
  okOr (table.update
    (fun r => r.requestEventId == eventId && r.relayUrl == relay.value && r.deliveredAt.isNone)
    fun r => { r with deliveredAt := some deliveredAt }) .databaseUnavailable

end Notifications

namespace Ledger

open Notifications

variable (l : Ledger)

/-- The foreign key of a record on its connection. -/
def hasConnection (id : String) : Bool := l.connections.any fun c => c.connectionId == id

def recordNwcSentPayment (payment : TrackedNwcPayment) (relays : List SecureRelayUrl) :
    Except LedgerError (Unit × Ledger) := do
  ensure (!(payment.invoice.isEmpty || decide (payment.invoice.utf8ByteSize > maxInvoiceBytes)))
    .corruptData
  let revision ← sqliteI64 payment.connectionRevision
  let amount ← sqliteI64 payment.amount
  let fee ← sqliteI64 payment.fee
  let createdAt ← sqliteI64 payment.createdAt
  let settledAt ← sqliteI64 payment.settledAt
  let sentPayments ← okOr (l.sentPayments.insertOrIgnore
    (fun r => r.requestEventId == payment.requestEventId)
    { requestEventId := payment.requestEventId, paymentHash := payment.paymentHash
      connectionId := payment.connectionId.value, connectionRevision := revision
      invoice := payment.invoice, amountMsat := amount, feeMsat := fee
      preimage := payment.preimage, createdAt, settledAt
      notificationEventJson := none, completedAt := none }) .databaseUnavailable
  ensure (l.sentPayments.any (fun r => r.requestEventId == payment.requestEventId) ||
    l.hasConnection payment.connectionId.value) .databaseUnavailable
  let sentPaymentRelays ← insertRelays l.sentPaymentRelays payment.requestEventId relays
  pure ((), { l with sentPayments, sentPaymentRelays })

/-- `record_nwc_invoice`; `token` is the random settlement trigger, if any. -/
def recordNwcInvoice (token : Option (BitVec 256)) (invoice : TrackedNwcInvoice)
    (relays : List SecureRelayUrl) : Except LedgerError (TrackedNwcInvoice × Ledger) := do
  ensure (!(invoice.invoice.isEmpty || decide (invoice.invoice.utf8ByteSize > maxInvoiceBytes) ||
    invoice.description.any (fun text => decide (text.utf8ByteSize > maxDescriptionBytes)) ||
    invoice.amount == 0 || decide (invoice.expiresAt ≤ invoice.createdAt))) .corruptData
  let revision ← sqliteI64 invoice.connectionRevision
  let amount ← sqliteI64 invoice.amount
  let createdAt ← sqliteI64 invoice.createdAt
  let expiresAt ← sqliteI64 invoice.expiresAt
  let settlementTriggerToken ← okOr token .randomnessUnavailable
  let createdInvoices ← okOr (l.createdInvoices.insertOrIgnore
    (fun r => r.requestEventId == invoice.requestEventId)
    { requestEventId := invoice.requestEventId, paymentHash := invoice.paymentHash
      connectionId := invoice.connectionId.value, connectionRevision := revision
      invoice := invoice.invoice, description := invoice.description, amountMsat := amount
      createdAt, expiresAt, lastCheckedAt := createdAt, notificationEventJson := none
      notificationCreatedAt := none, completedAt := none
      settlementTriggerToken := some settlementTriggerToken }) .databaseUnavailable
  ensure (l.createdInvoices.any (fun r => r.requestEventId == invoice.requestEventId) ||
    l.hasConnection invoice.connectionId.value) .databaseUnavailable
  let row ← okOr (createdInvoices.selectRow fun r => r.requestEventId == invoice.requestEventId)
    .corruptData
  let existing ← decodeInvoice row
  ensure (existing.paymentHash == invoice.paymentHash &&
    existing.connectionId == invoice.connectionId &&
    existing.connectionRevision == invoice.connectionRevision &&
    existing.invoice == invoice.invoice) .claimMetadataMismatch
  let invoiceNotificationRelays ←
    insertRelays l.invoiceNotificationRelays invoice.requestEventId relays
  pure (existing, { l with createdInvoices, invoiceNotificationRelays })

def loadNwcInvoice (eventId : EventId) : Except LedgerError (Option TrackedNwcInvoice) :=
  (l.createdInvoices.selectRow fun r => r.requestEventId == eventId).mapM decodeInvoice

/-- Newest first; among equal times the smaller event id. -/
def loadNwcInvoiceByEncodedInvoice (invoice : String) :
    Except LedgerError (Option TrackedNwcInvoice) :=
  if invoice.isEmpty || decide (invoice.utf8ByteSize > maxInvoiceBytes) then .ok none
  else
    ((l.createdInvoices.select fun r => r.invoice == invoice).insertionSort fun a b =>
      b.createdAt < a.createdAt ∨ (a.createdAt = b.createdAt ∧
        a.requestEventId.bytes.toNat ≤ b.requestEventId.bytes.toNat)).head?.mapM decodeInvoice

def loadNwcInvoiceByPaymentHash (paymentHash : PaymentHash) :
    Except LedgerError (Option TrackedNwcInvoice) :=
  (l.createdInvoices.selectRow fun r => r.paymentHash == paymentHash).mapM decodeInvoice

/-- The record was made under a connection of this wallet, as it still stands. -/
def recordOfWallet (wallet : PublicKey) (connectionId : String) (revision : Nat) : Bool :=
  l.connections.any fun c =>
    c.connectionId == connectionId && c.revision == revision && c.walletServicePubkey == wallet

/-- Oldest first; among equal times the smaller event id. -/
def pendingSentPaymentBatch (scope : SentPaymentRow → Bool) (maximum : Nat) :
    Except LedgerError (List TrackedNwcPayment) := do
  let limit ← pendingLimit maximum
  (((l.sentPayments.select fun r => r.completedAt.isNone && scope r).insertionSort fun a b =>
    a.createdAt < b.createdAt ∨ (a.createdAt = b.createdAt ∧
      a.requestEventId.bytes.toNat ≤ b.requestEventId.bytes.toNat)).take limit).mapM
        decodeSentPayment

def pendingNwcSentPayments (maximum : Nat) : Except LedgerError (List TrackedNwcPayment) :=
  l.pendingSentPaymentBatch (fun _ => true) maximum

def pendingNwcSentPaymentsForWallet (wallet : PublicKey) (maximum : Nat) :
    Except LedgerError (List TrackedNwcPayment) :=
  l.pendingSentPaymentBatch (fun r => l.recordOfWallet wallet r.connectionId r.connectionRevision)
    maximum

/-- The first event stored for a record is the one every later call returns. -/
def storeNwcSentNotificationEvent (eventId : EventId) (proposedEventJson : String) :
    Except LedgerError (String × Ledger) := do
  checkNotificationEvent proposedEventJson
  let sentPayments ← okOr (l.sentPayments.update
    (fun r => r.requestEventId == eventId && r.completedAt.isNone &&
      r.notificationEventJson.isNone)
    fun r => { r with notificationEventJson := some proposedEventJson }) .databaseUnavailable
  let row ← okOr (sentPayments.selectRow fun r =>
    r.requestEventId == eventId && r.completedAt.isNone) .connectionUnavailable
  let canonical ← okOr row.notificationEventJson .databaseUnavailable
  pure (canonical, { l with sentPayments })

def undeliveredNwcSentRelays (x : Crates) (eventId : EventId) :
    Except LedgerError (List SecureRelayUrl) :=
  undeliveredRelays x l.sentPaymentRelays eventId

def acknowledgeNwcSentRelay (eventId : EventId) (relay : SecureRelayUrl)
    (deliveredAt : UnixTimestamp) : Except LedgerError (Unit × Ledger) := do
  let sentPaymentRelays ← acknowledgeRelay l.sentPaymentRelays eventId relay deliveredAt
  pure ((), { l with sentPaymentRelays })

def completeNwcSentNotification (eventId : EventId) (completedAt : UnixTimestamp) :
    Except LedgerError (Unit × Ledger) := do
  let completedAt ← sqliteI64 completedAt
  let sentPayments ← okOr (l.sentPayments.update
    (fun r => r.requestEventId == eventId && r.notificationEventJson.isSome &&
      r.completedAt.isNone && !undelivered l.sentPaymentRelays eventId)
    fun r => { r with completedAt := some completedAt }) .databaseUnavailable
  pure ((), { l with sentPayments })

/-- Deleting a record deletes its relays with it. -/
def discardNwcSentPayment (eventId : EventId) : Except LedgerError (Unit × Ledger) :=
  let discarded := fun r : SentPaymentRow => r.requestEventId == eventId
  .ok ((), { l with
    sentPayments := l.sentPayments.delete discarded
    sentPaymentRelays := l.sentPaymentRelays.delete fun r =>
      r.requestEventId == eventId && l.sentPayments.any discarded })

/-- The invoice looked at longest ago first. -/
def pendingInvoiceBatch (scope : CreatedInvoiceRow → Bool) (maximum : Nat) :
    Except LedgerError (List TrackedNwcInvoice) := do
  let limit ← pendingLimit maximum
  (((l.createdInvoices.select fun r => r.completedAt.isNone && scope r).insertionSort fun a b =>
    a.lastCheckedAt < b.lastCheckedAt ∨ (a.lastCheckedAt = b.lastCheckedAt ∧
      (a.createdAt < b.createdAt ∨ (a.createdAt = b.createdAt ∧
        a.requestEventId.bytes.toNat ≤ b.requestEventId.bytes.toNat)))).take limit).mapM
          decodeInvoice

def pendingNwcInvoices (maximum : Nat) : Except LedgerError (List TrackedNwcInvoice) :=
  l.pendingInvoiceBatch (fun _ => true) maximum

def pendingNwcInvoicesForWallet (wallet : PublicKey) (maximum : Nat) :
    Except LedgerError (List TrackedNwcInvoice) :=
  l.pendingInvoiceBatch (fun r => l.recordOfWallet wallet r.connectionId r.connectionRevision)
    maximum

def pendingNwcInvoice (eventId : EventId) : Except LedgerError (Option TrackedNwcInvoice) :=
  (l.createdInvoices.selectRow fun r =>
    r.requestEventId == eventId && r.completedAt.isNone).mapM decodeInvoice

/-- A checked invoice moves behind the others even when the clock stands still. -/
def touchNwcInvoice (eventId : EventId) (checkedAt : UnixTimestamp) :
    Except LedgerError (Unit × Ledger) := do
  let checkedAt ← sqliteI64 checkedAt
  let createdInvoices ← okOr (l.createdInvoices.update
    (fun r => r.requestEventId == eventId && r.completedAt.isNone)
    fun r => { r with lastCheckedAt := max checkedAt (r.lastCheckedAt + 1) }) .databaseUnavailable
  pure ((), { l with createdInvoices })

def storeNwcInvoiceNotificationEvent (eventId : EventId) (proposedEventJson : String)
    (createdAt : UnixTimestamp) : Except LedgerError (String × Ledger) := do
  checkNotificationEvent proposedEventJson
  let createdAt ← sqliteI64 createdAt
  let createdInvoices ← okOr (l.createdInvoices.update
    (fun r => r.requestEventId == eventId && r.completedAt.isNone &&
      r.notificationEventJson.isNone)
    fun r => { r with
      notificationEventJson := some proposedEventJson
      notificationCreatedAt := some createdAt }) .databaseUnavailable
  let row ← okOr (createdInvoices.selectRow fun r =>
    r.requestEventId == eventId && r.completedAt.isNone) .connectionUnavailable
  let canonical ← okOr row.notificationEventJson .databaseUnavailable
  pure (canonical, { l with createdInvoices })

def undeliveredNwcInvoiceRelays (x : Crates) (eventId : EventId) :
    Except LedgerError (List SecureRelayUrl) :=
  undeliveredRelays x l.invoiceNotificationRelays eventId

def acknowledgeNwcInvoiceRelay (eventId : EventId) (relay : SecureRelayUrl)
    (deliveredAt : UnixTimestamp) : Except LedgerError (Unit × Ledger) := do
  let invoiceNotificationRelays ←
    acknowledgeRelay l.invoiceNotificationRelays eventId relay deliveredAt
  pure ((), { l with invoiceNotificationRelays })

def completeNwcInvoiceNotification (eventId : EventId) (completedAt : UnixTimestamp) :
    Except LedgerError (Unit × Ledger) := do
  let completedAt ← sqliteI64 completedAt
  let createdInvoices ← okOr (l.createdInvoices.update
    (fun r => r.requestEventId == eventId && r.notificationEventJson.isSome &&
      r.completedAt.isNone && !undelivered l.invoiceNotificationRelays eventId)
    fun r => { r with completedAt := some completedAt }) .databaseUnavailable
  pure ((), { l with createdInvoices })

/-- An invoice without a notification is forgotten; its time of expiry is not read. -/
def expireNwcInvoice (eventId : EventId) (_completedAt : UnixTimestamp) :
    Except LedgerError (Unit × Ledger) :=
  let expired := fun r : CreatedInvoiceRow =>
    r.requestEventId == eventId && r.notificationEventJson.isNone
  .ok ((), { l with
    createdInvoices := l.createdInvoices.delete expired
    invoiceNotificationRelays := l.invoiceNotificationRelays.delete fun r =>
      r.requestEventId == eventId && l.createdInvoices.any expired })

end Ledger

end NwcMobile
