import NwcMobile.Crates
import NwcMobile.Foundations.Table

/-!
The tables of the wake ledger at its current schema version, with the
constraints SQLite enforces on them. Integer columns hold non-negative 64-bit
values; the width is part of every check. A text column that encodes an enum
keeps the text where the program decodes it again with its own table, and is
the enum itself where the program only compares it.
-/

namespace NwcMobile

open Relational

/-- An SQLite integer column holds this value. -/
def storable (n : Nat) : Prop := n ≤ i64Max

instance (n : Nat) : Decidable (storable n) := inferInstanceAs (Decidable (n ≤ i64Max))

/-- A `NULL` passes, as in an SQL `CHECK`. -/
def storable? (n : Option Nat) : Prop := ∀ v ∈ n, storable v

instance (n : Option Nat) : Decidable (storable? n) := inferInstanceAs (Decidable (∀ v ∈ n, _))

inductive TerminalKind where
  | completed
  | rejected
  | failed
deriving DecidableEq, Repr

inductive WakeEventState where
  | claimed
  | retryable
  | terminal
deriving DecidableEq, Repr

structure WakeEventRow where
  eventId : EventId
  connectionId : String
  connectionRevision : Nat
  state : WakeEventState
  claimToken : Option ClaimToken
  availableAt : Option Nat
  updatedAt : Nat
  terminalKind : Option TerminalKind
  responseEventJson : Option String
  requestMethod : Option String
  freshnessAccepted : Bool
deriving DecidableEq, Repr

def maxResponseEventBytes : Nat := 128 * 1024

/-- The method names a `CHECK` admits. -/
def methodNames : List String :=
  ["get_info", "get_balance", "make_invoice", "pay_invoice", "lookup_invoice", "list_transactions"]

def WakeEventRow.Valid (r : WakeEventRow) : Prop :=
  storable r.connectionRevision ∧ storable? r.availableAt ∧ storable r.updatedAt ∧
    (∀ json ∈ r.responseEventJson, json.utf8ByteSize ≤ maxResponseEventBytes) ∧
    (∀ method ∈ r.requestMethod, method ∈ methodNames) ∧
    ((r.state = .claimed ∧ r.claimToken.isSome ∧ r.availableAt.isSome ∧
        r.terminalKind = none ∧ r.responseEventJson = none) ∨
      (r.state = .retryable ∧ r.claimToken = none ∧ r.availableAt.isSome ∧
        r.terminalKind = none ∧ r.responseEventJson = none) ∨
      (r.state = .terminal ∧ r.claimToken = none ∧ r.availableAt = none ∧
        r.terminalKind.isSome))

instance (r : WakeEventRow) : Decidable r.Valid := by
  unfold WakeEventRow.Valid
  infer_instance

def wakeEventSchema : Schema WakeEventRow where
  check r := decide r.Valid
  conflict a b := a.eventId == b.eventId
  conflict_symm _ _ := Bool.beq_comm

inductive ConnectionStatus where
  | active
  | tombstoned
deriving DecidableEq, Repr

structure ConnectionRow where
  connectionId : String
  revision : Nat
  status : ConnectionStatus
  clientPubkey : PublicKey
  walletServicePubkey : PublicKey
  encryption : String
  budgetLimitSat : Nat
  budgetInterval : String
  feePolicy : String
  maximumFeeSat : Nat
  createdAt : Nat
  expiresAt : Option Nat
  updatedAt : Nat
  tombstonedAt : Option Nat
deriving DecidableEq, Repr

def ConnectionRow.Valid (r : ConnectionRow) : Prop :=
  (1 ≤ r.connectionId.length ∧ r.connectionId.length ≤ 128) ∧
    storable r.revision ∧
    r.encryption ∈ ["nip44_v2", "nip04"] ∧
    storable r.budgetLimitSat ∧
    r.budgetInterval ∈ ["never", "hourly", "daily", "weekly", "monthly", "yearly"] ∧
    r.feePolicy ∈ ["count", "exclude"] ∧
    storable r.maximumFeeSat ∧ storable r.createdAt ∧
    storable? r.expiresAt ∧ (∀ t ∈ r.expiresAt, r.createdAt < t) ∧
    storable r.updatedAt ∧ r.createdAt ≤ r.updatedAt ∧
    ((r.status = .active ∧ r.tombstonedAt = none) ∨
      (r.status = .tombstoned ∧ r.tombstonedAt = some r.updatedAt)) ∧
    (r.feePolicy = "count" ∨ (r.feePolicy = "exclude" ∧ r.maximumFeeSat = 0))

instance (r : ConnectionRow) : Decidable r.Valid := by
  unfold ConnectionRow.Valid
  infer_instance

/-- The primary key and the unique index `connections_permanent_keys`. -/
def connectionSchema : Schema ConnectionRow where
  check r := decide r.Valid
  conflict a b :=
    a.connectionId == b.connectionId ||
      (a.clientPubkey == b.clientPubkey && a.walletServicePubkey == b.walletServicePubkey)
  conflict_symm a b := by
    simp only [Bool.beq_comm (a := a.connectionId), Bool.beq_comm (a := a.clientPubkey),
      Bool.beq_comm (a := a.walletServicePubkey)]

structure ConnectionMethodRow where
  connectionId : String
  method : String
deriving DecidableEq, Repr

def connectionMethodSchema : Schema ConnectionMethodRow where
  check r := decide (r.method ∈ methodNames)
  conflict a b := a.connectionId == b.connectionId && a.method == b.method
  conflict_symm a b := by
    simp only [Bool.beq_comm (a := a.connectionId), Bool.beq_comm (a := a.method)]

/-- One relay of an ordered list owned by the record `owner` names. -/
structure RelayRow (κ : Type) where
  owner : κ
  position : Nat
  relayUrl : String
deriving DecidableEq, Repr

/-- Both `connection_relays` and `wake_registration_relays` have this shape:
a primary key on the position and a unique index on the URL. -/
def relaySchema (κ : Type) [DecidableEq κ] : Schema (RelayRow κ) where
  check r := decide (storable r.position)
  conflict a b :=
    a.owner == b.owner && (a.position == b.position || a.relayUrl == b.relayUrl)
  conflict_symm a b := by
    simp only [Bool.beq_comm (a := a.owner), Bool.beq_comm (a := a.position),
      Bool.beq_comm (a := a.relayUrl)]

structure BudgetPeriodRow where
  connectionId : String
  periodStartedAt : Nat
  limitSat : Nat
  usedSat : Nat
  updatedAt : Nat
deriving DecidableEq, Repr

def BudgetPeriodRow.Valid (r : BudgetPeriodRow) : Prop :=
  storable r.periodStartedAt ∧ storable r.limitSat ∧ storable r.usedSat ∧
    storable r.updatedAt ∧ r.periodStartedAt ≤ r.updatedAt

instance (r : BudgetPeriodRow) : Decidable r.Valid := by
  unfold BudgetPeriodRow.Valid
  infer_instance

def budgetPeriodSchema : Schema BudgetPeriodRow where
  check r := decide r.Valid
  conflict a b := a.connectionId == b.connectionId && a.periodStartedAt == b.periodStartedAt
  conflict_symm a b := by
    simp only [Bool.beq_comm (a := a.connectionId), Bool.beq_comm (a := a.periodStartedAt)]

/-- Durable payment progress, which is also the `state` column. -/
inductive DurablePaymentState where
  | reserved
  | pending
  | succeeded
  | failed
deriving DecidableEq, Repr

structure PaymentAttemptRow where
  eventId : EventId
  paymentHash : PaymentHash
  connectionId : String
  connectionRevision : Nat
  periodStartedAt : Nat
  principalSat : Nat
  feeReserveSat : Nat
  reservedSat : Nat
  state : DurablePaymentState
  actualPrincipalSat : Option Nat
  actualFeeSat : Option Nat
  chargedSat : Option Nat
  authorizationExceeded : Bool
  initiatedAt : Option Nat
  legacyInitiationAmbiguous : Bool
  createdAt : Nat
  updatedAt : Nat
  reconciliationSequence : Nat
deriving DecidableEq, Repr

/-- The settlement columns are filled exactly when the payment succeeded. -/
def PaymentAttemptRow.SettlementValid (r : PaymentAttemptRow) : Prop :=
  match r.state with
  | .succeeded => r.actualPrincipalSat.isSome ∧ r.actualFeeSat.isSome ∧ r.chargedSat.isSome
  | .reserved | .pending | .failed =>
    r.actualPrincipalSat = none ∧ r.actualFeeSat = none ∧ r.chargedSat = none ∧
      r.authorizationExceeded = false

instance (r : PaymentAttemptRow) : Decidable r.SettlementValid := by
  unfold PaymentAttemptRow.SettlementValid
  split <;> infer_instance

def PaymentAttemptRow.Valid (r : PaymentAttemptRow) : Prop :=
  storable r.connectionRevision ∧ storable r.periodStartedAt ∧ storable r.principalSat ∧
    storable r.feeReserveSat ∧ storable r.reservedSat ∧
    (r.principalSat ≤ r.reservedSat ∧ r.feeReserveSat = r.reservedSat - r.principalSat) ∧
    storable? r.actualPrincipalSat ∧ storable? r.actualFeeSat ∧ storable? r.chargedSat ∧
    storable r.createdAt ∧ r.periodStartedAt ≤ r.createdAt ∧
    storable r.updatedAt ∧ r.createdAt ≤ r.updatedAt ∧
    storable? r.initiatedAt ∧ (∀ t ∈ r.initiatedAt, r.createdAt ≤ t) ∧
    storable r.reconciliationSequence ∧ r.SettlementValid

instance (r : PaymentAttemptRow) : Decidable r.Valid := by
  unfold PaymentAttemptRow.Valid
  infer_instance

def paymentAttemptSchema : Schema PaymentAttemptRow where
  check r := decide r.Valid
  conflict a b := a.eventId == b.eventId || a.paymentHash == b.paymentHash
  conflict_symm a b := by
    simp only [Bool.beq_comm (a := a.eventId), Bool.beq_comm (a := a.paymentHash)]

structure WakeRegistrationRow where
  connectionId : String
  connectionRevision : Nat
  desiredEnabled : Bool
  clientPubkey : PublicKey
  walletServicePubkey : PublicKey
  attemptCount : Nat
  availableAt : Nat
  updatedAt : Nat
deriving DecidableEq, Repr

def WakeRegistrationRow.Valid (r : WakeRegistrationRow) : Prop :=
  storable r.connectionRevision ∧ r.attemptCount ≤ 2147483647 ∧ storable r.availableAt ∧
    storable r.updatedAt

instance (r : WakeRegistrationRow) : Decidable r.Valid := by
  unfold WakeRegistrationRow.Valid
  infer_instance

def wakeRegistrationSchema : Schema WakeRegistrationRow where
  check r := decide r.Valid
  conflict a b := a.connectionId == b.connectionId
  conflict_symm _ _ := Bool.beq_comm

structure CreatedInvoiceRow where
  requestEventId : EventId
  paymentHash : PaymentHash
  connectionId : String
  connectionRevision : Nat
  invoice : String
  description : Option String
  amountMsat : Nat
  createdAt : Nat
  expiresAt : Nat
  lastCheckedAt : Nat
  notificationEventJson : Option String
  notificationCreatedAt : Option Nat
  completedAt : Option Nat
  settlementTriggerToken : Option (BitVec 256)
deriving DecidableEq, Repr

def maxInvoiceBytes : Nat := 16384

def maxDescriptionBytes : Nat := 4096

def maxNotificationEventBytes : Nat := 128 * 1024

def CreatedInvoiceRow.Valid (r : CreatedInvoiceRow) : Prop :=
  storable r.connectionRevision ∧
    (1 ≤ r.invoice.utf8ByteSize ∧ r.invoice.utf8ByteSize ≤ maxInvoiceBytes) ∧
    (∀ text ∈ r.description, text.utf8ByteSize ≤ maxDescriptionBytes) ∧
    storable r.amountMsat ∧ 0 < r.amountMsat ∧ storable r.createdAt ∧
    storable r.expiresAt ∧ r.createdAt < r.expiresAt ∧
    storable r.lastCheckedAt ∧ r.createdAt ≤ r.lastCheckedAt ∧
    (∀ json ∈ r.notificationEventJson, json.utf8ByteSize ≤ maxNotificationEventBytes) ∧
    r.notificationEventJson.isSome = r.notificationCreatedAt.isSome ∧
    storable? r.notificationCreatedAt ∧ storable? r.completedAt ∧
    (r.completedAt = none ∨ r.notificationEventJson.isSome)

instance (r : CreatedInvoiceRow) : Decidable r.Valid := by
  unfold CreatedInvoiceRow.Valid
  infer_instance

def createdInvoiceSchema : Schema CreatedInvoiceRow where
  check r := decide r.Valid
  conflict a b := a.requestEventId == b.requestEventId || a.paymentHash == b.paymentHash
  conflict_symm a b := by
    simp only [Bool.beq_comm (a := a.requestEventId), Bool.beq_comm (a := a.paymentHash)]

structure SentPaymentRow where
  requestEventId : EventId
  paymentHash : PaymentHash
  connectionId : String
  connectionRevision : Nat
  invoice : String
  amountMsat : Nat
  feeMsat : Nat
  preimage : PaymentPreimage
  createdAt : Nat
  settledAt : Nat
  notificationEventJson : Option String
  completedAt : Option Nat
deriving DecidableEq, Repr

def SentPaymentRow.Valid (r : SentPaymentRow) : Prop :=
  storable r.connectionRevision ∧
    (1 ≤ r.invoice.utf8ByteSize ∧ r.invoice.utf8ByteSize ≤ maxInvoiceBytes) ∧
    storable r.amountMsat ∧ 0 < r.amountMsat ∧ storable r.feeMsat ∧
    storable r.createdAt ∧ storable r.settledAt ∧ r.createdAt ≤ r.settledAt ∧
    (∀ json ∈ r.notificationEventJson, json.utf8ByteSize ≤ maxNotificationEventBytes) ∧
    storable? r.completedAt ∧ (r.completedAt = none ∨ r.notificationEventJson.isSome)

instance (r : SentPaymentRow) : Decidable r.Valid := by
  unfold SentPaymentRow.Valid
  infer_instance

def sentPaymentSchema : Schema SentPaymentRow where
  check r := decide r.Valid
  conflict a b := a.requestEventId == b.requestEventId || a.paymentHash == b.paymentHash
  conflict_symm a b := by
    simp only [Bool.beq_comm (a := a.requestEventId), Bool.beq_comm (a := a.paymentHash)]

/-- One relay a notification still has to reach or has reached. -/
structure NotificationRelayRow where
  requestEventId : EventId
  position : Nat
  relayUrl : String
  deliveredAt : Option Nat
deriving DecidableEq, Repr

def notificationRelaySchema : Schema NotificationRelayRow where
  check r := decide (storable r.position ∧
    (1 ≤ r.relayUrl.utf8ByteSize ∧ r.relayUrl.utf8ByteSize ≤ 2048) ∧ storable? r.deliveredAt)
  conflict a b :=
    a.requestEventId == b.requestEventId &&
      (a.position == b.position || a.relayUrl == b.relayUrl)
  conflict_symm a b := by
    simp only [Bool.beq_comm (a := a.requestEventId), Bool.beq_comm (a := a.position),
      Bool.beq_comm (a := a.relayUrl)]

/-- The durable state shared by every process. -/
@[ext] structure Ledger where
  wakeEvents : Table wakeEventSchema
  connections : Table connectionSchema
  connectionMethods : Table connectionMethodSchema
  connectionRelays : Table (relaySchema String)
  budgetPeriods : Table budgetPeriodSchema
  paymentAttempts : Table paymentAttemptSchema
  wakeRegistrations : Table wakeRegistrationSchema
  wakeRegistrationRelays : Table (relaySchema String)
  createdInvoices : Table createdInvoiceSchema
  invoiceNotificationRelays : Table notificationRelaySchema
  sentPayments : Table sentPaymentSchema
  sentPaymentRelays : Table notificationRelaySchema

/-- A freshly created database. -/
def Ledger.empty : Ledger where
  wakeEvents := .empty _
  connections := .empty _
  connectionMethods := .empty _
  connectionRelays := .empty _
  budgetPeriods := .empty _
  paymentAttempts := .empty _
  wakeRegistrations := .empty _
  wakeRegistrationRelays := .empty _
  createdInvoices := .empty _
  invoiceNotificationRelays := .empty _
  sentPayments := .empty _
  sentPaymentRelays := .empty _

section Keys

variable {l : Ledger}

theorem connection_valid {r : ConnectionRow} (h : r ∈ l.connections) : r.Valid := by
  simpa [connectionSchema] using Table.check_of_mem h

theorem wakeEvent_valid {r : WakeEventRow} (h : r ∈ l.wakeEvents) : r.Valid := by
  simpa [wakeEventSchema] using Table.check_of_mem h

theorem budgetPeriod_valid {r : BudgetPeriodRow} (h : r ∈ l.budgetPeriods) : r.Valid := by
  simpa [budgetPeriodSchema] using Table.check_of_mem h

theorem paymentAttempt_valid {r : PaymentAttemptRow} (h : r ∈ l.paymentAttempts) : r.Valid := by
  simpa [paymentAttemptSchema] using Table.check_of_mem h

theorem wakeEvent_key (eventId : EventId) :
    wakeEventSchema.Key fun r => r.eventId == eventId := by
  intro a b ha hb
  simp_all [wakeEventSchema]

theorem connection_id_key (id : String) :
    connectionSchema.Key fun r => r.connectionId == id := by
  intro a b ha hb
  simp_all [connectionSchema]

theorem connection_keys_key (client wallet : PublicKey) :
    connectionSchema.Key fun r =>
      r.clientPubkey == client && r.walletServicePubkey == wallet := by
  intro a b ha hb
  simp_all [connectionSchema]

theorem budgetPeriod_key (id : String) (start : Nat) :
    budgetPeriodSchema.Key fun r => r.connectionId == id && r.periodStartedAt == start := by
  intro a b ha hb
  simp_all [budgetPeriodSchema]

theorem paymentAttempt_hash_key (hash : PaymentHash) :
    paymentAttemptSchema.Key fun r => r.paymentHash == hash := by
  intro a b ha hb
  simp_all [paymentAttemptSchema]

theorem paymentAttempt_event_key (eventId : EventId) :
    paymentAttemptSchema.Key fun r => r.eventId == eventId := by
  intro a b ha hb
  simp_all [paymentAttemptSchema]

end Keys

end NwcMobile
