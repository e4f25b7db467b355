import NwcMobile.Foundations.Evolution
import NwcMobile.Ledger.Budget
import NwcMobile.Ledger.Freshness

/-!
Opening a ledger file of an older schema version. Each version step is one script; what
the scripts leave together, starting from any version, is a ledger with every row the file
had, with the new columns filled as the step that added them says. Attempts that were
unresolved are marked, the debits of every period are kept, and a file of the current
version is left as it is.
-/

namespace NwcMobile

open Fallible Relational Accounting

def schemaVersion : Nat := 13

/-- A row of `wake_events`: version 9 adds the request method, version 13 the acceptance
of the event's freshness. -/
structure VersionedWakeEvent (version : Nat) where
  eventId : EventId
  connectionId : String
  connectionRevision : Nat
  state : WakeEventState
  claimToken : Option ClaimToken
  availableAt : Option Nat
  updatedAt : Nat
  terminalKind : Option TerminalKind
  responseEventJson : Option String
  requestMethod : Added 9 version (Option String)
  freshnessAccepted : Added 13 version Bool
deriving DecidableEq

/-- A row of `connections`: version 6 adds the expiration. -/
structure VersionedConnection (version : Nat) where
  connectionId : String
  revision : Nat
  status : ConnectionStatus
  clientPubkey : PublicKey
  walletServicePubkey : PublicKey
  encryption : String
  budgetLimitSat : Nat
  budgetInterval : String
  feePolicy : String
  maximumFeeSat : Nat
  createdAt : Nat
  expiresAt : Added 6 version (Option Nat)
  updatedAt : Nat
  tombstonedAt : Option Nat
deriving DecidableEq

/-- A row of `payment_attempts`: version 5 adds its place in the reconciliation queue,
version 12 the initiation marker and version 13 the legacy mark. -/
structure VersionedAttempt (version : Nat) where
  eventId : EventId
  paymentHash : PaymentHash
  connectionId : String
  connectionRevision : Nat
  periodStartedAt : Nat
  principalSat : Nat
  feeReserveSat : Nat
  reservedSat : Nat
  state : DurablePaymentState
  actualPrincipalSat : Option Nat
  actualFeeSat : Option Nat
  chargedSat : Option Nat
  authorizationExceeded : Bool
  createdAt : Nat
  updatedAt : Nat
  reconciliationSequence : Added 5 version Nat
  initiatedAt : Added 12 version (Option Nat)
  legacyInitiationAmbiguous : Added 13 version Bool
deriving DecidableEq

/-- A row of `nwc_created_invoices`: version 11 adds the settlement trigger token. -/
structure VersionedInvoice (version : Nat) where
  requestEventId : EventId
  paymentHash : PaymentHash
  connectionId : String
  connectionRevision : Nat
  invoice : String
  description : Option String
  amountMsat : Nat
  createdAt : Nat
  expiresAt : Nat
  lastCheckedAt : Nat
  notificationEventJson : Option String
  notificationCreatedAt : Option Nat
  completedAt : Option Nat
  settlementTriggerToken : Added 11 version (Option (BitVec 256))
deriving DecidableEq

section Rows

variable {version : Nat}

namespace VersionedWakeEvent

variable (r : VersionedWakeEvent version)

/-- The constraints of the columns that are there. -/
def Valid : Prop :=
  storable r.connectionRevision ∧ storable? r.availableAt ∧ storable r.updatedAt ∧
    (∀ json ∈ r.responseEventJson, json.utf8ByteSize ≤ maxResponseEventBytes) ∧
    (r.requestMethod.All fun value => ∀ method ∈ value, method ∈ methodNames) ∧
    ((r.state = .claimed ∧ r.claimToken.isSome ∧ r.availableAt.isSome ∧
        r.terminalKind = none ∧ r.responseEventJson = none) ∨
      (r.state = .retryable ∧ r.claimToken = none ∧ r.availableAt.isSome ∧
        r.terminalKind = none ∧ r.responseEventJson = none) ∨
      (r.state = .terminal ∧ r.claimToken = none ∧ r.availableAt = none ∧
        r.terminalKind.isSome))

instance : Decidable r.Valid := by
  unfold Valid
  infer_instance

/-- The update of `ADD_WAKE_EVENT_FRESHNESS_ACCEPTANCE`. -/
def acceptance : Bool := r.state == .retryable || r.state == .terminal

/-- One version up. -/
def next : VersionedWakeEvent (version + 1) :=
  { r with
    requestMethod := r.requestMethod.next none
    freshnessAccepted := r.freshnessAccepted.next r.acceptance }

/-- The row at the current version. -/
def current : WakeEventRow :=
  { r with
    requestMethod := r.requestMethod.filled none
    freshnessAccepted := r.freshnessAccepted.filled r.acceptance }

end VersionedWakeEvent

namespace VersionedConnection

variable (r : VersionedConnection version)

/-- The constraints of the columns that are there. -/
def Valid : Prop :=
  (1 ≤ r.connectionId.length ∧ r.connectionId.length ≤ 128) ∧
    storable r.revision ∧
    r.encryption ∈ ["nip44_v2", "nip04"] ∧
    storable r.budgetLimitSat ∧
    r.budgetInterval ∈ ["never", "hourly", "daily", "weekly", "monthly", "yearly"] ∧
    r.feePolicy ∈ ["count", "exclude"] ∧
    storable r.maximumFeeSat ∧ storable r.createdAt ∧
    (r.expiresAt.All fun value => storable? value ∧ ∀ t ∈ value, r.createdAt < t) ∧
    storable r.updatedAt ∧ r.createdAt ≤ r.updatedAt ∧
    ((r.status = .active ∧ r.tombstonedAt = none) ∨
      (r.status = .tombstoned ∧ r.tombstonedAt = some r.updatedAt)) ∧
    (r.feePolicy = "count" ∨ (r.feePolicy = "exclude" ∧ r.maximumFeeSat = 0))

instance : Decidable r.Valid := by
  unfold Valid
  infer_instance

/-- One version up. -/
def next : VersionedConnection (version + 1) := { r with expiresAt := r.expiresAt.next none }

/-- The row at the current version. -/
def current : ConnectionRow := { r with expiresAt := r.expiresAt.filled none }

/-- The registration `CREATE_WAKE_REGISTRATION_SCHEMA` queues for an active connection. -/
def registration : WakeRegistrationRow where
  connectionId := r.connectionId
  connectionRevision := r.revision
  desiredEnabled := true
  clientPubkey := r.clientPubkey
  walletServicePubkey := r.walletServicePubkey
  attemptCount := 0
  availableAt := r.updatedAt
  updatedAt := r.updatedAt

end VersionedConnection

namespace VersionedAttempt

variable (r : VersionedAttempt version)

/-- The constraints of the columns that are there. -/
def Valid : Prop :=
  storable r.connectionRevision ∧ storable r.periodStartedAt ∧ storable r.principalSat ∧
    storable r.feeReserveSat ∧ storable r.reservedSat ∧
    (r.principalSat ≤ r.reservedSat ∧ r.feeReserveSat = r.reservedSat - r.principalSat) ∧
    storable? r.actualPrincipalSat ∧ storable? r.actualFeeSat ∧ storable? r.chargedSat ∧
    storable r.createdAt ∧ r.periodStartedAt ≤ r.createdAt ∧
    storable r.updatedAt ∧ r.createdAt ≤ r.updatedAt ∧
    (r.initiatedAt.All fun value => storable? value ∧ ∀ t ∈ value, r.createdAt ≤ t) ∧
    r.reconciliationSequence.All storable ∧
    (((r.state = .reserved ∨ r.state = .pending) ∧ r.actualPrincipalSat = none ∧
        r.actualFeeSat = none ∧ r.chargedSat = none ∧ r.authorizationExceeded = false) ∨
      (r.state = .succeeded ∧ r.actualPrincipalSat.isSome ∧ r.actualFeeSat.isSome ∧
        r.chargedSat.isSome) ∨
      (r.state = .failed ∧ r.actualPrincipalSat = none ∧ r.actualFeeSat = none ∧
        r.chargedSat = none ∧ r.authorizationExceeded = false))

instance : Decidable r.Valid := by
  unfold Valid
  infer_instance

/-- The condition `state IN ('reserved', 'pending')`. -/
def unresolved : Bool := r.state == .reserved || r.state == .pending

/-- One version up. -/
def next : VersionedAttempt (version + 1) :=
  { r with
    reconciliationSequence := r.reconciliationSequence.next 0
    initiatedAt := r.initiatedAt.next (some r.createdAt)
    legacyInitiationAmbiguous := r.legacyInitiationAmbiguous.next r.unresolved }

/-- The row at the current version. -/
def current : PaymentAttemptRow :=
  { r with
    reconciliationSequence := r.reconciliationSequence.filled 0
    initiatedAt := r.initiatedAt.filled (some r.createdAt)
    legacyInitiationAmbiguous := r.legacyInitiationAmbiguous.filled r.unresolved }

end VersionedAttempt

namespace VersionedInvoice

variable (randomblob : EventId → BitVec 256) (r : VersionedInvoice version)

/-- The constraints of the columns that are there. -/
def Valid : Prop :=
  storable r.connectionRevision ∧
    (1 ≤ r.invoice.utf8ByteSize ∧ r.invoice.utf8ByteSize ≤ maxInvoiceBytes) ∧
    (∀ text ∈ r.description, text.utf8ByteSize ≤ maxDescriptionBytes) ∧
    storable r.amountMsat ∧ 0 < r.amountMsat ∧ storable r.createdAt ∧
    storable r.expiresAt ∧ r.createdAt < r.expiresAt ∧
    storable r.lastCheckedAt ∧ r.createdAt ≤ r.lastCheckedAt ∧
    (∀ json ∈ r.notificationEventJson, json.utf8ByteSize ≤ maxNotificationEventBytes) ∧
    r.notificationEventJson.isSome = r.notificationCreatedAt.isSome ∧
    storable? r.notificationCreatedAt ∧ storable? r.completedAt ∧
    (r.completedAt = none ∨ r.notificationEventJson.isSome)

instance : Decidable r.Valid := by
  unfold Valid
  infer_instance

/-- One version up. The token of a row is drawn when the column is added. -/
def next : VersionedInvoice (version + 1) :=
  { r with
    settlementTriggerToken := r.settlementTriggerToken.next (some (randomblob r.requestEventId)) }

/-- The row at the current version. -/
def current : CreatedInvoiceRow :=
  { r with
    settlementTriggerToken :=
      r.settlementTriggerToken.filled (some (randomblob r.requestEventId)) }

end VersionedInvoice

end Rows

def versionedWakeEventSchema (version : Nat) : Schema (VersionedWakeEvent version) where
  check r := decide r.Valid
  conflict a b := a.eventId == b.eventId
  conflict_symm _ _ := Bool.beq_comm

def versionedConnectionSchema (version : Nat) : Schema (VersionedConnection version) where
  check r := decide r.Valid
  conflict a b :=
    a.connectionId == b.connectionId ||
      (a.clientPubkey == b.clientPubkey && a.walletServicePubkey == b.walletServicePubkey)
  conflict_symm a b := by
    simp only [Bool.beq_comm (a := a.connectionId), Bool.beq_comm (a := a.clientPubkey),
      Bool.beq_comm (a := a.walletServicePubkey)]

def versionedAttemptSchema (version : Nat) : Schema (VersionedAttempt version) where
  check r := decide r.Valid
  conflict a b := a.eventId == b.eventId || a.paymentHash == b.paymentHash
  conflict_symm a b := by
    simp only [Bool.beq_comm (a := a.eventId), Bool.beq_comm (a := a.paymentHash)]

def versionedInvoiceSchema (version : Nat) : Schema (VersionedInvoice version) where
  check r := decide r.Valid
  conflict a b := a.requestEventId == b.requestEventId || a.paymentHash == b.paymentHash
  conflict_symm a b := by
    simp only [Bool.beq_comm (a := a.requestEventId), Bool.beq_comm (a := a.paymentHash)]

section Shapes

variable {version : Nat}

/-- What a version adds to a row passes its check, and the columns that were there keep
theirs. -/
theorem VersionedWakeEvent.carries_next : (versionedWakeEventSchema version).Carries
    (versionedWakeEventSchema (version + 1)) VersionedWakeEvent.next where
  check r h := by
    obtain ⟨hrevision, havailable, hupdated, hjson, hmethod, hstate⟩ := of_decide_eq_true h
    exact decide_eq_true ⟨hrevision, havailable, hupdated, hjson,
      Added.all_next hmethod (by simp), hstate⟩
  conflict _ _ := rfl

theorem VersionedWakeEvent.carries_current :
    (versionedWakeEventSchema version).Carries wakeEventSchema VersionedWakeEvent.current where
  check r h := by
    obtain ⟨hrevision, havailable, hupdated, hjson, hmethod, hstate⟩ := of_decide_eq_true h
    exact decide_eq_true ⟨hrevision, havailable, hupdated, hjson, hmethod.filled (by simp),
      hstate⟩
  conflict _ _ := rfl

theorem VersionedConnection.carries_next : (versionedConnectionSchema version).Carries
    (versionedConnectionSchema (version + 1)) VersionedConnection.next where
  check r h := by
    obtain ⟨hid, hrevision, hencryption, hlimit, hinterval, hpolicy, hfee, hcreated, hexpires,
      hrest⟩ := of_decide_eq_true h
    exact decide_eq_true ⟨hid, hrevision, hencryption, hlimit, hinterval, hpolicy, hfee, hcreated,
      Added.all_next hexpires (by simp [storable?]), hrest⟩
  conflict _ _ := rfl

theorem VersionedConnection.carries_current :
    (versionedConnectionSchema version).Carries connectionSchema VersionedConnection.current where
  check r h := by
    obtain ⟨hid, hrevision, hencryption, hlimit, hinterval, hpolicy, hfee, hcreated, hexpires,
      hrest⟩ := of_decide_eq_true h
    have hnone : storable? none ∧ ∀ t ∈ (none : Option Nat), r.createdAt < t := by
      simp [storable?]
    obtain ⟨hstorable, hlater⟩ := hexpires.filled hnone
    exact decide_eq_true ⟨hid, hrevision, hencryption, hlimit, hinterval, hpolicy, hfee, hcreated,
      hstorable, hlater, hrest⟩
  conflict _ _ := rfl

theorem VersionedAttempt.carries_next : (versionedAttemptSchema version).Carries
    (versionedAttemptSchema (version + 1)) VersionedAttempt.next where
  check r h := by
    obtain ⟨hrevision, hperiod, hprincipal, hfee, hreserved, hsplit, hactual, hactualFee, hcharged,
      hcreated, hstarted, hupdated, hafter, hinitiated, hsequence, hstate⟩ := of_decide_eq_true h
    exact decide_eq_true ⟨hrevision, hperiod, hprincipal, hfee, hreserved, hsplit, hactual,
      hactualFee, hcharged, hcreated, hstarted, hupdated, hafter,
      Added.all_next hinitiated ⟨by simpa [storable?] using hcreated, by simp [next]⟩,
      Added.all_next hsequence (Nat.zero_le _), hstate⟩
  conflict _ _ := rfl

theorem VersionedAttempt.carries_current :
    (versionedAttemptSchema version).Carries paymentAttemptSchema VersionedAttempt.current where
  check r h := by
    obtain ⟨hrevision, hperiod, hprincipal, hfee, hreserved, hsplit, hactual, hactualFee, hcharged,
      hcreated, hstarted, hupdated, hafter, hinitiated, hsequence, hstate⟩ := of_decide_eq_true h
    have hmarked : storable? (some r.createdAt) ∧ ∀ t ∈ some r.createdAt, r.createdAt ≤ t := by
      simpa [storable?] using hcreated
    obtain ⟨hmarker, hlater⟩ := hinitiated.filled hmarked
    have hsettlement : r.current.SettlementValid := by
      unfold PaymentAttemptRow.SettlementValid
      rcases hstate with ⟨hopen | hopen, hrest⟩ | ⟨hsucceeded, hrest⟩ | ⟨hfailed, hrest⟩
      · simpa [current, hopen] using hrest
      · simpa [current, hopen] using hrest
      · simpa [current, hsucceeded] using hrest
      · simpa [current, hfailed] using hrest
    exact decide_eq_true ⟨hrevision, hperiod, hprincipal, hfee, hreserved, hsplit, hactual,
      hactualFee, hcharged, hcreated, hstarted, hupdated, hafter, hmarker, hlater,
      hsequence.filled (Nat.zero_le _), hsettlement⟩
  conflict _ _ := rfl

theorem VersionedInvoice.carries_next (randomblob : EventId → BitVec 256) :
    (versionedInvoiceSchema version).Carries (versionedInvoiceSchema (version + 1))
      (VersionedInvoice.next randomblob) where
  check r h := decide_eq_true (of_decide_eq_true h : r.Valid)
  conflict _ _ := rfl

theorem VersionedInvoice.carries_current (randomblob : EventId → BitVec 256) :
    (versionedInvoiceSchema version).Carries createdInvoiceSchema
      (VersionedInvoice.current randomblob) where
  check r h := decide_eq_true (of_decide_eq_true h : r.Valid)
  conflict _ _ := rfl

end Shapes

/-- The registration outbox: its rows and their relays. -/
structure WakeRegistrationOutbox where
  registrations : Table wakeRegistrationSchema
  relays : Table (relaySchema String)

/-- The tables of a ledger file at one schema version. -/
structure Database (version : Nat) where
  wakeEvents : Added 1 version (Table (versionedWakeEventSchema version))
  connections : Added 2 version (Table (versionedConnectionSchema version))
  connectionMethods : Added 2 version (Table connectionMethodSchema)
  connectionRelays : Added 2 version (Table (relaySchema String))
  budgetPeriods : Added 3 version (Table budgetPeriodSchema)
  paymentAttempts : Added 3 version (Table (versionedAttemptSchema version))
  outbox : Added 4 version WakeRegistrationOutbox
  createdInvoices : Added 10 version (Table (versionedInvoiceSchema version))
  invoiceNotificationRelays : Added 10 version (Table notificationRelaySchema)
  sentPayments : Added 10 version (Table sentPaymentSchema)
  sentPaymentRelays : Added 10 version (Table notificationRelaySchema)

/-- A ledger file: its `user_version` and its tables. -/
structure LedgerFile where
  version : Nat
  tables : Database version

/-- The two inserts of `CREATE_WAKE_REGISTRATION_SCHEMA`. -/
def seedOutbox {version : Nat} (connections : Table (versionedConnectionSchema version))
    (connectionRelays : Table (relaySchema String)) : Option WakeRegistrationOutbox := do
  let registrations ← (Table.empty wakeRegistrationSchema).insertAll
    ((connections.select fun c => c.status == .active).map VersionedConnection.registration)
  let relays ← (Table.empty (relaySchema String)).insertAll
    (connectionRelays.select fun r => registrations.any fun o => o.connectionId == r.owner)
  pure { registrations, relays }

namespace Database

variable {version : Nat} (randomblob : EventId → BitVec 256) (db : Database version)

/-- The outbox this version would start with. -/
def seededOutbox : Option WakeRegistrationOutbox :=
  match db.connections, db.connectionRelays with
  | .present _ connections, .present _ connectionRelays => seedOutbox connections connectionRelays
  | _, _ => none

/-- The script of one version: it creates that version's tables and columns. -/
def next : Option (Database (version + 1)) := do
  let outbox ← db.outbox.create db.seededOutbox
  pure {
    wakeEvents := db.wakeEvents.grow VersionedWakeEvent.carries_next
    connections := db.connections.grow VersionedConnection.carries_next
    connectionMethods := db.connectionMethods.next (.empty _)
    connectionRelays := db.connectionRelays.next (.empty _)
    budgetPeriods := db.budgetPeriods.next (.empty _)
    paymentAttempts := db.paymentAttempts.grow VersionedAttempt.carries_next
    outbox
    createdInvoices := db.createdInvoices.grow (VersionedInvoice.carries_next randomblob)
    invoiceNotificationRelays := db.invoiceNotificationRelays.next (.empty _)
    sentPayments := db.sentPayments.next (.empty _)
    sentPaymentRelays := db.sentPaymentRelays.next (.empty _) }

/-- The tables as the current version reads them. -/
def read : Ledger where
  wakeEvents := db.wakeEvents.read VersionedWakeEvent.carries_current
  connections := db.connections.read VersionedConnection.carries_current
  connectionMethods := db.connectionMethods.filled (.empty _)
  connectionRelays := db.connectionRelays.filled (.empty _)
  budgetPeriods := db.budgetPeriods.filled (.empty _)
  paymentAttempts := db.paymentAttempts.read VersionedAttempt.carries_current
  wakeRegistrations := (db.outbox.map (·.registrations)).filled (.empty _)
  wakeRegistrationRelays := (db.outbox.map (·.relays)).filled (.empty _)
  createdInvoices := db.createdInvoices.read (VersionedInvoice.carries_current randomblob)
  invoiceNotificationRelays := db.invoiceNotificationRelays.filled (.empty _)
  sentPayments := db.sentPayments.filled (.empty _)
  sentPaymentRelays := db.sentPaymentRelays.filled (.empty _)

end Database

/-- `if version == n { execute_batch(...); version = n + 1 }` -/
def LedgerFile.step (randomblob : EventId → BitVec 256) (file : LedgerFile) (n : Nat) :
    Option LedgerFile :=
  if file.version = n then (file.tables.next randomblob).map fun tables => ⟨file.version + 1, tables⟩
  else some file

/-- `migrate`, and the ledger that is open afterwards. -/
def migrate (randomblob : EventId → BitVec 256) (file : LedgerFile) : Except LedgerError Ledger := do
  let file ← okOr ((List.range schemaVersion).foldlM (LedgerFile.step randomblob) file)
    .databaseUnavailable
  ensure (file.version == schemaVersion) .unsupportedSchema
  pure (file.tables.read randomblob)

namespace Database

variable {version : Nat} (randomblob : EventId → BitVec 256) (db : Database version)

/-- The registrations the file has queued, or is given when the outbox is created. -/
def registrationRows : List WakeRegistrationRow :=
  (db.outbox.map (·.registrations.rows)).filled
    ((db.connections.rows.filter fun c => c.status == .active).map
      VersionedConnection.registration)

def registrationRelayRows : List (RelayRow String) :=
  (db.outbox.map (·.relays.rows)).filled
    (db.connectionRelays.rows.filter fun r =>
      db.connections.rows.any fun c => c.status == .active && c.connectionId == r.owner)

/-- The ledger has the file's rows: every column that was there is kept, and every column
or queue that was not is filled by the step that added it. -/
structure Upgraded (l : Ledger) : Prop where
  wakeEvents : l.wakeEvents.rows = db.wakeEvents.rows.map VersionedWakeEvent.current
  connections : l.connections.rows = db.connections.rows.map VersionedConnection.current
  connectionMethods : l.connectionMethods.rows = db.connectionMethods.rows
  connectionRelays : l.connectionRelays.rows = db.connectionRelays.rows
  budgetPeriods : l.budgetPeriods.rows = db.budgetPeriods.rows
  paymentAttempts : l.paymentAttempts.rows = db.paymentAttempts.rows.map VersionedAttempt.current
  wakeRegistrations : l.wakeRegistrations.rows = db.registrationRows
  wakeRegistrationRelays : l.wakeRegistrationRelays.rows = db.registrationRelayRows
  createdInvoices :
    l.createdInvoices.rows = db.createdInvoices.rows.map (VersionedInvoice.current randomblob)
  invoiceNotificationRelays :
    l.invoiceNotificationRelays.rows = db.invoiceNotificationRelays.rows
  sentPayments : l.sentPayments.rows = db.sentPayments.rows
  sentPaymentRelays : l.sentPaymentRelays.rows = db.sentPaymentRelays.rows

end Database

section Steps

variable {version : Nat} {randomblob : EventId → BitVec 256} {db : Database version}
  {db' : Database (version + 1)} {l : Ledger}

@[simp] theorem VersionedWakeEvent.current_next (r : VersionedWakeEvent version) :
    r.next.current = r.current := by
  simp [next, current, acceptance]

@[simp] theorem VersionedConnection.current_next (r : VersionedConnection version) :
    r.next.current = r.current := by
  simp [next, current]

@[simp] theorem VersionedConnection.registration_next (r : VersionedConnection version) :
    r.next.registration = r.registration := rfl

@[simp] theorem VersionedAttempt.current_next (r : VersionedAttempt version) :
    r.next.current = r.current := by
  simp [next, current, unresolved]

@[simp] theorem VersionedInvoice.current_next (r : VersionedInvoice version) :
    (r.next randomblob).current randomblob = r.current randomblob := by
  simp [next, current]

theorem VersionedConnection.valid {connections : Table (versionedConnectionSchema version)}
    {c : VersionedConnection version} (h : c ∈ connections) : c.Valid :=
  of_decide_eq_true (Table.check_of_mem h)

/-- The script that creates the outbox finds nothing it cannot insert. -/
theorem seedOutbox_succeeds (connections : Table (versionedConnectionSchema version))
    (connectionRelays : Table (relaySchema String)) :
    ∃ outbox, seedOutbox connections connectionRelays = some outbox ∧
      outbox.registrations.rows = (connections.rows.filter fun c => c.status == .active).map
        VersionedConnection.registration ∧
      outbox.relays.rows = connectionRelays.rows.filter fun r =>
        connections.rows.any fun c => c.status == .active && c.connectionId == r.owner := by
  have hactive : ∀ c ∈ connections.select fun c => c.status == .active, c ∈ connections :=
    fun c hc => (Table.mem_select.mp hc).1
  obtain ⟨registrations, hregistrations, hrows⟩ :=
    Table.insertAll_succeeds (t := .empty wakeRegistrationSchema) (show ∀ row ∈
        (connections.select fun c => c.status == .active).map VersionedConnection.registration,
        wakeRegistrationSchema.check row = true by
      intro row hrow
      obtain ⟨c, hc, rfl⟩ := List.mem_map.mp hrow
      obtain ⟨-, hrevision, -, -, -, -, -, -, -, hupdated, -⟩ :=
        VersionedConnection.valid (hactive c hc)
      exact decide_eq_true ⟨hrevision, Nat.zero_le _, hupdated, hupdated⟩) (by
      rw [List.pairwise_map]
      refine (connections.distinct.sublist List.filter_sublist).imp fun {a b} hab => ?_
      simp only [versionedConnectionSchema, Bool.or_eq_false_iff] at hab
      exact hab.1) (by simp)
  have hany : ∀ r : RelayRow String, (registrations.any fun o => o.connectionId == r.owner) =
      connections.rows.any fun c => c.status == .active && c.connectionId == r.owner := by
    intro r
    simp only [Table.any, hrows, Table.empty, List.nil_append, List.any_map, Table.select,
      List.any_filter]
    rfl
  obtain ⟨relays, hrelays, hrelayRows⟩ :=
    Table.insertAll_succeeds (t := .empty (relaySchema String))
      (show ∀ row ∈ connectionRelays.select fun r =>
        registrations.any fun o => o.connectionId == r.owner, (relaySchema String).check row = true
        from fun row hrow => Table.check_of_mem (Table.mem_select.mp hrow).1)
      (connectionRelays.distinct.sublist List.filter_sublist) (by simp)
  refine ⟨⟨registrations, relays⟩, ?_, by simpa [Table.empty, Table.select] using hrows, ?_⟩
  · simp [seedOutbox, hregistrations, hrelays]
  · simpa [Table.empty, Table.select, hany] using hrelayRows

/-- A version's script finds the tables it refers to. -/
theorem Database.next_succeeds (randomblob : EventId → BitVec 256) (db : Database version) :
    ∃ db', db.next randomblob = some db' := by
  suffices h : ∃ outbox, db.outbox.create db.seededOutbox = some outbox by
    obtain ⟨outbox, houtbox⟩ := h
    simp [next, houtbox]
  cases houtbox : db.outbox with
  | present reached outbox => exact ⟨_, rfl⟩
  | absent before =>
    by_cases hcreated : 4 = version + 1
    · have hseeded : ∃ seeded, db.seededOutbox = some seeded := by
        cases hconnections : db.connections with
        | absent before => omega
        | present reached connections =>
          cases hrelays : db.connectionRelays with
          | absent before => omega
          | present reached connectionRelays =>
            obtain ⟨seeded, hseeded, -⟩ := seedOutbox_succeeds connections connectionRelays
            exact ⟨seeded, by simp [seededOutbox, hconnections, hrelays, hseeded]⟩
      obtain ⟨seeded, hseeded⟩ := hseeded
      simp [Added.create, hcreated, hseeded]
    · simp [Added.create, hcreated]

/-- What is queued once the outbox is there is what was queued, or is to be, before. -/
theorem Database.outbox_next (h : db.next randomblob = some db') :
    db'.registrationRows = db.registrationRows ∧
      db'.registrationRelayRows = db.registrationRelayRows := by
  obtain ⟨outbox, houtbox, hdb⟩ := Option.bind_eq_some_iff.mp h
  obtain rfl := Option.some.inj hdb
  simp only [registrationRows, registrationRelayRows, Added.rows_grow, Added.rows_next,
    List.filter_map, List.map_map, List.any_map]
  cases hbefore : db.outbox with
  | present reached rows =>
    rw [hbefore] at houtbox
    obtain rfl := Option.some.inj houtbox
    exact ⟨rfl, rfl⟩
  | absent before =>
    rw [hbefore] at houtbox
    by_cases hcreated : 4 = version + 1
    · obtain ⟨seeded, hseeded, rfl⟩ : ∃ seeded, db.seededOutbox = some seeded ∧
          Added.present (by omega) seeded = outbox := by
        simpa [Added.create, hcreated] using houtbox
      cases hconnections : db.connections with
      | absent before => omega
      | present reached connections =>
        cases hrelays : db.connectionRelays with
        | absent before => omega
        | present reached connectionRelays =>
          obtain ⟨seeded', hseeded', hrows, hrelayRows⟩ :=
            seedOutbox_succeeds connections connectionRelays
          have hsame : seeded' = seeded := by
            simpa [seededOutbox, hconnections, hrelays, hseeded'] using hseeded
          subst hsame
          exact ⟨hrows, hrelayRows⟩
    · obtain rfl : Added.absent (by omega) = outbox := by
        simpa [Added.create, hcreated] using houtbox
      exact ⟨rfl, rfl⟩

/-- One version's script keeps what the tables upgrade to. -/
theorem Database.upgraded_next (h : db.next randomblob = some db')
    (hupgraded : db'.Upgraded randomblob l) : db.Upgraded randomblob l := by
  obtain ⟨hregistrations, hrelays⟩ := outbox_next h
  obtain ⟨outbox, -, hdb⟩ := Option.bind_eq_some_iff.mp h
  obtain rfl := Option.some.inj hdb
  refine { hupgraded with
    wakeEvents := ?_, connections := ?_, connectionMethods := ?_, connectionRelays := ?_
    budgetPeriods := ?_, paymentAttempts := ?_, createdInvoices := ?_
    wakeRegistrations := hupgraded.wakeRegistrations.trans hregistrations
    wakeRegistrationRelays := hupgraded.wakeRegistrationRelays.trans hrelays
    invoiceNotificationRelays := ?_, sentPayments := ?_, sentPaymentRelays := ?_ }
  · simpa [Function.comp_def] using hupgraded.wakeEvents
  · simpa [Function.comp_def] using hupgraded.connections
  · simpa using hupgraded.connectionMethods
  · simpa using hupgraded.connectionRelays
  · simpa using hupgraded.budgetPeriods
  · simpa [Function.comp_def] using hupgraded.paymentAttempts
  · simpa [Function.comp_def] using hupgraded.createdInvoices
  · simpa using hupgraded.invoiceNotificationRelays
  · simpa using hupgraded.sentPayments
  · simpa using hupgraded.sentPaymentRelays

/-- The tables of the current version are read as they are. -/
theorem Database.upgraded_read (h : 4 ≤ version) :
    db.Upgraded randomblob (db.read randomblob) where
  wakeEvents := Added.rows_read _ _
  connections := Added.rows_read _ _
  connectionMethods := Added.rows_filled _
  connectionRelays := Added.rows_filled _
  budgetPeriods := Added.rows_filled _
  paymentAttempts := Added.rows_read _ _
  wakeRegistrations := by
    cases houtbox : db.outbox with
    | absent before => omega
    | present reached outbox => simp [read, registrationRows, houtbox, Added.map, Added.filled]
  wakeRegistrationRelays := by
    cases houtbox : db.outbox with
    | absent before => omega
    | present reached outbox => simp [read, registrationRelayRows, houtbox, Added.map, Added.filled]
  createdInvoices := Added.rows_read _ _
  invoiceNotificationRelays := Added.rows_filled _
  sentPayments := Added.rows_filled _
  sentPaymentRelays := Added.rows_filled _

/-- The scripts from version `n` on bring a file that has reached it to the current one. -/
theorem migrate_steps {k : Nat} : ∀ {n : Nat} {file : LedgerFile}, n + k = schemaVersion →
    n ≤ file.version → file.version ≤ schemaVersion →
      ∃ file', (List.range' n k).foldlM (LedgerFile.step randomblob) file = some file' ∧
        file'.version = schemaVersion ∧ ∀ l, file'.tables.Upgraded randomblob l →
          file.tables.Upgraded randomblob l := by
  induction k with
  | zero =>
    intro n file hn hreached hbound
    exact ⟨file, rfl, by omega, fun _ h => h⟩
  | succ k ih =>
    intro n file hn hreached hbound
    simp only [List.range'_succ, List.foldlM_cons, LedgerFile.step]
    by_cases hdue : file.version = n
    · obtain ⟨tables, htables⟩ := file.tables.next_succeeds randomblob
      have hrest := @ih (n + 1) ⟨file.version + 1, tables⟩ (by omega)
        (show n + 1 ≤ file.version + 1 by omega) (show file.version + 1 ≤ schemaVersion by omega)
      obtain ⟨file', hfold, hcurrent, hupgraded⟩ := hrest
      refine ⟨file', ?_, hcurrent, fun l h => Database.upgraded_next htables (hupgraded l h)⟩
      simpa [hdue, htables] using hfold
    · obtain ⟨file', hfold, hcurrent, hupgraded⟩ :=
        @ih (n + 1) file (by omega) (by omega) hbound
      exact ⟨file', by simpa [hdue] using hfold, hcurrent, hupgraded⟩

/-- No script is for a version that is not known. -/
theorem migrate_newer {file : LedgerFile} {ns : List Nat} (h : ∀ n ∈ ns, n < file.version) :
    ns.foldlM (LedgerFile.step randomblob) file = some file := by
  induction ns with
  | nil => rfl
  | cons n rest ih =>
    have hne : file.version ≠ n := Nat.ne_of_gt (h n List.mem_cons_self)
    simpa [LedgerFile.step, hne] using ih fun m hm => h m (List.mem_cons_of_mem _ hm)

end Steps

/-- The periods of a file record what was imported for them and what its attempts stand
for. -/
structure Database.Balanced {version : Nat} (imported : String → Nat → Nat)
    (db : Database version) : Prop where
  used : ∀ period ∈ db.budgetPeriods.rows, period.usedSat =
    imported period.connectionId period.periodStartedAt +
      (db.paymentAttempts.rows.map fun r =>
        debitIn period.connectionId period.periodStartedAt r.current).sum
  attempt_period : ∀ r ∈ db.paymentAttempts.rows, ∃ period ∈ db.budgetPeriods.rows,
    samePeriod r.connectionId r.periodStartedAt period = true
  import_period : ∀ connectionId start, imported connectionId start ≠ 0 →
    ∃ period ∈ db.budgetPeriods.rows, samePeriod connectionId start period = true
  connection_parses : ∀ r ∈ db.paymentAttempts.rows, ∃ id : ConnectionId, id.value = r.connectionId

section Upgrade

variable {version : Nat} {randomblob : EventId → BitVec 256} {db : Database version} {l : Ledger}

theorem Database.Upgraded.mem_paymentAttempts (h : db.Upgraded randomblob l)
    {row : PaymentAttemptRow} :
    row ∈ l.paymentAttempts ↔ ∃ r ∈ db.paymentAttempts.rows, r.current = row := by
  rw [← Table.mem_rows, h.paymentAttempts, List.mem_map]

/-- Every debit is still recorded, in the same period. -/
theorem Database.Upgraded.balanced {imported : String → Nat → Nat} (h : db.Upgraded randomblob l)
    (hbalanced : db.Balanced imported) : NwcMobile.Balanced imported l := by
  have hperiods : ∀ period, period ∈ l.budgetPeriods ↔ period ∈ db.budgetPeriods.rows := by
    intro period
    rw [← Table.mem_rows, h.budgetPeriods]
  refine ⟨?_, ?_, ?_, ?_⟩
  · intro period hperiod
    rw [hbalanced.used period ((hperiods period).mp hperiod)]
    simp only [Ledger.periodDebits, Table.total, h.paymentAttempts, List.map_map]
    rfl
  · intro row hrow
    obtain ⟨r, hr, rfl⟩ := h.mem_paymentAttempts.mp hrow
    obtain ⟨period, hperiod, hsame⟩ := hbalanced.attempt_period r hr
    exact ⟨period, (hperiods period).mpr hperiod, hsame⟩
  · intro connectionId start himported
    obtain ⟨period, hperiod, hsame⟩ := hbalanced.import_period connectionId start himported
    exact ⟨period, (hperiods period).mpr hperiod, hsame⟩
  · intro row hrow
    obtain ⟨r, hr, rfl⟩ := h.mem_paymentAttempts.mp hrow
    exact hbalanced.connection_parses r hr

/-- Before version 13 nothing says whether a payment was begun: exactly the attempts that
are not settled are marked. -/
theorem Database.Upgraded.marks (h : db.Upgraded randomblob l) (hold : version < schemaVersion)
    {row : PaymentAttemptRow} (hrow : row ∈ l.paymentAttempts) :
    row.legacyInitiationAmbiguous = isUnresolved row := by
  obtain ⟨r, -, rfl⟩ := h.mem_paymentAttempts.mp hrow
  cases hmark : r.legacyInitiationAmbiguous with
  | present reached value => exact absurd reached (Nat.not_le_of_lt hold)
  | absent before => simp [VersionedAttempt.current, hmark, Added.filled, isUnresolved,
      VersionedAttempt.unresolved]

/-- Before version 13 only a settled or handed back event counts as checked. -/
theorem Database.Upgraded.migrated (h : db.Upgraded randomblob l)
    (hold : version < schemaVersion) : l.Migrated := by
  intro row hrow
  rw [← Table.mem_rows, h.wakeEvents] at hrow
  obtain ⟨r, -, rfl⟩ := List.mem_map.mp hrow
  cases haccepted : r.freshnessAccepted with
  | present reached value => exact absurd reached (Nat.not_le_of_lt hold)
  | absent before => simp [VersionedWakeEvent.current, haccepted, Added.filled,
      addFreshnessAcceptance, VersionedWakeEvent.acceptance]

/-- Before version 4 a registration is queued for exactly the active connections. -/
theorem Database.Upgraded.registers (h : db.Upgraded randomblob l) (hold : version < 4)
    {row : WakeRegistrationRow} : row ∈ l.wakeRegistrations ↔
      ∃ c ∈ db.connections.rows, c.status = .active ∧ c.registration = row := by
  rw [← Table.mem_rows, h.wakeRegistrations]
  cases houtbox : db.outbox with
  | present reached outbox => omega
  | absent before => simp [Database.registrationRows, houtbox, Added.map, Added.filled, and_assoc]

end Upgrade

/-- Opening a ledger file. Every file of a version up to the current one is upgraded, with
every row it had: no script finds its tables missing or breaks a constraint. The debits of
its periods stay balanced, the attempts whose initiation nobody recorded are marked, a claim
that was live is not taken as checked, and an outbox that did not exist gets a registration
for each active connection. A file of a newer version is refused. -/
theorem migration_upgrades {version : Nat} (randomblob : EventId → BitVec 256)
    (db : Database version) :
    (version ≤ schemaVersion → ∃ l, migrate randomblob ⟨version, db⟩ = .ok l ∧
      db.Upgraded randomblob l ∧
      (∀ imported, db.Balanced imported → Balanced imported l) ∧
      (version < schemaVersion → l.Migrated ∧
        ∀ row ∈ l.paymentAttempts, row.legacyInitiationAmbiguous = isUnresolved row) ∧
      (version < 4 → ∀ row, row ∈ l.wakeRegistrations ↔
        ∃ c ∈ db.connections.rows, c.status = .active ∧ c.registration = row)) ∧
    (schemaVersion < version →
      migrate randomblob ⟨version, db⟩ = .error .unsupportedSchema) := by
  constructor
  · intro hknown
    have hsteps := @migrate_steps randomblob schemaVersion 0 ⟨version, db⟩ (by omega)
      (Nat.zero_le _) hknown
    obtain ⟨file, hfold, hcurrent, hupgraded⟩ := hsteps
    rw [← List.range_eq_range'] at hfold
    have hread : file.tables.Upgraded randomblob (file.tables.read randomblob) :=
      Database.upgraded_read (by rw [hcurrent]; decide)
    have h := hupgraded _ hread
    refine ⟨file.tables.read randomblob, ?_, h, fun imported => h.balanced,
      fun hold => ⟨h.migrated hold, fun row => h.marks hold⟩, fun hold row => h.registers hold⟩
    simp [migrate, hfold, okOr, ensure, hcurrent]
  · intro hnewer
    have hfold : (List.range schemaVersion).foldlM (LedgerFile.step randomblob) ⟨version, db⟩ =
        some ⟨version, db⟩ := by
      apply migrate_newer
      intro n hn
      exact Nat.lt_trans (List.mem_range.mp hn) hnewer
    have hne : version ≠ schemaVersion := Nat.ne_of_gt hnewer
    simp [migrate, hfold, okOr, ensure, hne]

namespace Sample

/-- A payment that was under way when its ledger was last open. -/
def version3Attempt : VersionedAttempt 3 where
  eventId := ⟨7⟩
  paymentHash := ⟨9⟩
  connectionId := "connection"
  connectionRevision := 0
  periodStartedAt := 1000
  principalSat := 10
  feeReserveSat := 2
  reservedSat := 12
  state := .pending
  actualPrincipalSat := none
  actualFeeSat := none
  chargedSat := none
  authorizationExceeded := false
  createdAt := 1000
  updatedAt := 1001
  reconciliationSequence := .absent (by decide)
  initiatedAt := .absent (by decide)
  legacyInitiationAmbiguous := .absent (by decide)

def versionedConnection : VersionedConnection 3 where
  connectionId := "connection"
  revision := 0
  status := .active
  clientPubkey := clientPubkey
  walletServicePubkey := walletServicePubkey
  encryption := "nip44_v2"
  budgetLimitSat := 100
  budgetInterval := "daily"
  feePolicy := "count"
  maximumFeeSat := 2
  createdAt := 1000
  expiresAt := .absent (by decide)
  updatedAt := 1000
  tombstonedAt := none

/-- The file of version 3 that holds them. -/
def version3 : Database 3 where
  wakeEvents := .present (by decide) (.empty _)
  connections := .present (by decide) ⟨[versionedConnection], by decide, by decide⟩
  connectionMethods := .present (by decide) ⟨[⟨"connection", "pay_invoice"⟩], by decide, by decide⟩
  connectionRelays := .present (by decide) ⟨[⟨"connection", 0, relayUrl⟩], by decide, by decide⟩
  budgetPeriods := .present (by decide) ⟨[⟨"connection", 1000, 100, 12, 1000⟩], by decide, by decide⟩
  paymentAttempts := .present (by decide) ⟨[version3Attempt], by decide, by decide⟩
  outbox := .absent (by decide)
  createdInvoices := .absent (by decide)
  invoiceNotificationRelays := .absent (by decide)
  sentPayments := .absent (by decide)
  sentPaymentRelays := .absent (by decide)

theorem version3_balanced : version3.Balanced fun _ _ => 0 where
  used := by decide
  attempt_period := by decide
  import_period := fun _ _ hne => absurd rfl hne
  connection_parses := by
    intro r hr
    obtain rfl : r = version3Attempt := by simpa [version3, Added.rows, Added.map, Added.filled] using hr
    exact ⟨connectionId, rfl⟩

end Sample

theorem migration_upgrades_in_flight :
    ∃ l, migrate (fun _ => 0) ⟨3, Sample.version3⟩ = .ok l ∧ Balanced (fun _ _ => 0) l ∧
      l.paymentAttempts.rows.map (fun r => (r.initiatedAt, r.legacyInitiationAmbiguous)) =
        [(some 1000, true)] ∧
      l.wakeRegistrations.rows.map (·.desiredEnabled) = [true] := by
  obtain ⟨l, hopened, hupgraded, hbalanced, -⟩ :=
    (migration_upgrades (fun _ => 0) Sample.version3).1 (by decide)
  refine ⟨l, hopened, hbalanced _ Sample.version3_balanced, ?_, ?_⟩
  · rw [hupgraded.paymentAttempts]
    decide
  · rw [hupgraded.wakeRegistrations]
    decide

end NwcMobile
