import Mathlib.Data.List.Sort
import NwcMobile.Ledger.Schema

/-!
The connection registry: authorizing, importing, loading and revoking
connections. Each operation returns its value together with the next ledger; an
error carries no ledger, since the transaction rolls back.
-/

namespace NwcMobile

open Fallible Relational

inductive RegistryError where
  | databaseUnavailable
  | corruptData
  | valueOutOfRange
  | invalidConnection
  | alreadyExists
  | notFound
  | staleRevision
  | alreadyTombstoned
deriving DecidableEq, Repr

def maxConnectionRelays : Nat := 8

/-- A validated authorization snapshot ready to insert. -/
structure NewConnection where
  id : ConnectionId
  clientPubkey : PublicKey
  walletServicePubkey : PublicKey
  relays : List SecureRelayUrl
  policy : ConnectionPolicy
  encryption : NwcEncryption
  expiresAt : Option UnixTimestamp
  keys_differ : clientPubkey ≠ walletServicePubkey
  relays_nonempty : relays ≠ []
  relays_bounded : relays.length ≤ maxConnectionRelays
  relays_nodup : relays.Nodup
  methods_nonempty : policy.methods.card ≠ 0
deriving DecidableEq

/-- `NewConnection::new`. -/
def NewConnection.new (x : Crates) (id : ConnectionId) (clientPubkey walletServicePubkey : PublicKey)
    (relays : List SecureRelayUrl) (policy : ConnectionPolicy) (encryption : NwcEncryption)
    (wakePolicy : WakePolicy) : Except RegistryError NewConnection :=
  if h : (clientPubkey ≠ walletServicePubkey ∧ relays ≠ [] ∧
      relays.length ≤ maxConnectionRelays ∧ relays.Nodup ∧ policy.methods.card ≠ 0) ∧
      x.publicKeyFromSlice clientPubkey = true ∧
      x.publicKeyFromSlice walletServicePubkey = true ∧
      relays.length ≤ wakePolicy.maximumRelaysPerConnection then
    .ok
      { id, clientPubkey, walletServicePubkey, relays, policy, encryption, expiresAt := none
        keys_differ := h.1.1
        relays_nonempty := h.1.2.1
        relays_bounded := h.1.2.2.1
        relays_nodup := h.1.2.2.2.1
        methods_nonempty := h.1.2.2.2.2 }
  else .error .invalidConnection

def NewConnection.withExpiration (c : NewConnection) (expiresAt : Option UnixTimestamp) :
    NewConnection := { c with expiresAt }

/-- An active connection as loaded from the registry. -/
structure ActiveConnection where
  id : ConnectionId
  revision : ConnectionRevision
  clientPubkey : PublicKey
  walletServicePubkey : PublicKey
  relays : List SecureRelayUrl
  policy : ConnectionPolicy
  encryption : NwcEncryption
  createdAt : UnixTimestamp
  expiresAt : Option UnixTimestamp
  updatedAt : UnixTimestamp
deriving DecidableEq

def ActiveConnection.isExpiredAt (c : ActiveConnection) (now : UnixTimestamp) : Bool :=
  c.expiresAt.any fun expiresAt => decide (expiresAt ≤ now)

def ActiveConnection.allowsRelay (c : ActiveConnection) (relay : SecureRelayUrl) : Bool :=
  c.relays.contains relay

structure ConnectionTombstone where
  id : ConnectionId
  revision : ConnectionRevision
  tombstonedAt : UnixTimestamp
deriving DecidableEq

inductive StoredConnection where
  | active (connection : ActiveConnection)
  | tombstoned (tombstone : ConnectionTombstone)
deriving DecidableEq

namespace Registry

def sqliteU64 (value : Nat) : Except RegistryError Nat := i64TryFrom value .valueOutOfRange

def encryptionToStr : NwcEncryption → String
  | .nip44V2 => "nip44_v2"
  | .legacyNip04 => "nip04"

def strToEncryption (value : String) : Except RegistryError NwcEncryption :=
  if value = "nip44_v2" then .ok .nip44V2
  else if value = "nip04" then .ok .legacyNip04
  else .error .corruptData

def intervalToStr : BudgetInterval → String
  | .never => "never"
  | .hourly => "hourly"
  | .daily => "daily"
  | .weekly => "weekly"
  | .monthly => "monthly"
  | .yearly => "yearly"

def strToInterval (value : String) : Except RegistryError BudgetInterval :=
  if value = "never" then .ok .never
  else if value = "hourly" then .ok .hourly
  else if value = "daily" then .ok .daily
  else if value = "weekly" then .ok .weekly
  else if value = "monthly" then .ok .monthly
  else if value = "yearly" then .ok .yearly
  else .error .corruptData

def encodeFeePolicy : FeePolicy → Except RegistryError (String × Nat)
  | .countTowardBudget maximumFeeSat => do
    let maximumFee ← sqliteU64 maximumFeeSat
    pure ("count", maximumFee)
  | .excludeForCompatibility => .ok ("exclude", 0)

def strToFeePolicy (value : String) (maximumFeeSat : Nat) : Except RegistryError FeePolicy :=
  if value = "count" then .ok (.countTowardBudget maximumFeeSat)
  else if value = "exclude" ∧ maximumFeeSat = 0 then .ok .excludeForCompatibility
  else .error .corruptData

def strToMethod (value : String) : Except RegistryError NwcMethod :=
  okOr (NwcMethod.all.find? fun method => method.asStr == value) .corruptData

/-- The start of the budget period that contains `now`. -/
def importedBudgetPeriodStart (interval : BudgetInterval) (createdAt now : Nat) :
    Except RegistryError Nat :=
  if now < createdAt then .error .invalidConnection
  else
    match interval.duration with
    | none => .ok createdAt
    | some duration => do
      let periods := (now - createdAt) / duration.asSecs
      let offset ← okOr (checkedMul periods duration.asSecs) .valueOutOfRange
      okOr (checkedAdd createdAt offset) .valueOutOfRange

/-- The rows of an ordered relay list. -/
def relayRows (owner : String) (relays : List SecureRelayUrl) : List (RelayRow String) :=
  relays.zipIdx.map fun entry => ⟨owner, entry.2, entry.1.value⟩

def methodRows (owner : String) (methods : List NwcMethod) : List ConnectionMethodRow :=
  methods.map fun method => ⟨owner, method.asStr⟩

end Registry

namespace Ledger

open Registry

/-- The period row of imported usage; without usage no row is written. -/
def openImportedPeriod (l : Ledger) (c : NewConnection) (createdAt : UnixTimestamp)
    (budgetUsedSat : Nat) (now : UnixTimestamp) (budgetLimit nowSql : Nat) :
    Except RegistryError (Table budgetPeriodSchema) :=
  if 0 < budgetUsedSat then do
    let start ← importedBudgetPeriodStart c.policy.budget.interval createdAt now
    let startSql ← sqliteU64 start
    let usedSql ← sqliteU64 budgetUsedSat
    okOr (l.budgetPeriods.insert
      { connectionId := c.id.value, periodStartedAt := startSql, limitSat := budgetLimit
        usedSat := usedSql, updatedAt := nowSql }) .databaseUnavailable
  else .ok l.budgetPeriods

/-- `insert_connection_state`. The methods, relays, period and outbox rows refer
to the connection row inserted just before them, so their foreign keys hold. -/
def insertConnectionState (l : Ledger) (c : NewConnection) (createdAt : UnixTimestamp)
    (budgetUsedSat : Nat) (now : UnixTimestamp) :
    Except RegistryError (ActiveConnection × Ledger) := do
  let nowSql ← sqliteU64 now
  let createdAtSql ← sqliteU64 createdAt
  ensure (!c.expiresAt.any fun expiresAt => decide (expiresAt ≤ createdAt)) .invalidConnection
  let expiresAtSql ← c.expiresAt.mapM sqliteU64
  let budgetLimit ← sqliteU64 c.policy.budget.limitSat
  let fee ← encodeFeePolicy c.policy.budget.feePolicy
  ensure (!(l.connections.any (fun r => r.connectionId == c.id.value) ||
    l.connections.any fun r => r.clientPubkey == c.clientPubkey &&
      r.walletServicePubkey == c.walletServicePubkey)) .alreadyExists
  let connections ← okOr (l.connections.insert
    { connectionId := c.id.value, revision := 0, status := .active
      clientPubkey := c.clientPubkey, walletServicePubkey := c.walletServicePubkey
      encryption := encryptionToStr c.encryption, budgetLimitSat := budgetLimit
      budgetInterval := intervalToStr c.policy.budget.interval
      feePolicy := fee.1, maximumFeeSat := fee.2
      createdAt := createdAtSql, expiresAt := expiresAtSql, updatedAt := nowSql
      tombstonedAt := none }) .databaseUnavailable
  let connectionMethods ← okOr
    (l.connectionMethods.insertAll (methodRows c.id.value c.policy.methodList)) .databaseUnavailable
  let connectionRelays ← okOr
    (l.connectionRelays.insertAll (relayRows c.id.value c.relays)) .databaseUnavailable
  let budgetPeriods ← l.openImportedPeriod c createdAt budgetUsedSat now budgetLimit nowSql
  let wakeRegistrations ← okOr (l.wakeRegistrations.insert
    { connectionId := c.id.value, connectionRevision := 0, desiredEnabled := true
      clientPubkey := c.clientPubkey, walletServicePubkey := c.walletServicePubkey
      attemptCount := 0, availableAt := nowSql, updatedAt := nowSql }) .databaseUnavailable
  let wakeRegistrationRelays ← okOr (l.wakeRegistrationRelays.insertAll
    (connectionRelays.select fun r => r.owner == c.id.value)) .databaseUnavailable
  pure (
    { id := c.id, revision := .initial, clientPubkey := c.clientPubkey
      walletServicePubkey := c.walletServicePubkey, relays := c.relays, policy := c.policy
      encryption := c.encryption, createdAt, expiresAt := c.expiresAt, updatedAt := now },
    { l with connections, connectionMethods, connectionRelays, budgetPeriods,
             wakeRegistrations, wakeRegistrationRelays })

def insertConnection (l : Ledger) (c : NewConnection) (now : UnixTimestamp) :
    Except RegistryError (ActiveConnection × Ledger) :=
  l.insertConnectionState c now 0 now

def importConnection (l : Ledger) (c : NewConnection) (createdAt : UnixTimestamp)
    (budgetUsedSat : Nat) (now : UnixTimestamp) :
    Except RegistryError (ActiveConnection × Ledger) := do
  ensure (!(decide (createdAt > now) || decide (budgetUsedSat > c.policy.budget.limitSat) ||
    (decide (budgetUsedSat > 0) && !c.policy.allows .payInvoice))) .invalidConnection
  l.insertConnectionState c createdAt budgetUsedSat now

variable (x : Crates)

def loadMethods (l : Ledger) (id : ConnectionId) : Except RegistryError (List NwcMethod) :=
  ((l.connectionMethods.select fun r => r.connectionId == id.value).insertionSort
    fun a b => a.method ≤ b.method).mapM fun r => strToMethod r.method

def loadRelays (l : Ledger) (id : ConnectionId) : Except RegistryError (List SecureRelayUrl) :=
  ((l.connectionRelays.select fun r => r.owner == id.value).insertionSort
    fun a b => a.position ≤ b.position).mapM fun r =>
      mapErr (SecureRelayUrl.parse x r.relayUrl) .corruptData

def decodePublicKey (value : PublicKey) : Except RegistryError PublicKey :=
  if x.publicKeyFromSlice value then .ok value else .error .corruptData

def hydrateActiveConnection (l : Ledger) (row : ConnectionRow) (id : ConnectionId) :
    Except RegistryError ActiveConnection := do
  let clientPubkey ← decodePublicKey x row.clientPubkey
  let walletServicePubkey ← decodePublicKey x row.walletServicePubkey
  ensure (clientPubkey != walletServicePubkey) .corruptData
  let encryption ← strToEncryption row.encryption
  let methods ← l.loadMethods id
  ensure (!methods.isEmpty) .corruptData
  let relays ← l.loadRelays x id
  ensure (!(relays.isEmpty || decide (relays.length > maxConnectionRelays))) .corruptData
  let interval ← strToInterval row.budgetInterval
  let feePolicy ← strToFeePolicy row.feePolicy row.maximumFeeSat
  pure
    { id, revision := row.revision, clientPubkey, walletServicePubkey, relays
      policy := ConnectionPolicy.new methods ⟨row.budgetLimitSat, interval, feePolicy⟩
      encryption, createdAt := row.createdAt, expiresAt := row.expiresAt
      updatedAt := row.updatedAt }

/-- `hydrate_stored_connection`: decode a row, or report corrupt data. -/
def hydrateStoredConnection (l : Ledger) (row : ConnectionRow) :
    Except RegistryError StoredConnection := do
  let id ← mapErr (ConnectionId.parse row.connectionId) .corruptData
  ensure (!(decide (row.updatedAt < row.createdAt) ||
    row.expiresAt.any fun expiresAt => decide (expiresAt ≤ row.createdAt))) .corruptData
  match row.status with
  | .tombstoned => do
    let tombstonedAt ← okOr row.tombstonedAt .corruptData
    ensure (tombstonedAt == row.updatedAt) .corruptData
    pure (.tombstoned ⟨id, row.revision, tombstonedAt⟩)
  | .active => do
    ensure row.tombstonedAt.isNone .corruptData
    let connection ← l.hydrateActiveConnection x row id
    pure (.active connection)

/-- The active value of a stored connection selected by an active-only query. -/
def requireActive : StoredConnection → Except RegistryError ActiveConnection
  | .active connection => .ok connection
  | .tombstoned _ => .error .corruptData

def loadConnection (l : Ledger) (id : ConnectionId) :
    Except RegistryError (Option StoredConnection) :=
  (l.connections.selectRow fun r => r.connectionId == id.value).mapM (l.hydrateStoredConnection x)

def loadActiveConnection (l : Ledger) (id : ConnectionId) :
    Except RegistryError (Option ActiveConnection) := do
  let stored ← l.loadConnection x id
  match stored with
  | some (.active connection) => pure (some connection)
  | some (.tombstoned _) | none => pure none

def listActiveConnections (l : Ledger) : Except RegistryError (List ActiveConnection) :=
  ((l.connections.select fun r => r.status == .active).insertionSort fun a b =>
      a.createdAt < b.createdAt ∨ (a.createdAt = b.createdAt ∧ a.connectionId ≤ b.connectionId)).mapM
    fun row => do
      let stored ← l.hydrateStoredConnection x row
      requireActive stored

def loadActiveConnectionByKeys (l : Ledger) (clientPubkey walletServicePubkey : PublicKey) :
    Except RegistryError (Option ActiveConnection) :=
  (l.connections.selectRow fun r => r.status == .active && r.clientPubkey == clientPubkey &&
      r.walletServicePubkey == walletServicePubkey).mapM fun row => do
    let stored ← l.hydrateStoredConnection x row
    requireActive stored

/-- Whether some active unexpired connection of the wallet key lists the relay. -/
def relayApproved (l : Ledger) (walletServicePubkey : PublicKey) (relay : SecureRelayUrl)
    (now : Nat) : Bool :=
  l.connections.any fun c =>
    c.status == .active && c.walletServicePubkey == walletServicePubkey &&
      c.expiresAt.all (fun expiresAt => decide (expiresAt > now)) &&
      l.connectionRelays.any fun r => r.owner == c.connectionId && r.relayUrl == relay.value

def isRelayApprovedForWallet (l : Ledger) (walletServicePubkey : PublicKey)
    (relay : SecureRelayUrl) (now : UnixTimestamp) : Except RegistryError Bool := do
  let nowSql ← sqliteU64 now
  pure (l.relayApproved walletServicePubkey relay nowSql)

/-- The row of an active connection at an exact revision. -/
def activeAt (id : ConnectionId) (revision : Nat) (r : ConnectionRow) : Bool :=
  r.connectionId == id.value && r.revision == revision && r.status == .active

def isConnectionRevisionActive (l : Ledger) (id : ConnectionId) (revision : ConnectionRevision) :
    Except RegistryError Bool := do
  let revisionSql ← sqliteU64 revision
  pure (l.connections.any (activeAt id revisionSql))

def tombstoneConnection (l : Ledger) (id : ConnectionId) (expectedRevision : ConnectionRevision)
    (now : UnixTimestamp) : Except RegistryError (ConnectionTombstone × Ledger) := do
  let expectedSql ← sqliteU64 expectedRevision
  let nextRevision ← okOr (checkedAdd expectedRevision 1) .valueOutOfRange
  let nextSql ← sqliteU64 nextRevision
  let nowSql ← sqliteU64 now
  let current ← okOr (l.connections.selectRow fun r => r.connectionId == id.value) .notFound
  ensure (current.status != .tombstoned) .alreadyTombstoned
  ensure (current.revision == expectedSql) .staleRevision
  ensure (!decide (nowSql < current.createdAt)) .valueOutOfRange
  let connections ← okOr (l.connections.update (activeAt id expectedSql) fun r =>
    { r with status := .tombstoned, revision := nextSql, updatedAt := nowSql
             tombstonedAt := some nowSql }) .databaseUnavailable
  ensure (l.connections.count (activeAt id expectedSql) == 1) .staleRevision
  let wakeRegistrations ← okOr (l.wakeRegistrations.upsert
    (fun r => r.connectionId == id.value)
    { connectionId := id.value, connectionRevision := nextSql, desiredEnabled := false
      clientPubkey := current.clientPubkey, walletServicePubkey := current.walletServicePubkey
      attemptCount := 0, availableAt := nowSql, updatedAt := nowSql }
    fun r =>
      { r with connectionRevision := nextSql, desiredEnabled := false
               clientPubkey := current.clientPubkey
               walletServicePubkey := current.walletServicePubkey
               attemptCount := 0, availableAt := nowSql, updatedAt := nowSql })
    .databaseUnavailable
  let wakeRegistrationRelays :=
    (l.connectionRelays.select fun r => r.owner == id.value).foldl Table.insertOrSkip
      l.wakeRegistrationRelays
  pure (⟨id, nextRevision, now⟩,
    { l with
      connections, wakeRegistrations, wakeRegistrationRelays
      connectionMethods := l.connectionMethods.delete fun r => r.connectionId == id.value
      connectionRelays := l.connectionRelays.delete fun r => r.owner == id.value })

end Ledger

namespace Sample

def relay : SecureRelayUrl := ⟨relayUrl⟩

def connectionId : ConnectionId := ⟨"connection", by decide, by decide, by decide⟩

/-- A connection that may pay up to 100 satoshis a day, fees of at most 2
satoshis a payment included. -/
def connection : NewConnection where
  id := connectionId
  clientPubkey := clientPubkey
  walletServicePubkey := walletServicePubkey
  relays := [relay]
  policy := ⟨{.payInvoice}, ⟨100, .daily, .countTowardBudget 2⟩⟩
  encryption := .nip44V2
  expiresAt := none
  keys_differ := by decide
  relays_nonempty := by decide
  relays_bounded := by decide
  relays_nodup := by decide
  methods_nonempty := by decide

/-- The same connection as `insert_connection` returns it at time `now`. -/
def activeConnection (now : UnixTimestamp) : ActiveConnection where
  id := connection.id
  revision := .initial
  clientPubkey := connection.clientPubkey
  walletServicePubkey := connection.walletServicePubkey
  relays := connection.relays
  policy := connection.policy
  encryption := connection.encryption
  createdAt := now
  expiresAt := none
  updatedAt := now

end Sample

end NwcMobile
