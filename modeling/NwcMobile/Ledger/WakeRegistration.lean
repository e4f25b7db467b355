import NwcMobile.Ledger.Registry

/-!
The wake-registration outbox: for each connection at most one row with the latest
state its wake provider must observe. Workers load due changes and later acknowledge
or defer them; a change that another write has superseded is stale.
-/

namespace NwcMobile

open Fallible Relational

inductive WakeRegistrationError where
  | databaseUnavailable
  | corruptData
  | valueOutOfRange
  | invalidBatchSize
  | staleChange
  | invalidRetryDelay
deriving DecidableEq, Repr

def maxWakeRegistrationBatch : Nat := 100

def maxRegistrationRelays : Nat := 8

/-- The latest durable registration state a wake provider must observe. -/
structure WakeRegistrationChange where
  connectionId : ConnectionId
  connectionRevision : ConnectionRevision
  enabled : Bool
  clientPubkey : PublicKey
  walletServicePubkey : PublicKey
  relays : List SecureRelayUrl
  attemptCount : Nat
  availableAt : UnixTimestamp
  updatedAt : UnixTimestamp
deriving DecidableEq

namespace Registration

def sqliteU64 (value : Nat) : Except WakeRegistrationError Nat := i64TryFrom value .valueOutOfRange

def decodePublicKey (x : Crates) (value : PublicKey) : Except WakeRegistrationError PublicKey :=
  if x.publicKeyFromSlice value then .ok value else .error .corruptData

/-- The row that a requeue of an active connection leaves. -/
def requeuedRow (enabled : Bool) (now : Nat) (c : ConnectionRow) : WakeRegistrationRow where
  connectionId := c.connectionId
  connectionRevision := c.revision
  desiredEnabled := enabled
  clientPubkey := c.clientPubkey
  walletServicePubkey := c.walletServicePubkey
  attemptCount := 0
  availableAt := now
  updatedAt := now

/-- The row is the one the change was loaded from, or carries the same values. -/
def matchesChange (change : WakeRegistrationChange) (r : WakeRegistrationRow) : Bool :=
  r.connectionId == change.connectionId.value &&
    r.connectionRevision == change.connectionRevision && r.desiredEnabled == change.enabled &&
    r.attemptCount == change.attemptCount && r.updatedAt == change.updatedAt

end Registration

namespace Ledger

open Registration

def nextWakeRegistrationAt (l : Ledger) : Except WakeRegistrationError (Option UnixTimestamp) :=
  .ok (l.wakeRegistrations.rows.map WakeRegistrationRow.availableAt).min?

/-- `requeue_active_wake_registrations_with_state`: one upsert per active connection,
and its relay list copied again. -/
def requeueActiveWakeRegistrationsWithState (l : Ledger) (enabled : Bool) (now : UnixTimestamp) :
    Except WakeRegistrationError (Nat × Ledger) := do
  let nowSql ← sqliteU64 now
  ensure (!l.connections.any fun r => r.status == .active && decide (r.updatedAt > nowSql))
    .valueOutOfRange
  let active := l.connections.select fun r => r.status == .active
  let wakeRegistrations ← okOr (l.wakeRegistrations.upsertAll
    (fun c r => r.connectionId == c.connectionId) (requeuedRow enabled nowSql) active)
    .databaseUnavailable
  let ofActive := fun r : RelayRow String => active.any fun c => c.connectionId == r.owner
  let wakeRegistrationRelays ← okOr ((l.wakeRegistrationRelays.delete ofActive).insertAll
    (l.connectionRelays.select ofActive)) .databaseUnavailable
  pure (active.length, { l with wakeRegistrations, wakeRegistrationRelays })

/-- `hydrate_change`: decode a row and its copied relays, or report corrupt data. -/
def hydrateChange (x : Crates) (l : Ledger) (row : WakeRegistrationRow) :
    Except WakeRegistrationError WakeRegistrationChange := do
  let connectionId ← mapErr (ConnectionId.parse row.connectionId) .corruptData
  let clientPubkey ← Registration.decodePublicKey x row.clientPubkey
  let walletServicePubkey ← Registration.decodePublicKey x row.walletServicePubkey
  ensure (clientPubkey != walletServicePubkey) .corruptData
  let relays ← ((l.wakeRegistrationRelays.select fun r => r.owner == connectionId.value).insertionSort
    fun a b => a.position ≤ b.position).mapM fun r =>
      mapErr (SecureRelayUrl.parse x r.relayUrl) .corruptData
  ensure (!(relays.isEmpty || decide (relays.length > maxRegistrationRelays))) .corruptData
  pure
    { connectionId, connectionRevision := row.connectionRevision, enabled := row.desiredEnabled
      clientPubkey, walletServicePubkey, relays, attemptCount := row.attemptCount
      availableAt := row.availableAt, updatedAt := row.updatedAt }

def loadDueWakeRegistrations (x : Crates) (l : Ledger) (now : UnixTimestamp) (maximumRows : Nat) :
    Except WakeRegistrationError (List WakeRegistrationChange) := do
  ensure (!(maximumRows == 0 || decide (maximumRows > maxWakeRegistrationBatch))) .invalidBatchSize
  let nowSql ← sqliteU64 now
  (((l.wakeRegistrations.select fun r => decide (r.availableAt ≤ nowSql)).insertionSort fun a b =>
      a.availableAt < b.availableAt ∨
        (a.availableAt = b.availableAt ∧ a.connectionId ≤ b.connectionId)).take maximumRows).mapM
    (l.hydrateChange x)

/-- Remove a change if its row still carries the values it was loaded with; the copied
relays go with the row. -/
def acknowledgeWakeRegistration (l : Ledger) (change : WakeRegistrationChange) :
    Except WakeRegistrationError (Unit × Ledger) := do
  let _ ← sqliteU64 change.connectionRevision
  let _ ← sqliteU64 change.updatedAt
  ensure (l.wakeRegistrations.count (matchesChange change) == 1) .staleChange
  pure ((),
    { l with
      wakeRegistrations := l.wakeRegistrations.delete (matchesChange change)
      wakeRegistrationRelays := l.wakeRegistrationRelays.delete fun r =>
        l.wakeRegistrations.any fun row => matchesChange change row && row.connectionId == r.owner })

/-- Defer a change if its row still carries the values it was loaded with. -/
def retryWakeRegistration (l : Ledger) (change : WakeRegistrationChange) (now : UnixTimestamp)
    (delay : Duration) : Except WakeRegistrationError (Unit × Ledger) := do
  ensure (!(delay.isZero || delay.asSecs == 0)) .invalidRetryDelay
  ensure (!decide (now < change.updatedAt)) .valueOutOfRange
  let availableAt ← okOr (checkedAdd now delay.asSecs) .valueOutOfRange
  let _ ← sqliteU64 change.connectionRevision
  let _ ← sqliteU64 change.updatedAt
  let availableSql ← sqliteU64 availableAt
  let nowSql ← sqliteU64 now
  let due := fun r => matchesChange change r && decide (r.attemptCount < 2147483647)
  let wakeRegistrations ← okOr (l.wakeRegistrations.update due fun r =>
    { r with attemptCount := r.attemptCount + 1, availableAt := availableSql, updatedAt := nowSql })
    .databaseUnavailable
  ensure (l.wakeRegistrations.count due == 1) .staleChange
  pure ((), { l with wakeRegistrations })

end Ledger

end NwcMobile
