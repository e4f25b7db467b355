import NwcMobile.Ledger.Registry

/-!
Event claims: the durable lease on one request event, its retry and terminal
states, and their retention.
-/

namespace NwcMobile

open Fallible Relational

inductive LedgerError where
  | databaseUnavailable
  | unsupportedSchema
  | corruptData
  | valueOutOfRange
  | invalidLease
  | randomnessUnavailable
  | claimMetadataMismatch
  | connectionUnavailable
  | lostLease
  | responseTooLarge
  | invalidPruneBatch
deriving DecidableEq, Repr

/-- Proof that a process owned an event claim when it was issued. -/
structure EventLease where
  eventId : EventId
  token : ClaimToken
  resumed : Bool
  freshnessAccepted : Bool
deriving DecidableEq, Repr

structure TerminalEvent where
  eventId : EventId
  kind : TerminalKind
  responseEventJson : Option String
  requestMethod : Option NwcMethod
  completedAt : UnixTimestamp
deriving DecidableEq, Repr

inductive ClaimOutcome where
  | acquired (lease : EventLease)
  | inProgress (retryAfter : Duration)
  | terminal (event : TerminalEvent)
deriving DecidableEq, Repr

def maxPruneBatch : Nat := 1000

namespace Claims

def sqliteTimestamp (timestamp : UnixTimestamp) : Except LedgerError Nat :=
  i64TryFrom timestamp .valueOutOfRange

def sqliteRevision (revision : ConnectionRevision) : Except LedgerError Nat :=
  i64TryFrom revision .valueOutOfRange

/-- The end of a lease or delay that starts at `now`, on whole seconds. -/
def expiry (now : Nat) (duration : Duration) : Except LedgerError Nat := do
  ensure (!(duration.isZero || duration.asSecs == 0)) .invalidLease
  let seconds ← i64TryFrom duration.asSecs .invalidLease
  okOr (checkedAddI64 now seconds) .invalidLease

def nwcMethodFromDatabase (method : String) : Except LedgerError NwcMethod :=
  okOr (NwcMethod.all.find? fun m => m.asStr == method) .corruptData

def terminalFromRow (eventId : EventId) (existing : WakeEventRow) :
    Except LedgerError TerminalEvent := do
  ensure existing.availableAt.isNone .corruptData
  let kind ← okOr existing.terminalKind .corruptData
  ensure (!existing.responseEventJson.any fun json =>
    decide (json.utf8ByteSize > maxResponseEventBytes)) .corruptData
  let requestMethod ← existing.requestMethod.mapM nwcMethodFromDatabase
  pure ⟨eventId, kind, existing.responseEventJson, requestMethod, existing.updatedAt⟩

/-- The row a claim may take over: not terminal and not delayed beyond `now`. -/
def claimable (eventId : EventId) (now : Nat) (r : WakeEventRow) : Bool :=
  r.eventId == eventId && (r.state == .claimed || r.state == .retryable) &&
    r.availableAt.any fun availableAt => decide (availableAt ≤ now)

/-- The guard of every owner operation: the row is claimed by the lease's token
and the lease has not expired. -/
def owned (lease : EventLease) (now : Nat) (r : WakeEventRow) : Bool :=
  r.eventId == lease.eventId && r.state == .claimed && r.claimToken == some lease.token &&
    r.availableAt.any fun availableAt => decide (availableAt > now)

end Claims

namespace Ledger

open Claims

variable (l : Ledger)

/-- The branch of `claim_event` for a row that is claimed or waiting to be
retried: report the delay, or take the row over. -/
def resumeEvent (token : Option ClaimToken) (eventId : EventId) (existing : WakeEventRow)
    (nowSql leaseExpires : Nat) : Except LedgerError (ClaimOutcome × Ledger) := do
  let availableAt ← okOr existing.availableAt .corruptData
  if availableAt > nowSql then
    pure (.inProgress (.fromSecs (availableAt - nowSql)), l)
  else do
    let token ← okOr token .randomnessUnavailable
    let wakeEvents ← okOr (l.wakeEvents.update (claimable eventId nowSql) fun r =>
      { r with state := .claimed, claimToken := some token
               availableAt := some leaseExpires, updatedAt := nowSql }) .databaseUnavailable
    ensure (l.wakeEvents.count (claimable eventId nowSql) == 1) .databaseUnavailable
    pure (.acquired ⟨eventId, token, true, existing.freshnessAccepted⟩, { l with wakeEvents })

/-- `claim_event`; `token` is what the random source yields, if anything. -/
def claimEvent (token : Option ClaimToken) (eventId : EventId) (connectionId : ConnectionId)
    (connectionRevision : ConnectionRevision) (now : UnixTimestamp) (leaseDuration : Duration) :
    Except LedgerError (ClaimOutcome × Ledger) := do
  let nowSql ← sqliteTimestamp now
  let revision ← sqliteRevision connectionRevision
  let leaseExpires ← expiry nowSql leaseDuration
  match l.wakeEvents.selectRow fun r => r.eventId == eventId with
  | none => do
    let token ← okOr token .randomnessUnavailable
    let wakeEvents ← okOr (l.wakeEvents.insert
      { eventId, connectionId := connectionId.value, connectionRevision := revision
        state := .claimed, claimToken := some token, availableAt := some leaseExpires
        updatedAt := nowSql, terminalKind := none, responseEventJson := none
        requestMethod := none, freshnessAccepted := false }) .databaseUnavailable
    pure (.acquired ⟨eventId, token, false, false⟩, { l with wakeEvents })
  | some existing => do
    ensure (!(existing.connectionId != connectionId.value ||
      existing.connectionRevision != revision)) .claimMetadataMismatch
    match existing.state with
    | .terminal => do
      let event ← terminalFromRow eventId existing
      pure (.terminal event, l)
    | .claimed | .retryable => l.resumeEvent token eventId existing nowSql leaseExpires

/-- One guarded update of the claimed row: every owner operation is this with
its own guard and assignment. -/
def updateOwned (guard : WakeEventRow → Bool) (f : WakeEventRow → WakeEventRow) :
    Except LedgerError (Unit × Ledger) := do
  let wakeEvents ← okOr (l.wakeEvents.update guard f) .databaseUnavailable
  ensure (l.wakeEvents.count guard == 1) .lostLease
  pure ((), { l with wakeEvents })

def acceptEventFreshness (lease : EventLease) (now : UnixTimestamp) :
    Except LedgerError (Unit × Ledger) := do
  let nowSql ← sqliteTimestamp now
  l.updateOwned (owned lease nowSql) fun r =>
    { r with freshnessAccepted := true, updatedAt := nowSql }

def renewLease (lease : EventLease) (now : UnixTimestamp) (leaseDuration : Duration) :
    Except LedgerError (Unit × Ledger) := do
  let nowSql ← sqliteTimestamp now
  let expires ← expiry nowSql leaseDuration
  l.updateOwned (owned lease nowSql) fun r =>
    { r with availableAt := some expires, updatedAt := nowSql }

def retryLater (lease : EventLease) (now : UnixTimestamp) (delay : Duration) :
    Except LedgerError (Unit × Ledger) := do
  let nowSql ← sqliteTimestamp now
  let availableAt ← expiry nowSql delay
  l.updateOwned (owned lease nowSql) fun r =>
    { r with state := .retryable, claimToken := none
             availableAt := some availableAt, updatedAt := nowSql }

def completeEvent (lease : EventLease) (kind : TerminalKind) (responseEventJson : Option String)
    (now : UnixTimestamp) : Except LedgerError (Unit × Ledger) := do
  ensure (!responseEventJson.any fun json => decide (json.utf8ByteSize > maxResponseEventBytes))
    .responseTooLarge
  let nowSql ← sqliteTimestamp now
  l.updateOwned (owned lease nowSql) fun r =>
    { r with state := .terminal, claimToken := none, availableAt := none, updatedAt := nowSql
             terminalKind := some kind, responseEventJson, requestMethod := none }

/-- `complete_event_for_active_connection_inner`: the terminal update is guarded
by the lease, the claim's metadata and the connection's exact active revision. -/
def completeEventForActiveConnectionInner (lease : EventLease) (connectionId : ConnectionId)
    (connectionRevision : ConnectionRevision) (responseEventJson : String)
    (requestMethod : Option NwcMethod) (now : UnixTimestamp) :
    Except LedgerError (Unit × Ledger) := do
  ensure (!decide (responseEventJson.utf8ByteSize > maxResponseEventBytes)) .responseTooLarge
  let nowSql ← sqliteTimestamp now
  let revision ← sqliteRevision connectionRevision
  let matching := fun r : WakeEventRow =>
    owned lease nowSql r && r.connectionId == connectionId.value && r.connectionRevision == revision
  let guard := fun r => matching r && l.connections.any (activeAt connectionId revision)
  let wakeEvents ← okOr (l.wakeEvents.update guard fun r =>
    { r with state := .terminal, claimToken := none, availableAt := none, updatedAt := nowSql
             terminalKind := some .completed, responseEventJson := some responseEventJson
             requestMethod := requestMethod.map NwcMethod.asStr }) .databaseUnavailable
  if l.wakeEvents.count guard = 1 then pure ((), { l with wakeEvents })
  else if (l.wakeEvents.selectRow matching).isSome then .error .connectionUnavailable
  else .error .lostLease

def completeEventForActiveConnection (lease : EventLease) (connectionId : ConnectionId)
    (connectionRevision : ConnectionRevision) (responseEventJson : String) (now : UnixTimestamp) :
    Except LedgerError (Unit × Ledger) :=
  l.completeEventForActiveConnectionInner lease connectionId connectionRevision responseEventJson
    none now

def completeNwcEventForActiveConnection (lease : EventLease) (connectionId : ConnectionId)
    (connectionRevision : ConnectionRevision) (responseEventJson : String)
    (requestMethod : NwcMethod) (now : UnixTimestamp) : Except LedgerError (Unit × Ledger) :=
  l.completeEventForActiveConnectionInner lease connectionId connectionRevision responseEventJson
    (some requestMethod) now

def lastCompletedEventAt (connectionId : ConnectionId) :
    Except LedgerError (Option UnixTimestamp) :=
  .ok ((l.wakeEvents.select fun r => r.connectionId == connectionId.value &&
    (r.state == .terminal && r.terminalKind == some .completed)).map (·.updatedAt)).max?

/-- The oldest terminal rows before the cutoff, at most `limit` of them. -/
def prunable (cutoff limit : Nat) : List WakeEventRow :=
  ((l.wakeEvents.select fun r => r.state == .terminal && decide (r.updatedAt < cutoff)).insertionSort
    fun a b => a.updatedAt ≤ b.updatedAt).take limit

def pruneTerminal (completedBefore : UnixTimestamp) (maximumRows : Nat) :
    Except LedgerError (Nat × Ledger) := do
  ensure (!(maximumRows == 0 || decide (maximumRows > maxPruneBatch))) .invalidPruneBatch
  let cutoff ← sqliteTimestamp completedBefore
  let pruned := (l.prunable cutoff maximumRows).map (·.eventId)
  pure (l.wakeEvents.count (fun r => pruned.contains r.eventId),
    { l with wakeEvents := l.wakeEvents.delete fun r => pruned.contains r.eventId })

end Ledger

end NwcMobile
