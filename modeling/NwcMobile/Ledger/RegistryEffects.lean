import NwcMobile.Ledger.ClaimEffects
import NwcMobile.Ledger.PaymentEffects

/-!
What a registry operation can do. Connections are only ever inserted as active rows with a fresh
identifier and a fresh key pair, or turned from active to tombstoned.
-/

namespace NwcMobile

open Fallible Relational Registry Registration

/-- The period row an import opens for usage it brings along. -/
def ImportedPeriod (before after : Table budgetPeriodSchema) (connectionId : String)
    (limit used : Nat) (start : Except RegistryError Nat) : Prop :=
  (used = 0 ∧ after = before) ∨
    (0 < used ∧ ∃ startedAt now : Nat, start = .ok startedAt ∧
      before.insert ⟨connectionId, startedAt, limit, used, now⟩ = some after)

/-- A new active connection with its methods, relays and imported usage. -/
structure Inserted (l l' : Ledger) (c : NewConnection) (createdAt : UnixTimestamp) (used : Nat)
    (now : UnixTimestamp) (row : ConnectionRow) : Prop where
  connectionId : row.connectionId = c.id.value
  clientPubkey : row.clientPubkey = c.clientPubkey
  walletServicePubkey : row.walletServicePubkey = c.walletServicePubkey
  revision : row.revision = 0
  status : row.status = .active
  budgetLimitSat : row.budgetLimitSat = c.policy.budget.limitSat
  connections : l.connections.insert row = some l'.connections
  methods : l.connectionMethods.insertAll (methodRows c.id.value c.policy.methodList) =
    some l'.connectionMethods
  relays : l.connectionRelays.insertAll (relayRows c.id.value c.relays) = some l'.connectionRelays
  periods : ImportedPeriod l.budgetPeriods l'.budgetPeriods c.id.value c.policy.budget.limitSat used
    (importedBudgetPeriodStart c.policy.budget.interval createdAt now)
  registrations : l.wakeRegistrations.insert (requeuedRow true now row) = some l'.wakeRegistrations
  registrationRelays : l.wakeRegistrationRelays.insertAll
    (l'.connectionRelays.select fun r => r.owner == c.id.value) = some l'.wakeRegistrationRelays
  attempts : l'.paymentAttempts = l.paymentAttempts
  wakeEvents : l'.wakeEvents = l.wakeEvents

/-- An active connection becomes a tombstone at the next revision. -/
structure Tombstoned (l l' : Ledger) (id : ConnectionId) (row row' : ConnectionRow) : Prop where
  mem : row ∈ l.connections
  connectionId : row.connectionId = id.value
  active : row.status = .active
  status : row'.status = .tombstoned
  revision : row'.revision = row.revision + 1
  keeps : row'.connectionId = row.connectionId ∧ row'.clientPubkey = row.clientPubkey ∧
    row'.walletServicePubkey = row.walletServicePubkey ∧ row'.budgetLimitSat = row.budgetLimitSat ∧
    row'.feePolicy = row.feePolicy ∧ row'.maximumFeeSat = row.maximumFeeSat
  connections : l.connections.update (fun r => r.connectionId == id.value) (fun _ => row') =
    some l'.connections
  methods : l'.connectionMethods = l.connectionMethods.delete fun r => r.connectionId == id.value
  relays : l'.connectionRelays = l.connectionRelays.delete fun r => r.owner == id.value
  registrations : l.wakeRegistrations.upsert (fun r => r.connectionId == id.value)
    (requeuedRow false row'.updatedAt row') (fun _ => requeuedRow false row'.updatedAt row') =
      some l'.wakeRegistrations
  registrationRelays : l'.wakeRegistrationRelays =
    (l.connectionRelays.select fun r => r.owner == id.value).foldl Table.insertOrSkip
      l.wakeRegistrationRelays
  periods : l'.budgetPeriods = l.budgetPeriods
  attempts : l'.paymentAttempts = l.paymentAttempts
  wakeEvents : l'.wakeEvents = l.wakeEvents

section Operations

variable {l l' : Ledger} {c : NewConnection} {createdAt now : UnixTimestamp} {used : Nat}
  {active : ActiveConnection} {id : ConnectionId}

theorem openImportedPeriod_ok {limit nowSql : Nat} {periods : Table budgetPeriodSchema}
    (h : l.openImportedPeriod c createdAt used now limit nowSql = .ok periods) :
    ImportedPeriod l.budgetPeriods periods c.id.value limit used
      (importedBudgetPeriodStart c.policy.budget.interval createdAt now) := by
  unfold Ledger.openImportedPeriod at h
  split at h
  · rename_i hused
    simp only [bind_eq_ok, okOr_eq_ok, Registry.sqliteU64, i64TryFrom_eq_ok] at h
    obtain ⟨start, hstart, _, ⟨-, rfl⟩, _, ⟨-, rfl⟩, hinsert⟩ := h
    exact Or.inr ⟨hused, start, nowSql, hstart, hinsert⟩
  · rename_i hused
    exact Or.inl ⟨by omega, (Except.ok.inj h).symm⟩

theorem insertConnectionState_ok
    (h : l.insertConnectionState c createdAt used now = .ok (active, l')) :
    active.id = c.id ∧ ∃ row, Inserted l l' c createdAt used now row := by
  simp only [Ledger.insertConnectionState, bind_eq_ok, ensure_eq_ok, okOr_eq_ok,
    Registry.sqliteU64, i64TryFrom_eq_ok, pure_eq_ok] at h
  obtain ⟨_, ⟨-, rfl⟩, _, ⟨-, rfl⟩, -, -, expires, -, _, ⟨-, rfl⟩, fee, -, -, -, connections,
    hconnections, methods, hmethods, relays, hrelays, periods, hperiods, outbox, houtbox,
    outboxRelays, houtboxRelays, heq⟩ := h
  obtain ⟨rfl, rfl⟩ := Prod.mk.inj heq
  refine ⟨rfl, _, ⟨rfl, rfl, rfl, rfl, rfl, rfl, hconnections, hmethods, hrelays,
    openImportedPeriod_ok hperiods, houtbox, houtboxRelays, rfl, rfl⟩⟩

theorem importConnection_ok (h : l.importConnection c createdAt used now = .ok (active, l')) :
    active.id = c.id ∧ used ≤ c.policy.budget.limitSat ∧
      ∃ row, Inserted l l' c createdAt used now row := by
  simp only [Ledger.importConnection, bind_eq_ok, ensure_eq_ok] at h
  obtain ⟨-, hguard, h⟩ := h
  obtain ⟨hid, hrow⟩ := insertConnectionState_ok h
  refine ⟨hid, ?_, hrow⟩
  simp at hguard
  omega

theorem activeAt_eq_true {revision : Nat} {r : ConnectionRow} :
    Ledger.activeAt id revision r = true ↔
      r.connectionId = id.value ∧ r.revision = revision ∧ r.status = .active := by
  simp [Ledger.activeAt, and_assoc]

theorem tombstoneConnection_ok {revision : ConnectionRevision} {tombstone : ConnectionTombstone}
    (h : l.tombstoneConnection id revision now = .ok (tombstone, l')) :
    ∃ row row', Tombstoned l l' id row row' ∧ row.revision = revision ∧
      row'.revision = tombstone.revision ∧ tombstone.id = id := by
  simp only [Ledger.tombstoneConnection, bind_eq_ok, ensure_eq_ok, okOr_eq_ok, checkedAdd_eq_some,
    Registry.sqliteU64, i64TryFrom_eq_ok, pure_eq_ok] at h
  obtain ⟨_, ⟨-, rfl⟩, _, ⟨-, rfl⟩, _, ⟨-, rfl⟩, _, ⟨-, rfl⟩, row, hrow, -, hstatus, -, hrevision,
    -, -, connections, hupdate, -, -, outbox, houtbox, heq⟩ := h
  obtain ⟨rfl, rfl⟩ := Prod.mk.inj heq
  obtain ⟨hmem, hid⟩ := Table.selectRow_mem hrow
  have hactive : row.status = .active := by
    cases hs : row.status with
    | active => rfl
    | tombstoned => simp [hs] at hstatus
  have hat : row.revision = revision := by simpa using hrevision
  have hguard : Ledger.activeAt id revision row = true :=
    activeAt_eq_true.mpr ⟨by simpa using hid, hat, hactive⟩
  rw [Table.update_eq_replace (connection_id_key id.value) hmem hid
    (fun r hr => by simpa using (activeAt_eq_true.mp hr).1) hguard] at hupdate
  refine ⟨row, { row with
    status := .tombstoned, revision := revision + 1, updatedAt := now, tombstonedAt := some now },
    ?_, hat, rfl, rfl⟩
  have hconnection : row.connectionId = id.value := by simpa using hid
  refine ⟨hmem, hconnection, hactive, rfl, congrArg (· + 1) hat.symm,
    ⟨rfl, rfl, rfl, rfl, rfl, rfl⟩, hupdate, rfl, rfl, ?_, rfl, rfl, rfl, rfl⟩
  rw [← houtbox, requeuedRow, hconnection]
  apply Table.upsert_congr
  intro r _ hr
  have hsame : r.connectionId = id.value := by simpa using hr
  simp [← hsame]

/-- The two ways a registry operation writes. -/
theorem registryOp_effect {x : Crates} {op : RegistryOp} {value : op.Value}
    (h : op.run x l = .ok (value, l')) :
    l' = l ∨ (∃ c createdAt used now row, Inserted l l' c createdAt used now row ∧
        used ≤ c.policy.budget.limitSat) ∨
      ∃ id row row', Tombstoned l l' id row row' := by
  cases op with
  | insertConnection c now =>
    obtain ⟨-, row, hrow⟩ := insertConnectionState_ok h
    exact Or.inr (Or.inl ⟨c, now, 0, now, row, hrow, Nat.zero_le _⟩)
  | importConnection c createdAt used now =>
    obtain ⟨-, hused, row, hrow⟩ := importConnection_ok h
    exact Or.inr (Or.inl ⟨c, createdAt, used, now, row, hrow, hused⟩)
  | tombstoneConnection id revision now =>
    obtain ⟨row, row', hrow, -⟩ := tombstoneConnection_ok h
    exact Or.inr (Or.inr ⟨id, row, row', hrow⟩)
  | loadConnection id => exact Or.inl (reading_eq_ok.mp h).2
  | loadActiveConnection id => exact Or.inl (reading_eq_ok.mp h).2
  | listActiveConnections => exact Or.inl (reading_eq_ok.mp h).2
  | loadActiveConnectionByKeys client wallet => exact Or.inl (reading_eq_ok.mp h).2
  | isRelayApprovedForWallet wallet relay now => exact Or.inl (reading_eq_ok.mp h).2
  | isConnectionRevisionActive id revision => exact Or.inl (reading_eq_ok.mp h).2

end Operations

section Steps

variable {x : Crates} {l l' : Ledger} {call : LedgerCall}

/-- One call changes the payment tables as a payment operation does, or leaves
the attempts alone and at most opens a period for imported usage. -/
theorem LedgerStep.payments (h : LedgerStep x l call l') :
    PaymentEffect l l' ∨ (l'.paymentAttempts = l.paymentAttempts ∧
      (l'.budgetPeriods = l.budgetPeriods ∨ ∃ c createdAt used now row,
        Inserted l l' c createdAt used now row ∧ used ≤ c.policy.budget.limitSat)) := by
  obtain ⟨op, reply⟩ := call
  rcases h.cases with rfl | ⟨value, random, -, hrun⟩
  · exact Or.inl (.unchanged rfl)
  · cases op with
    | payment op => exact Or.inl (paymentOp_effect hrun)
    | claim op =>
      have hframe := claimOp_frame hrun
      exact Or.inr ⟨by rw [hframe], Or.inl (by rw [hframe])⟩
    | record op =>
      have hframe := recordOp_frame hrun
      exact Or.inr ⟨by rw [hframe], Or.inl (by rw [hframe])⟩
    | registration op =>
      have hframe := registrationOp_frame hrun
      exact Or.inr ⟨by rw [hframe], Or.inl (by rw [hframe])⟩
    | registry op =>
      rcases registryOp_effect hrun with rfl | ⟨c, createdAt, used, now, row, hrow, hused⟩ |
        ⟨id, row, row', htombstoned⟩
      · exact Or.inl (.unchanged rfl)
      · exact Or.inr ⟨hrow.attempts, Or.inr ⟨c, createdAt, used, now, row, hrow, hused⟩⟩
      · exact Or.inr ⟨htombstoned.attempts, Or.inl htombstoned.periods⟩

/-- Payment operations write the payment tables only. -/
theorem PaymentEffect.frame (h : PaymentEffect l l') :
    l' = { l with budgetPeriods := l'.budgetPeriods, paymentAttempts := l'.paymentAttempts } := by
  cases h with
  | unchanged heq => rw [heq]
  | reserved _ hframe => rw [hframe]
  | moved hmoved => rw [hmoved.frame]
  | released _ _ _ _ _ hframe => exact hframe
  | requeued _ hframe => rw [hframe]

/-- One call leaves the connections alone, inserts one or tombstones one. -/
theorem LedgerStep.connections (h : LedgerStep x l call l') :
    (l'.connections = l.connections ∧ l'.connectionMethods = l.connectionMethods) ∨
      (∃ c createdAt used now row, Inserted l l' c createdAt used now row) ∨
      ∃ id row row', Tombstoned l l' id row row' := by
  obtain ⟨op, reply⟩ := call
  rcases h.cases with rfl | ⟨value, random, -, hrun⟩
  · exact Or.inl ⟨rfl, rfl⟩
  · cases op with
    | payment op =>
      have hframe := (paymentOp_effect hrun).frame
      exact Or.inl ⟨by rw [hframe], by rw [hframe]⟩
    | claim op =>
      have hframe := claimOp_frame hrun
      exact Or.inl ⟨by rw [hframe], by rw [hframe]⟩
    | record op =>
      have hframe := recordOp_frame hrun
      exact Or.inl ⟨by rw [hframe], by rw [hframe]⟩
    | registration op =>
      have hframe := registrationOp_frame hrun
      exact Or.inl ⟨by rw [hframe], by rw [hframe]⟩
    | registry op =>
      rcases registryOp_effect hrun with rfl | ⟨c, createdAt, used, now, row, hrow, -⟩ |
        htombstoned
      · exact Or.inl ⟨rfl, rfl⟩
      · exact Or.inr (Or.inl ⟨c, createdAt, used, now, row, hrow⟩)
      · exact Or.inr (Or.inr htombstoned)

end Steps

end NwcMobile
