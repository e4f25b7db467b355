import NwcMobile.Ledger.Registry

/-!
Payment accounting: reserving a payment against its period's budget, marking
its progress, and selecting unresolved attempts for reconciliation.
-/

namespace NwcMobile

open Fallible Relational

inductive PaymentAccountingError where
  | databaseUnavailable
  | corruptData
  | valueOutOfRange
  | connectionUnavailable
  | invalidAmount
  | budgetExceeded
  | reservationConflict
  | terminalStateConflict
deriving DecidableEq, Repr

/-- A durable reservation or reconciled payment result. -/
structure PaymentAttempt where
  eventId : EventId
  paymentHash : PaymentHash
  connectionId : ConnectionId
  connectionRevision : ConnectionRevision
  periodStartedAt : UnixTimestamp
  principalSat : Nat
  feeReserveSat : Nat
  state : DurablePaymentState
  actualPrincipalSat : Option Nat
  actualFeeSat : Option Nat
  chargedSat : Option Nat
  authorizationExceeded : Bool
  initiatedAt : Option UnixTimestamp
  legacyInitiationAmbiguous : Bool
  createdAt : UnixTimestamp
  updatedAt : UnixTimestamp
deriving DecidableEq

namespace PaymentAttempt

def reservedSat (a : PaymentAttempt) : Nat := a.principalSat + a.feeReserveSat

def wasInitiated (a : PaymentAttempt) : Bool := a.initiatedAt.isSome

def mayDiscloseSettlement (a : PaymentAttempt) : Bool :=
  a.wasInitiated && !a.legacyInitiationAmbiguous && a.state != .reserved

end PaymentAttempt

inductive PaymentReservationOutcome where
  | reserved (attempt : PaymentAttempt)
  | existing (attempt : PaymentAttempt)
  | alreadyTracked (attempt : PaymentAttempt)
deriving DecidableEq

/-- The budget columns of the connection that authorizes a reservation. -/
structure ConnectionBudget where
  createdAt : Nat
  limitSat : Nat
  intervalSeconds : Option Nat
  feeReserveSat : Nat
deriving DecidableEq, Repr

/-- The value a row stands for, once its connection identifier is parsed. -/
def PaymentAttemptRow.toAttempt (row : PaymentAttemptRow) (id : ConnectionId) :
    PaymentAttempt where
  eventId := row.eventId
  paymentHash := row.paymentHash
  connectionId := id
  connectionRevision := row.connectionRevision
  periodStartedAt := row.periodStartedAt
  principalSat := row.principalSat
  feeReserveSat := row.feeReserveSat
  state := row.state
  actualPrincipalSat := row.actualPrincipalSat
  actualFeeSat := row.actualFeeSat
  chargedSat := row.chargedSat
  authorizationExceeded := row.authorizationExceeded
  initiatedAt := row.initiatedAt
  legacyInitiationAmbiguous := row.legacyInitiationAmbiguous
  createdAt := row.createdAt
  updatedAt := row.updatedAt

namespace Accounting

def sqliteU64 (value : Nat) : Except PaymentAccountingError Nat :=
  i64TryFrom value .valueOutOfRange

/-- Rounding up to whole satoshis. -/
def msatToSatCeil (amount : AmountMsat) : Except PaymentAccountingError Nat := do
  let value ← okOr (checkedAdd amount 999) .valueOutOfRange
  pure (value / 1000)

/-- The settlement columns agree with the state. -/
def settlementDecodes (row : PaymentAttemptRow) : Bool :=
  match row.state with
  | .reserved | .pending | .failed =>
    row.actualPrincipalSat.isNone && row.actualFeeSat.isNone && row.chargedSat.isNone &&
      !row.authorizationExceeded
  | .succeeded =>
    row.actualPrincipalSat.isSome && row.actualFeeSat.isSome && row.chargedSat.isSome

def hydrateAttempt (row : PaymentAttemptRow) : Except PaymentAccountingError PaymentAttempt := do
  let id ← mapErr (ConnectionId.parse row.connectionId) .corruptData
  ensure (!(decide (row.updatedAt < row.createdAt) ||
    decide (row.createdAt < row.periodStartedAt))) .corruptData
  ensure (!row.initiatedAt.any fun initiatedAt => decide (initiatedAt < row.createdAt)) .corruptData
  ensure (settlementDecodes row) .corruptData
  pure (row.toAttempt id)

def validateUpdateTime (attempt : PaymentAttempt) (now : UnixTimestamp) :
    Except PaymentAccountingError Unit :=
  ensure (!decide (now < attempt.updatedAt)) .valueOutOfRange

def ensureAttemptInitiated (attempt : PaymentAttempt) : Except PaymentAccountingError Unit :=
  ensure attempt.wasInitiated .terminalStateConflict

def intervalSeconds (interval : String) : Except PaymentAccountingError (Option Nat) :=
  if interval = "never" then .ok none
  else if interval = "hourly" then .ok (some (60 * 60))
  else if interval = "daily" then .ok (some (24 * 60 * 60))
  else if interval = "weekly" then .ok (some (7 * 24 * 60 * 60))
  else if interval = "monthly" then .ok (some (30 * 24 * 60 * 60))
  else if interval = "yearly" then .ok (some (365 * 24 * 60 * 60))
  else .error .corruptData

def feeReserve (feePolicy : String) (maximumFee : Nat) : Except PaymentAccountingError Nat :=
  if feePolicy = "count" then .ok maximumFee
  else if feePolicy = "exclude" ∧ maximumFee = 0 then .ok 0
  else .error .corruptData

def periodStart (budget : ConnectionBudget) (now : Nat) : Except PaymentAccountingError Nat :=
  if now < budget.createdAt then .error .valueOutOfRange
  else
    match budget.intervalSeconds with
    | none => .ok budget.createdAt
    | some interval => do
      let periods := (now - budget.createdAt) / interval
      let offset ← okOr (checkedMul periods interval) .valueOutOfRange
      okOr (checkedAdd budget.createdAt offset) .valueOutOfRange

/-- The fee counts toward the budget only under the counting policy. -/
def chargedAmount (countFees : Bool) (actualPrincipalSat actualFeeSat : Nat) :
    Except PaymentAccountingError Nat :=
  if countFees then okOr (checkedAdd actualPrincipalSat actualFeeSat) .valueOutOfRange
  else .ok actualPrincipalSat

/-- The period row an attempt is charged to. -/
def samePeriod (connectionId : String) (start : Nat) (r : BudgetPeriodRow) : Bool :=
  r.connectionId == connectionId && r.periodStartedAt == start

/-- The condition `state IN ('reserved', 'pending')`. -/
def isUnresolved (r : PaymentAttemptRow) : Bool := r.state == .reserved || r.state == .pending

/-- An unresolved attempt the reconciler may select. -/
def isReconcilable (r : PaymentAttemptRow) : Bool :=
  isUnresolved r && !r.legacyInitiationAmbiguous

/-- `MAX(reconciliation_sequence)`, zero over no rows. -/
def maximumSequence (rows : List PaymentAttemptRow) : Nat :=
  rows.foldl (fun m r => max m r.reconciliationSequence) 0

/-- `ORDER BY reconciliation_sequence ASC, event_id ASC`. -/
def queuedBefore (a b : PaymentAttemptRow) : Prop :=
  a.reconciliationSequence < b.reconciliationSequence ∨
    (a.reconciliationSequence = b.reconciliationSequence ∧
      a.eventId.bytes.toNat ≤ b.eventId.bytes.toNat)

instance : DecidableRel queuedBefore :=
  fun a b => inferInstanceAs (Decidable (a.reconciliationSequence < b.reconciliationSequence ∨ _))

end Accounting

namespace Ledger

open Accounting

variable (l : Ledger)

def loadAttemptByEvent (eventId : EventId) :
    Except PaymentAccountingError (Option PaymentAttempt) :=
  (l.paymentAttempts.selectRow fun r => r.eventId == eventId).mapM hydrateAttempt

def loadAttemptByHash (paymentHash : PaymentHash) :
    Except PaymentAccountingError (Option PaymentAttempt) :=
  (l.paymentAttempts.selectRow fun r => r.paymentHash == paymentHash).mapM hydrateAttempt

def loadPaymentAttemptByEvent := l.loadAttemptByEvent

def loadPaymentAttempt := l.loadAttemptByHash

/-- The attempt a transition works on. -/
def requireAttempt (paymentHash : PaymentHash) : Except PaymentAccountingError PaymentAttempt := do
  let found ← l.loadAttemptByHash paymentHash
  okOr found .reservationConflict

/-- The connection row that may authorize a payment at this revision and time. -/
def authorizesPayment (connection : ActiveConnection) (revision now : Nat) (c : ConnectionRow) :
    Bool :=
  activeAt connection.id revision c && c.expiresAt.all (fun expiresAt => decide (expiresAt > now)) &&
    l.connectionMethods.any fun m => m.connectionId == c.connectionId && m.method == "pay_invoice"

def loadConnectionBudget (connection : ActiveConnection) (revisionSql nowSql : Nat) :
    Except PaymentAccountingError ConnectionBudget := do
  let row ← okOr (l.connections.selectRow (l.authorizesPayment connection revisionSql nowSql))
    .connectionUnavailable
  let interval ← intervalSeconds row.budgetInterval
  let fee ← feeReserve row.feePolicy row.maximumFeeSat
  pure ⟨row.createdAt, row.budgetLimitSat, interval, fee⟩

/-- Exchange one attempt's old contribution to its period for a new one. -/
def adjustPeriodUsed (attempt : PaymentAttempt) (oldContribution newContribution nowSql : Nat) :
    Except PaymentAccountingError (Table budgetPeriodSchema) := do
  let periodSql ← sqliteU64 attempt.periodStartedAt
  let period ← okOr (l.budgetPeriods.selectRow (samePeriod attempt.connectionId.value periodSql))
    .databaseUnavailable
  let remaining ← okOr (checkedSub period.usedSat oldContribution) .corruptData
  let nextUsed ← okOr (checkedAdd remaining newContribution) .corruptData
  let nextUsedSql ← sqliteU64 nextUsed
  okOr (l.budgetPeriods.update (samePeriod attempt.connectionId.value periodSql) fun r =>
    { r with usedSat := nextUsedSql, updatedAt := nowSql }) .databaseUnavailable

/-- The part of `reserve_payment` after its lookups: open the period, check the
limit, debit it and insert the attempt. The attempt's foreign key refers to the
period row this transaction has just read. -/
def createReservation (eventId : EventId) (paymentHash : PaymentHash)
    (connection : ActiveConnection) (principalSat : Nat) (now : UnixTimestamp)
    (budget : ConnectionBudget) (periodStartedAt : Nat) :
    Except PaymentAccountingError (PaymentReservationOutcome × Ledger) := do
  let nowSql ← sqliteU64 now
  let periodSql ← sqliteU64 periodStartedAt
  let limitSql ← sqliteU64 budget.limitSat
  let feeReserveSql ← sqliteU64 budget.feeReserveSat
  let reservedSat ← okOr (checkedAdd principalSat budget.feeReserveSat) .valueOutOfRange
  let reservedSql ← sqliteU64 reservedSat
  let sequence ← okOr (checkedAddI64 (maximumSequence l.paymentAttempts.rows) 1) .valueOutOfRange
  let opened ← okOr (l.budgetPeriods.insertOrIgnore (samePeriod connection.id.value periodSql)
    { connectionId := connection.id.value, periodStartedAt := periodSql, limitSat := limitSql
      usedSat := 0, updatedAt := nowSql }) .databaseUnavailable
  let period ← okOr (opened.selectRow (samePeriod connection.id.value periodSql))
    .databaseUnavailable
  ensure (period.limitSat == limitSql) .corruptData
  let nextUsed ← okOr (checkedAdd period.usedSat reservedSat) .valueOutOfRange
  ensure (!decide (nextUsed > budget.limitSat)) .budgetExceeded
  let nextUsedSql ← sqliteU64 nextUsed
  let budgetPeriods ← okOr (opened.update (samePeriod connection.id.value periodSql) fun r =>
    { r with usedSat := nextUsedSql, updatedAt := nowSql }) .databaseUnavailable
  let row : PaymentAttemptRow :=
    { eventId, paymentHash, connectionId := connection.id.value
      connectionRevision := connection.revision, periodStartedAt := periodSql
      principalSat, feeReserveSat := feeReserveSql, reservedSat := reservedSql, state := .reserved
      actualPrincipalSat := none, actualFeeSat := none, chargedSat := none
      authorizationExceeded := false, initiatedAt := none, legacyInitiationAmbiguous := false
      createdAt := nowSql, updatedAt := nowSql, reconciliationSequence := sequence }
  let paymentAttempts ← okOr (l.paymentAttempts.insert row) .databaseUnavailable
  pure (.reserved
    { eventId, paymentHash, connectionId := connection.id
      connectionRevision := connection.revision, periodStartedAt
      principalSat, feeReserveSat := budget.feeReserveSat, state := .reserved
      actualPrincipalSat := none, actualFeeSat := none, chargedSat := none
      authorizationExceeded := false, initiatedAt := none, legacyInitiationAmbiguous := false
      createdAt := now, updatedAt := now },
    { l with budgetPeriods, paymentAttempts })

def reservePayment (eventId : EventId) (paymentHash : PaymentHash) (connection : ActiveConnection)
    (principalSat : Nat) (now : UnixTimestamp) :
    Except PaymentAccountingError (PaymentReservationOutcome × Ledger) := do
  ensure (principalSat != 0) .invalidAmount
  let nowSql ← sqliteU64 now
  let revisionSql ← sqliteU64 connection.revision
  let _ ← sqliteU64 principalSat
  let budget ← l.loadConnectionBudget connection revisionSql nowSql
  let periodStartedAt ← periodStart budget now
  let byEvent ← l.loadAttemptByEvent eventId
  match byEvent with
  | some existing =>
    if existing.paymentHash = paymentHash ∧ existing.connectionId = connection.id ∧
        existing.connectionRevision = connection.revision ∧
        existing.principalSat = principalSat then
      pure (.existing existing, l)
    else .error .reservationConflict
  | none => do
    let byHash ← l.loadAttemptByHash paymentHash
    match byHash with
    | some existing => pure (.alreadyTracked existing, l)
    | none =>
      l.createReservation eventId paymentHash connection principalSat now budget periodStartedAt

def markPaymentInitiated (paymentHash : PaymentHash) (now : UnixTimestamp) :
    Except PaymentAccountingError (PaymentAttempt × Ledger) := do
  let nowSql ← sqliteU64 now
  let attempt ← l.requireAttempt paymentHash
  validateUpdateTime attempt now
  if attempt.initiatedAt.isSome then pure (attempt, l)
  else do
    ensure (attempt.state == .reserved) .terminalStateConflict
    let paymentAttempts ← okOr (l.paymentAttempts.update
      (fun r => r.paymentHash == paymentHash && (r.state == .reserved && r.initiatedAt.isNone))
      fun r => { r with initiatedAt := some nowSql, updatedAt := nowSql }) .databaseUnavailable
    pure ({ attempt with initiatedAt := some now, updatedAt := now }, { l with paymentAttempts })

def releaseUninitiatedPayment (paymentHash : PaymentHash) (now : UnixTimestamp) :
    Except PaymentAccountingError (Unit × Ledger) := do
  let nowSql ← sqliteU64 now
  let attempt ← l.requireAttempt paymentHash
  validateUpdateTime attempt now
  ensure (!(attempt.state != .reserved || attempt.initiatedAt.isSome)) .terminalStateConflict
  let budgetPeriods ← l.adjustPeriodUsed attempt attempt.reservedSat 0 nowSql
  let released := fun r : PaymentAttemptRow =>
    r.paymentHash == paymentHash && (r.state == .reserved && r.initiatedAt.isNone)
  ensure (l.paymentAttempts.count released == 1) .terminalStateConflict
  pure ((), { l with budgetPeriods, paymentAttempts := l.paymentAttempts.delete released })

/-- `transition_nonterminal`: move a reserved attempt to `next`. -/
def transitionNonterminal (paymentHash : PaymentHash) (next : DurablePaymentState)
    (now : UnixTimestamp) : Except PaymentAccountingError (PaymentAttempt × Ledger) := do
  let nowSql ← sqliteU64 now
  let attempt ← l.requireAttempt paymentHash
  validateUpdateTime attempt now
  ensureAttemptInitiated attempt
  if attempt.state = .reserved then do
    let paymentAttempts ← okOr (l.paymentAttempts.update
      (fun r => r.paymentHash == paymentHash && r.state == .reserved)
      fun r => { r with state := next, updatedAt := nowSql }) .databaseUnavailable
    pure ({ attempt with state := next, updatedAt := now }, { l with paymentAttempts })
  else if attempt.state = next then pure (attempt, l)
  else .error .terminalStateConflict

def markPaymentPending (paymentHash : PaymentHash) (now : UnixTimestamp) :
    Except PaymentAccountingError (PaymentAttempt × Ledger) :=
  l.transitionNonterminal paymentHash .pending now

def markPaymentFailed (paymentHash : PaymentHash) (now : UnixTimestamp) :
    Except PaymentAccountingError (PaymentAttempt × Ledger) := do
  let nowSql ← sqliteU64 now
  let attempt ← l.requireAttempt paymentHash
  validateUpdateTime attempt now
  ensureAttemptInitiated attempt
  match attempt.state with
  | .succeeded => .error .terminalStateConflict
  | .failed => pure (attempt, l)
  | .reserved | .pending => do
    let budgetPeriods ← l.adjustPeriodUsed attempt attempt.reservedSat 0 nowSql
    let paymentAttempts ← okOr (l.paymentAttempts.update
      (fun r => r.paymentHash == paymentHash && isUnresolved r)
      fun r => { r with state := .failed, updatedAt := nowSql }) .databaseUnavailable
    pure ({ attempt with state := .failed, updatedAt := now },
      { l with budgetPeriods, paymentAttempts })

/-- Charge a settlement to the attempt's period and store its actual amounts. -/
def settleAttempt (paymentHash : PaymentHash) (attempt : PaymentAttempt)
    (actualPrincipalSat actualFeeSat : Nat) (now : UnixTimestamp) :
    Except PaymentAccountingError (PaymentAttempt × Ledger) := do
  let nowSql ← sqliteU64 now
  let connection ← okOr
    (l.connections.selectRow fun c => c.connectionId == attempt.connectionId.value)
    .databaseUnavailable
  let countFees := connection.feePolicy == "count"
  let chargedSat ← chargedAmount countFees actualPrincipalSat actualFeeSat
  let oldContribution := if attempt.state = .failed then 0 else attempt.reservedSat
  let budgetPeriods ← l.adjustPeriodUsed attempt oldContribution chargedSat nowSql
  let authorizationExceeded := decide (actualPrincipalSat > attempt.principalSat) ||
    (countFees && decide (actualFeeSat > attempt.feeReserveSat))
  let chargedSql ← sqliteU64 chargedSat
  let paymentAttempts ← okOr (l.paymentAttempts.update
    (fun r => r.paymentHash == paymentHash && r.state != .succeeded)
    fun r => { r with
      state := .succeeded, actualPrincipalSat := some actualPrincipalSat
      actualFeeSat := some actualFeeSat, chargedSat := some chargedSql
      authorizationExceeded, updatedAt := nowSql }) .databaseUnavailable
  pure ({ attempt with
      state := .succeeded, actualPrincipalSat := some actualPrincipalSat
      actualFeeSat := some actualFeeSat, chargedSat := some chargedSat
      authorizationExceeded, updatedAt := now },
    { l with budgetPeriods, paymentAttempts })

def markPaymentSucceeded (paymentHash : PaymentHash) (actualPrincipal actualFee : AmountMsat)
    (now : UnixTimestamp) : Except PaymentAccountingError (PaymentAttempt × Ledger) := do
  let actualPrincipalSat ← msatToSatCeil actualPrincipal
  let actualFeeSat ← msatToSatCeil actualFee
  let _ ← sqliteU64 now
  let _ ← sqliteU64 actualPrincipalSat
  let _ ← sqliteU64 actualFeeSat
  let attempt ← l.requireAttempt paymentHash
  validateUpdateTime attempt now
  ensureAttemptInitiated attempt
  if attempt.state = .succeeded then
    if attempt.actualPrincipalSat = some actualPrincipalSat ∧
        attempt.actualFeeSat = some actualFeeSat then
      pure (attempt, l)
    else .error .terminalStateConflict
  else l.settleAttempt paymentHash attempt actualPrincipalSat actualFeeSat now

/-- Put every selectable attempt back to position zero when the counter is
about to pass its column's range. -/
def restartSequence (wraps : Bool) :
    Except PaymentAccountingError (Table paymentAttemptSchema) :=
  if wraps then
    okOr (l.paymentAttempts.update isReconcilable fun r => { r with reconciliationSequence := 0 })
      .databaseUnavailable
  else .ok l.paymentAttempts

/-- The write loop of the queue: the selected attempts go to its end in order. -/
def resequence (maximum : Nat) (attempts : List PaymentAttempt)
    (table : Table paymentAttemptSchema) :
    Except PaymentAccountingError (Table paymentAttemptSchema) :=
  attempts.zipIdx.foldlM (fun t entry => do
    let sequence ← okOr (checkedAddI64 maximum (entry.2 + 1)) .valueOutOfRange
    okOr (t.update (fun r => r.paymentHash == entry.1.paymentHash && isUnresolved r)
      fun r => { r with reconciliationSequence := sequence }) .databaseUnavailable) table

def loadUnresolvedPaymentAttempts (limit : Nat) :
    Except PaymentAccountingError ((List PaymentAttempt × Bool) × Ledger) := do
  let fetch ← okOr (checkedAdd limit 1) .valueOutOfRange
  let fetchLimit ← sqliteU64 fetch
  let limitSql ← sqliteU64 limit
  let maximum := maximumSequence (l.paymentAttempts.select isReconcilable)
  let wraps := decide (maximum > i64Max - limitSql)
  let table ← l.restartSequence wraps
  let rows := ((table.select isReconcilable).insertionSort queuedBefore).take fetchLimit
  let fetched ← rows.mapM hydrateAttempt
  let attempts := fetched.take limit
  let paymentAttempts ← resequence (if wraps then 0 else maximum) attempts table
  pure ((attempts, decide (fetched.length > limit)), { l with paymentAttempts })

end Ledger

end NwcMobile
