import NwcMobile.Ledger.Readable

/-!
No operation meets corrupt data. Every error an operation can fail with is looked at; the ones
that report corrupt data come from a decoder or from a check across tables, and neither fails
on a ledger that keeps its rules.
-/

namespace NwcMobile

open Fallible Relational Transition Registry

/-- How an operation says that what it read is corrupt. -/
def LedgerOp.corruptData : (op : LedgerOp) → op.Error
  | .registry _ => .corruptData
  | .payment _ => .corruptData
  | .claim _ => .corruptData
  | .record _ => .corruptData
  | .registration _ => .corruptData

/-- The record an operation is asked to make is refused by its own check, which reports
corrupt data as well. -/
def LedgerOp.Malformed : LedgerOp → Prop
  | .record (.recordNwcSentPayment sent _) =>
    sent.invoice.isEmpty ∨ maxInvoiceBytes < sent.invoice.utf8ByteSize
  | .record (.recordNwcInvoice invoice _) =>
    invoice.invoice.isEmpty ∨ maxInvoiceBytes < invoice.invoice.utf8ByteSize ∨
      (∃ text ∈ invoice.description, maxDescriptionBytes < text.utf8ByteSize) ∨
      invoice.amount = 0 ∨ invoice.expiresAt ≤ invoice.createdAt
  | _ => False

/-- The outcome does not report corrupt data. -/
abbrev Legible {ε α : Type} (corrupt : ε) (outcome : Except ε α) : Prop :=
  FailsOnly (fun e => e ≠ corrupt) outcome

section Outcomes

variable {ε α : Type} {corrupt e : ε} {outcome : Except ε α}

theorem legible_of_ne (h : outcome ≠ .error corrupt) : Legible corrupt outcome := by
  intro e herror hcorrupt
  rw [hcorrupt] at herror
  exact h herror

theorem legible_of_ok (h : ∃ a, outcome = .ok a) : Legible corrupt outcome := by
  obtain ⟨a, rfl⟩ := h
  exact failsOnly_ok

theorem legible_error (h : e ≠ corrupt) : Legible corrupt (.error e : Except ε α) := by
  intro e' herror
  cases herror
  exact h

theorem legible_okOr {value : Option α} (h : e ≠ corrupt) : Legible corrupt (okOr value e) :=
  failsOnly_okOr fun _ => h

theorem legible_ensure {condition : Bool} (h : e ≠ corrupt) :
    Legible corrupt (ensure condition e) := failsOnly_ensure fun _ => h

theorem legible_i64TryFrom {value : Nat} (h : e ≠ corrupt) :
    Legible corrupt (i64TryFrom value e) := by
  intro e' herror
  obtain ⟨-, rfl⟩ := i64TryFrom_eq_error.mp herror
  exact h

end Outcomes

section Operations

variable {x : Crates} {l l' : Ledger} {imported : String → Nat → Nat} {hash : PaymentHash}
  {eventId : EventId} {now : UnixTimestamp}

/-- An active row decodes to an active connection. -/
theorem requireActive_legible {row : ConnectionRow} {stored : StoredConnection}
    (hactive : row.status = .active) (h : l.hydrateStoredConnection x row = .ok stored) :
    Legible .corruptData (Ledger.requireActive stored) := by
  simp only [Ledger.hydrateStoredConnection, hactive, bind_eq_ok, pure_eq_ok] at h
  obtain ⟨id, -, -, -, -, -, connection, -, rfl⟩ := h
  exact failsOnly_ok

theorem insertConnectionState_legible {c : NewConnection} {createdAt : UnixTimestamp}
    {used : Nat} : Legible .corruptData (l.insertConnectionState c createdAt used now) := by
  have hnumber : ∀ value, Legible .corruptData (Registry.sqliteU64 value) := fun value =>
    legible_i64TryFrom (by simp)
  have hfee : Legible .corruptData (encodeFeePolicy c.policy.budget.feePolicy) := by
    cases c.policy.budget.feePolicy with
    | countTowardBudget maximum => exact (hnumber maximum).bind fun _ _ => failsOnly_ok
    | excludeForCompatibility => exact failsOnly_ok
  have hstart : Legible .corruptData
      (importedBudgetPeriodStart c.policy.budget.interval createdAt now) := by
    unfold importedBudgetPeriodStart
    split
    · exact legible_error (by simp)
    · split
      · exact failsOnly_ok
      · exact (legible_okOr (by simp)).bind fun _ _ => legible_okOr (by simp)
  have hperiod : ∀ limit nowSql, Legible .corruptData
      (l.openImportedPeriod c createdAt used now limit nowSql) := by
    intro limit nowSql
    unfold Ledger.openImportedPeriod
    split
    · exact hstart.bind fun _ _ => (hnumber _).bind fun _ _ => (hnumber _).bind fun _ _ =>
        legible_okOr (by simp)
    · exact failsOnly_ok
  exact (hnumber _).bind fun _ _ => (hnumber _).bind fun _ _ =>
    (legible_ensure (by simp)).bind fun _ _ => (failsOnly_option fun _ _ => hnumber _).bind fun _ _ =>
      (hnumber _).bind fun _ _ => hfee.bind fun _ _ => (legible_ensure (by simp)).bind fun _ _ =>
        (legible_okOr (by simp)).bind fun _ _ => (legible_okOr (by simp)).bind fun _ _ =>
          (legible_okOr (by simp)).bind fun _ _ => (hperiod _ _).bind fun _ _ =>
            (legible_okOr (by simp)).bind fun _ _ => (legible_okOr (by simp)).bind fun _ _ =>
              failsOnly_ok

theorem tombstoneConnection_legible {id : ConnectionId} {revision : ConnectionRevision} :
    Legible .corruptData (l.tombstoneConnection id revision now) := by
  have hnumber : ∀ value, Legible .corruptData (Registry.sqliteU64 value) := fun value =>
    legible_i64TryFrom (by simp)
  exact (hnumber _).bind fun _ _ => (legible_okOr (by simp)).bind fun _ _ =>
    (hnumber _).bind fun _ _ => (hnumber _).bind fun _ _ => (legible_okOr (by simp)).bind fun _ _ =>
      (legible_ensure (by simp)).bind fun _ _ => (legible_ensure (by simp)).bind fun _ _ =>
        (legible_ensure (by simp)).bind fun _ _ => (legible_okOr (by simp)).bind fun _ _ =>
          (legible_ensure (by simp)).bind fun _ _ => (legible_okOr (by simp)).bind fun _ _ =>
            failsOnly_ok

theorem Ledger.Decodes.registryOp (h : l.Decodes x) (op : RegistryOp) :
    Legible .corruptData (op.run x l) := by
  have hload : ∀ id, Legible .corruptData (l.loadConnection x id) := fun id =>
    failsOnly_option fun row hrow => legible_of_ok (h.connections row (Table.selectRow_mem hrow).1)
  have hactive : ∀ row ∈ l.connections, row.status = .active → Legible .corruptData (do
      let stored ← l.hydrateStoredConnection x row
      Ledger.requireActive stored) := fun row hrow hstatus =>
    (legible_of_ok (h.connections row hrow)).bind fun stored hstored =>
      requireActive_legible hstatus hstored
  cases op with
  | insertConnection c now => exact insertConnectionState_legible
  | importConnection c createdAt used now =>
    exact (legible_ensure (by simp)).bind fun _ _ => insertConnectionState_legible
  | loadConnection id => exact (hload id).map
  | loadActiveConnection id =>
    apply FailsOnly.map
    refine (hload id).bind fun stored _ => ?_
    split <;> exact failsOnly_ok
  | listActiveConnections =>
    apply FailsOnly.map
    apply failsOnly_mapM
    intro row hrow
    rw [List.mem_insertionSort, Table.mem_select, beq_iff_eq] at hrow
    exact hactive row hrow.1 hrow.2
  | loadActiveConnectionByKeys client wallet =>
    apply FailsOnly.map
    apply failsOnly_option
    intro row hrow
    obtain ⟨hmem, hkeys⟩ := Table.selectRow_mem hrow
    simp only [Bool.and_eq_true, beq_iff_eq] at hkeys
    exact hactive row hmem hkeys.1.1
  | isRelayApprovedForWallet wallet relay now =>
    exact ((legible_i64TryFrom (by simp)).bind fun _ _ => failsOnly_ok).map
  | isConnectionRevisionActive id revision =>
    exact ((legible_i64TryFrom (by simp)).bind fun _ _ => failsOnly_ok).map
  | tombstoneConnection id revision now => exact tombstoneConnection_legible

theorem sqliteU64_legible {value : Nat} : Legible .corruptData (Accounting.sqliteU64 value) :=
  legible_i64TryFrom (by simp)

theorem Ledger.Decodes.requireAttempt (h : l.Decodes x) :
    Legible .corruptData (l.requireAttempt hash) :=
  (failsOnly_option fun row hrow => legible_of_ok (h.attempts row (Table.selectRow_mem hrow).1)).bind
    fun _ _ => legible_okOr (by simp)

/-- The columns of a budget decode. -/
theorem loadConnectionBudget_legible {connection : ActiveConnection} {revisionSql nowSql : Nat} :
    Legible .corruptData (l.loadConnectionBudget connection revisionSql nowSql) := by
  refine (legible_okOr (by simp)).bind fun row hrow => ?_
  have hmem := (Table.selectRow_mem (okOr_eq_ok.mp hrow)).1
  obtain ⟨-, -, -, -, hinterval, -, -, -, -, -, -, -, -, hfee⟩ := connection_valid hmem
  have hintervals : ∃ interval, Accounting.intervalSeconds row.budgetInterval = .ok interval := by
    simp only [List.mem_cons, List.not_mem_nil, or_false] at hinterval
    rcases hinterval with h | h | h | h | h | h <;> simp [h, Accounting.intervalSeconds]
  have hfees : ∃ fee, Accounting.feeReserve row.feePolicy row.maximumFeeSat = .ok fee := by
    rcases hfee with h | ⟨h, hzero⟩
    · simp [h, Accounting.feeReserve]
    · simp [h, hzero, Accounting.feeReserve]
  exact (legible_of_ok hintervals).bind fun _ _ => (legible_of_ok hfees).bind fun _ _ =>
    failsOnly_ok

theorem periodStart_legible {budget : ConnectionBudget} :
    Legible .corruptData (Accounting.periodStart budget now) := by
  unfold Accounting.periodStart
  split
  · exact legible_error (by simp)
  · split
    · exact failsOnly_ok
    · exact (legible_okOr (by simp)).bind fun _ _ => legible_okOr (by simp)

/-- The period a reservation finds has the limit of the connection. -/
theorem Ledger.Readable.createReservation (hl : l.Readable x) {connection : ActiveConnection}
    {principalSat start : Nat} {budget : ConnectionBudget} {row : ConnectionRow}
    (hrow : row ∈ l.connections) (hid : row.connectionId = connection.id.value)
    (hlimit : budget.limitSat = row.budgetLimitSat) :
    Legible .corruptData
      (l.createReservation eventId hash connection principalSat now budget start) := by
  refine sqliteU64_legible.bind fun _ _ => sqliteU64_legible.bind fun periodSql _ =>
    sqliteU64_legible.bind fun limitSql hlimitSql => sqliteU64_legible.bind fun _ _ =>
      (legible_okOr (by simp)).bind fun _ _ => sqliteU64_legible.bind fun _ _ =>
        (legible_okOr (by simp)).bind fun _ _ => (legible_okOr (by simp)).bind fun opened hopened =>
          (legible_okOr (by simp)).bind fun period hperiod => ?_
  obtain ⟨-, rfl⟩ := i64TryFrom_eq_ok.mp hlimitSql
  obtain ⟨hmem, hsame⟩ := Table.selectRow_mem (okOr_eq_ok.mp hperiod)
  have hagrees : period.limitSat = budget.limitSat := by
    rcases Table.insertOrIgnore_cases (okOr_eq_ok.mp hopened) with ⟨rfl, -⟩ | ⟨hnone, hinsert⟩
    · obtain ⟨owner, howner, hownerId, hownerLimit⟩ := hl.periods period hmem
      have hown : owner = row := Table.eq_of_key (connection_id_key connection.id.value) howner hrow
        (by simpa using hownerId.trans (samePeriod_eq_true.mp hsame).1) (by simpa using hid)
      rw [← hownerLimit, hown, hlimit]
    · rcases (Table.mem_insert hinsert).mp hmem with hold | rfl
      · rw [hnone period hold] at hsame
        cases hsame
      · rfl
  refine (failsOnly_ensure fun hdiffers => ?_).bind fun _ _ => (legible_okOr (by simp)).bind
    fun _ _ => (legible_ensure (by simp)).bind fun _ _ => sqliteU64_legible.bind fun _ _ =>
      (legible_okOr (by simp)).bind fun _ _ => (legible_okOr (by simp)).bind fun _ _ => failsOnly_ok
  simp [hagrees] at hdiffers

theorem Ledger.Decodes.reservePayment (h : l.Decodes x) (hl : l.Readable x)
    {connection : ActiveConnection} {principalSat : Nat} :
    Legible .corruptData (l.reservePayment eventId hash connection principalSat now) := by
  have hbyEvent : Legible .corruptData (l.loadAttemptByEvent eventId) :=
    failsOnly_option fun row hrow => legible_of_ok (h.attempts row (Table.selectRow_mem hrow).1)
  have hbyHash : Legible .corruptData (l.loadAttemptByHash hash) :=
    failsOnly_option fun row hrow => legible_of_ok (h.attempts row (Table.selectRow_mem hrow).1)
  refine (legible_ensure (by simp)).bind fun _ _ => sqliteU64_legible.bind fun _ _ =>
    sqliteU64_legible.bind fun _ _ => sqliteU64_legible.bind fun _ _ =>
      loadConnectionBudget_legible.bind fun budget hbudget => periodStart_legible.bind fun _ _ =>
        hbyEvent.bind fun byEvent _ => ?_
  obtain ⟨row, hrow, hauthorizes, hlimit, -⟩ := loadConnectionBudget_ok hbudget
  simp only [Ledger.authorizesPayment, Bool.and_eq_true, activeAt_eq_true] at hauthorizes
  split
  · split
    · exact failsOnly_ok
    · exact legible_error (by simp)
  · refine hbyHash.bind fun byHash _ => ?_
    split
    · exact failsOnly_ok
    · exact hl.createReservation hrow hauthorizes.1.1.1 hlimit

/-- Selecting a batch decodes its rows, also after their sequence was restarted. -/
theorem Balanced.loadUnresolved_legible (h : Balanced imported l) {limit : Nat} :
    Legible .corruptData (l.loadUnresolvedPaymentAttempts limit) := by
  have hrestart : ∀ wraps, Legible .corruptData (l.restartSequence wraps) := by
    intro wraps
    unfold Ledger.restartSequence
    split
    · exact legible_okOr (by simp)
    · exact failsOnly_ok
  have hrows : ∀ wraps table, l.restartSequence wraps = .ok table → ∀ row ∈ table,
      ∃ attempt, Accounting.hydrateAttempt row = .ok attempt := by
    intro wraps table htable row hrow
    have hparses : ∃ id : ConnectionId, id.value = row.connectionId := by
      unfold Ledger.restartSequence at htable
      split at htable
      · obtain ⟨before, hbefore, rfl⟩ := (Table.mem_update (okOr_eq_ok.mp htable)).mp hrow
        obtain ⟨id, hid⟩ := h.connection_parses before hbefore
        refine ⟨id, ?_⟩
        split <;> exact hid
      · obtain rfl := Except.ok.inj htable
        exact h.connection_parses row hrow
    obtain ⟨id, hid⟩ := hparses
    have hvalid : row.Valid := by simpa [paymentAttemptSchema] using Table.check_of_mem hrow
    exact ⟨row.toAttempt id, (hydrateAttempt_eq_ok hvalid).mpr ⟨hid, rfl⟩⟩
  have hresequence : ∀ maximum attempts table,
      Legible .corruptData (Ledger.resequence maximum attempts table) := by
    intro maximum attempts table
    apply failsOnly_foldlM
    intro table entry
    exact (legible_okOr (by simp)).bind fun _ _ => legible_okOr (by simp)
  refine (legible_okOr (by simp)).bind fun _ _ => sqliteU64_legible.bind fun _ _ =>
    sqliteU64_legible.bind fun _ _ => (hrestart _).bind fun table htable =>
      (failsOnly_mapM fun row hrow => legible_of_ok (hrows _ table htable row ?_)).bind fun _ _ =>
        (hresequence _ _ _).bind fun _ _ => failsOnly_ok
  have hselected := List.mem_of_mem_take hrow
  rw [List.mem_insertionSort, Table.mem_select] at hselected
  exact hselected.1

theorem Ledger.Decodes.paymentOp (h : l.Decodes x) (hl : l.Readable x)
    (hbalanced : Balanced imported l) (op : PaymentOp) : Legible .corruptData (op.run l) := by
  have hload : ∀ p, Legible .corruptData
      ((l.paymentAttempts.selectRow p).mapM Accounting.hydrateAttempt) := fun p =>
    failsOnly_option fun row hrow => legible_of_ok (h.attempts row (Table.selectRow_mem hrow).1)
  cases op with
  | loadPaymentAttemptByEvent e => exact (hload _).map
  | loadPaymentAttempt hash => exact (hload _).map
  | reservePayment e hash connection principal now => exact h.reservePayment hl
  | markPaymentInitiated hash now =>
    refine sqliteU64_legible.bind fun _ _ => h.requireAttempt.bind fun _ _ =>
      (legible_ensure (by simp)).bind fun _ _ => ?_
    split
    · exact failsOnly_ok
    · exact (legible_ensure (by simp)).bind fun _ _ => (legible_okOr (by simp)).bind fun _ _ =>
        failsOnly_ok
  | releaseUninitiatedPayment hash now => exact legible_of_ne hbalanced.release_not_corrupt
  | markPaymentPending hash now =>
    refine sqliteU64_legible.bind fun _ _ => h.requireAttempt.bind fun _ _ =>
      (legible_ensure (by simp)).bind fun _ _ => (legible_ensure (by simp)).bind fun _ _ => ?_
    split
    · exact (legible_okOr (by simp)).bind fun _ _ => failsOnly_ok
    · split
      · exact failsOnly_ok
      · exact legible_error (by simp)
  | markPaymentFailed hash now => exact legible_of_ne hbalanced.failed_not_corrupt
  | markPaymentSucceeded hash principal fee now =>
    exact legible_of_ne hbalanced.succeeded_not_corrupt
  | loadUnresolvedPaymentAttempts limit => exact hbalanced.loadUnresolved_legible

/-- Every owner operation on a claim. -/
theorem updateOwned_legible {guard : WakeEventRow → Bool} {f : WakeEventRow → WakeEventRow} :
    Legible .corruptData (l.updateOwned guard f) :=
  (legible_okOr (by simp)).bind fun _ _ => (legible_ensure (by simp)).bind fun _ _ => failsOnly_ok

theorem expiry_legible {start : Nat} {duration : Duration} :
    Legible .corruptData (Claims.expiry start duration) :=
  (legible_ensure (by simp)).bind fun _ _ => (legible_i64TryFrom (by simp)).bind fun _ _ =>
    legible_okOr (by simp)

theorem Ledger.Decodes.claimEvent (h : l.Decodes x) {token : Option ClaimToken}
    {connectionId : ConnectionId} {revision : ConnectionRevision} {lease : Duration} :
    Legible .corruptData (l.claimEvent token eventId connectionId revision now lease) := by
  refine (legible_i64TryFrom (by simp)).bind fun _ _ => (legible_i64TryFrom (by simp)).bind
    fun _ _ => expiry_legible.bind fun _ _ => ?_
  split
  · exact (legible_okOr (by simp)).bind fun _ _ => (legible_okOr (by simp)).bind fun _ _ =>
      failsOnly_ok
  · rename_i existing hexisting
    obtain ⟨hmem, hevent⟩ := Table.selectRow_mem hexisting
    rw [beq_iff_eq] at hevent
    have hresume : existing.availableAt.isSome → ∀ token nowSql expires, Legible .corruptData
        (l.resumeEvent token eventId existing nowSql expires) := by
      intro hsome token nowSql expires
      refine (failsOnly_okOr fun hnone => ?_).bind fun _ _ => ?_
      · rw [hnone] at hsome
        cases hsome
      · split
        · exact failsOnly_ok
        · exact (legible_okOr (by simp)).bind fun _ _ => (legible_okOr (by simp)).bind fun _ _ =>
            (legible_ensure (by simp)).bind fun _ _ => failsOnly_ok
    obtain ⟨-, -, -, -, -, hshape⟩ := wakeEvent_valid hmem
    refine (legible_ensure (by simp)).bind fun _ _ => ?_
    cases hstate : existing.state with
    | terminal =>
      have hdecodes := h.terminals existing hmem hstate
      rw [hevent] at hdecodes
      exact (legible_of_ok hdecodes).bind fun _ _ => failsOnly_ok
    | claimed =>
      simp only [hstate, reduceCtorEq, false_and, or_false, true_and] at hshape
      exact hresume hshape.2.1 _ _ _
    | retryable =>
      simp only [hstate, reduceCtorEq, false_and, or_false, false_or, true_and] at hshape
      exact hresume hshape.2.1 _ _ _

theorem completeForActive_legible {lease : EventLease} {connectionId : ConnectionId}
    {revision : ConnectionRevision} {json : String} {method : Option NwcMethod} :
    Legible .corruptData (l.completeEventForActiveConnectionInner lease connectionId revision json
      method now) := by
  refine (legible_ensure (by simp)).bind fun _ _ => (legible_i64TryFrom (by simp)).bind fun _ _ =>
    (legible_i64TryFrom (by simp)).bind fun _ _ => (legible_okOr (by simp)).bind fun _ _ => ?_
  split
  · exact failsOnly_ok
  · split
    · exact legible_error (by simp)
    · exact legible_error (by simp)

theorem Ledger.Decodes.claimOp (h : l.Decodes x) (random : Entropy) (op : ClaimOp) :
    Legible .corruptData (op.run random l) := by
  have htime : ∀ time, Legible .corruptData (Claims.sqliteTimestamp time) := fun _ =>
    legible_i64TryFrom (by simp)
  cases op with
  | claimEvent e c revision now duration => exact h.claimEvent
  | acceptEventFreshness lease now => exact (htime _).bind fun _ _ => updateOwned_legible
  | renewLease lease now duration =>
    exact (htime _).bind fun _ _ => expiry_legible.bind fun _ _ => updateOwned_legible
  | retryLater lease now delay =>
    exact (htime _).bind fun _ _ => expiry_legible.bind fun _ _ => updateOwned_legible
  | completeEvent lease kind json now =>
    exact (legible_ensure (by simp)).bind fun _ _ => (htime _).bind fun _ _ => updateOwned_legible
  | completeEventForActiveConnection lease c revision json now => exact completeForActive_legible
  | completeNwcEventForActiveConnection lease c revision json method now =>
    exact completeForActive_legible
  | lastCompletedEventAt c => exact failsOnly_ok
  | pruneTerminal before rows =>
    exact (legible_ensure (by simp)).bind fun _ _ => (htime _).bind fun _ _ => failsOnly_ok

theorem Ledger.Decodes.registrationOp (h : l.Decodes x) (op : RegistrationOp) :
    Legible .corruptData (op.run x l) := by
  have hnumber : ∀ value, Legible .corruptData (Registration.sqliteU64 value) := fun _ =>
    legible_i64TryFrom (by simp)
  cases op with
  | nextWakeRegistrationAt => exact failsOnly_ok
  | requeueActiveWakeRegistrationsWithState enabled now =>
    exact (hnumber _).bind fun _ _ => (legible_ensure (by simp)).bind fun _ _ =>
      (legible_okOr (by simp)).bind fun _ _ => (legible_okOr (by simp)).bind fun _ _ => failsOnly_ok
  | loadDueWakeRegistrations now rows =>
    apply FailsOnly.map
    refine (legible_ensure (by simp)).bind fun _ _ => (hnumber _).bind fun _ _ =>
      failsOnly_mapM fun row hrow => legible_of_ok (h.registrations row ?_)
    have hselected := List.mem_of_mem_take hrow
    rw [List.mem_insertionSort, Table.mem_select] at hselected
    exact hselected.1
  | acknowledgeWakeRegistration change =>
    exact (hnumber _).bind fun _ _ => (hnumber _).bind fun _ _ =>
      (legible_ensure (by simp)).bind fun _ _ => failsOnly_ok
  | retryWakeRegistration change now delay =>
    exact (legible_ensure (by simp)).bind fun _ _ => (legible_ensure (by simp)).bind fun _ _ =>
      (legible_okOr (by simp)).bind fun _ _ => (hnumber _).bind fun _ _ =>
        (hnumber _).bind fun _ _ => (hnumber _).bind fun _ _ => (hnumber _).bind fun _ _ =>
          (legible_okOr (by simp)).bind fun _ _ => (legible_ensure (by simp)).bind fun _ _ =>
            failsOnly_ok

theorem sqliteI64_legible {value : Nat} : Legible .corruptData (Notifications.sqliteI64 value) :=
  legible_i64TryFrom (by simp)

theorem decodeInvoice_legible (row : CreatedInvoiceRow) :
    Legible .corruptData (Notifications.decodeInvoice row) :=
  (failsOnly_mapErr (by simp)).bind fun _ _ => failsOnly_ok

theorem decodeSentPayment_legible (row : SentPaymentRow) :
    Legible .corruptData (Notifications.decodeSentPayment row) :=
  (failsOnly_mapErr (by simp)).bind fun _ _ => failsOnly_ok

theorem insertRelays_legible {table : Table notificationRelaySchema}
    {relays : List SecureRelayUrl} :
    Legible .corruptData (Notifications.insertRelays table eventId relays) := by
  apply failsOnly_foldlM
  intro table entry
  exact sqliteI64_legible.bind fun _ _ => legible_okOr (by simp)

theorem acknowledgeRelay_legible {table : Table notificationRelaySchema} {relay : SecureRelayUrl} :
    Legible .corruptData (Notifications.acknowledgeRelay table eventId relay now) :=
  sqliteI64_legible.bind fun _ _ => legible_okOr (by simp)

theorem pendingLimit_legible {maximum : Nat} :
    Legible .corruptData (Notifications.pendingLimit maximum) :=
  (legible_ensure (by simp)).bind fun _ _ => sqliteI64_legible

theorem Ledger.Decodes.notificationOp (h : l.Decodes x) (op : NotificationOp) :
    Legible .corruptData (op.run x l) := by
  have hbatch : ∀ scope maximum, Legible .corruptData (l.pendingSentPaymentBatch scope maximum) :=
    fun scope maximum => pendingLimit_legible.bind fun _ _ =>
      failsOnly_mapM fun row _ => decodeSentPayment_legible row
  have hinvoices : ∀ scope maximum, Legible .corruptData (l.pendingInvoiceBatch scope maximum) :=
    fun scope maximum => pendingLimit_legible.bind fun _ _ =>
      failsOnly_mapM fun row _ => decodeInvoice_legible row
  have hevent : ∀ json, Legible .corruptData (Notifications.checkNotificationEvent json) :=
    fun json => legible_ensure (by simp)
  cases op with
  | pendingNwcSentPayments maximum => exact (hbatch _ _).map
  | pendingNwcSentPaymentsForWallet wallet maximum => exact (hbatch _ _).map
  | storeNwcSentNotificationEvent e json =>
    exact (hevent json).bind fun _ _ => (legible_okOr (by simp)).bind fun _ _ =>
      (legible_okOr (by simp)).bind fun _ _ => (legible_okOr (by simp)).bind fun _ _ => failsOnly_ok
  | undeliveredNwcSentRelays e => exact (legible_of_ok (h.relays .sent e)).map
  | acknowledgeNwcSentRelay e relay time =>
    exact acknowledgeRelay_legible.bind fun _ _ => failsOnly_ok
  | completeNwcSentNotification e time =>
    exact sqliteI64_legible.bind fun _ _ => (legible_okOr (by simp)).bind fun _ _ => failsOnly_ok
  | discardNwcSentPayment e => exact failsOnly_ok
  | pendingNwcInvoices maximum => exact (hinvoices _ _).map
  | pendingNwcInvoicesForWallet wallet maximum => exact (hinvoices _ _).map
  | pendingNwcInvoice e => exact (failsOnly_option fun row _ => decodeInvoice_legible row).map
  | touchNwcInvoice e time =>
    exact sqliteI64_legible.bind fun _ _ => (legible_okOr (by simp)).bind fun _ _ => failsOnly_ok
  | storeNwcInvoiceNotificationEvent e json time =>
    exact (hevent json).bind fun _ _ => sqliteI64_legible.bind fun _ _ =>
      (legible_okOr (by simp)).bind fun _ _ => (legible_okOr (by simp)).bind fun _ _ =>
        (legible_okOr (by simp)).bind fun _ _ => failsOnly_ok
  | undeliveredNwcInvoiceRelays e => exact (legible_of_ok (h.relays .invoice e)).map
  | acknowledgeNwcInvoiceRelay e relay time =>
    exact acknowledgeRelay_legible.bind fun _ _ => failsOnly_ok
  | completeNwcInvoiceNotification e time =>
    exact sqliteI64_legible.bind fun _ _ => (legible_okOr (by simp)).bind fun _ _ => failsOnly_ok
  | expireNwcInvoice e time => exact failsOnly_ok

theorem recordNwcSentPayment_legible {payment : TrackedNwcPayment} {relays : List SecureRelayUrl}
    (hformed : ¬ LedgerOp.Malformed (.record (.recordNwcSentPayment payment relays))) :
    Legible .corruptData (l.recordNwcSentPayment payment relays) := by
  simp only [LedgerOp.Malformed, not_or] at hformed
  refine (failsOnly_ensure fun hchecked => ?_).bind fun _ _ => sqliteI64_legible.bind fun _ _ =>
    sqliteI64_legible.bind fun _ _ => sqliteI64_legible.bind fun _ _ =>
      sqliteI64_legible.bind fun _ _ => sqliteI64_legible.bind fun _ _ =>
        (legible_okOr (by simp)).bind fun _ _ => (legible_ensure (by simp)).bind fun _ _ =>
          insertRelays_legible.bind fun _ _ => failsOnly_ok
  simp [hformed.1] at hchecked
  omega

/-- After its insertion the invoice is there, whether this call made it or an earlier one. -/
theorem recordNwcInvoice_legible {token : Option (BitVec 256)} {invoice : TrackedNwcInvoice}
    {relays : List SecureRelayUrl}
    (hformed : ¬ LedgerOp.Malformed (.record (.recordNwcInvoice invoice relays))) :
    Legible .corruptData (l.recordNwcInvoice token invoice relays) := by
  simp only [LedgerOp.Malformed, not_or] at hformed
  obtain ⟨hsome, hshort, hdescription, hamount, hexpiry⟩ := hformed
  refine (failsOnly_ensure fun hchecked => ?_).bind fun _ _ => sqliteI64_legible.bind fun _ _ =>
    sqliteI64_legible.bind fun _ _ => sqliteI64_legible.bind fun _ _ =>
      sqliteI64_legible.bind fun _ _ => (legible_okOr (by simp)).bind fun _ _ =>
        (legible_okOr (by simp)).bind fun table htable => (legible_ensure (by simp)).bind
          fun _ _ => (failsOnly_okOr fun hnone => ?_).bind fun row _ =>
            (decodeInvoice_legible row).bind fun _ _ => (legible_ensure (by simp)).bind fun _ _ =>
              insertRelays_legible.bind fun _ _ => failsOnly_ok
  · have hbounded : invoice.description.any
        (fun text => decide (text.utf8ByteSize > maxDescriptionBytes)) = false := by
      cases htext : invoice.description with
      | none => rfl
      | some text =>
        rw [htext] at hdescription
        simpa using hdescription
    simp [hsome, hbounded, hamount, hexpiry] at hchecked
    omega
  · rw [Table.selectRow_eq_none] at hnone
    rcases Table.insertOrIgnore_cases (okOr_eq_ok.mp htable) with ⟨rfl, known, hknown, hsame⟩ |
      ⟨-, hinsert⟩
    · rw [hnone known hknown] at hsame
      cases hsame
    · have hmissing := hnone _ (Table.insert_self hinsert)
      simp at hmissing

theorem Ledger.Decodes.recordOp (h : l.Decodes x) (random : Entropy) (op : RecordOp)
    (hformed : ¬ LedgerOp.Malformed (.record op)) : Legible .corruptData (op.run x random l) := by
  cases op with
  | recordNwcSentPayment payment relays => exact recordNwcSentPayment_legible hformed
  | recordNwcInvoice invoice relays => exact recordNwcInvoice_legible hformed
  | loadNwcInvoice e => exact (failsOnly_option fun row _ => decodeInvoice_legible row).map
  | loadNwcInvoiceByEncodedInvoice invoice =>
    apply FailsOnly.map
    unfold Ledger.loadNwcInvoiceByEncodedInvoice
    split
    · exact failsOnly_ok
    · exact failsOnly_option fun row _ => decodeInvoice_legible row
  | loadNwcInvoiceByPaymentHash hash =>
    exact (failsOnly_option fun row _ => decodeInvoice_legible row).map
  | notification op => exact h.notificationOp op

/-- Where every row decodes, no operation that is well formed reports corrupt data. -/
theorem Ledger.Decodes.legible (h : l.Decodes x) (hl : l.Readable x)
    (hbalanced : Balanced imported l) {op : LedgerOp} (random : Entropy)
    (hformed : ¬ op.Malformed) : Legible op.corruptData (op.run x random l) := by
  cases op with
  | registry op => exact h.registryOp op
  | payment op => exact h.paymentOp hl hbalanced op
  | claim op => exact h.claimOp random op
  | record op => exact h.recordOp random op hformed
  | registration op => exact h.registrationOp op

end Operations

/-- What is stored can be read. After any registry, payment, claim, record and registration calls,
in any order and at any clock values, every row decodes; and no such call, there or on the way
there, reports corrupt data unless the record it asks for is malformed. -/
theorem stored_data_reads {x : Crates} {history : LedgerHistory} {l : Ledger}
    (hurls : x.UrlsCanonical) (hrun : LedgerRun x .empty history l)
    (hbuilt : BuiltConnections x history) (hparsed : ParsedRelays x history) :
    l.Decodes x ∧
      (∀ call l', LedgerStep x l call l' → call.reply = .error call.op.corruptData →
        call.op.Malformed) ∧
      ∀ event ∈ history, event.label.reply = .error event.label.op.corruptData →
        event.label.op.Malformed := by
  have hreads : ∀ {past : LedgerHistory} {m : Ledger}, LedgerRun x .empty past m →
      BuiltConnections x past → ParsedRelays x past → m.Decodes x ∧
        ∀ call m', LedgerStep x m call m' → call.reply = .error call.op.corruptData →
          call.op.Malformed := by
    intro past m hpast hbuiltPast hparsedPast
    have hl := readable_run hpast hbuiltPast hparsedPast
    have hbalanced := balanced_run hpast
    have hdecodes := hl.decodes hurls (coherent_run hpast hbuiltPast) hbalanced
      (recordsOwned_run hpast)
    refine ⟨hdecodes, ?_⟩
    rintro ⟨op, reply⟩ m' hstep hreply
    obtain rfl : reply = .error op.corruptData := hreply
    by_contra hformed
    rcases hstep.error_cases with ⟨random, hfailed⟩ | hfault
    · exact hdecodes.legible hl hbalanced random hformed _ hfailed rfl
    · cases op <;> cases hfault
  obtain ⟨hdecodes, hnext⟩ := hreads hrun hbuilt hparsed
  refine ⟨hdecodes, hnext, ?_⟩
  intro event hmem hreply
  obtain ⟨later, earlier, rfl⟩ := List.append_of_mem hmem
  obtain ⟨hearlier, hevent, -⟩ := hrun.split
  obtain ⟨-, hstep⟩ := hreads hearlier (fun past hpast => hbuilt past (by simp [hpast]))
    (fun past hpast => hparsed past (by simp [hpast]))
  exact hstep event.label event.after hevent hreply

namespace Sample

def createdInvoice : TrackedNwcInvoice where
  requestEventId := ⟨2⟩
  paymentHash := ⟨2⟩
  connectionId := connectionId
  connectionRevision := 0
  invoice := "lnbc"
  description := none
  amount := 1000
  createdAt := 1005
  expiresAt := 1600
  notificationEventJson := none

/-- A payment is reserved and an invoice is recorded under a connection that is then revoked. -/
def leftBehind : LedgerHistory × Ledger :=
  performAll crates .empty
    [registry (.tombstoneConnection connectionId 0 1020),
     (.record (.recordNwcInvoice createdInvoice [relay]), ⟨none, some 7⟩),
     payment (.reservePayment ⟨1⟩ ⟨1⟩ (activeConnection 1000) 10 1010),
     registry (.insertConnection connection 1000)]

theorem leftBehind_run : LedgerRun crates .empty leftBehind.1 leftBehind.2 := performAll_run _ _ _

theorem leftBehind_built : BuiltConnections crates leftBehind.1 := by
  have hcalls : ∀ event ∈ leftBehind.1, ∀ c ∈ event.label.op.newConnection, c = connection := by
    intro event hmem c hc
    simp only [leftBehind, performAll, List.mem_cons, List.not_mem_nil, or_false] at hmem
    rcases hmem with rfl | rfl | rfl | rfl
    · cases hc
    · cases hc
    · cases hc
    · exact (Option.some.inj hc).symm
  intro event hmem c hc
  rw [hcalls event hmem c hc]
  exact connection_built

theorem leftBehind_parsed : ParsedRelays crates leftBehind.1 := by
  have hrelays : ∀ event ∈ leftBehind.1, ∀ r ∈ event.label.op.notifiedRelays, r ∈ connection.relays := by
    intro event hmem r hr
    simp only [leftBehind, performAll, List.mem_cons, List.not_mem_nil, or_false] at hmem
    rcases hmem with rfl | rfl | rfl | rfl
    · cases hr
    · exact hr
    · cases hr
    · cases hr
  exact fun event hmem r hr => connection_built.1 r (hrelays event hmem r hr)

end Sample

theorem stored_data_reads_left_behind : Sample.leftBehind.2.Decodes Sample.crates ∧
    Sample.leftBehind.2.connections.rows.length = 1 ∧ Sample.leftBehind.2.paymentAttempts.rows.length = 1 ∧
      Sample.leftBehind.2.wakeRegistrations.rows.length = 1 ∧
      Sample.leftBehind.2.createdInvoices.rows.length = 1 :=
  ⟨(stored_data_reads Sample.crates_urlsCanonical Sample.leftBehind_run Sample.leftBehind_built
    Sample.leftBehind_parsed).1, rfl, rfl, rfl, rfl⟩

end NwcMobile
