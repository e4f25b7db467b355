import NwcMobile.Ledger.Budget
import NwcMobile.Ledger.Outbox
import NwcMobile.Ledger.RecordOwners
import NwcMobile.Ledger.RoundTrip

/-!
What is stored can be read. The decoders check rules across columns and across tables that
no constraint of a table states: the keys of a connection differ, a period has the limit of
its connection, a registration has between one and eight relays. Every operation keeps these
rules, so none of them ever reports corrupt data, at any clock values.
-/

namespace NwcMobile

open Fallible Relational Transition Registry

/-- The relay is one that its constructor parsed. -/
def SecureRelayUrl.Parsed (x : Crates) (relay : SecureRelayUrl) : Prop :=
  ∃ text, SecureRelayUrl.parse x text = .ok relay

/-- The relays a call asks to notify about an invoice or a payment. -/
def LedgerOp.notifiedRelays : LedgerOp → List SecureRelayUrl
  | .record (.recordNwcSentPayment _ relays) => relays
  | .record (.recordNwcInvoice _ relays) => relays
  | _ => []

/-- Every relay a call asks to notify was parsed by the constructor of its type. -/
def ParsedRelays (x : Crates) (history : LedgerHistory) : Prop :=
  ∀ event ∈ history, ∀ relay ∈ event.label.op.notifiedRelays, relay.Parsed x

/-- The identifier and the keys of the row decode. -/
structure ConnectionRow.Identified (x : Crates) (row : ConnectionRow) : Prop where
  id : ∃ id : ConnectionId, id.value = row.connectionId
  clientPubkey : x.publicKeyFromSlice row.clientPubkey = true
  walletServicePubkey : x.publicKeyFromSlice row.walletServicePubkey = true
  keys_differ : row.clientPubkey ≠ row.walletServicePubkey

/-- The copied relays of one owner are the rows of a relay list that decodes. -/
def Ledger.CopiesRelays (x : Crates) (l : Ledger) (owner : String) : Prop :=
  ∃ relays : List SecureRelayUrl, relays ≠ [] ∧ relays.length ≤ maxConnectionRelays ∧
    (∀ relay ∈ relays, relay.Parsed x) ∧
    ∀ s, s ∈ l.wakeRegistrationRelays ∧ (s.owner == owner) = true ↔ s ∈ relayRows owner relays

/-- What the decoders ask of the tables together. -/
structure Ledger.Readable (x : Crates) (l : Ledger) : Prop where
  connections : ∀ row ∈ l.connections, row.Identified x
  periods : ∀ period ∈ l.budgetPeriods, ∃ row ∈ l.connections,
    row.connectionId = period.connectionId ∧ row.budgetLimitSat = period.limitSat
  registrations : ∀ r ∈ l.wakeRegistrations, ∃ row ∈ l.connections,
    row.connectionId = r.connectionId ∧ row.clientPubkey = r.clientPubkey ∧
      row.walletServicePubkey = r.walletServicePubkey
  registrationRelays : ∀ r ∈ l.wakeRegistrations, l.CopiesRelays x r.connectionId
  notificationRelays : ∀ kind, ∀ r ∈ l.notificationRelays kind,
    SecureRelayUrl.Parsed x ⟨r.relayUrl⟩

section Steps

variable {x : Crates} {l l' : Ledger} {call : LedgerCall}

theorem Ledger.readable_empty (x : Crates) : Ledger.empty.Readable x where
  connections := fun row h => absurd h (Table.not_mem_empty row)
  periods := fun period h => absurd h (Table.not_mem_empty period)
  registrations := fun r h => absurd h (Table.not_mem_empty r)
  registrationRelays := fun r h => absurd h (Table.not_mem_empty r)
  notificationRelays := by
    intro kind r h
    cases kind <;> exact absurd h (Table.not_mem_empty r)

/-- A connection keeps its identifier, its keys and its limit. -/
theorem LedgerStep.connectionFixed (h : LedgerStep x l call l') {row : ConnectionRow}
    (hrow : row ∈ l.connections) : ∃ row' ∈ l'.connections,
      row'.connectionId = row.connectionId ∧ row'.clientPubkey = row.clientPubkey ∧
        row'.walletServicePubkey = row.walletServicePubkey ∧
        row'.budgetLimitSat = row.budgetLimitSat := by
  rcases h.connections with ⟨hsame, -⟩ | ⟨c, createdAt, used, now, new, hinserted⟩ |
    ⟨id, old, new, htombstoned⟩
  · exact ⟨row, hsame ▸ hrow, rfl, rfl, rfl, rfl⟩
  · exact ⟨row, (Table.mem_insert hinserted.connections).mpr (Or.inl hrow), rfl, rfl, rfl, rfl⟩
  · by_cases hid : row.connectionId = id.value
    · obtain rfl : row = old := Table.eq_of_key (connection_id_key id.value) hrow htombstoned.mem
        (by simpa using hid) (by simpa using htombstoned.connectionId)
      obtain ⟨hsame, hclient, hwallet, hlimit, -⟩ := htombstoned.keeps
      exact ⟨new, (Table.mem_replace htombstoned.connections).mpr
        (Or.inr ⟨rfl, row, hrow, by simpa using hid⟩), hsame, hclient, hwallet, hlimit⟩
    · exact ⟨row, (Table.mem_replace htombstoned.connections).mpr
        (Or.inl ⟨hrow, by simpa using hid⟩), rfl, rfl, rfl, rfl⟩

theorem Ledger.Readable.connections_step (hl : l.Readable x) (h : LedgerStep x l call l')
    (hbuilt : ∀ c ∈ call.op.newConnection, c.Built x) :
    ∀ row ∈ l'.connections, row.Identified x := by
  intro row hrow
  rcases h.registry with ⟨hsame, -⟩ | ⟨c, createdAt, now, active, hadmits⟩ |
    ⟨id, old, new, -, htombstoned⟩
  · exact hl.connections row (hsame ▸ hrow)
  · rcases (Table.mem_insert (hadmits.registers h).2.row).mp hrow with hold | rfl
    · exact hl.connections row hold
    · obtain ⟨hclient, hwallet⟩ := (hbuilt c hadmits.newConnection).keys
      exact ⟨⟨c.id, rfl⟩, hclient, hwallet, c.keys_differ⟩
  · rcases (Table.mem_replace htombstoned.connections).mp hrow with ⟨hold, -⟩ | ⟨rfl, -⟩
    · exact hl.connections row hold
    · obtain ⟨hid, hclient, hwallet, -⟩ := htombstoned.keeps
      have hbefore := hl.connections old htombstoned.mem
      refine ⟨?_, ?_, ?_, ?_⟩
      · rw [hid]
        exact hbefore.id
      · rw [hclient]
        exact hbefore.clientPubkey
      · rw [hwallet]
        exact hbefore.walletServicePubkey
      · rw [hclient, hwallet]
        exact hbefore.keys_differ

/-- A new reservation opens its period with the limit of the connection that authorizes it. -/
theorem Reserved.period_limit {row : PaymentAttemptRow} {limit : Nat} (h : Reserved l l' row limit)
    {period' : BudgetPeriodRow} (hperiod : period' ∈ l'.budgetPeriods) :
    (∃ period ∈ l.budgetPeriods, period.connectionId = period'.connectionId ∧
        period.limitSat = period'.limitSat) ∨
      (period'.connectionId = row.connectionId ∧ period'.limitSat = limit) := by
  obtain ⟨opened, period, hmem, now, hopened, hsame, hlimit, -, hdebited⟩ := h.exists_period
  rcases (Table.mem_replace hdebited).mp hperiod with ⟨hother, -⟩ | ⟨rfl, -⟩
  · rcases Table.insertOrIgnore_cases hopened with ⟨rfl, -⟩ | ⟨-, hinsert⟩
    · exact Or.inl ⟨period', hother, rfl, rfl⟩
    · rcases (Table.mem_insert hinsert).mp hother with hold | rfl
      · exact Or.inl ⟨period', hold, rfl, rfl⟩
      · exact Or.inr ⟨rfl, rfl⟩
  · exact Or.inr ⟨(samePeriod_eq_true.mp hsame).1, hlimit⟩

theorem PeriodAdjusted.period_limit {before after : Table budgetPeriodSchema} {owner : String}
    {start old new : Nat} (h : PeriodAdjusted before after owner start old new)
    {period' : BudgetPeriodRow} (hperiod : period' ∈ after) :
    ∃ period ∈ before, period.connectionId = period'.connectionId ∧
      period.limitSat = period'.limitSat := by
  rcases h.cases hperiod with ⟨hold, -⟩ | ⟨period, hmem, -, -, hid, -, hlimit, -⟩
  · exact ⟨period', hold, rfl, rfl⟩
  · exact ⟨period, hmem, hid.symm, hlimit.symm⟩

theorem Moved.period_limit {row row' : PaymentAttemptRow} {a : PaymentAttempt}
    (h : Moved l l' row row' a) {period' : BudgetPeriodRow} (hperiod : period' ∈ l'.budgetPeriods) :
    ∃ period ∈ l.budgetPeriods, period.connectionId = period'.connectionId ∧
      period.limitSat = period'.limitSat := by
  rcases h.periods with ⟨hsame, -⟩ | hadjusted
  · exact ⟨period', hsame ▸ hperiod, rfl, rfl⟩
  · exact hadjusted.period_limit hperiod

theorem paymentOp_period {op : PaymentOp} {value : op.Value} (h : op.run l = .ok (value, l'))
    {period' : BudgetPeriodRow} (hperiod : period' ∈ l'.budgetPeriods) :
    (∃ period ∈ l.budgetPeriods, period.connectionId = period'.connectionId ∧
        period.limitSat = period'.limitSat) ∨
      ∃ row ∈ l.connections, row.connectionId = period'.connectionId ∧
        row.budgetLimitSat = period'.limitSat := by
  have hkept : l'.budgetPeriods = l.budgetPeriods → ∃ period ∈ l.budgetPeriods,
      period.connectionId = period'.connectionId ∧ period.limitSat = period'.limitSat :=
    fun hsame => ⟨period', hsame ▸ hperiod, rfl, rfl⟩
  cases op with
  | loadPaymentAttemptByEvent e => exact Or.inl (hkept (by rw [(reading_eq_ok.mp h).2]))
  | loadPaymentAttempt hash => exact Or.inl (hkept (by rw [(reading_eq_ok.mp h).2]))
  | reservePayment e hash connection principal now =>
    obtain ⟨c, hc, hauthorizes, ⟨_, _, -, rfl, -⟩ | ⟨_, _, -, rfl, -⟩ | ⟨_, row, _, -, -, -, hrow,
      hreserved, -⟩⟩ := reservePayment_ok h
    · exact Or.inl (hkept rfl)
    · exact Or.inl (hkept rfl)
    · rcases hreserved.period_limit hperiod with hold | ⟨hid, hlimit⟩
      · exact Or.inl hold
      · simp only [Ledger.authorizesPayment, Bool.and_eq_true, activeAt_eq_true] at hauthorizes
        obtain ⟨⟨⟨hc_id, -⟩, -⟩, -⟩ := hauthorizes
        refine Or.inr ⟨c, hc, ?_, hlimit.symm⟩
        rw [hid, hrow.connectionId, hc_id]
  | markPaymentInitiated hash now =>
    obtain ⟨rfl, -⟩ | ⟨row, -, -, -, hmoved⟩ := markPaymentInitiated_ok h
    · exact Or.inl (hkept rfl)
    · exact Or.inl (hmoved.period_limit hperiod)
  | releaseUninitiatedPayment hash now =>
    obtain ⟨row, -, -, -, -, -, hadjusted, -⟩ := releaseUninitiatedPayment_ok h
    exact Or.inl (hadjusted.period_limit hperiod)
  | markPaymentPending hash now =>
    obtain ⟨rfl, -⟩ | ⟨row, row', -, -, hmoved⟩ := markPaymentPending_ok h
    · exact Or.inl (hkept rfl)
    · exact Or.inl (hmoved.period_limit hperiod)
  | markPaymentFailed hash now =>
    obtain ⟨rfl, -⟩ | ⟨row, row', -, -, hmoved⟩ := markPaymentFailed_ok h
    · exact Or.inl (hkept rfl)
    · exact Or.inl (hmoved.period_limit hperiod)
  | markPaymentSucceeded hash principal fee now =>
    obtain ⟨rfl, -⟩ | ⟨row, row', -, -, -, hmoved⟩ := markPaymentSucceeded_ok h
    · exact Or.inl (hkept rfl)
    · exact Or.inl (hmoved.period_limit hperiod)
  | loadUnresolvedPaymentAttempts limit =>
    obtain ⟨-, hframe, -⟩ := loadUnresolvedPaymentAttempts_ok h
    exact Or.inl (hkept (by rw [hframe]))

/-- A period has the limit it had, or that of its connection. -/
theorem LedgerStep.period (h : LedgerStep x l call l') {period' : BudgetPeriodRow}
    (hperiod : period' ∈ l'.budgetPeriods) :
    (∃ period ∈ l.budgetPeriods, period.connectionId = period'.connectionId ∧
        period.limitSat = period'.limitSat) ∨
      ∃ row ∈ l'.connections, row.connectionId = period'.connectionId ∧
        row.budgetLimitSat = period'.limitSat := by
  have hkept : l'.budgetPeriods = l.budgetPeriods → ∃ period ∈ l.budgetPeriods,
      period.connectionId = period'.connectionId ∧ period.limitSat = period'.limitSat :=
    fun hsame => ⟨period', hsame ▸ hperiod, rfl, rfl⟩
  obtain ⟨op, reply⟩ := call
  rcases h.cases with rfl | ⟨value, random, -, hrun⟩
  · exact Or.inl (hkept rfl)
  · cases op with
    | payment op =>
      have hframe := (paymentOp_effect hrun).frame
      rcases paymentOp_period hrun hperiod with hold | ⟨row, hrow, hlimit⟩
      · exact Or.inl hold
      · refine Or.inr ⟨row, ?_, hlimit⟩
        rw [hframe]
        exact hrow
    | claim op =>
      have hframe := claimOp_frame hrun
      exact Or.inl (hkept (by rw [hframe]))
    | record op =>
      have hframe := recordOp_frame hrun
      exact Or.inl (hkept (by rw [hframe]))
    | registration op =>
      have hframe := registrationOp_frame hrun
      exact Or.inl (hkept (by rw [hframe]))
    | registry op =>
      rcases registryOp_effect hrun with rfl | ⟨c, createdAt, used, now, row, hinserted, -⟩ |
        ⟨id, row, row', htombstoned⟩
      · exact Or.inl (hkept rfl)
      · rcases hinserted.periods with ⟨-, hsame⟩ | ⟨-, startedAt, openedAt, -, hinsert⟩
        · exact Or.inl (hkept hsame)
        · rcases (Table.mem_insert hinsert).mp hperiod with hold | rfl
          · exact Or.inl ⟨period', hold, rfl, rfl⟩
          · exact Or.inr ⟨row, Table.insert_self hinserted.connections, hinserted.connectionId,
              hinserted.budgetLimitSat⟩
      · exact Or.inl (hkept htombstoned.periods)

theorem Ledger.Readable.periods_step (hl : l.Readable x) (h : LedgerStep x l call l') :
    ∀ period ∈ l'.budgetPeriods, ∃ row ∈ l'.connections,
      row.connectionId = period.connectionId ∧ row.budgetLimitSat = period.limitSat := by
  intro period' hperiod
  rcases h.period hperiod with ⟨period, hold, hid, hlimit⟩ | hnew
  · obtain ⟨row, hrow, hrowId, hrowLimit⟩ := hl.periods period hold
    obtain ⟨row', hrow', hid', -, -, hlimit'⟩ := h.connectionFixed hrow
    exact ⟨row', hrow', hid'.trans (hrowId.trans hid), hlimit'.trans (hrowLimit.trans hlimit)⟩
  · exact hnew

/-- A deferral keeps the keys of its row. -/
theorem retryWakeRegistration_keys {change : WakeRegistrationChange} {now : UnixTimestamp}
    {delay : Duration} {done : Unit} (h : l.retryWakeRegistration change now delay = .ok (done, l'))
    {r' : WakeRegistrationRow} (hr' : r' ∈ l'.wakeRegistrations) : ∃ r ∈ l.wakeRegistrations,
      r.connectionId = r'.connectionId ∧ r.clientPubkey = r'.clientPubkey ∧
        r.walletServicePubkey = r'.walletServicePubkey := by
  simp only [Ledger.retryWakeRegistration, bind_eq_ok, okOr_eq_ok, pure_eq_ok] at h
  obtain ⟨-, -, -, -, _, -, _, -, _, -, _, -, _, -, outbox, houtbox, -, -, heq⟩ := h
  obtain ⟨-, rfl⟩ := Prod.mk.inj heq
  obtain ⟨r, hr, rfl⟩ := (Table.mem_update houtbox).mp hr'
  refine ⟨r, hr, ?_⟩
  split <;> exact ⟨rfl, rfl, rfl⟩

/-- A registration has the keys it had, or those of its connection. -/
theorem LedgerStep.registration (h : LedgerStep x l call l') {r' : WakeRegistrationRow}
    (hr' : r' ∈ l'.wakeRegistrations) :
    (∃ r ∈ l.wakeRegistrations, r.connectionId = r'.connectionId ∧
        r.clientPubkey = r'.clientPubkey ∧ r.walletServicePubkey = r'.walletServicePubkey) ∨
      ∃ row ∈ l'.connections, row.connectionId = r'.connectionId ∧
        row.clientPubkey = r'.clientPubkey ∧ row.walletServicePubkey = r'.walletServicePubkey := by
  cases h.outbox with
  | kept _ _ hsame _ => exact Or.inl ⟨r', hsame ▸ hr', rfl, rfl, rfl⟩
  | inserted hinserted =>
    rcases hinserted.mem_registrations.mp hr' with hold | rfl
    · exact Or.inl ⟨r', hold, rfl, rfl, rfl⟩
    · exact Or.inr ⟨_, Table.insert_self hinserted.connections, rfl, rfl, rfl⟩
  | @tombstoned _ id row row' htombstoned =>
    rcases htombstoned.mem_registrations.mp hr' with ⟨hold, -⟩ | rfl
    · exact Or.inl ⟨r', hold, rfl, rfl, rfl⟩
    · refine Or.inr ⟨row', (Table.mem_replace htombstoned.connections).mpr
        (Or.inr ⟨rfl, row, htombstoned.mem, ?_⟩), rfl, rfl, rfl⟩
      simpa using htombstoned.connectionId
  | @registration op value heffect hconnections _ =>
    cases heffect with
    | unchanged heq => exact Or.inl ⟨r', heq ▸ hr', rfl, rfl, rfl⟩
    | requeued hrefreshed =>
      rcases (hrefreshed.registrations r').mp hr' with ⟨hold, -⟩ | ⟨c, hc, -, rfl⟩
      · exact Or.inl ⟨r', hold, rfl, rfl, rfl⟩
      · exact Or.inr ⟨c, hconnections ▸ hc, rfl, rfl, rfl⟩
    | acknowledged hdone =>
      rw [hdone.registrations, Table.mem_delete] at hr'
      exact Or.inl ⟨r', hr'.1, rfl, rfl, rfl⟩
    | deferred _ =>
      obtain ⟨random, hrun⟩ := h.run_of_ok
      exact Or.inl (retryWakeRegistration_keys hrun hr')

theorem Ledger.Readable.registrations_step (hl : l.Readable x) (h : LedgerStep x l call l') :
    ∀ r ∈ l'.wakeRegistrations, ∃ row ∈ l'.connections, row.connectionId = r.connectionId ∧
      row.clientPubkey = r.clientPubkey ∧ row.walletServicePubkey = r.walletServicePubkey := by
  intro r' hr'
  rcases h.registration hr' with ⟨r, hold, hid, hclient, hwallet⟩ | hnew
  · obtain ⟨row, hrow, hrowId, hrowClient, hrowWallet⟩ := hl.registrations r hold
    obtain ⟨row', hrow', hid', hclient', hwallet', -⟩ := h.connectionFixed hrow
    exact ⟨row', hrow', hid'.trans (hrowId.trans hid), hclient'.trans (hrowClient.trans hclient),
      hwallet'.trans (hrowWallet.trans hwallet)⟩
  · exact hnew

/-- An active connection's own relays are a list that decodes. -/
theorem Ledger.Coherent.ownRelays (hl : l.Coherent x) {owner : String} (h : l.HasActive owner) :
    ∃ relays : List SecureRelayUrl, relays ≠ [] ∧ relays.length ≤ maxConnectionRelays ∧
      (∀ relay ∈ relays, relay.Parsed x) ∧
      ∀ s, s ∈ l.connectionRelays ∧ (s.owner == owner) = true ↔ s ∈ relayRows owner relays := by
  obtain ⟨row, hrow, rfl, hactive⟩ := h
  obtain ⟨c, createdAt, now, hbuilt, rfl, henrolled⟩ := hl.enrolled row hrow hactive
  exact ⟨c.relays, c.relays_nonempty, c.relays_bounded, hbuilt.1, henrolled.relays⟩

/-- Copies are the relays of an active connection. -/
theorem Ledger.Coherent.copies (hl : l.Coherent x) {owner : String} (h : l.HasActive owner)
    (hcopied : ∀ s, s ∈ l'.wakeRegistrationRelays ∧ s.owner = owner ↔
      s ∈ l.connectionRelays ∧ s.owner = owner) : l'.CopiesRelays x owner := by
  obtain ⟨relays, hsome, hbound, hparsed, hown⟩ := hl.ownRelays h
  refine ⟨relays, hsome, hbound, hparsed, ?_⟩
  intro s
  rw [← hown, beq_iff_eq]
  exact hcopied s

theorem Ledger.CopiesRelays.congr {owner : String} (h : l.CopiesRelays x owner)
    (hsame : ∀ s, s.owner = owner →
      (s ∈ l'.wakeRegistrationRelays ↔ s ∈ l.wakeRegistrationRelays)) :
    l'.CopiesRelays x owner := by
  obtain ⟨relays, hsome, hbound, hparsed, hcopies⟩ := h
  refine ⟨relays, hsome, hbound, hparsed, ?_⟩
  intro s
  rw [← hcopies, and_congr_left_iff, beq_iff_eq]
  exact hsame s

theorem Ledger.Readable.registrationRelays_step (hl : l.Readable x) (hcoherent : l.Coherent x)
    (hcoherent' : l'.Coherent x) (houtbox : OutboxCoherent l) (houtbox' : OutboxCoherent l')
    (h : LedgerStep x l call l') : ∀ r ∈ l'.wakeRegistrations, l'.CopiesRelays x r.connectionId := by
  intro r' hr'
  cases h.outbox with
  | kept _ _ hregistrations hrelays =>
    apply (hl.registrationRelays r' (hregistrations ▸ hr')).congr
    intro s _
    rw [hrelays]
  | inserted hinserted =>
    rcases hinserted.mem_registrations.mp hr' with hold | rfl
    · apply (hl.registrationRelays r' hold).congr
      intro s howner
      obtain ⟨row, hrow, hid, -⟩ := houtbox.revision r' hold
      rw [hinserted.mem_relays]
      constructor
      · rintro (hs | ⟨-, hnew⟩)
        · exact hs
        · exact absurd (hid.trans (howner.symm.trans hnew)) (hinserted.fresh hrow)
      · exact Or.inl
    · have hid := hinserted.connectionId
      have hactive := hinserted.hasActive.mpr (Or.inr hid)
      apply hcoherent'.copies hactive
      intro s
      constructor
      · rintro ⟨hs, howner⟩
        exact ⟨houtbox'.relays s hs (howner ▸ hactive), howner⟩
      · rintro ⟨hs, howner⟩
        exact ⟨hinserted.mem_relays.mpr (Or.inr ⟨hs, howner.trans hid⟩), howner⟩
  | @tombstoned _ id row row' htombstoned =>
    rcases htombstoned.mem_registrations.mp hr' with ⟨hold, hne⟩ | rfl
    · apply (hl.registrationRelays r' hold).congr
      intro s howner
      rw [houtbox.tombstonedRelays htombstoned]
      constructor
      · rintro (hs | ⟨-, hsame⟩)
        · exact hs
        · exact absurd (howner.symm.trans hsame) hne
      · exact Or.inl
    · have hid : row'.connectionId = id.value :=
        htombstoned.keeps.1.trans htombstoned.connectionId
      have hactive : l.HasActive row'.connectionId :=
        ⟨row, htombstoned.mem, htombstoned.keeps.1.symm, htombstoned.active⟩
      apply hcoherent.copies hactive
      intro s
      rw [houtbox.tombstonedRelays htombstoned]
      constructor
      · rintro ⟨hs | ⟨hs, -⟩, howner⟩
        · exact ⟨houtbox.relays s hs (howner ▸ hactive), howner⟩
        · exact ⟨hs, howner⟩
      · rintro ⟨hs, howner⟩
        exact ⟨Or.inr ⟨hs, howner.trans hid⟩, howner⟩
  | @registration op value heffect hconnections _ =>
    cases heffect with
    | unchanged heq => exact heq ▸ hl.registrationRelays r' (heq ▸ hr')
    | requeued hrefreshed =>
      rcases (hrefreshed.registrations r').mp hr' with ⟨hold, hnone⟩ | ⟨c, hc, hstatus, rfl⟩
      · apply (hl.registrationRelays r' hold).congr
        intro s howner
        rw [hrefreshed.relays, howner]
        simp [hnone]
      · have hactive : l.HasActive c.connectionId := ⟨c, hc, rfl, hstatus⟩
        apply hcoherent.copies hactive
        intro s
        rw [hrefreshed.relays]
        constructor
        · rintro ⟨⟨-, hnone⟩ | ⟨hs, -⟩, howner⟩
          · exact absurd (howner ▸ hactive) hnone
          · exact ⟨hs, howner⟩
        · rintro ⟨hs, howner⟩
          exact ⟨Or.inr ⟨hs, howner ▸ hactive⟩, howner⟩
    | acknowledged hdone =>
      rw [hdone.registrations, Table.mem_delete, beq_eq_false_iff_ne] at hr'
      apply (hl.registrationRelays r' hr'.1).congr
      intro s howner
      rw [hdone.relays, Table.mem_delete, beq_eq_false_iff_ne, howner]
      simp [hr'.2]
    | deferred hlater =>
      obtain ⟨random, hrun⟩ := h.run_of_ok
      obtain ⟨r, hr, hid, -⟩ := retryWakeRegistration_keys hrun hr'
      apply (hid ▸ hl.registrationRelays r hr).congr
      intro s _
      rw [hlater.relays]

/-- A relay to notify is one there was, or one the call asks for. -/
def RelaysFrom (before after : Table notificationRelaySchema) (relays : List SecureRelayUrl) :
    Prop :=
  ∀ r' ∈ after, (∃ r ∈ before, r.relayUrl = r'.relayUrl) ∨ ⟨r'.relayUrl⟩ ∈ relays

theorem relaysFrom_refl (t : Table notificationRelaySchema) (relays : List SecureRelayUrl) :
    RelaysFrom t t relays := fun r hr => Or.inl ⟨r, hr, rfl⟩

section NotificationRelays

variable {t t' : Table notificationRelaySchema} {eventId : EventId} {relays : List SecureRelayUrl}

theorem insertRelays_from (h : Notifications.insertRelays t eventId relays = .ok t') :
    RelaysFrom t t' relays := by
  have hloop : ∀ (entries : List (SecureRelayUrl × Nat)) (t t' : Table notificationRelaySchema),
      entries.foldlM (fun t entry => do
        let position ← Notifications.sqliteI64 entry.2
        okOr (t.insertOrIgnore (fun r => r.requestEventId == eventId && r.position == position)
          ⟨eventId, position, entry.1.value, none⟩) .databaseUnavailable) t = .ok t' →
      RelaysFrom t t' (entries.map Prod.fst) := by
    intro entries
    induction entries with
    | nil =>
      intro t t' h
      obtain rfl := Except.ok.inj h
      exact relaysFrom_refl t _
    | cons entry rest ih =>
      intro t t' h r' hr'
      simp only [List.foldlM_cons, bind_eq_ok, okOr_eq_ok] at h
      obtain ⟨middle, ⟨position, -, hinsert⟩, hrest⟩ := h
      rcases ih middle t' hrest r' hr' with ⟨r, hr, hurl⟩ | hnew
      · rcases Table.insertOrIgnore_cases hinsert with ⟨rfl, -⟩ | ⟨-, hadded⟩
        · exact Or.inl ⟨r, hr, hurl⟩
        · rcases (Table.mem_insert hadded).mp hr with hold | rfl
          · exact Or.inl ⟨r, hold, hurl⟩
          · right
            rw [← hurl]
            exact List.mem_cons_self
      · exact Or.inr (List.mem_cons_of_mem _ hnew)
  have hfrom := hloop relays.zipIdx t t' h
  rwa [List.zipIdx_map_fst] at hfrom

theorem acknowledgeRelay_from {relay : SecureRelayUrl} {time : UnixTimestamp}
    (h : Notifications.acknowledgeRelay t eventId relay time = .ok t') : RelaysFrom t t' [] := by
  simp only [Notifications.acknowledgeRelay, bind_eq_ok, okOr_eq_ok] at h
  obtain ⟨stored, -, hupdate⟩ := h
  intro r' hr'
  obtain ⟨r, hr, rfl⟩ := (Table.mem_update hupdate).mp hr'
  refine Or.inl ⟨r, hr, ?_⟩
  split <;> rfl

theorem delete_from (p : NotificationRelayRow → Bool) : RelaysFrom t (t.delete p) [] :=
  fun r hr => Or.inl ⟨r, (Table.mem_delete.mp hr).1, rfl⟩

end NotificationRelays

theorem notificationOp_relaysFrom {op : NotificationOp} {value : op.Value}
    (h : op.run x l = .ok (value, l')) (kind : RecordKind) :
    RelaysFrom (l.notificationRelays kind) (l'.notificationRelays kind) [] := by
  have hsame : l'.notificationRelays kind = l.notificationRelays kind →
      RelaysFrom (l.notificationRelays kind) (l'.notificationRelays kind) [] := by
    intro hrelays
    rw [hrelays]
    exact relaysFrom_refl _ _
  cases op with
  | acknowledgeNwcSentRelay e relay time =>
    obtain ⟨hack, hframe⟩ := acknowledgeNwcSentRelay_ok h
    cases kind with
    | sent => exact acknowledgeRelay_from hack
    | invoice => exact hsame (by rw [hframe]; rfl)
  | acknowledgeNwcInvoiceRelay e relay time =>
    obtain ⟨hack, hframe⟩ := acknowledgeNwcInvoiceRelay_ok h
    cases kind with
    | sent => exact hsame (by rw [hframe]; rfl)
    | invoice => exact acknowledgeRelay_from hack
  | discardNwcSentPayment e =>
    simp only [NotificationOp.run, Ledger.discardNwcSentPayment, Except.ok.injEq,
      Prod.mk.injEq] at h
    obtain ⟨-, rfl⟩ := h
    cases kind with
    | sent => exact delete_from _
    | invoice => exact hsame rfl
  | expireNwcInvoice e time =>
    simp only [NotificationOp.run, Ledger.expireNwcInvoice, Except.ok.injEq, Prod.mk.injEq] at h
    obtain ⟨-, rfl⟩ := h
    cases kind with
    | sent => exact hsame rfl
    | invoice => exact delete_from _
  | touchNwcInvoice e time =>
    obtain ⟨t, rfl, -⟩ := Ledger.touchNwcInvoice_ok h
    cases kind <;> exact hsame rfl
  | storeNwcSentNotificationEvent e json =>
    obtain ⟨hframe, hrelays, -⟩ := storeNwcSentNotificationEvent_ok h
    cases kind with
    | sent => exact hsame hrelays
    | invoice => exact hsame (by rw [hframe.rest]; rfl)
  | storeNwcInvoiceNotificationEvent e json time =>
    obtain ⟨hframe, hrelays, -⟩ := storeNwcInvoiceNotificationEvent_ok h
    cases kind with
    | sent => exact hsame (by rw [hframe.rest]; rfl)
    | invoice => exact hsame hrelays
  | completeNwcSentNotification e time =>
    simp only [NotificationOp.run, Ledger.completeNwcSentNotification, bind_eq_ok, pure_eq_ok,
      Prod.mk.injEq] at h
    obtain ⟨_, -, _, -, -, rfl⟩ := h
    cases kind <;> exact hsame rfl
  | completeNwcInvoiceNotification e time =>
    simp only [NotificationOp.run, Ledger.completeNwcInvoiceNotification, bind_eq_ok, pure_eq_ok,
      Prod.mk.injEq] at h
    obtain ⟨_, -, _, -, -, rfl⟩ := h
    cases kind <;> exact hsame rfl
  | _ => exact hsame (by rw [(reading_eq_ok.mp h).2])

theorem LedgerStep.relaysFrom (h : LedgerStep x l call l') (kind : RecordKind) :
    RelaysFrom (l.notificationRelays kind) (l'.notificationRelays kind)
      call.op.notifiedRelays := by
  obtain ⟨op, reply⟩ := call
  have hsame : l'.notificationRelays kind = l.notificationRelays kind →
      RelaysFrom (l.notificationRelays kind) (l'.notificationRelays kind) op.notifiedRelays := by
    intro hrelays
    rw [hrelays]
    exact relaysFrom_refl _ _
  rcases h.cases with rfl | ⟨value, random, -, hrun⟩
  · exact hsame rfl
  · cases op with
    | registry op =>
      have hkept := registryOp_records hrun
      cases kind with
      | sent => exact hsame hkept.paymentRelays
      | invoice => exact hsame hkept.invoiceRelays
    | payment op =>
      have hframe := (paymentOp_effect hrun).frame
      cases kind <;> exact hsame (by rw [hframe]; rfl)
    | claim op =>
      have hframe := claimOp_frame hrun
      cases kind <;> exact hsame (by rw [hframe]; rfl)
    | registration op =>
      have hframe := registrationOp_frame hrun
      cases kind <;> exact hsame (by rw [hframe]; rfl)
    | record op =>
      cases op with
      | recordNwcSentPayment payment relays =>
        simp only [LedgerOp.run, RecordOp.run, Ledger.recordNwcSentPayment, bind_eq_ok, pure_eq_ok,
          Prod.mk.injEq] at hrun
        obtain ⟨-, -, _, -, _, -, _, -, _, -, _, -, _, -, -, -, sentRelays, hrelays, -, rfl⟩ := hrun
        cases kind with
        | sent => exact insertRelays_from hrelays
        | invoice => exact hsame rfl
      | recordNwcInvoice invoice relays =>
        simp only [LedgerOp.run, RecordOp.run, Ledger.recordNwcInvoice, bind_eq_ok, pure_eq_ok,
          Prod.mk.injEq] at hrun
        obtain ⟨-, -, _, -, _, -, _, -, _, -, _, -, _, -, -, -, _, -, _, -, -, -, invoiceRelays,
          hrelays, -, rfl⟩ := hrun
        cases kind with
        | sent => exact hsame rfl
        | invoice => exact insertRelays_from hrelays
      | notification op => exact notificationOp_relaysFrom hrun kind
      | _ => exact hsame (by rw [(reading_eq_ok.mp hrun).2])

theorem Ledger.Readable.step (hl : l.Readable x) (hcoherent : l.Coherent x)
    (houtbox : OutboxCoherent l) (h : LedgerStep x l call l')
    (hbuilt : ∀ c ∈ call.op.newConnection, c.Built x)
    (hparsed : ∀ relay ∈ call.op.notifiedRelays, relay.Parsed x) : l'.Readable x where
  connections := hl.connections_step h hbuilt
  periods := hl.periods_step h
  registrations := hl.registrations_step h
  registrationRelays :=
    hl.registrationRelays_step hcoherent (hcoherent.step h hbuilt) houtbox (houtbox.step h) h
  notificationRelays := by
    intro kind r' hr'
    rcases h.relaysFrom kind r' hr' with ⟨r, hr, hurl⟩ | hnew
    · rw [← hurl]
      exact hl.notificationRelays kind r hr
    · exact hparsed _ hnew

theorem readable_run {history : LedgerHistory} (hrun : LedgerRun x .empty history l)
    (hbuilt : BuiltConnections x history) (hparsed : ParsedRelays x history) : l.Readable x := by
  induction hrun with
  | refl => exact Ledger.readable_empty x
  | tail hpast hlast ih =>
    have hearlier : BuiltConnections x _ := fun event hmem => hbuilt event (List.mem_cons_of_mem _ hmem)
    have hreadable := ih hearlier fun event hmem => hparsed event (List.mem_cons_of_mem _ hmem)
    exact hreadable.step (coherent_run hpast hearlier) (outbox_coherent_run hpast) hlast
      (hbuilt _ List.mem_cons_self) (hparsed _ List.mem_cons_self)

end Steps

/-- Every row of the ledger decodes. -/
structure Ledger.Decodes (x : Crates) (l : Ledger) : Prop where
  connections : ∀ row ∈ l.connections, ∃ stored, l.hydrateStoredConnection x row = .ok stored
  attempts : ∀ row ∈ l.paymentAttempts, ∃ attempt, Accounting.hydrateAttempt row = .ok attempt
  registrations : ∀ row ∈ l.wakeRegistrations, ∃ change, l.hydrateChange x row = .ok change
  terminals : ∀ row ∈ l.wakeEvents, row.state = .terminal →
    ∃ event, Claims.terminalFromRow row.eventId row = .ok event
  invoices : ∀ row ∈ l.createdInvoices, ∃ invoice, Notifications.decodeInvoice row = .ok invoice
  payments : ∀ row ∈ l.sentPayments, ∃ payment, Notifications.decodeSentPayment row = .ok payment
  relays : ∀ kind eventId, ∃ relays,
    Notifications.undeliveredRelays x (l.notificationRelays kind) eventId = .ok relays

section Decoders

variable {x : Crates} {l : Ledger}

theorem ConnectionRow.Identified.tombstone {row : ConnectionRow} (h : row.Identified x)
    (hrow : row ∈ l.connections) (hstatus : row.status = .tombstoned) :
    ∃ stored, l.hydrateStoredConnection x row = .ok stored := by
  obtain ⟨id, hid⟩ := h.id
  obtain ⟨-, -, -, -, -, -, -, -, -, hexpiry, -, hupdated, hshape, -⟩ := connection_valid hrow
  have htombstoned : row.tombstonedAt = some row.updatedAt := by
    rcases hshape with ⟨hactive, -⟩ | ⟨-, htime⟩
    · rw [hstatus] at hactive
      cases hactive
    · exact htime
  have htimes : (!(decide (row.updatedAt < row.createdAt) ||
      row.expiresAt.any fun expiresAt => decide (expiresAt ≤ row.createdAt))) = true := by
    have hlate : ¬ row.updatedAt < row.createdAt := by omega
    cases hexpires : row.expiresAt with
    | none => simp [hlate]
    | some expiresAt =>
      have hlater := hexpiry expiresAt hexpires
      simp [hlate, hlater]
  refine ⟨.tombstoned ⟨id, row.revision, row.updatedAt⟩, ?_⟩
  simp only [Ledger.hydrateStoredConnection, bind_eq_ok, mapErr_eq_ok, ensure_eq_ok,
    ConnectionId.parse_eq_ok]
  refine ⟨id, hid, (), htimes, ?_⟩
  simp only [hstatus, bind_eq_ok, okOr_eq_ok, ensure_eq_ok, pure_eq_ok]
  exact ⟨row.updatedAt, htombstoned, (), beq_self_eq_true _, rfl⟩

theorem Ledger.CopiesRelays.loads {id : ConnectionId} (h : l.CopiesRelays x id.value)
    (hurls : x.UrlsCanonical) : ∃ relays, l.copiedRelays x id = .ok relays ∧ relays ≠ [] ∧
      relays.length ≤ maxConnectionRelays := by
  obtain ⟨relays, hsome, hbound, hparsed, hcopies⟩ := h
  have hself : ∀ a, (relaySchema String).conflict a a = true := by
    intro a
    simp [relaySchema]
  refine ⟨relays, ?_, hsome, hbound⟩
  unfold Ledger.copiedRelays
  rw [Table.select_ordered hself hcopies (relayRows_ordered id.value relays),
    mapM_eq_map (g := fun r => ⟨r.relayUrl⟩), relayRows_urls]
  intro r hr
  have hrelay : (⟨r.relayUrl⟩ : SecureRelayUrl) ∈ relays := mem_relays_iff.mpr ⟨r, hr, rfl⟩
  obtain ⟨text, htext⟩ := hparsed _ hrelay
  exact mapErr_eq_ok.mpr (SecureRelayUrl.parse_value hurls htext)

theorem Ledger.Readable.change (hl : l.Readable x) (hurls : x.UrlsCanonical)
    {row : WakeRegistrationRow} (hrow : row ∈ l.wakeRegistrations) :
    ∃ change, l.hydrateChange x row = .ok change := by
  obtain ⟨connection, hconnection, hid, hclient, hwallet⟩ := hl.registrations row hrow
  have hidentified := hl.connections connection hconnection
  obtain ⟨id, hvalue⟩ := hidentified.id
  have hown : id.value = row.connectionId := hvalue.trans hid
  have hcopies : l.CopiesRelays x id.value := hown ▸ hl.registrationRelays row hrow
  obtain ⟨relays, hrelays, hsome, hbound⟩ := hcopies.loads hurls
  have hkeys : x.publicKeyFromSlice row.clientPubkey = true ∧
      x.publicKeyFromSlice row.walletServicePubkey = true ∧
      row.clientPubkey ≠ row.walletServicePubkey := by
    rw [← hclient, ← hwallet]
    exact ⟨hidentified.clientPubkey, hidentified.walletServicePubkey, hidentified.keys_differ⟩
  simp only [Ledger.hydrateChange, bind_eq_ok, mapErr_eq_ok, ensure_eq_ok, ConnectionId.parse_eq_ok,
    pure_eq_ok]
  refine ⟨_, id, hown, row.clientPubkey, if_pos hkeys.1, row.walletServicePubkey,
    if_pos hkeys.2.1, (), ?_, relays, hrelays, (), ?_, rfl⟩
  · exact bne_iff_ne.mpr hkeys.2.2
  · have hfits : relays.length ≤ maxRegistrationRelays := hbound
    simp [hsome, hfits]

theorem strToMethod_names {name : String} (h : name ∈ methodNames) :
    ∃ method, Claims.nwcMethodFromDatabase name = .ok method := by
  simp only [methodNames, List.mem_cons, List.not_mem_nil, or_false] at h
  rcases h with rfl | rfl | rfl | rfl | rfl | rfl <;> exact ⟨_, rfl⟩

theorem terminal_decodes {row : WakeEventRow} (hrow : row ∈ l.wakeEvents)
    (hstate : row.state = .terminal) :
    ∃ event, Claims.terminalFromRow row.eventId row = .ok event := by
  obtain ⟨-, -, -, hjson, hmethod, hshape⟩ := wakeEvent_valid hrow
  obtain ⟨-, -, hnone, hkind⟩ : row.state = .terminal ∧ row.claimToken = none ∧
      row.availableAt = none ∧ row.terminalKind.isSome := by
    rcases hshape with ⟨hclaimed, -⟩ | ⟨hretryable, -⟩ | hterminal
    · rw [hstate] at hclaimed
      cases hclaimed
    · rw [hstate] at hretryable
      cases hretryable
    · exact hterminal
  obtain ⟨kind, hsome⟩ := Option.isSome_iff_exists.mp hkind
  have hbound : (!row.responseEventJson.any fun json =>
      decide (json.utf8ByteSize > maxResponseEventBytes)) = true := by
    cases hresponse : row.responseEventJson with
    | none => rfl
    | some json => simpa using hjson json hresponse
  have hdecodes : ∃ method, row.requestMethod.mapM Claims.nwcMethodFromDatabase = .ok method := by
    cases hrequest : row.requestMethod with
    | none => exact ⟨none, rfl⟩
    | some name =>
      obtain ⟨method, hnamed⟩ := strToMethod_names (hmethod name hrequest)
      exact ⟨some method, option_mapM_eq_some.mpr ⟨name, rfl, hnamed⟩⟩
  obtain ⟨method, hmethods⟩ := hdecodes
  simp only [Claims.terminalFromRow, bind_eq_ok, ensure_eq_ok, okOr_eq_ok, pure_eq_ok]
  exact ⟨_, (), by simp [hnone], kind, hsome, (), hbound, method, hmethods, rfl⟩

theorem Ledger.Readable.undelivered (hl : l.Readable x) (hurls : x.UrlsCanonical)
    (kind : RecordKind) (eventId : EventId) : ∃ relays,
      Notifications.undeliveredRelays x (l.notificationRelays kind) eventId = .ok relays := by
  apply mapM_succeeds
  intro r hr
  rw [List.mem_insertionSort, Table.mem_select] at hr
  obtain ⟨text, htext⟩ := hl.notificationRelays kind r hr.1
  exact ⟨_, mapErr_eq_ok.mpr (SecureRelayUrl.parse_value hurls htext)⟩

/-- A ledger that keeps the rules decodes. -/
theorem Ledger.Readable.decodes {imported : String → Nat → Nat} (hl : l.Readable x)
    (hurls : x.UrlsCanonical) (hcoherent : l.Coherent x) (hbalanced : Balanced imported l)
    (howned : RecordsOwned l) : l.Decodes x := by
  have howner : ∀ {owner : String}, (∃ row ∈ l.connections, row.connectionId = owner) →
      ∃ id : ConnectionId, ConnectionId.parse owner = .ok id := by
    rintro owner ⟨row, hrow, rfl⟩
    obtain ⟨id, hid⟩ := (hl.connections row hrow).id
    exact ⟨id, ConnectionId.parse_eq_ok.mpr hid⟩
  constructor
  · intro row hrow
    cases hstatus : row.status with
    | active =>
      obtain ⟨c, createdAt, now, hbuilt, rfl, henrolled⟩ := hcoherent.enrolled row hrow hstatus
      exact ⟨_, henrolled.hydrate hurls hbuilt⟩
    | tombstoned => exact (hl.connections row hrow).tombstone hrow hstatus
  · intro row hrow
    obtain ⟨id, hid⟩ := hbalanced.connection_parses row hrow
    exact ⟨row.toAttempt id, (hydrateAttempt_eq_ok (paymentAttempt_valid hrow)).mpr ⟨hid, rfl⟩⟩
  · exact fun row hrow => hl.change hurls hrow
  · exact fun row hrow hstate => terminal_decodes hrow hstate
  · intro row hrow
    obtain ⟨id, hid⟩ := howner (howned.invoices row hrow)
    simp [Notifications.decodeInvoice, hid, mapErr]
  · intro row hrow
    obtain ⟨id, hid⟩ := howner (howned.payments row hrow)
    simp [Notifications.decodeSentPayment, hid, mapErr]
  · exact fun kind eventId => hl.undelivered hurls kind eventId

end Decoders

end NwcMobile
