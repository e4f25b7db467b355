import NwcMobile.Ledger.Operations

/-!
What a payment operation can do. Every operation has one lemma that says what a
successful call found, wrote and returned; `PaymentEffect` collects them into
the five ways the two payment tables change. The results about budgets and about
the lifecycle of a payment are read off these cases and unfold no operation.
-/

namespace NwcMobile

open Fallible Relational Accounting

/-- The condition selecting the attempt of one payment hash. -/
def hasHash (hash : PaymentHash) (r : PaymentAttemptRow) : Bool := r.paymentHash == hash

theorem hasHash_key (hash : PaymentHash) : paymentAttemptSchema.Key (hasHash hash) :=
  paymentAttempt_hash_key hash

@[simp] theorem hasHash_eq_true {hash : PaymentHash} {r : PaymentAttemptRow} :
    hasHash hash r = true ↔ r.paymentHash = hash := by
  simp [hasHash]

theorem samePeriod_key (id : String) (start : Nat) :
    budgetPeriodSchema.Key (samePeriod id start) :=
  budgetPeriod_key id start

/-- The debit an attempt stands for in its budget period. -/
def PaymentAttemptRow.contribution (r : PaymentAttemptRow) : Nat :=
  match r.state with
  | .reserved | .pending => r.principalSat + r.feeReserveSat
  | .succeeded => r.chargedSat.getD 0
  | .failed => 0

/-- The permitted changes of a stored attempt. -/
inductive PaymentAttemptRow.Moves (r : PaymentAttemptRow) : PaymentAttemptRow → Prop
  | initiated {now : Nat} :
      r.state = .reserved → r.initiatedAt = none → r.updatedAt ≤ now →
      Moves r { r with initiatedAt := some now, updatedAt := now }
  | pending {now : Nat} :
      r.state = .reserved → r.initiatedAt.isSome → r.updatedAt ≤ now →
      Moves r { r with state := .pending, updatedAt := now }
  | failed {now : Nat} :
      r.state = .reserved ∨ r.state = .pending → r.initiatedAt.isSome → r.updatedAt ≤ now →
      Moves r { r with state := .failed, updatedAt := now }
  | succeeded {now principal fee charged : Nat} {exceeded : Bool} :
      r.state ≠ .succeeded → r.initiatedAt.isSome → r.updatedAt ≤ now →
      Moves r { r with
        state := .succeeded, actualPrincipalSat := some principal, actualFeeSat := some fee
        chargedSat := some charged, authorizationExceeded := exceeded, updatedAt := now }

/-- One period's usage exchanges the contribution `old` for `new`. -/
structure PeriodAdjusted (before after : Table budgetPeriodSchema) (connectionId : String)
    (start old new : Nat) : Prop where
  exists_period : ∃ period ∈ before, ∃ now : Nat,
    samePeriod connectionId start period = true ∧ old ≤ period.usedSat ∧
      before.update (samePeriod connectionId start) (fun _ =>
        { period with usedSat := period.usedSat - old + new, updatedAt := now }) = some after

/-- Only queue positions differ. -/
def Requeued (t t' : Table paymentAttemptSchema) : Prop :=
  ∃ f : PaymentAttemptRow → PaymentAttemptRow,
    (∀ r, f r = { r with reconciliationSequence := (f r).reconciliationSequence }) ∧
      t'.rows = t.rows.map f

/-- A new reservation: its period is opened unless present, debited within its
limit, and the attempt is inserted. -/
structure Reserved (l l' : Ledger) (row : PaymentAttemptRow) (limit : Nat) : Prop where
  state : row.state = .reserved
  uninitiated : row.initiatedAt = none
  connection : ∃ id : ConnectionId, id.value = row.connectionId
  exists_period : ∃ opened : Table budgetPeriodSchema, ∃ period ∈ opened, ∃ now : Nat,
    l.budgetPeriods.insertOrIgnore (samePeriod row.connectionId row.periodStartedAt)
        ⟨row.connectionId, row.periodStartedAt, limit, 0, now⟩ = some opened ∧
      samePeriod row.connectionId row.periodStartedAt period = true ∧
      period.limitSat = limit ∧ period.usedSat + row.contribution ≤ limit ∧
      opened.update (samePeriod row.connectionId row.periodStartedAt) (fun _ =>
        { period with usedSat := period.usedSat + row.contribution, updatedAt := now }) =
          some l'.budgetPeriods
  attempts : l.paymentAttempts.insert row = some l'.paymentAttempts

/-- The ledger stores `row` and `a` is the value it stands for. -/
structure Ledger.Stored (l : Ledger) (row : PaymentAttemptRow) (a : PaymentAttempt) : Prop where
  mem : row ∈ l.paymentAttempts
  connectionId : a.connectionId.value = row.connectionId
  value : a = row.toAttempt a.connectionId

/-- A stored attempt makes one permitted move, its period follows, and `a` is
the value stored afterwards. -/
structure Moved (l l' : Ledger) (row row' : PaymentAttemptRow) (a : PaymentAttempt) : Prop where
  mem : row ∈ l.paymentAttempts
  move : row.Moves row'
  attempts : l.paymentAttempts.update (hasHash row.paymentHash) (fun _ => row') =
    some l'.paymentAttempts
  periods : (l'.budgetPeriods = l.budgetPeriods ∧ row'.contribution = row.contribution) ∨
    PeriodAdjusted l.budgetPeriods l'.budgetPeriods row.connectionId row.periodStartedAt
      row.contribution row'.contribution
  frame : l' =
    { l with paymentAttempts := l'.paymentAttempts, budgetPeriods := l'.budgetPeriods }
  stored : l'.Stored row' a

/-- Everything one payment operation can do to the ledger. -/
inductive PaymentEffect (l l' : Ledger) : Prop
  | unchanged : l' = l → PaymentEffect l l'
  | reserved {row : PaymentAttemptRow} {limit : Nat} : Reserved l l' row limit →
      l' = { l with paymentAttempts := l'.paymentAttempts, budgetPeriods := l'.budgetPeriods } →
      PaymentEffect l l'
  | moved {row row' : PaymentAttemptRow} {a : PaymentAttempt} : Moved l l' row row' a →
      PaymentEffect l l'
  | released {row : PaymentAttemptRow} : row ∈ l.paymentAttempts →
      row.state = .reserved → row.initiatedAt = none →
      l'.paymentAttempts = l.paymentAttempts.delete (hasHash row.paymentHash) →
      PeriodAdjusted l.budgetPeriods l'.budgetPeriods row.connectionId row.periodStartedAt
        row.contribution 0 →
      l' = { l with paymentAttempts := l'.paymentAttempts, budgetPeriods := l'.budgetPeriods } →
      PaymentEffect l l'
  | requeued : Requeued l.paymentAttempts l'.paymentAttempts →
      l' = { l with paymentAttempts := l'.paymentAttempts } → PaymentEffect l l'

section Lookup

variable {l : Ledger} {row : PaymentAttemptRow} {a : PaymentAttempt} {hash : PaymentHash}
  {event : EventId}

/-- A stored row always decodes, as long as its connection identifier does. -/
theorem hydrateAttempt_eq_ok (hvalid : row.Valid) :
    hydrateAttempt row = .ok a ↔
      a.connectionId.value = row.connectionId ∧ a = row.toAttempt a.connectionId := by
  obtain ⟨-, -, -, -, -, -, -, -, -, -, hperiod, -, hupdated, -, hinitiated, -, hsettlement⟩ := hvalid
  have htimes : (decide (row.updatedAt < row.createdAt) ||
      decide (row.createdAt < row.periodStartedAt)) = false := by
    simp
    omega
  have hmarker : (row.initiatedAt.any fun t => decide (t < row.createdAt)) = false := by
    cases h : row.initiatedAt with
    | none => rfl
    | some t => simpa using hinitiated t h
  have hshape : settlementDecodes row = true := by
    unfold PaymentAttemptRow.SettlementValid at hsettlement
    unfold settlementDecodes
    cases hs : row.state <;> simp_all
  simp only [hydrateAttempt, htimes, hmarker, hshape, bind_eq_ok, ensure_eq_ok, pure_eq_ok,
    mapErr_eq_ok, ConnectionId.parse_eq_ok]
  constructor
  · rintro ⟨id, hid, -, -, -, -, -, -, rfl⟩
    exact ⟨hid, rfl⟩
  · rintro ⟨hid, ha⟩
    exact ⟨a.connectionId, hid, (), rfl, (), rfl, (), trivial, ha.symm⟩

private theorem load_eq_some {p : PaymentAttemptRow → Bool} (hkey : paymentAttemptSchema.Key p) :
    (l.paymentAttempts.selectRow p).mapM hydrateAttempt = .ok (some a) ↔
      ∃ row, l.Stored row a ∧ p row = true := by
  rw [option_mapM_eq_some]
  constructor
  · rintro ⟨row, hrow, hload⟩
    obtain ⟨hmem, hp⟩ := Table.selectRow_mem hrow
    obtain ⟨hid, ha⟩ := (hydrateAttempt_eq_ok (paymentAttempt_valid hmem)).mp hload
    exact ⟨row, ⟨hmem, hid, ha⟩, hp⟩
  · rintro ⟨row, hstored, hp⟩
    refine ⟨row, (Table.selectRow_eq_some hkey).mpr ⟨hstored.mem, hp⟩, ?_⟩
    exact (hydrateAttempt_eq_ok (paymentAttempt_valid hstored.mem)).mpr
      ⟨hstored.connectionId, hstored.value⟩

theorem loadAttemptByHash_eq_some :
    l.loadAttemptByHash hash = .ok (some a) ↔ ∃ row, l.Stored row a ∧ row.paymentHash = hash := by
  exact (load_eq_some (hasHash_key hash)).trans (by simp)

theorem loadAttemptByEvent_eq_some :
    l.loadAttemptByEvent event = .ok (some a) ↔ ∃ row, l.Stored row a ∧ row.eventId = event := by
  exact (load_eq_some (paymentAttempt_event_key event)).trans (by simp)

theorem loadAttemptByHash_eq_none :
    l.loadAttemptByHash hash = .ok none ↔ ∀ row ∈ l.paymentAttempts, row.paymentHash ≠ hash := by
  simp [Ledger.loadAttemptByHash, option_mapM_eq_none, Table.selectRow_eq_none]

theorem requireAttempt_eq_ok :
    l.requireAttempt hash = .ok a ↔ ∃ row, l.Stored row a ∧ row.paymentHash = hash := by
  simp only [Ledger.requireAttempt, bind_eq_ok, okOr_eq_ok]
  constructor
  · rintro ⟨found, hload, rfl⟩
    exact loadAttemptByHash_eq_some.mp hload
  · intro h
    exact ⟨some a, loadAttemptByHash_eq_some.mpr h, rfl⟩

namespace Ledger.Stored

variable (h : l.Stored row a)

include h

theorem eventId : a.eventId = row.eventId := congrArg PaymentAttempt.eventId h.value

theorem paymentHash : a.paymentHash = row.paymentHash := congrArg PaymentAttempt.paymentHash h.value

theorem state : a.state = row.state := congrArg PaymentAttempt.state h.value

theorem initiatedAt : a.initiatedAt = row.initiatedAt := congrArg PaymentAttempt.initiatedAt h.value

theorem updatedAt : a.updatedAt = row.updatedAt := congrArg PaymentAttempt.updatedAt h.value

theorem periodStartedAt : a.periodStartedAt = row.periodStartedAt :=
  congrArg PaymentAttempt.periodStartedAt h.value

theorem feeReserveSat : a.feeReserveSat = row.feeReserveSat :=
  congrArg PaymentAttempt.feeReserveSat h.value

theorem reservedSat : a.reservedSat = row.principalSat + row.feeReserveSat :=
  congrArg PaymentAttempt.reservedSat h.value

/-- A stored attempt is what a lookup of its hash returns. -/
theorem load : l.loadPaymentAttempt a.paymentHash = .ok (some a) :=
  loadAttemptByHash_eq_some.mpr ⟨row, h, h.paymentHash.symm⟩

end Ledger.Stored

end Lookup

section Operations

variable {l l' : Ledger} {row row' : PaymentAttemptRow} {a attempt : PaymentAttempt}
  {hash : PaymentHash} {now : UnixTimestamp} {periods : Table budgetPeriodSchema}
  {table : Table paymentAttemptSchema}

theorem unresolved_contribution (h : row.state = .reserved ∨ row.state = .pending) :
    row.contribution = row.principalSat + row.feeReserveSat := by
  rcases h with h | h <;> simp [PaymentAttemptRow.contribution, h]

/-- What a settlement gives back: the reservation, unless a failure gave it back before. -/
theorem Ledger.Stored.contribution (h : l.Stored row a) (hstate : row.state ≠ .succeeded) :
    row.contribution = if a.state = .failed then 0 else a.reservedSat := by
  rw [h.state]
  cases hs : row.state with
  | reserved => simp [PaymentAttemptRow.contribution, hs, h.reservedSat]
  | pending => simp [PaymentAttemptRow.contribution, hs, h.reservedSat]
  | succeeded => exact absurd hs hstate
  | failed => simp [PaymentAttemptRow.contribution, hs]

theorem PaymentAttemptRow.Moves.paymentHash (h : row.Moves row') :
    row'.paymentHash = row.paymentHash := by
  cases h <;> rfl

theorem PaymentAttemptRow.Moves.connectionId (h : row.Moves row') :
    row'.connectionId = row.connectionId := by
  cases h <;> rfl

/-- A settled attempt makes no further move. -/
theorem PaymentAttemptRow.Moves.state_ne (h : row.Moves row') : row.state ≠ .succeeded := by
  cases h with
  | initiated hstate _ _ => simp [hstate]
  | pending hstate _ _ => simp [hstate]
  | failed hstate _ _ => rcases hstate with hstate | hstate <;> simp [hstate]
  | succeeded hstate _ _ => exact hstate

/-- The value of the row that replaces a stored one is stored afterwards. -/
theorem stored_of_replace (hstored : l.Stored row a) (hmove : row.Moves row')
    (hattempts : l.paymentAttempts.update (hasHash row.paymentHash) (fun _ => row') =
      some l'.paymentAttempts) :
    l'.Stored row' (row'.toAttempt a.connectionId) := by
  refine ⟨(Table.mem_replace hattempts).mpr (Or.inr ⟨rfl, row, hstored.mem, by simp⟩), ?_, rfl⟩
  rw [hmove.connectionId]
  exact hstored.connectionId

theorem adjustPeriodUsed_ok {old new nowSql : Nat}
    (h : l.adjustPeriodUsed a old new nowSql = .ok periods) :
    PeriodAdjusted l.budgetPeriods periods a.connectionId.value a.periodStartedAt old new := by
  simp only [Ledger.adjustPeriodUsed, bind_eq_ok, okOr_eq_ok, sqliteU64, i64TryFrom_eq_ok,
    checkedSub_eq_some, checkedAdd_eq_some] at h
  obtain ⟨_, ⟨-, rfl⟩, period, hperiod, _, ⟨hold, rfl⟩, _, ⟨-, rfl⟩, _, ⟨-, rfl⟩, hupdate⟩ := h
  obtain ⟨hmem, hsame⟩ := Table.selectRow_mem hperiod
  rw [Table.update_eq_replace (samePeriod_key _ _) hmem hsame (fun _ h => h) hsame] at hupdate
  exact ⟨period, hmem, nowSql, hsame, hold, hupdate⟩

/-- A move that keeps its contribution leaves the periods alone. -/
theorem moved_keeping (hstored : l.Stored row attempt) (hmove : row.Moves row')
    (hsame : row'.contribution = row.contribution)
    (hattempts : l.paymentAttempts.update (hasHash row.paymentHash) (fun _ => row') = some table)
    (hvalue : a = row'.toAttempt attempt.connectionId) :
    Moved l { l with paymentAttempts := table } row row' a where
  mem := hstored.mem
  move := hmove
  attempts := hattempts
  periods := Or.inl ⟨rfl, hsame⟩
  frame := rfl
  stored := by
    rw [hvalue]
    apply stored_of_replace hstored hmove
    exact hattempts

/-- A move that exchanges its contribution adjusts its own period. -/
theorem moved_adjusting {old new nowSql : Nat} (hstored : l.Stored row attempt)
    (hmove : row.Moves row') (hold : row.contribution = old) (hnew : row'.contribution = new)
    (hadjust : l.adjustPeriodUsed attempt old new nowSql = .ok periods)
    (hattempts : l.paymentAttempts.update (hasHash row.paymentHash) (fun _ => row') = some table)
    (hvalue : a = row'.toAttempt attempt.connectionId) :
    Moved l { l with budgetPeriods := periods, paymentAttempts := table } row row' a where
  mem := hstored.mem
  move := hmove
  attempts := hattempts
  periods := by
    have hperiod := adjustPeriodUsed_ok hadjust
    rw [hstored.connectionId, hstored.periodStartedAt, ← hold, ← hnew] at hperiod
    exact Or.inr hperiod
  frame := rfl
  stored := by
    rw [hvalue]
    apply stored_of_replace hstored hmove
    exact hattempts

/-- A successful marker: the attempt was already initiated and nothing changed,
or it was a fresh reservation and now carries the marker. -/
theorem markPaymentInitiated_ok (h : l.markPaymentInitiated hash now = .ok (a, l')) :
    (l' = l ∧ a.initiatedAt.isSome ∧ ∃ row, l.Stored row a ∧ row.paymentHash = hash) ∨
      ∃ row, row.paymentHash = hash ∧ row.state = .reserved ∧ row.initiatedAt = none ∧
        Moved l l' row { row with initiatedAt := some now, updatedAt := now } a := by
  simp only [Ledger.markPaymentInitiated, bind_eq_ok, requireAttempt_eq_ok, validateUpdateTime,
    ensure_eq_ok, sqliteU64, i64TryFrom_eq_ok] at h
  obtain ⟨_, ⟨-, rfl⟩, attempt, ⟨row, hstored, rfl⟩, -, htime, h⟩ := h
  split at h
  · rename_i hinitiated
    obtain ⟨rfl, rfl⟩ := Prod.mk.inj (pure_eq_ok.mp h)
    exact Or.inl ⟨rfl, hinitiated, row, hstored, rfl⟩
  · rename_i hinitiated
    simp only [bind_eq_ok, ensure_eq_ok, okOr_eq_ok, pure_eq_ok] at h
    obtain ⟨-, hstate, table, hupdate, heq⟩ := h
    obtain ⟨rfl, rfl⟩ := Prod.mk.inj heq
    have hreserved : row.state = .reserved := by simpa [hstored.state] using hstate
    have hnone : row.initiatedAt = none := by simpa [hstored.initiatedAt] using hinitiated
    have hupdated : row.updatedAt ≤ now := by simpa [hstored.updatedAt] using htime
    rw [Table.update_eq_replace (hasHash_key row.paymentHash) hstored.mem (by simp)
      (fun r hr => by simp_all) (by simp [hreserved, hnone])] at hupdate
    exact Or.inr ⟨row, rfl, hreserved, hnone, moved_keeping hstored
      (.initiated hreserved hnone hupdated) rfl hupdate (by rw [hstored.value]; rfl)⟩

theorem releaseUninitiatedPayment_ok {done : Unit}
    (h : l.releaseUninitiatedPayment hash now = .ok (done, l')) :
    ∃ row, row ∈ l.paymentAttempts ∧ row.paymentHash = hash ∧ row.state = .reserved ∧
      row.initiatedAt = none ∧
      l'.paymentAttempts = l.paymentAttempts.delete (hasHash hash) ∧
      PeriodAdjusted l.budgetPeriods l'.budgetPeriods row.connectionId row.periodStartedAt
        row.contribution 0 ∧
      l' = { l with paymentAttempts := l'.paymentAttempts
                    budgetPeriods := l'.budgetPeriods } := by
  simp only [Ledger.releaseUninitiatedPayment, bind_eq_ok, requireAttempt_eq_ok,
    validateUpdateTime, ensure_eq_ok, sqliteU64, i64TryFrom_eq_ok, pure_eq_ok] at h
  obtain ⟨_, ⟨-, rfl⟩, attempt, ⟨row, hstored, rfl⟩, -, -, -, hguard, periods, hadjust, -, -,
    heq⟩ := h
  obtain ⟨-, rfl⟩ := Prod.mk.inj heq
  have hfresh : row.state = .reserved ∧ row.initiatedAt = none := by
    simpa [hstored.state, hstored.initiatedAt] using hguard
  obtain ⟨hstate, hnone⟩ := hfresh
  have hperiod := adjustPeriodUsed_ok hadjust
  rw [hstored.connectionId, hstored.periodStartedAt, hstored.reservedSat,
    ← unresolved_contribution (Or.inl hstate)] at hperiod
  refine ⟨row, hstored.mem, rfl, hstate, hnone, ?_, hperiod, rfl⟩
  exact Table.delete_eq_delete (hasHash_key _) hstored.mem (by simp)
    (fun r hr => by simp_all) (by simp [hstate, hnone])

theorem markPaymentPending_ok (h : l.markPaymentPending hash now = .ok (a, l')) :
    (l' = l ∧ ∃ row, l.Stored row a ∧ row.paymentHash = hash) ∨
      ∃ row row', row.paymentHash = hash ∧ row'.state = .pending ∧ Moved l l' row row' a := by
  simp only [Ledger.markPaymentPending, Ledger.transitionNonterminal, bind_eq_ok,
    requireAttempt_eq_ok, validateUpdateTime, ensureAttemptInitiated, ensure_eq_ok, sqliteU64,
    i64TryFrom_eq_ok] at h
  obtain ⟨_, ⟨-, rfl⟩, attempt, ⟨row, hstored, rfl⟩, -, htime, -, hinitiated, h⟩ := h
  split at h
  · rename_i hstate
    simp only [bind_eq_ok, okOr_eq_ok, pure_eq_ok] at h
    obtain ⟨table, hupdate, heq⟩ := h
    obtain ⟨rfl, rfl⟩ := Prod.mk.inj heq
    have hreserved : row.state = .reserved := by simpa [hstored.state] using hstate
    have hmarked : row.initiatedAt.isSome := by
      simpa [PaymentAttempt.wasInitiated, hstored.initiatedAt] using hinitiated
    have hupdated : row.updatedAt ≤ now := by simpa [hstored.updatedAt] using htime
    rw [Table.update_eq_replace (hasHash_key row.paymentHash) hstored.mem (by simp)
      (fun r hr => by simp_all) (by simp [hreserved])] at hupdate
    exact Or.inr ⟨row, _, rfl, rfl, moved_keeping hstored (.pending hreserved hmarked hupdated)
      (by simp [PaymentAttemptRow.contribution, hreserved]) hupdate (by rw [hstored.value]; rfl)⟩
  · split at h
    · obtain ⟨rfl, rfl⟩ := Prod.mk.inj (pure_eq_ok.mp h)
      exact Or.inl ⟨rfl, row, hstored, rfl⟩
    · cases h

/-- The branch of `mark_payment_failed` the two unresolved states share. -/
private theorem failed_of_unresolved (hstored : l.Stored row attempt)
    (hstate : row.state = .reserved ∨ row.state = .pending) (hmarked : row.initiatedAt.isSome)
    (hupdated : row.updatedAt ≤ now)
    (hadjust : l.adjustPeriodUsed attempt attempt.reservedSat 0 now = .ok periods)
    (hupdate : l.paymentAttempts.update
      (fun r => r.paymentHash == row.paymentHash && isUnresolved r)
      (fun r => { r with state := .failed, updatedAt := now }) = some table) :
    Moved l { l with budgetPeriods := periods, paymentAttempts := table } row
      { row with state := .failed, updatedAt := now }
      { attempt with state := .failed, updatedAt := now } := by
  rw [Table.update_eq_replace (hasHash_key row.paymentHash) hstored.mem (by simp)
    (fun r hr => by simp_all) (by simpa [isUnresolved] using hstate)] at hupdate
  have hold : row.contribution = attempt.reservedSat := by
    rw [unresolved_contribution hstate, hstored.reservedSat]
  exact moved_adjusting hstored (.failed hstate hmarked hupdated) hold rfl hadjust hupdate
    (by rw [hstored.value]; rfl)

theorem markPaymentFailed_ok (h : l.markPaymentFailed hash now = .ok (a, l')) :
    (l' = l ∧ ∃ row, l.Stored row a ∧ row.paymentHash = hash ∧ row.state = .failed) ∨
      ∃ row row', row.paymentHash = hash ∧ row'.state = .failed ∧ Moved l l' row row' a := by
  simp only [Ledger.markPaymentFailed, bind_eq_ok, requireAttempt_eq_ok, validateUpdateTime,
    ensureAttemptInitiated, ensure_eq_ok, sqliteU64, i64TryFrom_eq_ok] at h
  obtain ⟨_, ⟨-, rfl⟩, attempt, ⟨row, hstored, rfl⟩, -, htime, -, hinitiated, h⟩ := h
  have hmarked : row.initiatedAt.isSome := by
    simpa [PaymentAttempt.wasInitiated, hstored.initiatedAt] using hinitiated
  have hupdated : row.updatedAt ≤ now := by simpa [hstored.updatedAt] using htime
  cases hs : attempt.state with
  | succeeded =>
    simp only [hs] at h
    cases h
  | failed =>
    simp only [hs] at h
    obtain ⟨rfl, rfl⟩ := Prod.mk.inj (pure_eq_ok.mp h)
    exact Or.inl ⟨rfl, row, hstored, rfl, hstored.state ▸ hs⟩
  | reserved =>
    simp only [hs, bind_eq_ok, okOr_eq_ok, pure_eq_ok] at h
    obtain ⟨periods, hadjust, table, hupdate, heq⟩ := h
    obtain ⟨rfl, rfl⟩ := Prod.mk.inj heq
    exact Or.inr ⟨row, _, rfl, rfl, failed_of_unresolved hstored (Or.inl (hstored.state ▸ hs)) hmarked
      hupdated hadjust hupdate⟩
  | pending =>
    simp only [hs, bind_eq_ok, okOr_eq_ok, pure_eq_ok] at h
    obtain ⟨periods, hadjust, table, hupdate, heq⟩ := h
    obtain ⟨rfl, rfl⟩ := Prod.mk.inj heq
    exact Or.inr ⟨row, _, rfl, rfl, failed_of_unresolved hstored (Or.inr (hstored.state ▸ hs)) hmarked
      hupdated hadjust hupdate⟩

/-- The connection counts fees toward its budget. -/
def feesCount (l : Ledger) (connectionId : String) : Bool :=
  l.connections.any fun c => c.connectionId == connectionId && c.feePolicy == "count"

theorem feesCount_eq {connection : ConnectionRow} {id : String} (hmem : connection ∈ l.connections)
    (hid : connection.connectionId = id) :
    feesCount l id = (connection.feePolicy == "count") := by
  rw [Bool.eq_iff_iff, feesCount, Table.any_eq_true]
  constructor
  · rintro ⟨c, hc, hboth⟩
    obtain ⟨hcid, hcount⟩ := Bool.and_eq_true_iff.mp hboth
    rw [← Table.eq_of_key (connection_id_key id) hc hmem hcid (by simpa using hid)]
    exact hcount
  · intro hcount
    exact ⟨connection, hmem, Bool.and_eq_true_iff.mpr ⟨by simpa using hid, hcount⟩⟩

/-- What a settlement charges: the fee counts only under the counting policy. -/
def chargedFor (l : Ledger) (connectionId : String) (principal fee : Nat) : Nat :=
  if feesCount l connectionId then principal + fee else principal

/-- How a settlement of whole satoshis rewrites an attempt. -/
structure SettledAs (l : Ledger) (row row' : PaymentAttemptRow) (principal fee : Nat) : Prop where
  state : row'.state = .succeeded
  actualPrincipalSat : row'.actualPrincipalSat = some principal
  actualFeeSat : row'.actualFeeSat = some fee
  chargedSat : row'.chargedSat = some (chargedFor l row.connectionId principal fee)
  authorizationExceeded : row'.authorizationExceeded = true ↔ row.principalSat < principal ∨
    (feesCount l row.connectionId = true ∧ row.feeReserveSat < fee)

/-- The branch of `mark_payment_succeeded` that charges a settlement. -/
theorem settleAttempt_ok {principal fee : Nat} (hstored : l.Stored row attempt)
    (hstate : row.state ≠ .succeeded) (hmarked : row.initiatedAt.isSome)
    (hupdated : row.updatedAt ≤ now)
    (h : l.settleAttempt row.paymentHash attempt principal fee now = .ok (a, l')) :
    ∃ row', SettledAs l row row' principal fee ∧ Moved l l' row row' a := by
  simp only [Ledger.settleAttempt, bind_eq_ok, okOr_eq_ok, sqliteU64, i64TryFrom_eq_ok,
    pure_eq_ok] at h
  obtain ⟨_, ⟨-, rfl⟩, connection, hconnection, charged, hcharged, periods, hadjust, _,
    ⟨-, rfl⟩, table, hupdate, heq⟩ := h
  obtain ⟨rfl, rfl⟩ := Prod.mk.inj heq
  obtain ⟨hmem, hid⟩ := Table.selectRow_mem hconnection
  rw [hstored.connectionId] at hid
  have hcount : feesCount l row.connectionId = (connection.feePolicy == "count") := by
    apply feesCount_eq hmem
    simpa using hid
  have hamount : charged = chargedFor l row.connectionId principal fee := by
    unfold chargedFor
    rw [hcount]
    unfold chargedAmount at hcharged
    split at hcharged
    · rename_i hc
      simp only [okOr_eq_ok, checkedAdd_eq_some] at hcharged
      simp [hc, hcharged.2]
    · rename_i hc
      simp [hc, Except.ok.inj hcharged]
  rw [Table.update_eq_replace (hasHash_key row.paymentHash) hstored.mem (by simp)
    (fun r hr => by simp_all) (by simpa using hstate)] at hupdate
  have hmoved := fun b => moved_adjusting (a := b) hstored
    (.succeeded hstate hmarked hupdated) (hstored.contribution hstate)
    (by simp [PaymentAttemptRow.contribution]) hadjust hupdate
  have hprincipal : attempt.principalSat = row.principalSat :=
    congrArg PaymentAttempt.principalSat hstored.value
  refine ⟨_, ⟨rfl, rfl, rfl, congrArg some hamount, ?_⟩, hmoved _ (by rw [hstored.value]; rfl)⟩
  simp [hcount, hprincipal, hstored.feeReserveSat]

/-- A settlement is answered from a row that is settled already, or rewrites the row. -/
theorem markPaymentSucceeded_settles {principal fee : AmountMsat}
    (h : l.markPaymentSucceeded hash principal fee now = .ok (a, l')) :
    (l' = l ∧ ∃ row, l.Stored row a ∧ row.paymentHash = hash ∧ row.state = .succeeded) ∨
      ∃ row row' principalSat feeSat, msatToSatCeil principal = .ok principalSat ∧
        msatToSatCeil fee = .ok feeSat ∧ row.paymentHash = hash ∧
        SettledAs l row row' principalSat feeSat ∧ Moved l l' row row' a := by
  simp only [Ledger.markPaymentSucceeded, bind_eq_ok, requireAttempt_eq_ok, validateUpdateTime,
    ensureAttemptInitiated, ensure_eq_ok] at h
  obtain ⟨principalSat, hprincipal, feeSat, hfee, _, -, _, -, _, -, attempt,
    ⟨row, hstored, rfl⟩, -, htime, -, hinitiated, h⟩ := h
  have hmarked : row.initiatedAt.isSome := by
    simpa [PaymentAttempt.wasInitiated, hstored.initiatedAt] using hinitiated
  have hupdated : row.updatedAt ≤ now := by simpa [hstored.updatedAt] using htime
  split at h
  · rename_i hstate
    rw [hstored.state] at hstate
    split at h
    · obtain ⟨rfl, rfl⟩ := Prod.mk.inj (pure_eq_ok.mp h)
      exact Or.inl ⟨rfl, row, hstored, rfl, hstate⟩
    · cases h
  · rename_i hstate
    rw [hstored.state] at hstate
    obtain ⟨row', hsettled, hmoved⟩ := settleAttempt_ok hstored hstate hmarked hupdated h
    exact Or.inr ⟨row, row', principalSat, feeSat, hprincipal, hfee, rfl, hsettled, hmoved⟩

theorem markPaymentSucceeded_ok {principal fee : AmountMsat}
    (h : l.markPaymentSucceeded hash principal fee now = .ok (a, l')) :
    (l' = l ∧ ∃ row, l.Stored row a ∧ row.paymentHash = hash) ∨
      ∃ row row', row.paymentHash = hash ∧ row'.state = .succeeded ∧
        row'.chargedSat = some (chargedFor l row.connectionId
          ((principal + 999) / 1000) ((fee + 999) / 1000)) ∧ Moved l l' row row' a := by
  obtain ⟨hsame, row, hstored, hhash, -⟩ | ⟨row, row', _, _, hprincipal, hfee, hhash, hsettled,
    hmoved⟩ := markPaymentSucceeded_settles h
  · exact Or.inl ⟨hsame, row, hstored, hhash⟩
  · simp only [msatToSatCeil, bind_eq_ok, okOr_eq_ok, pure_eq_ok, checkedAdd_eq_some]
      at hprincipal hfee
    obtain ⟨_, ⟨-, rfl⟩, rfl⟩ := hprincipal
    obtain ⟨_, ⟨-, rfl⟩, rfl⟩ := hfee
    exact Or.inr ⟨row, row', hhash, hsettled.state, hsettled.chargedSat, hmoved⟩

theorem loadConnectionBudget_ok {connection : ActiveConnection} {revision nowSql : Nat}
    {budget : ConnectionBudget} (h : l.loadConnectionBudget connection revision nowSql = .ok budget) :
    ∃ c ∈ l.connections, l.authorizesPayment connection revision nowSql c = true ∧
      budget.limitSat = c.budgetLimitSat ∧
      feeReserve c.feePolicy c.maximumFeeSat = .ok budget.feeReserveSat := by
  simp only [Ledger.loadConnectionBudget, bind_eq_ok, okOr_eq_ok, pure_eq_ok] at h
  obtain ⟨c, hc, _, -, fee, hfee, rfl⟩ := h
  obtain ⟨hmem, hauthorizes⟩ := Table.selectRow_mem hc
  exact ⟨c, hmem, hauthorizes, rfl, hfee⟩

/-- The row a new reservation stores. -/
structure ReservationFor (row : PaymentAttemptRow) (eventId : EventId) (hash : PaymentHash)
    (connection : ActiveConnection) (principalSat feeReserveSat : Nat) : Prop where
  eventId : row.eventId = eventId
  paymentHash : row.paymentHash = hash
  connectionId : row.connectionId = connection.id.value
  connectionRevision : row.connectionRevision = connection.revision
  principalSat : row.principalSat = principalSat
  feeReserveSat : row.feeReserveSat = feeReserveSat

theorem createReservation_ok {eventId : EventId} {connection : ActiveConnection}
    {principalSat start : Nat} {budget : ConnectionBudget} {outcome : PaymentReservationOutcome}
    (h : l.createReservation eventId hash connection principalSat now budget start =
      .ok (outcome, l')) :
    ∃ a row, outcome = .reserved a ∧ l'.Stored row a ∧
      ReservationFor row eventId hash connection principalSat budget.feeReserveSat ∧
      Reserved l l' row budget.limitSat ∧
      l' = { l with paymentAttempts := l'.paymentAttempts
                    budgetPeriods := l'.budgetPeriods } := by
  simp only [Ledger.createReservation, bind_eq_ok, okOr_eq_ok, ensure_eq_ok, sqliteU64,
    i64TryFrom_eq_ok, checkedAdd_eq_some, checkedAddI64_eq_some, pure_eq_ok] at h
  obtain ⟨_, ⟨-, rfl⟩, _, ⟨-, rfl⟩, _, ⟨-, rfl⟩, _, ⟨-, rfl⟩, _, ⟨-, rfl⟩, _, ⟨-, rfl⟩, _,
    ⟨-, rfl⟩, opened, hopened, period, hperiod, -, hlimit, _, ⟨-, rfl⟩, -, hbudget, _, ⟨-, rfl⟩,
    periods, hdebited, table, hinserted, heq⟩ := h
  obtain ⟨rfl, rfl⟩ := Prod.mk.inj heq
  obtain ⟨hmem, hsame⟩ := Table.selectRow_mem hperiod
  rw [Table.update_eq_replace (samePeriod_key _ _) hmem hsame (fun _ h => h) hsame] at hdebited
  refine ⟨_, _, rfl, ⟨Table.insert_self hinserted, rfl, rfl⟩, ⟨rfl, rfl, rfl, rfl, rfl, rfl⟩,
    ⟨rfl, rfl, ⟨connection.id, rfl⟩, ⟨opened, period, hmem, now, hopened, hsame, ?_, ?_, hdebited⟩,
      hinserted⟩, rfl⟩
  · simpa using hlimit
  · rw [unresolved_contribution (Or.inl rfl)]
    simpa using hbudget

/-- What a successful reservation call found or created. -/
theorem reservePayment_ok {eventId : EventId} {connection : ActiveConnection} {principalSat : Nat}
    {outcome : PaymentReservationOutcome}
    (h : l.reservePayment eventId hash connection principalSat now = .ok (outcome, l')) :
    ∃ c ∈ l.connections, l.authorizesPayment connection connection.revision now c = true ∧
      ((∃ a row, outcome = .existing a ∧ l' = l ∧ l.Stored row a ∧ row.eventId = eventId ∧
          a.paymentHash = hash ∧ a.connectionId = connection.id ∧
          a.connectionRevision = connection.revision ∧ a.principalSat = principalSat) ∨
        (∃ a row, outcome = .alreadyTracked a ∧ l' = l ∧ l.Stored row a ∧ row.paymentHash = hash) ∨
        ∃ a row fee, outcome = .reserved a ∧ l'.Stored row a ∧
          feeReserve c.feePolicy c.maximumFeeSat = .ok fee ∧
          ReservationFor row eventId hash connection principalSat fee ∧
          Reserved l l' row c.budgetLimitSat ∧
          l' = { l with paymentAttempts := l'.paymentAttempts
                        budgetPeriods := l'.budgetPeriods }) := by
  simp only [Ledger.reservePayment, bind_eq_ok, ensure_eq_ok, sqliteU64, i64TryFrom_eq_ok] at h
  obtain ⟨-, -, _, ⟨-, rfl⟩, _, ⟨-, rfl⟩, _, -, budget, hbudget, start, -, byEvent, hevent, h⟩ := h
  obtain ⟨c, hc, hauthorizes, hlimit, hfee⟩ := loadConnectionBudget_ok hbudget
  refine ⟨c, hc, hauthorizes, ?_⟩
  cases byEvent with
  | some existing =>
    obtain ⟨row, hstored, hrow⟩ := loadAttemptByEvent_eq_some.mp hevent
    simp only at h
    split at h
    · rename_i hmatch
      obtain ⟨rfl, rfl⟩ := Prod.mk.inj (pure_eq_ok.mp h)
      exact Or.inl ⟨existing, row, rfl, rfl, hstored, hrow, hmatch⟩
    · cases h
  | none =>
    simp only [bind_eq_ok] at h
    obtain ⟨byHash, hhash, h⟩ := h
    cases byHash with
    | some existing =>
      obtain ⟨row, hstored, hrow⟩ := loadAttemptByHash_eq_some.mp hhash
      obtain ⟨rfl, rfl⟩ := Prod.mk.inj (pure_eq_ok.mp h)
      exact Or.inr (Or.inl ⟨existing, row, rfl, rfl, hstored, hrow⟩)
    | none =>
      obtain ⟨a, row, houtcome, hstored, hfor, hreserved, hframe⟩ := createReservation_ok h
      rw [hlimit] at hreserved
      exact Or.inr (Or.inr ⟨a, row, _, houtcome, hstored, hfee, hfor, hreserved, hframe⟩)

theorem Requeued.refl (t : Table paymentAttemptSchema) : Requeued t t :=
  ⟨id, fun _ => rfl, by simp⟩

theorem Requeued.trans {t₁ t₂ t₃ : Table paymentAttemptSchema} (h₁ : Requeued t₁ t₂)
    (h₂ : Requeued t₂ t₃) : Requeued t₁ t₃ := by
  obtain ⟨f, hf, hrows₁⟩ := h₁
  obtain ⟨g, hg, hrows₂⟩ := h₂
  refine ⟨g ∘ f, ?_, by rw [hrows₂, hrows₁, List.map_map]⟩
  intro r
  rw [Function.comp_apply, hg (f r), hf r]

theorem requeued_update {t t' : Table paymentAttemptSchema} {p : PaymentAttemptRow → Bool}
    {sequence : Nat}
    (h : t.update p (fun r => { r with reconciliationSequence := sequence }) = some t') :
    Requeued t t' := by
  refine ⟨_, ?_, Table.rows_update h⟩
  intro r
  split <;> rfl

theorem requeued_resequence {maximum : Nat} {attempts : List PaymentAttempt}
    {t t' : Table paymentAttemptSchema} (h : Ledger.resequence maximum attempts t = .ok t') :
    Requeued t t' := by
  unfold Ledger.resequence at h
  -- One queue write per selected attempt, whatever position the loop has reached.
  generalize attempts.zipIdx = entries at h
  induction entries generalizing t with
  | nil =>
    obtain rfl := pure_eq_ok.mp h
    exact Requeued.refl t
  | cons entry rest ih =>
    simp only [List.foldlM_cons, bind_eq_ok, okOr_eq_ok] at h
    obtain ⟨next, ⟨sequence, -, hupdate⟩, hrest⟩ := h
    exact (requeued_update hupdate).trans (ih hrest)

/-- The queue position is not part of an attempt's value. -/
theorem Requeued.stored {table : Table paymentAttemptSchema}
    (hqueue : Requeued table l'.paymentAttempts) (hmem : row ∈ table)
    (hvalue : hydrateAttempt row = .ok a) : ∃ row', l'.Stored row' a := by
  obtain ⟨f, hf, hrows⟩ := hqueue
  have hvalid : row.Valid := by simpa [paymentAttemptSchema] using Table.check_of_mem hmem
  obtain ⟨hid, ha⟩ := (hydrateAttempt_eq_ok hvalid).mp hvalue
  refine ⟨f row, ?_, ?_, ?_⟩
  · rw [← Table.mem_rows, hrows]
    exact List.mem_map_of_mem hmem
  · rw [hf row]
    exact hid
  · rw [hf row]
    exact ha

/-- Selecting a batch only moves it to the end of the queue, and each attempt
returned is stored. -/
theorem loadUnresolvedPaymentAttempts_ok {limit : Nat} {batch : List PaymentAttempt × Bool}
    (h : l.loadUnresolvedPaymentAttempts limit = .ok (batch, l')) :
    Requeued l.paymentAttempts l'.paymentAttempts ∧
      l' = { l with paymentAttempts := l'.paymentAttempts } ∧
      ∀ a ∈ batch.1, ∃ row, l'.Stored row a := by
  simp only [Ledger.loadUnresolvedPaymentAttempts, bind_eq_ok, okOr_eq_ok, sqliteU64,
    i64TryFrom_eq_ok, pure_eq_ok] at h
  obtain ⟨_, -, _, -, _, -, table, hrestart, fetched, hfetched, final, hresequence, heq⟩ := h
  obtain ⟨rfl, rfl⟩ := Prod.mk.inj heq
  have hstart : Requeued l.paymentAttempts table := by
    unfold Ledger.restartSequence at hrestart
    split at hrestart
    · exact requeued_update (okOr_eq_ok.mp hrestart)
    · obtain rfl := Except.ok.inj hrestart
      exact Requeued.refl _
  have hend : Requeued table final := requeued_resequence hresequence
  refine ⟨hstart.trans hend, rfl, ?_⟩
  intro a ha
  obtain ⟨row, hrow, hvalue⟩ := mem_of_mapM hfetched a (List.mem_of_mem_take ha)
  have hselected := List.mem_of_mem_take hrow
  rw [List.mem_insertionSort, Table.mem_select] at hselected
  apply Requeued.stored _ hselected.1 hvalue
  exact hend

end Operations

/-- Every payment operation acts on the ledger in one of these ways. -/
theorem paymentOp_effect {l l' : Ledger} {op : PaymentOp} {value : op.Value}
    (h : op.run l = .ok (value, l')) : PaymentEffect l l' := by
  cases op with
  | loadPaymentAttemptByEvent e => exact .unchanged (reading_eq_ok.mp h).2
  | loadPaymentAttempt hash => exact .unchanged (reading_eq_ok.mp h).2
  | reservePayment e hash connection principal now =>
    obtain ⟨c, -, -, ⟨_, _, -, rfl, -⟩ | ⟨_, _, -, rfl, -⟩ | ⟨_, row, _, -, -, -, -, hreserved,
      hframe⟩⟩ := reservePayment_ok h
    · exact .unchanged rfl
    · exact .unchanged rfl
    · exact .reserved hreserved hframe
  | markPaymentInitiated hash now =>
    obtain ⟨rfl, -⟩ | ⟨row, -, -, -, hmoved⟩ := markPaymentInitiated_ok h
    · exact .unchanged rfl
    · exact .moved hmoved
  | releaseUninitiatedPayment hash now =>
    obtain ⟨row, hmem, rfl, hstate, hnone, hattempts, hperiod, hframe⟩ :=
      releaseUninitiatedPayment_ok h
    exact .released hmem hstate hnone hattempts hperiod hframe
  | markPaymentPending hash now =>
    obtain ⟨rfl, -⟩ | ⟨row, row', -, -, hmoved⟩ := markPaymentPending_ok h
    · exact .unchanged rfl
    · exact .moved hmoved
  | markPaymentFailed hash now =>
    obtain ⟨rfl, -⟩ | ⟨row, row', -, -, hmoved⟩ := markPaymentFailed_ok h
    · exact .unchanged rfl
    · exact .moved hmoved
  | markPaymentSucceeded hash principal fee now =>
    obtain ⟨rfl, -⟩ | ⟨row, row', -, -, -, hmoved⟩ := markPaymentSucceeded_ok h
    · exact .unchanged rfl
    · exact .moved hmoved
  | loadUnresolvedPaymentAttempts limit =>
    obtain ⟨hqueue, hframe, -⟩ := loadUnresolvedPaymentAttempts_ok h
    exact .requeued hqueue hframe

/-- A settled attempt stays, up to its place in the queue. -/
theorem PaymentEffect.succeeded_persists {l l' : Ledger} (h : PaymentEffect l l')
    {row : PaymentAttemptRow} (hrow : row ∈ l.paymentAttempts) (hstate : row.state = .succeeded) :
    ∃ row' ∈ l'.paymentAttempts,
      row' = { row with reconciliationSequence := row'.reconciliationSequence } := by
  cases h with
  | unchanged heq => exact ⟨row, heq ▸ hrow, rfl⟩
  | reserved hreserved _ => exact ⟨row, (Table.mem_insert hreserved.attempts).mpr (Or.inl hrow), rfl⟩
  | @moved moved moved' a hmoved =>
    refine ⟨row, (Table.mem_replace hmoved.attempts).mpr (Or.inl ⟨hrow, ?_⟩), rfl⟩
    by_contra hsame
    have heq : row = moved := Table.eq_of_key (hasHash_key moved.paymentHash) hrow hmoved.mem
      (by simpa using hsame) (by simp)
    exact hmoved.move.state_ne (heq ▸ hstate)
  | @released released hmem hreserved _ hattempts _ _ =>
    refine ⟨row, ?_, rfl⟩
    rw [hattempts, Table.mem_delete]
    refine ⟨hrow, ?_⟩
    by_contra hsame
    have heq : row = released := Table.eq_of_key (hasHash_key released.paymentHash) hrow hmem
      (by simpa using hsame) (by simp)
    rw [heq, hreserved] at hstate
    cases hstate
  | requeued hqueue _ =>
    obtain ⟨f, hf, hrows⟩ := hqueue
    refine ⟨f row, ?_, hf row⟩
    rw [← Table.mem_rows, hrows]
    exact List.mem_map_of_mem hrow

end NwcMobile
