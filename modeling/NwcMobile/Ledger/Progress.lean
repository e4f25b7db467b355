import NwcMobile.Ledger.Conflicts
import NwcMobile.Ledger.PaymentQueue
import NwcMobile.Ledger.RecordOwners

/-!
When a transition of a payment attempt goes through. A call that finds its attempt where its
caller believes it to be, changed no later than the caller's clock shows, succeeds if the
clock and the amounts fit the ledger's columns.
-/

namespace NwcMobile

open Fallible Relational Transition Accounting

/-- The call finds its attempt where its caller believes it to be, and no later time on it. -/
def PaymentOp.Expected (l : Ledger) : PaymentOp → Prop
  | .loadUnresolvedPaymentAttempts limit => limit < i64Max
  | .releaseUninitiatedPayment hash now => ∃ row ∈ l.paymentAttempts, row.paymentHash = hash ∧
      row.updatedAt ≤ now ∧ row.state = .reserved ∧ row.initiatedAt = none
  | .markPaymentFailed hash now => ∃ row ∈ l.paymentAttempts, row.paymentHash = hash ∧
      row.updatedAt ≤ now ∧ row.initiatedAt.isSome ∧ row.state ≠ .succeeded
  | .markPaymentSucceeded hash amount fee now => ∃ row ∈ l.paymentAttempts,
      row.paymentHash = hash ∧ row.updatedAt ≤ now ∧ row.initiatedAt.isSome ∧
        (row.state = .succeeded → ∃ principalSat feeSat, msatToSatCeil amount = .ok principalSat ∧
          msatToSatCeil fee = .ok feeSat ∧ row.actualPrincipalSat = some principalSat ∧
            row.actualFeeSat = some feeSat)
  | _ => False

/-- The clock, an amount, or the usage of the period with the settlement is out of range. -/
def PaymentOp.OutOfRange (l : Ledger) : PaymentOp → Prop
  | .releaseUninitiatedPayment _ now | .markPaymentFailed _ now => i64Max < now
  | .markPaymentSucceeded hash amount fee now =>
      i64Max < now ∨ 2 ^ 64 ≤ amount + 999 ∨ 2 ^ 64 ≤ fee + 999 ∨
        ∃ row ∈ l.paymentAttempts, row.paymentHash = hash ∧ row.state ≠ .succeeded ∧
          ∃ period ∈ l.budgetPeriods,
            samePeriod row.connectionId row.periodStartedAt period = true ∧
              i64Max < period.usedSat - row.contribution +
                chargedFor l row.connectionId ((amount + 999) / 1000) ((fee + 999) / 1000)
  | _ => False

/-- Every attempt belongs to a connection that is still known. -/
def Ledger.Connected (l : Ledger) : Prop :=
  ∀ row ∈ l.paymentAttempts, ∃ c ∈ l.connections, c.connectionId = row.connectionId

section Connected

variable {x : Crates} {l l' : Ledger} {call : LedgerCall} {history : LedgerHistory}

theorem Ledger.Connected.step (h : l.Connected) (hstep : LedgerStep x l call l') :
    l'.Connected := by
  have hkept : ∀ {id : String}, (∃ c ∈ l.connections, c.connectionId = id) →
      ∃ c ∈ l'.connections, c.connectionId = id := by
    rintro id ⟨c, hc, rfl⟩
    obtain ⟨c', hc', hid, -⟩ := hstep.connectionKept hc
    exact ⟨c', hc', hid⟩
  intro row hrow
  cases hstep.origin hrow with
  | kept mem same state initiated => exact hkept (same.connectionId ▸ h _ mem)
  | initiated mem same state fresh call_eq => exact hkept (same.connectionId ▸ h _ mem)
  | accounted mem same started initiated call_eq hash => exact hkept (same.connectionId ▸ h _ mem)
  | reserved state fresh connectionId call_eq =>
    subst call_eq
    obtain ⟨random, hrun⟩ := hstep.run_of_ok
    obtain ⟨c, hc, hauthorizes, -⟩ := reservePayment_ok hrun
    refine hkept ⟨c, hc, ?_⟩
    rw [connectionId]
    simp only [Ledger.authorizesPayment, activeAt, Bool.and_eq_true, beq_iff_eq] at hauthorizes
    exact hauthorizes.1.1.1.1

theorem connected_run (hrun : LedgerRun x .empty history l) : l.Connected := by
  refine hrun.invariant (I := Ledger.Connected) ?_ fun _ _ _ h hstep => h.step hstep
  exact fun row hrow => absurd hrow (Table.not_mem_empty row)

end Connected

section Transitions

variable {l : Ledger} {row : PaymentAttemptRow} {a : PaymentAttempt} {hash : PaymentHash}
  {imported : String → Nat → Nat} {now : UnixTimestamp} {op : PaymentOp}

/-- A row may take any later state and settlement that belong together. -/
theorem PaymentAttemptRow.Valid.settle (h : row.Valid) (hnow : row.updatedAt ≤ now)
    (hrange : now ≤ i64Max) {state : DurablePaymentState} {principal fee charged : Option Nat}
    {exceeded : Bool} (hprincipal : storable? principal) (hfee : storable? fee)
    (hcharged : storable? charged)
    (hsettlement : PaymentAttemptRow.SettlementValid { row with
      state, actualPrincipalSat := principal, actualFeeSat := fee, chargedSat := charged
      authorizationExceeded := exceeded, updatedAt := now }) :
    PaymentAttemptRow.Valid { row with
      state, actualPrincipalSat := principal, actualFeeSat := fee, chargedSat := charged
      authorizationExceeded := exceeded, updatedAt := now } := by
  obtain ⟨h₁, h₂, h₃, h₄, h₅, h₆, -, -, -, h₁₀, h₁₁, -, h₁₃, h₁₄, h₁₅, h₁₆, -⟩ := h
  exact ⟨h₁, h₂, h₃, h₄, h₅, h₆, hprincipal, hfee, hcharged, h₁₀, h₁₁, hrange,
    Nat.le_trans h₁₃ hnow, h₁₄, h₁₅, h₁₆, hsettlement⟩

/-- Only the row of the hash has to pass the checks of an update by hash. -/
theorem update_by_hash_succeeds {p : PaymentAttemptRow → Bool}
    {f : PaymentAttemptRow → PaymentAttemptRow} (hrow : row ∈ l.paymentAttempts)
    (hcheck : (f row).Valid)
    (hkeys : ∀ r, (f r).eventId = r.eventId ∧ (f r).paymentHash = r.paymentHash) :
    ∃ table, l.paymentAttempts.update (fun r => r.paymentHash == row.paymentHash && p r) f =
      some table := by
  apply Table.update_succeeds
  · intro r hr hp
    have hsame : r = row := Table.eq_of_key (hasHash_key row.paymentHash) hr hrow
      (by simp_all) (by simp)
    rw [hsame]
    simpa [paymentAttemptSchema] using hcheck
  · intro b c
    have hkey : ∀ r, (if (r.paymentHash == row.paymentHash && p r) = true then f r else r).eventId =
        r.eventId ∧ (if (r.paymentHash == row.paymentHash && p r) = true then f r
          else r).paymentHash = r.paymentHash := by
      intro r
      split
      · exact hkeys r
      · exact ⟨rfl, rfl⟩
    simp only [paymentAttemptSchema, (hkey b).1, (hkey b).2, (hkey c).1, (hkey c).2]

/-- A transition reaches its own part: its attempt is found, at its time and started. -/
theorem Ledger.Stored.checks (h : l.Stored row a) (hinitiated : row.initiatedAt.isSome)
    (hnow : row.updatedAt ≤ now) : l.requireAttempt row.paymentHash = .ok a ∧
      validateUpdateTime a now = .ok () ∧ ensureAttemptInitiated a = .ok () := by
  refine ⟨requireAttempt_eq_ok.mpr ⟨row, h, rfl⟩, ?_, ?_⟩
  · simpa [validateUpdateTime, h.updatedAt] using hnow
  · simpa [ensureAttemptInitiated, PaymentAttempt.wasInitiated, h.initiatedAt] using hinitiated

theorem unsettled_columns (hrow : row ∈ l.paymentAttempts) (hstate : row.state ≠ .succeeded) :
    row.actualPrincipalSat = none ∧ row.actualFeeSat = none ∧ row.chargedSat = none ∧
      row.authorizationExceeded = false := by
  obtain ⟨-, -, -, -, -, -, -, -, -, -, -, -, -, -, -, -, hsettlement⟩ := paymentAttempt_valid hrow
  cases hs : row.state with
  | succeeded => exact absurd hs hstate
  | reserved => simpa [PaymentAttemptRow.SettlementValid, hs] using hsettlement
  | pending => simpa [PaymentAttemptRow.SettlementValid, hs] using hsettlement
  | failed => simpa [PaymentAttemptRow.SettlementValid, hs] using hsettlement

/-- A started attempt that has not settled can be marked as failed at any later time. -/
theorem failed_succeeds (h : Balanced imported l) (hrow : row ∈ l.paymentAttempts)
    (hinitiated : row.initiatedAt.isSome) (hstate : row.state ≠ .succeeded)
    (hnow : row.updatedAt ≤ now) (hrange : now ≤ i64Max) :
    ∃ done, l.markPaymentFailed row.paymentHash now = .ok done := by
  obtain ⟨id, hid⟩ := h.connection_parses row hrow
  have hstored : l.Stored row (row.toAttempt id) := ⟨hrow, hid, rfl⟩
  obtain ⟨hfound, htime, hstarted⟩ := hstored.checks hinitiated hnow
  have hclock : sqliteU64 now = .ok now := i64TryFrom_eq_ok.mpr ⟨hrange, rfl⟩
  obtain ⟨hprincipal, hfee, hcharged, hexceeded⟩ := unsettled_columns hrow hstate
  obtain ⟨-, -, -, -, -, -, hprincipalFits, hfeeFits, hchargedFits, -⟩ := paymentAttempt_valid hrow
  have hvalid : PaymentAttemptRow.Valid { row with state := .failed, updatedAt := now } :=
    (paymentAttempt_valid hrow).settle hnow hrange hprincipalFits hfeeFits hchargedFits
      ⟨hprincipal, hfee, hcharged, hexceeded⟩
  obtain ⟨table, htable⟩ := update_by_hash_succeeds (p := isUnresolved)
    (f := fun r => { r with state := .failed, updatedAt := now }) hrow hvalid fun r => ⟨rfl, rfl⟩
  have hunresolved : row.state = .reserved ∨ row.state = .pending → ∃ periods,
      l.adjustPeriodUsed (row.toAttempt id) (row.toAttempt id).reservedSat 0 now = .ok periods :=
    fun hs => adjustPeriodUsed_returns h hstored hs hnow hrange
  simp only [Ledger.markPaymentFailed, hclock, hfound, htime, hstarted, ok_bind, htable, okOr,
    show (row.toAttempt id).state = row.state from rfl]
  cases hs : row.state with
  | succeeded => exact absurd hs hstate
  | failed => exact ⟨_, rfl⟩
  | reserved =>
    obtain ⟨periods, hadjust⟩ := hunresolved (Or.inl hs)
    exact ⟨_, by simp only [hadjust, ok_bind]; rfl⟩
  | pending =>
    obtain ⟨periods, hadjust⟩ := hunresolved (Or.inr hs)
    exact ⟨_, by simp only [hadjust, ok_bind]; rfl⟩

theorem chargedAmount_eq {countFees : Bool} {principal fee : Nat} (hprincipal : principal < 2 ^ 62)
    (hfee : fee < 2 ^ 62) :
    chargedAmount countFees principal fee = .ok (if countFees then principal + fee else principal) := by
  unfold chargedAmount
  split
  · simp only [okOr_eq_ok, checkedAdd_eq_some, and_true]
    omega
  · rfl

/-- A started attempt that has not settled can be settled at any later time if its period has
room for the charge. -/
theorem settleAttempt_succeeds {principal fee : Nat} (h : Balanced imported l) (hconnected : l.Connected)
    (hstored : l.Stored row a) (hstate : row.state ≠ .succeeded) (hnow : row.updatedAt ≤ now)
    (hrange : now ≤ i64Max) (hprincipal : principal < 2 ^ 62) (hfee : fee < 2 ^ 62)
    (hroom : ∀ period ∈ l.budgetPeriods,
      samePeriod row.connectionId row.periodStartedAt period = true →
        period.usedSat - row.contribution + chargedFor l row.connectionId principal fee ≤ i64Max) :
    ∃ done, l.settleAttempt row.paymentHash a principal fee now = .ok done := by
  obtain ⟨c, hc, hid⟩ := hconnected row hstored.mem
  have hconnection : (l.connections.selectRow fun c => c.connectionId == a.connectionId.value) =
      some c := by
    rw [hstored.connectionId]
    exact (Table.selectRow_eq_some (connection_id_key _)).mpr ⟨hc, by simpa using hid⟩
  have hcharge : chargedAmount (c.feePolicy == "count") principal fee =
      .ok (chargedFor l row.connectionId principal fee) := by
    rw [chargedAmount_eq hprincipal hfee, chargedFor, feesCount_eq hc hid]
  have hbound : chargedFor l row.connectionId principal fee ≤ i64Max := by
    unfold chargedFor i64Max
    split <;> omega
  have hclock : sqliteU64 now = .ok now := i64TryFrom_eq_ok.mpr ⟨hrange, rfl⟩
  have hcolumn : sqliteU64 (chargedFor l row.connectionId principal fee) =
      .ok (chargedFor l row.connectionId principal fee) := i64TryFrom_eq_ok.mpr ⟨hbound, rfl⟩
  obtain ⟨-, -, -, -, -, -, -, -, -, -, hperiod, -, hcreated, -⟩ := paymentAttempt_valid hstored.mem
  obtain ⟨periods, hadjust⟩ := adjustPeriodUsed_succeeds h hstored
    (Nat.le_trans hperiod (Nat.le_trans hcreated hnow)) hrange hroom
  have hsettled : ∀ exceeded, ∃ table, l.paymentAttempts.update
      (fun r => r.paymentHash == row.paymentHash && r.state != .succeeded)
      (fun r => { r with
        state := .succeeded, actualPrincipalSat := some principal, actualFeeSat := some fee
        chargedSat := some (chargedFor l row.connectionId principal fee)
        authorizationExceeded := exceeded, updatedAt := now }) = some table := by
    intro exceeded
    have hfits : ∀ amount : Nat, amount < 2 ^ 62 → storable? (some amount) := by
      intro amount hamount
      simp only [storable?, storable, i64Max, Option.mem_def, Option.some.injEq, forall_eq']
      omega
    refine update_by_hash_succeeds (p := fun r => r.state != .succeeded)
      (f := fun r => { r with
        state := .succeeded, actualPrincipalSat := some principal, actualFeeSat := some fee
        chargedSat := some (chargedFor l row.connectionId principal fee)
        authorizationExceeded := exceeded, updatedAt := now }) hstored.mem ?_ fun r => ⟨rfl, rfl⟩
    apply (paymentAttempt_valid hstored.mem).settle hnow hrange (hfits principal hprincipal)
      (hfits fee hfee)
    · simpa [storable?, storable] using hbound
    · exact ⟨rfl, rfl, rfl⟩
  obtain ⟨table, htable⟩ := hsettled (decide (principal > a.principalSat) ||
    (c.feePolicy == "count" && decide (fee > a.feeReserveSat)))
  simp only [Ledger.settleAttempt, hclock, ok_bind, hconnection, okOr, hcharge,
    ← hstored.contribution hstate, hadjust, hcolumn, htable]
  exact ⟨_, rfl⟩

/-- A started attempt can be settled at any later time for the amounts it is settled for
already, and if it is not settled for any its period has room for. -/
theorem succeeded_succeeds {amount fee : AmountMsat} (h : Balanced imported l)
    (hconnected : l.Connected) (hrow : row ∈ l.paymentAttempts) (hinitiated : row.initiatedAt.isSome)
    (hnow : row.updatedAt ≤ now)
    (hsettled : row.state = .succeeded → ∃ principalSat feeSat,
      msatToSatCeil amount = .ok principalSat ∧ msatToSatCeil fee = .ok feeSat ∧
        row.actualPrincipalSat = some principalSat ∧ row.actualFeeSat = some feeSat)
    (hrange : ¬ (PaymentOp.markPaymentSucceeded row.paymentHash amount fee now).OutOfRange l) :
    ∃ done, l.markPaymentSucceeded row.paymentHash amount fee now = .ok done := by
  obtain ⟨id, hid⟩ := h.connection_parses row hrow
  have hstored : l.Stored row (row.toAttempt id) := ⟨hrow, hid, rfl⟩
  obtain ⟨hfound, htime, hstarted⟩ := hstored.checks hinitiated hnow
  simp only [PaymentOp.OutOfRange, not_or, not_lt, not_le, not_exists, not_and] at hrange
  obtain ⟨hclock, hamount, hfee, hroom⟩ := hrange
  have hceil : ∀ amount : Nat, amount + 999 < 2 ^ 64 →
      msatToSatCeil amount = .ok ((amount + 999) / 1000) ∧ (amount + 999) / 1000 < 2 ^ 62 := by
    intro amount hamount
    refine ⟨?_, by omega⟩
    simp only [msatToSatCeil, bind_eq_ok, okOr_eq_ok, checkedAdd_eq_some, pure_eq_ok]
    exact ⟨_, ⟨hamount, rfl⟩, rfl⟩
  obtain ⟨hprincipalSat, hprincipalBound⟩ := hceil amount hamount
  obtain ⟨hfeeSat, hfeeBound⟩ := hceil fee hfee
  have hcolumn : ∀ value : Nat, value ≤ i64Max → sqliteU64 value = .ok value :=
    fun value hvalue => i64TryFrom_eq_ok.mpr ⟨hvalue, rfl⟩
  have hwide : 2 ^ 62 ≤ i64Max := by decide
  simp only [Ledger.markPaymentSucceeded, hprincipalSat, hfeeSat, hcolumn now hclock,
    hcolumn _ (Nat.le_trans hprincipalBound.le hwide), hcolumn _ (Nat.le_trans hfeeBound.le hwide),
    hfound, htime, hstarted, ok_bind]
  split
  · rename_i hstate
    obtain ⟨principalSat, feeSat, hprincipal, hfeePaid, hactual, hactualFee⟩ := hsettled hstate
    cases hprincipalSat.symm.trans hprincipal
    cases hfeeSat.symm.trans hfeePaid
    rw [if_pos ⟨hactual, hactualFee⟩]
    exact ⟨_, rfl⟩
  · rename_i hstate
    exact settleAttempt_succeeds h hconnected hstored hstate hnow hclock hprincipalBound hfeeBound
      fun period hperiod hsame => hroom row hrow rfl hstate period hperiod hsame

end Transitions

section Expected

variable {l : Ledger} {op : PaymentOp} {imported : String → Nat → Nat}

/-- A call that is expected is not refused because another transition came first. -/
theorem PaymentOp.Expected.noConflict (h : op.Expected l) : NoConflict (op.run l) := by
  cases op with
  | loadUnresolvedPaymentAttempts limit => exact noConflict_loadUnresolved
  | releaseUninitiatedPayment hash now =>
    obtain ⟨row, hrow, hhash, -, hstate, hfresh⟩ := h
    exact noConflict_release (Ledger.stage_eq_reserved.mpr ⟨row, hrow, hhash, hstate, hfresh⟩)
  | markPaymentFailed hash now =>
    obtain ⟨row, hrow, hhash, -, hinitiated, hstate⟩ := h
    exact noConflict_failed hrow hhash hinitiated hstate
  | markPaymentSucceeded hash amount fee now =>
    obtain ⟨row, hrow, hhash, -, hinitiated, hsettled⟩ := h
    exact noConflict_succeeded hrow hhash hinitiated hsettled
  | _ => exact h.elim

/-- A call that is expected succeeds within the range of the ledger. -/
theorem PaymentOp.Expected.succeeds (h : op.Expected l) (hbalanced : Balanced imported l)
    (hconnected : l.Connected) (hrange : ¬ op.OutOfRange l) : ∃ done, op.run l = .ok done := by
  cases op with
  | loadUnresolvedPaymentAttempts limit =>
    obtain ⟨batch, l', hloaded⟩ := loadUnresolved_succeeds hbalanced.connection_parses h
    exact ⟨_, hloaded⟩
  | releaseUninitiatedPayment hash now =>
    obtain ⟨row, hrow, rfl, hnow, hstate, hfresh⟩ := h
    obtain ⟨l', hreleased⟩ :=
      release_succeeds hbalanced hrow hstate hfresh hnow (Nat.le_of_not_lt hrange)
    exact ⟨_, hreleased⟩
  | markPaymentFailed hash now =>
    obtain ⟨row, hrow, rfl, hnow, hinitiated, hstate⟩ := h
    exact failed_succeeds hbalanced hrow hinitiated hstate hnow (Nat.le_of_not_lt hrange)
  | markPaymentSucceeded hash amount fee now =>
    obtain ⟨row, hrow, rfl, hnow, hinitiated, hsettled⟩ := h
    exact succeeded_succeeds hbalanced hconnected hrow hinitiated hnow hsettled hrange
  | _ => exact h.elim

end Expected

end NwcMobile
