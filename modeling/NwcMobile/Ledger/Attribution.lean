import NwcMobile.Ledger.Budget
import NwcMobile.Ledger.Lifecycle

/-!
Where a stored payment attempt comes from, call by call: which call wrote what
part of its row. Together with what a caller has established before it makes such
a call, this says to whom a payment may be attributed.
-/

namespace NwcMobile

open Fallible Relational Transition Accounting

/-- The attempt whose status a call accounts for. -/
def PaymentOp.accounts : PaymentOp → Option PaymentHash
  | .markPaymentPending hash _ => some hash
  | .markPaymentFailed hash _ => some hash
  | .markPaymentSucceeded hash _ _ _ => some hash
  | _ => none

/-- How one call left a row that is stored after it. -/
inductive RowOrigin (l : Ledger) (call : LedgerCall) (r' : PaymentAttemptRow) : Prop
  | kept {r : PaymentAttemptRow} (mem : r ∈ l.paymentAttempts) (same : SameAuthorization r r')
      (state : r'.state = r.state) (initiated : r'.initiatedAt = r.initiatedAt)
  | initiated {r : PaymentAttemptRow} {now : UnixTimestamp} {a : PaymentAttempt}
      (mem : r ∈ l.paymentAttempts) (same : SameAuthorization r r') (state : r'.state = .reserved)
      (fresh : r.initiatedAt = none)
      (call_eq : call = ⟨.payment (.markPaymentInitiated r'.paymentHash now), .ok a⟩)
  | accounted {r : PaymentAttemptRow} {op : PaymentOp} {value : op.Value}
      (mem : r ∈ l.paymentAttempts) (same : SameAuthorization r r')
      (started : r.initiatedAt.isSome) (initiated : r'.initiatedAt = r.initiatedAt)
      (call_eq : call = ⟨.payment op, .ok value⟩) (hash : op.accounts = some r'.paymentHash)
  | reserved {connection : ActiveConnection} {principal : Nat} {now : UnixTimestamp}
      {a : PaymentAttempt} (state : r'.state = .reserved) (fresh : r'.initiatedAt = none)
      (connectionId : r'.connectionId = connection.id.value)
      (call_eq : call = ⟨.payment (.reservePayment r'.eventId r'.paymentHash connection principal
        now), .ok (.reserved a)⟩)

section Origins

variable {x : Crates} {l l' : Ledger} {r r' : PaymentAttemptRow} {call : LedgerCall}

theorem SameAuthorization.refl (r : PaymentAttemptRow) : SameAuthorization r r :=
  ⟨rfl, rfl, rfl, rfl, rfl, rfl, rfl⟩

theorem RowOrigin.of_mem (h : r' ∈ l.paymentAttempts) : RowOrigin l call r' :=
  .kept h (.refl r') rfl rfl

/-- A row the call moved is the new row; every other row was there before. -/
theorem Moved.origin {row row' : PaymentAttemptRow} {a : PaymentAttempt}
    (h : Moved l l' row row' a) (hr : r' ∈ l'.paymentAttempts)
    (hmoved : RowOrigin l call row') : RowOrigin l call r' := by
  rcases (Table.mem_replace h.attempts).mp hr with ⟨hold, -⟩ | ⟨rfl, -⟩
  · exact .of_mem hold
  · exact hmoved

/-- The row an accounting call moved keeps its marker and its authorization. -/
theorem Moved.accounted {row row' : PaymentAttemptRow} {a : PaymentAttempt} {op : PaymentOp}
    {value : op.Value} (h : Moved l l' row row' a) (hash : op.accounts = some row.paymentHash)
    (hstate : row'.state ≠ .reserved) : RowOrigin l ⟨.payment op, .ok value⟩ row' := by
  have hsame := h.move.sameAuthorization
  have hhash : op.accounts = some row'.paymentHash := by rw [hsame.paymentHash, hash]
  cases h.move with
  | initiated hreserved _ _ => exact absurd hreserved hstate
  | pending _ hinitiated _ => exact .accounted h.mem hsame hinitiated rfl rfl hhash
  | failed _ hinitiated _ => exact .accounted h.mem hsame hinitiated rfl rfl hhash
  | succeeded _ hinitiated _ => exact .accounted h.mem hsame hinitiated rfl rfl hhash

/-- The rows one payment operation leaves. -/
theorem paymentOp_origin {op : PaymentOp} {value : op.Value} (h : op.run l = .ok (value, l'))
    (hr : r' ∈ l'.paymentAttempts) : RowOrigin l ⟨.payment op, .ok value⟩ r' := by
  cases op with
  | loadPaymentAttemptByEvent e =>
    obtain ⟨-, rfl⟩ := reading_eq_ok.mp h
    exact .of_mem hr
  | loadPaymentAttempt hash =>
    obtain ⟨-, rfl⟩ := reading_eq_ok.mp h
    exact .of_mem hr
  | reservePayment e hash connection principal now =>
    obtain ⟨c, -, -, ⟨_, _, -, rfl, -⟩ | ⟨_, _, -, rfl, -⟩ | ⟨a, row, _, rfl, -, -, hfor, hreserved,
      -⟩⟩ := reservePayment_ok h
    · exact .of_mem hr
    · exact .of_mem hr
    · rcases (Table.mem_insert hreserved.attempts).mp hr with hold | rfl
      · exact .of_mem hold
      · exact .reserved hreserved.state hreserved.uninitiated hfor.connectionId
          (by rw [hfor.eventId, hfor.paymentHash])
  | markPaymentInitiated hash now =>
    obtain ⟨rfl, -⟩ | ⟨row, rfl, hstate, hnone, hmoved⟩ := markPaymentInitiated_ok h
    · exact .of_mem hr
    · exact hmoved.origin hr
        (.initiated hmoved.mem hmoved.move.sameAuthorization hstate hnone rfl)
  | releaseUninitiatedPayment hash now =>
    obtain ⟨row, -, -, -, -, hattempts, -, -⟩ := releaseUninitiatedPayment_ok h
    rw [hattempts] at hr
    exact .of_mem (Table.mem_delete.mp hr).1
  | markPaymentPending hash now =>
    obtain ⟨rfl, -⟩ | ⟨row, row', rfl, hstate, hmoved⟩ := markPaymentPending_ok h
    · exact .of_mem hr
    · exact hmoved.origin hr (hmoved.accounted rfl (by simp [hstate]))
  | markPaymentFailed hash now =>
    obtain ⟨rfl, -⟩ | ⟨row, row', rfl, hstate, hmoved⟩ := markPaymentFailed_ok h
    · exact .of_mem hr
    · exact hmoved.origin hr (hmoved.accounted rfl (by simp [hstate]))
  | markPaymentSucceeded hash principal fee now =>
    obtain ⟨rfl, -⟩ | ⟨row, row', rfl, hstate, -, hmoved⟩ := markPaymentSucceeded_ok h
    · exact .of_mem hr
    · exact hmoved.origin hr (hmoved.accounted rfl (by simp [hstate]))
  | loadUnresolvedPaymentAttempts limit =>
    obtain ⟨⟨f, hf, hrows⟩, -, -⟩ := loadUnresolvedPaymentAttempts_ok h
    rw [← Table.mem_rows, hrows] at hr
    obtain ⟨r, hmem, rfl⟩ := List.mem_map.mp hr
    rw [hf r]
    exact .kept hmem ⟨rfl, rfl, rfl, rfl, rfl, rfl, rfl⟩ rfl rfl

/-- Only payment operations write attempts. -/
theorem LedgerStep.attempts_kept {op : LedgerOp} {reply : op.Reply}
    (h : LedgerStep x l ⟨op, reply⟩ l') (hop : ∀ o, op ≠ .payment o) :
    l'.paymentAttempts = l.paymentAttempts := by
  rcases h.cases with rfl | ⟨value, random, rfl, hrun⟩
  · rfl
  · cases op with
    | payment op => exact absurd rfl (hop op)
    | claim op => rw [claimOp_frame hrun]
    | record op => rw [recordOp_frame hrun]
    | registration op => rw [registrationOp_frame hrun]
    | registry op =>
      rcases registryOp_effect hrun with rfl | ⟨c, createdAt, used, now, row, hrow, -⟩ |
        ⟨id, row, row', htombstoned⟩
      · rfl
      · exact hrow.attempts
      · exact htombstoned.attempts

/-- The rows one step of the ledger leaves. -/
theorem LedgerStep.origin (h : LedgerStep x l call l') (hr : r' ∈ l'.paymentAttempts) :
    RowOrigin l call r' := by
  obtain ⟨op, reply⟩ := call
  rcases h.cases with rfl | ⟨value, random, rfl, hrun⟩
  · exact .of_mem hr
  · cases op with
    | payment op => exact paymentOp_origin hrun hr
    | claim op =>
      rw [h.attempts_kept nofun] at hr
      exact .of_mem hr
    | record op =>
      rw [h.attempts_kept nofun] at hr
      exact .of_mem hr
    | registration op =>
      rw [h.attempts_kept nofun] at hr
      exact .of_mem hr
    | registry op =>
      rw [h.attempts_kept nofun] at hr
      exact .of_mem hr

/-- A row that is there after a run either has the authorization of the attempt
that was stored for its hash before, or was reserved within the run. -/
theorem row_since_stored {row₀ row : PaymentAttemptRow} {a : PaymentAttempt}
    {history : LedgerHistory} (hrun : LedgerRun x l history l') (hstored : l.Stored row₀ a)
    (hrow : row ∈ l'.paymentAttempts) (hhash : row.paymentHash = a.paymentHash) :
    SameAuthorization row₀ row ∨ ∃ event ∈ history, ∃ connection principal now a',
      event.label = ⟨.payment (.reservePayment row.eventId row.paymentHash connection principal now),
        .ok (.reserved a')⟩ := by
  induction hrun generalizing row with
  | refl =>
    left
    have hsame : row = row₀ := Table.eq_of_key (hasHash_key a.paymentHash) hrow hstored.mem
      (by simpa using hhash) (by simp [hstored.paymentHash])
    rw [hsame]
    exact .refl row₀
  | @tail past m m' label _ hstep ih =>
    -- a row the last call kept was there before, under the same authorization
    have hearlier : ∀ r ∈ m.paymentAttempts, SameAuthorization r row →
        SameAuthorization row₀ row ∨ ∃ event ∈ (⟨m, label, m'⟩ :: past : LedgerHistory),
          ∃ connection principal now a', event.label = ⟨.payment (.reservePayment row.eventId
            row.paymentHash connection principal now), .ok (.reserved a')⟩ := by
      intro r hr hsame
      rcases ih hr (hsame.paymentHash.symm.trans hhash) with hold | ⟨event, hevent, hreserved⟩
      · exact Or.inl (hold.trans hsame)
      · rw [← hsame.eventId, ← hsame.paymentHash] at hreserved
        exact Or.inr ⟨event, List.mem_cons_of_mem _ hevent, hreserved⟩
    cases hstep.origin hrow with
    | kept mem same _ _ => exact hearlier _ mem same
    | initiated mem same _ _ _ => exact hearlier _ mem same
    | accounted mem same _ _ _ _ => exact hearlier _ mem same
    | reserved _ _ _ call_eq =>
      exact Or.inr ⟨_, List.mem_cons_self, _, _, _, _, call_eq⟩

theorem LedgerStep.returned_row (h : LedgerStep x l call l') {a : PaymentAttempt}
    (ha : a ∈ call.returned) : ∃ row, l'.Stored row a := by
  obtain ⟨row, hstored, -⟩ := loadAttemptByHash_eq_some.mp (returned_stored h ha)
  exact ⟨row, hstored⟩

/-- An attempt loaded for an event is the attempt of that event. -/
theorem LedgerStep.loaded_eventId {e : EventId} {a : PaymentAttempt}
    (h : LedgerStep x l ⟨.payment (.loadPaymentAttemptByEvent e), .ok (some a)⟩ l') :
    a.eventId = e := by
  obtain ⟨random, hrun⟩ := h.run_of_ok
  obtain ⟨hload, -⟩ := reading_eq_ok.mp hrun
  obtain ⟨row, hstored, hrow⟩ := loadAttemptByEvent_eq_some.mp hload
  exact hstored.eventId.trans hrow

/-- A reservation of an event, new or found, is the attempt of that event and of
the connection that authorized it. -/
theorem LedgerStep.reserved_eventId {e : EventId} {hash : PaymentHash}
    {connection : ActiveConnection} {principal : Nat} {now : UnixTimestamp}
    {outcome : PaymentReservationOutcome} {a : PaymentAttempt}
    (h : LedgerStep x l ⟨.payment (.reservePayment e hash connection principal now), .ok outcome⟩ l')
    (ha : outcome = .reserved a ∨ outcome = .existing a) :
    a.eventId = e ∧ a.connectionId.value = connection.id.value := by
  obtain ⟨random, hrun⟩ := h.run_of_ok
  obtain ⟨c, -, -, ⟨a', row, rfl, -, hstored, hrow, -, hconnection, -⟩ | ⟨a', row, rfl, -⟩ |
    ⟨a', row, fee, rfl, hstored, -, hfor, -⟩⟩ := reservePayment_ok hrun
  · obtain rfl : a' = a := by simpa using ha
    exact ⟨hstored.eventId.trans hrow, congrArg ConnectionId.value hconnection⟩
  · simp at ha
  · obtain rfl : a' = a := by simpa using ha
    exact ⟨hstored.eventId.trans hfor.eventId, hstored.connectionId.trans hfor.connectionId⟩

/-- The attempt a new reservation returns is one of the reserved hash. -/
theorem LedgerStep.reserved_paymentHash {e : EventId} {hash : PaymentHash}
    {connection : ActiveConnection} {principal : Nat} {now : UnixTimestamp} {a : PaymentAttempt}
    (h : LedgerStep x l ⟨.payment (.reservePayment e hash connection principal now),
      .ok (.reserved a)⟩ l') : a.paymentHash = hash := by
  obtain ⟨random, hrun⟩ := h.run_of_ok
  obtain ⟨c, -, -, ⟨_, _, heq, -⟩ | ⟨_, _, heq, -⟩ | ⟨a', row, fee, heq, hstored, -, hfor, -⟩⟩ :=
    reservePayment_ok hrun
  · cases heq
  · cases heq
  · cases heq
    exact hstored.paymentHash.trans hfor.paymentHash

end Origins

section Release

variable {x : Crates} {l l' : Ledger} {row : PaymentAttemptRow} {a : PaymentAttempt}
  {imported : String → Nat → Nat} {now : UnixTimestamp} {history : LedgerHistory}

/-- Only the marker takes an attempt out of its reserved state. -/
theorem uninitiated_reserved (hrun : LedgerRun x .empty history l) :
    ∀ row ∈ l.paymentAttempts, row.initiatedAt = none → row.state = .reserved := by
  refine hrun.invariant (I := fun l => ∀ row ∈ l.paymentAttempts, row.initiatedAt = none →
    row.state = .reserved) ?_ ?_
  · intro row hrow
    exact absurd hrow (Table.not_mem_empty row)
  · intro l label l' ih hstep row hrow hfresh
    cases hstep.origin hrow with
    | kept mem same state initiated => rw [state, ih _ mem (initiated ▸ hfresh)]
    | initiated mem same state fresh call_eq => exact state
    | accounted mem same started initiated call_eq hash =>
      rw [← initiated, hfresh] at started
      cases started
    | reserved state fresh connectionId call_eq => exact state

/-- A period that has recorded a contribution can exchange it for any that it has room for. -/
theorem adjustPeriodUsed_succeeds {new : Nat} (h : Balanced imported l) (hstored : l.Stored row a)
    (hperiod : row.periodStartedAt ≤ now) (hrange : now ≤ i64Max)
    (hroom : ∀ period ∈ l.budgetPeriods,
      samePeriod row.connectionId row.periodStartedAt period = true →
        period.usedSat - row.contribution + new ≤ i64Max) :
    ∃ periods, l.adjustPeriodUsed a row.contribution new now = .ok periods := by
  obtain ⟨period, hmem, hsame⟩ := h.attempt_period row hstored.mem
  have hle := h.contribution_le hstored.mem hmem hsame
  have hnext := hroom period hmem hsame
  obtain ⟨hstart, hlimit, hused, -, -⟩ := budgetPeriod_valid hmem
  obtain ⟨hid, hstartEq⟩ := samePeriod_eq_true.mp hsame
  rw [← hstored.connectionId, ← hstored.periodStartedAt] at hsame
  have hselected : l.budgetPeriods.selectRow (samePeriod a.connectionId.value a.periodStartedAt) =
      some period := (Table.selectRow_eq_some (samePeriod_key _ _)).mpr ⟨hmem, hsame⟩
  have hcheck : ∀ r ∈ l.budgetPeriods,
      samePeriod a.connectionId.value a.periodStartedAt r = true → budgetPeriodSchema.check
        { r with usedSat := period.usedSat - row.contribution + new, updatedAt := now } = true := by
    intro r hr hrsame
    have hperiodEq : r = period :=
      Table.eq_of_key (samePeriod_key _ _) hr hmem hrsame hsame
    subst hperiodEq
    have hvalid : ({ r with usedSat := r.usedSat - row.contribution + new, updatedAt := now } :
        BudgetPeriodRow).Valid := ⟨hstart, hlimit, hnext, hrange, hstartEq ▸ hperiod⟩
    simpa [budgetPeriodSchema] using hvalid
  have hkeys : ∀ b c : BudgetPeriodRow, budgetPeriodSchema.conflict
      (if samePeriod a.connectionId.value a.periodStartedAt b then
        { b with usedSat := period.usedSat - row.contribution + new, updatedAt := now } else b)
      (if samePeriod a.connectionId.value a.periodStartedAt c then
        { c with usedSat := period.usedSat - row.contribution + new, updatedAt := now } else c) =
      budgetPeriodSchema.conflict b c := by
    intro b c
    simp only [budgetPeriodSchema]
    split <;> split <;> rfl
  obtain ⟨periods, hupdate⟩ := Table.update_succeeds hcheck hkeys
  refine ⟨periods, ?_⟩
  have hstartRange : a.periodStartedAt ≤ i64Max := by
    rw [hstored.periodStartedAt, ← hstartEq]
    exact hstart
  have hsum : period.usedSat - row.contribution + new < 2 ^ 64 := by
    simp only [i64Max] at hnext
    omega
  simp only [Ledger.adjustPeriodUsed, bind_eq_ok, okOr_eq_ok, sqliteU64, i64TryFrom_eq_ok,
    checkedSub_eq_some, checkedAdd_eq_some]
  exact ⟨_, ⟨hstartRange, rfl⟩, period, hselected, _, ⟨hle, rfl⟩, _, ⟨hsum, rfl⟩, _,
    ⟨hnext, rfl⟩, hupdate⟩

/-- A period has room to give a contribution back. -/
theorem adjustPeriodUsed_returns (h : Balanced imported l) (hstored : l.Stored row a)
    (hstate : row.state = .reserved ∨ row.state = .pending) (hnow : row.updatedAt ≤ now)
    (hrange : now ≤ i64Max) : ∃ periods, l.adjustPeriodUsed a a.reservedSat 0 now = .ok periods := by
  obtain ⟨-, -, -, -, -, -, -, -, -, -, hperiod, -, hcreated, -⟩ := paymentAttempt_valid hstored.mem
  rw [hstored.reservedSat, ← unresolved_contribution hstate]
  apply adjustPeriodUsed_succeeds h hstored
    (Nat.le_trans hperiod (Nat.le_trans hcreated hnow)) hrange
  intro period hmem _
  exact Nat.le_trans (Nat.sub_le _ _) (budgetPeriod_valid hmem).2.2.1

/-- A reservation that was never initiated can be released at any later time. -/
theorem release_succeeds (h : Balanced imported l) (hrow : row ∈ l.paymentAttempts)
    (hstate : row.state = .reserved) (hfresh : row.initiatedAt = none) (hnow : row.updatedAt ≤ now)
    (hrange : now ≤ i64Max) :
    ∃ l', l.releaseUninitiatedPayment row.paymentHash now = .ok ((), l') := by
  obtain ⟨id, hid⟩ := h.connection_parses row hrow
  have hstored : l.Stored row (row.toAttempt id) := ⟨hrow, hid, rfl⟩
  obtain ⟨periods, hadjust⟩ :=
    adjustPeriodUsed_returns h hstored (Or.inl hstate) hnow hrange
  have hkey : paymentAttemptSchema.Key fun r => r.paymentHash == row.paymentHash &&
      (r.state == .reserved && r.initiatedAt.isNone) :=
    (paymentAttempt_hash_key row.paymentHash).mono fun r hr => by
      simp only [Bool.and_eq_true] at hr
      exact hr.1
  have hcount := Table.count_eq_one hkey hrow (by simp [hstate, hfresh])
  refine ⟨{ l with
    budgetPeriods := periods
    paymentAttempts := l.paymentAttempts.delete fun r => r.paymentHash == row.paymentHash &&
      (r.state == .reserved && r.initiatedAt.isNone) }, ?_⟩
  simp only [Ledger.releaseUninitiatedPayment, bind_eq_ok, requireAttempt_eq_ok, validateUpdateTime,
    ensure_eq_ok, sqliteU64, i64TryFrom_eq_ok, pure_eq_ok]
  refine ⟨_, ⟨hrange, rfl⟩, row.toAttempt id, ⟨row, hstored, rfl⟩, (), ?_, (), ?_, periods,
    hadjust, (), ?_, rfl⟩
  · simpa [hstored.updatedAt] using hnow
  · simp [hstored.state, hstored.initiatedAt, hstate, hfresh]
  · rw [hcount]
    rfl

end Release

end NwcMobile
