import NwcMobile.Foundations.Renewal
import NwcMobile.Ledger.Operations
import NwcMobile.Ledger.Revocation

/-!
The budget period of an instant. Its start is computed three times, by the payment
ledger from a stored row, by the registry for imported usage and for display from a
loaded connection; all three name the same row of `budget_periods`.
-/

namespace NwcMobile

open Fallible Relational Registry Accounting

/-- Durable usage in a connection's current period. -/
structure ConnectionBudgetUsage where
  spentSat : Nat
  periodStartedAt : UnixTimestamp
deriving DecidableEq, Repr

/-- The period `current_budget_usage` reads. -/
def currentPeriodStart (interval : BudgetInterval) (createdAt now : Nat) : Except LedgerError Nat :=
  if now < createdAt then .error .corruptData
  else
    match interval.duration with
    | some duration =>
      -- This product is not a checked one in the source.
      okOr (checkedAdd createdAt ((now - createdAt) / duration.asSecs * duration.asSecs))
        .valueOutOfRange
    | none => .ok createdAt

/-- `current_budget_usage`, at the time its clock shows. -/
def Ledger.currentBudgetUsage (l : Ledger) (connection : ActiveConnection) (now : UnixTimestamp) :
    Except LedgerError ConnectionBudgetUsage := do
  let periodStartedAt ←
    currentPeriodStart connection.policy.budget.interval connection.createdAt now
  let startSql ← i64TryFrom periodStartedAt .valueOutOfRange
  let used := (l.budgetPeriods.selectRow (samePeriod connection.id.value startSql)).map (·.usedSat)
  pure ⟨used.getD 0, periodStartedAt⟩

/-- The start of the period that contains `now`, in a budget granted at `createdAt`. -/
def BudgetInterval.periodStart (interval : BudgetInterval) (createdAt now : Nat) : Nat :=
  match interval.duration with
  | none => createdAt
  | some duration => Renewal.periodStart createdAt duration.asSecs now

section Formulas

variable {interval : BudgetInterval} {createdAt now later : Nat}

theorem BudgetInterval.asSecs_pos {duration : Duration} (h : interval.duration = some duration) :
    0 < duration.asSecs := by
  cases interval <;> cases h <;> decide

theorem BudgetInterval.le_periodStart : createdAt ≤ interval.periodStart createdAt now := by
  unfold BudgetInterval.periodStart
  split
  · exact Nat.le_refl _
  · exact Renewal.origin_le_periodStart

theorem BudgetInterval.periodStart_le (h : createdAt ≤ now) :
    interval.periodStart createdAt now ≤ now := by
  unfold BudgetInterval.periodStart
  split
  · exact h
  · exact Renewal.periodStart_le h

theorem BudgetInterval.lt_periodEnd {duration : Duration} (h : interval.duration = some duration) :
    now < interval.periodStart createdAt now + duration.asSecs := by
  simp only [BudgetInterval.periodStart, h]
  exact Renewal.lt_periodStart_add (BudgetInterval.asSecs_pos h)

theorem BudgetInterval.periodStart_mono (h : now ≤ later) :
    interval.periodStart createdAt now ≤ interval.periodStart createdAt later := by
  unfold BudgetInterval.periodStart
  split
  · exact Nat.le_refl _
  · exact Renewal.periodStart_mono h

/-- The seconds the payment ledger knows an interval by are those of its duration. -/
theorem intervalSeconds_intervalToStr (interval : BudgetInterval) :
    intervalSeconds (intervalToStr interval) = .ok (interval.duration.map Duration.asSecs) := by
  cases interval <;> decide

theorem strToInterval_eq_ok {value : String} (h : strToInterval value = .ok interval) :
    value = intervalToStr interval := by
  unfold strToInterval at h
  split_ifs at h <;> cases h <;> assumption

variable (hcreated : createdAt ≤ now) (hnow : now < 2 ^ 64)

include hcreated hnow

/-- Neither the product nor the sum leaves the range of its type. -/
private theorem periodStart_fits (length : Nat) :
    (now - createdAt) / length * length < 2 ^ 64 ∧
      createdAt + (now - createdAt) / length * length < 2 ^ 64 := by
  have hperiods : (now - createdAt) / length * length ≤ now - createdAt := Renewal.periods_le
  omega

theorem periodStart_eq (limitSat feeReserveSat : Nat) :
    Accounting.periodStart ⟨createdAt, limitSat, interval.duration.map Duration.asSecs,
      feeReserveSat⟩ now = .ok (interval.periodStart createdAt now) := by
  unfold Accounting.periodStart BudgetInterval.periodStart
  rw [if_neg (by simpa using hcreated)]
  cases interval.duration with
  | none => rfl
  | some duration =>
    obtain ⟨hproduct, hsum⟩ := periodStart_fits hcreated hnow duration.asSecs
    simp only [Option.map_some, bind_eq_ok, okOr_eq_ok, checkedMul_eq_some, checkedAdd_eq_some]
    exact ⟨_, ⟨hproduct, rfl⟩, hsum, rfl⟩

theorem importedBudgetPeriodStart_eq :
    importedBudgetPeriodStart interval createdAt now = .ok (interval.periodStart createdAt now) := by
  unfold importedBudgetPeriodStart BudgetInterval.periodStart
  rw [if_neg (by simpa using hcreated)]
  cases interval.duration with
  | none => rfl
  | some duration =>
    obtain ⟨hproduct, hsum⟩ := periodStart_fits hcreated hnow duration.asSecs
    simp only [bind_eq_ok, okOr_eq_ok, checkedMul_eq_some, checkedAdd_eq_some]
    exact ⟨_, ⟨hproduct, rfl⟩, hsum, rfl⟩

theorem currentPeriodStart_eq :
    currentPeriodStart interval createdAt now = .ok (interval.periodStart createdAt now) := by
  unfold currentPeriodStart BudgetInterval.periodStart
  rw [if_neg (by simpa using hcreated)]
  cases interval.duration with
  | none => rfl
  | some duration =>
    obtain ⟨-, hsum⟩ := periodStart_fits hcreated hnow duration.asSecs
    simp only [okOr_eq_ok, checkedAdd_eq_some]
    exact ⟨hsum, rfl⟩

end Formulas

section Rows

variable {x : Crates} {l l' : Ledger} {connection : ActiveConnection} {now : UnixTimestamp}

/-- The row of a loaded connection carries its interval and time of creation. -/
theorem readsActive_budget (h : l.ReadsActive x connection) :
    ∃ row, ReadFrom l row connection ∧ row.createdAt = connection.createdAt ∧
      row.budgetInterval = intervalToStr connection.policy.budget.interval := by
  obtain ⟨row, hrow, hhydrate⟩ := readsActive_hydrates h
  refine ⟨row, hydrate_active hrow hhydrate, ?_⟩
  simp only [Ledger.hydrateStoredConnection, bind_eq_ok, ensure_eq_ok] at hhydrate
  obtain ⟨id, -, -, -, hhydrate⟩ := hhydrate
  cases hstatus : row.status with
  | tombstoned =>
    simp only [hstatus, bind_eq_ok, ensure_eq_ok, pure_eq_ok, reduceCtorEq, and_false,
      exists_false] at hhydrate
  | active =>
    simp only [hstatus, bind_eq_ok, ensure_eq_ok, pure_eq_ok] at hhydrate
    obtain ⟨-, -, c, hc, heq⟩ := hhydrate
    cases heq
    simp only [Ledger.hydrateActiveConnection, bind_eq_ok, ensure_eq_ok, pure_eq_ok] at hc
    obtain ⟨_, -, _, -, -, -, _, -, _, -, -, -, _, -, -, -, interval, hinterval, _, -, rfl⟩ := hc
    exact ⟨rfl, strToInterval_eq_ok hinterval⟩

/-- A connection is loaded from the row its payments are reserved under. -/
theorem authorizesPayment_row {row stored : ConnectionRow} (hread : ReadFrom l stored connection)
    (hrow : row ∈ l.connections)
    (hauthorizes : l.authorizesPayment connection connection.revision now row = true) :
    row = stored := by
  simp only [Ledger.authorizesPayment, Bool.and_eq_true, activeAt_eq_true] at hauthorizes
  apply Table.eq_of_key (connection_id_key connection.id.value) hrow hread.mem
  · simpa using hauthorizes.1.1.1
  · simpa using hread.connectionId.symm

/-- A reservation is debited to the period of its instant, under the connection it names. -/
theorem reservePayment_period {eventId : EventId} {hash : PaymentHash} {principalSat : Nat}
    {attempt : PaymentAttempt} (hread : l.ReadsActive x connection)
    (hcreated : connection.createdAt ≤ now)
    (h : l.reservePayment eventId hash connection principalSat now = .ok (.reserved attempt, l')) :
    attempt.periodStartedAt =
      connection.policy.budget.interval.periodStart connection.createdAt now := by
  simp only [Ledger.reservePayment, bind_eq_ok, ensure_eq_ok, Accounting.sqliteU64,
    i64TryFrom_eq_ok] at h
  obtain ⟨-, -, _, ⟨hnow, rfl⟩, _, ⟨-, rfl⟩, _, -, budget, hbudget, start, hstart, byEvent, -, h⟩ := h
  have hattempt : attempt.periodStartedAt = start := by
    cases byEvent with
    | some existing =>
      dsimp only at h
      split at h
      · cases h
      · cases h
    | none =>
      simp only [bind_eq_ok] at h
      obtain ⟨byHash, -, h⟩ := h
      cases byHash with
      | some existing => cases h
      | none =>
        simp only [Ledger.createReservation, bind_eq_ok, pure_eq_ok] at h
        obtain ⟨_, -, _, -, _, -, _, -, _, -, _, -, _, -, _, -, _, -, -, -, _, -, -, -, _, -, _, -,
          _, -, heq⟩ := h
        cases heq
        rfl
  simp only [Ledger.loadConnectionBudget, bind_eq_ok, okOr_eq_ok, pure_eq_ok] at hbudget
  obtain ⟨row, hrow, interval, hinterval, fee, -, rfl⟩ := hbudget
  obtain ⟨hmem, hauthorizes⟩ := Table.selectRow_mem hrow
  obtain ⟨stored, hstored, hsame, hstr⟩ := readsActive_budget hread
  rw [authorizesPayment_row hstored hmem hauthorizes, hstr, intervalSeconds_intervalToStr] at hinterval
  obtain rfl := Except.ok.inj hinterval
  rw [authorizesPayment_row hstored hmem hauthorizes, hsame,
    periodStart_eq hcreated (by unfold i64Max at hnow; omega)] at hstart
  rw [hattempt]
  exact (Except.ok.inj hstart).symm

/-- What the row of a period shows, if there is one. -/
def Ledger.usedIn (l : Ledger) (id : ConnectionId) (start : Nat) : Nat :=
  ((l.budgetPeriods.selectRow (samePeriod id.value start)).map (·.usedSat)).getD 0

theorem usedIn_eq {id : ConnectionId} {start : Nat} {period : BudgetPeriodRow}
    (hmem : period ∈ l.budgetPeriods) (hsame : samePeriod id.value start period = true) :
    l.usedIn id start = period.usedSat := by
  have hselected := (Table.selectRow_eq_some (samePeriod_key id.value start)).mpr ⟨hmem, hsame⟩
  simp [Ledger.usedIn, hselected]

/-- The displayed usage is that of the period of the instant, as long as a row can name it. -/
theorem currentBudgetUsage_eq (hcreated : connection.createdAt ≤ now) (hnow : now < 2 ^ 64) :
    l.currentBudgetUsage connection now =
      if storable (connection.policy.budget.interval.periodStart connection.createdAt now) then
        .ok ⟨l.usedIn connection.id
            (connection.policy.budget.interval.periodStart connection.createdAt now),
          connection.policy.budget.interval.periodStart connection.createdAt now⟩
      else .error .valueOutOfRange := by
  unfold Ledger.currentBudgetUsage
  rw [currentPeriodStart_eq hcreated hnow, ok_bind]
  by_cases hfits :
      storable (connection.policy.budget.interval.periodStart connection.createdAt now)
  · rw [if_pos hfits, i64TryFrom_eq_ok.mpr ⟨hfits, rfl⟩]
    rfl
  · rw [if_neg hfits, i64TryFrom_eq_error.mpr ⟨Nat.lt_of_not_le hfits, rfl⟩]
    rfl

/-- A reservation adds what it reserves to the usage of its period. -/
theorem Reserved.usedIn {row : PaymentAttemptRow} {limit : Nat} {id : ConnectionId}
    (h : Reserved l l' row limit) (hid : row.connectionId = id.value) :
    l'.usedIn id row.periodStartedAt = l.usedIn id row.periodStartedAt + row.contribution := by
  obtain ⟨opened, period, hperiod, openedAt, hopened, hsame, -, -, hupdate⟩ := h.exists_period
  rw [hid] at hopened hsame hupdate
  have hbefore : l.usedIn id row.periodStartedAt = period.usedSat := by
    rcases Table.insertOrIgnore_cases hopened with ⟨rfl, -⟩ | ⟨hnone, hinsert⟩
    · exact usedIn_eq hperiod hsame
    · have hnew := Table.eq_of_key (samePeriod_key _ _) hperiod (Table.insert_self hinsert) hsame
        (by simp [samePeriod])
      simp [Ledger.usedIn, Table.selectRow_eq_none.mpr hnone, hnew]
  rw [hbefore]
  exact usedIn_eq (Table.mem_update_of_pos hupdate hperiod hsame) hsame

theorem importConnection_active {c : NewConnection} {createdAt : UnixTimestamp} {used : Nat}
    {active : ActiveConnection} (h : l.importConnection c createdAt used now = .ok (active, l')) :
    active.id = c.id ∧ active.createdAt = createdAt ∧ active.policy = c.policy := by
  simp only [Ledger.importConnection, Ledger.insertConnectionState, bind_eq_ok, pure_eq_ok] at h
  obtain ⟨-, -, _, -, _, -, -, -, _, -, _, -, _, -, -, -, _, -, _, -, _, -, _, -, _, -, _, -, heq⟩ := h
  obtain ⟨rfl, -⟩ := Prod.mk.inj heq
  exact ⟨rfl, rfl, rfl⟩

/-- Imported usage stands in the row of the instant of the import. -/
theorem importConnection_usedIn {c : NewConnection} {createdAt : UnixTimestamp} {used : Nat}
    {active : ActiveConnection} (hcreated : createdAt ≤ now) (hnow : now < 2 ^ 64) (hused : 0 < used)
    (h : l.importConnection c createdAt used now = .ok (active, l')) :
    storable (c.policy.budget.interval.periodStart createdAt now) ∧
      l'.usedIn c.id (c.policy.budget.interval.periodStart createdAt now) = used := by
  obtain ⟨-, -, row, hinserted⟩ := importConnection_ok h
  rcases hinserted.periods with ⟨hzero, -⟩ | ⟨-, start, openedAt, hstart, hinsert⟩
  · omega
  · rw [importedBudgetPeriodStart_eq hcreated hnow] at hstart
    obtain rfl := Except.ok.inj hstart
    have hmem := Table.insert_self hinsert
    have hvalid := budgetPeriod_valid hmem
    exact ⟨hvalid.1, usedIn_eq hmem (by simp [samePeriod])⟩

/-- For one interval and one time of creation the three formulas name one start for each
instant, without overflow: that of the period the instant lies in. So imported usage,
reservations and the displayed usage of an instant stand in the same row. -/
theorem one_budget_period (interval : BudgetInterval) {createdAt : Nat}
    (hcreated : createdAt ≤ now) (hnow : now < 2 ^ 64) :
    ∃ start, (∃ seconds, intervalSeconds (intervalToStr interval) = .ok seconds ∧
        ∀ limitSat feeReserveSat,
          Accounting.periodStart ⟨createdAt, limitSat, seconds, feeReserveSat⟩ now = .ok start) ∧
      importedBudgetPeriodStart interval createdAt now = .ok start ∧
      currentPeriodStart interval createdAt now = .ok start ∧
      createdAt ≤ start ∧ start ≤ now ∧
      (∀ duration, interval.duration = some duration → now < start + duration.asSecs ∧
        (now - createdAt) / duration.asSecs * duration.asSecs < 2 ^ 64) ∧
      (∀ later, now ≤ later → later < 2 ^ 64 → ∃ laterStart,
        currentPeriodStart interval createdAt later = .ok laterStart ∧ start ≤ laterStart) ∧
      (∀ (x : Crates) (l : Ledger) (connection : ActiveConnection), l.ReadsActive x connection →
        connection.createdAt = createdAt → connection.policy.budget.interval = interval →
        l.currentBudgetUsage connection now =
            (if storable start then .ok ⟨l.usedIn connection.id start, start⟩
              else .error .valueOutOfRange) ∧
          ∀ eventId hash principalSat attempt l',
            l.reservePayment eventId hash connection principalSat now =
                .ok (.reserved attempt, l') →
              attempt.periodStartedAt = start ∧ l'.currentBudgetUsage connection now =
                .ok ⟨l.usedIn connection.id start + attempt.reservedSat, start⟩) ∧
      ∀ (l l' : Ledger) (c : NewConnection) (used : Nat) (active : ActiveConnection),
        c.policy.budget.interval = interval → 0 < used →
        l.importConnection c createdAt used now = .ok (active, l') →
          l'.currentBudgetUsage active now = .ok ⟨used, start⟩ := by
  refine ⟨interval.periodStart createdAt now, ⟨_, intervalSeconds_intervalToStr interval,
    periodStart_eq hcreated hnow⟩, importedBudgetPeriodStart_eq hcreated hnow,
    currentPeriodStart_eq hcreated hnow, BudgetInterval.le_periodStart,
    BudgetInterval.periodStart_le hcreated, ?_, ?_, ?_, ?_⟩
  · intro duration hduration
    exact ⟨BudgetInterval.lt_periodEnd hduration, (periodStart_fits hcreated hnow _).1⟩
  · intro later hlater hfits
    exact ⟨_, currentPeriodStart_eq (hcreated.trans hlater) hfits,
      BudgetInterval.periodStart_mono hlater⟩
  · rintro x l connection hread rfl rfl
    refine ⟨currentBudgetUsage_eq hcreated hnow, ?_⟩
    intro eventId hash principalSat attempt l' hreserve
    have hperiod := reservePayment_period hread hcreated hreserve
    refine ⟨hperiod, ?_⟩
    obtain ⟨_, -, -, ⟨_, _, heq, -⟩ | ⟨_, _, heq, -⟩ | ⟨a, row, fee, heq, hstored, -, hfor,
      hreserved, -⟩⟩ := reservePayment_ok hreserve
    · cases heq
    · cases heq
    · cases heq
      have hstart := hstored.periodStartedAt
      rw [hperiod] at hstart
      have hfits : storable row.periodStartedAt := (paymentAttempt_valid hstored.mem).2.1
      have hused := hreserved.usedIn hfor.connectionId
      rw [← hstart] at hfits hused
      rw [currentBudgetUsage_eq hcreated hnow, if_pos hfits, hused, hstored.reservedSat,
        unresolved_contribution (Or.inl hreserved.state)]
  · rintro l l' c used active rfl hused himport
    obtain ⟨hid, hsame, hpolicy⟩ := importConnection_active himport
    obtain ⟨hfits, hrow⟩ := importConnection_usedIn hcreated hnow hused himport
    rw [currentBudgetUsage_eq (by rwa [hsame]) hnow, hid, hsame, hpolicy, if_pos hfits, hrow]

theorem one_budget_period_hourly :
    importedBudgetPeriodStart .hourly 1000 9000 = .ok 8200 ∧
      currentPeriodStart .hourly 1000 9000 = .ok 8200 := by
  have hperiod := one_budget_period .hourly (show 1000 ≤ 9000 by decide) (by decide)
  obtain ⟨start, -, himported, hdisplayed, -⟩ := hperiod
  have hstart : importedBudgetPeriodStart .hourly 1000 9000 = .ok 8200 := by decide
  rw [himported] at hstart
  obtain rfl := Except.ok.inj hstart
  exact ⟨himported, hdisplayed⟩

end Rows

end NwcMobile
