import NwcMobile.Ledger.Attribution

/-!
When a transition of a payment attempt is refused because another transition came
first. Such a refusal depends on the stored row alone, so a caller that still finds
its row in a suitable state is never refused for this reason.
-/

namespace NwcMobile

open Fallible Relational Transition Accounting

/-- The errors that say the attempt is not where the caller believes it to be. -/
def PaymentAccountingError.conflicting : PaymentAccountingError → Bool
  | .reservationConflict | .terminalStateConflict => true
  | _ => false

/-- The outcome is no refusal of this kind. -/
abbrev NoConflict {α : Type} (outcome : Except PaymentAccountingError α) : Prop :=
  FailsOnly (fun e => e.conflicting = false) outcome

section Checks

variable {α : Type} {e : PaymentAccountingError}

theorem noConflict_ensure {condition : Bool} (h : condition = true ∨ e.conflicting = false) :
    NoConflict (ensure condition e) := by
  apply failsOnly_ensure
  intro hcondition
  rcases h with htrue | hharmless
  · rw [htrue] at hcondition
    cases hcondition
  · exact hharmless

theorem noConflict_okOr {value : Option α} (h : e.conflicting = false) :
    NoConflict (okOr value e) := failsOnly_okOr fun _ => h

theorem noConflict_sqliteU64 {value : Nat} : NoConflict (sqliteU64 value) := by
  intro e herror
  obtain ⟨-, rfl⟩ := i64TryFrom_eq_error.mp herror
  rfl

theorem noConflict_validateUpdateTime {attempt : PaymentAttempt} {now : UnixTimestamp} :
    NoConflict (validateUpdateTime attempt now) := noConflict_ensure (Or.inr rfl)

theorem noConflict_msatToSatCeil {amount : AmountMsat} : NoConflict (msatToSatCeil amount) :=
  (noConflict_okOr rfl).bind fun _ _ => failsOnly_ok

theorem noConflict_chargedAmount {countFees : Bool} {principal fee : Nat} :
    NoConflict (chargedAmount countFees principal fee) := by
  unfold chargedAmount
  split
  · exact noConflict_okOr rfl
  · exact failsOnly_ok

theorem noConflict_hydrateAttempt (row : PaymentAttemptRow) : NoConflict (hydrateAttempt row) := by
  have hcheck : ∀ condition, NoConflict (ensure condition PaymentAccountingError.corruptData) :=
    fun _ => noConflict_ensure (Or.inr rfl)
  have hid : NoConflict (mapErr (ConnectionId.parse row.connectionId)
      PaymentAccountingError.corruptData) := failsOnly_mapErr rfl
  exact hid.bind fun _ _ => (hcheck _).bind fun _ _ => (hcheck _).bind fun _ _ =>
    (hcheck _).bind fun _ _ => failsOnly_ok

end Checks

theorem Ledger.stage_eq_reserved {l : Ledger} {hash : PaymentHash} :
    l.stage hash = .reserved ↔ ∃ row ∈ l.paymentAttempts, row.paymentHash = hash ∧
      row.state = .reserved ∧ row.initiatedAt = none := by
  unfold Ledger.stage
  constructor
  · intro h
    split at h
    · cases h
    · rename_i row hrow
      obtain ⟨hmem, hhash⟩ := attemptOf_eq_some.mp hrow
      refine ⟨row, hmem, hhash, ?_⟩
      unfold PaymentAttemptRow.stage at h
      split at h
      · split at h
        · cases h
        · rename_i hstate hfresh
          exact ⟨hstate, by simpa using hfresh⟩
      · cases h
      · cases h
      · cases h
  · rintro ⟨row, hrow, rfl, hstate, hfresh⟩
    rw [attemptOf_of_mem hrow]
    simp [PaymentAttemptRow.stage, hstate, hfresh]

theorem Ledger.stage_of_succeeded {l : Ledger} {row : PaymentAttemptRow}
    (hrow : row ∈ l.paymentAttempts) (hstate : row.state = .succeeded) :
    l.stage row.paymentHash = .succeeded := by
  rw [Ledger.stage, attemptOf_of_mem hrow]
  simp [PaymentAttemptRow.stage, hstate]

section Operations

variable {l : Ledger} {row : PaymentAttemptRow} {hash : PaymentHash} {now : UnixTimestamp}

/-- Selecting a batch for reconciliation is never refused so. -/
theorem noConflict_loadUnresolved {limit : Nat} :
    NoConflict (l.loadUnresolvedPaymentAttempts limit) := by
  have hrestart : ∀ wraps, NoConflict (l.restartSequence wraps) := by
    intro wraps
    unfold Ledger.restartSequence
    split
    · exact noConflict_okOr rfl
    · exact failsOnly_ok
  have hresequence : ∀ maximum attempts table,
      NoConflict (Ledger.resequence maximum attempts table) := by
    intro maximum attempts table
    apply failsOnly_foldlM
    intro table entry
    exact (noConflict_okOr rfl).bind fun _ _ => noConflict_okOr rfl
  exact (noConflict_okOr rfl).bind fun _ _ => noConflict_sqliteU64.bind fun _ _ =>
    noConflict_sqliteU64.bind fun _ _ => (hrestart _).bind fun _ _ =>
      (failsOnly_mapM fun row _ => noConflict_hydrateAttempt row).bind fun _ _ =>
        (hresequence _ _ _).bind fun _ _ => failsOnly_ok

/-- A batch holds only attempts that are unresolved and not ambiguous. -/
theorem loaded_unresolved {l' : Ledger} {limit : Nat} {batch : List PaymentAttempt × Bool}
    (h : l.loadUnresolvedPaymentAttempts limit = .ok (batch, l')) : ∀ attempt ∈ batch.1,
      (attempt.state = .reserved ∨ attempt.state = .pending) ∧
        attempt.legacyInitiationAmbiguous = false := by
  intro attempt hattempt
  simp only [Ledger.loadUnresolvedPaymentAttempts, bind_eq_ok, pure_eq_ok] at h
  obtain ⟨_, -, _, -, _, -, table, -, fetched, hfetched, final, -, heq⟩ := h
  obtain ⟨rfl, -⟩ := Prod.mk.inj heq
  obtain ⟨row, hrow, hvalue⟩ := mem_of_mapM hfetched attempt (List.mem_of_mem_take hattempt)
  have hselected := List.mem_of_mem_take hrow
  rw [List.mem_insertionSort, Table.mem_select] at hselected
  obtain ⟨hmem, hreconcilable⟩ := hselected
  have hvalid : row.Valid := by simpa [paymentAttemptSchema] using Table.check_of_mem hmem
  have hsame := ((hydrateAttempt_eq_ok hvalid).mp hvalue).2
  rw [hsame]
  simpa [isReconcilable, isUnresolved, PaymentAttemptRow.toAttempt] using hreconcilable

theorem noConflict_requireAttempt (hrow : row ∈ l.paymentAttempts) (hhash : row.paymentHash = hash) :
    NoConflict (l.requireAttempt hash) := by
  refine (failsOnly_option fun row _ => noConflict_hydrateAttempt row).bind fun found hfound => ?_
  apply failsOnly_okOr
  rintro rfl
  exact absurd hhash (loadAttemptByHash_eq_none.mp hfound row hrow)

/-- The attempt a transition works on is the value of the row. -/
theorem stored_of_requireAttempt {attempt : PaymentAttempt} (hrow : row ∈ l.paymentAttempts)
    (hhash : row.paymentHash = hash) (h : l.requireAttempt hash = .ok attempt) :
    l.Stored row attempt := by
  obtain ⟨row', hstored, hhash'⟩ := requireAttempt_eq_ok.mp h
  have hsame : row' = row := by
    apply Option.some.inj
    rw [← attemptOf_of_mem hrow, ← attemptOf_of_mem hstored.mem, hhash, hhash']
  rw [← hsame]
  exact hstored

theorem noConflict_adjustPeriodUsed {attempt : PaymentAttempt} {old new nowSql : Nat} :
    NoConflict (l.adjustPeriodUsed attempt old new nowSql) :=
  noConflict_sqliteU64.bind fun _ _ => (noConflict_okOr rfl).bind fun _ _ =>
    (noConflict_okOr rfl).bind fun _ _ => (noConflict_okOr rfl).bind fun _ _ =>
      noConflict_sqliteU64.bind fun _ _ => noConflict_okOr rfl

/-- A reservation that is still uninitiated can be released. -/
theorem noConflict_release (h : l.stage hash = .reserved) :
    NoConflict (l.releaseUninitiatedPayment hash now) := by
  obtain ⟨row, hrow, hhash, hstate, hfresh⟩ := Ledger.stage_eq_reserved.mp h
  refine noConflict_sqliteU64.bind fun _ _ =>
    (noConflict_requireAttempt hrow hhash).bind fun attempt hattempt => ?_
  have hstored := stored_of_requireAttempt hrow hhash hattempt
  have hkey : paymentAttemptSchema.Key fun r => r.paymentHash == hash &&
      (r.state == .reserved && r.initiatedAt.isNone) :=
    (paymentAttempt_hash_key hash).mono fun r hr => by
      simp only [Bool.and_eq_true] at hr
      exact hr.1
  refine noConflict_validateUpdateTime.bind fun _ _ => (noConflict_ensure (Or.inl ?_)).bind fun _ _ =>
    noConflict_adjustPeriodUsed.bind fun _ _ => (noConflict_ensure (Or.inl ?_)).bind fun _ _ => failsOnly_ok
  · simp [hstored.state, hstored.initiatedAt, hstate, hfresh]
  · rw [Table.count_eq_one hkey hrow (by simp [hhash, hstate, hfresh])]
    rfl

/-- An initiated attempt can be marked as failed unless it has settled. -/
theorem noConflict_failed (hrow : row ∈ l.paymentAttempts) (hhash : row.paymentHash = hash)
    (hinitiated : row.initiatedAt.isSome) (hstate : row.state ≠ .succeeded) :
    NoConflict (l.markPaymentFailed hash now) := by
  refine noConflict_sqliteU64.bind fun _ _ =>
    (noConflict_requireAttempt hrow hhash).bind fun attempt hattempt => ?_
  have hstored := stored_of_requireAttempt hrow hhash hattempt
  refine noConflict_validateUpdateTime.bind fun _ _ => (noConflict_ensure (Or.inl ?_)).bind fun _ _ => ?_
  · rw [PaymentAttempt.wasInitiated, hstored.initiatedAt]
    exact hinitiated
  · split
    · rename_i hsucceeded
      exact absurd (hstored.state.symm.trans hsucceeded) hstate
    · exact failsOnly_ok
    · exact noConflict_adjustPeriodUsed.bind fun _ _ =>
        (noConflict_okOr rfl).bind fun _ _ => failsOnly_ok
    · exact noConflict_adjustPeriodUsed.bind fun _ _ =>
        (noConflict_okOr rfl).bind fun _ _ => failsOnly_ok

theorem noConflict_settleAttempt {attempt : PaymentAttempt} {principal fee : Nat} :
    NoConflict (l.settleAttempt hash attempt principal fee now) :=
  noConflict_sqliteU64.bind fun _ _ => (noConflict_okOr rfl).bind fun _ _ =>
    noConflict_chargedAmount.bind fun _ _ => noConflict_adjustPeriodUsed.bind fun _ _ =>
      noConflict_sqliteU64.bind fun _ _ => (noConflict_okOr rfl).bind fun _ _ => failsOnly_ok

/-- An initiated attempt can be marked as succeeded unless it has settled for other amounts. -/
theorem noConflict_succeeded {amount fee : AmountMsat} (hrow : row ∈ l.paymentAttempts)
    (hhash : row.paymentHash = hash) (hinitiated : row.initiatedAt.isSome)
    (hsettled : row.state = .succeeded → ∃ principalSat feeSat,
      msatToSatCeil amount = .ok principalSat ∧ msatToSatCeil fee = .ok feeSat ∧
        row.actualPrincipalSat = some principalSat ∧ row.actualFeeSat = some feeSat) :
    NoConflict (l.markPaymentSucceeded hash amount fee now) := by
  refine noConflict_msatToSatCeil.bind fun principalSat hprincipal =>
    noConflict_msatToSatCeil.bind fun feeSat hfee => noConflict_sqliteU64.bind fun _ _ =>
      noConflict_sqliteU64.bind fun _ _ => noConflict_sqliteU64.bind fun _ _ =>
        (noConflict_requireAttempt hrow hhash).bind fun attempt hattempt => ?_
  have hstored := stored_of_requireAttempt hrow hhash hattempt
  refine noConflict_validateUpdateTime.bind fun _ _ => (noConflict_ensure (Or.inl ?_)).bind fun _ _ => ?_
  · rw [PaymentAttempt.wasInitiated, hstored.initiatedAt]
    exact hinitiated
  · split
    · rename_i hstate
      obtain ⟨principalSat', feeSat', hprincipal', hfee', hactual, hactualFee⟩ :=
        hsettled (hstored.state.symm.trans hstate)
      cases hprincipal.symm.trans hprincipal'
      cases hfee.symm.trans hfee'
      have hsame : attempt.actualPrincipalSat = some principalSat ∧
          attempt.actualFeeSat = some feeSat := by
        rw [hstored.value]
        exact ⟨hactual, hactualFee⟩
      rw [if_pos hsame]
      exact failsOnly_ok
    · exact noConflict_settleAttempt

end Operations

/-- The call settled the row for the amounts it now shows. -/
def SettledBy (call : LedgerCall) (row : PaymentAttemptRow) : Prop :=
  ∃ amount fee now a principalSat feeSat,
    call = ⟨.payment (.markPaymentSucceeded row.paymentHash amount fee now), .ok a⟩ ∧
      msatToSatCeil amount = .ok principalSat ∧ msatToSatCeil fee = .ok feeSat ∧
      row.actualPrincipalSat = some principalSat ∧ row.actualFeeSat = some feeSat

section Settlement

variable {x : Crates} {l l' : Ledger} {row : PaymentAttemptRow} {call : LedgerCall}
  {history : LedgerHistory}

theorem Moved.eq_of_hash {row₀ row' : PaymentAttemptRow} {a : PaymentAttempt}
    (h : Moved l l' row₀ row' a) (hrow : row ∈ l'.paymentAttempts)
    (hhash : row₀.paymentHash = row.paymentHash) : row = row' := by
  apply Option.some.inj
  rw [← attemptOf_of_mem hrow, ← attemptOf_of_mem h.stored.mem, h.move.paymentHash, hhash]

theorem SettledBy.congr {row₀ : PaymentAttemptRow} (h : SettledBy call row₀)
    (hhash : row.paymentHash = row₀.paymentHash) (hsame : SameSettlement row₀ row) :
    SettledBy call row := by
  obtain ⟨amount, fee, now, a, principalSat, feeSat, hcall, hprincipal, hfee, hactual, hactualFee⟩ := h
  refine ⟨amount, fee, now, a, principalSat, feeSat, ?_, hprincipal, hfee, ?_, ?_⟩
  · rw [hhash]
    exact hcall
  · rw [hsame.actualPrincipalSat]
    exact hactual
  · rw [hsame.actualFeeSat]
    exact hactualFee

/-- A settled row was settled before, for the same amounts, or is settled by this call. -/
theorem LedgerStep.settled (h : LedgerStep x l call l') (hrow : row ∈ l'.paymentAttempts)
    (hstate : row.state = .succeeded) :
    (∃ row₀ ∈ l.paymentAttempts, row.paymentHash = row₀.paymentHash ∧ row₀.state = .succeeded ∧
      SameSettlement row₀ row) ∨ SettledBy call row := by
  have hsame : l' = l → ∃ row₀ ∈ l.paymentAttempts, row.paymentHash = row₀.paymentHash ∧
      row₀.state = .succeeded ∧ SameSettlement row₀ row := by
    rintro rfl
    exact ⟨row, hrow, rfl, hstate, rfl, rfl, rfl, rfl, rfl⟩
  cases h.origin hrow with
  | @kept row₀ mem same state initiated =>
    left
    have hkept := h.attemptStep row.paymentHash
    rw [attemptOf_of_mem hrow, same.paymentHash, attemptOf_of_mem mem] at hkept
    obtain ⟨-, -, -, hsettlement⟩ := hkept.keeps
    rw [hstate] at state
    exact ⟨row₀, mem, same.paymentHash, state.symm, hsettlement state.symm⟩
  | initiated mem same state fresh call_eq => cases hstate.symm.trans state
  | reserved state fresh connectionId call_eq => cases hstate.symm.trans state
  | @accounted row₀ op value mem same started initiated call_eq hash =>
    subst call_eq
    obtain ⟨random, hop⟩ := h.run_of_ok
    cases op with
    | markPaymentPending hash' now =>
      cases hash
      rcases markPaymentPending_ok hop with ⟨hunchanged, -⟩ | ⟨row₁, row₂, hhash, hpending, hmoved⟩
      · exact Or.inl (hsame hunchanged)
      · rw [hmoved.eq_of_hash hrow hhash, hpending] at hstate
        cases hstate
    | markPaymentFailed hash' now =>
      cases hash
      rcases markPaymentFailed_ok hop with ⟨hunchanged, -⟩ | ⟨row₁, row₂, hhash, hfailed, hmoved⟩
      · exact Or.inl (hsame hunchanged)
      · rw [hmoved.eq_of_hash hrow hhash, hfailed] at hstate
        cases hstate
    | markPaymentSucceeded hash' amount fee now =>
      cases hash
      rcases markPaymentSucceeded_settles hop with ⟨hunchanged, -⟩ |
        ⟨row₁, row₂, principalSat, feeSat, hprincipal, hfee, hhash, hsettled, hmoved⟩
      · exact Or.inl (hsame hunchanged)
      · right
        obtain rfl := hmoved.eq_of_hash hrow hhash
        exact ⟨amount, fee, now, value, principalSat, feeSat, rfl, hprincipal, hfee,
          hsettled.actualPrincipalSat, hsettled.actualFeeSat⟩
    | _ => cases hash

/-- Over a run, a settled row was settled when the run began, or by one of its calls. -/
theorem settled_since (hrun : LedgerRun x l history l') (hrow : row ∈ l'.paymentAttempts)
    (hstate : row.state = .succeeded) :
    (∃ row₀ ∈ l.paymentAttempts, row.paymentHash = row₀.paymentHash ∧ row₀.state = .succeeded) ∨
      ∃ event ∈ history, SettledBy event.label row := by
  induction hrun generalizing row with
  | refl => exact Or.inl ⟨row, hrow, rfl, hstate⟩
  | tail _ hlast ih =>
    rcases hlast.settled hrow hstate with ⟨row₁, hrow₁, hhash, hstate₁, hsame⟩ | hsettled
    · rcases ih hrow₁ hstate₁ with ⟨row₀, hrow₀, hhash₀, hstate₀⟩ | ⟨event, hevent, hsettled⟩
      · exact Or.inl ⟨row₀, hrow₀, hhash.trans hhash₀, hstate₀⟩
      · exact Or.inr ⟨event, List.mem_cons_of_mem _ hevent, hsettled.congr hhash hsame⟩
    · exact Or.inr ⟨_, List.mem_cons_self, hsettled⟩

end Settlement

end NwcMobile
