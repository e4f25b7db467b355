import NwcMobile.Ledger.Budget

/-!
Budget limits over whole runs. A period's usage passes its limit only through
what the wallet reports afterwards: a settlement above the reservation, or a
settlement of a payment it had reported as failed.
-/

namespace NwcMobile

open Fallible Relational Transition Accounting

/-- No period records more than its limit. -/
def WithinLimits (l : Ledger) : Prop :=
  ∀ period ∈ l.budgetPeriods, period.usedSat ≤ period.limitSat

/-- Some attempt of the period settled for more than was reserved for it. -/
def Overcharged (l : Ledger) (connectionId : String) (start : Nat) : Prop :=
  ∃ row ∈ l.paymentAttempts, inPeriod connectionId start row = true ∧ row.state = .succeeded ∧
    ∃ charged, row.chargedSat = some charged ∧ row.principalSat + row.feeReserveSat < charged

/-- Some step charged an attempt of the period after its definitive failure. -/
def RevisedFailure (history : LedgerHistory) (connectionId : String) (start : Nat) : Prop :=
  ∃ event ∈ history, ∃ row ∈ event.before.paymentAttempts, ∃ row' ∈ event.after.paymentAttempts,
    row'.paymentHash = row.paymentHash ∧ inPeriod connectionId start row = true ∧
      row.state = .failed ∧ row'.state = .succeeded

/-- A settlement report within what was reserved, for a payment the wallet has
not reported as failed. -/
def HonestSettlement (event : Event Ledger LedgerCall) : Prop :=
  ∀ hash principal fee now a,
    event.label = ⟨.payment (.markPaymentSucceeded hash principal fee now), .ok a⟩ →
    ∀ row ∈ event.before.paymentAttempts, row.paymentHash = hash →
      row.state ≠ .failed ∧ principal ≤ 1000 * row.principalSat ∧
        (feesCount event.before row.connectionId = true → fee ≤ 1000 * row.feeReserveSat)

section Limits

variable {l l' : Ledger} {row row' : PaymentAttemptRow} {a : PaymentAttempt} {limit : Nat}

/-- Only a settlement can make an attempt stand for more. -/
theorem PaymentAttemptRow.Moves.contribution_le (h : row.Moves row')
    (hstate : row'.state ≠ .succeeded) : row'.contribution ≤ row.contribution := by
  cases h with
  | initiated hreserved _ _ => simp [PaymentAttemptRow.contribution, hreserved]
  | pending hreserved _ _ => simp [PaymentAttemptRow.contribution, hreserved]
  | failed _ _ _ => simp [PaymentAttemptRow.contribution]
  | succeeded _ _ _ => exact absurd rfl hstate

/-- Every period after a payment step was there before, was opened empty, or is
the one the step wrote. -/
theorem Reserved.period_cases (h : Reserved l l' row limit) {period' : BudgetPeriodRow}
    (hperiod' : period' ∈ l'.budgetPeriods) :
    period' ∈ l.budgetPeriods ∨ period'.usedSat ≤ period'.limitSat := by
  obtain ⟨opened, period, hmem, now, hopened, -, hlimit, hbound, hdebited⟩ := h.exists_period
  rcases (Table.mem_replace hdebited).mp hperiod' with ⟨hother, -⟩ | ⟨rfl, -⟩
  · rcases Table.insertOrIgnore_cases hopened with ⟨rfl, -⟩ | ⟨-, hinsert⟩
    · exact Or.inl hother
    · rcases (Table.mem_insert hinsert).mp hother with hold | rfl
      · exact Or.inl hold
      · exact Or.inr (Nat.zero_le _)
  · exact Or.inr (by simpa [hlimit] using hbound)

theorem WithinLimits.adjusted (h : WithinLimits l) {connectionId : String} {start old new : Nat}
    (hperiods : PeriodAdjusted l.budgetPeriods l'.budgetPeriods connectionId start old new)
    (hle : new ≤ old) : WithinLimits l' := by
  intro period' hperiod'
  rcases hperiods.cases hperiod' with ⟨hmem, -⟩ | ⟨period, hmem, -, hold, -, -, hlimit, hused⟩
  · exact h period' hmem
  · have hbound := h period hmem
    omega

theorem WithinLimits.moved (h : WithinLimits l) (hmoved : Moved l l' row row' a)
    (hle : row'.contribution ≤ row.contribution) : WithinLimits l' := by
  rcases hmoved.periods with ⟨hperiods, -⟩ | hperiods
  · intro period hperiod
    exact h period (hperiods ▸ hperiod)
  · exact h.adjusted hperiods hle

theorem WithinLimits.reserved (h : WithinLimits l) (hreserved : Reserved l l' row limit) :
    WithinLimits l' := by
  intro period hperiod
  rcases hreserved.period_cases hperiod with hold | hnew
  · exact h period hold
  · exact hnew

theorem WithinLimits.importing (h : WithinLimits l) {connectionId : String} {used : Nat}
    {start : Except RegistryError Nat}
    (hperiods : ImportedPeriod l.budgetPeriods l'.budgetPeriods connectionId limit used start)
    (hused : used ≤ limit) : WithinLimits l' := by
  intro period hperiod
  rcases hperiods with ⟨-, hsame⟩ | ⟨-, startedAt, now, -, hinsert⟩
  · exact h period (hsame ▸ hperiod)
  · rcases (Table.mem_insert hinsert).mp hperiod with hold | rfl
    · exact h period hold
    · exact hused

theorem Overcharged.persists {connectionId : String} {start : Nat}
    (h : Overcharged l connectionId start) (heffect : PaymentEffect l l') :
    Overcharged l' connectionId start := by
  obtain ⟨row, hrow, hin, hstate, charged, hcharged, hover⟩ := h
  obtain ⟨row', hrow', heq⟩ := heffect.succeeded_persists hrow hstate
  rw [heq] at hrow'
  exact ⟨_, hrow', hin, hstate, charged, hcharged, hover⟩

end Limits

/-- A period is within its limit, or one of the two excuses applies to it. -/
def WithinOrExcused (history : LedgerHistory) (l : Ledger) : Prop :=
  ∀ period ∈ l.budgetPeriods, period.usedSat ≤ period.limitSat ∨
    Overcharged l period.connectionId period.periodStartedAt ∨
    RevisedFailure history period.connectionId period.periodStartedAt

section Oversubscription

variable {x : Crates} {history : LedgerHistory} {l l' : Ledger} {call : LedgerCall}

theorem RevisedFailure.mono {connectionId : String} {start : Nat}
    (h : RevisedFailure history connectionId start) (event : Event Ledger LedgerCall) :
    RevisedFailure (event :: history) connectionId start := by
  obtain ⟨earlier, hmem, hrest⟩ := h
  exact ⟨earlier, List.mem_cons_of_mem _ hmem, hrest⟩

/-- A move that makes the attempt stand for more is itself one of the excuses. -/
theorem excuse_of_increase {row row' : PaymentAttemptRow} {a : PaymentAttempt}
    (hmoved : Moved l l' row row' a) (hmore : row.contribution < row'.contribution) :
    Overcharged l' row.connectionId row.periodStartedAt ∨
      RevisedFailure (⟨l, call, l'⟩ :: history) row.connectionId row.periodStartedAt := by
  have hafter : row' ∈ l'.paymentAttempts := hmoved.stored.mem
  have hin : inPeriod row.connectionId row.periodStartedAt row = true := by simp [inPeriod]
  have hin' : inPeriod row.connectionId row.periodStartedAt row' = true := by
    rw [inPeriod_eq_true]
    exact ⟨hmoved.move.connectionId, hmoved.move.periodStartedAt⟩
  have hsucceeded : row'.state = .succeeded := by
    by_contra hne
    have := hmoved.move.contribution_le hne
    omega
  by_cases hfailed : row.state = .failed
  · exact Or.inr ⟨_, List.mem_cons_self, row, hmoved.mem, row', hafter, hmoved.move.paymentHash,
      hin, hfailed, hsucceeded⟩
  · left
    refine ⟨row', hafter, hin', hsucceeded, ?_⟩
    have hstate := hmoved.move.state_ne
    have hold : row.contribution = row.principalSat + row.feeReserveSat := by
      apply unresolved_contribution
      cases hs : row.state <;> simp_all
    have hmove := hmoved.move
    cases hmove with
    | initiated hreserved _ _ => simp [hreserved] at hsucceeded
    | pending hreserved _ _ => simp at hsucceeded
    | failed _ _ _ => simp at hsucceeded
    | @succeeded now principal fee charged exceeded _ _ _ =>
      refine ⟨charged, rfl, ?_⟩
      rw [hold] at hmore
      simpa [PaymentAttemptRow.contribution] using hmore

theorem WithinOrExcused.step (h : WithinOrExcused history l) (hstep : LedgerStep x l call l') :
    WithinOrExcused (⟨l, call, l'⟩ :: history) l' := by
  rcases hstep.payments with heffect | ⟨hattempts, hperiods | ⟨c, createdAt, used, now, row, hrow,
    hused⟩⟩
  · -- What held of a period before still holds of its row after.
    have hkeep : ∀ period ∈ l.budgetPeriods, ∀ period' : BudgetPeriodRow,
        period'.connectionId = period.connectionId →
        period'.periodStartedAt = period.periodStartedAt → period'.limitSat = period.limitSat →
        period'.usedSat ≤ period.usedSat →
        period'.usedSat ≤ period'.limitSat ∨
          Overcharged l' period'.connectionId period'.periodStartedAt ∨
          RevisedFailure (⟨l, call, l'⟩ :: history) period'.connectionId
            period'.periodStartedAt := by
      intro period hperiod period' hid hstart hlimit hle
      rw [hid, hstart, hlimit]
      rcases h period hperiod with hbound | hover | hrevised
      · exact Or.inl (hle.trans hbound)
      · exact Or.inr (Or.inl (hover.persists heffect))
      · exact Or.inr (Or.inr (hrevised.mono _))
    cases heffect with
    | unchanged heq =>
      intro period hperiod
      exact hkeep period (heq ▸ hperiod) period rfl rfl rfl le_rfl
    | reserved hreserved _ =>
      intro period hperiod
      rcases hreserved.period_cases hperiod with hold | hnew
      · exact hkeep period hold period rfl rfl rfl le_rfl
      · exact Or.inl hnew
    | @moved row row' a hmoved =>
      intro period' hperiod'
      rcases hmoved.periods with ⟨hperiods, -⟩ | hperiods
      · exact hkeep period' (hperiods ▸ hperiod') period' rfl rfl rfl le_rfl
      · rcases hperiods.cases hperiod' with
          ⟨hmem, -⟩ | ⟨period, hmem, hsame, hold, hid, hstart, hlimit, hused⟩
        · exact hkeep period' hmem period' rfl rfl rfl le_rfl
        · by_cases hmore : row.contribution < row'.contribution
          · obtain ⟨hcid, hcstart⟩ := samePeriod_eq_true.mp hsame
            rw [hid, hstart, hcid, hcstart]
            exact Or.inr (excuse_of_increase hmoved hmore)
          · exact hkeep period hmem period' hid hstart hlimit (by omega)
    | released _ _ _ _ hperiods _ =>
      intro period' hperiod'
      rcases hperiods.cases hperiod' with
        ⟨hmem, -⟩ | ⟨period, hmem, -, hold, hid, hstart, hlimit, hused⟩
      · exact hkeep period' hmem period' rfl rfl rfl le_rfl
      · exact hkeep period hmem period' hid hstart hlimit (by omega)
    | requeued _ hframe =>
      intro period hperiod
      exact hkeep period (by rw [hframe] at hperiod; exact hperiod) period rfl rfl rfl le_rfl
  · intro period hperiod
    rw [hperiods] at hperiod
    rcases h period hperiod with hbound | ⟨row, hrow, hover⟩ | hrevised
    · exact Or.inl hbound
    · exact Or.inr (Or.inl ⟨row, hattempts ▸ hrow, hover⟩)
    · exact Or.inr (Or.inr (hrevised.mono _))
  · intro period hperiod
    have hcases : period ∈ l.budgetPeriods ∨ period.usedSat ≤ period.limitSat := by
      rcases hrow.periods with ⟨-, hsame⟩ | ⟨-, startedAt, now, -, hinsert⟩
      · exact Or.inl (hsame ▸ hperiod)
      · rcases (Table.mem_insert hinsert).mp hperiod with hold | rfl
        · exact Or.inl hold
        · exact Or.inr hused
    rcases hcases with hold | hnew
    · rcases h period hold with hbound | ⟨row, hrow', hover⟩ | hrevised
      · exact Or.inl hbound
      · exact Or.inr (Or.inl ⟨row, hattempts ▸ hrow', hover⟩)
      · exact Or.inr (Or.inr (hrevised.mono _))
    · exact Or.inl hnew

/-- An honest settlement replaces a reservation by at most as much. -/
theorem settlement_le {row row' : PaymentAttemptRow} {a : PaymentAttempt} {principal fee : Nat}
    (hmoved : Moved l l' row row' a) (hfailed : row.state ≠ .failed)
    (hsucceeded : row'.state = .succeeded)
    (hcharged : row'.chargedSat = some (chargedFor l row.connectionId
      ((principal + 999) / 1000) ((fee + 999) / 1000)))
    (hprincipal : principal ≤ 1000 * row.principalSat)
    (hfee : feesCount l row.connectionId = true → fee ≤ 1000 * row.feeReserveSat) :
    row'.contribution ≤ row.contribution := by
  have hstate := hmoved.move.state_ne
  have hold : row.contribution = row.principalSat + row.feeReserveSat := by
    apply unresolved_contribution
    cases hs : row.state <;> simp_all
  have hnew : row'.contribution = chargedFor l row.connectionId
      ((principal + 999) / 1000) ((fee + 999) / 1000) := by
    simp [PaymentAttemptRow.contribution, hsucceeded, hcharged]
  rw [hold, hnew]
  unfold chargedFor
  split
  · rename_i hcount
    have := hfee hcount
    omega
  · omega

theorem WithinLimits.congr (h : WithinLimits l) (hperiods : l'.budgetPeriods = l.budgetPeriods) :
    WithinLimits l' :=
  fun period hperiod => h period (hperiods ▸ hperiod)

theorem WithinLimits.payment {op : PaymentOp} {value : op.Value} (h : WithinLimits l)
    (hhonest : HonestSettlement ⟨l, ⟨.payment op, .ok value⟩, l'⟩)
    (hrun : op.run l = .ok (value, l')) : WithinLimits l' := by
  cases op with
  | loadPaymentAttemptByEvent e => exact (reading_eq_ok.mp hrun).2 ▸ h
  | loadPaymentAttempt hash => exact (reading_eq_ok.mp hrun).2 ▸ h
  | reservePayment e hash connection principal now =>
    obtain ⟨c, -, -, ⟨_, _, -, rfl, -⟩ | ⟨_, _, -, rfl, -⟩ | ⟨_, row, _, -, -, -, -, hreserved,
      -⟩⟩ := reservePayment_ok hrun
    · exact h
    · exact h
    · exact h.reserved hreserved
  | markPaymentInitiated hash now =>
    obtain ⟨rfl, -⟩ | ⟨row, -, hreserved, -, hmoved⟩ := markPaymentInitiated_ok hrun
    · exact h
    · exact h.moved hmoved (hmoved.move.contribution_le (by simp [hreserved]))
  | releaseUninitiatedPayment hash now =>
    obtain ⟨row, -, -, -, -, -, hperiods, -⟩ := releaseUninitiatedPayment_ok hrun
    exact h.adjusted hperiods (Nat.zero_le _)
  | markPaymentPending hash now =>
    obtain ⟨rfl, -⟩ | ⟨row, row', -, hstate, hmoved⟩ := markPaymentPending_ok hrun
    · exact h
    · exact h.moved hmoved (hmoved.move.contribution_le (by simp [hstate]))
  | markPaymentFailed hash now =>
    obtain ⟨rfl, -⟩ | ⟨row, row', -, hstate, hmoved⟩ := markPaymentFailed_ok hrun
    · exact h
    · exact h.moved hmoved (hmoved.move.contribution_le (by simp [hstate]))
  | markPaymentSucceeded hash principal fee now =>
    obtain ⟨rfl, -⟩ | ⟨row, row', hhash, hsucceeded, hcharged, hmoved⟩ :=
      markPaymentSucceeded_ok hrun
    · exact h
    · obtain ⟨hfailed, hprincipal, hfee⟩ :=
        hhonest hash principal fee now value rfl row hmoved.mem hhash
      exact h.moved hmoved
        (settlement_le hmoved hfailed hsucceeded hcharged hprincipal hfee)
  | loadUnresolvedPaymentAttempts limit =>
    obtain ⟨-, hframe, -⟩ := loadUnresolvedPaymentAttempts_ok hrun
    exact h.congr (by rw [hframe])

theorem WithinLimits.step (h : WithinLimits l) (hstep : LedgerStep x l call l')
    (hhonest : HonestSettlement ⟨l, call, l'⟩) : WithinLimits l' := by
  obtain ⟨op, reply⟩ := call
  cases reply with
  | error e => exact hstep.eq_of_error ▸ h
  | ok value =>
    obtain ⟨random, hrun⟩ := hstep.run_of_ok
    cases op with
    | payment op => exact h.payment hhonest hrun
    | claim op =>
      have hframe := claimOp_frame hrun
      exact h.congr (by rw [hframe])
    | record op =>
      have hframe := recordOp_frame hrun
      exact h.congr (by rw [hframe])
    | registration op =>
      have hframe := registrationOp_frame hrun
      exact h.congr (by rw [hframe])
    | registry op =>
      rcases registryOp_effect hrun with rfl | ⟨c, createdAt, used, now, row, hrow, hused⟩ |
        ⟨id, row, row', htombstoned⟩
      · exact h
      · exact h.importing hrow.periods hused
      · exact h.congr htombstoned.periods

theorem withinLimits_run (hrun : LedgerRun x .empty history l)
    (hhonest : ∀ event ∈ history, HonestSettlement event) : WithinLimits l := by
  induction hrun with
  | refl => exact fun period hperiod => absurd hperiod (Table.not_mem_empty period)
  | tail _ hstep ih =>
    have hpast := ih fun event hevent => hhonest event (List.mem_cons_of_mem _ hevent)
    exact hpast.step hstep (hhonest _ List.mem_cons_self)

/-- A reservation that was granted left its period within its limit. -/
theorem reserved_within {e : EventId} {hash : PaymentHash} {connection : ActiveConnection}
    {principal : Nat} {now : UnixTimestamp} {a : PaymentAttempt}
    (hstep : LedgerStep x l ⟨.payment (.reservePayment e hash connection principal now),
      .ok (.reserved a)⟩ l') :
    ∃ period ∈ l'.budgetPeriods, samePeriod a.connectionId.value a.periodStartedAt period = true ∧
      period.usedSat ≤ period.limitSat := by
  obtain ⟨random, hrun⟩ := hstep.run_of_ok
  obtain ⟨c, -, -, ⟨_, _, hout, -⟩ | ⟨_, _, hout, -⟩ | ⟨a', row, _, hout, hstored, -, -, hreserved,
    -⟩⟩ := reservePayment_ok hrun
  · cases hout
  · cases hout
  · cases hout
    obtain ⟨opened, period, hmem, at', -, hsame, hlimit, hbound, hdebited⟩ :=
      hreserved.exists_period
    rw [hstored.connectionId, hstored.periodStartedAt]
    refine ⟨_, (Table.mem_replace hdebited).mpr (Or.inr ⟨rfl, period, hmem, hsame⟩), hsame, ?_⟩
    simpa [hlimit] using hbound

end Oversubscription

/-- No budget oversubscription, for any interleaving of calls from a fresh
ledger. Every granted reservation leaves its period within its limit; a period
passes its limit only if one of its attempts was charged more than reserved or
charged after a definitive failure; and with an honest wallet what is charged
and still reserved, on top of what was imported, never passes the limit. -/
theorem no_oversubscription {x : Crates} {history : LedgerHistory} {l : Ledger}
    (hrun : LedgerRun x .empty history l) :
    (∀ event ∈ history, ∀ e hash connection principal now a,
      event.label = ⟨.payment (.reservePayment e hash connection principal now),
        .ok (.reserved a)⟩ →
      ∃ period ∈ event.after.budgetPeriods,
        samePeriod a.connectionId.value a.periodStartedAt period = true ∧
          period.usedSat ≤ period.limitSat) ∧
    (∀ period ∈ l.budgetPeriods, period.usedSat ≤ period.limitSat ∨
      Overcharged l period.connectionId period.periodStartedAt ∨
      RevisedFailure history period.connectionId period.periodStartedAt) ∧
    ((∀ event ∈ history, HonestSettlement event) → ∀ period ∈ l.budgetPeriods,
      importedUsage history period.connectionId period.periodStartedAt +
        l.periodDebits period.connectionId period.periodStartedAt ≤ period.limitSat) := by
  refine ⟨?_, ?_, ?_⟩
  · intro event hevent e hash connection principal now a hlabel
    have hstep := hrun.step_of_mem hevent
    rw [hlabel] at hstep
    exact reserved_within hstep
  · refine hrun.history_invariant (J := WithinOrExcused) ?_ ?_
    · exact fun period hperiod => absurd hperiod (Table.not_mem_empty period)
    · intro past a label b _ hpast hstep
      exact hpast.step hstep
  · intro hhonest period hperiod
    have hwithin := withinLimits_run hrun hhonest period hperiod
    have hused := (balanced_run hrun).used period hperiod
    omega

/-- The sample run settles within what it reserved. -/
theorem Sample.spent_honest : ∀ event ∈ Sample.spent.1, HonestSettlement event := by
  intro event hevent hash principal fee now a hlabel
  simp only [Sample.spent, Sample.spending, performAll, List.mem_cons, List.not_mem_nil,
    or_false] at hevent
  rcases hevent with rfl | rfl | rfl | rfl | rfl | rfl | rfl
  all_goals
    obtain ⟨hop, -⟩ := LedgerCall.mk.inj hlabel
    cases hop
  decide

theorem no_oversubscription_spent :
    (∀ period ∈ Sample.spent.2.budgetPeriods,
      importedUsage Sample.spent.1 period.connectionId period.periodStartedAt +
        Sample.spent.2.periodDebits period.connectionId period.periodStartedAt ≤
          period.limitSat) ∧
      Sample.spent.2.budgetPeriods.rows.map (·.limitSat) = [100] := by
  refine ⟨(no_oversubscription Sample.spent_run).2.2 Sample.spent_honest, ?_⟩
  decide

end NwcMobile
