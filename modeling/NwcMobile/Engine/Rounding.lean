import NwcMobile.Engine.Authorization
import NwcMobile.Engine.Footprint
import NwcMobile.Engine.Initiation

/-!
Whole satoshis. Quotes and settlements are in millisatoshis, budgets in satoshis:
the engine rounds a quote up before it reserves it, and the ledger rounds principal
and fee of a settlement up separately before it charges them.
-/

namespace NwcMobile

open Program Concurrent Transition Fallible Relational

/-- The wallet quoted the payment of `hash`, and its principal rounds up to `principalSat`. -/
def QuotedAs (log : HostLog) (hash : PaymentHash) (principalSat : Nat) : Prop :=
  ∃ invoice amount context quote,
    Answered log (.wallet (.quotePayment invoice amount) context) (.ok quote) ∧
      quote.paymentHash = hash ∧ msatToSatCeil quote.principal = some principalSat

/-- What is reserved was quoted. -/
def ReservesQuoted (log : HostLog) : HostOp → Prop
  | .ledger (.payment (.reservePayment _ hash _ principalSat _)) => QuotedAs log hash principalSat
  | _ => True

/-- What a settlement of `amount` and `fee` millisatoshis, accounted in `l` for the
attempt `row`, charges and reports. -/
structure SettlementRounds (l : Ledger) (row : PaymentAttemptRow) (amount fee : Nat)
    (a : PaymentAttempt) : Prop where
  charge : ∃ charged, a.chargedSat = some charged ∧
    if feesCount l row.connectionId then
      amount + fee ≤ 1000 * charged ∧ 1000 * charged < amount + fee + 2 * 1000
    else amount ≤ 1000 * charged ∧ 1000 * charged < amount + 1000
  exceeded : ∃ principalSat feeSat, msatToSatCeil amount = some principalSat ∧
    msatToSatCeil fee = some feeSat ∧ (a.authorizationExceeded = true ↔
      row.principalSat < principalSat ∨
        (feesCount l row.connectionId = true ∧ row.feeReserveSat < feeSat))
  honest : ∀ quoted, msatToSatCeil quoted = some row.principalSat → amount ≤ quoted →
    fee ≤ 1000 * row.feeReserveSat → a.authorizationExceeded = false ∧
      ∃ charged, a.chargedSat = some charged ∧ charged ≤ row.principalSat + row.feeReserveSat

section Amounts

variable {amount sats : Nat}

theorem msatToSatCeil_eq_some :
    msatToSatCeil amount = some sats ↔ amount + 999 < 2 ^ 64 ∧ sats = (amount + 999) / 1000 := by
  simp only [msatToSatCeil, Option.map_eq_some_iff, checkedAdd_eq_some]
  constructor
  · rintro ⟨_, ⟨hrange, rfl⟩, rfl⟩
    exact ⟨hrange, rfl⟩
  · rintro ⟨hrange, rfl⟩
    exact ⟨_, ⟨hrange, rfl⟩, rfl⟩

theorem msatToSatCeil_eq_none : msatToSatCeil amount = none ↔ 2 ^ 64 ≤ amount + 999 := by
  simp [msatToSatCeil, checkedAdd]

/-- The rounded amount covers the exact one, by less than one satoshi. -/
theorem msatToSatCeil_bounds (h : msatToSatCeil amount = some sats) :
    amount ≤ 1000 * sats ∧ 1000 * sats < amount + 1000 := by
  obtain ⟨-, rfl⟩ := msatToSatCeil_eq_some.mp h
  omega

/-- The ledger's rounding is the engine's. -/
theorem accounting_msatToSatCeil (amount : AmountMsat) :
    Accounting.msatToSatCeil amount = okOr (msatToSatCeil amount) .valueOutOfRange := by
  unfold Accounting.msatToSatCeil msatToSatCeil
  cases checkedAdd amount 999 <;> rfl

theorem accounting_msatToSatCeil_eq_ok :
    Accounting.msatToSatCeil amount = .ok sats ↔ msatToSatCeil amount = some sats := by
  rw [accounting_msatToSatCeil, okOr_eq_ok]

end Amounts

section Settlements

variable {l l' : Ledger} {row row' : PaymentAttemptRow} {a : PaymentAttempt}
  {hash : PaymentHash} {now : UnixTimestamp} {amount fee principalSat feeSat : Nat}

theorem SettledAs.rounds (h : SettledAs l row row' principalSat feeSat)
    (hstored : l'.Stored row' a) (hprincipal : msatToSatCeil amount = some principalSat)
    (hfee : msatToSatCeil fee = some feeSat) : SettlementRounds l row amount fee a := by
  have hcharged : a.chargedSat = some (chargedFor l row.connectionId principalSat feeSat) :=
    (congrArg PaymentAttempt.chargedSat hstored.value).trans h.chargedSat
  have hexceeded : a.authorizationExceeded = row'.authorizationExceeded :=
    congrArg PaymentAttempt.authorizationExceeded hstored.value
  have hprincipalBounds := msatToSatCeil_bounds hprincipal
  have hfeeBounds := msatToSatCeil_bounds hfee
  constructor
  · refine ⟨_, hcharged, ?_⟩
    unfold chargedFor
    split
    · omega
    · exact hprincipalBounds
  · refine ⟨principalSat, feeSat, hprincipal, hfee, ?_⟩
    rw [hexceeded]
    exact h.authorizationExceeded
  · intro quoted hquoted hamount hreserve
    have hquotedBounds := msatToSatCeil_bounds hquoted
    have hprincipalLe : principalSat ≤ row.principalSat := by omega
    have hfeeLe : feeSat ≤ row.feeReserveSat := by omega
    constructor
    · rw [hexceeded, ← Bool.not_eq_true, h.authorizationExceeded]
      omega
    · refine ⟨_, hcharged, ?_⟩
      unfold chargedFor
      split <;> omega

theorem settlement_rounds (h : l.markPaymentSucceeded hash amount fee now = .ok (a, l'))
    (hrow : row ∈ l.paymentAttempts) (hhash : row.paymentHash = hash) :
    (row.state = .succeeded → l' = l) ∧
      (row.state ≠ .succeeded → SettlementRounds l row amount fee a) := by
  have hsame : ∀ {other : PaymentAttemptRow}, other ∈ l.paymentAttempts →
      other.paymentHash = hash → other = row := fun hother hotherHash =>
    Table.eq_of_key (hasHash_key hash) hother hrow (by simp [hotherHash]) (by simp [hhash])
  obtain ⟨rfl, other, hstored, hother, hsucceeded⟩ | ⟨other, row', principalSat, feeSat, hprincipal,
    hfee, hother, hsettled, hmoved⟩ := markPaymentSucceeded_settles h
  · obtain rfl := hsame hstored.mem hother
    exact ⟨fun _ => rfl, fun hne => absurd hsucceeded hne⟩
  · obtain rfl := hsame hmoved.mem hother
    refine ⟨fun hsucceeded => absurd hsucceeded hmoved.move.state_ne, fun _ => ?_⟩
    exact hsettled.rounds hmoved.stored (accounting_msatToSatCeil_eq_ok.mp hprincipal)
      (accounting_msatToSatCeil_eq_ok.mp hfee)

end Settlements

section Reservations

variable {x : Crates} {log : HostLog} {r : ClaimedRequest} {hash : PaymentHash}
  {payment : Nip47.PayInvoiceRequest} {principalSat : Nat}

/-- Only a reservation has to be preceded by a quote. -/
theorem reservesQuoted_of_activity {op : HostOp} (h : op.activity ≠ .reserving) :
    ReservesQuoted log op := by
  unfold ReservesQuoted
  split
  · exact absurd rfl h
  · trivial

theorem Within.reservesQuoted {α : Type} {K : Activity → Bool} {p : HostProg α}
    (h : Within K log p) (hK : K .reserving = false) :
    Spec ReservesQuoted log p fun _ _ => True := by
  refine h.guard_imp fun log op hop => reservesQuoted_of_activity fun heq => ?_
  rw [heq, hK] at hop
  cases hop

theorem reservesQuoted_reserveQuoted
    (h : ∀ now, QuotedAs (⟨.clockNow, now⟩ :: log) hash principalSat) :
    Spec ReservesQuoted log (reserveQuoted x r payment hash principalSat) fun _ _ => True := by
  refine ⟨trivial, fun now => ⟨h now, fun reservation => ?_⟩⟩
  match reservation with
  | .ok (.reserved attempt) => exact within_continuePayment.reservesQuoted rfl
  | .ok (.existing attempt) => exact within_continuePayment.reservesQuoted rfl
  | .ok (.alreadyTracked _) => exact within_respondWithError.reservesQuoted rfl
  | .error .budgetExceeded => exact ⟨trivial, fun _ => within_respondWithError.reservesQuoted rfl⟩
  | .error .connectionUnavailable => exact within_rejectClaim.reservesQuoted rfl
  | .error .invalidAmount => exact within_respondWithError.reservesQuoted rfl
  | .error .valueOutOfRange => exact within_respondWithError.reservesQuoted rfl
  | .error .reservationConflict => exact within_respondWithError.reservesQuoted rfl
  | .error .databaseUnavailable => exact within_releaseToApplication.reservesQuoted rfl
  | .error .corruptData => exact within_releaseToApplication.reservesQuoted rfl
  | .error .terminalStateConflict => exact within_releaseToApplication.reservesQuoted rfl

theorem reservesQuoted_deadlineContext :
    Spec ReservesQuoted log deadlineContext fun _ _ => True :=
  (within_deadlineContext (K := responding) rfl).reservesQuoted rfl

theorem reservesQuoted_quotePayment :
    Spec ReservesQuoted log (quotePayment x r payment) fun _ _ => True := by
  apply reservesQuoted_deadlineContext.seq
  intro log' context _
  cases context with
  | none => exact within_releaseToApplication.reservesQuoted rfl
  | some context =>
    refine ⟨trivial, fun quote => ?_⟩
    cases quote with
    | error error =>
      refine ⟨trivial, fun _ => ?_⟩
      dsimp only [Prog.bind]
      split
      · exact within_retryClaim.reservesQuoted rfl
      · split
        · exact within_releaseToApplication.reservesQuoted rfl
        · exact within_respondWithError.reservesQuoted rfl
    | ok quote =>
      dsimp only [Prog.bind]
      split
      · exact within_respondWithError.reservesQuoted rfl
      · rename_i principalSat hrounded
        split
        · exact within_respondWithError.reservesQuoted rfl
        · apply reservesQuoted_reserveQuoted
          intro now
          exact ⟨payment.invoice, payment.amount, context, quote, by simp [Answered], rfl, hrounded⟩

theorem reservesQuoted_executePayment :
    Spec ReservesQuoted log (executePayment x r payment) fun _ _ => True := by
  refine ⟨trivial, fun existing => ?_⟩
  match existing with
  | .error _ => exact within_releaseToApplication.reservesQuoted rfl
  | .ok (some attempt) =>
    dsimp only [Prog.bind]
    split
    · exact within_respondWithError.reservesQuoted rfl
    · exact within_continuePayment.reservesQuoted rfl
  | .ok none =>
    dsimp only [Prog.bind]
    split
    · exact within_respondWithError.reservesQuoted rfl
    · exact reservesQuoted_quotePayment

theorem Job.reservesQuoted (job : Job) :
    Spec ReservesQuoted [] (job.program x) fun _ _ => True := by
  apply lift_program
  · intro log op hop
    apply reservesQuoted_of_activity
    intro heq
    rw [heq] at hop
    cases hop
  · exact fun log r request method => within_executeDirect.reservesQuoted rfl
  · exact fun log r payment => reservesQuoted_executePayment
  · intro log op hop
    apply reservesQuoted_of_activity
    intro heq
    rw [heq] at hop
    cases hop

end Reservations

/-- Whole-satoshi rounding. Every reservation of an execution is for a payment it was
quoted before, with the quote's principal rounded up; every settlement charges its
amounts rounded up, flags an overspend only past what was reserved, and stays within
the reservation when it settles within the quote and the fee reserve; and both
roundings are one function. -/
theorem whole_satoshi_rounding {x : Crates} {outside : HostCall → Prop} {l : Ledger}
    {history : SystemHistory} {w : SystemWorld} (hrun : SystemRun x outside l history w) :
    (∀ later event earlier, history = later ++ event :: earlier →
      ∀ i e hash connection principalSat now reply,
      Asked i (.ledger (.payment (.reservePayment e hash connection principalSat now))) reply event →
      ∃ quoting ∈ earlier, ∃ invoice amount context quote,
        Asked i (.wallet (.quotePayment invoice amount) context) (.ok quote) quoting ∧
          quote.paymentHash = hash ∧ msatToSatCeil quote.principal = some principalSat ∧
          quote.principal ≤ 1000 * principalSat ∧
          ∀ a, reply = .ok (.reserved a) →
            a.principalSat = principalSat ∧ quote.principal ≤ 1000 * a.reservedSat) ∧
    (∀ event ∈ ledgerHistory history, ∀ hash amount fee now a,
      event.label = ⟨.payment (.markPaymentSucceeded hash amount fee now), .ok a⟩ →
      ∀ row ∈ event.before.paymentAttempts, row.paymentHash = hash →
        (row.state = .succeeded → event.after = event.before) ∧
        (row.state ≠ .succeeded → SettlementRounds event.before row amount fee a)) ∧
    ∀ amount, Accounting.msatToSatCeil amount = okOr (msatToSatCeil amount) .valueOutOfRange ∧
      (msatToSatCeil amount = none ↔ 2 ^ 64 ≤ amount + 999) := by
  refine ⟨?_, ?_, fun amount => ⟨accounting_msatToSatCeil amount, msatToSatCeil_eq_none⟩⟩
  · rintro later event earlier rfl i e hash connection principalSat now reply hlabel
    obtain ⟨t, hthread, -, invoice, amount, context, quote, hanswered, hhash, hrounded⟩ :=
      act_spec Job.reservesQuoted hrun (by simp) hlabel
    have hcovers := (msatToSatCeil_bounds hrounded).1
    obtain ⟨hbefore, hstep, -⟩ := hrun.split
    obtain ⟨quoting, hquoting, hasked⟩ := log_event hbefore i t hthread _ hanswered
    refine ⟨quoting, hquoting, invoice, amount, context, quote, hasked, hhash, hrounded, hcovers, ?_⟩
    rintro a rfl
    rw [hlabel] at hstep
    obtain ⟨random, hreserve⟩ := hstep.ledgerStep.run_of_ok
    obtain ⟨c, -, -, ⟨_, _, hne, -⟩ | ⟨_, _, hne, -⟩ | ⟨a', row, _, heq, hstored, -, hfor, -⟩⟩ :=
      reservePayment_ok hreserve
    · cases hne
    · cases hne
    · cases heq
      have hprincipal : a.principalSat = principalSat :=
        (congrArg PaymentAttempt.principalSat hstored.value).trans hfor.principalSat
      refine ⟨hprincipal, ?_⟩
      simp only [PaymentAttempt.reservedSat, hprincipal]
      exact hcovers.trans (by omega)
  · intro event hevent hash amount fee now a hlabel row hrow hhash
    have hstep := (ledgerRun_of_run hrun).step_of_mem hevent
    rw [hlabel] at hstep
    obtain ⟨random, hsettle⟩ := hstep.run_of_ok
    exact settlement_rounds hsettle hrow hhash

namespace Sample

/-- One payment of ten satoshis, up to the accounting of its settlement with a fee of
900 millisatoshis. -/
def settledPayment : List Move :=
  List.replicate 34 (Move.act 0 (payingScript 1010 1)) ++
    [Move.spawn firstWake,
      Move.outside (.registry (.insertConnection connection 1000)) (script 1000 0)]

theorem settledPayment_run : SystemRun crates managing .empty
    (play quickProgram crates .empty settledPayment).1
    (play quickProgram crates .empty settledPayment).2 := by
  apply quick_run
  · intro job hjob
    left
    simpa [settledPayment] using hjob
  · intro op host hop
    simp only [settledPayment, List.mem_append, List.mem_cons, List.mem_replicate, List.not_mem_nil,
      Move.outside.injEq, reduceCtorEq, and_false, or_false, false_or] at hop
    exact ⟨_, hop.1⟩

/-- The step settles a payment of ten satoshis and a fee of less than one. -/
def settlesTen : SystemLabel → Bool
  | .act _ ⟨.ledger (.payment (.markPaymentSucceeded hash amount fee _)), .ok a⟩ =>
    hash == ⟨9⟩ && amount == 10000 && fee == 900 && a.chargedSat == some 11
  | _ => false

theorem settlesTen_eq_true {label : SystemLabel} (h : settlesTen label = true) :
    ∃ now a, a.chargedSat = some 11 ∧ systemLedgerCall label =
      some ⟨.payment (.markPaymentSucceeded ⟨9⟩ 10000 900 now), .ok a⟩ := by
  unfold settlesTen at h
  split at h
  · rename_i i hash amount fee now a
    simp only [Bool.and_eq_true, beq_iff_eq] at h
    obtain ⟨⟨⟨rfl, hamount⟩, hfee⟩, hcharged⟩ := h
    subst hamount
    subst hfee
    exact ⟨now, a, hcharged, rfl⟩
  · cases h

end Sample

set_option maxRecDepth 4000 in
theorem whole_satoshi_rounding_settled :
    ∃ event earlier a row, (play Sample.quickProgram Sample.crates .empty
        Sample.settledPayment).1 = event :: earlier ∧
      row ∈ event.before.shared.paymentAttempts ∧
      SettlementRounds event.before.shared row 10000 900 a ∧ a.chargedSat = some 11 := by
  have hchecked : ((play Sample.quickProgram Sample.crates .empty
      Sample.settledPayment).1.head?.any fun event => Sample.settlesTen event.label &&
        event.before.shared.paymentAttempts.rows.any fun row =>
          row.paymentHash == ⟨9⟩ && row.state == .reserved) = true := by
    decide
  have hrun := Sample.settledPayment_run
  cases hhistory : (play Sample.quickProgram Sample.crates .empty Sample.settledPayment).1 with
  | nil =>
    rw [hhistory] at hchecked
    cases hchecked
  | cons event earlier =>
    rw [hhistory] at hchecked hrun
    obtain ⟨hsettles, hrow⟩ := Bool.and_eq_true_iff.mp hchecked
    obtain ⟨now, a, hcharged, hcall⟩ := Sample.settlesTen_eq_true hsettles
    obtain ⟨row, hmem, hrow⟩ := List.any_eq_true.mp hrow
    obtain ⟨hhash, hstate⟩ := Bool.and_eq_true_iff.mp hrow
    have hrounds := (whole_satoshi_rounding hrun).2.1 _ (mem_ledgerHistory List.mem_cons_self hcall)
      ⟨9⟩ 10000 900 now a rfl row hmem (beq_iff_eq.mp hhash)
    have hunsettled : row.state ≠ .succeeded := by simp [beq_iff_eq.mp hstate]
    exact ⟨event, earlier, a, row, rfl, hmem, hrounds.2 hunsettled, hcharged⟩

end NwcMobile
