import NwcMobile.Engine.Disclosure
import NwcMobile.Engine.Footprint
import NwcMobile.Ledger.Migration
import NwcMobile.Ledger.PaymentQueue

/-!
What an upgrade does to the payments it finds. An attempt whose initiation nobody recorded
is left exactly as it was for ever: no program asks the wallet about it, starts it, settles
it or shows its preimage, the reconciler never selects it, its debit stays, and every other
request for the same payment is turned away. Attempts that were settled before the upgrade
stay as they were settled.
-/

namespace NwcMobile

open Program Concurrent Transition Relational Accounting Nip47

/-- The attempt an operation works on, by its payment hash. -/
def PaymentOp.target : PaymentOp → Option PaymentHash
  | .markPaymentInitiated hash _ | .releaseUninitiatedPayment hash _ | .markPaymentPending hash _
  | .markPaymentFailed hash _ | .markPaymentSucceeded hash _ _ _ => some hash
  | _ => none

/-- An execution works on with the attempt. -/
def PaymentAttempt.Continuable (a : PaymentAttempt) : Prop :=
  a.legacyInitiationAmbiguous = false ∧ a.state ≠ .failed

/-- No program has anything to do with the attempt, but for confirming a success. -/
def PaymentAttemptRow.Closed (r : PaymentAttemptRow) : Prop :=
  r.legacyInitiationAmbiguous = true ∨ r.state = .failed ∨ r.state = .succeeded

/-- The row is stored, up to its place in the reconciliation queue. -/
def Ledger.Keeps (l : Ledger) (row : PaymentAttemptRow) : Prop :=
  ∃ sequence, l.attemptOf row.paymentHash = some { row with reconciliationSequence := sequence }

section Ledgers

variable {x : Crates} {l l' : Ledger} {row : PaymentAttemptRow} {a : PaymentAttempt}
  {call : LedgerCall} {hash : PaymentHash}

theorem keeps_of_mem (h : row ∈ l.paymentAttempts) : l.Keeps row :=
  ⟨row.reconciliationSequence, attemptOf_of_mem h⟩

theorem Ledger.Keeps.same_row {stored : PaymentAttemptRow} (h : l.Keeps row)
    (hstored : stored ∈ l.paymentAttempts)
    (hsame : stored.eventId = row.eventId ∨ stored.paymentHash = row.paymentHash) :
    ∃ sequence, stored = { row with reconciliationSequence := sequence } := by
  obtain ⟨sequence, hrow⟩ := h
  have hmem := (attemptOf_eq_some.mp hrow).1
  refine ⟨sequence, Table.eq_of_conflict hstored hmem ?_⟩
  simpa [paymentAttemptSchema] using hsame

/-- A payment operation on another attempt leaves a row as it is. -/
theorem paymentOp_spares {op : PaymentOp} {value : op.Value} (h : op.run l = .ok (value, l'))
    (hrow : l.Keeps row) (htarget : op.target ≠ some row.paymentHash) : l'.Keeps row := by
  have hmoved : ∀ {r r' : PaymentAttemptRow} {a : PaymentAttempt}, Moved l l' r r' a →
      op.target = some r.paymentHash → l'.Keeps row := by
    intro r r' a hmoved heq
    have hne : row.paymentHash ≠ r.paymentHash := by
      rintro hsame
      rw [heq, hsame] at htarget
      exact htarget rfl
    obtain ⟨sequence, hattempt⟩ := hrow
    exact ⟨sequence, (hmoved.attemptOf_other hne).trans hattempt⟩
  cases op with
  | loadPaymentAttemptByEvent e =>
    obtain ⟨-, rfl⟩ := reading_eq_ok.mp h
    exact hrow
  | loadPaymentAttempt hash =>
    obtain ⟨-, rfl⟩ := reading_eq_ok.mp h
    exact hrow
  | reservePayment e hash connection principal now =>
    have hstep := (paymentOp_effect h).attemptStep row.paymentHash
    obtain ⟨sequence, hattempt⟩ := hrow
    obtain ⟨c, -, -, ⟨_, _, -, rfl, -⟩ | ⟨_, _, -, rfl, -⟩ | ⟨a, r, _, -, -, -, -, hreserved, -⟩⟩ :=
      reservePayment_ok h
    · exact ⟨sequence, hattempt⟩
    · exact ⟨sequence, hattempt⟩
    · refine ⟨sequence, attemptOf_eq_some.mpr ⟨?_, rfl⟩⟩
      exact (Table.mem_insert hreserved.attempts).mpr (Or.inl (attemptOf_eq_some.mp hattempt).1)
  | markPaymentInitiated hash now =>
    obtain ⟨rfl, -⟩ | ⟨r, rfl, -, -, hmove⟩ := markPaymentInitiated_ok h
    · exact hrow
    · exact hmoved hmove rfl
  | releaseUninitiatedPayment hash now =>
    obtain ⟨r, -, rfl, -, -, hattempts, -, -⟩ := releaseUninitiatedPayment_ok h
    obtain ⟨sequence, hattempt⟩ := hrow
    refine ⟨sequence, (attemptOf_deleted_other hattempts ?_).trans hattempt⟩
    rintro hsame
    exact htarget (congrArg some hsame.symm)
  | markPaymentPending hash now =>
    obtain ⟨rfl, -⟩ | ⟨r, r', rfl, -, hmove⟩ := markPaymentPending_ok h
    · exact hrow
    · exact hmoved hmove rfl
  | markPaymentFailed hash now =>
    obtain ⟨rfl, -⟩ | ⟨r, r', rfl, -, hmove⟩ := markPaymentFailed_ok h
    · exact hrow
    · exact hmoved hmove rfl
  | markPaymentSucceeded hash principal fee now =>
    obtain ⟨rfl, -⟩ | ⟨r, r', rfl, -, -, hmove⟩ := markPaymentSucceeded_ok h
    · exact hrow
    · exact hmoved hmove rfl
  | loadUnresolvedPaymentAttempts limit =>
    obtain ⟨hqueue, -⟩ := loadUnresolvedPaymentAttempts_ok h
    obtain ⟨f, hf, hattempt⟩ := hqueue.attemptOf
    obtain ⟨sequence, hrow⟩ := hrow
    exact ⟨_, by rw [hattempt, hrow, Option.map_some, hf]⟩

/-- A success is not undone, and no call on another attempt reaches a row. -/
theorem LedgerStep.keeps (h : LedgerStep x l call l') (hrow : l.Keeps row)
    (htarget : ∀ (op : PaymentOp) (reply : (LedgerOp.payment op).Reply),
      call = ⟨.payment op, reply⟩ → op.target = some row.paymentHash → row.state = .succeeded) :
    l'.Keeps row := by
  by_cases hsucceeded : row.state = .succeeded
  · obtain ⟨sequence, hattempt⟩ := hrow
    have hstep := h.attemptStep row.paymentHash
    rw [hattempt] at hstep
    generalize hafter : l'.attemptOf row.paymentHash = after at hstep
    cases hstep with
    | kept sequence' => exact ⟨sequence', hafter⟩
    | released hstate _ => simp [hsucceeded] at hstate
    | moved hmove => exact absurd hsucceeded hmove.state_ne
  · obtain ⟨op, reply⟩ := call
    by_cases hpayment : ∃ o, op = .payment o
    · obtain ⟨o, rfl⟩ := hpayment
      rcases h.cases with rfl | ⟨value, random, rfl, hrun⟩
      · exact hrow
      · exact paymentOp_spares hrun hrow fun heq => hsucceeded (htarget o _ rfl heq)
    · have hsame := h.attempts_kept fun o heq => hpayment ⟨o, heq⟩
      obtain ⟨sequence, hattempt⟩ := hrow
      exact ⟨sequence, by simpa only [Ledger.attemptOf, hsame] using hattempt⟩

/-- Whatever attempt a call returns for a kept row is that row's. -/
theorem Ledger.Keeps.stored {stored : PaymentAttemptRow} (h : l.Keeps row)
    (hstored : l.Stored stored a)
    (hsame : a.eventId = row.eventId ∨ a.paymentHash = row.paymentHash) :
    a.paymentHash = row.paymentHash ∧ a.state = row.state ∧
      a.legacyInitiationAmbiguous = row.legacyInitiationAmbiguous := by
  rw [hstored.eventId, hstored.paymentHash] at hsame
  obtain ⟨sequence, rfl⟩ := h.same_row hstored.mem hsame
  exact ⟨hstored.paymentHash, hstored.state, congrArg PaymentAttempt.legacyInitiationAmbiguous hstored.value⟩

/-- A selected attempt is unresolved and not marked. -/
theorem selected_reconcilable {limit : Nat} {attempts : List PaymentAttempt} {more : Bool}
    (h : l.loadUnresolvedPaymentAttempts limit = .ok ((attempts, more), l'))
    (ha : a ∈ attempts) : ∃ r ∈ l.paymentAttempts, r.paymentHash = a.paymentHash ∧
      isReconcilable r = true := by
  obtain ⟨table, hqueue, hhashes, -⟩ := loadUnresolved_selects h
  have hmem : a.paymentHash ∈ attempts.map PaymentAttempt.paymentHash := List.mem_map_of_mem ha
  rw [hhashes] at hmem
  have hlisted := mem_reconciliationQueue.mp (List.mem_of_mem_take hmem)
  have hsame := @Requeued.unresolved l { l with paymentAttempts := table } hqueue
  rw [hsame] at hlisted
  obtain ⟨r, hr, hreconcilable, hhash⟩ := mem_unresolved.mp hlisted
  exact ⟨r, hr, hhash, hreconcilable⟩

end Ledgers

/-- The attempt a program works on: an execution's own, or one the reconciler selected. -/
inductive WorkedOn (log : HostLog) (a : PaymentAttempt) : Prop
  | own {r : ClaimedRequest} (snapshot : Snapshot log r a) (continuable : a.Continuable)
  | selected (unresolved : Unresolved log a)

/-- Whatever a program asks about a payment or does to an attempt is about the attempt it
works on. -/
def Attends (log : HostLog) : HostOp → Prop
  | .wallet (.paymentStatus hash) _ => ∃ a, WorkedOn log a ∧ hash = a.paymentHash
  | .wallet (.startPayment start) _ => ∃ r a, Snapshot log r a ∧ a.Continuable ∧
      start.idempotencyKey = r.validated.id
  | .ledger (.payment op) => ∀ hash, op.target = some hash →
      ∃ a, WorkedOn log a ∧ hash = a.paymentHash
  | _ => True

/-- The operation is about this payment hash, and starts payments for this event only. -/
def KeepsTo (hash : PaymentHash) (e : EventId) : HostOp → Prop
  | .wallet (.paymentStatus hash') _ => hash' = hash
  | .wallet (.startPayment start) _ => start.idempotencyKey = e
  | .ledger (.payment op) => ∀ hash', op.target = some hash' → hash' = hash
  | _ => True

section Stages

variable {x : Crates} {log log' : HostLog} {r : ClaimedRequest} {a : PaymentAttempt}
  {hash : PaymentHash} {e : EventId} {invoice : String} {explicitAmount : Option AmountMsat}
  {status : PaymentStatus}

theorem Snapshot.cons {call : HostCall} (h : Snapshot log r a) : Snapshot (call :: log) r a := by
  cases h with
  | loaded answered connectionId => exact .loaded (List.mem_cons_of_mem _ answered) connectionId
  | reserved answered => exact .reserved (List.mem_cons_of_mem _ answered)
  | existing answered => exact .existing (List.mem_cons_of_mem _ answered)

theorem WorkedOn.given (h : WorkedOn log a) : Given log a := by
  cases h with
  | own snapshot continuable => exact snapshot.given
  | selected unresolved => exact unresolved.given

theorem keepsTo_of_responding {op : HostOp} (h : responding op.activity = true) :
    KeepsTo hash e op := by
  unfold KeepsTo
  split
  · cases h
  · cases h
  · rename_i op
    cases op <;> cases h
  · trivial

theorem attends_of_activity {op : HostOp} (hasking : op.activity ≠ .asking)
    (hstarting : op.activity ≠ .starting) (hpayments : ∀ o, op = .ledger (.payment o) →
      o.target = none) : Attends log op := by
  unfold Attends
  split
  · exact absurd rfl hasking
  · exact absurd rfl hstarting
  · rename_i o
    intro hash htarget
    rw [hpayments o rfl] at htarget
    cases htarget
  · trivial

/-- Answering a request is about no payment. -/
theorem Within.keepsTo {α : Type} {p : HostProg α} (h : Within NwcMobile.responding log p) :
    Spec (fun _ op => KeepsTo hash e op) log p fun _ _ => True :=
  h.guard_imp fun _ _ hop => keepsTo_of_responding hop

theorem keepsTo_keepPending :
    Spec (fun _ op => KeepsTo hash e op) log (keepPending r hash) fun _ _ => True := by
  refine ⟨trivial, fun now => ⟨by simp [KeepsTo, PaymentOp.target], fun marked => ?_⟩⟩
  cases marked with
  | error _ => exact within_releaseToApplication.keepsTo
  | ok _ => exact within_retryClaim.keepsTo

theorem keepsTo_finishSucceeded {preimage : PaymentPreimage} {amount fee : AmountMsat} :
    Spec (fun _ op => KeepsTo hash e op) log
      (finishSucceeded x r invoice hash preimage amount fee) fun _ _ => True := by
  refine ⟨trivial, fun _ => ⟨trivial, fun settledAt =>
    ⟨by simp [KeepsTo, PaymentOp.target], fun marked => ?_⟩⟩⟩
  cases marked with
  | error _ => exact within_releaseToApplication.keepsTo
  | ok accounted =>
    refine ⟨trivial, fun recorded => ?_⟩
    cases recorded with
    | error _ => exact within_releaseToApplication.keepsTo
    | ok _ =>
      refine within_ensureClaimConnectionActive.keepsTo.seq fun _ active _ => ?_
      cases active with
      | error disposition => trivial
      | ok _ => exact within_commitAndPublish.keepsTo

theorem keepsTo_finishPaymentStatus : Spec (fun _ op => KeepsTo hash e op) log
    (finishPaymentStatus x r invoice hash status) fun _ _ => True := by
  cases status with
  | unknown => exact ⟨trivial, fun _ => keepsTo_keepPending⟩
  | pending => exact ⟨trivial, fun _ => keepsTo_keepPending⟩
  | succeeded preimage amount fee => exact keepsTo_finishSucceeded
  | failed reason =>
    refine ⟨trivial, fun _ => ⟨trivial, fun now =>
      ⟨by simp [KeepsTo, PaymentOp.target], fun marked => ?_⟩⟩⟩
    cases marked with
    | error _ => exact within_releaseToApplication.keepsTo
    | ok _ => exact within_respondWithError.keepsTo

theorem keepsTo_startPayment : Spec (fun _ op => KeepsTo a.paymentHash r.validated.id op) log
    (startPayment x r invoice explicitAmount a) fun _ _ => True := by
  refine (within_deadlineContext (K := responding) rfl).keepsTo.seq fun log' context _ => ?_
  cases context with
  | none => exact within_retryClaim.keepsTo
  | some context =>
    refine ⟨rfl, fun started => ?_⟩
    cases started with
    | ok status => exact keepsTo_finishPaymentStatus
    | error error =>
      dsimp only [Prog.bind]
      split
      · exact keepsTo_finishPaymentStatus
      · exact ⟨trivial, fun _ => keepsTo_keepPending⟩

theorem keepsTo_initiatePayment : Spec (fun _ op => KeepsTo a.paymentHash r.validated.id op) log
    (initiatePayment x r invoice explicitAmount a) fun _ _ => True := by
  unfold initiatePayment
  split
  · exact keepsTo_startPayment
  · refine (within_deadlineContext (K := responding) rfl).keepsTo.seq fun log' context _ => ?_
    cases context with
    | none => exact within_retryClaim.keepsTo
    | some context =>
      refine ⟨trivial, fun now => ⟨by simp [KeepsTo, PaymentOp.target], fun marked => ?_⟩⟩
      cases marked with
      | error _ => exact within_releaseToApplication.keepsTo
      | ok _ => exact keepsTo_startPayment

theorem keepsTo_resumePayment : Spec (fun _ op => KeepsTo a.paymentHash r.validated.id op) log
    (resumePayment x r invoice explicitAmount a) fun _ _ => True := by
  refine within_ensureClaimConnectionActive.keepsTo.seq fun log' active _ => ?_
  cases active with
  | error disposition => trivial
  | ok _ =>
    dsimp only
    split
    · exact within_retryClaim.keepsTo
    · exact keepsTo_initiatePayment

theorem keepsTo_checkPaymentStatus : Spec (fun _ op => KeepsTo a.paymentHash r.validated.id op)
    log (checkPaymentStatus x r invoice explicitAmount a) fun _ _ => True := by
  have hdiscard : ∀ {log}, Spec (fun _ op => KeepsTo a.paymentHash r.validated.id op) log
      (discardForeignStatus x r a) fun _ _ => True := by
    refine ⟨trivial, fun now => ⟨by simp [KeepsTo, PaymentOp.target], fun released => ?_⟩⟩
    cases released with
    | error _ => exact within_releaseToApplication.keepsTo
    | ok _ => exact within_respondWithError.keepsTo
  have haccount : ∀ {log status}, Spec (fun _ op => KeepsTo a.paymentHash r.validated.id op) log
      (if a.mayDiscloseSettlement then finishPaymentStatus x r invoice a.paymentHash status
        else discardForeignStatus x r a) fun _ _ => True := by
    intro log status
    split
    · exact keepsTo_finishPaymentStatus
    · exact hdiscard
  refine (within_deadlineContext (K := responding) rfl).keepsTo.seq fun log' context _ => ?_
  cases context with
  | none => exact within_retryClaim.keepsTo
  | some context =>
    refine ⟨rfl, fun reply => ?_⟩
    match reply with
    | .error _ => exact ⟨trivial, fun _ => within_retryClaim.keepsTo⟩
    | .ok .unknown => exact keepsTo_resumePayment
    | .ok .pending => exact haccount
    | .ok (.succeeded ..) => exact haccount
    | .ok (.failed _) => exact haccount

/-- What keeps to an attempt attends to it as long as the attempt is worked on. -/
theorem KeepsTo.attends {op : HostOp} (h : KeepsTo a.paymentHash e op) (hworked : WorkedOn log a)
    (hstarting : op.activity = .starting → ∃ r, Snapshot log r a ∧ a.Continuable ∧
      e = r.validated.id) : Attends log op := by
  unfold Attends
  split
  · exact ⟨a, hworked, h⟩
  · obtain ⟨r, hsnapshot, hcontinuable, rfl⟩ := hstarting rfl
    exact ⟨r, a, hsnapshot, hcontinuable, h⟩
  · intro hash htarget
    exact ⟨a, hworked, h hash htarget⟩
  · trivial

theorem attends_of_responding {op : HostOp} (h : responding op.activity = true) :
    Attends log op := by
  apply attends_of_activity
  · rintro heq
    simp [heq, responding] at h
  · rintro heq
    simp [heq, responding] at h
  · rintro o rfl
    cases o <;> cases h

theorem Within.attends {α : Type} {p : HostProg α} (h : Within NwcMobile.responding log p) :
    Spec Attends log p fun _ _ => True :=
  h.guard_imp fun _ _ => attends_of_responding

theorem attends_continuePayment (h : Snapshot log r a) :
    Spec Attends log (continuePayment x r invoice explicitAmount a) fun _ _ => True := by
  have hkeeps : ∀ {p : HostProg WakeDisposition}, a.Continuable →
      Spec (fun _ op => KeepsTo a.paymentHash r.validated.id op) log p (fun _ _ => True) →
      Spec Attends log p fun _ _ => True := by
    intro p hcontinuable hp
    have hthroughout := hp.throughout (P := fun log => Snapshot log r a)
      (fun _ _ _ _ => Snapshot.cons) h
    refine (hthroughout.guard_imp fun _ _ hop => ?_).imp fun _ _ _ => trivial
    exact hop.1.attends (.own hop.2 hcontinuable) fun _ => ⟨r, hop.2, hcontinuable, rfl⟩
  unfold continuePayment
  split
  · exact within_respondWithError.attends
  · rename_i hlegacy
    split
    · refine within_ensureClaimConnectionActive.attends.seq fun log' active _ => ?_
      cases active with
      | error disposition => trivial
      | ok _ => exact within_respondWithError.attends
    · rename_i hfailed
      have hcontinuable : a.Continuable := ⟨by simpa using hlegacy, hfailed⟩
      split
      · exact hkeeps hcontinuable keepsTo_resumePayment
      · exact hkeeps hcontinuable keepsTo_checkPaymentStatus

theorem attends_reserveQuoted {payment : Nip47.PayInvoiceRequest} {principalSat : Nat} :
    Spec Attends log (reserveQuoted x r payment hash principalSat) fun _ _ => True := by
  refine ⟨trivial, fun now => ⟨by simp [Attends, PaymentOp.target], fun reservation => ?_⟩⟩
  have herror : ∀ {log} {errorCode : Nip47.ErrorCode} {code : RejectionCode},
      Spec Attends log (paymentError x r errorCode code) fun _ _ => True :=
    within_respondWithError.attends
  match reservation with
  | .ok (.reserved a) => exact attends_continuePayment (.reserved List.mem_cons_self)
  | .ok (.existing a) => exact attends_continuePayment (.existing List.mem_cons_self)
  | .ok (.alreadyTracked a) => exact herror
  | .error .budgetExceeded => exact ⟨trivial, fun _ => herror⟩
  | .error .connectionUnavailable => exact within_rejectClaim.attends
  | .error .invalidAmount => exact herror
  | .error .valueOutOfRange => exact herror
  | .error .reservationConflict => exact herror
  | .error .databaseUnavailable => exact within_releaseToApplication.attends
  | .error .corruptData => exact within_releaseToApplication.attends
  | .error .terminalStateConflict => exact within_releaseToApplication.attends

theorem attends_quotePayment {payment : Nip47.PayInvoiceRequest} :
    Spec Attends log (quotePayment x r payment) fun _ _ => True := by
  refine (within_deadlineContext (K := responding) rfl).attends.seq fun log' context _ => ?_
  cases context with
  | none => exact within_releaseToApplication.attends
  | some context =>
    refine ⟨trivial, fun quote => ?_⟩
    cases quote with
    | error error =>
      refine ⟨trivial, fun _ => ?_⟩
      dsimp only [Prog.bind]
      split
      · exact within_retryClaim.attends
      · split
        · exact within_releaseToApplication.attends
        · exact within_respondWithError.attends
    | ok quote =>
      dsimp only [Prog.bind]
      split
      · exact within_respondWithError.attends
      · split
        · exact within_respondWithError.attends
        · exact attends_reserveQuoted

theorem attends_executePayment {payment : Nip47.PayInvoiceRequest} :
    Spec Attends log (executePayment x r payment) fun _ _ => True := by
  refine ⟨by simp [Attends, PaymentOp.target], fun existing => ?_⟩
  match existing with
  | .error _ => exact within_releaseToApplication.attends
  | .ok (some a) =>
    dsimp only [Prog.bind]
    split
    · exact within_respondWithError.attends
    · rename_i hsame
      simp only [not_or, not_not] at hsame
      exact attends_continuePayment (.loaded List.mem_cons_self hsame.1)
  | .ok none =>
    dsimp only [Prog.bind]
    split
    · exact within_respondWithError.attends
    · exact attends_quotePayment

theorem keepsTo_applyStatus {report : PaymentReconciliationReport} :
    Spec (fun _ op => KeepsTo a.paymentHash e op) log (applyStatus a report status)
      fun _ _ => True := by
  unfold applyStatus
  split
  · exact ⟨trivial, fun now => ⟨by simp [KeepsTo, PaymentOp.target], fun _ => trivial⟩⟩
  · cases status with
    | unknown => trivial
    | pending =>
      dsimp only
      split
      · exact ⟨trivial, fun now => ⟨by simp [KeepsTo, PaymentOp.target], fun _ => trivial⟩⟩
      · trivial
    | succeeded preimage amount fee =>
      exact ⟨trivial, fun now => ⟨by simp [KeepsTo, PaymentOp.target], fun _ => trivial⟩⟩
    | failed reason =>
      exact ⟨trivial, fun now => ⟨by simp [KeepsTo, PaymentOp.target], fun _ => trivial⟩⟩

theorem Unresolved.cons {call : HostCall} (h : Unresolved log a) : Unresolved (call :: log) a := by
  obtain ⟨limit, attempts, more, hanswered, hmem⟩ := h
  exact ⟨limit, attempts, more, List.mem_cons_of_mem _ hanswered, hmem⟩

/-- Accounting for a status attends to the selected attempt, and the selection stands. -/
theorem attends_applyStatus {rest : List PaymentAttempt} {report : PaymentReconciliationReport}
    (h : ∀ b ∈ a :: rest, Unresolved log b) :
    Spec Attends log (applyStatus a report status) fun log' _ =>
      ∀ b ∈ rest, Unresolved log' b := by
  have hkeeps : Spec (fun _ op => KeepsTo a.paymentHash ⟨0⟩ op) log (applyStatus a report status)
      fun _ _ => True := keepsTo_applyStatus
  have hboth := (hkeeps.and within_applyStatus).throughout
    (P := fun log => ∀ b ∈ a :: rest, Unresolved log b) (fun _ _ _ _ hlog b hb => (hlog b hb).cons) h
  refine (hboth.guard_imp fun log' op hop => ?_).imp fun log' _ hend b hb =>
    hend.2 b (List.mem_cons_of_mem _ hb)
  apply hop.1.1.attends (.selected (hop.2 a List.mem_cons_self))
  intro hstarting
  have hreconciling := hop.1.2
  rw [hstarting] at hreconciling
  cases hreconciling

/-- A pass attends to the attempts it has selected. -/
theorem attends_reconcileAttempts {attempts : List PaymentAttempt} {pass : ReconciliationPass}
    (h : ∀ a ∈ attempts, Unresolved log a) :
    Spec Attends log (reconcileAttempts attempts pass) fun _ _ => True := by
  induction attempts generalizing log pass with
  | nil => trivial
  | cons a rest ih =>
    have hrest : ∀ {log}, (∀ b ∈ a :: rest, Unresolved log b) → ∀ b ∈ rest, Unresolved log b :=
      fun hlog b hb => hlog b (List.mem_cons_of_mem _ hb)
    unfold reconcileAttempts
    split
    · exact ih (hrest h)
    · refine ((within_deadlineContext (K := responding) rfl).attends.keeps
        (P := fun log => ∀ b ∈ a :: rest, Unresolved log b)
        (fun _ _ _ _ hlog b hb => (hlog b hb).cons) h).seq fun log' context hlog => ?_
      cases context with
      | none => trivial
      | some context =>
        refine ⟨⟨a, .selected (hlog.2 a List.mem_cons_self), rfl⟩, fun status => ?_⟩
        cases status with
        | error _ => exact ih fun b hb => (hrest hlog.2 b hb).cons
        | ok status =>
          refine (attends_applyStatus fun b hb => (hlog.2 b hb).cons).seq
            fun log'' updated hselected => ?_
          cases updated with
          | error _ => trivial
          | ok report => exact ih hselected

theorem attends_reconcile {maxAttempts : Nat} :
    Spec Attends log (reconcile maxAttempts) fun _ _ => True := by
  unfold reconcile
  split
  · trivial
  · refine (within_deadlineContext (K := responding) rfl).attends.seq fun log' context _ => ?_
    cases context with
    | none => trivial
    | some context =>
      refine ⟨by simp [Attends, PaymentOp.target], fun loaded => ?_⟩
      match loaded with
      | .error _ => trivial
      | .ok (attempts, more) =>
        have hselected : ∀ a ∈ attempts, Unresolved (⟨.ledger (.payment
            (.loadUnresolvedPaymentAttempts maxAttempts)), .ok (attempts, more)⟩ :: log') a :=
          fun a ha => ⟨maxAttempts, attempts, more, List.mem_cons_self, ha⟩
        refine (attends_reconcileAttempts hselected).seq fun _ pass _ => ?_
        cases pass <;> trivial

/-- Every program attends only to the attempts it works on. -/
theorem attends_program (job : Job) : Spec Attends [] (job.program x) fun _ _ => True := by
  have hother : ∀ {K : Activity → Bool}, K .asking = false → K .starting = false →
      K .initiating = false → K .discarding = false → K .accounting = false →
      ∀ (log : HostLog) (op : HostOp), K op.activity = true → Attends log op := by
    intro K hasking hstarting hinitiating hdiscarding haccounting log op hop
    apply attends_of_activity
    · rintro heq
      rw [heq, hasking] at hop
      cases hop
    · rintro heq
      rw [heq, hstarting] at hop
      cases hop
    · rintro o rfl
      cases o <;> simp_all [HostOp.activity, PaymentOp.activity, PaymentOp.target]
  cases job with
  | wake policy input =>
    refine (lift_execute (hother rfl rfl rfl rfl rfl) ?_ ?_ []).seq fun _ _ _ => trivial
    · intro log r request method
      exact within_executeDirect.guard_imp (hother rfl rfl rfl rfl rfl)
    · intro log r payment
      exact attends_executePayment
  | reconcile maxAttempts =>
    exact attends_reconcile.seq fun _ _ _ => trivial
  | migrate imports =>
    exact (within_migrateLegacyBatch.guard_imp (hother rfl rfl rfl rfl rfl)).seq
      fun _ _ _ => trivial

end Stages

section Runs

variable {x : Crates} {outside : HostCall → Prop} {l : Ledger} {w : SystemWorld}
  {history : SystemHistory} {event : Event SystemWorld SystemLabel} {i : Nat} {t : SystemThread}
  {a : PaymentAttempt} {row : PaymentAttemptRow}

/-- The row was there before and after every step. -/
def KeptThroughout (row : PaymentAttemptRow) (history : SystemHistory) : Prop :=
  ∀ event ∈ history, event.before.shared.Keeps row ∧ event.after.shared.Keeps row

/-- An attempt a program was handed for a kept row is that row's. -/
theorem Given.kept (h : Given t.log a) (hrun : SystemRun x outside l history w)
    (hthread : w.threads[i]? = some t) (hkept : KeptThroughout row history)
    (hsame : a.eventId = row.eventId ∨ a.paymentHash = row.paymentHash) :
    a.paymentHash = row.paymentHash ∧ a.state = row.state ∧
      a.legacyInitiationAmbiguous = row.legacyInitiationAmbiguous := by
  obtain ⟨event, hevent, call, hcall, ha, -⟩ := h.handed hrun hthread
  obtain ⟨call', hcall', hledger⟩ | ⟨hnone, -⟩ := SystemStep.ledger (hrun.step_of_mem hevent)
  · rw [hcall, Option.some.injEq] at hcall'
    subst hcall'
    obtain ⟨stored, hstored⟩ := hledger.returned_row ha
    exact (hkept event hevent).2.stored hstored hsame
  · rw [hcall] at hnone
    cases hnone

/-- Whoever works on a closed row's attempt confirms a success. -/
theorem WorkedOn.settled (h : WorkedOn t.log a) (hrun : SystemRun x outside l history w)
    (hthread : w.threads[i]? = some t) (hkept : KeptThroughout row history) (hclosed : row.Closed)
    (hsame : a.eventId = row.eventId ∨ a.paymentHash = row.paymentHash) :
    row.legacyInitiationAmbiguous = false ∧ row.state = .succeeded := by
  obtain ⟨hhash, hstate, hlegacy⟩ := h.given.kept hrun hthread hkept hsame
  cases h with
  | own snapshot continuable =>
    have hunmarked : row.legacyInitiationAmbiguous = false := hlegacy.symm.trans continuable.1
    rcases hclosed with hmarked | hfailed | hsucceeded
    · rw [hmarked] at hunmarked
      cases hunmarked
    · exact absurd (hstate.trans hfailed) continuable.2
    · exact ⟨hunmarked, hsucceeded⟩
  | selected unresolved =>
    obtain ⟨limit, attempts, more, hanswered, ha⟩ := unresolved
    obtain ⟨event, hevent, -, hstep⟩ := ledger_event hrun hthread hanswered
    obtain ⟨random, hselect⟩ := hstep.run_of_ok
    obtain ⟨r, hr, hrhash, hreconcilable⟩ := selected_reconcilable hselect ha
    obtain ⟨sequence, rfl⟩ := (hkept event hevent).1.same_row hr (Or.inr (hrhash.trans hhash))
    rcases hclosed with hmarked | hfailed | hsucceeded
    · simp [isReconcilable, hmarked] at hreconcilable
    · simp [isReconcilable, isUnresolved, hfailed] at hreconcilable
    · simp [isReconcilable, isUnresolved, hsucceeded] at hreconcilable

/-- A closed row stays for ever, whatever the programs and their surroundings do. -/
theorem closed_kept (hpayments : PaymentsByPrograms outside) (hclosed : row.Closed)
    (hrow : l.Keeps row) (hrun : SystemRun x outside l history w) :
    w.shared.Keeps row ∧ KeptThroughout row history := by
  refine hrun.history_invariant
    (J := fun history w => w.shared.Keeps row ∧ KeptThroughout row history)
    ⟨hrow, fun _ hevent => absurd hevent List.not_mem_nil⟩ ?_
  rintro past a label b hpast ⟨hkept, hthroughout⟩ hstep
  have hafter : b.shared.Keeps row := by
    obtain ⟨call, hcall, hledger⟩ | ⟨-, hsame⟩ := SystemStep.ledger hstep
    · refine hledger.keeps hkept fun op reply heq htarget => ?_
      subst heq
      obtain ⟨i, rfl⟩ := hpayments.act hstep hcall
      obtain ⟨t, hthread, -, hattends⟩ := act_spec (Q := fun _ _ _ => True) attends_program
        (hpast.tail hstep) List.mem_cons_self rfl
      obtain ⟨a, hworked, hhash⟩ := hattends row.paymentHash htarget
      exact (hworked.settled hpast hthread hthroughout hclosed (Or.inr hhash.symm)).2
    · rw [hsame]
      exact hkept
  refine ⟨hafter, fun event hevent => ?_⟩
  rcases List.mem_cons.mp hevent with rfl | hprior
  · exact ⟨hkept, hafter⟩
  · exact hthroughout event hprior

/-- What a program attends to at an act, and the run before it. -/
theorem act_attends {call : HostCall} (hrun : SystemRun x outside l history w)
    (hevent : event ∈ history) (hlabel : event.label = .act i call)
    (hkept : KeptThroughout row history) : ∃ earlier t, SystemRun x outside l earlier event.before ∧
      event.before.threads[i]? = some t ∧ Attends t.log call.op ∧ KeptThroughout row earlier ∧
        ∀ prior ∈ earlier, prior ∈ history := by
  obtain ⟨t, hthread, -, hattends⟩ := act_spec (Q := fun _ _ _ => True) attends_program hrun
    hevent hlabel
  obtain ⟨later, earlier, rfl⟩ := List.append_of_mem hevent
  have hearlier : ∀ prior ∈ earlier, prior ∈ later ++ event :: earlier :=
    fun prior hprior => List.mem_append_right _ (List.mem_cons_of_mem _ hprior)
  exact ⟨earlier, t, hrun.split.1, hthread, hattends,
    fun prior hprior => hkept prior (hearlier prior hprior), hearlier⟩

/-- Nobody asks the wallet about a marked attempt. -/
theorem marked_not_asked (hmarked : row.legacyInitiationAmbiguous = true)
    (hkept : KeptThroughout row history) (hrun : SystemRun x outside l history w)
    (hevent : event ∈ history) {context : OperationContext}
    {reply : (HostOp.wallet (.paymentStatus row.paymentHash) context).Reply} :
    event.label ≠ .act i ⟨.wallet (.paymentStatus row.paymentHash) context, reply⟩ := by
  intro hlabel
  obtain ⟨earlier, t, hbefore, hthread, ⟨a, hworked, hhash⟩, hpast, -⟩ :=
    act_attends hrun hevent hlabel hkept
  have hsettled := hworked.settled hbefore hthread hpast (Or.inl hmarked) (Or.inr hhash.symm)
  rw [hmarked] at hsettled
  cases hsettled.1

/-- Nobody starts a payment for a marked attempt. -/
theorem marked_not_started (hmarked : row.legacyInitiationAmbiguous = true)
    (hkept : KeptThroughout row history) (hrun : SystemRun x outside l history w)
    (hevent : event ∈ history) {start : PayInvoiceRequest} {context : OperationContext}
    {reply : (HostOp.wallet (.startPayment start) context).Reply}
    (hlabel : event.label = .act i ⟨.wallet (.startPayment start) context, reply⟩) :
    start.idempotencyKey ≠ row.eventId := by
  intro hkey
  obtain ⟨earlier, t, hbefore, hthread, ⟨r, a, hsnapshot, hcontinuable, howner⟩, hpast, -⟩ :=
    act_attends hrun hevent hlabel hkept
  have hsame : a.eventId = row.eventId :=
    (hsnapshot.owner hbefore hthread).1.trans (howner.symm.trans hkey)
  have hworked : WorkedOn t.log a := .own hsnapshot hcontinuable
  have hsettled := hworked.settled hbefore hthread hpast (Or.inl hmarked) (Or.inl hsame)
  rw [hmarked] at hsettled
  cases hsettled.1

/-- Whoever places the preimage of a payment for an event may attribute it. -/
theorem Places.attributable {e : EventId} (hreadable : x.ResponsesReadable)
    (hrun : SystemRun x outside l history w) (hevent : event ∈ history)
    (h : Places x ShowsPaid e event.label) :
    ∃ (i : Nat) (t : SystemThread) (r : ClaimedRequest) (hash : PaymentHash),
      event.before.threads[i]? = some t ∧ Attributable t.log r hash ∧ r.validated.id = e := by
  obtain ⟨later, earlier, rfl⟩ := List.append_of_mem hevent
  have hbefore := hrun.split.1
  generalize hlabel : event.label = label at h
  obtain ⟨i, call, hact⟩ : ∃ i call, label = .act i call := by
    cases h with
    | recorded _ => exact ⟨_, _, rfl⟩
    | responded _ _ _ => exact ⟨_, _, rfl⟩
    | respondedNwc _ _ _ => exact ⟨_, _, rfl⟩
  obtain ⟨t, hthread, hguard, -⟩ := SystemRun.act_guard hrun (hlabel.trans hact)
  have hresponds : ∀ {input : WakeInput} {lease : EventLease} {now : UnixTimestamp}
      {json : String} {response : Response}, Responding x input t.log lease now json →
      Carries x json response → ShowsPaid response →
      ∃ r hash, Attributable t.log r hash ∧ r.validated.id = lease.eventId := by
    intro input lease now json response hresponding hcarries hshown
    obtain ⟨-, r, placed, secret, createdAt, nonce, hclaimed, rfl, hbuilt, hdisclosable⟩ :=
      hresponding
    obtain rfl : placed = response :=
      hreadable json placed response ⟨r.validated, secret, createdAt, nonce, hbuilt⟩ hcarries
    obtain ⟨hash, hattributable⟩ := hdisclosable.attributable hshown
    exact ⟨r, hash, hattributable, (hclaimed.lease_eventId hbefore hthread).symm⟩
  cases hjob : t.job with
  | wake policy input =>
    rw [hjob] at hguard
    cases h with
    | recorded heq =>
      cases hact
      obtain ⟨r, -, he, hattributable⟩ := hguard
      exact ⟨_, t, r, _, hthread, hattributable, he.symm.trans heq⟩
    | responded heq hcarries hshown =>
      cases hact
      have hresponding : Responding x input t.log _ _ _ := hguard
      obtain ⟨r, hash, hattributable, hr⟩ := hresponds hresponding hcarries hshown
      exact ⟨_, t, r, hash, hthread, hattributable, hr.trans heq⟩
    | respondedNwc heq hcarries hshown =>
      cases hact
      have hresponding : Responding x input t.log _ _ _ := hguard
      obtain ⟨r, hash, hattributable, hr⟩ := hresponds hresponding hcarries hshown
      exact ⟨_, t, r, hash, hthread, hattributable, hr.trans heq⟩
  | reconcile maxAttempts =>
    rw [hjob] at hguard
    cases h <;> cases hact <;> cases hguard
  | migrate imports =>
    rw [hjob] at hguard
    cases h <;> cases hact <;> cases hguard

/-- Nobody shows the preimage of a payment for a marked attempt's event. -/
theorem marked_not_disclosed (hreadable : x.ResponsesReadable)
    (hmarked : row.legacyInitiationAmbiguous = true) (hkept : KeptThroughout row history)
    (hrun : SystemRun x outside l history w) (hevent : event ∈ history) :
    ¬ Places x ShowsPaid row.eventId event.label := by
  intro hplaces
  obtain ⟨i, t, r, hash, hthread, ⟨a, hsnapshot, -, hattributed⟩, howner⟩ :=
    hplaces.attributable hreadable hrun hevent
  obtain ⟨later, earlier, rfl⟩ := List.append_of_mem hevent
  have hbefore := hrun.split.1
  have hpast : KeptThroughout row earlier := fun prior hprior =>
    hkept prior (List.mem_append_right _ (List.mem_cons_of_mem _ hprior))
  rcases hattributed with hstarted | hdisclose
  · obtain ⟨start, context, reply, hanswered, hkey⟩ := hstarted
    obtain ⟨event', hevent', hlabel⟩ := log_event hbefore i t hthread _ hanswered
    exact marked_not_started hmarked hpast hbefore hevent' hlabel (hkey.trans howner)
  · have hsame : a.eventId = row.eventId := (hsnapshot.owner hbefore hthread).1.trans howner
    obtain ⟨-, -, hlegacy⟩ := hsnapshot.given.kept hbefore hthread hpast (Or.inl hsame)
    simp [PaymentAttempt.mayDiscloseSettlement, hlegacy, hmarked] at hdisclose

/-- No selection returns a marked attempt. -/
theorem marked_not_selected (hmarked : row.legacyInitiationAmbiguous = true)
    (hkept : KeptThroughout row history) (hrun : SystemRun x outside l history w)
    (hevent : event ∈ history) {limit : Nat} {attempts : List PaymentAttempt} {more : Bool}
    (hcall : systemLedgerCall event.label =
      some ⟨.payment (.loadUnresolvedPaymentAttempts limit), .ok (attempts, more)⟩) :
    ∀ a ∈ attempts, a.paymentHash ≠ row.paymentHash := by
  intro a ha hhash
  obtain ⟨call, hcall', hledger⟩ | ⟨hnone, -⟩ := SystemStep.ledger (hrun.step_of_mem hevent)
  · rw [hcall, Option.some.injEq] at hcall'
    subst hcall'
    obtain ⟨random, hselect⟩ := hledger.run_of_ok
    obtain ⟨r, hr, hrhash, hreconcilable⟩ := selected_reconcilable hselect ha
    obtain ⟨sequence, rfl⟩ := (hkept event hevent).1.same_row hr (Or.inr (hrhash.trans hhash))
    simp [isReconcilable, hmarked] at hreconcilable
  · rw [hcall] at hnone
    cases hnone

/-- Another request that pays a tracked hash is turned away and debits nothing. -/
theorem kept_turns_away (hkept : KeptThroughout row history)
    (hrun : SystemRun x outside l history w) (hevent : event ∈ history) {e : EventId}
    {connection : ActiveConnection} {principal : Nat} {now : UnixTimestamp}
    {outcome : PaymentReservationOutcome}
    (hcall : systemLedgerCall event.label = some ⟨.payment
      (.reservePayment e row.paymentHash connection principal now), .ok outcome⟩)
    (hother : e ≠ row.eventId) :
    (∃ a, outcome = .alreadyTracked a) ∧ event.after.shared = event.before.shared := by
  obtain ⟨call, hcall', hledger⟩ | ⟨hnone, -⟩ := SystemStep.ledger (hrun.step_of_mem hevent)
  · rw [hcall, Option.some.injEq] at hcall'
    subst hcall'
    obtain ⟨random, hreserve⟩ := hledger.run_of_ok
    have hbefore := (hkept event hevent).1
    obtain ⟨c, -, -, ⟨a, r, rfl, hsame, hstored, hr, hhash, -⟩ | ⟨a, r, rfl, hsame, -⟩ |
      ⟨a, r, fee, rfl, hstored, -, hfor, hreserved, -⟩⟩ := reservePayment_ok hreserve
    · rw [hstored.paymentHash] at hhash
      obtain ⟨sequence, rfl⟩ := hbefore.same_row hstored.mem (Or.inr hhash)
      exact absurd hr.symm hother
    · exact ⟨⟨a, rfl⟩, hsame⟩
    · obtain ⟨sequence, hattempt⟩ := hbefore
      have hconflict := Table.insert_no_conflict hreserved.attempts (attemptOf_eq_some.mp hattempt).1
      simp [paymentAttemptSchema, hfor.paymentHash] at hconflict
  · rw [hcall] at hnone
    cases hnone

end Runs

/-- From a balanced ledger on, every period records what it was given and what is imported
and spent from then on. -/
theorem Balanced.run {x : Crates} {imported : String → Nat → Nat} {l l' : Ledger}
    {history : LedgerHistory} (h : Balanced imported l) (hrun : LedgerRun x l history l') :
    Balanced (fun id start => importedUsage history id start + imported id start) l' := by
  refine hrun.history_invariant (J := fun history l =>
    Balanced (fun id start => importedUsage history id start + imported id start) l) ?_ ?_
  · simpa [importedUsage] using h
  · intro past a label b _ hbalanced hstep
    have hnext := hbalanced.step hstep
    simpa [importedUsage, Nat.add_assoc] using hnext

/-- An attempt of an older file is closed once it is upgraded: it is settled, or marked. -/
theorem VersionedAttempt.closed {version : Nat} (hold : version < schemaVersion)
    (r : VersionedAttempt version) : r.current.Closed := by
  cases hmark : r.legacyInitiationAmbiguous with
  | present reached value => exact absurd reached (Nat.not_le_of_lt hold)
  | absent before =>
    unfold PaymentAttemptRow.Closed
    cases hstate : r.state <;>
      simp [VersionedAttempt.current, hmark, Added.filled, VersionedAttempt.unresolved, hstate]

theorem VersionedAttempt.marked {version : Nat} (hold : version < schemaVersion)
    {r : VersionedAttempt version} (hopen : r.unresolved = true) :
    r.current.legacyInitiationAmbiguous = true := by
  cases hmark : r.legacyInitiationAmbiguous with
  | present reached value => exact absurd reached (Nat.not_le_of_lt hold)
  | absent before => simpa [VersionedAttempt.current, hmark, Added.filled] using hopen

/-- What an upgrade does to the payments it finds, for every file of an older version and
every run of the engine, the reconciler and the imports from the upgraded ledger on. Each
attempt keeps its row, up to its place in the reconciliation queue: its state, its amounts
and with them its debit. For an attempt that was unresolved, no program asks the wallet for
its status, starts a payment for its event or shows a preimage as the result of it, no
selection of the reconciler returns it, and a reservation of its payment hash for another
event is turned away and changes nothing. The periods stay balanced. -/
theorem upgraded_payments_stay_frozen {x : Crates} {outside : HostCall → Prop} {version : Nat}
    {randomblob : EventId → BitVec 256} {db : Database version} {l : Ledger} {w : SystemWorld}
    {history : SystemHistory} (hreadable : x.ResponsesReadable)
    (hpayments : PaymentsByPrograms outside) (hold : version < schemaVersion)
    (hopened : migrate randomblob ⟨version, db⟩ = .ok l)
    (hrun : SystemRun x outside l history w) :
    (∀ r ∈ db.paymentAttempts.rows, w.shared.Keeps r.current ∧
      ∀ event ∈ history, event.after.shared.Keeps r.current) ∧
    (∀ r ∈ db.paymentAttempts.rows, r.unresolved = true → ∀ event ∈ history,
      (∀ i context reply, event.label ≠
        .act i ⟨.wallet (.paymentStatus r.paymentHash) context, reply⟩) ∧
      (∀ i start context reply, event.label =
        .act i ⟨.wallet (.startPayment start) context, reply⟩ → start.idempotencyKey ≠ r.eventId) ∧
      ¬ Places x ShowsPaid r.eventId event.label ∧
      (∀ limit attempts more, systemLedgerCall event.label =
        some ⟨.payment (.loadUnresolvedPaymentAttempts limit), .ok (attempts, more)⟩ →
          ∀ a ∈ attempts, a.paymentHash ≠ r.paymentHash) ∧
      ∀ e connection principal now outcome, systemLedgerCall event.label = some ⟨.payment
        (.reservePayment e r.paymentHash connection principal now), .ok outcome⟩ →
          e ≠ r.eventId →
            (∃ a, outcome = .alreadyTracked a) ∧ event.after.shared = event.before.shared) ∧
    ∀ imported, db.Balanced imported → Balanced (fun id start =>
      importedUsage (ledgerHistory history) id start + imported id start) w.shared := by
  obtain ⟨l', hopened', hupgraded, hbalanced, -⟩ :=
    (migration_upgrades randomblob db).1 (Nat.le_of_lt hold)
  obtain rfl : l' = l := Except.ok.inj (hopened'.symm.trans hopened)
  have hkept : ∀ r ∈ db.paymentAttempts.rows,
      w.shared.Keeps r.current ∧ KeptThroughout r.current history := by
    intro r hr
    exact closed_kept hpayments (r.closed hold)
      (keeps_of_mem (hupgraded.mem_paymentAttempts.mpr ⟨r, hr, rfl⟩)) hrun
  refine ⟨fun r hr => ⟨(hkept r hr).1, fun event hevent => ((hkept r hr).2 event hevent).2⟩,
    ?_, ?_⟩
  · intro r hr hopen event hevent
    have hmarked := r.marked hold hopen
    have hthroughout := (hkept r hr).2
    refine ⟨?_, ?_, ?_, ?_, ?_⟩
    · intro i context reply
      exact marked_not_asked hmarked hthroughout hrun hevent
    · intro i start context reply hlabel
      exact marked_not_started hmarked hthroughout hrun hevent hlabel
    · exact marked_not_disclosed hreadable hmarked hthroughout hrun hevent
    · intro limit attempts more hcall
      exact marked_not_selected hmarked hthroughout hrun hevent hcall
    · intro e connection principal now outcome hcall hother
      exact kept_turns_away hthroughout hrun hevent hcall hother
  · intro imported hbalancedOld
    exact (hbalanced imported hbalancedOld).run (ledgerRun_of_run hrun)

namespace Sample

/-- The old file as the new version opens it. -/
def opened : Ledger :=
  match migrate (fun _ => 0) ⟨3, version3⟩ with
  | .ok l => l
  | .error _ => .empty

theorem version3_opened : migrate (fun _ => 0) ⟨3, version3⟩ = .ok opened := by
  obtain ⟨l, hopened, -⟩ := (migration_upgrades (fun _ => 0) version3).1 (by decide)
  rw [opened, hopened]

/-- The client asks for the same payment again, in a new request. -/
def paidAgain : List Move :=
  List.replicate 30 (Move.act 0 (payingScript 1010 1)) ++ [Move.spawn firstWake]

def turnsAway : SystemLabel → Bool
  | .act _ ⟨.ledger (.payment (.reservePayment ..)), .ok (.alreadyTracked _)⟩ => true
  | _ => false

theorem paidAgain_run : SystemRun crates managing opened
    (play quickProgram crates opened paidAgain).1 (play quickProgram crates opened paidAgain).2 := by
  apply play_run
  · intro job hjob
    obtain rfl : job = firstWake := by simpa [paidAgain] using hjob
    exact quickProgram_eq (Or.inl rfl)
  · intro event hevent call hlabel
    obtain ⟨move, hmove, hstep⟩ := play_move hevent
    rw [hlabel] at hstep
    obtain ⟨op, host, rfl, -⟩ := Move.step_outside hstep
    simp [paidAgain] at hmove

end Sample

theorem upgraded_payments_stay_frozen_in_flight :
    (play Sample.quickProgram Sample.crates Sample.opened Sample.paidAgain).2.shared.Keeps
      Sample.version3Attempt.current ∧
    ∃ event ∈ (play Sample.quickProgram Sample.crates Sample.opened Sample.paidAgain).1,
      Sample.turnsAway event.label = true := by
  refine ⟨?_, ?_⟩
  · exact ((upgraded_payments_stay_frozen Sample.crates_responsesReadable Sample.managing_payments
      (by decide) Sample.version3_opened Sample.paidAgain_run).1 Sample.version3Attempt
      (by decide)).1
  · rw [← List.any_eq_true]
    decide +kernel

end NwcMobile
