import NwcMobile.Engine.Guards

/-!
Every program of the system keeps its guard, one function of the engine at a time.
-/

namespace NwcMobile

open Program Prog Concurrent Transition Nip47

section Wake

variable {x : Crates} {policy : WakePolicy} {wake : WakeInput} {log : HostLog}
  {relay : SecureRelayUrl} {connection : ActiveConnection} {validated : ValidatedNwcEvent}
  {r : ClaimedRequest} {request : Nip47.Request} {lease : EventLease}

theorem spec_deadlineContext :
    Spec (WakeGuard x policy wake) log deadlineContext fun log' _ => Continues log log' := by
  refine ⟨trivial, fun cancelled => ?_⟩
  cases cancelled with
  | true => exact .one id
  | false => exact ⟨trivial, fun remaining => (Continues.one id).cons id⟩

theorem spec_rejectClaim {code : RejectionCode} (h : Claimed x wake log r) :
    Spec (WakeGuard x policy wake) log (rejectClaim r.lease code) fun _ _ => True := by
  refine ⟨trivial, fun now => ⟨⟨rfl, r, h.mono (.one id), rfl⟩, fun done => ?_⟩⟩
  cases done <;> trivial

theorem spec_retryClaim {reason : RetryReason} :
    Spec (WakeGuard x policy wake) log (retryClaim lease reason) fun _ _ => True := by
  refine ⟨trivial, fun now => ⟨⟨rfl, rfl⟩, fun done => ?_⟩⟩
  cases done <;> trivial

theorem spec_releaseToApplication {reason : QueueReason} :
    Spec (WakeGuard x policy wake) log (releaseToApplication lease reason) fun _ _ => True := by
  refine ⟨trivial, fun now => ⟨⟨rfl, rfl⟩, fun done => ?_⟩⟩
  cases done <;> trivial

theorem spec_completionFailed {error : LedgerError} :
    Spec (WakeGuard x policy wake) log (completionFailed lease error) fun _ _ => True := by
  cases error with
  | connectionUnavailable => trivial
  | lostLease => trivial
  | responseTooLarge => trivial
  | _ => exact spec_retryClaim

/-- A passed activity check is in the log afterwards. -/
theorem spec_ensureClaimConnectionActive (h : Claimed x wake log r) :
    Spec (WakeGuard x policy wake) log (ensureClaimConnectionActive r.connection r.lease)
      fun log' result => result = .ok () →
        Continues log log' ∧ ActivityConfirmed log' r.connection := by
  refine ⟨trivial, fun active => ?_⟩
  match active with
  | .ok true => exact fun _ => ⟨.one id, List.mem_cons_self⟩
  | .ok false =>
    exact (spec_rejectClaim (h.mono (.one id))).seq fun log' disposition _ hok => by cases hok
  | .error error =>
    exact spec_releaseToApplication.seq fun log' disposition _ hok => by cases hok

theorem spec_republishTerminal {eventJson : Option String} {notification : NotificationHint}
    (hbound : Bound x wake log relay connection validated)
    (hcommitted : ∀ json, eventJson = some json → Committed log wake.eventId json) :
    Spec (WakeGuard x policy wake) log
      (republishTerminal connection relay eventJson notification) fun _ _ => True := by
  cases eventJson with
  | none => trivial
  | some json =>
    refine ⟨trivial, fun active => ?_⟩
    match active with
    | .ok false => trivial
    | .error error => trivial
    | .ok true =>
      refine spec_deadlineContext.seq fun log' context hsub => ?_
      have hlog : Continues log log' := (Continues.one id).trans hsub
      cases context with
      | none => exact ⟨trivial, fun _ => trivial⟩
      | some context =>
        refine ⟨⟨connection, validated, hbound.mono hlog, (hcommitted json rfl).mono hlog⟩, ?_⟩
        intro published
        cases published with
        | ok _ => trivial
        | error error => exact ⟨trivial, fun _ => trivial⟩

theorem Claimed.committed {json : String} {method : Option NwcMethod} {now : UnixTimestamp}
    {response : Response} {secret : NwcSecretKey} {createdAt : UnixTimestamp} {nonce : BitVec 256}
    (h : Claimed x wake log r) (hclock : log.head? = some ⟨.clockNow, now⟩)
    (hbuilt : r.validated.buildResponseEvent x secret (x.responseAsJson response) createdAt nonce =
      .ok json) (hdisclose : Disclosable log r response) :
    Spec (WakeGuard x policy wake) log (completeForActive r json method now)
      fun log' result => result = .ok () →
        Continues log log' ∧ Committed log' wake.eventId json := by
  have hresponding : Responding x wake log r.lease now json :=
    ⟨hclock, r, response, secret, createdAt, nonce, h, rfl, hbuilt, hdisclose⟩
  obtain ⟨time, duration, hacquired⟩ := h.acquired
  rw [h.bound.eventId] at hacquired
  cases method with
  | none =>
    refine ⟨hresponding, fun result hresult => ?_⟩
    subst hresult
    exact ⟨.one id, .completed (List.mem_cons_of_mem _ hacquired) List.mem_cons_self⟩
  | some method =>
    refine ⟨hresponding, fun result hresult => ?_⟩
    subst hresult
    exact ⟨.one id, .completedNwc (List.mem_cons_of_mem _ hacquired) List.mem_cons_self⟩

/-- A response is published only after its completion succeeded. -/
theorem spec_commitAndPublish {response : Response} (h : Fresh x policy wake log r)
    (hdisclose : Disclosable log r response) :
    Spec (WakeGuard x policy wake) log (commitAndPublish x r response) fun _ _ => True := by
  refine spec_deadlineContext.seq fun log₁ context hsub₁ => ?_
  cases context with
  | none => exact spec_releaseToApplication
  | some context =>
    refine ⟨⟨r, h.mono hsub₁, rfl⟩, fun secret => ?_⟩
    cases secret with
    | error error => exact spec_releaseToApplication
    | ok secret =>
      refine ⟨trivial, fun createdAt => ⟨trivial, fun nonce => ?_⟩⟩
      have hsub₂ : Continues log (⟨.nonce, nonce⟩ :: ⟨.clockNow, createdAt⟩ ::
          ⟨.loadNwcSecret r.connection.id context, .ok secret⟩ :: log₁) :=
        ((hsub₁.cons id).cons id).cons id
      dsimp only [Prog.bind]
      split
      · exact spec_rejectClaim (h.claimed.mono hsub₂)
      · rename_i eventJson hbuilt
        refine ⟨trivial, fun now => ?_⟩
        have hsub₃ : Continues log (⟨.clockNow, now⟩ :: ⟨.nonce, nonce⟩ :: ⟨.clockNow, createdAt⟩ ::
          ⟨.loadNwcSecret r.connection.id context, .ok secret⟩ :: log₁) := hsub₂.cons id
        have hclaimed := h.claimed.mono hsub₃
        refine (hclaimed.committed rfl hbuilt (hdisclose.mono hsub₃)).seq
          fun log₄ result hcommitted => ?_
        cases result with
        | error error => exact spec_completionFailed
        | ok _ =>
          obtain ⟨hsub₄, hdone⟩ := hcommitted rfl
          refine spec_republishTerminal (hclaimed.bound.mono hsub₄) ?_
          intro json hjson
          cases hjson
          exact hdone

theorem spec_respondWithError {method : Method} {errorCode : ErrorCode}
    {rejection : RejectionCode} (h : Fresh x policy wake log r) :
    Spec (WakeGuard x policy wake) log (respondWithError x r method errorCode rejection)
      fun _ _ => True := by
  refine (spec_ensureClaimConnectionActive h.claimed).seq fun log' active hactive => ?_
  cases active with
  | error disposition => trivial
  | ok _ =>
    exact (spec_commitAndPublish (h.mono (hactive rfl).1) disclosable_error).seq
      fun _ _ _ => trivial

section Payments

variable {hash : PaymentHash} {invoice : String} {explicitAmount : Option AmountMsat}
  {attempt : PaymentAttempt}

theorem spec_keepPending (h : Paying x policy wake log r) (hown : Attributable log r hash) :
    Spec (WakeGuard x policy wake) log (keepPending r hash) fun _ _ => True := by
  refine ⟨trivial, fun now => ⟨⟨r, h.mono (.one id), hown.mono (.one id)⟩, fun marked => ?_⟩⟩
  cases marked with
  | error error => exact spec_releaseToApplication
  | ok _ => exact spec_retryClaim

theorem spec_finishSucceeded {preimage : PaymentPreimage} {amount fee : AmountMsat}
    (h : Paying x policy wake log r) (hown : Attributable log r hash) :
    Spec (WakeGuard x policy wake) log (finishSucceeded x r invoice hash preimage amount fee)
      fun _ _ => True := by
  refine ⟨trivial, fun _ => ⟨trivial, fun settledAt => ?_⟩⟩
  have hsub₁ : Continues log (⟨.clockNow, settledAt⟩ ::
      ⟨.recordDiagnostic .paymentSucceeded, ()⟩ :: log) := (Continues.one id).cons id
  refine ⟨⟨r, h.mono hsub₁, hown.mono hsub₁⟩, fun marked => ?_⟩
  cases marked with
  | error error => exact spec_releaseToApplication
  | ok marked =>
    have hsub₂ := hsub₁.cons (c := ⟨.ledger (.payment
      (.markPaymentSucceeded hash amount fee settledAt)), .ok marked⟩) id
    refine ⟨⟨r, h.mono hsub₂, rfl, hown.mono hsub₂⟩, fun recorded => ?_⟩
    cases recorded with
    | error error => exact spec_releaseToApplication
    | ok _ =>
      have hsub₃ := hsub₂.cons (c := ⟨.ledger (.record (.recordNwcSentPayment
        (.new r.validated.id hash r.connection invoice amount fee preimage settledAt settledAt)
        r.connection.relays)), .ok ()⟩) id
      refine (spec_ensureClaimConnectionActive (h.mono hsub₃).fresh.claimed).seq
        fun log' active hactive => ?_
      cases active with
      | error disposition => trivial
      | ok _ =>
        have hsub₄ := hsub₃.trans (hactive rfl).1
        exact spec_commitAndPublish (h.fresh.mono hsub₄) ((hown.mono hsub₄).disclosable _)

theorem spec_finishPaymentStatus {status : PaymentStatus} (h : Paying x policy wake log r)
    (hown : Attributable log r hash) :
    Spec (WakeGuard x policy wake) log (finishPaymentStatus x r invoice hash status)
      fun _ _ => True := by
  cases status with
  | unknown => exact ⟨trivial, fun _ => spec_keepPending (h.mono (.one id)) (hown.mono (.one id))⟩
  | pending => exact ⟨trivial, fun _ => spec_keepPending (h.mono (.one id)) (hown.mono (.one id))⟩
  | succeeded preimage amount fee => exact spec_finishSucceeded h hown
  | failed reason =>
    refine ⟨trivial, fun _ => ⟨trivial, fun now => ?_⟩⟩
    have hsub : Continues log (⟨.clockNow, now⟩ ::
        ⟨.recordDiagnostic (failureDiagnostic reason), ()⟩ :: log) := (Continues.one id).cons id
    refine ⟨⟨r, h.mono hsub, hown.mono hsub⟩, fun marked => ?_⟩
    cases marked with
    | error error => exact spec_releaseToApplication
    | ok marked => exact spec_respondWithError (h.fresh.mono (hsub.cons id))

/-- The payment is started under the execution's event and its attempt's fee. -/
theorem spec_startPayment (h : Paying x policy wake log r) (hsnapshot : Snapshot log r attempt)
    (hmarked : Marked log attempt) :
    Spec (WakeGuard x policy wake) log (startPayment x r invoice explicitAmount attempt)
      fun _ _ => True := by
  refine spec_deadlineContext.seq fun log' context hsub => ?_
  cases context with
  | none => exact spec_retryClaim
  | some context =>
    refine ⟨⟨r, attempt, h.mono hsub, hsnapshot.mono hsub, hmarked.mono hsub,
      h.fresh.claimed.bound.eventId, rfl⟩, fun started => ?_⟩
    have hsub' := hsub.cons (c := ⟨.wallet (.startPayment
      ⟨invoice, explicitAmount, attempt.feeReserveSat, r.validated.id⟩) context, started⟩) id
    have hpaying := h.mono hsub'
    have hown : Attributable (⟨.wallet (.startPayment
        ⟨invoice, explicitAmount, attempt.feeReserveSat, r.validated.id⟩) context, started⟩ :: log')
        r attempt.paymentHash :=
      ⟨attempt, hsnapshot.mono hsub', rfl,
        Or.inl ⟨_, context, started, List.mem_cons_self, rfl⟩⟩
    cases started with
    | ok status => exact spec_finishPaymentStatus hpaying hown
    | error error =>
      change Spec _ _ (if error.confirmsPaymentWasNotSubmitted = true then _ else _) _
      split
      · exact spec_finishPaymentStatus hpaying hown
      · exact ⟨trivial, fun _ => spec_keepPending (hpaying.mono (.one id)) (hown.mono (.one id))⟩

/-- The marker is written only after the connection was confirmed active. -/
theorem spec_initiatePayment (h : Paying x policy wake log r) (hsnapshot : Snapshot log r attempt)
    (hactive : ActivityConfirmed log r.connection) :
    Spec (WakeGuard x policy wake) log (initiatePayment x r invoice explicitAmount attempt)
      fun _ _ => True := by
  unfold initiatePayment
  split
  · rename_i hinitiated
    exact spec_startPayment h hsnapshot (Or.inl hinitiated)
  · refine spec_deadlineContext.seq fun log₁ context hsub₁ => ?_
    cases context with
    | none => exact spec_retryClaim
    | some context =>
      refine ⟨trivial, fun now => ?_⟩
      have hsub₂ : Continues log (⟨.clockNow, now⟩ :: log₁) := hsub₁.cons id
      refine ⟨⟨r, attempt, h.mono hsub₂, hsnapshot.mono hsub₂, hactive.mono hsub₂, rfl⟩, ?_⟩
      intro marked
      cases marked with
      | error error => exact spec_releaseToApplication
      | ok marked =>
        have hsub₃ := hsub₂.cons (c := ⟨.ledger (.payment
          (.markPaymentInitiated attempt.paymentHash now)), .ok marked⟩) id
        exact spec_startPayment (h.mono hsub₃) (hsnapshot.mono hsub₃)
          (Or.inr ⟨now, marked, List.mem_cons_self⟩)

theorem spec_resumePayment (h : Paying x policy wake log r) (hsnapshot : Snapshot log r attempt) :
    Spec (WakeGuard x policy wake) log (resumePayment x r invoice explicitAmount attempt)
      fun _ _ => True := by
  refine (spec_ensureClaimConnectionActive h.fresh.claimed).seq fun log' active hactive => ?_
  cases active with
  | error disposition => trivial
  | ok _ =>
    obtain ⟨hsub, hconfirmed⟩ := hactive rfl
    change Spec _ _ (if attempt.state = .succeeded then _ else _) _
    split
    · exact spec_retryClaim
    · exact spec_initiatePayment (h.mono hsub) (hsnapshot.mono hsub) hconfirmed

theorem spec_discardForeignStatus (h : Paying x policy wake log r)
    (hsnapshot : Snapshot log r attempt) (hforeign : attempt.mayDiscloseSettlement = false)
    (hnoticed : ∀ log', Continues log log' → Noticed log' attempt.paymentHash) :
    Spec (WakeGuard x policy wake) log (discardForeignStatus x r attempt) fun _ _ => True := by
  refine ⟨trivial, fun now => ?_⟩
  have hsub : Continues log (⟨.clockNow, now⟩ :: log) := .one id
  refine ⟨⟨r, attempt, h.mono hsub, hsnapshot.mono hsub, rfl, hforeign, hnoticed _ hsub⟩, ?_⟩
  intro released
  cases released with
  | error error => exact spec_releaseToApplication
  | ok _ => exact spec_respondWithError (h.fresh.mono (hsub.cons id))

/-- A status the wallet already knows is disclosed or discarded. -/
theorem spec_accountStatus {status : PaymentStatus} {context : OperationContext}
    (h : Paying x policy wake log r) (hsnapshot : Snapshot log r attempt)
    (hstatus : Answered log (.wallet (.paymentStatus attempt.paymentHash) context) (.ok status))
    (hknown : status ≠ .unknown) :
    Spec (WakeGuard x policy wake) log
      (if attempt.mayDiscloseSettlement then
        finishPaymentStatus x r invoice attempt.paymentHash status
      else discardForeignStatus x r attempt) fun _ _ => True := by
  split
  · rename_i hdisclose
    exact spec_finishPaymentStatus h ⟨attempt, hsnapshot, rfl, Or.inr hdisclose⟩
  · rename_i hforeign
    refine spec_discardForeignStatus h hsnapshot (by simpa using hforeign) fun log' hsub => ?_
    exact ⟨context, status, hstatus.mono hsub, hknown⟩

/-- A granted payment may use the payment calls of the wallet. -/
theorem Paying.wallet {op : WalletOp} (h : Paying x policy wake log r)
    (hop : op.method = .payInvoice) :
    ∃ r request method, Permitted x policy wake log r request method ∧
      request.params.method = protocolMethod op.method := by
  obtain ⟨request, payment, hpermitted, hparams⟩ := h
  exact ⟨r, request, .payInvoice, hpermitted, by rw [hparams, hop]; rfl⟩

theorem spec_checkPaymentStatus (h : Paying x policy wake log r)
    (hsnapshot : Snapshot log r attempt) :
    Spec (WakeGuard x policy wake) log (checkPaymentStatus x r invoice explicitAmount attempt)
      fun _ _ => True := by
  refine spec_deadlineContext.seq fun log' context hsub => ?_
  cases context with
  | none => exact spec_retryClaim
  | some context =>
    refine ⟨(h.mono hsub).wallet rfl, fun status => ?_⟩
    have hsub' := hsub.cons
      (c := ⟨.wallet (.paymentStatus attempt.paymentHash) context, status⟩) id
    have hpaying := h.mono hsub'
    have hcurrent := hsnapshot.mono hsub'
    match status with
    | .error error => exact ⟨trivial, fun _ => spec_retryClaim⟩
    | .ok .unknown => exact spec_resumePayment hpaying hcurrent
    | .ok .pending => exact spec_accountStatus hpaying hcurrent List.mem_cons_self (by simp)
    | .ok (.succeeded preimage amount fee) =>
      exact spec_accountStatus hpaying hcurrent List.mem_cons_self (by simp)
    | .ok (.failed reason) =>
      exact spec_accountStatus hpaying hcurrent List.mem_cons_self (by simp)

theorem spec_continuePayment (h : Paying x policy wake log r)
    (hsnapshot : Snapshot log r attempt) :
    Spec (WakeGuard x policy wake) log (continuePayment x r invoice explicitAmount attempt)
      fun _ _ => True := by
  unfold continuePayment
  split
  · exact spec_respondWithError h.fresh
  · split
    · refine (spec_ensureClaimConnectionActive h.fresh.claimed).seq fun log' active hactive => ?_
      cases active with
      | error disposition => trivial
      | ok _ => exact spec_respondWithError (h.fresh.mono (hactive rfl).1)
    · split
      · exact spec_resumePayment h hsnapshot
      · exact spec_checkPaymentStatus h hsnapshot

theorem spec_reserveQuoted {payment : Nip47.PayInvoiceRequest} {principal : Nat}
    (h : Paying x policy wake log r) :
    Spec (WakeGuard x policy wake) log (reserveQuoted x r payment hash principal)
      fun _ _ => True := by
  refine ⟨trivial, fun now => ?_⟩
  have hsub : Continues log (⟨.clockNow, now⟩ :: log) := .one id
  refine ⟨⟨r, h.mono hsub, rfl, rfl⟩, fun reservation => ?_⟩
  have hpaying := h.mono (hsub.cons (c := ⟨.ledger (.payment
    (.reservePayment r.validated.id hash r.connection principal now)), reservation⟩) id)
  match reservation with
  | .ok (.reserved attempt) => exact spec_continuePayment hpaying (.reserved List.mem_cons_self)
  | .ok (.existing attempt) => exact spec_continuePayment hpaying (.existing List.mem_cons_self)
  | .ok (.alreadyTracked attempt) => exact spec_respondWithError hpaying.fresh
  | .error .budgetExceeded =>
    exact ⟨trivial, fun _ => spec_respondWithError (hpaying.fresh.mono (.one id))⟩
  | .error .connectionUnavailable => exact spec_rejectClaim hpaying.fresh.claimed
  | .error .invalidAmount => exact spec_respondWithError hpaying.fresh
  | .error .valueOutOfRange => exact spec_respondWithError hpaying.fresh
  | .error .reservationConflict => exact spec_respondWithError hpaying.fresh
  | .error .databaseUnavailable => exact spec_releaseToApplication
  | .error .corruptData => exact spec_releaseToApplication
  | .error .terminalStateConflict => exact spec_releaseToApplication

theorem spec_quotePayment {payment : Nip47.PayInvoiceRequest} (h : Paying x policy wake log r) :
    Spec (WakeGuard x policy wake) log (quotePayment x r payment) fun _ _ => True := by
  refine spec_deadlineContext.seq fun log' context hsub => ?_
  cases context with
  | none => exact spec_releaseToApplication
  | some context =>
    refine ⟨(h.mono hsub).wallet rfl, fun quote => ?_⟩
    have hpaying := h.mono (hsub.cons
      (c := ⟨.wallet (.quotePayment payment.invoice payment.amount) context, quote⟩) id)
    cases quote with
    | error error =>
      refine ⟨trivial, fun _ => ?_⟩
      dsimp only [Prog.bind]
      split
      · exact spec_retryClaim
      · split
        · exact spec_releaseToApplication
        · exact spec_respondWithError (hpaying.fresh.mono (.one id))
    | ok quote =>
      dsimp only [Prog.bind]
      split
      · exact spec_respondWithError hpaying.fresh
      · split
        · exact spec_respondWithError hpaying.fresh
        · exact spec_reserveQuoted hpaying

theorem spec_executePayment {payment : Nip47.PayInvoiceRequest} (h : Paying x policy wake log r) :
    Spec (WakeGuard x policy wake) log (executePayment x r payment) fun _ _ => True := by
  refine ⟨trivial, fun existing => ?_⟩
  have hpaying := h.mono (Continues.one
    (c := ⟨.ledger (.payment (.loadPaymentAttemptByEvent r.validated.id)), existing⟩) id)
  match existing with
  | .error error => exact spec_releaseToApplication
  | .ok (some attempt) =>
    dsimp only [Prog.bind]
    split
    · exact spec_respondWithError hpaying.fresh
    · rename_i hsame
      push Not at hsame
      exact spec_continuePayment hpaying (.loaded List.mem_cons_self hsame.1)
  | .ok none =>
    dsimp only [Prog.bind]
    split
    · exact spec_respondWithError hpaying.fresh
    · exact spec_quotePayment hpaying

end Payments

section Requests

variable {method : NwcMethod} {context : OperationContext}

/-- The request had no payment's result. -/
def NotPayment (result : Except HostError DirectRequestResult) : Prop :=
  ∀ value preimage fees, result = .ok value → value.result ≠ .payInvoice preimage fees

theorem notPayment_error {error : HostError} : NotPayment (.error error) := by
  intro value preimage fees hok
  cases hok

theorem notPayment_ok {value : DirectRequestResult}
    (h : ∀ preimage fees, value.result ≠ .payInvoice preimage fees) : NotPayment (.ok value) := by
  intro value' preimage fees hok
  cases hok
  exact h preimage fees

theorem notPayment_lookupResult {transaction : Option WalletTransaction} :
    NotPayment (lookupResult transaction) := by
  unfold lookupResult
  split
  · exact notPayment_error
  · split
    · exact notPayment_error
    · exact notPayment_ok (by simp)

theorem spec_makeInvoice {params : Nip47.MakeInvoiceRequest}
    (h : Permitted x policy wake log r request method)
    (hparams : request.params.method = .makeInvoice) :
    Spec (WakeGuard x policy wake) log (makeInvoice r params context)
      fun log' result => Continues log log' ∧ NotPayment result := by
  unfold makeInvoice
  split
  · exact ⟨.refl log, notPayment_error⟩
  · refine ⟨trivial, fun createdAt => ⟨trivial, fun existing => ?_⟩⟩
    have hread : Continues log (⟨.ledger (.record (.loadNwcInvoice r.validated.id)), existing⟩ ::
        ⟨.clockNow, createdAt⟩ :: log) := (Continues.one id).cons id
    match existing with
    | .error error => exact ⟨hread, notPayment_error⟩
    | .ok (some tracked) => exact ⟨hread, notPayment_ok (by simp [makeInvoiceResult])⟩
    | .ok none =>
      refine ⟨⟨r, request, method, h.mono hread, hparams⟩, fun created => ?_⟩
      cases created with
      | error error => exact ⟨hread.cons id, notPayment_error⟩
      | ok created =>
        refine ⟨trivial, fun recorded => ?_⟩
        cases recorded with
        | error error => exact ⟨(hread.cons id).cons id, notPayment_error⟩
        | ok tracked => exact ⟨(hread.cons id).cons id, notPayment_ok (by simp [makeInvoiceResult])⟩

theorem spec_trackedLookup {params : LookupInvoiceRequest} :
    Spec (WakeGuard x policy wake) log (trackedLookup params)
      fun log' _ => Continues log log' := by
  unfold trackedLookup
  split
  · exact ⟨trivial, fun _ => .one id⟩
  · split
    · exact .refl log
    · exact ⟨trivial, fun _ => .one id⟩
  · exact .refl log

theorem spec_lookupFallback {tracked : Option TrackedNwcInvoice} :
    Spec (WakeGuard x policy wake) log (lookupFallback tracked)
      fun log' _ => Continues log log' := by
  cases tracked with
  | none => exact .refl log
  | some invoice => exact ⟨trivial, fun _ => .one id⟩

theorem spec_lookupInvoice {params : LookupInvoiceRequest}
    (h : Permitted x policy wake log r request method)
    (hparams : request.params.method = .lookupInvoice) :
    Spec (WakeGuard x policy wake) log (lookupInvoice params context)
      fun log' result => Continues log log' ∧ NotPayment result := by
  refine spec_trackedLookup.seq fun log' tracked hsub => ?_
  cases tracked with
  | error error => exact ⟨hsub, notPayment_error⟩
  | ok tracked =>
    dsimp only
    split
    · exact ⟨hsub, notPayment_error⟩
    · refine ⟨⟨r, request, method, h.mono hsub, hparams⟩, fun found => ?_⟩
      match found with
      | .error error => exact ⟨hsub.cons id, notPayment_error⟩
      | .ok (some transaction) => exact ⟨hsub.cons id, notPayment_lookupResult⟩
      | .ok none =>
        exact spec_lookupFallback.seq fun _ _ hfallback =>
          ⟨(hsub.cons id).trans hfallback, notPayment_lookupResult⟩

theorem spec_listTransactions {params : Nip47.ListTransactionsRequest}
    (h : Permitted x policy wake log r request method)
    (hparams : request.params.method = .listTransactions) :
    Spec (WakeGuard x policy wake) log (listTransactions params context)
      fun log' result => Continues log log' ∧ NotPayment result := by
  unfold listTransactions
  split
  · exact ⟨.refl log, notPayment_error⟩
  · refine ⟨⟨r, request, method, h, hparams⟩, fun listed => ?_⟩
    cases listed with
    | error error => exact ⟨.one id, notPayment_error⟩
    | ok transactions =>
      dsimp only [Prog.bind]
      split
      · exact ⟨.one id, notPayment_error⟩
      · exact ⟨.one id, notPayment_ok (by simp)⟩

/-- Whichever parameters the request carries, only its own wallet call is made. -/
theorem spec_executeRequest (h : Permitted x policy wake log r request method) :
    Spec (WakeGuard x policy wake) log (executeRequest request r context)
      fun log' result => Continues log log' ∧ NotPayment result := by
  unfold executeRequest
  split
  · rename_i hparams
    refine ⟨⟨r, request, method, h, by rw [hparams]; rfl⟩, fun info => ?_⟩
    cases info with
    | error error => exact ⟨.one id, notPayment_error⟩
    | ok info => exact ⟨.one id, notPayment_ok (by simp [getInfoResult])⟩
  · rename_i hparams
    refine ⟨⟨r, request, method, h, by rw [hparams]; rfl⟩, fun balance => ?_⟩
    cases balance with
    | error error => exact ⟨.one id, notPayment_error⟩
    | ok balance => exact ⟨.one id, notPayment_ok (by simp)⟩
  · rename_i hparams
    exact spec_makeInvoice h (by rw [hparams]; rfl)
  · rename_i hparams
    exact spec_lookupInvoice h (by rw [hparams]; rfl)
  · rename_i hparams
    exact spec_listTransactions h (by rw [hparams]; rfl)
  · exact ⟨.refl log, notPayment_error⟩
  · exact ⟨.refl log, notPayment_error⟩

end Requests

section Execute

variable {method : NwcMethod}

theorem spec_executeDirect (h : Permitted x policy wake log r request method) :
    Spec (WakeGuard x policy wake) log (executeDirect x r request method) fun _ _ => True := by
  refine (spec_ensureClaimConnectionActive h.fresh.claimed).seq fun log₁ active hactive => ?_
  cases active with
  | error disposition => trivial
  | ok _ =>
    refine spec_deadlineContext.seq fun log₂ context hsub₂ => ?_
    cases context with
    | none => exact spec_releaseToApplication
    | some context =>
      have hpermitted := h.mono ((hactive rfl).1.trans hsub₂)
      refine (spec_executeRequest hpermitted).seq fun log₃ result hexecuted => ?_
      obtain ⟨hsub₃, hdirect⟩ := hexecuted
      cases result with
      | error error =>
        dsimp only
        split
        · exact spec_retryClaim
        · split
          · exact spec_releaseToApplication
          · exact spec_respondWithError (hpermitted.fresh.mono hsub₃)
      | ok result =>
        refine (spec_ensureClaimConnectionActive (hpermitted.fresh.claimed.mono hsub₃)).seq
          fun log₄ stillActive hstillActive => ?_
        cases stillActive with
        | error disposition => trivial
        | ok _ =>
          refine spec_commitAndPublish (hpermitted.fresh.mono (hsub₃.trans (hstillActive rfl).1)) ?_
          intro preimage fees hresult
          exact absurd (Option.some.inj hresult) (hdirect result preimage fees rfl)

/-- Only a granted method is carried out. -/
theorem spec_dispatchRequest (h : Fresh x policy wake log r)
    (hdecrypted : ∃ context secret, Answered log (.loadNwcSecret r.connection.id context)
      (.ok secret) ∧ parseRequest x r.validated secret = .ok request) :
    Spec (WakeGuard x policy wake) log (dispatchRequest x r request) fun _ _ => True := by
  unfold dispatchRequest
  split
  · exact spec_respondWithError h
  · rename_i method hmethod
    split
    · exact spec_respondWithError h
    · rename_i hgranted
      have hpermitted : Permitted x policy wake log r request method :=
        ⟨h, hdecrypted, hmethod, by simpa using hgranted⟩
      split
      · rename_i hpay
        refine ⟨trivial, fun _ => ?_⟩
        dsimp only [Prog.bind]
        split
        · rename_i payment hparams
          rw [hpay] at hpermitted
          exact spec_executePayment
            ⟨request, payment, hpermitted.mono (.one id), hparams⟩
        · exact spec_rejectClaim (h.claimed.mono (.one id))
      · split
        · exact spec_respondWithError h
        · exact spec_executeDirect hpermitted

theorem spec_acceptFreshness (h : Claimed x wake log r) :
    Spec (WakeGuard x policy wake) log (acceptFreshness policy r)
      fun log' result => result = .ok () → Fresh x policy wake log' r := by
  unfold acceptFreshness
  split
  · rename_i hearlier
    exact fun _ => ⟨h, Or.inl hearlier⟩
  · refine ⟨trivial, fun now => ?_⟩
    dsimp only [Prog.bind]
    split
    · rename_i htime
      refine ⟨trivial, fun acceptedAt => ?_⟩
      have hclock : Answered (⟨.clockNow, acceptedAt⟩ :: ⟨.clockNow, now⟩ :: log) .clockNow now :=
        List.mem_cons_of_mem _ List.mem_cons_self
      have hclaimed : Claimed x wake (⟨.clockNow, acceptedAt⟩ :: ⟨.clockNow, now⟩ :: log) r :=
        h.mono ((Continues.one id).cons id)
      refine ⟨⟨r, now, log, rfl, h, rfl, htime⟩, fun accepted => ?_⟩
      cases accepted with
      | error error => exact spec_releaseToApplication.seq fun _ _ _ hok => by cases hok
      | ok done =>
        intro _
        exact ⟨hclaimed.mono (.one id),
          Or.inr ⟨⟨now, List.mem_cons_of_mem _ hclock, htime⟩, acceptedAt, List.mem_cons_self⟩⟩
    · exact (spec_rejectClaim (h.mono (.one id))).seq
        fun _ _ _ hok => by cases hok

theorem spec_decryptRequest (h : Fresh x policy wake log r) :
    Spec (WakeGuard x policy wake) log (decryptRequest x r) fun log' result =>
      ∀ request, result = .ok request → Fresh x policy wake log' r ∧ ∃ context secret,
        Answered log' (.loadNwcSecret r.connection.id context) (.ok secret) ∧
          parseRequest x r.validated secret = .ok request := by
  refine spec_deadlineContext.seq fun log₁ context hsub => ?_
  cases context with
  | none => exact spec_releaseToApplication.seq fun _ _ _ _ hok => by cases hok
  | some context =>
    refine ⟨⟨r, h.mono hsub, rfl⟩, fun secret => ?_⟩
    cases secret with
    | error error => exact spec_releaseToApplication.seq fun _ _ _ _ hok => by cases hok
    | ok secret =>
      dsimp only [Prog.bind]
      split
      · rename_i request hrequest
        intro found hfound
        cases hfound
        exact ⟨h.mono (hsub.cons id), context, secret, List.mem_cons_self, hrequest⟩
      · exact (spec_rejectClaim (h.claimed.mono (hsub.cons id))).seq
          fun _ _ _ _ hok => by cases hok

theorem spec_executeClaimed (h : Claimed x wake log r) :
    Spec (WakeGuard x policy wake) log (executeClaimed x policy r) fun _ _ => True := by
  refine (spec_acceptFreshness h).seq fun log₁ fresh hfresh => ?_
  cases fresh with
  | error disposition => trivial
  | ok _ =>
    refine (spec_decryptRequest (hfresh rfl)).seq fun log₂ decrypted hdecrypted => ?_
    cases decrypted with
    | error disposition => trivial
    | ok request =>
      obtain ⟨hstill, hsecret⟩ := hdecrypted request rfl
      exact spec_dispatchRequest hstill hsecret

/-- An acquired claim leads to the execution, a terminal row to its replay. -/
theorem spec_claimAndExecute (h : Bound x wake log relay connection validated) :
    Spec (WakeGuard x policy wake) log (claimAndExecute x policy relay connection validated)
      fun _ _ => True := by
  refine ⟨trivial, fun remaining => ?_⟩
  dsimp only [Prog.bind]
  split
  · trivial
  · rename_i duration _
    refine ⟨trivial, fun now => ⟨⟨h.eventId, rfl⟩, fun outcome => ?_⟩⟩
    have hbound := h.mono ((((Continues.one (c := ⟨.deadlineRemaining, remaining⟩) id).cons
      (c := ⟨.clockNow, now⟩) id)).cons (c := ⟨.ledger (.claim (.claimEvent validated.id
        connection.id connection.revision now duration)), outcome⟩) id)
    match outcome with
    | .error error => trivial
    | .ok (.inProgress retryAfter) => trivial
    | .ok (.terminal terminal) =>
      refine spec_republishTerminal hbound fun json hjson => ?_
      rw [← h.eventId]
      exact .found List.mem_cons_self hjson
    | .ok (.acquired lease) =>
      exact spec_executeClaimed ⟨hbound, now, duration, List.mem_cons_self⟩

theorem spec_obtainEvent :
    Spec (WakeGuard x policy wake) log (obtainEvent policy wake relay)
      fun log' _ => Continues log log' := by
  unfold obtainEvent
  split
  · exact .refl log
  · refine spec_deadlineContext.seq fun log' context hsub => ?_
    cases context with
    | none => exact hsub
    | some context =>
      refine ⟨trivial, fun fetched => ?_⟩
      match fetched with
      | .ok (some event) => exact hsub.cons id
      | .ok none => exact hsub.cons id
      | .error error =>
        dsimp only [Prog.bind]
        split <;> exact hsub.cons id

theorem spec_bindConnection {now : UnixTimestamp} {eventJson : String}
    (hopen : Unfinished log)
    (hparsed : SecureRelayUrl.parse x wake.relay = .ok relay)
    (happroved : Answered log (.ledger (.registry
      (.isRelayApprovedForWallet wake.walletServicePubkey relay now))) (.ok true)) :
    Spec (WakeGuard x policy wake) log (bindConnection x policy wake relay now eventJson)
      fun log' result => ∀ connection validated, result = .ok (connection, validated) →
        Bound x wake log' relay connection validated := by
  unfold bindConnection
  split
  · exact fun _ _ hok => by cases hok
  · rename_i author _
    refine ⟨trivial, fun found => ?_⟩
    match found with
    | .error error => exact fun _ _ hok => by cases hok
    | .ok none => exact fun _ _ hok => by cases hok
    | .ok (some connection) =>
      dsimp only [Prog.bind]
      split
      · exact fun _ _ hok => by cases hok
      · rename_i hexpired
        split
        · exact fun _ _ hok => by cases hok
        · rename_i hallowed
          split
          · exact fun _ _ hok => by cases hok
          · rename_i validated hvalidated
            intro connection' validated' hok
            cases hok
            obtain ⟨hid, event, hauthentic⟩ := validateRequestForReplay_ok hvalidated
            exact
              { unfinished := hopen.mono (.one id)
                parsed := hparsed
                approved := ⟨now, List.mem_cons_of_mem _ happroved, by simpa using hexpired⟩
                loaded := ⟨author, List.mem_cons_self⟩
                allowed := by simpa using hallowed
                eventId := hid
                authentic := ⟨eventJson, event, hauthentic⟩ }

theorem spec_executeApproved {now : UnixTimestamp}
    (hopen : Unfinished log)
    (hparsed : SecureRelayUrl.parse x wake.relay = .ok relay)
    (happroved : Answered log (.ledger (.registry
      (.isRelayApprovedForWallet wake.walletServicePubkey relay now))) (.ok true)) :
    Spec (WakeGuard x policy wake) log (executeApproved x policy wake relay now)
      fun _ _ => True := by
  refine spec_obtainEvent.seq fun log₁ obtained hsub₁ => ?_
  cases obtained with
  | error disposition => trivial
  | ok eventJson =>
    refine (spec_bindConnection (hopen.mono hsub₁) hparsed (happroved.mono hsub₁)).seq
      fun log₂ bound hbound => ?_
    match bound with
    | .error disposition => trivial
    | .ok (connection, validated) =>
      exact spec_claimAndExecute (hbound connection validated rfl)

theorem spec_execute : Spec (WakeGuard x policy wake) [] (execute x policy wake)
    fun _ _ => True := by
  refine ⟨trivial, fun cancelled => ?_⟩
  cases cancelled with
  | true => trivial
  | false =>
    refine ⟨trivial, fun now => ?_⟩
    dsimp only [Prog.bind]
    split
    · trivial
    · rename_i relay hparsed
      refine ⟨trivial, fun approved => ?_⟩
      match approved with
      | .ok true =>
        refine spec_executeApproved (fun call hcall => ?_) hparsed List.mem_cons_self
        simp only [List.mem_cons, List.not_mem_nil, or_false] at hcall
        rcases hcall with rfl | rfl | rfl <;> exact id
      | .ok false => trivial
      | .error error => trivial

end Execute

end Wake

section Passive

variable {log : HostLog}

theorem spec_passiveContext :
    Spec PassiveGuard log deadlineContext fun log' _ => log ⊆ log' := by
  refine ⟨trivial, fun cancelled => ?_⟩
  cases cancelled with
  | true => exact List.subset_cons_self _ _
  | false =>
    exact ⟨trivial, fun remaining =>
      List.Subset.trans (List.subset_cons_self _ _) (List.subset_cons_self _ _)⟩

theorem Unresolved.mono {log' : HostLog} {attempt : PaymentAttempt} (h : Unresolved log attempt)
    (hsub : log ⊆ log') : Unresolved log' attempt := by
  obtain ⟨limit, attempts, more, hanswered, hmem⟩ := h
  exact ⟨limit, attempts, more, hsub hanswered, hmem⟩

theorem spec_applyStatus {attempt : PaymentAttempt} {report : PaymentReconciliationReport}
    {status : PaymentStatus} {context : OperationContext} (h : Unresolved log attempt)
    (hstatus : Answered log (.wallet (.paymentStatus attempt.paymentHash) context) (.ok status)) :
    Spec PassiveGuard log (applyStatus attempt report status) fun log' _ => log ⊆ log' := by
  have hread : ∀ now : UnixTimestamp, log ⊆ (⟨.clockNow, now⟩ :: log : HostLog) :=
    fun now => List.subset_cons_self _ _
  have hmarked : ∀ (now : UnixTimestamp) (marked : HostCall),
      log ⊆ (marked :: ⟨.clockNow, now⟩ :: log : HostLog) := fun now marked =>
    List.Subset.trans (hread now) (List.subset_cons_self _ _)
  unfold applyStatus
  split
  · rename_i hforeign
    refine ⟨trivial, fun now => ⟨⟨attempt, h.mono (hread now), rfl, hforeign.2, context, status,
      hread now hstatus, hforeign.1⟩, fun released => hmarked now _⟩⟩
  · rename_i hown
    have hdisclose : status ≠ .unknown → ∀ now : UnixTimestamp,
        Reconciling (⟨.clockNow, now⟩ :: log) attempt.paymentHash := by
      intro hknown now
      refine ⟨attempt, h.mono (hread now), rfl, ?_⟩
      by_contra hundisclosed
      exact hown ⟨hknown, by simpa using hundisclosed⟩
    split
    · exact List.Subset.refl log
    · split
      · exact ⟨trivial, fun now => ⟨hdisclose (by simp) now, fun marked => hmarked now _⟩⟩
      · exact List.Subset.refl log
    · exact ⟨trivial, fun now => ⟨hdisclose (by simp) now, fun marked => hmarked now _⟩⟩
    · exact ⟨trivial, fun now => ⟨hdisclose (by simp) now, fun marked => hmarked now _⟩⟩

theorem spec_reconcileAttempts {attempts : List PaymentAttempt} {pass : ReconciliationPass}
    (h : ∀ attempt ∈ attempts, Unresolved log attempt) :
    Spec PassiveGuard log (reconcileAttempts attempts pass) fun _ _ => True := by
  induction attempts generalizing log pass with
  | nil => trivial
  | cons attempt rest ih =>
    have hrest : ∀ log', log ⊆ log' → ∀ other ∈ rest, Unresolved log' other :=
      fun log' hsub other hother => (h other (List.mem_cons_of_mem _ hother)).mono hsub
    unfold reconcileAttempts
    split
    · exact ih (hrest log (List.Subset.refl log))
    · refine spec_passiveContext.seq fun log₁ context hsub₁ => ?_
      cases context with
      | none => trivial
      | some context =>
        refine ⟨trivial, fun status => ?_⟩
        have hsub₂ := List.Subset.trans hsub₁
          (List.subset_cons_self ⟨.wallet (.paymentStatus attempt.paymentHash) context, status⟩ log₁)
        cases status with
        | error error => exact ih (hrest _ hsub₂)
        | ok status =>
          refine (spec_applyStatus ((h attempt List.mem_cons_self).mono hsub₂)
            List.mem_cons_self).seq fun log₃ updated hsub₃ => ?_
          cases updated with
          | error error => trivial
          | ok report => exact ih (hrest _ (List.Subset.trans hsub₂ hsub₃))

theorem spec_reconcile {maxAttempts : Nat} :
    Spec PassiveGuard log (reconcile maxAttempts) fun _ _ => True := by
  unfold reconcile
  split
  · trivial
  · refine spec_passiveContext.seq fun log' context _ => ?_
    cases context with
    | none => trivial
    | some context =>
      refine ⟨trivial, fun loaded => ?_⟩
      match loaded with
      | .error error => trivial
      | .ok (attempts, more) =>
        refine (spec_reconcileAttempts fun attempt hattempt =>
          ⟨maxAttempts, attempts, more, List.mem_cons_self, hattempt⟩).seq fun _ pass _ => ?_
        cases pass <;> trivial

theorem spec_migrateLegacyBatch {imports : List LegacyConnectionImport}
    {result : LegacyMigrationResult} :
    Spec PassiveGuard log (migrateLegacyBatch imports result) fun _ _ => True := by
  induction imports generalizing log result with
  | nil => trivial
  | cons legacy rest ih =>
    refine ⟨trivial, fun stored => ?_⟩
    match stored with
    | .error error => trivial
    | .ok none =>
      refine ⟨trivial, fun now => ⟨trivial, fun imported => ?_⟩⟩
      cases imported with
      | error error => trivial
      | ok active => exact ih
    | .ok (some (.active active)) =>
      dsimp only [Prog.bind]
      split
      · exact ih
      · trivial
    | .ok (some (.tombstoned tombstone)) => exact ih

end Passive

/-- Every program keeps its guard, whatever it is answered. -/
theorem Job.spec (x : Crates) (job : Job) :
    Spec (job.Guard x) [] (job.program x) fun _ _ => True := by
  cases job with
  | wake policy input => exact spec_execute.seq fun _ _ _ => trivial
  | reconcile maxAttempts => exact spec_reconcile.seq fun _ _ _ => trivial
  | migrate imports => exact spec_migrateLegacyBatch.seq fun _ _ _ => trivial

section Runs

variable {x : Crates} {outside : HostCall → Prop} {l : Ledger} {later earlier : SystemHistory}
  {event : Event SystemWorld SystemLabel} {w w' : SystemWorld} {i : Nat} {call : HostCall}

/-- In every run an action keeps the guard of the program that takes it, and
what that program's log holds happened before. -/
theorem SystemRun.act_guard (hrun : SystemRun x outside l (later ++ event :: earlier) w)
    (hlabel : event.label = .act i call) :
    ∃ t, event.before.threads[i]? = some t ∧ t.job.Guard x t.log call.op ∧
      ∀ prior ∈ t.log, ∃ event' ∈ earlier, event'.label = .act i prior := by
  obtain ⟨hbefore, -, -⟩ := hrun.split
  have hmem : event ∈ later ++ event :: earlier := by simp
  obtain ⟨t, hthread, -, hguard⟩ := act_spec (Q := fun _ _ _ => True) (Job.spec x) hrun hmem hlabel
  exact ⟨t, hthread, hguard, fun prior hprior => log_event hbefore i t hthread prior hprior⟩

/-- A ledger operation of a program is one step of the ledger. -/
theorem SystemStep.ledgerStep {op : LedgerOp} {reply : op.Reply}
    (h : SystemStep x outside w (.act i ⟨.ledger op, reply⟩) w') :
    LedgerStep x w.shared ⟨op, reply⟩ w'.shared := by
  obtain ⟨ledgerCall, hcall, hstep⟩ | ⟨hnone, -⟩ := SystemStep.ledger h
  · rw [← Option.some.inj hcall] at hstep
    exact hstep
  · cases hnone

end Runs

end NwcMobile
