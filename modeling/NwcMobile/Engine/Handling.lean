import NwcMobile.Engine.Footprint

/-!
Guards on the operations by which an execution gives up its claim. Whatever holds
under the claim and is kept by every other operation is still there when the claim
is handed back, rejected or completed; so a guard on those few operations has to be
shown for each of them once, and not for each path that leads there.
-/

namespace NwcMobile

open Program Prog Concurrent Transition Nip47

/-- The operation may change what an execution holds a claim of. -/
def Activity.onClaim : Activity → Bool
  | .claiming | .accepting | .releasing | .completing => true
  | _ => false

/-- The guard `S` follows from `H` wherever an execution uses the claim of `r`, as long
as the responses it commits satisfy `P`; and every operation that leaves the claim
alone keeps `H`. -/
structure Upholds (x : Crates) (S : HostLog → HostOp → Prop) (H : HostLog → Prop)
    (P : Response → Prop) (r : ClaimedRequest) : Prop where
  plain : ∀ log op, op.activity.onClaim = false → S log op
  kept : ∀ log op reply, H log → op.activity.onClaim = false → H (⟨op, reply⟩ :: log)
  accepts : ∀ log now, H log →
    S (⟨.clockNow, now⟩ :: log) (.ledger (.claim (.acceptEventFreshness r.lease now))) ∧
      ∀ reply, H (⟨.ledger (.claim (.acceptEventFreshness r.lease now)), reply⟩ ::
        ⟨.clockNow, now⟩ :: log)
  releases : ∀ log now, H log → S (⟨.clockNow, now⟩ :: log)
    (.ledger (.claim (.retryLater r.lease now engineRetryDelay)))
  rejects : ∀ log now, H log → S (⟨.clockNow, now⟩ :: log)
    (.ledger (.claim (.completeEvent r.lease .rejected none now)))
  commits : ∀ log response secret createdAt nonce json method now, H log → P response →
    r.validated.buildResponseEvent x secret (x.responseAsJson response) createdAt nonce = .ok json →
      Spec S (⟨.clockNow, now⟩ :: log) (completeForActive r json method now) fun log' done =>
        ∀ error, done = .error error → H log'

theorem onClaim_of_republishing {a : Activity} (h : republishing a = true) :
    a.onClaim = false := by
  cases a <;> first | rfl | cases h

theorem onClaim_of_binding {a : Activity} (h : binding a = true) : a.onClaim = false := by
  cases a <;> first | rfl | cases h

theorem onClaim_of_reconciling {a : Activity} (h : reconciling a = true) : a.onClaim = false := by
  cases a <;> first | rfl | cases h

section Stages

variable {x : Crates} {S : HostLog → HostOp → Prop} {H : HostLog → Prop} {P : Response → Prop}
  {r : ClaimedRequest} {log : HostLog} {policy : WakePolicy}

/-- A stage that may end the execution early, and otherwise keeps `H`. -/
abbrev UpheldStage {α : Type} (S : HostLog → HostOp → Prop) (H : HostLog → Prop) (log : HostLog)
    (p : HostProg (Except WakeDisposition α)) : Prop :=
  Spec S log p fun log' result => ∀ a, result = .ok a → H log'

theorem Upholds.within {α : Type} {K : Activity → Bool} {p : HostProg α} (h : Upholds x S H P r)
    (hp : Within K log p) (hK : ∀ a, K a = true → a.onClaim = false) (hlog : H log) :
    Spec S log p fun log' _ => H log' := by
  have hkept := hp.keeps (fun log op reply hop hH => h.kept log op reply hH (hK _ hop)) hlog
  exact (hkept.imp fun _ _ hend => hend.2).guard_imp fun log op hop => h.plain log op (hK _ hop)

variable (h : Upholds x S H P r)

include h

theorem Upholds.deadlineContext (hlog : H log) :
    Spec S log deadlineContext fun log' _ => H log' := by
  apply h.within (K := (· == .ambient)) (within_deadlineContext rfl) _ hlog
  intro a ha
  cases eq_of_beq ha
  rfl

theorem Upholds.rejectClaim {code : RejectionCode} (hlog : H log) :
    Spec S log (rejectClaim r.lease code) fun _ _ => True := by
  refine ⟨h.plain _ _ rfl, fun now => ⟨h.rejects log now hlog, fun done => ?_⟩⟩
  cases done <;> trivial

theorem Upholds.retryClaim {reason : RetryReason} (hlog : H log) :
    Spec S log (retryClaim r.lease reason) fun _ _ => True := by
  refine ⟨h.plain _ _ rfl, fun now => ⟨h.releases log now hlog, fun done => ?_⟩⟩
  cases done <;> trivial

theorem Upholds.releaseToApplication {reason : QueueReason} (hlog : H log) :
    Spec S log (releaseToApplication r.lease reason) fun _ _ => True := by
  refine ⟨h.plain _ _ rfl, fun now => ⟨h.releases log now hlog, fun done => ?_⟩⟩
  cases done <;> trivial

theorem Upholds.completionFailed {error : LedgerError} (hlog : H log) :
    Spec S log (completionFailed r.lease error) fun _ _ => True := by
  unfold NwcMobile.completionFailed
  split
  · trivial
  · trivial
  · trivial
  · exact h.retryClaim hlog

theorem Upholds.ensureClaimConnectionActive (hlog : H log) :
    UpheldStage S H log (ensureClaimConnectionActive r.connection r.lease) := by
  refine ⟨h.plain _ _ rfl, fun active => ?_⟩
  have hactive := h.kept _ (.ledger (.registry (.isConnectionRevisionActive r.connection.id
    r.connection.revision))) active hlog rfl
  match active with
  | .ok true =>
    intro _ _
    exact hactive
  | .ok false =>
    apply (h.rejectClaim hactive).seq
    intro _ _ _ _ heq
    cases heq
  | .error _ =>
    apply (h.releaseToApplication hactive).seq
    intro _ _ _ _ heq
    cases heq

theorem Upholds.commitAndPublish {response : Response} (hresponse : P response) (hlog : H log) :
    Spec S log (commitAndPublish x r response) fun _ _ => True := by
  refine (h.deadlineContext hlog).seq fun log₁ context hlog₁ => ?_
  cases context with
  | none => exact h.releaseToApplication hlog₁
  | some context =>
    refine ⟨h.plain _ _ rfl, fun secret => ?_⟩
    have hsecret := h.kept _ (.loadNwcSecret r.connection.id context) secret hlog₁ rfl
    cases secret with
    | error error => exact h.releaseToApplication hsecret
    | ok secret =>
      refine ⟨h.plain _ _ rfl, fun createdAt => ⟨h.plain _ _ rfl, fun nonce => ?_⟩⟩
      have hnonce := h.kept _ .nonce nonce (h.kept _ .clockNow createdAt hsecret rfl) rfl
      dsimp only [Prog.bind]
      split
      · exact h.rejectClaim hnonce
      · rename_i json hbuilt
        refine ⟨h.plain _ _ rfl, fun now => ?_⟩
        refine (h.commits _ response secret createdAt nonce json _ now hnonce hresponse hbuilt).seq
          fun log₂ done hdone => ?_
        cases done with
        | error error => exact h.completionFailed (hdone error rfl)
        | ok _ =>
          apply within_republishTerminal.guard_imp
          intro log op hop
          exact h.plain log op (onClaim_of_republishing hop)

theorem Upholds.acceptFreshness (hlog : H log) :
    UpheldStage S H log (acceptFreshness policy r) := by
  unfold NwcMobile.acceptFreshness
  split
  · intro _ _
    exact hlog
  · refine ⟨h.plain _ _ rfl, fun now => ?_⟩
    have hclock := h.kept _ .clockNow now hlog rfl
    dsimp only [Prog.bind]
    split
    · refine ⟨h.plain _ _ rfl, fun acceptedAt => ?_⟩
      obtain ⟨haccepts, hkept⟩ := h.accepts _ acceptedAt hclock
      refine ⟨haccepts, fun accepted => ?_⟩
      cases accepted with
      | ok _ =>
        intro _ _
        exact hkept _
      | error _ =>
        apply (h.releaseToApplication (hkept _)).seq
        intro _ _ _ _ heq
        cases heq
    · apply (h.rejectClaim hclock).seq
      intro _ _ _ _ heq
      cases heq

theorem Upholds.decryptRequest (hlog : H log) : UpheldStage S H log (decryptRequest x r) := by
  refine (h.deadlineContext hlog).seq fun log' context hlog' => ?_
  cases context with
  | none =>
    apply (h.releaseToApplication hlog').seq
    intro _ _ _ _ heq
    cases heq
  | some context =>
    refine ⟨h.plain _ _ rfl, fun secret => ?_⟩
    have hsecret := h.kept _ (.loadNwcSecret r.connection.id context) secret hlog' rfl
    cases secret with
    | error _ =>
      apply (h.releaseToApplication hsecret).seq
      intro _ _ _ _ heq
      cases heq
    | ok secret =>
      dsimp only [Prog.bind]
      split
      · intro _ _
        exact hsecret
      · apply (h.rejectClaim hsecret).seq
        intro _ _ _ _ heq
        cases heq

variable (herrors : ∀ method error, P ⟨method, some error, none⟩)

include herrors

theorem Upholds.respondWithError {method : Method} {errorCode : ErrorCode}
    {rejection : RejectionCode} (hlog : H log) :
    Spec S log (respondWithError x r method errorCode rejection) fun _ _ => True := by
  refine (h.ensureClaimConnectionActive hlog).seq fun log' active hactive => ?_
  cases active with
  | error disposition => trivial
  | ok done => exact (h.commitAndPublish (herrors _ _) (hactive done rfl)).seq fun _ _ _ => trivial

section Payments

variable {hash : PaymentHash} {attempt : PaymentAttempt} {invoice : String}
  {explicitAmount : Option AmountMsat} {status : PaymentStatus}
  {payment : Nip47.PayInvoiceRequest}
  (hpaid : ∀ preimage fee, P ⟨.payInvoice, none, some (.payInvoice preimage fee)⟩)

include hpaid

omit herrors hpaid in
theorem Upholds.keepPending (hlog : H log) :
    Spec S log (keepPending r hash) fun _ _ => True := by
  refine ⟨h.plain _ _ rfl, fun now => ⟨h.plain _ _ rfl, fun marked => ?_⟩⟩
  have hmarked := h.kept _ (.ledger (.payment (.markPaymentPending hash now))) marked
    (h.kept _ .clockNow now hlog rfl) rfl
  cases marked with
  | error _ => exact h.releaseToApplication hmarked
  | ok _ => exact h.retryClaim hmarked

omit herrors in
theorem Upholds.finishSucceeded {preimage : PaymentPreimage} {amount fee : AmountMsat}
    (hlog : H log) :
    Spec S log (finishSucceeded x r invoice hash preimage amount fee) fun _ _ => True := by
  refine ⟨h.plain _ _ rfl, fun noted => ⟨h.plain _ _ rfl, fun settledAt =>
    ⟨h.plain _ _ rfl, fun marked => ?_⟩⟩⟩
  have hmarked := h.kept _ (.ledger (.payment (.markPaymentSucceeded hash amount fee settledAt)))
    marked (h.kept _ .clockNow settledAt (h.kept _ (.recordDiagnostic .paymentSucceeded) noted
      hlog rfl) rfl) rfl
  cases marked with
  | error _ => exact h.releaseToApplication hmarked
  | ok _ =>
    refine ⟨h.plain _ _ rfl, fun recorded => ?_⟩
    have hrecorded := h.kept _ (.ledger (.record (.recordNwcSentPayment
      (.new r.validated.id hash r.connection invoice amount fee preimage settledAt settledAt)
      r.connection.relays))) recorded hmarked rfl
    cases recorded with
    | error _ => exact h.releaseToApplication hrecorded
    | ok _ =>
      refine (h.ensureClaimConnectionActive hrecorded).seq fun log' active hactive => ?_
      cases active with
      | error disposition => trivial
      | ok done => exact h.commitAndPublish (hpaid _ _) (hactive done rfl)

theorem Upholds.finishPaymentStatus (hlog : H log) :
    Spec S log (finishPaymentStatus x r invoice hash status) fun _ _ => True := by
  have hnoted : ∀ code noted, H (⟨.recordDiagnostic code, noted⟩ :: log) :=
    fun code noted => h.kept _ _ noted hlog rfl
  cases status with
  | unknown => exact ⟨h.plain _ _ rfl, fun noted => h.keepPending (hnoted _ noted)⟩
  | pending => exact ⟨h.plain _ _ rfl, fun noted => h.keepPending (hnoted _ noted)⟩
  | succeeded preimage amount fee => exact h.finishSucceeded hpaid hlog
  | failed reason =>
    refine ⟨h.plain _ _ rfl, fun noted => ⟨h.plain _ _ rfl, fun now =>
      ⟨h.plain _ _ rfl, fun marked => ?_⟩⟩⟩
    have hmarked := h.kept _ (.ledger (.payment (.markPaymentFailed hash now))) marked
      (h.kept _ .clockNow now (hnoted _ noted) rfl) rfl
    cases marked with
    | error _ => exact h.releaseToApplication hmarked
    | ok _ => exact h.respondWithError herrors hmarked

theorem Upholds.startPayment (hlog : H log) :
    Spec S log (startPayment x r invoice explicitAmount attempt) fun _ _ => True := by
  refine (h.deadlineContext hlog).seq fun log' context hlog' => ?_
  cases context with
  | none => exact h.retryClaim hlog'
  | some context =>
    refine ⟨h.plain _ _ rfl, fun started => ?_⟩
    have hstarted := h.kept _ (.wallet (.startPayment
      ⟨invoice, explicitAmount, attempt.feeReserveSat, r.validated.id⟩) context) started hlog' rfl
    cases started with
    | ok status => exact h.finishPaymentStatus herrors hpaid hstarted
    | error error =>
      dsimp only [Prog.bind]
      split
      · exact h.finishPaymentStatus herrors hpaid hstarted
      · exact ⟨h.plain _ _ rfl, fun noted =>
          h.keepPending (h.kept _ (.recordDiagnostic .paymentBackendFailed) noted hstarted rfl)⟩

theorem Upholds.initiatePayment (hlog : H log) :
    Spec S log (initiatePayment x r invoice explicitAmount attempt) fun _ _ => True := by
  unfold NwcMobile.initiatePayment
  split
  · exact h.startPayment herrors hpaid hlog
  · refine (h.deadlineContext hlog).seq fun log' context hlog' => ?_
    cases context with
    | none => exact h.retryClaim hlog'
    | some context =>
      refine ⟨h.plain _ _ rfl, fun now => ⟨h.plain _ _ rfl, fun marked => ?_⟩⟩
      have hmarked := h.kept _ (.ledger (.payment (.markPaymentInitiated attempt.paymentHash now)))
        marked (h.kept _ .clockNow now hlog' rfl) rfl
      cases marked with
      | error _ => exact h.releaseToApplication hmarked
      | ok _ => exact h.startPayment herrors hpaid hmarked

theorem Upholds.resumePayment (hlog : H log) :
    Spec S log (resumePayment x r invoice explicitAmount attempt) fun _ _ => True := by
  refine (h.ensureClaimConnectionActive hlog).seq fun log' active hactive => ?_
  cases active with
  | error disposition => trivial
  | ok done =>
    dsimp only
    split
    · exact h.retryClaim (hactive done rfl)
    · exact h.initiatePayment herrors hpaid (hactive done rfl)

theorem Upholds.accountStatus (hlog : H log) :
    Spec S log (if attempt.mayDiscloseSettlement then
        NwcMobile.finishPaymentStatus x r invoice attempt.paymentHash status
      else discardForeignStatus x r attempt) fun _ _ => True := by
  split
  · exact h.finishPaymentStatus herrors hpaid hlog
  · refine ⟨h.plain _ _ rfl, fun now => ⟨h.plain _ _ rfl, fun released => ?_⟩⟩
    have hreleased := h.kept _ (.ledger (.payment (.releaseUninitiatedPayment attempt.paymentHash
      now))) released (h.kept _ .clockNow now hlog rfl) rfl
    cases released with
    | error _ => exact h.releaseToApplication hreleased
    | ok _ => exact h.respondWithError herrors hreleased

theorem Upholds.checkPaymentStatus (hlog : H log) :
    Spec S log (checkPaymentStatus x r invoice explicitAmount attempt) fun _ _ => True := by
  refine (h.deadlineContext hlog).seq fun log' context hlog' => ?_
  cases context with
  | none => exact h.retryClaim hlog'
  | some context =>
    refine ⟨h.plain _ _ rfl, fun status => ?_⟩
    have hstatus := h.kept _ (.wallet (.paymentStatus attempt.paymentHash) context) status hlog' rfl
    match status with
    | .error _ =>
      exact ⟨h.plain _ _ rfl, fun noted =>
        h.retryClaim (h.kept _ (.recordDiagnostic .paymentStatusLookupFailed) noted hstatus rfl)⟩
    | .ok .unknown => exact h.resumePayment herrors hpaid hstatus
    | .ok .pending => exact h.accountStatus herrors hpaid hstatus
    | .ok (.succeeded ..) => exact h.accountStatus herrors hpaid hstatus
    | .ok (.failed _) => exact h.accountStatus herrors hpaid hstatus

theorem Upholds.continuePayment (hlog : H log) :
    Spec S log (continuePayment x r invoice explicitAmount attempt) fun _ _ => True := by
  unfold NwcMobile.continuePayment
  split
  · exact h.respondWithError herrors hlog
  · split
    · refine (h.ensureClaimConnectionActive hlog).seq fun log' active hactive => ?_
      cases active with
      | error disposition => trivial
      | ok done => exact h.respondWithError herrors (hactive done rfl)
    · split
      · exact h.resumePayment herrors hpaid hlog
      · exact h.checkPaymentStatus herrors hpaid hlog

theorem Upholds.reserveQuoted {principalSat : Nat} (hlog : H log) :
    Spec S log (reserveQuoted x r payment hash principalSat) fun _ _ => True := by
  refine ⟨h.plain _ _ rfl, fun now => ⟨h.plain _ _ rfl, fun reservation => ?_⟩⟩
  have hreserved := h.kept _ (.ledger (.payment (.reservePayment r.validated.id hash r.connection
    principalSat now))) reservation (h.kept _ .clockNow now hlog rfl) rfl
  match reservation with
  | .ok (.reserved attempt) => exact h.continuePayment herrors hpaid hreserved
  | .ok (.existing attempt) => exact h.continuePayment herrors hpaid hreserved
  | .ok (.alreadyTracked attempt) => exact h.respondWithError herrors hreserved
  | .error .budgetExceeded =>
    exact ⟨h.plain _ _ rfl, fun noted => h.respondWithError herrors
      (h.kept _ (.recordDiagnostic .paymentBudgetExceeded) noted hreserved rfl)⟩
  | .error .connectionUnavailable => exact h.rejectClaim hreserved
  | .error .invalidAmount => exact h.respondWithError herrors hreserved
  | .error .valueOutOfRange => exact h.respondWithError herrors hreserved
  | .error .reservationConflict => exact h.respondWithError herrors hreserved
  | .error .databaseUnavailable => exact h.releaseToApplication hreserved
  | .error .corruptData => exact h.releaseToApplication hreserved
  | .error .terminalStateConflict => exact h.releaseToApplication hreserved

theorem Upholds.quotePayment (hlog : H log) :
    Spec S log (quotePayment x r payment) fun _ _ => True := by
  refine (h.deadlineContext hlog).seq fun log' context hlog' => ?_
  cases context with
  | none => exact h.releaseToApplication hlog'
  | some context =>
    refine ⟨h.plain _ _ rfl, fun quote => ?_⟩
    have hquote := h.kept _ (.wallet (.quotePayment payment.invoice payment.amount) context) quote
      hlog' rfl
    cases quote with
    | error error =>
      refine ⟨h.plain _ _ rfl, fun noted => ?_⟩
      have hnoted := h.kept _ (.recordDiagnostic .paymentQuoteFailed) noted hquote rfl
      dsimp only [Prog.bind]
      split
      · exact h.retryClaim hnoted
      · split
        · exact h.releaseToApplication hnoted
        · exact h.respondWithError herrors hnoted
    | ok quote =>
      dsimp only [Prog.bind]
      split
      · exact h.respondWithError herrors hquote
      · split
        · exact h.respondWithError herrors hquote
        · exact h.reserveQuoted herrors hpaid hquote

theorem Upholds.executePayment (hlog : H log) :
    Spec S log (executePayment x r payment) fun _ _ => True := by
  refine ⟨h.plain _ _ rfl, fun existing => ?_⟩
  have hexisting := h.kept _ (.ledger (.payment (.loadPaymentAttemptByEvent r.validated.id)))
    existing hlog rfl
  match existing with
  | .error _ => exact h.releaseToApplication hexisting
  | .ok (some attempt) =>
    dsimp only [Prog.bind]
    split
    · exact h.respondWithError herrors hexisting
    · exact h.continuePayment herrors hpaid hexisting
  | .ok none =>
    dsimp only [Prog.bind]
    split
    · exact h.respondWithError herrors hexisting
    · exact h.quotePayment herrors hpaid hexisting

end Payments

section Requests

variable {request : Nip47.Request} {method : NwcMethod}

/-- Results of requests that do not pay may be committed: what has been established when
one is there is kept until then. -/
def Answerable (x : Crates) (S : HostLog → HostOp → Prop) (H : HostLog → Prop)
    (r : ClaimedRequest) : Prop :=
  ∀ request context log, H log → Spec S log (executeRequest request r context) fun log' result =>
    H log' ∧ ∀ answer, result = .ok answer → ∃ H' P', Upholds x S H' P' r ∧ H' log' ∧
      P' ⟨answer.method, none, some answer.result⟩

variable (hanswers : Answerable x S H r)

include hanswers

theorem Upholds.executeDirect (hlog : H log) :
    Spec S log (executeDirect x r request method) fun _ _ => True := by
  refine (h.ensureClaimConnectionActive hlog).seq fun log₁ active hactive => ?_
  cases active with
  | error disposition => trivial
  | ok done =>
    refine (h.deadlineContext (hactive done rfl)).seq fun log₂ context hlog₂ => ?_
    cases context with
    | none => exact h.releaseToApplication hlog₂
    | some context =>
      refine (hanswers request context log₂ hlog₂).seq fun log₃ result hlog₃ => ?_
      obtain ⟨hlog₃, hanswer⟩ := hlog₃
      cases result with
      | error error =>
        dsimp only
        split
        · exact h.retryClaim hlog₃
        · split
          · exact h.releaseToApplication hlog₃
          · exact h.respondWithError herrors hlog₃
      | ok answer =>
        obtain ⟨H', P', hupholds, hkept, hallowed⟩ := hanswer answer rfl
        refine (hupholds.ensureClaimConnectionActive hkept).seq fun log₄ stillActive hactive' => ?_
        cases stillActive with
        | error disposition => trivial
        | ok done' => exact hupholds.commitAndPublish hallowed (hactive' done' rfl)

variable (hpaid : ∀ preimage fee, P ⟨.payInvoice, none, some (.payInvoice preimage fee)⟩)

include hpaid

theorem Upholds.dispatchRequest (hlog : H log) :
    Spec S log (dispatchRequest x r request) fun _ _ => True := by
  unfold NwcMobile.dispatchRequest
  split
  · exact h.respondWithError herrors hlog
  · split
    · exact h.respondWithError herrors hlog
    · split
      · refine ⟨h.plain _ _ rfl, fun noted => ?_⟩
        have hnoted := h.kept _ (.recordDiagnostic .paymentRequestAccepted) noted hlog rfl
        dsimp only [Prog.bind]
        split
        · exact h.executePayment herrors hpaid hnoted
        · exact h.rejectClaim hnoted
      · split
        · exact h.respondWithError herrors hlog
        · exact h.executeDirect herrors hanswers hlog

/-- The guard holds from the claim to the end of the execution. -/
theorem Upholds.executeClaimed (hlog : H log) :
    Spec S log (executeClaimed x policy r) fun _ _ => True := by
  refine (h.acceptFreshness hlog).seq fun log₁ fresh hfresh => ?_
  cases fresh with
  | error disposition => trivial
  | ok done =>
    refine (h.decryptRequest (hfresh done rfl)).seq fun log₂ request hrequest => ?_
    cases request with
    | error disposition => trivial
    | ok request => exact h.dispatchRequest herrors hanswers hpaid (hrequest request rfl)

end Requests

end Stages

/-- Only calls that come before a claim have been made. -/
def Unbound (log : HostLog) : Prop := ∀ call ∈ log, binding call.op.activity = true

section Executions

variable {x : Crates} {S : HostLog → HostOp → Prop} {log : HostLog} {policy : WakePolicy}
  {wake : WakeInput}

theorem Unbound.within {α : Type} {p : HostProg α} (hlog : Unbound log) (h : Within binding log p) :
    Spec (fun _ op => binding op.activity = true) log p fun log' _ => Unbound log' := by
  refine (h.keeps (P := Unbound) ?_ hlog).imp fun _ _ hend => hend.2
  intro log op reply hop hlog call hcall
  rcases List.mem_cons.mp hcall with rfl | hold
  · exact hop
  · exact hlog call hold

variable (hplain : ∀ log op, op.activity.onClaim = false → S log op)
  (hclaim : ∀ log remaining duration now e c revision, Unbound log →
    leaseDurationForBudget remaining = some duration →
      S (⟨.clockNow, now⟩ :: ⟨.deadlineRemaining, remaining⟩ :: log)
        (.ledger (.claim (.claimEvent e c revision now duration))))
  (hclaimed : ∀ log remaining duration now policy r, Unbound log →
    Spec S (⟨.ledger (.claim (.claimEvent r.validated.id r.connection.id r.connection.revision now
        duration)), .ok (.acquired r.lease)⟩ :: ⟨.clockNow, now⟩ ::
        ⟨.deadlineRemaining, remaining⟩ :: log) (executeClaimed x policy r) fun _ _ => True)

include hplain hclaim hclaimed

theorem upheld_claimAndExecute {relay : SecureRelayUrl} {connection : ActiveConnection}
    {validated : ValidatedNwcEvent} (hlog : Unbound log) :
    Spec S log (claimAndExecute x policy relay connection validated) fun _ _ => True := by
  refine ⟨hplain _ _ rfl, fun remaining => ?_⟩
  dsimp only [Prog.bind]
  split
  · trivial
  · rename_i duration hduration
    refine ⟨hplain _ _ rfl, fun now => ⟨hclaim _ _ _ _ _ _ _ hlog hduration, fun outcome => ?_⟩⟩
    match outcome with
    | .error _ => trivial
    | .ok (.inProgress _) => trivial
    | .ok (.terminal terminal) =>
      apply within_republishTerminal.guard_imp
      intro log op hop
      exact hplain log op (onClaim_of_republishing hop)
    | .ok (.acquired lease) =>
      exact hclaimed log remaining duration now policy ⟨lease, connection, validated, relay⟩ hlog

theorem upheld_execute : Spec S [] (execute x policy wake) fun _ _ => True := by
  have hbinding : ∀ log op, binding op.activity = true → S log op :=
    fun log op hop => hplain log op (onClaim_of_binding hop)
  have hcons : ∀ {log : HostLog} {op : HostOp} (reply : op.Reply), Unbound log →
      binding op.activity = true → Unbound (⟨op, reply⟩ :: log) := by
    intro log op reply hlog hop call hcall
    rcases List.mem_cons.mp hcall with rfl | hold
    · exact hop
    · exact hlog call hold
  refine ⟨hplain _ _ rfl, fun cancelled => ?_⟩
  cases cancelled with
  | true => trivial
  | false =>
    refine ⟨hplain _ _ rfl, fun now => ?_⟩
    dsimp only [Prog.bind]
    split
    · trivial
    · rename_i relay _
      refine ⟨hplain _ _ rfl, fun approved => ?_⟩
      have happroved : Unbound [⟨.ledger (.registry (.isRelayApprovedForWallet
          wake.walletServicePubkey relay now)), approved⟩, ⟨.clockNow, now⟩,
          ⟨.isCancelled, false⟩] := by
        apply hcons _ _ rfl
        apply hcons _ _ rfl
        apply hcons _ _ rfl
        intro call hcall
        cases hcall
      match approved with
      | .ok false => trivial
      | .error _ => trivial
      | .ok true =>
        refine ((happroved.within within_obtainEvent).guard_imp hbinding).seq
          fun log₁ eventJson hlog₁ => ?_
        cases eventJson with
        | error disposition => trivial
        | ok eventJson =>
          refine ((hlog₁.within within_bindConnection).guard_imp hbinding).seq
            fun log₂ bound hlog₂ => ?_
          match bound with
          | .error disposition => trivial
          | .ok (connection, validated) =>
            exact upheld_claimAndExecute hplain hclaim hclaimed hlog₂

/-- A guard on the claim and on what is done under it holds in every program of the
system. -/
theorem upheld_program (job : Job) : Spec S [] (job.program x) fun _ _ => True := by
  cases job with
  | wake policy input => exact (upheld_execute hplain hclaim hclaimed).seq fun _ _ _ => trivial
  | reconcile maxAttempts =>
    refine (within_reconcile.guard_imp fun log op hop => ?_).seq fun _ _ _ => trivial
    exact hplain log op (onClaim_of_reconciling hop)
  | migrate imports =>
    refine (within_migrateLegacyBatch.guard_imp fun log op hop => ?_).seq fun _ _ _ => trivial
    exact hplain log op (onClaim_of_binding hop)

end Executions

/-- Every operation of a run satisfies its program's guard in the log of its program's
earlier operations. -/
theorem guard_of_act {x : Crates} {outside : HostCall → Prop} {l : Ledger} {w : SystemWorld}
    {later earlier : SystemHistory} {event : Event SystemWorld SystemLabel} {i : Nat} {op : HostOp}
    {reply : op.Reply} {S : HostLog → HostOp → Prop}
    (hspec : ∀ job : Job, Spec S [] (job.program x) fun _ _ => True)
    (hrun : SystemRun x outside l (later ++ event :: earlier) w)
    (hlabel : event.label = .act i ⟨op, reply⟩) : S (actsOf i earlier) op := by
  obtain ⟨t, hthread, -, hguard⟩ := act_spec hspec hrun (by simp) hlabel
  obtain ⟨hbefore, -, -⟩ := hrun.split
  rw [← log_eq_actsOf hbefore i t hthread]
  exact hguard

end NwcMobile
