import NwcMobile.Engine.Footprint
import NwcMobile.Engine.Guards

/-!
What an execution has established when it records a settled payment for the notification
worker: the wallet reported the payment as settled, and the ledger accounts for it.
-/

namespace NwcMobile

open Program

/-- The wallet reported this status of a payment: when it was started under the event, or
when it was asked for. -/
inductive StatusReported (log : HostLog) (e : EventId) (hash : PaymentHash)
    (status : PaymentStatus) : Prop
  | started {start : PayInvoiceRequest} {context : OperationContext} (key : start.idempotencyKey = e)
      (answered : Answered log (.wallet (.startPayment start) context) (.ok status))
  | asked {context : OperationContext}
      (answered : Answered log (.wallet (.paymentStatus hash) context) (.ok status))

/-- A payment is recorded only after the wallet reported it as settled and the ledger
accounted for it, with the same amount, fee and time. -/
def RecordsSettled (log : HostLog) : HostOp → Prop
  | .ledger (.record (.recordNwcSentPayment payment _)) =>
    StatusReported log payment.requestEventId payment.paymentHash
      (.succeeded payment.preimage payment.amount payment.fee) ∧
    ∃ accounted, Answered log (.ledger (.payment (.markPaymentSucceeded payment.paymentHash
      payment.amount payment.fee payment.settledAt))) (.ok accounted)
  | _ => True

section Stages

variable {x : Crates} {log log' : HostLog} {e : EventId} {hash : PaymentHash}
  {status : PaymentStatus} {r : ClaimedRequest} {attempt : PaymentAttempt} {invoice : String}
  {explicitAmount : Option AmountMsat}

theorem StatusReported.mono (h : StatusReported log e hash status) (hsub : log ⊆ log') :
    StatusReported log' e hash status := by
  cases h with
  | started key answered => exact .started key (hsub answered)
  | asked answered => exact .asked (hsub answered)

theorem recordsSettled_of_activity {op : HostOp} (h : op.activity ≠ .recording) :
    RecordsSettled log op := by
  unfold RecordsSettled
  split
  · exact absurd rfl h
  · trivial

/-- Where nothing is recorded there is nothing to show. -/
theorem Within.recordsSettled {α : Type} {K : Activity → Bool} {p : HostProg α}
    (h : Within K log p) (hK : K .recording = false) :
    Spec RecordsSettled log p fun _ _ => True := by
  apply h.guard_imp
  intro log op hop
  apply recordsSettled_of_activity
  intro hrecording
  rw [hrecording, hK] at hop
  cases hop

theorem recordsSettled_keepPending : Spec RecordsSettled log (keepPending r hash)
    fun _ _ => True := by
  refine ⟨trivial, fun now => ⟨trivial, fun marked => ?_⟩⟩
  cases marked with
  | error _ => exact within_releaseToApplication.recordsSettled rfl
  | ok _ => exact within_retryClaim.recordsSettled rfl

theorem recordsSettled_finishSucceeded {preimage : PaymentPreimage} {amount fee : AmountMsat}
    (h : StatusReported log r.validated.id hash (.succeeded preimage amount fee)) :
    Spec RecordsSettled log (finishSucceeded x r invoice hash preimage amount fee)
      fun _ _ => True := by
  refine ⟨trivial, fun _ => ⟨trivial, fun settledAt => ⟨trivial, fun marked => ?_⟩⟩⟩
  cases marked with
  | error _ => exact within_releaseToApplication.recordsSettled rfl
  | ok accounted =>
    refine ⟨⟨?_, accounted, List.mem_cons_self⟩, fun recorded => ?_⟩
    · apply h.mono
      intro call hcall
      simp [hcall]
    · cases recorded with
      | error _ => exact within_releaseToApplication.recordsSettled rfl
      | ok _ =>
        refine (within_ensureClaimConnectionActive.recordsSettled rfl).seq fun _ active _ => ?_
        cases active with
        | error disposition => trivial
        | ok _ => exact within_commitAndPublish.recordsSettled rfl

theorem recordsSettled_finishPaymentStatus (h : ∀ preimage amount fee,
    status = .succeeded preimage amount fee → StatusReported log r.validated.id hash status) :
    Spec RecordsSettled log (finishPaymentStatus x r invoice hash status) fun _ _ => True := by
  cases status with
  | unknown => exact ⟨trivial, fun _ => recordsSettled_keepPending⟩
  | pending => exact ⟨trivial, fun _ => recordsSettled_keepPending⟩
  | succeeded preimage amount fee => exact recordsSettled_finishSucceeded (h _ _ _ rfl)
  | failed reason =>
    refine ⟨trivial, fun _ => ⟨trivial, fun now => ⟨trivial, fun marked => ?_⟩⟩⟩
    cases marked with
    | error _ => exact within_releaseToApplication.recordsSettled rfl
    | ok _ => exact within_respondWithError.recordsSettled rfl

theorem recordsSettled_startPayment :
    Spec RecordsSettled log (startPayment x r invoice explicitAmount attempt) fun _ _ => True := by
  refine ((within_deadlineContext (K := responding) rfl).recordsSettled rfl).seq
    fun log' context _ => ?_
  cases context with
  | none => exact within_retryClaim.recordsSettled rfl
  | some context =>
    refine ⟨trivial, fun started => ?_⟩
    cases started with
    | ok status =>
      apply recordsSettled_finishPaymentStatus
      intro preimage amount fee _
      exact .started rfl List.mem_cons_self
    | error error =>
      dsimp only [Prog.bind]
      split
      · apply recordsSettled_finishPaymentStatus
        intro preimage amount fee hfailed
        cases hfailed
      · exact ⟨trivial, fun _ => recordsSettled_keepPending⟩

theorem recordsSettled_initiatePayment :
    Spec RecordsSettled log (initiatePayment x r invoice explicitAmount attempt)
      fun _ _ => True := by
  unfold initiatePayment
  split
  · exact recordsSettled_startPayment
  · refine ((within_deadlineContext (K := responding) rfl).recordsSettled rfl).seq
      fun log' context _ => ?_
    cases context with
    | none => exact within_retryClaim.recordsSettled rfl
    | some context =>
      refine ⟨trivial, fun now => ⟨trivial, fun marked => ?_⟩⟩
      cases marked with
      | error _ => exact within_releaseToApplication.recordsSettled rfl
      | ok _ => exact recordsSettled_startPayment

theorem recordsSettled_resumePayment :
    Spec RecordsSettled log (resumePayment x r invoice explicitAmount attempt)
      fun _ _ => True := by
  refine (within_ensureClaimConnectionActive.recordsSettled rfl).seq fun log' active _ => ?_
  cases active with
  | error disposition => trivial
  | ok _ =>
    dsimp only
    split
    · exact within_retryClaim.recordsSettled rfl
    · exact recordsSettled_initiatePayment

theorem recordsSettled_discardForeignStatus :
    Spec RecordsSettled log (discardForeignStatus x r attempt) fun _ _ => True := by
  refine ⟨trivial, fun now => ⟨trivial, fun released => ?_⟩⟩
  cases released with
  | error _ => exact within_releaseToApplication.recordsSettled rfl
  | ok _ => exact within_respondWithError.recordsSettled rfl

theorem recordsSettled_checkPaymentStatus :
    Spec RecordsSettled log (checkPaymentStatus x r invoice explicitAmount attempt)
      fun _ _ => True := by
  refine ((within_deadlineContext (K := responding) rfl).recordsSettled rfl).seq
    fun log' context _ => ?_
  cases context with
  | none => exact within_retryClaim.recordsSettled rfl
  | some context =>
    refine ⟨trivial, fun reply => ?_⟩
    have haccount : ∀ status, reply = .ok status →
        Spec RecordsSettled (⟨.wallet (.paymentStatus attempt.paymentHash) context, reply⟩ :: log')
          (if attempt.mayDiscloseSettlement then
            finishPaymentStatus x r invoice attempt.paymentHash status
            else discardForeignStatus x r attempt) fun _ _ => True := by
      rintro status rfl
      split
      · apply recordsSettled_finishPaymentStatus
        intro preimage amount fee _
        exact .asked List.mem_cons_self
      · exact recordsSettled_discardForeignStatus
    match reply with
    | .error _ => exact ⟨trivial, fun _ => within_retryClaim.recordsSettled rfl⟩
    | .ok .unknown => exact recordsSettled_resumePayment
    | .ok .pending => exact haccount _ rfl
    | .ok (.succeeded ..) => exact haccount _ rfl
    | .ok (.failed _) => exact haccount _ rfl

theorem recordsSettled_continuePayment :
    Spec RecordsSettled log (continuePayment x r invoice explicitAmount attempt)
      fun _ _ => True := by
  unfold continuePayment
  split
  · exact within_respondWithError.recordsSettled rfl
  · split
    · refine (within_ensureClaimConnectionActive.recordsSettled rfl).seq fun log' active _ => ?_
      cases active with
      | error disposition => trivial
      | ok _ => exact within_respondWithError.recordsSettled rfl
    · split
      · exact recordsSettled_resumePayment
      · exact recordsSettled_checkPaymentStatus

theorem recordsSettled_reserveQuoted {payment : Nip47.PayInvoiceRequest} {principalSat : Nat} :
    Spec RecordsSettled log (reserveQuoted x r payment hash principalSat) fun _ _ => True := by
  refine ⟨trivial, fun now => ⟨trivial, fun reservation => ?_⟩⟩
  have herror : ∀ {log} {errorCode : Nip47.ErrorCode} {code : RejectionCode},
      Spec RecordsSettled log (paymentError x r errorCode code) fun _ _ => True :=
    within_respondWithError.recordsSettled rfl
  match reservation with
  | .ok (.reserved attempt) => exact recordsSettled_continuePayment
  | .ok (.existing attempt) => exact recordsSettled_continuePayment
  | .ok (.alreadyTracked attempt) => exact herror
  | .error .budgetExceeded => exact ⟨trivial, fun _ => herror⟩
  | .error .connectionUnavailable => exact within_rejectClaim.recordsSettled rfl
  | .error .invalidAmount => exact herror
  | .error .valueOutOfRange => exact herror
  | .error .reservationConflict => exact herror
  | .error .databaseUnavailable => exact within_releaseToApplication.recordsSettled rfl
  | .error .corruptData => exact within_releaseToApplication.recordsSettled rfl
  | .error .terminalStateConflict => exact within_releaseToApplication.recordsSettled rfl

theorem recordsSettled_quotePayment {payment : Nip47.PayInvoiceRequest} :
    Spec RecordsSettled log (quotePayment x r payment) fun _ _ => True := by
  refine ((within_deadlineContext (K := responding) rfl).recordsSettled rfl).seq
    fun log' context _ => ?_
  cases context with
  | none => exact within_releaseToApplication.recordsSettled rfl
  | some context =>
    refine ⟨trivial, fun quote => ?_⟩
    cases quote with
    | error error =>
      refine ⟨trivial, fun _ => ?_⟩
      dsimp only [Prog.bind]
      split
      · exact within_retryClaim.recordsSettled rfl
      · split
        · exact within_releaseToApplication.recordsSettled rfl
        · exact within_respondWithError.recordsSettled rfl
    | ok quote =>
      dsimp only [Prog.bind]
      split
      · exact within_respondWithError.recordsSettled rfl
      · split
        · exact within_respondWithError.recordsSettled rfl
        · exact recordsSettled_reserveQuoted

theorem recordsSettled_executePayment {payment : Nip47.PayInvoiceRequest} :
    Spec RecordsSettled log (executePayment x r payment) fun _ _ => True := by
  refine ⟨trivial, fun existing => ?_⟩
  match existing with
  | .error _ => exact within_releaseToApplication.recordsSettled rfl
  | .ok (some attempt) =>
    dsimp only [Prog.bind]
    split
    · exact within_respondWithError.recordsSettled rfl
    · exact recordsSettled_continuePayment
  | .ok none =>
    dsimp only [Prog.bind]
    split
    · exact within_respondWithError.recordsSettled rfl
    · exact recordsSettled_quotePayment

/-- Every program of the engine records only settled payments. -/
theorem recordsSettled_program (job : Job) :
    Spec RecordsSettled [] (job.program x) fun _ _ => True := by
  have hother : ∀ {K : Activity → Bool}, K .recording = false → ∀ (log : HostLog) (op : HostOp),
      K op.activity = true → RecordsSettled log op := by
    intro K hK log op hop
    apply recordsSettled_of_activity
    intro hrecording
    rw [hrecording, hK] at hop
    cases hop
  apply lift_program
  · exact hother rfl
  · intro log r request method
    exact within_executeDirect.recordsSettled rfl
  · intro log r payment
    exact recordsSettled_executePayment
  · exact hother rfl

end Stages

end NwcMobile
