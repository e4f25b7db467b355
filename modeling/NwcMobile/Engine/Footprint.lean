import NwcMobile.Engine.System

/-!
What each stage of an execution can do at all: the activities its operations
belong to, whatever it is answered. A property of the few operations of one
activity then only has to be shown for the stages that perform them.
-/

namespace NwcMobile

open Program Nip47

/-- What an operation is about. -/
inductive Activity where
  | ambient
  | registry
  | claiming
  | accepting
  | releasing
  | completing
  | loadingAttempt
  | reserving
  | initiating
  | discarding
  | accounting
  | queueing
  | recording
  | invoicing
  | notifying
  | registering
  | secret
  | fetching
  | publishing
  | reading
  | makingInvoice
  | quoting
  | asking
  | starting
deriving DecidableEq

def ClaimOp.activity : ClaimOp → Activity
  | .claimEvent .. | .lastCompletedEventAt _ | .pruneTerminal .. => .claiming
  | .acceptEventFreshness .. => .accepting
  | .renewLease .. | .retryLater .. => .releasing
  | .completeEvent .. | .completeEventForActiveConnection ..
  | .completeNwcEventForActiveConnection .. => .completing

def PaymentOp.activity : PaymentOp → Activity
  | .loadPaymentAttemptByEvent _ | .loadPaymentAttempt _ => .loadingAttempt
  | .reservePayment .. => .reserving
  | .markPaymentInitiated .. => .initiating
  | .releaseUninitiatedPayment .. => .discarding
  | .markPaymentPending .. | .markPaymentFailed .. | .markPaymentSucceeded .. => .accounting
  | .loadUnresolvedPaymentAttempts _ => .queueing

def RecordOp.activity : RecordOp → Activity
  | .recordNwcSentPayment .. => .recording
  | .recordNwcInvoice .. | .loadNwcInvoice _ | .loadNwcInvoiceByEncodedInvoice _
  | .loadNwcInvoiceByPaymentHash _ => .invoicing
  | .notification _ => .notifying

def WalletOp.activity : WalletOp → Activity
  | .getInfo | .getBalance | .lookupInvoice _ | .listTransactions _ => .reading
  | .makeInvoice _ => .makingInvoice
  | .quotePayment .. => .quoting
  | .paymentStatus _ => .asking
  | .startPayment _ => .starting

def HostOp.activity : HostOp → Activity
  | .ledger (.registry _) => .registry
  | .ledger (.claim op) => op.activity
  | .ledger (.payment op) => op.activity
  | .ledger (.record op) => op.activity
  | .ledger (.registration _) => .registering
  | .wallet op _ => op.activity
  | .loadNwcSecret .. => .secret
  | .fetchEvent .. => .fetching
  | .publishEvent .. => .publishing
  | .clockNow | .isCancelled | .deadlineRemaining | .nonce | .recordDiagnostic _ => .ambient

/-- Whatever it is answered, `p` stays within the activities `K`. -/
abbrev Within {α : Type} (K : Activity → Bool) (log : HostLog) (p : HostProg α) : Prop :=
  Spec (fun _ op => K op.activity = true) log p fun _ _ => True

theorem Within.mono {α : Type} {K K' : Activity → Bool} {log : HostLog} {p : HostProg α}
    (h : Within K log p) (hK : ∀ a, K a = true → K' a = true) : Within K' log p :=
  h.guard_imp fun _ op hop => hK op.activity hop

/-- Finishing an execution: answering a request or handing its claim back. -/
def responding : Activity → Bool
  | .ambient | .registry | .releasing | .completing | .secret | .publishing => true
  | _ => false

/-- Publishing a response that is committed. -/
def republishing : Activity → Bool
  | .ambient | .registry | .publishing => true
  | _ => false

/-- Continuing a durable attempt. -/
def paying (a : Activity) : Bool :=
  responding a || match a with
    | .initiating | .discarding | .accounting | .recording | .asking | .starting => true
    | _ => false

/-- Quoting and reserving before that. -/
def ordering (a : Activity) : Bool :=
  paying a || match a with
    | .loadingAttempt | .reserving | .quoting => true
    | _ => false

/-- Carrying out a request that does not pay. -/
def serving : Activity → Bool
  | .ambient | .invoicing | .reading | .makingInvoice => true
  | _ => false

def directing (a : Activity) : Bool := responding a || serving a

/-- Everything before the claim. -/
def binding : Activity → Bool
  | .ambient | .registry | .fetching => true
  | _ => false

/-- All of an execution but carrying out its request. -/
def surrounding (a : Activity) : Bool :=
  responding a || binding a || match a with
    | .claiming | .accepting => true
    | _ => false

/-- A reconciler pass. -/
def reconciling : Activity → Bool
  | .ambient | .queueing | .asking | .discarding | .accounting => true
  | _ => false

section Stages

variable {x : Crates} {policy : WakePolicy} {wake : WakeInput} {log : HostLog}
  {relay : SecureRelayUrl} {connection : ActiveConnection} {r : ClaimedRequest}
  {lease : EventLease} {K : Activity → Bool}

theorem within_deadlineContext (hambient : K .ambient = true) :
    Within K log deadlineContext := by
  refine ⟨hambient, fun cancelled => ?_⟩
  cases cancelled with
  | true => trivial
  | false => exact ⟨hambient, fun _ => trivial⟩

theorem within_rejectClaim {code : RejectionCode} :
    Within responding log (rejectClaim lease code) := by
  refine ⟨rfl, fun now => ⟨rfl, fun done => ?_⟩⟩
  cases done <;> trivial

theorem within_retryClaim {reason : RetryReason} :
    Within responding log (retryClaim lease reason) := by
  refine ⟨rfl, fun now => ⟨rfl, fun done => ?_⟩⟩
  cases done <;> trivial

theorem within_releaseToApplication {reason : QueueReason} :
    Within responding log (releaseToApplication lease reason) := by
  refine ⟨rfl, fun now => ⟨rfl, fun done => ?_⟩⟩
  cases done <;> trivial

theorem within_completionFailed {error : LedgerError} :
    Within responding log (completionFailed lease error) := by
  cases error <;> first | exact within_retryClaim | trivial

theorem within_ensureClaimConnectionActive :
    Within responding log (ensureClaimConnectionActive connection lease) := by
  refine ⟨rfl, fun active => ?_⟩
  match active with
  | .ok true => trivial
  | .ok false => exact within_rejectClaim.seq fun _ _ _ => trivial
  | .error _ => exact within_releaseToApplication.seq fun _ _ _ => trivial

theorem within_republishTerminal {eventJson : Option String} {notification : NotificationHint} :
    Within republishing log (republishTerminal connection relay eventJson notification) := by
  cases eventJson with
  | none => trivial
  | some eventJson =>
    refine ⟨rfl, fun active => ?_⟩
    match active with
    | .ok false => trivial
    | .error _ => trivial
    | .ok true =>
      refine (within_deadlineContext rfl).seq fun log' context _ => ?_
      cases context with
      | none => exact ⟨rfl, fun _ => trivial⟩
      | some context =>
        refine ⟨rfl, fun published => ?_⟩
        cases published with
        | ok _ => trivial
        | error _ => exact ⟨rfl, fun _ => trivial⟩

/-- Publishing is part of answering. -/
theorem Within.responding {α : Type} {p : HostProg α} (h : Within republishing log p) :
    Within NwcMobile.responding log p := by
  apply h.mono
  intro a ha
  cases a <;> first | rfl | cases ha

theorem within_completeForActive {json : String} {method : Option NwcMethod}
    {now : UnixTimestamp} : Within responding log (completeForActive r json method now) := by
  cases method <;> exact ⟨rfl, fun _ => trivial⟩

theorem within_commitAndPublish {response : Response} :
    Within responding log (commitAndPublish x r response) := by
  refine (within_deadlineContext rfl).seq fun log₁ context _ => ?_
  cases context with
  | none => exact within_releaseToApplication
  | some context =>
    refine ⟨rfl, fun secret => ?_⟩
    cases secret with
    | error error => exact within_releaseToApplication
    | ok secret =>
      refine ⟨rfl, fun createdAt => ⟨rfl, fun nonce => ?_⟩⟩
      dsimp only [Prog.bind]
      split
      · exact within_rejectClaim
      · refine ⟨rfl, fun now => within_completeForActive.seq fun log₂ done _ => ?_⟩
        cases done with
        | error error => exact within_completionFailed
        | ok _ => exact within_republishTerminal.responding

theorem within_respondWithError {method : Method} {errorCode : ErrorCode}
    {rejection : RejectionCode} :
    Within responding log (respondWithError x r method errorCode rejection) := by
  refine within_ensureClaimConnectionActive.seq fun log' active _ => ?_
  cases active with
  | error disposition => trivial
  | ok _ => exact within_commitAndPublish.seq fun _ _ _ => trivial

/-- Answering is part of paying. -/
theorem Within.paying {α : Type} {p : HostProg α} (h : Within NwcMobile.responding log p) :
    Within paying log p :=
  h.mono fun a ha => by simp [NwcMobile.paying, ha]

theorem Within.ordering {α : Type} {p : HostProg α} (h : Within NwcMobile.paying log p) :
    Within ordering log p :=
  h.mono fun a ha => by simp [NwcMobile.ordering, ha]

section Payments

variable {hash : PaymentHash} {attempt : PaymentAttempt} {invoice : String}
  {explicitAmount : Option AmountMsat} {status : PaymentStatus}
  {payment : Nip47.PayInvoiceRequest}

theorem within_keepPending : Within paying log (keepPending r hash) := by
  refine ⟨rfl, fun now => ⟨rfl, fun marked => ?_⟩⟩
  cases marked with
  | error _ => exact within_releaseToApplication.paying
  | ok _ => exact within_retryClaim.paying

theorem within_finishSucceeded {preimage : PaymentPreimage} {amount fee : AmountMsat} :
    Within paying log (finishSucceeded x r invoice hash preimage amount fee) := by
  refine ⟨rfl, fun _ => ⟨rfl, fun settledAt => ⟨rfl, fun marked => ?_⟩⟩⟩
  cases marked with
  | error _ => exact within_releaseToApplication.paying
  | ok _ =>
    refine ⟨rfl, fun recorded => ?_⟩
    cases recorded with
    | error _ => exact within_releaseToApplication.paying
    | ok _ =>
      refine within_ensureClaimConnectionActive.paying.seq fun log' active _ => ?_
      cases active with
      | error disposition => trivial
      | ok _ => exact within_commitAndPublish.paying

theorem within_finishPaymentStatus :
    Within paying log (finishPaymentStatus x r invoice hash status) := by
  cases status with
  | unknown => exact ⟨rfl, fun _ => within_keepPending⟩
  | pending => exact ⟨rfl, fun _ => within_keepPending⟩
  | succeeded preimage amount fee => exact within_finishSucceeded
  | failed reason =>
    refine ⟨rfl, fun _ => ⟨rfl, fun now => ⟨rfl, fun marked => ?_⟩⟩⟩
    cases marked with
    | error _ => exact within_releaseToApplication.paying
    | ok _ => exact within_respondWithError.paying

theorem within_startPayment :
    Within paying log (startPayment x r invoice explicitAmount attempt) := by
  refine (within_deadlineContext rfl).seq fun log' context _ => ?_
  cases context with
  | none => exact within_retryClaim.paying
  | some context =>
    refine ⟨rfl, fun started => ?_⟩
    cases started with
    | ok status => exact within_finishPaymentStatus
    | error error =>
      dsimp only [Prog.bind]
      split
      · exact within_finishPaymentStatus
      · exact ⟨rfl, fun _ => within_keepPending⟩

theorem within_initiatePayment :
    Within paying log (initiatePayment x r invoice explicitAmount attempt) := by
  unfold initiatePayment
  split
  · exact within_startPayment
  · refine (within_deadlineContext rfl).seq fun log' context _ => ?_
    cases context with
    | none => exact within_retryClaim.paying
    | some context =>
      refine ⟨rfl, fun now => ⟨rfl, fun marked => ?_⟩⟩
      cases marked with
      | error _ => exact within_releaseToApplication.paying
      | ok _ => exact within_startPayment

theorem within_resumePayment :
    Within paying log (resumePayment x r invoice explicitAmount attempt) := by
  refine within_ensureClaimConnectionActive.paying.seq fun log' active _ => ?_
  cases active with
  | error disposition => trivial
  | ok _ =>
    dsimp only
    split
    · exact within_retryClaim.paying
    · exact within_initiatePayment

theorem within_discardForeignStatus : Within paying log (discardForeignStatus x r attempt) := by
  refine ⟨rfl, fun now => ⟨rfl, fun released => ?_⟩⟩
  cases released with
  | error _ => exact within_releaseToApplication.paying
  | ok _ => exact within_respondWithError.paying

theorem within_accountStatus :
    Within paying log (if attempt.mayDiscloseSettlement then
      finishPaymentStatus x r invoice attempt.paymentHash status
      else discardForeignStatus x r attempt) := by
  split
  · exact within_finishPaymentStatus
  · exact within_discardForeignStatus

theorem within_checkPaymentStatus :
    Within paying log (checkPaymentStatus x r invoice explicitAmount attempt) := by
  refine (within_deadlineContext rfl).seq fun log' context _ => ?_
  cases context with
  | none => exact within_retryClaim.paying
  | some context =>
    refine ⟨rfl, fun status => ?_⟩
    match status with
    | .error _ => exact ⟨rfl, fun _ => within_retryClaim.paying⟩
    | .ok .unknown => exact within_resumePayment
    | .ok .pending => exact within_accountStatus
    | .ok (.succeeded ..) => exact within_accountStatus
    | .ok (.failed _) => exact within_accountStatus

theorem within_continuePayment :
    Within paying log (continuePayment x r invoice explicitAmount attempt) := by
  unfold continuePayment
  split
  · exact within_respondWithError.paying
  · split
    · refine within_ensureClaimConnectionActive.paying.seq fun log' active _ => ?_
      cases active with
      | error disposition => trivial
      | ok _ => exact within_respondWithError.paying
    · split
      · exact within_resumePayment
      · exact within_checkPaymentStatus

theorem within_reserveQuoted {payment : Nip47.PayInvoiceRequest} {principalSat : Nat} :
    Within ordering log (reserveQuoted x r payment hash principalSat) := by
  refine ⟨rfl, fun now => ⟨rfl, fun reservation => ?_⟩⟩
  match reservation with
  | .ok (.reserved attempt) => exact within_continuePayment.ordering
  | .ok (.existing attempt) => exact within_continuePayment.ordering
  | .ok (.alreadyTracked attempt) => exact within_respondWithError.paying.ordering
  | .error .budgetExceeded => exact ⟨rfl, fun _ => within_respondWithError.paying.ordering⟩
  | .error .connectionUnavailable => exact within_rejectClaim.paying.ordering
  | .error .invalidAmount => exact within_respondWithError.paying.ordering
  | .error .valueOutOfRange => exact within_respondWithError.paying.ordering
  | .error .reservationConflict => exact within_respondWithError.paying.ordering
  | .error .databaseUnavailable => exact within_releaseToApplication.paying.ordering
  | .error .corruptData => exact within_releaseToApplication.paying.ordering
  | .error .terminalStateConflict => exact within_releaseToApplication.paying.ordering

theorem within_quotePayment {payment : Nip47.PayInvoiceRequest} :
    Within ordering log (quotePayment x r payment) := by
  refine (within_deadlineContext rfl).seq fun log' context _ => ?_
  cases context with
  | none => exact within_releaseToApplication.paying.ordering
  | some context =>
    refine ⟨rfl, fun quote => ?_⟩
    cases quote with
    | error error =>
      refine ⟨rfl, fun _ => ?_⟩
      dsimp only [Prog.bind]
      split
      · exact within_retryClaim.paying.ordering
      · split
        · exact within_releaseToApplication.paying.ordering
        · exact within_respondWithError.paying.ordering
    | ok quote =>
      dsimp only [Prog.bind]
      split
      · exact within_respondWithError.paying.ordering
      · split
        · exact within_respondWithError.paying.ordering
        · exact within_reserveQuoted

theorem within_executePayment {payment : Nip47.PayInvoiceRequest} :
    Within ordering log (executePayment x r payment) := by
  refine ⟨rfl, fun existing => ?_⟩
  match existing with
  | .error _ => exact within_releaseToApplication.paying.ordering
  | .ok (some attempt) =>
    dsimp only [Prog.bind]
    split
    · exact within_respondWithError.paying.ordering
    · exact within_continuePayment.ordering
  | .ok none =>
    dsimp only [Prog.bind]
    split
    · exact within_respondWithError.paying.ordering
    · exact within_quotePayment

end Payments

section Requests

variable {request : Nip47.Request} {context : OperationContext}

theorem within_makeInvoice {params : Nip47.MakeInvoiceRequest} :
    Within serving log (makeInvoice r params context) := by
  unfold makeInvoice
  split
  · trivial
  · refine ⟨rfl, fun createdAt => ⟨rfl, fun existing => ?_⟩⟩
    match existing with
    | .error _ => trivial
    | .ok (some tracked) => trivial
    | .ok none =>
      refine ⟨rfl, fun created => ?_⟩
      cases created with
      | error _ => trivial
      | ok created =>
        refine ⟨rfl, fun recorded => ?_⟩
        cases recorded <;> trivial

theorem within_trackedLookup {params : LookupInvoiceRequest} :
    Within serving log (trackedLookup params) := by
  unfold trackedLookup
  split
  · exact ⟨rfl, fun _ => trivial⟩
  · split
    · trivial
    · exact ⟨rfl, fun _ => trivial⟩
  · trivial

theorem within_lookupInvoice {params : LookupInvoiceRequest} :
    Within serving log (lookupInvoice params context) := by
  refine within_trackedLookup.seq fun log' tracked _ => ?_
  cases tracked with
  | error _ => trivial
  | ok tracked =>
    dsimp only
    split
    · trivial
    · refine ⟨rfl, fun found => ?_⟩
      match found with
      | .error _ => trivial
      | .ok (some transaction) => trivial
      | .ok none =>
        cases tracked with
        | none => trivial
        | some invoice => exact ⟨rfl, fun _ => trivial⟩

theorem within_listTransactions {params : Nip47.ListTransactionsRequest} :
    Within serving log (listTransactions params context) := by
  unfold listTransactions
  split
  · trivial
  · refine ⟨rfl, fun listed => ?_⟩
    cases listed with
    | error _ => trivial
    | ok transactions =>
      dsimp only [Prog.bind]
      split <;> trivial

theorem within_executeRequest : Within serving log (executeRequest request r context) := by
  unfold executeRequest
  split
  · refine ⟨rfl, fun info => ?_⟩
    cases info <;> trivial
  · refine ⟨rfl, fun balance => ?_⟩
    cases balance <;> trivial
  · exact within_makeInvoice
  · exact within_lookupInvoice
  · exact within_listTransactions
  · trivial
  · trivial

theorem Within.directing {α : Type} {p : HostProg α} (h : Within NwcMobile.responding log p) :
    Within directing log p :=
  h.mono fun a ha => by simp [NwcMobile.directing, ha]

theorem within_executeDirect {method : NwcMethod} :
    Within directing log (executeDirect x r request method) := by
  have hserving : ∀ a, serving a = true → NwcMobile.directing a = true := fun a ha => by
    simp [NwcMobile.directing, ha]
  refine within_ensureClaimConnectionActive.directing.seq fun log₁ active _ => ?_
  cases active with
  | error disposition => trivial
  | ok _ =>
    refine (within_deadlineContext rfl).seq fun log₂ context _ => ?_
    cases context with
    | none => exact within_releaseToApplication.directing
    | some context =>
      refine (within_executeRequest.mono hserving).seq fun log₃ result _ => ?_
      cases result with
      | error error =>
        dsimp only
        split
        · exact within_retryClaim.directing
        · split
          · exact within_releaseToApplication.directing
          · exact within_respondWithError.directing
      | ok result =>
        refine within_ensureClaimConnectionActive.directing.seq fun log₄ stillActive _ => ?_
        cases stillActive with
        | error disposition => trivial
        | ok _ => exact within_commitAndPublish.directing

end Requests

theorem within_obtainEvent : Within binding log (obtainEvent policy wake relay) := by
  unfold obtainEvent
  split
  · trivial
  · refine (within_deadlineContext rfl).seq fun log' context _ => ?_
    cases context with
    | none => trivial
    | some context =>
      refine ⟨rfl, fun fetched => ?_⟩
      match fetched with
      | .ok (some event) => trivial
      | .ok none => trivial
      | .error error =>
        dsimp only [Prog.bind]
        split <;> trivial

theorem within_bindConnection {now : UnixTimestamp} {eventJson : String} :
    Within binding log (bindConnection x policy wake relay now eventJson) := by
  unfold bindConnection
  split
  · trivial
  · refine ⟨rfl, fun found => ?_⟩
    match found with
    | .error _ => trivial
    | .ok none => trivial
    | .ok (some connection) =>
      dsimp only [Prog.bind]
      split
      · trivial
      · split
        · trivial
        · split <;> trivial

theorem Within.surrounding {α : Type} {p : HostProg α} (h : Within NwcMobile.responding log p) :
    Within surrounding log p :=
  h.mono fun a ha => by simp [NwcMobile.surrounding, ha]

theorem within_acceptFreshness : Within surrounding log (acceptFreshness policy r) := by
  unfold acceptFreshness
  split
  · trivial
  · refine ⟨rfl, fun now => ?_⟩
    dsimp only [Prog.bind]
    split
    · refine ⟨rfl, fun acceptedAt => ⟨rfl, fun accepted => ?_⟩⟩
      cases accepted with
      | ok _ => trivial
      | error _ => exact within_releaseToApplication.surrounding.seq fun _ _ _ => trivial
    · exact within_rejectClaim.surrounding.seq fun _ _ _ => trivial

theorem within_decryptRequest : Within responding log (decryptRequest x r) := by
  refine (within_deadlineContext rfl).seq fun log' context _ => ?_
  cases context with
  | none => exact within_releaseToApplication.seq fun _ _ _ => trivial
  | some context =>
    refine ⟨rfl, fun secret => ?_⟩
    cases secret with
    | error _ => exact within_releaseToApplication.seq fun _ _ _ => trivial
    | ok secret =>
      dsimp only [Prog.bind]
      split
      · trivial
      · exact within_rejectClaim.seq fun _ _ _ => trivial

end Stages

section Passive

variable {log : HostLog}

theorem within_applyStatus {attempt : PaymentAttempt} {report : PaymentReconciliationReport}
    {status : PaymentStatus} : Within reconciling log (applyStatus attempt report status) := by
  unfold applyStatus
  split
  · exact ⟨rfl, fun now => ⟨rfl, fun _ => trivial⟩⟩
  · cases status with
    | unknown => trivial
    | pending =>
      dsimp only
      split
      · exact ⟨rfl, fun now => ⟨rfl, fun _ => trivial⟩⟩
      · trivial
    | succeeded preimage amount fee => exact ⟨rfl, fun now => ⟨rfl, fun _ => trivial⟩⟩
    | failed reason => exact ⟨rfl, fun now => ⟨rfl, fun _ => trivial⟩⟩

theorem within_reconcileAttempts {attempts : List PaymentAttempt} {pass : ReconciliationPass} :
    Within reconciling log (reconcileAttempts attempts pass) := by
  induction attempts generalizing log pass with
  | nil => trivial
  | cons attempt rest ih =>
    unfold reconcileAttempts
    split
    · exact ih
    · refine (within_deadlineContext rfl).seq fun log' context _ => ?_
      cases context with
      | none => trivial
      | some context =>
        refine ⟨rfl, fun status => ?_⟩
        cases status with
        | error _ => exact ih
        | ok status =>
          refine within_applyStatus.seq fun log'' updated _ => ?_
          cases updated with
          | error _ => trivial
          | ok report => exact ih

theorem within_reconcile {maxAttempts : Nat} : Within reconciling log (reconcile maxAttempts) := by
  unfold reconcile
  split
  · trivial
  · refine (within_deadlineContext rfl).seq fun log' context _ => ?_
    cases context with
    | none => trivial
    | some context =>
      refine ⟨rfl, fun loaded => ?_⟩
      match loaded with
      | .error _ => trivial
      | .ok (attempts, more) =>
        refine within_reconcileAttempts.seq fun log'' pass _ => ?_
        cases pass <;> trivial

theorem within_migrateLegacyBatch {imports : List LegacyConnectionImport}
    {result : LegacyMigrationResult} : Within binding log (migrateLegacyBatch imports result) := by
  induction imports generalizing log result with
  | nil => trivial
  | cons legacy rest ih =>
    refine ⟨rfl, fun stored => ?_⟩
    match stored with
    | .error _ => trivial
    | .ok none =>
      refine ⟨rfl, fun now => ⟨rfl, fun imported => ?_⟩⟩
      cases imported with
      | error _ => trivial
      | ok _ => exact ih
    | .ok (some (.active active)) =>
      dsimp only [Prog.bind]
      split
      · exact ih
      · trivial
    | .ok (some (.tombstoned _)) => exact ih

end Passive

section Lifting

variable {x : Crates} {policy : WakePolicy} {wake : WakeInput}
  {S : HostLog → HostOp → Prop}
  (hsurrounding : ∀ log op, surrounding op.activity = true → S log op)
  (hdirect : ∀ log r request method, Spec S log (executeDirect x r request method) fun _ _ => True)
  (hpayment : ∀ log r payment, Spec S log (executePayment x r payment) fun _ _ => True)

include hsurrounding hdirect hpayment

theorem lift_dispatchRequest (log : HostLog) (r : ClaimedRequest) (request : Nip47.Request) :
    Spec S log (dispatchRequest x r request) fun _ _ => True := by
  unfold dispatchRequest
  split
  · exact within_respondWithError.surrounding.guard_imp hsurrounding
  · split
    · exact within_respondWithError.surrounding.guard_imp hsurrounding
    · split
      · refine ⟨hsurrounding _ _ rfl, fun _ => ?_⟩
        dsimp only [Prog.bind]
        split
        · exact hpayment _ _ _
        · exact within_rejectClaim.surrounding.guard_imp hsurrounding
      · split
        · exact within_respondWithError.surrounding.guard_imp hsurrounding
        · exact hdirect _ _ _ _

theorem lift_executeClaimed (log : HostLog) (r : ClaimedRequest) :
    Spec S log (executeClaimed x policy r) fun _ _ => True := by
  refine (within_acceptFreshness.guard_imp hsurrounding).seq fun log₁ fresh _ => ?_
  cases fresh with
  | error disposition => trivial
  | ok _ =>
    refine (within_decryptRequest.surrounding.guard_imp hsurrounding).seq fun log₂ request _ => ?_
    cases request with
    | error disposition => trivial
    | ok request => exact lift_dispatchRequest hsurrounding hdirect hpayment _ _ _

theorem lift_claimAndExecute (log : HostLog) (relay : SecureRelayUrl)
    (connection : ActiveConnection) (validated : ValidatedNwcEvent) :
    Spec S log (claimAndExecute x policy relay connection validated) fun _ _ => True := by
  refine ⟨hsurrounding _ _ rfl, fun remaining => ?_⟩
  dsimp only [Prog.bind]
  split
  · trivial
  · refine ⟨hsurrounding _ _ rfl, fun now => ⟨hsurrounding _ _ rfl, fun outcome => ?_⟩⟩
    match outcome with
    | .error _ => trivial
    | .ok (.inProgress _) => trivial
    | .ok (.terminal terminal) =>
      exact within_republishTerminal.responding.surrounding.guard_imp hsurrounding
    | .ok (.acquired lease) => exact lift_executeClaimed hsurrounding hdirect hpayment _ _

/-- What holds of every operation of carrying out a request, and of every operation
around that, holds of every operation of an execution. -/
theorem lift_execute (log : HostLog) :
    Spec S log (execute x policy wake) fun _ _ => True := by
  have hbinding : ∀ log op, binding op.activity = true → S log op := fun log op hop =>
    hsurrounding log op (by simp [surrounding, hop])
  refine ⟨hsurrounding _ _ rfl, fun cancelled => ?_⟩
  cases cancelled with
  | true => trivial
  | false =>
    refine ⟨hsurrounding _ _ rfl, fun now => ?_⟩
    dsimp only [Prog.bind]
    split
    · trivial
    · refine ⟨hsurrounding _ _ rfl, fun approved => ?_⟩
      match approved with
      | .ok false => trivial
      | .error _ => trivial
      | .ok true =>
        refine (within_obtainEvent.guard_imp hbinding).seq fun log₁ eventJson _ => ?_
        cases eventJson with
        | error disposition => trivial
        | ok eventJson =>
          refine (within_bindConnection.guard_imp hbinding).seq fun log₂ bound _ => ?_
          match bound with
          | .error disposition => trivial
          | .ok (connection, validated) =>
            exact lift_claimAndExecute hsurrounding hdirect hpayment _ _ _ _

/-- The same for every program of the system. -/
theorem lift_program (hreconcile : ∀ log op, reconciling op.activity = true → S log op)
    (job : Job) : Spec S [] (job.program x) fun _ _ => True := by
  cases job with
  | wake policy input =>
    exact (lift_execute hsurrounding hdirect hpayment []).seq fun _ _ _ => trivial
  | reconcile maxAttempts =>
    exact (within_reconcile.guard_imp hreconcile).seq fun _ _ _ => trivial
  | migrate imports =>
    refine (within_migrateLegacyBatch.guard_imp fun log op hop => ?_).seq fun _ _ _ => trivial
    exact hsurrounding log op (by simp [surrounding, hop])

end Lifting

end NwcMobile
