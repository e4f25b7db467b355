import NwcMobile.Engine.System

/-!
What every program of the system has established when it performs an operation.
The facts are read off the program's own log: which questions it asked and what
the answers were. They are proved once, function by function, for every possible
answer; what they mean for a run follows from where the answers came from.
-/

namespace NwcMobile

open Program Concurrent Nip47

/-- The program asked `op` and was answered `reply`. -/
def Answered (log : HostLog) (op : HostOp) (reply : op.Reply) : Prop := ⟨op, reply⟩ ∈ log

/-- A completion that did not commit. -/
def FailedCompletion : HostCall → Prop
  | ⟨.ledger (.claim (.completeEvent ..)), .error _⟩ => True
  | ⟨.ledger (.claim (.completeEventForActiveConnection ..)), .error _⟩ => True
  | ⟨.ledger (.claim (.completeNwcEventForActiveConnection ..)), .error _⟩ => True
  | _ => False

/-- A failed completion or a publication: an execution makes at most one such
call, and completes nothing after it. -/
def Final : HostCall → Prop
  | ⟨.publishEvent .., _⟩ => True
  | call => FailedCompletion call

def Unfinished (log : HostLog) : Prop := ∀ call ∈ log, ¬ Final call

/-- The program went on from `log` to `log'` without a final call. -/
structure Continues (log log' : HostLog) : Prop where
  sub : log ⊆ log'
  clean : ∀ call ∈ log', call ∈ log ∨ ¬ Final call

namespace Continues

variable {log log₁ log₂ : HostLog} {c : HostCall}

theorem refl (log : HostLog) : Continues log log :=
  ⟨List.Subset.refl log, fun _ hcall => Or.inl hcall⟩

theorem trans (h₁ : Continues log log₁) (h₂ : Continues log₁ log₂) : Continues log log₂ := by
  refine ⟨List.Subset.trans h₁.sub h₂.sub, fun call hcall => ?_⟩
  rcases h₂.clean call hcall with hprior | hclean
  · exact h₁.clean call hprior
  · exact Or.inr hclean

theorem cons (h : Continues log log₁) (hcall : ¬ Final c) :
    Continues log (c :: log₁) := by
  refine ⟨fun prior hprior => List.mem_cons_of_mem _ (h.sub hprior), fun prior hprior => ?_⟩
  rcases List.mem_cons.mp hprior with rfl | hold
  · exact Or.inr hcall
  · exact h.clean prior hold

/-- One harmless call. -/
theorem one (hcall : ¬ Final c) : Continues log (c :: log) :=
  (refl log).cons hcall

end Continues

theorem Unfinished.mono {log log' : HostLog} (h : Unfinished log) (hsub : Continues log log') :
    Unfinished log' := by
  intro call hcall
  rcases hsub.clean call hcall with hprior | hclean
  · exact h call hprior
  · exact hclean

theorem Answered.mono {log log' : HostLog} {op : HostOp} {reply : op.Reply}
    (h : Answered log op reply) (hsub : Continues log log') : Answered log' op reply := hsub.sub h

/-- The NIP-47 method a wallet call serves. -/
def WalletOp.method : WalletOp → NwcMethod
  | .getInfo => .getInfo
  | .getBalance => .getBalance
  | .makeInvoice _ => .makeInvoice
  | .quotePayment .. | .paymentStatus _ | .startPayment _ => .payInvoice
  | .lookupInvoice _ => .lookupInvoice
  | .listTransactions _ => .listTransactions

section Facts

variable (x : Crates) (policy : WakePolicy) (wake : WakeInput) (log : HostLog)

/-- The wake's relay is approved, and the event is authentic for the connection
that was loaded for it, which lists that relay and has not expired. Nothing is
final yet. -/
structure Bound (relay : SecureRelayUrl) (connection : ActiveConnection)
    (validated : ValidatedNwcEvent) : Prop where
  unfinished : Unfinished log
  parsed : SecureRelayUrl.parse x wake.relay = .ok relay
  approved : ∃ now, Answered log (.ledger (.registry
    (.isRelayApprovedForWallet wake.walletServicePubkey relay now))) (.ok true) ∧
      connection.isExpiredAt now = false
  loaded : ∃ author, Answered log (.ledger (.registry
    (.loadActiveConnectionByKeys author wake.walletServicePubkey))) (.ok (some connection))
  allowed : connection.allowsRelay relay = true
  eventId : validated.id = wake.eventId
  authentic : ∃ eventJson event, Authentic x eventJson connection.clientPubkey
    connection.walletServicePubkey connection.encryption validated event

/-- The execution holds a claim of the event. -/
structure Claimed (r : ClaimedRequest) : Prop where
  bound : Bound x wake log r.relay r.connection r.validated
  acquired : ∃ now duration, Answered log (.ledger (.claim
    (.claimEvent r.validated.id r.connection.id r.connection.revision now duration)))
      (.ok (.acquired r.lease))

/-- The event's freshness was accepted under this claim or an earlier one. -/
structure Fresh (r : ClaimedRequest) : Prop where
  claimed : Claimed x wake log r
  accepted : r.lease.freshnessAccepted = true ∨
    (∃ now, Answered log .clockNow now ∧
      policy.acceptsEventTime r.validated.createdAt now = true) ∧
    ∃ now, Answered log (.ledger (.claim (.acceptEventFreshness r.lease now))) (.ok ())

/-- The request was decrypted and its method is granted. -/
structure Permitted (r : ClaimedRequest) (request : Nip47.Request) (method : NwcMethod) :
    Prop where
  fresh : Fresh x policy wake log r
  decrypted : ∃ context secret, Answered log (.loadNwcSecret r.connection.id context)
    (.ok secret) ∧ parseRequest x r.validated secret = .ok request
  known : domainMethod request.method = some method
  granted : r.connection.policy.allows method = true

/-- The request is a granted payment. -/
def Paying (r : ClaimedRequest) : Prop :=
  ∃ request payment, Permitted x policy wake log r request .payInvoice ∧
    request.params = .payInvoice payment

end Facts

/-- The response was committed under a lease of the event, or was found in its
terminal row. -/
inductive Committed (log : HostLog) (e : EventId) (json : String) : Prop
  | completed {lease : EventLease} {c c' : ConnectionId} {revision revision' : ConnectionRevision}
      {now now' : UnixTimestamp} {duration : Duration}
      (claimed : Answered log (.ledger (.claim (.claimEvent e c revision now duration)))
        (.ok (.acquired lease)))
      (done : Answered log (.ledger (.claim
        (.completeEventForActiveConnection lease c' revision' json now'))) (.ok ()))
  | completedNwc {lease : EventLease} {c c' : ConnectionId}
      {revision revision' : ConnectionRevision} {now now' : UnixTimestamp} {duration : Duration}
      {method : NwcMethod}
      (claimed : Answered log (.ledger (.claim (.claimEvent e c revision now duration)))
        (.ok (.acquired lease)))
      (done : Answered log (.ledger (.claim
        (.completeNwcEventForActiveConnection lease c' revision' json method now'))) (.ok ()))
  | found {terminal : TerminalEvent} {c : ConnectionId} {revision : ConnectionRevision}
      {now : UnixTimestamp} {duration : Duration}
      (claimed : Answered log (.ledger (.claim (.claimEvent e c revision now duration)))
        (.ok (.terminal terminal)))
      (json_eq : terminal.responseEventJson = some json)

/-- The attempt the execution works on: read for its event, or reserved by it. -/
inductive Snapshot (log : HostLog) (r : ClaimedRequest) (attempt : PaymentAttempt) : Prop
  | loaded (answered : Answered log (.ledger (.payment
      (.loadPaymentAttemptByEvent r.validated.id))) (.ok (some attempt)))
      (connectionId : attempt.connectionId = r.connection.id)
  | reserved {hash : PaymentHash} {principal : Nat} {now : UnixTimestamp}
      (answered : Answered log (.ledger (.payment
        (.reservePayment r.validated.id hash r.connection principal now)))
          (.ok (.reserved attempt)))
  | existing {hash : PaymentHash} {principal : Nat} {now : UnixTimestamp}
      (answered : Answered log (.ledger (.payment
        (.reservePayment r.validated.id hash r.connection principal now)))
          (.ok (.existing attempt)))

/-- A payment was started under the event. -/
def Started (log : HostLog) (e : EventId) : Prop :=
  ∃ start context reply, Answered log (.wallet (.startPayment start) context) reply ∧
    start.idempotencyKey = e

/-- A status of `hash` is the status of the execution's own payment: it started
it, or the attempt it works on is known to have been started. -/
def Attributable (log : HostLog) (r : ClaimedRequest) (hash : PaymentHash) : Prop :=
  ∃ attempt, Snapshot log r attempt ∧ hash = attempt.paymentHash ∧
    (Started log r.validated.id ∨ attempt.mayDiscloseSettlement = true)

/-- A response with the preimage of a payment is built only for the execution's
own payment. -/
def Disclosable (log : HostLog) (r : ClaimedRequest) (response : Response) : Prop :=
  ∀ preimage fees, response.result = some (.payInvoice preimage fees) →
    ∃ hash, Attributable log r hash

/-- The wallet reported a status other than unknown. -/
def Noticed (log : HostLog) (hash : PaymentHash) : Prop :=
  ∃ context status, Answered log (.wallet (.paymentStatus hash) context) (.ok status) ∧
    status ≠ .unknown

/-- A completion under the execution's own claim, at the time its clock has just
shown. -/
def Completing (x : Crates) (wake : WakeInput) (log : HostLog) (lease : EventLease)
    (now : UnixTimestamp) : Prop :=
  log.head? = some ⟨.clockNow, now⟩ ∧ ∃ r, Claimed x wake log r ∧ lease = r.lease

/-- Moreover the response was built by this execution. -/
def Responding (x : Crates) (wake : WakeInput) (log : HostLog) (lease : EventLease)
    (now : UnixTimestamp) (json : String) : Prop :=
  log.head? = some ⟨.clockNow, now⟩ ∧ ∃ r response secret createdAt nonce,
    Claimed x wake log r ∧ lease = r.lease ∧
      r.validated.buildResponseEvent x secret (x.responseAsJson response) createdAt nonce =
        .ok json ∧ Disclosable log r response

/-- The connection's activity was confirmed. -/
def ActivityConfirmed (log : HostLog) (connection : ActiveConnection) : Prop :=
  Answered log (.ledger (.registry
    (.isConnectionRevisionActive connection.id connection.revision))) (.ok true)

/-- The initiation marker of the attempt is known to be written. -/
def Marked (log : HostLog) (attempt : PaymentAttempt) : Prop :=
  attempt.wasInitiated = true ∨ ∃ now marked, Answered log (.ledger (.payment
    (.markPaymentInitiated attempt.paymentHash now))) (.ok marked)

section Mono

variable {x : Crates} {policy : WakePolicy} {wake : WakeInput} {log log' : HostLog}
  {relay : SecureRelayUrl} {connection : ActiveConnection} {validated : ValidatedNwcEvent}
  {r : ClaimedRequest} {request : Nip47.Request} {method : NwcMethod} {attempt : PaymentAttempt}

theorem Bound.mono (h : Bound x wake log relay connection validated) (hsub : Continues log log') :
    Bound x wake log' relay connection validated := by
  obtain ⟨now, happroved, hexpired⟩ := h.approved
  obtain ⟨author, hloaded⟩ := h.loaded
  exact { h with
    unfinished := h.unfinished.mono hsub
    approved := ⟨now, happroved.mono hsub, hexpired⟩
    loaded := ⟨author, hloaded.mono hsub⟩ }

theorem Claimed.mono (h : Claimed x wake log r) (hsub : Continues log log') : Claimed x wake log' r := by
  obtain ⟨now, duration, hacquired⟩ := h.acquired
  exact ⟨h.bound.mono hsub, now, duration, hacquired.mono hsub⟩

theorem Fresh.mono (h : Fresh x policy wake log r) (hsub : Continues log log') :
    Fresh x policy wake log' r := by
  refine ⟨h.claimed.mono hsub, ?_⟩
  rcases h.accepted with hearlier | ⟨⟨now, hclock, htime⟩, at', haccepted⟩
  · exact Or.inl hearlier
  · exact Or.inr ⟨⟨now, hclock.mono hsub, htime⟩, at', haccepted.mono hsub⟩

theorem Permitted.mono (h : Permitted x policy wake log r request method) (hsub : Continues log log') :
    Permitted x policy wake log' r request method := by
  obtain ⟨context, secret, hsecret, hrequest⟩ := h.decrypted
  exact ⟨h.fresh.mono hsub, ⟨context, secret, hsecret.mono hsub, hrequest⟩, h.known, h.granted⟩

theorem Paying.mono (h : Paying x policy wake log r) (hsub : Continues log log') :
    Paying x policy wake log' r := by
  obtain ⟨request, payment, hpermitted, hparams⟩ := h
  exact ⟨request, payment, hpermitted.mono hsub, hparams⟩

theorem Paying.fresh (h : Paying x policy wake log r) : Fresh x policy wake log r := by
  obtain ⟨request, payment, hpermitted, -⟩ := h
  exact hpermitted.fresh

theorem Snapshot.mono (h : Snapshot log r attempt) (hsub : Continues log log') :
    Snapshot log' r attempt := by
  cases h with
  | loaded answered connectionId => exact .loaded (answered.mono hsub) connectionId
  | reserved answered => exact .reserved (answered.mono hsub)
  | existing answered => exact .existing (answered.mono hsub)

theorem Committed.mono {e : EventId} {json : String} (h : Committed log e json)
    (hsub : Continues log log') : Committed log' e json := by
  cases h with
  | completed claimed done => exact .completed (claimed.mono hsub) (done.mono hsub)
  | completedNwc claimed done => exact .completedNwc (claimed.mono hsub) (done.mono hsub)
  | found claimed json_eq => exact .found (claimed.mono hsub) json_eq

theorem Marked.mono (h : Marked log attempt) (hsub : Continues log log') : Marked log' attempt := by
  rcases h with hinitiated | ⟨now, marked, hanswered⟩
  · exact Or.inl hinitiated
  · exact Or.inr ⟨now, marked, hanswered.mono hsub⟩

theorem Started.mono {e : EventId} (h : Started log e) (hsub : Continues log log') :
    Started log' e := by
  obtain ⟨start, context, reply, hanswered, hkey⟩ := h
  exact ⟨start, context, reply, hanswered.mono hsub, hkey⟩

theorem Attributable.mono {hash : PaymentHash} (h : Attributable log r hash)
    (hsub : Continues log log') : Attributable log' r hash := by
  obtain ⟨attempt, hsnapshot, hhash, hstarted | hdisclose⟩ := h
  · exact ⟨attempt, hsnapshot.mono hsub, hhash, Or.inl (hstarted.mono hsub)⟩
  · exact ⟨attempt, hsnapshot.mono hsub, hhash, Or.inr hdisclose⟩

theorem Disclosable.mono {response : Response} (h : Disclosable log r response)
    (hsub : Continues log log') : Disclosable log' r response := by
  intro preimage fees hresult
  obtain ⟨hash, hattributable⟩ := h preimage fees hresult
  exact ⟨hash, hattributable.mono hsub⟩

theorem Attributable.disclosable {hash : PaymentHash} (h : Attributable log r hash)
    (response : Response) : Disclosable log r response :=
  fun _ _ _ => ⟨hash, h⟩

/-- An error response discloses nothing. -/
theorem disclosable_error {method : Method} {error : Option Nip47.Error} :
    Disclosable log r ⟨method, error, none⟩ := by
  intro preimage fees hresult
  cases hresult

end Mono

/-- What a wake execution has established before each operation. -/
def WakeGuard (x : Crates) (policy : WakePolicy) (wake : WakeInput) (log : HostLog) :
    HostOp → Prop
  | .loadNwcSecret id _ => ∃ r, Fresh x policy wake log r ∧ id = r.connection.id
  | .publishEvent relay json _ => ∃ connection validated,
      Bound x wake log relay connection validated ∧ Committed log wake.eventId json
  | .wallet (.startPayment start) _ => ∃ r attempt, Paying x policy wake log r ∧
      Snapshot log r attempt ∧ Marked log attempt ∧
      start.idempotencyKey = wake.eventId ∧ start.maximumFee = attempt.feeReserveSat
  | .wallet op _ => ∃ r request method, Permitted x policy wake log r request method ∧
      request.params.method = protocolMethod op.method
  | .ledger (.claim (.claimEvent e _ _ now _)) =>
      e = wake.eventId ∧ log.head? = some ⟨.clockNow, now⟩
  | .ledger (.claim (.retryLater _ now delay)) =>
      log.head? = some ⟨.clockNow, now⟩ ∧ delay = engineRetryDelay
  | .ledger (.claim (.completeEvent lease _ _ now)) => Completing x wake log lease now
  | .ledger (.claim (.completeEventForActiveConnection lease _ _ json now)) =>
      Responding x wake log lease now json
  | .ledger (.claim (.completeNwcEventForActiveConnection lease _ _ json _ now)) =>
      Responding x wake log lease now json
  | .ledger (.claim (.acceptEventFreshness lease acceptedAt)) => ∃ r now older,
      log = ⟨.clockNow, acceptedAt⟩ :: ⟨.clockNow, now⟩ :: older ∧ Claimed x wake older r ∧
      lease = r.lease ∧ policy.acceptsEventTime r.validated.createdAt now = true
  | .ledger (.payment (.reservePayment e _ connection _ _)) => ∃ r, Paying x policy wake log r ∧
      e = r.validated.id ∧ connection = r.connection
  | .ledger (.payment (.markPaymentInitiated hash _)) => ∃ r attempt,
      Paying x policy wake log r ∧ Snapshot log r attempt ∧
      ActivityConfirmed log r.connection ∧ hash = attempt.paymentHash
  | .ledger (.payment (.releaseUninitiatedPayment hash _)) => ∃ r attempt,
      Paying x policy wake log r ∧ Snapshot log r attempt ∧ hash = attempt.paymentHash ∧
      attempt.mayDiscloseSettlement = false ∧ Noticed log hash
  | .ledger (.payment (.markPaymentPending hash _)) => ∃ r, Paying x policy wake log r ∧
      Attributable log r hash
  | .ledger (.payment (.markPaymentFailed hash _)) => ∃ r, Paying x policy wake log r ∧
      Attributable log r hash
  | .ledger (.payment (.markPaymentSucceeded hash _ _ _)) => ∃ r, Paying x policy wake log r ∧
      Attributable log r hash
  | .ledger (.record (.recordNwcSentPayment payment _)) => ∃ r, Paying x policy wake log r ∧
      payment.requestEventId = r.validated.id ∧ Attributable log r payment.paymentHash
  | _ => True

/-- One of the unresolved attempts the pass has loaded. -/
def Unresolved (log : HostLog) (attempt : PaymentAttempt) : Prop :=
  ∃ limit attempts more, Answered log (.ledger (.payment (.loadUnresolvedPaymentAttempts limit)))
    (.ok (attempts, more)) ∧ attempt ∈ attempts

/-- The pass updates a loaded attempt whose status may be attributed. -/
def Reconciling (log : HostLog) (hash : PaymentHash) : Prop :=
  ∃ attempt, Unresolved log attempt ∧ hash = attempt.paymentHash ∧
    attempt.mayDiscloseSettlement = true

/-- Reconciliation and imports neither load secrets nor claim, publish, reserve,
mark or start anything. -/
def PassiveGuard (log : HostLog) : HostOp → Prop
  | .loadNwcSecret .. | .publishEvent .. => False
  | .ledger (.claim _) | .ledger (.record _) => False
  | .wallet (.paymentStatus _) _ => True
  | .wallet .. => False
  | .ledger (.payment (.reservePayment ..)) => False
  | .ledger (.payment (.markPaymentInitiated ..)) => False
  | .ledger (.payment (.releaseUninitiatedPayment hash _)) => ∃ attempt, Unresolved log attempt ∧
      hash = attempt.paymentHash ∧ attempt.mayDiscloseSettlement = false ∧ Noticed log hash
  | .ledger (.payment (.markPaymentPending hash _)) => Reconciling log hash
  | .ledger (.payment (.markPaymentFailed hash _)) => Reconciling log hash
  | .ledger (.payment (.markPaymentSucceeded hash _ _ _)) => Reconciling log hash
  | _ => True

def Job.Guard (x : Crates) : Job → HostLog → HostOp → Prop
  | .wake policy input => WakeGuard x policy input
  | .reconcile _ | .migrate _ => PassiveGuard

end NwcMobile
