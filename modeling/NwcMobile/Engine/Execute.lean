import NwcMobile.Engine.Payment
import NwcMobile.Engine.Requests

/-!
`WakeEngine::execute`, from a wake notification to its disposition, cut into the
stages it passes: obtain the event, bind it to a connection, claim it, accept its
freshness, decrypt it and carry it out.
-/

namespace NwcMobile

open Program Prog Nip47

def eventRejection (error : NostrEventError) : RejectionCode :=
  match error with
  | .invalidCreatedAt => .eventOutsideFreshnessWindow
  | .eventIdMismatch => .eventMismatch
  | _ => .invalidEvent

/-- The remaining budget in whole seconds, rounded up, plus one. -/
def leaseDurationForBudget (remaining : Duration) : Option Duration :=
  if remaining.isZero then none
  else do
    let roundedSeconds ← checkedAdd remaining.asSecs (if remaining.subsecNanos ≠ 0 then 1 else 0)
    let seconds ← checkedAdd roundedSeconds 1
    pure (.fromSecs seconds)

variable (x : Crates) (policy : WakePolicy)

/-- The embedded event, or the one the relay returns. -/
def obtainEvent (wake : WakeInput) (relay : SecureRelayUrl) :
    HostProg (Except WakeDisposition String) :=
  match wake.embeddedEventJson with
  | some event => pure (.ok event)
  | none => do
    let context ← deadlineContext
    match context with
    | none => pure (.error (queued .deadline))
    | some context => do
      let fetched ← ask (.fetchEvent relay wake.eventId policy.maximumPayloadBytes context)
      match fetched with
      | .ok (some event) => pure (.ok event)
      | .ok none => pure (.error (retry engineRetryDelay .relayUnavailable))
      | .error error =>
        if error.kind = .rejected then pure (.error (rejected .invalidEvent))
        else pure (.error (retry engineRetryDelay .relayUnavailable))

/-- The connection of the event's claimed author, once the event is validated
against it. -/
def bindConnection (wake : WakeInput) (relay : SecureRelayUrl) (authorizationTime : UnixTimestamp)
    (eventJson : String) :
    HostProg (Except WakeDisposition (ActiveConnection × ValidatedNwcEvent)) :=
  match candidateAuthor x policy eventJson with
  | .error _ => pure (.error (rejected .invalidEvent))
  | .ok author => do
    let found ← registry (.loadActiveConnectionByKeys author wake.walletServicePubkey)
    match found with
    | .error _ => pure (.error (queued .ledgerBusy))
    | .ok none => pure (.error (rejected .connectionUnavailable))
    | .ok (some connection) =>
      if connection.isExpiredAt authorizationTime then
        pure (.error (rejected .connectionUnavailable))
      else if !connection.allowsRelay relay then pure (.error (rejected .relayNotAllowed))
      else
        match validateRequestForReplay x policy eventJson wake.eventId connection.clientPubkey
            connection.walletServicePubkey connection.encryption with
        | .error error => pure (.error (rejected (eventRejection error)))
        | .ok validated => pure (.ok (connection, validated))

/-- Freshness is checked under the claim, unless an earlier claim of the event
has already accepted it. -/
def acceptFreshness (r : ClaimedRequest) : HostProg (Except WakeDisposition Unit) :=
  if r.lease.freshnessAccepted then pure (.ok ())
  else do
    let now ← clockNow
    if policy.acceptsEventTime r.validated.createdAt now then do
      let acceptedAt ← clockNow
      let accepted ← claims (.acceptEventFreshness r.lease acceptedAt)
      match accepted with
      | .ok _ => pure (.ok ())
      | .error _ => do
        let disposition ← releaseToApplication r.lease .ledgerBusy
        pure (.error disposition)
    else do
      let disposition ← rejectClaim r.lease .eventOutsideFreshnessWindow
      pure (.error disposition)

/-- The request inside the event, if it decrypts and parses. -/
def parseRequest (validated : ValidatedNwcEvent) (secret : NwcSecretKey) :
    Except NostrEventError Nip47.Request := do
  let plaintext ← validated.decrypt x secret
  Fallible.okOr (x.requestFromJson plaintext) .malformedEvent

def decryptRequest (r : ClaimedRequest) : HostProg (Except WakeDisposition Nip47.Request) := do
  let context ← deadlineContext
  match context with
  | none => do
    let disposition ← releaseToApplication r.lease .deadline
    pure (.error disposition)
  | some context => do
    let secret ← ask (.loadNwcSecret r.connection.id context)
    match secret with
    | .error _ => do
      let disposition ← releaseToApplication r.lease .secureStorageUnavailable
      pure (.error disposition)
    | .ok secret =>
      match parseRequest x r.validated secret with
      | .ok request => pure (.ok request)
      | .error _ => do
        let disposition ← rejectClaim r.lease .invalidRequest
        pure (.error disposition)

/-- A request that does not pay, once its method is authorized. -/
def executeDirect (r : ClaimedRequest) (request : Nip47.Request) (method : NwcMethod) :
    HostProg WakeDisposition := do
  let active ← ensureClaimConnectionActive r.connection r.lease
  match active with
  | .error disposition => pure disposition
  | .ok _ => do
    let context ← deadlineContext
    match context with
    | none => releaseToApplication r.lease .deadline
    | some context => do
      let result ← executeRequest request r context
      match result with
      | .error error =>
        if error.isRetryable then retryClaim r.lease .walletUnavailable
        else if error.kind = .cancelled then releaseToApplication r.lease .deadline
        else respondWithError x r (protocolMethod method) (hostErrorCode error) .invalidRequest
      | .ok result => do
        let stillActive ← ensureClaimConnectionActive r.connection r.lease
        match stillActive with
        | .error disposition => pure disposition
        | .ok _ => commitAndPublish x r ⟨result.method, none, some result.result⟩

/-- Carry out a decrypted request: its method must be known and allowed. -/
def dispatchRequest (r : ClaimedRequest) (request : Nip47.Request) : HostProg WakeDisposition :=
  match domainMethod request.method with
  | none => respondWithError x r request.method .notImplemented .invalidRequest
  | some method =>
    if !r.connection.policy.allows method then
      respondWithError x r request.method .restricted .methodNotAllowed
    else if method = .payInvoice then do
      recordDiagnostic .paymentRequestAccepted
      match request.params with
      | .payInvoice payment => executePayment x r payment
      | _ => rejectClaim r.lease .invalidRequest
    else if !isDirectRequest method then
      respondWithError x r request.method .notImplemented .invalidRequest
    else executeDirect x r request method

/-- What happens under an acquired claim. -/
def executeClaimed (r : ClaimedRequest) : HostProg WakeDisposition := do
  let fresh ← acceptFreshness policy r
  match fresh with
  | .error disposition => pure disposition
  | .ok _ => do
    let request ← decryptRequest x r
    match request with
    | .error disposition => pure disposition
    | .ok request => dispatchRequest x r request

/-- Claim the validated event, or answer from its durable state. -/
def claimAndExecute (relay : SecureRelayUrl) (connection : ActiveConnection)
    (validated : ValidatedNwcEvent) : HostProg WakeDisposition := do
  let remaining ← deadlineRemaining
  match leaseDurationForBudget remaining with
  | none => pure (queued .deadline)
  | some leaseDuration => do
    let now ← clockNow
    let outcome ← claims (.claimEvent validated.id connection.id connection.revision now
      leaseDuration)
    match outcome with
    | .error _ => pure (queued .ledgerBusy)
    | .ok (.inProgress _) => pure alreadyProcessed
    | .ok (.terminal terminal) =>
      republishTerminal connection relay terminal.responseEventJson
        (notificationFor terminal.requestMethod)
    | .ok (.acquired lease) => executeClaimed x policy ⟨lease, connection, validated, relay⟩

/-- The stages after the wake's relay is approved. -/
def executeApproved (wake : WakeInput) (relay : SecureRelayUrl)
    (authorizationTime : UnixTimestamp) : HostProg WakeDisposition := do
  let eventJson ← obtainEvent policy wake relay
  match eventJson with
  | .error disposition => pure disposition
  | .ok eventJson => do
    let bound ← bindConnection x policy wake relay authorizationTime eventJson
    match bound with
    | .error disposition => pure disposition
    | .ok (connection, validated) => claimAndExecute x policy relay connection validated

/-- `WakeEngine::execute`. -/
def execute (wake : WakeInput) : HostProg WakeDisposition := do
  let cancelled ← ask .isCancelled
  if cancelled then pure (queued .deadline)
  else do
    let authorizationTime ← clockNow
    match SecureRelayUrl.parse x wake.relay with
    | .error _ => pure (rejected .invalidWakePayload)
    | .ok relay => do
      let approved ← registry (.isRelayApprovedForWallet wake.walletServicePubkey relay
        authorizationTime)
      match approved with
      | .ok true => executeApproved x policy wake relay authorizationTime
      | .ok false => pure (rejected .relayNotAllowed)
      | .error _ => pure (queued .ledgerBusy)

end NwcMobile
