import NwcMobile.Host

/-!
How the engine ends an execution: rejecting a claim, handing it back, and
committing a response before publishing it.
-/

namespace NwcMobile

open Program Prog Nip47

def engineRetryDelay : Duration := .fromSecs 5

def completed (notification : NotificationHint) : WakeDisposition := .completed notification

def alreadyProcessed : WakeDisposition := .alreadyProcessed .completed

def queued (reason : QueueReason) : WakeDisposition :=
  .queuedForApplication reason .openApplication

def retry (delay : Duration) (reason : RetryReason) : WakeDisposition :=
  .retryAfter delay reason .processing

def rejected (code : RejectionCode) : WakeDisposition := .rejected code .completed

/-- The request an execution has claimed: its lease, the connection that
authorizes it, the validated event and the relay it came from. -/
structure ClaimedRequest where
  lease : EventLease
  connection : ActiveConnection
  validated : ValidatedNwcEvent
  relay : SecureRelayUrl

def domainMethod : Method → Option NwcMethod
  | .getInfo => some .getInfo
  | .getBalance => some .getBalance
  | .makeInvoice => some .makeInvoice
  | .payInvoice => some .payInvoice
  | .lookupInvoice => some .lookupInvoice
  | .listTransactions => some .listTransactions
  | .other _ => none

def protocolMethod : NwcMethod → Method
  | .getInfo => .getInfo
  | .getBalance => .getBalance
  | .makeInvoice => .makeInvoice
  | .payInvoice => .payInvoice
  | .lookupInvoice => .lookupInvoice
  | .listTransactions => .listTransactions

def protocolErrorMessage : ErrorCode → String
  | .notImplemented => "method is not implemented"
  | .restricted => "method is not authorized"
  | .notFound => "wallet object was not found"
  | .other => "request was rejected"
  | _ => "wallet operation failed"

/-- The hint for a finished request of a known method. -/
def notificationFor (method : Option NwcMethod) : NotificationHint :=
  match method with
  | some method => .request method
  | none => .completed

def rejectClaim (lease : EventLease) (code : RejectionCode) : HostProg WakeDisposition := do
  let now ← clockNow
  let done ← claims (.completeEvent lease .rejected none now)
  match done with
  | .ok _ => pure (rejected code)
  | .error _ => pure (queued .ledgerBusy)

def retryClaim (lease : EventLease) (reason : RetryReason) : HostProg WakeDisposition := do
  let now ← clockNow
  let done ← claims (.retryLater lease now engineRetryDelay)
  match done with
  | .ok _ => pure (retry engineRetryDelay reason)
  | .error _ => pure (queued .ledgerBusy)

def releaseToApplication (lease : EventLease) (reason : QueueReason) :
    HostProg WakeDisposition := do
  let now ← clockNow
  let done ← claims (.retryLater lease now engineRetryDelay)
  match done with
  | .ok _ => pure (queued reason)
  | .error _ => pure (queued .ledgerBusy)

def completionFailed (lease : EventLease) (error : LedgerError) : HostProg WakeDisposition :=
  match error with
  | .connectionUnavailable => pure (rejected .connectionUnavailable)
  | .lostLease => pure (retry engineRetryDelay .responsePersistenceFailed)
  | .responseTooLarge => pure (queued .unsupportedInBackground)
  | _ => retryClaim lease .responsePersistenceFailed

def revisionIsActive (connection : ActiveConnection) : HostProg (Except RegistryError Bool) :=
  registry (.isConnectionRevisionActive connection.id connection.revision)

/-- `ensure_claim_connection_active`: the disposition to return when the
connection is no longer active. -/
def ensureClaimConnectionActive (connection : ActiveConnection) (lease : EventLease) :
    HostProg (Except WakeDisposition Unit) := do
  let active ← revisionIsActive connection
  match active with
  | .ok true => pure (.ok ())
  | .ok false => do
    let disposition ← rejectClaim lease .connectionUnavailable
    pure (.error disposition)
  | .error _ => do
    let disposition ← releaseToApplication lease .ledgerBusy
    pure (.error disposition)

def publishFailed : HostProg WakeDisposition := do
  recordDiagnostic .responsePublishFailed
  pure (retry engineRetryDelay .responsePublishFailed)

def republishTerminal (connection : ActiveConnection) (relay : SecureRelayUrl)
    (eventJson : Option String) (notification : NotificationHint) : HostProg WakeDisposition :=
  match eventJson with
  | none => pure alreadyProcessed
  | some eventJson => do
    let active ← revisionIsActive connection
    match active with
    | .ok true => do
      let context ← deadlineContext
      match context with
      | none => publishFailed
      | some context => do
        let published ← ask (.publishEvent relay eventJson context)
        match published with
        | .ok _ => pure (completed notification)
        | .error _ => publishFailed
    | .ok false => pure (rejected .connectionUnavailable)
    | .error _ => pure (queued .ledgerBusy)

variable (x : Crates)

/-- The guarded completion, with the method when the engine knows it. -/
def completeForActive (r : ClaimedRequest) (eventJson : String) (method : Option NwcMethod)
    (now : UnixTimestamp) : HostProg (Except LedgerError Unit) :=
  match method with
  | some method =>
    claims (.completeNwcEventForActiveConnection r.lease r.connection.id r.connection.revision
      eventJson method now)
  | none =>
    claims (.completeEventForActiveConnection r.lease r.connection.id r.connection.revision
      eventJson now)

def commitAndPublish (r : ClaimedRequest) (response : Response) : HostProg WakeDisposition := do
  let requestMethod := domainMethod response.resultType
  let context ← deadlineContext
  match context with
  | none => releaseToApplication r.lease .deadline
  | some context => do
    let secret ← ask (.loadNwcSecret r.connection.id context)
    match secret with
    | .error _ => releaseToApplication r.lease .secureStorageUnavailable
    | .ok secret => do
      let createdAt ← clockNow
      let nonce ← ask .nonce
      match r.validated.buildResponseEvent x secret (x.responseAsJson response) createdAt nonce with
      | .error _ => rejectClaim r.lease .invalidRequest
      | .ok eventJson => do
        let now ← clockNow
        let completion ← completeForActive r eventJson requestMethod now
        match completion with
        | .error error => completionFailed r.lease error
        | .ok _ =>
          republishTerminal r.connection r.relay (some eventJson) (notificationFor requestMethod)

/-- An error response is committed like any other; the wake counts as rejected. -/
def asRejection (rejection : RejectionCode) : WakeDisposition → WakeDisposition
  | .completed notification => .rejected rejection notification
  | other => other

def respondWithError (r : ClaimedRequest) (method : Method) (errorCode : ErrorCode)
    (rejection : RejectionCode) : HostProg WakeDisposition := do
  let active ← ensureClaimConnectionActive r.connection r.lease
  match active with
  | .error disposition => pure disposition
  | .ok _ => do
    let disposition ← commitAndPublish x r
      ⟨method, some ⟨errorCode, protocolErrorMessage errorCode⟩, none⟩
    pure (asRejection rejection disposition)

end NwcMobile
