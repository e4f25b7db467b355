import NwcMobile.Engine.Responses

/-!
Requests that do not pay: reading the wallet, creating an invoice, looking one up
and listing transactions.
-/

namespace NwcMobile

open Program Prog Nip47

def defaultListLimit : Nat := 20

def maxListLimit : Nat := 100

def defaultInvoiceExpiry : Duration := .fromSecs (60 * 60)

def maxInvoiceExpiry : Duration := .fromSecs (7 * 24 * 60 * 60)

def maxInvoiceDescriptionBytes : Nat := 1024

def maxLookupInvoiceBytes : Nat := 16384

structure DirectRequestResult where
  method : Method
  result : ResponseResult
deriving DecidableEq, Repr

def isDirectRequest (method : NwcMethod) : Bool :=
  match method with
  | .getInfo | .getBalance | .makeInvoice | .lookupInvoice | .listTransactions => true
  | .payInvoice => false

def isEngineSupported (method : NwcMethod) : Bool :=
  method == .payInvoice || isDirectRequest method

def hostErrorCode (error : HostError) : ErrorCode :=
  match error.kind with
  | .notFound => .notFound
  | .rejected => .other
  | _ => .internal

def parseMakeInvoiceRequest (request : Nip47.MakeInvoiceRequest) :
    Except HostErrorKind (NwcMobile.MakeInvoiceRequest × Option String) :=
  if request.amount = 0 ∨ request.descriptionHash.isSome = true then .error .rejected
  else if request.description.any fun description =>
      decide (description.utf8ByteSize > maxInvoiceDescriptionBytes) then .error .rejected
  else
    let expiry := Duration.fromSecs (request.expiry.getD defaultInvoiceExpiry.asSecs)
    if expiry.isZero = true ∨ maxInvoiceExpiry < expiry then .error .rejected
    else .ok (⟨request.amount, request.description, expiry⟩, request.description)

def parseLookupRequest (request : LookupInvoiceRequest) : Except HostErrorKind InvoiceLookup :=
  match request.paymentHash, request.invoice with
  | some hash, none =>
    match PaymentHash.fromHex hash with
    | .ok hash => .ok (.paymentHash hash)
    | .error _ => .error .rejected
  | _, some invoice =>
    if invoice.isEmpty || decide (invoice.utf8ByteSize > maxLookupInvoiceBytes) then
      .error .rejected
    else .ok (.invoice invoice)
  | none, none => .error .rejected

def parseListRequest (request : Nip47.ListTransactionsRequest) :
    Except HostErrorKind NwcMobile.ListTransactionsRequest :=
  if (request.from?.any fun start => request.until?.any fun stop => decide (stop < start)) then
    .error .rejected
  else if 2 ^ 32 ≤ request.offset.getD 0 then .error .rejected
  else .ok
    { from? := request.from?, until? := request.until?
      limit := min (request.limit.getD defaultListLimit) maxListLimit
      offset := request.offset.getD 0
      direction := request.transactionType.map fun direction =>
        match direction with
        | .incoming => .incoming
        | .outgoing => .outgoing
      includeUnpaid := request.unpaid.getD false }

/-- The state and preimage a status discloses. -/
def transactionState : PaymentStatus → TransactionState × Option String
  | .unknown | .pending => (.pending, none)
  | .succeeded preimage _ _ => (.settled, some (Hex32.toHex preimage.bytes))
  | .failed _ => (.failed, none)

def transactionResponse (transaction : WalletTransaction) :
    Except HostErrorKind LookupInvoiceResponse :=
  match transaction.paymentHash with
  | none => .error .internal
  | some hash =>
    .ok
      { transactionType := some (match transaction.direction with
          | .incoming => .incoming
          | .outgoing => .outgoing)
        state := some (transactionState transaction.status).1
        invoice := none
        description := none
        descriptionHash := none
        preimage := (transactionState transaction.status).2
        paymentHash := Hex32.toHex hash.bytes
        amount := transaction.amount
        feesPaid := transaction.fee
        createdAt := transaction.createdAt
        expiresAt := none
        settledAt := transaction.settledAt }

def pendingTrackedInvoiceTransaction (invoice : TrackedNwcInvoice) : WalletTransaction where
  paymentHash := some invoice.paymentHash
  direction := .incoming
  amount := invoice.amount
  fee := 0
  createdAt := invoice.createdAt
  settledAt := none
  status := .pending

/-- The `get_info` answer: the backend's methods the policy allows. -/
def getInfoResult (connection : ActiveConnection) (info : WalletInfo) : DirectRequestResult where
  method := .getInfo
  result := .getInfo
    { pubkey := info.publicKey.map fun key => Hex32.toHex key.bytes
      methods := (info.methodList.filter fun method =>
        connection.policy.allows method && isEngineSupported method).map protocolMethod
      notifications := info.notificationList.map (·.asStr) }

def makeInvoiceResult (tracked : TrackedNwcInvoice) : DirectRequestResult where
  method := .makeInvoice
  result := .makeInvoice
    { invoice := tracked.invoice
      paymentHash := some (Hex32.toHex tracked.paymentHash.bytes)
      description := tracked.description
      amount := some tracked.amount
      createdAt := some tracked.createdAt
      expiresAt := some tracked.expiresAt }

/-- `TrackedNwcInvoice::new` for the invoice a request created. -/
def trackedInvoice (r : ClaimedRequest) (created : CreatedInvoice) (description : Option String)
    (createdAt : UnixTimestamp) : TrackedNwcInvoice where
  requestEventId := r.validated.id
  paymentHash := created.paymentHash
  connectionId := r.connection.id
  connectionRevision := r.connection.revision
  invoice := created.invoice
  description := description
  amount := created.amount
  createdAt := createdAt
  expiresAt := created.expiresAt
  notificationEventJson := none

/-- An invoice already recorded for this event is returned as it is. -/
def makeInvoice (r : ClaimedRequest) (request : Nip47.MakeInvoiceRequest)
    (context : OperationContext) : HostProg (Except HostError DirectRequestResult) :=
  match parseMakeInvoiceRequest request with
  | .error kind => pure (.error ⟨kind⟩)
  | .ok (request, description) => do
    let createdAt ← clockNow
    let existing ← records (.loadNwcInvoice r.validated.id)
    match existing with
    | .error _ => pure (.error ⟨.unavailable⟩)
    | .ok (some tracked) => pure (.ok (makeInvoiceResult tracked))
    | .ok none => do
      let created ← wallet (.makeInvoice request) context
      match created with
      | .error error => pure (.error error)
      | .ok created => do
        let recorded ← records (.recordNwcInvoice (trackedInvoice r created description createdAt)
          r.connection.relays)
        match recorded with
        | .error _ => pure (.error ⟨.unavailable⟩)
        | .ok tracked => pure (.ok (makeInvoiceResult tracked))

/-- The ledger's record of the invoice a lookup names, if it names one. -/
def trackedLookup (request : LookupInvoiceRequest) :
    HostProg (Except HostError (Option TrackedNwcInvoice)) :=
  match request.invoice, request.paymentHash with
  | some invoice, _ => do
    let found ← records (.loadNwcInvoiceByEncodedInvoice invoice)
    pure (Fallible.mapErr found ⟨.unavailable⟩)
  | none, some paymentHash =>
    match PaymentHash.fromHex paymentHash with
    | .error _ => pure (.error ⟨.rejected⟩)
    | .ok paymentHash => do
      let found ← records (.loadNwcInvoiceByPaymentHash paymentHash)
      pure (Fallible.mapErr found ⟨.unavailable⟩)
  | none, none => pure (.ok none)

def lookupSelector (request : LookupInvoiceRequest) (tracked : Option TrackedNwcInvoice) :
    Except HostErrorKind InvoiceLookup :=
  match tracked with
  | some invoice => .ok (.paymentHash invoice.paymentHash)
  | none => parseLookupRequest request

def lookupResult (transaction : Option WalletTransaction) :
    Except HostError DirectRequestResult :=
  match transaction with
  | none => .error ⟨.notFound⟩
  | some transaction =>
    match transactionResponse transaction with
    | .error kind => .error ⟨kind⟩
    | .ok response => .ok ⟨.lookupInvoice, .lookupInvoice response⟩

/-- When the wallet does not know a tracked invoice yet, an unexpired one is
reported as pending. -/
def lookupFallback (tracked : Option TrackedNwcInvoice) : HostProg (Option WalletTransaction) :=
  match tracked with
  | none => pure none
  | some invoice => do
    let now ← clockNow
    pure (if invoice.expiresAt > now then some (pendingTrackedInvoiceTransaction invoice) else none)

def lookupInvoice (request : LookupInvoiceRequest) (context : OperationContext) :
    HostProg (Except HostError DirectRequestResult) := do
  let tracked ← trackedLookup request
  match tracked with
  | .error error => pure (.error error)
  | .ok tracked =>
    match lookupSelector request tracked with
    | .error kind => pure (.error ⟨kind⟩)
    | .ok lookup => do
      let found ← wallet (.lookupInvoice lookup) context
      match found with
      | .error error => pure (.error error)
      | .ok (some transaction) => pure (lookupResult (some transaction))
      | .ok none => do
        let fallback ← lookupFallback tracked
        pure (lookupResult fallback)

def listTransactions (request : Nip47.ListTransactionsRequest) (context : OperationContext) :
    HostProg (Except HostError DirectRequestResult) :=
  match parseListRequest request with
  | .error kind => pure (.error ⟨kind⟩)
  | .ok request => do
    let listed ← wallet (.listTransactions request) context
    match listed with
    | .error error => pure (.error error)
    | .ok transactions =>
      match transactions.mapM transactionResponse with
      | .error kind => pure (.error ⟨kind⟩)
      | .ok responses => pure (.ok ⟨.listTransactions, .listTransactions responses⟩)

def executeRequest (request : Nip47.Request) (r : ClaimedRequest) (context : OperationContext) :
    HostProg (Except HostError DirectRequestResult) :=
  match request.params with
  | .getInfo => do
    let info ← wallet .getInfo context
    match info with
    | .error error => pure (.error error)
    | .ok info => pure (.ok (getInfoResult r.connection info))
  | .getBalance => do
    let balance ← wallet .getBalance context
    match balance with
    | .error error => pure (.error error)
    | .ok balance => pure (.ok ⟨.getBalance, .getBalance balance⟩)
  | .makeInvoice request => makeInvoice r request context
  | .lookupInvoice request => lookupInvoice request context
  | .listTransactions request => listTransactions request context
  | .payInvoice _ | .other _ => pure (.error ⟨.rejected⟩)

end NwcMobile
