import NwcMobile.Engine.Alone
import NwcMobile.Ledger.RoundTrip
import NwcMobile.NwaAuthority

/-!
The approval of an authorization request. The wallet user grants a connection to the
application that asked for one; what is granted never exceeds what was asked for, and an
approval that fails leaves no trace.
-/

namespace NwcMobile

open Fallible Relational Program Registry

/-- What encodes the public result of an approval: `form_urlencoded::Serializer` and
`Url::set_fragment`. -/
structure CallbackEncoding where
  formUrlencoded : List (String × String) → String
  setFragment : ParsedUrl → String → ParsedUrl

namespace NwaCallback

def urlWithFragment (encoding : CallbackEncoding) (callback : NwaCallback)
    (fields : List (String × String)) : Except NwaError ParsedUrl :=
  .ok (encoding.setFragment callback.url (encoding.formUrlencoded fields))

def approvedUrl (encoding : CallbackEncoding) (callback : NwaCallback)
    (walletServicePubkey : PublicKey) (relays : List String) (lud16 : Option String) :
    Except NwaError ParsedUrl :=
  let named := lud16.filter fun value => !(trim value).isEmpty
  callback.urlWithFragment encoding
    ([("state", callback.state), ("status", "approved"),
      ("wallet_pubkey", Hex32.toHex walletServicePubkey.bytes)] ++
      relays.map (fun relay => ("relay", relay)) ++ named.toList.map fun value => ("lud16", value))

def targetDescription (parts : UrlParts) (callback : NwaCallback) : String :=
  "https://" ++ callback.url.hostStr.getD "" ++ parts.path callback.url

end NwaCallback

/-- `NwaRequestId::to_hex`: 32 lowercase digits. -/
def NwaRequest.idHex (request : NwaRequest) : String :=
  String.ofList ((List.range 32).map fun i =>
    Nat.digitChar (request.id.toNat / 16 ^ (31 - i) % 16))

inductive NwaApprovalError where
  | authorityEscalation
  | invalidCallback
  | registry (error : RegistryError)
deriving DecidableEq, Repr

/-- A grant the wallet user has reviewed. -/
structure NwaApproval where
  requestId : BitVec 128
  connectionId : ConnectionId
  walletServicePubkey : PublicKey
  relays : List SecureRelayUrl
  policy : ConnectionPolicy
  encryption : NwcEncryption
  lud16 : Option String

structure ApprovedNwaConnection where
  connection : ActiveConnection
  callbackUrl : Option String
deriving DecidableEq

def requestedMaximumFeeSat (requested : BudgetPolicy) : Nat :=
  match requested.feePolicy with
  | .countTowardBudget maximumFeeSat => maximumFeeSat
  | .excludeForCompatibility => 0

def feeReserveIsConservative (approved requested : BudgetPolicy) : Bool :=
  match approved.feePolicy with
  | .countTowardBudget maximumFeeSat =>
    maximumFeeSat == maximumMobileFeeSat approved.limitSat &&
      decide (maximumFeeSat ≤ requestedMaximumFeeSat requested)
  | .excludeForCompatibility => false

def validateNwaConnectionSubset (request : NwaRequest) (connection : NewConnection) :
    Except NwaApprovalError Unit :=
  let requested := request.requestedPolicy
  let approved := connection.policy
  let relaysAreRequested := connection.relays.all fun approved =>
    request.relays.any fun requested => requested == approved.value
  let methodsAreRequested := approved.methodList.all requested.allows
  let paymentBudgetIsUsable := !approved.allows .payInvoice ||
    decide (approved.budget.limitSat > maximumMobileFeeSat approved.budget.limitSat)
  ensure (!(connection.clientPubkey != request.clientPubkey ||
    connection.expiresAt != request.expiresAt || connection.relays.isEmpty ||
    !relaysAreRequested || approved.methodList.length == 0 || !methodsAreRequested ||
    decide (approved.budget.limitSat > requested.budget.limitSat) ||
    approved.budget.interval != requested.budget.interval ||
    !feeReserveIsConservative approved.budget requested.budget || !paymentBudgetIsUsable))
    .authorityEscalation

/-- `ConnectionManager::create`. -/
def createConnection (connection : NewConnection) :
    HostProg (Except RegistryError ActiveConnection) := do
  let now ← clockNow
  registry (.insertConnection connection now)

def approveNwaConnection (encoding : CallbackEncoding) (request : NwaRequest)
    (connection : NewConnection) (lud16 : Option String) :
    HostProg (Except NwaApprovalError ApprovedNwaConnection) :=
  match validateNwaConnectionSubset request connection with
  | .error error => pure (.error error)
  | .ok () =>
    let callbackRelays := connection.relays.map (·.value)
    let callbackUrl := request.callback.mapM fun callback =>
      callback.approvedUrl encoding connection.walletServicePubkey callbackRelays lud16
    match callbackUrl with
    | .error _ => pure (.error .invalidCallback)
    | .ok callbackUrl => do
      let created ← createConnection connection
      match created with
      | .error error => pure (.error (.registry error))
      | .ok connection => pure (.ok ⟨connection, callbackUrl.map (·.serialized)⟩)

def approveNwa (x : Crates) (encoding : CallbackEncoding) (request : NwaRequest)
    (approval : NwaApproval) (wakePolicy : WakePolicy) :
    HostProg (Except NwaApprovalError ApprovedNwaConnection) :=
  if approval.requestId ≠ request.id then pure (.error .authorityEscalation)
  else
    match NewConnection.new x approval.connectionId request.clientPubkey
        approval.walletServicePubkey approval.relays approval.policy approval.encryption
        wakePolicy with
    | .error error => pure (.error (.registry error))
    | .ok connection =>
      approveNwaConnection encoding request (connection.withExpiration request.expiresAt)
        approval.lud16

/-- Host values for one connection, not validated yet. -/
structure HostConnectionAuthorization where
  id : String
  clientPubkeyHex : String
  walletServicePubkeyHex : String
  relayUrls : List String
  methods : List NwcMethod
  budgetLimitSat : Nat
  budgetInterval : BudgetInterval
  feePolicy : FeePolicy
  encryption : NwcEncryption
  expiresAt : Option UnixTimestamp

def NewConnection.fromHostStrings (x : Crates) (id clientPubkeyHex walletServicePubkeyHex : String)
    (relayUrls : List String) (policy : ConnectionPolicy) (encryption : NwcEncryption)
    (wakePolicy : WakePolicy) : Except RegistryError NewConnection := do
  let id ← mapErr (ConnectionId.parse id) .invalidConnection
  let clientPubkey ← mapErr (Hex32.fromHex clientPubkeyHex) .invalidConnection
  let walletServicePubkey ← mapErr (Hex32.fromHex walletServicePubkeyHex) .invalidConnection
  let relays ← mapErr (relayUrls.mapM (SecureRelayUrl.parse x)) .invalidConnection
  NewConnection.new x id ⟨clientPubkey⟩ ⟨walletServicePubkey⟩ relays policy encryption wakePolicy

def HostConnectionAuthorization.intoConnection (x : Crates)
    (authorization : HostConnectionAuthorization) (wakePolicy : WakePolicy) :
    Except RegistryError NewConnection := do
  let connection ← NewConnection.fromHostStrings x authorization.id
    authorization.clientPubkeyHex authorization.walletServicePubkeyHex authorization.relayUrls
    (ConnectionPolicy.new authorization.methods
      ⟨authorization.budgetLimitSat, authorization.budgetInterval, authorization.feePolicy⟩)
    authorization.encryption wakePolicy
  pure (connection.withExpiration authorization.expiresAt)

/-- What the wallet user reviews. -/
structure NwaRequestPresentation where
  idHex : String
  clientPubkeyHex : String
  displayName : String
  iconUrl : Option String
  requestingAppDescription : Option String
  callbackTargetDescription : String
  relayUrls : List String
  budgetLimitSat : Nat
  budgetInterval : BudgetInterval
  methods : List NwcMethod
  expiresAt : Option UnixTimestamp

def NwaRequestPresentation.fromRequest (parts : UrlParts) (request : NwaRequest) :
    NwaRequestPresentation where
  idHex := request.idHex
  clientPubkeyHex := Hex32.toHex request.clientPubkey.bytes
  displayName := request.displayName
  iconUrl := request.iconUrl.map (·.serialized)
  requestingAppDescription := request.callback.bind (·.url.hostStr)
  callbackTargetDescription :=
    (request.callback.map (·.targetDescription parts)).getD "none"
  relayUrls := request.relays
  budgetLimitSat := request.requestedPolicy.budget.limitSat
  budgetInterval := request.requestedPolicy.budget.interval
  methods := request.requestedPolicy.methodList
  expiresAt := request.expiresAt

/-- Requests are only ever made by the parser. -/
def NwaRequest.Parsed (x : Crates) (parts : UrlParts) (policy : NwaParsePolicy)
    (request : NwaRequest) : Prop :=
  ∃ random input now, NwaRequest.parse x parts random input now policy = .ok request

/-- `pending_nwa`: the request under review, behind a lock that a panic poisons. -/
structure PendingNwa (x : Crates) (parts : UrlParts) (policy : NwaParsePolicy) where
  poisoned : Bool
  request : Option NwaRequest
  parsed : ∀ held ∈ request, held.Parsed x parts policy

/-- The failures of `MobileServiceError` that an authorization request meets. -/
inductive NwaServiceError where
  | registry (error : RegistryError)
  | nwa (error : NwaError)
  | nwaApproval (error : NwaApprovalError)
  | nwaAlreadyPending
  | noPendingNwa
  | stateUnavailable
deriving DecidableEq, Repr

section Session

variable {x : Crates} {parts : UrlParts} {policy : NwaParsePolicy}

def PendingNwa.cleared (pending : PendingNwa x parts policy) : PendingNwa x parts policy :=
  { pending with request := none, parsed := fun _ hheld => by cases hheld }

def openNwaRequestAt (pending : PendingNwa x parts policy) (random : Option (BitVec 128))
    (input : String) (now : UnixTimestamp) :
    Except NwaServiceError NwaRequestPresentation × PendingNwa x parts policy :=
  if pending.poisoned then (.error .stateUnavailable, pending)
  else if pending.request.isSome then (.error .nwaAlreadyPending, pending)
  else
    match hparse : NwaRequest.parse x parts random input now policy with
    | .error error => (.error (.nwa error), pending)
    | .ok request =>
      (.ok (.fromRequest parts request),
        { pending with
          request := some request
          parsed := by
            intro held hheld
            cases hheld
            exact ⟨random, input, now, hparse⟩ })

/-- The pending request is approved at most once: success clears it. -/
def approvePendingNwa (encoding : CallbackEncoding) (wakePolicy : WakePolicy)
    (pending : PendingNwa x parts policy) (expectedRequestIdHex : String)
    (authorization : HostConnectionAuthorization) (lud16 : Option String) :
    HostProg (Except NwaServiceError ApprovedNwaConnection × PendingNwa x parts policy) :=
  if pending.poisoned then pure (.error .stateUnavailable, pending)
  else
    match pending.request with
    | none => pure (.error .noPendingNwa, pending)
    | some request =>
      if request.idHex ≠ expectedRequestIdHex then
        pure (.error (.nwaApproval .authorityEscalation), pending)
      else
        match authorization.intoConnection x wakePolicy with
        | .error error => pure (.error (.registry error), pending)
        | .ok connection => do
          let approved ← approveNwaConnection encoding request connection lud16
          match approved with
          | .error error => pure (.error (.nwaApproval error), pending)
          | .ok approved => pure (.ok approved, pending.cleared)

def clearPendingNwa (pending : PendingNwa x parts policy) :
    Except NwaServiceError Unit × PendingNwa x parts policy :=
  if pending.poisoned then (.error .stateUnavailable, pending) else (.ok (), pending.cleared)

end Session

/-- The authority lies within what the request asked for, and its fee reserve is counted. -/
structure NwaRequest.Covers (request : NwaRequest) (clientPubkey : PublicKey)
    (expiresAt : Option UnixTimestamp) (relays : List SecureRelayUrl)
    (policy : ConnectionPolicy) : Prop where
  clientPubkey : clientPubkey = request.clientPubkey
  expiresAt : expiresAt = request.expiresAt
  relays : relays ≠ [] ∧ ∀ relay ∈ relays, relay.value ∈ request.relays
  methods : policy.methods.Nonempty ∧ policy.methods ⊆ request.requestedPolicy.methods
  limit : policy.budget.limitSat ≤ request.requestedPolicy.budget.limitSat
  interval : policy.budget.interval = request.requestedPolicy.budget.interval
  feeReserve : policy.budget.feePolicy =
    .countTowardBudget (maximumMobileFeeSat policy.budget.limitSat)

/-- A payment of this policy can be paid for: the budget exceeds its own fee reserve. -/
def ConnectionPolicy.Payable (policy : ConnectionPolicy) : Prop :=
  maximumMobileFeeSat policy.budget.limitSat < policy.budget.limitSat ∨
    .payInvoice ∉ policy.methods

/-- The connection is stored, within what the request asked for. -/
structure NwaRequest.Granted (x : Crates) (l : Ledger) (request : NwaRequest)
    (active : ActiveConnection) : Prop where
  stored : l.loadActiveConnection x active.id = .ok (some active)
  covers : request.Covers active.clientPubkey active.expiresAt active.relays active.policy
  withinReserve : ∃ reserve,
    request.requestedPolicy.budget.feePolicy = .countTowardBudget reserve ∧
      maximumMobileFeeSat active.policy.budget.limitSat ≤ reserve

section Subset

variable {x : Crates} {parts : UrlParts} {policy : NwaParsePolicy} {request : NwaRequest}
  {c : NewConnection}

theorem maximumMobileFeeSat_mono {a b : Nat} (h : a ≤ b) :
    maximumMobileFeeSat a ≤ maximumMobileFeeSat b := by
  unfold maximumMobileFeeSat
  split
  · omega
  · split
    · omega
    · omega

theorem maximumMobileFeeSat_le (a : Nat) : maximumMobileFeeSat a ≤ a := by
  unfold maximumMobileFeeSat
  split
  · omega
  · omega

theorem NwaRequest.Parsed.feeReserve (h : request.Parsed x parts policy) :
    request.requestedPolicy.budget.feePolicy =
      .countTowardBudget (maximumMobileFeeSat request.requestedPolicy.budget.limitSat) := by
  obtain ⟨random, input, now, hparse⟩ := h
  obtain ⟨url, -, -, hwithin⟩ := NwaRequest.parse_within hparse
  exact hwithin.feeReserve

/-- The reserve is at most the requested one as soon as the limit is. -/
theorem feeReserveIsConservative_eq_true {approved requested : BudgetPolicy}
    (hfee : requested.feePolicy = .countTowardBudget (maximumMobileFeeSat requested.limitSat))
    (hlimit : approved.limitSat ≤ requested.limitSat) :
    feeReserveIsConservative approved requested = true ↔
      approved.feePolicy = .countTowardBudget (maximumMobileFeeSat approved.limitSat) := by
  have hreserve : requestedMaximumFeeSat requested = maximumMobileFeeSat requested.limitSat := by
    rw [requestedMaximumFeeSat, hfee]
  have hmono := maximumMobileFeeSat_mono hlimit
  unfold feeReserveIsConservative
  rw [hreserve]
  cases happroved : approved.feePolicy with
  | countTowardBudget maximumFeeSat =>
    simp only [Bool.and_eq_true, beq_iff_eq, decide_eq_true_eq, FeePolicy.countTowardBudget.injEq]
    constructor
    · intro h
      exact h.1
    · rintro rfl
      exact ⟨rfl, hmono⟩
  | excludeForCompatibility => simp

/-- The subset check accepts exactly the payable connections within the request. -/
theorem validateNwaConnectionSubset_eq_ok
    (hfee : request.requestedPolicy.budget.feePolicy =
      .countTowardBudget (maximumMobileFeeSat request.requestedPolicy.budget.limitSat)) :
    validateNwaConnectionSubset request c = .ok () ↔
      request.Covers c.clientPubkey c.expiresAt c.relays c.policy ∧ c.policy.Payable := by
  have hmethods : c.policy.methods.Nonempty := by
    rw [← Finset.card_ne_zero]
    exact c.methods_nonempty
  have hlist : c.policy.methodList ≠ [] := by
    obtain ⟨method, hmethod⟩ := hmethods
    exact List.ne_nil_of_mem (ConnectionPolicy.mem_methodList.mpr hmethod)
  have hsubset : (∀ method ∈ c.policy.methodList, request.requestedPolicy.allows method = true) ↔
      c.policy.methods ⊆ request.requestedPolicy.methods := by
    simp only [ConnectionPolicy.mem_methodList, ConnectionPolicy.allows, decide_eq_true_eq]
    rfl
  simp only [validateNwaConnectionSubset, ensure_eq_ok, Bool.not_eq_true', Bool.or_eq_false_iff,
    Bool.not_eq_false', bne_eq_false_iff_eq, decide_eq_false_iff_not, List.all_eq_true,
    List.any_eq_true, beq_iff_eq, List.isEmpty_eq_false_iff, beq_eq_false_iff_ne,
    ne_eq, List.length_eq_zero_iff, Bool.or_eq_true, Bool.not_eq_true', decide_eq_true_eq, not_lt,
    gt_iff_lt, hsubset]
  constructor
  · rintro ⟨⟨⟨⟨⟨⟨⟨⟨⟨hclient, hexpires⟩, hrelays⟩, hwithin⟩, -⟩, hgranted⟩, hlimit⟩, hinterval⟩,
      hreserve⟩, hpayable⟩
    refine ⟨⟨hclient, hexpires, ⟨hrelays, ?_⟩, ⟨hmethods, hgranted⟩, hlimit, hinterval, ?_⟩, ?_⟩
    · intro relay hrelay
      obtain ⟨requested, hrequested, heq⟩ := hwithin relay hrelay
      rwa [← heq]
    · exact (feeReserveIsConservative_eq_true hfee hlimit).mp hreserve
    · rcases hpayable with hnot | husable
      · exact Or.inr (by simpa [ConnectionPolicy.allows] using hnot)
      · exact Or.inl husable
  · rintro ⟨h, hpayable⟩
    refine ⟨⟨⟨⟨⟨⟨⟨⟨⟨h.clientPubkey, h.expiresAt⟩, h.relays.1⟩, ?_⟩, hlist⟩, h.methods.2⟩, h.limit⟩,
      h.interval⟩, (feeReserveIsConservative_eq_true hfee h.limit).mpr h.feeReserve⟩, ?_⟩
    · intro relay hrelay
      exact ⟨relay.value, h.relays.2 relay hrelay, rfl⟩
    · rcases hpayable with husable | hnot
      · exact Or.inr husable
      · exact Or.inl (by simpa [ConnectionPolicy.allows] using hnot)

end Subset

/-- What an approval of the request does: it stores a connection within the request, or fails
and changes nothing. -/
structure GrantsWithin {ε : Type} (x : Crates) (l : Ledger) (request : NwaRequest)
    (result : Except ε ApprovedNwaConnection) (l' : Ledger) : Prop where
  granted : ∀ approved, result = .ok approved → request.Granted x l' approved.connection
  refused : ∀ error, result = .error error → l' = l

section Approvals

variable {x : Crates} {parts : UrlParts} {policy : NwaParsePolicy} {request : NwaRequest}
  {c base : NewConnection} {l l' : Ledger} {calls : List HostCall} {encoding : CallbackEncoding}
  {lud16 : Option String} {wakePolicy : WakePolicy}
  {result : Except NwaApprovalError ApprovedNwaConnection}

theorem NewConnection.built_of_new {id : ConnectionId} {client wallet : PublicKey}
    {relays : List SecureRelayUrl} {granted : ConnectionPolicy} {encryption : NwcEncryption}
    (h : NewConnection.new x id client wallet relays granted encryption wakePolicy = .ok base)
    (hrelays : ∀ relay ∈ relays, ∃ text, SecureRelayUrl.parse x text = .ok relay)
    (expiresAt : Option UnixTimestamp) : (base.withExpiration expiresAt).Built x := by
  have hnew := h
  unfold NewConnection.new at h
  split at h
  · cases h
    exact ⟨hrelays, wakePolicy, _, hnew, rfl⟩
  · cases h

theorem HostConnectionAuthorization.intoConnection_built
    {authorization : HostConnectionAuthorization}
    (h : authorization.intoConnection x wakePolicy = .ok c) : c.Built x := by
  simp only [intoConnection, NewConnection.fromHostStrings, bind_eq_ok, mapErr_eq_ok,
    pure_eq_ok] at h
  obtain ⟨base, ⟨id, -, client, -, wallet, -, relays, hrelays, hnew⟩, rfl⟩ := h
  apply NewConnection.built_of_new hnew
  intro relay hrelay
  obtain ⟨text, -, hparsed⟩ := mem_of_mapM hrelays relay hrelay
  exact ⟨text, hparsed⟩

/-- Creating a connection stores it, or changes nothing. -/
theorem alone_createConnection {created : Except RegistryError ActiveConnection}
    (hcoherent : l.Coherent x) (hurls : x.UrlsCanonical) (hbuilt : c.Built x)
    (h : Alone x l (createConnection c) calls created l') :
    (∃ now, created = .ok (c.activated now now) ∧
      l'.loadActiveConnection x c.id = .ok (some (c.activated now now))) ∨
      (∃ error, created = .error error) ∧ l' = l := by
  obtain ⟨now, rest, -, hcreate⟩ := Alone.host .clockNow (fun _ heq => by cases heq) h
  obtain ⟨-, hanswer⟩ := exec_perform.mp hcreate
  have hstep := hanswer.step
  cases created with
  | error error => exact Or.inr ⟨⟨error, rfl⟩, hstep.eq_of_error⟩
  | ok active =>
    have hadmits : Admits _ c now now active := .inserted c now active
    obtain ⟨rfl, hregistered⟩ := hadmits.registers hstep
    exact Or.inl ⟨now, rfl, (hregistered.enrolls hcoherent).loadActive hurls hbuilt⟩

theorem alone_refused {error : NwaApprovalError}
    (h : Alone x l (.done (.error error)) calls result l') :
    GrantsWithin x l request result l' := by
  obtain ⟨-, rfl, rfl⟩ := exec_done.mp h
  constructor
  · intro approved heq
    cases heq
  · intro _ _
    rfl

theorem alone_approveNwaConnection (hparsed : request.Parsed x parts policy)
    (hcoherent : l.Coherent x) (hurls : x.UrlsCanonical) (hbuilt : c.Built x)
    (h : Alone x l (approveNwaConnection encoding request c lud16) calls result l') :
    GrantsWithin x l request result l' := by
  unfold approveNwaConnection at h
  cases hsubset : validateNwaConnectionSubset request c with
  | error error =>
    rw [hsubset] at h
    exact alone_refused h
  | ok accepted =>
    rw [hsubset] at h
    dsimp only at h
    obtain ⟨hcovers, -⟩ := (validateNwaConnectionSubset_eq_ok hparsed.feeReserve).mp hsubset
    split at h
    · exact alone_refused h
    · obtain ⟨first, created, middle, second, -, hcreate, hrest⟩ := exec_bind.mp h
      rcases alone_createConnection hcoherent hurls hbuilt hcreate with
        ⟨now, rfl, hstored⟩ | ⟨⟨error, rfl⟩, rfl⟩
      · obtain ⟨-, rfl, rfl⟩ := exec_done.mp hrest
        refine ⟨fun approved heq => ?_, fun error heq => by cases heq⟩
        cases heq
        exact ⟨hstored, hcovers, _, hparsed.feeReserve, maximumMobileFeeSat_mono hcovers.limit⟩
      · exact alone_refused hrest

theorem alone_approveNwa {approval : NwaApproval} (hparsed : request.Parsed x parts policy)
    (hcoherent : l.Coherent x) (hurls : x.UrlsCanonical)
    (hrelays : ∀ relay ∈ approval.relays, ∃ text, SecureRelayUrl.parse x text = .ok relay)
    (h : Alone x l (approveNwa x encoding request approval wakePolicy) calls result l') :
    GrantsWithin x l request result l' := by
  unfold approveNwa at h
  split at h
  · exact alone_refused h
  · split at h
    · exact alone_refused h
    · rename_i connection hnew
      exact alone_approveNwaConnection hparsed hcoherent hurls
        (NewConnection.built_of_new hnew hrelays _) h

theorem alone_approvePendingNwa {pending pending' : PendingNwa x parts policy}
    {authorization : HostConnectionAuthorization} {expected : String}
    {outcome : Except NwaServiceError ApprovedNwaConnection}
    (hcoherent : l.Coherent x) (hurls : x.UrlsCanonical)
    (h : Alone x l (approvePendingNwa encoding wakePolicy pending expected authorization lud16)
      calls (outcome, pending') l') :
    (∃ request approved, pending.request = some request ∧ request.idHex = expected ∧
      outcome = .ok approved ∧ request.Granted x l' approved.connection ∧
        pending' = pending.cleared) ∨
      (∃ error, outcome = .error error) ∧ l' = l ∧ pending' = pending := by
  have hrefused : ∀ {calls error}, Alone x l (.done (.error error, pending) :
      HostProg (Except NwaServiceError ApprovedNwaConnection × PendingNwa x parts policy))
        calls (outcome, pending') l' →
        (∃ error, outcome = .error error) ∧ l' = l ∧ pending' = pending := by
    intro calls error hdone
    obtain ⟨-, heq, rfl⟩ := exec_done.mp hdone
    obtain ⟨rfl, rfl⟩ := Prod.mk.inj heq
    exact ⟨⟨error, rfl⟩, rfl, rfl⟩
  unfold approvePendingNwa at h
  split at h
  · exact Or.inr (hrefused h)
  · split at h
    · exact Or.inr (hrefused h)
    · rename_i request hheld
      split at h
      · exact Or.inr (hrefused h)
      · rename_i hid
        split at h
        · exact Or.inr (hrefused h)
        · rename_i connection hconnection
          obtain ⟨first, approved, middle, second, -, happrove, hrest⟩ := exec_bind.mp h
          have hgrants := alone_approveNwaConnection (pending.parsed request hheld) hcoherent hurls
            (HostConnectionAuthorization.intoConnection_built hconnection) happrove
          cases approved with
          | error error =>
            obtain rfl := hgrants.refused error rfl
            exact Or.inr (hrefused hrest)
          | ok approved =>
            obtain ⟨-, heq, rfl⟩ := exec_done.mp hrest
            obtain ⟨rfl, rfl⟩ := Prod.mk.inj heq
            exact Or.inl ⟨request, approved, hheld, not_not.mp hid, rfl,
              hgrants.granted approved rfl, rfl⟩

end Approvals

/-- An approval grants a part of what the request asked for. Whichever way a request that the
parser made is approved: the stored connection has its client key and expiry, some of its
relays and methods, at most its limit and its interval, and a counted reserve of exactly the
mobile fee of the granted limit, which the requested reserve covers. Every payable part of the
request passes the check, because the mobile fee grows with the limit and never exceeds it. A
failed approval leaves the ledger and the pending request as they were. -/
theorem nwa_approval_grants_subset {x : Crates} {parts : UrlParts} {policy : NwaParsePolicy}
    {history : LedgerHistory} {l : Ledger} (hurls : x.UrlsCanonical)
    (hrun : LedgerRun x .empty history l) (hbuilt : BuiltConnections x history) :
    (∀ request : NwaRequest, request.Parsed x parts policy →
      (∀ (c : NewConnection) encoding lud16 calls result l', c.Built x →
        Alone x l (approveNwaConnection encoding request c lud16) calls result l' →
          GrantsWithin x l request result l') ∧
      (∀ (approval : NwaApproval) encoding wakePolicy calls result l',
        (∀ relay ∈ approval.relays, ∃ text, SecureRelayUrl.parse x text = .ok relay) →
          Alone x l (approveNwa x encoding request approval wakePolicy) calls result l' →
            GrantsWithin x l request result l') ∧
      ∀ c : NewConnection, request.Covers c.clientPubkey c.expiresAt c.relays c.policy →
        c.policy.Payable → validateNwaConnectionSubset request c = .ok ()) ∧
    (∀ (pending pending' : PendingNwa x parts policy) encoding wakePolicy expected authorization
      lud16 calls outcome l',
      Alone x l (approvePendingNwa encoding wakePolicy pending expected authorization lud16) calls
        (outcome, pending') l' →
        (∃ request approved, pending.request = some request ∧ request.idHex = expected ∧
          outcome = .ok approved ∧ request.Granted x l' approved.connection ∧
            pending' = pending.cleared) ∨
          (∃ error, outcome = .error error) ∧ l' = l ∧ pending' = pending) ∧
    ∀ a b, a ≤ b → maximumMobileFeeSat a ≤ maximumMobileFeeSat b ∧ maximumMobileFeeSat a ≤ a := by
  have hcoherent := coherent_run hrun hbuilt
  refine ⟨fun request hparsed => ⟨?_, ?_, ?_⟩, ?_, ?_⟩
  · intro c encoding lud16 calls result l' hc halone
    exact alone_approveNwaConnection hparsed hcoherent hurls hc halone
  · intro approval encoding wakePolicy calls result l' hrelays halone
    exact alone_approveNwa hparsed hcoherent hurls hrelays halone
  · intro c hcovers hpayable
    exact (validateNwaConnectionSubset_eq_ok hparsed.feeReserve).mpr ⟨hcovers, hpayable⟩
  · intro pending pending' encoding wakePolicy expected authorization lud16 calls outcome l' halone
    exact alone_approvePendingNwa hcoherent hurls halone
  · intro a b hle
    exact ⟨maximumMobileFeeSat_mono hle, maximumMobileFeeSat_le a⟩

namespace Sample

/-- What is left of the sample request: one relay, one method and a smaller budget. -/
def shopAuthorization : HostConnectionAuthorization where
  id := "shop"
  clientPubkeyHex := clientHex
  walletServicePubkeyHex := walletServiceHex
  relayUrls := [backupRelayUrl]
  methods := [.payInvoice]
  budgetLimitSat := 5000
  budgetInterval := .daily
  feePolicy := .countTowardBudget 250
  encryption := .nip44V2
  expiresAt := some 2000

def shopPolicy : ConnectionPolicy := ⟨{.payInvoice}, ⟨5000, .daily, .countTowardBudget 250⟩⟩

def shopApproval : NwaApproval where
  requestId := 7
  connectionId := connectionId
  walletServicePubkey := walletServicePubkey
  relays := [⟨backupRelayUrl⟩]
  policy := shopPolicy
  encryption := .nip44V2
  lud16 := none

def shopConnection : NewConnection :=
  { connection with
    relays := [⟨backupRelayUrl⟩]
    policy := shopPolicy
    expiresAt := some 2000
    relays_nonempty := by decide
    relays_bounded := by decide
    relays_nodup := by decide
    methods_nonempty := by decide }

theorem readingCrates_urlsCanonical : readingCrates.UrlsCanonical := by
  intro text url h
  simp only [readingCrates] at h
  split at h
  · rename_i hbase
    obtain rfl := Option.some.inj h
    have hnonempty : text ≠ "" := by
      rintro rfl
      exact absurd hbase (by decide)
    refine ⟨by simpa [nwaUrl] using hnonempty, ?_⟩
    simp [readingCrates, nwaUrl, hbase]
  · have hknown : ∀ url ∈ hostUrls, url.serialized.isEmpty = false ∧
        readingCrates.parseUrl url.serialized = some url := by decide
    exact hknown url (List.mem_of_find?_eq_some h)

def samplePolicy : WakePolicy := ⟨.fromSecs 600, .fromSecs 60, .fromSecs 3600, 4096, 8⟩

def callbackEncoding : CallbackEncoding where
  formUrlencoded fields := "&".intercalate (fields.map fun field => field.1 ++ "=" ++ field.2)
  setFragment url fragment := { url with fragment := some fragment }

/-- The request under review. -/
def pendingShop : PendingNwa readingCrates readingParts .default where
  poisoned := false
  request := some shopRequest
  parsed := by
    intro held hheld
    cases hheld
    exact ⟨some 7, shopUri, 1000, parse_shop⟩

def approving : List HostCall × Except NwaApprovalError ApprovedNwaConnection × Ledger :=
  runAlone readingCrates (script 1000 0)
    (approveNwa readingCrates callbackEncoding shopRequest shopApproval samplePolicy) .empty

def approvingPending : List HostCall × (Except NwaServiceError ApprovedNwaConnection ×
    PendingNwa readingCrates readingParts .default) × Ledger :=
  runAlone readingCrates (script 1000 0)
    (approvePendingNwa callbackEncoding samplePolicy pendingShop shopRequest.idHex
      shopAuthorization none) .empty

theorem approving_granted :
    approving.2.1.toOption.map (·.connection.policy) = some shopPolicy := by
  decide

theorem approvingPending_alone : Alone readingCrates .empty
    (approvePendingNwa callbackEncoding samplePolicy pendingShop shopRequest.idHex
      shopAuthorization none) approvingPending.1 approvingPending.2.1 approvingPending.2.2 := by
  unfold approvingPending
  generalize approvePendingNwa callbackEncoding samplePolicy pendingShop shopRequest.idHex
    shopAuthorization none = program
  exact runAlone_alone readingCrates (script 1000 0) program .empty

theorem approvingPending_granted :
    approvingPending.2.1.1.toOption.map (·.connection.policy) = some shopPolicy := by
  decide +kernel

end Sample

/-- Both ways to approve the sample request store a connection that may spend less than the
request asked for, from fewer relays and with fewer methods. -/
theorem nwa_approval_grants_subset_example :
    validateNwaConnectionSubset Sample.shopRequest Sample.shopConnection = .ok () ∧
      (∃ approved, Sample.approving.2.1 = .ok approved ∧
        Sample.shopRequest.Granted Sample.readingCrates Sample.approving.2.2
          approved.connection ∧
        approved.connection.policy = Sample.shopPolicy) ∧
      (∃ approved, Sample.approvingPending.2.1.1 = .ok approved ∧
        Sample.shopRequest.Granted Sample.readingCrates Sample.approvingPending.2.2
          approved.connection ∧
        approved.connection.policy = Sample.shopPolicy ∧
        Sample.approvingPending.2.1.2.request = none) ∧
      Sample.shopPolicy.methods ⊂ Sample.shopRequest.requestedPolicy.methods ∧
      Sample.shopPolicy.budget.limitSat < Sample.shopRequest.requestedPolicy.budget.limitSat := by
  have hparsed : Sample.shopRequest.Parsed Sample.readingCrates Sample.readingParts .default :=
    ⟨some 7, Sample.shopUri, 1000, Sample.parse_shop⟩
  obtain ⟨hrequests, hpending, -⟩ := @nwa_approval_grants_subset Sample.readingCrates
    Sample.readingParts .default _ _ Sample.readingCrates_urlsCanonical Transition.Run.refl
    fun _ hmem => absurd hmem List.not_mem_nil
  obtain ⟨-, happrove, hshrunk⟩ := hrequests _ hparsed
  refine ⟨hshrunk Sample.shopConnection ?_ (Or.inl (by decide)), ?_, ?_, by decide, by decide⟩
  · exact ⟨rfl, rfl, by decide, by decide, by decide, rfl, rfl⟩
  · have hgrants := happrove Sample.shopApproval Sample.callbackEncoding Sample.samplePolicy
      Sample.approving.1 Sample.approving.2.1 Sample.approving.2.2 ?_
      (runAlone_alone Sample.readingCrates _ _ _)
    · have hgranted := Sample.approving_granted
      cases hresult : Sample.approving.2.1 with
      | error error => simp [hresult, Except.toOption] at hgranted
      | ok approved =>
        refine ⟨approved, rfl, hgrants.granted approved hresult, ?_⟩
        simpa [hresult, Except.toOption] using hgranted
    · intro relay hrelay
      obtain rfl := List.mem_singleton.mp hrelay
      exact ⟨Sample.backupRelayUrl, by decide⟩
  · have halone := Sample.approvingPending_alone
    have hgranted := Sample.approvingPending_granted
    generalize Sample.approvingPending = run at halone hgranted ⊢
    obtain ⟨calls, ⟨outcome, pending⟩, l⟩ := run
    rcases hpending _ _ _ _ _ _ _ _ _ _ halone with
      ⟨request, approved, hheld, -, hresult, hstored, hcleared⟩ | ⟨⟨error, hresult⟩, -⟩
    · obtain rfl := Option.some.inj hheld
      refine ⟨approved, hresult, hstored, ?_, by rw [hcleared]; rfl⟩
      simpa [hresult, Except.toOption] using hgranted
    · simp [hresult, Except.toOption] at hgranted

end NwcMobile
