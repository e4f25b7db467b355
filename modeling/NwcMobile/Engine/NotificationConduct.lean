import NwcMobile.Engine.Guards
import NwcMobile.Engine.InvoiceNotifications
import NwcMobile.Ledger.NotificationRows

/-!
What a notification pass has established when it performs an operation: which record
it is about and how the pass came by it, which event it publishes and to which relays,
and when it looked at the record's connection.
-/

namespace NwcMobile

open Program Prog Fallible Notifications InvoiceNotificationWorker

/-- What a pass covers. -/
inductive PassScope where
  | all
  | wallet (walletServicePubkey : PublicKey)
  | invoice (requestEventId : EventId)
deriving DecidableEq

def PassScope.program (x : Crates) (asJson : Nip47.Notification → String) :
    PassScope → HostProg (Except InvoiceNotificationError InvoiceNotificationWorkerReport)
  | .all => run x asJson
  | .wallet walletServicePubkey => runForWallet x asJson walletServicePubkey
  | .invoice requestEventId => runInvoice x asJson requestEventId

/-- A record as a pass reads it from the ledger. -/
inductive TrackedRecord where
  | payment (payment : TrackedNwcPayment)
  | invoice (invoice : TrackedNwcInvoice)
deriving DecidableEq

namespace TrackedRecord

def kind : TrackedRecord → RecordKind
  | .payment _ => .sent
  | .invoice _ => .invoice

def eventId : TrackedRecord → EventId
  | .payment p => p.requestEventId
  | .invoice i => i.requestEventId

def connectionId : TrackedRecord → ConnectionId
  | .payment p => p.connectionId
  | .invoice i => i.connectionId

def connectionRevision : TrackedRecord → ConnectionRevision
  | .payment p => p.connectionRevision
  | .invoice i => i.connectionRevision

def eventJson : TrackedRecord → Option String
  | .payment p => p.notificationEventJson
  | .invoice i => i.notificationEventJson

end TrackedRecord

/-- The pass asked the ledger this and was answered. -/
def Returned (log : HostLog) (op : NotificationOp) (value : op.Value) : Prop :=
  Answered log (.ledger (.record (.notification op))) (.ok value)

/-- The ledger has listed the record for the pass. -/
inductive Listed (log : HostLog) : PassScope → TrackedRecord → Prop
  | payment {maximum : Nat} {batch : List TrackedNwcPayment} {payment : TrackedNwcPayment}
      (returned : Returned log (.pendingNwcSentPayments maximum) batch) (mem : payment ∈ batch) :
      Listed log .all (.payment payment)
  | paymentOfWallet {wallet : PublicKey} {maximum : Nat} {batch : List TrackedNwcPayment}
      {payment : TrackedNwcPayment}
      (returned : Returned log (.pendingNwcSentPaymentsForWallet wallet maximum) batch)
      (mem : payment ∈ batch) : Listed log (.wallet wallet) (.payment payment)
  | invoice {maximum : Nat} {batch : List TrackedNwcInvoice} {invoice : TrackedNwcInvoice}
      (returned : Returned log (.pendingNwcInvoices maximum) batch) (mem : invoice ∈ batch) :
      Listed log .all (.invoice invoice)
  | invoiceOfWallet {wallet : PublicKey} {maximum : Nat} {batch : List TrackedNwcInvoice}
      {invoice : TrackedNwcInvoice}
      (returned : Returned log (.pendingNwcInvoicesForWallet wallet maximum) batch)
      (mem : invoice ∈ batch) : Listed log (.wallet wallet) (.invoice invoice)
  | requested {eventId : EventId} {invoice : TrackedNwcInvoice}
      (returned : Returned log (.pendingNwcInvoice eventId) (some invoice)) :
      Listed log (.invoice eventId) (.invoice invoice)

/-- The event is the one the ledger holds for the record. -/
inductive Canonical (log : HostLog) (record : TrackedRecord) (json : String) : Prop
  | listed (stored : record.eventJson = some json)
  | storedSent {proposed : String} (kind : record.kind = .sent)
      (returned : Returned log (.storeNwcSentNotificationEvent record.eventId proposed) json)
  | storedInvoice {proposed : String} {time : UnixTimestamp} (kind : record.kind = .invoice)
      (returned : Returned log (.storeNwcInvoiceNotificationEvent record.eventId proposed time) json)

/-- The relay is one of those the ledger says are owed the record's notification. -/
inductive OwedTo (log : HostLog) (record : TrackedRecord) (relay : SecureRelayUrl) : Prop
  | sent {relays : List SecureRelayUrl} (kind : record.kind = .sent)
      (returned : Returned log (.undeliveredNwcSentRelays record.eventId) relays) (mem : relay ∈ relays)
  | invoice {relays : List SecureRelayUrl} (kind : record.kind = .invoice)
      (returned : Returned log (.undeliveredNwcInvoiceRelays record.eventId) relays) (mem : relay ∈ relays)

/-- After it was listed the record's connection was looked up. -/
def LookedUp (log : HostLog) (scope : PassScope) (record : TrackedRecord)
    (found : Option ActiveConnection) : Prop :=
  ∃ newer older, log = newer ++
      ⟨.ledger (.registry (.loadActiveConnection record.connectionId)), .ok found⟩ :: older ∧
    Listed older scope record

/-- The lookup found the connection active at the record's revision. -/
def FoundActive (log : HostLog) (scope : PassScope) (record : TrackedRecord)
    (connection : ActiveConnection) : Prop :=
  LookedUp log scope record (some connection) ∧ connection.revision = record.connectionRevision

/-- The lookup found it inactive, or active at another revision. -/
def FoundInactive (log : HostLog) (scope : PassScope) (record : TrackedRecord) : Prop :=
  ∃ found, LookedUp log scope record found ∧
    ∀ connection, found = some connection → connection.revision ≠ record.connectionRevision

/-- The wallet was asked for the invoice, and did not say that it was paid. -/
def FoundUnpaid (log : HostLog) (invoice : TrackedNwcInvoice) : Prop :=
  ∃ context found, Answered log (.wallet (.lookupInvoice (.paymentHash invoice.paymentHash)) context)
    (.ok found) ∧ ∀ transaction, found = some transaction → ∀ preimage amount fee,
      transaction.status ≠ .succeeded preimage amount fee

/-- The clock has passed the time at which an unpaid invoice is given up. -/
def Stale (log : HostLog) (invoice : TrackedNwcInvoice) : Prop :=
  ∃ now, Answered log .clockNow now ∧
    min (invoice.expiresAt + settlementReconciliationGraceSeconds) (2 ^ 64 - 1) ≤ now

/-- The pass built the event for a record from the connection it found active, the secret
it loaded for that and, for an invoice, the payment that the wallet reported. -/
inductive Composed (x : Crates) (asJson : Nip47.Notification → String) (log : HostLog)
    (scope : PassScope) : RecordKind → EventId → String → Prop
  | sent {payment : TrackedNwcPayment} {connection : ActiveConnection} {secret : NwcSecretKey}
      {nonce : BitVec 256} {context : OperationContext} {json : String}
      (active : FoundActive log scope (.payment payment) connection)
      (loaded : Answered log (.loadNwcSecret connection.id context) (.ok secret))
      (built : buildPaymentSentNotificationEvent x asJson connection secret payment nonce = .ok json) :
      Composed x asJson log scope .sent payment.requestEventId json
  | received {invoice : TrackedNwcInvoice} {connection : ActiveConnection} {secret : NwcSecretKey}
      {nonce : BitVec 256} {context context' : OperationContext} {json : String}
      {transaction : WalletTransaction}
      (active : FoundActive log scope (.invoice invoice) connection)
      (paid : Answered log (.wallet (.lookupInvoice (.paymentHash invoice.paymentHash)) context')
        (.ok (some transaction)))
      (loaded : Answered log (.loadNwcSecret connection.id context) (.ok secret))
      (built : buildPaymentReceivedNotificationEvent x asJson connection secret invoice transaction
        nonce = .ok json) :
      Composed x asJson log scope .invoice invoice.requestEventId json

/-- The event may be published for the record. -/
structure Publishable (log : HostLog) (scope : PassScope) (record : TrackedRecord) (json : String) :
    Prop where
  listed : Listed log scope record
  canonical : Canonical log record json
  looked : record.kind = .sent ∨ record.eventJson ≠ some json →
    ∃ connection, FoundActive log scope record connection

/-- The pass publishes the event of the record to one of the relays owed that. -/
structure Notifying (log : HostLog) (scope : PassScope) (record : TrackedRecord) (json : String)
    (relay : SecureRelayUrl) : Prop where
  publishable : Publishable log scope record json
  owedTo : OwedTo log record relay

/-- The newest calls published the record's event to the relay, with success. -/
def JustPublished (log : HostLog) (scope : PassScope) (record : TrackedRecord)
    (relay : SecureRelayUrl) (deliveredAt : UnixTimestamp) : Prop :=
  ∃ json context older,
    log = ⟨.clockNow, deliveredAt⟩ :: ⟨.publishEvent relay json context, .ok ()⟩ :: older ∧
      Notifying older scope record json relay

/-- What is established before an operation on the records. -/
def RecordGuard (x : Crates) (asJson : Nip47.Notification → String) (scope : PassScope) (log : HostLog) : NotificationOp → Prop
  | .pendingNwcSentPayments _ | .pendingNwcInvoices _ => scope = .all
  | .pendingNwcSentPaymentsForWallet wallet _ | .pendingNwcInvoicesForWallet wallet _ =>
    scope = .wallet wallet
  | .pendingNwcInvoice e => scope = .invoice e
  | .storeNwcSentNotificationEvent e json => Composed x asJson log scope .sent e json
  | .storeNwcInvoiceNotificationEvent e json _ => Composed x asJson log scope .invoice e json
  | .undeliveredNwcSentRelays e =>
    ∃ record, record.kind = .sent ∧ record.eventId = e ∧ Listed log scope record
  | .undeliveredNwcInvoiceRelays e =>
    ∃ record, record.kind = .invoice ∧ record.eventId = e ∧ Listed log scope record
  | .acknowledgeNwcSentRelay e relay now =>
    ∃ record, record.kind = .sent ∧ record.eventId = e ∧ JustPublished log scope record relay now
  | .acknowledgeNwcInvoiceRelay e relay now =>
    ∃ record, record.kind = .invoice ∧ record.eventId = e ∧ JustPublished log scope record relay now
  | .completeNwcSentNotification e _ =>
    ∃ record json, record.kind = .sent ∧ record.eventId = e ∧ Publishable log scope record json
  | .completeNwcInvoiceNotification e _ =>
    ∃ record json, record.kind = .invoice ∧ record.eventId = e ∧ Publishable log scope record json
  | .discardNwcSentPayment e =>
    ∃ record, record.kind = .sent ∧ record.eventId = e ∧ FoundInactive log scope record
  | .touchNwcInvoice e _ =>
    ∃ record, record.kind = .invoice ∧ record.eventId = e ∧ Listed log scope record
  | .expireNwcInvoice e _ =>
    ∃ invoice, invoice.requestEventId = e ∧ Listed log scope (.invoice invoice) ∧
      (FoundInactive log scope (.invoice invoice) ∨ FoundUnpaid log invoice ∧ Stale log invoice)

/-- What a pass has established when it performs an operation. -/
def PassGuard (x : Crates) (asJson : Nip47.Notification → String) (scope : PassScope)
    (log : HostLog) : HostOp → Prop
  | .ledger (.record (.notification op)) => RecordGuard x asJson scope log op
  | .ledger (.registry (.loadActiveConnection id)) =>
    ∃ record, record.connectionId = id ∧ Listed log scope record
  | .publishEvent relay json _ => ∃ record, Notifying log scope record json relay
  | .wallet (.lookupInvoice (.paymentHash hash)) _ =>
    ∃ invoice, invoice.paymentHash = hash ∧ invoice.notificationEventJson = none ∧
      Listed log scope (.invoice invoice)
  | .loadNwcSecret id _ => ∃ record connection,
    FoundActive log scope record connection ∧ id = connection.id
  | .clockNow | .isCancelled | .deadlineRemaining | .nonce => True
  | .ledger _ | .wallet .. | .fetchEvent .. | .recordDiagnostic _ => False

section Logs

variable {log log' : HostLog} {scope : PassScope} {record : TrackedRecord} {json : String}
  {relay : SecureRelayUrl} {found : Option ActiveConnection} {connection : ActiveConnection}
  {invoice : TrackedNwcInvoice} {op : NotificationOp} {value : op.Value} {x : Crates}
  {asJson : Nip47.Notification → String} {kind : RecordKind} {eventId : EventId}

theorem Returned.mono (h : Returned log op value) (hlog : log <:+ log') : Returned log' op value :=
  hlog.subset h

theorem Listed.mono (h : Listed log scope record) (hlog : log <:+ log') :
    Listed log' scope record := by
  cases h with
  | payment returned mem => exact .payment (returned.mono hlog) mem
  | paymentOfWallet returned mem => exact .paymentOfWallet (returned.mono hlog) mem
  | invoice returned mem => exact .invoice (returned.mono hlog) mem
  | invoiceOfWallet returned mem => exact .invoiceOfWallet (returned.mono hlog) mem
  | requested returned => exact .requested (returned.mono hlog)

theorem Canonical.mono (h : Canonical log record json) (hlog : log <:+ log') :
    Canonical log' record json := by
  cases h with
  | listed stored => exact .listed stored
  | storedSent kind returned => exact .storedSent kind (returned.mono hlog)
  | storedInvoice kind returned => exact .storedInvoice kind (returned.mono hlog)

theorem OwedTo.mono (h : OwedTo log record relay) (hlog : log <:+ log') :
    OwedTo log' record relay := by
  cases h with
  | sent kind returned mem => exact .sent kind (returned.mono hlog) mem
  | invoice kind returned mem => exact .invoice kind (returned.mono hlog) mem

theorem LookedUp.mono (h : LookedUp log scope record found) (hlog : log <:+ log') :
    LookedUp log' scope record found := by
  obtain ⟨newer, older, rfl, hlisted⟩ := h
  obtain ⟨newest, rfl⟩ := hlog
  exact ⟨newest ++ newer, older, by simp, hlisted⟩

theorem LookedUp.listed (h : LookedUp log scope record found) : Listed log scope record := by
  obtain ⟨newer, older, rfl, hlisted⟩ := h
  apply hlisted.mono
  exact (List.suffix_cons _ _).trans (List.suffix_append _ _)

theorem FoundActive.mono (h : FoundActive log scope record connection) (hlog : log <:+ log') :
    FoundActive log' scope record connection :=
  ⟨h.1.mono hlog, h.2⟩

theorem FoundInactive.mono (h : FoundInactive log scope record) (hlog : log <:+ log') :
    FoundInactive log' scope record := by
  obtain ⟨found, hlooked, hinactive⟩ := h
  exact ⟨found, hlooked.mono hlog, hinactive⟩

theorem FoundUnpaid.mono (h : FoundUnpaid log invoice) (hlog : log <:+ log') :
    FoundUnpaid log' invoice := by
  obtain ⟨context, found, hanswered, hunpaid⟩ := h
  exact ⟨context, found, hlog.subset hanswered, hunpaid⟩

theorem Composed.mono {json : String} (h : Composed x asJson log scope kind eventId json)
    (hlog : log <:+ log') : Composed x asJson log' scope kind eventId json := by
  cases h with
  | sent active loaded built => exact .sent (active.mono hlog) (hlog.subset loaded) built
  | received active paid loaded built =>
    exact .received (active.mono hlog) (hlog.subset paid) (hlog.subset loaded) built

theorem Publishable.mono (h : Publishable log scope record json) (hlog : log <:+ log') :
    Publishable log' scope record json where
  listed := h.listed.mono hlog
  canonical := h.canonical.mono hlog
  looked := fun hcase => by
    obtain ⟨connection, hactive⟩ := h.looked hcase
    exact ⟨connection, hactive.mono hlog⟩

theorem Notifying.mono (h : Notifying log scope record json relay) (hlog : log <:+ log') :
    Notifying log' scope record json relay :=
  ⟨h.publishable.mono hlog, h.owedTo.mono hlog⟩

end Logs

/-- Whatever it is answered, `p` keeps to the guard of the pass. -/
abbrev Conducts {α : Type} (x : Crates) (asJson : Nip47.Notification → String) (scope : PassScope)
    (log : HostLog) (p : HostProg α) : Prop :=
  Spec (PassGuard x asJson scope) log p fun _ _ => True

/-- A program only adds to its log. -/
theorem Spec.suffix {α : Type} {S : HostLog → HostOp → Prop} {log : HostLog} {p : HostProg α}
    {Q : HostLog → α → Prop} (h : Spec S log p Q) :
    Spec S log p fun log' a => Q log' a ∧ log <:+ log' := by
  apply h.keeps
  · intro log' op reply _ hlog
    exact hlog.trans (List.suffix_cons _ _)
  · exact List.suffix_rfl

section Delivery

variable {x : Crates} {asJson : Nip47.Notification → String} {scope : PassScope} {log : HostLog}
  {record : TrackedRecord} {json : String}
  {context : HostProg (Option OperationContext)}
  {acknowledge : SecureRelayUrl → UnixTimestamp → HostProg (Except LedgerError Unit)}
  {undelivered : HostProg (Except LedgerError (List SecureRelayUrl))}
  {complete : UnixTimestamp → HostProg (Except LedgerError Unit)}
  {relays : List SecureRelayUrl} {failed : Bool} {report : InvoiceNotificationWorkerReport}

theorem conducts_deadlineContext : Conducts x asJson scope log deadlineContext := by
  refine ⟨trivial, fun cancelled => ?_⟩
  cases cancelled with
  | true => trivial
  | false => exact ⟨trivial, fun _ => trivial⟩

theorem conducts_cancellableContext : Conducts x asJson scope log cancellableContext := by
  refine ⟨trivial, fun cancelled => ?_⟩
  cases cancelled with
  | true => trivial
  | false => exact conducts_deadlineContext

theorem conducts_orFail {ε α β : Type} {Q : HostLog → Except ε α → Prop}
    {error : InvoiceNotificationError} {step : HostProg (Except ε α)}
    {next : α → HostProg (Except InvoiceNotificationError β)}
    (hstep : Spec (PassGuard x asJson scope) log step Q)
    (hnext : ∀ log' value, log <:+ log' → Q log' (.ok value) → Conducts x asJson scope log' (next value)) :
    Conducts x asJson scope log (orFail error step next) := by
  refine (Spec.suffix hstep).seq fun log' reply hreply => ?_
  cases reply with
  | error _ => trivial
  | ok value => exact hnext log' value hreply.2 hreply.1

theorem conducts_publishToRelays (hcontext : ∀ log, Conducts x asJson scope log context)
    (hack : ∀ log relay now, JustPublished log scope record relay now →
      Conducts x asJson scope log (acknowledge relay now))
    (hrelays : ∀ relay ∈ relays, Notifying log scope record json relay) :
    Conducts x asJson scope log (publishToRelays context acknowledge json relays failed) := by
  induction relays generalizing log failed with
  | nil => trivial
  | cons relay rest ih =>
    refine (Spec.suffix (hcontext log)).seq fun log₁ granted hlog₁ => ?_
    cases granted with
    | none => trivial
    | some granted =>
      have hown : Notifying log₁ scope record json relay :=
        (hrelays relay List.mem_cons_self).mono hlog₁.2
      have hrest : ∀ {log'}, log₁ <:+ log' → ∀ other ∈ rest,
          Notifying log' scope record json other := by
        intro log' hlog' other hother
        exact (hrelays other (List.mem_cons_of_mem _ hother)).mono (hlog₁.2.trans hlog')
      refine ⟨⟨record, hown⟩, fun published => ?_⟩
      cases published with
      | error _ => exact ih (hrest (List.suffix_cons _ _))
      | ok _ =>
        refine ⟨trivial, fun now => ?_⟩
        apply conducts_orFail (hack _ relay now ⟨json, granted, log₁, rfl, hown⟩)
        intro log' _ hlog' _
        apply ih
        apply hrest
        apply List.IsSuffix.trans _ hlog'
        exact (List.suffix_cons _ _).trans (List.suffix_cons _ _)

theorem conducts_deliver (hcontext : ∀ log, Conducts x asJson scope log context)
    (hack : ∀ log relay now, JustPublished log scope record relay now →
      Conducts x asJson scope log (acknowledge relay now))
    (hundelivered : Spec (PassGuard x asJson scope) log undelivered fun log' reply =>
      ∀ relays, reply = .ok relays → ∀ relay ∈ relays, OwedTo log' record relay)
    (hcomplete : ∀ log' now, log <:+ log' → Conducts x asJson scope log' (complete now))
    (hevent : Publishable log scope record json) :
    Conducts x asJson scope log (deliver undelivered context acknowledge complete json report) := by
  apply conducts_orFail hundelivered
  intro log₁ relays hlog₁ howed
  have hrelays : ∀ relay ∈ relays, Notifying log₁ scope record json relay :=
    fun relay hrelay => ⟨hevent.mono hlog₁, howed relays rfl relay hrelay⟩
  refine (Spec.suffix (conducts_publishToRelays hcontext hack hrelays)).seq
    fun log₂ failed hlog₂ => ?_
  match failed with
  | .error _ => trivial
  | .ok true => trivial
  | .ok false =>
    refine ⟨trivial, fun now => ?_⟩
    apply conducts_orFail (hcomplete _ now ((hlog₁.trans hlog₂.2).trans (List.suffix_cons _ _)))
    intro log₃ _ _ _
    trivial

theorem conducts_deliverSent (record : TrackedRecord) (hkind : record.kind = .sent)
    (hevent : Publishable log scope record json) :
    Conducts x asJson scope log (deliverSent record.eventId json report) := by
  apply conducts_deliver (fun _ => conducts_deadlineContext) _ _ _ hevent
  · intro log' relay now hpublished
    exact ⟨⟨record, hkind, rfl, hpublished⟩, fun _ => trivial⟩
  · refine ⟨⟨record, hkind, rfl, hevent.listed⟩, fun reply => ?_⟩
    rintro relays rfl relay hrelay
    exact .sent hkind List.mem_cons_self hrelay
  · intro log' now hlog'
    exact ⟨⟨record, json, hkind, rfl, hevent.mono hlog'⟩, fun _ => trivial⟩

theorem conducts_deliverInvoice (record : TrackedRecord) (hkind : record.kind = .invoice)
    (hevent : Publishable log scope record json) :
    Conducts x asJson scope log (deliverInvoice record.eventId json report) := by
  apply conducts_deliver (fun _ => conducts_cancellableContext) _ _ _ hevent
  · intro log' relay now hpublished
    exact ⟨⟨record, hkind, rfl, hpublished⟩, fun _ => trivial⟩
  · refine ⟨⟨record, hkind, rfl, hevent.listed⟩, fun reply => ?_⟩
    rintro relays rfl relay hrelay
    exact .invoice hkind List.mem_cons_self hrelay
  · intro log' now hlog'
    exact ⟨⟨record, json, hkind, rfl, hevent.mono hlog'⟩, fun _ => trivial⟩

end Delivery

section Records

variable {x : Crates} {asJson : Nip47.Notification → String} {scope : PassScope} {log : HostLog}
  {payment : TrackedNwcPayment} {invoice : TrackedNwcInvoice} {transaction : WalletTransaction}
  {report : InvoiceNotificationWorkerReport}

/-- The connection of a listed record is looked up before the record is worked on. -/
theorem conducts_recordConnection {β : Type} {record : TrackedRecord}
    {next : Option ActiveConnection → HostProg (Except InvoiceNotificationError β)}
    (hlisted : Listed log scope record)
    (hactive : ∀ log' connection, log <:+ log' → FoundActive log' scope record connection →
      Conducts x asJson scope log' (next (some connection)))
    (hinactive : ∀ log', log <:+ log' → FoundInactive log' scope record →
      Conducts x asJson scope log' (next none)) :
    Conducts x asJson scope log
      (recordConnection record.connectionId record.connectionRevision next) := by
  have hlookup : Spec (PassGuard x asJson scope) log
      (registry (.loadActiveConnection record.connectionId)) fun log' reply =>
        ∀ found, reply = .ok found → LookedUp log' scope record found := by
    refine ⟨⟨record, rfl, hlisted⟩, fun reply => ?_⟩
    rintro found rfl
    exact ⟨[], log, rfl, hlisted⟩
  apply conducts_orFail hlookup
  intro log' found hlog' hlooked
  have hfound := hlooked found rfl
  cases found with
  | none =>
    apply hinactive log' hlog'
    exact ⟨none, hfound, by simp⟩
  | some connection =>
    rw [Option.filter_some]
    split
    · rename_i hrevision
      exact hactive log' connection hlog' ⟨hfound, by simpa using hrevision⟩
    · rename_i hrevision
      apply hinactive log' hlog'
      refine ⟨some connection, hfound, ?_⟩
      rintro c ⟨⟩
      simpa using hrevision

/-- The event that is published for a payment is the one the ledger holds. -/
theorem conducts_sentEvent {connection : ActiveConnection}
    (hactive : FoundActive log scope (.payment payment) connection) :
    Spec (PassGuard x asJson scope) log (sentEvent x asJson connection payment) fun log' reply =>
      ∀ json, reply = .ok (some json) → Canonical log' (.payment payment) json := by
  unfold sentEvent
  split
  · rename_i stored hstored
    rintro json ⟨⟩
    exact .listed hstored
  · refine (Spec.suffix conducts_deadlineContext).seq fun log₁ context hlog₁ => ?_
    cases context with
    | none =>
      intro json h
      cases h
    | some context =>
      have hactive₁ := hactive.mono hlog₁.2
      refine ⟨⟨.payment payment, connection, hactive₁, rfl⟩, fun secret => ?_⟩
      cases secret with
      | error _ =>
        intro json h
        cases h
      | ok secret =>
        refine ⟨trivial, fun nonce => ?_⟩
        dsimp only [Prog.bind]
        split
        · intro json h
          cases h
        · rename_i proposed hbuilt
          have hcomposed : Composed x asJson (⟨.nonce, nonce⟩ ::
              ⟨.loadNwcSecret connection.id context, .ok secret⟩ :: log₁) scope .sent
                payment.requestEventId proposed := by
            have hloaded : Answered (⟨.nonce, nonce⟩ ::
                ⟨.loadNwcSecret connection.id context, .ok secret⟩ :: log₁)
                  (.loadNwcSecret connection.id context) (.ok secret) := by simp [Answered]
            refine .sent (hactive₁.mono ?_) hloaded hbuilt
            exact (List.suffix_cons _ _).trans (List.suffix_cons _ _)
          refine ⟨hcomposed, fun stored => ?_⟩
          cases stored with
          | error _ =>
            intro json h
            cases h
          | ok stored =>
            rintro json ⟨⟩
            exact .storedSent rfl List.mem_cons_self

theorem conducts_processPayment (hlisted : Listed log scope (.payment payment)) :
    Conducts x asJson scope log (processPayment x asJson payment report) := by
  apply conducts_recordConnection hlisted
  · intro log₁ connection hlog₁ hactive
    refine (Spec.suffix (conducts_sentEvent hactive)).seq fun log₂ event hevent => ?_
    match event with
    | .error _ => trivial
    | .ok none => trivial
    | .ok (some event) =>
      have hpublishable : Publishable log₂ scope (.payment payment) event :=
        ⟨hlisted.mono (hlog₁.trans hevent.2), hevent.1 event rfl,
          fun _ => ⟨connection, hactive.mono hevent.2⟩⟩
      exact (conducts_deliverSent (.payment payment) rfl hpublishable).seq fun _ _ _ => trivial
  · intro log₁ _ hinactive
    refine ⟨⟨.payment payment, rfl, rfl, hinactive⟩, fun reply => ?_⟩
    cases reply <;> trivial

theorem conducts_processPayments {payments : List TrackedNwcPayment}
    (hlisted : ∀ payment ∈ payments, Listed log scope (.payment payment)) :
    Conducts x asJson scope log (processPayments x asJson payments report) := by
  induction payments generalizing log report with
  | nil => trivial
  | cons payment rest ih =>
    have hrest : ∀ {log'}, log <:+ log' → ∀ other ∈ rest, Listed log' scope (.payment other) := by
      intro log' hlog' other hother
      exact (hlisted other (List.mem_cons_of_mem _ hother)).mono hlog'
    refine ⟨trivial, fun cancelled => ?_⟩
    cases cancelled with
    | true => trivial
    | false =>
      have hown := (hlisted payment List.mem_cons_self).mono (List.suffix_cons ⟨.isCancelled, false⟩ log)
      refine (Spec.suffix (conducts_processPayment hown)).seq fun log₁ step hlog₁ => ?_
      match step with
      | .error _ => trivial
      | .ok (.done _) => trivial
      | .ok (.yield _) => exact ih (hrest ((List.suffix_cons _ _).trans hlog₁.2))

theorem conducts_deferOrExpireInvoice (hlisted : Listed log scope (.invoice invoice))
    (hunpaid : FoundUnpaid log invoice) :
    Conducts x asJson scope log (deferOrExpireInvoice invoice report) := by
  unfold deferOrExpireInvoice
  generalize hstaleAt :
    min (invoice.expiresAt + settlementReconciliationGraceSeconds) (2 ^ 64 - 1) = staleAt
  refine spec_perform.mpr ⟨trivial, fun now => ?_⟩
  split
  · rename_i hstale
    refine ⟨trivial, fun completedAt => ⟨⟨invoice, rfl, ?_, Or.inr ⟨?_, ?_⟩⟩, fun reply => ?_⟩⟩
    · apply hlisted.mono
      exact (List.suffix_cons _ _).trans (List.suffix_cons _ _)
    · apply hunpaid.mono
      exact (List.suffix_cons _ _).trans (List.suffix_cons _ _)
    · exact ⟨now, by simp [Answered], by rwa [hstaleAt]⟩
    · cases reply <;> trivial
  · trivial

theorem conducts_notifyReceived {context : OperationContext}
    (hlisted : Listed log scope (.invoice invoice))
    (hpaid : Answered log (.wallet (.lookupInvoice (.paymentHash invoice.paymentHash)) context)
      (.ok (some transaction))) :
    Conducts x asJson scope log (notifyReceived x asJson invoice transaction report) := by
  apply conducts_recordConnection hlisted
  · intro log₁ connection hlog₁ hactive
    refine (Spec.suffix conducts_deadlineContext).seq fun log₂ granted hlog₂ => ?_
    cases granted with
    | none => trivial
    | some granted =>
      have hactive₂ := hactive.mono hlog₂.2
      refine ⟨⟨.invoice invoice, connection, hactive₂, rfl⟩, fun secret => ?_⟩
      cases secret with
      | error _ => trivial
      | ok secret =>
        refine ⟨trivial, fun nonce => ?_⟩
        dsimp only [Prog.bind]
        split
        · trivial
        · rename_i proposed hbuilt
          have hcomposed : Composed x asJson (⟨.nonce, nonce⟩ ::
              ⟨.loadNwcSecret connection.id granted, .ok secret⟩ :: log₂) scope .invoice
                invoice.requestEventId proposed := by
            have hloaded : Answered (⟨.nonce, nonce⟩ ::
                ⟨.loadNwcSecret connection.id granted, .ok secret⟩ :: log₂)
                  (.loadNwcSecret connection.id granted) (.ok secret) := by simp [Answered]
            have hasked : Answered (⟨.nonce, nonce⟩ ::
                ⟨.loadNwcSecret connection.id granted, .ok secret⟩ :: log₂)
                  (.wallet (.lookupInvoice (.paymentHash invoice.paymentHash)) context)
                    (.ok (some transaction)) :=
              List.mem_cons_of_mem _ (List.mem_cons_of_mem _ ((hlog₁.trans hlog₂.2).subset hpaid))
            refine .received (hactive₂.mono ?_) hasked hloaded hbuilt
            exact (List.suffix_cons _ _).trans (List.suffix_cons _ _)
          have htime : Spec (PassGuard x asJson scope) (⟨.nonce, nonce⟩ ::
              ⟨.loadNwcSecret connection.id granted, .ok secret⟩ :: log₂)
                (settlementTime transaction) fun _ _ => True := by
            unfold settlementTime
            split
            · trivial
            · exact ⟨trivial, fun _ => trivial⟩
          refine (Spec.suffix htime).seq fun log₃ createdAt hlog₃ => ?_
          have hactive₃ : FoundActive log₃ scope (.invoice invoice) connection := by
            apply hactive₂.mono
            apply List.IsSuffix.trans _ hlog₃.2
            exact (List.suffix_cons _ _).trans (List.suffix_cons _ _)
          refine ⟨hcomposed.mono hlog₃.2, fun stored => ?_⟩
          cases stored with
          | error _ => trivial
          | ok stored =>
            apply conducts_deliverInvoice (.invoice invoice) rfl
            constructor
            · exact hactive₃.1.listed.mono (List.suffix_cons _ _)
            · exact .storedInvoice rfl List.mem_cons_self
            · exact fun _ => ⟨connection, hactive₃.mono (List.suffix_cons _ _)⟩
  · intro log₁ hlog₁ hinactive
    refine ⟨trivial, fun now => ⟨⟨invoice, rfl, ?_, Or.inl ?_⟩, fun reply => ?_⟩⟩
    · exact hlisted.mono (hlog₁.trans (List.suffix_cons _ _))
    · exact hinactive.mono (List.suffix_cons _ _)
    · cases reply <;> trivial

theorem conducts_lookupAndNotify (hlisted : Listed log scope (.invoice invoice))
    (hnone : invoice.notificationEventJson = none) :
    Conducts x asJson scope log (lookupAndNotify x asJson invoice report) := by
  refine (Spec.suffix conducts_deadlineContext).seq fun log₁ context hlog₁ => ?_
  cases context with
  | none => trivial
  | some context =>
    have hlisted₁ := hlisted.mono hlog₁.2
    refine ⟨⟨invoice, rfl, hnone, hlisted₁⟩, fun found => ?_⟩
    have hdefer : ∀ found', found = .ok found' → (∀ transaction, found' = some transaction →
        ∀ preimage amount fee, transaction.status ≠ .succeeded preimage amount fee) →
          Conducts x asJson scope (⟨.wallet (.lookupInvoice (.paymentHash invoice.paymentHash)) context,
            found⟩ :: log₁) (deferOrExpireInvoice invoice report) := by
      rintro found' rfl hunpaid
      apply conducts_deferOrExpireInvoice (hlisted₁.mono (List.suffix_cons _ _))
      exact ⟨context, found', List.mem_cons_self, hunpaid⟩
    match found with
    | .error _ => trivial
    | .ok none => exact hdefer none rfl (by simp)
    | .ok (some transaction) =>
      dsimp only [Prog.bind]
      split
      · apply conducts_notifyReceived (hlisted₁.mono (List.suffix_cons _ _))
        exact List.mem_cons_self
      all_goals
        rename_i hstatus
        apply hdefer _ rfl
        rintro _ ⟨⟩ preimage amount fee hpaid
        rw [hstatus] at hpaid
        cases hpaid

theorem conducts_processInvoice (hlisted : Listed log scope (.invoice invoice)) :
    Conducts x asJson scope log (processInvoice x asJson invoice report) := by
  refine ⟨trivial, fun now => ⟨⟨.invoice invoice, rfl, rfl, hlisted.mono (List.suffix_cons _ _)⟩,
    fun touched => ?_⟩⟩
  cases touched with
  | error _ => trivial
  | ok _ =>
    have hlisted' := hlisted.mono ((List.suffix_cons (⟨.clockNow, now⟩ : HostCall) log).trans
      (List.suffix_cons (⟨.ledger (.record (.notification
        (.touchNwcInvoice invoice.requestEventId now))), .ok ()⟩ : HostCall) _))
    dsimp only
    split
    · rename_i json hstored
      apply conducts_deliverInvoice (.invoice invoice) rfl
      refine ⟨hlisted', .listed hstored, fun hcase => ?_⟩
      rcases hcase with hkind | hother
      · cases hkind
      · exact absurd hstored hother
    · rename_i hnone
      exact conducts_lookupAndNotify hlisted' hnone

theorem conducts_processInvoices {invoices : List TrackedNwcInvoice}
    (hlisted : ∀ invoice ∈ invoices, Listed log scope (.invoice invoice)) :
    Conducts x asJson scope log (processInvoices x asJson invoices report) := by
  induction invoices generalizing log report with
  | nil => trivial
  | cons invoice rest ih =>
    refine ⟨trivial, fun cancelled => ?_⟩
    cases cancelled with
    | true => trivial
    | false =>
      have hown := (hlisted invoice List.mem_cons_self).mono (List.suffix_cons ⟨.isCancelled, false⟩ log)
      refine (Spec.suffix (conducts_processInvoice hown)).seq fun log₁ processed hlog₁ => ?_
      cases processed with
      | error _ => trivial
      | ok report =>
        apply ih
        intro other hother
        apply (hlisted other (List.mem_cons_of_mem _ hother)).mono
        exact (List.suffix_cons _ _).trans hlog₁.2

/-- The batches a pass reads are those of its scope. -/
theorem conducts_runScoped (walletServicePubkey : Option PublicKey)
    (hscope : scope = walletServicePubkey.elim .all .wallet) :
    Conducts x asJson scope log (runScoped x asJson walletServicePubkey) := by
  subst hscope
  unfold runScoped
  cases walletServicePubkey with
  | none =>
    refine ⟨rfl, fun payments => ?_⟩
    cases payments with
    | error _ => trivial
    | ok payments =>
      have hpayments : ∀ payment ∈ payments, Listed (⟨.ledger (.record (.notification
          (.pendingNwcSentPayments defaultBatchSize))), .ok payments⟩ :: log) .all (.payment payment) :=
        fun payment hpayment => .payment List.mem_cons_self hpayment
      refine (conducts_processPayments hpayments).seq fun log₁ sent _ => ?_
      cases sent with
      | error _ => trivial
      | ok report =>
        refine ⟨rfl, fun invoices => ?_⟩
        cases invoices with
        | error _ => trivial
        | ok invoices =>
          apply conducts_processInvoices
          intro invoice hinvoice
          exact .invoice List.mem_cons_self hinvoice
  | some wallet =>
    refine ⟨rfl, fun payments => ?_⟩
    cases payments with
    | error _ => trivial
    | ok payments =>
      have hpayments : ∀ payment ∈ payments, Listed (⟨.ledger (.record (.notification
          (.pendingNwcSentPaymentsForWallet wallet defaultBatchSize))), .ok payments⟩ :: log)
            (.wallet wallet) (.payment payment) :=
        fun payment hpayment => .paymentOfWallet List.mem_cons_self hpayment
      refine (conducts_processPayments hpayments).seq fun log₁ sent _ => ?_
      cases sent with
      | error _ => trivial
      | ok report =>
        refine ⟨rfl, fun invoices => ?_⟩
        cases invoices with
        | error _ => trivial
        | ok invoices =>
          apply conducts_processInvoices
          intro invoice hinvoice
          exact .invoiceOfWallet List.mem_cons_self hinvoice

/-- Every pass keeps to its guard. -/
theorem conducts_pass (scope : PassScope) : Conducts x asJson scope [] (scope.program x asJson) := by
  cases scope with
  | all => exact conducts_runScoped none rfl
  | wallet wallet => exact conducts_runScoped (some wallet) rfl
  | invoice eventId =>
    refine ⟨rfl, fun found => ?_⟩
    match found with
    | .error _ => trivial
    | .ok none => trivial
    | .ok (some invoice) =>
      apply conducts_processInvoice
      exact .requested List.mem_cons_self

end Records

end NwcMobile
