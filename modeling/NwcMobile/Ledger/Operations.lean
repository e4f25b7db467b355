import NwcMobile.Foundations.Transition
import NwcMobile.Ledger.Notifications
import NwcMobile.Ledger.Payments
import NwcMobile.Ledger.WakeRegistration

/-!
The ledger as a shared state machine. Each operation is one serialised
transaction: it replies with a value and commits, or replies with an error and
leaves the ledger as it was. Any process may issue any operation at any time
with any arguments, clock values included, and the database may be unavailable
to any call.
-/

namespace NwcMobile

open Fallible Transition

inductive RegistryOp where
  | insertConnection (connection : NewConnection) (now : UnixTimestamp)
  | importConnection (connection : NewConnection) (createdAt : UnixTimestamp)
      (budgetUsedSat : Nat) (now : UnixTimestamp)
  | loadConnection (id : ConnectionId)
  | loadActiveConnection (id : ConnectionId)
  | listActiveConnections
  | loadActiveConnectionByKeys (clientPubkey walletServicePubkey : PublicKey)
  | isRelayApprovedForWallet (walletServicePubkey : PublicKey) (relay : SecureRelayUrl)
      (now : UnixTimestamp)
  | isConnectionRevisionActive (id : ConnectionId) (revision : ConnectionRevision)
  | tombstoneConnection (id : ConnectionId) (expectedRevision : ConnectionRevision)
      (now : UnixTimestamp)

abbrev RegistryOp.Value : RegistryOp → Type
  | .insertConnection .. => ActiveConnection
  | .importConnection .. => ActiveConnection
  | .loadConnection .. => Option StoredConnection
  | .loadActiveConnection .. => Option ActiveConnection
  | .listActiveConnections => List ActiveConnection
  | .loadActiveConnectionByKeys .. => Option ActiveConnection
  | .isRelayApprovedForWallet .. => Bool
  | .isConnectionRevisionActive .. => Bool
  | .tombstoneConnection .. => ConnectionTombstone

/-- A read returns its value with the ledger unchanged. -/
def reading {ε α : Type} (l : Ledger) (value : Except ε α) : Except ε (α × Ledger) :=
  value.map fun a => (a, l)

def RegistryOp.run (x : Crates) (l : Ledger) :
    (op : RegistryOp) → Except RegistryError (op.Value × Ledger)
  | .insertConnection c now => l.insertConnection c now
  | .importConnection c createdAt used now => l.importConnection c createdAt used now
  | .loadConnection id => reading l (l.loadConnection x id)
  | .loadActiveConnection id => reading l (l.loadActiveConnection x id)
  | .listActiveConnections => reading l (l.listActiveConnections x)
  | .loadActiveConnectionByKeys client wallet =>
    reading l (l.loadActiveConnectionByKeys x client wallet)
  | .isRelayApprovedForWallet wallet relay now =>
    reading l (l.isRelayApprovedForWallet wallet relay now)
  | .isConnectionRevisionActive id revision => reading l (l.isConnectionRevisionActive id revision)
  | .tombstoneConnection id revision now => l.tombstoneConnection id revision now

inductive PaymentOp where
  | loadPaymentAttemptByEvent (eventId : EventId)
  | loadPaymentAttempt (paymentHash : PaymentHash)
  | reservePayment (eventId : EventId) (paymentHash : PaymentHash)
      (connection : ActiveConnection) (principalSat : Nat) (now : UnixTimestamp)
  | markPaymentInitiated (paymentHash : PaymentHash) (now : UnixTimestamp)
  | releaseUninitiatedPayment (paymentHash : PaymentHash) (now : UnixTimestamp)
  | markPaymentPending (paymentHash : PaymentHash) (now : UnixTimestamp)
  | markPaymentFailed (paymentHash : PaymentHash) (now : UnixTimestamp)
  | markPaymentSucceeded (paymentHash : PaymentHash) (actualPrincipal actualFee : AmountMsat)
      (now : UnixTimestamp)
  | loadUnresolvedPaymentAttempts (limit : Nat)

abbrev PaymentOp.Value : PaymentOp → Type
  | .loadPaymentAttemptByEvent .. => Option PaymentAttempt
  | .loadPaymentAttempt .. => Option PaymentAttempt
  | .reservePayment .. => PaymentReservationOutcome
  | .markPaymentInitiated .. => PaymentAttempt
  | .releaseUninitiatedPayment .. => Unit
  | .markPaymentPending .. => PaymentAttempt
  | .markPaymentFailed .. => PaymentAttempt
  | .markPaymentSucceeded .. => PaymentAttempt
  | .loadUnresolvedPaymentAttempts .. => List PaymentAttempt × Bool

def PaymentOp.run (l : Ledger) :
    (op : PaymentOp) → Except PaymentAccountingError (op.Value × Ledger)
  | .loadPaymentAttemptByEvent e => reading l (l.loadPaymentAttemptByEvent e)
  | .loadPaymentAttempt h => reading l (l.loadPaymentAttempt h)
  | .reservePayment e h c principal now => l.reservePayment e h c principal now
  | .markPaymentInitiated h now => l.markPaymentInitiated h now
  | .releaseUninitiatedPayment h now => l.releaseUninitiatedPayment h now
  | .markPaymentPending h now => l.markPaymentPending h now
  | .markPaymentFailed h now => l.markPaymentFailed h now
  | .markPaymentSucceeded h principal fee now => l.markPaymentSucceeded h principal fee now
  | .loadUnresolvedPaymentAttempts limit => l.loadUnresolvedPaymentAttempts limit

inductive ClaimOp where
  | claimEvent (eventId : EventId) (connectionId : ConnectionId)
      (connectionRevision : ConnectionRevision) (now : UnixTimestamp) (leaseDuration : Duration)
  | acceptEventFreshness (lease : EventLease) (now : UnixTimestamp)
  | renewLease (lease : EventLease) (now : UnixTimestamp) (leaseDuration : Duration)
  | retryLater (lease : EventLease) (now : UnixTimestamp) (delay : Duration)
  | completeEvent (lease : EventLease) (kind : TerminalKind) (responseEventJson : Option String)
      (now : UnixTimestamp)
  | completeEventForActiveConnection (lease : EventLease) (connectionId : ConnectionId)
      (connectionRevision : ConnectionRevision) (responseEventJson : String) (now : UnixTimestamp)
  | completeNwcEventForActiveConnection (lease : EventLease) (connectionId : ConnectionId)
      (connectionRevision : ConnectionRevision) (responseEventJson : String)
      (requestMethod : NwcMethod) (now : UnixTimestamp)
  | lastCompletedEventAt (connectionId : ConnectionId)
  | pruneTerminal (completedBefore : UnixTimestamp) (maximumRows : Nat)

abbrev ClaimOp.Value : ClaimOp → Type
  | .claimEvent .. => ClaimOutcome
  | .acceptEventFreshness .. => Unit
  | .renewLease .. => Unit
  | .retryLater .. => Unit
  | .completeEvent .. => Unit
  | .completeEventForActiveConnection .. => Unit
  | .completeNwcEventForActiveConnection .. => Unit
  | .lastCompletedEventAt .. => Option UnixTimestamp
  | .pruneTerminal .. => Nat

/-- What the random source yields to one call, if anything. -/
structure Entropy where
  claimToken : Option ClaimToken
  settlementToken : Option (BitVec 256)

def ClaimOp.run (random : Entropy) (l : Ledger) :
    (op : ClaimOp) → Except LedgerError (op.Value × Ledger)
  | .claimEvent e c revision now duration =>
    l.claimEvent random.claimToken e c revision now duration
  | .acceptEventFreshness lease now => l.acceptEventFreshness lease now
  | .renewLease lease now duration => l.renewLease lease now duration
  | .retryLater lease now delay => l.retryLater lease now delay
  | .completeEvent lease kind json now => l.completeEvent lease kind json now
  | .completeEventForActiveConnection lease c revision json now =>
    l.completeEventForActiveConnection lease c revision json now
  | .completeNwcEventForActiveConnection lease c revision json method now =>
    l.completeNwcEventForActiveConnection lease c revision json method now
  | .lastCompletedEventAt c => reading l (l.lastCompletedEventAt c)
  | .pruneTerminal before rows => l.pruneTerminal before rows

/-- What the notification worker does to the records. -/
inductive NotificationOp where
  | pendingNwcSentPayments (maximum : Nat)
  | pendingNwcSentPaymentsForWallet (wallet : PublicKey) (maximum : Nat)
  | storeNwcSentNotificationEvent (eventId : EventId) (proposedEventJson : String)
  | undeliveredNwcSentRelays (eventId : EventId)
  | acknowledgeNwcSentRelay (eventId : EventId) (relay : SecureRelayUrl)
      (deliveredAt : UnixTimestamp)
  | completeNwcSentNotification (eventId : EventId) (completedAt : UnixTimestamp)
  | discardNwcSentPayment (eventId : EventId)
  | pendingNwcInvoices (maximum : Nat)
  | pendingNwcInvoicesForWallet (wallet : PublicKey) (maximum : Nat)
  | pendingNwcInvoice (eventId : EventId)
  | touchNwcInvoice (eventId : EventId) (checkedAt : UnixTimestamp)
  | storeNwcInvoiceNotificationEvent (eventId : EventId) (proposedEventJson : String)
      (createdAt : UnixTimestamp)
  | undeliveredNwcInvoiceRelays (eventId : EventId)
  | acknowledgeNwcInvoiceRelay (eventId : EventId) (relay : SecureRelayUrl)
      (deliveredAt : UnixTimestamp)
  | completeNwcInvoiceNotification (eventId : EventId) (completedAt : UnixTimestamp)
  | expireNwcInvoice (eventId : EventId) (completedAt : UnixTimestamp)

abbrev NotificationOp.Value : NotificationOp → Type
  | .pendingNwcSentPayments .. => List TrackedNwcPayment
  | .pendingNwcSentPaymentsForWallet .. => List TrackedNwcPayment
  | .storeNwcSentNotificationEvent .. => String
  | .undeliveredNwcSentRelays .. => List SecureRelayUrl
  | .acknowledgeNwcSentRelay .. => Unit
  | .completeNwcSentNotification .. => Unit
  | .discardNwcSentPayment .. => Unit
  | .pendingNwcInvoices .. => List TrackedNwcInvoice
  | .pendingNwcInvoicesForWallet .. => List TrackedNwcInvoice
  | .pendingNwcInvoice .. => Option TrackedNwcInvoice
  | .touchNwcInvoice .. => Unit
  | .storeNwcInvoiceNotificationEvent .. => String
  | .undeliveredNwcInvoiceRelays .. => List SecureRelayUrl
  | .acknowledgeNwcInvoiceRelay .. => Unit
  | .completeNwcInvoiceNotification .. => Unit
  | .expireNwcInvoice .. => Unit

def NotificationOp.run (x : Crates) (l : Ledger) :
    (op : NotificationOp) → Except LedgerError (op.Value × Ledger)
  | .pendingNwcSentPayments maximum => reading l (l.pendingNwcSentPayments maximum)
  | .pendingNwcSentPaymentsForWallet wallet maximum =>
    reading l (l.pendingNwcSentPaymentsForWallet wallet maximum)
  | .storeNwcSentNotificationEvent e json => l.storeNwcSentNotificationEvent e json
  | .undeliveredNwcSentRelays e => reading l (l.undeliveredNwcSentRelays x e)
  | .acknowledgeNwcSentRelay e relay time => l.acknowledgeNwcSentRelay e relay time
  | .completeNwcSentNotification e time => l.completeNwcSentNotification e time
  | .discardNwcSentPayment e => l.discardNwcSentPayment e
  | .pendingNwcInvoices maximum => reading l (l.pendingNwcInvoices maximum)
  | .pendingNwcInvoicesForWallet wallet maximum =>
    reading l (l.pendingNwcInvoicesForWallet wallet maximum)
  | .pendingNwcInvoice e => reading l (l.pendingNwcInvoice e)
  | .touchNwcInvoice e time => l.touchNwcInvoice e time
  | .storeNwcInvoiceNotificationEvent e json time => l.storeNwcInvoiceNotificationEvent e json time
  | .undeliveredNwcInvoiceRelays e => reading l (l.undeliveredNwcInvoiceRelays x e)
  | .acknowledgeNwcInvoiceRelay e relay time => l.acknowledgeNwcInvoiceRelay e relay time
  | .completeNwcInvoiceNotification e time => l.completeNwcInvoiceNotification e time
  | .expireNwcInvoice e time => l.expireNwcInvoice e time

inductive RecordOp where
  | recordNwcSentPayment (payment : TrackedNwcPayment) (relays : List SecureRelayUrl)
  | recordNwcInvoice (invoice : TrackedNwcInvoice) (relays : List SecureRelayUrl)
  | loadNwcInvoice (eventId : EventId)
  | loadNwcInvoiceByEncodedInvoice (invoice : String)
  | loadNwcInvoiceByPaymentHash (paymentHash : PaymentHash)
  | notification (op : NotificationOp)

abbrev RecordOp.Value : RecordOp → Type
  | .recordNwcSentPayment .. => Unit
  | .recordNwcInvoice .. => TrackedNwcInvoice
  | .loadNwcInvoice .. => Option TrackedNwcInvoice
  | .loadNwcInvoiceByEncodedInvoice .. => Option TrackedNwcInvoice
  | .loadNwcInvoiceByPaymentHash .. => Option TrackedNwcInvoice
  | .notification op => op.Value

def RecordOp.run (x : Crates) (random : Entropy) (l : Ledger) :
    (op : RecordOp) → Except LedgerError (op.Value × Ledger)
  | .recordNwcSentPayment payment relays => l.recordNwcSentPayment payment relays
  | .recordNwcInvoice invoice relays => l.recordNwcInvoice random.settlementToken invoice relays
  | .loadNwcInvoice e => reading l (l.loadNwcInvoice e)
  | .loadNwcInvoiceByEncodedInvoice invoice =>
    reading l (l.loadNwcInvoiceByEncodedInvoice invoice)
  | .loadNwcInvoiceByPaymentHash h => reading l (l.loadNwcInvoiceByPaymentHash h)
  | .notification op => op.run x l

inductive RegistrationOp where
  | nextWakeRegistrationAt
  | requeueActiveWakeRegistrationsWithState (enabled : Bool) (now : UnixTimestamp)
  | loadDueWakeRegistrations (now : UnixTimestamp) (maximumRows : Nat)
  | acknowledgeWakeRegistration (change : WakeRegistrationChange)
  | retryWakeRegistration (change : WakeRegistrationChange) (now : UnixTimestamp)
      (delay : Duration)

abbrev RegistrationOp.Value : RegistrationOp → Type
  | .nextWakeRegistrationAt => Option UnixTimestamp
  | .requeueActiveWakeRegistrationsWithState .. => Nat
  | .loadDueWakeRegistrations .. => List WakeRegistrationChange
  | .acknowledgeWakeRegistration .. => Unit
  | .retryWakeRegistration .. => Unit

def RegistrationOp.run (x : Crates) (l : Ledger) :
    (op : RegistrationOp) → Except WakeRegistrationError (op.Value × Ledger)
  | .nextWakeRegistrationAt => reading l l.nextWakeRegistrationAt
  | .requeueActiveWakeRegistrationsWithState enabled now =>
    l.requeueActiveWakeRegistrationsWithState enabled now
  | .loadDueWakeRegistrations now rows => reading l (l.loadDueWakeRegistrations x now rows)
  | .acknowledgeWakeRegistration change => l.acknowledgeWakeRegistration change
  | .retryWakeRegistration change now delay => l.retryWakeRegistration change now delay

/-- One operation of the ledger's interface. -/
inductive LedgerOp where
  | registry (op : RegistryOp)
  | payment (op : PaymentOp)
  | claim (op : ClaimOp)
  | record (op : RecordOp)
  | registration (op : RegistrationOp)

abbrev LedgerOp.Error : LedgerOp → Type
  | .registry _ => RegistryError
  | .payment _ => PaymentAccountingError
  | .claim _ => LedgerError
  | .record _ => LedgerError
  | .registration _ => WakeRegistrationError

abbrev LedgerOp.Value : LedgerOp → Type
  | .registry op => op.Value
  | .payment op => op.Value
  | .claim op => op.Value
  | .record op => op.Value
  | .registration op => op.Value

abbrev LedgerOp.Reply (op : LedgerOp) : Type := Except op.Error op.Value

def LedgerOp.run (x : Crates) (random : Entropy) (l : Ledger) :
    (op : LedgerOp) → Except op.Error (op.Value × Ledger)
  | .registry op => op.run x l
  | .payment op => op.run l
  | .claim op => op.run random l
  | .record op => op.run x random l
  | .registration op => op.run x l

def LedgerOp.unavailable : (op : LedgerOp) → op.Error
  | .registry _ => .databaseUnavailable
  | .payment _ => .databaseUnavailable
  | .claim _ => .databaseUnavailable
  | .record _ => .databaseUnavailable
  | .registration _ => .databaseUnavailable

/-- One operation together with the reply it received. -/
structure LedgerCall where
  op : LedgerOp
  reply : op.Reply

/-- One transaction, or a call that finds the database unavailable. -/
inductive LedgerStep (x : Crates) (l : Ledger) : LedgerCall → Ledger → Prop
  | transaction (op : LedgerOp) (random : Entropy) :
      LedgerStep x l ⟨op, (settle (op.run x random l) l).1⟩ (settle (op.run x random l) l).2
  | fault (op : LedgerOp) : LedgerStep x l ⟨op, .error op.unavailable⟩ l

/-- A history of ledger calls, newest first. -/
abbrev LedgerHistory := List (Event Ledger LedgerCall)

/-- The ledger runs from `l`: any calls by any callers in any order. -/
abbrev LedgerRun (x : Crates) (l : Ledger) : LedgerHistory → Ledger → Prop :=
  Run (LedgerStep x) l

/-- Carry out a list of calls, newest first, and record its history. -/
def performAll (x : Crates) (l : Ledger) : List (LedgerOp × Entropy) → LedgerHistory × Ledger
  | [] => ([], l)
  | (op, random) :: earlier =>
    let past := performAll x l earlier
    let outcome := settle (op.run x random past.2) past.2
    (⟨past.2, ⟨op, outcome.1⟩, outcome.2⟩ :: past.1, outcome.2)

theorem performAll_run (x : Crates) (l : Ledger) (calls : List (LedgerOp × Entropy)) :
    LedgerRun x l (performAll x l calls).1 (performAll x l calls).2 := by
  induction calls with
  | nil => exact .refl
  | cons call earlier ih => exact ih.tail (.transaction call.1 call.2)

namespace Sample

def noEntropy : Entropy := ⟨none, none⟩

def payment (op : PaymentOp) : LedgerOp × Entropy := (.payment op, noEntropy)

def registry (op : RegistryOp) : LedgerOp × Entropy := (.registry op, noEntropy)

/-- Five satoshis of usage are imported; then one payment settles, one is
released and one stays reserved. -/
def spending : List (LedgerOp × Entropy) :=
  [payment (.reservePayment ⟨3⟩ ⟨3⟩ (activeConnection 1000) 7 1060),
   payment (.releaseUninitiatedPayment ⟨2⟩ 1050),
   payment (.markPaymentSucceeded ⟨1⟩ 10000 900 1040),
   payment (.reservePayment ⟨2⟩ ⟨2⟩ (activeConnection 1000) 20 1030),
   payment (.markPaymentInitiated ⟨1⟩ 1020),
   payment (.reservePayment ⟨1⟩ ⟨1⟩ (activeConnection 1000) 10 1010),
   registry (.importConnection connection 1000 5 1000)]

def spent : LedgerHistory × Ledger := performAll crates .empty spending

theorem spent_run : LedgerRun crates .empty spent.1 spent.2 := performAll_run crates .empty spending

end Sample

variable {x : Crates} {l l' : Ledger} {op : LedgerOp} {reply : op.Reply}

theorem LedgerStep.run_of_ok {value : op.Value} (h : LedgerStep x l ⟨op, .ok value⟩ l') :
    ∃ random, op.run x random l = .ok (value, l') := by
  generalize hcall : (⟨op, .ok value⟩ : LedgerCall) = call at h
  cases h with
  | transaction op' random =>
    obtain ⟨rfl, hreply⟩ := LedgerCall.mk.inj hcall
    exact ⟨random, (settle_eq_ok (s := l)).mp (Prod.ext (eq_of_heq hreply).symm rfl)⟩
  | fault op' =>
    obtain ⟨rfl, hreply⟩ := LedgerCall.mk.inj hcall
    cases eq_of_heq hreply

/-- A call that returns an error changes nothing. -/
theorem LedgerStep.eq_of_error {e : op.Error} (h : LedgerStep x l ⟨op, .error e⟩ l') : l' = l := by
  generalize hcall : (⟨op, .error e⟩ : LedgerCall) = call at h
  cases h with
  | transaction op' random =>
    obtain ⟨rfl, hreply⟩ := LedgerCall.mk.inj hcall
    exact (settle_eq_error (Prod.ext (eq_of_heq hreply).symm rfl)).2
  | fault op' => rfl

/-- An error is the transaction's own, or the database was unavailable. -/
theorem LedgerStep.error_cases {e : op.Error} (h : LedgerStep x l ⟨op, .error e⟩ l') :
    (∃ random, op.run x random l = .error e) ∨ e = op.unavailable := by
  generalize hcall : (⟨op, .error e⟩ : LedgerCall) = call at h
  cases h with
  | transaction op' random =>
    obtain ⟨rfl, hreply⟩ := LedgerCall.mk.inj hcall
    exact Or.inl ⟨random, (settle_eq_error (Prod.ext (eq_of_heq hreply).symm rfl)).1⟩
  | fault op' =>
    obtain ⟨rfl, hreply⟩ := LedgerCall.mk.inj hcall
    exact Or.inr (Except.error.inj (eq_of_heq hreply))

theorem LedgerStep.eq_of_reply {call : LedgerCall} (h : LedgerStep x l call l')
    {e : call.op.Error} (herror : call.reply = .error e) : l' = l := by
  obtain ⟨op, reply⟩ := call
  change reply = .error e at herror
  cases reply with
  | ok value => cases herror
  | error e' => exact h.eq_of_error

/-- Every step either leaves the ledger alone or commits one transaction. -/
theorem LedgerStep.cases (h : LedgerStep x l ⟨op, reply⟩ l') :
    l' = l ∨ ∃ value random, reply = .ok value ∧ op.run x random l = .ok (value, l') := by
  cases reply with
  | error e => exact Or.inl h.eq_of_error
  | ok value =>
    obtain ⟨random, hrun⟩ := h.run_of_ok
    exact Or.inr ⟨value, random, rfl, hrun⟩

theorem reading_eq_ok {ε α : Type} {value : Except ε α} {a : α} :
    reading l value = .ok (a, l') ↔ value = .ok a ∧ l' = l := by
  cases value with
  | error e => simp [reading, Except.map]
  | ok b => simp [reading, Except.map, eq_comm]

end NwcMobile
