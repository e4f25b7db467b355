import NwcMobile.Engine.NotificationOnce
import NwcMobile.Ledger.RecordOwners

/-!
What a pass works on. A pass for one wallet keeps to the records of that wallet, a pass
learns of a revocation before it builds anything for the connection, and a record is
dropped only when its notification cannot be delivered any more.
-/

namespace NwcMobile

open Program Concurrent Transition Fallible Relational Notifications

/-- The record is one the pass may work on. -/
def PassScope.Owns (scope : PassScope) (l : Ledger) (record : TrackedRecord) : Prop :=
  match scope with
  | .all => True
  | .wallet owner => l.WalletOf record.connectionId owner
  | .invoice eventId => record.kind = .invoice ∧ record.eventId = eventId

/-- The record an operation names. -/
def NotificationOp.subject : NotificationOp → Option (RecordKind × EventId)
  | .storeNwcSentNotificationEvent e _ | .undeliveredNwcSentRelays e
  | .acknowledgeNwcSentRelay e _ _ | .completeNwcSentNotification e _
  | .discardNwcSentPayment e => some (.sent, e)
  | .storeNwcInvoiceNotificationEvent e _ _ | .undeliveredNwcInvoiceRelays e
  | .acknowledgeNwcInvoiceRelay e _ _ | .completeNwcInvoiceNotification e _
  | .touchNwcInvoice e _ | .expireNwcInvoice e _ => some (.invoice, e)
  | .pendingNwcSentPayments _ | .pendingNwcSentPaymentsForWallet .. | .pendingNwcInvoices _
  | .pendingNwcInvoicesForWallet .. | .pendingNwcInvoice _ => none

/-- The operations of a pass that are about no record: the host's ambient questions, and
listing the records of its scope. -/
def PassScope.Lists (scope : PassScope) : HostOp → Prop
  | .clockNow | .isCancelled | .deadlineRemaining | .nonce => True
  | .ledger (.record (.notification (.pendingNwcSentPayments _)))
  | .ledger (.record (.notification (.pendingNwcInvoices _))) => scope = .all
  | .ledger (.record (.notification (.pendingNwcSentPaymentsForWallet owner _)))
  | .ledger (.record (.notification (.pendingNwcInvoicesForWallet owner _))) =>
    scope = .wallet owner
  | .ledger (.record (.notification (.pendingNwcInvoice eventId))) => scope = .invoice eventId
  | _ => False

/-- The operation is about the record: its notification, its connection and the secret of
that, its payment or its event. -/
inductive Concerns (log : HostLog) (scope : PassScope) (record : TrackedRecord) : HostOp → Prop
  | notification {op : NotificationOp} (names : op.subject = some (record.kind, record.eventId)) :
      Concerns log scope record (.ledger (.record (.notification op)))
  | connection : Concerns log scope record
      (.ledger (.registry (.loadActiveConnection record.connectionId)))
  | secret {context : OperationContext} :
      Concerns log scope record (.loadNwcSecret record.connectionId context)
  | payment {invoice : TrackedNwcInvoice} {context : OperationContext}
      (invoice_eq : record = .invoice invoice) :
      Concerns log scope record
        (.wallet (.lookupInvoice (.paymentHash invoice.paymentHash)) context)
  | publication {relay : SecureRelayUrl} {json : String} {context : OperationContext}
      (notifying : Notifying log scope record json relay) :
      Concerns log scope record (.publishEvent relay json context)

/-- Execution `i`, a pass, works on the record; `earlier` is what was done before. -/
structure WorksOn (i : Nat) (scope : PassScope) (record : TrackedRecord)
    (event : Event NodeWorld NodeLabel) (earlier : NodeHistory) : Prop where
  pass : ∃ t, event.before.threads[i]? = some t ∧ t.job = .pass scope
  listed : Listed (actsOf i earlier) scope record
  concerns : ∃ op reply, event.label = .act i ⟨op, reply⟩ ∧
    Concerns (actsOf i earlier) scope record op

/-- Execution `i` looked the connection up, and found it active. -/
def LooksUp (i : Nat) (id : ConnectionId) (event : Event NodeWorld NodeLabel) : Prop :=
  ∃ connection, event.label =
    .act i ⟨.ledger (.registry (.loadActiveConnection id)), .ok (some connection)⟩

section Runs

variable {x : Crates} {asJson : Nip47.Notification → String} {outside : HostCall → Prop}
  {l : Ledger} {w : NodeWorld} {later earlier : NodeHistory} {event : Event NodeWorld NodeLabel}
  {i : Nat} {scope : PassScope} {record : TrackedRecord} {connection : ActiveConnection}

theorem loadActiveConnection_id {id : ConnectionId}
    (h : l.loadActiveConnection x id = .ok (some connection)) : connection.id = id := by
  simp only [Ledger.loadActiveConnection, bind_eq_ok] at h
  obtain ⟨stored, hstored, hfound⟩ := h
  cases stored with
  | none => cases hfound
  | some stored =>
    cases stored with
    | tombstoned t => cases hfound
    | active c =>
      obtain rfl : c = connection := Option.some.inj (Except.ok.inj hfound)
      obtain ⟨row, hrow, hhydrate⟩ := option_mapM_eq_some.mp hstored
      obtain ⟨hmem, hid⟩ := Table.selectRow_mem hrow
      have hread := (hydrate_active hmem hhydrate).connectionId
      rw [beq_iff_eq] at hid
      exact ConnectionId.value_injective (hread.trans hid)

/-- A lookup of a pass is a read of the ledger after the record was listed. -/
theorem LookedUp.step {found : Option ActiveConnection}
    (h : LookedUp (actsOf i earlier) scope record found)
    (hrun : NodeRun x asJson outside l earlier w) :
    ∃ newer looked older, earlier = newer ++ looked :: older ∧
      looked.label =
        .act i ⟨.ledger (.registry (.loadActiveConnection record.connectionId)), .ok found⟩ ∧
      looked.before.shared.loadActiveConnection x record.connectionId = .ok found ∧
      Listed (actsOf i older) scope record := by
  obtain ⟨newer, older, hlog, hlisted⟩ := h
  obtain ⟨recent, looked, past, rfl, hlabel, -, hrest⟩ := actsOf_split hlog
  obtain ⟨-, hstep, -⟩ := hrun.split
  rw [hlabel] at hstep
  obtain ⟨random, hop⟩ := hstep.ledgerStep.run_of_ok
  exact ⟨recent, looked, past, rfl, hlabel, (reading_eq_ok.mp hop).1, hrest ▸ hlisted⟩

theorem FoundActive.connection_id (h : FoundActive (actsOf i earlier) scope record connection)
    (hrun : NodeRun x asJson outside l earlier w) : connection.id = record.connectionId := by
  obtain ⟨newer, looked, older, -, -, hload, -⟩ := h.1.step hrun
  exact loadActiveConnection_id hload

/-- What a pass does is listing, or about a record it has listed. -/
theorem PassGuard.concerns {op : HostOp} (h : PassGuard x asJson scope (actsOf i earlier) op)
    (hrun : NodeRun x asJson outside l earlier w) :
    scope.Lists op ∨ ∃ record, Listed (actsOf i earlier) scope record ∧
      Concerns (actsOf i earlier) scope record op := by
  cases op with
  | clockNow => exact Or.inl trivial
  | isCancelled => exact Or.inl trivial
  | deadlineRemaining => exact Or.inl trivial
  | nonce => exact Or.inl trivial
  | publishEvent relay json context =>
    obtain ⟨record, hnotifying⟩ := h
    exact Or.inr ⟨record, hnotifying.publishable.listed, .publication hnotifying⟩
  | loadNwcSecret id context =>
    obtain ⟨record, connection, hactive, rfl⟩ := h
    right
    refine ⟨record, hactive.1.listed, ?_⟩
    rw [hactive.connection_id hrun]
    exact .secret
  | wallet op context =>
    cases op with
    | lookupInvoice lookup =>
      cases lookup with
      | paymentHash hash =>
        obtain ⟨invoice, rfl, -, hlisted⟩ := h
        exact Or.inr ⟨.invoice invoice, hlisted, .payment rfl⟩
      | _ => exact h.elim
    | _ => exact h.elim
  | fetchEvent => exact h.elim
  | recordDiagnostic => exact h.elim
  | ledger op =>
    cases op with
    | registry op =>
      cases op with
      | loadActiveConnection id =>
        obtain ⟨record, rfl, hlisted⟩ := h
        exact Or.inr ⟨record, hlisted, .connection⟩
      | _ => exact h.elim
    | record op =>
      cases op with
      | notification op =>
        -- every operation that names a record names one that was listed
        have hnames : ∀ record {kind e}, op.subject = some (kind, e) → record.kind = kind →
            record.eventId = e → Listed (actsOf i earlier) scope record →
              scope.Lists (.ledger (.record (.notification op))) ∨
                ∃ record, Listed (actsOf i earlier) scope record ∧
                  Concerns (actsOf i earlier) scope record (.ledger (.record (.notification op))) := by
          rintro record kind e hsubject rfl rfl hlisted
          exact Or.inr ⟨record, hlisted, .notification hsubject⟩
        cases op with
        | pendingNwcSentPayments maximum => exact Or.inl h
        | pendingNwcInvoices maximum => exact Or.inl h
        | pendingNwcSentPaymentsForWallet wallet maximum => exact Or.inl h
        | pendingNwcInvoicesForWallet wallet maximum => exact Or.inl h
        | pendingNwcInvoice e => exact Or.inl h
        | storeNwcSentNotificationEvent e json =>
          cases h with
          | sent active loaded built => exact hnames _ rfl rfl rfl active.1.listed
        | storeNwcInvoiceNotificationEvent e json time =>
          cases h with
          | received active paid loaded built => exact hnames _ rfl rfl rfl active.1.listed
        | undeliveredNwcSentRelays e =>
          obtain ⟨record, hkind, he, hlisted⟩ := h
          exact hnames record rfl hkind he hlisted
        | undeliveredNwcInvoiceRelays e =>
          obtain ⟨record, hkind, he, hlisted⟩ := h
          exact hnames record rfl hkind he hlisted
        | acknowledgeNwcSentRelay e relay now =>
          obtain ⟨record, hkind, he, json, context, older, hlog, hnotifying⟩ := h
          have hlisted := hnotifying.publishable.listed
          apply hnames record rfl hkind he
          rw [hlog]
          exact hlisted.mono ((List.suffix_cons _ _).trans (List.suffix_cons _ _))
        | acknowledgeNwcInvoiceRelay e relay now =>
          obtain ⟨record, hkind, he, json, context, older, hlog, hnotifying⟩ := h
          have hlisted := hnotifying.publishable.listed
          apply hnames record rfl hkind he
          rw [hlog]
          exact hlisted.mono ((List.suffix_cons _ _).trans (List.suffix_cons _ _))
        | completeNwcSentNotification e now =>
          obtain ⟨record, json, hkind, he, hpublishable⟩ := h
          exact hnames record rfl hkind he hpublishable.listed
        | completeNwcInvoiceNotification e now =>
          obtain ⟨record, json, hkind, he, hpublishable⟩ := h
          exact hnames record rfl hkind he hpublishable.listed
        | discardNwcSentPayment e =>
          obtain ⟨record, hkind, he, found, hlooked, -⟩ := h
          exact hnames record rfl hkind he hlooked.listed
        | touchNwcInvoice e now =>
          obtain ⟨record, hkind, he, hlisted⟩ := h
          exact hnames record rfl hkind he hlisted
        | expireNwcInvoice e now =>
          obtain ⟨invoice, he, hlisted, -⟩ := h
          exact hnames (.invoice invoice) rfl rfl he hlisted
      | _ => exact h.elim
    | _ => exact h.elim

theorem PassScope.Owns.run {w₀ : NodeWorld} {history : NodeHistory}
    (h : scope.Owns w₀.shared record) (hrun : Run (NodeStep x asJson outside) w₀ history w) :
    scope.Owns w.shared record := by
  cases scope with
  | all => trivial
  | invoice eventId => exact h
  | wallet owner => exact Ledger.WalletOf.run h (nodeLedgerRun hrun)

theorem PassScope.Covers.owns (h : scope.Covers l record) : scope.Owns l record := by
  cases scope with
  | all => trivial
  | invoice eventId => exact h
  | wallet owner =>
    obtain ⟨row, hrow, hkey⟩ := Table.any_eq_true.mp h
    simp only [Bool.and_eq_true, beq_iff_eq] at hkey
    exact ⟨row, hrow, hkey.1.1, hkey.2⟩

theorem Listed.owns (h : Listed (actsOf i earlier) scope record)
    (hrun : NodeRun x asJson outside l earlier w) : scope.Owns w.shared record := by
  obtain ⟨newer, past, older, op, reply, rfl, -, -, -, hcovers⟩ := h.step hrun
  obtain ⟨-, hstep, hlater⟩ := hrun.split
  exact hcovers.owns.run (hlater.cons_first hstep)

/-- Whatever a lookup finds active after a revocation is another connection. -/
theorem FoundActive.before_revocation {c : ConnectionId} {r : ConnectionRevision}
    {now : UnixTimestamp} {tombstone : ConnectionTombstone}
    (h : FoundActive (actsOf i (later ++ event :: earlier)) scope record connection)
    (hrun : NodeRun x asJson outside l (later ++ event :: earlier) w)
    (hevent : nodeLedgerCall event.label =
      some ⟨.registry (.tombstoneConnection c r now), .ok tombstone⟩)
    (hrecord : record.connectionId = c) : ∃ looked ∈ earlier, LooksUp i c looked := by
  obtain ⟨newer, looked, older, hsplit, hlabel, hload, -⟩ := h.1.step hrun
  rw [hrecord] at hlabel hload
  have hlooks : LooksUp i c looked := ⟨connection, hlabel⟩
  obtain ⟨-, hrevokes, hlater⟩ := hrun.split
  rcases List.append_eq_append_iff.mp hsplit with ⟨between, rfl, hafter⟩ | ⟨between, rfl, hafter⟩
  · cases between with
    | nil =>
      obtain ⟨rfl, -⟩ := List.cons.inj hafter
      rw [hlabel] at hevent
      cases hevent
    | cons first rest =>
      obtain ⟨rfl, rfl⟩ := List.cons.inj hafter
      exact ⟨looked, by simp, hlooks⟩
  · cases between with
    | nil =>
      obtain ⟨rfl, -⟩ := List.cons.inj hafter
      rw [hlabel] at hevent
      cases hevent
    | cons first since =>
      obtain ⟨rfl, rfl⟩ := List.cons.inj hafter
      -- the lookup came after the revocation, and read the connection as active
      obtain ⟨hsince, -, -⟩ := hlater.split
      rcases hrevokes.ledger with ⟨call, hcall, hledger⟩ | ⟨hnone, -⟩
      · rw [hevent, Option.some.injEq] at hcall
        subst hcall
        obtain ⟨random, hop⟩ := hledger.run_of_ok
        obtain ⟨row, row', htombstoned, -, -⟩ := tombstoneConnection_ok hop
        have hrevoked := htombstoned.revoked.run (nodeLedgerRun hsince)
        exact absurd (loadActiveConnection_id hload) (hrevoked.not_read (Or.inr (Or.inl ⟨c, hload⟩)))
      · rw [hevent] at hnone
        cases hnone

/-- A listed record belongs to a connection of the ledger. -/
theorem Listed.present (h : Listed (actsOf i earlier) scope record)
    (hrun : NodeRun x asJson outside .empty earlier w) :
    ∃ row ∈ w.shared.connections, row.connectionId = record.connectionId.value := by
  obtain ⟨newer, past, older, op, reply, rfl, -, hsame, hreads, -⟩ := h.step hrun
  obtain ⟨hbefore, hstep, hlater⟩ := hrun.split
  have howned := recordsOwned_run (nodeLedgerRun hbefore)
  have hthere : ∃ row ∈ past.before.shared.connections,
      row.connectionId = record.connectionId.value := by
    cases record with
    | payment payment =>
      obtain ⟨r, hrow, -, hdecode⟩ := hreads
      obtain ⟨-, -, -, hconnection⟩ := decodeSentPayment_ok hdecode
      rw [ConnectionId.parse_eq_ok] at hconnection
      obtain ⟨row, hmem, hid⟩ := howned.payments r (sentOf_eq_some.mp hrow).1
      exact ⟨row, hmem, hid.trans hconnection.symm⟩
    | invoice invoice =>
      obtain ⟨r, hrow, -, hdecode⟩ := hreads
      obtain ⟨-, -, -, -, hconnection⟩ := decodeInvoice_ok hdecode
      rw [ConnectionId.parse_eq_ok] at hconnection
      obtain ⟨row, hmem, hid⟩ := howned.invoices r (invoiceOf_eq_some.mp hrow).1
      exact ⟨row, hmem, hid.trans hconnection.symm⟩
  exact (nodeLedgerRun (hlater.cons_first hstep)).invariant
    (I := fun l => ∃ row ∈ l.connections, row.connectionId = record.connectionId.value)
    hthere fun _ _ _ hprior hnext => hnext.hasConnection hprior

/-- What a lookup did not find active at the record's revision is retired for good. -/
theorem FoundInactive.retired (h : FoundInactive (actsOf i earlier) scope record)
    (hrun : NodeRun x asJson outside .empty earlier w) :
    Retired w.shared record.connectionId record.connectionRevision := by
  obtain ⟨found, hlooked, hinactive⟩ := h
  obtain ⟨newer, looked, older, rfl, -, hload, hlisted⟩ := hlooked.step hrun
  obtain ⟨hbefore, hstep, hlater⟩ := hrun.split
  have hretired := retired_of_load (hlisted.present hbefore) hload hinactive
  exact hretired.run (nodeLedgerRun (hlater.cons_first hstep))

end Runs

/-- Passes keep to their scope, in any interleaving. Whatever a pass does is listing the
records of its scope, or about a record it has listed; what a pass for one wallet works on
belongs to a connection of that wallet, and passes for different wallets work on records
of different connections. -/
theorem passes_stay_in_scope {x : Crates} {asJson : Nip47.Notification → String}
    {outside : HostCall → Prop} {l : Ledger} {history : NodeHistory} {w : NodeWorld}
    (hrun : NodeRun x asJson outside l history w) :
    (∀ later event earlier i op reply t scope, history = later ++ event :: earlier →
      event.label = .act i ⟨op, reply⟩ → event.before.threads[i]? = some t → t.job = .pass scope →
        scope.Lists op ∨ ∃ record, WorksOn i scope record event earlier ∧
          scope.Owns event.before.shared record ∧ scope.Owns w.shared record) ∧
    ∀ later event earlier i owner record later' event' earlier' j owner' record',
      history = later ++ event :: earlier → history = later' ++ event' :: earlier' →
        WorksOn i (.wallet owner) record event earlier →
          WorksOn j (.wallet owner') record' event' earlier' →
            record.connectionId = record'.connectionId → owner' = owner := by
  have howns : ∀ later event earlier i scope record, history = later ++ event :: earlier →
      Listed (actsOf i earlier) scope record →
        scope.Owns event.before.shared record ∧ scope.Owns w.shared record := by
    rintro later event earlier i scope record rfl hlisted
    obtain ⟨hbefore, hstep, hlater⟩ := hrun.split
    have hnow := hlisted.owns hbefore
    exact ⟨hnow, hnow.run (hlater.cons_first hstep)⟩
  refine ⟨?_, ?_⟩
  · intro later event earlier i op reply t scope hsplit hlabel hthread hjob
    have hhere := hrun
    rw [hsplit] at hhere
    obtain ⟨hbefore, -, -⟩ := hhere.split
    obtain ⟨t', hthread', hguard⟩ := guard_of_nodeAct hhere hlabel
    rw [hthread, Option.some.injEq] at hthread'
    subst hthread'
    rw [hjob] at hguard
    rcases PassGuard.concerns hguard hbefore with hlists | ⟨record, hlisted, hconcerns⟩
    · exact Or.inl hlists
    · exact Or.inr ⟨record, ⟨⟨t, hthread, hjob⟩, hlisted, op, reply, hlabel, hconcerns⟩,
        howns later event earlier i scope record hsplit hlisted⟩
  · intro later event earlier i owner record later' event' earlier' j owner' record' hsplit hsplit'
      hworks hworks' hsame
    obtain ⟨-, hown⟩ := howns later event earlier i (.wallet owner) record hsplit hworks.listed
    obtain ⟨-, hown'⟩ := howns later' event' earlier' j (.wallet owner') record' hsplit' hworks'.listed
    have hwallet : w.shared.WalletOf record.connectionId owner' := by
      rw [hsame]
      exact hown'
    exact Ledger.WalletOf.unique hown hwallet

namespace Sample

/-- The newest step is an act of execution `i`, a pass of the scope, of this kind. -/
def endsActing (i : Nat) (scope : PassScope) (p : HostOp → Bool) : NodeHistory → Bool
  | event :: _ =>
    (match event.label with
    | .act k call => k == i && p call.op
    | _ => false) && event.before.threads[i]?.any fun t =>
      match t.job with
      | .pass scope' => scope' == scope
      | _ => false
  | [] => false

theorem endsActing_cons {i : Nat} {scope : PassScope} {p : HostOp → Bool}
    {event : Event NodeWorld NodeLabel} {earlier : NodeHistory}
    (h : endsActing i scope p (event :: earlier) = true) : ∃ op reply t,
      event.label = .act i ⟨op, reply⟩ ∧ p op = true ∧ event.before.threads[i]? = some t ∧
        t.job = .pass scope := by
  simp only [endsActing, Bool.and_eq_true, Option.any_eq_true] at h
  obtain ⟨hact, t, hthread, hjob⟩ := h
  split at hact
  · rename_i k call hlabel
    simp only [Bool.and_eq_true, beq_iff_eq] at hact
    obtain ⟨rfl, hop⟩ := hact
    split at hjob
    · rename_i scope' hpass
      rw [beq_iff_eq] at hjob
      subst hjob
      exact ⟨call.op, call.reply, t, hlabel, hop, hthread, hpass⟩
    · cases hjob
  · cases hact

def isPublication : HostOp → Bool
  | .publishEvent .. => true
  | _ => false

/-- A settled payment of the sample connection. -/
def owing : List NodeMove :=
  [.outside (.record (.recordNwcSentPayment owedNotification [relay])) (script 1010 0),
   .outside (.registry (.insertConnection connection 1000)) (script 1000 0)]

def ownWallet : PassScope := .wallet walletServicePubkey

/-- A pass for the payment's wallet publishes its notification. -/
def walletPass : List NodeMove :=
  List.replicate 12 (NodeMove.act 0 (notifyingScript 1)) ++
    NodeMove.spawn (.pass ownWallet) :: owing

end Sample

theorem passes_stay_in_scope_wallet : ∃ event earlier, (Sample.passesOver Sample.walletPass).1 =
    event :: earlier ∧ (∃ relay json context reply,
      event.label = .act 0 ⟨.publishEvent relay json context, reply⟩) ∧
    ∃ record, WorksOn 0 Sample.ownWallet record event earlier ∧
      Sample.ownWallet.Owns event.before.shared record ∧
        Sample.ownWallet.Owns (Sample.passesOver Sample.walletPass).2.shared record := by
  have hchecked : Sample.endsActing 0 Sample.ownWallet Sample.isPublication
      (Sample.passesOver Sample.walletPass).1 = true := by decide +kernel
  have hrun : NodeRun Sample.notificationCrates (fun _ => Sample.owedNotificationText)
      (fun _ => True) .empty (Sample.passesOver Sample.walletPass).1
      (Sample.passesOver Sample.walletPass).2 :=
    nodePlay_run fun _ _ _ _ => trivial
  have hscope := (passes_stay_in_scope hrun).1
  cases hhistory : (Sample.passesOver Sample.walletPass).1 with
  | nil =>
    rw [hhistory] at hchecked
    cases hchecked
  | cons event earlier =>
    rw [hhistory] at hchecked hscope
    obtain ⟨op, reply, t, hlabel, hop, hthread, hjob⟩ := Sample.endsActing_cons hchecked
    cases op with
    | publishEvent relay json context =>
      rcases hscope [] event earlier 0 _ reply t Sample.ownWallet rfl hlabel hthread hjob with
        hlists | hworks
      · exact hlists.elim
      · exact ⟨event, earlier, rfl, ⟨relay, json, context, reply, hlabel⟩, hworks⟩
    | _ => cases hop

/-- A revocation silences the connection's notifications. Once a connection is revoked, a
pass loads its secret, stores an event for one of its records or publishes one only if it
had found the connection active before; the only exception is an invoice whose event was
stored already when the pass listed it. -/
theorem revocation_silences_notifications {x : Crates} {asJson : Nip47.Notification → String}
    {outside : HostCall → Prop} {l : Ledger} {w : NodeWorld} {later earlier : NodeHistory}
    {event : Event NodeWorld NodeLabel} {c : ConnectionId} {r : ConnectionRevision}
    {now : UnixTimestamp} {tombstone : ConnectionTombstone}
    (hrun : NodeRun x asJson outside l (later ++ event :: earlier) w)
    (hevent : nodeLedgerCall event.label =
      some ⟨.registry (.tombstoneConnection c r now), .ok tombstone⟩) :
    ∀ newer act middle i op reply t scope, later = newer ++ act :: middle →
      act.label = .act i ⟨op, reply⟩ → act.before.threads[i]? = some t → t.job = .pass scope →
        (∀ context, op = .loadNwcSecret c context → ∃ looked ∈ earlier, LooksUp i c looked) ∧
        (∀ call kind eventId json, op = .ledger call → call.StoresEvent kind eventId json →
          ∃ record, WorksOn i scope record act (middle ++ event :: earlier) ∧
            (record.connectionId = c → ∃ looked ∈ earlier, LooksUp i c looked)) ∧
        (∀ relay json context, op = .publishEvent relay json context →
          ∃ record, WorksOn i scope record act (middle ++ event :: earlier) ∧
            (record.connectionId = c → (∃ looked ∈ earlier, LooksUp i c looked) ∨
              record.kind = .invoice ∧ record.eventJson = some json)) := by
  rintro newer act middle i op reply t scope rfl hlabel hthread hjob
  have hplace : (newer ++ act :: middle) ++ event :: earlier =
      newer ++ act :: (middle ++ event :: earlier) := by simp
  rw [hplace] at hrun
  obtain ⟨hbefore, -, -⟩ := hrun.split
  obtain ⟨t', hthread', hguard⟩ := guard_of_nodeAct hrun hlabel
  rw [hthread, Option.some.injEq] at hthread'
  subst hthread'
  rw [hjob] at hguard
  have hworks : ∀ record, Listed (actsOf i (middle ++ event :: earlier)) scope record →
      Concerns (actsOf i (middle ++ event :: earlier)) scope record op →
        WorksOn i scope record act (middle ++ event :: earlier) :=
    fun record hlisted hconcerns => ⟨⟨t, hthread, hjob⟩, hlisted, op, reply, hlabel, hconcerns⟩
  refine ⟨?_, ?_, ?_⟩
  · rintro context rfl
    obtain ⟨record, connection, hactive, hid⟩ := hguard
    apply hactive.before_revocation hbefore hevent
    rw [hid, hactive.connection_id hbefore]
  · rintro call kind eventId json rfl hstores
    cases kind with
    | sent =>
      obtain rfl : call = _ := hstores
      cases hguard with
      | sent active loaded built =>
        exact ⟨_, hworks _ active.1.listed (.notification rfl),
          fun hrecord => active.before_revocation hbefore hevent hrecord⟩
    | invoice =>
      obtain ⟨time, rfl⟩ := hstores
      cases hguard with
      | received active paid loaded built =>
        exact ⟨_, hworks _ active.1.listed (.notification rfl),
          fun hrecord => active.before_revocation hbefore hevent hrecord⟩
  · rintro relay json context rfl
    obtain ⟨record, hnotifying⟩ := hguard
    have hpublishable := hnotifying.publishable
    refine ⟨record, hworks record hpublishable.listed (.publication hnotifying), fun hrecord => ?_⟩
    by_cases hlook : record.kind = .sent ∨ record.eventJson ≠ some json
    · obtain ⟨connection, hactive⟩ := hpublishable.looked hlook
      exact Or.inl (hactive.before_revocation hbefore hevent hrecord)
    · rw [not_or, not_not] at hlook
      right
      refine ⟨?_, hlook.2⟩
      cases record with
      | payment payment => exact absurd rfl hlook.1
      | invoice invoice => rfl

namespace Sample

/-- The payment's connection is revoked while a pass builds the event. -/
def revokedMidway : List NodeMove :=
  NodeMove.outside (.registry (.tombstoneConnection connectionId 0 1011)) (script 1011 0) ::
    (List.replicate 7 (NodeMove.act 0 (notifyingScript 1)) ++ NodeMove.spawn (.pass .all) :: owing)

/-- The pass goes on to publish it. -/
def publishedAfterwards : List NodeMove :=
  List.replicate 5 (NodeMove.act 0 (notifyingScript 1)) ++ revokedMidway

/-- The newest step revokes the connection. -/
def endsRevoking : NodeHistory → Bool
  | event :: _ =>
    match nodeLedgerCall event.label with
    | some ⟨.registry (.tombstoneConnection c _ _), .ok _⟩ => c == connectionId
    | _ => false
  | [] => false

theorem endsRevoking_cons {event : Event NodeWorld NodeLabel} {earlier : NodeHistory}
    (h : endsRevoking (event :: earlier) = true) : ∃ r now tombstone,
      nodeLedgerCall event.label =
        some ⟨.registry (.tombstoneConnection connectionId r now), .ok tombstone⟩ := by
  simp only [endsRevoking] at h
  split at h
  · rename_i c r now tombstone hcall
    rw [beq_iff_eq] at h
    subst h
    exact ⟨r, now, tombstone, hcall⟩
  · cases h

end Sample

/-- A pass that had found the connection active publishes after the revocation. -/
theorem revocation_silences_notifications_midway : ∃ act middle event earlier,
    (Sample.passesOver Sample.publishedAfterwards).1 = act :: (middle ++ event :: earlier) ∧
      (∃ r now tombstone, nodeLedgerCall event.label =
        some ⟨.registry (.tombstoneConnection Sample.connectionId r now), .ok tombstone⟩) ∧
      ∃ record, WorksOn 0 .all record act (middle ++ event :: earlier) ∧
        (record.connectionId = Sample.connectionId →
          (∃ looked ∈ earlier, LooksUp 0 Sample.connectionId looked) ∨
            record.kind = .invoice ∧ record.eventJson = some (Sample.notificationEventJson 1)) := by
  obtain ⟨later, hlater⟩ : ∃ later, (Sample.passesOver Sample.publishedAfterwards).1 =
      later ++ (Sample.passesOver Sample.revokedMidway).1 := nodePlay_append
  have hpublishes : Sample.endsPublishing 0 1 (Sample.passesOver Sample.publishedAfterwards).1 =
      true := by decide +kernel
  have hrevokes : Sample.endsRevoking (Sample.passesOver Sample.revokedMidway).1 = true := by
    decide
  have hrun : NodeRun Sample.notificationCrates (fun _ => Sample.owedNotificationText)
      (fun _ => True) .empty (Sample.passesOver Sample.publishedAfterwards).1
      (Sample.passesOver Sample.publishedAfterwards).2 :=
    nodePlay_run fun _ _ _ _ => trivial
  cases hhistory : (Sample.passesOver Sample.revokedMidway).1 with
  | nil =>
    rw [hhistory] at hrevokes
    cases hrevokes
  | cons event earlier =>
    rw [hhistory] at hrevokes hlater
    obtain ⟨r, now, tombstone, hcall⟩ := Sample.endsRevoking_cons hrevokes
    rw [hlater] at hpublishes hrun
    cases later with
    | nil =>
      -- the newest step is a publication, not the revocation
      obtain ⟨relay, context, reply, t, hlabel, -⟩ := Sample.publishesAs_publication hpublishes
      rw [hlabel] at hcall
      cases hcall
    | cons act middle =>
      obtain ⟨relay, context, reply, t, hlabel, hthread, hjob⟩ :=
        Sample.publishesAs_publication hpublishes
      have hsilenced := revocation_silences_notifications hrun hcall [] act middle 0 _ reply t .all
        rfl hlabel hthread hjob
      exact ⟨act, middle, event, earlier, hlater, ⟨r, now, tombstone, hcall⟩,
        hsilenced.2.2 relay _ context rfl⟩

/-- A record is dropped only when its notification cannot be delivered any more. A pass
discards a settled payment only when the connection it was made under is not active at
that revision, and never will be again; it gives up an invoice only then, or when the
wallet did not report it as paid and a day has passed since it expired. -/
theorem dropped_only_when_undeliverable {x : Crates} {asJson : Nip47.Notification → String}
    {outside : HostCall → Prop} {w : NodeWorld} {later earlier : NodeHistory}
    {event : Event NodeWorld NodeLabel} {i : Nat} {op : NotificationOp}
    {reply : (HostOp.ledger (.record (.notification op))).Reply}
    {t : Thread NodeJob HostOp HostOp.Reply NodeResult} {scope : PassScope}
    (hrun : NodeRun x asJson outside .empty (later ++ event :: earlier) w)
    (hlabel : event.label = .act i ⟨.ledger (.record (.notification op)), reply⟩)
    (hthread : event.before.threads[i]? = some t) (hjob : t.job = .pass scope) :
    (∀ eventId, op = .discardNwcSentPayment eventId →
      ∃ payment, payment.requestEventId = eventId ∧
        WorksOn i scope (.payment payment) event earlier ∧
        Retired event.before.shared payment.connectionId payment.connectionRevision ∧
        Retired w.shared payment.connectionId payment.connectionRevision) ∧
    (∀ eventId completedAt, op = .expireNwcInvoice eventId completedAt →
      ∃ invoice, invoice.requestEventId = eventId ∧
        WorksOn i scope (.invoice invoice) event earlier ∧
        (Retired event.before.shared invoice.connectionId invoice.connectionRevision ∧
            Retired w.shared invoice.connectionId invoice.connectionRevision ∨
          FoundUnpaid (actsOf i earlier) invoice ∧ Stale (actsOf i earlier) invoice)) := by
  obtain ⟨hbefore, hstep, hlater⟩ := hrun.split
  obtain ⟨t', hthread', hguard⟩ := guard_of_nodeAct hrun hlabel
  rw [hthread, Option.some.injEq] at hthread'
  subst hthread'
  rw [hjob] at hguard
  have hforever : ∀ record, FoundInactive (actsOf i earlier) scope record →
      Retired event.before.shared record.connectionId record.connectionRevision ∧
        Retired w.shared record.connectionId record.connectionRevision := by
    intro record hinactive
    have hnow := hinactive.retired hbefore
    exact ⟨hnow, hnow.run (nodeLedgerRun (hlater.cons_first hstep))⟩
  refine ⟨?_, ?_⟩
  · rintro eventId rfl
    obtain ⟨record, hkind, rfl, hinactive⟩ := hguard
    cases record with
    | invoice invoice => cases hkind
    | payment payment =>
      refine ⟨payment, rfl, ⟨⟨t, hthread, hjob⟩, ?_, _, _, hlabel, .notification rfl⟩,
        hforever (.payment payment) hinactive⟩
      obtain ⟨found, hlooked, -⟩ := hinactive
      exact hlooked.listed
  · rintro eventId completedAt rfl
    obtain ⟨invoice, rfl, hlisted, hcase⟩ := hguard
    refine ⟨invoice, rfl, ⟨⟨t, hthread, hjob⟩, hlisted, _, _, hlabel, .notification rfl⟩, ?_⟩
    exact hcase.imp (fun hinactive => hforever (.invoice invoice) hinactive) id

namespace Sample

/-- A pass finds the payment's connection revoked, and discards the payment. -/
def discardedPayment : List NodeMove :=
  List.replicate 4 (NodeMove.act 0 (notifyingScript 1)) ++ NodeMove.spawn (.pass .all) ::
    NodeMove.outside (.registry (.tombstoneConnection connectionId 0 1011)) (script 1011 0) :: owing

def isDiscarding : HostOp → Bool
  | .ledger (.record (.notification (.discardNwcSentPayment _))) => true
  | _ => false

end Sample

theorem dropped_only_when_undeliverable_discarded : ∃ event earlier payment,
    (Sample.passesOver Sample.discardedPayment).1 = event :: earlier ∧
      WorksOn 0 .all (.payment payment) event earlier ∧
        Retired (Sample.passesOver Sample.discardedPayment).2.shared payment.connectionId
          payment.connectionRevision := by
  have hchecked : Sample.endsActing 0 .all Sample.isDiscarding
      (Sample.passesOver Sample.discardedPayment).1 = true := by decide
  have hrun : NodeRun Sample.notificationCrates (fun _ => Sample.owedNotificationText)
      (fun _ => True) .empty (Sample.passesOver Sample.discardedPayment).1
      (Sample.passesOver Sample.discardedPayment).2 :=
    nodePlay_run fun _ _ _ _ => trivial
  cases hhistory : (Sample.passesOver Sample.discardedPayment).1 with
  | nil =>
    rw [hhistory] at hchecked
    cases hchecked
  | cons event earlier =>
    rw [hhistory] at hchecked hrun
    obtain ⟨op, reply, t, hlabel, hop, hthread, hjob⟩ := Sample.endsActing_cons hchecked
    unfold Sample.isDiscarding at hop
    split at hop
    · rename_i eventId
      have hnewest : NodeRun Sample.notificationCrates (fun _ => Sample.owedNotificationText)
          (fun _ => True) .empty ([] ++ event :: earlier)
          (Sample.passesOver Sample.discardedPayment).2 := hrun
      obtain ⟨payment, -, hworks, -, hretired⟩ :=
        (dropped_only_when_undeliverable hnewest hlabel hthread hjob).1 eventId rfl
      exact ⟨event, earlier, payment, rfl, hworks, hretired⟩
    · cases hop

end NwcMobile
