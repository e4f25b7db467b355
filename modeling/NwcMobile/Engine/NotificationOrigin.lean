import NwcMobile.Engine.NotificationOnce

/-!
What a published notification says is true. Its event was built from a record in the
ledger, under the key of the record's wallet and for the client of the connection that
was active for it; the payment it reports was settled, as the wallet said.
-/

namespace NwcMobile

open Program Concurrent Transition Fallible Relational Notifications

/-- Only the engine records, and only the passes deal with what is recorded. -/
def RecordedByEngine (outside : HostCall → Prop) : Prop :=
  ∀ op reply, outside ⟨op, reply⟩ → op.activity ≠ .notifying ∧ op.activity ≠ .recording

/-- Some execution was told by the wallet that the payment was settled, with this preimage,
amount and fee, and had the ledger account for it. -/
def SettledByWallet (past : NodeHistory) (payment : TrackedNwcPayment) : Prop :=
  ∃ k, StatusReported (actsOf k past) payment.requestEventId payment.paymentHash
      (.succeeded payment.preimage payment.amount payment.fee) ∧
    ∃ accounted, Answered (actsOf k past) (.ledger (.payment (.markPaymentSucceeded
      payment.paymentHash payment.amount payment.fee payment.settledAt))) (.ok accounted)

/-- The wallet told the pass that the invoice was paid, by this transaction. -/
def PaidToWallet (past : NodeHistory) (j : Nat) (invoice : TrackedNwcInvoice)
    (transaction : WalletTransaction) : Prop :=
  (∃ context, Answered (actsOf j past)
    (.wallet (.lookupInvoice (.paymentHash invoice.paymentHash)) context) (.ok (some transaction))) ∧
  transaction.direction = .incoming ∧ transaction.paymentHash = some invoice.paymentHash ∧
  ∃ preimage amount fee, transaction.status = .succeeded preimage amount fee

/-- The ledger had the record, and then its connection active at the record's revision. -/
def ServedBy (x : Crates) (past : NodeHistory) (record : TrackedRecord)
    (connection : ActiveConnection) : Prop :=
  ∃ newer looked older, past = newer ++ looked :: older ∧
    (∃ listed ∈ older, listed.before.shared.Reads record) ∧
    looked.before.shared.loadActiveConnection x record.connectionId = .ok (some connection) ∧
    connection.revision = record.connectionRevision

/-- The event tells the truth: the pass `j` built it for the record from what had
happened before. -/
inductive TellsTruth (x : Crates) (asJson : Nip47.Notification → String) (past : NodeHistory)
    (j : Nat) : RecordKind → EventId → String → Prop
  | sent {payment : TrackedNwcPayment} {connection : ActiveConnection} {secret : NwcSecretKey}
      {nonce : BitVec 256} {json : String} (served : ServedBy x past (.payment payment) connection)
      (settled : SettledByWallet past payment)
      (signer : x.secretPublicKey secret = some connection.walletServicePubkey)
      (built : buildPaymentSentNotificationEvent x asJson connection secret payment nonce = .ok json) :
      TellsTruth x asJson past j .sent payment.requestEventId json
  | received {invoice : TrackedNwcInvoice} {transaction : WalletTransaction}
      {connection : ActiveConnection} {secret : NwcSecretKey} {nonce : BitVec 256} {json : String}
      (served : ServedBy x past (.invoice invoice) connection)
      (paid : PaidToWallet past j invoice transaction)
      (signer : x.secretPublicKey secret = some connection.walletServicePubkey)
      (built : buildPaymentReceivedNotificationEvent x asJson connection secret invoice transaction
        nonce = .ok json) :
      TellsTruth x asJson past j .invoice invoice.requestEventId json

/-- Execution `j` stores the event for the record. -/
def StoresFor (j : Nat) (kind : RecordKind) (eventId : EventId) (json : String)
    (event : Event NodeWorld NodeLabel) : Prop :=
  ∃ op reply, event.label = .act j ⟨.ledger op, reply⟩ ∧ op.StoresEvent kind eventId json

section Events

variable {x : Crates} {asJson : Nip47.Notification → String} {connection : ActiveConnection}
  {secret : NwcSecretKey} {nonce : BitVec 256} {json : String}

theorem buildNotificationEvent_signer {plaintext : String} {createdAt : UnixTimestamp}
    (h : buildNotificationEvent x connection secret plaintext createdAt nonce = .ok json) :
    x.secretPublicKey secret = some connection.walletServicePubkey := by
  simp only [buildNotificationEvent, bind_eq_ok, okOr_eq_ok, ensure_eq_ok, beq_iff_eq] at h
  obtain ⟨publicKey, hpublic, -, hsame, -⟩ := h
  rw [hpublic, hsame]

/-- An event is built for an invoice only from a payment of that invoice. -/
theorem buildPaymentReceived_ok {invoice : TrackedNwcInvoice} {transaction : WalletTransaction}
    (h : buildPaymentReceivedNotificationEvent x asJson connection secret invoice transaction nonce =
      .ok json) :
    x.secretPublicKey secret = some connection.walletServicePubkey ∧
      transaction.direction = .incoming ∧ transaction.paymentHash = some invoice.paymentHash ∧
        ∃ preimage amount fee, transaction.status = .succeeded preimage amount fee := by
  unfold buildPaymentReceivedNotificationEvent at h
  split at h
  · rename_i preimage amount fee hstatus
    simp only [bind_eq_ok, ensure_eq_ok, okOr_eq_ok, Bool.and_eq_true, beq_iff_eq] at h
    obtain ⟨-, ⟨hdirection, hhash⟩, settledAt, -, hbuilt⟩ := h
    exact ⟨buildNotificationEvent_signer hbuilt, hdirection, hhash, preimage, amount, fee, hstatus⟩
  all_goals cases h

end Events

section Runs

variable {x : Crates} {asJson : Nip47.Notification → String} {outside : HostCall → Prop}
  {w : NodeWorld} {later earlier : NodeHistory} {event : Event NodeWorld NodeLabel} {i : Nat}
  {kind : RecordKind} {eventId : EventId} {json : String}

/-- An event the ledger holds for a record was stored for it by a call. -/
theorem holdsEvent_stored {history : NodeHistory} (hrun : NodeRun x asJson outside .empty history w)
    (hholds : w.shared.HoldsEvent kind eventId json) :
    ∃ newer stored older call, history = newer ++ stored :: older ∧
      nodeLedgerCall stored.label = some call ∧ call.op.StoresEvent kind eventId json := by
  induction hrun with
  | refl =>
    obtain ⟨s, hs, -⟩ := hholds
    cases kind <;> cases hs
  | @tail past a b label hpast hstep ih =>
    have hearlier : a.shared.HoldsEvent kind eventId json →
        ∃ newer stored older call, (⟨a, label, b⟩ :: past : NodeHistory) = newer ++ stored :: older ∧
          nodeLedgerCall stored.label = some call ∧ call.op.StoresEvent kind eventId json := by
      intro hprior
      obtain ⟨newer, stored, older, call, rfl, hcall, hstores⟩ := ih hprior
      exact ⟨_ :: newer, stored, older, call, rfl, hcall, hstores⟩
    rcases hstep.ledger with ⟨call, hcall, hledger⟩ | ⟨-, hsame⟩
    · obtain ⟨s, hs, hjson⟩ := hholds
      have hmoved := hledger.notificationStep kind eventId
      rw [hs] at hmoved
      generalize hbefore : a.shared.notificationOf kind eventId = before at hmoved
      cases hmoved with
      | kept => exact hearlier ⟨s, hbefore, hjson⟩
      | recorded => cases hjson
      | stored json' hstores =>
        obtain rfl := Option.some.inj hjson
        exact ⟨[], _, past, call, rfl, hcall, hstores⟩
      | completed json' completedAt hnone => exact hearlier ⟨_, hbefore, hjson⟩
    · rw [hsame] at hholds
      exact hearlier hholds

theorem StoresEvent.notifying {op : LedgerOp} (h : op.StoresEvent kind eventId json) :
    (HostOp.ledger op).activity = .notifying := by
  cases kind with
  | sent =>
    obtain rfl : op = _ := h
    rfl
  | invoice =>
    obtain ⟨time, rfl⟩ := h
    rfl

theorem SettledByWallet.mono {past history : NodeHistory} {payment : TrackedNwcPayment}
    (h : SettledByWallet past payment) (hsub : past ⊆ history) : SettledByWallet history payment := by
  obtain ⟨k, hreported, accounted, haccounted⟩ := h
  have hacts : actsOf k past ⊆ actsOf k history := by
    intro call hcall
    obtain ⟨event, hevent, hlabel⟩ := mem_actsOf.mp hcall
    exact mem_actsOf.mpr ⟨event, hsub hevent, hlabel⟩
  exact ⟨k, hreported.mono hacts, accounted, hacts haccounted⟩

/-- What the recorded payment says was settled. -/
theorem Ledger.Reads.settled {history : NodeHistory} {payment : TrackedNwcPayment}
    (hforeign : RecordedByEngine outside) (hrun : NodeRun x asJson outside .empty history w)
    (hread : w.shared.Reads (.payment payment)) : SettledByWallet history payment := by
  obtain ⟨r, hrow, -, hdecode⟩ := hread
  obtain ⟨hmem, -⟩ := sentOf_eq_some.mp hrow
  obtain ⟨recorded, hrecorded, payment', relays, hop, hterms⟩ :=
    sent_row_recorded (nodeLedgerRun hrun) hmem
  obtain ⟨past, hpast, hlabel⟩ := List.mem_filterMap.mp hrecorded
  obtain ⟨call, hcall, rfl⟩ := Option.map_eq_some_iff.mp hlabel
  obtain ⟨op, reply⟩ := call
  obtain rfl : op = _ := hop
  obtain ⟨newer, older, rfl⟩ := List.append_of_mem hpast
  obtain ⟨-, hstep, -⟩ := hrun.split
  have hsettled : SettledByWallet older payment' := by
    cases hact : past.label with
    | spawn job =>
      rw [hact] at hcall
      cases hcall
    | crash i =>
      rw [hact] at hcall
      cases hcall
    | outside host =>
      rw [hact] at hcall hstep
      obtain rfl := hostLedgerCall_eq_some hcall
      generalize past.after = after at hstep
      cases hstep with
      | outside hout _ => exact absurd rfl (hforeign _ _ hout).2
    | act k host =>
      rw [hact] at hcall
      obtain rfl := hostLedgerCall_eq_some hcall
      obtain ⟨t, -, hguard⟩ := guard_of_nodeAct hrun hact
      cases hjob : t.job with
      | engine job =>
        rw [hjob] at hguard
        exact ⟨k, hguard.2⟩
      | pass scope =>
        rw [hjob] at hguard
        exact hguard.elim
  -- the row has the payment's own data
  have hsame : payment'.requestEventId = payment.requestEventId ∧
      payment'.paymentHash = payment.paymentHash ∧ payment'.preimage = payment.preimage ∧
        payment'.amount = payment.amount ∧ payment'.fee = payment.fee ∧
          payment'.settledAt = payment.settledAt := by
    simp only [decodeSentPayment, bind_eq_ok, pure_eq_ok] at hdecode
    obtain ⟨connectionId, -, rfl⟩ := hdecode
    have hfield : ∀ {α : Type} (f : SentPaymentRow → α), f payment'.row = f r.terms :=
      fun f => (congrArg f hterms).symm
    exact ⟨hfield (·.requestEventId), hfield (·.paymentHash), hfield (·.preimage),
      hfield (·.amountMsat), hfield (·.feeMsat), hfield (·.settledAt)⟩
  obtain ⟨hevent, hhash, hpreimage, hamount, hfee, hsettledAt⟩ := hsame
  have hpayment : SettledByWallet older payment := by
    obtain ⟨k, hreported, accounted, haccounted⟩ := hsettled
    rw [hevent, hhash, hpreimage, hamount, hfee] at hreported
    rw [hhash, hamount, hfee, hsettledAt] at haccounted
    exact ⟨k, hreported, accounted, haccounted⟩
  apply hpayment.mono
  simp

/-- The connection a pass found active was read from the ledger after the record was. -/
theorem FoundActive.served {scope : PassScope} {record : TrackedRecord}
    {connection : ActiveConnection} (h : FoundActive (actsOf i earlier) scope record connection)
    (hrun : NodeRun x asJson outside .empty earlier w) : ServedBy x earlier record connection := by
  obtain ⟨⟨newer, older, hlog, hlisted⟩, hrevision⟩ := h
  obtain ⟨recent, looked, past, rfl, hlabel, -, hrest⟩ := actsOf_split hlog
  obtain ⟨hbefore, hstep, -⟩ := hrun.split
  rw [← hrest] at hlisted
  obtain ⟨newest, listed, oldest, op, reply, rfl, -, -, hreads, -⟩ := hlisted.step hbefore
  rw [hlabel] at hstep
  obtain ⟨random, hop⟩ := hstep.ledgerStep.run_of_ok
  exact ⟨recent, looked, _, rfl, ⟨listed, by simp, hreads⟩, (reading_eq_ok.mp hop).1, hrevision⟩

theorem ServedBy.reads {record : TrackedRecord} {connection : ActiveConnection}
    (h : ServedBy x earlier record connection) :
    ∃ newer listed older, earlier = newer ++ listed :: older ∧
      listed.before.shared.Reads record := by
  obtain ⟨newer, looked, older, rfl, ⟨listed, hlisted, hreads⟩, -⟩ := h
  obtain ⟨recent, oldest, rfl⟩ := List.append_of_mem hlisted
  exact ⟨newer ++ looked :: recent, listed, oldest, by simp, hreads⟩

/-- An event a pass composed tells the truth. -/
theorem Composed.tellsTruth {scope : PassScope} (hforeign : RecordedByEngine outside)
    (hrun : NodeRun x asJson outside .empty earlier w)
    (h : Composed x asJson (actsOf i earlier) scope kind eventId json) :
    TellsTruth x asJson earlier i kind eventId json := by
  cases h with
  | @sent payment connection secret nonce context _ active loaded built =>
    have hserved := active.served hrun
    refine .sent hserved ?_ (buildNotificationEvent_signer built) built
    obtain ⟨newer, listed, older, rfl, hreads⟩ := hserved.reads
    obtain ⟨hbefore, -, -⟩ := hrun.split
    apply (hreads.settled hforeign hbefore).mono
    simp
  | @received invoice connection secret nonce context context' _ transaction active paid loaded built =>
    obtain ⟨hsigner, hdirection, hhash, hstatus⟩ := buildPaymentReceived_ok built
    exact .received (active.served hrun) ⟨⟨context', paid⟩, hdirection, hhash, hstatus⟩ hsigner built

end Runs

/-- Published notifications are true. Whatever a pass publishes for a record was stored
for it by a pass that had built it: from the record as the ledger had it, for the client of
the connection that was active for the record and signed by that connection's wallet. A
`payment_sent` reports a payment that the wallet had said was settled, with the preimage,
amount and fee it had said; a `payment_received` reports an incoming payment of that very
invoice that the wallet had said was settled. -/
theorem notifications_are_truthful {x : Crates} {asJson : Nip47.Notification → String}
    {outside : HostCall → Prop} {history : NodeHistory} {w : NodeWorld}
    (hforeign : RecordedByEngine outside) (hrun : NodeRun x asJson outside .empty history w) :
    ∀ later event earlier i kind eventId relay json, history = later ++ event :: earlier →
      Notifies i kind eventId relay json event earlier →
        ∃ newer stored older j, earlier = newer ++ stored :: older ∧
          StoresFor j kind eventId json stored ∧ TellsTruth x asJson older j kind eventId json := by
  rintro later event earlier i kind eventId relay json rfl hnotifies
  obtain ⟨hpast, -, -⟩ := hrun.split
  obtain ⟨newer, held, older, rfl, hholds⟩ := hnotifies.stored hpast
  obtain ⟨hbefore, hstep, -⟩ := hpast.split
  obtain ⟨recent, stored, oldest, call, hsplit, hcall, hstores⟩ :=
    holdsEvent_stored (hbefore.tail hstep) hholds
  have hplace : newer ++ held :: older = (newer ++ recent) ++ stored :: oldest := by
    rw [List.append_assoc, ← hsplit]
  obtain ⟨op, reply⟩ := call
  rw [hplace] at hpast
  obtain ⟨horigin, hstored, -⟩ := hpast.split
  have hnotifying := StoresEvent.notifying hstores
  cases hact : stored.label with
  | spawn job =>
    rw [hact] at hcall
    cases hcall
  | crash k =>
    rw [hact] at hcall
    cases hcall
  | outside host =>
    rw [hact] at hcall hstored
    obtain rfl := hostLedgerCall_eq_some hcall
    generalize stored.after = after at hstored
    cases hstored with
    | outside hout _ => exact absurd hnotifying (hforeign _ _ hout).1
  | act j host =>
    rw [hact] at hcall
    obtain rfl := hostLedgerCall_eq_some hcall
    obtain ⟨t, -, hguard⟩ := guard_of_nodeAct hpast hact
    have hcomposed : ∃ scope, Composed x asJson (actsOf j oldest) scope kind eventId json := by
      cases hjob : t.job with
      | engine job =>
        rw [hjob] at hguard
        exact absurd hnotifying hguard.1
      | pass scope =>
        rw [hjob] at hguard
        refine ⟨scope, ?_⟩
        cases kind with
        | sent =>
          obtain rfl : op = _ := hstores
          exact hguard
        | invoice =>
          obtain ⟨time, rfl⟩ := hstores
          exact hguard
    obtain ⟨scope, hcomposed⟩ := hcomposed
    exact ⟨newer ++ recent, stored, oldest, j, hplace, ⟨op, reply, hact, hstores⟩,
      hcomposed.tellsTruth hforeign horigin⟩

namespace Sample

/-- An execution pays an invoice, and a pass publishes the notification. -/
def notifiedPayment : List NodeMove :=
  List.replicate 12 (NodeMove.act 1 (notifyingScript 1)) ++ NodeMove.spawn (.pass .all) ::
    (List.replicate 35 (NodeMove.act 0 (payingScript 1010 1)) ++
      [NodeMove.spawn (.engine firstWake),
       NodeMove.outside (.registry (.insertConnection connection 1000)) (script 1000 0)])

/-- Ledger calls that neither record nor notify. -/
def unrecorded (call : HostCall) : Prop :=
  call.op.activity ≠ .notifying ∧ call.op.activity ≠ .recording

theorem notifiedPayment_outside {op : LedgerOp} {host : HostScript}
    (h : .outside op host ∈ notifiedPayment) (reply : op.Reply) : unrecorded ⟨.ledger op, reply⟩ := by
  simp only [notifiedPayment, List.mem_append, List.mem_cons, List.mem_replicate, List.not_mem_nil,
    NodeMove.outside.injEq, reduceCtorEq, and_false, or_false, false_or] at h
  obtain ⟨rfl, -⟩ := h
  constructor
  · intro hactivity
    cases hactivity
  · intro hactivity
    cases hactivity

end Sample

theorem notifications_are_truthful_paid : ∃ event earlier kind eventId relay,
    (Sample.passesOver Sample.notifiedPayment).1 = event :: earlier ∧
      Notifies 1 kind eventId relay (Sample.notificationEventJson 1) event earlier ∧
        ∃ newer stored older j, earlier = newer ++ stored :: older ∧
          StoresFor j kind eventId (Sample.notificationEventJson 1) stored ∧
            TellsTruth Sample.notificationCrates (fun _ => Sample.owedNotificationText) older j kind
              eventId (Sample.notificationEventJson 1) := by
  have hchecked : Sample.endsPublishing 1 1 (Sample.passesOver Sample.notifiedPayment).1 = true := by
    decide +kernel
  have hrun : NodeRun Sample.notificationCrates (fun _ => Sample.owedNotificationText)
      Sample.unrecorded .empty (Sample.passesOver Sample.notifiedPayment).1
      (Sample.passesOver Sample.notifiedPayment).2 :=
    nodePlay_run fun _ _ hop => Sample.notifiedPayment_outside hop
  have htruthful := notifications_are_truthful (fun _ _ h => h) hrun
  cases hhistory : (Sample.passesOver Sample.notifiedPayment).1 with
  | nil =>
    rw [hhistory] at hchecked
    cases hchecked
  | cons event earlier =>
    rw [hhistory] at hchecked hrun htruthful
    have hnewest : NodeRun Sample.notificationCrates (fun _ => Sample.owedNotificationText)
        Sample.unrecorded .empty ([] ++ event :: earlier)
        (Sample.passesOver Sample.notifiedPayment).2 := hrun
    obtain ⟨relay, context, reply, t, hlabel, hthread, hjob⟩ :=
      Sample.publishesAs_publication hchecked
    obtain ⟨kind, eventId, hnotifies⟩ :=
      notifies_of_publication hnewest hlabel hthread hjob
    exact ⟨event, earlier, kind, eventId, relay, rfl, hnotifies,
      htruthful [] event earlier 1 kind eventId relay _ rfl hnotifies⟩

end NwcMobile
