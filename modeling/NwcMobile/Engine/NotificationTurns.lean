import NwcMobile.Engine.NotificationDelivery

/-!
What one turn of the notification worker does: which calls it makes for a record,
what becomes of the record, and how the turn is counted.
-/

namespace NwcMobile

open Program Fallible Relational Notifications InvoiceNotificationWorker

/-- The connection of a record is active at the revision the record was made under. -/
def RecordActive (x : Crates) (l : Ledger) (connectionId : ConnectionId)
    (revision : ConnectionRevision) : Prop :=
  ∃ connection, l.loadActiveConnection x connectionId = .ok (some connection) ∧
    connection.revision = revision

theorem Alone.recordConnection {β : Type} {x : Crates} {l l' : Ledger} {calls : List HostCall}
    {connectionId : ConnectionId} {revision : ConnectionRevision}
    {next : Option ActiveConnection → HostProg (Except InvoiceNotificationError β)}
    {result : Except InvoiceNotificationError β}
    (h : Alone x l (recordConnection connectionId revision next) calls result l') :
    (result = .error .ledger ∧ Faulted calls ∧ Quiet calls ∧ l' = l) ∨
      ∃ first connection rest, calls = first ++ rest ∧ Quiet first ∧
        Alone x l (next connection) rest result l' ∧
        ((connection = none ∧ ¬ RecordActive x l connectionId revision) ∨
          ∃ active, connection = some active ∧ active.revision = revision ∧
            l.loadActiveConnection x connectionId = .ok (some active)) := by
  have hload : LedgerCommits x (registry (.loadActiveConnection connectionId)) fun l found l' =>
      l.loadActiveConnection x connectionId = .ok found ∧ l' = l := by
    apply (ledgerCommits_call x (.registry (.loadActiveConnection connectionId))).mono
    rintro l found l' ⟨random, hrun⟩
    exact reading_eq_ok.mp hrun
  obtain hfault | ⟨first, found, middle, rest, rfl, hquiet, ⟨hfound, rfl⟩, hrest⟩ :=
    Alone.orFail hload h
  · exact Or.inl hfault
  · refine Or.inr ⟨first, _, rest, rfl, hquiet, hrest, ?_⟩
    cases found with
    | none =>
      refine Or.inl ⟨rfl, ?_⟩
      rintro ⟨connection, hsome, -⟩
      rw [hfound] at hsome
      cases hsome
    | some active =>
      by_cases hrevision : active.revision = revision
      · exact Or.inr ⟨active, by simp [hrevision], hrevision, hfound⟩
      · refine Or.inl ⟨by simp [hrevision], ?_⟩
        rintro ⟨connection, hsome, hsame⟩
        rw [hfound] at hsome
        cases hsome
        exact hrevision hsame

theorem alone_secret {β : Type} {x : Crates} {l l' : Ledger} {calls : List HostCall}
    {connectionId : ConnectionId} {context : OperationContext}
    {next : NwcSecretKey → HostProg (Except InvoiceNotificationError β)}
    {result : Except InvoiceNotificationError β}
    (h : Alone x l (orFail .secret (ask (.loadNwcSecret connectionId context)) next) calls
      result l') :
    (∃ error : HostError, calls = [⟨.loadNwcSecret connectionId context, .error error⟩] ∧
        result = .error .secret ∧ l' = l) ∨
      ∃ secret rest, calls = ⟨.loadNwcSecret connectionId context, .ok secret⟩ :: rest ∧
        Alone x l (next secret) rest result l' := by
  obtain ⟨reply, rest, rfl, hrest⟩ := Alone.host (.loadNwcSecret connectionId context) (by simp) h
  cases reply with
  | error error =>
    obtain ⟨rfl, rfl, rfl⟩ := exec_done.mp hrest
    exact Or.inl ⟨error, rfl, rfl, rfl⟩
  | ok secret => exact Or.inr ⟨secret, rest, rfl, hrest⟩

section Payments

variable {x : Crates} {asJson : Nip47.Notification → String} {l l' : Ledger}
  {calls : List HostCall} {payment : TrackedNwcPayment} {connection : ActiveConnection}
  {r : SentPaymentRow} {report : InvoiceNotificationWorkerReport}

/-- The signing secret of a payment's connection is unavailable, or no event can be built
with it. -/
def SentSecretFails (x : Crates) (asJson : Nip47.Notification → String)
    (connection : ActiveConnection) (payment : TrackedNwcPayment) (calls : List HostCall) : Prop :=
  ∃ context reply, (⟨.loadNwcSecret connection.id context, reply⟩ : HostCall) ∈ calls ∧
    ∀ secret, reply = .ok secret → ∃ nonce error,
      (⟨.nonce, nonce⟩ : HostCall) ∈ calls ∧
        buildPaymentSentNotificationEvent x asJson connection secret payment nonce = .error error

theorem SentSecretFails.mono {calls' : List HostCall}
    (h : SentSecretFails x asJson connection payment calls) (hsub : calls ⊆ calls') :
    SentSecretFails x asJson connection payment calls' := by
  obtain ⟨context, reply, hmem, hbuild⟩ := h
  refine ⟨context, reply, hsub hmem, ?_⟩
  intro secret hsecret
  obtain ⟨nonce, error, hnonce, herror⟩ := hbuild secret hsecret
  exact ⟨nonce, error, hsub hnonce, herror⟩

/-- The event of a payment: stored, built and stored now, or why there is none. -/
inductive SentEvent (x : Crates) (asJson : Nip47.Notification → String)
    (connection : ActiveConnection) (payment : TrackedNwcPayment) (r : SentPaymentRow)
    (calls : List HostCall) :
    Except InvoiceNotificationError (Option String) → Option SentPaymentRow → Prop
  | failed {error} (cause : Faulted calls ∨ (payment.notificationEventJson = none ∧
      SentSecretFails x asJson connection payment calls)) :
      SentEvent x asJson connection payment r calls (.error error) (some r)
  | interrupted (cause : Interrupted calls) :
      SentEvent x asJson connection payment r calls (.ok none) (some r)
  | ready {event} (calm : NotCancelled calls) :
      SentEvent x asJson connection payment r calls (.ok (some event))
        (some { r with notificationEventJson := some event })

theorem alone_sentEvent {result : Except InvoiceNotificationError (Option String)}
    (hr : l.sentOf payment.requestEventId = some r)
    (hstored : payment.notificationEventJson = r.notificationEventJson)
    (h : Alone x l (sentEvent x asJson connection payment) calls result l') :
    SentFrame payment.requestEventId l l' ∧ l'.sentPaymentRelays = l.sentPaymentRelays ∧
      lookupAnswers calls = [] ∧ SentEvent x asJson connection payment r calls result
        (l'.sentOf payment.requestEventId) := by
  unfold sentEvent at h
  cases hevent : payment.notificationEventJson with
  | some event =>
    simp only [hevent] at h
    obtain ⟨rfl, rfl, rfl⟩ := exec_done.mp h
    refine ⟨.refl _ _, rfl, rfl, ?_⟩
    have hsame : r = { r with notificationEventJson := some event } := by
      rw [← hevent, hstored]
    rw [hr, hsame]
    exact .ready notCancelled_nil
  | none =>
    simp only [hevent] at h
    obtain ⟨looks, granted, middle, more, rfl, hlooks, hmore⟩ := exec_bind.mp h
    obtain ⟨rfl, hnothing, hnone, hsome⟩ := asksForTime_deadlineContext _ _ _ _ _ hlooks
    cases granted with
    | none =>
      obtain ⟨rfl, rfl, rfl⟩ := exec_done.mp hmore
      rw [List.append_nil, hr]
      exact ⟨.refl _ _, rfl, hnothing, .interrupted (hnone rfl)⟩
    | some granted =>
      have hcalm := hsome nofun
      obtain ⟨error, rfl, rfl, rfl⟩ | ⟨secret, unlocked, rfl, hunlocked⟩ := alone_secret hmore
      · refine ⟨.refl _ _, rfl, ?_, ?_⟩
        · rw [lookupAnswers_append, hnothing]
          rfl
        · rw [hr]
          exact .failed (Or.inr ⟨hevent, granted, .error error, by simp, nofun⟩)
      · obtain ⟨nonce, built, rfl, hbuilt⟩ := Alone.host .nonce (by simp) hunlocked
        have hquiet : Quiet (looks ++ [⟨.loadNwcSecret connection.id granted, .ok secret⟩,
            ⟨.nonce, nonce⟩]) := by
          constructor
          · rw [lookupAnswers_append, hnothing]
            rfl
          · simp [hcalm]
        cases hproposed : buildPaymentSentNotificationEvent x asJson connection secret payment
            nonce with
        | error error =>
          simp only [hproposed] at hbuilt
          obtain ⟨rfl, rfl, rfl⟩ := exec_done.mp hbuilt
          refine ⟨.refl _ _, rfl, hquiet.1, ?_⟩
          rw [hr]
          refine .failed (Or.inr ⟨hevent, granted, .ok secret, by simp, ?_⟩)
          intro _ hsecret
          cases hsecret
          exact ⟨nonce, error, by simp, hproposed⟩
        | ok proposed =>
          simp only [hproposed] at hbuilt
          obtain ⟨rfl, hfault, hwritten, rfl⟩ |
            ⟨first, event, middle, left, rfl, hwritten, hstore, hdone⟩ :=
            Alone.orFail (ledgerCommits_notifications x _) hbuilt
          · have hall := hquiet.append hwritten
            refine ⟨.refl _ _, rfl, by simpa using hall.1, ?_⟩
            rw [hr]
            exact .failed (Or.inl (hfault.mono fun call hcall => by simp [hcall]))
          · obtain ⟨rfl, rfl, rfl⟩ := exec_done.mp hdone
            have hall := hquiet.append hwritten
            obtain ⟨hframe, hrelays, row, hrow, -, hnow⟩ := storeNwcSentNotificationEvent_ok hstore
            rw [hr] at hrow
            cases hrow
            refine ⟨hframe, hrelays, by simpa using hall.1, ?_⟩
            rw [hnow]
            exact .ready (by simpa using hall.2)

/-- Reaching relays of a payment touches nothing else. -/
theorem RelaysReached.sentFrame {eventId : EventId} {reached : Set String}
    (h : RelaysReached sentRelays eventId reached l l') : SentFrame eventId l l' where
  rest := by
    rw [h.rest]
    rfl
  rows := by
    intro other _
    rw [h.rest]
    rfl
  owed := h.other

theorem acknowledgeSent_reaches (x : Crates) (eventId : EventId) (relay : SecureRelayUrl)
    (now : UnixTimestamp) :
    LedgerCommits x (notifications (.acknowledgeNwcSentRelay eventId relay now)) fun l _ l' =>
      RelaysReached sentRelays eventId {relay.value} l l' := by
  apply (ledgerCommits_notifications x _).mono
  intro l _ l' hrun
  obtain ⟨hack, hrest⟩ := acknowledgeNwcSentRelay_ok hrun
  obtain ⟨hown, hother⟩ := acknowledgeRelay_ok hack
  exact ⟨hrest, hown, hother⟩

/-- What becomes of a payment in its turn, and the row that is left of it. -/
inductive SentFate (x : Crates) (asJson : Nip47.Notification → String) (l : Ledger)
    (payment : TrackedNwcPayment) (report : InvoiceNotificationWorkerReport)
    (calls : List HostCall) :
    Except InvoiceNotificationError (ForInStep InvoiceNotificationWorkerReport) →
      Option SentPaymentRow → Prop
  | failed {error row} (cause : Faulted calls ∨ (payment.notificationEventJson = none ∧
      ∃ connection, l.loadActiveConnection x payment.connectionId = .ok (some connection) ∧
        SentSecretFails x asJson connection payment calls)) (pending : row.completedAt = none) :
      SentFate x asJson l payment report calls (.error error) (some row)
  | interrupted {row} (cause : Interrupted calls) (pending : row.completedAt = none) :
      SentFate x asJson l payment report calls
        (.ok (.done { report with retryable := report.retryable + 1 })) (some row)
  | retried {row event} (cause : Interrupted calls ∨
        RelayRefuses (owedRelays x l.sentPaymentRelays payment.requestEventId) event calls)
      (event : row.notificationEventJson = some event) (pending : row.completedAt = none) :
      SentFate x asJson l payment report calls
        (.ok (.yield { report with retryable := report.retryable + 1 })) (some row)
  | expired (calm : NotCancelled calls)
      (inactive : ¬ RecordActive x l payment.connectionId payment.connectionRevision) :
      SentFate x asJson l payment report calls
        (.ok (.yield { report with expired := report.expired + 1 })) none
  | delivered {row} (calm : NotCancelled calls)
      (active : RecordActive x l payment.connectionId payment.connectionRevision)
      (complete : row.completedAt ≠ none ↔
        Acknowledgeable x l.sentPaymentRelays payment.requestEventId) :
      SentFate x asJson l payment report calls
        (.ok (.yield { report with delivered := report.delivered + 1 })) (some row)

/-- A turn writes no other column of a payment. -/
def SentProgress (r r' : SentPaymentRow) : Prop :=
  r' = { r with
    notificationEventJson := r'.notificationEventJson, completedAt := r'.completedAt }

/-- One turn of the payment loop. -/
structure SentTurn (x : Crates) (asJson : Nip47.Notification → String) (l : Ledger)
    (payment : TrackedNwcPayment) (r : SentPaymentRow) (report : InvoiceNotificationWorkerReport)
    (calls : List HostCall)
    (result : Except InvoiceNotificationError (ForInStep InvoiceNotificationWorkerReport))
    (l' : Ledger) : Prop where
  frame : SentFrame payment.requestEventId l l'
  lookups : lookupAnswers calls = []
  row : ∀ r', l'.sentOf payment.requestEventId = some r' → SentProgress r r'
  fate : SentFate x asJson l payment report calls result (l'.sentOf payment.requestEventId)

theorem alone_processPayment
    {result : Except InvoiceNotificationError (ForInStep InvoiceNotificationWorkerReport)}
    (hr : l.sentOf payment.requestEventId = some r) (hpending : r.completedAt = none)
    (hstored : payment.notificationEventJson = r.notificationEventJson)
    (h : Alone x l (processPayment x asJson payment report) calls result l') :
    SentTurn x asJson l payment r report calls result l' := by
  have hunchanged : ∀ r', l.sentOf payment.requestEventId = some r' → SentProgress r r' := by
    intro r' hr'
    rw [hr] at hr'
    cases hr'
    rfl
  obtain ⟨rfl, hfault, hquiet, rfl⟩ | ⟨first, found, rest, rfl, hfirst, hrest, hfound⟩ :=
    Alone.recordConnection h
  · refine ⟨.refl _ _, hquiet.1, hunchanged, ?_⟩
    rw [hr]
    exact .failed (Or.inl hfault) hpending
  obtain ⟨rfl, hinactive⟩ | ⟨connection, rfl, hrevision, hactive⟩ := hfound
  · obtain ⟨rfl, hfault, hquiet, rfl⟩ | ⟨asked, _, middle, left, rfl, hquiet, hdiscard, hdone⟩ :=
      Alone.orFail (ledgerCommits_notifications x _) hrest
    · refine ⟨.refl _ _, (hfirst.append hquiet).1, hunchanged, ?_⟩
      rw [hr]
      exact .failed (Or.inl (hfault.mono (List.subset_append_right _ _))) hpending
    · obtain ⟨rfl, rfl, rfl⟩ := exec_done.mp hdone
      obtain ⟨hframe, hgone⟩ := discardNwcSentPayment_ok hdiscard
      have hall := hfirst.append hquiet
      rw [List.append_nil]
      refine ⟨hframe, hall.1, ?_, ?_⟩
      · intro r' hr'
        rw [hgone] at hr'
        cases hr'
      · rw [hgone]
        exact .expired hall.2 hinactive
  obtain ⟨preparing, event, middle, later, rfl, hpreparing, hlater⟩ := exec_bind.mp hrest
  obtain ⟨hframe, hrelays, hlookup, hevent⟩ := alone_sentEvent hr hstored hpreparing
  have hprepared : ∀ r', middle.sentOf payment.requestEventId = some r' → SentProgress r r' := by
    intro r' hr'
    rw [hr'] at hevent
    cases hevent <;> rfl
  have hsub : preparing ⊆ first ++ (preparing ++ later) :=
    fun call hcall => by simp [hcall]
  generalize hnow : middle.sentOf payment.requestEventId = now at hevent
  cases hevent with
  | failed cause =>
    obtain ⟨rfl, rfl, rfl⟩ := exec_done.mp hlater
    refine ⟨hframe, by simp [hfirst.1, hlookup], hprepared, ?_⟩
    rw [hnow]
    refine .failed ?_ hpending
    rcases cause with hfault | ⟨hnone, hsecret⟩
    · exact Or.inl (hfault.mono hsub)
    · exact Or.inr ⟨hnone, connection, hactive, hsecret.mono hsub⟩
  | interrupted cause =>
    obtain ⟨rfl, rfl, rfl⟩ := exec_done.mp hlater
    refine ⟨hframe, by simp [hfirst.1, hlookup], hprepared, ?_⟩
    rw [hnow]
    exact .interrupted (cause.mono hsub) hpending
  | @ready event calm =>
    obtain ⟨delivering, delivered, final, left, rfl, hdelivering, hdone⟩ := exec_bind.mp hlater
    obtain ⟨rfl, rfl, rfl⟩ := exec_done.mp hdone
    have hundelivered : LedgerCommits x (notifications (.undeliveredNwcSentRelays payment.requestEventId))
        fun l relays l' => undeliveredRelays x (sentRelays.view l) payment.requestEventId =
          .ok relays ∧ l' = l := by
      apply (ledgerCommits_notifications x _).mono
      intro l relays l' hrun
      exact reading_eq_ok.mp hrun
    obtain ⟨hasked, hdelivery⟩ := alone_deliver hundelivered asksForTime_deadlineContext
      (acknowledgeSent_reaches x payment.requestEventId)
      (fun now => ledgerCommits_notifications x (.completeNwcSentNotification payment.requestEventId now))
      hdelivering
    have hview : sentRelays.view middle = l.sentPaymentRelays := hrelays
    have hsubLater : delivering ⊆ first ++ (preparing ++ (delivering ++ [])) :=
      fun call hcall => by simp [hcall]
    have hlookups : lookupAnswers (first ++ (preparing ++ (delivering ++ []))) = [] := by
      simp [hfirst.1, hlookup, hasked]
    -- Until the record is retired its row is the one the event was stored in.
    have hkept : ∀ {reached l'}, RelaysReached sentRelays payment.requestEventId reached middle l' →
        l'.sentOf payment.requestEventId = some { r with notificationEventJson := some event } := by
      intro reached l' hreached
      rw [hreached.rest, ← hnow]
      rfl
    cases hdelivery with
    | faulted hreached fault =>
      refine ⟨hframe.trans hreached.sentFrame, hlookups, ?_, ?_⟩
      · intro r' hr'
        rw [hkept hreached] at hr'
        cases hr'
        rfl
      · rw [hkept hreached]
        exact .failed (Or.inl (fault.mono hsubLater)) hpending
    | retried hreached cause =>
      refine ⟨hframe.trans hreached.sentFrame, hlookups, ?_, ?_⟩
      · intro r' hr'
        rw [hkept hreached] at hr'
        cases hr'
        rfl
      · rw [hkept hreached]
        refine .retried ?_ rfl hpending
        rw [hview] at cause
        rcases cause with hinterrupted | hrefused
        · exact Or.inl (hinterrupted.mono hsubLater)
        · exact Or.inr (hrefused.mono (subset_refl _) hsubLater)
    | delivered hreached hcalm hcomplete hretired =>
      obtain ⟨now, hretired⟩ := hretired
      obtain ⟨hlast, hrow⟩ := completeNwcSentNotification_ok hretired
      obtain ⟨row, hrow, hdone, hsame⟩ := hrow (hkept hreached)
      refine ⟨(hframe.trans hreached.sentFrame).trans hlast, hlookups, ?_, ?_⟩
      · intro r' hr'
        rw [hrow] at hr'
        cases hr'
        rw [hsame]
        rfl
      · rw [hrow]
        refine .delivered (by simp [hfirst.2, calm, hcalm])
          ⟨connection, hactive, hrevision⟩ ?_
        rw [← hview, ← hcomplete]
        exact hdone rfl hpending

end Payments

section Invoices

variable {x : Crates} {asJson : Nip47.Notification → String} {l l' : Ledger}
  {calls first later : List HostCall} {invoice : TrackedNwcInvoice} {r : CreatedInvoiceRow}
  {report : InvoiceNotificationWorkerReport} {active acknowledgeable : Prop}
  {answers : List (PaymentHash × Except HostError (Option WalletTransaction))}
  {result : Except InvoiceNotificationError InvoiceNotificationWorkerReport}

theorem RelaysReached.invoiceFrame {eventId : EventId} {reached : Set String}
    (h : RelaysReached invoiceRelays eventId reached l l') : InvoiceFrame eventId l l' where
  rest := by
    rw [h.rest]
    rfl
  rows := by
    intro other _
    rw [h.rest]
    rfl
  owed := h.other

theorem acknowledgeInvoice_reaches (x : Crates) (eventId : EventId) (relay : SecureRelayUrl)
    (now : UnixTimestamp) :
    LedgerCommits x (notifications (.acknowledgeNwcInvoiceRelay eventId relay now)) fun l _ l' =>
      RelaysReached invoiceRelays eventId {relay.value} l l' := by
  apply (ledgerCommits_notifications x _).mono
  intro l _ l' hrun
  obtain ⟨hack, hrest⟩ := acknowledgeNwcInvoiceRelay_ok hrun
  obtain ⟨hown, hother⟩ := acknowledgeRelay_ok hack
  exact ⟨hrest, hown, hother⟩

/-- The wallet reports the invoice as paid. -/
def Paid (answer : Option WalletTransaction) : Prop :=
  ∃ transaction preimage amount fee, answer = some transaction ∧
    transaction.status = .succeeded preimage amount fee

/-- What becomes of an invoice in its turn, and the row that is left of it. -/
inductive InvoiceFate (active acknowledgeable : Prop) (invoice : TrackedNwcInvoice)
    (answers : List (PaymentHash × Except HostError (Option WalletTransaction)))
    (report : InvoiceNotificationWorkerReport) (calls : List HostCall) :
    Except InvoiceNotificationError InvoiceNotificationWorkerReport →
      Option CreatedInvoiceRow → Prop
  | failed {error row} :
      InvoiceFate active acknowledgeable invoice answers report calls (.error error) row
  | retried {row} (pending : row.completedAt = none) :
      InvoiceFate active acknowledgeable invoice answers report calls
        (.ok { report with retryable := report.retryable + 1 }) (some row)
  | deferred {row} (pending : row.completedAt = none) :
      InvoiceFate active acknowledgeable invoice answers report calls
        (.ok { report with pending := report.pending + 1 }) (some row)
  | expired (calm : NotCancelled calls) (fresh : invoice.notificationEventJson = none)
      (cause : ¬ active ∨ ∃ answer, answers = [(invoice.paymentHash, .ok answer)] ∧ ¬ Paid answer) :
      InvoiceFate active acknowledgeable invoice answers report calls
        (.ok { report with expired := report.expired + 1 }) none
  | delivered {row} (calm : NotCancelled calls)
      (settled : invoice.notificationEventJson ≠ none ∨ (active ∧
        ∃ answer, answers = [(invoice.paymentHash, .ok answer)] ∧ Paid answer))
      (complete : row.completedAt ≠ none ↔ acknowledgeable) :
      InvoiceFate active acknowledgeable invoice answers report calls
        (.ok { report with delivered := report.delivered + 1 }) (some row)

theorem InvoiceFate.prepend {row : Option CreatedInvoiceRow} (hfirst : NotCancelled first)
    (h : InvoiceFate active acknowledgeable invoice answers report later result row) :
    InvoiceFate active acknowledgeable invoice answers report (first ++ later) result row := by
  cases h with
  | failed => exact .failed
  | retried pending => exact .retried pending
  | deferred pending => exact .deferred pending
  | expired calm fresh cause => exact .expired (notCancelled_append.mpr ⟨hfirst, calm⟩) fresh cause
  | delivered calm settled complete =>
    exact .delivered (notCancelled_append.mpr ⟨hfirst, calm⟩) settled complete

/-- A turn writes no other column of an invoice, once it is touched. -/
def InvoiceProgress (r r' : CreatedInvoiceRow) : Prop :=
  r' = { r with
    notificationEventJson := r'.notificationEventJson
    notificationCreatedAt := r'.notificationCreatedAt, completedAt := r'.completedAt }

/-- A part of the turn of an invoice whose row is `r`. -/
structure InvoiceWork (x : Crates) (l : Ledger) (invoice : TrackedNwcInvoice)
    (answers : List (PaymentHash × Except HostError (Option WalletTransaction)))
    (r : CreatedInvoiceRow) (report : InvoiceNotificationWorkerReport) (calls : List HostCall)
    (result : Except InvoiceNotificationError InvoiceNotificationWorkerReport) (l' : Ledger) :
    Prop where
  frame : InvoiceFrame invoice.requestEventId l l'
  row : ∀ r', l'.invoiceOf invoice.requestEventId = some r' → InvoiceProgress r r'
  fate : InvoiceFate (RecordActive x l invoice.connectionId invoice.connectionRevision)
    (Acknowledgeable x l.invoiceNotificationRelays invoice.requestEventId) invoice answers report
    calls result (l'.invoiceOf invoice.requestEventId)

/-- Work that leaves the ledger alone. -/
theorem invoiceWork_unchanged (hr : l.invoiceOf invoice.requestEventId = some r)
    (hfate : InvoiceFate (RecordActive x l invoice.connectionId invoice.connectionRevision)
      (Acknowledgeable x l.invoiceNotificationRelays invoice.requestEventId) invoice answers report
      calls result (some r)) :
    InvoiceWork x l invoice answers r report calls result l where
  frame := .refl _ _
  row := by
    intro r' hr'
    rw [hr] at hr'
    cases hr'
    rfl
  fate := by
    rw [hr]
    exact hfate

theorem alone_deliverInvoice {eventJson : String}
    (hr : l.invoiceOf invoice.requestEventId = some r) (hpending : r.completedAt = none)
    (hevent : r.notificationEventJson = some eventJson)
    (hsettled : invoice.notificationEventJson ≠ none ∨
      (RecordActive x l invoice.connectionId invoice.connectionRevision ∧
        ∃ answer, answers = [(invoice.paymentHash, .ok answer)] ∧ Paid answer))
    (h : Alone x l (deliverInvoice invoice.requestEventId eventJson report) calls result l') :
    lookupAnswers calls = [] ∧ InvoiceWork x l invoice answers r report calls result l' := by
  have hundelivered : LedgerCommits x
      (notifications (.undeliveredNwcInvoiceRelays invoice.requestEventId)) fun l relays l' =>
        undeliveredRelays x (invoiceRelays.view l) invoice.requestEventId = .ok relays ∧ l' = l := by
    apply (ledgerCommits_notifications x _).mono
    intro l relays l' hrun
    exact reading_eq_ok.mp hrun
  obtain ⟨hasked, hdelivery⟩ := alone_deliver hundelivered asksForTime_cancellableContext
    (acknowledgeInvoice_reaches x invoice.requestEventId)
    (fun now => ledgerCommits_notifications x
      (.completeNwcInvoiceNotification invoice.requestEventId now)) h
  refine ⟨hasked, ?_⟩
  have hkept : ∀ {reached l'},
      RelaysReached invoiceRelays invoice.requestEventId reached l l' →
        l'.invoiceOf invoice.requestEventId = some r := by
    intro reached l' hreached
    rw [hreached.rest, ← hr]
    rfl
  cases hdelivery with
  | faulted hreached fault =>
    refine ⟨hreached.invoiceFrame, ?_, .failed⟩
    intro r' hr'
    rw [hkept hreached] at hr'
    cases hr'
    rfl
  | retried hreached cause =>
    refine ⟨hreached.invoiceFrame, ?_, ?_⟩
    · intro r' hr'
      rw [hkept hreached] at hr'
      cases hr'
      rfl
    · rw [hkept hreached]
      exact .retried hpending
  | delivered hreached hcalm hcomplete hretired =>
    obtain ⟨now, hretired⟩ := hretired
    obtain ⟨hlast, hrow⟩ := completeNwcInvoiceNotification_ok hretired
    obtain ⟨row, hrow, hdone, hsame⟩ := hrow (hkept hreached)
    refine ⟨hreached.invoiceFrame.trans hlast, ?_, ?_⟩
    · intro r' hr'
      rw [hrow] at hr'
      cases hr'
      rw [hsame]
      rfl
    · rw [hrow]
      refine .delivered hcalm hsettled ?_
      have hends := hdone (by simp [hevent]) hpending
      exact hends.trans hcomplete

theorem InvoiceWork.prepend (hfirst : NotCancelled first)
    (h : InvoiceWork x l invoice answers r report later result l') :
    InvoiceWork x l invoice answers r report (first ++ later) result l' :=
  ⟨h.frame, h.row, h.fate.prepend hfirst⟩

theorem alone_expireInvoice {time : UnixTimestamp}
    (hr : l.invoiceOf invoice.requestEventId = some r) (hfresh : r.notificationEventJson = none)
    (hstored : invoice.notificationEventJson = r.notificationEventJson)
    (hcause : ¬ RecordActive x l invoice.connectionId invoice.connectionRevision ∨
      ∃ answer, answers = [(invoice.paymentHash, .ok answer)] ∧ ¬ Paid answer)
    (h : Alone x l (orFail .ledger (notifications (.expireNwcInvoice invoice.requestEventId time))
      fun _ => Program.Prog.done (.ok { report with expired := report.expired + 1 })) calls
      result l') :
    lookupAnswers calls = [] ∧ InvoiceWork x l invoice answers r report calls result l' := by
  obtain ⟨rfl, hfault, hquiet, rfl⟩ | ⟨first, _, middle, left, rfl, hquiet, hexpire, hdone⟩ :=
    Alone.orFail (ledgerCommits_notifications x _) h
  · exact ⟨hquiet.1, invoiceWork_unchanged hr .failed⟩
  · obtain ⟨rfl, rfl, rfl⟩ := exec_done.mp hdone
    obtain ⟨hframe, hgone⟩ := expireNwcInvoice_ok time hexpire
    have hnone := hgone hr hfresh
    rw [List.append_nil]
    refine ⟨hquiet.1, hframe, ?_, ?_⟩
    · intro r' hr'
      rw [hnone] at hr'
      cases hr'
    · rw [hnone]
      exact .expired hquiet.2 (hstored.trans hfresh) hcause

theorem alone_deferOrExpireInvoice (hr : l.invoiceOf invoice.requestEventId = some r)
    (hpending : r.completedAt = none) (hfresh : r.notificationEventJson = none)
    (hstored : invoice.notificationEventJson = r.notificationEventJson)
    (hcause : ∃ answer, answers = [(invoice.paymentHash, .ok answer)] ∧ ¬ Paid answer)
    (h : Alone x l (deferOrExpireInvoice invoice report) calls result l') :
    lookupAnswers calls = [] ∧ InvoiceWork x l invoice answers r report calls result l' := by
  obtain ⟨now, rest, rfl, hrest⟩ := Alone.host .clockNow (by simp) h
  split at hrest
  · obtain ⟨time, asked, rfl, hasked⟩ := Alone.host .clockNow (by simp) hrest
    obtain ⟨hlookup, hwork⟩ := alone_expireInvoice hr hfresh hstored (Or.inr hcause) hasked
    have hclock : NotCancelled [⟨.clockNow, now⟩, ⟨.clockNow, time⟩] := by simp
    exact ⟨hlookup, hwork.prepend hclock⟩
  · obtain ⟨rfl, rfl, rfl⟩ := exec_done.mp hrest
    exact ⟨rfl, invoiceWork_unchanged hr (.deferred hpending)⟩

theorem alone_settlementTime {transaction : WalletTransaction} {time : UnixTimestamp}
    (h : Alone x l (settlementTime transaction) calls time l') : Quiet calls ∧ l' = l := by
  unfold settlementTime at h
  cases hsettled : transaction.settledAt with
  | some settledAt =>
    simp only [hsettled] at h
    obtain ⟨rfl, rfl, rfl⟩ := exec_done.mp h
    exact ⟨quiet_nil, rfl⟩
  | none =>
    simp only [hsettled] at h
    obtain ⟨rfl, hanswer⟩ := exec_perform.mp h
    exact ⟨quiet_single rfl (by simp), hanswer.unchanged rfl⟩

/-- Work on an invoice does not change which connections are active. -/
theorem recordActive_congr {l₁ : Ledger} {eventId : EventId} (h : InvoiceFrame eventId l l₁)
    {connectionId : ConnectionId} {revision : ConnectionRevision} :
    RecordActive x l₁ connectionId revision ↔ RecordActive x l connectionId revision := by
  rw [h.rest]
  rfl

/-- Work that follows a write to the row alone. -/
theorem InvoiceWork.after {l₁ : Ledger} {r₁ : CreatedInvoiceRow}
    (h : InvoiceWork x l₁ invoice answers r₁ report calls result l')
    (hframe : InvoiceFrame invoice.requestEventId l l₁)
    (hrelays : l₁.invoiceNotificationRelays = l.invoiceNotificationRelays)
    (hrow : InvoiceProgress r r₁) :
    InvoiceWork x l invoice answers r report calls result l' where
  frame := hframe.trans h.frame
  row := by
    intro r' hr'
    have hlater := h.row r' hr'
    rw [InvoiceProgress] at hrow hlater ⊢
    rw [hlater, hrow]
  fate := by
    have hfate := h.fate
    rwa [recordActive_congr hframe, hrelays] at hfate

theorem alone_notifyReceived {transaction : WalletTransaction}
    (hr : l.invoiceOf invoice.requestEventId = some r) (hpending : r.completedAt = none)
    (hfresh : r.notificationEventJson = none)
    (hstored : invoice.notificationEventJson = r.notificationEventJson)
    (hpaid : ∃ answer, answers = [(invoice.paymentHash, .ok answer)] ∧ Paid answer)
    (h : Alone x l (notifyReceived x asJson invoice transaction report) calls result l') :
    lookupAnswers calls = [] ∧ InvoiceWork x l invoice answers r report calls result l' := by
  obtain ⟨rfl, hfault, hquiet, rfl⟩ | ⟨first, found, rest, rfl, hfirst, hrest, hfound⟩ :=
    Alone.recordConnection h
  · exact ⟨hquiet.1, invoiceWork_unchanged hr .failed⟩
  suffices hsuffices : lookupAnswers rest = [] ∧
      InvoiceWork x l invoice answers r report rest result l' by
    refine ⟨?_, hsuffices.2.prepend hfirst.2⟩
    rw [lookupAnswers_append, hfirst.1, hsuffices.1]
    rfl
  obtain ⟨rfl, hinactive⟩ | ⟨connection, rfl, hrevision, hactive⟩ := hfound
  · obtain ⟨now, asked, rfl, hasked⟩ := Alone.host .clockNow (by simp) hrest
    obtain ⟨hlookup, hwork⟩ := alone_expireInvoice hr hfresh hstored (Or.inl hinactive) hasked
    have hclock : NotCancelled [⟨.clockNow, now⟩] := by simp
    exact ⟨hlookup, hwork.prepend hclock⟩
  obtain ⟨looks, granted, middle, more, rfl, hlooks, hmore⟩ := exec_bind.mp hrest
  obtain ⟨rfl, hnothing, hnone, hsome⟩ := asksForTime_deadlineContext _ _ _ _ _ hlooks
  cases granted with
  | none =>
    obtain ⟨rfl, rfl, rfl⟩ := exec_done.mp hmore
    rw [List.append_nil]
    exact ⟨hnothing, invoiceWork_unchanged hr (.retried hpending)⟩
  | some granted =>
    have hcalm := hsome nofun
    obtain ⟨error, rfl, rfl, rfl⟩ | ⟨secret, unlocked, rfl, hunlocked⟩ := alone_secret hmore
    · refine ⟨?_, invoiceWork_unchanged hr .failed⟩
      rw [lookupAnswers_append, hnothing]
      rfl
    · obtain ⟨nonce, built, rfl, hbuilt⟩ := Alone.host .nonce (by simp) hunlocked
      have hquiet : Quiet (looks ++ [⟨.loadNwcSecret connection.id granted, .ok secret⟩,
          ⟨.nonce, nonce⟩]) := by
        constructor
        · rw [lookupAnswers_append, hnothing]
          rfl
        · simp [hcalm]
      cases hproposed : buildPaymentReceivedNotificationEvent x asJson connection secret invoice
          transaction nonce with
      | error error =>
        simp only [hproposed] at hbuilt
        obtain ⟨rfl, rfl, rfl⟩ := exec_done.mp hbuilt
        exact ⟨hquiet.1, invoiceWork_unchanged hr .failed⟩
      | ok proposed =>
        simp only [hproposed] at hbuilt
        obtain ⟨timing, createdAt, middle', stored, rfl, htiming, hstoring⟩ := exec_bind.mp hbuilt
        obtain ⟨htimed, rfl⟩ := alone_settlementTime htiming
        have hbefore := hquiet.append htimed
        obtain ⟨rfl, hfault, hwritten, rfl⟩ |
          ⟨wrote, event, next, last, rfl, hwritten, hstore, hlast⟩ :=
          Alone.orFail (ledgerCommits_notifications x _) hstoring
        · have hall := hbefore.append hwritten
          exact ⟨by simpa using hall.1, invoiceWork_unchanged hr .failed⟩
        · obtain ⟨hframe, hrelays, row, hrow, -, created, hnow⟩ :=
            storeNwcInvoiceNotificationEvent_ok hstore
          rw [hr] at hrow
          cases hrow
          have hactiveNext : RecordActive x next invoice.connectionId invoice.connectionRevision := by
            rw [recordActive_congr hframe]
            exact ⟨connection, hactive, hrevision⟩
          obtain ⟨hlookup, hwork⟩ := alone_deliverInvoice hnow (by exact hpending) rfl
            (Or.inr ⟨hactiveNext, hpaid⟩) hlast
          have hall := hbefore.append hwritten
          have hlookups : _ = [] := congrArg₂ List.append hall.1 hlookup
          refine ⟨?_, ?_⟩
          · rw [List.append_eq, ← lookupAnswers_append] at hlookups
            simpa only [List.append_assoc, List.cons_append, List.nil_append] using hlookups
          · have hdone := (hwork.after hframe hrelays rfl).prepend hall.2
            simpa only [List.append_assoc, List.cons_append, List.nil_append] using hdone

theorem alone_lookupAndNotify (hr : l.invoiceOf invoice.requestEventId = some r)
    (hpending : r.completedAt = none) (hfresh : r.notificationEventJson = none)
    (hstored : invoice.notificationEventJson = r.notificationEventJson)
    (h : Alone x l (lookupAndNotify x asJson invoice report) calls result l') :
    (lookupAnswers calls = [] ∨ ∃ reply, lookupAnswers calls = [(invoice.paymentHash, reply)]) ∧
      InvoiceWork x l invoice (lookupAnswers calls) r report calls result l' := by
  obtain ⟨looks, granted, middle, more, rfl, hlooks, hmore⟩ := exec_bind.mp h
  obtain ⟨rfl, hnothing, hnone, hsome⟩ := asksForTime_deadlineContext _ _ _ _ _ hlooks
  cases granted with
  | none =>
    obtain ⟨rfl, rfl, rfl⟩ := exec_done.mp hmore
    rw [List.append_nil]
    exact ⟨Or.inl hnothing, invoiceWork_unchanged hr (.retried hpending)⟩
  | some granted =>
    obtain ⟨reply, rest, rfl, hrest⟩ :=
      Alone.host (.wallet (.lookupInvoice (.paymentHash invoice.paymentHash)) granted) (by simp) hmore
    have hasked : NotCancelled (looks ++
        [⟨.wallet (.lookupInvoice (.paymentHash invoice.paymentHash)) granted, reply⟩]) := by
      simp [hsome nofun]
    -- Whatever follows asks the wallet nothing more.
    suffices hwork : ∀ answers, answers = [(invoice.paymentHash, reply)] →
        lookupAnswers rest = [] ∧ InvoiceWork x middle invoice answers r report rest result l' by
      obtain ⟨hlookup, hwork⟩ := hwork _ rfl
      have hwhole : lookupAnswers (looks ++
          ⟨.wallet (.lookupInvoice (.paymentHash invoice.paymentHash)) granted, reply⟩ :: rest) =
            [(invoice.paymentHash, reply)] := by
        rw [lookupAnswers_append, lookupAnswers_cons_some rfl, hnothing, hlookup]
        rfl
      rw [hwhole]
      refine ⟨Or.inr ⟨reply, rfl⟩, ?_⟩
      have hdone := hwork.prepend hasked
      simpa only [List.append_assoc, List.cons_append, List.nil_append] using hdone
    intro answers hanswers
    cases reply with
    | error error =>
      obtain ⟨rfl, rfl, rfl⟩ := exec_done.mp hrest
      exact ⟨rfl, invoiceWork_unchanged hr (.retried hpending)⟩
    | ok answer =>
      cases answer with
      | none =>
        apply alone_deferOrExpireInvoice hr hpending hfresh hstored ⟨none, hanswers, ?_⟩ hrest
        rintro ⟨transaction, preimage, amount, fee, hsome, -⟩
        cases hsome
      | some transaction =>
        have hunpaid : (∀ preimage amount fee,
            transaction.status ≠ .succeeded preimage amount fee) → ¬ Paid (some transaction) := by
          rintro hstatus ⟨_, preimage, amount, fee, hsome, hpaid⟩
          cases hsome
          exact hstatus preimage amount fee hpaid
        cases hstatus : transaction.status with
        | succeeded preimage amount fee =>
          simp only [hstatus] at hrest
          exact alone_notifyReceived hr hpending hfresh hstored
            ⟨some transaction, hanswers, transaction, preimage, amount, fee, rfl, hstatus⟩ hrest
        | unknown =>
          simp only [hstatus] at hrest
          exact alone_deferOrExpireInvoice hr hpending hfresh hstored
            ⟨some transaction, hanswers, hunpaid (by simp [hstatus])⟩ hrest
        | pending =>
          simp only [hstatus] at hrest
          exact alone_deferOrExpireInvoice hr hpending hfresh hstored
            ⟨some transaction, hanswers, hunpaid (by simp [hstatus])⟩ hrest
        | failed reason =>
          simp only [hstatus] at hrest
          exact alone_deferOrExpireInvoice hr hpending hfresh hstored
            ⟨some transaction, hanswers, hunpaid (by simp [hstatus])⟩ hrest

/-- One turn of the invoice loop: the invoice is touched, and then worked on. -/
structure InvoiceTurn (x : Crates) (l : Ledger) (invoice : TrackedNwcInvoice)
    (r : CreatedInvoiceRow) (report : InvoiceNotificationWorkerReport) (calls : List HostCall)
    (result : Except InvoiceNotificationError InvoiceNotificationWorkerReport) (l' : Ledger) :
    Prop where
  lookups : lookupAnswers calls = [] ∨ ∃ reply, lookupAnswers calls = [(invoice.paymentHash, reply)]
  touched : (Faulted calls ∧ l' = l ∧ ∃ error, result = .error error) ∨ ∃ now,
    (⟨.clockNow, now⟩ : HostCall) ∈ calls ∧
      (⟨.ledger (.record (.notification (.touchNwcInvoice invoice.requestEventId now))), .ok ()⟩ :
        HostCall) ∈ calls ∧
      InvoiceWork x l invoice (lookupAnswers calls)
        { r with lastCheckedAt := max now (r.lastCheckedAt + 1) }
        { report with inspected := report.inspected + 1 } calls result l'

theorem alone_processInvoice (hr : l.invoiceOf invoice.requestEventId = some r)
    (hpending : r.completedAt = none)
    (hstored : invoice.notificationEventJson = r.notificationEventJson)
    (h : Alone x l (processInvoice x asJson invoice report) calls result l') :
    InvoiceTurn x l invoice r report calls result l' := by
  obtain ⟨now, more, rfl, hmore⟩ := Alone.host .clockNow (by simp) h
  obtain ⟨first, reply, middle, rest, rfl, hfirst, hrest⟩ := exec_bind.mp hmore
  obtain ⟨rfl, hanswer⟩ := exec_perform.mp hfirst
  have htouching : Quiet [⟨.clockNow, now⟩, ⟨.ledger (.record (.notification
      (.touchNwcInvoice invoice.requestEventId now))), reply⟩] :=
    (quiet_single rfl (by simp)).append (quiet_single rfl (by simp))
  cases reply with
  | error error =>
    obtain ⟨rfl, rfl, rfl⟩ := exec_done.mp hrest
    refine ⟨Or.inl htouching.1, Or.inl ⟨?_, hanswer.step.eq_of_error, _, rfl⟩⟩
    exact ⟨.record (.notification (.touchNwcInvoice invoice.requestEventId now)), error, by simp⟩
  | ok value =>
    obtain ⟨random, hrun⟩ := hanswer.step.run_of_ok
    obtain ⟨hframe, hrelays, hrow⟩ := touchNwcInvoice_row (r := r) hrun
    have htouched := hrow hr hpending
    suffices hwork : (lookupAnswers rest = [] ∨
        ∃ reply, lookupAnswers rest = [(invoice.paymentHash, reply)]) ∧
        InvoiceWork x middle invoice (lookupAnswers rest)
          { r with lastCheckedAt := max now (r.lastCheckedAt + 1) }
          { report with inspected := report.inspected + 1 } rest result l' by
      have hlookups : lookupAnswers (⟨.clockNow, now⟩ :: ([⟨.ledger (.record (.notification
          (.touchNwcInvoice invoice.requestEventId now))), .ok value⟩] ++ rest)) =
            lookupAnswers rest := by
        rw [lookupAnswers_cons rfl, lookupAnswers_append]
        rfl
      refine ⟨by rw [hlookups]; exact hwork.1, Or.inr ⟨now, by simp, by simp, ?_⟩⟩
      have hsame : InvoiceProgress { r with lastCheckedAt := max now (r.lastCheckedAt + 1) }
          { r with lastCheckedAt := max now (r.lastCheckedAt + 1) } := rfl
      rw [hlookups]
      exact (hwork.2.after hframe hrelays hsame).prepend htouching.2
    cases hevent : invoice.notificationEventJson with
    | none =>
      simp only [hevent] at hrest
      exact alone_lookupAndNotify htouched hpending (hstored ▸ hevent) hstored hrest
    | some event =>
      simp only [hevent] at hrest
      obtain ⟨hlookup, hwork⟩ := alone_deliverInvoice htouched hpending (hstored ▸ hevent)
        (Or.inl (by simp [hevent])) hrest
      exact ⟨Or.inl hlookup, hwork⟩

end Invoices

end NwcMobile
