import NwcMobile.Engine.NotificationTurns
import NwcMobile.Ledger.SentQueue

/-!
The report of a notification pass. A pass that reports no pending work has settled
every record of its two batches, unless it was cancelled between two records; what
it leaves behind is what the batches left out and what an acknowledgement missed.
-/

namespace NwcMobile

open Program Fallible Relational Notifications InvoiceNotificationWorker

section Loops

variable {x : Crates} {asJson : Nip47.Notification → String} {l l' : Ledger}
  {calls : List HostCall} {payment : TrackedNwcPayment} {payments : List TrackedNwcPayment}
  {invoice : TrackedNwcInvoice} {invoices : List TrackedNwcInvoice}
  {report : InvoiceNotificationWorkerReport}
  {result : Except InvoiceNotificationError InvoiceNotificationWorkerReport}

/-- The payment loop takes one turn, or ends before it. -/
theorem alone_processPayments_cons
    (h : Alone x l (processPayments x asJson (payment :: payments) report) calls result l') :
    (calls = [⟨.isCancelled, true⟩] ∧ result = .ok report ∧ l' = l) ∨
      ∃ first step middle later, calls = ⟨.isCancelled, false⟩ :: (first ++ later) ∧
        Alone x l (processPayment x asJson payment
          { report with inspected := report.inspected + 1 }) first step middle ∧
        ((∃ report', step = .ok (.yield report') ∧
            Alone x middle (processPayments x asJson payments report') later result l') ∨
          (later = [] ∧ l' = middle ∧ ((∃ error, step = .error error ∧ result = .error error) ∨
            ∃ report', step = .ok (.done report') ∧ result = .ok report'))) := by
  obtain ⟨cancelled, rest, rfl, hrest⟩ := Alone.host .isCancelled (by simp) h
  cases cancelled with
  | true =>
    obtain ⟨rfl, rfl, rfl⟩ := exec_done.mp hrest
    exact Or.inl ⟨rfl, rfl, rfl⟩
  | false =>
    obtain ⟨first, step, middle, later, rfl, hfirst, hlater⟩ := exec_bind.mp hrest
    refine Or.inr ⟨first, step, middle, later, rfl, hfirst, ?_⟩
    cases step with
    | error error =>
      obtain ⟨rfl, rfl, rfl⟩ := exec_done.mp hlater
      exact Or.inr ⟨rfl, rfl, Or.inl ⟨error, rfl, rfl⟩⟩
    | ok step =>
      cases step with
      | done report' =>
        obtain ⟨rfl, rfl, rfl⟩ := exec_done.mp hlater
        exact Or.inr ⟨rfl, rfl, Or.inr ⟨report', rfl, rfl⟩⟩
      | yield report' => exact Or.inl ⟨report', rfl, hlater⟩

/-- The invoice loop takes one turn, or ends before it. -/
theorem alone_processInvoices_cons
    (h : Alone x l (processInvoices x asJson (invoice :: invoices) report) calls result l') :
    (calls = [⟨.isCancelled, true⟩] ∧ result = .ok report ∧ l' = l) ∨
      ∃ first step middle later, calls = ⟨.isCancelled, false⟩ :: (first ++ later) ∧
        Alone x l (processInvoice x asJson invoice report) first step middle ∧
        ((∃ report', step = .ok report' ∧
            Alone x middle (processInvoices x asJson invoices report') later result l') ∨
          (later = [] ∧ l' = middle ∧ ∃ error, step = .error error ∧ result = .error error)) := by
  obtain ⟨cancelled, rest, rfl, hrest⟩ := Alone.host .isCancelled (by simp) h
  cases cancelled with
  | true =>
    obtain ⟨rfl, rfl, rfl⟩ := exec_done.mp hrest
    exact Or.inl ⟨rfl, rfl, rfl⟩
  | false =>
    obtain ⟨first, step, middle, later, rfl, hfirst, hlater⟩ := exec_bind.mp hrest
    refine Or.inr ⟨first, step, middle, later, rfl, hfirst, ?_⟩
    cases step with
    | error error =>
      obtain ⟨rfl, rfl, rfl⟩ := exec_done.mp hlater
      exact Or.inr ⟨rfl, rfl, error, rfl, rfl⟩
    | ok report' => exact Or.inl ⟨report', rfl, hlater⟩

end Loops

section Payments

variable {x : Crates} {asJson : Nip47.Notification → String} {l l₁ l' : Ledger}
  {calls : List HostCall} {payment : TrackedNwcPayment} {payments : List TrackedNwcPayment}
  {report report' : InvoiceNotificationWorkerReport}

/-- The payment is stored as it was read, and still owes its notification. -/
def SentPending (l : Ledger) (payment : TrackedNwcPayment) : Prop :=
  ∃ r, l.sentOf payment.requestEventId = some r ∧ r.completedAt = none ∧
    decodeSentPayment r = .ok payment

/-- Only these payments and their relays differ. -/
structure SentFrames (events : List EventId) (l l' : Ledger) : Prop where
  rest : l' = { l with
    sentPayments := l'.sentPayments, sentPaymentRelays := l'.sentPaymentRelays }
  rows : ∀ other ∉ events, l'.sentOf other = l.sentOf other
  owed : ∀ other ∉ events, owed l'.sentPaymentRelays other = owed l.sentPaymentRelays other

theorem SentFrames.refl (events : List EventId) (l : Ledger) : SentFrames events l l :=
  ⟨rfl, fun _ _ => rfl, fun _ _ => rfl⟩

theorem SentFrame.cons {eventId : EventId} {events : List EventId} (h : SentFrame eventId l l₁)
    (h' : SentFrames events l₁ l') : SentFrames (eventId :: events) l l' where
  rest := by
    rw [h'.rest, h.rest]
  rows := by
    intro other hnot
    rw [List.mem_cons, not_or] at hnot
    rw [h'.rows other hnot.2, h.rows other hnot.1]
  owed := by
    intro other hnot
    rw [List.mem_cons, not_or] at hnot
    rw [h'.owed other hnot.2, h.owed other hnot.1]

theorem acknowledgeable_congr {table table' : Table notificationRelaySchema} {eventId : EventId}
    (h : owed table' eventId = owed table eventId) :
    Acknowledgeable x table' eventId ↔ Acknowledgeable x table eventId := by
  rw [Acknowledgeable, h, Acknowledgeable]

/-- Work on a payment does not change which connections are active. -/
theorem SentFrame.recordActive {eventId : EventId} (h : SentFrame eventId l l₁)
    (connectionId : ConnectionId) (revision : ConnectionRevision) :
    RecordActive x l₁ connectionId revision ↔ RecordActive x l connectionId revision := by
  rw [h.rest]
  rfl

theorem SentPending.congr (h : SentPending l payment)
    (hsame : l₁.sentOf payment.requestEventId = l.sentOf payment.requestEventId) :
    SentPending l₁ payment := by
  obtain ⟨r, hr, hpending, hdecode⟩ := h
  exact ⟨r, hsame.trans hr, hpending, hdecode⟩

/-- What a pass that keeps nothing makes of a payment. -/
def SentSettled (x : Crates) (l l' : Ledger) (payment : TrackedNwcPayment) : Prop :=
  (l'.sentOf payment.requestEventId = none ∧
    ¬ RecordActive x l payment.connectionId payment.connectionRevision) ∨
  ∃ r', l'.sentOf payment.requestEventId = some r' ∧
    RecordActive x l payment.connectionId payment.connectionRevision ∧
    (r'.completedAt ≠ none ↔ Acknowledgeable x l.sentPaymentRelays payment.requestEventId)

/-- A turn that keeps nothing settles its payment. -/
theorem SentTurn.settled {r : SentPaymentRow}
    (h : SentTurn x asJson l payment r report calls (.ok (.yield report')) l')
    (hquiet : report'.retryable = 0) :
    report.retryable = 0 ∧ NotCancelled calls ∧ SentSettled x l l' payment := by
  have hfate := h.fate
  generalize hrow : l'.sentOf payment.requestEventId = row at hfate
  cases hfate with
  | retried cause event pending => cases hquiet
  | expired calm inactive => exact ⟨hquiet, calm, Or.inl ⟨hrow, inactive⟩⟩
  | delivered calm active complete => exact ⟨hquiet, calm, Or.inr ⟨_, hrow, active, complete⟩⟩

/-- A pass over a batch of payments that keeps nothing. -/
structure SentPass (x : Crates) (l : Ledger) (payments : List TrackedNwcPayment)
    (calls : List HostCall) (l' : Ledger) : Prop where
  frames : SentFrames (payments.map TrackedNwcPayment.requestEventId) l l'
  lookups : lookupAnswers calls = []
  settled : NotCancelled calls → ∀ payment ∈ payments, SentSettled x l l' payment
  cancelled : ¬ NotCancelled calls → ∃ payment ∈ payments,
    l'.sentOf payment.requestEventId = l.sentOf payment.requestEventId

theorem alone_processPayments_quiet (hpending : ∀ payment ∈ payments, SentPending l payment)
    (hdistinct : (payments.map TrackedNwcPayment.requestEventId).Nodup)
    (hquiet : report'.retryable = 0)
    (h : Alone x l (processPayments x asJson payments report) calls (.ok report') l') :
    report.retryable = 0 ∧ SentPass x l payments calls l' := by
  induction payments generalizing l calls report with
  | nil =>
    obtain ⟨rfl, hreport, rfl⟩ := exec_done.mp h
    cases hreport
    exact ⟨hquiet, .refl _ _, rfl, by simp, fun hcancelled => absurd notCancelled_nil hcancelled⟩
  | cons payment rest ih =>
    rw [List.forall_mem_cons] at hpending
    rw [List.map_cons, List.nodup_cons] at hdistinct
    obtain ⟨rfl, hreport, rfl⟩ | ⟨first, step, middle, later, rfl, hfirst, hrest⟩ :=
      alone_processPayments_cons h
    · cases hreport
      refine ⟨hquiet, .refl _ _, rfl, fun hcalm => absurd List.mem_cons_self hcalm, ?_⟩
      exact fun _ => ⟨payment, List.mem_cons_self, rfl⟩
    obtain ⟨r, hr, hopen, hdecode⟩ := hpending.1
    have hturn := alone_processPayment hr hopen (decodeSentPayment_ok hdecode).2.1 hfirst
    obtain ⟨report₁, rfl, hlater⟩ | ⟨rfl, rfl, ⟨error, -, hresult⟩ | ⟨report₁, rfl, hresult⟩⟩ := hrest
    · have hne : ∀ p ∈ rest, p.requestEventId ≠ payment.requestEventId :=
        fun p hp heq => hdistinct.1 (heq ▸ List.mem_map_of_mem hp)
      have hpendingLater : ∀ p ∈ rest, SentPending middle p :=
        fun p hp => (hpending.2 p hp).congr (hturn.frame.rows _ (hne p hp))
      obtain ⟨hretry, hpass⟩ := ih hpendingLater hdistinct.2 hlater
      obtain ⟨hstart, hcalm, hsettled⟩ := hturn.settled hretry
      have hkept : l'.sentOf payment.requestEventId = middle.sentOf payment.requestEventId :=
        hpass.frames.rows _ hdistinct.1
      refine ⟨hstart, ⟨hturn.frame.cons hpass.frames, ?_, ?_, ?_⟩⟩
      · rw [lookupAnswers_cons rfl, lookupAnswers_append, hturn.lookups, hpass.lookups]
        rfl
      · intro hcalls
        rw [notCancelled_cons, notCancelled_append] at hcalls
        rw [List.forall_mem_cons]
        constructor
        · rwa [SentSettled, hkept]
        · intro p hp
          have hlast := hpass.settled hcalls.2.2 p hp
          rwa [SentSettled, hturn.frame.recordActive,
            acknowledgeable_congr (hturn.frame.owed _ (hne p hp))] at hlast
      · intro hcalls
        have hlast : ¬ NotCancelled later := by
          intro hlater
          apply hcalls
          simp [hcalm, hlater]
        obtain ⟨p, hp, hsame⟩ := hpass.cancelled hlast
        exact ⟨p, List.mem_cons_of_mem _ hp,
          hsame.trans (hturn.frame.rows _ (hne p hp))⟩
    · cases hresult
    · -- A turn that ran out of time is counted as work left.
      cases hresult
      have hfate := hturn.fate
      generalize l'.sentOf payment.requestEventId = row at hfate
      cases hfate
      cases hquiet

end Payments

section Invoices

variable {x : Crates} {asJson : Nip47.Notification → String} {l l₁ l' : Ledger}
  {calls calls' : List HostCall} {invoice : TrackedNwcInvoice} {invoices : List TrackedNwcInvoice}
  {report report' : InvoiceNotificationWorkerReport}
  {answers answers' : List (PaymentHash × Except HostError (Option WalletTransaction))}

/-- The invoice is stored as it was read, and still owes its notification. -/
def InvoicePending (l : Ledger) (invoice : TrackedNwcInvoice) : Prop :=
  ∃ r, l.invoiceOf invoice.requestEventId = some r ∧ r.completedAt = none ∧
    decodeInvoice r = .ok invoice

/-- Only these invoices and their relays differ. -/
structure InvoiceFrames (events : List EventId) (l l' : Ledger) : Prop where
  rest : l' = { l with
    createdInvoices := l'.createdInvoices
    invoiceNotificationRelays := l'.invoiceNotificationRelays }
  rows : ∀ other ∉ events, l'.invoiceOf other = l.invoiceOf other
  owed : ∀ other ∉ events,
    owed l'.invoiceNotificationRelays other = owed l.invoiceNotificationRelays other

theorem InvoiceFrames.refl (events : List EventId) (l : Ledger) : InvoiceFrames events l l :=
  ⟨rfl, fun _ _ => rfl, fun _ _ => rfl⟩

theorem InvoiceFrame.cons {eventId : EventId} {events : List EventId}
    (h : InvoiceFrame eventId l l₁) (h' : InvoiceFrames events l₁ l') :
    InvoiceFrames (eventId :: events) l l' where
  rest := by
    rw [h'.rest, h.rest]
  rows := by
    intro other hnot
    rw [List.mem_cons, not_or] at hnot
    rw [h'.rows other hnot.2, h.rows other hnot.1]
  owed := by
    intro other hnot
    rw [List.mem_cons, not_or] at hnot
    rw [h'.owed other hnot.2, h.owed other hnot.1]

theorem InvoicePending.congr (h : InvoicePending l invoice)
    (hsame : l₁.invoiceOf invoice.requestEventId = l.invoiceOf invoice.requestEventId) :
    InvoicePending l₁ invoice := by
  obtain ⟨r, hr, hpending, hdecode⟩ := h
  exact ⟨r, hsame.trans hr, hpending, hdecode⟩

/-- The notification of an invoice is due: its event is stored, or its connection is active
and the wallet reports it as paid. -/
def NotificationDue (x : Crates) (l : Ledger)
    (answers : List (PaymentHash × Except HostError (Option WalletTransaction)))
    (invoice : TrackedNwcInvoice) : Prop :=
  invoice.notificationEventJson ≠ none ∨
    (RecordActive x l invoice.connectionId invoice.connectionRevision ∧
      ∃ answer, (invoice.paymentHash, .ok answer) ∈ answers ∧ Paid answer)

/-- What a pass that keeps nothing makes of an invoice. -/
def InvoiceSettled (x : Crates) (l : Ledger)
    (answers : List (PaymentHash × Except HostError (Option WalletTransaction))) (l' : Ledger)
    (invoice : TrackedNwcInvoice) : Prop :=
  (l'.invoiceOf invoice.requestEventId = none ∧ invoice.notificationEventJson = none ∧
    (¬ RecordActive x l invoice.connectionId invoice.connectionRevision ∨
      ∃ answer, (invoice.paymentHash, .ok answer) ∈ answers ∧ ¬ Paid answer)) ∨
  ∃ r', l'.invoiceOf invoice.requestEventId = some r' ∧ NotificationDue x l answers invoice ∧
    (r'.completedAt ≠ none ↔
      Acknowledgeable x l.invoiceNotificationRelays invoice.requestEventId)

theorem InvoiceSettled.mono (h : InvoiceSettled x l answers l' invoice) (hsub : answers ⊆ answers') :
    InvoiceSettled x l answers' l' invoice := by
  rcases h with ⟨hnone, hfresh, hcause⟩ | ⟨r', hr', hdue, hdone⟩
  · refine Or.inl ⟨hnone, hfresh, hcause.imp_right ?_⟩
    rintro ⟨answer, hanswer, hunpaid⟩
    exact ⟨answer, hsub hanswer, hunpaid⟩
  · refine Or.inr ⟨r', hr', hdue.imp_right ?_, hdone⟩
    rintro ⟨hactive, answer, hanswer, hpaid⟩
    exact ⟨hactive, answer, hsub hanswer, hpaid⟩

/-- A turn that keeps nothing settles its invoice. -/
theorem InvoiceTurn.settled {r : CreatedInvoiceRow}
    (h : InvoiceTurn x l invoice r report calls (.ok report') l')
    (hretry : report'.retryable = 0) (hdefer : report'.pending = 0) :
    report.retryable = 0 ∧ report.pending = 0 ∧ NotCancelled calls ∧
      InvoiceSettled x l (lookupAnswers calls) l' invoice := by
  obtain ⟨-, -, error, herror⟩ | ⟨now, -, -, hwork⟩ := h.touched
  · cases herror
  have hfate := hwork.fate
  have hmem : ∀ {P : Option WalletTransaction → Prop},
      (∃ answer, lookupAnswers calls = [(invoice.paymentHash, .ok answer)] ∧ P answer) →
        ∃ answer, (invoice.paymentHash, .ok answer) ∈ lookupAnswers calls ∧ P answer := by
    rintro P ⟨answer, hanswers, hp⟩
    exact ⟨answer, by rw [hanswers]; exact List.mem_cons_self, hp⟩
  generalize hrow : l'.invoiceOf invoice.requestEventId = row at hfate
  cases hfate with
  | retried pending => cases hretry
  | deferred pending => cases hdefer
  | expired calm fresh cause =>
    exact ⟨hretry, hdefer, calm, Or.inl ⟨hrow, fresh, cause.imp_right hmem⟩⟩
  | delivered calm settled complete =>
    refine ⟨hretry, hdefer, calm, Or.inr ⟨_, hrow, settled.imp_right ?_, complete⟩⟩
    exact fun ⟨hactive, hpaid⟩ => ⟨hactive, hmem hpaid⟩

/-- A pass over a batch of invoices that keeps nothing. -/
structure InvoicePass (x : Crates) (l : Ledger) (invoices : List TrackedNwcInvoice)
    (calls : List HostCall) (l' : Ledger) : Prop where
  frames : InvoiceFrames (invoices.map TrackedNwcInvoice.requestEventId) l l'
  lookups : ((lookupAnswers calls).map Prod.fst).Sublist
    (invoices.map TrackedNwcInvoice.paymentHash)
  settled : NotCancelled calls → ∀ invoice ∈ invoices,
    InvoiceSettled x l (lookupAnswers calls) l' invoice
  cancelled : ¬ NotCancelled calls → ∃ invoice ∈ invoices,
    l'.invoiceOf invoice.requestEventId = l.invoiceOf invoice.requestEventId

theorem alone_processInvoices_quiet (hpending : ∀ invoice ∈ invoices, InvoicePending l invoice)
    (hdistinct : (invoices.map TrackedNwcInvoice.requestEventId).Nodup)
    (hretry : report'.retryable = 0) (hdefer : report'.pending = 0)
    (h : Alone x l (processInvoices x asJson invoices report) calls (.ok report') l') :
    report.retryable = 0 ∧ InvoicePass x l invoices calls l' := by
  suffices hall : report.retryable = 0 ∧ report.pending = 0 ∧ InvoicePass x l invoices calls l' from
    ⟨hall.1, hall.2.2⟩
  induction invoices generalizing l calls report with
  | nil =>
    obtain ⟨rfl, hreport, rfl⟩ := exec_done.mp h
    cases hreport
    exact ⟨hretry, hdefer, .refl _ _, List.Sublist.slnil, by simp,
      fun hcancelled => absurd notCancelled_nil hcancelled⟩
  | cons invoice rest ih =>
    rw [List.forall_mem_cons] at hpending
    rw [List.map_cons, List.nodup_cons] at hdistinct
    obtain ⟨rfl, hreport, rfl⟩ | ⟨first, step, middle, later, rfl, hfirst, hrest⟩ :=
      alone_processInvoices_cons h
    · cases hreport
      refine ⟨hretry, hdefer, .refl _ _, List.nil_sublist _,
        fun hcalm => absurd List.mem_cons_self hcalm, ?_⟩
      exact fun _ => ⟨invoice, List.mem_cons_self, rfl⟩
    obtain ⟨r, hr, hopen, hdecode⟩ := hpending.1
    have hturn := alone_processInvoice hr hopen (decodeInvoice_ok hdecode).2.2.1 hfirst
    obtain ⟨report₁, rfl, hlater⟩ | ⟨rfl, rfl, error, -, hresult⟩ := hrest
    · have hne : ∀ i ∈ rest, i.requestEventId ≠ invoice.requestEventId :=
        fun i hi heq => hdistinct.1 (heq ▸ List.mem_map_of_mem hi)
      have hframe : InvoiceFrame invoice.requestEventId l middle := by
        obtain ⟨-, rfl, -⟩ | ⟨now, -, -, hwork⟩ := hturn.touched
        · exact .refl _ _
        · exact hwork.frame
      have hpendingLater : ∀ i ∈ rest, InvoicePending middle i :=
        fun i hi => (hpending.2 i hi).congr (hframe.rows _ (hne i hi))
      obtain ⟨hretryLater, hdeferLater, hpass⟩ := ih hpendingLater hdistinct.2 hlater
      obtain ⟨hretryStart, hdeferStart, hcalm, hsettled⟩ := hturn.settled hretryLater hdeferLater
      have hkept : l'.invoiceOf invoice.requestEventId = middle.invoiceOf invoice.requestEventId :=
        hpass.frames.rows _ hdistinct.1
      have hlookups : lookupAnswers (⟨.isCancelled, false⟩ :: (first ++ later)) =
          lookupAnswers first ++ lookupAnswers later := by
        rw [lookupAnswers_cons rfl, lookupAnswers_append]
      refine ⟨hretryStart, hdeferStart, ⟨hframe.cons hpass.frames, ?_, ?_, ?_⟩⟩
      · rw [hlookups, List.map_append, List.map_cons]
        rcases hturn.lookups with hnone | ⟨reply, hone⟩
        · rw [hnone]
          exact hpass.lookups.cons _
        · rw [hone]
          exact hpass.lookups.cons_cons _
      · intro hcalls
        rw [notCancelled_cons, notCancelled_append] at hcalls
        rw [hlookups, List.forall_mem_cons]
        constructor
        · rw [InvoiceSettled, hkept]
          exact hsettled.mono (List.subset_append_left _ _)
        · intro i hi
          have hlast := hpass.settled hcalls.2.2 i hi
          rw [InvoiceSettled, NotificationDue, recordActive_congr hframe,
            acknowledgeable_congr (hframe.owed _ (hne i hi))] at hlast
          exact InvoiceSettled.mono hlast (List.subset_append_right _ _)
      · intro hcalls
        have hlast : ¬ NotCancelled later := by
          intro hlater
          apply hcalls
          simp [hcalm, hlater]
        obtain ⟨i, hi, hsame⟩ := hpass.cancelled hlast
        exact ⟨i, List.mem_cons_of_mem _ hi, hsame.trans (hframe.rows _ (hne i hi))⟩
    · cases hresult

end Invoices

section Passes

variable {x : Crates} {asJson : Nip47.Notification → String} {l l₁ l' : Ledger}
  {calls : List HostCall} {payments : List TrackedNwcPayment} {invoices : List TrackedNwcInvoice}
  {report : InvoiceNotificationWorkerReport}

/-- What a batch of distinct keys leaves out. -/
theorem exists_not_mem_take {α β : Type} {xs : List α} {f : α → β} {n : Nat} (h : n < xs.length)
    (hdistinct : (xs.map f).Nodup) : ∃ a ∈ xs, f a ∉ (xs.take n).map f := by
  refine ⟨xs[n], List.getElem_mem h, ?_⟩
  rw [← List.take_append_drop n xs, List.map_append, List.nodup_append] at hdistinct
  intro hmem
  have hdrop : f xs[n] ∈ (xs.drop n).map f := by
    apply List.mem_map_of_mem
    rw [List.drop_eq_getElem_cons h]
    exact List.mem_cons_self
  exact hdistinct.2.2 _ hmem _ hdrop rfl

theorem sentBatch_pending {maximum : Nat} (h : l.pendingNwcSentPayments maximum = .ok payments) :
    (∀ payment ∈ payments, SentPending l payment) ∧
      (payments.map TrackedNwcPayment.requestEventId).Nodup := by
  constructor
  · intro payment hpayment
    obtain ⟨r, hr, hdecode⟩ := mem_of_mapM (pendingNwcSentPayments_ok h) payment hpayment
    obtain ⟨hmem, hpending⟩ := mem_sentQueue.mp (List.mem_of_mem_take hr)
    refine ⟨r, ?_, hpending, hdecode⟩
    rw [(decodeSentPayment_ok hdecode).1]
    exact sentOf_of_mem hmem
  · rw [batch_sentEvents h]
    exact (sentQueue_events_distinct l).sublist ((List.take_sublist _ _).map _)

theorem invoiceBatch_pending {maximum : Nat} (h : l.pendingNwcInvoices maximum = .ok invoices) :
    (∀ invoice ∈ invoices, InvoicePending l invoice) ∧
      (invoices.map TrackedNwcInvoice.requestEventId).Nodup := by
  have hbatch : l.pendingInvoicesOf none maximum = .ok invoices := h
  constructor
  · intro invoice hinvoice
    obtain ⟨r, hr, hdecode⟩ := mem_of_mapM (Ledger.pendingInvoicesOf_ok hbatch).2 invoice hinvoice
    obtain ⟨hmem, hpending, -⟩ := Ledger.mem_batchRows hr
    refine ⟨r, ?_, hpending, hdecode⟩
    rw [(decodeInvoice_ok hdecode).1]
    exact invoiceOf_of_mem hmem
  · rw [Ledger.batch_events hbatch]
    exact l.batchRows_events_distinct none maximum

/-- A payment hash has one invoice. -/
theorem invoiceBatch_hashes_distinct {maximum : Nat}
    (h : l.pendingNwcInvoices maximum = .ok invoices) :
    (invoices.map TrackedNwcInvoice.paymentHash).Nodup := by
  have hbatch : l.pendingInvoicesOf none maximum = .ok invoices := h
  rw [map_of_mapM (k := CreatedInvoiceRow.paymentHash)
    (fun _ _ hdecode => (decodeInvoice_ok hdecode).2.1) (Ledger.pendingInvoicesOf_ok hbatch).2]
  have hrows : ((l.waitingRows none).map CreatedInvoiceRow.paymentHash).Nodup := by
    unfold Ledger.waitingRows Table.select
    rw [List.Nodup, List.pairwise_map]
    apply (l.createdInvoices.distinct.sublist List.filter_sublist).imp
    intro a b hab heq
    simp [createdInvoiceSchema, heq] at hab
  have hperm := (List.perm_insertionSort Ledger.checkedBefore (l.waitingRows none)).map
    CreatedInvoiceRow.paymentHash
  exact (hperm.nodup_iff.mpr hrows).sublist ((List.take_sublist _ _).map _)

/-- Every relay of the payments a pass would publish can be acknowledged. -/
def SentAcknowledgeable (x : Crates) (l : Ledger) : Prop :=
  ∀ r ∈ l.sentPayments, r.completedAt = none → ∀ payment, decodeSentPayment r = .ok payment →
    RecordActive x l payment.connectionId payment.connectionRevision →
      Acknowledgeable x l.sentPaymentRelays r.requestEventId

/-- Every relay of the invoices whose notification is due can be acknowledged. -/
def DueAcknowledgeable (x : Crates) (l : Ledger)
    (answers : List (PaymentHash × Except HostError (Option WalletTransaction))) : Prop :=
  ∀ r ∈ l.createdInvoices, r.completedAt = none → ∀ invoice, decodeInvoice r = .ok invoice →
    NotificationDue x l answers invoice →
      Acknowledgeable x l.invoiceNotificationRelays r.requestEventId

/-- A pass that keeps no payment leaves none exactly if it was not cancelled, read them all
and could acknowledge every relay. -/
theorem SentPass.clears_iff (h : SentPass x l payments calls l')
    (hbatch : l.pendingNwcSentPayments defaultBatchSize = .ok payments) :
    (∀ r ∈ l'.sentPayments, r.completedAt ≠ none) ↔ NotCancelled calls ∧
      (l.sentPayments.count fun r => r.completedAt.isNone) ≤ defaultBatchSize ∧
      SentAcknowledgeable x l := by
  have hevents := batch_sentEvents hbatch
  have hread : ∀ r ∈ l.sentQueue.take defaultBatchSize, ∃ payment ∈ payments,
      decodeSentPayment r = .ok payment := fun r hr => mapM_mem (pendingNwcSentPayments_ok hbatch) hr
  constructor
  · intro hnothing
    have hleft : ∀ {r}, r ∈ l.sentQueue → l'.sentOf r.requestEventId = l.sentOf r.requestEventId →
        False := by
      intro r hr hsame
      obtain ⟨hmem, hpending⟩ := mem_sentQueue.mp hr
      rw [sentOf_of_mem hmem, sentOf_eq_some] at hsame
      exact hnothing r hsame.1 hpending
    have hcalm : NotCancelled calls := by
      by_contra hcancelled
      obtain ⟨payment, hpayment, hsame⟩ := h.cancelled hcancelled
      obtain ⟨r, hr, hdecode⟩ := mem_of_mapM (pendingNwcSentPayments_ok hbatch) payment hpayment
      rw [(decodeSentPayment_ok hdecode).1] at hsame
      exact hleft (List.mem_of_mem_take hr) hsame
    have hfew : l.sentQueue.length ≤ defaultBatchSize := by
      by_contra hmany
      obtain ⟨r, hr, hnot⟩ := exists_not_mem_take (Nat.not_le.mp hmany) (sentQueue_events_distinct l)
      rw [← hevents] at hnot
      exact hleft hr (h.frames.rows _ hnot)
    refine ⟨hcalm, length_sentQueue l ▸ hfew, ?_⟩
    intro r hr hpending payment hdecode hactive
    obtain ⟨payment', hpayment, hdecode'⟩ := hread r (by
      rw [List.take_of_length_le hfew]
      exact mem_sentQueue.mpr ⟨hr, hpending⟩)
    rw [hdecode] at hdecode'
    cases hdecode'
    have hid := (decodeSentPayment_ok hdecode).1
    obtain ⟨-, hinactive⟩ | ⟨r', hr', -, hdone⟩ := h.settled hcalm payment hpayment
    · exact absurd hactive hinactive
    · rw [← hid]
      exact hdone.mp (hnothing r' (sentOf_eq_some.mp hr').1)
  · rintro ⟨hcalm, hfew, hrelays⟩ r' hr' hopen
    rw [← length_sentQueue] at hfew
    have hrow := sentOf_of_mem hr'
    by_cases hmem : r'.requestEventId ∈ payments.map TrackedNwcPayment.requestEventId
    · obtain ⟨payment, hpayment, hid⟩ := List.mem_map.mp hmem
      obtain ⟨r, hr, hdecode⟩ := mem_of_mapM (pendingNwcSentPayments_ok hbatch) payment hpayment
      obtain ⟨hstored, hpending⟩ := mem_sentQueue.mp (List.mem_of_mem_take hr)
      rw [← hid] at hrow
      obtain ⟨hnone, -⟩ | ⟨r'', hsame, hactive, hdone⟩ := h.settled hcalm payment hpayment
      · rw [hnone] at hrow
        cases hrow
      · rw [hsame] at hrow
        cases hrow
        refine hdone.mpr ?_ hopen
        rw [(decodeSentPayment_ok hdecode).1]
        exact hrelays r hstored hpending payment hdecode hactive
    · -- A row outside the batch was pending before, and then in the batch.
      rw [h.frames.rows _ hmem, sentOf_eq_some] at hrow
      apply hmem
      rw [hevents, List.take_of_length_le hfew]
      exact List.mem_map_of_mem (mem_sentQueue.mpr ⟨hrow.1, hopen⟩)

/-- A pass that keeps no invoice leaves none exactly if it was not cancelled, read them all
and could acknowledge every relay of those whose notification is due. -/
theorem InvoicePass.clears_iff (h : InvoicePass x l invoices calls l')
    (hbatch : l.pendingNwcInvoices defaultBatchSize = .ok invoices) :
    (∀ r ∈ l'.createdInvoices, r.completedAt ≠ none) ↔ NotCancelled calls ∧
      (l.createdInvoices.count fun r => r.completedAt.isNone) ≤ defaultBatchSize ∧
      DueAcknowledgeable x l (lookupAnswers calls) := by
  have hbatch' : l.pendingInvoicesOf none defaultBatchSize = .ok invoices := hbatch
  have hrows := (Ledger.pendingInvoicesOf_ok hbatch').2
  have hevents := Ledger.batch_events hbatch'
  have hqueue : ∀ {r}, r ∈ (l.waitingRows none).insertionSort Ledger.checkedBefore ↔
      r ∈ l.createdInvoices ∧ r.completedAt = none := by
    intro r
    rw [List.mem_insertionSort, Ledger.mem_waitingRows]
    exact ⟨fun hwaits => ⟨hwaits.1, hwaits.2.1⟩, fun hwaits => ⟨hwaits.1, hwaits.2, rfl⟩⟩
  have hlength : ((l.waitingRows none).insertionSort Ledger.checkedBefore).length =
      l.createdInvoices.count fun r => r.completedAt.isNone := by
    rw [List.length_insertionSort, Ledger.waitingRows, Table.select, Table.count]
    simp [Ledger.invoiceScope]
  have hdistinct : (((l.waitingRows none).insertionSort Ledger.checkedBefore).map
      CreatedInvoiceRow.requestEventId).Nodup :=
    ((List.perm_insertionSort _ _).map _).nodup_iff.mpr (l.waitingRows_events_distinct none)
  constructor
  · intro hnothing
    have hleft : ∀ {r}, r ∈ l.createdInvoices → r.completedAt = none →
        l'.invoiceOf r.requestEventId = l.invoiceOf r.requestEventId → False := by
      intro r hmem hpending hsame
      rw [invoiceOf_of_mem hmem, invoiceOf_eq_some] at hsame
      exact hnothing r hsame.1 hpending
    have hcalm : NotCancelled calls := by
      by_contra hcancelled
      obtain ⟨invoice, hinvoice, hsame⟩ := h.cancelled hcancelled
      obtain ⟨r, hr, hdecode⟩ := mem_of_mapM hrows invoice hinvoice
      obtain ⟨hmem, hpending, -⟩ := Ledger.mem_batchRows hr
      rw [(decodeInvoice_ok hdecode).1] at hsame
      exact hleft hmem hpending hsame
    have hfew : ((l.waitingRows none).insertionSort Ledger.checkedBefore).length ≤
        defaultBatchSize := by
      by_contra hmany
      obtain ⟨r, hr, hnot⟩ := exists_not_mem_take (Nat.not_le.mp hmany) hdistinct
      have hout : r.requestEventId ∉ invoices.map TrackedNwcInvoice.requestEventId := by
        rw [hevents]
        exact hnot
      obtain ⟨hmem, hpending⟩ := hqueue.mp hr
      exact hleft hmem hpending (h.frames.rows _ hout)
    refine ⟨hcalm, hlength ▸ hfew, ?_⟩
    intro r hr hpending invoice hdecode hdue
    have hread : r ∈ l.batchRows none defaultBatchSize := by
      rw [Ledger.batchRows, List.take_of_length_le hfew]
      exact hqueue.mpr ⟨hr, hpending⟩
    obtain ⟨invoice', hinvoice, hdecode'⟩ := mapM_mem hrows hread
    rw [hdecode] at hdecode'
    cases hdecode'
    have hid := (decodeInvoice_ok hdecode).1
    obtain ⟨-, hfresh, hcause⟩ | ⟨r', hr', -, hdone⟩ := h.settled hcalm invoice hinvoice
    · -- The wallet is asked about each invoice of the batch once.
      obtain hstored | ⟨hactive, answer, hanswer, hpaid⟩ := hdue
      · exact absurd hfresh hstored
      obtain hinactive | ⟨answer', hanswer', hunpaid⟩ := hcause
      · exact absurd hactive hinactive
      have hsame := List.inj_on_of_nodup_map (h.lookups.nodup (invoiceBatch_hashes_distinct hbatch))
        hanswer hanswer' rfl
      cases hsame
      exact absurd hpaid hunpaid
    · rw [← hid]
      exact hdone.mp (hnothing r' (invoiceOf_eq_some.mp hr').1)
  · rintro ⟨hcalm, hfew, hrelays⟩ r' hr' hopen
    rw [← hlength] at hfew
    have hrow := invoiceOf_of_mem hr'
    by_cases hmem : r'.requestEventId ∈ invoices.map TrackedNwcInvoice.requestEventId
    · obtain ⟨invoice, hinvoice, hid⟩ := List.mem_map.mp hmem
      obtain ⟨r, hr, hdecode⟩ := mem_of_mapM hrows invoice hinvoice
      obtain ⟨hstored, hpending, -⟩ := Ledger.mem_batchRows hr
      rw [← hid] at hrow
      obtain ⟨hnone, -⟩ | ⟨r'', hsame, hdue, hdone⟩ := h.settled hcalm invoice hinvoice
      · rw [hnone] at hrow
        cases hrow
      · rw [hsame] at hrow
        cases hrow
        refine hdone.mpr ?_ hopen
        rw [(decodeInvoice_ok hdecode).1]
        exact hrelays r hstored hpending invoice hdecode hdue
    · rw [h.frames.rows _ hmem, invoiceOf_eq_some] at hrow
      apply hmem
      rw [hevents, Ledger.batchRows, List.take_of_length_le hfew]
      exact List.mem_map_of_mem (hqueue.mpr ⟨hrow.1, hopen⟩)

/-- The calls of a pass: the payment batch and its loop, then the invoice batch and its loop. -/
theorem alone_run {result : Except InvoiceNotificationError InvoiceNotificationWorkerReport}
    (h : Alone x l (run x asJson) calls result l') :
    (Faulted calls ∧ result = .error .ledger) ∨ ∃ asked sending later payments sent l₁, calls = asked ++ (sending ++ later) ∧
      Quiet asked ∧ l.pendingNwcSentPayments defaultBatchSize = .ok payments ∧
      Alone x l (processPayments x asJson payments .empty) sending sent l₁ ∧
      ((∃ error, sent = .error error ∧ result = .error error ∧ later = [] ∧ l' = l₁) ∨
        ∃ report₁ asked' checking invoices, sent = .ok report₁ ∧ later = asked' ++ checking ∧
          Quiet asked' ∧ l₁.pendingNwcInvoices defaultBatchSize = .ok invoices ∧
          Alone x l₁ (processInvoices x asJson invoices report₁) checking result l') := by
  have hread : ∀ (op : NotificationOp) {value : Ledger → Except LedgerError op.Value},
      (∀ l, op.run x l = reading l (value l)) →
      LedgerCommits x (notifications op) fun l v l' => value l = .ok v ∧ l' = l := by
    intro op value hrun
    apply (ledgerCommits_notifications x op).mono
    intro l v l' hop
    rw [hrun] at hop
    exact reading_eq_ok.mp hop
  obtain ⟨hresult, hfault, -, -⟩ | ⟨asked, payments, middle, rest, rfl, hasked, ⟨hpayments, rfl⟩, hrest⟩ :=
    Alone.orFail (hread (.pendingNwcSentPayments defaultBatchSize) fun _ => rfl) h
  · exact Or.inl ⟨hfault, hresult⟩
  obtain ⟨sending, sent, l₁, later, rfl, hsending, hlater⟩ := exec_bind.mp hrest
  cases sent with
  | error error =>
    obtain ⟨rfl, rfl, rfl⟩ := exec_done.mp hlater
    exact Or.inr ⟨asked, sending, [], payments, _, _, rfl, hasked, hpayments, hsending,
      Or.inl ⟨error, rfl, rfl, rfl, rfl⟩⟩
  | ok report₁ =>
    obtain ⟨hresult, hfault, -, -⟩ |
      ⟨asked', invoices, next, checking, rfl, hasked', ⟨hinvoices, rfl⟩, hchecking⟩ :=
      Alone.orFail (hread (.pendingNwcInvoices defaultBatchSize) fun _ => rfl) hlater
    · exact Or.inl ⟨hfault.mono fun call hcall => by simp [hcall], hresult⟩
    · exact Or.inr ⟨asked, sending, _, payments, _, _, rfl, hasked, hpayments, hsending,
        Or.inr ⟨report₁, asked', checking, invoices, rfl, rfl, hasked', hinvoices, hchecking⟩⟩

/-- A pass with nothing to report: it goes through both batches and keeps no record. -/
theorem alone_run_quiet (h : Alone x l (run x asJson) calls (.ok report) l')
    (hquiet : report.hasPendingWork = false) :
    ∃ sending checking payments invoices l₁,
      l.pendingNwcSentPayments defaultBatchSize = .ok payments ∧ SentPass x l payments sending l₁ ∧
      l₁.pendingNwcInvoices defaultBatchSize = .ok invoices ∧
      InvoicePass x l₁ invoices checking l' ∧
      (NotCancelled calls ↔ NotCancelled sending ∧ NotCancelled checking) ∧
      lookupAnswers calls = lookupAnswers checking := by
  simp only [InvoiceNotificationWorkerReport.hasPendingWork, Bool.or_eq_false_iff,
    decide_eq_false_iff_not, gt_iff_lt, Nat.pos_iff_ne_zero, not_not] at hquiet
  obtain ⟨-, hresult⟩ | ⟨asked, sending, later, payments, sent, l₁, rfl, hasked, hpayments, hsending,
    ⟨error, -, hresult, -⟩ |
    ⟨report₁, asked', checking, invoices, rfl, rfl, hasked', hinvoices, hchecking⟩⟩ := alone_run h
  · cases hresult
  · cases hresult
  obtain ⟨hpendingInvoices, hdistinctInvoices⟩ := invoiceBatch_pending hinvoices
  obtain ⟨hretry, hinvoicePass⟩ := alone_processInvoices_quiet hpendingInvoices hdistinctInvoices
    hquiet.2 hquiet.1 hchecking
  obtain ⟨hpendingPayments, hdistinctPayments⟩ := sentBatch_pending hpayments
  obtain ⟨-, hsentPass⟩ := alone_processPayments_quiet hpendingPayments hdistinctPayments hretry
    hsending
  refine ⟨sending, checking, payments, invoices, l₁, hpayments, hsentPass, hinvoices, hinvoicePass,
    ?_, ?_⟩
  · simp [hasked.2, hasked'.2]
  · simp [hasked.1, hasked'.1, hsentPass.lookups]

end Passes

/-- Nothing is left that owes a notification. -/
def Ledger.NothingPending (l : Ledger) : Prop :=
  (∀ r ∈ l.sentPayments, r.completedAt ≠ none) ∧ ∀ r ∈ l.createdInvoices, r.completedAt ≠ none

/-- The pass was not cancelled, its batches hold every pending record, and every relay it
publishes to is stored as the text its URL has. -/
structure PassCovers (x : Crates) (l : Ledger) (calls : List HostCall) : Prop where
  uncancelled : NotCancelled calls
  payments : (l.sentPayments.count fun r => r.completedAt.isNone) ≤ defaultBatchSize
  invoices : (l.createdInvoices.count fun r => r.completedAt.isNone) ≤ defaultBatchSize
  sentRelays : SentAcknowledgeable x l
  invoiceRelays : DueAcknowledgeable x l (lookupAnswers calls)

/-- A pass that reports no pending work leaves nothing pending exactly if it covers the ledger. -/
theorem quiet_pass_clears_iff_covers {x : Crates} {asJson : Nip47.Notification → String}
    {l l' : Ledger} {calls : List HostCall} {report : InvoiceNotificationWorkerReport}
    (h : Alone x l (run x asJson) calls (.ok report) l')
    (hquiet : report.hasPendingWork = false) : l'.NothingPending ↔ PassCovers x l calls := by
  obtain ⟨sending, checking, payments, invoices, l₁, hpayments, hsent, hinvoices, hpass, hcalm,
    hanswers⟩ := alone_run_quiet h hquiet
  have hsentRows : l'.sentPayments = l₁.sentPayments := by
    rw [hpass.frames.rest]
  have hinvoiceRows : l₁.createdInvoices = l.createdInvoices := by
    rw [hsent.frames.rest]
  have hdue : DueAcknowledgeable x l₁ (lookupAnswers checking) ↔
      DueAcknowledgeable x l (lookupAnswers checking) := by
    rw [hsent.frames.rest]
    rfl
  have hclearsSent := hsent.clears_iff hpayments
  have hclearsInvoices := hpass.clears_iff hinvoices
  rw [hinvoiceRows, hdue] at hclearsInvoices
  rw [Ledger.NothingPending, hsentRows, hclearsSent, hclearsInvoices]
  constructor
  · rintro ⟨⟨hsending, hpaymentCount, hsentRelays⟩, hchecking, hinvoiceCount, hinvoiceRelays⟩
    exact ⟨hcalm.mpr ⟨hsending, hchecking⟩, hpaymentCount, hinvoiceCount, hsentRelays,
      hanswers ▸ hinvoiceRelays⟩
  · rintro ⟨huncancelled, hpaymentCount, hinvoiceCount, hsentRelays, hinvoiceRelays⟩
    obtain ⟨hsending, hchecking⟩ := hcalm.mp huncancelled
    exact ⟨⟨hsending, hpaymentCount, hsentRelays⟩, hchecking, hinvoiceCount,
      hanswers ▸ hinvoiceRelays⟩

namespace Sample

/-- A paid invoice whose event is stored. -/
def paidInvoice (event : Nat) : CreatedInvoiceRow :=
  { invoiceRow event 40 50 with
    notificationEventJson := some "event", notificationCreatedAt := some 60 }

/-- One relay has not received the event of an invoice. -/
def owedInvoice : Ledger :=
  { invoiceLedger [paidInvoice 1] with
    invoiceNotificationRelays :=
      ((Table.empty notificationRelaySchema).insert ⟨⟨1⟩, 0, relayUrl, none⟩).getD (.empty _) }

/-- One invoice more than a batch holds. -/
def crowded : Ledger := invoiceLedger ((List.range' 1 21).map paidInvoice)

def notificationText (_ : Nip47.Notification) : String := ""

/-- A host whose relays accept every event. -/
def acceptingScript (cancelled : Bool) : HostScript :=
  { script 100 1 with cancelled, published := .ok () }

def notificationPass (cancelled : Bool) (l : Ledger) :=
  runAlone crates (acceptingScript cancelled) (run crates notificationText) l

theorem notificationPass_alone {cancelled : Bool} {l : Ledger}
    {result : Except InvoiceNotificationError InvoiceNotificationWorkerReport}
    (h : (notificationPass cancelled l).2.1 = result) :
    Alone crates l (run crates notificationText) (notificationPass cancelled l).1 result
      (notificationPass cancelled l).2.2 :=
  runAlone_result h

theorem cancelled_pass :
    (notificationPass true owedInvoice).2.1 = .ok .empty ∧
      ∃ r ∈ (notificationPass true owedInvoice).2.2.createdInvoices.rows,
        r.completedAt = none := by
  decide

theorem crowded_pass :
    (notificationPass false crowded).2.1 = .ok ⟨20, 0, 0, 20, 0⟩ ∧
      ∃ r ∈ (notificationPass false crowded).2.2.createdInvoices.rows, r.completedAt = none := by
  decide +kernel

theorem delivering_pass :
    (notificationPass false owedInvoice).2.1 = .ok ⟨1, 0, 0, 1, 0⟩ ∧
      (∀ r ∈ (notificationPass false owedInvoice).2.2.sentPayments.rows, r.completedAt ≠ none) ∧
      ∀ r ∈ (notificationPass false owedInvoice).2.2.createdInvoices.rows,
        r.completedAt ≠ none := by
  decide

theorem pending_of_open {l : Ledger} (hopen : ∃ r ∈ l.createdInvoices.rows, r.completedAt = none) :
    ¬ l.NothingPending := by
  rintro ⟨-, hinvoices⟩
  obtain ⟨r, hr, hnone⟩ := hopen
  exact hinvoices r hr hnone

end Sample

/-- A pass that is cancelled before its first record, and one that delivers a full batch, report
no pending work and leave an invoice. -/
theorem quiet_pass_leaves_invoices :
    (∃ calls l', Alone Sample.crates Sample.owedInvoice
      (run Sample.crates Sample.notificationText) calls (.ok .empty) l' ∧
        InvoiceNotificationWorkerReport.empty.hasPendingWork = false ∧ ¬ l'.NothingPending) ∧
    ∃ calls l', Alone Sample.crates Sample.crowded (run Sample.crates Sample.notificationText) calls
        (.ok ⟨20, 0, 0, 20, 0⟩) l' ∧
      InvoiceNotificationWorkerReport.hasPendingWork ⟨20, 0, 0, 20, 0⟩ = false ∧
        ¬ l'.NothingPending := by
  constructor
  · obtain ⟨hresult, hleft⟩ := Sample.cancelled_pass
    exact ⟨_, _, Sample.notificationPass_alone hresult, rfl, Sample.pending_of_open hleft⟩
  · obtain ⟨hresult, hleft⟩ := Sample.crowded_pass
    exact ⟨_, _, Sample.notificationPass_alone hresult, rfl, Sample.pending_of_open hleft⟩

theorem quiet_pass_clears_iff_covers_delivered :
    (Sample.notificationPass false Sample.owedInvoice).2.1 = .ok ⟨1, 0, 0, 1, 0⟩ ∧
      PassCovers Sample.crates Sample.owedInvoice
        (Sample.notificationPass false Sample.owedInvoice).1 := by
  obtain ⟨hresult, hsent, hcreated⟩ := Sample.delivering_pass
  have hquiet := Sample.notificationPass_alone hresult
  exact ⟨hresult, (quiet_pass_clears_iff_covers hquiet rfl).mp ⟨hsent, hcreated⟩⟩

end NwcMobile
