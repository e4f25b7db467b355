import NwcMobile.Engine.NotificationReport

/-!
Notification passes one after the other. A sent payment is read only when fewer than a
batch of older ones keep failing, and a payment whose secret or event fails ends the
pass; invoices move behind each other when they are inspected. Under these conditions
every record is reached after a number of passes that is linear in the records pending.
-/

namespace NwcMobile

open Program Fallible Relational Notifications Rotation InvoiceNotificationWorker

/-- One pass of the worker. -/
structure NotificationPass where
  before : Ledger
  calls : List HostCall
  after : Ledger

/-- Passes one after the other, with nothing in between. -/
inductive NotificationPasses (x : Crates) (asJson : Nip47.Notification → String) :
    Ledger → List NotificationPass → Ledger → Prop
  | nil {l} : NotificationPasses x asJson l [] l
  | cons {l calls result l₁ passes l'} (pass : Alone x l (run x asJson) calls result l₁)
      (later : NotificationPasses x asJson l₁ passes l') :
      NotificationPasses x asJson l (⟨l, calls, l₁⟩ :: passes) l'

namespace NotificationPass

/-- The pass is not cancelled, has time left, and finds the ledger available. -/
def Undisturbed (pass : NotificationPass) : Prop := ¬ Interrupted pass.calls ∧ ¬ Faulted pass.calls

/-- The secret and the build step of a payment do not fail. -/
def SecretWorks (x : Crates) (asJson : Nip47.Notification → String) (pass : NotificationPass)
    (r : SentPaymentRow) : Prop :=
  ∀ payment connection, decodeSentPayment r = .ok payment → r.notificationEventJson = none →
    pass.before.loadActiveConnection x payment.connectionId = .ok (some connection) →
      ¬ SentSecretFails x asJson connection payment pass.calls

/-- The relay step of a payment does not fail: no relay refuses its event, and every
acknowledgement matches a relay. -/
def RelaysWork (x : Crates) (pass : NotificationPass) (eventId : EventId) : Prop :=
  Acknowledgeable x pass.before.sentPaymentRelays eventId ∧
    ∀ r' event, pass.after.sentOf eventId = some r' → r'.notificationEventJson = some event →
      ¬ RelayRefuses (owedRelays x pass.before.sentPaymentRelays eventId) event pass.calls

/-- The pass inspects the invoice. -/
def Inspects (pass : NotificationPass) (eventId : EventId) : Prop :=
  ∃ now, (⟨.ledger (.record (.notification (.touchNwcInvoice eventId now))), .ok ()⟩ : HostCall) ∈
    pass.calls

end NotificationPass

/-- The payment still owes its notification. -/
def Ledger.OwesSent (l : Ledger) (eventId : EventId) : Prop :=
  ∃ r, l.sentOf eventId = some r ∧ r.completedAt = none

/-- The payments that are read before another one. -/
def Ledger.aheadOf (l : Ledger) (r : SentPaymentRow) : Finset EventId :=
  ((l.sentQueue.filter fun s => decide (sentBefore s r ∧ s.requestEventId ≠ r.requestEventId)).map
    SentPaymentRow.requestEventId).toFinset

section Payments

variable {x : Crates} {asJson : Nip47.Notification → String} {l l₁ l' : Ledger}
  {calls : List HostCall} {payment : TrackedNwcPayment}
  {payments front back : List TrackedNwcPayment} {report : InvoiceNotificationWorkerReport}
  {result : Except InvoiceNotificationError InvoiceNotificationWorkerReport} {eventId : EventId}
  {r r' : SentPaymentRow}

/-- Payments keep their place and never become pending again. -/
def SentEvolves (l l' : Ledger) : Prop :=
  ∀ eventId r', l'.sentOf eventId = some r' → ∃ r, l.sentOf eventId = some r ∧
    r'.createdAt = r.createdAt ∧ r'.requestEventId = r.requestEventId ∧
      (r'.completedAt = none → r.completedAt = none)

theorem SentEvolves.refl (l : Ledger) : SentEvolves l l :=
  fun _ r' hr' => ⟨r', hr', rfl, rfl, id⟩

theorem SentEvolves.trans (h : SentEvolves l l₁) (h' : SentEvolves l₁ l') : SentEvolves l l' := by
  intro eventId r' hr'
  obtain ⟨r₁, hr₁, hcreated₁, hid₁, hopen₁⟩ := h' eventId r' hr'
  obtain ⟨r, hr, hcreated, hid, hopen⟩ := h eventId r₁ hr₁
  exact ⟨r, hr, hcreated₁.trans hcreated, hid₁.trans hid, fun hnone => hopen (hopen₁ hnone)⟩

theorem SentTurn.evolves {step : Except InvoiceNotificationError
      (ForInStep InvoiceNotificationWorkerReport)}
    (h : SentTurn x asJson l payment r report calls step l')
    (hr : l.sentOf payment.requestEventId = some r) (hopen : r.completedAt = none) :
    SentEvolves l l' := by
  intro eventId r' hr'
  by_cases hid : eventId = payment.requestEventId
  · subst hid
    have hsame := h.row r' hr'
    refine ⟨r, hr, ?_, ?_, fun _ => hopen⟩
    · rw [hsame]
    · rw [hsame]
  · rw [h.frame.rows eventId hid] at hr'
    exact ⟨r', hr', rfl, rfl, id⟩

theorem SentEvolves.owes (h : SentEvolves l l') (howes : l'.OwesSent eventId) :
    l.OwesSent eventId := by
  obtain ⟨r', hr', hopen'⟩ := howes
  obtain ⟨r, hr, -, -, hopen⟩ := h eventId r' hr'
  exact ⟨r, hr, hopen hopen'⟩

/-- However it ends, the payment loop touches its payments only. -/
theorem alone_processPayments_frames (hpending : ∀ payment ∈ payments, SentPending l payment)
    (hdistinct : (payments.map TrackedNwcPayment.requestEventId).Nodup)
    (h : Alone x l (processPayments x asJson payments report) calls result l') :
    SentFrames (payments.map TrackedNwcPayment.requestEventId) l l' ∧ SentEvolves l l' := by
  induction payments generalizing l calls report with
  | nil =>
    obtain ⟨rfl, rfl, rfl⟩ := exec_done.mp h
    exact ⟨.refl _ _, .refl _⟩
  | cons payment rest ih =>
    rw [List.forall_mem_cons] at hpending
    rw [List.map_cons, List.nodup_cons] at hdistinct
    obtain ⟨rfl, rfl, rfl⟩ | ⟨first, step, middle, later, rfl, hfirst, hrest⟩ :=
      alone_processPayments_cons h
    · exact ⟨.refl _ _, .refl _⟩
    obtain ⟨r, hr, hopen, hdecode⟩ := hpending.1
    have hturn := alone_processPayment hr hopen (decodeSentPayment_ok hdecode).2.1 hfirst
    have hevolves := hturn.evolves hr hopen
    obtain ⟨report₁, rfl, hlater⟩ | ⟨rfl, rfl, -⟩ := hrest
    · have hpendingLater : ∀ p ∈ rest, SentPending middle p := by
        intro p hp
        apply (hpending.2 p hp).congr
        apply hturn.frame.rows
        exact fun heq => hdistinct.1 (heq ▸ List.mem_map_of_mem hp)
      obtain ⟨hframes, hevolvesLater⟩ := ih hpendingLater hdistinct.2 hlater
      exact ⟨hturn.frame.cons hframes, hevolves.trans hevolvesLater⟩
    · exact ⟨hturn.frame.cons (.refl _ _), hevolves⟩

theorem owedRelays_congr {table table' : Table notificationRelaySchema}
    (h : owed table' eventId = owed table eventId) :
    owedRelays x table' eventId = owedRelays x table eventId := by
  rw [owedRelays, h, owedRelays]

/-- In an undisturbed pass a turn whose secret step works goes on to the next payment, and
leaves its own pending only if its relay step fails. -/
theorem SentTurn.goes_on {step : Except InvoiceNotificationError
      (ForInStep InvoiceNotificationWorkerReport)}
    (h : SentTurn x asJson l payment r report calls step l')
    (hcalm : ¬ Interrupted calls) (hsound : ¬ Faulted calls)
    (hsecret : ∀ connection, payment.notificationEventJson = none →
      l.loadActiveConnection x payment.connectionId = .ok (some connection) →
        ¬ SentSecretFails x asJson connection payment calls) :
    (∃ report', step = .ok (.yield report')) ∧
      (l'.OwesSent payment.requestEventId →
        Acknowledgeable x l.sentPaymentRelays payment.requestEventId →
        ∃ r' event, l'.sentOf payment.requestEventId = some r' ∧
          r'.notificationEventJson = some event ∧
          RelayRefuses (owedRelays x l.sentPaymentRelays payment.requestEventId) event calls) := by
  have hfate := h.fate
  generalize hrow : l'.sentOf payment.requestEventId = row at hfate
  cases hfate with
  | failed cause pending =>
    rcases cause with hfault | ⟨hnone, connection, hactive, hfails⟩
    · exact absurd hfault hsound
    · exact absurd hfails (hsecret connection hnone hactive)
  | interrupted cause pending => exact absurd cause hcalm
  | @retried row event cause hevent pending =>
    refine ⟨⟨_, rfl⟩, fun _ _ => ⟨row, event, rfl, hevent, ?_⟩⟩
    exact cause.resolve_left hcalm
  | expired calm inactive =>
    refine ⟨⟨_, rfl⟩, ?_⟩
    rintro ⟨r', hr', -⟩
    rw [hrow] at hr'
    cases hr'
  | delivered calm active complete =>
    refine ⟨⟨_, rfl⟩, ?_⟩
    rintro ⟨r', hr', hopen⟩ hrelays
    rw [hrow] at hr'
    cases hr'
    exact absurd hopen (complete.mpr hrelays)

/-- The payments at the head of a batch are reached whatever follows them, if their secret
steps work. -/
theorem alone_processPayments_front
    (hpending : ∀ payment ∈ front ++ back, SentPending l payment)
    (hdistinct : ((front ++ back).map TrackedNwcPayment.requestEventId).Nodup)
    (hcalm : ¬ Interrupted calls) (hsound : ¬ Faulted calls)
    (hsecrets : ∀ payment ∈ front, ∀ connection, payment.notificationEventJson = none →
      l.loadActiveConnection x payment.connectionId = .ok (some connection) →
        ¬ SentSecretFails x asJson connection payment calls)
    (h : Alone x l (processPayments x asJson (front ++ back) report) calls result l') :
    (back = [] → ∃ report', result = .ok report') ∧ ∀ payment ∈ front,
      l'.OwesSent payment.requestEventId →
      Acknowledgeable x l.sentPaymentRelays payment.requestEventId →
      ∃ r' event, l'.sentOf payment.requestEventId = some r' ∧
        r'.notificationEventJson = some event ∧
        RelayRefuses (owedRelays x l.sentPaymentRelays payment.requestEventId) event calls := by
  induction front generalizing l calls report with
  | nil =>
    refine ⟨?_, by simp⟩
    rintro rfl
    obtain ⟨-, rfl, -⟩ := exec_done.mp h
    exact ⟨report, rfl⟩
  | cons payment rest ih =>
    rw [List.cons_append] at h hpending hdistinct
    rw [List.forall_mem_cons] at hpending hsecrets
    rw [List.map_cons, List.nodup_cons] at hdistinct
    obtain ⟨rfl, rfl, rfl⟩ | ⟨first, step, middle, later, rfl, hfirst, hrest⟩ :=
      alone_processPayments_cons h
    · exact absurd (Or.inl List.mem_cons_self) hcalm
    have hfirstSub : first ⊆ ⟨.isCancelled, false⟩ :: (first ++ later) :=
      fun call hcall => by simp [hcall]
    have hlaterSub : later ⊆ ⟨.isCancelled, false⟩ :: (first ++ later) :=
      fun call hcall => by simp [hcall]
    obtain ⟨r, hr, hopen, hdecode⟩ := hpending.1
    have hturn := alone_processPayment hr hopen (decodeSentPayment_ok hdecode).2.1 hfirst
    obtain ⟨⟨report', rfl⟩, hkept⟩ := hturn.goes_on (fun hi => hcalm (hi.mono hfirstSub))
      (fun hf => hsound (hf.mono hfirstSub)) fun connection hnone hactive hfails =>
        hsecrets.1 connection hnone hactive (hfails.mono hfirstSub)
    obtain ⟨report₁, hstep, hlater⟩ | ⟨-, -, ⟨error, hstep, -⟩ | ⟨report₁, hstep, -⟩⟩ := hrest
    · cases hstep
      have hne : ∀ p ∈ rest ++ back, p.requestEventId ≠ payment.requestEventId :=
        fun p hp heq => hdistinct.1 (heq ▸ List.mem_map_of_mem hp)
      have hpendingLater : ∀ p ∈ rest ++ back, SentPending middle p :=
        fun p hp => (hpending.2 p hp).congr (hturn.frame.rows _ (hne p hp))
      have hsecretsLater : ∀ p ∈ rest, ∀ connection, p.notificationEventJson = none →
          middle.loadActiveConnection x p.connectionId = .ok (some connection) →
            ¬ SentSecretFails x asJson connection p later := by
        intro p hp connection hnone hactive hfails
        rw [hturn.frame.rest] at hactive
        exact hsecrets.2 p hp connection hnone hactive (hfails.mono hlaterSub)
      obtain ⟨hdone, hreached⟩ := ih hpendingLater hdistinct.2
        (fun hi => hcalm (hi.mono hlaterSub)) (fun hf => hsound (hf.mono hlaterSub))
        hsecretsLater hlater
      obtain ⟨hframes, -⟩ := alone_processPayments_frames hpendingLater hdistinct.2 hlater
      have hsame : l'.sentOf payment.requestEventId = middle.sentOf payment.requestEventId :=
        hframes.rows _ hdistinct.1
      refine ⟨hdone, ?_⟩
      rw [List.forall_mem_cons]
      constructor
      · rw [Ledger.OwesSent, hsame]
        intro howes hrelays
        obtain ⟨r', event, hr', hevent, hrefused⟩ := hkept howes hrelays
        exact ⟨r', event, hr', hevent, hrefused.mono (subset_refl _) hfirstSub⟩
      · intro p hp howes hrelays
        have howed := hturn.frame.owed _ (hne p (List.mem_append_left _ hp))
        rw [← acknowledgeable_congr howed] at hrelays
        obtain ⟨r', event, hr', hevent, hrefused⟩ := hreached p hp howes hrelays
        rw [owedRelays_congr howed] at hrefused
        exact ⟨r', event, hr', hevent, hrefused.mono (subset_refl _) hlaterSub⟩
    · cases hstep
    · cases hstep

end Payments

section Invoices

variable {x : Crates} {asJson : Nip47.Notification → String} {l l₁ l' : Ledger}
  {calls : List HostCall} {invoice : TrackedNwcInvoice} {invoices : List TrackedNwcInvoice}
  {report : InvoiceNotificationWorkerReport}
  {result : Except InvoiceNotificationError InvoiceNotificationWorkerReport} {eventId : EventId}
  {r : CreatedInvoiceRow}

/-- Invoices never become pending again. -/
def InvoiceEvolves (l l' : Ledger) : Prop :=
  ∀ eventId r', l'.invoiceOf eventId = some r' → ∃ r, l.invoiceOf eventId = some r ∧
    (r'.completedAt = none → r.completedAt = none)

theorem InvoiceEvolves.refl (l : Ledger) : InvoiceEvolves l l := fun _ r' hr' => ⟨r', hr', id⟩

theorem InvoiceEvolves.trans (h : InvoiceEvolves l l₁) (h' : InvoiceEvolves l₁ l') :
    InvoiceEvolves l l' := by
  intro eventId r' hr'
  obtain ⟨r₁, hr₁, hopen₁⟩ := h' eventId r' hr'
  obtain ⟨r, hr, hopen⟩ := h eventId r₁ hr₁
  exact ⟨r, hr, fun hnone => hopen (hopen₁ hnone)⟩

theorem InvoiceTurn.frame {step : Except InvoiceNotificationError InvoiceNotificationWorkerReport}
    (h : InvoiceTurn x l invoice r report calls step l') :
    InvoiceFrame invoice.requestEventId l l' := by
  obtain ⟨-, rfl, -⟩ | ⟨now, -, -, hwork⟩ := h.touched
  · exact .refl _ _
  · exact hwork.frame

theorem InvoiceTurn.evolves
    {step : Except InvoiceNotificationError InvoiceNotificationWorkerReport}
    (h : InvoiceTurn x l invoice r report calls step l')
    (hr : l.invoiceOf invoice.requestEventId = some r) (hopen : r.completedAt = none) :
    InvoiceEvolves l l' := by
  intro eventId r' hr'
  by_cases hid : eventId = invoice.requestEventId
  · subst hid
    exact ⟨r, hr, fun _ => hopen⟩
  · rw [h.frame.rows eventId hid] at hr'
    exact ⟨r', hr', id⟩

/-- The invoices a pass inspects, in turn, and when each was inspected. -/
structure Inspection (l l' : Ledger) (calls : List HostCall) (inspected : List EventId) : Prop where
  frames : InvoiceFrames inspected l l'
  evolves : InvoiceEvolves l l'
  touched : ∀ eventId ∈ inspected, ∃ now, (⟨.clockNow, now⟩ : HostCall) ∈ calls ∧
    (⟨.ledger (.record (.notification (.touchNwcInvoice eventId now))), .ok ()⟩ : HostCall) ∈ calls ∧
    ∀ r r', l.invoiceOf eventId = some r → l'.invoiceOf eventId = some r' →
      r'.lastCheckedAt = max now (r.lastCheckedAt + 1)

/-- In an undisturbed pass the invoice loop inspects a part of its batch from the head on; an
invoice whose step fails ends the pass, but is inspected. -/
theorem alone_processInvoices_inspects
    (hpending : ∀ invoice ∈ invoices, InvoicePending l invoice)
    (hdistinct : (invoices.map TrackedNwcInvoice.requestEventId).Nodup)
    (hcalm : ¬ Interrupted calls) (hsound : ¬ Faulted calls)
    (h : Alone x l (processInvoices x asJson invoices report) calls result l') :
    ∃ inspected skipped, invoices.map TrackedNwcInvoice.requestEventId = inspected ++ skipped ∧
      (invoices ≠ [] → inspected ≠ []) ∧ Inspection l l' calls inspected := by
  induction invoices generalizing l calls report with
  | nil =>
    obtain ⟨rfl, rfl, rfl⟩ := exec_done.mp h
    exact ⟨[], [], rfl, by simp, .refl _ _, .refl _, by simp⟩
  | cons invoice rest ih =>
    rw [List.forall_mem_cons] at hpending
    rw [List.map_cons, List.nodup_cons] at hdistinct
    obtain ⟨rfl, rfl, rfl⟩ | ⟨first, step, middle, later, rfl, hfirst, hrest⟩ :=
      alone_processInvoices_cons h
    · exact absurd (Or.inl List.mem_cons_self) hcalm
    have hfirstSub : first ⊆ ⟨.isCancelled, false⟩ :: (first ++ later) :=
      fun call hcall => by simp [hcall]
    have hlaterSub : later ⊆ ⟨.isCancelled, false⟩ :: (first ++ later) :=
      fun call hcall => by simp [hcall]
    obtain ⟨r, hr, hopen, hdecode⟩ := hpending.1
    have hturn := alone_processInvoice hr hopen (decodeInvoice_ok hdecode).2.2.1 hfirst
    have hframe := hturn.frame
    have hevolves := hturn.evolves hr hopen
    obtain ⟨hfault, -⟩ | ⟨now, hclock, htouch, hwork⟩ := hturn.touched
    · exact absurd (hfault.mono hfirstSub) hsound
    have hraised : ∀ s s', l.invoiceOf invoice.requestEventId = some s →
        middle.invoiceOf invoice.requestEventId = some s' →
          s'.lastCheckedAt = max now (s.lastCheckedAt + 1) := by
      intro s s' hs hs'
      rw [hr] at hs
      cases hs
      rw [hwork.row s' hs']
    obtain ⟨report₁, rfl, hlater⟩ | ⟨rfl, rfl, error, rfl, rfl⟩ := hrest
    · have hne : ∀ i ∈ rest, i.requestEventId ≠ invoice.requestEventId :=
        fun i hi heq => hdistinct.1 (heq ▸ List.mem_map_of_mem hi)
      have hpendingLater : ∀ i ∈ rest, InvoicePending middle i :=
        fun i hi => (hpending.2 i hi).congr (hframe.rows _ (hne i hi))
      obtain ⟨inspected, skipped, hsplit, -, hinspection⟩ := ih hpendingLater hdistinct.2
        (fun hi => hcalm (hi.mono hlaterSub)) (fun hf => hsound (hf.mono hlaterSub)) hlater
      have hnot : invoice.requestEventId ∉ inspected := by
        intro hmem
        apply hdistinct.1
        rw [hsplit]
        exact List.mem_append_left _ hmem
      refine ⟨invoice.requestEventId :: inspected, skipped, ?_, by simp,
        hframe.cons hinspection.frames, hevolves.trans hinspection.evolves, ?_⟩
      · rw [List.map_cons, hsplit, List.cons_append]
      · rw [List.forall_mem_cons]
        constructor
        · refine ⟨now, hfirstSub hclock, hfirstSub htouch, ?_⟩
          rw [hinspection.frames.rows _ hnot]
          exact hraised
        · intro other hother
          obtain ⟨time, hclock', htouch', hlast⟩ := hinspection.touched other hother
          have hother' : other ≠ invoice.requestEventId := fun heq => hnot (heq ▸ hother)
          refine ⟨time, hlaterSub hclock', hlaterSub htouch', ?_⟩
          rw [← hframe.rows _ hother']
          exact hlast
    · refine ⟨[invoice.requestEventId], rest.map TrackedNwcInvoice.requestEventId, rfl, by simp,
        hframe.cons (.refl _ _), hevolves, ?_⟩
      rw [List.forall_mem_singleton]
      exact ⟨now, hfirstSub hclock, hfirstSub htouch, hraised⟩

end Invoices

section Passes

variable {x : Crates} {asJson : Nip47.Notification → String} {l l₁ l' : Ledger}
  {calls : List HostCall} {passes : List NotificationPass} {failing : Finset EventId}
  {result : Except InvoiceNotificationError InvoiceNotificationWorkerReport}
  {eventId : EventId} {r : SentPaymentRow}

/-- The two loops of an undisturbed pass. -/
theorem alone_run_undisturbed (hcalm : ¬ Interrupted calls) (hsound : ¬ Faulted calls)
    (h : Alone x l (run x asJson) calls result l') :
    ∃ payments sending sent l₁, l.pendingNwcSentPayments defaultBatchSize = .ok payments ∧
      sending ⊆ calls ∧ Alone x l (processPayments x asJson payments .empty) sending sent l₁ ∧
      l'.sentPayments = l₁.sentPayments ∧ ((∃ error, sent = .error error) ∨
        ∃ checking invoices inspected skipped, checking ⊆ calls ∧
          l₁.pendingNwcInvoices defaultBatchSize = .ok invoices ∧
          invoices.map TrackedNwcInvoice.requestEventId = inspected ++ skipped ∧
          (invoices ≠ [] → inspected ≠ []) ∧ Inspection l₁ l' checking inspected) := by
  obtain ⟨hfault, -⟩ | ⟨asked, sending, later, payments, sent, l₁, rfl, -, hpayments, hsending,
    ⟨error, rfl, -, rfl, rfl⟩ |
    ⟨report₁, asked', checking, invoices, rfl, rfl, -, hinvoices, hchecking⟩⟩ := alone_run h
  · exact absurd hfault hsound
  · exact ⟨payments, sending, _, l', hpayments, fun call hcall => by simp [hcall], hsending, rfl,
      Or.inl ⟨error, rfl⟩⟩
  · have hsub : checking ⊆ asked ++ (sending ++ (asked' ++ checking)) :=
      fun call hcall => by simp [hcall]
    obtain ⟨hpending, hdistinct⟩ := invoiceBatch_pending hinvoices
    obtain ⟨inspected, skipped, hsplit, hsome, hinspection⟩ :=
      alone_processInvoices_inspects hpending hdistinct (fun hi => hcalm (hi.mono hsub))
        (fun hf => hsound (hf.mono hsub)) hchecking
    refine ⟨payments, sending, _, l₁, hpayments, fun call hcall => by simp [hcall], hsending, ?_,
      Or.inr ⟨checking, invoices, inspected, skipped, hsub, hinvoices, hsplit, hsome, hinspection⟩⟩
    rw [hinspection.frames.rest]

theorem sentOf_congr (h : l'.sentPayments = l.sentPayments) (eventId : EventId) :
    l'.sentOf eventId = l.sentOf eventId := by
  rw [Ledger.sentOf, h, Ledger.sentOf]

theorem mem_aheadOf : eventId ∈ l.aheadOf r ↔ ∃ s, l.sentOf eventId = some s ∧
    s.completedAt = none ∧ sentBefore s r ∧ eventId ≠ r.requestEventId := by
  rw [Ledger.aheadOf, List.mem_toFinset, List.mem_map]
  constructor
  · rintro ⟨s, hs, rfl⟩
    rw [List.mem_filter, decide_eq_true_iff, mem_sentQueue] at hs
    obtain ⟨⟨hmem, hopen⟩, hbefore, hne⟩ := hs
    exact ⟨s, sentOf_of_mem hmem, hopen, hbefore, hne⟩
  · rintro ⟨s, hs, hopen, hbefore, hne⟩
    obtain ⟨hmem, rfl⟩ := sentOf_eq_some.mp hs
    refine ⟨s, ?_, rfl⟩
    rw [List.mem_filter, decide_eq_true_iff, mem_sentQueue]
    exact ⟨⟨hmem, hopen⟩, hbefore, hne⟩

theorem sentBefore_congr {s s' : SentPaymentRow} (hcreated : s'.createdAt = s.createdAt)
    (hid : s'.requestEventId = s.requestEventId) : sentBefore s' r ↔ sentBefore s r := by
  rw [sentBefore, hcreated, hid, sentBefore]

theorem SentEvolves.aheadOf (h : SentEvolves l l') (r : SentPaymentRow) :
    l'.aheadOf r ⊆ l.aheadOf r := by
  intro eventId hmem
  obtain ⟨s', hs', hopen', hbefore', hne⟩ := mem_aheadOf.mp hmem
  obtain ⟨s, hs, hcreated, hid, hopen⟩ := h eventId s' hs'
  exact mem_aheadOf.mpr ⟨s, hs, hopen hopen', (sentBefore_congr hcreated hid).mp hbefore', hne⟩

/-- The head of a batch that ends with the payment, or a whole batch that is ahead of it. -/
theorem batch_front (limit : Nat) (hr : r ∈ l.sentQueue) : ∃ front back,
    l.sentQueue.take limit = front ++ back ∧ (∀ s ∈ front, sentBefore s r) ∧
      (r ∈ front ∨ (back = [] ∧ front.length = limit ∧
        r.requestEventId ∉ front.map SentPaymentRow.requestEventId)) := by
  have hrefl : sentBefore r r := (Std.Total.total r r).elim id id
  by_cases hmem : r ∈ l.sentQueue.take limit
  · obtain ⟨before, after, hsplit⟩ := List.append_of_mem hmem
    have hordered := (sentQueue_ordered l).sublist (List.take_sublist limit _)
    rw [hsplit, List.pairwise_append] at hordered
    refine ⟨before ++ [r], after, by rw [hsplit, List.append_assoc]; rfl, ?_, Or.inl (by simp)⟩
    intro s hs
    rw [List.mem_append, List.mem_singleton] at hs
    rcases hs with hbefore | rfl
    · exact hordered.2.2 s hbefore r List.mem_cons_self
    · exact hrefl
  · refine ⟨l.sentQueue.take limit, [], (List.append_nil _).symm, ?_, Or.inr ⟨rfl, ?_, ?_⟩⟩
    · intro s hs
      exact Ranking.rel_of_take (sentQueue_ordered l) hs hr hmem
    · have hlong : ¬ l.sentQueue.length ≤ limit := by
        intro hshort
        rw [List.take_of_length_le hshort] at hmem
        exact hmem hr
      rw [List.length_take]
      omega
    · intro hevent
      obtain ⟨s, hs, hsame⟩ := List.mem_map.mp hevent
      have heq := List.inj_on_of_nodup_map (sentQueue_events_distinct l) (List.mem_of_mem_take hs) hr
        hsame
      exact hmem (heq ▸ hs)

theorem run_sentEvolves (hcalm : ¬ Interrupted calls) (hsound : ¬ Faulted calls)
    (h : Alone x l (run x asJson) calls result l') : SentEvolves l l' := by
  obtain ⟨payments, sending, sent, l₁, hpayments, -, hsending, hsame, -⟩ :=
    alone_run_undisturbed hcalm hsound h
  obtain ⟨hpending, hdistinct⟩ := sentBatch_pending hpayments
  intro eventId r' hr'
  rw [sentOf_congr hsame] at hr'
  exact (alone_processPayments_frames hpending hdistinct hsending).2 eventId r' hr'

/-- The payments at the head of the queue are served, up to the first whose secret step fails
and except those whose relay step fails. -/
theorem run_serves {front back : List SentPaymentRow} (hcalm : ¬ Interrupted calls)
    (hsound : ¬ Faulted calls) (h : Alone x l (run x asJson) calls result l')
    (hsplit : l.sentQueue.take defaultBatchSize = front ++ back)
    (hsecrets : ∀ s ∈ front, NotificationPass.SecretWorks x asJson ⟨l, calls, l'⟩ s) :
    ∀ s ∈ front, NotificationPass.RelaysWork x ⟨l, calls, l'⟩ s.requestEventId →
      ¬ l'.OwesSent s.requestEventId := by
  obtain ⟨payments, sending, sent, l₁, hpayments, hsub, hsending, hsame, -⟩ :=
    alone_run_undisturbed hcalm hsound h
  obtain ⟨hpending, hdistinct⟩ := sentBatch_pending hpayments
  have hrows := pendingNwcSentPayments_ok hpayments
  rw [hsplit, List.mapM_append] at hrows
  simp only [bind_eq_ok, pure_eq_ok] at hrows
  obtain ⟨first, hfirst, last, hlast, rfl⟩ := hrows
  obtain ⟨-, hreached⟩ := alone_processPayments_front hpending hdistinct
    (fun hi => hcalm (hi.mono hsub)) (fun hf => hsound (hf.mono hsub)) (by
      intro payment hpayment connection hnone hactive hfails
      obtain ⟨s, hs, hdecode⟩ := mem_of_mapM hfirst payment hpayment
      rw [(decodeSentPayment_ok hdecode).2.1] at hnone
      exact hsecrets s hs payment connection hdecode hnone hactive (hfails.mono hsub)) hsending
  intro s hs hworks howes
  obtain ⟨payment, hpayment, hdecode⟩ := mapM_mem hfirst hs
  rw [← (decodeSentPayment_ok hdecode).1] at hworks howes
  rw [Ledger.OwesSent, sentOf_congr hsame] at howes
  obtain ⟨r', event, hr', hevent, hrefused⟩ := hreached payment hpayment howes hworks.1
  rw [← sentOf_congr hsame] at hr'
  exact hworks.2 r' event hr' hevent (hrefused.mono (subset_refl _) hsub)

/-- Everything a payment waits for works, except the relay steps of failing payments. -/
def PaymentServed (x : Crates) (asJson : Nip47.Notification → String) (failing : Finset EventId)
    (r : SentPaymentRow) (pass : NotificationPass) : Prop :=
  ∀ s ∈ pass.before.sentQueue.take defaultBatchSize, sentBefore s r →
    pass.SecretWorks x asJson s ∧ (s.requestEventId ∉ failing → pass.RelaysWork x s.requestEventId)

/-- A pass serves a payment or one that is ahead of it. -/
theorem run_advances (hcalm : ¬ Interrupted calls) (hsound : ¬ Faulted calls)
    (h : Alone x l (run x asJson) calls result l') (hr : r ∈ l.sentQueue)
    (hworks : PaymentServed x asJson failing r ⟨l, calls, l'⟩) (hself : r.requestEventId ∉ failing)
    (hfew : (l.aheadOf r ∩ failing).card < defaultBatchSize) :
    ¬ l'.OwesSent r.requestEventId ∨ (l'.aheadOf r).card < (l.aheadOf r).card := by
  obtain ⟨front, back, hsplit, hahead, hcase⟩ := batch_front defaultBatchSize hr
  have hbatch : ∀ s ∈ front, s ∈ l.sentQueue.take defaultBatchSize := by
    intro s hs
    rw [hsplit]
    exact List.mem_append_left _ hs
  have hqueued : ∀ s ∈ front, s ∈ l.sentPayments ∧ s.completedAt = none :=
    fun s hs => mem_sentQueue.mp (List.mem_of_mem_take (hbatch s hs))
  have hservable : ∀ s ∈ front, NotificationPass.SecretWorks x asJson ⟨l, calls, l'⟩ s ∧
      (s.requestEventId ∉ failing → NotificationPass.RelaysWork x ⟨l, calls, l'⟩ s.requestEventId) :=
    fun s hs => hworks s (hbatch s hs) (hahead s hs)
  have hserved := run_serves hcalm hsound h hsplit fun s hs => (hservable s hs).1
  rcases hcase with hmem | ⟨-, hlength, hnot⟩
  · exact Or.inl (hserved r hmem ((hservable r hmem).2 hself))
  right
  -- The batch is full, so it holds a payment that does not keep failing.
  have hdistinct : (front.map SentPaymentRow.requestEventId).Nodup := by
    have hsub := List.take_sublist defaultBatchSize l.sentQueue
    rw [hsplit] at hsub
    have hfront := (List.sublist_append_left front back).trans hsub
    exact (sentQueue_events_distinct l).sublist (hfront.map _)
  have hfront : ∀ s ∈ front, s.requestEventId ∈ l.aheadOf r := by
    intro s hs
    refine mem_aheadOf.mpr ⟨s, sentOf_of_mem (hqueued s hs).1, (hqueued s hs).2, hahead s hs, ?_⟩
    exact fun heq => hnot (heq ▸ List.mem_map_of_mem hs)
  have hgood : ∃ s ∈ front, s.requestEventId ∉ failing := by
    by_contra hall
    push Not at hall
    have hsub : (front.map SentPaymentRow.requestEventId).toFinset ⊆ l.aheadOf r ∩ failing := by
      intro eventId hmem
      obtain ⟨s, hs, rfl⟩ := List.mem_map.mp (List.mem_toFinset.mp hmem)
      exact Finset.mem_inter.mpr ⟨hfront s hs, hall s hs⟩
    have hcard := Finset.card_le_card hsub
    rw [List.toFinset_card_of_nodup hdistinct, List.length_map, hlength] at hcard
    omega
  obtain ⟨s, hs, hgood⟩ := hgood
  apply Finset.card_lt_card
  rw [Finset.ssubset_iff_of_subset ((run_sentEvolves hcalm hsound h).aheadOf r)]
  refine ⟨s.requestEventId, hfront s hs, ?_⟩
  intro hmem
  obtain ⟨s', hs', hopen, -⟩ := mem_aheadOf.mp hmem
  exact hserved s hs ((hservable s hs).2 hgood) ⟨s', hs', hopen⟩

theorem NotificationPasses.sentEvolves (h : NotificationPasses x asJson l passes l')
    (hundisturbed : ∀ pass ∈ passes, pass.Undisturbed) : SentEvolves l l' := by
  induction h with
  | nil => exact .refl _
  | cons pass later ih =>
    rw [List.forall_mem_cons] at hundisturbed
    obtain ⟨hcalm, hsound⟩ := hundisturbed.1
    exact (run_sentEvolves hcalm hsound pass).trans (ih hundisturbed.2)

/-- A payment with few failing ones ahead of it is served after as many passes as there are
payments ahead of it, and one. -/
theorem NotificationPasses.serves (h : NotificationPasses x asJson l passes l')
    (hundisturbed : ∀ pass ∈ passes, pass.Undisturbed) (hr : r ∈ l.sentQueue)
    (hworks : ∀ pass ∈ passes, PaymentServed x asJson failing r pass)
    (hself : r.requestEventId ∉ failing)
    (hfew : (l.aheadOf r ∩ failing).card < defaultBatchSize)
    (hlong : (l.aheadOf r).card < passes.length) : ¬ l'.OwesSent r.requestEventId := by
  induction h generalizing r with
  | nil => exact absurd hlong (Nat.not_lt_zero _)
  | @cons l calls result l₁ passes l' pass later ih =>
    rw [List.forall_mem_cons] at hundisturbed hworks
    obtain ⟨hcalm, hsound⟩ := hundisturbed.1
    have hevolves := run_sentEvolves hcalm hsound pass
    by_cases howes : l₁.OwesSent r.requestEventId
    · obtain ⟨r₁, hr₁, hopen⟩ := howes
      have hadvance := (run_advances hcalm hsound pass hr hworks.1 hself hfew).resolve_left
        (not_not_intro ⟨r₁, hr₁, hopen⟩)
      obtain ⟨s, hs, hcreated, hid, -⟩ := hevolves _ r₁ hr₁
      obtain ⟨hmem, -⟩ := mem_sentQueue.mp hr
      rw [sentOf_of_mem hmem] at hs
      cases hs
      have hkey : ∀ s, sentBefore s r₁ ↔ sentBefore s r :=
        fun s => by rw [sentBefore, hcreated, hid, sentBefore]
      have hplace : l₁.aheadOf r₁ = l₁.aheadOf r := by
        simp only [Ledger.aheadOf, hkey, hid]
      rw [← hid] at hself ⊢
      apply ih hundisturbed.2 (mem_sentQueue.mpr ⟨(sentOf_eq_some.mp hr₁).1, hopen⟩) _ hself
      · rw [hplace]
        exact (Finset.card_le_card (Finset.inter_subset_inter_right (hevolves.aheadOf r))).trans_lt
          hfew
      · rw [hplace]
        rw [List.length_cons] at hlong
        omega
      · intro pass hpass s hs hbefore
        exact hworks.2 pass hpass s hs ((hkey s).mp hbefore)
    · exact fun hlater => howes ((later.sentEvolves hundisturbed.2).owes hlater)

theorem lastChecked_of_invoiceOf {i : CreatedInvoiceRow} (h : l.invoiceOf eventId = some i) :
    l.lastChecked eventId = i.lastCheckedAt := by
  obtain ⟨hmem, rfl⟩ := invoiceOf_eq_some.mp h
  exact Ledger.lastChecked_eq hmem

theorem mem_waiting_all : eventId ∈ l.waiting none ↔
    ∃ i, l.invoiceOf eventId = some i ∧ i.completedAt = none := by
  rw [Ledger.mem_waiting]
  constructor
  · rintro ⟨i, ⟨hmem, hopen, -⟩, rfl⟩
    exact ⟨i, invoiceOf_of_mem hmem, hopen⟩
  · rintro ⟨i, hi, hopen⟩
    obtain ⟨hmem, hid⟩ := invoiceOf_eq_some.mp hi
    exact ⟨i, ⟨hmem, hopen, rfl⟩, hid⟩

/-- Inspecting the head of a batch is a pass of the rotation. -/
theorem Inspection.rotates {invoices : List TrackedNwcInvoice} {inspected skipped : List EventId}
    {floor : Nat} (h : Inspection l l' calls inspected)
    (hbatch : l.pendingNwcInvoices defaultBatchSize = .ok invoices)
    (hsplit : invoices.map TrackedNwcInvoice.requestEventId = inspected ++ skipped)
    (hfloor : ∀ now, (⟨.clockNow, now⟩ : HostCall) ∈ calls → floor ≤ now) :
    Pass floor (l.waiting none) l.lastChecked inspected (l'.waiting none) l'.lastChecked := by
  have hbatch' : l.pendingInvoicesOf none defaultBatchSize = .ok invoices := hbatch
  rw [Ledger.batch_events hbatch'] at hsplit
  have hrow : ∀ eventId ∈ inspected ++ skipped, ∃ i ∈ l.batchRows none defaultBatchSize,
      i.requestEventId = eventId := by
    intro eventId hmem
    rw [← hsplit] at hmem
    exact List.mem_map.mp hmem
  have hordered : (inspected ++ skipped).Pairwise fun a b => l.lastChecked a ≤ l.lastChecked b := by
    rw [← hsplit, List.pairwise_map]
    apply (l.batchRows_pairwise none defaultBatchSize).imp_of_mem
    intro a b ha hb hbefore
    rw [Ledger.lastChecked_eq (Ledger.mem_batchRows ha).1,
      Ledger.lastChecked_eq (Ledger.mem_batchRows hb).1]
    exact Ledger.checked_le hbefore
  have hdistinct : (inspected ++ skipped).Nodup :=
    hsplit ▸ l.batchRows_events_distinct none defaultBatchSize
  have hkept : ∀ j, j ∉ inspected → l'.lastChecked j = l.lastChecked j := by
    intro j hnot
    have hsame := h.frames.rows j hnot
    rw [Ledger.invoiceOf, Ledger.invoiceOf] at hsame
    rw [Ledger.lastChecked, hsame, Ledger.lastChecked]
  constructor
  · intro i hi
    obtain ⟨row, hmem, rfl⟩ := hrow i (List.mem_append_left _ hi)
    exact Ledger.mem_waiting.mpr ⟨row, Ledger.mem_batchRows hmem, rfl⟩
  · exact (List.nodup_append.mp hdistinct).1
  · exact (List.pairwise_append.mp hordered).1
  · intro i hi j hj hnot
    by_cases hskipped : j ∈ skipped
    · exact (List.pairwise_append.mp hordered).2.2 i hi j hskipped
    · obtain ⟨row, hmem, rfl⟩ := hrow i (List.mem_append_left _ hi)
      obtain ⟨other, hother, rfl⟩ := Ledger.mem_waiting.mp hj
      rw [Ledger.lastChecked_eq (Ledger.mem_batchRows hmem).1, Ledger.lastChecked_eq hother.1]
      apply Ledger.checked_le
      apply Ledger.batchRows_first hmem hother
      intro hbatch
      have hevent : other.requestEventId ∈ inspected ++ skipped := by
        rw [← hsplit]
        exact List.mem_map_of_mem hbatch
      exact (List.mem_append.mp hevent).elim hnot hskipped
  · intro i hi hwaits
    obtain ⟨now, hclock, -, hraised⟩ := h.touched i hi
    obtain ⟨row', hrow', -⟩ := mem_waiting_all.mp hwaits
    obtain ⟨row, hrow, -⟩ := h.evolves i row' hrow'
    have hlow := hfloor now hclock
    rw [lastChecked_of_invoiceOf hrow, lastChecked_of_invoiceOf hrow', hraised row row' hrow hrow']
    omega
  · exact hkept
  · intro j hj hnot
    obtain ⟨row, hrow, hopen⟩ := mem_waiting_all.mp hj
    exact mem_waiting_all.mpr ⟨row, (h.frames.rows j hnot).trans hrow, hopen⟩
  · intro i hi
    obtain ⟨row', hrow', hopen'⟩ := mem_waiting_all.mp hi
    obtain ⟨row, hrow, hopen⟩ := h.evolves i row' hrow'
    exact mem_waiting_all.mpr ⟨row, hrow, hopen hopen'⟩

/-- No payment of the batch ends the pass before its invoices. -/
def NotificationPass.SecretsWork (x : Crates) (asJson : Nip47.Notification → String)
    (pass : NotificationPass) : Prop :=
  ∀ s ∈ pass.before.sentQueue.take defaultBatchSize, pass.SecretWorks x asJson s

theorem waiting_congr (h : l'.createdInvoices = l.createdInvoices) :
    l'.waiting none = l.waiting none := by
  ext eventId
  rw [mem_waiting_all, mem_waiting_all, Ledger.invoiceOf, h, Ledger.invoiceOf]

theorem lastChecked_congr (h : l'.createdInvoices = l.createdInvoices) :
    l'.lastChecked = l.lastChecked := by
  funext eventId
  rw [Ledger.lastChecked, h, Ledger.lastChecked]

/-- A pass that gets beyond its payments rotates the invoices. -/
theorem run_rotates {floor : Nat} (hcalm : ¬ Interrupted calls) (hsound : ¬ Faulted calls)
    (h : Alone x l (run x asJson) calls result l')
    (hsecrets : NotificationPass.SecretsWork x asJson ⟨l, calls, l'⟩)
    (hfloor : ∀ now, (⟨.clockNow, now⟩ : HostCall) ∈ calls → floor ≤ now) :
    ∃ inspected, Pass floor (l.waiting none) l.lastChecked inspected (l'.waiting none)
        l'.lastChecked ∧ ((l.waiting none).Nonempty → inspected ≠ []) ∧
      ∀ eventId ∈ inspected, NotificationPass.Inspects ⟨l, calls, l'⟩ eventId := by
  obtain ⟨payments, sending, sent, l₁, hpayments, hsub, hsending, -, hcase⟩ :=
    alone_run_undisturbed hcalm hsound h
  obtain ⟨hpending, hdistinct⟩ := sentBatch_pending hpayments
  obtain ⟨hframes, -⟩ := alone_processPayments_frames hpending hdistinct hsending
  have hrows := pendingNwcSentPayments_ok hpayments
  rw [← List.append_nil payments] at hpending hdistinct hsending
  obtain ⟨hdone, -⟩ := alone_processPayments_front hpending hdistinct
    (fun hi => hcalm (hi.mono hsub)) (fun hf => hsound (hf.mono hsub)) (by
      intro payment hpayment connection hnone hactive hfails
      obtain ⟨s, hs, hdecode⟩ := mem_of_mapM hrows payment hpayment
      rw [(decodeSentPayment_ok hdecode).2.1] at hnone
      exact hsecrets s hs payment connection hdecode hnone hactive (hfails.mono hsub)) hsending
  obtain ⟨report, hreport⟩ := hdone rfl
  rcases hcase with ⟨error, herror⟩ |
    ⟨checking, invoices, inspected, skipped, hsub', hinvoices, hsplit, hsome, hinspection⟩
  · rw [hreport] at herror
    cases herror
  have hsame : l₁.createdInvoices = l.createdInvoices := by rw [hframes.rest]
  refine ⟨inspected, ?_, ?_, ?_⟩
  · rw [← waiting_congr hsame, ← lastChecked_congr hsame]
    exact hinspection.rotates hinvoices hsplit fun now hnow => hfloor now (hsub' hnow)
  · intro hwaits
    apply hsome
    rintro rfl
    have hbatch : l₁.pendingInvoicesOf none defaultBatchSize = .ok [] := hinvoices
    have hevents := Ledger.batch_events hbatch
    rw [← waiting_congr hsame] at hwaits
    apply Ledger.batchRows_ne_nil (show 1 ≤ defaultBatchSize by decide) hwaits
    exact List.map_eq_nil_iff.mp hevents.symm
  · intro eventId hmem
    obtain ⟨now, -, htouch, -⟩ := hinspection.touched eventId hmem
    exact ⟨now, hsub' htouch⟩

/-- Passes that do not inspect an invoice rotate the others. -/
theorem NotificationPasses.rotate {floor : Nat} (h : NotificationPasses x asJson l passes l')
    (hundisturbed : ∀ pass ∈ passes, pass.Undisturbed)
    (hsecrets : ∀ pass ∈ passes, pass.SecretsWork x asJson)
    (hfloor : ∀ pass ∈ passes, ∀ now, (⟨.clockNow, now⟩ : HostCall) ∈ pass.calls → floor ≤ now)
    (hwaits : eventId ∈ l.waiting none) (hnot : ∀ pass ∈ passes, ¬ pass.Inspects eventId) :
    ∃ history, Rotation.Passes floor (l.waiting none) l.lastChecked history (l'.waiting none)
        l'.lastChecked ∧ history.length = passes.length ∧
      (∀ inspected ∈ history, inspected ≠ []) ∧ eventId ∉ history.flatten := by
  induction h with
  | nil => exact ⟨[], .nil, rfl, by simp, by simp⟩
  | cons pass later ih =>
    rw [List.forall_mem_cons] at hundisturbed hsecrets hfloor hnot
    obtain ⟨hcalm, hsound⟩ := hundisturbed.1
    obtain ⟨inspected, hpass, hsome, hinspects⟩ :=
      run_rotates hcalm hsound pass hsecrets.1 hfloor.1
    have hskipped : eventId ∉ inspected := fun hmem => hnot.1 (hinspects eventId hmem)
    obtain ⟨history, hlater, hlength, hall, hmissed⟩ := ih hundisturbed.2 hsecrets.2 hfloor.2
      (hpass.stays eventId hwaits hskipped) hnot.2
    refine ⟨inspected :: history, .cons hpass hlater, by simp [hlength], ?_, ?_⟩
    · rw [List.forall_mem_cons]
      exact ⟨hsome ⟨eventId, hwaits⟩, hall⟩
    · rw [List.flatten_cons, List.mem_append, not_or]
      exact ⟨hskipped, hmissed⟩

/-- An invoice that was not last checked in the future of a pass is inspected after twice as
many passes as there are invoices. -/
theorem NotificationPasses.inspects {i : CreatedInvoiceRow}
    (h : NotificationPasses x asJson l passes l')
    (hundisturbed : ∀ pass ∈ passes, pass.Undisturbed)
    (hsecrets : ∀ pass ∈ passes, pass.SecretsWork x asJson)
    (hclock : ∀ pass ∈ passes, ∀ now, (⟨.clockNow, now⟩ : HostCall) ∈ pass.calls →
      i.lastCheckedAt ≤ now)
    (hi : i ∈ l.createdInvoices) (hopen : i.completedAt = none)
    (hlong : 2 * (l.waiting none).card ≤ passes.length) :
    ∃ pass ∈ passes, pass.Inspects i.requestEventId := by
  by_contra hnone
  push Not at hnone
  have hwaits : i.requestEventId ∈ l.waiting none :=
    mem_waiting_all.mpr ⟨i, invoiceOf_of_mem hi, hopen⟩
  obtain ⟨history, hrotate, hlength, hall, hmissed⟩ :=
    h.rotate hundisturbed hsecrets hclock hwaits hnone
  have hbound : ∀ other, (before i.requestEventId history).count other ≤ 2 := by
    intro other
    have hcount := hrotate.bypass_floor (i := other) hwaits
    rw [Ledger.lastChecked_eq hi] at hcount
    omega
  have hshort := hrotate.length_le hall hmissed hbound
  rw [Finset.sum_const, smul_eq_mul, hlength, Finset.card_erase_of_mem hwaits] at hshort
  have hpos := Finset.card_pos.mpr ⟨_, hwaits⟩
  omega

theorem card_aheadOf_lt (hr : r ∈ l.sentQueue) : (l.aheadOf r).card < l.sentQueue.length := by
  have hsub : l.aheadOf r ⊂ (l.sentQueue.map SentPaymentRow.requestEventId).toFinset := by
    rw [Finset.ssubset_iff_of_subset]
    · refine ⟨r.requestEventId, ?_, ?_⟩
      · rw [List.mem_toFinset]
        exact List.mem_map_of_mem hr
      · intro hmem
        obtain ⟨s, -, -, -, hne⟩ := mem_aheadOf.mp hmem
        exact hne rfl
    · intro eventId hmem
      rw [Ledger.aheadOf, List.mem_toFinset] at hmem
      rw [List.mem_toFinset]
      exact List.map_subset _ (List.filter_subset_self _) hmem
  have hcard := Finset.card_lt_card hsub
  rwa [List.toFinset_card_of_nodup (sentQueue_events_distinct l), List.length_map] at hcard

end Passes

/-- A call the ledger failed. -/
def ledgerFails : HostCall → Bool
  | ⟨.ledger _, .error _⟩ => true
  | _ => false

/-- A call that inspects an invoice. -/
def touches : HostCall → Bool
  | ⟨.ledger (.record (.notification (.touchNwcInvoice _ _))), .ok _⟩ => true
  | _ => false

/-- Run a program alone against a host whose script depends on what it is asked. -/
def runScripted {α : Type} (x : Crates) (scripts : HostOp → HostScript) :
    HostProg α → Ledger → List HostCall × α × Ledger
  | .done a, l => ([], a, l)
  | .call op next, l =>
    let answer := (scripts op).answer x l op
    let rest := runScripted x scripts (next answer.1) answer.2
    (⟨op, answer.1⟩ :: rest.1, rest.2)

section Scripted

variable {α : Type} {x : Crates} {scripts : HostOp → HostScript} {p : HostProg α} {l : Ledger}

theorem runScripted_alone : Alone x l p (runScripted x scripts p l).1
    (runScripted x scripts p l).2.1 (runScripted x scripts p l).2.2 := by
  induction p generalizing l with
  | done a => exact .done
  | call op next ih => exact .call ((scripts op).answers x l op) (ih _)

theorem runAlone_eq_scripted (script : HostScript) :
    runAlone x script p l = runScripted x (fun _ => script) p l := by
  induction p generalizing l with
  | done a => rfl
  | call op next ih => rw [runAlone, runScripted, ih]

/-- What a scripted host answers does not depend on when it is asked, the ledger apart. -/
theorem scripted_answer {call : HostCall} (h : call ∈ (runScripted x scripts p l).1) :
    ∃ l₁, call.reply = ((scripts call.op).answer x l₁ call.op).1 := by
  induction p generalizing l with
  | done a => cases h
  | call op next ih =>
    rw [runScripted, List.mem_cons] at h
    rcases h with rfl | hlater
    · exact ⟨l, rfl⟩
    · exact ih _ hlater

theorem scripted_calm (hcancelled : ∀ op, (scripts op).cancelled = false)
    (hremaining : ∀ op, (scripts op).remaining.isZero = false) :
    ¬ Interrupted (runScripted x scripts p l).1 := by
  rintro (hcancel | ⟨remaining, hzero, hasked⟩)
  · obtain ⟨_, hreply⟩ := scripted_answer hcancel
    exact Bool.noConfusion (hreply.trans (hcancelled _))
  · obtain ⟨_, hreply⟩ := scripted_answer hasked
    have hsame : remaining = (scripts .deadlineRemaining).remaining := hreply
    rw [hsame, hremaining] at hzero
    cases hzero

end Scripted

theorem not_faulted {calls : List HostCall} (h : ∀ call ∈ calls, ledgerFails call = false) :
    ¬ Faulted calls := by
  rintro ⟨op, error, hmem⟩
  cases h _ hmem

theorem not_inspects {pass : NotificationPass} {eventId : EventId}
    (h : ∀ call ∈ pass.calls, touches call = false) : ¬ pass.Inspects eventId := by
  rintro ⟨now, hmem⟩
  cases h _ hmem

/-- In undisturbed passes, whatever keeps failing: a payment is served within as many passes as
there are payments pending, if no secret step fails before it and fewer than a batch of relay
steps; an invoice is inspected within twice as many passes as there are invoices pending, if no
payment of a batch ends the pass and it was not last checked in the future. -/
theorem other_records_are_attempted {x : Crates} {asJson : Nip47.Notification → String}
    {l l' : Ledger} {passes : List NotificationPass} (h : NotificationPasses x asJson l passes l')
    (hundisturbed : ∀ pass ∈ passes, pass.Undisturbed) :
    (∀ r ∈ l.sentQueue, ∀ failing : Finset EventId, r.requestEventId ∉ failing →
      (∀ pass ∈ passes, PaymentServed x asJson failing r pass) →
      (l.aheadOf r ∩ failing).card < defaultBatchSize → l.sentQueue.length ≤ passes.length →
        ¬ l'.OwesSent r.requestEventId) ∧
    ∀ i ∈ l.createdInvoices, i.completedAt = none →
      (∀ pass ∈ passes, pass.SecretsWork x asJson) →
      (∀ pass ∈ passes, ∀ now, (⟨.clockNow, now⟩ : HostCall) ∈ pass.calls →
        i.lastCheckedAt ≤ now) →
      2 * (l.waiting none).card ≤ passes.length →
        ∃ pass ∈ passes, pass.Inspects i.requestEventId := by
  constructor
  · intro r hr failing hself hworks hfew hlong
    apply h.serves hundisturbed hr hworks hself hfew
    exact (card_aheadOf_lt hr).trans_le hlong
  · intro i hi hopen hsecrets hclock hlong
    exact h.inspects hundisturbed hsecrets hclock hi hopen hlong

namespace Sample

def owedPayment : TrackedNwcPayment where
  requestEventId := ⟨1⟩
  paymentHash := ⟨1⟩
  connectionId := connectionId
  connectionRevision := .initial
  invoice := "lnbc"
  amount := 1000
  fee := 0
  preimage := ⟨7⟩
  createdAt := 40
  settledAt := 50
  notificationEventJson := none

def newInvoice : TrackedNwcInvoice where
  requestEventId := ⟨2⟩
  paymentHash := ⟨2⟩
  connectionId := connectionId
  connectionRevision := .initial
  invoice := "lnbc"
  description := none
  amount := 1000
  createdAt := 40
  expiresAt := 700
  notificationEventJson := none

/-- A settled payment and an invoice of one connection. -/
def recorded : List (LedgerOp × Entropy) :=
  [(.record (.recordNwcInvoice newInvoice [relay]), ⟨none, some 5⟩),
   (.record (.recordNwcSentPayment owedPayment [relay]), noEntropy),
   registry (.importConnection connection 30 0 30)]

/-- No event is stored yet, so the payment needs its secret. -/
def starved : Ledger := (performAll crates .empty recorded).2

/-- The ledger after a pass whose relays accept every event. -/
def passed (l : Ledger) : Ledger := (notificationPass false l).2.2

def passOver (l : Ledger) : NotificationPass := ⟨l, (notificationPass false l).1, passed l⟩

theorem passOver_alone (l : Ledger) {passes : List NotificationPass} {l' : Ledger}
    (later : NotificationPasses crates notificationText (passed l) passes l') :
    NotificationPasses crates notificationText l (passOver l :: passes) l' :=
  .cons (runAlone_alone crates (acceptingScript false) (run crates notificationText) l) later

theorem passOver_undisturbed {l : Ledger}
    (h : ∀ call ∈ (notificationPass false l).1, ledgerFails call = false) :
    (passOver l).Undisturbed :=
  ⟨by
    rw [passOver, notificationPass, runAlone_eq_scripted]
    exact scripted_calm (fun _ => rfl) (fun _ => by decide), not_faulted h⟩

theorem passed_starved : passed starved = starved := by
  apply Ledger.ext
  all_goals apply Table.ext
  all_goals decide

end Sample

/-- While the secret of one payment is unavailable, no number of undisturbed passes inspects the
invoice of another request. -/
theorem failing_secret_starves_invoice :
    Sample.starved.waiting none = {⟨2⟩} ∧ ∀ count, ∃ passes, passes.length = count ∧
      NotificationPasses Sample.crates Sample.notificationText Sample.starved passes
        Sample.starved ∧
      ∀ pass ∈ passes, pass.Undisturbed ∧ ¬ pass.Inspects ⟨2⟩ := by
  have hcalls : ∀ call ∈ (Sample.notificationPass false Sample.starved).1,
      ledgerFails call = false ∧ touches call = false := by
    have hall : (Sample.notificationPass false Sample.starved).1.all
        (fun call => !ledgerFails call && !touches call) = true := by decide
    simpa using hall
  constructor
  · decide
  intro count
  induction count with
  | zero => exact ⟨[], rfl, .nil, nofun⟩
  | succ count ih =>
    obtain ⟨passes, hlength, hpasses, hall⟩ := ih
    refine ⟨Sample.passOver Sample.starved :: passes, by rw [List.length_cons, hlength], ?_, ?_⟩
    · apply Sample.passOver_alone
      rw [Sample.passed_starved]
      exact hpasses
    · rw [List.forall_mem_cons]
      refine ⟨⟨?_, ?_⟩, hall⟩
      · exact Sample.passOver_undisturbed fun call hcall => (hcalls call hcall).1
      · exact not_inspects fun call hcall => (hcalls call hcall).2

namespace Sample

/-- A second payment and a second invoice, each recorded after the first one. -/
def laterPayment : TrackedNwcPayment :=
  { owedPayment with requestEventId := ⟨3⟩, paymentHash := ⟨3⟩, createdAt := 45 }

def laterInvoice : TrackedNwcInvoice :=
  { newInvoice with requestEventId := ⟨4⟩, paymentHash := ⟨4⟩, createdAt := 45 }

/-- Both payments and both invoices have an event; the relay refuses that of the first payment. -/
def stored : Ledger :=
  (performAll crates .empty
    ((.record (.notification (.storeNwcInvoiceNotificationEvent ⟨4⟩ "event" 60)), noEntropy) ::
      (.record (.notification (.storeNwcInvoiceNotificationEvent ⟨2⟩ "event" 60)), noEntropy) ::
      (.record (.notification (.storeNwcSentNotificationEvent ⟨3⟩ "event")), noEntropy) ::
      (.record (.notification (.storeNwcSentNotificationEvent ⟨1⟩ "refused")), noEntropy) ::
      (.record (.recordNwcInvoice laterInvoice [relay]), ⟨none, some 6⟩) ::
      (.record (.recordNwcSentPayment laterPayment [relay]), noEntropy) ::
      recorded)).2

def refusingScripts : HostOp → HostScript
  | .publishEvent _ eventJson _ =>
    if eventJson = "refused" then { acceptingScript false with published := .error ⟨.unavailable⟩ }
    else acceptingScript false
  | _ => acceptingScript false

def refusingPass (l : Ledger) : NotificationPass :=
  let out := runScripted crates refusingScripts (run crates notificationText) l
  ⟨l, out.1, out.2.2⟩

def served : Ledger := (refusingPass stored).after

theorem refusingPass_undisturbed {l : Ledger}
    (h : ∀ call ∈ (refusingPass l).calls, ledgerFails call = false) :
    (refusingPass l).Undisturbed := by
  refine ⟨scripted_calm ?_ ?_, not_faulted h⟩
  · intro op
    unfold refusingScripts
    split
    · split <;> rfl
    · rfl
  · intro op
    unfold refusingScripts
    split
    · split <;> decide
    · decide

theorem refusingPass_accepts {l : Ledger} {relays : Set SecureRelayUrl} {eventJson : String}
    (h : eventJson ≠ "refused") : ¬ RelayRefuses relays eventJson (refusingPass l).calls := by
  rintro ⟨relay, -, context, error, hmem⟩
  obtain ⟨_, hreply⟩ := scripted_answer hmem
  simp only [refusingScripts, if_neg h] at hreply
  cases hreply

/-- Events and relays as the passes find them. -/
theorem refusingPass_serves {l : Ledger}
    (hevents : ∀ s ∈ l.sentQueue, s.notificationEventJson ≠ none)
    (hrelays : ∀ s ∈ l.sentPaymentRelays.rows,
      SecureRelayUrl.parse crates s.relayUrl = .ok ⟨s.relayUrl⟩)
    (hafter : ∀ s ∈ (refusingPass l).after.sentPayments.rows, s.requestEventId ≠ ⟨1⟩ →
      s.notificationEventJson ≠ some "refused") :
    (refusingPass l).SecretsWork crates notificationText ∧
      ∀ r, PaymentServed crates notificationText {⟨1⟩} r (refusingPass l) := by
  have hsecrets : (refusingPass l).SecretsWork crates notificationText := by
    intro s hs payment connection _ hnone
    exact absurd hnone (hevents s (List.mem_of_mem_take hs))
  refine ⟨hsecrets, fun _ s hs _ => ⟨hsecrets s hs, fun hother => ⟨?_, ?_⟩⟩⟩
  · rintro url ⟨row, hrow, hevent, rfl, hopen⟩
    exact ⟨row.relayUrl, ⟨row, hrow, hevent, rfl, hopen⟩, hrelays row hrow⟩
  · intro r' event hr' hstored
    obtain ⟨hmem, hid⟩ := sentOf_eq_some.mp hr'
    apply refusingPass_accepts
    rintro rfl
    refine hafter r' hmem ?_ hstored
    rw [hid]
    simpa using hother

theorem stored_sound : ∀ call ∈ (refusingPass stored).calls, ledgerFails call = false := by
  decide

theorem served_sound : ∀ call ∈ (refusingPass served).calls, ledgerFails call = false := by
  decide +kernel

theorem served_again : (refusingPass served).after = served := by
  apply Ledger.ext
  all_goals apply Table.ext
  all_goals decide +kernel

def refusingPasses : List NotificationPass :=
  [refusingPass stored, refusingPass served, refusingPass served, refusingPass served]

theorem refusingPasses_run :
    NotificationPasses crates notificationText stored refusingPasses served := by
  have hpass : ∀ {l passes}, NotificationPasses crates notificationText (refusingPass l).after
      passes served → NotificationPasses crates notificationText l (refusingPass l :: passes)
        served := fun later => .cons runScripted_alone later
  have hagain : ∀ {passes}, NotificationPasses crates notificationText served passes served →
      NotificationPasses crates notificationText served (refusingPass served :: passes) served := by
    intro passes later
    apply hpass
    rwa [served_again]
  exact hpass (hagain (hagain (hagain .nil)))

theorem forall_refusingPasses {P : NotificationPass → Prop} (hfirst : P (refusingPass stored))
    (hlater : P (refusingPass served)) : ∀ pass ∈ refusingPasses, P pass := by
  simp [refusingPasses, hfirst, hlater]

theorem refusingPasses_serve : ∀ pass ∈ refusingPasses,
    pass.SecretsWork crates notificationText ∧
      ∀ r, PaymentServed crates notificationText {⟨1⟩} r pass := by
  have hevents : ∀ l ∈ [stored, served], ∀ s ∈ l.sentQueue, s.notificationEventJson ≠ none := by
    decide
  have hrelays : ∀ l ∈ [stored, served], ∀ s ∈ l.sentPaymentRelays.rows,
      SecureRelayUrl.parse crates s.relayUrl = .ok ⟨s.relayUrl⟩ := by decide
  have hafter : ∀ s ∈ served.sentPayments.rows, s.requestEventId ≠ ⟨1⟩ →
      s.notificationEventJson ≠ some "refused" := by decide
  simp only [List.forall_mem_cons] at hevents hrelays
  apply forall_refusingPasses
  · exact refusingPass_serves hevents.1 hrelays.1 hafter
  · apply refusingPass_serves hevents.2.1 hrelays.2.1
    rwa [served_again]

end Sample

/-- The relay refuses the event of the first payment in every pass; the second one is delivered
all the same, and both invoices are inspected. -/
theorem stored_records_are_attempted :
    (∃ r ∈ Sample.stored.sentQueue, r.requestEventId = ⟨3⟩ ∧ Sample.stored.aheadOf r = {⟨1⟩}) ∧
      Sample.served.OwesSent ⟨1⟩ ∧ ¬ Sample.served.OwesSent ⟨3⟩ ∧
      ∀ eventId ∈ [(⟨2⟩ : EventId), ⟨4⟩], ∃ pass ∈ Sample.refusingPasses,
        pass.Inspects eventId := by
  have hpayment : ∃ r ∈ Sample.stored.sentQueue,
      r.requestEventId = ⟨3⟩ ∧ Sample.stored.aheadOf r = {⟨1⟩} := by decide
  have howed : ∃ r ∈ Sample.served.sentQueue, r.requestEventId = ⟨1⟩ := by decide
  have hinvoices : ∀ eventId ∈ [(⟨2⟩ : EventId), ⟨4⟩], ∃ i ∈ Sample.stored.createdInvoices.rows,
      i.requestEventId = eventId ∧ i.completedAt = none ∧ i.lastCheckedAt ≤ 100 := by
    decide
  have hlength : Sample.stored.sentQueue.length ≤ 4 := by decide
  have hcard : 2 * (Sample.stored.waiting none).card ≤ 4 := by decide
  obtain ⟨hserved, hinspected⟩ := other_records_are_attempted Sample.refusingPasses_run
    (Sample.forall_refusingPasses (Sample.refusingPass_undisturbed Sample.stored_sound)
      (Sample.refusingPass_undisturbed Sample.served_sound))
  refine ⟨hpayment, ?_, ?_, ?_⟩
  · obtain ⟨r, hr, hid⟩ := howed
    obtain ⟨hmem, hopen⟩ := mem_sentQueue.mp hr
    exact ⟨r, sentOf_eq_some.mpr ⟨hmem, hid⟩, hopen⟩
  · obtain ⟨r, hr, hid, hahead⟩ := hpayment
    rw [← hid]
    apply hserved r hr {⟨1⟩}
    · rw [hid]
      decide
    · exact fun pass hpass => (Sample.refusingPasses_serve pass hpass).2 r
    · rw [hahead]
      decide
    · exact hlength
  · intro eventId hmem
    obtain ⟨i, hi, rfl, hopen, hchecked⟩ := hinvoices eventId hmem
    apply hinspected i hi hopen
    · exact fun pass hpass => (Sample.refusingPasses_serve pass hpass).1
    · have hnow : ∀ l now, (⟨.clockNow, now⟩ : HostCall) ∈ (Sample.refusingPass l).calls →
          i.lastCheckedAt ≤ now := by
        intro l now hasked
        obtain ⟨_, hreply⟩ := scripted_answer hasked
        have hsame : now = 100 := hreply
        rw [hsame]
        exact hchecked
      exact Sample.forall_refusingPasses (hnow _) (hnow _)
    · exact hcard

end NwcMobile
