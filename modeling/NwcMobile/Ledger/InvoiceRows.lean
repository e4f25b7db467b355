import NwcMobile.Ledger.NotificationEffects
import NwcMobile.Ledger.RegistryEffects

/-!
What one call can do to the invoice recorded for a request. The row is written by
the call that records it first; from then on only what it says about its
notification changes, until the row is forgotten.
-/

namespace NwcMobile

open Fallible Relational Notifications

/-- One step of an invoice row: it is recorded for a connection of the ledger, looked at,
given one of the notifications that the step `stores`, completed once no relay is owed
that, or forgotten. -/
inductive InvoiceStep (due : Set String) (stores : String → Prop) (owned : String → Prop) :
    Option CreatedInvoiceRow → Option CreatedInvoiceRow → Prop
  | kept (row : Option CreatedInvoiceRow) : InvoiceStep due stores owned row row
  | recorded {r : CreatedInvoiceRow} (hevent : r.notificationEventJson = none)
      (hopen : r.completedAt = none) (howned : owned r.connectionId) :
      InvoiceStep due stores owned none (some r)
  | touched {r : CreatedInvoiceRow} (checkedAt : Nat) (hopen : r.completedAt = none) :
      InvoiceStep due stores owned (some r) (some { r with lastCheckedAt := checkedAt })
  | stored {r : CreatedInvoiceRow} (json : String) (createdAt : Nat) (hopen : r.completedAt = none)
      (hevent : r.notificationEventJson = none) (hstores : stores json) :
      InvoiceStep due stores owned (some r)
        (some { r with notificationEventJson := some json, notificationCreatedAt := some createdAt })
  | completed {r : CreatedInvoiceRow} (completedAt : Nat) (hopen : r.completedAt = none)
      (hevent : r.notificationEventJson.isSome) (hnone : due = ∅) :
      InvoiceStep due stores owned (some r) (some { r with completedAt := some completedAt })
  | forgotten {r : CreatedInvoiceRow} (hevent : r.notificationEventJson = none) :
      InvoiceStep due stores owned (some r) none

section Operations

variable {x : Crates} {l l' : Ledger} {due : Set String} {stores owned : String → Prop}
  {eventId other : EventId} {time : UnixTimestamp} {json : String} {r : CreatedInvoiceRow} {invoice tracked : TrackedNwcInvoice}
  {relays : List SecureRelayUrl}

/-- An update moves every row as it moves the rows it writes. -/
theorem invoiceStep_update {t : Table createdInvoiceSchema} {p : CreatedInvoiceRow → Bool}
    {f : CreatedInvoiceRow → CreatedInvoiceRow} (hupdate : l.createdInvoices.update p f = some t)
    (hsame : ∀ r, (f r).requestEventId = r.requestEventId)
    (hstep : ∀ r, p r = true → r.requestEventId = other →
      InvoiceStep due stores owned (some r) (some (f r))) :
    InvoiceStep due stores owned (l.invoiceOf other)
      (Ledger.invoiceOf { l with createdInvoices := t } other) := by
  have hrow : Ledger.invoiceOf { l with createdInvoices := t } other =
      (l.invoiceOf other).map fun r => if p r then f r else r := by
    apply Table.selectRow_update hupdate
    intro r
    rw [hsame]
  rw [hrow]
  cases hother : l.invoiceOf other with
  | none => exact .kept none
  | some r =>
    rw [Option.map_some]
    by_cases hp : p r = true
    · rw [if_pos hp]
      exact hstep r hp (invoiceOf_eq_some.mp hother).2
    · rw [if_neg hp]
      exact .kept (some r)

theorem expireNwcInvoice_step (time : UnixTimestamp)
    (h : l.expireNwcInvoice eventId time = .ok ((), l'))
    (other : EventId) : InvoiceStep due stores owned (l.invoiceOf other) (l'.invoiceOf other) := by
  simp only [Ledger.expireNwcInvoice, Except.ok.injEq, Prod.mk.injEq, true_and] at h
  subst h
  unfold Ledger.invoiceOf
  rw [Table.selectRow_delete (Ledger.invoiceEvent_key other)]
  cases l.createdInvoices.selectRow fun s => s.requestEventId == other with
  | none => exact .kept none
  | some r =>
    rw [Option.filter_some]
    split
    · exact .kept (some r)
    · rename_i hexpired
      apply InvoiceStep.forgotten
      simp only [Bool.not_eq_true', Bool.not_eq_false, Bool.and_eq_true,
        Option.isNone_iff_eq_none] at hexpired
      exact hexpired.2

/-- What recording an invoice leaves: the row that was there first, which is the one
returned. It has the payment hash and the text of the invoice recorded. -/
theorem recordNwcInvoice_ok {token : Option (BitVec 256)}
    (h : l.recordNwcInvoice token invoice relays = .ok (tracked, l')) :
    (∃ r, l'.invoiceOf invoice.requestEventId = some r ∧ decodeInvoice r = .ok tracked ∧
        r.paymentHash = invoice.paymentHash ∧ r.invoice = invoice.invoice) ∧
      ∀ other, l'.invoiceOf other = l.invoiceOf other ∨ l.invoiceOf other = none ∧
        ∃ r, l'.invoiceOf other = some r ∧ r.notificationEventJson = none ∧ r.completedAt = none ∧
          l.hasConnection r.connectionId = true := by
  simp only [Ledger.recordNwcInvoice, bind_eq_ok, ensure_eq_ok, okOr_eq_ok, pure_eq_ok,
    Prod.mk.injEq, Bool.or_eq_true, Table.any_eq_true] at h
  obtain ⟨-, -, revision, -, amount, -, createdAt, -, expiresAt, -, trigger, -, createdInvoices,
    hinsert, -, hconnection, row, hrow, existing, hdecode, -, hsame, invoiceRelays, -, rfl, rfl⟩ := h
  simp only [Bool.and_eq_true, beq_iff_eq] at hsame
  obtain ⟨⟨⟨hhash, -⟩, -⟩, htext⟩ := hsame
  have hdecoded := hdecode
  simp only [decodeInvoice, bind_eq_ok, mapErr_eq_ok, pure_eq_ok] at hdecoded
  obtain ⟨connectionId, -, rfl⟩ := hdecoded
  refine ⟨⟨row, hrow, hdecode, hhash, htext⟩, ?_⟩
  intro other
  rcases Table.insertOrIgnore_cases hinsert with ⟨rfl, -⟩ | ⟨hfresh, hnew⟩
  · exact Or.inl rfl
  · cases hother : l.invoiceOf other with
    | some r =>
      left
      obtain ⟨hmem, hid⟩ := invoiceOf_eq_some.mp hother
      exact invoiceOf_eq_some.mpr ⟨(Table.mem_insert hnew).mpr (Or.inl hmem), hid⟩
    | none =>
      by_cases hevent : invoice.requestEventId = other
      · right
        have hself := Table.insert_self hnew
        refine ⟨rfl, _, invoiceOf_eq_some.mpr ⟨hself, hevent⟩, rfl, rfl, ?_⟩
        rcases hconnection with ⟨known, hknown, hsameEvent⟩ | hconnection
        · rw [hfresh known hknown] at hsameEvent
          cases hsameEvent
        · exact hconnection
      · left
        have hnone : l.createdInvoices.selectRow (fun s => s.requestEventId == other) = none := hother
        rw [Table.selectRow_eq_none] at hnone
        apply Table.selectRow_eq_none.mpr
        intro s hs
        rcases (Table.mem_insert hnew).mp hs with hold | rfl
        · exact hnone s hold
        · simpa using hevent

/-- The records of the notification worker and their relays are the same. -/
structure RecordsKept (l l' : Ledger) : Prop where
  invoices : l'.createdInvoices = l.createdInvoices
  invoiceRelays : l'.invoiceNotificationRelays = l.invoiceNotificationRelays
  payments : l'.sentPayments = l.sentPayments
  paymentRelays : l'.sentPaymentRelays = l.sentPaymentRelays

theorem recordsKept_refl (l : Ledger) : RecordsKept l l := ⟨rfl, rfl, rfl, rfl⟩

/-- No registry operation touches the records of the notification worker. -/
theorem registryOp_records {op : RegistryOp} {value : op.Value}
    (h : op.run x l = .ok (value, l')) : RecordsKept l l' := by
  have hinserted : ∀ {c : NewConnection} {createdAt used now} {active : ActiveConnection},
      l.insertConnectionState c createdAt used now = .ok (active, l') →
        RecordsKept l l' := by
    intro c createdAt used now active h
    simp only [Ledger.insertConnectionState, bind_eq_ok, pure_eq_ok, Prod.mk.injEq] at h
    obtain ⟨_, -, _, -, _, -, _, -, _, -, _, -, _, -, _, -, _, -, _, -, _, -, _, -, _, -, _, -,
      -, rfl⟩ := h
    exact ⟨rfl, rfl, rfl, rfl⟩
  cases op with
  | insertConnection c now => exact hinserted h
  | importConnection c createdAt used now =>
    simp only [RegistryOp.run, Ledger.importConnection, bind_eq_ok] at h
    obtain ⟨-, -, h⟩ := h
    exact hinserted h
  | tombstoneConnection id revision now =>
    simp only [RegistryOp.run, Ledger.tombstoneConnection, bind_eq_ok, pure_eq_ok,
      Prod.mk.injEq] at h
    obtain ⟨_, -, _, -, _, -, _, -, _, -, _, -, _, -, _, -, _, -, _, -, _, -, -, rfl⟩ := h
    exact ⟨rfl, rfl, rfl, rfl⟩
  | loadConnection id => rw [(reading_eq_ok.mp h).2]; exact recordsKept_refl l
  | loadActiveConnection id => rw [(reading_eq_ok.mp h).2]; exact recordsKept_refl l
  | listActiveConnections => rw [(reading_eq_ok.mp h).2]; exact recordsKept_refl l
  | loadActiveConnectionByKeys client wallet => rw [(reading_eq_ok.mp h).2]; exact recordsKept_refl l
  | isRelayApprovedForWallet wallet relay now => rw [(reading_eq_ok.mp h).2]; exact recordsKept_refl l
  | isConnectionRevisionActive id revision => rw [(reading_eq_ok.mp h).2]; exact recordsKept_refl l

theorem notificationOp_invoiceStep {op : NotificationOp} {value : op.Value}
    (h : op.run x l = .ok (value, l')) (other : EventId)
    (hstores : ∀ json time, op = .storeNwcInvoiceNotificationEvent other json time → stores json) :
    InvoiceStep (owed l.invoiceNotificationRelays other) stores owned (l.invoiceOf other)
      (l'.invoiceOf other) := by
  have hsame : l'.createdInvoices = l.createdInvoices →
      InvoiceStep (owed l.invoiceNotificationRelays other) stores owned (l.invoiceOf other)
        (l'.invoiceOf other) := by
    intro hrows
    unfold Ledger.invoiceOf
    rw [hrows]
    exact .kept _
  cases op with
  | touchNwcInvoice e time =>
    obtain ⟨t, rfl, hupdate⟩ := Ledger.touchNwcInvoice_ok h
    apply invoiceStep_update hupdate
    · intro r
      rfl
    · intro r hr _
      simp only [Bool.and_eq_true, Option.isNone_iff_eq_none] at hr
      exact .touched _ hr.2
  | storeNwcInvoiceNotificationEvent e json time =>
    simp only [NotificationOp.run, Ledger.storeNwcInvoiceNotificationEvent, bind_eq_ok, okOr_eq_ok,
      pure_eq_ok, Prod.mk.injEq] at h
    obtain ⟨-, -, stored, -, t, hupdate, row, -, canonical, -, -, rfl⟩ := h
    apply invoiceStep_update hupdate
    · intro r
      rfl
    · intro r hr hother
      simp only [Bool.and_eq_true, Option.isNone_iff_eq_none, beq_iff_eq] at hr
      obtain ⟨⟨hevent, hopen⟩, hnone⟩ := hr
      rw [← hevent, hother] at hstores
      exact .stored _ _ hopen hnone (hstores json time rfl)
  | completeNwcInvoiceNotification e time =>
    simp only [NotificationOp.run, Ledger.completeNwcInvoiceNotification, bind_eq_ok, okOr_eq_ok,
      pure_eq_ok, Prod.mk.injEq] at h
    obtain ⟨stored, -, t, hupdate, -, rfl⟩ := h
    apply invoiceStep_update hupdate
    · intro r
      rfl
    · intro r hr hother
      simp only [Bool.and_eq_true, Option.isNone_iff_eq_none, beq_iff_eq, Bool.not_eq_true',
        undelivered_eq_false] at hr
      obtain ⟨⟨⟨hevent, hstored⟩, hopen⟩, hnone⟩ := hr
      rw [← hevent, hother] at hnone
      exact .completed _ hopen hstored hnone
  | expireNwcInvoice e time => exact expireNwcInvoice_step time h other
  | acknowledgeNwcInvoiceRelay e relay time =>
    obtain ⟨-, hframe⟩ := acknowledgeNwcInvoiceRelay_ok h
    exact hsame (by rw [hframe])
  | storeNwcSentNotificationEvent e json =>
    have hframe := (storeNwcSentNotificationEvent_ok h).1.rest
    exact hsame (by rw [hframe])
  | acknowledgeNwcSentRelay e relay time =>
    have hframe := (acknowledgeNwcSentRelay_ok h).2
    exact hsame (by rw [hframe])
  | completeNwcSentNotification e time =>
    simp only [NotificationOp.run, Ledger.completeNwcSentNotification, bind_eq_ok, pure_eq_ok,
      Prod.mk.injEq] at h
    obtain ⟨_, -, _, -, -, rfl⟩ := h
    exact hsame rfl
  | discardNwcSentPayment e =>
    have hframe := (discardNwcSentPayment_ok h).1.rest
    exact hsame (by rw [hframe])
  | _ => exact hsame (by rw [(reading_eq_ok.mp h).2])

/-- One call moves an invoice row one step. -/
theorem LedgerStep.invoiceStep {call : LedgerCall} (h : LedgerStep x l call l') (eventId : EventId) :
    InvoiceStep (owed l.invoiceNotificationRelays eventId)
      (fun json => ∃ time, call.op =
        .record (.notification (.storeNwcInvoiceNotificationEvent eventId json time)))
      (fun id => l.hasConnection id = true) (l.invoiceOf eventId) (l'.invoiceOf eventId) := by
  obtain ⟨op, reply⟩ := call
  have hsame : l'.createdInvoices = l.createdInvoices →
      InvoiceStep (owed l.invoiceNotificationRelays eventId)
        (fun json => ∃ time, op =
          .record (.notification (.storeNwcInvoiceNotificationEvent eventId json time)))
        (fun id => l.hasConnection id = true) (l.invoiceOf eventId) (l'.invoiceOf eventId) := by
    intro hrows
    unfold Ledger.invoiceOf
    rw [hrows]
    exact .kept _
  rcases h.cases with rfl | ⟨value, random, -, hrun⟩
  · exact .kept _
  · cases op with
    | registry op => exact hsame (registryOp_records hrun).invoices
    | payment op => exact hsame (by rw [(paymentOp_effect hrun).frame])
    | claim op => exact hsame (by rw [claimOp_frame hrun])
    | registration op => exact hsame (by rw [registrationOp_frame hrun])
    | record op =>
      cases op with
      | recordNwcInvoice invoice relays =>
        rcases (recordNwcInvoice_ok hrun).2 eventId with
          hkept | ⟨hnone, r, hrow, hevent, hopen, howned⟩
        · rw [hkept]
          exact .kept _
        · rw [hnone, hrow]
          exact .recorded hevent hopen howned
      | recordNwcSentPayment payment relays =>
        simp only [LedgerOp.run, RecordOp.run, Ledger.recordNwcSentPayment, bind_eq_ok, pure_eq_ok,
          Prod.mk.injEq] at hrun
        obtain ⟨-, -, _, -, _, -, _, -, _, -, _, -, _, -, -, -, _, -, -, rfl⟩ := hrun
        exact hsame rfl
      | notification op =>
        apply notificationOp_invoiceStep hrun eventId
        rintro json time rfl
        exact ⟨time, rfl⟩
      | _ => exact hsame (by rw [(reading_eq_ok.mp hrun).2])

end Operations

/-- What an invoice row says about the invoice. -/
structure InvoiceTerms where
  paymentHash : PaymentHash
  connectionId : String
  connectionRevision : Nat
  invoice : String
  description : Option String
  amountMsat : Nat
  createdAt : Nat
  expiresAt : Nat

def CreatedInvoiceRow.terms (r : CreatedInvoiceRow) : InvoiceTerms where
  paymentHash := r.paymentHash
  connectionId := r.connectionId
  connectionRevision := r.connectionRevision
  invoice := r.invoice
  description := r.description
  amountMsat := r.amountMsat
  createdAt := r.createdAt
  expiresAt := r.expiresAt

theorem InvoiceStep.terms {due : Set String} {stores owned : String → Prop}
    {r r' : CreatedInvoiceRow}
    (h : InvoiceStep due stores owned (some r) (some r')) : r'.terms = r.terms := by
  cases h <;> rfl

/-- The terms of an invoice stay what they are as long as its row does. -/
theorem invoice_terms_kept {x : Crates} {l l' : Ledger} {history : LedgerHistory} {eventId : EventId}
    {r : CreatedInvoiceRow} (hrun : LedgerRun x l history l') (hrow : l.invoiceOf eventId = some r)
    (hpresent : ∀ event ∈ history, event.after.invoiceOf eventId ≠ none) :
    ∃ r', l'.invoiceOf eventId = some r' ∧ r'.terms = r.terms := by
  induction hrun with
  | refl => exact ⟨r, hrow, rfl⟩
  | @tail past a b call _ hstep ih =>
    obtain ⟨r', hr', hterms⟩ := ih fun event hevent => hpresent event (List.mem_cons_of_mem _ hevent)
    obtain ⟨r'', hr''⟩ := Option.ne_none_iff_exists'.mp (hpresent _ List.mem_cons_self)
    have hmoved := hstep.invoiceStep eventId
    rw [hr', hr''] at hmoved
    exact ⟨r'', hr'', hmoved.terms.trans hterms⟩

end NwcMobile
