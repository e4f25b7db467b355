import NwcMobile.Ledger.InvoiceRotation

/-!
What each operation of the notification worker does to one record: to the row of
a sent payment or a created invoice, and to the relays that are still owed its
notification. Every other record stays as it is.
-/

namespace NwcMobile

open Fallible Relational Notifications

section Relays

variable {x : Crates} {table table' : Table notificationRelaySchema} {eventId other : EventId}
  {relay : SecureRelayUrl} {relays : List SecureRelayUrl} {deliveredAt : UnixTimestamp}
  {url : String}

/-- The stored relays a record's notification has not reached. -/
def owed (table : Table notificationRelaySchema) (eventId : EventId) : Set String :=
  {url | ∃ r ∈ table, r.requestEventId = eventId ∧ r.relayUrl = url ∧ r.deliveredAt = none}

/-- The relays a record's notification is published to. -/
def owedRelays (x : Crates) (table : Table notificationRelaySchema) (eventId : EventId) :
    Set SecureRelayUrl :=
  {relay | ∃ url ∈ owed table eventId, SecureRelayUrl.parse x url = .ok relay}

/-- Every relay still owed is stored as the text that the URL of some owed relay has. -/
def Acknowledgeable (x : Crates) (table : Table notificationRelaySchema) (eventId : EventId) :
    Prop :=
  ∀ url ∈ owed table eventId, ∃ text ∈ owed table eventId,
    SecureRelayUrl.parse x text = .ok ⟨url⟩

theorem undelivered_eq_false : undelivered table eventId = false ↔ owed table eventId = ∅ := by
  rw [undelivered, Table.any_eq_false, Set.eq_empty_iff_forall_notMem]
  constructor
  · rintro hnone url ⟨r, hr, hevent, -, hopen⟩
    have hfalse := hnone r hr
    simp [hevent, hopen] at hfalse
  · intro hempty r hr
    by_contra hsome
    rw [Bool.not_eq_false, Bool.and_eq_true, beq_iff_eq, Option.isNone_iff_eq_none] at hsome
    exact hempty r.relayUrl ⟨r, hr, hsome.1, rfl, hsome.2⟩

theorem undeliveredRelays_ok (h : undeliveredRelays x table eventId = .ok relays) :
    (∀ relay ∈ relays, relay ∈ owedRelays x table eventId) ∧
      ∀ url ∈ owed table eventId, ∃ relay ∈ relays, SecureRelayUrl.parse x url = .ok relay := by
  have hrow : ∀ r, r ∈ (table.select fun r => r.requestEventId == eventId &&
      r.deliveredAt.isNone).insertionSort (fun a b => a.position ≤ b.position) ↔
      r ∈ table ∧ r.requestEventId = eventId ∧ r.deliveredAt = none := by
    intro r
    rw [List.mem_insertionSort, Table.mem_select, Bool.and_eq_true, beq_iff_eq,
      Option.isNone_iff_eq_none]
  constructor
  · intro relay hrelay
    obtain ⟨r, hr, hparse⟩ := mem_of_mapM h relay hrelay
    obtain ⟨hmem, hevent, hopen⟩ := (hrow r).mp hr
    exact ⟨r.relayUrl, ⟨r, hmem, hevent, rfl, hopen⟩, mapErr_eq_ok.mp hparse⟩
  · rintro url ⟨r, hmem, hevent, rfl, hopen⟩
    obtain ⟨relay, hrelay, hparse⟩ := mapM_mem h ((hrow r).mpr ⟨hmem, hevent, hopen⟩)
    exact ⟨relay, hrelay, mapErr_eq_ok.mp hparse⟩

/-- Publishing to all the relays owed leaves nothing owed if they are acknowledgeable. -/
theorem owed_diff_eq_empty (h : undeliveredRelays x table eventId = .ok relays) :
    owed table eventId \ {url | ⟨url⟩ ∈ relays} = ∅ ↔ Acknowledgeable x table eventId := by
  obtain ⟨hparsed, -⟩ := undeliveredRelays_ok h
  rw [Set.sdiff_eq_empty]
  constructor
  · intro hsub url hurl
    exact hparsed ⟨url⟩ (hsub hurl)
  · intro hall url hurl
    obtain ⟨text, htext, hurlParse⟩ := hall url hurl
    obtain ⟨relay, hrelay, hparse⟩ := (undeliveredRelays_ok h).2 text htext
    rw [hurlParse] at hparse
    obtain rfl := Except.ok.inj hparse
    exact hrelay

theorem acknowledgeRelay_ok
    (h : acknowledgeRelay table eventId relay deliveredAt = .ok table') :
    owed table' eventId = owed table eventId \ {relay.value} ∧
      ∀ other, other ≠ eventId → owed table' other = owed table other := by
  simp only [acknowledgeRelay, bind_eq_ok, okOr_eq_ok] at h
  obtain ⟨stored, -, hupdate⟩ := h
  constructor
  · ext url
    constructor
    · rintro ⟨r, hr, hevent, rfl, hopen⟩
      obtain ⟨before, hbefore, rfl⟩ := (Table.mem_update hupdate).mp hr
      split at hopen
      · cases hopen
      · rename_i hskipped
        rw [if_neg hskipped] at hevent ⊢
        refine ⟨⟨before, hbefore, hevent, rfl, hopen⟩, ?_⟩
        intro hsame
        apply hskipped
        rw [Set.mem_singleton_iff] at hsame
        simp [hevent, hsame, hopen]
    · rintro ⟨⟨r, hr, hevent, rfl, hopen⟩, hne⟩
      have hkept := Table.mem_update_of_not hupdate hr (by
        rw [Set.mem_singleton_iff] at hne
        simp [hne])
      exact ⟨r, hkept, hevent, rfl, hopen⟩
  · intro other hne
    ext url
    constructor
    · rintro ⟨r, hr, hevent, rfl, hopen⟩
      obtain ⟨before, hbefore, rfl⟩ := (Table.mem_update hupdate).mp hr
      split at hopen
      · cases hopen
      · rename_i hskipped
        rw [if_neg hskipped] at hevent ⊢
        exact ⟨before, hbefore, hevent, rfl, hopen⟩
    · rintro ⟨r, hr, hevent, rfl, hopen⟩
      have hkept := Table.mem_update_of_not hupdate hr (by simp [hevent, hne])
      exact ⟨r, hkept, hevent, rfl, hopen⟩

theorem owed_delete {p : NotificationRelayRow → Bool}
    (h : ∀ r, p r = true → r.requestEventId ≠ eventId) :
    owed (table.delete p) eventId = owed table eventId := by
  ext url
  constructor
  · rintro ⟨r, hr, hevent, rfl, hopen⟩
    exact ⟨r, (Table.mem_delete.mp hr).1, hevent, rfl, hopen⟩
  · rintro ⟨r, hr, hevent, rfl, hopen⟩
    refine ⟨r, Table.mem_delete.mpr ⟨hr, ?_⟩, hevent, rfl, hopen⟩
    by_contra hdeleted
    rw [Bool.not_eq_false] at hdeleted
    exact h r hdeleted hevent

end Relays

namespace Ledger

/-- The row of a sent payment. -/
def sentOf (l : Ledger) (eventId : EventId) : Option SentPaymentRow :=
  l.sentPayments.selectRow fun r => r.requestEventId == eventId

/-- The row of a created invoice. -/
def invoiceOf (l : Ledger) (eventId : EventId) : Option CreatedInvoiceRow :=
  l.createdInvoices.selectRow fun r => r.requestEventId == eventId

end Ledger

/-- Only the sent payment of one request and its relays differ. -/
structure SentFrame (eventId : EventId) (l l' : Ledger) : Prop where
  rest : l' = { l with
    sentPayments := l'.sentPayments, sentPaymentRelays := l'.sentPaymentRelays }
  rows : ∀ other, other ≠ eventId → l'.sentOf other = l.sentOf other
  owed : ∀ other, other ≠ eventId → owed l'.sentPaymentRelays other = owed l.sentPaymentRelays other

/-- Only the created invoice of one request and its relays differ. -/
structure InvoiceFrame (eventId : EventId) (l l' : Ledger) : Prop where
  rest : l' = { l with
    createdInvoices := l'.createdInvoices
    invoiceNotificationRelays := l'.invoiceNotificationRelays }
  rows : ∀ other, other ≠ eventId → l'.invoiceOf other = l.invoiceOf other
  owed : ∀ other, other ≠ eventId →
    owed l'.invoiceNotificationRelays other = owed l.invoiceNotificationRelays other

theorem SentFrame.refl (eventId : EventId) (l : Ledger) : SentFrame eventId l l :=
  ⟨rfl, fun _ _ => rfl, fun _ _ => rfl⟩

theorem InvoiceFrame.refl (eventId : EventId) (l : Ledger) : InvoiceFrame eventId l l :=
  ⟨rfl, fun _ _ => rfl, fun _ _ => rfl⟩

theorem SentFrame.trans {eventId : EventId} {l l₁ l' : Ledger} (h : SentFrame eventId l l₁)
    (h' : SentFrame eventId l₁ l') : SentFrame eventId l l' where
  rest := by
    rw [h'.rest, h.rest]
  rows := fun other hne => (h'.rows other hne).trans (h.rows other hne)
  owed := fun other hne => (h'.owed other hne).trans (h.owed other hne)

theorem InvoiceFrame.trans {eventId : EventId} {l l₁ l' : Ledger} (h : InvoiceFrame eventId l l₁)
    (h' : InvoiceFrame eventId l₁ l') : InvoiceFrame eventId l l' where
  rest := by
    rw [h'.rest, h.rest]
  rows := fun other hne => (h'.rows other hne).trans (h.rows other hne)
  owed := fun other hne => (h'.owed other hne).trans (h.owed other hne)

section Payments

variable {l l' : Ledger} {eventId : EventId} {r : SentPaymentRow} {json : String}
  {time : UnixTimestamp} {relay : SecureRelayUrl}

theorem sentEvent_key (eventId : EventId) :
    sentPaymentSchema.Key fun r => r.requestEventId == eventId := by
  intro a b ha hb
  rw [beq_iff_eq] at ha hb
  simp [sentPaymentSchema, ha, hb]

theorem sentOf_eq_some :
    l.sentOf eventId = some r ↔ r ∈ l.sentPayments ∧ r.requestEventId = eventId := by
  rw [Ledger.sentOf, Table.selectRow_eq_some (sentEvent_key eventId), beq_iff_eq]

theorem sentOf_of_mem (h : r ∈ l.sentPayments) : l.sentOf r.requestEventId = some r :=
  sentOf_eq_some.mpr ⟨h, rfl⟩

/-- A write to the row of one request. -/
theorem sentFrame_update {t : Table sentPaymentSchema} {p : SentPaymentRow → Bool}
    {f : SentPaymentRow → SentPaymentRow} (hupdate : l.sentPayments.update p f = some t)
    (hsame : ∀ r, (f r).requestEventId = r.requestEventId)
    (hp : ∀ r, p r = true → r.requestEventId = eventId) :
    SentFrame eventId l { l with sentPayments := t } ∧
      Ledger.sentOf { l with sentPayments := t } eventId =
        (l.sentOf eventId).map fun r => if p r then f r else r := by
  have hrow : ∀ other, Ledger.sentOf { l with sentPayments := t } other =
      (l.sentOf other).map fun r => if p r then f r else r := by
    intro other
    apply Table.selectRow_update hupdate
    intro r
    rw [hsame]
  refine ⟨⟨rfl, ?_, fun _ _ => rfl⟩, hrow eventId⟩
  intro other hne
  rw [hrow]
  cases hother : l.sentOf other with
  | none => rfl
  | some r =>
    have hevent := (sentOf_eq_some.mp hother).2
    have hskipped : ¬ p r = true := fun hpr => hne (hevent.symm.trans (hp r hpr))
    rw [Option.map_some, if_neg hskipped]

theorem storeNwcSentNotificationEvent_ok {proposed : String}
    (h : l.storeNwcSentNotificationEvent eventId proposed = .ok (json, l')) :
    SentFrame eventId l l' ∧ l'.sentPaymentRelays = l.sentPaymentRelays ∧
      ∃ r, l.sentOf eventId = some r ∧ r.completedAt = none ∧
        l'.sentOf eventId = some { r with notificationEventJson := some json } := by
  simp only [Ledger.storeNwcSentNotificationEvent, bind_eq_ok, okOr_eq_ok, pure_eq_ok,
    Prod.mk.injEq] at h
  obtain ⟨⟨⟩, -, t, hupdate, row, hrow, canonical, hcanonical, rfl, rfl⟩ := h
  obtain ⟨hframe, hown⟩ := sentFrame_update hupdate (fun _ => rfl) (by
    intro r hr
    simp only [Bool.and_eq_true, beq_iff_eq] at hr
    exact hr.1.1)
  refine ⟨hframe, rfl, ?_⟩
  obtain ⟨hmem, hpending⟩ := Table.selectRow_mem hrow
  rw [Bool.and_eq_true, beq_iff_eq, Option.isNone_iff_eq_none] at hpending
  have hstored : Ledger.sentOf { l with sentPayments := t } eventId = some row :=
    sentOf_eq_some.mpr ⟨hmem, hpending.1⟩
  rw [hown, Option.map_eq_some_iff] at hstored
  obtain ⟨r, hr, rfl⟩ := hstored
  have hevent := (sentOf_eq_some.mp hr).2
  refine ⟨r, hr, ?_, ?_⟩
  · split at hpending <;> exact hpending.2
  · rw [hown, hr, Option.map_some]
    congr 1
    -- The event was just stored, or it was there before.
    split at hcanonical
    · rename_i hwritten
      rw [if_pos hwritten]
      obtain rfl := Option.some.inj hcanonical
      rfl
    · rename_i hskipped
      rw [if_neg hskipped, ← hcanonical]

theorem acknowledgeNwcSentRelay_ok
    (h : l.acknowledgeNwcSentRelay eventId relay time = .ok ((), l')) :
    acknowledgeRelay l.sentPaymentRelays eventId relay time = .ok l'.sentPaymentRelays ∧
      l' = { l with sentPaymentRelays := l'.sentPaymentRelays } := by
  simp only [Ledger.acknowledgeNwcSentRelay, bind_eq_ok, pure_eq_ok, Prod.mk.injEq, true_and] at h
  obtain ⟨t, hack, rfl⟩ := h
  exact ⟨hack, rfl⟩

theorem completeNwcSentNotification_ok
    (h : l.completeNwcSentNotification eventId time = .ok ((), l')) :
    SentFrame eventId l l' ∧ (l.sentOf eventId = some r → ∃ r', l'.sentOf eventId = some r' ∧
      (r.notificationEventJson.isSome → r.completedAt = none →
        (r'.completedAt ≠ none ↔ owed l.sentPaymentRelays eventId = ∅)) ∧
      r' = { r with completedAt := r'.completedAt }) := by
  simp only [Ledger.completeNwcSentNotification, bind_eq_ok, okOr_eq_ok, pure_eq_ok,
    Prod.mk.injEq, true_and] at h
  obtain ⟨stored, -, t, hupdate, rfl⟩ := h
  obtain ⟨hframe, hown⟩ := sentFrame_update hupdate (fun _ => rfl) (by
    intro r hr
    simp only [Bool.and_eq_true, beq_iff_eq] at hr
    exact hr.1.1.1)
  refine ⟨hframe, ?_⟩
  intro hr
  rw [hr, Option.map_some] at hown
  refine ⟨_, hown, ?_, ?_⟩
  · intro hevent hopen
    have hid := (sentOf_eq_some.mp hr).2
    rw [← undelivered_eq_false]
    cases undelivered l.sentPaymentRelays eventId <;> simp [hid, hevent, hopen]
  · split <;> rfl

theorem discardNwcSentPayment_ok (h : l.discardNwcSentPayment eventId = .ok ((), l')) :
    SentFrame eventId l l' ∧ l'.sentOf eventId = none := by
  simp only [Ledger.discardNwcSentPayment, Except.ok.injEq, Prod.mk.injEq, true_and] at h
  subst h
  refine ⟨⟨rfl, ?_, ?_⟩, ?_⟩
  · intro other hne
    apply Table.selectRow_delete_of_not
    intro r _ hr
    rw [beq_iff_eq] at hr
    simp [hr, hne]
  · intro other hne
    apply owed_delete
    intro r hr
    rw [Bool.and_eq_true, beq_iff_eq] at hr
    rw [hr.1]
    exact hne.symm
  · apply Table.selectRow_delete_of_pos
    exact fun _ _ hr => hr

end Payments

section Invoices

variable {l l' : Ledger} {eventId : EventId} {r : CreatedInvoiceRow} {json : String}
  {time : UnixTimestamp} {relay : SecureRelayUrl}

theorem invoiceOf_eq_some :
    l.invoiceOf eventId = some r ↔ r ∈ l.createdInvoices ∧ r.requestEventId = eventId := by
  rw [Ledger.invoiceOf, Table.selectRow_eq_some (Ledger.invoiceEvent_key eventId), beq_iff_eq]

theorem invoiceOf_of_mem (h : r ∈ l.createdInvoices) : l.invoiceOf r.requestEventId = some r :=
  invoiceOf_eq_some.mpr ⟨h, rfl⟩

/-- A write to the row of one request. -/
theorem invoiceFrame_update {t : Table createdInvoiceSchema} {p : CreatedInvoiceRow → Bool}
    {f : CreatedInvoiceRow → CreatedInvoiceRow} (hupdate : l.createdInvoices.update p f = some t)
    (hsame : ∀ r, (f r).requestEventId = r.requestEventId)
    (hp : ∀ r, p r = true → r.requestEventId = eventId) :
    InvoiceFrame eventId l { l with createdInvoices := t } ∧
      Ledger.invoiceOf { l with createdInvoices := t } eventId =
        (l.invoiceOf eventId).map fun r => if p r then f r else r := by
  have hrow : ∀ other, Ledger.invoiceOf { l with createdInvoices := t } other =
      (l.invoiceOf other).map fun r => if p r then f r else r := by
    intro other
    apply Table.selectRow_update hupdate
    intro r
    rw [hsame]
  refine ⟨⟨rfl, ?_, fun _ _ => rfl⟩, hrow eventId⟩
  intro other hne
  rw [hrow]
  cases hother : l.invoiceOf other with
  | none => rfl
  | some r =>
    have hevent := (invoiceOf_eq_some.mp hother).2
    have hskipped : ¬ p r = true := fun hpr => hne (hevent.symm.trans (hp r hpr))
    rw [Option.map_some, if_neg hskipped]

theorem touchNwcInvoice_row (h : l.touchNwcInvoice eventId time = .ok ((), l')) :
    InvoiceFrame eventId l l' ∧ l'.invoiceNotificationRelays = l.invoiceNotificationRelays ∧
      (l.invoiceOf eventId = some r → r.completedAt = none → l'.invoiceOf eventId =
        some { r with lastCheckedAt := max time (r.lastCheckedAt + 1) }) := by
  obtain ⟨t, rfl, hupdate⟩ := Ledger.touchNwcInvoice_ok h
  obtain ⟨hframe, hown⟩ := invoiceFrame_update hupdate (fun _ => rfl) (by
    intro r hr
    simp only [Bool.and_eq_true, beq_iff_eq] at hr
    exact hr.1)
  refine ⟨hframe, rfl, ?_⟩
  intro hr hopen
  have hid := (invoiceOf_eq_some.mp hr).2
  rw [hown, hr, Option.map_some]
  simp [hid, hopen]

theorem storeNwcInvoiceNotificationEvent_ok {proposed : String}
    (h : l.storeNwcInvoiceNotificationEvent eventId proposed time = .ok (json, l')) :
    InvoiceFrame eventId l l' ∧ l'.invoiceNotificationRelays = l.invoiceNotificationRelays ∧
      ∃ r, l.invoiceOf eventId = some r ∧ r.completedAt = none ∧ ∃ created,
        l'.invoiceOf eventId = some { r with
          notificationEventJson := some json, notificationCreatedAt := created } := by
  simp only [Ledger.storeNwcInvoiceNotificationEvent, bind_eq_ok, okOr_eq_ok, pure_eq_ok,
    Prod.mk.injEq] at h
  obtain ⟨⟨⟩, -, stored, -, t, hupdate, row, hrow, canonical, hcanonical, rfl, rfl⟩ := h
  obtain ⟨hframe, hown⟩ := invoiceFrame_update hupdate (fun _ => rfl) (by
    intro r hr
    simp only [Bool.and_eq_true, beq_iff_eq] at hr
    exact hr.1.1)
  refine ⟨hframe, rfl, ?_⟩
  obtain ⟨hmem, hpending⟩ := Table.selectRow_mem hrow
  rw [Bool.and_eq_true, beq_iff_eq, Option.isNone_iff_eq_none] at hpending
  have hstored : Ledger.invoiceOf { l with createdInvoices := t } eventId = some row :=
    invoiceOf_eq_some.mpr ⟨hmem, hpending.1⟩
  rw [hown, Option.map_eq_some_iff] at hstored
  obtain ⟨r, hr, rfl⟩ := hstored
  refine ⟨r, hr, ?_, ?_⟩
  · split at hpending <;> exact hpending.2
  · rw [hown, hr, Option.map_some]
    split at hcanonical
    · rename_i hwritten
      rw [if_pos hwritten]
      obtain rfl := Option.some.inj hcanonical
      exact ⟨_, rfl⟩
    · rename_i hskipped
      rw [if_neg hskipped]
      refine ⟨r.notificationCreatedAt, ?_⟩
      congr 1
      rw [← hcanonical]

theorem acknowledgeNwcInvoiceRelay_ok
    (h : l.acknowledgeNwcInvoiceRelay eventId relay time = .ok ((), l')) :
    acknowledgeRelay l.invoiceNotificationRelays eventId relay time =
        .ok l'.invoiceNotificationRelays ∧
      l' = { l with invoiceNotificationRelays := l'.invoiceNotificationRelays } := by
  simp only [Ledger.acknowledgeNwcInvoiceRelay, bind_eq_ok, pure_eq_ok, Prod.mk.injEq,
    true_and] at h
  obtain ⟨t, hack, rfl⟩ := h
  exact ⟨hack, rfl⟩

theorem completeNwcInvoiceNotification_ok
    (h : l.completeNwcInvoiceNotification eventId time = .ok ((), l')) :
    InvoiceFrame eventId l l' ∧ (l.invoiceOf eventId = some r →
      ∃ r', l'.invoiceOf eventId = some r' ∧
        (r.notificationEventJson.isSome → r.completedAt = none →
          (r'.completedAt ≠ none ↔ owed l.invoiceNotificationRelays eventId = ∅)) ∧
        r' = { r with completedAt := r'.completedAt }) := by
  simp only [Ledger.completeNwcInvoiceNotification, bind_eq_ok, okOr_eq_ok, pure_eq_ok,
    Prod.mk.injEq, true_and] at h
  obtain ⟨stored, -, t, hupdate, rfl⟩ := h
  obtain ⟨hframe, hown⟩ := invoiceFrame_update hupdate (fun _ => rfl) (by
    intro r hr
    simp only [Bool.and_eq_true, beq_iff_eq] at hr
    exact hr.1.1.1)
  refine ⟨hframe, ?_⟩
  intro hr
  rw [hr, Option.map_some] at hown
  refine ⟨_, hown, ?_, ?_⟩
  · intro hevent hopen
    have hid := (invoiceOf_eq_some.mp hr).2
    rw [← undelivered_eq_false]
    cases undelivered l.invoiceNotificationRelays eventId <;> simp [hid, hevent, hopen]
  · split <;> rfl

theorem expireNwcInvoice_ok (time : UnixTimestamp) (h : l.expireNwcInvoice eventId time = .ok ((), l')) :
    InvoiceFrame eventId l l' ∧ (l.invoiceOf eventId = some r → r.notificationEventJson = none →
      l'.invoiceOf eventId = none) := by
  simp only [Ledger.expireNwcInvoice, Except.ok.injEq, Prod.mk.injEq, true_and] at h
  subst h
  refine ⟨⟨rfl, ?_, ?_⟩, ?_⟩
  · intro other hne
    apply Table.selectRow_delete_of_not
    intro r _ hr
    rw [beq_iff_eq] at hr
    simp [hr, hne]
  · intro other hne
    apply owed_delete
    intro r hr
    rw [Bool.and_eq_true, beq_iff_eq] at hr
    rw [hr.1]
    exact hne.symm
  · intro hr hnone
    obtain ⟨hmem, hid⟩ := invoiceOf_eq_some.mp hr
    apply Table.selectRow_delete_of_pos
    intro s hs hsame
    rw [Table.eq_of_key (Ledger.invoiceEvent_key eventId) hs hmem hsame (by simp [hid])]
    simp [hid, hnone]

end Invoices

end NwcMobile
