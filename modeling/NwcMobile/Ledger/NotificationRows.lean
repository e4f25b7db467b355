import NwcMobile.Ledger.InvoiceRows

/-!
What one call can do to the notification of a record, a sent payment or a created
invoice: to the event stored for it, and to the relays it is owed to. The event that is
stored first stays, a relay that has the notification keeps having it, and a record is
completed when no relay is left.
-/

namespace NwcMobile

open Fallible Relational Notifications Transition

/-- The records that owe a notification. -/
inductive RecordKind where
  | sent
  | invoice
deriving DecidableEq, Repr

/-- What the row of a record says of its notification. -/
structure NotificationState where
  eventJson : Option String
  completedAt : Option Nat
deriving DecidableEq, Repr

def SentPaymentRow.notification (r : SentPaymentRow) : NotificationState :=
  ⟨r.notificationEventJson, r.completedAt⟩

def CreatedInvoiceRow.notification (r : CreatedInvoiceRow) : NotificationState :=
  ⟨r.notificationEventJson, r.completedAt⟩

namespace Ledger

def notificationOf (l : Ledger) (kind : RecordKind) (eventId : EventId) : Option NotificationState :=
  match kind with
  | .sent => (l.sentOf eventId).map SentPaymentRow.notification
  | .invoice => (l.invoiceOf eventId).map CreatedInvoiceRow.notification

def notificationRelays (l : Ledger) : RecordKind → Table notificationRelaySchema
  | .sent => l.sentPaymentRelays
  | .invoice => l.invoiceNotificationRelays

/-- The row of one relay of a record. -/
def relayAt (l : Ledger) (kind : RecordKind) (eventId : EventId) (position : Nat) :
    Option NotificationRelayRow :=
  (l.notificationRelays kind).selectRow fun r =>
    r.requestEventId == eventId && r.position == position

end Ledger

/-- One step of a record's notification; `due` are the relays it is owed to, and the step
`stores` these events for it. An invoice is not forgotten any more once it has an event. -/
inductive NotificationStep (kind : RecordKind) (due : Set String) (stores : String → Prop) :
    Option NotificationState → Option NotificationState → Prop
  | kept (s : Option NotificationState) : NotificationStep kind due stores s s
  | recorded : NotificationStep kind due stores none (some ⟨none, none⟩)
  | stored (json : String) (hstores : stores json) :
      NotificationStep kind due stores (some ⟨none, none⟩) (some ⟨some json, none⟩)
  | completed (json : String) (completedAt : Nat) (hnone : due = ∅) :
      NotificationStep kind due stores (some ⟨some json, none⟩)
        (some ⟨some json, some completedAt⟩)
  | forgotten (s : NotificationState) (hevent : kind = .invoice → s.eventJson = none) :
      NotificationStep kind due stores (some s) none

/-- The operation stores this event for the record, unless that has one. -/
def LedgerOp.StoresEvent (op : LedgerOp) (kind : RecordKind) (eventId : EventId) (json : String) :
    Prop :=
  match kind with
  | .sent => op = .record (.notification (.storeNwcSentNotificationEvent eventId json))
  | .invoice => ∃ time,
    op = .record (.notification (.storeNwcInvoiceNotificationEvent eventId json time))

/-- The operation that says a relay has a record's notification. -/
def RecordKind.acknowledge (kind : RecordKind) (eventId : EventId) (relay : SecureRelayUrl)
    (deliveredAt : UnixTimestamp) : NotificationOp :=
  match kind with
  | .sent => .acknowledgeNwcSentRelay eventId relay deliveredAt
  | .invoice => .acknowledgeNwcInvoiceRelay eventId relay deliveredAt

/-- The operation that asks which relays are owed a record's notification. -/
def RecordKind.undelivered (kind : RecordKind) (eventId : EventId) : NotificationOp :=
  match kind with
  | .sent => .undeliveredNwcSentRelays eventId
  | .invoice => .undeliveredNwcInvoiceRelays eventId

/-- One step of a relay of a record, made by the operation `op`; `gone` says that the
record is forgotten. -/
inductive RelayStep (kind : RecordKind) (eventId : EventId) (op : LedgerOp) (gone : Prop) :
    Option NotificationRelayRow → Option NotificationRelayRow → Prop
  | kept (row : Option NotificationRelayRow) : RelayStep kind eventId op gone row row
  | added {r : NotificationRelayRow} (hopen : r.deliveredAt = none) :
      RelayStep kind eventId op gone none (some r)
  | delivered {r : NotificationRelayRow} (deliveredAt : Nat) (hopen : r.deliveredAt = none)
      (hop : ∃ time,
        op = .record (.notification (kind.acknowledge eventId ⟨r.relayUrl⟩ time))) :
      RelayStep kind eventId op gone (some r) (some { r with deliveredAt := some deliveredAt })
  | removed {r : NotificationRelayRow} (hgone : gone) :
      RelayStep kind eventId op gone (some r) none

section Rows

variable {x : Crates} {l l' : Ledger} {due : Set String} {stores : String → Prop}
  {eventId other : EventId} {time : UnixTimestamp} {json : String} {payment : TrackedNwcPayment}
  {relays : List SecureRelayUrl}

theorem InvoiceStep.notification {owned : String → Prop} {r r' : Option CreatedInvoiceRow}
    (h : InvoiceStep due stores owned r r') :
    NotificationStep .invoice due stores (r.map CreatedInvoiceRow.notification)
      (r'.map CreatedInvoiceRow.notification) := by
  cases h with
  | kept => exact .kept _
  | recorded hevent hopen =>
    simp only [Option.map_none, Option.map_some, CreatedInvoiceRow.notification, hevent, hopen]
    exact .recorded
  | touched checkedAt hopen => exact .kept _
  | stored json createdAt hopen hevent hstores =>
    simp only [Option.map_some, CreatedInvoiceRow.notification, hevent, hopen]
    exact .stored json hstores
  | completed completedAt hopen hevent hnone =>
    obtain ⟨json, hjson⟩ := Option.isSome_iff_exists.mp hevent
    simp only [Option.map_some, CreatedInvoiceRow.notification, hjson, hopen]
    exact .completed json completedAt hnone
  | forgotten hevent => exact .forgotten _ fun _ => hevent

/-- An update moves the notification of every payment as it moves those it writes. -/
theorem sentNotification_update {t : Table sentPaymentSchema} {p : SentPaymentRow → Bool}
    {f : SentPaymentRow → SentPaymentRow} (hupdate : l.sentPayments.update p f = some t)
    (hsame : ∀ r, (f r).requestEventId = r.requestEventId)
    (hstep : ∀ r, p r = true → r.requestEventId = other →
      NotificationStep .sent due stores (some r.notification) (some (f r).notification)) :
    NotificationStep .sent due stores (l.notificationOf .sent other)
      (Ledger.notificationOf { l with sentPayments := t } .sent other) := by
  have hrow : Ledger.sentOf { l with sentPayments := t } other =
      (l.sentOf other).map fun r => if p r then f r else r := by
    apply Table.selectRow_update hupdate
    intro r
    rw [hsame]
  simp only [Ledger.notificationOf]
  rw [hrow]
  cases hother : l.sentOf other with
  | none => exact .kept none
  | some r =>
    rw [Option.map_some, Option.map_some, Option.map_some]
    by_cases hp : p r = true
    · rw [if_pos hp]
      exact hstep r hp (sentOf_eq_some.mp hother).2
    · rw [if_neg hp]
      exact .kept _

theorem discardNwcSentPayment_step (h : l.discardNwcSentPayment eventId = .ok ((), l')) :
    NotificationStep .sent due stores (l.notificationOf .sent other)
      (l'.notificationOf .sent other) := by
  obtain ⟨hframe, hnone⟩ := discardNwcSentPayment_ok h
  simp only [Ledger.notificationOf]
  by_cases hevent : other = eventId
  · subst hevent
    rw [hnone]
    cases l.sentOf other with
    | none => exact .kept none
    | some r => exact .forgotten _ fun hkind => by cases hkind
  · rw [hframe.rows other hevent]
    exact .kept _

/-- Recording a payment again changes nothing about it. -/
theorem recordNwcSentPayment_step (h : l.recordNwcSentPayment payment relays = .ok ((), l')) :
    NotificationStep .sent due stores (l.notificationOf .sent other)
      (l'.notificationOf .sent other) := by
  simp only [Ledger.recordNwcSentPayment, bind_eq_ok, okOr_eq_ok, pure_eq_ok, Prod.mk.injEq,
    true_and] at h
  obtain ⟨-, -, revision, -, amount, -, fee, -, createdAt, -, settledAt, -, sentPayments, hinsert,
    -, -, sentRelays, -, hledger⟩ := h
  have hrows : l'.sentPayments = sentPayments := by rw [← hledger]
  rcases Table.insertOrIgnore_cases hinsert with ⟨hignored, -⟩ | ⟨-, hnew⟩
  · simp only [Ledger.notificationOf, Ledger.sentOf]
    rw [hrows, hignored]
    exact .kept _
  · simp only [Ledger.notificationOf]
    cases hother : l.sentOf other with
    | some r =>
      obtain ⟨hmem, hid⟩ := sentOf_eq_some.mp hother
      have hkept : l'.sentOf other = some r := by
        apply sentOf_eq_some.mpr
        rw [hrows]
        exact ⟨(Table.mem_insert hnew).mpr (Or.inl hmem), hid⟩
      rw [hkept]
      exact .kept _
    | none =>
      by_cases hevent : payment.requestEventId = other
      · have hself := Table.insert_self hnew
        rw [← hrows] at hself
        rw [sentOf_eq_some.mpr ⟨hself, hevent⟩]
        exact .recorded
      · have hnone : l'.sentOf other = none := by
          have hbefore : l.sentPayments.selectRow (fun s => s.requestEventId == other) = none := hother
          rw [Table.selectRow_eq_none] at hbefore
          apply Table.selectRow_eq_none.mpr
          intro s hs
          rw [hrows] at hs
          rcases (Table.mem_insert hnew).mp hs with hold | rfl
          · exact hbefore s hold
          · simpa using hevent
        rw [hnone]
        exact .kept none

theorem notificationOp_sentStep {op : NotificationOp} {value : op.Value}
    (h : op.run x l = .ok (value, l')) (other : EventId)
    (hstores : ∀ json, op = .storeNwcSentNotificationEvent other json → stores json) :
    NotificationStep .sent (owed l.sentPaymentRelays other) stores (l.notificationOf .sent other)
      (l'.notificationOf .sent other) := by
  have hsame : l'.sentPayments = l.sentPayments →
      NotificationStep .sent (owed l.sentPaymentRelays other) stores (l.notificationOf .sent other)
        (l'.notificationOf .sent other) := by
    intro hrows
    simp only [Ledger.notificationOf, Ledger.sentOf]
    rw [hrows]
    exact .kept _
  cases op with
  | storeNwcSentNotificationEvent e json =>
    simp only [NotificationOp.run, Ledger.storeNwcSentNotificationEvent, bind_eq_ok, okOr_eq_ok,
      pure_eq_ok, Prod.mk.injEq] at h
    obtain ⟨-, -, t, hupdate, row, -, canonical, -, -, rfl⟩ := h
    apply sentNotification_update hupdate
    · intro r
      rfl
    · intro r hr hother
      simp only [Bool.and_eq_true, Option.isNone_iff_eq_none, beq_iff_eq] at hr
      obtain ⟨⟨hevent, hopen⟩, hnone⟩ := hr
      rw [← hevent, hother] at hstores
      simp only [SentPaymentRow.notification, hopen, hnone]
      exact .stored json (hstores json rfl)
  | completeNwcSentNotification e time =>
    simp only [NotificationOp.run, Ledger.completeNwcSentNotification, bind_eq_ok, okOr_eq_ok,
      pure_eq_ok, Prod.mk.injEq] at h
    obtain ⟨stored, -, t, hupdate, -, rfl⟩ := h
    apply sentNotification_update hupdate
    · intro r
      rfl
    · intro r hr hother
      simp only [Bool.and_eq_true, Option.isNone_iff_eq_none, beq_iff_eq, Bool.not_eq_true',
        undelivered_eq_false] at hr
      obtain ⟨⟨⟨hevent, hstored⟩, hopen⟩, hnone⟩ := hr
      rw [← hevent, hother] at hnone
      obtain ⟨json, hjson⟩ := Option.isSome_iff_exists.mp hstored
      simp only [SentPaymentRow.notification, hjson, hopen]
      exact .completed json stored hnone
  | discardNwcSentPayment e => exact discardNwcSentPayment_step h
  | acknowledgeNwcSentRelay e relay time =>
    have hframe := (acknowledgeNwcSentRelay_ok h).2
    exact hsame (by rw [hframe])
  | acknowledgeNwcInvoiceRelay e relay time =>
    have hframe := (acknowledgeNwcInvoiceRelay_ok h).2
    exact hsame (by rw [hframe])
  | touchNwcInvoice e time =>
    obtain ⟨t, rfl, -⟩ := Ledger.touchNwcInvoice_ok h
    exact hsame rfl
  | storeNwcInvoiceNotificationEvent e json time =>
    have hframe := (storeNwcInvoiceNotificationEvent_ok h).1.rest
    exact hsame (by rw [hframe])
  | completeNwcInvoiceNotification e time =>
    simp only [NotificationOp.run, Ledger.completeNwcInvoiceNotification, bind_eq_ok, pure_eq_ok,
      Prod.mk.injEq] at h
    obtain ⟨_, -, _, -, -, rfl⟩ := h
    exact hsame rfl
  | expireNwcInvoice e time =>
    simp only [NotificationOp.run, Ledger.expireNwcInvoice, Except.ok.injEq, Prod.mk.injEq] at h
    exact hsame (by rw [← h.2])
  | _ => exact hsame (by rw [(reading_eq_ok.mp h).2])

/-- One call moves the notification of a record one step. -/
theorem LedgerStep.notificationStep {call : LedgerCall} (h : LedgerStep x l call l')
    (kind : RecordKind) (eventId : EventId) :
    NotificationStep kind (owed (l.notificationRelays kind) eventId)
      (call.op.StoresEvent kind eventId) (l.notificationOf kind eventId)
      (l'.notificationOf kind eventId) := by
  cases kind with
  | invoice => exact (h.invoiceStep eventId).notification
  | sent =>
    obtain ⟨op, reply⟩ := call
    have hsame : l'.sentPayments = l.sentPayments →
        NotificationStep .sent (owed (l.notificationRelays .sent) eventId)
          (op.StoresEvent .sent eventId) (l.notificationOf .sent eventId)
          (l'.notificationOf .sent eventId) := by
      intro hrows
      simp only [Ledger.notificationOf, Ledger.sentOf]
      rw [hrows]
      exact .kept _
    rcases h.cases with rfl | ⟨value, random, -, hrun⟩
    · exact .kept _
    · cases op with
      | registry op => exact hsame (registryOp_records hrun).payments
      | payment op => exact hsame (by rw [(paymentOp_effect hrun).frame])
      | claim op => exact hsame (by rw [claimOp_frame hrun])
      | registration op => exact hsame (by rw [registrationOp_frame hrun])
      | record op =>
        cases op with
        | recordNwcSentPayment payment relays => exact recordNwcSentPayment_step hrun
        | recordNwcInvoice invoice relays =>
          simp only [LedgerOp.run, RecordOp.run, Ledger.recordNwcInvoice, bind_eq_ok, pure_eq_ok,
            Prod.mk.injEq] at hrun
          obtain ⟨-, -, _, -, _, -, _, -, _, -, _, -, _, -, -, -, _, -, _, -, -, -, _, -, -, rfl⟩ := hrun
          exact hsame rfl
        | notification op =>
          apply notificationOp_sentStep hrun eventId
          rintro json rfl
          rfl
        | _ => exact hsame (by rw [(reading_eq_ok.mp hrun).2])

end Rows

section Relays

variable {x : Crates} {l l' : Ledger} {table table' : Table notificationRelaySchema}
  {kind : RecordKind} {eventId : EventId} {position : Nat} {op : LedgerOp} {gone : Prop}

theorem relayPosition_key (eventId : EventId) (position : Nat) :
    notificationRelaySchema.Key fun r => r.requestEventId == eventId && r.position == position := by
  intro a b ha hb
  simp only [Bool.and_eq_true, beq_iff_eq] at ha hb
  simp [notificationRelaySchema, ha.1, ha.2, hb.1, hb.2]

/-- A relay row is what it was, or is new and has not been reached. -/
theorem insertOrIgnore_relayRow {p : NotificationRelayRow → Bool} {row : NotificationRelayRow}
    (h : table.insertOrIgnore p row = some table') (hopen : row.deliveredAt = none)
    (eventId : EventId) (position : Nat) :
    RelayStep kind eventId op gone
      (table.selectRow fun r => r.requestEventId == eventId && r.position == position)
      (table'.selectRow fun r => r.requestEventId == eventId && r.position == position) := by
  rcases Table.insertOrIgnore_cases h with ⟨rfl, -⟩ | ⟨-, hnew⟩
  · exact .kept _
  have hkey := relayPosition_key eventId position
  cases hrow : table.selectRow fun r => r.requestEventId == eventId && r.position == position with
  | some r =>
    rw [Table.selectRow_eq_some hkey] at hrow
    rw [(Table.selectRow_eq_some hkey).mpr ⟨(Table.mem_insert hnew).mpr (Or.inl hrow.1), hrow.2⟩]
    exact .kept _
  | none =>
    by_cases hown : (row.requestEventId == eventId && row.position == position) = true
    · rw [(Table.selectRow_eq_some hkey).mpr ⟨Table.insert_self hnew, hown⟩]
      exact .added hopen
    · have hnone : table'.selectRow
          (fun r => r.requestEventId == eventId && r.position == position) = none := by
        rw [Table.selectRow_eq_none] at hrow ⊢
        intro s hs
        rcases (Table.mem_insert hnew).mp hs with hold | rfl
        · exact hrow s hold
        · simpa using hown
      rw [hnone]
      exact .kept none

/-- Two steps that add are one. -/
theorem RelayStep.addition {row row₁ row' : Option NotificationRelayRow}
    (h : RelayStep kind eventId op False row row₁) (h' : RelayStep kind eventId op False row₁ row')
    (hop : ∀ notification, op ≠ .record (.notification notification)) :
    RelayStep kind eventId op False row row' := by
  cases h with
  | kept => exact h'
  | removed hgone => cases hgone
  | delivered time hopen hdelivers =>
    obtain ⟨_, hack⟩ := hdelivers
    exact absurd hack (hop _)
  | added hopen =>
    cases h' with
    | kept => exact .added hopen
    | removed hgone => cases hgone
    | delivered time _ hdelivers =>
      obtain ⟨_, hack⟩ := hdelivers
      exact absurd hack (hop _)

theorem insertRelays_row {relays : List SecureRelayUrl} {own : EventId}
    (h : insertRelays table own relays = .ok table')
    (hop : ∀ notification, op ≠ .record (.notification notification)) :
    RelayStep kind eventId op False
      (table.selectRow fun r => r.requestEventId == eventId && r.position == position)
      (table'.selectRow fun r => r.requestEventId == eventId && r.position == position) := by
  unfold insertRelays at h
  generalize relays.zipIdx = entries at h
  induction entries generalizing table with
  | nil =>
    obtain rfl := Except.ok.inj h
    exact .kept _
  | cons entry rest ih =>
    simp only [List.foldlM_cons, bind_eq_ok, okOr_eq_ok] at h
    obtain ⟨middle, ⟨stored, -, hinsert⟩, hrest⟩ := h
    exact (insertOrIgnore_relayRow hinsert rfl eventId position).addition (ih hrest) hop

theorem acknowledgeRelay_row {relay : SecureRelayUrl} {time : UnixTimestamp} {own : EventId}
    (h : acknowledgeRelay table own relay time = .ok table')
    (hop : op = .record (.notification (kind.acknowledge own relay time))) :
    RelayStep kind eventId op gone
      (table.selectRow fun r => r.requestEventId == eventId && r.position == position)
      (table'.selectRow fun r => r.requestEventId == eventId && r.position == position) := by
  simp only [acknowledgeRelay, bind_eq_ok, okOr_eq_ok] at h
  obtain ⟨stored, -, hupdate⟩ := h
  rw [Table.selectRow_update hupdate fun _ => rfl]
  cases hrow : table.selectRow fun r => r.requestEventId == eventId && r.position == position with
  | none => exact .kept none
  | some r =>
    rw [Option.map_some]
    split
    · rename_i hwritten
      simp only [Bool.and_eq_true, beq_iff_eq, Option.isNone_iff_eq_none] at hwritten
      obtain ⟨⟨hown, hurl⟩, hopen⟩ := hwritten
      have hevent := (Table.selectRow_mem hrow).2
      simp only [Bool.and_eq_true, beq_iff_eq] at hevent
      refine .delivered stored hopen ⟨time, ?_⟩
      rw [hop, hurl, ← hevent.1, hown]
    · exact .kept _

/-- A relay goes when the record does. -/
theorem delete_relayRow {p : NotificationRelayRow → Bool}
    (h : ∀ r ∈ table, p r = true → r.requestEventId = eventId → gone) :
    RelayStep kind eventId op gone
      (table.selectRow fun r => r.requestEventId == eventId && r.position == position)
      ((table.delete p).selectRow fun r =>
        r.requestEventId == eventId && r.position == position) := by
  rw [Table.selectRow_delete (relayPosition_key eventId position)]
  cases hrow : table.selectRow fun r => r.requestEventId == eventId && r.position == position with
  | none => exact .kept none
  | some r =>
    rw [Option.filter_some]
    split
    · exact .kept _
    · rename_i hdeleted
      obtain ⟨hmem, hevent⟩ := Table.selectRow_mem hrow
      simp only [Bool.and_eq_true, beq_iff_eq] at hevent
      simp only [Bool.not_eq_true', Bool.not_eq_false] at hdeleted
      exact .removed (h r hmem hdeleted hevent.1)

theorem RelayStep.imp {gone' : Prop} {row row' : Option NotificationRelayRow}
    (h : RelayStep kind eventId op gone row row') (hgone : gone → gone') :
    RelayStep kind eventId op gone' row row' := by
  cases h with
  | kept => exact .kept _
  | added hopen => exact .added hopen
  | delivered time hopen hop => exact .delivered time hopen hop
  | removed h => exact .removed (hgone h)

theorem notificationOp_relayStep {op : NotificationOp} {value : op.Value}
    (h : op.run x l = .ok (value, l')) (kind : RecordKind) (eventId : EventId) (position : Nat) :
    RelayStep kind eventId (.record (.notification op)) (l'.notificationOf kind eventId = none)
      (l.relayAt kind eventId position) (l'.relayAt kind eventId position) := by
  have hsame : l'.notificationRelays kind = l.notificationRelays kind →
      RelayStep kind eventId (.record (.notification op)) (l'.notificationOf kind eventId = none)
        (l.relayAt kind eventId position) (l'.relayAt kind eventId position) := by
    intro hrelays
    unfold Ledger.relayAt
    rw [hrelays]
    exact .kept _
  cases op with
  | acknowledgeNwcSentRelay e relay time =>
    obtain ⟨hack, hframe⟩ := acknowledgeNwcSentRelay_ok h
    cases kind with
    | sent => exact acknowledgeRelay_row hack rfl
    | invoice => exact hsame (by rw [hframe]; rfl)
  | acknowledgeNwcInvoiceRelay e relay time =>
    obtain ⟨hack, hframe⟩ := acknowledgeNwcInvoiceRelay_ok h
    cases kind with
    | sent => exact hsame (by rw [hframe]; rfl)
    | invoice => exact acknowledgeRelay_row hack rfl
  | discardNwcSentPayment e =>
    have hgone := (discardNwcSentPayment_ok h).2
    simp only [NotificationOp.run, Ledger.discardNwcSentPayment, Except.ok.injEq,
      Prod.mk.injEq] at h
    obtain ⟨-, rfl⟩ := h
    cases kind with
    | invoice => exact hsame rfl
    | sent =>
      apply delete_relayRow
      intro r _ hdeleted hevent
      simp only [Bool.and_eq_true, beq_iff_eq] at hdeleted
      rw [hdeleted.1] at hevent
      subst hevent
      simp only [Ledger.notificationOf]
      rw [hgone]
      rfl
  | expireNwcInvoice e time =>
    have hgone := fun r => (expireNwcInvoice_ok (r := r) time h).2
    simp only [NotificationOp.run, Ledger.expireNwcInvoice, Except.ok.injEq, Prod.mk.injEq] at h
    obtain ⟨-, rfl⟩ := h
    cases kind with
    | sent => exact hsame rfl
    | invoice =>
      apply delete_relayRow
      intro r _ hdeleted hevent
      simp only [Bool.and_eq_true, beq_iff_eq, Table.any_eq_true,
        Option.isNone_iff_eq_none] at hdeleted
      obtain ⟨hown, row, hrow, hexpired, hnone⟩ := hdeleted
      rw [hown] at hevent
      subst hevent
      simp only [Ledger.notificationOf]
      rw [hgone row (invoiceOf_eq_some.mpr ⟨hrow, hexpired⟩) hnone]
      rfl
  | touchNwcInvoice e time =>
    obtain ⟨t, rfl, -⟩ := Ledger.touchNwcInvoice_ok h
    cases kind <;> exact hsame rfl
  | storeNwcSentNotificationEvent e json =>
    obtain ⟨hframe, hrelays, -⟩ := storeNwcSentNotificationEvent_ok h
    cases kind with
    | sent => exact hsame hrelays
    | invoice => exact hsame (by rw [hframe.rest]; rfl)
  | storeNwcInvoiceNotificationEvent e json time =>
    obtain ⟨hframe, hrelays, -⟩ := storeNwcInvoiceNotificationEvent_ok h
    cases kind with
    | sent => exact hsame (by rw [hframe.rest]; rfl)
    | invoice => exact hsame hrelays
  | completeNwcSentNotification e time =>
    simp only [NotificationOp.run, Ledger.completeNwcSentNotification, bind_eq_ok, pure_eq_ok,
      Prod.mk.injEq] at h
    obtain ⟨_, -, _, -, -, rfl⟩ := h
    cases kind <;> exact hsame rfl
  | completeNwcInvoiceNotification e time =>
    simp only [NotificationOp.run, Ledger.completeNwcInvoiceNotification, bind_eq_ok, pure_eq_ok,
      Prod.mk.injEq] at h
    obtain ⟨_, -, _, -, -, rfl⟩ := h
    cases kind <;> exact hsame rfl
  | _ => exact hsame (by rw [(reading_eq_ok.mp h).2])

/-- One call moves a relay of a record one step. -/
theorem LedgerStep.relayStep {call : LedgerCall} (h : LedgerStep x l call l') (kind : RecordKind)
    (eventId : EventId) (position : Nat) :
    RelayStep kind eventId call.op (l'.notificationOf kind eventId = none)
      (l.relayAt kind eventId position) (l'.relayAt kind eventId position) := by
  obtain ⟨op, reply⟩ := call
  have hsame : l'.notificationRelays kind = l.notificationRelays kind →
      RelayStep kind eventId op (l'.notificationOf kind eventId = none)
        (l.relayAt kind eventId position) (l'.relayAt kind eventId position) := by
    intro hrelays
    unfold Ledger.relayAt
    rw [hrelays]
    exact .kept _
  rcases h.cases with rfl | ⟨value, random, -, hrun⟩
  · exact .kept _
  · cases op with
    | registry op =>
      have hkept := registryOp_records hrun
      cases kind with
      | sent => exact hsame hkept.paymentRelays
      | invoice => exact hsame hkept.invoiceRelays
    | payment op =>
      have hframe := (paymentOp_effect hrun).frame
      cases kind <;> exact hsame (by rw [hframe]; rfl)
    | claim op =>
      have hframe := claimOp_frame hrun
      cases kind <;> exact hsame (by rw [hframe]; rfl)
    | registration op =>
      have hframe := registrationOp_frame hrun
      cases kind <;> exact hsame (by rw [hframe]; rfl)
    | record op =>
      cases op with
      | recordNwcSentPayment payment relays =>
        simp only [LedgerOp.run, RecordOp.run, Ledger.recordNwcSentPayment, bind_eq_ok, pure_eq_ok,
          Prod.mk.injEq] at hrun
        obtain ⟨-, -, _, -, _, -, _, -, _, -, _, -, _, -, -, -, sentRelays, hrelays, -, rfl⟩ := hrun
        cases kind with
        | sent => exact (insertRelays_row hrelays (by simp)).imp False.elim
        | invoice => exact hsame rfl
      | recordNwcInvoice invoice relays =>
        simp only [LedgerOp.run, RecordOp.run, Ledger.recordNwcInvoice, bind_eq_ok, pure_eq_ok,
          Prod.mk.injEq] at hrun
        obtain ⟨-, -, _, -, _, -, _, -, _, -, _, -, _, -, -, -, _, -, _, -, -, -, invoiceRelays,
          hrelays, -, rfl⟩ := hrun
        cases kind with
        | sent => exact hsame rfl
        | invoice => exact (insertRelays_row hrelays (by simp)).imp False.elim
      | notification op => exact notificationOp_relayStep hrun kind eventId position
      | _ => exact hsame (by rw [(reading_eq_ok.mp hrun).2])

end Relays

section Runs

variable {x : Crates} {l l' : Ledger} {history : LedgerHistory} {kind : RecordKind}
  {eventId : EventId} {position : Nat} {json : String} {s : NotificationState}

/-- The record is there after every step. -/
def Lasting (kind : RecordKind) (eventId : EventId) (history : LedgerHistory) : Prop :=
  ∀ event ∈ history, event.after.notificationOf kind eventId ≠ none

/-- The record is not discarded. -/
def Undiscarded (kind : RecordKind) (eventId : EventId) (history : LedgerHistory) : Prop :=
  kind = .sent → ∀ event ∈ history, event.before.notificationOf kind eventId ≠ none →
    event.after.notificationOf kind eventId ≠ none

/-- The event stored for a record stays. -/
theorem notification_event_kept (hrun : LedgerRun x l history l')
    (hrow : l.notificationOf kind eventId = some s) (hjson : s.eventJson = some json)
    (hkept : Undiscarded kind eventId history) :
    ∃ s', l'.notificationOf kind eventId = some s' ∧ s'.eventJson = some json := by
  induction hrun with
  | refl => exact ⟨s, hrow, hjson⟩
  | @tail past a b call _ hstep ih =>
    obtain ⟨s', hs', hevent⟩ :=
      ih fun hkind event hevent => hkept hkind event (List.mem_cons_of_mem _ hevent)
    have hmoved := hstep.notificationStep kind eventId
    rw [hs'] at hmoved
    generalize hafter : b.notificationOf kind eventId = after at hmoved
    cases hmoved with
    | kept => exact ⟨s', rfl, hevent⟩
    | stored => cases hevent
    | completed => exact ⟨_, rfl, hevent⟩
    | forgotten _ hnone =>
      cases kind with
      | invoice =>
        rw [hnone rfl] at hevent
        cases hevent
      | sent =>
        have hpresent : a.notificationOf .sent eventId ≠ none := by simp [hs']
        exact absurd hafter (hkept rfl _ List.mem_cons_self hpresent)

/-- A relay that has the notification keeps having it. -/
theorem relay_delivery_kept {r : NotificationRelayRow} (hrun : LedgerRun x l history l')
    (hrow : l.relayAt kind eventId position = some r) (hdelivered : r.deliveredAt ≠ none)
    (hlasting : Lasting kind eventId history) : l'.relayAt kind eventId position = some r := by
  induction hrun with
  | refl => exact hrow
  | @tail past a b call _ hstep ih =>
    have hbefore := ih fun event hevent => hlasting event (List.mem_cons_of_mem _ hevent)
    have hmoved := hstep.relayStep kind eventId position
    rw [hbefore] at hmoved
    generalize b.relayAt kind eventId position = after at hmoved
    cases hmoved with
    | kept => rfl
    | delivered time hopen => exact absurd hopen hdelivered
    | removed hgone => exact absurd hgone (hlasting _ List.mem_cons_self)

end Runs

/-- What the row of a sent payment says about the payment. -/
def SentPaymentRow.terms (r : SentPaymentRow) : SentPaymentRow :=
  { r with notificationEventJson := none, completedAt := none }

/-- The row that is recorded for a payment. -/
def TrackedNwcPayment.row (payment : TrackedNwcPayment) : SentPaymentRow where
  requestEventId := payment.requestEventId
  paymentHash := payment.paymentHash
  connectionId := payment.connectionId.value
  connectionRevision := payment.connectionRevision
  invoice := payment.invoice
  amountMsat := payment.amount
  feeMsat := payment.fee
  preimage := payment.preimage
  createdAt := payment.createdAt
  settledAt := payment.settledAt
  notificationEventJson := none
  completedAt := none

section Origins

variable {x : Crates} {l l' : Ledger} {r : SentPaymentRow} {payment : TrackedNwcPayment}
  {relays : List SecureRelayUrl}

/-- A row is one that was there, or the one the call records. -/
def SentRowFrom (l : Ledger) (op : LedgerOp) (r : SentPaymentRow) : Prop :=
  (∃ r' ∈ l.sentPayments, r'.terms = r.terms) ∨
    ∃ payment relays, op = .record (.recordNwcSentPayment payment relays) ∧ r.terms = payment.row

theorem recordNwcSentPayment_rows (h : l.recordNwcSentPayment payment relays = .ok ((), l'))
    (hr : r ∈ l'.sentPayments) : r ∈ l.sentPayments ∨ r = payment.row := by
  simp only [Ledger.recordNwcSentPayment, bind_eq_ok, okOr_eq_ok, pure_eq_ok, Prod.mk.injEq,
    true_and, sqliteI64, i64TryFrom_eq_ok] at h
  obtain ⟨-, -, _, ⟨-, rfl⟩, _, ⟨-, rfl⟩, _, ⟨-, rfl⟩, _, ⟨-, rfl⟩, _, ⟨-, rfl⟩, sentPayments,
    hinsert, -, -, sentRelays, -, rfl⟩ := h
  rcases Table.insertOrIgnore_cases hinsert with ⟨hignored, -⟩ | ⟨-, hnew⟩
  · left
    rw [← hignored]
    exact hr
  · exact (Table.mem_insert hnew).mp hr

theorem sentRows_update {t : Table sentPaymentSchema} {p : SentPaymentRow → Bool}
    {f : SentPaymentRow → SentPaymentRow} (hupdate : l.sentPayments.update p f = some t)
    (hterms : ∀ r, (f r).terms = r.terms) (hr : r ∈ t) :
    ∃ r' ∈ l.sentPayments, r'.terms = r.terms := by
  obtain ⟨r', hr', hwritten⟩ := (Table.mem_update hupdate).mp hr
  refine ⟨r', hr', ?_⟩
  rw [hwritten]
  split
  · exact (hterms r').symm
  · rfl

theorem LedgerStep.sentRow {call : LedgerCall} (h : LedgerStep x l call l')
    (hr : r ∈ l'.sentPayments) : SentRowFrom l call.op r := by
  obtain ⟨op, reply⟩ := call
  have hsame : l'.sentPayments = l.sentPayments → SentRowFrom l op r :=
    fun hrows => Or.inl ⟨r, hrows ▸ hr, rfl⟩
  rcases h.cases with rfl | ⟨value, random, -, hrun⟩
  · exact hsame rfl
  · cases op with
    | registry op => exact hsame (registryOp_records hrun).payments
    | payment op => exact hsame (by rw [(paymentOp_effect hrun).frame])
    | claim op => exact hsame (by rw [claimOp_frame hrun])
    | registration op => exact hsame (by rw [registrationOp_frame hrun])
    | record op =>
      cases op with
      | recordNwcSentPayment payment relays =>
        rcases recordNwcSentPayment_rows hrun hr with hold | rfl
        · exact Or.inl ⟨r, hold, rfl⟩
        · exact Or.inr ⟨payment, relays, rfl, rfl⟩
      | recordNwcInvoice invoice relays =>
        simp only [LedgerOp.run, RecordOp.run, Ledger.recordNwcInvoice, bind_eq_ok, pure_eq_ok,
          Prod.mk.injEq] at hrun
        obtain ⟨-, -, _, -, _, -, _, -, _, -, _, -, _, -, -, -, _, -, _, -, -, -, _, -, -, rfl⟩ := hrun
        exact hsame rfl
      | notification op =>
        cases op with
        | storeNwcSentNotificationEvent e json =>
          simp only [LedgerOp.run, RecordOp.run, NotificationOp.run,
            Ledger.storeNwcSentNotificationEvent, bind_eq_ok, okOr_eq_ok, pure_eq_ok,
            Prod.mk.injEq] at hrun
          obtain ⟨-, -, t, hupdate, row, -, canonical, -, -, rfl⟩ := hrun
          exact Or.inl (sentRows_update hupdate (fun _ => rfl) hr)
        | completeNwcSentNotification e time =>
          simp only [LedgerOp.run, RecordOp.run, NotificationOp.run,
            Ledger.completeNwcSentNotification, bind_eq_ok, okOr_eq_ok, pure_eq_ok,
            Prod.mk.injEq] at hrun
          obtain ⟨stored, -, t, hupdate, -, rfl⟩ := hrun
          exact Or.inl (sentRows_update hupdate (fun _ => rfl) hr)
        | discardNwcSentPayment e =>
          simp only [LedgerOp.run, RecordOp.run, NotificationOp.run,
            Ledger.discardNwcSentPayment, Except.ok.injEq, Prod.mk.injEq] at hrun
          rw [← hrun.2] at hr
          exact Or.inl ⟨r, (Table.mem_delete.mp hr).1, rfl⟩
        | acknowledgeNwcSentRelay e relay time =>
          exact hsame (by rw [(acknowledgeNwcSentRelay_ok hrun).2])
        | acknowledgeNwcInvoiceRelay e relay time =>
          exact hsame (by rw [(acknowledgeNwcInvoiceRelay_ok hrun).2])
        | touchNwcInvoice e time =>
          obtain ⟨t, rfl, -⟩ := Ledger.touchNwcInvoice_ok hrun
          exact hsame rfl
        | storeNwcInvoiceNotificationEvent e json time =>
          exact hsame (by rw [(storeNwcInvoiceNotificationEvent_ok hrun).1.rest])
        | completeNwcInvoiceNotification e time =>
          simp only [LedgerOp.run, RecordOp.run, NotificationOp.run,
            Ledger.completeNwcInvoiceNotification, bind_eq_ok, pure_eq_ok, Prod.mk.injEq] at hrun
          obtain ⟨_, -, _, -, -, rfl⟩ := hrun
          exact hsame rfl
        | expireNwcInvoice e time =>
          simp only [LedgerOp.run, RecordOp.run, NotificationOp.run, Ledger.expireNwcInvoice,
            Except.ok.injEq, Prod.mk.injEq] at hrun
          exact hsame (by rw [← hrun.2])
        | _ => exact hsame (by rw [(reading_eq_ok.mp hrun).2])
      | _ => exact hsame (by rw [(reading_eq_ok.mp hrun).2])

/-- Every sent payment was recorded by a call. -/
theorem sent_row_recorded {history : LedgerHistory} (hrun : LedgerRun x .empty history l)
    (hr : r ∈ l.sentPayments) : ∃ event ∈ history, ∃ payment relays,
      event.label.op = .record (.recordNwcSentPayment payment relays) ∧ r.terms = payment.row := by
  induction hrun generalizing r with
  | refl => exact absurd hr (Table.not_mem_empty r)
  | tail _ hstep ih =>
    rcases hstep.sentRow hr with ⟨r', hr', hterms⟩ | ⟨payment, relays, hop, hrow⟩
    · obtain ⟨event, hevent, payment, relays, hop, hrow⟩ := ih hr'
      exact ⟨event, List.mem_cons_of_mem _ hevent, payment, relays, hop, hterms.symm.trans hrow⟩
    · exact ⟨_, List.mem_cons_self, payment, relays, hop, hrow⟩

end Origins

end NwcMobile
