import NwcMobile.Engine.Footprint
import NwcMobile.Engine.NotificationConduct
import NwcMobile.Engine.PaymentRecords
import NwcMobile.Ledger.Revocation
import NwcMobile.Ledger.SentQueue

/-!
Notification passes next to the engine: any number of executions, reconcilers, imports
and passes interleaved over one ledger, each of which may stop after any step. Every
worker builds its own event for a record, encrypted anew, and races with the others to
store it, to publish it and to retire the record.
-/

namespace NwcMobile

open Program Concurrent Transition Fallible Relational Notifications

inductive NodeJob where
  | engine (job : Job)
  | pass (scope : PassScope)

inductive NodeResult where
  | engine (result : JobResult)
  | pass (result : Except InvoiceNotificationError InvoiceNotificationWorkerReport)

def NodeJob.program (x : Crates) (asJson : Nip47.Notification → String) :
    NodeJob → HostProg NodeResult
  | .engine job => do
    let result ← job.program x
    pure (.engine result)
  | .pass scope => do
    let result ← scope.program x asJson
    pure (.pass result)

abbrev NodeWorld := World Ledger NodeJob HostOp HostOp.Reply NodeResult

abbrev NodeLabel := Label NodeJob HostOp HostOp.Reply

abbrev NodeHistory := History Ledger NodeJob HostOp HostOp.Reply NodeResult

/-- One step of the engine or a pass, or of a ledger call from elsewhere. -/
abbrev NodeStep (x : Crates) (asJson : Nip47.Notification → String) (outside : HostCall → Prop) :
    NodeWorld → NodeLabel → NodeWorld → Prop :=
  Concurrent.Step (NodeJob.program x asJson) (HostAnswers x) outside

/-- Runs that start with nothing running. -/
abbrev NodeRun (x : Crates) (asJson : Nip47.Notification → String) (outside : HostCall → Prop)
    (l : Ledger) : NodeHistory → NodeWorld → Prop :=
  Run (NodeStep x asJson outside) ⟨l, []⟩

def nodeLedgerCall : NodeLabel → Option LedgerCall
  | .act _ call | .outside call => hostLedgerCall call
  | .spawn _ | .crash _ => none

/-- The ledger's own history within a run. -/
def nodeLedgerHistory (history : NodeHistory) : LedgerHistory :=
  history.filterMap fun event =>
    (nodeLedgerCall event.label).map fun call => ⟨event.before.shared, call, event.after.shared⟩

/-- What a thread has established when it performs an operation. The engine records only
settled payments, and leaves the notifications of what is recorded alone. -/
def NodeGuard (x : Crates) (asJson : Nip47.Notification → String) :
    NodeJob → HostLog → HostOp → Prop
  | .engine _ => fun log op => op.activity ≠ .notifying ∧ RecordsSettled log op
  | .pass scope => PassGuard x asJson scope

section Runs

variable {x : Crates} {asJson : Nip47.Notification → String} {outside : HostCall → Prop}
  {l : Ledger} {w w' : NodeWorld} {label : NodeLabel} {history later earlier : NodeHistory}
  {event : Event NodeWorld NodeLabel} {i : Nat}

theorem NodeStep.ledger (h : NodeStep x asJson outside w label w') :
    (∃ call, nodeLedgerCall label = some call ∧ LedgerStep x w.shared call w'.shared) ∨
      (nodeLedgerCall label = none ∧ w'.shared = w.shared) := by
  cases h with
  | spawn job => exact Or.inr ⟨rfl, rfl⟩
  | act hthread hlive hnext hanswer => exact hanswer.ledgerStep
  | crash hthread => exact Or.inr ⟨rfl, rfl⟩
  | outside hout hanswer => exact hanswer.ledgerStep

/-- A run of the node is a run of its ledger. -/
theorem nodeLedgerRun {w₀ : NodeWorld} (hrun : Run (NodeStep x asJson outside) w₀ history w) :
    LedgerRun x w₀.shared (nodeLedgerHistory history) w.shared :=
  Run.project (f := World.shared) (g := nodeLedgerCall) hrun fun _ _ _ hstep => hstep.ledger

theorem NodeStep.ledgerStep {op : LedgerOp} {reply : op.Reply}
    (h : NodeStep x asJson outside w (.act i ⟨.ledger op, reply⟩) w') :
    LedgerStep x w.shared ⟨op, reply⟩ w'.shared := by
  obtain ⟨call, hcall, hstep⟩ | ⟨hnone, -⟩ := h.ledger
  · rw [← Option.some.inj hcall] at hstep
    exact hstep
  · cases hnone

theorem nodeGuard (job : NodeJob) :
    Spec (NodeGuard x asJson job) [] (job.program x asJson) fun _ _ => True := by
  cases job with
  | pass scope => exact (conducts_pass scope).seq fun _ _ _ => trivial
  | engine job =>
    have hengine : Spec (fun _ op => op.activity ≠ .notifying) [] (job.program x) fun _ _ => True := by
      apply lift_program
      · intro log op hop hnotifies
        rw [hnotifies] at hop
        cases hop
      · intro log r request method
        apply within_executeDirect.guard_imp
        intro log op hop hnotifies
        rw [hnotifies] at hop
        cases hop
      · intro log r payment
        apply within_executePayment.guard_imp
        intro log op hop hnotifies
        rw [hnotifies] at hop
        cases hop
      · intro log op hop hnotifies
        rw [hnotifies] at hop
        cases hop
    exact (hengine.and (recordsSettled_program job)).seq fun _ _ _ => trivial

/-- Every act of a thread satisfies the guard of its job in the log of its earlier acts. -/
theorem guard_of_nodeAct {op : HostOp} {reply : op.Reply}
    (hrun : NodeRun x asJson outside l (later ++ event :: earlier) w)
    (hlabel : event.label = .act i ⟨op, reply⟩) :
    ∃ t, event.before.threads[i]? = some t ∧
      NodeGuard x asJson t.job (actsOf i earlier) op := by
  obtain ⟨t, hthread, -, hguard⟩ := act_spec nodeGuard hrun (by simp) hlabel
  obtain ⟨hbefore, -, -⟩ := hrun.split
  rw [log_eq_actsOf hbefore i t hthread] at hguard
  exact ⟨t, hthread, hguard⟩

/-- What a pass was told is what the ledger returned. -/
theorem Returned.step {op : NotificationOp} {value : op.Value}
    (h : Returned (actsOf i earlier) op value) (hrun : NodeRun x asJson outside l earlier w) :
    ∃ newer past older, earlier = newer ++ past :: older ∧
      past.label = .act i ⟨.ledger (.record (.notification op)), .ok value⟩ ∧
      op.run x past.before.shared = .ok (value, past.after.shared) := by
  obtain ⟨past, hpast, hlabel⟩ := mem_actsOf.mp h
  have hstep := hrun.step_of_mem hpast
  rw [hlabel] at hstep
  obtain ⟨random, hop⟩ := hstep.ledgerStep.run_of_ok
  obtain ⟨newer, older, rfl⟩ := List.append_of_mem hpast
  exact ⟨newer, past, older, rfl, hlabel, hop⟩

end Runs

namespace Ledger

/-- The row the record is read from. -/
def Reads (l : Ledger) : TrackedRecord → Prop
  | .payment payment => ∃ r, l.sentOf payment.requestEventId = some r ∧ r.completedAt = none ∧
      decodeSentPayment r = .ok payment
  | .invoice invoice => ∃ r, l.invoiceOf invoice.requestEventId = some r ∧ r.completedAt = none ∧
      decodeInvoice r = .ok invoice

/-- The ledger holds this event for the record. -/
def HoldsEvent (l : Ledger) (kind : RecordKind) (eventId : EventId) (json : String) : Prop :=
  ∃ s, l.notificationOf kind eventId = some s ∧ s.eventJson = some json

end Ledger

/-- The record is one the pass is for, as the ledger stands. -/
def PassScope.Covers (scope : PassScope) (l : Ledger) (record : TrackedRecord) : Prop :=
  match scope with
  | .all => True
  | .wallet owner => l.recordOfWallet owner record.connectionId.value record.connectionRevision = true
  | .invoice eventId => record.kind = .invoice ∧ record.eventId = eventId

section Listing

variable {x : Crates} {asJson : Nip47.Notification → String} {outside : HostCall → Prop}
  {l : Ledger} {w : NodeWorld} {earlier : NodeHistory} {i : Nat} {scope : PassScope}
  {record : TrackedRecord} {json : String}

theorem Ledger.Reads.notification (h : l.Reads record) :
    l.notificationOf record.kind record.eventId = some ⟨record.eventJson, none⟩ := by
  cases record with
  | payment payment =>
    obtain ⟨r, hrow, hopen, hdecode⟩ := h
    obtain ⟨-, hjson, -⟩ := decodeSentPayment_ok hdecode
    simp only [TrackedRecord.kind, TrackedRecord.eventId, TrackedRecord.eventJson,
      Ledger.notificationOf, hrow, Option.map_some, SentPaymentRow.notification, hopen, hjson]
  | invoice invoice =>
    obtain ⟨r, hrow, hopen, hdecode⟩ := h
    obtain ⟨-, -, hjson, -⟩ := decodeInvoice_ok hdecode
    simp only [TrackedRecord.kind, TrackedRecord.eventId, TrackedRecord.eventJson,
      Ledger.notificationOf, hrow, Option.map_some, CreatedInvoiceRow.notification, hopen, hjson]

theorem pendingSentPaymentBatch_reads {rows : SentPaymentRow → Bool} {maximum : Nat}
    {batch : List TrackedNwcPayment} {payment : TrackedNwcPayment}
    (h : l.pendingSentPaymentBatch rows maximum = .ok batch) (hmem : payment ∈ batch) :
    ∃ r, rows r = true ∧ decodeSentPayment r = .ok payment ∧ l.Reads (.payment payment) := by
  simp only [Ledger.pendingSentPaymentBatch, bind_eq_ok] at h
  obtain ⟨limit, -, hbatch⟩ := h
  obtain ⟨r, hr, hdecode⟩ := mem_of_mapM hbatch payment hmem
  have hrow := List.mem_of_mem_take hr
  rw [List.mem_insertionSort, Table.mem_select, Bool.and_eq_true,
    Option.isNone_iff_eq_none] at hrow
  obtain ⟨hstored, hopen, hrows⟩ := hrow
  obtain ⟨hevent, -⟩ := decodeSentPayment_ok hdecode
  refine ⟨r, hrows, hdecode, r, ?_, hopen, hdecode⟩
  exact sentOf_eq_some.mpr ⟨hstored, hevent.symm⟩

theorem pendingInvoiceBatch_reads {rows : CreatedInvoiceRow → Bool} {maximum : Nat}
    {batch : List TrackedNwcInvoice} {invoice : TrackedNwcInvoice}
    (h : l.pendingInvoiceBatch rows maximum = .ok batch) (hmem : invoice ∈ batch) :
    ∃ r, rows r = true ∧ decodeInvoice r = .ok invoice ∧ l.Reads (.invoice invoice) := by
  simp only [Ledger.pendingInvoiceBatch, bind_eq_ok] at h
  obtain ⟨limit, -, hbatch⟩ := h
  obtain ⟨r, hr, hdecode⟩ := mem_of_mapM hbatch invoice hmem
  have hrow := List.mem_of_mem_take hr
  rw [List.mem_insertionSort, Table.mem_select, Bool.and_eq_true,
    Option.isNone_iff_eq_none] at hrow
  obtain ⟨hstored, hopen, hrows⟩ := hrow
  obtain ⟨hevent, -⟩ := decodeInvoice_ok hdecode
  refine ⟨r, hrows, hdecode, r, ?_, hopen, hdecode⟩
  exact invoiceOf_eq_some.mpr ⟨hstored, hevent.symm⟩

/-- A listed record is one of the scope, as the ledger was when it was listed. -/
theorem Listed.step (h : Listed (actsOf i earlier) scope record)
    (hrun : NodeRun x asJson outside l earlier w) :
    ∃ newer past older op reply, earlier = newer ++ past :: older ∧
      past.label = .act i ⟨.ledger (.record (.notification op)), reply⟩ ∧
      past.after.shared = past.before.shared ∧ past.before.shared.Reads record ∧
      scope.Covers past.before.shared record := by
  cases h with
  | payment returned mem =>
    obtain ⟨newer, past, older, hsplit, hlabel, hop⟩ := returned.step hrun
    obtain ⟨hbatch, hsame⟩ := reading_eq_ok.mp hop
    obtain ⟨-, -, -, hreads⟩ := pendingSentPaymentBatch_reads hbatch mem
    exact ⟨newer, past, older, _, _, hsplit, hlabel, hsame, hreads, trivial⟩
  | paymentOfWallet returned mem =>
    obtain ⟨newer, past, older, hsplit, hlabel, hop⟩ := returned.step hrun
    obtain ⟨hbatch, hsame⟩ := reading_eq_ok.mp hop
    obtain ⟨r, hscope, hdecode, hreads⟩ := pendingSentPaymentBatch_reads hbatch mem
    refine ⟨newer, past, older, _, _, hsplit, hlabel, hsame, hreads, ?_⟩
    obtain ⟨-, -, hrevision, hconnection⟩ := decodeSentPayment_ok hdecode
    rw [ConnectionId.parse_eq_ok] at hconnection
    simpa only [PassScope.Covers, TrackedRecord.connectionId, TrackedRecord.connectionRevision,
      hconnection, hrevision] using hscope
  | invoice returned mem =>
    obtain ⟨newer, past, older, hsplit, hlabel, hop⟩ := returned.step hrun
    obtain ⟨hbatch, hsame⟩ := reading_eq_ok.mp hop
    obtain ⟨-, -, -, hreads⟩ := pendingInvoiceBatch_reads hbatch mem
    exact ⟨newer, past, older, _, _, hsplit, hlabel, hsame, hreads, trivial⟩
  | invoiceOfWallet returned mem =>
    obtain ⟨newer, past, older, hsplit, hlabel, hop⟩ := returned.step hrun
    obtain ⟨hbatch, hsame⟩ := reading_eq_ok.mp hop
    obtain ⟨r, hscope, hdecode, hreads⟩ := pendingInvoiceBatch_reads hbatch mem
    refine ⟨newer, past, older, _, _, hsplit, hlabel, hsame, hreads, ?_⟩
    obtain ⟨-, -, -, hrevision, hconnection⟩ := decodeInvoice_ok hdecode
    rw [ConnectionId.parse_eq_ok] at hconnection
    simpa only [PassScope.Covers, TrackedRecord.connectionId, TrackedRecord.connectionRevision,
      hconnection, hrevision] using hscope
  | @requested eventId invoice returned =>
    obtain ⟨newer, past, older, hsplit, hlabel, hop⟩ := returned.step hrun
    obtain ⟨hfound, hsame⟩ := reading_eq_ok.mp hop
    unfold Ledger.pendingNwcInvoice at hfound
    cases hrow : past.before.shared.createdInvoices.selectRow fun r =>
        r.requestEventId == eventId && r.completedAt.isNone with
    | none =>
      rw [hrow] at hfound
      cases hfound
    | some r =>
      rw [hrow] at hfound
      obtain ⟨row, hselected, hdecode⟩ := option_mapM_eq_some.mp hfound
      obtain rfl := Option.some.inj hselected
      obtain ⟨hmem, hown⟩ := Table.selectRow_mem hrow
      rw [Bool.and_eq_true, beq_iff_eq, Option.isNone_iff_eq_none] at hown
      obtain ⟨hevent, -⟩ := decodeInvoice_ok hdecode
      refine ⟨newer, past, older, _, _, hsplit, hlabel, hsame, ⟨r, ?_, hown.2, hdecode⟩, rfl, ?_⟩
      · exact invoiceOf_eq_some.mpr ⟨hmem, hevent.symm⟩
      · exact hevent.trans hown.1

/-- The event a pass holds for a record was in its row before. -/
theorem Canonical.step (h : Canonical (actsOf i earlier) record json)
    (hlisted : Listed (actsOf i earlier) scope record)
    (hrun : NodeRun x asJson outside l earlier w) :
    ∃ newer past older, earlier = newer ++ past :: older ∧
      past.after.shared.HoldsEvent record.kind record.eventId json := by
  cases h with
  | listed stored =>
    obtain ⟨newer, past, older, op, reply, hsplit, -, hsame, hreads, -⟩ := hlisted.step hrun
    refine ⟨newer, past, older, hsplit, ?_⟩
    rw [hsame]
    exact ⟨_, hreads.notification, stored⟩
  | storedSent kind returned =>
    obtain ⟨newer, past, older, hsplit, -, hop⟩ := returned.step hrun
    obtain ⟨-, -, r, -, -, hrow⟩ := storeNwcSentNotificationEvent_ok hop
    refine ⟨newer, past, older, hsplit, ?_⟩
    rw [kind]
    exact ⟨_, by simp only [Ledger.notificationOf, hrow, Option.map_some]; rfl, rfl⟩
  | storedInvoice kind returned =>
    obtain ⟨newer, past, older, hsplit, -, hop⟩ := returned.step hrun
    obtain ⟨-, -, r, -, -, created, hrow⟩ := storeNwcInvoiceNotificationEvent_ok hop
    refine ⟨newer, past, older, hsplit, ?_⟩
    rw [kind]
    exact ⟨_, by simp only [Ledger.notificationOf, hrow, Option.map_some]; rfl, rfl⟩

end Listing

/-- One scheduling decision for the node. -/
inductive NodeMove where
  | spawn (job : NodeJob)
  | act (thread : Nat) (script : HostScript)
  | outside (op : LedgerOp) (script : HostScript)

/-- The step a decision leads to, if it is possible. -/
def NodeMove.step (x : Crates) (asJson : Nip47.Notification → String) (w : NodeWorld) :
    NodeMove → Option (NodeLabel × NodeWorld)
  | .spawn job =>
    some (.spawn job, { w with threads := w.threads ++ [⟨job, [], job.program x asJson, true⟩] })
  | .act i script =>
    match w.threads[i]? with
    | some ⟨job, log, .call op next, true⟩ =>
      let out := script.answer x w.shared op
      some (.act i ⟨op, out.1⟩,
        ⟨out.2, w.threads.set i ⟨job, ⟨op, out.1⟩ :: log, next out.1, true⟩⟩)
    | _ => none
  | .outside op script =>
    let out := script.answer x w.shared (.ledger op)
    some (.outside ⟨.ledger op, out.1⟩, { w with shared := out.2 })

/-- Carry out decisions, newest first, skipping impossible ones. -/
def nodePlay (x : Crates) (asJson : Nip47.Notification → String) (l : Ledger) :
    List NodeMove → NodeHistory × NodeWorld
  | [] => ([], ⟨l, []⟩)
  | move :: earlier =>
    let past := nodePlay x asJson l earlier
    match move.step x asJson past.2 with
    | some (label, w) => (⟨past.2, label, w⟩ :: past.1, w)
    | none => past

section Plays

variable {x : Crates} {asJson : Nip47.Notification → String} {outside : HostCall → Prop}
  {l : Ledger} {w w' : NodeWorld} {label : NodeLabel}

theorem NodeMove.step_sound {move : NodeMove} (h : move.step x asJson w = some (label, w'))
    (hout : ∀ op host, move = .outside op host → ∀ reply, outside ⟨.ledger op, reply⟩) :
    NodeStep x asJson outside w label w' := by
  cases move with
  | spawn job =>
    obtain ⟨rfl, rfl⟩ := Prod.mk.inj (Option.some.inj h)
    exact .spawn job
  | act i script =>
    simp only [NodeMove.step] at h
    split at h
    · rename_i job log op next hthread
      obtain ⟨rfl, rfl⟩ := Prod.mk.inj (Option.some.inj h)
      exact .act hthread rfl rfl (script.answers x w.shared op)
    · cases h
  | outside op script =>
    obtain ⟨rfl, rfl⟩ := Prod.mk.inj (Option.some.inj h)
    exact .outside (hout op script rfl _) (script.answers x w.shared (.ledger op))

/-- Every such play is a run of the node. -/
theorem nodePlay_run {moves : List NodeMove}
    (hout : ∀ op host, .outside op host ∈ moves → ∀ reply, outside ⟨.ledger op, reply⟩) :
    NodeRun x asJson outside l (nodePlay x asJson l moves).1 (nodePlay x asJson l moves).2 := by
  induction moves with
  | nil => exact .refl
  | cons move earlier ih =>
    have hearlier := ih fun op host hop => hout op host (List.mem_cons_of_mem _ hop)
    simp only [nodePlay]
    split
    · rename_i label w hstep
      apply hearlier.tail
      apply NodeMove.step_sound hstep
      rintro op host rfl
      exact hout op host List.mem_cons_self
    · exact hearlier

/-- A longer play continues the shorter one. -/
theorem nodePlay_append {later earlier : List NodeMove} : ∃ history,
    (nodePlay x asJson l (later ++ earlier)).1 = history ++ (nodePlay x asJson l earlier).1 := by
  induction later with
  | nil => exact ⟨[], rfl⟩
  | cons move rest ih =>
    obtain ⟨history, hrest⟩ := ih
    simp only [List.cons_append, nodePlay]
    split
    · exact ⟨_ :: history, by rw [hrest]; rfl⟩
    · exact ⟨history, hrest⟩

end Plays

end NwcMobile
