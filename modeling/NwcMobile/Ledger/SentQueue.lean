import NwcMobile.Ledger.NotificationEffects

/-!
The queue of sent payments that still owe a notification: the oldest first, and a
pass reads the payments at its head. Nothing moves a payment within it.
-/

namespace NwcMobile

open Fallible Relational Notifications

/-- The older payment first, then the smaller event id. -/
def sentBefore (a b : SentPaymentRow) : Prop :=
  a.createdAt < b.createdAt ∨ (a.createdAt = b.createdAt ∧
    a.requestEventId.bytes.toNat ≤ b.requestEventId.bytes.toNat)

instance : DecidableRel sentBefore := fun a b => by
  unfold sentBefore
  infer_instance

instance : Std.Total sentBefore :=
  have : Std.Total fun a b : SentPaymentRow =>
      a.requestEventId.bytes.toNat ≤ b.requestEventId.bytes.toNat := ⟨fun _ _ => le_total _ _⟩
  Ranking.total_lex

instance : IsTrans SentPaymentRow sentBefore :=
  have : IsTrans SentPaymentRow fun a b =>
      a.requestEventId.bytes.toNat ≤ b.requestEventId.bytes.toNat := ⟨fun _ _ _ => le_trans⟩
  Ranking.trans_lex

namespace Ledger

/-- The payments that owe a notification, in the order they are read. -/
def sentQueue (l : Ledger) : List SentPaymentRow :=
  (l.sentPayments.select fun r => r.completedAt.isNone).insertionSort sentBefore

end Ledger

section Queue

variable {l l' : Ledger} {r : SentPaymentRow} {maximum : Nat} {batch : List TrackedNwcPayment}
  {payment : TrackedNwcPayment}

theorem mem_sentQueue : r ∈ l.sentQueue ↔ r ∈ l.sentPayments ∧ r.completedAt = none := by
  rw [Ledger.sentQueue, List.mem_insertionSort, Table.mem_select, Option.isNone_iff_eq_none]

theorem sentQueue_ordered (l : Ledger) : l.sentQueue.Pairwise sentBefore :=
  List.pairwise_insertionSort _ _

theorem sentQueue_events_distinct (l : Ledger) :
    (l.sentQueue.map SentPaymentRow.requestEventId).Nodup := by
  have hperm := (List.perm_insertionSort sentBefore
    (l.sentPayments.select fun r => r.completedAt.isNone)).map SentPaymentRow.requestEventId
  apply hperm.nodup_iff.mpr
  unfold Table.select
  rw [List.Nodup, List.pairwise_map]
  apply (l.sentPayments.distinct.sublist List.filter_sublist).imp
  intro a b hab heq
  simp [sentPaymentSchema, heq] at hab

theorem length_sentQueue (l : Ledger) :
    l.sentQueue.length = l.sentPayments.count fun r => r.completedAt.isNone := by
  rw [Ledger.sentQueue, List.length_insertionSort]
  rfl

theorem pendingNwcSentPayments_ok (h : l.pendingNwcSentPayments maximum = .ok batch) :
    (l.sentQueue.take maximum).mapM decodeSentPayment = .ok batch := by
  simp only [Ledger.pendingNwcSentPayments, Ledger.pendingSentPaymentBatch, pendingLimit,
    bind_eq_ok, Bool.and_true] at h
  obtain ⟨limit, ⟨-, -, hlimit⟩, hbatch⟩ := h
  obtain ⟨-, rfl⟩ := i64TryFrom_eq_ok.mp hlimit
  exact hbatch

theorem decodeSentPayment_ok (h : decodeSentPayment r = .ok payment) :
    payment.requestEventId = r.requestEventId ∧
      payment.notificationEventJson = r.notificationEventJson ∧
      payment.connectionRevision = r.connectionRevision ∧
      ConnectionId.parse r.connectionId = .ok payment.connectionId := by
  simp only [decodeSentPayment, bind_eq_ok, mapErr_eq_ok, pure_eq_ok] at h
  obtain ⟨connectionId, hconnection, rfl⟩ := h
  exact ⟨rfl, rfl, rfl, hconnection⟩

theorem batch_sentEvents (h : l.pendingNwcSentPayments maximum = .ok batch) :
    batch.map TrackedNwcPayment.requestEventId =
      (l.sentQueue.take maximum).map SentPaymentRow.requestEventId :=
  map_of_mapM (fun _ _ hdecode => (decodeSentPayment_ok hdecode).1) (pendingNwcSentPayments_ok h)

end Queue

theorem decodeInvoice_ok {r : CreatedInvoiceRow} {invoice : TrackedNwcInvoice}
    (h : decodeInvoice r = .ok invoice) :
    invoice.requestEventId = r.requestEventId ∧ invoice.paymentHash = r.paymentHash ∧
      invoice.notificationEventJson = r.notificationEventJson ∧
      invoice.connectionRevision = r.connectionRevision ∧
      ConnectionId.parse r.connectionId = .ok invoice.connectionId := by
  simp only [decodeInvoice, bind_eq_ok, mapErr_eq_ok, pure_eq_ok] at h
  obtain ⟨connectionId, hconnection, rfl⟩ := h
  exact ⟨rfl, rfl, rfl, rfl, hconnection⟩

end NwcMobile
