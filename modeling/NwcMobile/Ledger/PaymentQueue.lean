import Mathlib.Data.List.TakeWhile
import NwcMobile.Foundations.Ranking
import NwcMobile.Foundations.Rotation
import NwcMobile.Foundations.RoundRobin
import NwcMobile.Ledger.Attribution

/-!
The reconciliation queue: the attempts reconciliation may select, ordered by
their persisted sequence and then by event. A selection is a turn of round robin
over it, a reservation joins at its end, and nothing else moves it.
-/

namespace NwcMobile

open Fallible Relational Transition Accounting RoundRobin

instance : Std.Total queuedBefore :=
  have : Std.Total fun a b : PaymentAttemptRow =>
      a.eventId.bytes.toNat ≤ b.eventId.bytes.toNat := ⟨fun _ _ => le_total _ _⟩
  Ranking.total_lex

instance : IsTrans PaymentAttemptRow queuedBefore :=
  have : IsTrans PaymentAttemptRow fun a b =>
      a.eventId.bytes.toNat ≤ b.eventId.bytes.toNat := ⟨fun _ _ _ => le_trans⟩
  Ranking.trans_lex

namespace Ledger

def queueRows (l : Ledger) : List PaymentAttemptRow :=
  (l.paymentAttempts.select isReconcilable).insertionSort queuedBefore

/-- The attempts reconciliation may select, in the order it reads them. -/
def reconciliationQueue (l : Ledger) : List PaymentHash :=
  l.queueRows.map PaymentAttemptRow.paymentHash

/-- The unresolved attempts, without those of a legacy initiation. -/
def unresolved (l : Ledger) : Finset PaymentHash :=
  ((l.paymentAttempts.select isReconcilable).map PaymentAttemptRow.paymentHash).toFinset

/-- The greatest position of an unresolved attempt. -/
def queueEnd (l : Ledger) : Nat := maximumSequence (l.paymentAttempts.select isReconcilable)

end Ledger

section Queue

variable {l l' : Ledger} {r : PaymentAttemptRow} {rows : List PaymentAttemptRow}
  {hash : PaymentHash}

theorem le_maximumSequence (h : r ∈ rows) : r.reconciliationSequence ≤ maximumSequence rows := by
  have hfold : ∀ (rows : List PaymentAttemptRow) (start : Nat),
      start ≤ rows.foldl (fun m r => max m r.reconciliationSequence) start ∧
        ∀ r ∈ rows, r.reconciliationSequence ≤
          rows.foldl (fun m r => max m r.reconciliationSequence) start := by
    intro rows
    induction rows with
    | nil => simp
    | cons first rest ih =>
      intro start
      obtain ⟨hstart, hrest⟩ := ih (max start first.reconciliationSequence)
      rw [List.foldl_cons, List.forall_mem_cons]
      exact ⟨(le_max_left _ _).trans hstart, (le_max_right _ _).trans hstart, hrest⟩
  exact (hfold rows 0).2 r h

theorem mem_queueRows : r ∈ l.queueRows ↔ r ∈ l.paymentAttempts ∧ isReconcilable r = true := by
  rw [Ledger.queueRows, List.mem_insertionSort, Table.mem_select]

theorem queueRows_ordered (l : Ledger) : l.queueRows.Pairwise queuedBefore :=
  List.pairwise_insertionSort _ _

theorem mem_unresolved : hash ∈ l.unresolved ↔
    ∃ r ∈ l.paymentAttempts, isReconcilable r = true ∧ r.paymentHash = hash := by
  simp only [Ledger.unresolved, List.mem_toFinset, List.mem_map, Table.mem_select, and_assoc]

theorem mem_reconciliationQueue : hash ∈ l.reconciliationQueue ↔ hash ∈ l.unresolved := by
  simp only [Ledger.reconciliationQueue, List.mem_map, mem_queueRows, mem_unresolved, and_assoc]

theorem le_queueEnd (hr : r ∈ l.queueRows) : r.reconciliationSequence ≤ l.queueEnd := by
  apply le_maximumSequence
  rw [Table.mem_select]
  exact mem_queueRows.mp hr

/-- Each payment hash has one place in the queue. -/
theorem reconciliationQueue_nodup (l : Ledger) : l.reconciliationQueue.Nodup := by
  have hdistinct : ∀ a ∈ l.queueRows, ∀ b ∈ l.queueRows, a.paymentHash = b.paymentHash → a = b := by
    intro a ha b hb hsame
    exact Table.eq_of_key (hasHash_key a.paymentHash) (mem_queueRows.mp ha).1
      (mem_queueRows.mp hb).1 (by simp) (by simp [hsame])
  have hrows : l.queueRows.Nodup := by
    apply (List.perm_insertionSort _ _).nodup_iff.mpr
    exact (l.paymentAttempts.nodup paymentAttempt_conflict_self).filter _
  exact (List.nodup_map_iff_inj_on hrows).mpr hdistinct

theorem length_reconciliationQueue (l : Ledger) :
    l.reconciliationQueue.length = l.unresolved.card := by
  have hsame : l.unresolved = l.reconciliationQueue.toFinset := by
    ext hash
    rw [List.mem_toFinset, mem_reconciliationQueue]
  rw [hsame, List.toFinset_card_of_nodup (reconciliationQueue_nodup l)]

/-- There is one way to put the unresolved rows in order. -/
theorem queueRows_eq (hperm : rows.Perm (l.paymentAttempts.select isReconcilable))
    (hordered : rows.Pairwise queuedBefore) : l.queueRows = rows := by
  have hsorted := (List.perm_insertionSort queuedBefore
    (l.paymentAttempts.select isReconcilable)).trans hperm.symm
  refine hsorted.eq_of_pairwise ?_ (queueRows_ordered l) hordered
  intro a b ha hb hab hba
  have hb' := mem_queueRows.mp (hsorted.mem_iff.mpr hb)
  apply Table.eq_of_key (paymentAttempt_event_key a.eventId) (mem_queueRows.mp ha).1 hb'.1 (by simp)
  -- Rows that precede each other have the same position and the same event.
  have hevent : a.eventId.bytes.toNat = b.eventId.bytes.toNat := by
    unfold queuedBefore at hab hba
    omega
  rw [beq_iff_eq]
  exact congrArg EventId.mk (BitVec.eq_of_toNat_eq hevent.symm)

/-- Rewriting rows without moving them leaves the queue alone. -/
theorem reconciliationQueue_map {f : PaymentAttemptRow → PaymentAttemptRow}
    (hrows : l'.paymentAttempts.rows = l.paymentAttempts.rows.map f)
    (hplace : ∀ r ∈ l.paymentAttempts, isReconcilable (f r) = isReconcilable r ∧
      (f r).paymentHash = r.paymentHash ∧ (f r).eventId = r.eventId ∧
      (f r).reconciliationSequence = r.reconciliationSequence) :
    l'.reconciliationQueue = l.reconciliationQueue := by
  have hselect : l'.paymentAttempts.select isReconcilable =
      (l.paymentAttempts.select isReconcilable).map f := by
    rw [Table.select, hrows, List.filter_map, Table.select]
    congr 1
    apply List.filter_congr
    intro r hr
    exact (hplace r hr).1
  have hqueue : l'.queueRows = l.queueRows.map f := by
    apply queueRows_eq
    · rw [hselect]
      exact (List.perm_insertionSort _ _).map f
    · rw [List.pairwise_map]
      apply (queueRows_ordered l).imp_of_mem
      intro a b ha hb hab
      obtain ⟨-, -, haevent, hasequence⟩ := hplace a (mem_queueRows.mp ha).1
      obtain ⟨-, -, hbevent, hbsequence⟩ := hplace b (mem_queueRows.mp hb).1
      simpa only [queuedBefore, haevent, hasequence, hbevent, hbsequence] using hab
  rw [Ledger.reconciliationQueue, hqueue, List.map_map, Ledger.reconciliationQueue]
  apply List.map_congr_left
  intro r hr
  exact (hplace r (mem_queueRows.mp hr).1).2.1

end Queue

section Requeueing

variable {l l' : Ledger}

/-- The row of a hash keeps everything but its place. -/
theorem Requeued.attemptOf (h : Requeued l.paymentAttempts l'.paymentAttempts) :
    ∃ f : PaymentAttemptRow → PaymentAttemptRow,
      (∀ r, f r = { r with reconciliationSequence := (f r).reconciliationSequence }) ∧
        ∀ hash, l'.attemptOf hash = (l.attemptOf hash).map f := by
  obtain ⟨f, hf, hrows⟩ := h
  refine ⟨f, hf, ?_⟩
  intro hash
  rw [Ledger.attemptOf, Table.selectRow, hrows, List.find?_map]
  congr 2
  funext r
  rw [Function.comp_apply, hf r]
  rfl

theorem Requeued.stage (h : Requeued l.paymentAttempts l'.paymentAttempts) (hash : PaymentHash) :
    l'.stage hash = l.stage hash := by
  obtain ⟨f, hf, hrow⟩ := h.attemptOf
  rw [Ledger.stage, hrow, Ledger.stage]
  cases l.attemptOf hash with
  | none => rfl
  | some r =>
    rw [Option.map_some, hf r]
    rfl

theorem Requeued.loadPaymentAttempt (h : Requeued l.paymentAttempts l'.paymentAttempts)
    (hash : PaymentHash) : l'.loadPaymentAttempt hash = l.loadPaymentAttempt hash := by
  obtain ⟨f, hf, hrow⟩ := h.attemptOf
  change (l'.attemptOf hash).mapM hydrateAttempt = (l.attemptOf hash).mapM hydrateAttempt
  rw [hrow]
  cases l.attemptOf hash with
  | none => rfl
  | some r =>
    rw [Option.map_some, hf r]
    rfl

theorem Requeued.unresolved (h : Requeued l.paymentAttempts l'.paymentAttempts) :
    l'.unresolved = l.unresolved := by
  obtain ⟨f, hf, hrows⟩ := h
  rw [Ledger.unresolved, Table.select, hrows, List.filter_map, List.map_map, Ledger.unresolved]
  congr 1
  have hsame : (PaymentAttemptRow.paymentHash ∘ f) = PaymentAttemptRow.paymentHash := by
    funext r
    rw [Function.comp_apply, hf r]
  have hselects : (isReconcilable ∘ f) = isReconcilable := by
    funext r
    rw [Function.comp_apply, hf r]
    rfl
  rw [hsame, hselects]
  rfl

end Requeueing

section Selection

variable {l l' : Ledger} {r : PaymentAttemptRow} {selected : List PaymentAttemptRow}
  {attempts : List PaymentAttempt} {table table' : Table paymentAttemptSchema}
  {start maximum limit : Nat} {more : Bool}

theorem unresolved_of_reconcilable (h : isReconcilable r = true) : isUnresolved r = true :=
  (Bool.and_eq_true_iff.mp h).1

/-- One write of the loop. -/
def requeue (hash : PaymentHash) (sequence : Nat) (r : PaymentAttemptRow) : PaymentAttemptRow :=
  if r.paymentHash == hash && isUnresolved r then { r with reconciliationSequence := sequence } else r

theorem requeue_eq (hash : PaymentHash) (sequence : Nat) (r : PaymentAttemptRow) :
    requeue hash sequence r =
      { r with reconciliationSequence := (requeue hash sequence r).reconciliationSequence } := by
  unfold requeue
  split <;> rfl

@[simp] theorem requeue_paymentHash (hash : PaymentHash) (sequence : Nat) (r : PaymentAttemptRow) :
    (requeue hash sequence r).paymentHash = r.paymentHash := by
  rw [requeue_eq]

theorem requeue_self (sequence : Nat) (h : isUnresolved r = true) :
    requeue r.paymentHash sequence r = { r with reconciliationSequence := sequence } := by
  simp [requeue, h]

theorem requeue_other {hash : PaymentHash} (sequence : Nat) (h : r.paymentHash ≠ hash) :
    requeue hash sequence r = r := by
  simp [requeue, h]

/-- The write loop gives the selected attempts consecutive positions and keeps
everything else. -/
theorem resequence_from (hunresolved : ∀ r ∈ selected, isUnresolved r = true)
    (hdistinct : (selected.map PaymentAttemptRow.paymentHash).Nodup)
    (hhash : attempts.map PaymentAttempt.paymentHash = selected.map PaymentAttemptRow.paymentHash)
    (h : (attempts.zipIdx start).foldlM (fun t entry => do
      let sequence ← okOr (checkedAddI64 maximum (entry.2 + 1)) .valueOutOfRange
      okOr (t.update (fun r => r.paymentHash == entry.1.paymentHash && isUnresolved r)
        fun r => { r with reconciliationSequence := sequence }) .databaseUnavailable) table =
      (.ok table' : Except PaymentAccountingError (Table paymentAttemptSchema))) :
    ∃ f : PaymentAttemptRow → PaymentAttemptRow, table'.rows = table.rows.map f ∧
      (∀ r, f r = { r with reconciliationSequence := (f r).reconciliationSequence }) ∧
      (∀ r, r.paymentHash ∉ selected.map PaymentAttemptRow.paymentHash → f r = r) ∧
      selected.map (fun r => (f r).reconciliationSequence) =
        List.range' (maximum + start + 1) selected.length := by
  induction selected generalizing attempts start table with
  | nil =>
    rw [List.map_nil, List.map_eq_nil_iff] at hhash
    rw [hhash, List.zipIdx_nil, List.foldlM_nil] at h
    obtain rfl := pure_eq_ok.mp h
    exact ⟨id, by simp, fun _ => rfl, fun _ _ => rfl, rfl⟩
  | cons first rest ih =>
    cases attempts with
    | nil => cases hhash
    | cons a attempts =>
      rw [List.map_cons, List.map_cons, List.cons.injEq] at hhash
      rw [List.map_cons, List.nodup_cons] at hdistinct
      simp only [List.zipIdx_cons, List.foldlM_cons, bind_eq_ok, okOr_eq_ok,
        checkedAddI64_eq_some] at h
      obtain ⟨next, ⟨_, ⟨-, rfl⟩, hupdate⟩, hrest⟩ := h
      obtain ⟨g, hrows, hplace, hother, hpositions⟩ :=
        ih (fun r hr => hunresolved r (List.mem_cons_of_mem first hr)) hdistinct.2 hhash.2 hrest
      have hwrite : next.rows = table.rows.map (requeue first.paymentHash (maximum + (start + 1))) := by
        rw [Table.rows_update hupdate, hhash.1]
        rfl
      refine ⟨g ∘ requeue first.paymentHash (maximum + (start + 1)), ?_, ?_, ?_, ?_⟩
      · rw [hrows, hwrite, List.map_map]
      · intro r
        rw [Function.comp_apply, hplace, requeue_eq]
      · intro r hr
        rw [List.map_cons, List.mem_cons, not_or] at hr
        rw [Function.comp_apply, requeue_other _ hr.1]
        exact hother r hr.2
      · -- The first row is written here and not again, the others only later.
        have hfirst : g (requeue first.paymentHash (maximum + (start + 1)) first) =
            { first with reconciliationSequence := maximum + (start + 1) } := by
          rw [hother _ (by simpa using hdistinct.1)]
          exact requeue_self _ (hunresolved first List.mem_cons_self)
        have hlater : rest.map (fun r => ((g ∘ requeue first.paymentHash (maximum + (start + 1))) r)
            |>.reconciliationSequence) = rest.map fun r => (g r).reconciliationSequence := by
          apply List.map_congr_left
          intro r hr
          have hne : r.paymentHash ≠ first.paymentHash :=
            fun heq => hdistinct.1 (heq ▸ List.mem_map_of_mem hr)
          rw [Function.comp_apply, requeue_other _ hne]
        rw [List.map_cons, List.length_cons, List.range'_succ, Function.comp_apply, hfirst, hlater,
          hpositions]
        rfl

/-- Only the queue positions of these attempts differ. -/
structure OnlyRequeues (l l' : Ledger) (hashes : List PaymentHash) : Prop where
  attempts : ∃ f : PaymentAttemptRow → PaymentAttemptRow,
    (∀ r, f r = { r with reconciliationSequence := (f r).reconciliationSequence }) ∧
      (∀ r, r.paymentHash ∉ hashes → f r = r) ∧
      l'.paymentAttempts.rows = l.paymentAttempts.rows.map f
  rest : l' = { l with paymentAttempts := l'.paymentAttempts }

theorem hydrateAttempt_paymentHash {a : PaymentAttempt} (h : hydrateAttempt r = .ok a) :
    a.paymentHash = r.paymentHash := by
  simp only [hydrateAttempt, bind_eq_ok, pure_eq_ok] at h
  obtain ⟨id, -, -, -, -, -, -, -, rfl⟩ := h
  rfl

theorem queueEnd_lt {f : PaymentAttemptRow → PaymentAttemptRow}
    (hpositions : selected.map (fun r => (f r).reconciliationSequence) =
      List.range' (l.queueEnd + 1) selected.length) (hr : r ∈ selected) :
    l.queueEnd < (f r).reconciliationSequence := by
  have hmem : (f r).reconciliationSequence ∈ selected.map fun r => (f r).reconciliationSequence :=
    List.mem_map_of_mem hr
  rw [hpositions, List.mem_range'_1] at hmem
  omega

/-- Rows moved behind all others stand there in the order they are moved. -/
theorem queueRows_moved {f : PaymentAttemptRow → PaymentAttemptRow}
    (hrows : l'.paymentAttempts.rows = l.paymentAttempts.rows.map f)
    (hplace : ∀ r, f r = { r with reconciliationSequence := (f r).reconciliationSequence })
    (hother : ∀ r ∈ l.queueRows.drop limit, f r = r)
    (hpositions : (l.queueRows.take limit).map (fun r => (f r).reconciliationSequence) =
      List.range' (l.queueEnd + 1) (l.queueRows.take limit).length) :
    l'.queueRows = l.queueRows.drop limit ++ (l.queueRows.take limit).map f := by
  have hselect : l'.paymentAttempts.select isReconcilable =
      (l.paymentAttempts.select isReconcilable).map f := by
    rw [Table.select, hrows, List.filter_map, Table.select]
    congr 1
    apply List.filter_congr
    intro r _
    rw [Function.comp_apply, hplace r]
    rfl
  have hkept : (l.queueRows.drop limit).map f = l.queueRows.drop limit := by
    rw [List.map_congr_left hother, List.map_id']
  apply queueRows_eq
  · rw [hselect, ← hkept, ← List.map_append]
    apply List.Perm.map
    apply List.perm_append_comm.trans
    rw [List.take_append_drop]
    exact List.perm_insertionSort _ _
  · rw [List.pairwise_append]
    refine ⟨(queueRows_ordered l).sublist (List.drop_sublist _ _), ?_, ?_⟩
    · have hincreasing : ((l.queueRows.take limit).map
          fun r => (f r).reconciliationSequence).Pairwise (· < ·) := by
        rw [hpositions]
        exact List.pairwise_lt_range'
      rw [List.pairwise_map] at hincreasing ⊢
      exact hincreasing.imp Or.inl
    · intro a ha b hb
      obtain ⟨r, hr, rfl⟩ := List.mem_map.mp hb
      exact Or.inl ((le_queueEnd (List.mem_of_mem_drop ha)).trans_lt (queueEnd_lt hpositions hr))

/-- The rows fetched are the front of the queue and tell whether there are more. -/
theorem fetched_hashes {fetched : List PaymentAttempt}
    (h : (l.queueRows.take (limit + 1)).mapM hydrateAttempt = .ok fetched) :
    (fetched.take limit).map PaymentAttempt.paymentHash = l.reconciliationQueue.take limit ∧
      decide (fetched.length > limit) = decide (limit < l.reconciliationQueue.length) := by
  have hhashes : fetched.map PaymentAttempt.paymentHash =
      l.reconciliationQueue.take (limit + 1) := by
    rw [map_of_mapM (fun _ _ => hydrateAttempt_paymentHash) h, List.map_take]
    rfl
  constructor
  · rw [List.map_take, hhashes, List.take_take, Nat.min_eq_left (Nat.le_succ limit)]
  · have hlength : fetched.length = min (limit + 1) l.reconciliationQueue.length := by
      rw [← List.length_map PaymentAttempt.paymentHash, hhashes, List.length_take]
    rw [hlength, decide_eq_decide]
    omega

/-- A selection takes the front of a queue that stands for the same attempts. -/
theorem loadUnresolved_selects
    (h : l.loadUnresolvedPaymentAttempts limit = .ok ((attempts, more), l')) :
    ∃ table : Table paymentAttemptSchema, Requeued l.paymentAttempts table ∧
      attempts.map PaymentAttempt.paymentHash =
        (Ledger.reconciliationQueue { l with paymentAttempts := table }).take limit ∧
      more = decide (limit <
        (Ledger.reconciliationQueue { l with paymentAttempts := table }).length) := by
  simp only [Ledger.loadUnresolvedPaymentAttempts, bind_eq_ok, okOr_eq_ok, sqliteU64,
    i64TryFrom_eq_ok, checkedAdd_eq_some, pure_eq_ok, Prod.mk.injEq] at h
  obtain ⟨_, ⟨-, rfl⟩, _, ⟨-, rfl⟩, _, ⟨-, rfl⟩, table, hrestart, fetched, hfetched, final,
    hresequence, ⟨rfl, rfl⟩, rfl⟩ := h
  refine ⟨table, ?_, fetched_hashes (l := { l with paymentAttempts := table }) hfetched⟩
  unfold Ledger.restartSequence at hrestart
  split at hrestart
  · exact requeued_update (okOr_eq_ok.mp hrestart)
  · obtain rfl := Except.ok.inj hrestart
    exact Requeued.refl _

/-- A selection that does not restart the counter takes the front of the queue
and puts it behind everything that was in it. -/
theorem loadUnresolved_turn
    (h : l.loadUnresolvedPaymentAttempts limit = .ok ((attempts, more), l'))
    (hbelow : l.queueEnd ≤ i64Max - limit) :
    attempts.map PaymentAttempt.paymentHash = l.reconciliationQueue.take limit ∧
      l'.reconciliationQueue =
        l.reconciliationQueue.drop limit ++ l.reconciliationQueue.take limit ∧
      more = decide (limit < l.reconciliationQueue.length) ∧
      OnlyRequeues l l' (l.reconciliationQueue.take limit) ∧
      ∀ r ∈ l'.paymentAttempts, r.paymentHash ∈ l.reconciliationQueue.take limit →
        l.queueEnd < r.reconciliationSequence := by
  simp only [Ledger.loadUnresolvedPaymentAttempts, bind_eq_ok, okOr_eq_ok, sqliteU64,
    i64TryFrom_eq_ok, checkedAdd_eq_some, pure_eq_ok, Prod.mk.injEq] at h
  obtain ⟨_, ⟨-, rfl⟩, _, ⟨-, rfl⟩, _, ⟨-, rfl⟩, table, hrestart, fetched, hfetched, final,
    hresequence, ⟨rfl, rfl⟩, rfl⟩ := h
  have hwraps : decide (l.queueEnd > i64Max - limit) = false := by simpa using hbelow
  rw [Ledger.queueEnd] at hwraps
  rw [hwraps, Ledger.restartSequence, if_neg (by simp)] at hrestart
  obtain rfl := Except.ok.inj hrestart
  rw [hwraps, if_neg (by simp)] at hresequence
  obtain ⟨hhashes, hmore⟩ := fetched_hashes hfetched
  have hqueue : l.reconciliationQueue.take limit =
      (l.queueRows.take limit).map PaymentAttemptRow.paymentHash := by
    rw [List.map_take]
    rfl
  have hfront := hhashes.trans hqueue
  have hdistinct : ((l.queueRows.take limit).map PaymentAttemptRow.paymentHash).Nodup := by
    rw [List.map_take]
    exact (reconciliationQueue_nodup l).sublist (List.take_sublist _ _)
  obtain ⟨f, hrows, hplace, hother, hpositions⟩ := resequence_from
    (fun r hr => unresolved_of_reconcilable (mem_queueRows.mp (List.mem_of_mem_take hr)).2)
    hdistinct hfront hresequence
  have hdrop : ∀ r ∈ l.queueRows.drop limit, f r = r := by
    intro r hr
    apply hother
    rw [← hqueue]
    have hsplit := reconciliationQueue_nodup l
    rw [← List.take_append_drop limit l.reconciliationQueue] at hsplit
    have hrest : r.paymentHash ∈ l.reconciliationQueue.drop limit := by
      rw [Ledger.reconciliationQueue, ← List.map_drop]
      exact List.mem_map_of_mem hr
    exact fun hmem => (List.nodup_append.mp hsplit).2.2 _ hmem _ hrest rfl
  have hafter : Ledger.queueRows { l with paymentAttempts := final } =
      l.queueRows.drop limit ++ (l.queueRows.take limit).map f :=
    queueRows_moved hrows hplace hdrop hpositions
  refine ⟨hhashes, ?_, hmore, ⟨⟨f, hplace, hqueue ▸ hother, hrows⟩, rfl⟩, ?_⟩
  · rw [Ledger.reconciliationQueue, hafter, List.map_append, List.map_map, hqueue, List.map_drop]
    congr 1
    apply List.map_congr_left
    intro r _
    rw [Function.comp_apply, hplace r]
  · intro r hr hselected
    rw [← Table.mem_rows, hrows] at hr
    obtain ⟨before, hbefore, rfl⟩ := List.mem_map.mp hr
    rw [hqueue, hplace] at hselected
    obtain ⟨taken, htaken, hsame⟩ := List.mem_map.mp hselected
    have heq : before = taken := Table.eq_of_key (hasHash_key before.paymentHash) hbefore
      (mem_queueRows.mp (List.mem_of_mem_take htaken)).1 (by simp) (by simpa using hsame)
    exact queueEnd_lt hpositions (heq ▸ htaken)

end Selection

/-- The attempts a selection returned. -/
def LedgerCall.batch : LedgerCall → Option (List PaymentHash)
  | ⟨.payment (.loadUnresolvedPaymentAttempts _), .ok batch⟩ =>
    some (batch.1.map PaymentAttempt.paymentHash)
  | _ => none

/-- The batches of a history, the oldest first. -/
def batches (history : LedgerHistory) : List (List PaymentHash) :=
  history.reverse.filterMap (·.label.batch)

/-- The size of the batch a successful selection asked for. -/
def LedgerCall.selectionLimit : LedgerCall → Option Nat
  | ⟨.payment (.loadUnresolvedPaymentAttempts limit), .ok _⟩ => some limit
  | _ => none

/-- A selection finds the counter below the value at which it restarts. -/
def NoRestart (event : Event Ledger LedgerCall) : Prop :=
  ∀ limit ∈ event.label.selectionLimit, event.before.queueEnd ≤ i64Max - limit

instance : DecidablePred NoRestart := fun event => by
  unfold NoRestart
  infer_instance

/-- What a call other than a selection does to the attempts. -/
inductive QueueEffect (l l' : Ledger) : Prop
  | unchanged : l'.paymentAttempts = l.paymentAttempts → QueueEffect l l'
  | joined {row : PaymentAttemptRow} : l.paymentAttempts.insert row = some l'.paymentAttempts →
      row.reconciliationSequence = maximumSequence l.paymentAttempts.rows + 1 →
      isReconcilable row = true → QueueEffect l l'
  | moved {row row' : PaymentAttemptRow} : row ∈ l.paymentAttempts → row.Moves row' →
      l.paymentAttempts.update (hasHash row.paymentHash) (fun _ => row') =
        some l'.paymentAttempts → QueueEffect l l'
  | released {row : PaymentAttemptRow} : row ∈ l.paymentAttempts →
      l'.paymentAttempts = l.paymentAttempts.delete (hasHash row.paymentHash) → QueueEffect l l'

section Steps

variable {x : Crates} {l l' : Ledger} {call : LedgerCall} {row row' : PaymentAttemptRow}
  {eventId : EventId} {hash : PaymentHash} {connection : ActiveConnection} {principalSat : Nat}
  {now : UnixTimestamp} {outcome : PaymentReservationOutcome} {u : PaymentHash}

theorem createReservation_joins {budget : ConnectionBudget} {period : Nat}
    (h : l.createReservation eventId hash connection principalSat now budget period =
      .ok (outcome, l')) :
    ∃ row, l.paymentAttempts.insert row = some l'.paymentAttempts ∧
      row.reconciliationSequence = maximumSequence l.paymentAttempts.rows + 1 ∧
      isReconcilable row = true ∧ row.paymentHash = hash := by
  simp only [Ledger.createReservation, bind_eq_ok, okOr_eq_ok, sqliteU64, checkedAddI64_eq_some,
    pure_eq_ok, Prod.mk.injEq] at h
  obtain ⟨_, -, _, -, _, -, _, -, _, -, _, -, _, ⟨-, rfl⟩, _, -, _, -, -, -, _, -, -, -, _, -, _, -,
    table, hinserted, -, rfl⟩ := h
  exact ⟨_, hinserted, rfl, rfl, rfl⟩

/-- A reservation finds an attempt and changes nothing, or puts a new one at the end. -/
theorem reservePayment_joins
    (h : l.reservePayment eventId hash connection principalSat now = .ok (outcome, l')) :
    l' = l ∧ (∀ a, outcome ≠ .reserved a) ∨
      ∃ row, l.paymentAttempts.insert row = some l'.paymentAttempts ∧
        row.reconciliationSequence = maximumSequence l.paymentAttempts.rows + 1 ∧
        isReconcilable row = true ∧ row.paymentHash = hash := by
  simp only [Ledger.reservePayment, bind_eq_ok] at h
  obtain ⟨-, -, _, -, _, -, _, -, budget, -, start, -, byEvent, -, h⟩ := h
  cases byEvent with
  | some existing =>
    simp only at h
    split at h
    · obtain ⟨rfl, rfl⟩ := Prod.mk.inj (pure_eq_ok.mp h)
      exact Or.inl ⟨rfl, nofun⟩
    · cases h
  | none =>
    simp only [bind_eq_ok] at h
    obtain ⟨byHash, -, h⟩ := h
    cases byHash with
    | some existing =>
      obtain ⟨rfl, rfl⟩ := Prod.mk.inj (pure_eq_ok.mp h)
      exact Or.inl ⟨rfl, nofun⟩
    | none => exact Or.inr (createReservation_joins h)

theorem paymentOp_queueEffect {op : PaymentOp} {value : op.Value} (h : op.run l = .ok (value, l'))
    (hnot : LedgerCall.batch ⟨.payment op, .ok value⟩ = none) : QueueEffect l l' := by
  cases op with
  | loadUnresolvedPaymentAttempts limit => cases hnot
  | reservePayment e hash connection principal now =>
    rcases reservePayment_joins h with ⟨rfl, -⟩ | ⟨row, hinsert, hsequence, hfresh, -⟩
    · exact .unchanged rfl
    · exact .joined hinsert hsequence hfresh
  | loadPaymentAttemptByEvent e => exact .unchanged (congrArg _ (reading_eq_ok.mp h).2)
  | loadPaymentAttempt hash => exact .unchanged (congrArg _ (reading_eq_ok.mp h).2)
  | releaseUninitiatedPayment hash now =>
    obtain ⟨row, hmem, rfl, -, -, hattempts, -⟩ := releaseUninitiatedPayment_ok h
    exact .released hmem hattempts
  | markPaymentInitiated hash now =>
    obtain ⟨rfl, -⟩ | ⟨row, -, -, -, hmoved⟩ := markPaymentInitiated_ok h
    · exact .unchanged rfl
    · exact .moved hmoved.mem hmoved.move hmoved.attempts
  | markPaymentPending hash now =>
    obtain ⟨rfl, -⟩ | ⟨row, row', -, -, hmoved⟩ := markPaymentPending_ok h
    · exact .unchanged rfl
    · exact .moved hmoved.mem hmoved.move hmoved.attempts
  | markPaymentFailed hash now =>
    obtain ⟨rfl, -⟩ | ⟨row, row', -, -, hmoved⟩ := markPaymentFailed_ok h
    · exact .unchanged rfl
    · exact .moved hmoved.mem hmoved.move hmoved.attempts
  | markPaymentSucceeded hash principal fee now =>
    obtain ⟨rfl, -⟩ | ⟨row, row', -, -, -, hmoved⟩ := markPaymentSucceeded_ok h
    · exact .unchanged rfl
    · exact .moved hmoved.mem hmoved.move hmoved.attempts

theorem LedgerStep.queueEffect (h : LedgerStep x l call l') (hnot : call.batch = none) :
    QueueEffect l l' := by
  obtain ⟨op, reply⟩ := call
  cases op with
  | payment op =>
    rcases h.cases with rfl | ⟨value, random, rfl, hrun⟩
    · exact .unchanged rfl
    · exact paymentOp_queueEffect hrun hnot
  | registry op => exact .unchanged (h.attempts_kept nofun)
  | claim op => exact .unchanged (h.attempts_kept nofun)
  | record op => exact .unchanged (h.attempts_kept nofun)
  | registration op => exact .unchanged (h.attempts_kept nofun)

/-- A call that returns a batch is a selection. -/
theorem LedgerStep.selection (h : LedgerStep x l call l') {batch : List PaymentHash}
    (hbatch : call.batch = some batch) : ∃ limit attempts more,
      call = ⟨.payment (.loadUnresolvedPaymentAttempts limit), .ok (attempts, more)⟩ ∧
      batch = attempts.map PaymentAttempt.paymentHash ∧
      l.loadUnresolvedPaymentAttempts limit = .ok ((attempts, more), l') := by
  unfold LedgerCall.batch at hbatch
  split at hbatch
  · rename_i limit value
    cases hbatch
    obtain ⟨random, hrun⟩ := h.run_of_ok
    exact ⟨limit, value.1, value.2, rfl, rfl, hrun⟩
  · cases hbatch

theorem PaymentAttemptRow.Moves.place (h : row.Moves row') :
    row'.paymentHash = row.paymentHash ∧ row'.eventId = row.eventId ∧
      row'.reconciliationSequence = row.reconciliationSequence := by
  cases h <;> exact ⟨rfl, rfl, rfl⟩

theorem reconciliationQueue_congr (h : l'.paymentAttempts = l.paymentAttempts) :
    l'.reconciliationQueue = l.reconciliationQueue := by
  rw [Ledger.reconciliationQueue, Ledger.queueRows, h]
  rfl

/-- While the unresolved attempts stay the same, only selections move the queue. -/
theorem QueueEffect.queue_kept (h : QueueEffect l l') (hfixed : l'.unresolved = l.unresolved) :
    l'.reconciliationQueue = l.reconciliationQueue := by
  cases h with
  | unchanged hsame => exact reconciliationQueue_congr hsame
  | @joined row hinsert _ hfresh =>
    -- A new attempt would be unresolved under a hash that no row had.
    have hnew : row.paymentHash ∈ l'.unresolved :=
      mem_unresolved.mpr ⟨row, Table.insert_self hinsert, hfresh, rfl⟩
    rw [hfixed] at hnew
    obtain ⟨other, hother, -, hsame⟩ := mem_unresolved.mp hnew
    have hconflict := Table.insert_no_conflict hinsert hother
    simp [paymentAttemptSchema, hsame] at hconflict
  | @moved row row' hrow hmove hupdate =>
    obtain ⟨hhash, hevent, hsequence⟩ := hmove.place
    apply reconciliationQueue_map (Table.rows_update hupdate)
    intro r hr
    split
    · rename_i hsame
      obtain rfl := Table.eq_of_key (hasHash_key row.paymentHash) hr hrow hsame (by simp)
      refine ⟨?_, hhash, hevent, hsequence⟩
      have hafter : row' ∈ l'.paymentAttempts :=
        (Table.mem_replace hupdate).mpr (Or.inr ⟨rfl, r, hr, hsame⟩)
      rw [Bool.eq_iff_iff]
      constructor
      · intro hselects
        have hmem : r.paymentHash ∈ l.unresolved :=
          hfixed ▸ mem_unresolved.mpr ⟨row', hafter, hselects, hhash⟩
        obtain ⟨other, hother, hselects, heq⟩ := mem_unresolved.mp hmem
        rwa [Table.eq_of_key (hasHash_key r.paymentHash) hr hother (by simp) (by simpa using heq)]
      · intro hselects
        have hmem : r.paymentHash ∈ l'.unresolved :=
          hfixed ▸ mem_unresolved.mpr ⟨r, hr, hselects, rfl⟩
        obtain ⟨other, hother, hselects, heq⟩ := mem_unresolved.mp hmem
        rwa [Table.eq_of_key (hasHash_key r.paymentHash) hafter hother (by simp [hhash])
          (by simpa using heq)]
    · exact ⟨rfl, rfl, rfl, rfl⟩
  | @released row hrow hdelete =>
    have hsettled : ∀ r ∈ l.paymentAttempts.rows, isReconcilable r = true →
        hasHash row.paymentHash r = false := by
      intro r hr hselects
      have hmem : r.paymentHash ∈ l'.unresolved :=
        hfixed ▸ mem_unresolved.mpr ⟨r, hr, hselects, rfl⟩
      obtain ⟨other, hother, -, heq⟩ := mem_unresolved.mp hmem
      rw [hdelete, Table.mem_delete] at hother
      simpa [hasHash, heq] using hother.2
    have hselect : l'.paymentAttempts.select isReconcilable =
        l.paymentAttempts.select isReconcilable := by
      rw [hdelete, Table.select, Table.delete, List.filter_filter, Table.select]
      apply List.filter_congr
      intro r hr
      cases hselects : isReconcilable r with
      | false => rfl
      | true => simp [hsettled r hr hselects]
    rw [Ledger.reconciliationQueue, Ledger.queueRows, hselect]
    rfl

/-- Wherever both are stored, one attempt stands before the other. -/
def Ahead (l : Ledger) (u hash : PaymentHash) : Prop :=
  ∀ a ∈ l.paymentAttempts, ∀ b ∈ l.paymentAttempts, a.paymentHash = u → b.paymentHash = hash →
    a.reconciliationSequence < b.reconciliationSequence

theorem Ahead.of_places (h : Ahead l u hash)
    (hplaces : ∀ r' ∈ l'.paymentAttempts, ∃ r ∈ l.paymentAttempts,
      r.paymentHash = r'.paymentHash ∧ r.reconciliationSequence = r'.reconciliationSequence) :
    Ahead l' u hash := by
  intro a' ha' b' hb' hau hbhash
  obtain ⟨a, ha, hahash, hasequence⟩ := hplaces a' ha'
  obtain ⟨b, hb, hbhash', hbsequence⟩ := hplaces b' hb'
  rw [← hasequence, ← hbsequence]
  exact h a ha b hb (hahash.trans hau) (hbhash'.trans hbhash)

/-- A new attempt joins behind every unresolved one. -/
theorem ahead_of_joined (hinsert : l.paymentAttempts.insert row = some l'.paymentAttempts)
    (hsequence : row.reconciliationSequence = maximumSequence l.paymentAttempts.rows + 1)
    (hu : u ∈ l.unresolved) : Ahead l' u row.paymentHash := by
  have hnew : ∀ r ∈ l.paymentAttempts, r.paymentHash ≠ row.paymentHash := by
    intro r hr hsame
    have hconflict := Table.insert_no_conflict hinsert hr
    simp [paymentAttemptSchema, hsame] at hconflict
  obtain ⟨waiting, hwaiting, -, rfl⟩ := mem_unresolved.mp hu
  intro a ha b hb hau hbhash
  have ha' := ((Table.mem_insert hinsert).mp ha).resolve_right
    fun heq => hnew waiting hwaiting (heq ▸ hau.symm)
  have hb' := ((Table.mem_insert hinsert).mp hb).resolve_left fun hold => hnew b hold hbhash
  rw [hb', hsequence]
  exact Nat.lt_succ_of_le (le_maximumSequence ha')

/-- An unresolved attempt stays ahead through calls that return no batch. -/
theorem Ahead.effect (h : Ahead l u hash) (hu : u ∈ l.unresolved) (heffect : QueueEffect l l') :
    Ahead l' u hash := by
  cases heffect with
  | unchanged hsame =>
    apply h.of_places
    intro r hr
    exact ⟨r, hsame ▸ hr, rfl, rfl⟩
  | @joined row hinsert hsequence _ =>
    obtain ⟨waiting, hwaiting, -, hsame⟩ := mem_unresolved.mp hu
    intro a ha b hb hau hbhash
    rcases (Table.mem_insert hinsert).mp ha with ha | rfl
    · rcases (Table.mem_insert hinsert).mp hb with hb | rfl
      · exact h a ha b hb hau hbhash
      · rw [hsequence]
        exact Nat.lt_succ_of_le (le_maximumSequence ha)
    · have hconflict := Table.insert_no_conflict hinsert hwaiting
      simp [paymentAttemptSchema, hsame, hau] at hconflict
  | @moved row row' hrow hmove hupdate =>
    apply h.of_places
    intro r' hr'
    rcases (Table.mem_replace hupdate).mp hr' with ⟨hkept, -⟩ | ⟨rfl, -⟩
    · exact ⟨r', hkept, rfl, rfl⟩
    · exact ⟨row, hrow, hmove.place.1.symm, hmove.place.2.2.symm⟩
  | released hrow hdelete =>
    apply h.of_places
    intro r hr
    rw [hdelete, Table.mem_delete] at hr
    exact ⟨r, hr.1, rfl, rfl⟩

/-- A selection that does not return an unresolved attempt leaves it ahead. -/
theorem Ahead.turn {limit : Nat} {attempts : List PaymentAttempt} {more : Bool}
    (h : Ahead l u hash) (hu : u ∈ l.unresolved)
    (hload : l.loadUnresolvedPaymentAttempts limit = .ok ((attempts, more), l'))
    (hbelow : l.queueEnd ≤ i64Max - limit)
    (hnot : u ∉ attempts.map PaymentAttempt.paymentHash) : Ahead l' u hash := by
  obtain ⟨hbatch, -, -, hrequeues, hbehind⟩ := loadUnresolved_turn hload hbelow
  rw [hbatch] at hnot
  obtain ⟨f, hplace, hother, hrows⟩ := hrequeues.attempts
  have hbefore : ∀ r' ∈ l'.paymentAttempts, ∃ r ∈ l.paymentAttempts, f r = r' ∧
      r.paymentHash = r'.paymentHash := by
    intro r' hr'
    rw [← Table.mem_rows, hrows] at hr'
    obtain ⟨r, hr, rfl⟩ := List.mem_map.mp hr'
    refine ⟨r, hr, rfl, ?_⟩
    rw [hplace r]
  intro a' ha' b' hb' hau hbhash
  obtain ⟨a, ha, rfl, hahash⟩ := hbefore a' ha'
  obtain ⟨b, hb, rfl, hbhash'⟩ := hbefore b' hb'
  rw [hother a (by rwa [hahash, hau])]
  by_cases hselected : hash ∈ l.reconciliationQueue.take limit
  · -- The other attempt goes behind every unresolved one.
    apply lt_of_le_of_lt _ (hbehind (f b) hb' (hbhash ▸ hselected))
    obtain ⟨waiting, hwaiting, hselects, hsame⟩ := mem_unresolved.mp hu
    obtain rfl := Table.eq_of_key (hasHash_key u) ha hwaiting (by simp [hahash, hau])
      (by simp [hsame])
    exact le_queueEnd (mem_queueRows.mpr ⟨ha, hselects⟩)
  · rw [hother b (by rwa [hbhash', hbhash])]
    exact h a ha b hb (hahash.trans hau) (hbhash'.trans hbhash)

/-- What stands ahead of an attempt precedes it in the queue. -/
theorem Ahead.precedes (h : Ahead l u hash) (hu : u ∈ l.unresolved) {limit : Nat}
    (hhash : hash ∈ l.reconciliationQueue.take limit) :
    u ∈ (l.reconciliationQueue.take limit).takeWhile (· ≠ hash) := by
  obtain ⟨earlier, later, hsplit, hfirst⟩ := List.eq_append_cons_of_mem hhash
  rw [hsplit, Rotation.takeWhile_ne_append hfirst]
  have hqueue : l.reconciliationQueue =
      earlier ++ hash :: (later ++ l.reconciliationQueue.drop limit) := by
    rw [← List.cons_append, ← List.append_assoc, ← hsplit, List.take_append_drop]
  have hmem := mem_reconciliationQueue.mpr hu
  rw [hqueue, List.mem_append] at hmem
  apply hmem.resolve_right
  intro hbehind
  obtain ⟨front, back, hrows, rfl, hback⟩ := List.map_eq_append_iff.mp hqueue
  obtain ⟨b, rest, rfl, hb, hrest⟩ := List.map_eq_cons_iff.mp hback
  rw [← hb, ← hrest, ← List.map_cons, List.mem_map] at hbehind
  obtain ⟨a, ha, hau⟩ := hbehind
  have hstored : ∀ r ∈ b :: rest, r ∈ l.paymentAttempts := by
    intro r hr
    exact (mem_queueRows.mp (hrows ▸ List.mem_append_right front hr)).1
  have hless := h a (hstored a ha) b (hstored b List.mem_cons_self) hau hb
  rcases List.mem_cons.mp ha with rfl | ha
  · exact lt_irrefl _ hless
  · have hordered := queueRows_ordered l
    rw [hrows, List.pairwise_append, List.pairwise_cons] at hordered
    have hba := hordered.2.1.1 a ha
    unfold queuedBefore at hba
    omega

end Steps

section Runs

variable {x : Crates} {l l' : Ledger} {history : LedgerHistory} {limit : Nat} {u hash : PaymentHash}
  {event : Event Ledger LedgerCall}

@[simp] theorem batches_nil : batches [] = [] := rfl

theorem batches_cons : batches (event :: history) =
    batches history ++ event.label.batch.toList := by
  rw [batches, List.reverse_cons, List.filterMap_append, batches]
  cases hbatch : event.label.batch <;> simp [hbatch]

/-- While the unresolved attempts stay the same, selections of one size take turns. -/
theorem turns_of_run (hrun : LedgerRun x l history l') (hbelow : ∀ event ∈ history, NoRestart event)
    (hlimit : ∀ event ∈ history, ∀ n ∈ event.label.selectionLimit, n = limit)
    (hfixed : ∀ event ∈ history, event.after.unresolved = l.unresolved) :
    Turns limit l.reconciliationQueue (batches history) l'.reconciliationQueue ∧
      l'.unresolved = l.unresolved := by
  induction hrun with
  | refl => exact ⟨.none, rfl⟩
  | @tail past middle last call hpast hstep ih =>
    rw [List.forall_mem_cons] at hbelow hlimit hfixed
    obtain ⟨hturns, hsame⟩ := ih hbelow.2 hlimit.2 hfixed.2
    refine ⟨?_, hfixed.1⟩
    rw [batches_cons]
    cases hbatch : call.batch with
    | none =>
      have hkept := (hstep.queueEffect hbatch).queue_kept (hfixed.1.trans hsame.symm)
      simpa [hbatch, hkept] using hturns
    | some batch =>
      obtain ⟨n, attempts, more, rfl, rfl, hload⟩ := hstep.selection hbatch
      obtain rfl := hlimit.1 n rfl
      obtain ⟨hserved, hqueue, -⟩ := loadUnresolved_turn hload (hbelow.1 n rfl)
      simp only [Option.toList_some, hserved]
      rw [hqueue]
      exact hturns.snoc

theorem before_append_of_mem {history later : List (List PaymentHash)}
    (h : u ∈ Rotation.before hash history) : u ∈ Rotation.before hash (history ++ later) := by
  rw [Rotation.before, List.flatten_append, List.takeWhile_append]
  split
  · exact List.mem_append_left _ (List.takeWhile_subset _ h)
  · exact h

/-- An attempt that stays unresolved is returned before one it is ahead of. -/
theorem Ahead.run (h : Ahead l u hash) (hrun : LedgerRun x l history l')
    (hbelow : ∀ event ∈ history, NoRestart event) (hu : u ∈ l.unresolved)
    (hstays : ∀ event ∈ history, u ∈ event.after.unresolved) :
    u ∈ l'.unresolved ∧ (u ∈ Rotation.before hash (batches history) ∨
      hash ∉ (batches history).flatten ∧ Ahead l' u hash) := by
  induction hrun with
  | refl => exact ⟨hu, Or.inr ⟨by simp, h⟩⟩
  | @tail past middle last call hpast hstep ih =>
    rw [List.forall_mem_cons] at hbelow hstays
    obtain ⟨hwaits, hearlier⟩ := ih hbelow.2 hstays.2
    refine ⟨hstays.1, ?_⟩
    rw [batches_cons]
    rcases hearlier with hreturned | ⟨hnot, hahead⟩
    · exact Or.inl (before_append_of_mem hreturned)
    · cases hbatch : call.batch with
      | none =>
        simp only [Option.toList_none, List.append_nil]
        exact Or.inr ⟨hnot, hahead.effect hwaits (hstep.queueEffect hbatch)⟩
      | some batch =>
        obtain ⟨n, attempts, more, rfl, rfl, hload⟩ := hstep.selection hbatch
        have hroom := hbelow.1 n rfl
        have hserved := (loadUnresolved_turn hload hroom).1
        simp only [Option.toList_some]
        have hbefore : Rotation.before hash
            (batches past ++ [attempts.map PaymentAttempt.paymentHash]) = (batches past).flatten ++
              (attempts.map PaymentAttempt.paymentHash).takeWhile (· ≠ hash) := by
          rw [Rotation.before, List.flatten_append, List.flatten_singleton,
            List.takeWhile_append_of_pos]
          intro other hother
          simpa using fun heq : other = hash => hnot (heq ▸ hother)
        by_cases hnow : hash ∈ attempts.map PaymentAttempt.paymentHash
        · left
          rw [hbefore, hserved]
          exact List.mem_append_right _ (hahead.precedes hwaits (hserved ▸ hnow))
        · by_cases hreturned : u ∈ attempts.map PaymentAttempt.paymentHash
          · left
            rw [hbefore, List.takeWhile_eq_self_iff.mpr]
            · exact List.mem_append_right _ hreturned
            · intro other hother
              simpa using fun heq : other = hash => hnow (heq ▸ hother)
          · right
            refine ⟨?_, hahead.turn hwaits hload hroom hreturned⟩
            simpa using ⟨by simpa using hnot, by simpa using hnow⟩

end Runs

section Success

variable {l : Ledger} {limit : Nat}

/-- Any position in range can be given to the attempts of a condition. -/
theorem requeue_succeeds (p : PaymentAttemptRow → Bool) {sequence : Nat} (h : sequence ≤ i64Max)
    (table : Table paymentAttemptSchema) :
    ∃ table', table.update p (fun r => { r with reconciliationSequence := sequence }) =
      some table' := by
  apply Table.update_succeeds
  · intro r hr _
    have hvalid : r.Valid := by simpa [paymentAttemptSchema] using Table.check_of_mem hr
    obtain ⟨h₁, h₂, h₃, h₄, h₅, h₆, h₇, h₈, h₉, h₁₀, h₁₁, h₁₂, h₁₃, h₁₄, h₁₅, -, h₁₇⟩ := hvalid
    have hafter : { r with reconciliationSequence := sequence }.Valid :=
      ⟨h₁, h₂, h₃, h₄, h₅, h₆, h₇, h₈, h₉, h₁₀, h₁₁, h₁₂, h₁₃, h₁₄, h₁₅, h, h₁₇⟩
    simpa [paymentAttemptSchema] using hafter
  · intro a b
    split <;> split <;> rfl

theorem resequence_succeeds (maximum start : Nat) (attempts : List PaymentAttempt)
    (table : Table paymentAttemptSchema) (hroom : maximum + start + attempts.length ≤ i64Max) :
    ∃ table', (attempts.zipIdx start).foldlM (fun t entry => do
      let sequence ← okOr (checkedAddI64 maximum (entry.2 + 1)) .valueOutOfRange
      okOr (t.update (fun r => r.paymentHash == entry.1.paymentHash && isUnresolved r)
        fun r => { r with reconciliationSequence := sequence }) .databaseUnavailable) table =
      (.ok table' : Except PaymentAccountingError (Table paymentAttemptSchema)) := by
  induction attempts generalizing start table with
  | nil => exact ⟨table, rfl⟩
  | cons a rest ih =>
    rw [List.length_cons] at hroom
    obtain ⟨next, hnext⟩ := requeue_succeeds
      (fun r => r.paymentHash == a.paymentHash && isUnresolved r)
      (show maximum + (start + 1) ≤ i64Max by omega) table
    obtain ⟨final, hfinal⟩ := ih (start + 1) next (by omega)
    refine ⟨final, ?_⟩
    simp only [List.zipIdx_cons, List.foldlM_cons, bind_eq_ok, okOr_eq_ok, checkedAddI64_eq_some]
    exact ⟨next, ⟨_, ⟨by omega, rfl⟩, hnext⟩, hfinal⟩

theorem restartSequence_succeeds (wraps : Bool) : ∃ table, l.restartSequence wraps = .ok table ∧
    ∀ r ∈ table, ∃ s ∈ l.paymentAttempts, r.connectionId = s.connectionId := by
  unfold Ledger.restartSequence
  split
  · obtain ⟨table, htable⟩ := requeue_succeeds isReconcilable (Nat.zero_le i64Max) l.paymentAttempts
    refine ⟨table, by rw [htable]; rfl, fun r hr => ?_⟩
    obtain ⟨s, hs, rfl⟩ := (Table.mem_update htable).mp hr
    refine ⟨s, hs, ?_⟩
    split <;> rfl
  · exact ⟨l.paymentAttempts, rfl, fun r hr => ⟨r, hr, rfl⟩⟩

/-- A selection succeeds if every connection identifier parses. -/
theorem loadUnresolved_succeeds
    (hparses : ∀ row ∈ l.paymentAttempts, ∃ id : ConnectionId, id.value = row.connectionId)
    (hlimit : limit < i64Max) :
    ∃ batch l', l.loadUnresolvedPaymentAttempts limit = .ok (batch, l') := by
  obtain ⟨restarted, hrestarted, hsame⟩ :=
    restartSequence_succeeds (l := l) (decide (l.queueEnd > i64Max - limit))
  have hfetched : ∃ fetched, (((restarted.select isReconcilable).insertionSort queuedBefore).take
      (limit + 1)).mapM hydrateAttempt = .ok fetched := by
    apply mapM_succeeds
    intro r hr
    have hselected := List.mem_of_mem_take hr
    rw [List.mem_insertionSort, Table.mem_select] at hselected
    obtain ⟨s, hs, hconnection⟩ := hsame r hselected.1
    obtain ⟨id, hid⟩ := hparses s hs
    have hvalid : r.Valid := by simpa [paymentAttemptSchema] using Table.check_of_mem hselected.1
    exact ⟨r.toAttempt id, (hydrateAttempt_eq_ok hvalid).mpr ⟨hid.trans hconnection.symm, rfl⟩⟩
  obtain ⟨fetched, hfetched⟩ := hfetched
  have hlength : (fetched.take limit).length ≤ limit := List.length_take_le _ _
  have hstart : (if decide (l.queueEnd > i64Max - limit) then 0 else l.queueEnd) + 0 +
      (fetched.take limit).length ≤ i64Max := by
    split
    · omega
    · rename_i hbelow
      simp only [decide_eq_true_eq] at hbelow
      omega
  obtain ⟨table, htable⟩ := resequence_succeeds _ 0 (fetched.take limit) restarted hstart
  have hwide : i64Max < 2 ^ 64 := by decide
  refine ⟨(fetched.take limit, decide (fetched.length > limit)),
    { l with paymentAttempts := table }, ?_⟩
  simp only [Ledger.loadUnresolvedPaymentAttempts, bind_eq_ok, okOr_eq_ok, sqliteU64,
    i64TryFrom_eq_ok, checkedAdd_eq_some, pure_eq_ok]
  exact ⟨_, ⟨by omega, rfl⟩, _, ⟨by omega, rfl⟩, _, ⟨by omega, rfl⟩, restarted, hrestarted,
    fetched, hfetched, table, htable, rfl⟩

end Success

/-- Reconciliation is round robin. Over a fixed set of unresolved attempts the
selections that together ask for as many return every one of them, and each once
if they fit exactly. A selection says whether there are more attempts than it
asked for and moves those it returns only. An attempt reserved later comes after
all that were unresolved at its reservation. -/
theorem reconciliation_is_round_robin {x : Crates} {l l' : Ledger} {history : LedgerHistory}
    (hrun : LedgerRun x l history l') (hbelow : ∀ event ∈ history, NoRestart event) :
    (∀ m, 1 ≤ m → (∀ event ∈ history, ∀ n ∈ event.label.selectionLimit, n = m) →
      (∀ event ∈ history, event.after.unresolved = l.unresolved) →
      (batches history).length = (l.unresolved.card + m - 1) / m →
      (∀ u ∈ l.unresolved, u ∈ (batches history).flatten) ∧
        (m ∣ l.unresolved.card → ∀ u ∈ l.unresolved, (batches history).flatten.count u = 1)) ∧
    (∀ event ∈ history, ∀ m attempts more,
      event.label = ⟨.payment (.loadUnresolvedPaymentAttempts m), .ok (attempts, more)⟩ →
      (more = true ↔ m < event.before.unresolved.card) ∧
        OnlyRequeues event.before event.after (attempts.map PaymentAttempt.paymentHash)) ∧
    (∀ later reservation earlier, history = later ++ reservation :: earlier →
      ∀ eventId hash connection principalSat now a, reservation.label =
        ⟨.payment (.reservePayment eventId hash connection principalSat now), .ok (.reserved a)⟩ →
      ∀ u ∈ reservation.before.unresolved, (∀ event ∈ later, u ∈ event.after.unresolved) →
        hash ∈ (batches later).flatten → u ∈ Rotation.before hash (batches later)) ∧
    ∀ m, (∀ row ∈ l'.paymentAttempts, ∃ id : ConnectionId, id.value = row.connectionId) →
      m < i64Max → l'.queueEnd ≤ i64Max - m →
      ∃ batch final, l'.loadUnresolvedPaymentAttempts m = .ok (batch, final) := by
  refine ⟨?_, ?_, ?_, fun m hparses hlimit _ => loadUnresolved_succeeds hparses hlimit⟩
  · intro m hm hlimit hfixed hlength
    have hturns := (turns_of_run hrun hbelow hlimit hfixed).1
    have hcard := length_reconciliationQueue l
    have hdivides := Nat.div_add_mod (l.unresolved.card + m - 1) m
    have hremainder := Nat.mod_lt (l.unresolved.card + m - 1) hm
    rw [← hlength, Nat.mul_comm] at hdivides
    constructor
    · intro u hu
      exact hturns.covers (by omega) u (mem_reconciliationQueue.mpr hu)
    · rintro ⟨turns, hexact⟩ u hu
      have hall : (batches history).length = turns := by
        rw [hlength, hexact, Nat.add_sub_assoc hm, Nat.mul_add_div hm,
          Nat.div_eq_of_lt (Nat.sub_lt hm Nat.one_pos), Nat.add_zero]
      rw [hturns.exact (by rw [hall, hcard, hexact, Nat.mul_comm])]
      exact List.count_eq_one_of_mem (reconciliationQueue_nodup l) (mem_reconciliationQueue.mpr hu)
  · intro event hevent m attempts more hlabel
    have hstep := hrun.step_of_mem hevent
    rw [hlabel] at hstep
    obtain ⟨random, hload⟩ := hstep.run_of_ok
    have hroom := hbelow event hevent m (by rw [hlabel]; rfl)
    obtain ⟨hserved, -, hmore, hrequeues, -⟩ := loadUnresolved_turn hload hroom
    rw [hserved, hmore, decide_eq_true_iff, length_reconciliationQueue]
    exact ⟨Iff.rfl, hrequeues⟩
  · rintro later reservation earlier rfl eventId hash connection principalSat now a hlabel u hu
      hstays hreturned
    obtain ⟨-, hstep, hlater⟩ := hrun.split
    rw [hlabel] at hstep
    obtain ⟨random, hreserve⟩ := hstep.run_of_ok
    obtain ⟨waiting, hwaiting, hselects, rfl⟩ := mem_unresolved.mp hu
    rcases reservePayment_joins hreserve with ⟨-, hnew⟩ | ⟨row, hinsert, hsequence, -, rfl⟩
    · exact absurd rfl (hnew a)
    · have hahead := ahead_of_joined hinsert hsequence hu
      have hwaits : waiting.paymentHash ∈ reservation.after.unresolved :=
        mem_unresolved.mpr ⟨waiting, (Table.mem_insert hinsert).mpr (Or.inl hwaiting), hselects, rfl⟩
      have hrunLater := hahead.run hlater
        (fun event hevent => hbelow event (List.mem_append_left _ hevent)) hwaits hstays
      exact hrunLater.2.resolve_right fun h => h.1 hreturned

namespace Sample

/-- Three reserved attempts. -/
def waitingAttempts : Ledger :=
  (performAll crates .empty
    [payment (.reservePayment ⟨3⟩ ⟨3⟩ (activeConnection 1000) 1 1030),
     payment (.reservePayment ⟨2⟩ ⟨2⟩ (activeConnection 1000) 1 1020),
     payment (.reservePayment ⟨1⟩ ⟨1⟩ (activeConnection 1000) 1 1010),
     registry (.importConnection connection 1000 0 1000)]).2

def selections : LedgerHistory × Ledger :=
  performAll crates waitingAttempts (List.replicate 3 (payment (.loadUnresolvedPaymentAttempts 1)))

end Sample

theorem reconciliation_is_round_robin_queued :
    Sample.waitingAttempts.unresolved = {⟨1⟩, ⟨2⟩, ⟨3⟩} ∧
      ∀ u ∈ Sample.waitingAttempts.unresolved, (batches Sample.selections.1).flatten.count u = 1 := by
  have hrun : LedgerRun Sample.crates Sample.waitingAttempts Sample.selections.1 Sample.selections.2 :=
    performAll_run _ _ _
  have hbelow : ∀ event ∈ Sample.selections.1, NoRestart event := by decide
  have hrounds := (reconciliation_is_round_robin hrun hbelow).1 1 le_rfl (by decide)
    (by decide) (by decide)
  exact ⟨by decide, hrounds.2 (one_dvd _)⟩

end NwcMobile
