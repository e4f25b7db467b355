import NwcMobile.Foundations.Ranking
import NwcMobile.Foundations.Rotation
import NwcMobile.Ledger.Notifications

/-!
Checking pending invoices in turn: a pass reads a batch of them, the one checked
longest ago first, and touches each. The passes over a fixed set of pending
invoices are rotations by the time of the last check.
-/

namespace NwcMobile

open Fallible Relational Notifications Rotation

namespace Ledger

/-- The invoices a worker looks at: all of them, or those of one wallet. -/
def invoiceScope (l : Ledger) : Option PublicKey → CreatedInvoiceRow → Bool
  | none, _ => true
  | some wallet, r => l.recordOfWallet wallet r.connectionId r.connectionRevision

def pendingInvoicesOf (l : Ledger) : Option PublicKey → Nat →
    Except LedgerError (List TrackedNwcInvoice)
  | none, maximum => l.pendingNwcInvoices maximum
  | some wallet, maximum => l.pendingNwcInvoicesForWallet wallet maximum

/-- Touch invoices in turn, each at its own time. -/
def touchInTurn (times : Nat → UnixTimestamp) : List EventId → Ledger → Except LedgerError Ledger
  | [], l => .ok l
  | eventId :: rest, l => do
    let (_, l) ← l.touchNwcInvoice eventId (times 0)
    touchInTurn (fun turn => times (turn + 1)) rest l

/-- One pass: the invoices inspected, and the ledger after them. -/
def rotationPass (wallet : Option PublicKey) (maximum : Nat) (times : Nat → UnixTimestamp)
    (l : Ledger) : Except LedgerError (List EventId × Ledger) := do
  let batch ← l.pendingInvoicesOf wallet maximum
  let inspected := batch.map TrackedNwcInvoice.requestEventId
  let l ← touchInTurn times inspected l
  pure (inspected, l)

/-- Passes one after the other, each with the times at which it touches. -/
def rotationPasses (wallet : Option PublicKey) (maximum : Nat) :
    List (Nat → UnixTimestamp) → Ledger → Except LedgerError (List (List EventId) × Ledger)
  | [], l => .ok ([], l)
  | times :: rest, l => do
    let (inspected, l) ← rotationPass wallet maximum times l
    let (later, l) ← rotationPasses wallet maximum rest l
    pure (inspected :: later, l)

/-- A pending invoice in the scope of a pass. -/
def Waits (l : Ledger) (wallet : Option PublicKey) (r : CreatedInvoiceRow) : Prop :=
  r ∈ l.createdInvoices ∧ r.completedAt = none ∧ l.invoiceScope wallet r = true

def waitingRows (l : Ledger) (wallet : Option PublicKey) : List CreatedInvoiceRow :=
  l.createdInvoices.select fun r => r.completedAt.isNone && l.invoiceScope wallet r

def waiting (l : Ledger) (wallet : Option PublicKey) : Finset EventId :=
  ((l.waitingRows wallet).map CreatedInvoiceRow.requestEventId).toFinset

def lastChecked (l : Ledger) (eventId : EventId) : Nat :=
  match l.createdInvoices.selectRow fun r => r.requestEventId == eventId with
  | none => 0
  | some r => r.lastCheckedAt

section Waiting

variable {l l' : Ledger} {wallet : Option PublicKey} {r : CreatedInvoiceRow} {eventId : EventId}

theorem invoiceEvent_key (eventId : EventId) :
    createdInvoiceSchema.Key fun r => r.requestEventId == eventId := by
  intro a b ha hb
  rw [beq_iff_eq] at ha hb
  simp [createdInvoiceSchema, ha, hb]

theorem mem_waitingRows : r ∈ l.waitingRows wallet ↔ l.Waits wallet r := by
  rw [waitingRows, Table.mem_select, Waits]
  simp

theorem mem_waiting : eventId ∈ l.waiting wallet ↔ ∃ r, l.Waits wallet r ∧
    r.requestEventId = eventId := by
  simp only [waiting, List.mem_toFinset, List.mem_map, mem_waitingRows]

theorem lastChecked_eq (hr : r ∈ l.createdInvoices) :
    l.lastChecked r.requestEventId = r.lastCheckedAt := by
  have hrow := (Table.selectRow_eq_some (invoiceEvent_key r.requestEventId)).mpr ⟨hr, by simp⟩
  rw [lastChecked, hrow]

theorem pendingInvoicesOf_eq (l : Ledger) (wallet : Option PublicKey) (maximum : Nat) :
    l.pendingInvoicesOf wallet maximum = l.pendingInvoiceBatch (l.invoiceScope wallet) maximum := by
  cases wallet <;> rfl

end Waiting

section Touching

variable {l l' : Ledger} {wallet : Option PublicKey} {r : CreatedInvoiceRow} {eventId : EventId}
  {checkedAt : UnixTimestamp}

theorem touchNwcInvoice_ok (h : l.touchNwcInvoice eventId checkedAt = .ok ((), l')) :
    ∃ createdInvoices, l' = { l with createdInvoices } ∧
      l.createdInvoices.update
        (fun r => r.requestEventId == eventId && r.completedAt.isNone)
        (fun r => { r with lastCheckedAt := max checkedAt (r.lastCheckedAt + 1) }) =
          some createdInvoices := by
  simp only [touchNwcInvoice, bind_eq_ok, okOr_eq_ok, pure_eq_ok, Prod.mk.injEq, true_and] at h
  obtain ⟨stored, hstored, createdInvoices, hupdate, rfl⟩ := h
  obtain ⟨-, rfl⟩ := i64TryFrom_eq_ok.mp hstored
  exact ⟨createdInvoices, rfl, hupdate⟩

theorem touch_lastChecked (h : l.touchNwcInvoice eventId checkedAt = .ok ((), l'))
    (hwaits : eventId ∈ l.waiting wallet) :
    l'.lastChecked eventId = max checkedAt (l.lastChecked eventId + 1) := by
  obtain ⟨createdInvoices, rfl, hupdate⟩ := touchNwcInvoice_ok h
  obtain ⟨r, ⟨hr, hpending, -⟩, rfl⟩ := mem_waiting.mp hwaits
  have hmem := Table.mem_update_of_pos hupdate hr (by simp [hpending])
  rw [lastChecked_eq hr]
  exact lastChecked_eq (l := { l with createdInvoices }) hmem

theorem touch_other (h : l.touchNwcInvoice eventId checkedAt = .ok ((), l')) {other : EventId}
    (hne : other ≠ eventId) : l'.lastChecked other = l.lastChecked other := by
  obtain ⟨createdInvoices, rfl, hupdate⟩ := touchNwcInvoice_ok h
  unfold lastChecked
  cases hrow : l.createdInvoices.selectRow fun r => r.requestEventId == other with
  | none =>
    have hnone : createdInvoices.selectRow (fun r => r.requestEventId == other) = none := by
      rw [Table.selectRow_eq_none] at hrow ⊢
      intro r hr
      obtain ⟨before, hbefore, rfl⟩ := (Table.mem_update hupdate).mp hr
      have hold := hrow before hbefore
      split <;> exact hold
    simp only [hnone]
  | some r =>
    obtain ⟨hr, hevent⟩ := Table.selectRow_mem hrow
    rw [beq_iff_eq] at hevent
    subst hevent
    have hkept := Table.mem_update_of_not hupdate hr (by simp [hne])
    have hsome : createdInvoices.selectRow (fun s => s.requestEventId == r.requestEventId) =
        some r := (Table.selectRow_eq_some (invoiceEvent_key _)).mpr ⟨hkept, by simp⟩
    simp only [hsome]

theorem touch_waiting (h : l.touchNwcInvoice eventId checkedAt = .ok ((), l')) :
    l'.waiting wallet = l.waiting wallet := by
  obtain ⟨createdInvoices, rfl, hupdate⟩ := touchNwcInvoice_ok h
  have hscope : ∀ r, invoiceScope { l with createdInvoices } wallet r =
      l.invoiceScope wallet r := by
    intro r
    cases wallet <;> rfl
  have hmoved : ∀ r checked, l.invoiceScope wallet { r with lastCheckedAt := checked } =
      l.invoiceScope wallet r := by
    intro r checked
    cases wallet <;> rfl
  ext other
  rw [mem_waiting, mem_waiting]
  constructor
  · rintro ⟨r, ⟨hr, hpending, hin⟩, rfl⟩
    obtain ⟨before, hbefore, rfl⟩ := (Table.mem_update hupdate).mp hr
    refine ⟨before, ⟨hbefore, ?_, ?_⟩, ?_⟩
    · split at hpending <;> exact hpending
    · rw [hscope] at hin
      split at hin
      · rwa [hmoved] at hin
      · exact hin
    · split <;> rfl
  · rintro ⟨r, ⟨hr, hpending, hin⟩, rfl⟩
    by_cases htouched : (r.requestEventId == eventId && r.completedAt.isNone) = true
    · refine ⟨_, ⟨Table.mem_update_of_pos hupdate hr htouched, hpending, ?_⟩, rfl⟩
      rw [hscope, hmoved]
      exact hin
    · refine ⟨r, ⟨Table.mem_update_of_not hupdate hr (Bool.eq_false_iff.mpr htouched), hpending, ?_⟩, rfl⟩
      rw [hscope]
      exact hin

/-- Touching distinct waiting invoices in turn: each moves to its time or past its own last
check, the others stay where they are. -/
theorem touchInTurn_ok {ids : List EventId} {times : Nat → UnixTimestamp}
    (h : touchInTurn times ids l = .ok l') (hdistinct : ids.Nodup)
    (hwaits : ∀ eventId ∈ ids, eventId ∈ l.waiting wallet) :
    l'.waiting wallet = l.waiting wallet ∧
      (∀ eventId ∈ ids, ∃ turn, l'.lastChecked eventId =
        max (times turn) (l.lastChecked eventId + 1)) ∧
      ∀ eventId, eventId ∉ ids → l'.lastChecked eventId = l.lastChecked eventId := by
  induction ids generalizing l times with
  | nil =>
    cases h
    simp
  | cons first rest ih =>
    simp only [touchInTurn, bind_eq_ok, Prod.exists] at h
    obtain ⟨⟨⟩, next, htouch, hrest⟩ := h
    rw [List.nodup_cons] at hdistinct
    have hfirst := touch_lastChecked htouch (hwaits first List.mem_cons_self)
    have hsame : next.waiting wallet = l.waiting wallet := touch_waiting htouch
    obtain ⟨hwaiting, htouched, hkept⟩ := ih hrest hdistinct.2 fun eventId hmem =>
      hsame ▸ hwaits eventId (List.mem_cons_of_mem first hmem)
    refine ⟨hwaiting.trans hsame, ?_, ?_⟩
    · rw [List.forall_mem_cons]
      refine ⟨⟨0, ?_⟩, ?_⟩
      · rw [hkept first hdistinct.1, hfirst]
      · intro eventId hmem
        obtain ⟨turn, hturn⟩ := htouched eventId hmem
        refine ⟨turn + 1, ?_⟩
        rw [hturn, touch_other htouch]
        rintro rfl
        exact hdistinct.1 hmem
    · intro eventId hnot
      rw [List.mem_cons, not_or] at hnot
      rw [hkept eventId hnot.2, touch_other htouch hnot.1]

end Touching

section Batches

variable {l : Ledger} {wallet : Option PublicKey} {maximum : Nat}
  {batch : List TrackedNwcInvoice}

/-- The invoice looked at longest ago first, then the oldest, then the smaller event id. -/
def checkedBefore (a b : CreatedInvoiceRow) : Prop :=
  a.lastCheckedAt < b.lastCheckedAt ∨ (a.lastCheckedAt = b.lastCheckedAt ∧
    (a.createdAt < b.createdAt ∨ (a.createdAt = b.createdAt ∧
      a.requestEventId.bytes.toNat ≤ b.requestEventId.bytes.toNat)))

instance : DecidableRel checkedBefore := fun a b => by
  unfold checkedBefore
  infer_instance

instance : Std.Total checkedBefore :=
  have : Std.Total fun a b : CreatedInvoiceRow =>
      a.requestEventId.bytes.toNat ≤ b.requestEventId.bytes.toNat := ⟨fun _ _ => le_total _ _⟩
  have : Std.Total fun a b : CreatedInvoiceRow =>
      a.createdAt < b.createdAt ∨ (a.createdAt = b.createdAt ∧
        a.requestEventId.bytes.toNat ≤ b.requestEventId.bytes.toNat) := Ranking.total_lex
  Ranking.total_lex

instance : IsTrans CreatedInvoiceRow checkedBefore :=
  have : IsTrans CreatedInvoiceRow fun a b =>
      a.requestEventId.bytes.toNat ≤ b.requestEventId.bytes.toNat := ⟨fun _ _ _ => le_trans⟩
  have : IsTrans CreatedInvoiceRow fun a b =>
      a.createdAt < b.createdAt ∨ (a.createdAt = b.createdAt ∧
        a.requestEventId.bytes.toNat ≤ b.requestEventId.bytes.toNat) := Ranking.trans_lex
  Ranking.trans_lex

theorem checked_le {a b : CreatedInvoiceRow} (h : checkedBefore a b) :
    a.lastCheckedAt ≤ b.lastCheckedAt := by
  rcases h with hlt | ⟨heq, -⟩
  · exact hlt.le
  · exact heq.le

/-- The rows a batch is read from, in its order. -/
def batchRows (l : Ledger) (wallet : Option PublicKey) (maximum : Nat) : List CreatedInvoiceRow :=
  ((l.waitingRows wallet).insertionSort checkedBefore).take maximum

theorem pendingInvoicesOf_ok (h : l.pendingInvoicesOf wallet maximum = .ok batch) :
    (1 ≤ maximum ∧ maximum ≤ maxPendingBatch) ∧
      (l.batchRows wallet maximum).mapM decodeInvoice = .ok batch := by
  simp only [pendingInvoicesOf_eq, pendingInvoiceBatch, pendingLimit, bind_eq_ok, ensure_eq_ok,
    Bool.not_eq_true', Bool.or_eq_false_iff, beq_eq_false_iff_ne, decide_eq_false_iff_not] at h
  obtain ⟨limit, ⟨-, ⟨hsome, hfits⟩, hlimit⟩, hbatch⟩ := h
  obtain ⟨-, rfl⟩ := i64TryFrom_eq_ok.mp hlimit
  exact ⟨⟨Nat.pos_of_ne_zero hsome, Nat.not_lt.mp hfits⟩, hbatch⟩

theorem decodeInvoice_event {row : CreatedInvoiceRow} {invoice : TrackedNwcInvoice}
    (h : decodeInvoice row = .ok invoice) : invoice.requestEventId = row.requestEventId := by
  simp only [decodeInvoice, bind_eq_ok, pure_eq_ok] at h
  obtain ⟨_, -, rfl⟩ := h
  rfl

theorem batch_events (h : l.pendingInvoicesOf wallet maximum = .ok batch) :
    batch.map TrackedNwcInvoice.requestEventId =
      (l.batchRows wallet maximum).map CreatedInvoiceRow.requestEventId :=
  map_of_mapM (fun _ _ => decodeInvoice_event) (pendingInvoicesOf_ok h).2

theorem mem_batchRows {r : CreatedInvoiceRow} (h : r ∈ l.batchRows wallet maximum) :
    l.Waits wallet r := by
  have hsorted := List.mem_of_mem_take h
  rw [List.mem_insertionSort] at hsorted
  exact mem_waitingRows.mp hsorted

theorem waitingRows_events_distinct (l : Ledger) (wallet : Option PublicKey) :
    ((l.waitingRows wallet).map CreatedInvoiceRow.requestEventId).Nodup := by
  unfold waitingRows Table.select
  rw [List.Nodup, List.pairwise_map]
  apply (l.createdInvoices.distinct.sublist List.filter_sublist).imp
  intro a b hab heq
  simp [createdInvoiceSchema, heq] at hab

theorem batchRows_events_distinct (l : Ledger) (wallet : Option PublicKey) (maximum : Nat) :
    ((l.batchRows wallet maximum).map CreatedInvoiceRow.requestEventId).Nodup := by
  have hperm := (List.perm_insertionSort checkedBefore (l.waitingRows wallet)).map
    CreatedInvoiceRow.requestEventId
  have hsub := (List.take_sublist maximum
    ((l.waitingRows wallet).insertionSort checkedBefore)).map CreatedInvoiceRow.requestEventId
  exact (hperm.nodup_iff.mpr (l.waitingRows_events_distinct wallet)).sublist hsub

theorem batchRows_pairwise (l : Ledger) (wallet : Option PublicKey) (maximum : Nat) :
    (l.batchRows wallet maximum).Pairwise checkedBefore :=
  (List.pairwise_insertionSort checkedBefore _).sublist (List.take_sublist _ _)

/-- A waiting invoice left out of a batch was not checked before one that is in it. -/
theorem batchRows_first {r s : CreatedInvoiceRow} (hr : r ∈ l.batchRows wallet maximum)
    (hs : l.Waits wallet s) (hnot : s ∉ l.batchRows wallet maximum) : checkedBefore r s := by
  apply Ranking.rel_of_take (List.pairwise_insertionSort checkedBefore (l.waitingRows wallet)) hr
  · rw [List.mem_insertionSort, mem_waitingRows]
    exact hs
  · exact hnot

theorem batchRows_ne_nil (hmaximum : 1 ≤ maximum) (h : (l.waiting wallet).Nonempty) :
    l.batchRows wallet maximum ≠ [] := by
  obtain ⟨eventId, hmem⟩ := h
  obtain ⟨r, hr, -⟩ := mem_waiting.mp hmem
  have hrows : l.waitingRows wallet ≠ [] := List.ne_nil_of_mem (mem_waitingRows.mpr hr)
  rw [batchRows, ← List.length_pos_iff, List.length_take, List.length_insertionSort]
  have hpos := List.length_pos_iff.mpr hrows
  omega

end Batches

section Passes

variable {l l' : Ledger} {wallet : Option PublicKey} {maximum floor : Nat}
  {times : Nat → UnixTimestamp} {inspected : List EventId}

/-- A pass of the ledger is a pass of the rotation. -/
theorem rotationPass_rotates (h : rotationPass wallet maximum times l = .ok (inspected, l'))
    (hfloor : ∀ turn, floor ≤ times turn) :
    Pass floor (l.waiting wallet) l.lastChecked inspected (l'.waiting wallet) l'.lastChecked ∧
      l'.waiting wallet = l.waiting wallet ∧
      ((l.waiting wallet).Nonempty → inspected ≠ []) ∧
      ∀ eventId ∈ inspected, ∃ turn, l'.lastChecked eventId =
        max (times turn) (l.lastChecked eventId + 1) := by
  simp only [rotationPass, bind_eq_ok, pure_eq_ok, Prod.mk.injEq] at h
  obtain ⟨batch, hbatch, final, htouch, rfl, rfl⟩ := h
  rw [batch_events hbatch] at htouch ⊢
  have hdistinct := l.batchRows_events_distinct wallet maximum
  have hwaits : ∀ eventId ∈ (l.batchRows wallet maximum).map CreatedInvoiceRow.requestEventId,
      eventId ∈ l.waiting wallet := by
    intro eventId hmem
    obtain ⟨r, hr, rfl⟩ := List.mem_map.mp hmem
    exact mem_waiting.mpr ⟨r, mem_batchRows hr, rfl⟩
  obtain ⟨hsame, htouched, hkept⟩ := touchInTurn_ok htouch hdistinct hwaits
  refine ⟨⟨hwaits, hdistinct, ?_, ?_, ?_, hkept, ?_, hsame.le⟩, hsame, ?_, htouched⟩
  · rw [List.pairwise_map]
    apply (l.batchRows_pairwise wallet maximum).imp_of_mem
    intro a b ha hb hab
    rw [lastChecked_eq (mem_batchRows ha).1, lastChecked_eq (mem_batchRows hb).1]
    exact checked_le hab
  · intro eventId hmem other hother hnot
    obtain ⟨r, hr, rfl⟩ := List.mem_map.mp hmem
    obtain ⟨s, hs, rfl⟩ := mem_waiting.mp hother
    rw [lastChecked_eq (mem_batchRows hr).1, lastChecked_eq hs.1]
    exact checked_le (batchRows_first hr hs fun hin => hnot (List.mem_map_of_mem hin))
  · intro eventId hmem _
    obtain ⟨turn, hturn⟩ := htouched eventId hmem
    have hreached := hfloor turn
    rw [hturn]
    omega
  · intro eventId hmem _
    rwa [hsame]
  · intro hsome hnil
    rw [List.map_eq_nil_iff] at hnil
    exact batchRows_ne_nil (pendingInvoicesOf_ok hbatch).1.1 hsome hnil

theorem rotationPasses_cons {later : List (Nat → UnixTimestamp)} {history : List (List EventId)}
    (h : rotationPasses wallet maximum (times :: later) l = .ok (history, l')) :
    ∃ inspected next rest, history = inspected :: rest ∧
      rotationPass wallet maximum times l = .ok (inspected, next) ∧
      rotationPasses wallet maximum later next = .ok (rest, l') := by
  simp only [rotationPasses, bind_eq_ok, pure_eq_ok, Prod.exists, Prod.mk.injEq] at h
  obtain ⟨inspected, next, hpass, rest, final, hlater, rfl, rfl⟩ := h
  exact ⟨inspected, next, rest, rfl, hpass, hlater⟩

theorem rotationPasses_rotate {passes : List (Nat → UnixTimestamp)} {history : List (List EventId)}
    (h : rotationPasses wallet maximum passes l = .ok (history, l'))
    (hfloor : ∀ times ∈ passes, ∀ turn, floor ≤ times turn) :
    Passes floor (l.waiting wallet) l.lastChecked history (l'.waiting wallet) l'.lastChecked ∧
      history.length = passes.length ∧
      ((l.waiting wallet).Nonempty → ∀ inspected ∈ history, inspected ≠ []) := by
  induction passes generalizing l history with
  | nil =>
    cases h
    exact ⟨.nil, rfl, by simp⟩
  | cons times later ih =>
    obtain ⟨inspected, next, rest, rfl, hpass, hlater⟩ := rotationPasses_cons h
    rw [List.forall_mem_cons] at hfloor
    obtain ⟨hrotates, hsame, hsome, -⟩ := rotationPass_rotates hpass hfloor.1
    obtain ⟨hrest, hlength, hsomeLater⟩ := ih hlater hfloor.2
    refine ⟨.cons hrotates hrest, by simp [hlength], ?_⟩
    intro hwaits
    rw [List.forall_mem_cons]
    exact ⟨hsome hwaits, hsomeLater (hsame ▸ hwaits)⟩

/-- Each pass touches at later times than every pass before it. -/
def ClockAdvances (passes : List (Nat → UnixTimestamp)) : Prop :=
  passes.Pairwise fun earlier later => ∀ turn turn', earlier turn < later turn'

/-- No waiting invoice was checked at the time of a pass or after it. -/
def CheckedInThePast (l : Ledger) (wallet : Option PublicKey)
    (passes : List (Nat → UnixTimestamp)) : Prop :=
  ∀ eventId ∈ l.waiting wallet, ∀ times ∈ passes, ∀ turn, l.lastChecked eventId < times turn

/-- A pass of an advancing clock leaves every last check before the passes to come. -/
theorem CheckedInThePast.next {later : List (Nat → UnixTimestamp)} {next : Ledger}
    (hpast : l.CheckedInThePast wallet (times :: later)) (hclock : ClockAdvances (times :: later))
    (h : rotationPass wallet maximum times l = .ok (inspected, next)) :
    next.CheckedInThePast wallet later := by
  obtain ⟨hrotates, hsame, -, htouched⟩ := rotationPass_rotates h fun _ => Nat.zero_le _
  intro eventId hmem after hafter turn
  rw [hsame] at hmem
  by_cases hin : eventId ∈ inspected
  · obtain ⟨touchedAt, heq⟩ := htouched eventId hin
    have hbefore := hpast eventId hmem times List.mem_cons_self touchedAt
    have hadvance := (List.pairwise_cons.mp hclock).1 after hafter touchedAt turn
    rw [heq, max_eq_left (Nat.succ_le_of_lt hbefore)]
    exact hadvance
  · rw [hrotates.kept eventId hin]
    exact hpast eventId hmem after (List.mem_cons_of_mem times hafter) turn

/-- What holds when passes begin holds again when later ones do. -/
theorem rotationPasses_drop {passes : List (Nat → UnixTimestamp)} {history : List (List EventId)}
    (h : rotationPasses wallet maximum passes l = .ok (history, l')) (hclock : ClockAdvances passes)
    (hpast : l.CheckedInThePast wallet passes) (skipped : Nat) :
    ∃ start, rotationPasses wallet maximum (passes.drop skipped) start =
        .ok (history.drop skipped, l') ∧
      start.CheckedInThePast wallet (passes.drop skipped) ∧
      (skipped ≤ passes.length → start.waiting wallet = l.waiting wallet) := by
  induction passes generalizing l history skipped with
  | nil =>
    cases h
    exact ⟨l', by simp [rotationPasses], by simpa using hpast, fun _ => rfl⟩
  | cons times later ih =>
    cases skipped with
    | zero => exact ⟨l, h, hpast, fun _ => rfl⟩
    | succ skipped =>
      obtain ⟨inspected, next, rest, rfl, hpass, hlater⟩ := rotationPasses_cons h
      have hsame := (rotationPass_rotates hpass fun _ => Nat.zero_le _).2.1
      obtain ⟨start, hstart, hstartPast, hwaiting⟩ := ih hlater
        (List.pairwise_cons.mp hclock).2 (hpast.next hclock hpass) skipped
      refine ⟨start, hstart, hstartPast, ?_⟩
      intro hskipped
      rw [hwaiting (by simpa using hskipped), hsame]

theorem rotationPasses_once {passes : List (Nat → UnixTimestamp)} {history : List (List EventId)}
    (h : rotationPasses wallet maximum passes l = .ok (history, l'))
    (hpast : l.CheckedInThePast wallet passes) {x y : EventId} (hy : y ∈ l.waiting wallet) :
    (before y history).count x ≤ 1 := by
  have hfloor : ∀ times ∈ passes, ∀ turn, l.lastChecked y + 1 ≤ times turn := by
    intro times htimes turn
    exact hpast y hy times htimes turn
  have hcount := (rotationPasses_rotate h hfloor).1.bypass_floor (i := x) hy
  omega

end Passes

end Ledger

/-- Invoices are checked in turn: how often one may be checked ahead of another is bounded by
how much earlier it was last checked, every one is reached, and where the clock moves on between
passes and every invoice was last checked before the first of them, none is checked twice from
the start of a pass before every other one is. -/
theorem invoice_checks_rotate {l l' : Ledger} {wallet : Option PublicKey} {maximum : Nat}
    {passes : List (Nat → UnixTimestamp)} {history : List (List EventId)}
    (h : Ledger.rotationPasses wallet maximum passes l = .ok (history, l')) :
    (∀ x y, l.Waits wallet x → l.Waits wallet y →
      (before y.requestEventId history).count x.requestEventId ≤
        y.lastCheckedAt + 1 - x.lastCheckedAt) ∧
    (∀ y, l.Waits wallet y → y.requestEventId ∉ history.flatten →
      passes.length ≤ ∑ x ∈ (l.waiting wallet).erase y.requestEventId,
        (y.lastCheckedAt + 1 - l.lastChecked x)) ∧
    (Ledger.ClockAdvances passes → l.CheckedInThePast wallet passes →
      ∀ start x y, l.Waits wallet x → l.Waits wallet y →
        (before y.requestEventId (history.drop start)).count x.requestEventId ≤ 1) := by
  obtain ⟨hrotates, hlength, hsome⟩ :=
    Ledger.rotationPasses_rotate h fun _ _ _ => Nat.zero_le _
  have hwaiting : ∀ y, l.Waits wallet y → y.requestEventId ∈ l.waiting wallet :=
    fun y hy => Ledger.mem_waiting.mpr ⟨y, hy, rfl⟩
  refine ⟨?_, ?_, ?_⟩
  · intro x y hx hy
    rw [← Ledger.lastChecked_eq hx.1, ← Ledger.lastChecked_eq hy.1]
    exact hrotates.bypass (hwaiting y hy)
  · intro y hy hnot
    rw [← hlength, ← Ledger.lastChecked_eq hy.1]
    apply hrotates.length_le (hsome ⟨_, hwaiting y hy⟩) hnot
    intro x
    exact hrotates.bypass (hwaiting y hy)
  · intro hclock hpast start x y _ hy
    by_cases hwithin : start ≤ passes.length
    · obtain ⟨next, hnext, hnextPast, hsame⟩ := Ledger.rotationPasses_drop h hclock hpast start
      exact Ledger.rotationPasses_once hnext hnextPast (hsame hwithin ▸ hwaiting y hy)
    · rw [List.drop_eq_nil_of_le (by omega)]
      simp [before]

namespace Sample

def invoiceRow (event createdAt lastCheckedAt : Nat) : CreatedInvoiceRow where
  requestEventId := ⟨BitVec.ofNat _ event⟩
  paymentHash := ⟨BitVec.ofNat _ event⟩
  connectionId := "wallet"
  connectionRevision := 1
  invoice := "lnbc"
  description := none
  amountMsat := 1000
  createdAt
  expiresAt := 700
  lastCheckedAt
  notificationEventJson := none
  notificationCreatedAt := none
  completedAt := none
  settlementTriggerToken := none

def invoiceLedger (rows : List CreatedInvoiceRow) : Ledger :=
  { Ledger.empty with
    createdInvoices := ((Table.empty createdInvoiceSchema).insertAll rows).getD (.empty _) }

/-- An older invoice, and a newer one last checked at a given time. -/
def twoInvoices (lastCheckedAt : Nat) : List CreatedInvoiceRow :=
  [invoiceRow 1 40 50, invoiceRow 2 60 lastCheckedAt]

def twoPasses : List (Nat → UnixTimestamp) := [fun _ => 100, fun _ => 101]

theorem twoPasses_advance : Ledger.ClockAdvances twoPasses := by
  simp [Ledger.ClockAdvances, twoPasses]

end Sample

/-- Where the newer invoice was last checked at the very time of the first pass, the older one is
checked in both passes and the newer one in neither. -/
theorem older_invoice_checked_twice :
    (∀ row ∈ Sample.twoInvoices 100, row.lastCheckedAt ≤ 100) ∧
      (Ledger.rotationPasses none 1 Sample.twoPasses
        (Sample.invoiceLedger (Sample.twoInvoices 100))).map Prod.fst = .ok [[⟨1⟩], [⟨1⟩]] := by
  constructor <;> decide

theorem invoice_checks_rotate_two : ∃ l',
    Ledger.rotationPasses none 1 Sample.twoPasses (Sample.invoiceLedger (Sample.twoInvoices 99)) =
        .ok ([[⟨1⟩], [⟨2⟩]], l') ∧
      ∀ y, (Sample.invoiceLedger (Sample.twoInvoices 99)).Waits none y →
        ∀ x, (Sample.invoiceLedger (Sample.twoInvoices 99)).Waits none x →
        (before y.requestEventId [[⟨1⟩], [⟨2⟩]]).count x.requestEventId ≤ 1 := by
  have hhistory : (Ledger.rotationPasses none 1 Sample.twoPasses
      (Sample.invoiceLedger (Sample.twoInvoices 99))).map Prod.fst = .ok [[⟨1⟩], [⟨2⟩]] := by
    decide
  have hpast : (Sample.invoiceLedger (Sample.twoInvoices 99)).CheckedInThePast none
      Sample.twoPasses := by
    have hchecked : ∀ eventId ∈ (Sample.invoiceLedger (Sample.twoInvoices 99)).waiting none,
        (Sample.invoiceLedger (Sample.twoInvoices 99)).lastChecked eventId ≤ 99 := by
      decide
    intro eventId hmem times htimes turn
    have hle := hchecked eventId hmem
    simp only [Sample.twoPasses, List.mem_cons, List.not_mem_nil, or_false] at htimes
    rcases htimes with rfl | rfl
    · exact Nat.lt_succ_of_le hle
    · exact Nat.lt_succ_of_lt (Nat.lt_succ_of_le hle)
  cases hpasses : Ledger.rotationPasses none 1 Sample.twoPasses
      (Sample.invoiceLedger (Sample.twoInvoices 99)) with
  | error e =>
    rw [hpasses] at hhistory
    cases hhistory
  | ok result =>
    obtain ⟨history, l'⟩ := result
    rw [hpasses] at hhistory
    cases hhistory
    refine ⟨l', rfl, ?_⟩
    intro y hy x hx
    exact (invoice_checks_rotate hpasses).2.2 Sample.twoPasses_advance hpast 0 x y hx hy

end NwcMobile
