import NwcMobile.Ledger.NotificationRows
import NwcMobile.Ledger.Revocation

/-!
The connections that records belong to. A record is made under a connection of the ledger,
a connection keeps its wallet, and once it is not active at some revision it never is
again.
-/

namespace NwcMobile

open Fallible Relational Notifications Transition Registry

/-- Every record belongs to a connection of the ledger. -/
structure RecordsOwned (l : Ledger) : Prop where
  payments : ∀ r ∈ l.sentPayments, ∃ row ∈ l.connections, row.connectionId = r.connectionId
  invoices : ∀ r ∈ l.createdInvoices, ∃ row ∈ l.connections, row.connectionId = r.connectionId

/-- The connection exists, and is a connection of the wallet. -/
def Ledger.WalletOf (l : Ledger) (id : ConnectionId) (wallet : PublicKey) : Prop :=
  ∃ row ∈ l.connections, row.connectionId = id.value ∧ row.walletServicePubkey = wallet

/-- The connection exists, and is not active at the revision. -/
structure Retired (l : Ledger) (id : ConnectionId) (revision : ConnectionRevision) : Prop where
  present : ∃ row ∈ l.connections, row.connectionId = id.value
  inactive : ∀ row ∈ l.connections, row.connectionId = id.value → row.status = .active →
    row.revision ≠ revision

section Steps

variable {x : Crates} {l l' : Ledger} {call : LedgerCall} {history : LedgerHistory}
  {id : ConnectionId} {revision : ConnectionRevision} {wallet : PublicKey} {row : ConnectionRow}

/-- A connection keeps its identifier and its wallet. -/
theorem LedgerStep.connectionKept (h : LedgerStep x l call l') (hrow : row ∈ l.connections) :
    ∃ row' ∈ l'.connections, row'.connectionId = row.connectionId ∧
      row'.walletServicePubkey = row.walletServicePubkey := by
  rcases h.connections with ⟨hsame, -⟩ | ⟨c, createdAt, used, now, new, hinserted⟩ |
    ⟨other, old, new, htombstoned⟩
  · exact ⟨row, hsame ▸ hrow, rfl, rfl⟩
  · exact ⟨row, (Table.mem_insert hinserted.connections).mpr (Or.inl hrow), rfl, rfl⟩
  · by_cases hother : row.connectionId = other.value
    · have hold : row = old := Table.eq_of_key (connection_id_key other.value) hrow htombstoned.mem
        (by simpa using hother) (by simpa using htombstoned.connectionId)
      subst hold
      obtain ⟨hid, -, hwallet, -⟩ := htombstoned.keeps
      exact ⟨new, (Table.mem_replace htombstoned.connections).mpr
        (Or.inr ⟨rfl, row, hrow, by simpa using hother⟩), hid, hwallet⟩
    · exact ⟨row, (Table.mem_replace htombstoned.connections).mpr
        (Or.inl ⟨hrow, by simpa using hother⟩), rfl, rfl⟩

theorem Ledger.WalletOf.step (h : l.WalletOf id wallet) (hstep : LedgerStep x l call l') :
    l'.WalletOf id wallet := by
  obtain ⟨row, hrow, hid, hwallet⟩ := h
  obtain ⟨row', hrow', hid', hwallet'⟩ := hstep.connectionKept hrow
  exact ⟨row', hrow', hid'.trans hid, hwallet'.trans hwallet⟩

theorem Ledger.WalletOf.run (h : l.WalletOf id wallet) (hrun : LedgerRun x l history l') :
    l'.WalletOf id wallet :=
  hrun.invariant (I := fun l => l.WalletOf id wallet) h fun _ _ _ hprior hstep => hprior.step hstep

/-- A connection has one wallet. -/
theorem Ledger.WalletOf.unique {wallet' : PublicKey} (h : l.WalletOf id wallet)
    (h' : l.WalletOf id wallet') : wallet' = wallet := by
  obtain ⟨row, hrow, hid, hwallet⟩ := h
  obtain ⟨row', hrow', hid', hwallet'⟩ := h'
  have hsame : row' = row := Table.eq_of_key (connection_id_key id.value) hrow' hrow
    (by simpa using hid') (by simpa using hid)
  rw [← hwallet', hsame, hwallet]

theorem Retired.step (h : Retired l id revision) (hstep : LedgerStep x l call l') :
    Retired l' id revision := by
  obtain ⟨row, hrow, hid⟩ := h.present
  obtain ⟨row', hrow', hid', -⟩ := hstep.connectionKept hrow
  refine ⟨⟨row', hrow', hid'.trans hid⟩, ?_⟩
  intro other hother hotherId hactive
  have hsame : other = row' := Table.eq_of_key (connection_id_key id.value) hother hrow'
    (by simpa using hotherId) (by simpa using hid'.trans hid)
  rcases hstep.connections with ⟨hkept, -⟩ | ⟨c, createdAt, used, now, new, hinserted⟩ |
    ⟨tombstoned, old, new, htombstoned⟩
  · exact h.inactive other (hkept ▸ hother) hotherId hactive
  · -- the identifier is taken, so it is not the new connection's
    have hstays : row ∈ l'.connections :=
      (Table.mem_insert hinserted.connections).mpr (Or.inl hrow)
    have hold : other = row := Table.eq_of_key (connection_id_key id.value) hother hstays
      (by simpa using hotherId) (by simpa using hid)
    rw [hold]
    rw [hold] at hactive
    exact h.inactive row hrow hid hactive
  · rcases (Table.mem_replace htombstoned.connections).mp hother with ⟨hmem, -⟩ | ⟨rfl, -⟩
    · exact h.inactive other hmem hotherId hactive
    · rw [htombstoned.status] at hactive
      cases hactive

theorem Retired.run (h : Retired l id revision) (hrun : LedgerRun x l history l') :
    Retired l' id revision :=
  hrun.invariant (I := fun l => Retired l id revision) h fun _ _ _ hprior hstep => hprior.step hstep

/-- A connection that is there but is not found active at the revision is retired. -/
theorem retired_of_load {found : Option ActiveConnection}
    (hpresent : ∃ row ∈ l.connections, row.connectionId = id.value)
    (hload : l.loadActiveConnection x id = .ok found)
    (hinactive : ∀ c, found = some c → c.revision ≠ revision) : Retired l id revision := by
  refine ⟨hpresent, ?_⟩
  intro row hrow hid hactive hrevision
  have hselect : l.connections.selectRow (fun r => r.connectionId == id.value) = some row :=
    (Table.selectRow_eq_some (connection_id_key id.value)).mpr ⟨hrow, by simpa using hid⟩
  simp only [Ledger.loadActiveConnection, bind_eq_ok] at hload
  obtain ⟨stored, hstored, hfound⟩ := hload
  cases stored with
  | none =>
    unfold Ledger.loadConnection at hstored
    rw [hselect] at hstored
    cases hhydrate : l.hydrateStoredConnection x row with
    | error e => simp [hhydrate, Functor.map, Except.map] at hstored
    | ok c => simp [hhydrate, Functor.map, Except.map] at hstored
  | some stored =>
    obtain ⟨row', hrow', hhydrate⟩ := option_mapM_eq_some.mp hstored
    rw [hselect, Option.some.injEq] at hrow'
    subst hrow'
    cases stored with
    | active c =>
      have hread := (hydrate_active hrow hhydrate).revision
      exact hinactive c (Except.ok.inj hfound).symm (hread.trans hrevision)
    | tombstoned t =>
      simp only [Ledger.hydrateStoredConnection, hactive, bind_eq_ok, pure_eq_ok, reduceCtorEq,
        and_false, exists_false] at hhydrate

theorem RecordsOwned.empty : RecordsOwned .empty where
  payments := fun _ h => absurd h (Table.not_mem_empty _)
  invoices := fun _ h => absurd h (Table.not_mem_empty _)

theorem hasConnection_eq_true {owner : String} :
    l.hasConnection owner = true ↔ ∃ row ∈ l.connections, row.connectionId = owner := by
  simp [Ledger.hasConnection, Table.any_eq_true]

/-- A new sent payment is one of a connection that exists. -/
theorem recordNwcSentPayment_owned {payment : TrackedNwcPayment} {relays : List SecureRelayUrl}
    {r : SentPaymentRow} (h : l.recordNwcSentPayment payment relays = .ok ((), l'))
    (hr : r ∈ l'.sentPayments) : r ∈ l.sentPayments ∨ l.hasConnection r.connectionId = true := by
  simp only [Ledger.recordNwcSentPayment, bind_eq_ok, okOr_eq_ok, pure_eq_ok, Prod.mk.injEq,
    true_and, ensure_eq_ok, Bool.or_eq_true, Table.any_eq_true] at h
  obtain ⟨-, -, revision, -, amount, -, fee, -, createdAt, -, settledAt, -, sentPayments, hinsert,
    -, hconnection, sentRelays, -, rfl⟩ := h
  rcases Table.insertOrIgnore_cases hinsert with ⟨hignored, -⟩ | ⟨hfresh, hnew⟩
  · left
    rw [← hignored]
    exact hr
  · rcases (Table.mem_insert hnew).mp hr with hold | rfl
    · exact Or.inl hold
    · right
      rcases hconnection with ⟨known, hknown, hsameEvent⟩ | hconnection
      · rw [hfresh known hknown] at hsameEvent
        cases hsameEvent
      · exact hconnection

theorem LedgerStep.hasConnection {owner : String} (h : LedgerStep x l call l')
    (howner : ∃ row ∈ l.connections, row.connectionId = owner) :
    ∃ row ∈ l'.connections, row.connectionId = owner := by
  obtain ⟨row, hrow, hid⟩ := howner
  obtain ⟨row', hrow', hid', -⟩ := h.connectionKept hrow
  exact ⟨row', hrow', hid'.trans hid⟩

theorem LedgerStep.recordsOwned (h : LedgerStep x l call l') (howned : RecordsOwned l) :
    RecordsOwned l' := by
  constructor
  · intro r hr
    apply h.hasConnection
    rcases h.sentRow hr with ⟨r', hr', hterms⟩ | ⟨payment, relays, hop, -⟩
    · obtain ⟨row, hrow, hid⟩ := howned.payments r' hr'
      have hsame : r'.terms.connectionId = r.terms.connectionId := by rw [hterms]
      exact ⟨row, hrow, hid.trans hsame⟩
    · rcases h.cases with rfl | ⟨value, random, -, hrun⟩
      · exact howned.payments r hr
      · obtain ⟨op, reply⟩ := call
        obtain rfl : op = _ := hop
        rcases recordNwcSentPayment_owned hrun hr with hold | hconnection
        · exact howned.payments r hold
        · exact hasConnection_eq_true.mp hconnection
  · intro r hr
    apply h.hasConnection
    have hmoved := h.invoiceStep r.requestEventId
    rw [invoiceOf_eq_some.mpr ⟨hr, rfl⟩] at hmoved
    have hprior : ∀ {r'}, l.invoiceOf r.requestEventId = some r' → r'.connectionId = r.connectionId →
        ∃ row ∈ l.connections, row.connectionId = r.connectionId := by
      intro r' hr' hsame
      obtain ⟨row, hrow, hid⟩ := howned.invoices r' (invoiceOf_eq_some.mp hr').1
      exact ⟨row, hrow, hid.trans hsame⟩
    generalize hbefore : l.invoiceOf r.requestEventId = before at hmoved
    cases hmoved with
    | kept => exact hprior hbefore rfl
    | recorded _ _ hconnection => exact hasConnection_eq_true.mp hconnection
    | touched => exact hprior hbefore rfl
    | stored => exact hprior hbefore rfl
    | completed => exact hprior hbefore rfl

theorem recordsOwned_run (hrun : LedgerRun x .empty history l) : RecordsOwned l :=
  hrun.invariant RecordsOwned.empty fun _ _ _ howned hstep => hstep.recordsOwned howned

end Steps

end NwcMobile
