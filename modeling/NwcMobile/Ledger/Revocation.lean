import NwcMobile.Ledger.RegistryEffects

/-!
A tombstoned connection stays tombstoned. Its row keeps its identifier and key
pair, both unique among connections, so neither can become active again.
-/

namespace NwcMobile

open Fallible Relational Transition Registry

/-- The tombstone of a connection, with the key pair it had. -/
structure Revoked (l : Ledger) (id : ConnectionId) (revision : Nat)
    (clientPubkey walletServicePubkey : PublicKey) : Prop where
  tombstone : ∃ row ∈ l.connections, row.connectionId = id.value ∧ row.status = .tombstoned ∧
    row.revision = revision ∧ row.clientPubkey = clientPubkey ∧
    row.walletServicePubkey = walletServicePubkey

/-- Some read of the registry returns the connection as active. -/
def Ledger.ReadsActive (x : Crates) (l : Ledger) (c : ActiveConnection) : Prop :=
  (∃ id, l.loadConnection x id = .ok (some (.active c))) ∨
    (∃ id, l.loadActiveConnection x id = .ok (some c)) ∨
    (∃ cs, l.listActiveConnections x = .ok cs ∧ c ∈ cs) ∨
    ∃ client wallet, l.loadActiveConnectionByKeys x client wallet = .ok (some c)

/-- The row an active connection was read from. -/
structure ReadFrom (l : Ledger) (row : ConnectionRow) (c : ActiveConnection) : Prop where
  mem : row ∈ l.connections
  active : row.status = .active
  connectionId : c.id.value = row.connectionId
  revision : c.revision = row.revision
  clientPubkey : c.clientPubkey = row.clientPubkey
  walletServicePubkey : c.walletServicePubkey = row.walletServicePubkey

section Reads

variable {x : Crates} {l : Ledger} {row : ConnectionRow} {c : ActiveConnection}

theorem decodePublicKey_ok {key key' : PublicKey} (h : Ledger.decodePublicKey x key = .ok key') :
    key' = key := by
  unfold Ledger.decodePublicKey at h
  split at h
  · exact (Except.ok.inj h).symm
  · cases h

theorem hydrate_active (hmem : row ∈ l.connections)
    (h : l.hydrateStoredConnection x row = .ok (.active c)) : ReadFrom l row c := by
  simp only [Ledger.hydrateStoredConnection, bind_eq_ok, mapErr_eq_ok, ensure_eq_ok,
    ConnectionId.parse_eq_ok] at h
  obtain ⟨id, hid, -, -, h⟩ := h
  cases hstatus : row.status with
  | tombstoned =>
    simp only [hstatus, bind_eq_ok, ensure_eq_ok, pure_eq_ok, reduceCtorEq, and_false,
      exists_false] at h
  | active =>
    simp only [hstatus, bind_eq_ok, ensure_eq_ok, pure_eq_ok] at h
    obtain ⟨-, -, c', hc, heq⟩ := h
    cases heq
    simp only [Ledger.hydrateActiveConnection, bind_eq_ok, ensure_eq_ok, pure_eq_ok] at hc
    obtain ⟨client, hclient, wallet, hwallet, -, -, _, -, _, -, -, -, _, -, -, -, _, -, _, -,
      rfl⟩ := hc
    exact ⟨hmem, hstatus, hid, rfl, decodePublicKey_ok hclient, decodePublicKey_ok hwallet⟩

theorem requireActive_ok {stored : StoredConnection} (h : Ledger.requireActive stored = .ok c) :
    stored = .active c := by
  cases stored with
  | active c' => exact congrArg _ (Except.ok.inj h)
  | tombstoned t => cases h

/-- Whatever a read returns as active was decoded from a row. -/
theorem readsActive_hydrates (h : l.ReadsActive x c) :
    ∃ row ∈ l.connections, l.hydrateStoredConnection x row = .ok (.active c) := by
  have hload : ∀ {id}, l.loadConnection x id = .ok (some (.active c)) →
      ∃ row ∈ l.connections, l.hydrateStoredConnection x row = .ok (.active c) := by
    intro id hload
    obtain ⟨row, hrow, hhydrate⟩ := option_mapM_eq_some.mp hload
    exact ⟨row, (Table.selectRow_mem hrow).1, hhydrate⟩
  rcases h with ⟨id, h⟩ | ⟨id, h⟩ | ⟨cs, h, hc⟩ | ⟨client, wallet, h⟩
  · exact hload h
  · simp only [Ledger.loadActiveConnection, bind_eq_ok] at h
    obtain ⟨stored, hstored, h⟩ := h
    cases stored with
    | none => cases h
    | some stored =>
      cases stored with
      | tombstoned t => cases h
      | active c' =>
        simp only [pure_eq_ok, Option.some.injEq] at h
        rw [h] at hstored
        exact hload hstored
  · obtain ⟨row, hrow, hhydrate⟩ := mem_of_mapM h c hc
    rw [List.mem_insertionSort, Table.mem_select] at hrow
    obtain ⟨stored, hstored, hactive⟩ := bind_eq_ok.mp hhydrate
    rw [requireActive_ok hactive] at hstored
    exact ⟨row, hrow.1, hstored⟩
  · obtain ⟨row, hrow, hhydrate⟩ := option_mapM_eq_some.mp h
    obtain ⟨stored, hstored, hactive⟩ := bind_eq_ok.mp hhydrate
    rw [requireActive_ok hactive] at hstored
    exact ⟨row, (Table.selectRow_mem hrow).1, hstored⟩

/-- Whatever a read returns as active comes from an active row. -/
theorem readsActive_row (h : l.ReadsActive x c) : ∃ row, ReadFrom l row c := by
  obtain ⟨row, hrow, hhydrate⟩ := readsActive_hydrates h
  exact ⟨row, hydrate_active hrow hhydrate⟩

end Reads

section Revoked

variable {x : Crates} {l l' : Ledger} {id : ConnectionId} {revision : Nat}
  {client wallet : PublicKey} {call : LedgerCall} {history : LedgerHistory}

/-- A successful tombstone revokes the row it found, at the next revision. -/
theorem Tombstoned.revoked {row row' : ConnectionRow} (h : Tombstoned l l' id row row') :
    Revoked l' id (row.revision + 1) row.clientPubkey row.walletServicePubkey := by
  obtain ⟨hid, hclient, hwallet, -⟩ := h.keeps
  refine ⟨row', (Table.mem_replace h.connections).mpr (Or.inr ⟨rfl, row, h.mem, ?_⟩), ?_⟩
  · simpa using h.connectionId
  · exact ⟨hid.trans h.connectionId, h.status, h.revision, hclient, hwallet⟩

theorem Revoked.step (h : Revoked l id revision client wallet) (hstep : LedgerStep x l call l') :
    Revoked l' id revision client wallet := by
  obtain ⟨row, hmem, hid, hstatus, hrest⟩ := h.tombstone
  rcases hstep.connections with ⟨hsame, -⟩ | ⟨c, createdAt, used, now, new, hinserted⟩ |
    ⟨other, old, new, htombstoned⟩
  · exact ⟨row, hsame ▸ hmem, hid, hstatus, hrest⟩
  · exact ⟨row, (Table.mem_insert hinserted.connections).mpr (Or.inl hmem), hid, hstatus, hrest⟩
  · refine ⟨row, (Table.mem_replace htombstoned.connections).mpr (Or.inl ⟨hmem, ?_⟩), hid,
      hstatus, hrest⟩
    -- the tombstoned row was active, so it is not this one
    by_contra hsame
    have hkey := connection_id_key other.value
    have heq : row = old := Table.eq_of_key hkey hmem htombstoned.mem (by simpa using hsame)
      (by simpa using htombstoned.connectionId)
    rw [heq, htombstoned.active] at hstatus
    cases hstatus

theorem Revoked.run (h : Revoked l id revision client wallet) (hrun : LedgerRun x l history l') :
    Revoked l' id revision client wallet :=
  hrun.invariant (I := fun l => Revoked l id revision client wallet) h
    fun _ _ _ hprior hstep => hprior.step hstep

/-- No active connection has the identifier or the key pair of a revoked one. -/
theorem Revoked.not_active (h : Revoked l id revision client wallet) {row : ConnectionRow}
    (hmem : row ∈ l.connections) (hactive : row.status = .active) :
    row.connectionId ≠ id.value ∧
      ¬ (row.clientPubkey = client ∧ row.walletServicePubkey = wallet) := by
  obtain ⟨tombstone, htombstone, hid, hstatus, -, hclient, hwallet⟩ := h.tombstone
  have hne : row ≠ tombstone := by
    rintro rfl
    rw [hactive] at hstatus
    cases hstatus
  refine ⟨?_, ?_⟩
  · intro hsame
    exact hne (Table.eq_of_key (connection_id_key id.value) hmem htombstone (by simpa using hsame)
      (by simpa using hid))
  · rintro ⟨hsameClient, hsameWallet⟩
    exact hne (Table.eq_of_key (connection_keys_key client wallet) hmem htombstone
      (by simp [hsameClient, hsameWallet]) (by simp [hclient, hwallet]))

theorem Revoked.any_activeAt (h : Revoked l id revision client wallet) (at' : Nat) :
    l.connections.any (Ledger.activeAt id at') = false := by
  rw [Table.any_eq_false]
  intro row hmem
  by_contra hactive
  rw [Bool.not_eq_false, activeAt_eq_true] at hactive
  exact (h.not_active hmem hactive.2.2).1 hactive.1

theorem Revoked.isConnectionRevisionActive (h : Revoked l id revision client wallet)
    (at' : ConnectionRevision) :
    l.isConnectionRevisionActive id at' =
      if at' ≤ i64Max then .ok false else .error .valueOutOfRange := by
  unfold Ledger.isConnectionRevisionActive Registry.sqliteU64 i64TryFrom
  split
  · rw [ok_bind, h.any_activeAt]
    rfl
  · rfl

theorem Revoked.not_read (h : Revoked l id revision client wallet) {c : ActiveConnection}
    (hread : l.ReadsActive x c) : c.id ≠ id := by
  obtain ⟨row, hrow⟩ := readsActive_row hread
  intro hsame
  exact (h.not_active hrow.mem hrow.active).1 (hrow.connectionId.symm.trans (by rw [hsame]))

/-- Every reservation for a revoked connection fails, after its argument checks
with the connection's unavailability. -/
theorem Revoked.reservePayment (h : Revoked l id revision client wallet) {e : EventId}
    {hash : PaymentHash} {c : ActiveConnection} {principal : Nat} {now : UnixTimestamp}
    (hc : c.id = id) :
    l.reservePayment e hash c principal now =
      .error (if principal = 0 then .invalidAmount
        else if now ≤ i64Max ∧ c.revision ≤ i64Max ∧ principal ≤ i64Max then .connectionUnavailable
        else .valueOutOfRange) := by
  have hnone : ∀ at' time, l.loadConnectionBudget c at' time = .error .connectionUnavailable := by
    intro at' time
    have hselect : l.connections.selectRow (l.authorizesPayment c at' time) = none := by
      rw [Table.selectRow_eq_none]
      intro row hmem
      by_contra hauthorizes
      rw [Bool.not_eq_false, Ledger.authorizesPayment] at hauthorizes
      simp only [Bool.and_eq_true] at hauthorizes
      have hactive := activeAt_eq_true.mp hauthorizes.1.1
      rw [hc] at hactive
      exact (h.not_active hmem hactive.2.2).1 hactive.1
    rw [Ledger.loadConnectionBudget, hselect]
    rfl
  unfold Ledger.reservePayment
  by_cases hzero : principal = 0
  · simp [hzero, ensure]
  · have hensure : ensure (principal != 0) PaymentAccountingError.invalidAmount = .ok () := by
      simp [hzero]
    rw [hensure, ok_bind, if_neg hzero]
    simp only [Accounting.sqliteU64, i64TryFrom]
    by_cases hnow : now ≤ i64Max
    · by_cases hrevision : c.revision ≤ i64Max
      · by_cases hprincipal : principal ≤ i64Max
        · simp [hnow, hrevision, hprincipal, hnone]
        · simp [hnow, hrevision, hprincipal]
      · simp [hnow, hrevision]
    · simp [hnow]

theorem Revoked.completeForActive (h : Revoked l id revision client wallet) {lease : EventLease}
    {at' : ConnectionRevision} {json : String} {method : Option NwcMethod} {now : UnixTimestamp}
    {outcome : Unit × Ledger} :
    l.completeEventForActiveConnectionInner lease id at' json method now ≠ .ok outcome := by
  intro hok
  obtain ⟨hactive, -⟩ := completeForActive_ok hok
  rw [h.any_activeAt] at hactive
  cases hactive

end Revoked

end NwcMobile
