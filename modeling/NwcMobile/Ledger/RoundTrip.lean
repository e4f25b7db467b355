import NwcMobile.Ledger.Revocation

/-!
What is authorized is what is read back. An authorization is spread over the rows of three
tables under textual encodings; every query that reads it joins and decodes them to the
connection that its insertion returned.
-/

namespace NwcMobile

open Fallible Relational Transition Registry

namespace Registry

theorem strToEncryption_encryptionToStr (encryption : NwcEncryption) :
    strToEncryption (encryptionToStr encryption) = .ok encryption := by
  cases encryption <;> decide

theorem strToInterval_intervalToStr (interval : BudgetInterval) :
    strToInterval (intervalToStr interval) = .ok interval := by
  cases interval <;> decide

theorem strToMethod_asStr (method : NwcMethod) : strToMethod method.asStr = .ok method := by
  cases method <;> decide

/-- The two columns of a fee policy. -/
def feeColumns : FeePolicy → String × Nat
  | .countTowardBudget maximumFeeSat => ("count", maximumFeeSat)
  | .excludeForCompatibility => ("exclude", 0)

theorem encodeFeePolicy_ok {policy : FeePolicy} {columns : String × Nat}
    (h : encodeFeePolicy policy = .ok columns) : columns = feeColumns policy := by
  cases policy with
  | countTowardBudget maximumFeeSat =>
    simp only [encodeFeePolicy, bind_eq_ok, pure_eq_ok, sqliteU64, i64TryFrom_eq_ok] at h
    obtain ⟨_, ⟨-, rfl⟩, rfl⟩ := h
    rfl
  | excludeForCompatibility =>
    cases h
    rfl

theorem strToFeePolicy_feeColumns (policy : FeePolicy) :
    strToFeePolicy (feeColumns policy).1 (feeColumns policy).2 = .ok policy := by
  cases policy <;> rfl

end Registry

namespace NewConnection

/-- Built by the constructors of its type, from relays their own constructor parsed. -/
def Built (x : Crates) (c : NewConnection) : Prop :=
  (∀ relay ∈ c.relays, ∃ text, SecureRelayUrl.parse x text = .ok relay) ∧
    ∃ wakePolicy base,
      NewConnection.new x c.id c.clientPubkey c.walletServicePubkey c.relays c.policy c.encryption
        wakePolicy = .ok base ∧ c = base.withExpiration c.expiresAt

/-- The row of an authorization admitted at `now`. -/
def row (c : NewConnection) (createdAt now : UnixTimestamp) : ConnectionRow where
  connectionId := c.id.value
  revision := 0
  status := .active
  clientPubkey := c.clientPubkey
  walletServicePubkey := c.walletServicePubkey
  encryption := encryptionToStr c.encryption
  budgetLimitSat := c.policy.budget.limitSat
  budgetInterval := intervalToStr c.policy.budget.interval
  feePolicy := (feeColumns c.policy.budget.feePolicy).1
  maximumFeeSat := (feeColumns c.policy.budget.feePolicy).2
  createdAt
  expiresAt := c.expiresAt
  updatedAt := now
  tombstonedAt := none

/-- The same authorization as its callers see it. -/
def activated (c : NewConnection) (createdAt now : UnixTimestamp) : ActiveConnection where
  id := c.id
  revision := .initial
  clientPubkey := c.clientPubkey
  walletServicePubkey := c.walletServicePubkey
  relays := c.relays
  policy := c.policy
  encryption := c.encryption
  createdAt
  expiresAt := c.expiresAt
  updatedAt := now

variable {x : Crates} {c : NewConnection}

theorem Built.keys (h : c.Built x) : x.publicKeyFromSlice c.clientPubkey = true ∧
    x.publicKeyFromSlice c.walletServicePubkey = true := by
  obtain ⟨-, wakePolicy, base, hnew, -⟩ := h
  unfold NewConnection.new at hnew
  split at hnew
  · rename_i hchecks
    exact ⟨hchecks.2.1, hchecks.2.2.1⟩
  · cases hnew

end NewConnection

/-- The call admits an authorization and replies with the active connection. -/
inductive Admits : LedgerCall → NewConnection → UnixTimestamp → UnixTimestamp →
    ActiveConnection → Prop
  | inserted (c : NewConnection) (now : UnixTimestamp) (active : ActiveConnection) :
      Admits ⟨.registry (.insertConnection c now), .ok active⟩ c now now active
  | imported (c : NewConnection) (createdAt : UnixTimestamp) (used : Nat) (now : UnixTimestamp)
      (active : ActiveConnection) :
      Admits ⟨.registry (.importConnection c createdAt used now), .ok active⟩ c createdAt now active

/-- The call revokes the connection. -/
inductive Revokes (id : ConnectionId) : LedgerCall → Prop
  | tombstoned (revision : ConnectionRevision) (now : UnixTimestamp)
      (tombstone : ConnectionTombstone) :
      Revokes id ⟨.registry (.tombstoneConnection id revision now), .ok tombstone⟩

/-- The connection a call asks to admit. -/
def LedgerOp.newConnection : LedgerOp → Option NewConnection
  | .registry (.insertConnection c _) => some c
  | .registry (.importConnection c _ _ _) => some c
  | _ => none

/-- Every connection a call asks to admit was built by the constructors of its type. -/
def BuiltConnections (x : Crates) (history : LedgerHistory) : Prop :=
  ∀ event ∈ history, ∀ c ∈ event.label.op.newConnection, c.Built x

theorem Admits.newConnection {call : LedgerCall} {c : NewConnection}
    {createdAt now : UnixTimestamp} {active : ActiveConnection}
    (h : Admits call c createdAt now active) : call.op.newConnection = some c := by
  cases h <;> rfl

/-- What the registry holds of an authorization that was admitted. -/
structure Enrolled (l : Ledger) (c : NewConnection) (createdAt now : UnixTimestamp) : Prop where
  row : c.row createdAt now ∈ l.connections
  methods : ∀ r, r ∈ l.connectionMethods ∧ (r.connectionId == c.id.value) = true ↔
    r ∈ methodRows c.id.value c.policy.methodList
  relays : ∀ r, r ∈ l.connectionRelays ∧ (r.owner == c.id.value) = true ↔
    r ∈ relayRows c.id.value c.relays

/-- How admitting an authorization changes the registry. -/
structure Registered (l l' : Ledger) (c : NewConnection) (createdAt now : UnixTimestamp) : Prop where
  row : l.connections.insert (c.row createdAt now) = some l'.connections
  methods : l.connectionMethods.insertAll (methodRows c.id.value c.policy.methodList) =
    some l'.connectionMethods
  relays : l.connectionRelays.insertAll (relayRows c.id.value c.relays) = some l'.connectionRelays

/-- The registry is not touched. -/
def SameRegistry (l l' : Ledger) : Prop :=
  l'.connections = l.connections ∧ l'.connectionMethods = l.connectionMethods ∧
    l'.connectionRelays = l.connectionRelays

section Steps

variable {x : Crates} {l l' : Ledger} {c : NewConnection} {createdAt now : UnixTimestamp}
  {used : Nat} {active : ActiveConnection} {call : LedgerCall}

theorem insertConnectionState_registers
    (h : l.insertConnectionState c createdAt used now = .ok (active, l')) :
    active = c.activated createdAt now ∧ Registered l l' c createdAt now := by
  simp only [Ledger.insertConnectionState, bind_eq_ok, ensure_eq_ok, okOr_eq_ok,
    Registry.sqliteU64, i64TryFrom_eq_ok, pure_eq_ok] at h
  obtain ⟨_, ⟨-, rfl⟩, _, ⟨-, rfl⟩, -, -, expires, hexpires, _, ⟨-, rfl⟩, fee, hfee, -, -,
    connections, hconnections, methods, hmethods, relays, hrelays, periods, -, outbox, -,
    outboxRelays, -, heq⟩ := h
  obtain ⟨rfl, rfl⟩ := Prod.mk.inj heq
  have hsame : expires = c.expiresAt := by
    cases hexpiry : c.expiresAt with
    | none =>
      rw [hexpiry] at hexpires
      exact (Except.ok.inj hexpires).symm
    | some expiry =>
      rw [hexpiry] at hexpires
      cases expires with
      | none => cases option_mapM_eq_none.mp hexpires
      | some stored =>
        obtain ⟨_, hsome, hstored⟩ := option_mapM_eq_some.mp hexpires
        cases hsome
        rw [(i64TryFrom_eq_ok.mp hstored).2]
  subst hsame
  cases encodeFeePolicy_ok hfee
  exact ⟨rfl, hconnections, hmethods, hrelays⟩

/-- What a call that admits an authorization returns and writes. -/
theorem Admits.registers (hadmits : Admits call c createdAt now active)
    (h : LedgerStep x l call l') :
    active = c.activated createdAt now ∧ Registered l l' c createdAt now := by
  cases hadmits with
  | inserted =>
    obtain ⟨random, hrun⟩ := h.run_of_ok
    exact insertConnectionState_registers hrun
  | imported =>
    obtain ⟨random, hrun⟩ := h.run_of_ok
    simp only [LedgerOp.run, RegistryOp.run, Ledger.importConnection, bind_eq_ok] at hrun
    obtain ⟨-, -, hinsert⟩ := hrun
    exact insertConnectionState_registers hinsert

/-- The three things a call can do to the registry. -/
theorem LedgerStep.registry (h : LedgerStep x l call l') :
    SameRegistry l l' ∨
      (∃ c createdAt now active, Admits call c createdAt now active) ∨
      ∃ id row row', Revokes id call ∧ Tombstoned l l' id row row' := by
  obtain ⟨op, reply⟩ := call
  rcases h.cases with rfl | ⟨value, random, rfl, hrun⟩
  · exact Or.inl ⟨rfl, rfl, rfl⟩
  · cases op with
    | payment op =>
      have hframe := (paymentOp_effect hrun).frame
      exact Or.inl ⟨by rw [hframe], by rw [hframe], by rw [hframe]⟩
    | claim op =>
      have hframe := claimOp_frame hrun
      exact Or.inl ⟨by rw [hframe], by rw [hframe], by rw [hframe]⟩
    | record op =>
      have hframe := recordOp_frame hrun
      exact Or.inl ⟨by rw [hframe], by rw [hframe], by rw [hframe]⟩
    | registration op =>
      have hframe := registrationOp_frame hrun
      exact Or.inl ⟨by rw [hframe], by rw [hframe], by rw [hframe]⟩
    | registry op =>
      cases op with
      | insertConnection c now => exact Or.inr (Or.inl ⟨c, now, now, value, .inserted c now value⟩)
      | importConnection c createdAt used now =>
        exact Or.inr (Or.inl ⟨c, createdAt, now, value, .imported c createdAt used now value⟩)
      | tombstoneConnection id revision now =>
        obtain ⟨row, row', htombstoned, -⟩ := tombstoneConnection_ok hrun
        exact Or.inr (Or.inr ⟨id, row, row', .tombstoned revision now value, htombstoned⟩)
      | loadConnection id =>
        obtain ⟨-, rfl⟩ := reading_eq_ok.mp hrun
        exact Or.inl ⟨rfl, rfl, rfl⟩
      | loadActiveConnection id =>
        obtain ⟨-, rfl⟩ := reading_eq_ok.mp hrun
        exact Or.inl ⟨rfl, rfl, rfl⟩
      | listActiveConnections =>
        obtain ⟨-, rfl⟩ := reading_eq_ok.mp hrun
        exact Or.inl ⟨rfl, rfl, rfl⟩
      | loadActiveConnectionByKeys client wallet =>
        obtain ⟨-, rfl⟩ := reading_eq_ok.mp hrun
        exact Or.inl ⟨rfl, rfl, rfl⟩
      | isRelayApprovedForWallet wallet relay now =>
        obtain ⟨-, rfl⟩ := reading_eq_ok.mp hrun
        exact Or.inl ⟨rfl, rfl, rfl⟩
      | isConnectionRevisionActive id revision =>
        obtain ⟨-, rfl⟩ := reading_eq_ok.mp hrun
        exact Or.inl ⟨rfl, rfl, rfl⟩

end Steps

/-- The registry as a whole: every active row is an authorization stored in full, and no
method or relay is left over without a connection. -/
structure Ledger.Coherent (x : Crates) (l : Ledger) : Prop where
  enrolled : ∀ row ∈ l.connections, row.status = .active → ∃ c createdAt now,
    NewConnection.Built x c ∧ row = c.row createdAt now ∧ Enrolled l c createdAt now
  methodOwner : ∀ r ∈ l.connectionMethods, ∃ row ∈ l.connections,
    row.connectionId = r.connectionId
  relayOwner : ∀ r ∈ l.connectionRelays, ∃ row ∈ l.connections, row.connectionId = r.owner

section Preservation

variable {x : Crates} {l l' : Ledger} {c c' : NewConnection}
  {createdAt createdAt' now now' : UnixTimestamp} {id : ConnectionId} {row row' : ConnectionRow}

theorem mem_methodRows {owner : String} {methods : List NwcMethod} {r : ConnectionMethodRow} :
    r ∈ methodRows owner methods ↔ ∃ method ∈ methods, r = ⟨owner, method.asStr⟩ := by
  simp [methodRows, eq_comm]

theorem mem_relayRows {owner : String} {relays : List SecureRelayUrl} {r : RelayRow String} :
    r ∈ relayRows owner relays → r.owner = owner := by
  simp only [relayRows, List.mem_map]
  rintro ⟨entry, -, rfl⟩
  rfl

/-- A new connection has a new identifier. -/
theorem Registered.fresh (h : Registered l l' c createdAt now) (hrow : row ∈ l.connections) :
    row.connectionId ≠ c.id.value := by
  intro hsame
  have hconflict := Table.insert_no_conflict h.row hrow
  simp [connectionSchema, hsame, NewConnection.row] at hconflict

theorem Registered.enrolls (h : Registered l l' c createdAt now) (hl : l.Coherent x) :
    Enrolled l' c createdAt now := by
  refine ⟨Table.insert_self h.row, ?_, ?_⟩
  · intro r
    rw [Table.mem_insertAll h.methods]
    constructor
    · rintro ⟨hold | hnew, howner⟩
      · obtain ⟨row, hrow, hid⟩ := hl.methodOwner r hold
        exact absurd (hid.trans (beq_iff_eq.mp howner)) (h.fresh hrow)
      · exact hnew
    · intro hnew
      obtain ⟨method, -, rfl⟩ := mem_methodRows.mp hnew
      exact ⟨Or.inr hnew, beq_self_eq_true _⟩
  · intro r
    rw [Table.mem_insertAll h.relays]
    constructor
    · rintro ⟨hold | hnew, howner⟩
      · obtain ⟨row, hrow, hid⟩ := hl.relayOwner r hold
        exact absurd (hid.trans (beq_iff_eq.mp howner)) (h.fresh hrow)
      · exact hnew
    · intro hnew
      exact ⟨Or.inr hnew, beq_iff_eq.mpr (mem_relayRows hnew)⟩

theorem Enrolled.same (h : Enrolled l c createdAt now) (hsame : SameRegistry l l') :
    Enrolled l' c createdAt now := by
  obtain ⟨hconnections, hmethods, hrelays⟩ := hsame
  refine ⟨?_, ?_, ?_⟩
  · rw [hconnections]
    exact h.row
  · rw [hmethods]
    exact h.methods
  · rw [hrelays]
    exact h.relays

/-- Admitting another connection leaves the stored one alone. -/
theorem Enrolled.beside (h : Enrolled l c createdAt now) (hother : Registered l l' c' createdAt' now') :
    Enrolled l' c createdAt now := by
  have hne : c.id.value ≠ c'.id.value := hother.fresh h.row
  refine ⟨(Table.mem_insert hother.row).mpr (Or.inl h.row), ?_, ?_⟩
  · intro r
    rw [Table.mem_insertAll hother.methods, ← h.methods]
    constructor
    · rintro ⟨hold | hnew, howner⟩
      · exact ⟨hold, howner⟩
      · obtain ⟨method, -, rfl⟩ := mem_methodRows.mp hnew
        exact absurd (beq_iff_eq.mp howner).symm hne
    · rintro ⟨hold, howner⟩
      exact ⟨Or.inl hold, howner⟩
  · intro r
    rw [Table.mem_insertAll hother.relays, ← h.relays]
    constructor
    · rintro ⟨hold | hnew, howner⟩
      · exact ⟨hold, howner⟩
      · exact absurd ((beq_iff_eq.mp howner).symm.trans (mem_relayRows hnew)) hne
    · rintro ⟨hold, howner⟩
      exact ⟨Or.inl hold, howner⟩

/-- Revoking another connection leaves the stored one alone. -/
theorem Enrolled.spared (h : Enrolled l c createdAt now) (hother : Tombstoned l l' id row row')
    (hne : c.id.value ≠ id.value) : Enrolled l' c createdAt now := by
  refine ⟨?_, ?_, ?_⟩
  · rw [Table.mem_replace hother.connections]
    exact Or.inl ⟨h.row, beq_false_of_ne hne⟩
  · intro r
    rw [hother.methods, Table.mem_delete, ← h.methods]
    constructor
    · rintro ⟨⟨hold, -⟩, howner⟩
      exact ⟨hold, howner⟩
    · rintro ⟨hold, howner⟩
      exact ⟨⟨hold, beq_false_of_ne (beq_iff_eq.mp howner ▸ hne)⟩, howner⟩
  · intro r
    rw [hother.relays, Table.mem_delete, ← h.relays]
    constructor
    · rintro ⟨⟨hold, -⟩, howner⟩
      exact ⟨hold, howner⟩
    · rintro ⟨hold, howner⟩
      exact ⟨⟨hold, beq_false_of_ne (beq_iff_eq.mp howner ▸ hne)⟩, howner⟩

theorem Ledger.Coherent.same (hl : l.Coherent x) (hsame : SameRegistry l l') : l'.Coherent x := by
  obtain ⟨hconnections, hmethods, hrelays⟩ := id hsame
  refine ⟨?_, ?_, ?_⟩
  · rw [hconnections]
    intro row hrow hactive
    obtain ⟨c, createdAt, now, hbuilt, heq, hstored⟩ := hl.enrolled row hrow hactive
    exact ⟨c, createdAt, now, hbuilt, heq, hstored.same hsame⟩
  · rw [hconnections, hmethods]
    exact hl.methodOwner
  · rw [hconnections, hrelays]
    exact hl.relayOwner

theorem Ledger.Coherent.admit (hl : l.Coherent x) (hbuilt : c.Built x)
    (h : Registered l l' c createdAt now) : l'.Coherent x := by
  have hkept : ∀ row ∈ l.connections, row ∈ l'.connections := fun row hrow =>
    (Table.mem_insert h.row).mpr (Or.inl hrow)
  refine ⟨?_, ?_, ?_⟩
  · intro row hrow hactive
    rcases (Table.mem_insert h.row).mp hrow with hold | rfl
    · obtain ⟨c', createdAt', now', hbuilt', heq, hstored⟩ := hl.enrolled row hold hactive
      exact ⟨c', createdAt', now', hbuilt', heq, hstored.beside h⟩
    · exact ⟨c, createdAt, now, hbuilt, rfl, h.enrolls hl⟩
  · intro r hr
    rcases (Table.mem_insertAll h.methods).mp hr with hold | hnew
    · obtain ⟨row, hrow, hid⟩ := hl.methodOwner r hold
      exact ⟨row, hkept row hrow, hid⟩
    · obtain ⟨method, -, rfl⟩ := mem_methodRows.mp hnew
      exact ⟨_, Table.insert_self h.row, rfl⟩
  · intro r hr
    rcases (Table.mem_insertAll h.relays).mp hr with hold | hnew
    · obtain ⟨row, hrow, hid⟩ := hl.relayOwner r hold
      exact ⟨row, hkept row hrow, hid⟩
    · exact ⟨_, Table.insert_self h.row, (mem_relayRows hnew).symm⟩

theorem Ledger.Coherent.revoke (hl : l.Coherent x) (h : Tombstoned l l' id row row') :
    l'.Coherent x := by
  have hkept : ∀ old ∈ l.connections, ∃ new ∈ l'.connections,
      new.connectionId = old.connectionId := by
    intro old hold
    by_cases hid : old.connectionId = id.value
    · refine ⟨row', (Table.mem_replace h.connections).mpr (Or.inr ⟨rfl, row, h.mem, ?_⟩), ?_⟩
      · exact beq_iff_eq.mpr h.connectionId
      · rw [h.keeps.1, h.connectionId, hid]
    · exact ⟨old, (Table.mem_replace h.connections).mpr (Or.inl ⟨hold, beq_false_of_ne hid⟩), rfl⟩
  refine ⟨?_, ?_, ?_⟩
  · intro old hold hactive
    rcases (Table.mem_replace h.connections).mp hold with ⟨hmem, hid⟩ | ⟨rfl, -⟩
    · obtain ⟨c, createdAt, now, hbuilt, rfl, hstored⟩ := hl.enrolled old hmem hactive
      exact ⟨c, createdAt, now, hbuilt, rfl, hstored.spared h (ne_of_beq_false hid)⟩
    · rw [h.status] at hactive
      cases hactive
  · rw [h.methods]
    intro r hr
    obtain ⟨old, hold, hid⟩ := hl.methodOwner r (Table.mem_delete.mp hr).1
    obtain ⟨new, hnew, hsame⟩ := hkept old hold
    exact ⟨new, hnew, hsame.trans hid⟩
  · rw [h.relays]
    intro r hr
    obtain ⟨old, hold, hid⟩ := hl.relayOwner r (Table.mem_delete.mp hr).1
    obtain ⟨new, hnew, hsame⟩ := hkept old hold
    exact ⟨new, hnew, hsame.trans hid⟩

end Preservation

section Runs

variable {x : Crates} {l l' m : Ledger} {c : NewConnection} {createdAt now : UnixTimestamp}
  {history : LedgerHistory} {call : LedgerCall}

theorem Ledger.coherent_empty (x : Crates) : Ledger.empty.Coherent x where
  enrolled := fun row hrow => absurd hrow (Table.not_mem_empty row)
  methodOwner := fun r hr => absurd hr (Table.not_mem_empty r)
  relayOwner := fun r hr => absurd hr (Table.not_mem_empty r)

theorem Ledger.Coherent.step (hl : l.Coherent x) (h : LedgerStep x l call l')
    (hbuilt : ∀ c ∈ call.op.newConnection, c.Built x) : l'.Coherent x := by
  rcases h.registry with hsame | ⟨c, createdAt, now, active, hadmits⟩ | ⟨id, row, row', -, hrevoked⟩
  · exact hl.same hsame
  · exact hl.admit (hbuilt c hadmits.newConnection) (hadmits.registers h).2
  · exact hl.revoke hrevoked

/-- The registry of every ledger that is reached is coherent. -/
theorem coherent_run (hrun : LedgerRun x .empty history m) (hbuilt : BuiltConnections x history) :
    m.Coherent x := by
  induction hrun with
  | refl => exact Ledger.coherent_empty x
  | tail hpast hlast ih =>
    have hcoherent := ih fun event hmem => hbuilt event (List.mem_cons_of_mem _ hmem)
    exact hcoherent.step hlast (hbuilt _ List.mem_cons_self)

theorem Enrolled.step (hl : Enrolled l c createdAt now) (h : LedgerStep x l call l')
    (hkept : ¬ Revokes c.id call) : Enrolled l' c createdAt now := by
  rcases h.registry with hsame | ⟨c', createdAt', now', active, hadmits⟩ |
    ⟨id, row, row', hrevokes, hrevoked⟩
  · exact hl.same hsame
  · exact hl.beside (hadmits.registers h).2
  · apply hl.spared hrevoked
    intro hid
    exact hkept (ConnectionId.value_injective hid ▸ hrevokes)

/-- What was stored stays stored until it is revoked. -/
theorem Enrolled.run (hl : Enrolled l c createdAt now) (hrun : LedgerRun x l history m)
    (hkept : ∀ event ∈ history, ¬ Revokes c.id event.label) : Enrolled m c createdAt now := by
  induction hrun with
  | refl => exact hl
  | tail hpast hlast ih =>
    have hstored := ih fun event hmem => hkept event (List.mem_cons_of_mem _ hmem)
    exact hstored.step hlast (hkept _ List.mem_cons_self)

end Runs

section Reading

variable {x : Crates} {l : Ledger} {c : NewConnection} {createdAt now : UnixTimestamp}

theorem Enrolled.loadMethods (h : Enrolled l c createdAt now) :
    ∃ methods, l.loadMethods c.id = .ok methods ∧
      ∀ method, method ∈ methods ↔ method ∈ c.policy.methods := by
  have hdecodes : ∀ r ∈ (l.connectionMethods.select fun r => r.connectionId == c.id.value).insertionSort
      fun a b => a.method ≤ b.method, ∃ method, r.method = method.asStr ∧
        method ∈ c.policy.methods := by
    intro r hr
    rw [List.mem_insertionSort, Table.mem_select, h.methods, mem_methodRows] at hr
    obtain ⟨method, hmethod, rfl⟩ := hr
    exact ⟨method, rfl, ConnectionPolicy.mem_methodList.mp hmethod⟩
  obtain ⟨methods, hload⟩ : ∃ methods, l.loadMethods c.id = .ok methods := by
    apply mapM_succeeds
    intro r hr
    obtain ⟨method, hmethod, -⟩ := hdecodes r hr
    exact ⟨method, by rw [hmethod, strToMethod_asStr]⟩
  refine ⟨methods, hload, ?_⟩
  intro method
  constructor
  · intro hmem
    obtain ⟨r, hr, hdecoded⟩ := mem_of_mapM hload method hmem
    obtain ⟨method', hmethod, hgranted⟩ := hdecodes r hr
    rw [hmethod, strToMethod_asStr] at hdecoded
    exact Except.ok.inj hdecoded ▸ hgranted
  · intro hgranted
    have hrow : (⟨c.id.value, method.asStr⟩ : ConnectionMethodRow) ∈
        methodRows c.id.value c.policy.methodList :=
      mem_methodRows.mpr ⟨method, ConnectionPolicy.mem_methodList.mpr hgranted, rfl⟩
    have hselected := (h.methods _).mpr hrow
    obtain ⟨method', hmem, hdecoded⟩ := mapM_mem hload
      ((List.mem_insertionSort _).mpr (Table.mem_select.mpr hselected))
    rw [strToMethod_asStr] at hdecoded
    exact Except.ok.inj hdecoded ▸ hmem

theorem relayRows_ordered (owner : String) (relays : List SecureRelayUrl) :
    (relayRows owner relays).Pairwise fun a b => a.position < b.position := by
  rw [relayRows, List.pairwise_map, List.pairwise_iff_getElem]
  intro i j hi hj hij
  simpa using hij

theorem relayRows_urls (owner : String) (relays : List SecureRelayUrl) :
    (relayRows owner relays).map (fun r => (⟨r.relayUrl⟩ : SecureRelayUrl)) = relays := by
  simp [relayRows, Function.comp_def]

theorem mem_relays_iff {owner : String} {relays : List SecureRelayUrl} {relay : SecureRelayUrl} :
    relay ∈ relays ↔ ∃ r ∈ relayRows owner relays, r.relayUrl = relay.value := by
  nth_rewrite 1 [← relayRows_urls owner relays]
  simp only [List.mem_map]
  constructor
  · rintro ⟨r, hr, rfl⟩
    exact ⟨r, hr, rfl⟩
  · rintro ⟨r, hr, hurl⟩
    exact ⟨r, hr, congrArg _ hurl⟩

/-- Relays are read back in approval order. -/
theorem Enrolled.loadRelays (h : Enrolled l c createdAt now) (hurls : x.UrlsCanonical)
    (hbuilt : c.Built x) : l.loadRelays x c.id = .ok c.relays := by
  have hself : ∀ a, (relaySchema String).conflict a a = true := by
    intro a
    simp [relaySchema]
  have hrows := Table.select_ordered hself h.relays (relayRows_ordered c.id.value c.relays)
  unfold Ledger.loadRelays
  rw [hrows, mapM_eq_map (g := fun r => ⟨r.relayUrl⟩), relayRows_urls]
  intro r hr
  have hrelay : (⟨r.relayUrl⟩ : SecureRelayUrl) ∈ c.relays :=
    mem_relays_iff.mpr ⟨r, hr, rfl⟩
  obtain ⟨text, hparsed⟩ := hbuilt.1 _ hrelay
  exact mapErr_eq_ok.mpr (SecureRelayUrl.parse_value hurls hparsed)

theorem Enrolled.hydrateActive (h : Enrolled l c createdAt now) (hurls : x.UrlsCanonical)
    (hbuilt : c.Built x) : l.hydrateActiveConnection x (c.row createdAt now) c.id =
      .ok (c.activated createdAt now) := by
  obtain ⟨hclient, hwallet⟩ := hbuilt.keys
  obtain ⟨methods, hmethods, hgranted⟩ := h.loadMethods
  have hpolicy : methods.toFinset = c.policy.methods := by
    ext method
    rw [List.mem_toFinset, hgranted]
  have hsome : methods ≠ [] := by
    rintro rfl
    exact c.methods_nonempty (by rw [← hpolicy]; rfl)
  have hrelays := h.loadRelays hurls hbuilt
  simp only [Ledger.hydrateActiveConnection, bind_eq_ok, ensure_eq_ok, pure_eq_ok]
  refine ⟨c.clientPubkey, if_pos hclient, c.walletServicePubkey, if_pos hwallet, (), ?_,
    c.encryption, strToEncryption_encryptionToStr _, methods, hmethods, (), ?_,
    c.relays, hrelays, (), ?_, c.policy.budget.interval, strToInterval_intervalToStr _,
    c.policy.budget.feePolicy, strToFeePolicy_feeColumns _, ?_⟩
  · exact bne_iff_ne.mpr c.keys_differ
  · simpa using hsome
  · simp [c.relays_nonempty, c.relays_bounded]
  · simp only [ConnectionPolicy.new, hpolicy]
    rfl

/-- The stored row decodes to the connection its insertion returned. -/
theorem Enrolled.hydrate (h : Enrolled l c createdAt now) (hurls : x.UrlsCanonical)
    (hbuilt : c.Built x) : l.hydrateStoredConnection x (c.row createdAt now) =
      .ok (.active (c.activated createdAt now)) := by
  obtain ⟨-, -, -, -, -, -, -, -, -, hexpiry, -, hupdated, -⟩ := connection_valid h.row
  simp only [Ledger.hydrateStoredConnection, bind_eq_ok, mapErr_eq_ok, ensure_eq_ok,
    ConnectionId.parse_eq_ok]
  refine ⟨c.id, rfl, (), ?_, ?_⟩
  · have hlate : ¬ (c.row createdAt now).updatedAt < (c.row createdAt now).createdAt := by omega
    cases hexpires : (c.row createdAt now).expiresAt with
    | none => simp [hlate]
    | some expiresAt =>
      have hlater := hexpiry expiresAt hexpires
      simp [hlate, hlater]
  · have hactive : (c.row createdAt now).status = .active := rfl
    simp only [hactive, bind_eq_ok, ensure_eq_ok, pure_eq_ok]
    exact ⟨(), rfl, c.activated createdAt now, h.hydrateActive hurls hbuilt, rfl⟩

end Reading

section Queries

variable {x : Crates} {l : Ledger} {c : NewConnection} {createdAt now : UnixTimestamp}
  {cs : List ActiveConnection} {a b : ActiveConnection} {row : ConnectionRow}

theorem Enrolled.loadConnection (h : Enrolled l c createdAt now) (hurls : x.UrlsCanonical)
    (hbuilt : c.Built x) :
    l.loadConnection x c.id = .ok (some (.active (c.activated createdAt now))) := by
  have hrow : (l.connections.selectRow fun r => r.connectionId == c.id.value) =
      some (c.row createdAt now) :=
    (Table.selectRow_eq_some (connection_id_key _)).mpr ⟨h.row, beq_self_eq_true _⟩
  exact option_mapM_eq_some.mpr ⟨_, hrow, h.hydrate hurls hbuilt⟩

theorem Enrolled.loadActive (h : Enrolled l c createdAt now) (hurls : x.UrlsCanonical)
    (hbuilt : c.Built x) :
    l.loadActiveConnection x c.id = .ok (some (c.activated createdAt now)) := by
  simp only [Ledger.loadActiveConnection, h.loadConnection hurls hbuilt, ok_bind]
  rfl

theorem Enrolled.loadActiveByKeys (h : Enrolled l c createdAt now) (hurls : x.UrlsCanonical)
    (hbuilt : c.Built x) :
    l.loadActiveConnectionByKeys x c.clientPubkey c.walletServicePubkey =
      .ok (some (c.activated createdAt now)) := by
  have hkey : connectionSchema.Key fun r => r.status == .active &&
      r.clientPubkey == c.clientPubkey && r.walletServicePubkey == c.walletServicePubkey := by
    apply (connection_keys_key c.clientPubkey c.walletServicePubkey).mono
    intro r hr
    simp only [Bool.and_eq_true] at hr ⊢
    exact ⟨hr.1.2, hr.2⟩
  have hrow := (Table.selectRow_eq_some hkey).mpr ⟨h.row, by simp [NewConnection.row]⟩
  refine option_mapM_eq_some.mpr ⟨_, hrow, ?_⟩
  rw [h.hydrate hurls hbuilt]
  rfl

/-- Every active row of a coherent registry decodes. -/
theorem Ledger.Coherent.lists (hl : l.Coherent x) (hurls : x.UrlsCanonical) :
    ∃ cs, l.listActiveConnections x = .ok cs := by
  apply mapM_succeeds
  intro row hrow
  rw [List.mem_insertionSort, Table.mem_select] at hrow
  obtain ⟨hmem, hactive⟩ := hrow
  obtain ⟨c, createdAt, now, hbuilt, rfl, henrolled⟩ := hl.enrolled row hmem (by simpa using hactive)
  exact ⟨c.activated createdAt now, by rw [henrolled.hydrate hurls hbuilt]; rfl⟩

/-- The list holds exactly what is enrolled. -/
theorem Ledger.Coherent.listed (hl : l.Coherent x) (hurls : x.UrlsCanonical)
    (hlist : l.listActiveConnections x = .ok cs) :
    a ∈ cs ↔ ∃ c createdAt now, NewConnection.Built x c ∧ Enrolled l c createdAt now ∧
      a = c.activated createdAt now := by
  constructor
  · intro ha
    obtain ⟨row, hrow, hdecoded⟩ := mem_of_mapM hlist a ha
    rw [List.mem_insertionSort, Table.mem_select] at hrow
    obtain ⟨c, createdAt, now, hbuilt, rfl, henrolled⟩ :=
      hl.enrolled row hrow.1 (by simpa using hrow.2)
    rw [henrolled.hydrate hurls hbuilt] at hdecoded
    exact ⟨c, createdAt, now, hbuilt, henrolled, (Except.ok.inj hdecoded).symm⟩
  · rintro ⟨c, createdAt, now, hbuilt, henrolled, rfl⟩
    have hrow : c.row createdAt now ∈ l.connections.select fun r => r.status == .active :=
      Table.mem_select.mpr ⟨henrolled.row, beq_self_eq_true _⟩
    obtain ⟨a, ha, hdecoded⟩ := mapM_mem hlist ((List.mem_insertionSort _).mpr hrow)
    rw [henrolled.hydrate hurls hbuilt] at hdecoded
    exact Except.ok.inj hdecoded ▸ ha

/-- Enrolled connections that share an identifier or a key pair are one. -/
theorem Enrolled.unique {c' : NewConnection} {createdAt' now' : UnixTimestamp}
    (h : Enrolled l c createdAt now) (h' : Enrolled l c' createdAt' now')
    (hsame : c.id = c'.id ∨
      c.clientPubkey = c'.clientPubkey ∧ c.walletServicePubkey = c'.walletServicePubkey) :
    c.row createdAt now = c'.row createdAt' now' := by
  apply Table.eq_of_conflict h.row h'.row
  rcases hsame with hid | ⟨hclient, hwallet⟩
  · simp [connectionSchema, NewConnection.row, hid]
  · simp [connectionSchema, NewConnection.row, hclient, hwallet]

theorem isExpiredAt_eq_false {t : UnixTimestamp} :
    a.isExpiredAt t = false ↔ a.expiresAt.all (fun expiresAt => decide (expiresAt > t)) = true := by
  cases hexpires : a.expiresAt <;> simp [ActiveConnection.isExpiredAt, hexpires]

/-- The joined query answers what the list says. -/
theorem Ledger.Coherent.approved_iff (hl : l.Coherent x) (hurls : x.UrlsCanonical)
    (hlist : l.listActiveConnections x = .ok cs) {wallet : PublicKey} {relay : SecureRelayUrl}
    {t : UnixTimestamp} :
    l.relayApproved wallet relay t = true ↔ ∃ a ∈ cs, a.walletServicePubkey = wallet ∧
      a.isExpiredAt t = false ∧ a.allowsRelay relay = true := by
  simp only [Ledger.relayApproved, Table.any_eq_true, Bool.and_eq_true, beq_iff_eq]
  constructor
  · rintro ⟨row, hrow, ⟨⟨hactive, rfl⟩, hunexpired⟩, r, hr, howner, hurl⟩
    obtain ⟨c, createdAt, now, hbuilt, rfl, henrolled⟩ := hl.enrolled row hrow hactive
    refine ⟨c.activated createdAt now,
      (hl.listed hurls hlist).mpr ⟨c, createdAt, now, hbuilt, henrolled, rfl⟩, rfl, ?_, ?_⟩
    · exact isExpiredAt_eq_false.mpr hunexpired
    · have hlisted := (henrolled.relays r).mp ⟨hr, beq_iff_eq.mpr howner⟩
      exact List.contains_iff_mem.mpr (mem_relays_iff.mpr ⟨r, hlisted, hurl⟩)
  · rintro ⟨a, ha, rfl, hunexpired, hallows⟩
    obtain ⟨c, createdAt, now, hbuilt, henrolled, rfl⟩ := (hl.listed hurls hlist).mp ha
    obtain ⟨r, hr, hurl⟩ := mem_relays_iff.mp (List.contains_iff_mem.mp hallows)
    obtain ⟨hmem, howner⟩ := (henrolled.relays r).mpr hr
    exact ⟨c.row createdAt now, henrolled.row, ⟨⟨rfl, rfl⟩, isExpiredAt_eq_false.mp hunexpired⟩,
      r, hmem, beq_iff_eq.mp howner, hurl⟩

/-- No read returns another connection under the identifier or the key pair of this one. -/
theorem Enrolled.alone (h : Enrolled l c createdAt now) (hl : l.Coherent x)
    (hurls : x.UrlsCanonical) (hbuilt : c.Built x) (hread : l.ReadsActive x a)
    (hsame : a.id = c.id ∨
      a.clientPubkey = c.clientPubkey ∧ a.walletServicePubkey = c.walletServicePubkey) :
    a = c.activated createdAt now := by
  obtain ⟨row, hrow, hhydrate⟩ := readsActive_hydrates hread
  have hactive := (hydrate_active hrow hhydrate).active
  obtain ⟨c', createdAt', now', hbuilt', rfl, henrolled⟩ := hl.enrolled row hrow hactive
  have hread' := henrolled.hydrate hurls hbuilt'
  rw [hhydrate] at hread'
  obtain rfl := StoredConnection.active.inj (Except.ok.inj hread')
  rw [henrolled.unique h hsame, h.hydrate hurls hbuilt] at hhydrate
  exact (StoredConnection.active.inj (Except.ok.inj hhydrate)).symm

end Queries

section Claims

variable {x : Crates} {history later earlier : LedgerHistory} {m : Ledger}

/-- Every admitted connection is read back as it was returned until it is revoked, alone under
its identifier and its key pair; a relay is approved exactly when a listed connection names it. -/
theorem registry_round_trip (hurls : x.UrlsCanonical) (hrun : LedgerRun x .empty history m)
    (hbuilt : BuiltConnections x history) :
    (∀ later event earlier c createdAt now active, history = later ++ event :: earlier →
      Admits event.label c createdAt now active →
      (∀ next ∈ later, ¬ Revokes c.id next.label) →
      active = c.activated createdAt now ∧
        m.loadActiveConnection x c.id = .ok (some active) ∧
        m.loadActiveConnectionByKeys x c.clientPubkey c.walletServicePubkey = .ok (some active) ∧
        (∀ cs, m.listActiveConnections x = .ok cs → active ∈ cs) ∧
        ∀ a, m.ReadsActive x a →
          (a.id = c.id ∨ a.clientPubkey = c.clientPubkey ∧
            a.walletServicePubkey = c.walletServicePubkey) → a = active) ∧
      ∃ cs, m.listActiveConnections x = .ok cs ∧ ∀ wallet relay t,
        m.isRelayApprovedForWallet wallet relay t =
          if t ≤ i64Max then
            .ok (decide (∃ a ∈ cs, a.walletServicePubkey = wallet ∧ a.isExpiredAt t = false ∧
              a.allowsRelay relay = true))
          else .error .valueOutOfRange := by
  have hcoherent := coherent_run hrun hbuilt
  constructor
  · rintro later event earlier c createdAt now active rfl hadmits hkept
    obtain ⟨hearlier, hevent, hlater⟩ := hrun.split
    have hc := hbuilt event (by simp) c hadmits.newConnection
    have hbefore := coherent_run hearlier fun past hmem => hbuilt past (by simp [hmem])
    obtain ⟨rfl, hregistered⟩ := hadmits.registers hevent
    have henrolled := (hregistered.enrolls hbefore).run hlater hkept
    refine ⟨rfl, henrolled.loadActive hurls hc, henrolled.loadActiveByKeys hurls hc, ?_, ?_⟩
    · intro cs hlist
      exact (hcoherent.listed hurls hlist).mpr ⟨c, createdAt, now, hc, henrolled, rfl⟩
    · intro a hread hsame
      exact henrolled.alone hcoherent hurls hc hread hsame
  · obtain ⟨cs, hlist⟩ := hcoherent.lists hurls
    refine ⟨cs, hlist, ?_⟩
    intro wallet relay t
    unfold Ledger.isRelayApprovedForWallet Registry.sqliteU64 i64TryFrom
    split
    · rw [ok_bind]
      congr 1
      rw [Bool.eq_iff_iff, decide_eq_true_eq]
      exact hcoherent.approved_iff hurls hlist
    · rfl

end Claims

namespace Sample

/-- A connection is admitted, and an import of the same connection is refused. -/
def authorizing : LedgerHistory × Ledger :=
  performAll crates .empty
    [registry (.importConnection connection 1000 0 2000),
     registry (.insertConnection connection 1000)]

theorem authorizing_run : LedgerRun crates .empty authorizing.1 authorizing.2 :=
  performAll_run _ _ _

theorem connection_built : connection.Built crates := by
  constructor
  · intro relay' hrelay
    obtain rfl := List.mem_singleton.mp hrelay
    exact ⟨relayUrl, by decide⟩
  · exact ⟨⟨.fromSecs 600, .fromSecs 60, .fromSecs 3600, 4096, 8⟩, connection, by decide, rfl⟩

theorem authorizing_built : BuiltConnections crates authorizing.1 := by
  have hcalls : ∀ event ∈ authorizing.1, event.label.op.newConnection = some connection := by
    intro event hmem
    rcases List.mem_cons.mp hmem with rfl | hmem
    · rfl
    · obtain rfl := List.mem_singleton.mp hmem
      rfl
  intro event hmem c hc
  obtain rfl := Option.some.inj ((hcalls event hmem).symm.trans hc)
  exact connection_built

end Sample

theorem registry_round_trip_admitted :
    Sample.authorizing.2.loadActiveConnection Sample.crates Sample.connectionId =
        .ok (some (Sample.activeConnection 1000)) ∧
      ∃ cs, Sample.authorizing.2.listActiveConnections Sample.crates = .ok cs ∧
        Sample.activeConnection 1000 ∈ cs := by
  obtain ⟨hreads, cs, hlist, -⟩ := registry_round_trip Sample.crates_urlsCanonical
    Sample.authorizing_run Sample.authorizing_built
  obtain ⟨-, hload, -, hlisted, -⟩ := hreads [_] _ [] Sample.connection 1000 1000
    (Sample.activeConnection 1000) rfl (.inserted _ _ _) (by
      intro next hmem hrevokes
      obtain rfl := List.mem_singleton.mp hmem
      cases hrevokes)
  exact ⟨hload, cs, hlist, hlisted cs hlist⟩

/-- A time beyond the database's integers is refused, also where an active connection that
never expires lists the relay. -/
theorem far_time_not_answered :
    LedgerRun Sample.crates .empty Sample.authorizing.1 Sample.authorizing.2 ∧
      BuiltConnections Sample.crates Sample.authorizing.1 ∧
      Sample.authorizing.2.listActiveConnections Sample.crates =
        .ok [Sample.activeConnection 1000] ∧
      (Sample.activeConnection 1000).isExpiredAt (2 ^ 63) = false ∧
      (Sample.activeConnection 1000).allowsRelay Sample.relay = true ∧
      Sample.authorizing.2.isRelayApprovedForWallet
        (Sample.activeConnection 1000).walletServicePubkey Sample.relay (2 ^ 63) =
          .error .valueOutOfRange := by
  refine ⟨Sample.authorizing_run, Sample.authorizing_built, ?_⟩
  decide

end NwcMobile
