import NwcMobile.Engine.Alone
import NwcMobile.Ledger.Outbox
import NwcMobile.Ledger.RoundTrip

/-!
The import of an application's legacy connections, run as often as the application likes.
A record that was dealt with once stays dealt with: its connection is stored as the record
has it, or is a tombstone. Later runs find it so and write nothing.
-/

namespace NwcMobile

open Fallible Relational Transition Program Concurrent Registry

/-- The connection was revoked. -/
def Ledger.holdsTombstone (l : Ledger) (id : ConnectionId) : Bool :=
  l.connections.any fun r => r.connectionId == id.value && r.status == .tombstoned

namespace LegacyConnectionImport

/-- The call deals with the record: it imports it, or finds it imported or revoked. -/
inductive Deals (legacy : LegacyConnectionImport) : LedgerCall → Prop
  | imported (now : UnixTimestamp) (active : ActiveConnection) :
      Deals legacy ⟨.registry (.importConnection legacy.connection legacy.createdAt
        legacy.budgetUsedSat now), .ok active⟩
  | found (active : ActiveConnection) (hsame : legacy.isImportOf active = true) :
      Deals legacy ⟨.registry (.loadConnection legacy.connection.id), .ok (some (.active active))⟩
  | revoked (tombstone : ConnectionTombstone) :
      Deals legacy ⟨.registry (.loadConnection legacy.connection.id),
        .ok (some (.tombstoned tombstone))⟩

/-- A batch with this log has dealt with the record. -/
def Handled (legacy : LegacyConnectionImport) (log : HostLog) : Prop :=
  ∃ call : LedgerCall, legacy.Deals call ∧ (⟨.ledger call.op, call.reply⟩ : HostCall) ∈ log

/-- The ledger holds the record's connection as the record has it, or its tombstone. -/
inductive Present (x : Crates) (l : Ledger) (legacy : LegacyConnectionImport) : Prop
  | active (c : NewConnection) (createdAt now : UnixTimestamp) (hbuilt : c.Built x)
      (h : Enrolled l c createdAt now)
      (hsame : legacy.isImportOf (c.activated createdAt now) = true)
  | tombstoned (h : l.holdsTombstone legacy.connection.id = true)

end LegacyConnectionImport

/-- The records among these whose connection is a tombstone, as a batch reports them. -/
def Ledger.revokedAmong (l : Ledger) (records : List LegacyConnectionImport) :
    LegacyMigrationResult :=
  let revoked := records.filter fun legacy => l.holdsTombstone legacy.connection.id
  ⟨revoked.map (·.connection.id), revoked.map (·.connection.clientPubkey)⟩

/-- What an import batch over these records may ask for. -/
def BatchOp (records : List LegacyConnectionImport) (op : HostOp) : Prop :=
  op = .clockNow ∨ ∃ legacy ∈ records,
    op = .ledger (.registry (.loadConnection legacy.connection.id)) ∨
      ∃ now, op = .ledger (.registry (.importConnection legacy.connection legacy.createdAt
        legacy.budgetUsedSat now))

section Batches

variable {legacy : LegacyConnectionImport} {records rest : List LegacyConnectionImport}
  {result : LegacyMigrationResult} {log : HostLog}

theorem LegacyConnectionImport.Handled.cons (h : legacy.Handled log) (call : HostCall) :
    legacy.Handled (call :: log) := by
  obtain ⟨dealt, hdeals, hmem⟩ := h
  exact ⟨dealt, hdeals, List.mem_cons_of_mem _ hmem⟩

/-- A batch that succeeds has dealt with every record. -/
theorem spec_batch (hsub : rest ⊆ records) :
    Spec (fun _ => BatchOp records) log (migrateLegacyBatch rest result) fun log' value =>
      (∃ reported, value = .ok reported) → ∀ legacy ∈ rest, legacy.Handled log' := by
  induction rest generalizing log result with
  | nil => exact fun _ legacy hmem => absurd hmem List.not_mem_nil
  | cons legacy rest ih =>
    obtain ⟨hmem, hrest⟩ := List.cons_subset.mp hsub
    -- once this record is dealt with, the rest of the batch keeps it so
    have hnext : ∀ log' result', legacy.Handled log' →
        Spec (fun _ => BatchOp records) log' (migrateLegacyBatch rest result') fun log'' value =>
          (∃ reported, value = .ok reported) → ∀ other ∈ legacy :: rest, other.Handled log'' := by
      intro log' result' hhandled
      apply ((ih hrest).keeps (P := legacy.Handled) ?_ hhandled).imp
      · rintro log'' value ⟨hall, hhead⟩ hok other hother
        rcases List.mem_cons.mp hother with rfl | hother
        · exact hhead
        · exact hall hok other hother
      · intro past op reply _ hpast
        exact hpast.cons _
    refine ⟨Or.inr ⟨legacy, hmem, Or.inl rfl⟩, fun stored => ?_⟩
    cases stored with
    | error error =>
      rintro ⟨reported, heq⟩
      cases heq
    | ok stored =>
      cases stored with
      | none =>
        refine ⟨Or.inl rfl, fun now => ⟨Or.inr ⟨legacy, hmem, Or.inr ⟨now, rfl⟩⟩, ?_⟩⟩
        intro imported
        cases imported with
        | error error =>
          rintro ⟨reported, heq⟩
          cases heq
        | ok active => exact hnext _ _ ⟨_, .imported now active, List.mem_cons_self⟩
      | some stored =>
        cases stored with
        | active active =>
          dsimp only [Prog.bind]
          split
          · rename_i hsame
            exact hnext _ _ ⟨_, .found active hsame, List.mem_cons_self⟩
          · rintro ⟨reported, heq⟩
            cases heq
        | tombstoned tombstone => exact hnext _ _ ⟨_, .revoked tombstone, List.mem_cons_self⟩

end Batches

section Presence

variable {x : Crates} {l l' m : Ledger} {legacy : LegacyConnectionImport} {call : LedgerCall}
  {history : LedgerHistory} {id : ConnectionId} {row : ConnectionRow} {c : NewConnection}
  {createdAt now : UnixTimestamp} {active : ActiveConnection} {tombstone : ConnectionTombstone}

theorem holdsTombstone_eq_true : l.holdsTombstone id = true ↔
    ∃ row ∈ l.connections, row.connectionId = id.value ∧ row.status = .tombstoned := by
  simp [Ledger.holdsTombstone, Table.any_eq_true]

theorem holdsTombstone_of_tombstoned {row' : ConnectionRow}
    (h : Tombstoned l l' id row row') : l'.holdsTombstone id = true := by
  obtain ⟨found, hfound, hid, hstatus, -⟩ := h.revoked.tombstone
  exact holdsTombstone_eq_true.mpr ⟨found, hfound, hid, hstatus⟩

/-- A tombstone stays. -/
theorem LedgerStep.holdsTombstone (hstep : LedgerStep x l call l')
    (h : l.holdsTombstone id = true) : l'.holdsTombstone id = true := by
  obtain ⟨row, hrow, hid, hstatus⟩ := holdsTombstone_eq_true.mp h
  have hrevoked : Revoked l id row.revision row.clientPubkey row.walletServicePubkey :=
    ⟨row, hrow, hid, hstatus, rfl, rfl, rfl⟩
  obtain ⟨found, hfound, hid', hstatus', -⟩ := (hrevoked.step hstep).tombstone
  exact holdsTombstone_eq_true.mpr ⟨found, hfound, hid', hstatus'⟩

theorem holdsTombstone_run (hrun : LedgerRun x l history m) (h : l.holdsTombstone id = true) :
    m.holdsTombstone id = true :=
  hrun.invariant (I := fun l => l.holdsTombstone id = true) h
    fun _ _ _ hprior hstep => hstep.holdsTombstone hprior

/-- An enrolled connection is active, so it is no tombstone. -/
theorem Enrolled.not_tombstone (h : Enrolled l c createdAt now) :
    l.holdsTombstone c.id = false := by
  rw [← Bool.not_eq_true, holdsTombstone_eq_true]
  rintro ⟨row, hrow, hid, hstatus⟩
  have heq : row = c.row createdAt now := by
    apply Table.eq_of_key (connection_id_key c.id.value) hrow h.row
    · simpa using hid
    · simp [NewConnection.row]
  rw [heq] at hstatus
  cases hstatus

theorem LegacyConnectionImport.isImportOf_id (h : legacy.isImportOf active = true) :
    active.id = legacy.connection.id := by
  simp only [LegacyConnectionImport.isImportOf, Bool.and_eq_true, beq_iff_eq] at h
  exact h.1.1.1.1.1.1.1

/-- An import of the record returns the connection as the record has it. -/
theorem LegacyConnectionImport.isImportOf_activated (legacy : LegacyConnectionImport)
    (now : UnixTimestamp) :
    legacy.isImportOf (legacy.connection.activated legacy.createdAt now) = true := by
  simp [LegacyConnectionImport.isImportOf, NewConnection.activated]

theorem LegacyConnectionImport.Present.step (h : legacy.Present x l)
    (hstep : LedgerStep x l call l') : legacy.Present x l' := by
  cases h with
  | active c createdAt now hbuilt henrolled hsame =>
    by_cases hrevokes : Revokes c.id call
    · have hid : c.id = legacy.connection.id := isImportOf_id hsame
      cases hrevokes with
      | tombstoned revision now tombstone =>
        obtain ⟨random, hrun⟩ := hstep.run_of_ok
        obtain ⟨row, row', htombstoned, -⟩ := tombstoneConnection_ok hrun
        rw [hid] at htombstoned
        exact .tombstoned (holdsTombstone_of_tombstoned htombstoned)
    · exact .active c createdAt now hbuilt (henrolled.step hstep hrevokes) hsame
  | tombstoned h => exact .tombstoned (hstep.holdsTombstone h)

/-- What was dealt with once stays so. -/
theorem LegacyConnectionImport.Present.run (h : legacy.Present x l)
    (hrun : LedgerRun x l history m) : legacy.Present x m :=
  hrun.invariant (I := fun l => legacy.Present x l) h fun _ _ _ hprior hstep => hprior.step hstep

theorem LegacyConnectionImport.Present.hasRow (h : legacy.Present x l) :
    ∃ row ∈ l.connections, row.connectionId = legacy.connection.id.value := by
  cases h with
  | active c createdAt now hbuilt henrolled hsame =>
    have hid : c.id = legacy.connection.id := isImportOf_id hsame
    exact ⟨_, henrolled.row, by rw [← hid]; rfl⟩
  | tombstoned h =>
    obtain ⟨row, hrow, hid, -⟩ := holdsTombstone_eq_true.mp h
    exact ⟨row, hrow, hid⟩

/-- Every tombstone decodes. -/
theorem loadConnection_tombstoned (h : l.holdsTombstone id = true) :
    ∃ tombstone, l.loadConnection x id = .ok (some (.tombstoned tombstone)) := by
  obtain ⟨row, hrow, hid, hstatus⟩ := holdsTombstone_eq_true.mp h
  obtain ⟨-, -, -, -, -, -, -, -, -, hexpiry, -, hupdated, hstate, -⟩ := connection_valid hrow
  have htombstonedAt : row.tombstonedAt = some row.updatedAt := by
    rcases hstate with ⟨hactive, -⟩ | ⟨-, hat⟩
    · rw [hstatus] at hactive
      cases hactive
    · exact hat
  have hselected : (l.connections.selectRow fun r => r.connectionId == id.value) = some row :=
    (Table.selectRow_eq_some (connection_id_key _)).mpr ⟨hrow, by simpa using hid⟩
  refine ⟨⟨id, row.revision, row.updatedAt⟩, option_mapM_eq_some.mpr ⟨row, hselected, ?_⟩⟩
  have hlate : ¬ row.updatedAt < row.createdAt := by omega
  simp only [Ledger.hydrateStoredConnection, bind_eq_ok, mapErr_eq_ok, ensure_eq_ok,
    ConnectionId.parse_eq_ok, hstatus, okOr_eq_ok, pure_eq_ok, htombstonedAt]
  refine ⟨id, hid.symm, (), ?_, row.updatedAt, rfl, (), beq_self_eq_true _, rfl⟩
  cases hexpires : row.expiresAt with
  | none => simp [hlate]
  | some expiresAt =>
    have hlater := hexpiry expiresAt hexpires
    simp [hlate, hlater]

theorem holdsTombstone_of_load
    (h : l.loadConnection x id = .ok (some (.tombstoned tombstone))) :
    l.holdsTombstone id = true := by
  obtain ⟨row, hselected, hhydrate⟩ := option_mapM_eq_some.mp h
  obtain ⟨hrow, hid⟩ := Table.selectRow_mem hselected
  refine holdsTombstone_eq_true.mpr ⟨row, hrow, by simpa using hid, ?_⟩
  simp only [Ledger.hydrateStoredConnection, bind_eq_ok] at hhydrate
  obtain ⟨_, -, _, -, hstored⟩ := hhydrate
  cases hstatus : row.status with
  | tombstoned => rfl
  | active =>
    simp only [hstatus, bind_eq_ok, pure_eq_ok] at hstored
    obtain ⟨_, -, _, -, heq⟩ := hstored
    cases heq

/-- What a batch finds when it looks for a record that was dealt with. -/
theorem LegacyConnectionImport.Present.loads (h : legacy.Present x l) (hurls : x.UrlsCanonical) :
    (l.holdsTombstone legacy.connection.id = false ∧ ∃ active,
      l.loadConnection x legacy.connection.id = .ok (some (.active active)) ∧
        legacy.isImportOf active = true) ∨
      (l.holdsTombstone legacy.connection.id = true ∧ ∃ tombstone,
        l.loadConnection x legacy.connection.id = .ok (some (.tombstoned tombstone))) := by
  cases h with
  | active c createdAt now hbuilt henrolled hsame =>
    have hid : c.id = legacy.connection.id := isImportOf_id hsame
    rw [← hid]
    exact Or.inl ⟨henrolled.not_tombstone, _, henrolled.loadConnection hurls hbuilt, hsame⟩
  | tombstoned h => exact Or.inr ⟨h, loadConnection_tombstoned h⟩

/-- What was loaded as active is enrolled. -/
theorem Ledger.Coherent.loaded (hl : l.Coherent x) (hurls : x.UrlsCanonical)
    (h : l.loadConnection x id = .ok (some (.active active))) :
    ∃ c createdAt now, NewConnection.Built x c ∧ Enrolled l c createdAt now ∧
      active = c.activated createdAt now := by
  obtain ⟨row, hrow, hhydrate⟩ := readsActive_hydrates (Or.inl ⟨id, h⟩)
  obtain ⟨c, createdAt, now, hbuilt, rfl, henrolled⟩ :=
    hl.enrolled row hrow (hydrate_active hrow hhydrate).active
  rw [henrolled.hydrate hurls hbuilt] at hhydrate
  exact ⟨c, createdAt, now, hbuilt, henrolled, (StoredConnection.active.inj
    (Except.ok.inj hhydrate)).symm⟩

/-- Once a record was dealt with, the ledger holds its connection or its tombstone. -/
theorem LegacyConnectionImport.Deals.present (h : legacy.Deals call)
    (hstep : LedgerStep x l call l') (hurls : x.UrlsCanonical) (hl : l.Coherent x)
    (hbuilt : ∀ c ∈ call.op.newConnection, c.Built x) : legacy.Present x l' := by
  cases h with
  | imported now active =>
    have hadmits : Admits _ legacy.connection legacy.createdAt now active :=
      .imported _ _ legacy.budgetUsedSat _ _
    have henrolled := (hadmits.registers hstep).2.enrolls hl
    exact .active _ _ now (hbuilt _ rfl) henrolled (legacy.isImportOf_activated now)
  | found active hsame =>
    obtain ⟨random, hrun⟩ := hstep.run_of_ok
    obtain ⟨hload, rfl⟩ := reading_eq_ok.mp hrun
    obtain ⟨c, createdAt, now, hc, henrolled, rfl⟩ := hl.loaded hurls hload
    exact .active c createdAt now hc henrolled hsame
  | revoked tombstone =>
    obtain ⟨random, hrun⟩ := hstep.run_of_ok
    obtain ⟨hload, rfl⟩ := reading_eq_ok.mp hrun
    exact .tombstoned (holdsTombstone_of_load hload)

end Presence

/-- Some ledger call of the program found the database unavailable. -/
def FoundUnavailable (calls : List HostCall) : Prop :=
  ∃ op : LedgerOp, (⟨.ledger op, .error op.unavailable⟩ : HostCall) ∈ calls

section Alone

variable {x : Crates} {l l' : Ledger} {records : List LegacyConnectionImport}
  {result : LegacyMigrationResult} {calls : List HostCall}
  {again : Except RegistryError LegacyMigrationResult} {id : ConnectionId}
  {reply : Except RegistryError (Option StoredConnection)} {stored : Option StoredConnection}

/-- A load that would succeed does so, unless the database is unavailable. -/
theorem load_answered
    (h : LedgerStep x l ⟨.registry (.loadConnection id), reply⟩ l')
    (hloads : l.loadConnection x id = .ok stored) :
    l' = l ∧ (reply = .ok stored ∨
      reply = .error (LedgerOp.registry (.loadConnection id)).unavailable) := by
  have hruns : ∀ random, LedgerOp.run x random l (.registry (.loadConnection id)) =
      .ok (stored, l) := fun random => reading_eq_ok.mpr ⟨hloads, rfl⟩
  cases reply with
  | error error =>
    refine ⟨h.eq_of_error, Or.inr ?_⟩
    rcases h.error_cases with ⟨random, hrun⟩ | hunavailable
    · rw [hruns random] at hrun
      cases hrun
    · rw [hunavailable]
  | ok value =>
    obtain ⟨random, hrun⟩ := h.run_of_ok
    rw [hruns random, Except.ok.injEq] at hrun
    obtain ⟨rfl, rfl⟩ := Prod.mk.inj hrun
    exact ⟨rfl, Or.inl rfl⟩

/-- A batch over records that were all dealt with only reads, and reports the tombstones. -/
theorem alone_batch (hurls : x.UrlsCanonical) (hpresent : ∀ legacy ∈ records, legacy.Present x l)
    (h : Alone x l (migrateLegacyBatch records result) calls again l') :
    l' = l ∧ (¬ FoundUnavailable calls → again = .ok
      ⟨result.revokedConnectionIds ++ (l.revokedAmong records).revokedConnectionIds,
        result.revokedClientPubkeys ++ (l.revokedAmong records).revokedClientPubkeys⟩) := by
  induction records generalizing result calls with
  | nil =>
    obtain ⟨-, rfl, rfl⟩ := exec_done.mp h
    exact ⟨rfl, fun _ => by simp [Ledger.revokedAmong]⟩
  | cons legacy rest ih =>
    have hrest : ∀ other ∈ rest, other.Present x l := fun other hother =>
      hpresent other (List.mem_cons_of_mem _ hother)
    obtain ⟨reply, middle, later, rfl, hstep, hnext⟩ := Alone.ledger h
    have hlater : ¬ FoundUnavailable (⟨.ledger (.registry (.loadConnection legacy.connection.id)),
        reply⟩ :: later) → ¬ FoundUnavailable later := by
      rintro hsound ⟨op, hop⟩
      exact hsound ⟨op, List.mem_cons_of_mem _ hop⟩
    rcases (hpresent legacy List.mem_cons_self).loads hurls with
      ⟨hnot, active, hload, hsame⟩ | ⟨htombstone, tombstone, hload⟩
    · obtain ⟨rfl, rfl | rfl⟩ := load_answered hstep hload
      · simp only [hsame, if_true] at hnext
        obtain ⟨rfl, hreports⟩ := ih hrest hnext
        refine ⟨rfl, fun hsound => ?_⟩
        rw [hreports (hlater hsound)]
        simp [Ledger.revokedAmong, hnot]
      · obtain ⟨-, -, rfl⟩ := exec_done.mp hnext
        exact ⟨rfl, fun hsound => absurd ⟨_, List.mem_cons_self⟩ hsound⟩
    · obtain ⟨rfl, rfl | rfl⟩ := load_answered hstep hload
      · obtain ⟨rfl, hreports⟩ := ih hrest hnext
        refine ⟨rfl, fun hsound => ?_⟩
        rw [hreports (hlater hsound)]
        simp [Ledger.revokedAmong, htombstone]
      · obtain ⟨-, -, rfl⟩ := exec_done.mp hnext
        exact ⟨rfl, fun hsound => absurd ⟨_, List.mem_cons_self⟩ hsound⟩

end Alone

/-- What an import batch asks for; the other jobs are not looked at. -/
def Job.BatchGuard : Job → HostLog → HostOp → Prop
  | .migrate records => fun _ => BatchOp records
  | .wake .. | .reconcile _ => fun _ _ => True

/-- What an import batch that succeeds has done. -/
def Job.BatchResult : Job → HostLog → JobResult → Prop
  | .migrate records => fun log value =>
    (∃ reported, value = .migrated (.ok reported)) → ∀ legacy ∈ records, legacy.Handled log
  | .wake .. | .reconcile _ => fun _ _ => True

/-- A batch over these records has succeeded. -/
def BatchSucceeded (w : SystemWorld) (records : List LegacyConnectionImport) : Prop :=
  ∃ t ∈ w.threads, t.job = .migrate records ∧
    ∃ reported, t.rest = .done (.migrated (.ok reported))

/-- A connection is imported that was not there before; every other connection keeps its row,
its budget periods and its outbox row, and no payment is touched. -/
structure ImportedBeside (l l' : Ledger) (id : ConnectionId) : Prop where
  fresh : ∀ row ∈ l.connections, row.connectionId ≠ id.value
  connections : ∀ row, row.connectionId ≠ id.value →
    (row ∈ l'.connections ↔ row ∈ l.connections)
  periods : ∀ row, row.connectionId ≠ id.value → (row ∈ l'.budgetPeriods ↔ row ∈ l.budgetPeriods)
  registrations : ∀ row, row.connectionId ≠ id.value →
    (row ∈ l'.wakeRegistrations ↔ row ∈ l.wakeRegistrations)
  attempts : l'.paymentAttempts = l.paymentAttempts

section Runs

variable {x : Crates} {outside : HostCall → Prop} {history : SystemHistory} {w : SystemWorld}
  {records : List LegacyConnectionImport} {l l' : Ledger} {legacy : LegacyConnectionImport}
  {op : HostOp} {reply : op.Reply}

theorem Job.batch_spec (x : Crates) (job : Job) :
    Spec job.BatchGuard [] (job.program x) job.BatchResult := by
  cases job with
  | wake policy input => exact spec_trivial
  | reconcile maxAttempts => exact spec_trivial
  | migrate records =>
    refine (spec_batch (List.Subset.refl records)).seq fun log value hhandled => ?_
    rintro ⟨reported, heq⟩
    cases heq
    exact hhandled ⟨reported, rfl⟩

theorem BuiltConnections.past {later earlier : SystemHistory}
    {event : Event SystemWorld SystemLabel}
    (h : BuiltConnections x (ledgerHistory (later ++ event :: earlier))) :
    BuiltConnections x (ledgerHistory earlier) := by
  intro past hpast
  apply h past
  unfold ledgerHistory at hpast ⊢
  rw [List.filterMap_append, List.filterMap_cons]
  cases hcall : systemLedgerCall event.label with
  | none => exact List.mem_append_right _ hpast
  | some call => exact List.mem_append_right _ (List.mem_cons_of_mem _ hpast)

/-- Where a batch has succeeded, every one of its records is held. -/
theorem BatchSucceeded.present (h : BatchSucceeded w records) (hurls : x.UrlsCanonical)
    (hrun : SystemRun x outside .empty history w)
    (hbuilt : BuiltConnections x (ledgerHistory history)) :
    ∀ legacy ∈ records, legacy.Present x w.shared := by
  obtain ⟨t, hthread, hjob, reported, hdone⟩ := h
  obtain ⟨i, hi⟩ := List.mem_iff_getElem?.mp hthread
  have hresult := threads_spec (Job.batch_spec x) hrun i t hi
  rw [hdone, hjob] at hresult
  intro legacy hmem
  obtain ⟨call, hdeals, hcall⟩ := hresult ⟨reported, rfl⟩ legacy hmem
  -- the moment the record was dealt with
  obtain ⟨event, hevent, hlabel⟩ := log_event hrun i t hi _ hcall
  obtain ⟨later, earlier, rfl⟩ := List.append_of_mem hevent
  obtain ⟨hbefore, hstep, hafter⟩ := hrun.split
  have hledgerCall : systemLedgerCall event.label = some call := by rw [hlabel]; rfl
  obtain ⟨call', hcall', hledger⟩ | ⟨hnone, -⟩ := SystemStep.ledger hstep
  · rw [hledgerCall, Option.some.injEq] at hcall'
    subst hcall'
    have hcoherent := coherent_run (ledgerRun_of_run hbefore) hbuilt.past
    have hpresent := hdeals.present hledger hurls hcoherent
      (hbuilt _ (mem_ledgerHistory hevent hledgerCall))
    exact hpresent.run (ledgerRun_of_run hafter)
  · rw [hledgerCall] at hnone
    cases hnone

/-- What importing a record does. -/
theorem importedBeside_of_inserted {c : NewConnection} {createdAt now : UnixTimestamp}
    {used : Nat} {row : ConnectionRow} (h : Inserted l l' c createdAt used now row) :
    ImportedBeside l l' c.id where
  fresh := fun old hold hid => by
    have hconflict := Table.insert_no_conflict h.connections hold
    simp [connectionSchema, hid, h.connectionId] at hconflict
  connections := fun other hother => by
    rw [Table.mem_insert h.connections, or_iff_left]
    rintro rfl
    exact hother h.connectionId
  periods := fun other hother => by
    rcases h.periods with ⟨-, hsame⟩ | ⟨-, startedAt, updatedAt, -, hinsert⟩
    · rw [hsame]
    · rw [Table.mem_insert hinsert, or_iff_left]
      rintro rfl
      exact hother rfl
  registrations := fun other hother => by
    rw [Table.mem_insert h.registrations, or_iff_left]
    rintro rfl
    exact hother h.connectionId
  attempts := h.attempts

/-- A step of a batch leaves the ledger alone, or imports one of its records. -/
theorem BatchOp.step (hop : BatchOp records op) (h : HostAnswers x l ⟨op, reply⟩ l') :
    l' = l ∨ ∃ legacy ∈ records, ImportedBeside l l' legacy.connection.id := by
  rcases hop with rfl | ⟨legacy, hmem, rfl | ⟨now, rfl⟩⟩
  · exact Or.inl (h.unchanged rfl)
  · rcases h.step.cases with hsame | ⟨value, random, -, hrun⟩
    · exact Or.inl hsame
    · exact Or.inl (reading_eq_ok.mp hrun).2
  · rcases h.step.cases with hsame | ⟨value, random, -, hrun⟩
    · exact Or.inl hsame
    · obtain ⟨-, -, row, hinserted⟩ := importConnection_ok hrun
      exact Or.inr ⟨legacy, hmem, importedBeside_of_inserted hinserted⟩

/-- Two admissions of one ledger are of different connections. -/
theorem admitted_once {l₀ m : Ledger} {newest between older : LedgerHistory}
    {last first : Event Ledger LedgerCall} {c c' : NewConnection}
    {createdAt createdAt' now now' : UnixTimestamp} {active active' : ActiveConnection}
    (hrun : LedgerRun x l₀ (newest ++ last :: (between ++ first :: older)) m)
    (hlast : Admits last.label c createdAt now active)
    (hfirst : Admits first.label c' createdAt' now' active') : c.id ≠ c'.id := by
  obtain ⟨hpast, hlastStep, -⟩ := hrun.split
  obtain ⟨-, hfirstStep, hmiddle⟩ := hpast.split
  obtain ⟨-, hregistered⟩ := hfirst.registers hfirstStep
  obtain ⟨row, hrow, hid, -⟩ := connection_kept_run hmiddle (Table.insert_self hregistered.row)
  obtain ⟨-, hlater⟩ := hlast.registers hlastStep
  intro hsame
  exact hlater.fresh hrow (hid.trans (by rw [hsame]; rfl))

end Runs

/-- Importing a snapshot again restores nothing. Once a batch over the records has succeeded,
whatever happens later: another run of it leaves the ledger as it is and, where the database
answers, succeeds and reports exactly the records that are tombstones, and no step of any
batch over these records writes again. A batch that stopped halfway may be run again: each of
its steps leaves the ledger alone or imports a connection that was not there, and no
connection is ever admitted twice. A tombstone never becomes active. -/
theorem legacy_import_restores_nothing {x : Crates} {outside : HostCall → Prop}
    {history : SystemHistory} {w : SystemWorld} {records : List LegacyConnectionImport}
    (hurls : x.UrlsCanonical) (hrun : SystemRun x outside .empty history w)
    (hbuilt : BuiltConnections x (ledgerHistory history)) :
    (BatchSucceeded w records → ∀ calls again l',
      Alone x w.shared (migrateLegacyBatch records ⟨[], []⟩) calls again l' →
        l' = w.shared ∧
          (¬ FoundUnavailable calls → again = .ok (w.shared.revokedAmong records))) ∧
    (∀ event ∈ history, ∀ i call t, event.label = .act i call →
      event.before.threads[i]? = some t → t.job = .migrate records →
        event.after.shared = event.before.shared ∨
          ¬ BatchSucceeded event.before records ∧ ∃ legacy ∈ records,
            ImportedBeside event.before.shared event.after.shared legacy.connection.id) ∧
    (∀ newest last between first older c createdAt now active c' createdAt' now' active',
      ledgerHistory history = newest ++ last :: (between ++ first :: older) →
        Admits last.label c createdAt now active → Admits first.label c' createdAt' now' active' →
          c.id ≠ c'.id) ∧
    (∀ later event earlier, history = later ++ event :: earlier → ∀ id,
      event.before.shared.holdsTombstone id = true →
        w.shared.holdsTombstone id = true ∧
          ∀ row ∈ w.shared.connections, row.connectionId = id.value → row.status ≠ .active) := by
  refine ⟨?_, ?_, ?_, ?_⟩
  · intro hsucceeded calls again l' halone
    have hpresent := hsucceeded.present hurls hrun hbuilt
    obtain ⟨hsame, hreports⟩ := alone_batch hurls hpresent halone
    exact ⟨hsame, fun hsound => by rw [hreports hsound]; rfl⟩
  · intro event hevent i call t hlabel hthread hjob
    obtain ⟨t', hthread', -, hguard⟩ := act_spec (Job.batch_spec x) hrun hevent hlabel
    obtain rfl := Option.some.inj (hthread'.symm.trans hthread)
    rw [hjob] at hguard
    obtain ⟨later, earlier, rfl⟩ := List.append_of_mem hevent
    obtain ⟨hbefore, hstep, -⟩ := hrun.split
    obtain ⟨op, reply⟩ := call
    have hanswer : HostAnswers x event.before.shared ⟨op, reply⟩ event.after.shared := by
      rw [hlabel] at hstep
      generalize event.after = after at hstep
      cases hstep with
      | act _ _ _ hanswer => exact hanswer
    rcases BatchOp.step hguard hanswer with hsame | ⟨legacy, hmem, himported⟩
    · exact Or.inl hsame
    · refine Or.inr ⟨fun hsucceeded => ?_, legacy, hmem, himported⟩
      have hpresent := hsucceeded.present hurls hbefore hbuilt.past
      obtain ⟨row, hrow, hid⟩ := (hpresent legacy hmem).hasRow
      exact himported.fresh row hrow hid
  · intro newest last between first older c createdAt now active c' createdAt' now' active' heq
    have hledger := ledgerRun_of_run hrun
    rw [heq] at hledger
    exact admitted_once hledger
  · rintro later event earlier rfl id htombstone
    obtain ⟨-, hstep, hlater⟩ := hrun.split
    have hkept := holdsTombstone_run (ledgerRun_of_run (hlater.cons_first hstep)) htombstone
    refine ⟨hkept, fun row hrow hid hactive => ?_⟩
    obtain ⟨old, hold, hsame, hstatus⟩ := holdsTombstone_eq_true.mp hkept
    have heq : row = old := by
      apply Table.eq_of_key (connection_id_key id.value) hrow hold
      · simpa using hid
      · simpa using hsame
    rw [heq, hstatus] at hactive
    cases hactive

namespace Sample

/-- A record of the sample connection, of whose budget ten satoshis were spent. -/
def legacyRecord : LegacyConnectionImport := ⟨connection, 1000, 10⟩

/-- The record is imported, and the connection is revoked afterwards. -/
def importing : SystemHistory × SystemWorld :=
  play (Job.program crates) crates .empty
    [.outside (.registry (.tombstoneConnection connectionId 0 2010)) (script 2010 0),
     .act 0 (script 2000 0), .act 0 (script 2000 0), .act 0 (script 2000 0),
     .spawn (.migrate [legacyRecord])]

theorem importing_run : SystemRun crates (fun _ => True) .empty importing.1 importing.2 :=
  play_run (fun _ _ => rfl) fun _ _ _ _ => trivial

theorem importing_built : BuiltConnections crates (ledgerHistory importing.1) := by
  have hcalls : ∀ event ∈ ledgerHistory importing.1,
      ∀ c ∈ event.label.op.newConnection, c = connection := by
    have hops : (ledgerHistory importing.1).map (fun event => event.label.op.newConnection) =
        [none, some connection, none] := rfl
    intro event hmem c hc
    have hop := List.mem_map_of_mem (f := fun event => event.label.op.newConnection) hmem
    rw [hops] at hop
    rw [Option.mem_def.mp hc] at hop
    simpa using hop
  intro event hmem c hc
  rw [hcalls event hmem c hc]
  exact connection_built

/-- The second run of the batch. -/
def importedAgain : List HostCall × Except RegistryError LegacyMigrationResult × Ledger :=
  runAlone crates (script 3000 0) (migrateLegacyBatch [legacyRecord] ⟨[], []⟩) importing.2.shared

end Sample

theorem legacy_import_restores_nothing_revoked :
    Sample.importedAgain.2.2 = Sample.importing.2.shared ∧
      Sample.importedAgain.2.1 = .ok ⟨[Sample.connectionId], [Sample.clientPubkey]⟩ := by
  have hsucceeded : BatchSucceeded Sample.importing.2 [Sample.legacyRecord] :=
    ⟨_, List.mem_cons_self, rfl, _, rfl⟩
  have hagain := (legacy_import_restores_nothing Sample.crates_urlsCanonical Sample.importing_run
    Sample.importing_built).1 hsucceeded Sample.importedAgain.1 Sample.importedAgain.2.1
    Sample.importedAgain.2.2 (runAlone_alone Sample.crates _ _ _)
  refine ⟨hagain.1, (hagain.2 ?_).trans rfl⟩
  have hcalls : Sample.importedAgain.1 = [⟨.ledger (.registry (.loadConnection
      Sample.connectionId)), .ok (some (.tombstoned ⟨Sample.connectionId, 1, 2010⟩))⟩] := rfl
  rintro ⟨op, hmem⟩
  rw [hcalls, List.mem_singleton] at hmem
  cases hmem

end NwcMobile
