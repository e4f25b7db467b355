import NwcMobile.Engine.System
import NwcMobile.Ledger.Revocation

/-!
Revocation over runs of the whole system.
-/

namespace NwcMobile

open Fallible Relational Transition Concurrent

/-- A tombstone of the connection commits. -/
def Tombstones (c : ConnectionId) (event : Event SystemWorld SystemLabel) : Prop :=
  ∃ revision now tombstone, systemLedgerCall event.label =
    some ⟨.registry (.tombstoneConnection c revision now), .ok tombstone⟩

/-- The connection a tombstone call revoked, and that it stays revoked. -/
theorem revoked_since {x : Crates} {outside : HostCall → Prop} {w w' : SystemWorld}
    {label : SystemLabel} {c : ConnectionId} {r : ConnectionRevision} {now : UnixTimestamp}
    {tombstone : ConnectionTombstone} (hstep : SystemStep x outside w label w')
    (hcall : systemLedgerCall label =
      some ⟨.registry (.tombstoneConnection c r now), .ok tombstone⟩) :
    ∃ row row', Tombstoned w.shared w'.shared c row row' ∧ row.revision = r ∧
      ∀ (history : SystemHistory) m, Run (SystemStep x outside) w' history m →
        Revoked m.shared c (row.revision + 1) row.clientPubkey row.walletServicePubkey := by
  obtain ⟨call, hcall', hledger⟩ | ⟨hnone, -⟩ := SystemStep.ledger hstep
  · rw [hcall, Option.some.injEq] at hcall'
    subst hcall'
    obtain ⟨random, hop⟩ := hledger.run_of_ok
    obtain ⟨row, row', htombstoned, hrevision, -⟩ := tombstoneConnection_ok hop
    refine ⟨row, row', htombstoned, hrevision, fun history m hpast => ?_⟩
    refine hpast.invariant (I := fun m => Revoked m.shared c (row.revision + 1) row.clientPubkey
      row.walletServicePubkey) htombstoned.revoked fun a label b hprior hnext => ?_
    obtain ⟨_, -, hledgerStep⟩ | ⟨-, hsame⟩ := SystemStep.ledger hnext
    · exact hprior.step hledgerStep
    · rw [hsame]
      exact hprior
  · rw [hcall] at hnone
    cases hnone

/-- Revocation is absorbing. Once a tombstone of `c` at revision `r` committed,
whatever executions, imports and other calls follow: the tombstone stays at
revision `r + 1`; no activity check of `c` is positive and no read returns it as
active; no connection with its identifier or key pair is active after any later
step; a reservation for it fails, past its argument checks, because the
connection is unavailable; and no guarded completion for it commits. -/
theorem revocation_absorbing {x : Crates} {outside : HostCall → Prop} {l : Ledger}
    {later earlier : SystemHistory} {event : Event SystemWorld SystemLabel} {w : SystemWorld}
    {c : ConnectionId} {r : ConnectionRevision} {now : UnixTimestamp}
    {tombstone : ConnectionTombstone}
    (hrun : SystemRun x outside l (later ++ event :: earlier) w)
    (hevent : systemLedgerCall event.label =
      some ⟨.registry (.tombstoneConnection c r now), .ok tombstone⟩) :
    (∃ row ∈ w.shared.connections, row.connectionId = c.value ∧ row.status = .tombstoned ∧
      row.revision = r + 1) ∧
    (∀ revision, w.shared.isConnectionRevisionActive c revision =
      if revision ≤ i64Max then .ok false else .error .valueOutOfRange) ∧
    (∀ connection, w.shared.ReadsActive x connection → connection.id ≠ c) ∧
    (∀ revoked ∈ event.before.shared.connections, revoked.connectionId = c.value →
      ∀ event' ∈ later, ∀ row ∈ event'.after.shared.connections, row.status = .active →
        row.connectionId ≠ c.value ∧ ¬ (row.clientPubkey = revoked.clientPubkey ∧
          row.walletServicePubkey = revoked.walletServicePubkey)) ∧
    (∀ e hash connection principal time, connection.id = c →
      w.shared.reservePayment e hash connection principal time =
        .error (if principal = 0 then .invalidAmount
          else if time ≤ i64Max ∧ connection.revision ≤ i64Max ∧ principal ≤ i64Max then
            .connectionUnavailable
          else .valueOutOfRange)) ∧
    (∀ lease revision json method time outcome,
      w.shared.completeEventForActiveConnection lease c revision json time ≠ .ok outcome ∧
        w.shared.completeNwcEventForActiveConnection lease c revision json method time ≠
          .ok outcome) := by
  obtain ⟨-, hstep, hlater⟩ := hrun.split
  obtain ⟨row, row', htombstoned, hrevision, hkept⟩ := revoked_since hstep hevent
  have hend := hkept later w hlater
  refine ⟨?_, hend.isConnectionRevisionActive, fun _ hread => hend.not_read hread, ?_, ?_, ?_⟩
  · obtain ⟨found, hmem, hid, hstatus, hat, -⟩ := hend.tombstone
    exact ⟨found, hmem, hid, hstatus, by rw [hat, hrevision]⟩
  · intro revoked hmem hid event' hevent' active hactive hstatus
    have hsame : revoked = row := Table.eq_of_key (connection_id_key c.value) hmem
      htombstoned.mem (by simpa using hid) (by simpa using htombstoned.connectionId)
    rw [hsame]
    obtain ⟨newer, older, rfl⟩ := List.append_of_mem hevent'
    obtain ⟨hbefore, hat, -⟩ := hlater.split
    exact (hkept _ _ (hbefore.tail hat)).not_active hactive hstatus
  · intro e hash connection principal time hc
    exact hend.reservePayment hc
  · intro lease revision json method time outcome
    exact ⟨hend.completeForActive, hend.completeForActive⟩

namespace Sample

/-- A connection is created and revoked. -/
def revocation : List Move :=
  [.outside (.registry (.tombstoneConnection connectionId 0 1010)) (script 1010 0),
   .outside (.registry (.insertConnection connection 1000)) (script 1000 0)]

def revoked : SystemHistory × SystemWorld := play (Job.program crates) crates .empty revocation

theorem revoked_run : SystemRun crates (fun _ => True) .empty revoked.1 revoked.2 :=
  play_run (fun _ _ => rfl) fun _ _ _ _ => trivial

/-- The same keys under another identifier. -/
def rekeyedConnection : NewConnection :=
  { connection with id := ⟨"again", by decide, by decide, by decide⟩ }

/-- Another application of the wallet. -/
def otherConnection : NewConnection :=
  { connection with
    id := ⟨"other", by decide, by decide, by decide⟩
    clientPubkey := ⟨5⟩
    keys_differ := by decide }

/-- The revoked connection is imported, its keys are inserted once more, and a wake for it is
executed while another connection of the wallet is active. -/
def revokedSince : List Move :=
  List.replicate 6 (Move.act 0 (script 1040 1)) ++
    [Move.spawn firstWake,
      Move.outside (.registry (.insertConnection otherConnection 1030)) (script 1030 0),
      Move.outside (.registry (.insertConnection rekeyedConnection 1020)) (script 1020 0),
      Move.outside (.registry (.importConnection connection 1015 0 1015)) (script 1015 0)]

def absorbed : SystemHistory × SystemWorld :=
  play quickProgram crates .empty (revokedSince ++ revocation)

theorem absorbed_run : SystemRun crates (fun _ => True) .empty absorbed.1 absorbed.2 := by
  refine play_run (fun job hjob => quickProgram_eq (Or.inl ?_)) fun _ _ _ _ => trivial
  simpa [revokedSince, revocation] using hjob

end Sample

theorem revocation_absorbing_revoked :
    (∃ row ∈ Sample.absorbed.2.shared.connections, row.connectionId = Sample.connectionId.value ∧
      row.status = .tombstoned ∧ row.revision = 0 + 1) ∧
    (∃ row ∈ Sample.absorbed.2.shared.connections, row.status = .active) ∧
    Sample.absorbed.2.shared.reservePayment ⟨1⟩ ⟨1⟩ (Sample.activeConnection 1000) 5 1020 =
      .error .connectionUnavailable ∧
    ∃ later, Sample.absorbed.1 = later ++
        (play Sample.quickProgram Sample.crates .empty Sample.revocation).1 ∧
      later.length = 8 ∧
      ∀ event ∈ later, ∀ row ∈ event.after.shared.connections, row.status = .active →
        row.connectionId ≠ Sample.connectionId.value ∧
          ¬ (row.clientPubkey = Sample.clientPubkey ∧
            row.walletServicePubkey = Sample.walletServicePubkey) := by
  obtain ⟨later, hlater⟩ : ∃ later, Sample.absorbed.1 =
      later ++ (play Sample.quickProgram Sample.crates .empty Sample.revocation).1 := play_append
  have hrun := Sample.absorbed_run
  have hlength : Sample.absorbed.1.length = 10 := by decide
  have hactive : ∃ row ∈ Sample.absorbed.2.shared.connections.rows, row.status = .active := by
    decide
  have hbefore : ∃ row ∈ (play Sample.quickProgram Sample.crates .empty
      (Sample.revocation.drop 1)).2.shared.connections.rows,
      row.connectionId = Sample.connectionId.value ∧ row.clientPubkey = Sample.clientPubkey ∧
        row.walletServicePubkey = Sample.walletServicePubkey := by decide
  rw [hlater] at hrun hlength
  obtain ⟨hrow, -, -, hnever, hreserve, -⟩ := @revocation_absorbing Sample.crates (fun _ => True)
    .empty later _ _ _ _ _ _ _ hrun rfl
  refine ⟨hrow, hactive, hreserve ⟨1⟩ ⟨1⟩ (Sample.activeConnection 1000) 5 1020 rfl, later, hlater,
    ?_, ?_⟩
  · have hearlier : (play Sample.quickProgram Sample.crates .empty
        Sample.revocation).1.length = 2 := by decide
    rw [List.length_append, hearlier] at hlength
    omega
  · obtain ⟨row, hmem, hid, hclient, hwallet⟩ := hbefore
    have hsince := hnever row hmem hid
    rwa [hclient, hwallet] at hsince

/-- Arguments are checked before the connection is looked up. -/
theorem revoked_arguments_checked_first :
    ∃ history w, SystemRun Sample.crates (fun _ => True) .empty history w ∧
      (∃ event ∈ history, ∃ tombstone, systemLedgerCall event.label =
        some ⟨.registry (.tombstoneConnection Sample.connectionId 0 1010), .ok tombstone⟩) ∧
      w.shared.reservePayment ⟨1⟩ ⟨1⟩ (Sample.activeConnection 1000) 0 1020 =
        .error .invalidAmount ∧
      w.shared.isConnectionRevisionActive Sample.connectionId (2 ^ 63) =
        .error .valueOutOfRange := by
  refine ⟨_, _, Sample.revoked_run, ⟨_, List.mem_cons_self, _, rfl⟩, rfl, rfl⟩

end NwcMobile
