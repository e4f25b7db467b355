import NwcMobile.Ledger.Revocation

/-!
The wake-registration outbox over runs of the ledger. The row of a connection carries
the connection's revision, and the relays copied next to it are the connection's own
while it is active. A tombstone turns the row into a disable row with all those relays,
which leaves the outbox by an acknowledgement at the tombstone's revision only.
-/

namespace NwcMobile

open Fallible Relational Transition Registration

theorem wakeRegistration_key (id : String) :
    wakeRegistrationSchema.Key fun r => r.connectionId == id := by
  intro a b ha hb
  simp_all [wakeRegistrationSchema]

/-- An active connection has the identifier. -/
def Ledger.HasActive (l : Ledger) (id : String) : Prop :=
  ∃ c ∈ l.connections, c.connectionId = id ∧ c.status = .active

/-- A requeue rewrites the row and the copied relays of every active connection. -/
structure Refreshed (l l' : Ledger) (enabled : Bool) (now : Nat) : Prop where
  registrations : ∀ r, r ∈ l'.wakeRegistrations ↔
    (r ∈ l.wakeRegistrations ∧ ¬ l.HasActive r.connectionId) ∨
      ∃ c ∈ l.connections, c.status = .active ∧ r = requeuedRow enabled now c
  relays : ∀ r, r ∈ l'.wakeRegistrationRelays ↔
    (r ∈ l.wakeRegistrationRelays ∧ ¬ l.HasActive r.owner) ∨
      (r ∈ l.connectionRelays ∧ l.HasActive r.owner)

/-- An acknowledgement removes the row it matches, and its relays. -/
structure Acknowledged (l l' : Ledger) (change : WakeRegistrationChange) : Prop where
  matched : ∃ r ∈ l.wakeRegistrations, matchesChange change r = true
  registrations : l'.wakeRegistrations =
    l.wakeRegistrations.delete fun r => r.connectionId == change.connectionId.value
  relays : l'.wakeRegistrationRelays =
    l.wakeRegistrationRelays.delete fun r => r.owner == change.connectionId.value

/-- A deferral counts one more attempt in the row it matches. -/
structure Deferred (l l' : Ledger) (change : WakeRegistrationChange)
    (row row' : WakeRegistrationRow) : Prop where
  mem : row ∈ l.wakeRegistrations
  matched : matchesChange change row = true
  connectionId : row'.connectionId = row.connectionId
  revision : row'.connectionRevision = row.connectionRevision
  enabled : row'.desiredEnabled = row.desiredEnabled
  attemptCount : row'.attemptCount = row.attemptCount + 1
  updatedAt : row.updatedAt ≤ row'.updatedAt
  registrations : l.wakeRegistrations.update
    (fun r => r.connectionId == change.connectionId.value) (fun _ => row') =
      some l'.wakeRegistrations
  relays : l'.wakeRegistrationRelays = l.wakeRegistrationRelays

/-- What an operation of the outbox does to it. -/
inductive RegistrationEffect (l l' : Ledger) : RegistrationOp → Prop
  | unchanged {op : RegistrationOp} (h : l' = l) : RegistrationEffect l l' op
  | requeued {enabled : Bool} {now : UnixTimestamp} (h : Refreshed l l' enabled now) :
      RegistrationEffect l l' (.requeueActiveWakeRegistrationsWithState enabled now)
  | acknowledged {change : WakeRegistrationChange} (h : Acknowledged l l' change) :
      RegistrationEffect l l' (.acknowledgeWakeRegistration change)
  | deferred {change : WakeRegistrationChange} {now : UnixTimestamp} {delay : Duration}
      {row row' : WakeRegistrationRow} (h : Deferred l l' change row row') :
      RegistrationEffect l l' (.retryWakeRegistration change now delay)

section Operations

variable {x : Crates} {l l' : Ledger} {change : WakeRegistrationChange} {r : WakeRegistrationRow}

theorem matchesChange_eq_true :
    matchesChange change r = true ↔ r.connectionId = change.connectionId.value ∧
      r.connectionRevision = change.connectionRevision ∧ r.desiredEnabled = change.enabled ∧
      r.attemptCount = change.attemptCount ∧ r.updatedAt = change.updatedAt := by
  simp [matchesChange, and_assoc]

theorem requeue_ok {enabled : Bool} {now : UnixTimestamp} {n : Nat}
    (h : l.requeueActiveWakeRegistrationsWithState enabled now = .ok (n, l')) :
    Refreshed l l' enabled now := by
  simp only [Ledger.requeueActiveWakeRegistrationsWithState, bind_eq_ok, ensure_eq_ok,
    okOr_eq_ok, sqliteU64, i64TryFrom_eq_ok, pure_eq_ok] at h
  obtain ⟨_, ⟨-, rfl⟩, -, -, outbox, houtbox, relays, hrelays, heq⟩ := h
  obtain ⟨-, rfl⟩ := Prod.mk.inj heq
  have hactive : ∀ id, ((l.connections.select fun r => r.status == .active).any
      fun c => c.connectionId == id) = true ↔ l.HasActive id := by
    intro id
    rw [List.any_eq_true]
    constructor
    · rintro ⟨c, hc, hid⟩
      obtain ⟨hmem, hstatus⟩ := Table.mem_select.mp hc
      exact ⟨c, hmem, by simpa using hid, by simpa using hstatus⟩
    · rintro ⟨c, hmem, hid, hstatus⟩
      exact ⟨c, Table.mem_select.mpr ⟨hmem, by simpa using hstatus⟩, by simpa using hid⟩
  have hdistinct : (l.connections.select fun r => r.status == .active).Pairwise fun a b =>
      ((requeuedRow enabled now a).connectionId == b.connectionId) = false := by
    apply (l.connections.distinct.sublist List.filter_sublist).imp
    intro a b hab
    simp only [connectionSchema, Bool.or_eq_false_iff] at hab
    exact hab.1
  constructor
  · intro r
    rw [Table.mem_upsertAll hdistinct houtbox]
    constructor
    · rintro (⟨hold, hnone⟩ | ⟨c, hc, rfl⟩)
      · refine Or.inl ⟨hold, ?_⟩
        rintro ⟨c, hmem, hid, hstatus⟩
        have hother := hnone c (Table.mem_select.mpr ⟨hmem, by simpa using hstatus⟩)
        simp [hid] at hother
      · obtain ⟨hmem, hstatus⟩ := Table.mem_select.mp hc
        exact Or.inr ⟨c, hmem, by simpa using hstatus, rfl⟩
    · rintro (⟨hold, hnone⟩ | ⟨c, hmem, hstatus, rfl⟩)
      · refine Or.inl ⟨hold, fun c hc => ?_⟩
        obtain ⟨hmem, hstatus⟩ := Table.mem_select.mp hc
        by_contra hid
        exact hnone ⟨c, hmem, by simpa using Eq.symm (by simpa using hid), by simpa using hstatus⟩
      · exact Or.inr ⟨c, Table.mem_select.mpr ⟨hmem, by simpa using hstatus⟩, rfl⟩
  · intro r
    rw [Table.mem_insertAll hrelays, Table.mem_delete, Table.mem_select, ← hactive,
      Bool.not_eq_true]

theorem acknowledge_ok {done : Unit} (h : l.acknowledgeWakeRegistration change = .ok (done, l')) :
    Acknowledged l l' change := by
  simp only [Ledger.acknowledgeWakeRegistration, bind_eq_ok, ensure_eq_ok, pure_eq_ok] at h
  obtain ⟨_, -, _, -, -, hcount, heq⟩ := h
  obtain ⟨-, rfl⟩ := Prod.mk.inj heq
  rw [beq_iff_eq] at hcount
  obtain ⟨row, hmem, hmatch⟩ := Table.count_pos (t := l.wakeRegistrations)
    (p := matchesChange change) (by omega)
  obtain ⟨hid, -⟩ := matchesChange_eq_true.mp hmatch
  refine ⟨⟨row, hmem, hmatch⟩, ?_, ?_⟩
  · apply Table.delete_eq_delete (wakeRegistration_key _) hmem (by simpa using hid) ?_ hmatch
    intro r hr
    simpa using (matchesChange_eq_true.mp hr).1
  · have hsame : (fun r : RelayRow String => l.wakeRegistrations.any fun row =>
        matchesChange change row && row.connectionId == r.owner) =
          fun r => r.owner == change.connectionId.value := by
      funext r
      rw [Bool.eq_iff_iff, Table.any_eq_true, beq_iff_eq]
      constructor
      · rintro ⟨other, -, hother⟩
        rw [Bool.and_eq_true, beq_iff_eq] at hother
        rw [← hother.2, (matchesChange_eq_true.mp hother.1).1]
      · intro howner
        exact ⟨row, hmem, by simp [hmatch, hid, howner]⟩
    exact congrArg l.wakeRegistrationRelays.delete hsame

theorem retry_ok {now : UnixTimestamp} {delay : Duration} {done : Unit}
    (h : l.retryWakeRegistration change now delay = .ok (done, l')) :
    ∃ row row', Deferred l l' change row row' := by
  simp only [Ledger.retryWakeRegistration, bind_eq_ok, ensure_eq_ok, okOr_eq_ok, sqliteU64,
    i64TryFrom_eq_ok, pure_eq_ok] at h
  obtain ⟨-, -, -, htime, _, -, _, -, _, -, available, -, _, ⟨-, rfl⟩, outbox, houtbox, -, hcount,
    heq⟩ := h
  obtain ⟨-, rfl⟩ := Prod.mk.inj heq
  rw [beq_iff_eq] at hcount
  obtain ⟨row, hmem, hdue⟩ := Table.count_pos (t := l.wakeRegistrations)
    (p := fun r => matchesChange change r && decide (r.attemptCount < 2147483647)) (by omega)
  have hmatch : matchesChange change row = true := by
    simp only [Bool.and_eq_true] at hdue
    exact hdue.1
  obtain ⟨hid, -, -, -, hupdated⟩ := matchesChange_eq_true.mp hmatch
  rw [Table.update_eq_replace (wakeRegistration_key change.connectionId.value) hmem
    (by simpa using hid) ?_ hdue] at houtbox
  · refine ⟨row, { row with
      attemptCount := row.attemptCount + 1, availableAt := available, updatedAt := now }, hmem,
      hmatch, rfl, rfl, rfl, rfl, ?_, houtbox, rfl⟩
    rw [hupdated]
    simpa using htime
  · intro r hr
    simp only [Bool.and_eq_true] at hr
    simpa using (matchesChange_eq_true.mp hr.1).1

theorem registrationOp_effect {op : RegistrationOp} {value : op.Value}
    (h : op.run x l = .ok (value, l')) : RegistrationEffect l l' op := by
  cases op with
  | nextWakeRegistrationAt => exact .unchanged (reading_eq_ok.mp h).2
  | loadDueWakeRegistrations now rows => exact .unchanged (reading_eq_ok.mp h).2
  | requeueActiveWakeRegistrationsWithState enabled now => exact .requeued (requeue_ok h)
  | acknowledgeWakeRegistration change => exact .acknowledged (acknowledge_ok h)
  | retryWakeRegistration change now delay =>
    obtain ⟨row, row', hdeferred⟩ := retry_ok h
    exact .deferred hdeferred

end Operations

/-- What one call does to the outbox and to the tables it is copied from. -/
inductive OutboxEffect (l l' : Ledger) : LedgerCall → Prop
  | kept {call : LedgerCall} (connections : l'.connections = l.connections)
      (connectionRelays : l'.connectionRelays = l.connectionRelays)
      (registrations : l'.wakeRegistrations = l.wakeRegistrations)
      (relays : l'.wakeRegistrationRelays = l.wakeRegistrationRelays) : OutboxEffect l l' call
  | inserted {call : LedgerCall} {c : NewConnection} {createdAt now : UnixTimestamp} {used : Nat}
      {row : ConnectionRow} (h : Inserted l l' c createdAt used now row) : OutboxEffect l l' call
  | tombstoned {call : LedgerCall} {id : ConnectionId} {row row' : ConnectionRow}
      (h : Tombstoned l l' id row row') : OutboxEffect l l' call
  | registration {op : RegistrationOp} {value : op.Value} (effect : RegistrationEffect l l' op)
      (connections : l'.connections = l.connections)
      (connectionRelays : l'.connectionRelays = l.connectionRelays) :
      OutboxEffect l l' ⟨.registration op, .ok value⟩

section Effects

variable {x : Crates} {l l' : Ledger} {call : LedgerCall} {id : ConnectionId} {other : String}
  {row row' : ConnectionRow} {c : NewConnection} {createdAt now : UnixTimestamp} {used : Nat}

theorem LedgerStep.outbox (h : LedgerStep x l call l') : OutboxEffect l l' call := by
  obtain ⟨op, reply⟩ := call
  rcases h.cases with rfl | ⟨value, random, rfl, hrun⟩
  · exact .kept rfl rfl rfl rfl
  · cases op with
    | payment op =>
      have hframe := (paymentOp_effect hrun).frame
      exact .kept (by rw [hframe]) (by rw [hframe]) (by rw [hframe]) (by rw [hframe])
    | claim op =>
      have hframe := claimOp_frame hrun
      exact .kept (by rw [hframe]) (by rw [hframe]) (by rw [hframe]) (by rw [hframe])
    | record op =>
      have hframe := recordOp_frame hrun
      exact .kept (by rw [hframe]) (by rw [hframe]) (by rw [hframe]) (by rw [hframe])
    | registration op =>
      have hframe := registrationOp_frame hrun
      exact .registration (registrationOp_effect hrun) (by rw [hframe]) (by rw [hframe])
    | registry op =>
      rcases registryOp_effect hrun with rfl | ⟨c, createdAt, used, now, row, hrow, -⟩ |
        ⟨id, row, row', hrow⟩
      · exact .kept rfl rfl rfl rfl
      · exact .inserted hrow
      · exact .tombstoned hrow

theorem Inserted.hasActive (h : Inserted l l' c createdAt used now row) :
    l'.HasActive other ↔ l.HasActive other ∨ other = c.id.value := by
  constructor
  · rintro ⟨found, hmem, hid, hactive⟩
    rcases (Table.mem_insert h.connections).mp hmem with hold | rfl
    · exact Or.inl ⟨found, hold, hid, hactive⟩
    · exact Or.inr (hid.symm.trans h.connectionId)
  · rintro (⟨found, hmem, hid, hactive⟩ | rfl)
    · exact ⟨found, (Table.mem_insert h.connections).mpr (Or.inl hmem), hid, hactive⟩
    · exact ⟨row, Table.insert_self h.connections, h.connectionId, h.status⟩

/-- The identifier of a new connection is new. -/
theorem Inserted.fresh (h : Inserted l l' c createdAt used now row) {found : ConnectionRow}
    (hmem : found ∈ l.connections) : found.connectionId ≠ c.id.value := by
  have hconflict := Table.insert_no_conflict h.connections hmem
  simp only [connectionSchema, Bool.or_eq_false_iff, beq_eq_false_iff_ne] at hconflict
  rw [← h.connectionId]
  exact hconflict.1

theorem Inserted.mem_registrations (h : Inserted l l' c createdAt used now row)
    {r : WakeRegistrationRow} : r ∈ l'.wakeRegistrations ↔
      r ∈ l.wakeRegistrations ∨ r = requeuedRow true now row :=
  Table.mem_insert h.registrations

theorem Inserted.mem_relays (h : Inserted l l' c createdAt used now row) {r : RelayRow String} :
    r ∈ l'.wakeRegistrationRelays ↔ r ∈ l.wakeRegistrationRelays ∨
      (r ∈ l'.connectionRelays ∧ r.owner = c.id.value) := by
  rw [Table.mem_insertAll h.registrationRelays, Table.mem_select, beq_iff_eq]

theorem Inserted.mem_connectionRelays (h : Inserted l l' c createdAt used now row)
    {r : RelayRow String} (hmem : r ∈ l'.connectionRelays) :
    r ∈ l.connectionRelays ∨ r.owner = c.id.value := by
  rcases (Table.mem_insertAll h.relays).mp hmem with hold | hnew
  · exact Or.inl hold
  · obtain ⟨entry, -, rfl⟩ := List.mem_map.mp hnew
    exact Or.inr rfl

theorem Tombstoned.hasActive (h : Tombstoned l l' id row row') :
    l'.HasActive other ↔ l.HasActive other ∧ other ≠ id.value := by
  constructor
  · rintro ⟨found, hmem, hid, hactive⟩
    have hne := (h.revoked.not_active hmem hactive).1
    rcases (Table.mem_replace h.connections).mp hmem with ⟨hold, -⟩ | ⟨rfl, -⟩
    · exact ⟨⟨found, hold, hid, hactive⟩, hid ▸ hne⟩
    · exact absurd (h.keeps.1.trans h.connectionId) hne
  · rintro ⟨⟨found, hmem, hid, hactive⟩, hne⟩
    refine ⟨found, (Table.mem_replace h.connections).mpr (Or.inl ⟨hmem, ?_⟩), hid, hactive⟩
    simpa [hid] using hne

theorem Tombstoned.mem_registrations (h : Tombstoned l l' id row row') {r : WakeRegistrationRow} :
    r ∈ l'.wakeRegistrations ↔ (r ∈ l.wakeRegistrations ∧ r.connectionId ≠ id.value) ∨
      r = requeuedRow false row'.updatedAt row' := by
  rw [Table.mem_upsert h.registrations, beq_eq_false_iff_ne]

/-- A row leaves the outbox by an acknowledgement that matches it. -/
theorem LedgerStep.rowLeaves (hstep : LedgerStep x l call l')
    (hrow : ∃ r ∈ l.wakeRegistrations, r.connectionId = id.value)
    (hgone : ∀ r ∈ l'.wakeRegistrations, r.connectionId ≠ id.value) :
    ∃ change, call = ⟨.registration (.acknowledgeWakeRegistration change), .ok ()⟩ ∧
      change.connectionId = id ∧ ∃ r ∈ l.wakeRegistrations, matchesChange change r = true := by
  obtain ⟨r, hr, hid⟩ := hrow
  cases hstep.outbox with
  | kept hconnections hown hregistrations hrelays =>
    rw [hregistrations] at hgone
    exact absurd hid (hgone r hr)
  | inserted hi => exact absurd hid (hgone r (hi.mem_registrations.mpr (Or.inl hr)))
  | @tombstoned _ other old new ht =>
    by_cases hsame : r.connectionId = other.value
    · have hnew := hgone _ (ht.mem_registrations.mpr (Or.inr rfl))
      exact absurd (ht.keeps.1.trans (ht.connectionId.trans (hsame.symm.trans hid))) hnew
    · exact absurd hid (hgone r (ht.mem_registrations.mpr (Or.inl ⟨hr, hsame⟩)))
  | @registration op value heffect hconnections hown =>
    cases heffect with
    | unchanged heq =>
      rw [heq] at hgone
      exact absurd hid (hgone r hr)
    | requeued hnew =>
      by_cases hactive : l.HasActive r.connectionId
      · obtain ⟨c, hc, hsame, hstatus⟩ := hactive
        have hrequeued := hgone _ ((hnew.registrations _).mpr (Or.inr ⟨c, hc, hstatus, rfl⟩))
        exact absurd (hsame.trans hid) hrequeued
      · exact absurd hid (hgone r ((hnew.registrations r).mpr (Or.inl ⟨hr, hactive⟩)))
    | @acknowledged change hdone =>
      have hsame : r.connectionId = change.connectionId.value := by
        by_contra hne
        refine hgone r ?_ hid
        rw [hdone.registrations, Table.mem_delete]
        exact ⟨hr, by simpa using hne⟩
      exact ⟨change, rfl, ConnectionId.value_injective (hsame.symm.trans hid), hdone.matched⟩
    | @deferred change now delay old new hlater =>
      by_cases hsame : r.connectionId = change.connectionId.value
      · have hnew := hgone new ((Table.mem_replace hlater.registrations).mpr
          (Or.inr ⟨rfl, r, hr, by simpa using hsame⟩))
        obtain ⟨hidOld, -⟩ := matchesChange_eq_true.mp hlater.matched
        exact absurd (hlater.connectionId.trans (hidOld.trans (hsame.symm.trans hid))) hnew
      · exact absurd hid (hgone r ((Table.mem_replace hlater.registrations).mpr
          (Or.inl ⟨hr, by simpa using hsame⟩)))

/-- A known connection that is active after a step was active before it. -/
theorem LedgerStep.hasActive_before (hstep : LedgerStep x l call l')
    (hknown : ∃ found ∈ l.connections, found.connectionId = other)
    (hactive : l'.HasActive other) : l.HasActive other := by
  rcases hstep.connections with ⟨hsame, -⟩ | ⟨c, createdAt, used, now, row, hi⟩ |
    ⟨id, row, row', ht⟩
  · rwa [Ledger.HasActive, hsame] at hactive
  · rcases hi.hasActive.mp hactive with hbefore | hfresh
    · exact hbefore
    · obtain ⟨found, hmem, hid⟩ := hknown
      exact absurd (hid.trans hfresh) (hi.fresh hmem)
  · exact (ht.hasActive.mp hactive).1

end Effects

/-- Each row carries the revision of its connection, each copied relay belongs to a row, and
the relays next to the row of an active connection are the connection's own. -/
structure OutboxCoherent (l : Ledger) : Prop where
  revision : ∀ r ∈ l.wakeRegistrations, ∃ c ∈ l.connections,
    c.connectionId = r.connectionId ∧ c.revision = r.connectionRevision
  owner : ∀ r ∈ l.wakeRegistrationRelays, ∃ row ∈ l.wakeRegistrations, row.connectionId = r.owner
  relays : ∀ r ∈ l.wakeRegistrationRelays, l.HasActive r.owner → r ∈ l.connectionRelays

section OutboxCoherent

variable {x : Crates} {l l' : Ledger} {call : LedgerCall} {id : ConnectionId}
  {history : LedgerHistory}

theorem outbox_coherent_empty : OutboxCoherent .empty where
  revision := fun _ h => absurd h (Table.not_mem_empty _)
  owner := fun _ h => absurd h (Table.not_mem_empty _)
  relays := fun _ h => absurd h (Table.not_mem_empty _)

theorem OutboxCoherent.inserted {c : NewConnection} {createdAt now : UnixTimestamp} {used : Nat}
    {row : ConnectionRow} (h : OutboxCoherent l) (hi : Inserted l l' c createdAt used now row) :
    OutboxCoherent l' where
  revision := by
    intro r hr
    rcases hi.mem_registrations.mp hr with hold | rfl
    · obtain ⟨found, hmem, hfound⟩ := h.revision r hold
      exact ⟨found, (Table.mem_insert hi.connections).mpr (Or.inl hmem), hfound⟩
    · exact ⟨row, Table.insert_self hi.connections, rfl, rfl⟩
  owner := by
    intro r hr
    rcases hi.mem_relays.mp hr with hold | ⟨-, howner⟩
    · obtain ⟨found, hmem, hid⟩ := h.owner r hold
      exact ⟨found, hi.mem_registrations.mpr (Or.inl hmem), hid⟩
    · exact ⟨_, hi.mem_registrations.mpr (Or.inr rfl), hi.connectionId.trans howner.symm⟩
  relays := by
    intro r hr hactive
    rcases hi.mem_relays.mp hr with hold | ⟨hnew, -⟩
    · rcases hi.hasActive.mp hactive with hbefore | hfresh
      · exact (Table.mem_insertAll hi.relays).mpr (Or.inl (h.relays r hold hbefore))
      · -- the relay has a row, whose connection would be the new one
        obtain ⟨found, hmem, hid⟩ := h.owner r hold
        obtain ⟨owner, howner, hsame, -⟩ := h.revision found hmem
        exact absurd (hsame.trans (hid.trans hfresh)) (hi.fresh howner)
    · exact hnew

/-- The tombstone copies the relays that are not there yet; those that are, are its own. -/
theorem OutboxCoherent.tombstonedRelays {row row' : ConnectionRow} (h : OutboxCoherent l)
    (ht : Tombstoned l l' id row row') {r : RelayRow String} :
    r ∈ l'.wakeRegistrationRelays ↔
      r ∈ l.wakeRegistrationRelays ∨ (r ∈ l.connectionRelays ∧ r.owner = id.value) := by
  have hactive : l.HasActive id.value := ⟨row, ht.mem, ht.connectionId, ht.active⟩
  rw [ht.registrationRelays, Table.mem_insertOrSkipAll, Table.mem_select, beq_iff_eq]
  · intro s hs
    exact Table.check_of_mem (Table.mem_select.mp hs).1
  · intro o ho s hs hconflict
    obtain ⟨hmem, howner⟩ := Table.mem_select.mp hs
    rw [beq_iff_eq] at howner
    have hsame : o.owner = s.owner := by
      simp only [relaySchema, Bool.and_eq_true, beq_iff_eq] at hconflict
      exact hconflict.1
    have hown : o ∈ l.connectionRelays := by
      rcases ho with hold | hcopied
      · exact h.relays o hold (by rwa [hsame, howner])
      · exact (Table.mem_select.mp hcopied).1
    exact Table.eq_of_conflict hown hmem hconflict

theorem OutboxCoherent.tombstoned {row row' : ConnectionRow} (h : OutboxCoherent l)
    (ht : Tombstoned l l' id row row') : OutboxCoherent l' where
  revision := by
    intro r hr
    rcases ht.mem_registrations.mp hr with ⟨hold, hne⟩ | rfl
    · obtain ⟨found, hmem, hid, hat⟩ := h.revision r hold
      refine ⟨found, (Table.mem_replace ht.connections).mpr (Or.inl ⟨hmem, ?_⟩), hid, hat⟩
      simpa [hid] using hne
    · refine ⟨row', (Table.mem_replace ht.connections).mpr (Or.inr ⟨rfl, row, ht.mem, ?_⟩), rfl, rfl⟩
      simpa using ht.connectionId
  owner := by
    intro r hr
    have hdisable : requeuedRow false row'.updatedAt row' ∈ l'.wakeRegistrations :=
      ht.mem_registrations.mpr (Or.inr rfl)
    have hid : row'.connectionId = id.value := ht.keeps.1.trans ht.connectionId
    rcases (h.tombstonedRelays ht).mp hr with hold | ⟨-, howner⟩
    · obtain ⟨found, hmem, hfound⟩ := h.owner r hold
      by_cases hsame : found.connectionId = id.value
      · exact ⟨_, hdisable, hid.trans (hsame.symm.trans hfound)⟩
      · exact ⟨found, ht.mem_registrations.mpr (Or.inl ⟨hmem, hsame⟩), hfound⟩
    · exact ⟨_, hdisable, hid.trans howner.symm⟩
  relays := by
    intro r hr hactive
    obtain ⟨hbefore, hne⟩ := ht.hasActive.mp hactive
    have hown : r ∈ l.connectionRelays := by
      rcases (h.tombstonedRelays ht).mp hr with hold | ⟨hcopied, -⟩
      · exact h.relays r hold hbefore
      · exact hcopied
    rw [ht.relays, Table.mem_delete]
    exact ⟨hown, by simpa using hne⟩

theorem OutboxCoherent.registration {op : RegistrationOp} (h : OutboxCoherent l)
    (heffect : RegistrationEffect l l' op) (hconnections : l'.connections = l.connections)
    (hrelays : l'.connectionRelays = l.connectionRelays) : OutboxCoherent l' := by
  have hactive : ∀ {other}, l'.HasActive other ↔ l.HasActive other := by
    intro other
    rw [Ledger.HasActive, Ledger.HasActive, hconnections]
  cases heffect with
  | unchanged heq => exact heq ▸ h
  | requeued hnew =>
    constructor
    · intro r hr
      rw [hconnections]
      rcases (hnew.registrations r).mp hr with ⟨hold, -⟩ | ⟨c, hc, -, rfl⟩
      · exact h.revision r hold
      · exact ⟨c, hc, rfl, rfl⟩
    · intro r hr
      rcases (hnew.relays r).mp hr with ⟨hold, hnone⟩ | ⟨-, c, hc, hid, hstatus⟩
      · obtain ⟨found, hmem, hfound⟩ := h.owner r hold
        exact ⟨found, (hnew.registrations found).mpr (Or.inl ⟨hmem, by rwa [hfound]⟩), hfound⟩
      · exact ⟨_, (hnew.registrations _).mpr (Or.inr ⟨c, hc, hstatus, rfl⟩), hid⟩
    · intro r hr hown
      rw [hactive] at hown
      rcases (hnew.relays r).mp hr with ⟨-, hnone⟩ | ⟨hcopied, -⟩
      · exact absurd hown hnone
      · rwa [hrelays]
  | @acknowledged change hdone =>
    constructor
    · intro r hr
      rw [hdone.registrations, Table.mem_delete] at hr
      rw [hconnections]
      exact h.revision r hr.1
    · intro r hr
      rw [hdone.relays, Table.mem_delete] at hr
      obtain ⟨found, hmem, hfound⟩ := h.owner r hr.1
      refine ⟨found, ?_, hfound⟩
      rw [hdone.registrations, Table.mem_delete, hfound]
      exact ⟨hmem, hr.2⟩
    · intro r hr hown
      rw [hdone.relays, Table.mem_delete] at hr
      rw [hrelays]
      exact h.relays r hr.1 (hactive.mp hown)
  | @deferred change now delay row row' hlater =>
    constructor
    · intro r hr
      rw [hconnections]
      rcases (Table.mem_replace hlater.registrations).mp hr with ⟨hold, -⟩ | ⟨rfl, -⟩
      · exact h.revision r hold
      · rw [hlater.connectionId, hlater.revision]
        exact h.revision row hlater.mem
    · intro r hr
      rw [hlater.relays] at hr
      obtain ⟨found, hmem, hfound⟩ := h.owner r hr
      obtain ⟨hid, -⟩ := matchesChange_eq_true.mp hlater.matched
      by_cases hsame : found.connectionId = change.connectionId.value
      · refine ⟨row', (Table.mem_replace hlater.registrations).mpr (Or.inr ⟨rfl, row, hlater.mem, ?_⟩),
          ?_⟩
        · simpa using hid
        · rw [hlater.connectionId, hid, ← hsame, hfound]
      · exact ⟨found, (Table.mem_replace hlater.registrations).mpr
          (Or.inl ⟨hmem, by simpa using hsame⟩), hfound⟩
    · intro r hr hown
      rw [hlater.relays] at hr
      rw [hrelays]
      exact h.relays r hr (hactive.mp hown)

theorem OutboxCoherent.step (h : OutboxCoherent l) (hstep : LedgerStep x l call l') : OutboxCoherent l' := by
  cases hstep.outbox with
  | kept hconnections hown hregistrations hrelays =>
    constructor
    · rw [hregistrations, hconnections]
      exact h.revision
    · rw [hrelays, hregistrations]
      exact h.owner
    · rw [hrelays, hown]
      intro r hr hactive
      rw [Ledger.HasActive, hconnections] at hactive
      exact h.relays r hr hactive
  | inserted hi => exact h.inserted hi
  | tombstoned ht => exact h.tombstoned ht
  | registration heffect hconnections hown => exact h.registration heffect hconnections hown

theorem outbox_coherent_run (hrun : LedgerRun x .empty history l) : OutboxCoherent l :=
  hrun.invariant outbox_coherent_empty fun _ _ _ h hstep => h.step hstep

end OutboxCoherent

/-- While the outbox has a row of the connection, it is the disable row of the revision, next
to the relays the connection had. Its own relays are gone. -/
structure Unregistered (l : Ledger) (id : ConnectionId) (revision : Nat)
    (relays : Table (relaySchema String)) : Prop where
  row : ∀ r ∈ l.wakeRegistrations, r.connectionId = id.value →
    r.desiredEnabled = false ∧ r.connectionRevision = revision
  relays : (∃ r ∈ l.wakeRegistrations, r.connectionId = id.value) →
    ∀ r : RelayRow String, r.owner = id.value → (r ∈ l.wakeRegistrationRelays ↔ r ∈ relays)
  gone : ∀ r ∈ l.connectionRelays, r.owner ≠ id.value

section Unregistered

variable {x : Crates} {l l' : Ledger} {call : LedgerCall} {id : ConnectionId} {revision : Nat}
  {client wallet : PublicKey} {relays : Table (relaySchema String)} {row row' : ConnectionRow}
  {history : LedgerHistory}

theorem Tombstoned.unregistered (h : OutboxCoherent l) (ht : Tombstoned l l' id row row') :
    Unregistered l' id (row.revision + 1) l.connectionRelays where
  row := by
    intro r hr hid
    rcases ht.mem_registrations.mp hr with ⟨-, hne⟩ | rfl
    · exact absurd hid hne
    · exact ⟨rfl, ht.revision⟩
  relays := by
    intro _ r howner
    rw [h.tombstonedRelays ht]
    constructor
    · rintro (hold | ⟨hown, -⟩)
      · exact h.relays r hold ⟨row, ht.mem, ht.connectionId.trans howner.symm, ht.active⟩
      · exact hown
    · exact fun hown => Or.inr ⟨hown, howner⟩
  gone := by
    intro r hr
    rw [ht.relays, Table.mem_delete] at hr
    simpa using hr.2

theorem Revoked.not_hasActive (h : Revoked l id revision client wallet) :
    ¬ l.HasActive id.value := by
  rintro ⟨found, hmem, hid, hactive⟩
  exact (h.not_active hmem hactive).1 hid

theorem Unregistered.registration {op : RegistrationOp} (h : Unregistered l id revision relays)
    (hnone : ¬ l.HasActive id.value) (heffect : RegistrationEffect l l' op)
    (hown : l'.connectionRelays = l.connectionRelays) :
    Unregistered l' id revision relays := by
  cases heffect with
  | unchanged heq => exact heq ▸ h
  | requeued hnew =>
    have hkept : ∀ r ∈ l'.wakeRegistrations, r.connectionId = id.value →
        r ∈ l.wakeRegistrations := by
      intro r hr hid
      rcases (hnew.registrations r).mp hr with ⟨hold, -⟩ | ⟨c, hc, hstatus, rfl⟩
      · exact hold
      · exact absurd ⟨c, hc, hid, hstatus⟩ hnone
    constructor
    · intro r hr hid
      exact h.row r (hkept r hr hid) hid
    · rintro ⟨r, hr, hid⟩ relay howner
      rw [hnew.relays, howner, ← h.relays ⟨r, hkept r hr hid, hid⟩ relay howner]
      tauto
    · rw [hown]
      exact h.gone
  | @acknowledged change hdone =>
    constructor
    · intro r hr
      rw [hdone.registrations, Table.mem_delete] at hr
      exact h.row r hr.1
    · rintro ⟨r, hr, hid⟩ relay howner
      rw [hdone.registrations, Table.mem_delete] at hr
      rw [hdone.relays, Table.mem_delete, howner, ← hid, ← h.relays ⟨r, hr.1, hid⟩ relay howner]
      exact and_iff_left hr.2
    · rw [hown]
      exact h.gone
  | @deferred change now delay old new hlater =>
    have hkept : ∀ r ∈ l'.wakeRegistrations, ∃ s ∈ l.wakeRegistrations,
        r.connectionId = s.connectionId ∧ r.desiredEnabled = s.desiredEnabled ∧
          r.connectionRevision = s.connectionRevision := by
      intro r hr
      rcases (Table.mem_replace hlater.registrations).mp hr with ⟨hold, -⟩ | ⟨rfl, -⟩
      · exact ⟨r, hold, rfl, rfl, rfl⟩
      · exact ⟨old, hlater.mem, hlater.connectionId, hlater.enabled, hlater.revision⟩
    constructor
    · intro r hr hid
      obtain ⟨s, hs, hsame, henabled, hat⟩ := hkept r hr
      rw [henabled, hat]
      exact h.row s hs (hsame.symm.trans hid)
    · rintro ⟨r, hr, hid⟩ relay howner
      obtain ⟨s, hs, hsame, -⟩ := hkept r hr
      rw [hlater.relays]
      exact h.relays ⟨s, hs, hsame.symm.trans hid⟩ relay howner
    · rw [hown]
      exact h.gone

/-- No step re-enables a revoked connection or touches the relays next to its row. -/
theorem Unregistered.step (hcoherent : OutboxCoherent l)
    (hrevoked : Revoked l id revision client wallet) (h : Unregistered l id revision relays)
    (hstep : LedgerStep x l call l') : Unregistered l' id revision relays := by
  have hnone := hrevoked.not_hasActive
  cases hstep.outbox with
  | kept hconnections hown hregistrations hrelays =>
    constructor
    · rw [hregistrations]
      exact h.row
    · rw [hregistrations, hrelays]
      exact h.relays
    · rw [hown]
      exact h.gone
  | @inserted _ c createdAt now used new hi =>
    obtain ⟨tombstone, htombstone, hid, -⟩ := hrevoked.tombstone
    have hne : id.value ≠ c.id.value := hid ▸ hi.fresh htombstone
    have hkept : ∀ r ∈ l'.wakeRegistrations, r.connectionId = id.value →
        r ∈ l.wakeRegistrations := by
      intro r hr hsame
      rcases hi.mem_registrations.mp hr with hold | rfl
      · exact hold
      · exact absurd (hsame.symm.trans hi.connectionId) hne
    constructor
    · intro r hr hsame
      exact h.row r (hkept r hr hsame) hsame
    · rintro ⟨r, hr, hsame⟩ relay howner
      rw [hi.mem_relays, howner, ← h.relays ⟨r, hkept r hr hsame, hsame⟩ relay howner]
      tauto
    · intro r hr hsame
      rcases hi.mem_connectionRelays hr with hold | hnew
      · exact h.gone r hold hsame
      · exact hne (hsame.symm.trans hnew)
  | @tombstoned _ other old new ht =>
    have hne : id.value ≠ other.value := by
      intro hsame
      exact (hrevoked.not_active ht.mem ht.active).1 (ht.connectionId.trans hsame.symm)
    have hkept : ∀ r ∈ l'.wakeRegistrations, r.connectionId = id.value →
        r ∈ l.wakeRegistrations := by
      intro r hr hsame
      rcases ht.mem_registrations.mp hr with ⟨hold, -⟩ | rfl
      · exact hold
      · exact absurd (hsame.symm.trans (ht.keeps.1.trans ht.connectionId)) hne
    constructor
    · intro r hr hsame
      exact h.row r (hkept r hr hsame) hsame
    · rintro ⟨r, hr, hsame⟩ relay howner
      rw [hcoherent.tombstonedRelays ht, howner,
        ← h.relays ⟨r, hkept r hr hsame, hsame⟩ relay howner]
      tauto
    · intro r hr
      rw [ht.relays, Table.mem_delete] at hr
      exact h.gone r hr.1
  | registration heffect hconnections hown => exact h.registration hnone heffect hown

/-- The row of a revoked connection leaves the outbox by an acknowledgement that carries the
values of the disable row. -/
theorem Unregistered.leaves (h : Unregistered l id revision relays)
    (hstep : LedgerStep x l call l') (hrow : ∃ r ∈ l.wakeRegistrations, r.connectionId = id.value)
    (hgone : ∀ r ∈ l'.wakeRegistrations, r.connectionId ≠ id.value) :
    ∃ change, call = ⟨.registration (.acknowledgeWakeRegistration change), .ok ()⟩ ∧
      change.connectionId = id ∧ change.connectionRevision = revision ∧ change.enabled = false := by
  obtain ⟨change, hcall, hid, r, hr, hmatch⟩ := hstep.rowLeaves hrow hgone
  obtain ⟨hsame, hat, henabled, -⟩ := matchesChange_eq_true.mp hmatch
  obtain ⟨hdisabled, hrevision⟩ := h.row r hr (hsame.trans (congrArg _ hid))
  exact ⟨change, hcall, hid, hat.symm.trans hrevision, henabled.symm.trans hdisabled⟩

/-- Revoked and unregistered, in an outbox in order. -/
theorem unregistered_run (hcoherent : OutboxCoherent l)
    (hrevoked : Revoked l id revision client wallet) (h : Unregistered l id revision relays)
    (hrun : LedgerRun x l history l') :
    OutboxCoherent l' ∧ Revoked l' id revision client wallet ∧ Unregistered l' id revision relays :=
  hrun.invariant
    (I := fun l => OutboxCoherent l ∧ Revoked l id revision client wallet ∧
      Unregistered l id revision relays) ⟨hcoherent, hrevoked, h⟩
    fun _ _ _ ⟨hcoherent, hrevoked, h⟩ hstep =>
      ⟨hcoherent.step hstep, hrevoked.step hstep, h.step hcoherent hrevoked hstep⟩

end Unregistered

/-- A worker loads the change. -/
def HandsOut (call : LedgerCall) (change : WakeRegistrationChange) : Prop :=
  ∃ now rows changes,
    call = ⟨.registration (.loadDueWakeRegistrations now rows), .ok changes⟩ ∧ change ∈ changes

/-- The relays next to the row of a connection, in order. -/
def Ledger.copiedRelays (x : Crates) (l : Ledger) (id : ConnectionId) :
    Except WakeRegistrationError (List SecureRelayUrl) :=
  ((l.wakeRegistrationRelays.select fun r => r.owner == id.value).insertionSort
    fun a b => a.position ≤ b.position).mapM fun r =>
      mapErr (SecureRelayUrl.parse x r.relayUrl) .corruptData

section Changes

variable {x : Crates} {l l' : Ledger} {call : LedgerCall} {change : WakeRegistrationChange}
  {id : ConnectionId} {history : LedgerHistory}

theorem hydrateChange_ok {row : WakeRegistrationRow} (h : l.hydrateChange x row = .ok change) :
    matchesChange change row = true ∧ l.copiedRelays x change.connectionId = .ok change.relays := by
  simp only [Ledger.hydrateChange, bind_eq_ok, mapErr_eq_ok, ensure_eq_ok, ConnectionId.parse_eq_ok,
    pure_eq_ok] at h
  obtain ⟨id, hid, _, -, _, -, -, -, relays, hrelays, -, -, rfl⟩ := h
  exact ⟨matchesChange_eq_true.mpr ⟨hid.symm, rfl, rfl, rfl, rfl⟩, hrelays⟩

/-- A change that is handed out carries the values of a row and the relays next to it. -/
theorem HandsOut.row (hstep : LedgerStep x l call l') (h : HandsOut call change) :
    (∃ row ∈ l.wakeRegistrations, matchesChange change row = true) ∧
      l.copiedRelays x change.connectionId = .ok change.relays := by
  obtain ⟨now, rows, changes, rfl, hmem⟩ := h
  obtain ⟨random, hrun⟩ := hstep.run_of_ok
  have hload : l.loadDueWakeRegistrations x now rows = .ok changes := (reading_eq_ok.mp hrun).1
  simp only [Ledger.loadDueWakeRegistrations, bind_eq_ok] at hload
  obtain ⟨-, -, _, -, hchanges⟩ := hload
  obtain ⟨row, hrow, hhydrate⟩ := mem_of_mapM hchanges change hmem
  obtain ⟨hmatch, hrelays⟩ := hydrateChange_ok hhydrate
  have hselected := List.mem_of_mem_take hrow
  rw [List.mem_insertionSort, Table.mem_select] at hselected
  exact ⟨⟨row, hselected.1, hmatch⟩, hrelays⟩

/-- A change carries the relay list of its connection if the rows next to its own are the
relay rows of the connection. -/
theorem copiedRelays_eq {relays copied : List SecureRelayUrl}
    (hrows : ∀ r : RelayRow String, r.owner = id.value →
      (r ∈ l'.wakeRegistrationRelays ↔ r ∈ l.connectionRelays))
    (hrelays : l.loadRelays x id = .ok relays) (hcopied : l'.copiedRelays x id = .ok copied) :
    copied = relays := by
  have hself : ∀ r : RelayRow String, (relaySchema String).conflict r r = true := by
    intro r
    simp [relaySchema]
  have hsame : ((l'.wakeRegistrationRelays.select fun r => r.owner == id.value).insertionSort
      fun a b => a.position ≤ b.position) =
        (l.connectionRelays.select fun r => r.owner == id.value).insertionSort
          fun a b => a.position ≤ b.position := by
    apply Table.select_ordered_congr hself
    · exact fun r howner => hrows r (by simpa using howner)
    · intro a b ha hb hposition
      rw [beq_iff_eq] at ha hb
      simp [relaySchema, ha, hb, hposition]
  rw [Ledger.copiedRelays, hsame] at hcopied
  apply mapM_agree _ hcopied hrelays
  intro r a b ha hb
  rw [mapErr_eq_ok] at ha hb
  rw [hb] at ha
  exact (Except.ok.inj ha).symm

/-- No step lowers the revision of a connection or removes it. -/
theorem LedgerStep.keepsConnection {c : ConnectionRow} (h : LedgerStep x l call l')
    (hmem : c ∈ l.connections) :
    ∃ c' ∈ l'.connections, c'.connectionId = c.connectionId ∧ c.revision ≤ c'.revision := by
  rcases h.connections with ⟨hsame, -⟩ | ⟨new, createdAt, used, now, row, hinserted⟩ |
    ⟨other, old, new, htombstoned⟩
  · exact ⟨c, hsame ▸ hmem, rfl, Nat.le_refl _⟩
  · exact ⟨c, (Table.mem_insert hinserted.connections).mpr (Or.inl hmem), rfl, Nat.le_refl _⟩
  · by_cases hsame : c.connectionId = other.value
    · have hold : c = old := Table.eq_of_key (connection_id_key other.value) hmem htombstoned.mem
        (by simpa using hsame) (by simpa using htombstoned.connectionId)
      refine ⟨new, (Table.mem_replace htombstoned.connections).mpr
        (Or.inr ⟨rfl, c, hmem, by simpa using hsame⟩), ?_, ?_⟩
      · rw [htombstoned.keeps.1, hold]
      · rw [htombstoned.revision, hold]
        omega
    · exact ⟨c, (Table.mem_replace htombstoned.connections).mpr
        (Or.inl ⟨hmem, by simpa using hsame⟩), rfl, Nat.le_refl _⟩

theorem connection_kept_run {c : ConnectionRow} (hrun : LedgerRun x l history l')
    (hmem : c ∈ l.connections) :
    ∃ c' ∈ l'.connections, c'.connectionId = c.connectionId ∧ c.revision ≤ c'.revision := by
  refine hrun.invariant (I := fun m => ∃ c' ∈ m.connections,
    c'.connectionId = c.connectionId ∧ c.revision ≤ c'.revision)
    ⟨c, hmem, rfl, Nat.le_refl _⟩ fun a call b ⟨found, hfound, hid, hle⟩ hstep => ?_
  obtain ⟨next, hnext, hsame, hrises⟩ := hstep.keepsConnection hfound
  exact ⟨next, hnext, hsame.trans hid, Nat.le_trans hle hrises⟩

/-- A connection's revision is never below that of a change handed out for it. -/
theorem HandsOut.revision_le {c : ConnectionRow} (hcoherent : OutboxCoherent l)
    (hstep : LedgerStep x l call l') (h : HandsOut call change)
    {m : Ledger} (hrun : LedgerRun x l' history m) (hmem : c ∈ m.connections)
    (hid : c.connectionId = change.connectionId.value) :
    change.connectionRevision ≤ c.revision := by
  obtain ⟨⟨row, hrow, hmatch⟩, -⟩ := h.row hstep
  obtain ⟨hrowId, hrevision, -⟩ := matchesChange_eq_true.mp hmatch
  obtain ⟨first, hfirst, hfirstId, hat⟩ := hcoherent.revision row hrow
  obtain ⟨middle, hmiddle, hmiddleId, hrises⟩ := hstep.keepsConnection hfirst
  obtain ⟨last, hlast, hlastId, hrisesOn⟩ := connection_kept_run hrun hmiddle
  have hsame : c = last := by
    apply Table.eq_of_key (connection_id_key change.connectionId.value) hmem hlast
    · simpa using hid
    · simpa [hlastId, hmiddleId, hfirstId] using hrowId
  rw [hsame, ← hrevision, ← hat]
  exact Nat.le_trans hrises hrisesOn

end Changes

/-- A revoked connection stays unregistered. From its tombstone on, whatever row the outbox
has for it is a disable row at the tombstone's revision, next to all relays the connection
had, though none of its own relay rows is left. The row is there after the tombstone, and
leaves the outbox by an acknowledgement of a disable change at that revision only. Every
change handed out before the tombstone has an older revision; every one after it is such a
disable change and carries the connection's relay list. -/
theorem revoked_connection_stays_unregistered {x : Crates} {later earlier : LedgerHistory}
    {event : Event Ledger LedgerCall} {l : Ledger} {id : ConnectionId}
    {revision : ConnectionRevision} {now : UnixTimestamp} {tombstone : ConnectionTombstone}
    (hrun : LedgerRun x .empty (later ++ event :: earlier) l)
    (hevent : event.label = ⟨.registry (.tombstoneConnection id revision now), .ok tombstone⟩) :
    (∀ row ∈ l.wakeRegistrations, row.connectionId = id.value →
      row.desiredEnabled = false ∧ row.connectionRevision = tombstone.revision ∧
        ∀ relay : RelayRow String, relay.owner = id.value →
          (relay ∈ l.wakeRegistrationRelays ↔ relay ∈ event.before.connectionRelays)) ∧
    (∀ relay ∈ l.connectionRelays, relay.owner ≠ id.value) ∧
    (∃ row ∈ event.after.wakeRegistrations, row.connectionId = id.value) ∧
    (∀ step ∈ later, (∃ row ∈ step.before.wakeRegistrations, row.connectionId = id.value) →
      (∀ row ∈ step.after.wakeRegistrations, row.connectionId ≠ id.value) →
        ∃ change, step.label = ⟨.registration (.acknowledgeWakeRegistration change), .ok ()⟩ ∧
          change.connectionId = id ∧ change.connectionRevision = tombstone.revision ∧
          change.enabled = false) ∧
    (∀ step ∈ earlier, ∀ change, HandsOut step.label change → change.connectionId = id →
      change.connectionRevision < tombstone.revision) ∧
    (∀ step ∈ later, ∀ change, HandsOut step.label change → change.connectionId = id →
      change.enabled = false ∧ change.connectionRevision = tombstone.revision ∧
        ∀ relays, event.before.loadRelays x id = .ok relays → change.relays = relays) := by
  obtain ⟨hearlier, hstep, hlater⟩ := hrun.split
  rw [hevent] at hstep
  obtain ⟨random, hop⟩ := hstep.run_of_ok
  obtain ⟨row, row', ht, -, hrevision, -⟩ := tombstoneConnection_ok hop
  have hbefore := outbox_coherent_run hearlier
  rw [← hrevision, ht.revision]
  have hsince : ∀ {history m}, LedgerRun x event.after history m →
      OutboxCoherent m ∧ Revoked m id (row.revision + 1) row.clientPubkey row.walletServicePubkey ∧
        Unregistered m id (row.revision + 1) event.before.connectionRelays :=
    unregistered_run (hbefore.tombstoned ht) ht.revoked (ht.unregistered hbefore)
  obtain ⟨-, -, hend⟩ := hsince hlater
  refine ⟨?_, hend.gone, ?_, ?_, ?_, ?_⟩
  · intro found hfound hid
    obtain ⟨hdisabled, hat⟩ := hend.row found hfound hid
    exact ⟨hdisabled, hat, hend.relays ⟨found, hfound, hid⟩⟩
  · exact ⟨_, ht.mem_registrations.mpr (Or.inr rfl), ht.keeps.1.trans ht.connectionId⟩
  · intro step hmem hrow hgone
    obtain ⟨newer, older, rfl⟩ := List.append_of_mem hmem
    obtain ⟨hpast, hnext, -⟩ := hlater.split
    obtain ⟨-, -, hunregistered⟩ := hsince hpast
    exact hunregistered.leaves hnext hrow hgone
  · intro step hmem change hhands hid
    obtain ⟨newer, older, rfl⟩ := List.append_of_mem hmem
    obtain ⟨hpast, hnext, hrest⟩ := hearlier.split
    have hle := hhands.revision_le (outbox_coherent_run hpast) hnext hrest ht.mem
      (ht.connectionId.trans (congrArg _ hid.symm))
    exact Nat.lt_succ_of_le hle
  · intro step hmem change hhands hid
    obtain ⟨newer, older, rfl⟩ := List.append_of_mem hmem
    obtain ⟨hpast, hnext, -⟩ := hlater.split
    obtain ⟨-, -, hunregistered⟩ := hsince hpast
    obtain ⟨⟨found, hfound, hmatch⟩, hcopied⟩ := hhands.row hnext
    obtain ⟨hfoundId, hat, henabled, -⟩ := matchesChange_eq_true.mp hmatch
    rw [hid] at hfoundId hcopied
    obtain ⟨hdisabled, hrow⟩ := hunregistered.row found hfound hfoundId
    refine ⟨henabled.symm.trans hdisabled, hat.symm.trans hrow, fun relays hrelays => ?_⟩
    exact copiedRelays_eq (hunregistered.relays ⟨found, hfound, hfoundId⟩) hrelays hcopied

namespace Sample

def registration (op : RegistrationOp) : LedgerOp × Entropy := (.registration op, noEntropy)

/-- The change of the new connection, as a worker loads it. -/
def enableChange : WakeRegistrationChange where
  connectionId := connectionId
  connectionRevision := 0
  enabled := true
  clientPubkey := clientPubkey
  walletServicePubkey := walletServicePubkey
  relays := [relay]
  attemptCount := 0
  availableAt := 1000
  updatedAt := 1000

/-- A connection is registered and revoked; then its enabling change is acknowledged once
more and every active connection is registered anew. -/
def unregistered : LedgerHistory × Ledger :=
  performAll crates .empty
    [registration (.requeueActiveWakeRegistrationsWithState true 1030),
     registration (.acknowledgeWakeRegistration enableChange),
     registry (.tombstoneConnection connectionId 0 1020),
     registration (.acknowledgeWakeRegistration enableChange),
     registry (.insertConnection connection 1000)]

theorem unregistered_run : LedgerRun crates .empty unregistered.1 unregistered.2 :=
  performAll_run _ _ _

end Sample

theorem revoked_connection_stays_unregistered_refreshed :
    Sample.unregistered.2.wakeRegistrations.rows.length = 1 ∧
      ∀ row ∈ Sample.unregistered.2.wakeRegistrations,
        row.connectionId = Sample.connectionId.value →
          row.desiredEnabled = false ∧ row.connectionRevision = 1 := by
  have hall := @revoked_connection_stays_unregistered Sample.crates [_, _] _ _ _ _ _ _ _
    Sample.unregistered_run rfl
  refine ⟨rfl, fun row hrow hid => ?_⟩
  obtain ⟨hdisabled, hrevision, -⟩ := hall.1 row hrow hid
  exact ⟨hdisabled, hrevision⟩

end NwcMobile
