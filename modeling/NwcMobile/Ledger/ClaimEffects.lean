import NwcMobile.Ledger.Operations

/-!
What a claim operation can do to the event table. Every owner operation replaces
one row, the one its lease owns at its own clock; a claim inserts a row or takes
over one that is neither terminal nor delayed; pruning deletes terminal rows.
-/

namespace NwcMobile

open Fallible Relational Claims

/-- The condition selecting the row of one event. -/
def hasEvent (eventId : EventId) (r : WakeEventRow) : Bool := r.eventId == eventId

theorem hasEvent_key (eventId : EventId) : wakeEventSchema.Key (hasEvent eventId) :=
  wakeEvent_key eventId

@[simp] theorem hasEvent_eq_true {eventId : EventId} {r : WakeEventRow} :
    hasEvent eventId r = true ↔ r.eventId = eventId := by
  simp [hasEvent]

theorem owned_eq_true {lease : EventLease} {now : Nat} {r : WakeEventRow} :
    owned lease now r = true ↔ r.eventId = lease.eventId ∧ r.state = .claimed ∧
      r.claimToken = some lease.token ∧ ∃ a, r.availableAt = some a ∧ now < a := by
  cases h : r.availableAt <;> simp [owned, h, and_assoc]

/-- The lease and clock an owner operation acts with. -/
def ClaimOp.owner : ClaimOp → Option (EventLease × UnixTimestamp)
  | .acceptEventFreshness lease now => some (lease, now)
  | .renewLease lease now _ => some (lease, now)
  | .retryLater lease now _ => some (lease, now)
  | .completeEvent lease _ _ now => some (lease, now)
  | .completeEventForActiveConnection lease _ _ _ now => some (lease, now)
  | .completeNwcEventForActiveConnection lease _ _ _ _ now => some (lease, now)
  | .claimEvent .. | .lastCompletedEventAt _ | .pruneTerminal .. => none

/-- What a successful owner operation writes over the row it owns. -/
def ClaimOp.rewrite (op : ClaimOp) (r : WakeEventRow) : WakeEventRow :=
  match op with
  | .acceptEventFreshness _ now => { r with freshnessAccepted := true, updatedAt := now }
  | .renewLease _ now duration =>
    { r with availableAt := some (now + duration.asSecs), updatedAt := now }
  | .retryLater _ now delay =>
    { r with state := .retryable, claimToken := none
             availableAt := some (now + delay.asSecs), updatedAt := now }
  | .completeEvent _ kind json now =>
    { r with state := .terminal, claimToken := none, availableAt := none, updatedAt := now
             terminalKind := some kind, responseEventJson := json, requestMethod := none }
  | .completeEventForActiveConnection _ _ _ json now =>
    { r with state := .terminal, claimToken := none, availableAt := none, updatedAt := now
             terminalKind := some .completed, responseEventJson := some json
             requestMethod := none }
  | .completeNwcEventForActiveConnection _ _ _ json method now =>
    { r with state := .terminal, claimToken := none, availableAt := none, updatedAt := now
             terminalKind := some .completed, responseEventJson := some json
             requestMethod := some method.asStr }
  | .claimEvent .. | .lastCompletedEventAt _ | .pruneTerminal .. => r

/-- The row a lease owns at `now` is replaced by `row'` and nothing else changes. -/
structure OwnerWrite (l l' : Ledger) (lease : EventLease) (now : Nat)
    (row row' : WakeEventRow) : Prop where
  mem : row ∈ l.wakeEvents
  owned : owned lease now row = true
  events : l.wakeEvents.update (hasEvent lease.eventId) (fun _ => row') = some l'.wakeEvents
  frame : l' = { l with wakeEvents := l'.wakeEvents }

section Operations

variable {l l' : Ledger} {lease : EventLease} {now : Nat} {random : Entropy}

theorem expiry_ok {duration : Duration} {expires : Nat} (h : expiry now duration = .ok expires) :
    0 < duration.asSecs ∧ expires = now + duration.asSecs := by
  simp only [expiry, bind_eq_ok, ensure_eq_ok, okOr_eq_ok, i64TryFrom_eq_ok,
    checkedAddI64_eq_some] at h
  obtain ⟨-, hnonzero, _, ⟨-, rfl⟩, -, rfl⟩ := h
  simp only [Bool.not_or, Bool.and_eq_true, Bool.not_eq_true', beq_eq_false_iff_ne] at hnonzero
  exact ⟨Nat.pos_of_ne_zero hnonzero.2, rfl⟩

/-- A guarded update that implies ownership is an owner write. -/
theorem ownerWrite_of_update {guard : WakeEventRow → Bool} {f : WakeEventRow → WakeEventRow}
    {table : Table wakeEventSchema} (hguard : ∀ r, guard r = true → owned lease now r = true)
    (hcount : l.wakeEvents.count guard = 1) (hupdate : l.wakeEvents.update guard f = some table) :
    ∃ row, guard row = true ∧
      OwnerWrite l { l with wakeEvents := table } lease now row (f row) := by
  obtain ⟨row, hmem, hrow⟩ := Table.count_pos (t := l.wakeEvents) (p := guard) (by omega)
  have howned := hguard row hrow
  rw [Table.update_eq_replace (hasEvent_key lease.eventId) hmem
    (by simpa using (owned_eq_true.mp howned).1)
    (fun r hr => by simpa using (owned_eq_true.mp (hguard r hr)).1) hrow] at hupdate
  exact ⟨row, hrow, hmem, howned, hupdate, rfl⟩

theorem updateOwned_ok {f : WakeEventRow → WakeEventRow} {done : Unit}
    (h : l.updateOwned (owned lease now) f = .ok (done, l')) :
    ∃ row, OwnerWrite l l' lease now row (f row) := by
  simp only [Ledger.updateOwned, bind_eq_ok, okOr_eq_ok, ensure_eq_ok, pure_eq_ok] at h
  obtain ⟨table, hupdate, -, hcount, heq⟩ := h
  obtain ⟨-, rfl⟩ := Prod.mk.inj heq
  obtain ⟨row, -, hwrite⟩ := ownerWrite_of_update (fun _ hr => hr) (by simpa using hcount) hupdate
  exact ⟨row, hwrite⟩

/-- A guarded completion also proves that the connection is active and that the
claim was made under this exact connection revision. -/
theorem completeForActive_ok {c : ConnectionId} {revision : ConnectionRevision} {json : String}
    {method : Option NwcMethod} {done : Unit}
    (h : l.completeEventForActiveConnectionInner lease c revision json method now =
      .ok (done, l')) :
    l.connections.any (Ledger.activeAt c revision) = true ∧
      ∃ row, row.connectionId = c.value ∧ row.connectionRevision = revision ∧
        OwnerWrite l l' lease now row
          { row with state := .terminal, claimToken := none, availableAt := none, updatedAt := now
                     terminalKind := some .completed, responseEventJson := some json
                     requestMethod := method.map NwcMethod.asStr } := by
  simp only [Ledger.completeEventForActiveConnectionInner, bind_eq_ok, ensure_eq_ok, okOr_eq_ok,
    sqliteTimestamp, sqliteRevision, i64TryFrom_eq_ok] at h
  obtain ⟨-, -, _, ⟨-, rfl⟩, _, ⟨-, rfl⟩, table, hupdate, h⟩ := h
  split at h
  · rename_i hcount
    obtain ⟨-, rfl⟩ := Prod.mk.inj (pure_eq_ok.mp h)
    obtain ⟨row, hguard, hwrite⟩ := ownerWrite_of_update
      (fun r hr => (by simp_all : owned lease now r = true)) hcount hupdate
    simp only [Bool.and_eq_true, beq_iff_eq] at hguard
    exact ⟨hguard.2, row, hguard.1.1.2, hguard.1.2, hwrite⟩
  · split at h <;> cases h

/-- Every successful owner operation rewrites the row its lease owns. -/
theorem ownerOp_ok {op : ClaimOp} {value : op.Value} (howner : op.owner = some (lease, now))
    (h : op.run random l = .ok (value, l')) :
    ∃ row, OwnerWrite l l' lease now row (op.rewrite row) := by
  cases op with
  | claimEvent e c revision time duration => cases howner
  | lastCompletedEventAt c => cases howner
  | pruneTerminal before rows => cases howner
  | acceptEventFreshness lease' now' =>
    obtain ⟨rfl, rfl⟩ := Prod.mk.inj (Option.some.inj howner)
    simp only [ClaimOp.run, Ledger.acceptEventFreshness, bind_eq_ok, sqliteTimestamp,
      i64TryFrom_eq_ok] at h
    obtain ⟨_, ⟨-, rfl⟩, h⟩ := h
    exact updateOwned_ok h
  | renewLease lease' now' duration =>
    obtain ⟨rfl, rfl⟩ := Prod.mk.inj (Option.some.inj howner)
    simp only [ClaimOp.run, Ledger.renewLease, bind_eq_ok, sqliteTimestamp,
      i64TryFrom_eq_ok] at h
    obtain ⟨_, ⟨-, rfl⟩, expires, hexpires, h⟩ := h
    obtain ⟨-, rfl⟩ := expiry_ok hexpires
    exact updateOwned_ok h
  | retryLater lease' now' delay =>
    obtain ⟨rfl, rfl⟩ := Prod.mk.inj (Option.some.inj howner)
    simp only [ClaimOp.run, Ledger.retryLater, bind_eq_ok, sqliteTimestamp,
      i64TryFrom_eq_ok] at h
    obtain ⟨_, ⟨-, rfl⟩, expires, hexpires, h⟩ := h
    obtain ⟨-, rfl⟩ := expiry_ok hexpires
    exact updateOwned_ok h
  | completeEvent lease' kind json now' =>
    obtain ⟨rfl, rfl⟩ := Prod.mk.inj (Option.some.inj howner)
    simp only [ClaimOp.run, Ledger.completeEvent, bind_eq_ok, sqliteTimestamp,
      i64TryFrom_eq_ok] at h
    obtain ⟨_, -, _, ⟨-, rfl⟩, h⟩ := h
    exact updateOwned_ok h
  | completeEventForActiveConnection lease' c revision json now' =>
    obtain ⟨rfl, rfl⟩ := Prod.mk.inj (Option.some.inj howner)
    obtain ⟨-, row, -, -, hwrite⟩ := completeForActive_ok h
    exact ⟨row, hwrite⟩
  | completeNwcEventForActiveConnection lease' c revision json method now' =>
    obtain ⟨rfl, rfl⟩ := Prod.mk.inj (Option.some.inj howner)
    obtain ⟨-, row, -, -, hwrite⟩ := completeForActive_ok h
    exact ⟨row, hwrite⟩

/-- The connection a completion names is the one of the claim. -/
def ClaimOp.MadeFor (op : ClaimOp) (c : String) (revision : ConnectionRevision) : Prop :=
  match op with
  | .completeEventForActiveConnection _ c' revision' _ _ => c'.value = c ∧ revision' = revision
  | .completeNwcEventForActiveConnection _ c' revision' _ _ _ => c'.value = c ∧ revision' = revision
  | _ => True

theorem owned_count {row : WakeEventRow} (hmem : row ∈ l.wakeEvents)
    (howned : owned lease now row = true) : l.wakeEvents.count (owned lease now) = 1 := by
  apply Table.count_eq_one _ hmem howned
  apply (hasEvent_key lease.eventId).mono
  intro r hr
  simpa using (owned_eq_true.mp hr).1

theorem updateOwned_not_lost {row : WakeEventRow} {f : WakeEventRow → WakeEventRow}
    (hmem : row ∈ l.wakeEvents) (howned : owned lease now row = true) :
    l.updateOwned (owned lease now) f ≠ .error .lostLease := by
  apply bind_ne_error
  · simp
  · intro table _
    rw [owned_count hmem howned]
    simp [ensure]

theorem completeForActive_not_lost {c : ConnectionId} {revision : ConnectionRevision}
    {json : String} {method : Option NwcMethod} {row : WakeEventRow} (hmem : row ∈ l.wakeEvents)
    (howned : owned lease now row = true) (hconnection : c.value = row.connectionId)
    (hrevision : revision = row.connectionRevision) :
    l.completeEventForActiveConnectionInner lease c revision json method now ≠
      .error .lostLease := by
  apply bind_ne_error
  · simp
  · intro _ _
    apply bind_ne_error
    · simp [sqliteTimestamp]
    · intro _ htime
      obtain ⟨-, rfl⟩ := i64TryFrom_eq_ok.mp htime
      apply bind_ne_error
      · simp [sqliteRevision]
      · intro _ hsql
        obtain ⟨-, rfl⟩ := i64TryFrom_eq_ok.mp hsql
        apply bind_ne_error
        · simp
        · intro table _
          split
          · nofun
          · split
            · nofun
            · rename_i hnone
              simp only [Option.isSome_iff_ne_none, ne_eq, not_not] at hnone
              have hfails := Table.selectRow_eq_none.mp hnone row hmem
              simp [howned, hconnection, hrevision] at hfails

theorem expiry_not_lost {duration : Duration} : expiry now duration ≠ .error .lostLease := by
  apply bind_ne_error
  · simp
  · intro _ _
    apply bind_ne_error
    · simp
    · intro _ _
      simp

/-- The owner of a row that has not expired is never told that it lost its lease. -/
theorem ownerOp_not_lost {op : ClaimOp} {row : WakeEventRow} (howner : op.owner = some (lease, now))
    (hmem : row ∈ l.wakeEvents) (howned : owned lease now row = true)
    (hmade : op.MadeFor row.connectionId row.connectionRevision) :
    op.run random l ≠ .error .lostLease := by
  have htimed : ∀ {next : Nat → Except LedgerError (Unit × Ledger)},
      next now ≠ .error .lostLease → (sqliteTimestamp now >>= next) ≠ .error .lostLease := by
    intro next hnext
    apply bind_ne_error
    · simp [sqliteTimestamp]
    · intro _ htime
      obtain ⟨-, rfl⟩ := i64TryFrom_eq_ok.mp htime
      exact hnext
  cases op with
  | claimEvent e c revision time duration => cases howner
  | lastCompletedEventAt c => cases howner
  | pruneTerminal before rows => cases howner
  | acceptEventFreshness lease' now' =>
    obtain ⟨rfl, rfl⟩ := Prod.mk.inj (Option.some.inj howner)
    apply htimed
    exact updateOwned_not_lost hmem howned
  | renewLease lease' now' duration =>
    obtain ⟨rfl, rfl⟩ := Prod.mk.inj (Option.some.inj howner)
    apply htimed
    apply bind_ne_error expiry_not_lost
    intro _ _
    exact updateOwned_not_lost hmem howned
  | retryLater lease' now' delay =>
    obtain ⟨rfl, rfl⟩ := Prod.mk.inj (Option.some.inj howner)
    apply htimed
    apply bind_ne_error expiry_not_lost
    intro _ _
    exact updateOwned_not_lost hmem howned
  | completeEvent lease' kind json now' =>
    obtain ⟨rfl, rfl⟩ := Prod.mk.inj (Option.some.inj howner)
    apply bind_ne_error
    · simp
    · intro _ _
      apply htimed
      exact updateOwned_not_lost hmem howned
  | completeEventForActiveConnection lease' c revision json now' =>
    obtain ⟨rfl, rfl⟩ := Prod.mk.inj (Option.some.inj howner)
    exact completeForActive_not_lost hmem howned hmade.1 hmade.2
  | completeNwcEventForActiveConnection lease' c revision json method now' =>
    obtain ⟨rfl, rfl⟩ := Prod.mk.inj (Option.some.inj howner)
    exact completeForActive_not_lost hmem howned hmade.1 hmade.2

/-- A row that is claimed or retryable either delays the claim or is taken over. -/
theorem resumeEvent_ok {token : Option ClaimToken} {e : EventId} {row : WakeEventRow}
    {expires : Nat} {outcome : ClaimOutcome} (hmem : row ∈ l.wakeEvents) (hevent : row.eventId = e)
    (hlive : row.state = .claimed ∨ row.state = .retryable)
    (h : l.resumeEvent token e row now expires = .ok (outcome, l')) :
    (∃ a, row.availableAt = some a ∧ now < a ∧ outcome = .inProgress (.fromSecs (a - now)) ∧
        l' = l) ∨
      ∃ a t, row.availableAt = some a ∧ a ≤ now ∧ token = some t ∧
        outcome = .acquired ⟨e, t, true, row.freshnessAccepted⟩ ∧
        l.wakeEvents.update (hasEvent e) (fun _ =>
          { row with state := .claimed, claimToken := some t
                     availableAt := some expires, updatedAt := now }) = some l'.wakeEvents ∧
        l' = { l with wakeEvents := l'.wakeEvents } := by
  simp only [Ledger.resumeEvent, bind_eq_ok, okOr_eq_ok] at h
  obtain ⟨a, havailable, h⟩ := h
  split at h
  · rename_i hdelayed
    obtain ⟨rfl, rfl⟩ := Prod.mk.inj (pure_eq_ok.mp h)
    exact Or.inl ⟨a, havailable, hdelayed, rfl, rfl⟩
  · rename_i hdelayed
    simp only [bind_eq_ok, okOr_eq_ok, ensure_eq_ok, pure_eq_ok] at h
    obtain ⟨t, rfl, table, hupdate, -, -, heq⟩ := h
    obtain ⟨rfl, rfl⟩ := Prod.mk.inj heq
    have hclaimable : claimable e now row = true := by
      simp only [claimable, hevent, havailable, beq_self_eq_true, Bool.true_and, Option.any_some,
        Bool.and_eq_true, Bool.or_eq_true, beq_iff_eq, decide_eq_true_eq]
      exact ⟨hlive, by omega⟩
    rw [Table.update_eq_replace (hasEvent_key e) hmem (by simpa using hevent)
      (fun r hr => by simp_all [claimable]) hclaimable] at hupdate
    exact Or.inr ⟨a, t, havailable, by omega, rfl, rfl, hupdate, rfl⟩

/-- What a successful claim call found or wrote. -/
theorem claimEvent_ok {token : Option ClaimToken} {e : EventId} {c : ConnectionId}
    {revision : ConnectionRevision} {duration : Duration} {outcome : ClaimOutcome}
    (h : l.claimEvent token e c revision now duration = .ok (outcome, l')) :
    (∃ t, token = some t ∧ outcome = .acquired ⟨e, t, false, false⟩ ∧
        (∀ r ∈ l.wakeEvents, r.eventId ≠ e) ∧
        l.wakeEvents.insert ⟨e, c.value, revision, .claimed, some t, some (now + duration.asSecs),
          now, none, none, none, false⟩ = some l'.wakeEvents ∧
        l' = { l with wakeEvents := l'.wakeEvents }) ∨
      ∃ row ∈ l.wakeEvents, row.eventId = e ∧ row.connectionId = c.value ∧
        row.connectionRevision = revision ∧
        ((∃ event, row.state = .terminal ∧ terminalFromRow e row = .ok event ∧
            outcome = .terminal event ∧ l' = l) ∨
          (∃ a, row.state ≠ .terminal ∧ row.availableAt = some a ∧ now < a ∧
            outcome = .inProgress (.fromSecs (a - now)) ∧ l' = l) ∨
          ∃ a t, row.state ≠ .terminal ∧ row.availableAt = some a ∧ a ≤ now ∧ token = some t ∧
            outcome = .acquired ⟨e, t, true, row.freshnessAccepted⟩ ∧
            l.wakeEvents.update (hasEvent e) (fun _ =>
              { row with state := .claimed, claimToken := some t
                         availableAt := some (now + duration.asSecs), updatedAt := now }) =
              some l'.wakeEvents ∧
            l' = { l with wakeEvents := l'.wakeEvents }) := by
  simp only [Ledger.claimEvent, bind_eq_ok, sqliteTimestamp, sqliteRevision,
    i64TryFrom_eq_ok] at h
  obtain ⟨_, ⟨-, rfl⟩, _, ⟨-, rfl⟩, expires, hexpires, h⟩ := h
  obtain ⟨-, rfl⟩ := expiry_ok hexpires
  split at h
  · rename_i hnone
    simp only [bind_eq_ok, okOr_eq_ok, pure_eq_ok] at h
    obtain ⟨t, rfl, table, hinsert, heq⟩ := h
    obtain ⟨rfl, rfl⟩ := Prod.mk.inj heq
    have hfresh : ∀ r ∈ l.wakeEvents, r.eventId ≠ e := by
      intro r hr
      simpa using Table.selectRow_eq_none.mp hnone r hr
    exact Or.inl ⟨t, rfl, rfl, hfresh, hinsert, rfl⟩
  · rename_i row hsome
    obtain ⟨hmem, hevent⟩ := Table.selectRow_mem hsome
    have heventId : row.eventId = e := by simpa using hevent
    simp only [bind_eq_ok, ensure_eq_ok] at h
    obtain ⟨-, hmetadata, h⟩ := h
    have hrow : row.connectionId = c.value ∧ row.connectionRevision = revision := by
      simpa using hmetadata
    refine Or.inr ⟨row, hmem, heventId, hrow.1, hrow.2, ?_⟩
    have hresume : row.state ≠ .terminal →
        l.resumeEvent token e row now (now + duration.asSecs) = .ok (outcome, l') →
        _ ∨ _ := fun hlive => resumeEvent_ok hmem heventId (by cases hs : row.state <;> simp_all)
    cases hs : row.state with
    | terminal =>
      simp only [hs, bind_eq_ok, pure_eq_ok] at h
      obtain ⟨event, hterminalRow, heq⟩ := h
      obtain ⟨rfl, rfl⟩ := Prod.mk.inj heq
      exact Or.inl ⟨event, rfl, hterminalRow, rfl, rfl⟩
    | claimed =>
      simp only [hs] at h
      obtain ⟨a, hwait⟩ | ⟨a, t, htake⟩ := hresume (by simp [hs]) h
      · exact Or.inr (Or.inl ⟨a, by simp, hwait⟩)
      · exact Or.inr (Or.inr ⟨a, t, by simp, htake⟩)
    | retryable =>
      simp only [hs] at h
      obtain ⟨a, hwait⟩ | ⟨a, t, htake⟩ := hresume (by simp [hs]) h
      · exact Or.inr (Or.inl ⟨a, by simp, hwait⟩)
      · exact Or.inr (Or.inr ⟨a, t, by simp, htake⟩)

theorem claimEvent_frame {token : Option ClaimToken} {e : EventId} {c : ConnectionId}
    {revision : ConnectionRevision} {duration : Duration} {outcome : ClaimOutcome}
    (h : l.claimEvent token e c revision now duration = .ok (outcome, l')) :
    l' = { l with wakeEvents := l'.wakeEvents } := by
  obtain ⟨_, -, -, -, -, hframe⟩ | ⟨row, -, -, -, -, ⟨_, -, -, -, rfl⟩ | ⟨_, -, -, -, -, rfl⟩ |
    ⟨_, _, -, -, -, -, -, -, hframe⟩⟩ := claimEvent_ok h
  · exact hframe
  · rfl
  · rfl
  · exact hframe

/-- Pruning deletes terminal rows only. -/
theorem pruneTerminal_ok {before : UnixTimestamp} {rows n : Nat}
    (h : l.pruneTerminal before rows = .ok (n, l')) :
    l' = { l with wakeEvents := l'.wakeEvents } ∧
      ∃ p, l'.wakeEvents = l.wakeEvents.delete p ∧
        ∀ r ∈ l.wakeEvents, p r = true → r.state = .terminal ∧ r.updatedAt < before := by
  simp only [Ledger.pruneTerminal, bind_eq_ok, ensure_eq_ok, sqliteTimestamp, i64TryFrom_eq_ok,
    pure_eq_ok] at h
  obtain ⟨-, -, _, ⟨-, rfl⟩, heq⟩ := h
  obtain ⟨-, rfl⟩ := Prod.mk.inj heq
  refine ⟨rfl, _, rfl, ?_⟩
  intro r hr hpruned
  simp only [List.contains_eq_mem, List.mem_map, decide_eq_true_eq] at hpruned
  obtain ⟨s, hs, hsame⟩ := hpruned
  have hselected := List.mem_of_mem_take hs
  rw [List.mem_insertionSort, Table.mem_select] at hselected
  obtain ⟨hmem, hguard⟩ := hselected
  have heq : s = r := Table.eq_of_key (hasEvent_key r.eventId) hmem hr (by simpa using hsame) (by simp)
  rw [← heq]
  simpa using hguard

/-- Claim operations write the event table only. -/
theorem claimOp_frame {op : ClaimOp} {value : op.Value} (h : op.run random l = .ok (value, l')) :
    l' = { l with wakeEvents := l'.wakeEvents } := by
  cases howner : op.owner with
  | some owner =>
    obtain ⟨row, hwrite⟩ := ownerOp_ok howner h
    exact hwrite.frame
  | none =>
    cases op with
    | claimEvent e c revision now duration => exact claimEvent_frame h
    | lastCompletedEventAt c => exact (reading_eq_ok.mp h).2 ▸ rfl
    | pruneTerminal before rows => exact (pruneTerminal_ok h).1
    | acceptEventFreshness lease now => cases howner
    | renewLease lease now duration => cases howner
    | retryLater lease now delay => cases howner
    | completeEvent lease kind json now => cases howner
    | completeEventForActiveConnection lease c revision json now => cases howner
    | completeNwcEventForActiveConnection lease c revision json method now => cases howner

end Operations

/-- The notification worker writes the notification tables only. -/
theorem notificationOp_frame {x : Crates} {l l' : Ledger} {op : NotificationOp} {value : op.Value}
    (h : op.run x l = .ok (value, l')) :
    l' = { l with
      createdInvoices := l'.createdInvoices
      invoiceNotificationRelays := l'.invoiceNotificationRelays
      sentPayments := l'.sentPayments
      sentPaymentRelays := l'.sentPaymentRelays } := by
  cases op with
  | storeNwcSentNotificationEvent e json =>
    simp only [NotificationOp.run, Ledger.storeNwcSentNotificationEvent, bind_eq_ok, pure_eq_ok] at h
    obtain ⟨-, -, _, -, _, -, _, -, heq⟩ := h
    obtain ⟨-, rfl⟩ := Prod.mk.inj heq
    rfl
  | acknowledgeNwcSentRelay e relay deliveredAt =>
    simp only [NotificationOp.run, Ledger.acknowledgeNwcSentRelay, bind_eq_ok, pure_eq_ok] at h
    obtain ⟨_, -, heq⟩ := h
    obtain ⟨-, rfl⟩ := Prod.mk.inj heq
    rfl
  | completeNwcSentNotification e completedAt =>
    simp only [NotificationOp.run, Ledger.completeNwcSentNotification, bind_eq_ok, pure_eq_ok] at h
    obtain ⟨_, -, _, -, heq⟩ := h
    obtain ⟨-, rfl⟩ := Prod.mk.inj heq
    rfl
  | discardNwcSentPayment e =>
    obtain ⟨-, rfl⟩ := Prod.mk.inj (Except.ok.inj h)
    rfl
  | touchNwcInvoice e checkedAt =>
    simp only [NotificationOp.run, Ledger.touchNwcInvoice, bind_eq_ok, pure_eq_ok] at h
    obtain ⟨_, -, _, -, heq⟩ := h
    obtain ⟨-, rfl⟩ := Prod.mk.inj heq
    rfl
  | storeNwcInvoiceNotificationEvent e json createdAt =>
    simp only [NotificationOp.run, Ledger.storeNwcInvoiceNotificationEvent, bind_eq_ok,
      pure_eq_ok] at h
    obtain ⟨-, -, _, -, _, -, _, -, _, -, heq⟩ := h
    obtain ⟨-, rfl⟩ := Prod.mk.inj heq
    rfl
  | acknowledgeNwcInvoiceRelay e relay deliveredAt =>
    simp only [NotificationOp.run, Ledger.acknowledgeNwcInvoiceRelay, bind_eq_ok, pure_eq_ok] at h
    obtain ⟨_, -, heq⟩ := h
    obtain ⟨-, rfl⟩ := Prod.mk.inj heq
    rfl
  | completeNwcInvoiceNotification e completedAt =>
    simp only [NotificationOp.run, Ledger.completeNwcInvoiceNotification, bind_eq_ok,
      pure_eq_ok] at h
    obtain ⟨_, -, _, -, heq⟩ := h
    obtain ⟨-, rfl⟩ := Prod.mk.inj heq
    rfl
  | expireNwcInvoice e completedAt =>
    obtain ⟨-, rfl⟩ := Prod.mk.inj (Except.ok.inj h)
    rfl
  | _ =>
    obtain ⟨-, rfl⟩ := reading_eq_ok.mp h
    rfl

/-- Recording a notification writes the notification tables only. -/
theorem recordOp_frame {x : Crates} {l l' : Ledger} {random : Entropy} {op : RecordOp}
    {value : op.Value} (h : op.run x random l = .ok (value, l')) :
    l' = { l with
      createdInvoices := l'.createdInvoices
      invoiceNotificationRelays := l'.invoiceNotificationRelays
      sentPayments := l'.sentPayments
      sentPaymentRelays := l'.sentPaymentRelays } := by
  cases op with
  | recordNwcSentPayment payment relays =>
    simp only [RecordOp.run, Ledger.recordNwcSentPayment, bind_eq_ok, pure_eq_ok] at h
    obtain ⟨-, -, _, -, _, -, _, -, _, -, _, -, _, -, -, -, _, -, heq⟩ := h
    obtain ⟨-, rfl⟩ := Prod.mk.inj heq
    rfl
  | recordNwcInvoice invoice relays =>
    simp only [RecordOp.run, Ledger.recordNwcInvoice, bind_eq_ok, pure_eq_ok] at h
    obtain ⟨-, -, _, -, _, -, _, -, _, -, _, -, _, -, -, -, _, -, _, -, -, -, _, -, heq⟩ := h
    obtain ⟨-, rfl⟩ := Prod.mk.inj heq
    rfl
  | loadNwcInvoice e =>
    obtain ⟨-, rfl⟩ := reading_eq_ok.mp h
    rfl
  | loadNwcInvoiceByEncodedInvoice invoice =>
    obtain ⟨-, rfl⟩ := reading_eq_ok.mp h
    rfl
  | loadNwcInvoiceByPaymentHash hash =>
    obtain ⟨-, rfl⟩ := reading_eq_ok.mp h
    rfl
  | notification op => exact notificationOp_frame h

/-- The registration outbox is written without touching any other table. -/
theorem registrationOp_frame {x : Crates} {l l' : Ledger} {op : RegistrationOp} {value : op.Value}
    (h : op.run x l = .ok (value, l')) :
    l' = { l with
      wakeRegistrations := l'.wakeRegistrations
      wakeRegistrationRelays := l'.wakeRegistrationRelays } := by
  cases op with
  | nextWakeRegistrationAt => rw [(reading_eq_ok.mp h).2]
  | loadDueWakeRegistrations now rows => rw [(reading_eq_ok.mp h).2]
  | requeueActiveWakeRegistrationsWithState enabled now =>
    simp only [RegistrationOp.run, Ledger.requeueActiveWakeRegistrationsWithState, bind_eq_ok,
      pure_eq_ok] at h
    obtain ⟨_, -, -, -, _, -, _, -, heq⟩ := h
    obtain ⟨-, rfl⟩ := Prod.mk.inj heq
    rfl
  | acknowledgeWakeRegistration change =>
    simp only [RegistrationOp.run, Ledger.acknowledgeWakeRegistration, bind_eq_ok, pure_eq_ok] at h
    obtain ⟨_, -, _, -, -, -, heq⟩ := h
    obtain ⟨-, rfl⟩ := Prod.mk.inj heq
    rfl
  | retryWakeRegistration change now delay =>
    simp only [RegistrationOp.run, Ledger.retryWakeRegistration, bind_eq_ok, pure_eq_ok] at h
    obtain ⟨-, -, -, -, _, -, _, -, _, -, _, -, _, -, _, -, -, -, heq⟩ := h
    obtain ⟨-, rfl⟩ := Prod.mk.inj heq
    rfl

end NwcMobile
