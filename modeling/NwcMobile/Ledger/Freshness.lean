import NwcMobile.Ledger.Leases

/-!
Where an accepted freshness comes from. The flag is written by one operation and
carried along by every other one, so a lease that reports it was preceded by an
acceptance of the same event, or found the flag in the ledger it started from.
-/

namespace NwcMobile

open Fallible Relational Transition Claims

/-- The freshness of the event was accepted in this history. -/
def AcceptedIn (e : EventId) (history : LedgerHistory) : Prop :=
  ∃ event ∈ history, ∃ lease now,
    event.label = ⟨.claim (.acceptEventFreshness lease now), .ok ()⟩ ∧ lease.eventId = e

/-- The event's row says its freshness was accepted. -/
def Ledger.FreshnessRecorded (l : Ledger) (e : EventId) : Prop :=
  ∃ row, l.eventOf e = some row ∧ row.freshnessAccepted = true

/-- `ADD_WAKE_EVENT_FRESHNESS_ACCEPTANCE` on a row of the previous schema: a
retry or terminal state was only reached after the freshness check. -/
def addFreshnessAcceptance (row : WakeEventRow) : WakeEventRow :=
  { row with freshnessAccepted := row.state == .retryable || row.state == .terminal }

/-- A ledger just after that migration. -/
def Ledger.Migrated (l : Ledger) : Prop := ∀ row ∈ l.wakeEvents, addFreshnessAcceptance row = row

section Freshness

variable {x : Crates} {l l' : Ledger} {e : EventId} {lease : EventLease} {call : LedgerCall}
  {history : LedgerHistory}

/-- Every owner operation but the acceptance keeps the flag. -/
theorem ClaimOp.rewrite_freshness {op : ClaimOp} {row : WakeEventRow} {value : op.Value}
    {now : UnixTimestamp} (howner : op.owner = some (lease, now))
    (h : (op.rewrite row).freshnessAccepted = true) :
    row.freshnessAccepted = true ∨
      (⟨.claim op, .ok value⟩ : LedgerCall) =
        ⟨.claim (.acceptEventFreshness lease now), .ok ()⟩ := by
  cases op with
  | acceptEventFreshness lease' now' =>
    obtain ⟨rfl, rfl⟩ := Prod.mk.inj (Option.some.inj howner)
    exact Or.inr rfl
  | claimEvent e c revision now' duration => cases howner
  | lastCompletedEventAt c => cases howner
  | pruneTerminal before rows => cases howner
  | renewLease lease' now' duration => exact Or.inl h
  | retryLater lease' now' delay => exact Or.inl h
  | completeEvent lease' kind json now' => exact Or.inl h
  | completeEventForActiveConnection lease' c revision json now' => exact Or.inl h
  | completeNwcEventForActiveConnection lease' c revision json method now' => exact Or.inl h

theorem LedgerStep.freshness (h : LedgerStep x l call l') (hrecorded : l'.FreshnessRecorded e) :
    l.FreshnessRecorded e ∨ ∃ lease now,
      call = ⟨.claim (.acceptEventFreshness lease now), .ok ()⟩ ∧ lease.eventId = e := by
  obtain ⟨row', hrow', hflag⟩ := hrecorded
  have hstep := h.eventStep e
  rw [hrow'] at hstep
  generalize hrow : l.eventOf e = before at hstep
  cases hstep with
  | kept _ => exact Or.inl ⟨row', hrow, hflag⟩
  | opened => cases hflag
  | resumed _ _ _ _ _ => exact Or.inl ⟨_, hrow, hflag⟩
  | @owned op value lease now row howner hevent howned =>
    rcases ClaimOp.rewrite_freshness howner hflag with hearlier | haccept
    · exact Or.inl ⟨row, hrow, hearlier⟩
    · exact Or.inr ⟨lease, now, haccept, hevent⟩

/-- Over a run: a recorded freshness was accepted on the way or was there at the
start. -/
theorem freshness_recorded (hrun : LedgerRun x l history l') (h : l'.FreshnessRecorded e) :
    AcceptedIn e history ∨ l.FreshnessRecorded e := by
  induction hrun with
  | refl => exact Or.inr h
  | tail hpast hstep ih =>
    rcases hstep.freshness h with hearlier | ⟨lease, now, hcall, hevent⟩
    · rcases ih hearlier with ⟨event, hmem, haccepted⟩ | hstart
      · exact Or.inl ⟨event, List.mem_cons_of_mem _ hmem, haccepted⟩
      · exact Or.inr hstart
    · exact Or.inl ⟨_, List.mem_cons_self, lease, now, hcall, hevent⟩

/-- An acquired lease is for the claimed event and reports what its row says. -/
theorem LedgerStep.acquired {c : ConnectionId} {revision : ConnectionRevision}
    {now : UnixTimestamp} {duration : Duration}
    (h : LedgerStep x l ⟨.claim (.claimEvent e c revision now duration), .ok (.acquired lease)⟩ l') :
    lease.eventId = e ∧ (lease.freshnessAccepted = true → l.FreshnessRecorded e) := by
  have hstep := h.eventStep e
  generalize hbefore : l.eventOf e = before at hstep
  generalize l'.eventOf e = after at hstep
  cases hstep with
  | kept hkept => simp [LedgerCall.writesEvent] at hkept
  | opened => exact ⟨rfl, fun hflag => by cases hflag⟩
  | resumed _ _ _ _ _ => exact ⟨rfl, fun hflag => ⟨_, hbefore, hflag⟩⟩
  | owned howner _ _ => cases howner

/-- After the migration only a retry or terminal row counts as checked: a claim
that was live when the schema changed is checked again. -/
theorem Ledger.Migrated.recorded (hmigrated : l.Migrated) (h : l.FreshnessRecorded e) :
    ∃ row, l.eventOf e = some row ∧ (row.state = .retryable ∨ row.state = .terminal) := by
  obtain ⟨row, hrow, hflag⟩ := h
  have hsame := congrArg WakeEventRow.freshnessAccepted
    (hmigrated row (eventOf_eq_some.mp hrow).1)
  refine ⟨row, hrow, ?_⟩
  simpa [addFreshnessAcceptance, hflag] using hsame

end Freshness

end NwcMobile
