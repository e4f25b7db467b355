import NwcMobile.Foundations.Fencing
import NwcMobile.Ledger.RegistryEffects

/-!
The lease on one event over whole runs. `EventStep` says what one call can do to
the row of one event. Read through `slotOf`, the row is a resource fenced by the
claim token, so the general facts about fencing tokens apply to it.
-/

namespace NwcMobile

open Fallible Relational Transition Claims

/-- The row of one event, if there is one. -/
def Ledger.eventOf (l : Ledger) (e : EventId) : Option WakeEventRow :=
  l.wakeEvents.selectRow (hasEvent e)

/-- The call succeeded in claiming the event or in writing under its lease. -/
def LedgerCall.writesEvent (e : EventId) : LedgerCall → Bool
  | ⟨.claim (.claimEvent e' _ _ _ _), .ok (.acquired _)⟩ => e' == e
  | ⟨.claim op, .ok _⟩ => op.owner.any fun owner => owner.1.eventId == e
  | _ => false

/-- What one call can do to the row of one event. -/
inductive EventStep (e : EventId) :
    LedgerCall → Option WakeEventRow → Option WakeEventRow → Prop
  | kept {call : LedgerCall} {row : Option WakeEventRow} (h : call.writesEvent e = false) :
      EventStep e call row row
  | opened {c : ConnectionId} {revision : ConnectionRevision} {now : UnixTimestamp}
      {duration : Duration} {token : ClaimToken} :
      EventStep e ⟨.claim (.claimEvent e c revision now duration),
        .ok (.acquired ⟨e, token, false, false⟩)⟩ none
        (some ⟨e, c.value, revision, .claimed, some token, some (now + duration.asSecs), now,
          none, none, none, false⟩)
  | resumed {c : ConnectionId} {revision : ConnectionRevision} {now : UnixTimestamp}
      {duration : Duration} {token : ClaimToken} {row : WakeEventRow} {a : Nat}
      (hconnection : row.connectionId = c.value) (hrevision : row.connectionRevision = revision)
      (hlive : row.state ≠ .terminal) (havailable : row.availableAt = some a) (hdue : a ≤ now) :
      EventStep e ⟨.claim (.claimEvent e c revision now duration),
        .ok (.acquired ⟨e, token, true, row.freshnessAccepted⟩)⟩ (some row)
        (some { row with state := .claimed, claimToken := some token
                         availableAt := some (now + duration.asSecs), updatedAt := now })
  | owned {op : ClaimOp} {value : op.Value} {lease : EventLease} {now : UnixTimestamp}
      {row : WakeEventRow} (howner : op.owner = some (lease, now)) (hevent : lease.eventId = e)
      (howned : owned lease now row = true) :
      EventStep e ⟨.claim op, .ok value⟩ (some row) (some (op.rewrite row))
  | pruned {before : UnixTimestamp} {rows n : Nat} {row : WakeEventRow}
      (hterminal : row.state = .terminal) (hold : row.updatedAt < before) :
      EventStep e ⟨.claim (.pruneTerminal before rows), .ok n⟩ (some row) none

section Rows

variable {x : Crates} {l l' : Ledger} {e : EventId} {r row row' : WakeEventRow}

theorem eventOf_eq_some : l.eventOf e = some r ↔ r ∈ l.wakeEvents ∧ r.eventId = e := by
  rw [Ledger.eventOf, Table.selectRow_eq_some (hasEvent_key e), hasEvent_eq_true]

theorem eventOf_eq_none : l.eventOf e = none ↔ ∀ r ∈ l.wakeEvents, r.eventId ≠ e := by
  simp [Ledger.eventOf, Table.selectRow_eq_none, hasEvent]

/-- Rows of the event that are the same before and after mean the same lookup. -/
theorem eventOf_congr
    (h : ∀ r : WakeEventRow, r.eventId = e → (r ∈ l'.wakeEvents ↔ r ∈ l.wakeEvents)) :
    l'.eventOf e = l.eventOf e := by
  cases hrow : l.eventOf e with
  | none =>
    rw [eventOf_eq_none] at hrow ⊢
    intro r hr hsame
    exact hrow r ((h r hsame).mp hr) hsame
  | some r =>
    rw [eventOf_eq_some] at hrow ⊢
    exact ⟨(h r hrow.2).mpr hrow.1, hrow.2⟩

/-- Replacing the row of one event is seen by that event only. -/
theorem eventOf_replace {at' : EventId} (hmem : row ∈ l.wakeEvents) (hevent : row.eventId = at')
    (hkeeps : row'.eventId = row.eventId)
    (hupdate : l.wakeEvents.update (hasEvent at') (fun _ => row') = some l'.wakeEvents) :
    l'.eventOf at' = some row' ∧ (e ≠ at' → l'.eventOf e = l.eventOf e) := by
  refine ⟨?_, ?_⟩
  · apply eventOf_eq_some.mpr
    refine ⟨(Table.mem_replace hupdate).mpr (Or.inr ⟨rfl, row, hmem, ?_⟩), hkeeps.trans hevent⟩
    simpa using hevent
  · intro hne
    apply eventOf_congr
    intro r hr
    rw [Table.mem_replace hupdate]
    constructor
    · rintro (⟨hold, -⟩ | ⟨rfl, -⟩)
      · exact hold
      · exact absurd (hr.symm.trans (hkeeps.trans hevent)) hne
    · intro hold
      refine Or.inl ⟨hold, ?_⟩
      have hother : r.eventId ≠ at' := fun h => hne (hr.symm.trans h)
      simpa [hasEvent] using hother

theorem ClaimOp.rewrite_eventId (op : ClaimOp) (r : WakeEventRow) :
    (op.rewrite r).eventId = r.eventId := by
  cases op <;> rfl

theorem claimEvent_eventStep {random : Entropy} {at' : EventId} {c : ConnectionId}
    {revision : ConnectionRevision} {now : UnixTimestamp} {duration : Duration}
    {outcome : ClaimOutcome}
    (h : l.claimEvent random.claimToken at' c revision now duration = .ok (outcome, l')) :
    EventStep e ⟨.claim (.claimEvent at' c revision now duration), .ok outcome⟩ (l.eventOf e)
      (l'.eventOf e) := by
  obtain ⟨t, -, rfl, hfresh, hinsert, -⟩ | ⟨row, hmem, hevent, hconnection, hrevision,
    ⟨event, -, -, rfl, rfl⟩ | ⟨a, -, -, -, rfl, rfl⟩ |
    ⟨a, t, hlive, havailable, hdue, -, rfl, hupdate, -⟩⟩ := claimEvent_ok h
  · by_cases hsame : at' = e
    · subst hsame
      have hnone : l.eventOf at' = none := eventOf_eq_none.mpr hfresh
      have hsome : l'.eventOf at' = some _ :=
        eventOf_eq_some.mpr ⟨Table.insert_self hinsert, rfl⟩
      rw [hnone, hsome]
      exact .opened
    · have hother : l'.eventOf e = l.eventOf e := by
        apply eventOf_congr
        intro r hr
        rw [Table.mem_insert hinsert]
        constructor
        · rintro (hold | rfl)
          · exact hold
          · exact absurd hr hsame
        · exact Or.inl
      rw [hother]
      exact .kept (by simpa [LedgerCall.writesEvent] using hsame)
  · exact .kept rfl
  · exact .kept rfl
  · obtain ⟨hself, hother⟩ := eventOf_replace (e := e) hmem hevent (by rfl) hupdate
    by_cases hsame : e = at'
    · subst hsame
      rw [hself, eventOf_eq_some.mpr ⟨hmem, hevent⟩]
      exact .resumed hconnection hrevision hlive havailable hdue
    · rw [hother hsame]
      have hne : at' ≠ e := fun h => hsame h.symm
      exact .kept (by simpa [LedgerCall.writesEvent] using hne)

theorem ownerOp_eventStep {random : Entropy} {op : ClaimOp} {value : op.Value}
    {lease : EventLease} {now : UnixTimestamp} (howner : op.owner = some (lease, now))
    (h : op.run random l = .ok (value, l')) :
    EventStep e ⟨.claim op, .ok value⟩ (l.eventOf e) (l'.eventOf e) := by
  obtain ⟨row, hwrite⟩ := ownerOp_ok howner h
  have hevent : row.eventId = lease.eventId := (owned_eq_true.mp hwrite.owned).1
  obtain ⟨hself, hother⟩ :=
    eventOf_replace (e := e) hwrite.mem hevent (op.rewrite_eventId row) hwrite.events
  by_cases hsame : e = lease.eventId
  · subst hsame
    rw [hself, eventOf_eq_some.mpr ⟨hwrite.mem, hevent⟩]
    exact .owned howner rfl hwrite.owned
  · rw [hother hsame]
    refine .kept ?_
    have hne : lease.eventId ≠ e := fun h => hsame h.symm
    cases op <;> simp_all [LedgerCall.writesEvent, ClaimOp.owner]

theorem pruneTerminal_eventStep {before : UnixTimestamp} {rows n : Nat}
    (h : l.pruneTerminal before rows = .ok (n, l')) :
    EventStep e ⟨.claim (.pruneTerminal before rows), .ok n⟩ (l.eventOf e) (l'.eventOf e) := by
  obtain ⟨-, p, hdelete, hterminal⟩ := pruneTerminal_ok h
  cases hrow : l.eventOf e with
  | none =>
    have hnone : l'.eventOf e = none := by
      rw [eventOf_eq_none] at hrow ⊢
      intro r hr
      rw [hdelete, Table.mem_delete] at hr
      exact hrow r hr.1
    rw [hnone]
    exact .kept rfl
  | some row =>
    obtain ⟨hmem, hevent⟩ := eventOf_eq_some.mp hrow
    cases hp : p row with
    | false =>
      have hsame : l'.eventOf e = some row := by
        apply eventOf_eq_some.mpr
        rw [hdelete, Table.mem_delete]
        exact ⟨⟨hmem, hp⟩, hevent⟩
      rw [hsame]
      exact .kept rfl
    | true =>
      have hnone : l'.eventOf e = none := by
        rw [eventOf_eq_none]
        intro r hr hsame
        rw [hdelete, Table.mem_delete] at hr
        have heq : r = row := Table.eq_of_key (hasEvent_key e) hr.1 hmem (by simpa using hsame)
          (by simpa using hevent)
        rw [heq, hp] at hr
        exact absurd hr.2 (by simp)
      rw [hnone]
      obtain ⟨hstate, hold⟩ := hterminal row hmem hp
      exact .pruned hstate hold

/-- Every call moves the row of each event by one event step. -/
theorem LedgerStep.eventStep {call : LedgerCall} (h : LedgerStep x l call l') (e : EventId) :
    EventStep e call (l.eventOf e) (l'.eventOf e) := by
  obtain ⟨op, reply⟩ := call
  have hframe : l'.wakeEvents = l.wakeEvents → l'.eventOf e = l.eventOf e := fun heq => by
    rw [Ledger.eventOf, Ledger.eventOf, heq]
  cases reply with
  | error error =>
    rw [h.eq_of_error]
    exact .kept (by cases op with
      | claim op => cases op <;> rfl
      | registry op => rfl
      | payment op => rfl
      | record op => rfl
      | registration op => rfl)
  | ok value =>
    obtain ⟨random, hrun⟩ := h.run_of_ok
    cases op with
    | registry op =>
      have hsame : l'.wakeEvents = l.wakeEvents := by
        rcases registryOp_effect hrun with rfl | ⟨_, _, _, _, _, hrow, -⟩ | ⟨_, _, _, htombstoned⟩
        · rfl
        · exact hrow.wakeEvents
        · exact htombstoned.wakeEvents
      rw [hframe hsame]
      exact .kept rfl
    | payment op =>
      rw [hframe (by rw [(paymentOp_effect hrun).frame])]
      exact .kept rfl
    | record op =>
      rw [hframe (by rw [recordOp_frame hrun])]
      exact .kept rfl
    | registration op =>
      rw [hframe (by rw [registrationOp_frame hrun])]
      exact .kept rfl
    | claim op =>
      cases howner : op.owner with
      | some owner => exact ownerOp_eventStep howner hrun
      | none =>
        cases op with
        | claimEvent at' c revision now duration => exact claimEvent_eventStep hrun
        | pruneTerminal before rows => exact pruneTerminal_eventStep hrun
        | lastCompletedEventAt c =>
          have hread : reading l (l.lastCompletedEventAt c) = .ok (value, l') := hrun
          rw [(reading_eq_ok.mp hread).2]
          exact .kept rfl
        | acceptEventFreshness lease now => cases howner
        | renewLease lease now duration => cases howner
        | retryLater lease now delay => cases howner
        | completeEvent lease kind json now => cases howner
        | completeEventForActiveConnection lease c revision json now => cases howner
        | completeNwcEventForActiveConnection lease c revision json method now => cases howner

end Rows

/-- What a terminal row records for good. -/
structure TerminalRecord where
  kind : Option TerminalKind
  responseEventJson : Option String
  requestMethod : Option String
deriving DecidableEq, Repr

def WakeEventRow.terminalRecord (r : WakeEventRow) : TerminalRecord :=
  ⟨r.terminalKind, r.responseEventJson, r.requestMethod⟩

/-- The row as a fenced resource: the claim token holds it, a terminal row is
finished. -/
def WakeEventRow.slot (r : WakeEventRow) : Fencing.Slot ClaimToken TerminalRecord :=
  match r.state, r.claimToken with
  | .claimed, some token => .held token
  | .terminal, _ => .finished r.terminalRecord
  | _, _ => .released

def slotOfRow : Option WakeEventRow → Fencing.Slot ClaimToken TerminalRecord
  | none => .vacant
  | some r => r.slot

def Ledger.slotOf (l : Ledger) (e : EventId) : Fencing.Slot ClaimToken TerminalRecord :=
  slotOfRow (l.eventOf e)

/-- What an owner operation does to the fenced resource. -/
def ClaimOp.action : ClaimOp → Fencing.Action ClaimToken TerminalRecord
  | .acceptEventFreshness lease _ => .use lease.token
  | .renewLease lease _ _ => .use lease.token
  | .retryLater lease _ _ => .release lease.token
  | .completeEvent lease kind json _ => .finish lease.token ⟨some kind, json, none⟩
  | .completeEventForActiveConnection lease _ _ json _ =>
    .finish lease.token ⟨some .completed, some json, none⟩
  | .completeNwcEventForActiveConnection lease _ _ json method _ =>
    .finish lease.token ⟨some .completed, some json, some method.asStr⟩
  | .claimEvent .. | .lastCompletedEventAt _ | .pruneTerminal .. => .idle

/-- The step pruned the row of the event. -/
def Prunes (e : EventId) (event : Event Ledger LedgerCall) : Prop :=
  (∃ before rows n, event.label = ⟨.claim (.pruneTerminal before rows), .ok n⟩) ∧
    (event.before.eventOf e).isSome ∧ event.after.eventOf e = none

/-- One ledger step as an action on the resource of one event. -/
def fenceAction (e : EventId) (event : Event Ledger LedgerCall) :
    Fencing.Action ClaimToken TerminalRecord :=
  match event.label with
  | ⟨.claim (.claimEvent e' _ _ _ _), .ok (.acquired lease)⟩ =>
    if e' = e then .acquire lease.token else .idle
  | ⟨.claim (.pruneTerminal _ _), .ok _⟩ =>
    if (event.before.eventOf e).isSome ∧ event.after.eventOf e = none then .forget else .idle
  | ⟨.claim op, .ok _⟩ =>
    if op.owner.any (fun owner => owner.1.eventId == e) then op.action else .idle
  | _ => .idle

/-- The lease a call issued on the event. -/
def LedgerCall.issued (e : EventId) : LedgerCall → Option EventLease
  | ⟨.claim (.claimEvent e' _ _ _ _), .ok (.acquired lease)⟩ => if e' = e then some lease else none
  | _ => none

/-- The leases issued on the event along a history, newest first. -/
def issuedLeases (e : EventId) (history : LedgerHistory) : List EventLease :=
  history.filterMap fun event => event.label.issued e

/-- The call supersedes the lease by a later claim, gives it back or consumes it. -/
def LedgerCall.Retires (lease : EventLease) : LedgerCall → Prop
  | ⟨.claim (.claimEvent e _ _ _ _), .ok (.acquired _)⟩ => e = lease.eventId
  | ⟨.claim (.retryLater lease' _ _), .ok _⟩ => lease' = lease
  | ⟨.claim (.completeEvent lease' _ _ _), .ok _⟩ => lease' = lease
  | ⟨.claim (.completeEventForActiveConnection lease' _ _ _ _), .ok _⟩ => lease' = lease
  | ⟨.claim (.completeNwcEventForActiveConnection lease' _ _ _ _ _), .ok _⟩ => lease' = lease
  | _ => False

/-- The call completed the event. -/
def LedgerCall.completes (e : EventId) : LedgerCall → Bool
  | ⟨.claim (.completeEvent lease _ _ _), .ok _⟩ => lease.eventId == e
  | ⟨.claim (.completeEventForActiveConnection lease _ _ _ _), .ok _⟩ => lease.eventId == e
  | ⟨.claim (.completeNwcEventForActiveConnection lease _ _ _ _ _), .ok _⟩ => lease.eventId == e
  | _ => false

section Fenced

variable {x : Crates} {l l' : Ledger} {e : EventId} {call : LedgerCall} {lease : EventLease}
  {history : LedgerHistory}

theorem slot_of_owned {now : Nat} {row : WakeEventRow} (h : owned lease now row = true) :
    row.slot = .held lease.token := by
  obtain ⟨-, hstate, htoken, -⟩ := owned_eq_true.mp h
  simp [WakeEventRow.slot, hstate, htoken]

theorem fenceAction_of_kept (hsame : l'.eventOf e = l.eventOf e)
    (h : call.writesEvent e = false) : fenceAction e ⟨l, call, l'⟩ = .idle := by
  unfold fenceAction
  split
  · rename_i hcall
    simp_all [LedgerCall.writesEvent]
  · rename_i hcall
    rw [if_neg]
    rintro ⟨hsome, hnone⟩
    rw [hsame] at hnone
    simp [hnone] at hsome
  · rename_i op value _ _ hcall
    change call = _ at hcall
    subst hcall
    rw [if_neg]
    intro howner
    cases op <;> simp_all [LedgerCall.writesEvent, ClaimOp.owner]
  · rfl

/-- An owner operation on the row it owns is the action it stands for. -/
theorem ownerOp_fencing {op : ClaimOp} {now : UnixTimestamp} {row : WakeEventRow}
    (howner : op.owner = some (lease, now)) (howned : owned lease now row = true) :
    Fencing.Step row.slot op.action (op.rewrite row).slot := by
  have hslot := slot_of_owned howned
  obtain ⟨-, hstate, htoken, -⟩ := owned_eq_true.mp howned
  cases op with
  | acceptEventFreshness lease' now' =>
    obtain ⟨rfl, rfl⟩ := Prod.mk.inj (Option.some.inj howner)
    rw [hslot]
    have hafter : ((ClaimOp.acceptEventFreshness lease' now').rewrite row).slot =
        .held lease'.token := by
      simp [WakeEventRow.slot, ClaimOp.rewrite, hstate, htoken]
    rw [hafter]
    exact .use
  | renewLease lease' now' duration =>
    obtain ⟨rfl, rfl⟩ := Prod.mk.inj (Option.some.inj howner)
    rw [hslot]
    have hafter : ((ClaimOp.renewLease lease' now' duration).rewrite row).slot =
        .held lease'.token := by
      simp [WakeEventRow.slot, ClaimOp.rewrite, hstate, htoken]
    rw [hafter]
    exact .use
  | retryLater lease' now' delay =>
    obtain ⟨rfl, rfl⟩ := Prod.mk.inj (Option.some.inj howner)
    rw [hslot]
    exact .release
  | completeEvent lease' kind json now' =>
    obtain ⟨rfl, rfl⟩ := Prod.mk.inj (Option.some.inj howner)
    rw [hslot]
    exact .finish
  | completeEventForActiveConnection lease' c revision json now' =>
    obtain ⟨rfl, rfl⟩ := Prod.mk.inj (Option.some.inj howner)
    rw [hslot]
    exact .finish
  | completeNwcEventForActiveConnection lease' c revision json method now' =>
    obtain ⟨rfl, rfl⟩ := Prod.mk.inj (Option.some.inj howner)
    rw [hslot]
    exact .finish
  | claimEvent e' c revision now' duration => cases howner
  | lastCompletedEventAt c => cases howner
  | pruneTerminal before rows => cases howner

theorem fenceAction_owner {op : ClaimOp} {value : op.Value} {now : UnixTimestamp}
    (howner : op.owner = some (lease, now)) (hevent : lease.eventId = e) :
    fenceAction e ⟨l, ⟨.claim op, .ok value⟩, l'⟩ = op.action := by
  cases op <;> simp_all [fenceAction, ClaimOp.owner]

/-- Every ledger step is a step of the fenced resource of each event. -/
theorem LedgerStep.fencing (h : LedgerStep x l call l') (e : EventId) :
    Fencing.Step (l.slotOf e) (fenceAction e ⟨l, call, l'⟩) (l'.slotOf e) := by
  have hstep := h.eventStep e
  generalize hbefore : l.eventOf e = before at hstep
  generalize hafter : l'.eventOf e = after at hstep
  simp only [Ledger.slotOf, hbefore, hafter]
  cases hstep with
  | kept hkept =>
    rw [fenceAction_of_kept (hafter.trans hbefore.symm) hkept]
    exact .idle
  | opened =>
    simp only [fenceAction, if_true]
    exact .acquire (by intro r; simp [slotOfRow])
  | @resumed c revision now duration token row a hconnection hrevision hlive havailable hdue =>
    simp only [fenceAction, if_true]
    refine .acquire ?_
    intro r hfinished
    cases hs : row.state with
    | terminal => exact hlive hs
    | claimed =>
      cases ht : row.claimToken <;> simp [slotOfRow, WakeEventRow.slot, hs, ht] at hfinished
    | retryable => simp [slotOfRow, WakeEventRow.slot, hs] at hfinished
  | owned howner hevent howned =>
    rw [fenceAction_owner howner hevent]
    exact ownerOp_fencing howner howned
  | @pruned cutoff rows n row hterminal hold =>
    have hslot : row.slot = .finished row.terminalRecord := by
      simp [WakeEventRow.slot, hterminal]
    simp only [fenceAction, hbefore, hafter, Option.isSome_some, and_self, if_true, slotOfRow,
      hslot]
    exact .forget

/-- A history read as the history of the fenced resource of one event. -/
def fencedHistory (e : EventId) (history : LedgerHistory) :
    List (Event (Fencing.Slot ClaimToken TerminalRecord) (Fencing.Action ClaimToken TerminalRecord)) :=
  history.map fun event => ⟨event.before.slotOf e, fenceAction e event, event.after.slotOf e⟩

theorem fencing_run (hrun : LedgerRun x l history l') (e : EventId) :
    Run Fencing.Step (l.slotOf e) (fencedHistory e history) (l'.slotOf e) :=
  hrun.map fun _ _ _ hstep => hstep.fencing e

theorem fenceAction_drawn (event : Event Ledger LedgerCall) :
    (fenceAction e event).drawn = (event.label.issued e).map (·.token) := by
  obtain ⟨before, ⟨op, reply⟩, after⟩ := event
  cases op with
  | registry op => rfl
  | payment op => rfl
  | record op => rfl
  | registration op => rfl
  | claim op =>
    cases reply with
    | error error => cases op <;> rfl
    | ok value =>
      cases op with
      | claimEvent e' c revision now duration =>
        cases value with
        | acquired lease =>
          simp only [fenceAction, LedgerCall.issued]
          split
          · rfl
          · rfl
        | inProgress retryAfter => rfl
        | terminal event => rfl
      | pruneTerminal cutoff rows =>
        simp only [fenceAction, LedgerCall.issued]
        split
        · rfl
        · rfl
      | lastCompletedEventAt c => rfl
      | acceptEventFreshness lease now =>
        simp only [fenceAction, LedgerCall.issued]
        split <;> rfl
      | renewLease lease now duration =>
        simp only [fenceAction, LedgerCall.issued]
        split <;> rfl
      | retryLater lease now delay =>
        simp only [fenceAction, LedgerCall.issued]
        split <;> rfl
      | completeEvent lease kind json now =>
        simp only [fenceAction, LedgerCall.issued]
        split <;> rfl
      | completeEventForActiveConnection lease c revision json now =>
        simp only [fenceAction, LedgerCall.issued]
        split <;> rfl
      | completeNwcEventForActiveConnection lease c revision json method now =>
        simp only [fenceAction, LedgerCall.issued]
        split <;> rfl

/-- The tokens drawn on the resource are those of the issued leases. -/
theorem drawn_fencedHistory (history : LedgerHistory) :
    Fencing.drawn (fencedHistory e history) = (issuedLeases e history).map (·.token) := by
  induction history with
  | nil => rfl
  | cons event rest ih =>
    have hrest : Fencing.drawn (fencedHistory e (event :: rest)) =
        (fenceAction e event).drawn.toList ++ Fencing.drawn (fencedHistory e rest) := by
      simp only [Fencing.drawn, fencedHistory, List.map_cons, List.filterMap_cons]
      cases (fenceAction e event).drawn <;> rfl
    rw [hrest, ih, fenceAction_drawn]
    simp only [issuedLeases, List.filterMap_cons]
    cases event.label.issued e <;> rfl

theorem issued_eventId (hrun : LedgerRun x l history l') (h : lease ∈ issuedLeases e history) :
    lease.eventId = e := by
  obtain ⟨event, hevent, hissued⟩ := List.mem_filterMap.mp h
  have hstep := (hrun.step_of_mem hevent).eventStep e
  obtain ⟨before, call, after⟩ := event
  generalize before.eventOf e = row at hstep
  generalize after.eventOf e = row' at hstep
  cases hstep with
  | opened =>
    simp only [LedgerCall.issued, if_true, Option.some.injEq] at hissued
    rw [← hissued]
  | resumed hconnection hrevision hlive havailable hdue =>
    simp only [LedgerCall.issued, if_true, Option.some.injEq] at hissued
    rw [← hissued]
  | pruned hterminal hold => cases hissued
  | @owned op value lease' now row howner hsame howned =>
    cases op <;> simp [LedgerCall.issued, ClaimOp.owner] at hissued howner
  | kept hkept =>
    unfold LedgerCall.issued at hissued
    split at hissued
    · split at hissued
      · simp_all [LedgerCall.writesEvent]
      · cases hissued
    · cases hissued

/-- A lease that can make an owner operation succeed holds the resource. -/
theorem held_of_acts {op : ClaimOp} {now : UnixTimestamp} {random : Entropy} {value : op.Value}
    (howner : op.owner = some (lease, now)) (h : op.run random l = .ok (value, l')) :
    l.slotOf lease.eventId = .held lease.token := by
  obtain ⟨row, hwrite⟩ := ownerOp_ok howner h
  have hevent := (owned_eq_true.mp hwrite.owned).1
  rw [Ledger.slotOf, eventOf_eq_some.mpr ⟨hwrite.mem, hevent⟩]
  exact slot_of_owned hwrite.owned

theorem fenceAction_presented {op : ClaimOp} {value : op.Value} {now : UnixTimestamp}
    (howner : op.owner = some (lease, now)) :
    (fenceAction lease.eventId ⟨l, ⟨.claim op, .ok value⟩, l'⟩).presented = some lease.token := by
  rw [fenceAction_owner howner rfl]
  cases op with
  | claimEvent e' c revision now' duration => cases howner
  | lastCompletedEventAt c => cases howner
  | pruneTerminal before rows => cases howner
  | acceptEventFreshness lease' now' => cases howner; rfl
  | renewLease lease' now' duration => cases howner; rfl
  | retryLater lease' now' delay => cases howner; rfl
  | completeEvent lease' kind json now' => cases howner; rfl
  | completeEventForActiveConnection lease' c revision json now' => cases howner; rfl
  | completeNwcEventForActiveConnection lease' c revision json method now' => cases howner; rfl

/-- A call that retires a lease retires its token, given that a claim draws
another one. -/
theorem fenceAction_retires {event : Event Ledger LedgerCall} (h : event.label.Retires lease)
    (hfresh : ∀ next, event.label.issued lease.eventId = some next → next.token ≠ lease.token) :
    (fenceAction lease.eventId event).Retires lease.token := by
  obtain ⟨before, ⟨op, reply⟩, after⟩ := event
  cases op with
  | registry op => exact h.elim
  | payment op => exact h.elim
  | record op => exact h.elim
  | registration op => exact h.elim
  | claim op =>
    cases reply with
    | error error => cases op <;> exact h.elim
    | ok value =>
      cases op with
      | claimEvent e' c revision now duration =>
        cases value with
        | acquired next =>
          have hsame : e' = lease.eventId := h
          simp only [LedgerCall.issued, hsame, if_true, Option.some.injEq, forall_eq'] at hfresh
          simp only [fenceAction, hsame, if_true]
          exact hfresh
        | inProgress retryAfter => exact h.elim
        | terminal event => exact h.elim
      | retryLater lease' now delay =>
        have hsame : lease' = lease := h
        rw [fenceAction_owner rfl (congrArg EventLease.eventId hsame)]
        exact congrArg EventLease.token hsame
      | completeEvent lease' kind json now =>
        have hsame : lease' = lease := h
        rw [fenceAction_owner rfl (congrArg EventLease.eventId hsame)]
        exact congrArg EventLease.token hsame
      | completeEventForActiveConnection lease' c revision json now =>
        have hsame : lease' = lease := h
        rw [fenceAction_owner rfl (congrArg EventLease.eventId hsame)]
        exact congrArg EventLease.token hsame
      | completeNwcEventForActiveConnection lease' c revision json method now =>
        have hsame : lease' = lease := h
        rw [fenceAction_owner rfl (congrArg EventLease.eventId hsame)]
        exact congrArg EventLease.token hsame
      | acceptEventFreshness lease' now => exact h.elim
      | renewLease lease' now duration => exact h.elim
      | lastCompletedEventAt c => exact h.elim
      | pruneTerminal cutoff rows => exact h.elim

/-- A completion finishes the resource. -/
theorem fenceAction_completes {event : Event Ledger LedgerCall}
    (h : event.label.completes e = true) :
    ∃ token record, fenceAction e event = .finish token record := by
  obtain ⟨before, ⟨op, reply⟩, after⟩ := event
  cases op with
  | registry op => cases h
  | payment op => cases h
  | record op => cases h
  | registration op => cases h
  | claim op =>
    cases reply with
    | error error => cases op <;> cases h
    | ok value =>
      cases op with
      | completeEvent lease kind json now =>
        have hevent : lease.eventId = e := by simpa [LedgerCall.completes] using h
        exact ⟨_, _, fenceAction_owner rfl hevent⟩
      | completeEventForActiveConnection lease c revision json now =>
        have hevent : lease.eventId = e := by simpa [LedgerCall.completes] using h
        exact ⟨_, _, fenceAction_owner rfl hevent⟩
      | completeNwcEventForActiveConnection lease c revision json method now =>
        have hevent : lease.eventId = e := by simpa [LedgerCall.completes] using h
        exact ⟨_, _, fenceAction_owner rfl hevent⟩
      | claimEvent e' c revision now duration => cases value <;> cases h
      | acceptEventFreshness lease now => cases h
      | renewLease lease now duration => cases h
      | retryLater lease now delay => cases h
      | lastCompletedEventAt c => cases h
      | pruneTerminal cutoff rows => cases h

theorem fenceAction_ne_forget {event : Event Ledger LedgerCall} (h : ¬ Prunes e event) :
    fenceAction e event ≠ .forget := by
  unfold fenceAction
  split
  · split <;> simp
  · rename_i hlabel
    rw [if_neg]
    · simp
    · intro hgone
      exact h ⟨⟨_, _, _, hlabel⟩, hgone⟩
  · rename_i op value _ _ _
    split
    · cases op <;> simp [ClaimOp.action]
    · simp
  · simp

theorem terminal_of_finished {r : TerminalRecord} (h : l.slotOf e = .finished r) :
    ∃ row, l.eventOf e = some row ∧ row.state = .terminal ∧ row.terminalRecord = r := by
  unfold Ledger.slotOf at h
  cases hrow : l.eventOf e with
  | none => simp [hrow, slotOfRow] at h
  | some row =>
    refine ⟨row, rfl, ?_⟩
    simp only [hrow, slotOfRow, WakeEventRow.slot] at h
    split at h
    · cases h
    · rename_i hstate
      exact ⟨hstate, Fencing.Slot.finished.inj h⟩
    · cases h

/-- Until it is pruned a terminal row keeps its record. -/
theorem terminal_stays {row : WakeEventRow} (hrun : LedgerRun x l history l')
    (hrow : l.eventOf e = some row) (hterminal : row.state = .terminal)
    (hkept : ∀ event ∈ history, ¬ Prunes e event) :
    ∃ row', l'.eventOf e = some row' ∧ row'.state = .terminal ∧
      row'.terminalRecord = row.terminalRecord := by
  have hfinished : l.slotOf e = .finished row.terminalRecord := by
    simp [Ledger.slotOf, hrow, slotOfRow, WakeEventRow.slot, hterminal]
  have hfenced := fencing_run hrun e
  rw [hfinished] at hfenced
  apply terminal_of_finished
  refine (Fencing.finished_stays hfenced fun event' hevent' => ?_).1
  obtain ⟨original, horiginal, rfl⟩ := List.mem_map.mp hevent'
  exact fenceAction_ne_forget (hkept original horiginal)

/-- After a completion and until the event is pruned, nothing more completes and
the terminal row keeps its record. -/
theorem completed_stays {later earlier : LedgerHistory} {event : Event Ledger LedgerCall}
    (hrun : LedgerRun x l (later ++ event :: earlier) l')
    (hcompletes : event.label.completes e = true)
    (hkept : ∀ event' ∈ later, ¬ Prunes e event') :
    (∀ event' ∈ later, event'.label.completes e = false) ∧
      ∃ row row', event.after.eventOf e = some row ∧ l'.eventOf e = some row' ∧
        row.state = .terminal ∧ row'.state = .terminal ∧
        row'.terminalRecord = row.terminalRecord := by
  obtain ⟨-, hstep, hlater⟩ := hrun.split
  have hfence := hstep.fencing e
  obtain ⟨token, record, haction⟩ := fenceAction_completes hcompletes
  rw [haction] at hfence
  generalize event.before.slotOf e = before at hfence
  generalize hafter : event.after.slotOf e = after at hfence
  cases hfence with
  | finish =>
    have hfenced := fencing_run hlater e
    rw [hafter] at hfenced
    have hnoforget : ∀ event' ∈ fencedHistory e later, event'.label ≠ .forget := by
      intro event' hevent'
      obtain ⟨original, horiginal, rfl⟩ := List.mem_map.mp hevent'
      exact fenceAction_ne_forget (hkept original horiginal)
    obtain ⟨hend, hidle⟩ := Fencing.finished_stays hfenced hnoforget
    refine ⟨?_, ?_⟩
    · intro event' hevent'
      by_contra hmore
      obtain ⟨token', record', haction'⟩ := fenceAction_completes (by simpa using hmore)
      have hquiet := hidle _ (List.mem_map_of_mem hevent')
      rw [haction'] at hquiet
      cases hquiet
    · obtain ⟨row, hrow, hstate, hrecord⟩ := terminal_of_finished hafter
      obtain ⟨row', hrow', hstate', hrecord'⟩ := terminal_of_finished hend
      exact ⟨row, row', hrow, hrow', hstate, hstate', hrecord'.trans hrecord.symm⟩

end Fenced

/-- Lease fencing for one event, over every interleaving of calls from a fresh
ledger with any clocks, when the claims of the event draw distinct tokens. At
most one issued lease can act; a lease that was superseded, given back or
consumed never writes again; an owner operation succeeds only while the row is
claimed by its token and the claim has not expired; and between two prunes the
event is completed at most once, after which its terminal row stays as it is. -/
theorem lease_fencing {x : Crates} {history : LedgerHistory} {l : Ledger} {e : EventId}
    (hrun : LedgerRun x .empty history l)
    (hfresh : ((issuedLeases e history).map (·.token)).Nodup) :
    (∀ lease ∈ issuedLeases e history, ∀ other ∈ issuedLeases e history,
      (∃ (op : ClaimOp) (now : UnixTimestamp) (random : Entropy) (outcome : op.Value × Ledger),
        op.owner = some (lease, now) ∧ op.run random l = .ok outcome) →
      (∃ (op : ClaimOp) (now : UnixTimestamp) (random : Entropy) (outcome : op.Value × Ledger),
        op.owner = some (other, now) ∧ op.run random l = .ok outcome) → lease = other) ∧
    (∀ later event earlier, history = later ++ event :: earlier →
      ∀ lease ∈ issuedLeases e earlier, event.label.Retires lease →
        ∀ event' ∈ later, ∀ (op : ClaimOp) (reply : (LedgerOp.claim op).Reply)
          (now : UnixTimestamp), event'.label = ⟨.claim op, reply⟩ →
          op.owner = some (lease, now) → event'.after = event'.before) ∧
    (∀ event ∈ history, ∀ (op : ClaimOp) (value : op.Value) (lease : EventLease)
      (now : UnixTimestamp), event.label = ⟨.claim op, .ok value⟩ →
      op.owner = some (lease, now) →
        ∃ row ∈ event.before.wakeEvents, row.eventId = lease.eventId ∧ row.state = .claimed ∧
          row.claimToken = some lease.token ∧ ∃ a, row.availableAt = some a ∧ now < a) ∧
    (∀ later event earlier, history = later ++ event :: earlier →
      event.label.completes e = true → (∀ event' ∈ later, ¬ Prunes e event') →
        (∀ event' ∈ later, event'.label.completes e = false) ∧
        ∃ row row', event.after.eventOf e = some row ∧ l.eventOf e = some row' ∧
          row.state = .terminal ∧ row'.state = .terminal ∧
          row'.terminalRecord = row.terminalRecord) := by
  have hevent : ∀ {past : LedgerHistory} {m : Ledger} {lease : EventLease},
      LedgerRun x .empty past m → lease ∈ issuedLeases e past → lease.eventId = e :=
    fun hpast hissued => issued_eventId hpast hissued
  refine ⟨?_, ?_, ?_, ?_⟩
  · rintro lease hlease other hother ⟨op, now, random, ⟨value, l'⟩, howner, hop⟩
      ⟨op', now', random', ⟨value', l''⟩, howner', hop'⟩
    have hheld := held_of_acts howner hop
    have hheld' := held_of_acts howner' hop'
    rw [hevent hrun hlease] at hheld
    rw [hevent hrun hother, hheld] at hheld'
    exact List.inj_on_of_nodup_map hfresh hlease hother (Fencing.Slot.held.inj hheld')
  · rintro later event earlier rfl lease hlease hretires event' hevent' op reply now hlabel howner
    have hrun' := hrun.split
    have hid : lease.eventId = e := hevent hrun'.1 hlease
    subst hid
    -- in a successful later call the fenced resource would be presented a retired token
    have hfenced := fencing_run hrun lease.eventId
    rw [← drawn_fencedHistory] at hfresh
    simp only [fencedHistory, List.map_append, List.map_cons] at hfenced hfresh
    have hdrawn : lease.token ∈ Fencing.drawn (fencedHistory lease.eventId earlier) := by
      rw [drawn_fencedHistory]
      exact List.mem_map_of_mem hlease
    have hother : ∀ next, event.label.issued lease.eventId = some next →
        next.token ≠ lease.token := by
      intro next hnext hsame
      have hdraw := fenceAction_drawn (e := lease.eventId) event
      rw [hnext, Option.map_some, hsame] at hdraw
      rw [Fencing.drawn_append] at hfresh
      have htail := (List.nodup_append.mp hfresh).2.1
      simp only [Fencing.drawn, List.filterMap_cons, hdraw, List.nodup_cons] at htail
      exact htail.1 hdrawn
    have hnever := Fencing.retired hfenced hfresh hdrawn (fenceAction_retires hretires hother)
    have hstep := hrun'.2.2.step_of_mem hevent'
    obtain ⟨before, label, after⟩ := event'
    change label = _ at hlabel
    subst hlabel
    cases reply with
    | error error => exact hstep.eq_of_error
    | ok value =>
      exact absurd (fenceAction_presented howner) (hnever _ (List.mem_map_of_mem hevent'))
  · intro event hmem op value lease now hlabel howner
    have hstep := hrun.step_of_mem hmem
    rw [hlabel] at hstep
    obtain ⟨random, hop⟩ := hstep.run_of_ok
    obtain ⟨row, hwrite⟩ := ownerOp_ok howner hop
    obtain ⟨hid, hstate, htoken, havailable⟩ := owned_eq_true.mp hwrite.owned
    exact ⟨row, hwrite.mem, hid, hstate, htoken, havailable⟩
  · rintro later event earlier rfl hcompletes hkept
    exact completed_stays hrun hcompletes hkept

namespace Sample

def claim (op : ClaimOp) (token : BitVec 128) : LedgerOp × Entropy :=
  (.claim op, ⟨some ⟨token⟩, none⟩)

def firstLease : EventLease := ⟨⟨7⟩, ⟨1⟩, false, false⟩

def secondLease : EventLease := ⟨⟨7⟩, ⟨2⟩, true, true⟩

/-- A worker's lease expires, a second worker takes the event over and completes
it, and the first worker's late completion loses. -/
def contended : LedgerHistory × Ledger :=
  performAll crates .empty
    [claim (.completeEvent firstLease .completed (some "late") 114) 3,
     claim (.completeEvent secondLease .completed (some "response") 113) 3,
     claim (.claimEvent ⟨7⟩ connectionId 0 111 (.fromSecs 10)) 2,
     claim (.acceptEventFreshness firstLease 105) 3,
     claim (.claimEvent ⟨7⟩ connectionId 0 100 (.fromSecs 10)) 1]

theorem contended_run : LedgerRun crates .empty contended.1 contended.2 := performAll_run _ _ _

end Sample

theorem lease_fencing_contended :
    (∀ lease ∈ issuedLeases ⟨7⟩ Sample.contended.1, ∀ other ∈ issuedLeases ⟨7⟩ Sample.contended.1,
      (∃ (op : ClaimOp) (now : UnixTimestamp) (random : Entropy) (outcome : op.Value × Ledger),
        op.owner = some (lease, now) ∧ op.run random Sample.contended.2 = .ok outcome) →
      (∃ (op : ClaimOp) (now : UnixTimestamp) (random : Entropy) (outcome : op.Value × Ledger),
        op.owner = some (other, now) ∧ op.run random Sample.contended.2 = .ok outcome) →
      lease = other) ∧
      issuedLeases ⟨7⟩ Sample.contended.1 = [Sample.secondLease, Sample.firstLease] ∧
      (Sample.contended.2.eventOf ⟨7⟩).map (·.terminalRecord) =
        some ⟨some .completed, some "response", none⟩ := by
  refine ⟨(lease_fencing Sample.contended_run ?_).1, ?_, ?_⟩
  · decide
  · decide
  · decide

end NwcMobile
