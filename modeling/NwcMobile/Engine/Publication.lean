import NwcMobile.Engine.Authorization

/-!
Commit before publish. A response is handed to a relay only after it stands in
the terminal row of its event, and that row keeps it until it is pruned.
-/

namespace NwcMobile

open Program Concurrent Transition Fallible

/-- The event's terminal row holds this response. -/
def Ledger.Responded (l : Ledger) (e : EventId) (json : String) : Prop :=
  ∃ row, l.eventOf e = some row ∧ row.state = .terminal ∧ row.responseEventJson = some json

/-- At this step execution `i` of a wake for event `e` publishes `json`. -/
def Publishes (i : Nat) (e : EventId) (json : String) (event : Event SystemWorld SystemLabel) :
    Prop :=
  (∃ relay context reply, Asked i (.publishEvent relay json context) reply event) ∧
    ∃ t policy wake, event.before.threads[i]? = some t ∧ t.job = .wake policy wake ∧
      wake.eventId = e

section Responses

variable {x : Crates} {l l' : Ledger} {e : EventId} {json json' : String} {lease : EventLease}
  {history : LedgerHistory}

theorem Ledger.Responded.unique (h : l.Responded e json) (h' : l.Responded e json') :
    json = json' := by
  obtain ⟨row, hrow, -, hjson⟩ := h
  obtain ⟨row', hrow', -, hjson'⟩ := h'
  rw [hrow, Option.some.injEq] at hrow'
  rw [← hrow', hjson, Option.some.injEq] at hjson'
  exact hjson'

theorem Ledger.Responded.stays (h : l.Responded e json) (hrun : LedgerRun x l history l')
    (hkept : ∀ event ∈ history, ¬ Prunes e event) : l'.Responded e json := by
  obtain ⟨row, hrow, hterminal, hjson⟩ := h
  obtain ⟨row', hrow', hterminal', hrecord⟩ := terminal_stays hrun hrow hterminal hkept
  refine ⟨row', hrow', hterminal', ?_⟩
  exact (congrArg TerminalRecord.responseEventJson hrecord).trans hjson

/-- A completion by an owner leaves the row it wrote. -/
theorem LedgerStep.ownerRow {op : ClaimOp} {value : op.Value} {now : UnixTimestamp}
    (h : LedgerStep x l ⟨.claim op, .ok value⟩ l') (howner : op.owner = some (lease, now)) :
    ∃ row, l'.eventOf lease.eventId = some (op.rewrite row) := by
  have hstep := h.eventStep lease.eventId
  generalize l.eventOf lease.eventId = before at hstep
  generalize l'.eventOf lease.eventId = after at hstep
  cases hstep with
  | kept hkept => cases op <;> simp_all [LedgerCall.writesEvent, ClaimOp.owner]
  | opened => cases howner
  | resumed _ _ _ _ _ => cases howner
  | @owned _ _ _ _ row _ _ _ => exact ⟨row, rfl⟩
  | pruned _ _ => cases howner

theorem responded_of_completion {c : ConnectionId} {revision : ConnectionRevision}
    {now : UnixTimestamp}
    (h : LedgerStep x l
      ⟨.claim (.completeEventForActiveConnection lease c revision json now), .ok ()⟩ l') :
    l'.Responded lease.eventId json := by
  obtain ⟨row, hrow⟩ := h.ownerRow rfl
  exact ⟨_, hrow, rfl, rfl⟩

theorem responded_of_completionNwc {c : ConnectionId} {revision : ConnectionRevision}
    {method : NwcMethod} {now : UnixTimestamp}
    (h : LedgerStep x l
      ⟨.claim (.completeNwcEventForActiveConnection lease c revision json method now), .ok ()⟩ l') :
    l'.Responded lease.eventId json := by
  obtain ⟨row, hrow⟩ := h.ownerRow rfl
  exact ⟨_, hrow, rfl, rfl⟩

theorem responded_of_terminal {c : ConnectionId} {revision : ConnectionRevision}
    {now : UnixTimestamp} {duration : Duration} {terminal : TerminalEvent}
    (h : LedgerStep x l
      ⟨.claim (.claimEvent e c revision now duration), .ok (.terminal terminal)⟩ l')
    (hjson : terminal.responseEventJson = some json) : l'.Responded e json := by
  obtain ⟨random, hop⟩ := h.run_of_ok
  obtain ⟨_, -, houtcome, -⟩ | ⟨row, hmem, hevent, -, -, ⟨found, hstate, hfound, houtcome, rfl⟩ |
    ⟨_, -, -, -, houtcome, -⟩ | ⟨_, _, -, -, -, -, houtcome, -⟩⟩ := claimEvent_ok hop
  · cases houtcome
  · cases houtcome
    simp only [Claims.terminalFromRow, bind_eq_ok, ensure_eq_ok, okOr_eq_ok, pure_eq_ok] at hfound
    obtain ⟨-, -, kind, -, -, -, method, -, rfl⟩ := hfound
    exact ⟨row, eventOf_eq_some.mpr ⟨hmem, hevent⟩, hstate, hjson⟩
  · cases houtcome
  · cases houtcome

end Responses

section Runs

variable {x : Crates} {outside : HostCall → Prop} {l : Ledger} {history earlier : SystemHistory}
  {w : SystemWorld} {i : Nat} {log : HostLog} {e : EventId} {json : String}

/-- What an execution counts as committed stood in the terminal row at an earlier
step. -/
theorem Committed.responded (h : Committed log e json)
    (hrun : SystemRun x outside l earlier w)
    (hlog : ∀ prior ∈ log, ∃ event ∈ earlier, event.label = .act i prior) :
    ∃ commit ∈ earlier, commit.after.shared.Responded e json := by
  have hstep : ∀ {op : LedgerOp} {reply : op.Reply}, Answered log (.ledger op) reply →
      ∃ event ∈ earlier, LedgerStep x event.before.shared ⟨op, reply⟩ event.after.shared := by
    intro op reply hanswered
    obtain ⟨event, hmem, hlabel⟩ := hlog _ hanswered
    have hsystem := hrun.step_of_mem hmem
    rw [hlabel] at hsystem
    exact ⟨event, hmem, SystemStep.ledgerStep hsystem⟩
  cases h with
  | completed claimed done =>
    obtain ⟨claim, -, hclaim⟩ := hstep claimed
    obtain ⟨commit, hmem, hcommit⟩ := hstep done
    rw [← hclaim.acquired.1]
    exact ⟨commit, hmem, responded_of_completion hcommit⟩
  | completedNwc claimed done =>
    obtain ⟨claim, -, hclaim⟩ := hstep claimed
    obtain ⟨commit, hmem, hcommit⟩ := hstep done
    rw [← hclaim.acquired.1]
    exact ⟨commit, hmem, responded_of_completionNwc hcommit⟩
  | found claimed json_eq =>
    obtain ⟨commit, hmem, hcommit⟩ := hstep claimed
    exact ⟨commit, hmem, responded_of_terminal hcommit json_eq⟩

/-- Before a publication its response stood in the event's terminal row. -/
theorem publication_committed {later : SystemHistory} {event : Event SystemWorld SystemLabel}
    (hrun : SystemRun x outside l (later ++ event :: earlier) w)
    (hpublishes : Publishes i e json event) :
    ∃ commit ∈ earlier, commit.after.shared.Responded e json := by
  obtain ⟨⟨relay, context, reply, hasked⟩, t, policy, wake, hthread, hjob, rfl⟩ := hpublishes
  obtain ⟨t', hthread', hguard, hlog⟩ := SystemRun.act_guard hrun hasked
  rw [hthread, Option.some.injEq] at hthread'
  subst hthread'
  rw [hjob] at hguard
  obtain ⟨connection, validated, -, hcommitted⟩ := hguard
  obtain ⟨hbefore, -, -⟩ := hrun.split
  exact hcommitted.responded hbefore hlog

theorem final_of_failed {call : HostCall} (h : FailedCompletion call) : Final call := by
  obtain ⟨op, reply⟩ := call
  cases op with
  | publishEvent relay json context => trivial
  | _ => exact h

theorem passive_not_final {call : HostCall} (h : PassiveGuard log call.op) : ¬ Final call := by
  obtain ⟨op, reply⟩ := call
  cases op with
  | ledger op => cases op with
    | claim op => exact h.elim
    | _ => exact id
  | publishEvent relay json context => exact h.elim
  | _ => exact id

/-- No final call has been made before one. -/
theorem wakeGuard_unfinished {policy : WakePolicy} {wake : WakeInput} {call : HostCall}
    (h : WakeGuard x policy wake log call.op) (hcall : Final call) : Unfinished log := by
  obtain ⟨op, reply⟩ := call
  cases op with
  | ledger op => cases op with
    | claim op => cases op with
      | completeEvent lease kind json now =>
        obtain ⟨-, r, hclaimed, -⟩ := h
        exact hclaimed.bound.unfinished
      | completeEventForActiveConnection lease c revision json now =>
        obtain ⟨-, r, response, secret, createdAt, nonce, hclaimed, -⟩ := h
        exact hclaimed.bound.unfinished
      | completeNwcEventForActiveConnection lease c revision json method now =>
        obtain ⟨-, r, response, secret, createdAt, nonce, hclaimed, -⟩ := h
        exact hclaimed.bound.unfinished
      | _ => exact hcall.elim
    | _ => exact hcall.elim
  | publishEvent relay json context =>
    obtain ⟨connection, validated, hbound, -⟩ := h
    exact hbound.unfinished
  | _ => exact hcall.elim

/-- The final calls of an execution exclude each other. -/
theorem final_of_earlier {later : SystemHistory} {event prior : Event SystemWorld SystemLabel}
    {call final : HostCall} (hrun : SystemRun x outside l (later ++ event :: earlier) w)
    (hlabel : event.label = .act i call) (hcall : Final call) (hprior : prior ∈ earlier)
    (hpriorLabel : prior.label = .act i final) : ¬ Final final := by
  obtain ⟨t, hthread, hguard, -⟩ := SystemRun.act_guard hrun hlabel
  obtain ⟨hbefore, -, -⟩ := hrun.split
  obtain ⟨t', hthread', hlogged⟩ := event_log hbefore prior hprior hpriorLabel
  rw [hthread, Option.some.injEq] at hthread'
  subst hthread'
  suffices hopen : Unfinished t.log from hopen final hlogged
  cases hjob : t.job with
  | reconcile maxAttempts =>
    rw [hjob] at hguard
    exact absurd hcall (passive_not_final hguard)
  | migrate imports =>
    rw [hjob] at hguard
    exact absurd hcall (passive_not_final hguard)
  | wake policy wake =>
    rw [hjob] at hguard
    exact wakeGuard_unfinished hguard hcall

end Runs

/-- Commit before publish, and one response per request, for any interleaving of
executions, crashes and other ledger calls from any ledger. Whatever is
published for an event stood in its terminal row before and stays there until the
row is pruned; so without a prune all publications for the event are the same;
and an execution one of whose completions failed publishes nothing. -/
theorem commit_before_publish {x : Crates} {outside : HostCall → Prop} {l : Ledger}
    {history : SystemHistory} {w : SystemWorld} (hrun : SystemRun x outside l history w) :
    (∀ event ∈ history, ∀ i e json, Publishes i e json event →
      ∃ recent commit older, history = recent ++ commit :: older ∧ event ∈ recent ∧
        commit.after.shared.Responded e json ∧
        ((∀ prune ∈ ledgerHistory recent, ¬ Prunes e prune) → w.shared.Responded e json)) ∧
    (∀ e, (∀ prune ∈ ledgerHistory history, ¬ Prunes e prune) →
      ∀ event ∈ history, ∀ event' ∈ history, ∀ i i' json json',
        Publishes i e json event → Publishes i' e json' event' → json = json') ∧
    (∀ event ∈ history, ∀ event' ∈ history, ∀ i e json failed,
      Publishes i e json event → event'.label = .act i failed → ¬ FailedCompletion failed) := by
  have hcommitted : ∀ event ∈ history, ∀ i e json, Publishes i e json event →
      ∃ recent commit older, history = recent ++ commit :: older ∧ event ∈ recent ∧
        commit.after.shared.Responded e json ∧
        ((∀ prune ∈ ledgerHistory recent, ¬ Prunes e prune) → w.shared.Responded e json) := by
    intro event hevent i e json hpublishes
    obtain ⟨later, earlier, rfl⟩ := List.append_of_mem hevent
    obtain ⟨commit, hcommit, hresponded⟩ := publication_committed hrun hpublishes
    obtain ⟨newer, older, rfl⟩ := List.append_of_mem hcommit
    refine ⟨later ++ event :: newer, commit, older, by simp, by simp, hresponded, ?_⟩
    intro hkept
    have hsplit : later ++ event :: (newer ++ commit :: older) =
        (later ++ event :: newer) ++ commit :: older := by simp
    rw [hsplit] at hrun
    exact hresponded.stays (ledgerRun_of_run hrun.split.2.2) hkept
  refine ⟨hcommitted, ?_, ?_⟩
  · intro e hkept event hevent event' hevent' i i' json json' hpublishes hpublishes'
    have hcurrent : ∀ {event i json}, event ∈ history → Publishes i e json event →
        w.shared.Responded e json := by
      intro event i json hmem hpublished
      obtain ⟨recent, commit, older, rfl, -, -, hstays⟩ := hcommitted event hmem i e json hpublished
      apply hstays
      intro prune hprune
      apply hkept prune
      rw [ledgerHistory, List.filterMap_append]
      exact List.mem_append_left _ hprune
    exact (hcurrent hevent hpublishes).unique (hcurrent hevent' hpublishes')
  · intro event hevent event' hevent' i e json failed hpublishes hlabel hfailed
    obtain ⟨⟨relay, context, reply, hasked⟩, -⟩ := hpublishes
    obtain ⟨later, earlier, rfl⟩ := List.append_of_mem hevent
    rcases List.mem_append.mp hevent' with hlater | hrest
    · -- the failure comes after the publication
      obtain ⟨newer, older, rfl⟩ := List.append_of_mem hlater
      rw [List.append_assoc, List.cons_append] at hrun
      exact final_of_earlier hrun hlabel (final_of_failed hfailed) (by simp) hasked trivial
    · rcases List.mem_cons.mp hrest with rfl | hprior
      · rw [hasked] at hlabel
        cases hlabel
        exact hfailed
      · exact final_of_earlier hrun hasked trivial hprior hlabel (final_of_failed hfailed)

namespace Sample

/-- The lease under which the first event is completed before any wake. -/
def answeredLease : EventLease := ⟨firstEvent.id, ⟨1⟩, false, false⟩

/-- The first event is answered; a later wake publishes the answer again. -/
def republishing : List Move :=
  List.replicate 11 (Move.act 0 (payingScript 1010 2)) ++
  [Move.spawn firstWake,
   Move.outside
     (.claim (.completeEventForActiveConnection answeredLease connectionId 0 "response" 1002))
     (script 1002 0),
   Move.outside (.claim (.claimEvent firstEvent.id connectionId 0 1001 (.fromSecs 10)))
     (script 1001 1),
   Move.outside (.registry (.insertConnection connection 1000)) (script 1000 0)]

def republished : SystemHistory × SystemWorld := play quickProgram crates .empty republishing

theorem republished_run : SystemRun crates (fun _ => True) .empty republished.1 republished.2 := by
  apply play_run
  · intro job hjob
    apply quickProgram_eq
    simp only [republishing, List.mem_append, List.mem_replicate, List.mem_cons, List.not_mem_nil,
      reduceCtorEq, and_false, false_or, or_false, Move.spawn.injEq] at hjob
    exact Or.inl hjob
  · intros
    trivial

end Sample

theorem commit_before_publish_republished :
    ∃ event earlier, Sample.republished.1 = event :: earlier ∧
      Publishes 0 Sample.firstEvent.id "response" event ∧
      ∃ recent commit older, Sample.republished.1 = recent ++ commit :: older ∧ event ∈ recent ∧
        commit.after.shared.Responded Sample.firstEvent.id "response" := by
  have hpublishes : ∃ event earlier, Sample.republished.1 = event :: earlier ∧
      Publishes 0 Sample.firstEvent.id "response" event :=
    ⟨_, _, rfl, ⟨_, _, .ok (), rfl⟩, _, Sample.wakePolicy,
      Sample.wakeFor Sample.firstEvent Sample.firstEventJson, rfl, rfl, rfl⟩
  obtain ⟨event, earlier, hhistory, hpublishes⟩ := hpublishes
  have hmem : event ∈ Sample.republished.1 := by
    rw [hhistory]
    exact List.mem_cons_self
  obtain ⟨recent, commit, older, hsplit, hrecent, hresponded, -⟩ :=
    (commit_before_publish Sample.republished_run).1 event hmem 0 _ _ hpublishes
  exact ⟨event, earlier, hhistory, hpublishes, recent, commit, older, hsplit, hrecent, hresponded⟩

end NwcMobile
