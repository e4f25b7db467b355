import NwcMobile.Engine.Initiation
import NwcMobile.Engine.Replay
import NwcMobile.Foreground

/-!
Retries of a foreground process. An event that was released for a retry is claimable
again after the engine's delay, and until then it counts as being processed; so the
process drops its own retry if the coordinator's delay is the shorter one.
-/

namespace NwcMobile

open Program Prog Concurrent Transition Nip47 Fallible

/-- The program progresses, whatever it asks for. -/
abbrev Ending (log : HostLog) (p : HostProg WakeDisposition) : Prop :=
  Spec (fun _ _ => True) log p fun _ disposition => Progressed disposition

/-- The event is reported as already processed because the ledger answered a claim by
the event's state, and none by a lease. -/
structure Reported (log : HostLog) (disposition : WakeDisposition) : Prop where
  processed : ∃ notification, disposition = .alreadyProcessed notification
  answered : ∃ e c revision now duration outcome,
    Answered log (.ledger (.claim (.claimEvent e c revision now duration))) (.ok outcome) ∧
      ∀ lease, outcome ≠ .acquired lease
  unclaimed : Unclaimed log

section Endings

variable {x : Crates} {policy : WakePolicy} {wake : WakeInput} {log : HostLog}
  {r : ClaimedRequest} {attempt : PaymentAttempt} {invoice : String}
  {explicitAmount : Option AmountMsat} {payment : Nip47.PayInvoiceRequest}
  {p : HostProg WakeDisposition}

theorem ending_of_plain (h : Plain log p) : Ending log p :=
  h.guard_imp fun _ _ _ => trivial

theorem ends_discardForeignStatus : Ending log (discardForeignStatus x r attempt) := by
  refine ⟨trivial, fun now => ⟨trivial, fun released => ?_⟩⟩
  cases released with
  | error _ => exact ending_of_plain routine_releaseToApplication.plain
  | ok _ => exact ending_of_plain routine_respondWithError.plain

theorem ends_checkPaymentStatus :
    Ending log (checkPaymentStatus x r invoice explicitAmount attempt) := by
  refine spec_trivial.seq fun log' context _ => ?_
  cases context with
  | none => exact ending_of_plain routine_retryClaim.plain
  | some context =>
    refine ⟨trivial, fun status => ?_⟩
    have hknown : ∀ status, Ending
        (⟨.wallet (.paymentStatus attempt.paymentHash) context, .ok status⟩ :: log')
        (if attempt.mayDiscloseSettlement then
          finishPaymentStatus x r invoice attempt.paymentHash status
        else discardForeignStatus x r attempt) := by
      intro status
      split
      · exact ending_of_plain plain_finishPaymentStatus
      · exact ends_discardForeignStatus
    match status with
    | .error _ => exact ⟨trivial, fun _ => ending_of_plain routine_retryClaim.plain⟩
    | .ok .unknown => exact ending_of_plain plain_resumePayment
    | .ok .pending => exact hknown _
    | .ok (.succeeded preimage amount fee) => exact hknown _
    | .ok (.failed reason) => exact hknown _

theorem ends_continuePayment :
    Ending log (continuePayment x r invoice explicitAmount attempt) := by
  unfold continuePayment
  split
  · exact ending_of_plain routine_respondWithError.plain
  · split
    · refine (plain_ensureClaimConnectionActive.guard_imp fun _ _ _ => trivial).seq
        fun log' active hactive => ?_
      cases active with
      | error disposition => exact hactive disposition rfl
      | ok _ => exact ending_of_plain routine_respondWithError.plain
    · split
      · exact ending_of_plain plain_resumePayment
      · exact ends_checkPaymentStatus

theorem ends_reserveQuoted {hash : PaymentHash} {principal : Nat} :
    Ending log (reserveQuoted x r payment hash principal) := by
  refine ⟨trivial, fun now => ⟨trivial, fun reservation => ?_⟩⟩
  match reservation with
  | .ok (.reserved attempt) => exact ends_continuePayment
  | .ok (.existing attempt) => exact ends_continuePayment
  | .ok (.alreadyTracked attempt) => exact ending_of_plain routine_respondWithError.plain
  | .error .budgetExceeded =>
    exact ⟨trivial, fun _ => ending_of_plain routine_respondWithError.plain⟩
  | .error .connectionUnavailable => exact ending_of_plain routine_rejectClaim.plain
  | .error .invalidAmount => exact ending_of_plain routine_respondWithError.plain
  | .error .valueOutOfRange => exact ending_of_plain routine_respondWithError.plain
  | .error .reservationConflict => exact ending_of_plain routine_respondWithError.plain
  | .error .databaseUnavailable => exact ending_of_plain routine_releaseToApplication.plain
  | .error .corruptData => exact ending_of_plain routine_releaseToApplication.plain
  | .error .terminalStateConflict => exact ending_of_plain routine_releaseToApplication.plain

theorem ends_quotePayment : Ending log (quotePayment x r payment) := by
  refine spec_trivial.seq fun log' context _ => ?_
  cases context with
  | none => exact ending_of_plain routine_releaseToApplication.plain
  | some context =>
    refine ⟨trivial, fun quote => ?_⟩
    cases quote with
    | error error =>
      refine ⟨trivial, fun _ => ?_⟩
      dsimp only [Prog.bind]
      split
      · exact ending_of_plain routine_retryClaim.plain
      · split
        · exact ending_of_plain routine_releaseToApplication.plain
        · exact ending_of_plain routine_respondWithError.plain
    | ok quote =>
      dsimp only [Prog.bind]
      split
      · exact ending_of_plain routine_respondWithError.plain
      · split
        · exact ending_of_plain routine_respondWithError.plain
        · exact ends_reserveQuoted

theorem ends_executePayment : Ending log (executePayment x r payment) := by
  refine ⟨trivial, fun existing => ?_⟩
  match existing with
  | .error _ => exact ending_of_plain routine_releaseToApplication.plain
  | .ok (some attempt) =>
    dsimp only [Prog.bind]
    split
    · exact ending_of_plain routine_respondWithError.plain
    · exact ends_continuePayment
  | .ok none =>
    dsimp only [Prog.bind]
    split
    · exact ending_of_plain routine_respondWithError.plain
    · exact ends_quotePayment

theorem ends_dispatchRequest {request : Nip47.Request} :
    Ending log (dispatchRequest x r request) := by
  unfold dispatchRequest
  split
  · exact ending_of_plain routine_respondWithError.plain
  · split
    · exact ending_of_plain routine_respondWithError.plain
    · split
      · refine ⟨trivial, fun _ => ?_⟩
        dsimp only [Prog.bind]
        split
        · exact ends_executePayment
        · exact ending_of_plain routine_rejectClaim.plain
      · split
        · exact ending_of_plain routine_respondWithError.plain
        · exact ending_of_plain plain_executeDirect

/-- Under an acquired claim an execution progresses. -/
theorem ends_executeClaimed : Ending log (executeClaimed x policy r) := by
  refine (plain_acceptFreshness.guard_imp fun _ _ _ => trivial).seq fun log₁ fresh hfresh => ?_
  cases fresh with
  | error disposition => exact hfresh disposition rfl
  | ok _ =>
    refine (plain_decryptRequest.guard_imp fun _ _ _ => trivial).seq fun log₂ request hrequest => ?_
    cases request with
    | error disposition => exact hrequest disposition rfl
    | ok request => exact ends_dispatchRequest

/-- Only the answer to a claim is reported as already processed. -/
theorem ends_claimAndExecute {relay : SecureRelayUrl} {connection : ActiveConnection}
    {validated : ValidatedNwcEvent} (h : Unclaimed log) :
    Spec (fun _ _ => True) log (claimAndExecute x policy relay connection validated)
      fun log' disposition => Progressed disposition ∨ Reported log' disposition := by
  refine ⟨trivial, fun remaining => ?_⟩
  have hremaining : Unclaimed (⟨.deadlineRemaining, remaining⟩ :: log) := h.cons nofun
  dsimp only [Prog.bind]
  split
  · exact Or.inl trivial
  · refine ⟨trivial, fun now => ⟨trivial, fun outcome => ?_⟩⟩
    have hclock : Unclaimed (⟨.clockNow, now⟩ :: ⟨.deadlineRemaining, remaining⟩ :: log) :=
      hremaining.cons nofun
    match outcome with
    | .error _ => exact Or.inl trivial
    | .ok (.inProgress retryAfter) =>
      exact Or.inr ⟨⟨_, rfl⟩, ⟨_, _, _, _, _, _, List.mem_cons_self, nofun⟩,
        hclock.claim fun lease heq => by cases heq⟩
    | .ok (.terminal terminal) =>
      dsimp only [Prog.bind]
      cases terminal.responseEventJson with
      | none =>
        exact Or.inr ⟨⟨_, rfl⟩, ⟨_, _, _, _, _, _, List.mem_cons_self, nofun⟩,
          hclock.claim fun lease heq => by cases heq⟩
      | some json =>
        exact (ending_of_plain routine_republishTerminal.plain).imp fun _ _ h => Or.inl h
    | .ok (.acquired lease) => exact ends_executeClaimed.imp fun _ _ h => Or.inl h

theorem ends_execute :
    Spec (fun _ _ => True) [] (execute x policy wake) fun log' disposition =>
      Progressed disposition ∨ Reported log' disposition := by
  have hempty : Unclaimed [] := fun _ _ _ _ _ _ hanswered => by cases hanswered
  refine ⟨trivial, fun cancelled => ?_⟩
  have hcancelled : Unclaimed [⟨.isCancelled, cancelled⟩] := hempty.cons nofun
  cases cancelled with
  | true => exact Or.inl trivial
  | false =>
    refine ⟨trivial, fun time => ?_⟩
    have hclock : Unclaimed [⟨.clockNow, time⟩, ⟨.isCancelled, false⟩] := hcancelled.cons nofun
    dsimp only [Prog.bind]
    split
    · exact Or.inl trivial
    · rename_i relay _
      refine ⟨trivial, fun approved => ?_⟩
      have happroved : Unclaimed [⟨.ledger (.registry (.isRelayApprovedForWallet
          wake.walletServicePubkey relay time)), approved⟩, ⟨.clockNow, time⟩,
          ⟨.isCancelled, false⟩] := hclock.cons nofun
      match approved with
      | .ok false => exact Or.inl trivial
      | .error _ => exact Or.inl trivial
      | .ok true =>
        refine ((Spec.and plain_obtainEvent (happroved.spec noClaim_obtainEvent)).guard_imp
          fun _ _ _ => trivial).seq fun log₁ eventJson hlog₁ => ?_
        cases eventJson with
        | error disposition => exact Or.inl (hlog₁.1 disposition rfl)
        | ok eventJson =>
          refine ((Spec.and plain_bindConnection (hlog₁.2.spec noClaim_bindConnection)).guard_imp
            fun _ _ _ => trivial).seq fun log₂ bound hlog₂ => ?_
          match bound with
          | .error disposition => exact Or.inl (hlog₂.1 disposition rfl)
          | .ok (connection, validated) => exact ends_claimAndExecute hlog₂.2

theorem Job.ends (x : Crates) (job : Job) :
    Spec (fun _ _ => True) [] (job.program x) fun log result => ∀ disposition,
      result = .wake disposition → Progressed disposition ∨ Reported log disposition := by
  cases job with
  | wake policy input =>
    refine ends_execute.seq fun log disposition hends disposition' heq => ?_
    cases heq
    exact hends
  | reconcile maxAttempts => exact spec_trivial.seq fun _ _ _ disposition heq => by cases heq
  | migrate imports => exact spec_trivial.seq fun _ _ _ disposition heq => by cases heq

end Endings

/-- One wall clock, counted in nanoseconds, that never goes back; readings show its
whole seconds. -/
structure ReadFromClock (time : Nat → Nat) (history : SystemHistory) : Prop where
  monotone : Monotone time
  reading : ∀ later event earlier i now, history = later ++ event :: earlier →
    Asked i .clockNow now event → now = time earlier.length / Duration.nanosPerSec

/-- Someone acquires the event at this step. -/
def Acquires (e : EventId) (event : Event SystemWorld SystemLabel) : Prop :=
  ∃ c revision now duration lease, systemLedgerCall event.label =
    some ⟨.claim (.claimEvent e c revision now duration), .ok (.acquired lease)⟩

/-- Execution `i` has handed the event back at the step `release`, and execution `j`
is the foreground process's retry: the coordinator decided on it when it handled the
first execution's disposition, it runs no earlier than the decided delay after that,
and nobody else has acquired the event since. -/
structure ForegroundRetry (policy : ForegroundWakePolicy) (time : Nat → Nat)
    (later : SystemHistory) (release : Event SystemWorld SystemLabel) (earlier : SystemHistory)
    (w : SystemWorld) (e : EventId) (i j : Nat) : Prop where
  released : ∃ lease now delay, lease.eventId = e ∧
    Asked i (.ledger (.claim (.retryLater lease now delay))) (.ok ()) release
  handled : ∃ (c : ForegroundWakeCoordinator EventId) (handledAt : Nat) (disposition : WakeDisposition)
      (delay : Duration) (cause : ForegroundWakeRetryCause),
    ForegroundReachable policy c ∧
    (∃ t wakePolicy input, w.threads[i]? = some t ∧ t.job = .wake wakePolicy input ∧
      input.eventId = e ∧ t.rest = .done (.wake disposition)) ∧
    (c.handleDisposition e disposition).1 = .retry delay cause ∧
    (∀ newer event older call, later ++ release :: earlier = newer ++ event :: older →
      event.label = .act i call → time older.length ≤ handledAt) ∧
    ∀ newer event older call, later ++ release :: earlier = newer ++ event :: older →
      event.label = .act j call → handledAt + delay.nanos ≤ time older.length
  retries : ∃ t wakePolicy input, w.threads[j]? = some t ∧ t.job = .wake wakePolicy input ∧
    input.eventId = e
  alone : ∀ event ∈ later, Acquires e event → ∃ call, event.label = .act j call

/-- The row can be claimed from the given time on. -/
def Ledger.RetryableAt (l : Ledger) (e : EventId) (available : Nat) : Prop :=
  ∃ row, l.eventOf e = some row ∧ row.state = .retryable ∧ row.availableAt = some available

section Retrying

variable {x : Crates} {outside : HostCall → Prop} {l : Ledger} {w w₀ : SystemWorld} {e : EventId}
  {time : Nat → Nat} {later earlier history : SystemHistory}
  {event release : Event SystemWorld SystemLabel} {i j : Nat} {available : Nat}
  {policy : ForegroundWakePolicy}

/-- A row that waits for a retry waits until somebody acquires it. -/
theorem Ledger.RetryableAt.run (h : w₀.shared.RetryableAt e available)
    (hrun : Run (SystemStep x outside) w₀ history w)
    (hnone : ∀ event ∈ history, ¬ Acquires e event) : w.shared.RetryableAt e available := by
  induction hrun with
  | refl => exact h
  | @tail past a b label _ hstep ih =>
    obtain ⟨row, hrow, hstate, havailable⟩ :=
      ih fun event hevent => hnone event (List.mem_cons_of_mem _ hevent)
    obtain ⟨call, hcall, hledger⟩ | ⟨-, hsame⟩ := SystemStep.ledger hstep
    · have hevent := hledger.eventStep e
      rw [hrow] at hevent
      generalize hafter : b.shared.eventOf e = after at hevent
      cases hevent with
      | kept => exact ⟨row, hafter, hstate, havailable⟩
      | resumed => exact absurd ⟨_, _, _, _, _, hcall⟩ (hnone _ List.mem_cons_self)
      | owned howner hevent howned =>
        obtain ⟨-, hclaimed, -⟩ := owned_eq_true.mp howned
        rw [hstate] at hclaimed
        cases hclaimed
      | pruned hterminal =>
        rw [hstate] at hterminal
        cases hterminal
    · rw [hsame]
      exact ⟨row, hrow, hstate, havailable⟩

/-- What handing an event back leaves. -/
theorem LedgerStep.retryable {l' : Ledger} {lease : EventLease} {now : UnixTimestamp}
    {delay : Duration}
    (h : LedgerStep x l ⟨.claim (.retryLater lease now delay), .ok ()⟩ l') :
    l'.RetryableAt lease.eventId (now + delay.asSecs) := by
  have hevent := h.eventStep lease.eventId
  generalize hafter : l'.eventOf lease.eventId = after at hevent
  generalize l.eventOf lease.eventId = before at hevent
  cases hevent with
  | kept hkept => simp [LedgerCall.writesEvent, ClaimOp.owner] at hkept
  | owned howner hevent howned => exact ⟨_, hafter, rfl, rfl⟩

/-- A claim of a row that waits no longer acquires it, if it is answered at all. -/
theorem Ledger.RetryableAt.acquired {l' : Ledger} {c : ConnectionId}
    {revision : ConnectionRevision} {now : UnixTimestamp} {duration : Duration}
    {outcome : ClaimOutcome} (h : l.RetryableAt e available) (hdue : available ≤ now)
    (hstep : LedgerStep x l ⟨.claim (.claimEvent e c revision now duration), .ok outcome⟩ l') :
    ∃ lease, outcome = .acquired lease := by
  obtain ⟨row, hrow, hstate, havailable⟩ := h
  obtain ⟨hmem, hevent⟩ := eventOf_eq_some.mp hrow
  obtain ⟨random, hop⟩ := hstep.run_of_ok
  obtain ⟨t, -, houtcome, hnone, -⟩ | ⟨row', hmem', hevent', -, -, hcases⟩ := claimEvent_ok hop
  · exact ⟨_, houtcome⟩
  · have hsame : row' = row := Relational.Table.eq_of_key (hasEvent_key e) hmem' hmem
      (by simpa using hevent') (by simpa using hevent)
    subst hsame
    obtain ⟨event, hterminal, -⟩ | ⟨a, -, hat, hlate, -⟩ | ⟨a, t, -, -, -, -, houtcome, -⟩ := hcases
    · rw [hstate] at hterminal
      cases hterminal
    · rw [havailable, Option.some.injEq] at hat
      subst hat
      exact absurd hdue (Nat.not_le_of_lt hlate)
    · exact ⟨_, houtcome⟩

/-- What an execution's own clock showed just before a call that is made at once. -/
theorem read_before {older newer : SystemHistory} {now : UnixTimestamp}
    (hclock : ReadFromClock time (newer ++ event :: older))
    (hread : (actsOf i older).head? = some ⟨.clockNow, now⟩) :
    ∃ recent read past, older = recent ++ read :: past ∧ read.label = .act i ⟨.clockNow, now⟩ ∧
      now = time past.length / Duration.nanosPerSec := by
  obtain ⟨rest, hacts⟩ : ∃ rest, actsOf i older = [] ++ ⟨.clockNow, now⟩ :: rest := by
    cases hlog : actsOf i older with
    | nil =>
      rw [hlog] at hread
      cases hread
    | cons first rest =>
      rw [hlog, List.head?_cons, Option.some.injEq] at hread
      exact ⟨rest, by rw [hread, List.nil_append]⟩
  obtain ⟨recent, read, past, rfl, hlabel, -⟩ := actsOf_split hacts
  exact ⟨recent, read, past, rfl, hlabel,
    hclock.reading (newer ++ event :: recent) read past i now (by simp) hlabel⟩

/-- The coordinator never retries earlier than the engine's delay, if its base delay
is not shorter. -/
theorem engineRetryDelay_le_decided {c : ForegroundWakeCoordinator EventId} {t : SystemThread}
    {disposition : WakeDisposition} {delay : Duration} {cause : ForegroundWakeRetryCause}
    (hbase : engineRetryDelay ≤ policy.queuedRetryBaseDelay)
    (hreachable : ForegroundReachable policy c) (hrun : SystemRun x outside l history w)
    (hthread : w.threads[i]? = some t) (hdone : t.rest = .done (.wake disposition))
    (hretry : (c.handleDisposition e disposition).1 = .retry delay cause) :
    engineRetryDelay ≤ delay := by
  rcases handleDisposition_retry hretry with ⟨reason, notification, rfl⟩ | ⟨attempt, -, -, rfl⟩
  · have hspec := threads_spec (Job.ends x) hrun i t hthread
    rw [hdone] at hspec
    rcases hspec _ rfl with hprogressed | hreported
    · rw [show delay = engineRetryDelay from hprogressed]
      exact Nat.le_refl _
    · obtain ⟨_, hprocessed⟩ := hreported.processed
      cases hprocessed
  · rw [hreachable.policy_eq]
    exact Nat.le_trans hbase base_le_queuedRetryDelay

/-- A retry that comes after the engine's delay is not reported as already processed. -/
theorem ForegroundRetry.not_processed
    (h : ForegroundRetry policy time later release earlier w e i j)
    (hbase : engineRetryDelay ≤ policy.queuedRetryBaseDelay)
    (hrun : SystemRun x outside l (later ++ release :: earlier) w)
    (hclock : ReadFromClock time (later ++ release :: earlier)) {t : SystemThread}
    {notification : NotificationHint} (hthread : w.threads[j]? = some t) :
    t.rest ≠ .done (.wake (.alreadyProcessed notification)) := by
  intro hdone
  -- the claim that was answered by the event's state
  have hspec := threads_spec (Job.ends x) hrun j t hthread
  rw [hdone, log_eq_actsOf hrun j t hthread] at hspec
  obtain hprogressed | hreported := hspec _ rfl
  · exact hprogressed
  obtain ⟨e', c, revision, now, duration, outcome, hanswered, hother⟩ := hreported.answered
  obtain ⟨claim, hclaim, hlabel⟩ := mem_actsOf.mp hanswered
  obtain ⟨newer, older, hsplit⟩ := List.append_of_mem hclaim
  obtain ⟨t', wakePolicy, input, hthread', hjob, hinput⟩ := h.retries
  rw [hthread, Option.some.injEq] at hthread'
  subst hthread'
  have hcut := hrun
  rw [hsplit] at hcut
  obtain ⟨hevent, hread⟩ := wake_act hcut hthread hjob hlabel
  obtain rfl : e' = e := hevent.trans hinput
  -- it was read off the clock at least the engine's delay after the release
  obtain ⟨lease, releasedAt, engineDelay, hlease, hrelease⟩ := h.released
  obtain ⟨coordinator, handledAt, disposition, delay, cause, hreachable,
    ⟨t₀, wakePolicy₀, input₀, hthread₀, hjob₀, hinput₀, hdone₀⟩, hretry, hfirst, hsecond⟩ := h.handled
  have hdelay : engineRetryDelay.nanos ≤ delay.nanos :=
    engineRetryDelay_le_decided hbase hreachable hrun hthread₀ hdone₀ hretry
  have hreleased := hfirst later release earlier _ rfl hrelease
  obtain ⟨hreleaseRead, rfl⟩ := wake_act hrun hthread₀ hjob₀ hrelease
  obtain ⟨recent₀, read₀, past₀, hearlier, -, hreleasedAt⟩ := read_before hclock hreleaseRead
  have hclock' := hclock
  rw [hsplit] at hclock'
  obtain ⟨recent, read, past, rfl, hreadLabel, hnow⟩ := read_before hclock' hread
  have hlate := hsecond (newer ++ claim :: recent) read past _ (by rw [hsplit]; simp) hreadLabel
  have hbefore : time past₀.length ≤ time earlier.length := by
    apply hclock.monotone
    rw [hearlier, List.length_append, List.length_cons]
    omega
  have hnanos : engineRetryDelay.nanos = 5 * Duration.nanosPerSec := rfl
  have hpositive : 0 < Duration.nanosPerSec := by decide
  have helapsed : time past₀.length + 5 * Duration.nanosPerSec ≤ time past.length := by omega
  have hdue : releasedAt + engineRetryDelay.asSecs ≤ now := by
    rw [hreleasedAt, hnow, engineRetryDelay, Duration.asSecs_fromSecs,
      ← Nat.add_mul_div_right _ _ hpositive]
    exact Nat.div_le_div_right helapsed
  -- so it came after the release, and nobody acquired the event in between
  have hlonger : earlier.length < past.length := by
    by_contra hshort
    have hback := hclock.monotone (Nat.le_of_not_lt hshort)
    omega
  obtain ⟨between, hbetween⟩ : ∃ between, recent ++ read :: past = between ++ release :: earlier := by
    have hwhole : release :: earlier <:+ later ++ release :: earlier := ⟨later, rfl⟩
    have hold : recent ++ read :: past <:+ later ++ release :: earlier :=
      ⟨newer ++ [claim], by rw [hsplit]; simp⟩
    have hlength : (release :: earlier).length ≤ (recent ++ read :: past).length := by
      simp only [List.length_cons, List.length_append]
      omega
    obtain ⟨between, heq⟩ := List.suffix_of_suffix_length_le hwhole hold hlength
    exact ⟨between, heq.symm⟩
  rw [hbetween] at hsplit
  have hlater : later = newer ++ claim :: between := by
    have hassoc : newer ++ claim :: (between ++ release :: earlier) =
        (newer ++ claim :: between) ++ release :: earlier := by simp
    rw [hassoc] at hsplit
    exact List.append_cancel_right hsplit
  have hnone : ∀ event ∈ between, ¬ Acquires e' event := by
    intro event hmem hacquires
    have hin : event ∈ later := by simp [hlater, hmem]
    obtain ⟨call, hact⟩ := h.alone event hin hacquires
    obtain ⟨c', revision', now', duration', lease', hcall⟩ := hacquires
    rw [hact] at hcall
    have hop := hostLedgerCall_eq_some hcall
    subst hop
    exact hreported.unclaimed _ _ _ _ _ lease'
      (mem_actsOf.mpr ⟨event, List.mem_append_left _ hin, hact⟩)
  rw [hsplit] at hrun
  obtain ⟨hbefore', hclaimStep, -⟩ := hrun.split
  obtain ⟨-, hreleaseStep, hwaits⟩ := hbefore'.split
  rw [hrelease] at hreleaseStep
  have hretryable := (SystemStep.ledgerStep hreleaseStep).retryable
  rw [hlease] at hretryable
  have hstill := hretryable.run hwaits hnone
  rw [hlabel] at hclaimStep
  obtain ⟨lease', hacquired⟩ := hstill.acquired hdue (SystemStep.ledgerStep hclaimStep)
  exact hother lease' hacquired

end Retrying

/-- Under this policy no retry is dropped: it does not end as already processed while
the event is unfinished. -/
def RetryNotDropped (policy : ForegroundWakePolicy) : Prop :=
  ∀ (x : Crates) (outside : HostCall → Prop) (l : Ledger) (w : SystemWorld) later release earlier
    time e i j, SystemRun x outside l (later ++ release :: earlier) w →
      ReadFromClock time (later ++ release :: earlier) →
      ForegroundRetry policy time later release earlier w e i j →
      ∀ t notification row, w.threads[j]? = some t → w.shared.eventOf e = some row →
        row.state ≠ .terminal → t.rest ≠ .done (.wake (.alreadyProcessed notification))

namespace Sample

/-- A host whose secret store is locked. -/
def lockedScript (now : UnixTimestamp) (token : BitVec 128) : HostScript :=
  { payingScript now token with secret := .error ⟨.unavailable⟩ }

/-- An execution hands its event back to the application. -/
def handedBack : List Move :=
  List.replicate 15 (Move.act 0 (lockedScript 1010 1)) ++
    [Move.spawn firstWake,
      Move.outside (.registry (.insertConnection connection 1000)) (script 1000 0)]

/-- A retry less than five seconds later. -/
def retriedEarly : List Move :=
  List.replicate 7 (Move.act 1 (lockedScript 1014 2)) ++ Move.spawn firstWake :: handedBack

/-- The clock of that run, in nanoseconds. -/
def retryTime (n : Nat) : Nat := if n < 17 then 1010000000000 else 1014999999999

def retried : SystemHistory × SystemWorld := play quickProgram crates .empty retriedEarly

theorem retried_run : SystemRun crates managing .empty retried.1 retried.2 := by
  apply quick_run
  · intro job hjob
    left
    have hcases : job = firstWake ∨ job = firstWake := by
      simpa [retriedEarly, handedBack] using hjob
    exact hcases.elim id id
  · intro op host hop
    simp only [retriedEarly, handedBack, List.mem_append, List.mem_cons, List.mem_replicate,
      List.not_mem_nil, Move.outside.injEq, reduceCtorEq, and_false, or_false, false_or] at hop
    exact ⟨_, hop.1⟩

/-- What an execution of the event has ended with. -/
def endedWith (e : EventId) : SystemThread → Option WakeDisposition
  | ⟨.wake _ input, _, .done (.wake disposition), _⟩ =>
    if input.eventId = e then some disposition else none
  | _ => none

theorem endedWith_eq_some {t : SystemThread} {e : EventId} {disposition : WakeDisposition}
    (h : endedWith e t = some disposition) :
    (∃ wakePolicy input, t.job = .wake wakePolicy input ∧ input.eventId = e) ∧
      t.rest = .done (.wake disposition) := by
  unfold endedWith at h
  split at h
  · split at h
    · rename_i hevent
      cases h
      exact ⟨⟨_, _, rfl, hevent⟩, rfl⟩
    · cases h
  · cases h

/-- The condition on the steps of that run: the first execution acts first, the retry
afterwards, and both read the clock. -/
def inTurn (n : Nat) : SystemLabel → Bool
  | .act i ⟨.clockNow, reading⟩ =>
    decide ((reading : UnixTimestamp) = retryTime n / Duration.nanosPerSec) &&
      decide (i = if n < 17 then 0 else 1)
  | .act i _ => decide (i = if n < 17 then 0 else 1)
  | .outside _ => decide (n < 17)
  | _ => true

def allInTurn : SystemHistory → Bool
  | [] => true
  | event :: past => inTurn past.length event.label && allInTurn past

theorem inTurn_of_all {history later earlier : SystemHistory}
    {event : Event SystemWorld SystemLabel} (h : allInTurn history = true)
    (hsplit : history = later ++ event :: earlier) : inTurn earlier.length event.label = true := by
  rw [hsplit] at h
  clear hsplit
  induction later with
  | nil => exact (Bool.and_eq_true_iff.mp h).1
  | cons first rest ih => exact ih (Bool.and_eq_true_iff.mp h).2

theorem thread_of_inTurn {n i : Nat} {call : HostCall} (h : inTurn n (.act i call) = true) :
    i = if n < 17 then 0 else 1 := by
  obtain ⟨op, reply⟩ := call
  cases op with
  | clockNow => exact of_decide_eq_true (Bool.and_eq_true_iff.mp h).2
  | _ => exact of_decide_eq_true h

/-- The step hands the first event back to the application. -/
def handsBack : SystemLabel → Bool
  | .act 0 ⟨.ledger (.claim (.retryLater lease _ _)), .ok ()⟩ => lease.eventId == firstEvent.id
  | _ => false

theorem handsBack_eq_true {event : Event SystemWorld SystemLabel}
    (h : handsBack event.label = true) :
    ∃ lease now delay, lease.eventId = firstEvent.id ∧
      Asked 0 (.ledger (.claim (.retryLater lease now delay))) (.ok ()) event := by
  unfold handsBack at h
  split at h
  · rename_i lease now delay hlabel
    exact ⟨lease, now, delay, beq_iff_eq.mp h, hlabel⟩
  · cases h

theorem retryTime_monotone : Monotone retryTime := by
  intro a b hab
  unfold retryTime
  split
  · split <;> decide
  · rw [if_neg (by omega)]

end Sample

set_option maxRecDepth 4000 in
/-- Under a policy whose base delay is shorter than the engine's a retry is dropped. -/
theorem early_retry_dropped {policy : ForegroundWakePolicy}
    (hbase : policy.queuedRetryBaseDelay < engineRetryDelay) : ¬ RetryNotDropped policy := by
  intro hnot
  have hchecked : Sample.allInTurn Sample.retried.1 = true ∧
      (Sample.retried.1[8]?).any (fun event => Sample.handsBack event.label) = true ∧
      Sample.retried.1.length = 25 ∧
      (Sample.retried.2.threads[0]?.bind (Sample.endedWith Sample.firstEvent.id)) =
        some (.queuedForApplication .secureStorageUnavailable .openApplication) ∧
      (Sample.retried.2.threads[1]?.bind (Sample.endedWith Sample.firstEvent.id)) =
        some (.alreadyProcessed .completed) ∧
      (Sample.retried.2.shared.eventOf Sample.firstEvent.id).any
        (fun row => decide (row.state = .retryable)) = true := by
    decide
  obtain ⟨hturn, hrelease, hlength, hfirst, hsecond, hrow⟩ := hchecked
  obtain ⟨release, hat, hback⟩ := (Option.any_eq_true ..).mp hrelease
  obtain ⟨row, hrow, hstate⟩ := (Option.any_eq_true ..).mp hrow
  obtain ⟨t₀, hthread₀, hended₀⟩ := Option.bind_eq_some_iff.mp hfirst
  obtain ⟨t₁, hthread₁, hended₁⟩ := Option.bind_eq_some_iff.mp hsecond
  obtain ⟨hpast, hrelease⟩ := List.getElem?_eq_some_iff.mp hat
  have hsplit : Sample.retried.1 = Sample.retried.1.take 8 ++ release :: Sample.retried.1.drop 9 := by
    rw [← hrelease, ← List.drop_eq_getElem_cons hpast, List.take_append_drop]
  have hearlier : (Sample.retried.1.drop 9).length = 16 := by
    rw [List.length_drop, hlength]
  generalize Sample.retried.1.take 8 = later at hsplit
  generalize Sample.retried.1.drop 9 = earlier at hsplit hearlier
  have hstep : ∀ newer event older, later ++ release :: earlier = newer ++ event :: older →
      Sample.inTurn older.length event.label = true :=
    fun newer event older heq => Sample.inTurn_of_all hturn (hsplit.trans heq)
  have hwakes₀ := (Sample.endedWith_eq_some hended₀).1
  obtain ⟨hwakes₁, hdone₁⟩ := Sample.endedWith_eq_some hended₁
  have hclock : ReadFromClock Sample.retryTime (later ++ release :: earlier) := by
    refine ⟨Sample.retryTime_monotone, fun newer event older i now heq hasked => ?_⟩
    have hin := hstep newer event older heq
    rw [hasked] at hin
    exact of_decide_eq_true (Bool.and_eq_true_iff.mp hin).1
  have hretry : ForegroundRetry policy Sample.retryTime later release earlier Sample.retried.2
      Sample.firstEvent.id 0 1 := by
    refine ⟨?_, ?_, ?_, ?_⟩
    · obtain ⟨lease, now, delay, hevent, hasked⟩ := Sample.handsBack_eq_true hback
      exact ⟨lease, now, delay, hevent, hasked⟩
    · refine ⟨(ForegroundWakeCoordinator.begin (.new policy) Sample.firstEvent.id).2, 1010000000000,
        .queuedForApplication .secureStorageUnavailable .openApplication, queuedRetryDelay policy 1,
        .queuedForApplication .secureStorageUnavailable, .begin .new _, ?_, ?_, ?_, ?_⟩
      · obtain ⟨wakePolicy, input, hjob, hevent⟩ := hwakes₀
        exact ⟨t₀, wakePolicy, input, hthread₀, hjob, hevent, (Sample.endedWith_eq_some hended₀).2⟩
      · simp [ForegroundWakeCoordinator.handleDisposition, ForegroundWakeCoordinator.nextAttempt,
          ForegroundWakeCoordinator.begin, ForegroundWakeCoordinator.new,
          ForegroundWakeCoordinator.retryAttempts, policy.attempts_positive]
      · intro newer event older call heq hlabel
        have hin := hstep newer event older heq
        rw [hlabel] at hin
        have hfirst := Sample.thread_of_inTurn hin
        unfold Sample.retryTime
        split
        · exact Nat.le_refl _
        · rename_i hlate
          rw [if_neg hlate] at hfirst
          cases hfirst
      · intro newer event older call heq hlabel
        have hin := hstep newer event older heq
        rw [hlabel] at hin
        have hsecond := Sample.thread_of_inTurn hin
        have hshort : policy.queuedRetryBaseDelay.nanos < 5000000000 := hbase
        unfold Sample.retryTime
        split
        · rename_i hsoon
          rw [if_pos hsoon] at hsecond
          cases hsecond
        · rw [queuedRetryDelay_one]
          omega
    · obtain ⟨wakePolicy, input, hjob, hevent⟩ := hwakes₁
      exact ⟨t₁, wakePolicy, input, hthread₁, hjob, hevent⟩
    · intro event hevent hacquires
      obtain ⟨newer, older, rfl⟩ := List.append_of_mem hevent
      have hin := hstep newer event (older ++ release :: earlier) (by simp)
      have hlate : ¬ (older ++ release :: earlier).length < 17 := by
        simp only [List.length_append, List.length_cons]
        omega
      obtain ⟨c, revision, now, duration, lease, hcall⟩ := hacquires
      cases hlabel : event.label with
      | spawn job =>
        rw [hlabel] at hcall
        cases hcall
      | crash thread =>
        rw [hlabel] at hcall
        cases hcall
      | act thread call =>
        rw [hlabel] at hin
        have hthread := Sample.thread_of_inTurn hin
        rw [if_neg hlate] at hthread
        exact ⟨call, by rw [hthread]⟩
      | outside call =>
        rw [hlabel] at hin
        exact absurd (of_decide_eq_true hin) hlate
  have hrun := Sample.retried_run
  rw [hsplit] at hrun
  refine hnot _ _ _ _ later release earlier _ _ _ _ hrun hclock hretry t₁ .completed row hthread₁ hrow
    ?_ hdone₁
  rw [of_decide_eq_true hstate]
  intro hterminal
  cases hterminal

/-- No retry is dropped exactly under the policies that wait at least for the engine's
delay. -/
theorem retry_not_dropped_iff (policy : ForegroundWakePolicy) :
    RetryNotDropped policy ↔ engineRetryDelay ≤ policy.queuedRetryBaseDelay := by
  constructor
  · intro hnot
    by_contra hshort
    exact early_retry_dropped (Nat.lt_of_not_le hshort) hnot
  · intro hbase x outside l w later release earlier time e i j hrun hclock hretry t notification row
      hthread hrow hstate
    exact hretry.not_processed hbase hrun hclock hthread

/-- Under the default policy a retry is dropped. -/
theorem default_retry_dropped : ¬ ∀ policy, RetryNotDropped policy := by
  intro hnot
  exact early_retry_dropped (by decide) (hnot ForegroundWakePolicy.default)

end NwcMobile
