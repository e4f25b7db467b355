import NwcMobile.Engine.Authorization

/-!
Replay protection across pruning. The retention a policy must have is as long as
the window in which an event may be accepted; so an event whose row is pruned is
already outside the window, by the clock that accepted it.
-/

namespace NwcMobile

open Program Concurrent Transition Fallible

/-- Claims are taken and written by executions; anyone may read and prune. -/
def ClaimsByExecutions (outside : HostCall → Prop) : Prop :=
  ∀ op reply, outside ⟨.ledger (.claim op), reply⟩ →
    op.owner = none ∧ ∀ e c revision now duration, op ≠ .claimEvent e c revision now duration

/-- One clock that never goes back times the history: every reading shows the
time of its step, and every prune leaves the policy's retention, in whole
seconds. -/
structure TimedBy (clock : Nat → UnixTimestamp) (policy : WakePolicy) (history : SystemHistory) :
    Prop where
  monotone : Monotone clock
  reading : ∀ later event earlier i now, history = later ++ event :: earlier →
    Asked i .clockNow now event → now = clock earlier.length
  prune : ∀ later event earlier cutoff rows reply, history = later ++ event :: earlier →
    systemLedgerCall event.label = some ⟨.claim (.pruneTerminal cutoff rows), reply⟩ →
    cutoff ≤ clock earlier.length - policy.replayRetention.asSecs

/-- Every wake of the history is executed under the policy. -/
def WakesUnder (policy : WakePolicy) (history : SystemHistory) : Prop :=
  ∀ event ∈ history, ∀ policy' input, event.label = .spawn (.wake policy' input) → policy' = policy

/-- No two claims of the event drew the same token. -/
def DistinctTokens (e : EventId) (history : SystemHistory) : Prop :=
  ((issuedLeases e (ledgerHistory history)).map (·.token)).Nodup

/-- Execution `i` acquires this lease of the event at this step. -/
def Issues (i : Nat) (e : EventId) (lease : EventLease) (event : Event SystemWorld SystemLabel) :
    Prop :=
  ∃ c revision now duration, Asked i (.ledger (.claim (.claimEvent e c revision now duration)))
    (.ok (.acquired lease)) event

section Suffixes

variable {clock : Nat → UnixTimestamp} {policy : WakePolicy} {e : EventId}
  {later earlier : SystemHistory}

theorem TimedBy.past (h : TimedBy clock policy (later ++ earlier)) : TimedBy clock policy earlier where
  monotone := h.monotone
  reading newer event older i now hsplit hasked :=
    h.reading (later ++ newer) event older i now (by rw [hsplit, List.append_assoc]) hasked
  prune newer event older cutoff rows reply hsplit hcall :=
    h.prune (later ++ newer) event older cutoff rows reply (by rw [hsplit, List.append_assoc]) hcall

theorem WakesUnder.past (h : WakesUnder policy (later ++ earlier)) : WakesUnder policy earlier :=
  fun event hevent => h event (List.mem_append_right _ hevent)

theorem issuedLeases_append :
    issuedLeases e (ledgerHistory (later ++ earlier)) =
      issuedLeases e (ledgerHistory later) ++ issuedLeases e (ledgerHistory earlier) := by
  simp [issuedLeases, ledgerHistory, List.filterMap_append]

theorem DistinctTokens.past (h : DistinctTokens e (later ++ earlier)) :
    DistinctTokens e earlier := by
  unfold DistinctTokens at h
  rw [issuedLeases_append, List.map_append] at h
  exact (List.nodup_append.mp h).2.1

variable {i j : Nat} {lease lease' : EventLease} {event event' : Event SystemWorld SystemLabel}
  {history : SystemHistory}

theorem Issues.mem (h : Issues i e lease event) (hevent : event ∈ history) :
    lease ∈ issuedLeases e (ledgerHistory history) := by
  obtain ⟨c, revision, now, duration, hasked⟩ := h
  have hcall : systemLedgerCall event.label =
      some ⟨.claim (.claimEvent e c revision now duration), .ok (.acquired lease)⟩ := by
    rw [hasked]
    rfl
  refine List.mem_filterMap.mpr ⟨_, mem_ledgerHistory hevent hcall, ?_⟩
  simp [LedgerCall.issued]

/-- A token drawn later is not one that was drawn before. -/
theorem DistinctTokens.later_ne (h : DistinctTokens e (later ++ earlier))
    (hnew : lease ∈ issuedLeases e (ledgerHistory later))
    (hold : lease' ∈ issuedLeases e (ledgerHistory earlier)) : lease.token ≠ lease'.token := by
  unfold DistinctTokens at h
  rw [issuedLeases_append, List.map_append] at h
  exact (List.nodup_append.mp h).2.2 _ (List.mem_map_of_mem hnew) _ (List.mem_map_of_mem hold)

/-- A token belongs to one execution. -/
theorem DistinctTokens.issuer (h : DistinctTokens e history) (hissued : Issues i e lease event)
    (hevent : event ∈ history) (hissued' : Issues j e lease' event') (hevent' : event' ∈ history)
    (htoken : lease.token = lease'.token) : i = j := by
  obtain ⟨newer, older, rfl⟩ := List.append_of_mem hevent
  rcases List.mem_append.mp hevent' with hnewer | hrest
  · exact absurd htoken.symm (h.later_ne (hissued'.mem hnewer) (hissued.mem List.mem_cons_self))
  · rcases List.mem_cons.mp hrest with rfl | holder
    · obtain ⟨_, _, _, _, hlabel⟩ := hissued
      obtain ⟨_, _, _, _, hlabel'⟩ := hissued'
      unfold Asked at hlabel hlabel'
      rw [hlabel] at hlabel'
      injection hlabel'
    · rw [← List.singleton_append, ← List.append_assoc] at h
      exact absurd htoken (h.later_ne (hissued.mem (by simp)) (hissued'.mem holder))

end Suffixes

section Acts

variable {x : Crates} {outside : HostCall → Prop} {l : Ledger} {w : SystemWorld}
  {policy : WakePolicy} {later earlier : SystemHistory} {event : Event SystemWorld SystemLabel}
  {i : Nat} {e : EventId} {lease : EventLease}

/-- The execution behind a claim operation, with its guard and its own calls. -/
theorem claimOp_act {op : ClaimOp} {reply : (LedgerOp.claim op).Reply}
    (hrun : SystemRun x outside l (later ++ event :: earlier) w)
    (hwakes : WakesUnder policy (later ++ event :: earlier))
    (hlabel : Asked i (.ledger (.claim op)) reply event) :
    ∃ wake, WakeGuard x policy wake (actsOf i earlier) (.ledger (.claim op)) := by
  obtain ⟨t, hthread, hguard, -⟩ := SystemRun.act_guard hrun hlabel
  obtain ⟨hbefore, -, -⟩ := hrun.split
  rw [log_eq_actsOf hbefore i t hthread] at hguard
  obtain ⟨spawn, hspawn, hspawnLabel⟩ := job_spawned hbefore i t hthread
  cases hjob : t.job with
  | wake policy' input =>
    rw [hjob] at hguard hspawnLabel
    have hpolicy := hwakes spawn (by simp [hspawn]) policy' input hspawnLabel
    rw [← hpolicy]
    exact ⟨input, hguard⟩
  | reconcile maxAttempts =>
    rw [hjob] at hguard
    exact hguard.elim
  | migrate imports =>
    rw [hjob] at hguard
    exact hguard.elim

/-- The claim a claimed request rests on is an earlier step of its execution. -/
theorem Claimed.issues {wake : WakeInput} {r : ClaimedRequest} {past : SystemHistory}
    {w' : SystemWorld} (h : Claimed x wake (actsOf i past) r) (hrun : SystemRun x outside l past w') :
    r.lease.eventId = r.validated.id ∧ ∃ claim ∈ past, Issues i r.validated.id r.lease claim := by
  obtain ⟨now, duration, hacquired⟩ := h.acquired
  obtain ⟨claim, hclaim, hlabel⟩ := mem_actsOf.mp hacquired
  have hstep := hrun.step_of_mem hclaim
  rw [hlabel] at hstep
  exact ⟨(SystemStep.ledgerStep hstep).acquired.1, claim, hclaim, _, _, _, _, hlabel⟩

/-- An acceptance follows a reading of the clock inside the window, which follows
the claim. -/
theorem acceptance_of_act {acceptedAt : UnixTimestamp}
    (hrun : SystemRun x outside l (later ++ event :: earlier) w)
    (hwakes : WakesUnder policy (later ++ event :: earlier))
    (hlabel : Asked i (.ledger (.claim (.acceptEventFreshness lease acceptedAt))) (.ok ()) event)
    (hevent : lease.eventId = e) :
    ∃ recent read past now, earlier = recent ++ read :: past ∧ Asked i .clockNow now read ∧
      (∃ a, x.verify a = true ∧ a.id = e ∧ policy.acceptsEventTime a.createdAt now = true) ∧
      ∃ claim ∈ past, Issues i e lease claim := by
  obtain ⟨wake, r, now, older, hlog, hclaimed, rfl, htime⟩ := claimOp_act hrun hwakes hlabel
  have hcalls : actsOf i earlier =
      [⟨HostOp.clockNow, acceptedAt⟩] ++ ⟨HostOp.clockNow, now⟩ :: older := hlog
  obtain ⟨recent, read, past, rfl, hread, -, hpast⟩ := actsOf_split hcalls
  obtain ⟨hbefore, -, -⟩ := hrun.split
  obtain ⟨hearlier, -, -⟩ := hbefore.split
  rw [← hpast] at hclaimed
  obtain ⟨hid, claim, hclaim, hissues⟩ := hclaimed.issues hearlier
  rw [← hid, hevent] at hissues
  obtain ⟨eventJson, a, hauthentic⟩ := hclaimed.bound.authentic
  refine ⟨recent, read, past, now, rfl, hread, ⟨a, hauthentic.verified, ?_, ?_⟩, claim, hclaim,
    hissues⟩
  · rw [← hauthentic.id, ← hid, hevent]
  · rw [← hauthentic.createdAt]
    exact htime

theorem WakeGuard.completing {wake : WakeInput} {log : HostLog} {op : ClaimOp} {value : op.Value}
    {now : UnixTimestamp} (h : WakeGuard x policy wake log (.ledger (.claim op)))
    (hcompletes : LedgerCall.completes e ⟨.claim op, .ok value⟩ = true)
    (howner : op.owner = some (lease, now)) : Completing x wake log lease now := by
  cases op with
  | completeEvent lease' kind json now' =>
    obtain ⟨rfl, rfl⟩ := Prod.mk.inj (Option.some.inj howner)
    exact h
  | completeEventForActiveConnection lease' c revision json now' =>
    obtain ⟨rfl, rfl⟩ := Prod.mk.inj (Option.some.inj howner)
    obtain ⟨hclock, r, response, secret, createdAt, nonce, hclaimed, hlease, -⟩ := h
    exact ⟨hclock, r, hclaimed, hlease⟩
  | completeNwcEventForActiveConnection lease' c revision json method now' =>
    obtain ⟨rfl, rfl⟩ := Prod.mk.inj (Option.some.inj howner)
    obtain ⟨hclock, r, response, secret, createdAt, nonce, hclaimed, hlease, -⟩ := h
    exact ⟨hclock, r, hclaimed, hlease⟩
  | claimEvent e' c revision now' duration => cases howner
  | lastCompletedEventAt c => cases howner
  | pruneTerminal before rows => cases howner
  | acceptEventFreshness lease' now' => cases hcompletes
  | renewLease lease' now' duration => cases hcompletes
  | retryLater lease' now' delay => cases hcompletes

/-- A completion carries the time its execution read last, after its claim. -/
theorem completion_of_act {op : ClaimOp} {value : op.Value} {now : UnixTimestamp}
    (hrun : SystemRun x outside l (later ++ event :: earlier) w)
    (hwakes : WakesUnder policy (later ++ event :: earlier))
    (hlabel : Asked i (.ledger (.claim op)) (.ok value) event)
    (hcompletes : LedgerCall.completes e ⟨.claim op, .ok value⟩ = true)
    (howner : op.owner = some (lease, now)) (hevent : lease.eventId = e) :
    ∃ recent read past, earlier = recent ++ read :: past ∧ Asked i .clockNow now read ∧
      actsOf i recent = [] ∧ ∃ claim ∈ past, Issues i e lease claim := by
  obtain ⟨wake, hguard⟩ := claimOp_act hrun hwakes hlabel
  obtain ⟨hclock, r, hclaimed, rfl⟩ := hguard.completing hcompletes howner
  obtain ⟨older, hlog⟩ := List.head?_eq_some_iff.mp hclock
  rw [← List.nil_append (_ :: older)] at hlog
  obtain ⟨recent, read, past, rfl, hread, hrecent, hpast⟩ := actsOf_split hlog
  obtain ⟨hbefore, -, -⟩ := hrun.split
  obtain ⟨hid, claim, hclaim, hissues⟩ := hclaimed.issues hbefore
  rw [← hid, hevent] at hissues
  refine ⟨recent, read, past, rfl, hread, hrecent, claim, ?_, hissues⟩
  -- the claim is not the reading and nothing came after the reading
  obtain ⟨_, _, _, _, hclaimLabel⟩ := hissues
  rcases List.mem_append.mp hclaim with hnewer | hrest
  · have hacted : (⟨_, _⟩ : HostCall) ∈ actsOf i recent := mem_actsOf.mpr ⟨claim, hnewer, hclaimLabel⟩
    rw [hrecent] at hacted
    cases hacted
  · rcases List.mem_cons.mp hrest with rfl | holder
    · rw [Asked, hread] at hclaimLabel
      cases hclaimLabel
    · exact holder

end Acts

section Flags

variable {x : Crates} {outside : HostCall → Prop} {l : Ledger} {w w' : SystemWorld}
  {policy : WakePolicy} {clock : Nat → UnixTimestamp} {history : SystemHistory}
  {label : SystemLabel} {e : EventId} {created : UnixTimestamp} {row : WakeEventRow}

/-- Whoever claims or writes under a claim is an execution. -/
theorem ClaimsByExecutions.act (h : ClaimsByExecutions outside) {op : ClaimOp}
    {reply : (LedgerOp.claim op).Reply} (hstep : SystemStep x outside w label w')
    (hcall : systemLedgerCall label = some ⟨.claim op, reply⟩)
    (hop : op.owner = none → ∃ e c revision now duration, op = .claimEvent e c revision now duration) :
    ∃ i, label = .act i ⟨.ledger (.claim op), reply⟩ := by
  cases hstep with
  | spawn job => cases hcall
  | @act i _ op' _ reply' _ _ _ _ _ => exact ⟨i, congrArg (Label.act i) (hostLedgerCall_eq_some hcall)⟩
  | crash _ => cases hcall
  | @outside call _ hout _ =>
    rw [hostLedgerCall_eq_some hcall] at hout
    obtain ⟨hunowned, hother⟩ := h op reply hout
    obtain ⟨e, c, revision, now, duration, hclaim⟩ := hop hunowned
    exact absurd hclaim (hother e c revision now duration)

/-- The call acquires the token, or accepts freshness under it. -/
def Holding (e : EventId) (token : ClaimToken) (call : HostCall) : Prop :=
  (∃ c revision now duration lease, lease.token = token ∧
    call = ⟨.ledger (.claim (.claimEvent e c revision now duration)), .ok (.acquired lease)⟩) ∨
  ∃ lease now, lease.eventId = e ∧ lease.token = token ∧
    call = ⟨.ledger (.claim (.acceptEventFreshness lease now)), .ok ()⟩

/-- Where a row's accepted freshness comes from: a reading inside the window that
came before the row's current holder acted, and before the row's terminal time. -/
def RowAccepted (clock : Nat → UnixTimestamp) (policy : WakePolicy) (created : UnixTimestamp)
    (e : EventId) (history : SystemHistory) (row : WakeEventRow) : Prop :=
  ∃ n, n < history.length ∧ policy.acceptsEventTime created (clock n) = true ∧
    (∀ token, row.state = .claimed → row.claimToken = some token →
      ∃ recent mark past j call, history = recent ++ mark :: past ∧ n < past.length ∧
        mark.label = .act j call ∧ Holding e token call) ∧
    (row.state = .terminal → clock n ≤ row.updatedAt)

theorem RowAccepted.later {event : Event SystemWorld SystemLabel}
    (h : RowAccepted clock policy created e history row) :
    RowAccepted clock policy created e (event :: history) row := by
  obtain ⟨n, hn, htime, hheld, hterminal⟩ := h
  refine ⟨n, Nat.lt_succ_of_lt hn, htime, ?_, hterminal⟩
  intro token hstate htoken
  obtain ⟨recent, mark, past, j, call, rfl, hmark⟩ := hheld token hstate htoken
  exact ⟨event :: recent, mark, past, j, call, rfl, hmark⟩

/-- Whoever holds the token acquired it. -/
theorem Holding.issues {recent past : SystemHistory} {mark : Event SystemWorld SystemLabel}
    {token : ClaimToken} {j : Nat} {call : HostCall} (h : Holding e token call)
    (hrun : SystemRun x outside l (recent ++ mark :: past) w)
    (hwakes : WakesUnder policy (recent ++ mark :: past)) (hlabel : mark.label = .act j call) :
    ∃ lease, lease.token = token ∧ ∃ claim ∈ recent ++ mark :: past, Issues j e lease claim := by
  rcases h with ⟨c, revision, now, duration, lease, htoken, rfl⟩ | ⟨lease, now, hevent, htoken, rfl⟩
  · exact ⟨lease, htoken, mark, by simp, c, revision, now, duration, hlabel⟩
  · obtain ⟨newer, read, older, _, rfl, -, -, claim, hclaim, hissues⟩ :=
      acceptance_of_act hrun hwakes hlabel hevent
    exact ⟨lease, htoken, claim, by simp [hclaim], hissues⟩

/-- A completion by the holder is dated after the reading that was accepted. -/
theorem RowAccepted.completed {event : Event SystemWorld SystemLabel} {op : ClaimOp}
    {value : op.Value} {lease : EventLease} {now : UnixTimestamp} {i : Nat}
    (h : RowAccepted clock policy created e history row)
    (hrun : SystemRun x outside l (event :: history) w) (htimed : TimedBy clock policy history)
    (hwakes : WakesUnder policy (event :: history)) (htokens : DistinctTokens e history)
    (hlabel : Asked i (.ledger (.claim op)) (.ok value) event)
    (hcompletes : LedgerCall.completes e ⟨.claim op, .ok value⟩ = true)
    (howner : op.owner = some (lease, now)) (hevent : lease.eventId = e)
    (howned : Claims.owned lease now row = true) :
    ∃ n, n < history.length ∧ policy.acceptsEventTime created (clock n) = true ∧ clock n ≤ now := by
  obtain ⟨n, hn, htime, hheld, -⟩ := h
  obtain ⟨-, hstate, htoken, -⟩ := owned_eq_true.mp howned
  obtain ⟨recent, mark, past, j, call, hmark, hlt, hmarkLabel, hholding⟩ :=
    hheld lease.token hstate htoken
  rw [← List.nil_append (event :: history)] at hrun hwakes
  have hbefore : SystemRun x outside l history event.before := hrun.split.1
  have hwakesBefore : WakesUnder policy history := fun spawn hspawn =>
    hwakes spawn (List.mem_cons_of_mem _ hspawn)
  obtain ⟨newer, read, older, hread, hreadLabel, hquiet, claim, hclaim, hissues⟩ :=
    completion_of_act hrun hwakes hlabel hcompletes howner hevent
  -- the mark was made by the execution that completes
  have hsame : j = i := by
    rw [hmark] at hbefore hwakesBefore htokens
    obtain ⟨lease', htoken', claim', hclaim', hissues'⟩ :=
      hholding.issues hbefore hwakesBefore hmarkLabel
    refine htokens.issuer hissues' hclaim' hissues ?_ htoken'
    rw [← hmark, hread]
    exact List.mem_append_right _ (List.mem_cons_of_mem _ hclaim)
  subst hsame
  -- so it comes before the reading the completion carries
  have horder : past.length < older.length := by
    rcases places_ordered (hmark.symm.trans hread) with hlt | ⟨rfl, -⟩ | hnewer
    · exact hlt
    · rw [Asked, hmarkLabel] at hreadLabel
      injection hreadLabel with _ hcall
      rw [hcall] at hholding
      rcases hholding with ⟨_, _, _, _, _, _, hclock⟩ | ⟨_, _, _, _, hclock⟩
      · cases hclock
      · cases hclock
    · have hacted : call ∈ actsOf j newer := mem_actsOf.mpr ⟨mark, hnewer, hmarkLabel⟩
      rw [hquiet] at hacted
      cases hacted
  refine ⟨n, hn, htime, ?_⟩
  rw [htimed.reading newer read older j now hread hreadLabel]
  exact htimed.monotone (Nat.le_of_lt (Nat.lt_trans hlt horder))

theorem ClaimOp.rewrite_completed {op : ClaimOp} {value : op.Value} {lease : EventLease}
    {now : UnixTimestamp} (howner : op.owner = some (lease, now))
    (h : LedgerCall.completes e ⟨.claim op, .ok value⟩ = true) :
    (op.rewrite row).state = .terminal ∧ (op.rewrite row).updatedAt = now ∧
      (op.rewrite row).freshnessAccepted = row.freshnessAccepted := by
  cases op with
  | completeEvent lease' kind json now' =>
    exact ⟨rfl, (Prod.mk.inj (Option.some.inj howner)).2, rfl⟩
  | completeEventForActiveConnection lease' c revision json now' =>
    exact ⟨rfl, (Prod.mk.inj (Option.some.inj howner)).2, rfl⟩
  | completeNwcEventForActiveConnection lease' c revision json method now' =>
    exact ⟨rfl, (Prod.mk.inj (Option.some.inj howner)).2, rfl⟩
  | claimEvent e' c revision now' duration => cases h
  | lastCompletedEventAt c => cases h
  | pruneTerminal before rows => cases h
  | acceptEventFreshness lease' now' => cases h
  | renewLease lease' now' duration => cases h
  | retryLater lease' now' delay => cases h

/-- One write by the holder. -/
theorem RowAccepted.owned {event : Event SystemWorld SystemLabel} {op : ClaimOp}
    {value : op.Value} {lease : EventLease} {now : UnixTimestamp} {i : Nat}
    (hcreated : ∀ a, x.verify a = true → a.id = e → a.createdAt = created)
    (h : row.freshnessAccepted = true → RowAccepted clock policy created e history row)
    (hrun : SystemRun x outside l (event :: history) w) (htimed : TimedBy clock policy history)
    (hwakes : WakesUnder policy (event :: history)) (htokens : DistinctTokens e history)
    (hlabel : Asked i (.ledger (.claim op)) (.ok value) event)
    (howner : op.owner = some (lease, now)) (hevent : lease.eventId = e)
    (howned : Claims.owned lease now row = true)
    (hflag : (op.rewrite row).freshnessAccepted = true) :
    RowAccepted clock policy created e (event :: history) (op.rewrite row) := by
  cases hcompletes : LedgerCall.completes e ⟨.claim op, .ok value⟩ with
  | true =>
    have hrewritten : (op.rewrite row).state = .terminal ∧ (op.rewrite row).updatedAt = now ∧
        (op.rewrite row).freshnessAccepted = row.freshnessAccepted :=
      ClaimOp.rewrite_completed howner hcompletes
    obtain ⟨hstate, hupdated, hkept⟩ := hrewritten
    obtain ⟨n, hn, htime, hle⟩ := (h (hkept.symm.trans hflag)).completed hrun htimed hwakes htokens
      hlabel hcompletes howner hevent howned
    refine ⟨n, Nat.lt_succ_of_lt hn, htime, fun token hclaimed => ?_, fun _ => ?_⟩
    · rw [hstate] at hclaimed
      cases hclaimed
    · rw [hupdated]
      exact hle
  | false =>
    obtain ⟨-, hstate, htoken, -⟩ := owned_eq_true.mp howned
    have hopen : row.state ≠ .terminal := by
      rw [hstate]
      simp
    cases op with
    | acceptEventFreshness lease' now' =>
      obtain ⟨rfl, rfl⟩ := Prod.mk.inj (Option.some.inj howner)
      rw [← List.nil_append (event :: history)] at hrun hwakes
      obtain ⟨newer, read, older, time, rfl, hread, ⟨a, hverified, hid, htime⟩, -⟩ :=
        acceptance_of_act hrun hwakes hlabel hevent
      rw [hcreated a hverified hid, htimed.reading newer read older i time rfl hread] at htime
      have hlt : older.length < (newer ++ read :: older).length := by
        rw [List.length_append, List.length_cons]
        omega
      refine ⟨older.length, Nat.lt_succ_of_lt hlt, htime, ?_, fun hdone => absurd hdone hopen⟩
      intro token _ htoken'
      have hsame : lease'.token = token := Option.some.inj (htoken.symm.trans htoken')
      exact ⟨[], event, _, i, _, rfl, hlt, hlabel, Or.inr ⟨lease', now', hevent, hsame, rfl⟩⟩
    | renewLease lease' now' duration =>
      have hlater : RowAccepted clock policy created e (event :: history) row := (h hflag).later
      obtain ⟨n, hn, htime, hheld, -⟩ := hlater
      exact ⟨n, hn, htime, hheld, fun hdone => absurd hdone hopen⟩
    | retryLater lease' now' delay =>
      obtain ⟨n, hn, htime, -, -⟩ := h hflag
      refine ⟨n, Nat.lt_succ_of_lt hn, htime, ?_, ?_⟩
      · intro token hclaimed
        cases hclaimed
      · intro hdone
        cases hdone
    | claimEvent e' c revision now' duration => cases howner
    | lastCompletedEventAt c => cases howner
    | pruneTerminal before rows => cases howner
    | completeEvent lease' kind json now' =>
      obtain ⟨rfl, rfl⟩ := Prod.mk.inj (Option.some.inj howner)
      simp [LedgerCall.completes, hevent] at hcompletes
    | completeEventForActiveConnection lease' c revision json now' =>
      obtain ⟨rfl, rfl⟩ := Prod.mk.inj (Option.some.inj howner)
      simp [LedgerCall.completes, hevent] at hcompletes
    | completeNwcEventForActiveConnection lease' c revision json method now' =>
      obtain ⟨rfl, rfl⟩ := Prod.mk.inj (Option.some.inj howner)
      simp [LedgerCall.completes, hevent] at hcompletes

/-- In every reachable state a row's accepted freshness has its origin in the run. -/
theorem flagged_accepted (hrun : SystemRun x outside l history w)
    (hclaims : ClaimsByExecutions outside) (hvacant : l.eventOf e = none)
    (hcreated : ∀ a, x.verify a = true → a.id = e → a.createdAt = created)
    (htimed : TimedBy clock policy history) (hwakes : WakesUnder policy history)
    (htokens : DistinctTokens e history) :
    ∀ row, w.shared.eventOf e = some row → row.freshnessAccepted = true →
      RowAccepted clock policy created e history row := by
  induction hrun with
  | refl =>
    intro row hrow
    rw [hvacant] at hrow
    cases hrow
  | @tail past m m' label hpast hstep ih =>
    rw [← List.singleton_append] at htimed htokens
    have hprior := ih htimed.past (fun spawn hspawn => hwakes spawn (List.mem_cons_of_mem _ hspawn))
      htokens.past
    intro row hrow hflag
    rcases SystemStep.ledger hstep with ⟨call, hcall, hledger⟩ | ⟨-, hsame⟩
    · have hevent := hledger.eventStep e
      rw [hrow] at hevent
      generalize hold : m.shared.eventOf e = before at hevent
      cases hevent with
      | kept _ => exact (hprior row hold hflag).later
      | opened => cases hflag
      | resumed _ _ _ _ _ =>
        obtain ⟨i, hlabel⟩ := hclaims.act hstep hcall fun _ => ⟨_, _, _, _, _, rfl⟩
        obtain ⟨n, hn, htime, -, -⟩ := hprior _ hold hflag
        refine ⟨n, Nat.lt_succ_of_lt hn, htime, ?_, fun hdone => by cases hdone⟩
        intro token _ htoken
        cases htoken
        exact ⟨[], _, past, i, _, rfl, hn, hlabel, Or.inl ⟨_, _, _, _, _, rfl, rfl⟩⟩
      | owned howner hlease howned =>
        obtain ⟨i, hlabel⟩ := hclaims.act hstep hcall fun hnone => by rw [howner] at hnone; cases hnone
        exact RowAccepted.owned hcreated (hprior _ hold) (hpast.tail hstep) htimed.past hwakes
          htokens.past hlabel howner hlease howned hflag
    · rw [hsame] at hrow
      exact (hprior row hrow hflag).later

end Flags

/-- How an execution ended, as far as the freshness of its event is concerned. -/
inductive FreshnessOutcome (log : HostLog) (disposition : WakeDisposition) : Prop
  | unclaimed (h : ∀ e c revision now duration lease, ¬ Answered log
      (.ledger (.claim (.claimEvent e c revision now duration))) (.ok (.acquired lease)))
  | carried {e : EventId} {c : ConnectionId} {revision : ConnectionRevision} {now : UnixTimestamp}
      {duration : Duration} {lease : EventLease}
      (claimed : Answered log (.ledger (.claim (.claimEvent e c revision now duration)))
        (.ok (.acquired lease))) (flag : lease.freshnessAccepted = true)
  | accepted {lease : EventLease} {now : UnixTimestamp}
      (h : Answered log (.ledger (.claim (.acceptEventFreshness lease now))) (.ok ()))
  | rejected (h : disposition = rejected .eventOutsideFreshnessWindow)
  | busy (h : disposition = queued .ledgerBusy)

section Outcomes

variable {x : Crates} {policy : WakePolicy} {wake : WakeInput} {log : HostLog}
  {relay : SecureRelayUrl} {connection : ActiveConnection} {validated : ValidatedNwcEvent}
  {r : ClaimedRequest}

/-- No claim was acquired yet. -/
def Unclaimed (log : HostLog) : Prop :=
  ∀ e c revision now duration lease, ¬ Answered log
    (.ledger (.claim (.claimEvent e c revision now duration))) (.ok (.acquired lease))

/-- The operation is not a claim. -/
def NoClaim (op : HostOp) : Prop :=
  ∀ e c revision now duration, op ≠ .ledger (.claim (.claimEvent e c revision now duration))

theorem Unclaimed.cons {op : HostOp} {reply : op.Reply} (h : Unclaimed log) (hop : NoClaim op) :
    Unclaimed (⟨op, reply⟩ :: log) := by
  intro e c revision now duration lease hanswered
  rcases List.mem_cons.mp hanswered with heq | hprior
  · exact hop e c revision now duration (congrArg Call.op heq).symm
  · exact h e c revision now duration lease hprior

/-- A claim that did not acquire the event changes nothing. -/
theorem Unclaimed.claim {e : EventId} {c : ConnectionId} {revision : ConnectionRevision}
    {now : UnixTimestamp} {duration : Duration} {outcome : Except LedgerError ClaimOutcome}
    (h : Unclaimed log) (hne : ∀ lease, outcome ≠ .ok (.acquired lease)) : Unclaimed
      (⟨.ledger (.claim (.claimEvent e c revision now duration)), outcome⟩ :: log) := by
  intro e' c' revision' now' duration' lease hanswered
  rcases List.mem_cons.mp hanswered with heq | hprior
  · cases heq
    exact hne lease rfl
  · exact h e' c' revision' now' duration' lease hprior

theorem Unclaimed.spec {α : Type} {p : HostProg α} (h : Unclaimed log)
    (hp : Spec (fun _ => NoClaim) log p fun _ _ => True) :
    Spec (fun _ _ => True) log p fun log' _ => Unclaimed log' := by
  have hkept := hp.keeps (fun _ _ _ hop hlog => Unclaimed.cons hlog hop) h
  exact (hkept.imp fun _ _ hpost => hpost.2).guard_imp fun _ _ _ => trivial

theorem noClaim_deadlineContext : Spec (fun _ => NoClaim) log deadlineContext fun _ _ => True := by
  refine ⟨nofun, fun cancelled => ?_⟩
  cases cancelled with
  | true => trivial
  | false => exact ⟨nofun, fun _ => trivial⟩

theorem noClaim_obtainEvent :
    Spec (fun _ => NoClaim) log (obtainEvent policy wake relay) fun _ _ => True := by
  unfold obtainEvent
  split
  · trivial
  · refine noClaim_deadlineContext.seq fun log' context _ => ?_
    cases context with
    | none => trivial
    | some context =>
      refine ⟨nofun, fun fetched => ?_⟩
      match fetched with
      | .ok (some event) => trivial
      | .ok none => trivial
      | .error error =>
        dsimp only [Prog.bind]
        split <;> trivial

theorem noClaim_bindConnection {now : UnixTimestamp} {eventJson : String} :
    Spec (fun _ => NoClaim) log (bindConnection x policy wake relay now eventJson)
      fun _ _ => True := by
  unfold bindConnection
  split
  · trivial
  · refine ⟨nofun, fun found => ?_⟩
    match found with
    | .error error => trivial
    | .ok none => trivial
    | .ok (some connection) =>
      dsimp only [Prog.bind]
      split
      · trivial
      · split
        · trivial
        · split <;> trivial

theorem noClaim_republishTerminal {eventJson : Option String} {notification : NotificationHint} :
    Spec (fun _ => NoClaim) log (republishTerminal connection relay eventJson notification)
      fun _ _ => True := by
  cases eventJson with
  | none => trivial
  | some json =>
    refine ⟨nofun, fun active => ?_⟩
    match active with
    | .ok false => trivial
    | .error error => trivial
    | .ok true =>
      refine noClaim_deadlineContext.seq fun log' context _ => ?_
      cases context with
      | none => exact ⟨nofun, fun _ => trivial⟩
      | some context =>
        refine ⟨nofun, fun published => ?_⟩
        cases published with
        | ok _ => trivial
        | error error => exact ⟨nofun, fun _ => trivial⟩

/-- The event's freshness was accepted, by this execution or before its claim. -/
def Settled (log : HostLog) : Prop :=
  (∃ e c revision now duration lease, Answered log
    (.ledger (.claim (.claimEvent e c revision now duration))) (.ok (.acquired lease)) ∧
      lease.freshnessAccepted = true) ∨
  ∃ lease now, Answered log (.ledger (.claim (.acceptEventFreshness lease now))) (.ok ())

theorem Settled.sub {log' : HostLog} (h : Settled log) (hsub : log ⊆ log') : Settled log' := by
  rcases h with ⟨e, c, revision, now, duration, lease, hclaimed, hflag⟩ | ⟨lease, now, haccepted⟩
  · exact Or.inl ⟨e, c, revision, now, duration, lease, hsub hclaimed, hflag⟩
  · exact Or.inr ⟨lease, now, hsub haccepted⟩

theorem Settled.outcome {disposition : WakeDisposition} (h : Settled log) :
    FreshnessOutcome log disposition := by
  rcases h with ⟨e, c, revision, now, duration, lease, hclaimed, hflag⟩ | ⟨lease, now, haccepted⟩
  · exact .carried hclaimed hflag
  · exact .accepted haccepted

/-- Once freshness is settled the rest of the execution does not matter. -/
theorem Settled.spec {p : HostProg WakeDisposition} (h : Settled log) :
    Spec (fun _ _ => True) log p FreshnessOutcome :=
  (spec_trivial.keeps (fun _ _ _ _ hlog => hlog.sub (List.subset_cons_self _ _)) h).imp fun _ _ hpost =>
    hpost.2.outcome

theorem outcome_executeClaimed {now : UnixTimestamp} {duration : Duration} {e : EventId}
    {c : ConnectionId} {revision : ConnectionRevision}
    (hclaimed : Answered log (.ledger (.claim (.claimEvent e c revision now duration)))
      (.ok (.acquired r.lease))) :
    Spec (fun _ _ => True) log (executeClaimed x policy r) FreshnessOutcome := by
  unfold executeClaimed acceptFreshness
  split
  · rename_i hflag
    exact Settled.spec (Or.inl ⟨e, c, revision, now, duration, r.lease, hclaimed, hflag⟩)
  · refine ⟨trivial, fun time => ?_⟩
    dsimp only [Prog.bind]
    split
    · refine ⟨trivial, fun acceptedAt => ⟨trivial, fun accepted => ?_⟩⟩
      cases accepted with
      | error error =>
        refine ⟨trivial, fun released => ⟨trivial, fun done => ?_⟩⟩
        cases done with
        | ok _ => exact .busy rfl
        | error error => exact .busy rfl
      | ok done => exact Settled.spec (Or.inr ⟨r.lease, acceptedAt, List.mem_cons_self⟩)
    · refine ⟨trivial, fun rejectedAt => ⟨trivial, fun done => ?_⟩⟩
      cases done with
      | ok _ => exact .rejected rfl
      | error error => exact .busy rfl

theorem outcome_claimAndExecute (h : Unclaimed log) :
    Spec (fun _ _ => True) log (claimAndExecute x policy relay connection validated)
      FreshnessOutcome := by
  refine ⟨trivial, fun remaining => ?_⟩
  have hremaining : Unclaimed (⟨.deadlineRemaining, remaining⟩ :: log) := h.cons nofun
  dsimp only [Prog.bind]
  split
  · exact .unclaimed hremaining
  · rename_i duration _
    refine ⟨trivial, fun now => ⟨trivial, fun outcome => ?_⟩⟩
    have hclock : Unclaimed (⟨.clockNow, now⟩ :: ⟨.deadlineRemaining, remaining⟩ :: log) :=
      hremaining.cons nofun
    match outcome with
    | .error error => exact .unclaimed (hclock.claim fun lease heq => by cases heq)
    | .ok (.inProgress retryAfter) => exact .unclaimed (hclock.claim fun lease heq => by cases heq)
    | .ok (.terminal terminal) =>
      exact ((hclock.claim fun lease heq => by cases heq).spec noClaim_republishTerminal).imp fun _ _ hlog => .unclaimed hlog
    | .ok (.acquired lease) => exact outcome_executeClaimed List.mem_cons_self

theorem outcome_execute : Spec (fun _ _ => True) [] (execute x policy wake) FreshnessOutcome := by
  have hempty : Unclaimed [] := fun _ _ _ _ _ _ hanswered => by cases hanswered
  refine ⟨trivial, fun cancelled => ?_⟩
  have hcancelled : Unclaimed [⟨.isCancelled, cancelled⟩] := hempty.cons nofun
  cases cancelled with
  | true => exact .unclaimed hcancelled
  | false =>
    refine ⟨trivial, fun now => ?_⟩
    have hnow : Unclaimed [⟨.clockNow, now⟩, ⟨.isCancelled, false⟩] := hcancelled.cons nofun
    dsimp only [Prog.bind]
    split
    · exact .unclaimed hnow
    · rename_i relay _
      refine ⟨trivial, fun approved => ?_⟩
      have happroved : Unclaimed [⟨.ledger (.registry (.isRelayApprovedForWallet
          wake.walletServicePubkey relay now)), approved⟩, ⟨.clockNow, now⟩,
          ⟨.isCancelled, false⟩] := hnow.cons nofun
      match approved with
      | .ok false => exact .unclaimed happroved
      | .error error => exact .unclaimed happroved
      | .ok true =>
        refine (happroved.spec noClaim_obtainEvent).seq fun log₁ obtained hlog₁ => ?_
        cases obtained with
        | error disposition => exact .unclaimed hlog₁
        | ok eventJson =>
          refine (hlog₁.spec noClaim_bindConnection).seq fun log₂ bound hlog₂ => ?_
          match bound with
          | .error disposition => exact .unclaimed hlog₂
          | .ok (connection, validated) => exact outcome_claimAndExecute hlog₂

theorem Job.outcome (job : Job) : Spec (fun _ _ => True) [] (job.program x) fun log result =>
    ∀ disposition, result = .wake disposition → FreshnessOutcome log disposition := by
  cases job with
  | wake policy input =>
    refine outcome_execute.seq fun log disposition houtcome => ?_
    intro disposition' hresult
    cases hresult
    exact houtcome
  | reconcile maxAttempts => exact spec_trivial.seq fun _ _ _ disposition hresult => by cases hresult
  | migrate imports => exact spec_trivial.seq fun _ _ _ disposition hresult => by cases hresult

end Outcomes

section After

variable {x : Crates} {outside : HostCall → Prop} {l : Ledger} {w : SystemWorld}
  {policy : WakePolicy} {clock : Nat → UnixTimestamp} {later earlier : SystemHistory}
  {prune : Event SystemWorld SystemLabel} {e : EventId} {created : UnixTimestamp}

/-- Once the row is gone and the window has closed, freshness is not accepted
again: whoever could accept it has claimed after the prune and reads the clock
after that. -/
theorem not_accepted_after (hrun : SystemRun x outside l (later ++ prune :: earlier) w)
    (hcreated : ∀ a, x.verify a = true → a.id = e → a.createdAt = created)
    (htimed : TimedBy clock policy (later ++ prune :: earlier))
    (hwakes : WakesUnder policy (later ++ prune :: earlier))
    (htokens : DistinctTokens e (later ++ prune :: earlier))
    (hgone : prune.after.shared.eventOf e = none)
    (hclosed : ∀ n, earlier.length ≤ n → policy.acceptsEventTime created (clock n) = false)
    {event : Event SystemWorld SystemLabel} {i : Nat} {lease : EventLease} {now : UnixTimestamp}
    (hevent : event ∈ later)
    (hlabel : Asked i (.ledger (.claim (.acceptEventFreshness lease now))) (.ok ()) event) :
    lease.eventId ≠ e := by
  intro heq
  obtain ⟨newer, between, rfl⟩ := List.append_of_mem hevent
  -- the token was drawn since the prune
  obtain ⟨-, -, hafter⟩ := hrun.split
  obtain ⟨hbetween, hstep, -⟩ := hafter.split
  rw [hlabel] at hstep
  obtain ⟨random, hop⟩ := (SystemStep.ledgerStep hstep).run_of_ok
  have haccept : (ClaimOp.acceptEventFreshness lease now).run random event.before.shared =
      .ok ((), event.after.shared) := hop
  have hheld := held_of_acts rfl haccept
  have hvacant : prune.after.shared.slotOf e = .vacant := by
    rw [Ledger.slotOf, hgone]
    rfl
  have hfenced := fencing_run (ledgerRun_of_run hbetween) e
  rw [hvacant] at hfenced
  rw [heq] at hheld
  have hdrawn := Fencing.drawn_of_held hfenced hheld
  rw [drawn_fencedHistory] at hdrawn
  obtain ⟨lease', hissued, htoken⟩ := List.mem_map.mp hdrawn
  -- so the claim and the reading of the clock came after the prune as well
  have hsplit : newer ++ event :: between ++ prune :: earlier =
      newer ++ event :: (between ++ prune :: earlier) := by simp
  rw [hsplit] at hrun hwakes htimed htokens
  obtain ⟨recent, read, past, time, hpast, hread, ⟨a, hverified, hid, htime⟩, claim, hclaim,
    hissues⟩ := acceptance_of_act hrun hwakes hlabel heq
  have hlate : earlier.length ≤ past.length := by
    by_contra hshort
    have hpastSuffix : past <:+ between ++ prune :: earlier :=
      ⟨recent ++ [read], by rw [hpast]; simp⟩
    have hearlierSuffix : earlier <:+ between ++ prune :: earlier := ⟨between ++ [prune], by simp⟩
    have hsuffix : past <:+ earlier :=
      List.suffix_of_suffix_length_le hpastSuffix hearlierSuffix (Nat.le_of_not_le hshort)
    have hold : lease ∈ issuedLeases e (ledgerHistory (prune :: earlier)) :=
      hissues.mem (List.mem_cons_of_mem _ (hsuffix.subset hclaim))
    rw [← List.singleton_append, ← List.append_assoc] at htokens
    exact htokens.past.later_ne hissued hold htoken
  rw [hcreated a hverified hid, htimed.reading (newer ++ event :: recent) read past i time
    (by rw [hpast]; simp) hread, hclosed _ hlate] at htime
  cases htime

/-- The same for whoever accepts: only executions do. -/
theorem not_acceptedIn_after (hrun : SystemRun x outside l (later ++ prune :: earlier) w)
    (hclaims : ClaimsByExecutions outside)
    (hcreated : ∀ a, x.verify a = true → a.id = e → a.createdAt = created)
    (htimed : TimedBy clock policy (later ++ prune :: earlier))
    (hwakes : WakesUnder policy (later ++ prune :: earlier))
    (htokens : DistinctTokens e (later ++ prune :: earlier))
    (hgone : prune.after.shared.eventOf e = none)
    (hclosed : ∀ n, earlier.length ≤ n → policy.acceptsEventTime created (clock n) = false) :
    ¬ AcceptedIn e (ledgerHistory later) := by
  rintro ⟨accept, haccept, lease, now, hlabel, hevent⟩
  obtain ⟨event, hmem, hread⟩ := List.mem_filterMap.mp haccept
  obtain ⟨call, hcall, rfl⟩ := Option.map_eq_some_iff.mp hread
  change call = _ at hlabel
  rw [hlabel] at hcall
  have hstep := hrun.step_of_mem (List.mem_append_left _ hmem)
  obtain ⟨i, hact⟩ := hclaims.act hstep hcall fun hnone => by cases hnone
  exact not_accepted_after hrun hcreated htimed hwakes htokens hgone hclosed hmem hact hevent

/-- A lease issued after the prune does not carry an accepted freshness. -/
theorem not_carried_after (hrun : SystemRun x outside l (later ++ prune :: earlier) w)
    (hgone : prune.after.shared.eventOf e = none) (hnever : ¬ AcceptedIn e (ledgerHistory later))
    {claim : Event SystemWorld SystemLabel} {i : Nat} {lease : EventLease} (hmem : claim ∈ later)
    (hissues : Issues i e lease claim) : lease.freshnessAccepted ≠ true := by
  intro hflag
  obtain ⟨c, revision, now, duration, hlabel⟩ := hissues
  obtain ⟨newer, between, rfl⟩ := List.append_of_mem hmem
  obtain ⟨-, -, hafter⟩ := hrun.split
  obtain ⟨hbetween, hstep, -⟩ := hafter.split
  rw [hlabel] at hstep
  have hrecorded := (SystemStep.ledgerStep hstep).acquired.2 hflag
  rcases freshness_recorded (ledgerRun_of_run hbetween) hrecorded with
    ⟨accept, haccept, hlabel'⟩ | ⟨row, hrow, -⟩
  · refine hnever ⟨accept, ?_, hlabel'⟩
    rw [ledgerHistory, List.filterMap_append, List.filterMap_cons]
    apply List.mem_append_right
    split
    · exact haccept
    · exact List.mem_cons_of_mem _ haccept
  · rw [hgone] at hrow
    cases hrow

/-- The guard of an execution whose job is known. -/
theorem wake_act {newer older : SystemHistory} {event : Event SystemWorld SystemLabel} {i : Nat}
    {t : SystemThread} {input : WakeInput} {call : HostCall}
    (hrun : SystemRun x outside l (newer ++ event :: older) w) (hthread : w.threads[i]? = some t)
    (hjob : t.job = .wake policy input) (hlabel : event.label = .act i call) :
    WakeGuard x policy input (actsOf i older) call.op := by
  obtain ⟨t', hthread', hguard, -⟩ := SystemRun.act_guard hrun hlabel
  obtain ⟨hbefore, hstep, hafter⟩ := hrun.split
  rw [log_eq_actsOf hbefore i t' hthread'] at hguard
  obtain ⟨after, hafterThread, hafterJob, -⟩ := Step.keeps hstep hthread'
  obtain ⟨last, hlast, hlastJob, -⟩ := threads_kept hafter hafterThread
  rw [hthread, Option.some.injEq] at hlast
  have hsame : t'.job = .wake policy input := by
    rw [← hafterJob, ← hlastJob, ← hlast, hjob]
  rw [hsame] at hguard
  exact hguard

/-- Only a prune removes a row, and only an old terminal one. -/
theorem prune_call {row : WakeEventRow}
    (hrun : SystemRun x outside l (later ++ prune :: earlier) w)
    (hrow : prune.before.shared.eventOf e = some row)
    (hgone : prune.after.shared.eventOf e = none) :
    ∃ cutoff rows n, systemLedgerCall prune.label =
        some ⟨.claim (.pruneTerminal cutoff rows), .ok n⟩ ∧
      row.state = .terminal ∧ row.updatedAt < cutoff := by
  obtain ⟨-, hstep, -⟩ := hrun.split
  rcases SystemStep.ledger hstep with ⟨call, hcall, hledger⟩ | ⟨-, hsame⟩
  · have hevent := hledger.eventStep e
    rw [hrow, hgone] at hevent
    cases hevent with
    | pruned hterminal hold => exact ⟨_, _, _, hcall, hterminal, hold⟩
  · rw [hsame, hrow] at hgone
    cases hgone

/-- When an accepted row is pruned, the window for its event has closed. -/
theorem window_closed {row : WakeEventRow} (hpolicy : policy.Checked)
    (hrun : SystemRun x outside l (later ++ prune :: earlier) w)
    (hclaims : ClaimsByExecutions outside) (hvacant : l.eventOf e = none)
    (hcreated : ∀ a, x.verify a = true → a.id = e → a.createdAt = created)
    (htimed : TimedBy clock policy (later ++ prune :: earlier))
    (hwakes : WakesUnder policy (later ++ prune :: earlier))
    (htokens : DistinctTokens e (later ++ prune :: earlier))
    (hrow : prune.before.shared.eventOf e = some row) (hflag : row.freshnessAccepted = true)
    (hgone : prune.after.shared.eventOf e = none) :
    ∀ n, earlier.length ≤ n → policy.acceptsEventTime created (clock n) = false := by
  obtain ⟨cutoff, rows, _, hcall, hterminal, hold⟩ := prune_call hrun hrow hgone
  have hcutoff := htimed.prune later prune earlier cutoff rows _ rfl hcall
  obtain ⟨hbefore, -, -⟩ := hrun.split
  rw [← List.singleton_append, ← List.append_assoc] at htimed hwakes htokens
  obtain ⟨n, -, htime, -, hdated⟩ := flagged_accepted hbefore hclaims hvacant hcreated
    htimed.past hwakes.past htokens.past row hrow hflag
  intro m hm
  apply hpolicy.rejects htime
  have hretained : ∀ accepted updated cutoff now retention : Nat, accepted ≤ updated →
      updated < cutoff → cutoff ≤ now - retention → accepted + retention < now := by
    intros
    omega
  exact Nat.lt_of_lt_of_le (hretained _ _ _ _ _ (hdated hterminal) hold hcutoff)
    (htimed.monotone hm)

theorem Fresh.settled {input : WakeInput} {log : HostLog} {r : ClaimedRequest}
    (h : Fresh x policy input log r) : Settled log := by
  obtain ⟨now, duration, hacquired⟩ := h.claimed.acquired
  rcases h.accepted with hflag | ⟨-, acceptedAt, haccepted⟩
  · exact Or.inl ⟨_, _, _, now, duration, r.lease, hacquired, hflag⟩
  · exact Or.inr ⟨r.lease, acceptedAt, haccepted⟩

theorem WakeGuard.wallet_fresh {input : WakeInput} {log : HostLog} {op : WalletOp}
    {context : OperationContext} (h : WakeGuard x policy input log (.wallet op context)) :
    ∃ r, Fresh x policy input log r := by
  cases op with
  | startPayment start =>
    obtain ⟨r, attempt, hpaying, -⟩ := h
    exact ⟨r, hpaying.fresh⟩
  | getInfo => obtain ⟨r, request, method, hpermitted, -⟩ := h; exact ⟨r, hpermitted.fresh⟩
  | getBalance => obtain ⟨r, request, method, hpermitted, -⟩ := h; exact ⟨r, hpermitted.fresh⟩
  | makeInvoice _ => obtain ⟨r, request, method, hpermitted, -⟩ := h; exact ⟨r, hpermitted.fresh⟩
  | quotePayment _ _ => obtain ⟨r, request, method, hpermitted, -⟩ := h; exact ⟨r, hpermitted.fresh⟩
  | paymentStatus _ => obtain ⟨r, request, method, hpermitted, -⟩ := h; exact ⟨r, hpermitted.fresh⟩
  | lookupInvoice _ => obtain ⟨r, request, method, hpermitted, -⟩ := h; exact ⟨r, hpermitted.fresh⟩
  | listTransactions _ =>
    obtain ⟨r, request, method, hpermitted, -⟩ := h
    exact ⟨r, hpermitted.fresh⟩

/-- An execution that claims the event only after the prune never finds its
freshness accepted. -/
theorem not_settled_after {row : WakeEventRow} {i : Nat} {t : SystemThread} {input : WakeInput}
    (hrun : SystemRun x outside l (later ++ prune :: earlier) w)
    (hclaims : ClaimsByExecutions outside)
    (hcreated : ∀ a, x.verify a = true → a.id = e → a.createdAt = created)
    (htimed : TimedBy clock policy (later ++ prune :: earlier))
    (hwakes : WakesUnder policy (later ++ prune :: earlier))
    (htokens : DistinctTokens e (later ++ prune :: earlier))
    (hrow : prune.before.shared.eventOf e = some row)
    (hgone : prune.after.shared.eventOf e = none)
    (hclosed : ∀ n, earlier.length ≤ n → policy.acceptsEventTime created (clock n) = false)
    (hthread : w.threads[i]? = some t) (hjob : t.job = .wake policy input)
    (hinput : input.eventId = e) (hlate : ∀ claim ∈ earlier, ∀ lease, ¬ Issues i e lease claim) :
    ¬ Settled (actsOf i (later ++ prune :: earlier)) := by
  obtain ⟨cutoff, rows, n, hprune, -⟩ := prune_call hrun hrow hgone
  rintro (⟨e', c, revision, now, duration, lease, hclaimed, hflag⟩ | ⟨lease, now, haccepted⟩)
  · obtain ⟨claim, hclaim, hlabel⟩ := mem_actsOf.mp hclaimed
    have hevent : e' = e := by
      obtain ⟨newer, older, hsplit⟩ := List.append_of_mem hclaim
      rw [hsplit] at hrun
      obtain ⟨hguard, -⟩ := wake_act hrun hthread hjob hlabel
      exact hguard.trans hinput
    subst hevent
    have hissues : Issues i e' lease claim := ⟨c, revision, now, duration, hlabel⟩
    rcases List.mem_append.mp hclaim with hnew | hrest
    · have hnever := not_acceptedIn_after hrun hclaims hcreated htimed hwakes htokens hgone hclosed
      exact not_carried_after hrun hgone hnever hnew hissues hflag
    · rcases List.mem_cons.mp hrest with rfl | hold
      · rw [hlabel] at hprune
        cases hprune
      · exact hlate claim hold lease hissues
  · obtain ⟨accept, haccept, hlabel⟩ := mem_actsOf.mp haccepted
    have hevent : lease.eventId = e := by
      obtain ⟨newer, older, hsplit⟩ := List.append_of_mem haccept
      rw [hsplit] at hrun
      obtain ⟨r, time, past, hlog, hclaimed, rfl, -⟩ := wake_act hrun hthread hjob hlabel
      have hacquired : Claimed x input (actsOf i older) r := by
        rw [hlog]
        exact hclaimed.mono ((Continues.one id).cons id)
      rw [(hacquired.issues hrun.split.1).1, hclaimed.bound.eventId, hinput]
    rcases List.mem_append.mp haccept with hnew | hrest
    · exact not_accepted_after hrun hcreated htimed hwakes htokens hgone hclosed hnew hlabel hevent
    · rcases List.mem_cons.mp hrest with rfl | hold
      · rw [hlabel] at hprune
        cases hprune
      · obtain ⟨newer, older, rfl⟩ := List.append_of_mem hold
        obtain ⟨hbefore, -, -⟩ := hrun.split
        have hpastWakes : WakesUnder policy (newer ++ accept :: older) := fun spawn hspawn =>
          hwakes spawn (List.mem_append_right _ (List.mem_cons_of_mem _ hspawn))
        obtain ⟨recent, read, past, time, rfl, -, -, claim, hclaim, hissues⟩ :=
          acceptance_of_act hbefore hpastWakes hlabel hevent
        exact hlate claim (by simp [hclaim]) lease hissues

end After

/-- Replay protection survives pruning. For every checked policy and every clock
that never goes back: once an event was accepted, became terminal and was pruned
after the retention, no execution that claims it later gets as far as loading a
secret or calling the wallet; and when such an execution is over, its event was
rejected as outside the freshness window, unless the ledger failed to record
that. -/
theorem replay_protection_survives_pruning {x : Crates} (hids : x.EventIdsCollisionFree)
    {outside : HostCall → Prop} (hclaims : ClaimsByExecutions outside) {policy : WakePolicy}
    (hpolicy : policy.Checked) {clock : Nat → UnixTimestamp} {l : Ledger} {e : EventId}
    (hvacant : l.eventOf e = none) {later earlier : SystemHistory}
    {prune : Event SystemWorld SystemLabel} {w : SystemWorld}
    (hrun : SystemRun x outside l (later ++ prune :: earlier) w)
    (htimed : TimedBy clock policy (later ++ prune :: earlier))
    (hwakes : WakesUnder policy (later ++ prune :: earlier))
    (htokens : DistinctTokens e (later ++ prune :: earlier)) {row : WakeEventRow}
    (hrow : prune.before.shared.eventOf e = some row) (hflag : row.freshnessAccepted = true)
    (hgone : prune.after.shared.eventOf e = none) {i : Nat} {t : SystemThread} {input : WakeInput}
    (hthread : w.threads[i]? = some t) (hjob : t.job = .wake policy input)
    (hinput : input.eventId = e) (hlate : ∀ claim ∈ earlier, ∀ lease, ¬ Issues i e lease claim) :
    (∀ event ∈ later ++ prune :: earlier, ∀ id context reply,
      ¬ Asked i (.loadNwcSecret id context) reply event) ∧
    (∀ event ∈ later ++ prune :: earlier, ∀ op context reply,
      ¬ Asked i (.wallet op context) reply event) ∧
    (∀ disposition, t.rest = .done (.wake disposition) →
      (∃ claim ∈ later, ∃ lease, Issues i e lease claim) →
      disposition = rejected .eventOutsideFreshnessWindow ∨ disposition = queued .ledgerBusy) := by
  obtain ⟨created, hcreated⟩ : ∃ created, ∀ a, x.verify a = true → a.id = e →
      a.createdAt = created := by
    by_cases hknown : ∃ a, x.verify a = true ∧ a.id = e
    · obtain ⟨a, ha, hid⟩ := hknown
      exact ⟨a.createdAt, fun b hb hid' => (hids b a hb ha (hid'.trans hid.symm)).2.1⟩
    · exact ⟨0, fun a ha hid => absurd ⟨a, ha, hid⟩ hknown⟩
  have hclosed := window_closed hpolicy hrun hclaims hvacant hcreated htimed hwakes htokens hrow
    hflag hgone
  have hunsettled := not_settled_after hrun hclaims hcreated htimed hwakes htokens hrow hgone
    hclosed hthread hjob hinput hlate
  have hfresh : ∀ newer event older, later ++ prune :: earlier = newer ++ event :: older →
      ∀ r, ¬ Fresh x policy input (actsOf i older) r := by
    intro newer event older hsplit r hfresh
    refine hunsettled (hfresh.settled.sub ?_)
    intro call hcall
    obtain ⟨prior, hprior, hlabel⟩ := mem_actsOf.mp hcall
    exact mem_actsOf.mpr ⟨prior, by rw [hsplit]; simp [hprior], hlabel⟩
  refine ⟨?_, ?_, ?_⟩
  · intro event hevent id context reply hasked
    obtain ⟨newer, older, hsplit⟩ := List.append_of_mem hevent
    have hcut := hrun
    rw [hsplit] at hcut
    obtain ⟨r, hloaded, -⟩ := wake_act hcut hthread hjob hasked
    exact hfresh newer event older hsplit r hloaded
  · intro event hevent op context reply hasked
    obtain ⟨newer, older, hsplit⟩ := List.append_of_mem hevent
    have hcut := hrun
    rw [hsplit] at hcut
    have hguard : WakeGuard x policy input (actsOf i older) (.wallet op context) :=
      wake_act hcut hthread hjob hasked
    obtain ⟨r, hcalled⟩ := hguard.wallet_fresh
    exact hfresh newer event older hsplit r hcalled
  · rintro disposition hdone ⟨claim, hclaim, lease, c, revision, now, duration, hlabel⟩
    have hspec := threads_spec Job.outcome hrun i t hthread
    rw [hdone, log_eq_actsOf hrun i t hthread] at hspec
    cases hspec disposition rfl with
    | unclaimed hnone =>
      exact absurd (mem_actsOf.mpr ⟨claim, List.mem_append_left _ hclaim, hlabel⟩)
        (hnone e c revision now duration lease)
    | carried hclaimed hcarried =>
      exact absurd (Or.inl ⟨_, _, _, _, _, _, hclaimed, hcarried⟩) hunsettled
    | accepted haccepted => exact absurd (Or.inr ⟨_, _, haccepted⟩) hunsettled
    | rejected hrejected => exact Or.inl hrejected
    | busy hbusy => exact Or.inr hbusy

def readingTimed (now : UnixTimestamp) : SystemLabel → Bool
  | .act _ ⟨.clockNow, reading⟩ => decide ((reading : UnixTimestamp) = now)
  | _ => true

def pruneTimed (latest : UnixTimestamp) : Option LedgerCall → Bool
  | some ⟨.claim (.pruneTerminal cutoff _), _⟩ => decide (cutoff ≤ latest)
  | _ => true

/-- The condition of `TimedBy` on one step. -/
def labelTimed (clock : Nat → UnixTimestamp) (policy : WakePolicy) (n : Nat) (label : SystemLabel) :
    Bool :=
  readingTimed (clock n) label &&
    pruneTimed (clock n - policy.replayRetention.asSecs) (systemLedgerCall label)

def historyTimed (clock : Nat → UnixTimestamp) (policy : WakePolicy) : SystemHistory → Bool
  | [] => true
  | event :: past => labelTimed clock policy past.length event.label && historyTimed clock policy past

theorem timedBy_of_historyTimed {clock : Nat → UnixTimestamp} {policy : WakePolicy}
    {history : SystemHistory} (hmonotone : Monotone clock)
    (h : historyTimed clock policy history = true) : TimedBy clock policy history := by
  have hlabel : ∀ later event earlier, history = later ++ event :: earlier →
      labelTimed clock policy earlier.length event.label = true := by
    intro later event earlier hsplit
    rw [hsplit] at h
    clear hsplit
    induction later with
    | nil => exact (Bool.and_eq_true_iff.mp h).1
    | cons first rest ih => exact ih (Bool.and_eq_true_iff.mp h).2
  refine ⟨hmonotone, ?_, ?_⟩
  · intro later event earlier i now hsplit hasked
    have htimed := hlabel later event earlier hsplit
    rw [hasked] at htimed
    exact of_decide_eq_true (Bool.and_eq_true_iff.mp htimed).1
  · intro later event earlier cutoff rows reply hsplit hcall
    have htimed := hlabel later event earlier hsplit
    rw [labelTimed, hcall] at htimed
    exact of_decide_eq_true (Bool.and_eq_true_iff.mp htimed).2

namespace Sample

/-- A host whose secret store hands out a secret of another wallet. -/
def confusedScript (now : UnixTimestamp) (token : BitVec 128) : HostScript :=
  { payingScript now token with secret := .ok ⟨0⟩ }

/-- An accepted event is rejected because it does not decrypt. -/
def undecryptable : List Move :=
  List.replicate 15 (Move.act 0 (confusedScript 1010 1)) ++
  [Move.spawn firstWake,
   Move.outside (.registry (.insertConnection connection 1000)) (script 1000 0)]

/-- A day later its row is pruned. -/
def retired : List Move :=
  .outside (.claim (.pruneTerminal 13600 10)) (script 100000 0) :: undecryptable

/-- Then the event is delivered again. -/
def redelivered : List Move :=
  (List.replicate 10 (Move.act 1 (confusedScript 100000 2)) ++ [Move.spawn firstWake]) ++ retired

/-- The clock of that run. -/
def redeliveryClock (n : Nat) : UnixTimestamp := if n < 17 then 1010 else 100000

/-- Other callers do not claim. -/
def unclaiming (call : HostCall) : Prop :=
  ∀ op reply, call = ⟨.ledger (.claim op), reply⟩ →
    op.owner = none ∧ ∀ e c revision now duration, op ≠ .claimEvent e c revision now duration

theorem unclaiming_claims : ClaimsByExecutions unclaiming := fun op reply h => h op reply rfl

theorem redeliveryClock_monotone : Monotone redeliveryClock := by
  intro a b hab
  unfold redeliveryClock
  split
  · split <;> decide
  · rw [if_neg (by omega)]

theorem redelivered_spawns {job : Job} (h : .spawn job ∈ redelivered) : job = firstWake := by
  simpa [redelivered, retired, undecryptable] using h

theorem redelivered_outside {op : LedgerOp} {host : HostScript}
    (h : .outside op host ∈ redelivered) :
    op = .claim (.pruneTerminal 13600 10) ∨ op = .registry (.insertConnection connection 1000) := by
  simp [redelivered, retired, undecryptable] at h
  tauto

def redelivery : SystemHistory × SystemWorld := play quickProgram crates .empty redelivered

theorem redelivery_run : SystemRun crates unclaiming .empty redelivery.1 redelivery.2 := by
  apply play_run
  · intro job hjob
    exact quickProgram_eq (Or.inl (redelivered_spawns hjob))
  · intro event hevent call hlabel op reply hcall
    obtain ⟨move, hmove, hstep⟩ := play_move hevent
    rw [hlabel] at hstep
    obtain ⟨op', host, rfl, hop⟩ := Move.step_outside hstep
    rw [hcall] at hop
    cases hop
    rcases redelivered_outside hmove with hprune | hinsert
    · cases hprune
      exact ⟨rfl, nofun⟩
    · cases hinsert

theorem redelivery_timed : TimedBy redeliveryClock wakePolicy redelivery.1 :=
  timedBy_of_historyTimed redeliveryClock_monotone (by decide +kernel)

theorem redelivery_wakes : WakesUnder wakePolicy redelivery.1 := by
  intro event hevent policy' input hlabel
  obtain ⟨move, hmove, hstep⟩ := play_move hevent
  rw [hlabel] at hstep
  rw [Move.step_spawn hstep] at hmove
  have hjob := redelivered_spawns hmove
  unfold firstWake at hjob
  injection hjob

theorem redelivery_tokens : DistinctTokens firstEvent.id redelivery.1 := by
  unfold DistinctTokens
  decide +kernel

end Sample

set_option maxRecDepth 4000 in
theorem replay_protection_survives_pruning_redelivered :
    (∀ event ∈ Sample.redelivery.1, ∀ id context reply,
      ¬ Asked 1 (.loadNwcSecret id context) reply event) ∧
    ∃ t, Sample.redelivery.2.threads[1]? = some t ∧
      t.rest = .done (.wake (rejected .eventOutsideFreshnessWindow)) := by
  have hpast : SystemRun Sample.crates (fun _ => True) .empty
      (play Sample.quickProgram Sample.crates .empty Sample.undecryptable).1
      (play Sample.quickProgram Sample.crates .empty Sample.undecryptable).2 := by
    apply play_run
    · intro job hjob
      apply Sample.quickProgram_eq (Or.inl (Sample.redelivered_spawns _))
      simp [Sample.redelivered, Sample.retired, hjob]
    · intros
      trivial
  obtain ⟨later, hlater⟩ : ∃ later, Sample.redelivery.1 = later ++
      (play Sample.quickProgram Sample.crates .empty Sample.retired).1 := by
    unfold Sample.redelivery Sample.redelivered
    exact play_append
  have hrun := Sample.redelivery_run
  have htimed := Sample.redelivery_timed
  have hwakes := Sample.redelivery_wakes
  have htokens := Sample.redelivery_tokens
  rw [hlater] at hrun htimed hwakes htokens
  refine ⟨?_, _, rfl, rfl⟩
  rw [hlater]
  have hpolicy : Sample.wakePolicy.Checked := rfl
  refine (replay_protection_survives_pruning Sample.crates_eventIdsCollisionFree
    Sample.unclaiming_claims hpolicy rfl hrun htimed hwakes htokens rfl rfl rfl rfl rfl rfl
    ?_).1
  rintro claim hclaim lease ⟨c, revision, now, duration, hlabel⟩
  obtain ⟨t, hthread, -⟩ := event_log hpast claim hclaim hlabel
  cases hthread

end NwcMobile
