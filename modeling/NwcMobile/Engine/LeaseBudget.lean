import NwcMobile.Engine.Foreground
import NwcMobile.Engine.Handling

/-!
The lease outlives the budget. An execution takes its lease for the rest of its budget,
rounded up to whole seconds and one more, at the whole second its clock shows next; so
the lease covers every second its budget reaches into, and until then nobody else
acquires the event unless this execution hands it back.
-/

namespace NwcMobile

open Program Prog Concurrent Transition Nip47 Fallible

/-- The lease an operation hands back or uses up. -/
def ClaimOp.givesUp : ClaimOp → Option EventLease
  | .retryLater lease _ _ => some lease
  | .completeEvent lease _ _ _ => some lease
  | .completeEventForActiveConnection lease _ _ _ _ => some lease
  | .completeNwcEventForActiveConnection lease _ _ _ _ _ => some lease
  | _ => none

/-- The lease has been released or its event completed. -/
def LetsGo (lease : EventLease) (call : HostCall) : Prop :=
  ∃ (op : ClaimOp) (value : op.Value),
    call = ⟨.ledger (.claim op), .ok value⟩ ∧ op.givesUp = some lease

/-- The execution has acquired one claim, that of `r`, and has not let go of it. -/
structure HoldsLease (log : HostLog) (r : ClaimedRequest) : Prop where
  acquired : ∃ now duration, Answered log (.ledger (.claim
    (.claimEvent r.validated.id r.connection.id r.connection.revision now duration)))
      (.ok (.acquired r.lease))
  once : ∀ e c revision now duration lease, Answered log
    (.ledger (.claim (.claimEvent e c revision now duration))) (.ok (.acquired lease)) →
      e = r.validated.id ∧ c = r.connection.id ∧ revision = r.connection.revision ∧ lease = r.lease
  kept : ∀ call ∈ log, ∀ lease, ¬ LetsGo lease call

/-- The operation presents the claim of `r`, and no other connection. -/
def ClaimOp.Presents (op : ClaimOp) (r : ClaimedRequest) (now : UnixTimestamp) : Prop :=
  op.owner = some (r.lease, now) ∧ op.MadeFor r.connection.id.value r.connection.revision ∧
    ∀ lease now' duration, op ≠ .renewLease lease now' duration

/-- A claim is made for the rest of the budget, at the time the clock shows next, and
every other operation on it presents the lease it is about, at once after reading the
clock. -/
def LeaseGuard (log : HostLog) : HostOp → Prop
  | .ledger (.claim (.claimEvent _ _ _ now duration)) => ∃ remaining older,
      log = ⟨.clockNow, now⟩ :: ⟨.deadlineRemaining, remaining⟩ :: older ∧
        leaseDurationForBudget remaining = some duration ∧ Unbound older
  | .ledger (.claim op) => ∃ r now older,
      log = ⟨.clockNow, now⟩ :: older ∧ HoldsLease older r ∧ op.Presents r now
  | _ => True

section Guards

variable {x : Crates} {log : HostLog} {r : ClaimedRequest}

/-- Every call but a claim and the end of one leaves the lease where it is. -/
theorem HoldsLease.cons {op : HostOp} (reply : op.Reply) (h : HoldsLease log r)
    (hclaim : ∀ e c revision now duration,
      op ≠ .ledger (.claim (.claimEvent e c revision now duration)))
    (hkept : ∀ lease, ¬ LetsGo lease ⟨op, reply⟩) : HoldsLease (⟨op, reply⟩ :: log) r := by
  obtain ⟨now, duration, hacquired⟩ := h.acquired
  constructor
  · exact ⟨now, duration, List.mem_cons_of_mem _ hacquired⟩
  · intro e c revision now' duration' lease hanswered
    rcases List.mem_cons.mp hanswered with hnew | hold
    · cases hnew
      exact absurd rfl (hclaim e c revision now' duration')
    · exact h.once e c revision now' duration' lease hold
  · intro call hcall
    rcases List.mem_cons.mp hcall with rfl | hold
    · exact hkept
    · exact h.kept call hold

theorem not_letsGo_of_activity {op : HostOp} {reply : op.Reply}
    (h : op.activity.onClaim = false) (lease : EventLease) : ¬ LetsGo lease ⟨op, reply⟩ := by
  rintro ⟨op', value, hcall, -⟩
  cases hcall
  cases op' <;> cases h

theorem noClaim_of_activity {op : HostOp} (h : op.activity.onClaim = false) : NoClaim op := by
  rintro e c revision now duration rfl
  cases h

theorem leaseGuard_of_activity {op : HostOp} (h : op.activity.onClaim = false) :
    LeaseGuard log op := by
  cases op with
  | ledger op =>
    cases op with
    | claim op => cases op <;> cases h
    | _ => trivial
  | _ => trivial

theorem upholds_lease : Upholds x LeaseGuard (HoldsLease · r) (fun _ => True) r where
  plain := fun _ _ hop => leaseGuard_of_activity hop
  kept := fun _ _ reply hlog hop =>
    hlog.cons reply (noClaim_of_activity hop) (not_letsGo_of_activity hop)
  accepts := by
    intro log now hlog
    refine ⟨⟨r, now, log, rfl, hlog, rfl, trivial, nofun⟩, fun reply => ?_⟩
    apply HoldsLease.cons
    · exact hlog.cons _ nofun (not_letsGo_of_activity rfl)
    · exact nofun
    · rintro lease ⟨op, value, hcall, hgives⟩
      cases hcall
      cases hgives
  releases := fun log now hlog => ⟨r, now, log, rfl, hlog, rfl, trivial, nofun⟩
  rejects := fun log now hlog => ⟨r, now, log, rfl, hlog, rfl, trivial, nofun⟩
  commits := by
    intro log response secret createdAt nonce json method now hlog _ _
    have hclock : HoldsLease (⟨.clockNow, now⟩ :: log) r :=
      hlog.cons _ nofun (not_letsGo_of_activity rfl)
    cases method with
    | none =>
      refine ⟨⟨r, now, log, rfl, hlog, rfl, ⟨rfl, rfl⟩, nofun⟩, fun reply error herror => ?_⟩
      cases herror
      apply hclock.cons
      · exact nofun
      · rintro lease ⟨op, value, hcall, -⟩
        cases hcall
    | some method =>
      refine ⟨⟨r, now, log, rfl, hlog, rfl, ⟨rfl, rfl⟩, nofun⟩, fun reply error herror => ?_⟩
      cases herror
      apply hclock.cons
      · exact nofun
      · rintro lease ⟨op, value, hcall, -⟩
        cases hcall

/-- What has come before the claim says nothing about a lease. -/
theorem holdsLease_claimed {remaining : Duration} {now : UnixTimestamp} {duration : Duration}
    (hlog : Unbound log) : HoldsLease (⟨.ledger (.claim (.claimEvent r.validated.id r.connection.id
      r.connection.revision now duration)), .ok (.acquired r.lease)⟩ :: ⟨.clockNow, now⟩ ::
      ⟨.deadlineRemaining, remaining⟩ :: log) r := by
  have hbefore : ∀ call ∈ (⟨.clockNow, now⟩ :: ⟨.deadlineRemaining, remaining⟩ :: log : HostLog),
      call.op.activity.onClaim = false := by
    intro call hcall
    rcases List.mem_cons.mp hcall with rfl | hrest
    · rfl
    · rcases List.mem_cons.mp hrest with rfl | hold
      · rfl
      · exact onClaim_of_binding (hlog call hold)
  constructor
  · exact ⟨now, duration, List.mem_cons_self⟩
  · intro e c revision now' duration' lease hanswered
    rcases List.mem_cons.mp hanswered with hnew | hold
    · cases hnew
      exact ⟨rfl, rfl, rfl, rfl⟩
    · cases hbefore _ hold
  · intro call hcall lease hgone
    rcases List.mem_cons.mp hcall with rfl | hold
    · obtain ⟨op, value, heq, hgives⟩ := hgone
      cases heq
      cases hgives
    · exact not_letsGo_of_activity (hbefore call hold) lease hgone

theorem Job.leaseGuard (job : Job) : Spec LeaseGuard [] (job.program x) fun _ _ => True := by
  apply upheld_program
  · intro log op hop
    exact leaseGuard_of_activity hop
  · intro log remaining duration now e c revision hlog hduration
    exact ⟨remaining, log, rfl, hduration, hlog⟩
  · intro log remaining duration now policy r hlog
    apply upholds_lease.executeClaimed
    · intro method error
      trivial
    · intro request context log hlog
      have hkept : Spec LeaseGuard log (executeRequest request r context)
          fun log' _ => HoldsLease log' r := by
        apply (upholds_lease (x := x)).within within_executeRequest _ hlog
        intro a ha
        cases a <;> first | rfl | cases ha
      apply hkept.imp
      intro log' result hlog'
      exact ⟨hlog', fun answer _ => ⟨_, _, upholds_lease, hlog', trivial⟩⟩
    · intro preimage fee
      trivial
    · exact holdsLease_claimed hlog

end Guards

section Seconds

variable {remaining duration : Duration} {start read t : Nat}

theorem leaseDurationForBudget_asSecs (h : leaseDurationForBudget remaining = some duration) :
    duration.asSecs = remaining.asSecs + (if remaining.subsecNanos ≠ 0 then 1 else 0) + 1 := by
  unfold leaseDurationForBudget at h
  split at h
  · cases h
  · simp only [Option.bind_eq_bind, Option.bind_eq_some_iff, checkedAdd_eq_some, Option.pure_def,
      Option.some.injEq] at h
    obtain ⟨rounded, ⟨-, rfl⟩, seconds, ⟨-, rfl⟩, rfl⟩ := h
    rw [Duration.asSecs_fromSecs]

/-- A lease taken at the whole second in which the clock is read, after the budget was,
expires after every whole second the budget reaches into. -/
theorem lease_covers (h : leaseDurationForBudget remaining = some duration) (hread : start ≤ read)
    (ht : t ≤ start + remaining.nanos) :
    t / Duration.nanosPerSec < read / Duration.nanosPerSec + duration.asSecs := by
  rw [leaseDurationForBudget_asSecs h]
  unfold Duration.asSecs Duration.subsecNanos Duration.nanosPerSec
  split <;> omega

end Seconds

/-- The event is claimed with the lease until the given time, for the given connection. -/
structure Ledger.LeasedUntil (l : Ledger) (lease : EventLease) (expires : Nat) (c : ConnectionId)
    (revision : ConnectionRevision) (row : WakeEventRow) : Prop where
  found : l.eventOf lease.eventId = some row
  state : row.state = .claimed
  token : row.claimToken = some lease.token
  expires : row.availableAt = some expires
  connection : row.connectionId = c.value
  revision : row.connectionRevision = revision

/-- Execution `i` releases the lease at this step, or completes the event under it. -/
def Retires (i : Nat) (lease : EventLease) (event : Event SystemWorld SystemLabel) : Prop :=
  ∃ call, event.label = .act i call ∧ LetsGo lease call

section Rows

variable {x : Crates} {l l' : Ledger} {lease : EventLease} {c : ConnectionId}
  {revision : ConnectionRevision} {now expires : Nat} {duration : Duration} {row : WakeEventRow}

theorem LedgerStep.leased {e : EventId} (h : LedgerStep x l ⟨.claim (.claimEvent e c revision now
    duration), .ok (.acquired lease)⟩ l') :
    lease.eventId = e ∧ ∃ row, l'.LeasedUntil lease (now + duration.asSecs) c revision row := by
  have hevent := h.eventStep e
  generalize hafter : l'.eventOf e = after at hevent
  generalize l.eventOf e = before at hevent
  cases hevent with
  | kept hkept => simp [LedgerCall.writesEvent] at hkept
  | opened => exact ⟨rfl, _, hafter, rfl, rfl, rfl, rfl, rfl⟩
  | resumed hconnection hrevision hlive havailable hdue =>
    exact ⟨rfl, _, hafter, rfl, rfl, rfl, hconnection, hrevision⟩
  | owned howner => cases howner

/-- What one step does to a leased event: it stays leased, unless somebody acquires it
no earlier than it expires, or its holder lets go of it or renews it. -/
theorem Ledger.LeasedUntil.step {call : LedgerCall} (h : l.LeasedUntil lease expires c revision row)
    (hstep : LedgerStep x l call l') :
    (∃ row', l'.LeasedUntil lease expires c revision row') ∨
      (∃ c' revision' now' duration' lease', expires ≤ now' ∧ call =
        ⟨.claim (.claimEvent lease.eventId c' revision' now' duration'), .ok (.acquired lease')⟩) ∨
      ∃ (op : ClaimOp) (value : op.Value) (lease' : EventLease) (now' : UnixTimestamp),
        call = ⟨.claim op, .ok value⟩ ∧ op.owner = some (lease', now') ∧
          lease'.eventId = lease.eventId ∧ lease'.token = lease.token ∧
          (op.givesUp = some lease' ∨ ∃ duration', op = .renewLease lease' now' duration') := by
  have hevent := hstep.eventStep lease.eventId
  rw [h.found] at hevent
  generalize hafter : l'.eventOf lease.eventId = after at hevent
  cases hevent with
  | kept => exact Or.inl ⟨row, { h with found := hafter }⟩
  | @resumed c' revision' now' duration' token _ a _ _ _ havailable hdue =>
    rw [h.expires, Option.some.injEq] at havailable
    subst havailable
    exact Or.inr (Or.inl ⟨c', revision', now', duration', _, hdue, rfl⟩)
  | pruned hterminal =>
    rw [h.state] at hterminal
    cases hterminal
  | @owned op value lease' now' _ howner heventId howned =>
    have htoken : lease'.token = lease.token := by
      obtain ⟨-, -, hheld, -⟩ := owned_eq_true.mp howned
      rw [h.token, Option.some.injEq] at hheld
      exact hheld.symm
    cases op with
    | claimEvent e c revision time duration => cases howner
    | lastCompletedEventAt c => cases howner
    | pruneTerminal before rows => cases howner
    | acceptEventFreshness holder time =>
      exact Or.inl ⟨_, hafter, h.state, h.token, h.expires, h.connection, h.revision⟩
    | renewLease holder time duration =>
      cases howner
      exact Or.inr (Or.inr ⟨_, value, _, _, rfl, rfl, heventId, htoken, Or.inr ⟨duration, rfl⟩⟩)
    | retryLater holder time delay =>
      cases howner
      exact Or.inr (Or.inr ⟨_, value, _, _, rfl, rfl, heventId, htoken, Or.inl rfl⟩)
    | completeEvent holder kind json time =>
      cases howner
      exact Or.inr (Or.inr ⟨_, value, _, _, rfl, rfl, heventId, htoken, Or.inl rfl⟩)
    | completeEventForActiveConnection holder c revision json time =>
      cases howner
      exact Or.inr (Or.inr ⟨_, value, _, _, rfl, rfl, heventId, htoken, Or.inl rfl⟩)
    | completeNwcEventForActiveConnection holder c revision json method time =>
      cases howner
      exact Or.inr (Or.inr ⟨_, value, _, _, rfl, rfl, heventId, htoken, Or.inl rfl⟩)

theorem Ledger.LeasedUntil.owned (h : l.LeasedUntil lease expires c revision row)
    (hnow : now < expires) : Claims.owned lease now row = true := by
  obtain ⟨-, hevent⟩ := eventOf_eq_some.mp h.found
  exact owned_eq_true.mpr ⟨hevent, h.state, h.token, expires, h.expires, hnow⟩

end Rows

section Runs

variable {x : Crates} {outside : HostCall → Prop} {l : Ledger} {w : SystemWorld} {time : Nat → Nat}
  {later earlier : SystemHistory} {event : Event SystemWorld SystemLabel} {i : Nat} {e : EventId}

/-- A claim is made at a time its execution has read off the clock since it read its
budget. -/
theorem claim_of_act {c : ConnectionId} {revision : ConnectionRevision} {now : UnixTimestamp}
    {duration : Duration} {outcome : Except LedgerError ClaimOutcome}
    (hrun : SystemRun x outside l (later ++ event :: earlier) w)
    (hclock : ReadFromClock time (later ++ event :: earlier))
    (hlabel : Asked i (.ledger (.claim (.claimEvent e c revision now duration))) outcome event) :
    ∃ recent budget past remaining, earlier = recent ++ budget :: past ∧
      Asked i .deadlineRemaining remaining budget ∧ actsOf i recent = [⟨.clockNow, now⟩] ∧
      leaseDurationForBudget remaining = some duration ∧ Unbound (actsOf i past) ∧
      ∃ read, past.length ≤ read ∧ read < earlier.length ∧
        now = time read / Duration.nanosPerSec := by
  obtain ⟨remaining, older, hlog, hduration, hunbound⟩ :=
    guard_of_act Job.leaseGuard hrun hlabel
  have hcalls : actsOf i earlier =
      [⟨HostOp.clockNow, now⟩] ++ ⟨HostOp.deadlineRemaining, remaining⟩ :: older := hlog
  obtain ⟨recent, budget, past, rfl, hbudget, hrecent, hpast⟩ := actsOf_split hcalls
  have hread : actsOf i recent = [] ++ ⟨HostOp.clockNow, now⟩ :: [] := hrecent
  obtain ⟨newer, read, older', rfl, hreadLabel, -, -⟩ := actsOf_split hread
  refine ⟨_, budget, past, remaining, rfl, hbudget, hrecent, hduration, ?_, ?_⟩
  · rw [hpast]
    exact hunbound
  · have hnow := hclock.reading (later ++ event :: newer) read (older' ++ budget :: past) i now
      (by simp) hreadLabel
    refine ⟨_, ?_, ?_, hnow⟩
    · simp only [List.length_append, List.length_cons]
      omega
    · simp only [List.length_append, List.length_cons]
      omega

/-- An operation on a claim presents the one lease its execution has acquired. -/
theorem presented_of_act {op : ClaimOp} {reply : (LedgerOp.claim op).Reply} {lease : EventLease}
    {now : UnixTimestamp} (hrun : SystemRun x outside l (later ++ event :: earlier) w)
    (hlabel : Asked i (.ledger (.claim op)) reply event) (howner : op.owner = some (lease, now)) :
    ∃ r older, actsOf i earlier = ⟨.clockNow, now⟩ :: older ∧ HoldsLease older r ∧
      lease = r.lease ∧ op.Presents r now := by
  have hguard := guard_of_act Job.leaseGuard hrun hlabel
  have hpresents : ∃ r now older, actsOf i earlier = ⟨.clockNow, now⟩ :: older ∧
      HoldsLease older r ∧ op.Presents r now := by
    cases op with
    | claimEvent e c revision time duration => cases howner
    | _ => exact hguard
  obtain ⟨r, now', older, hlog, hholds, hpresents⟩ := hpresents
  obtain ⟨hlease, hnow⟩ := Prod.mk.inj (Option.some.inj (howner.symm.trans hpresents.1))
  subst hnow
  exact ⟨r, older, hlog, hholds, hlease, hpresents⟩

/-- An execution only lets go of a lease it has acquired. -/
theorem HoldsLease.issues {r : ClaimedRequest} {past : SystemHistory} {log : HostLog}
    (h : HoldsLease log r) (hlog : log ⊆ actsOf i past) (hrun : SystemRun x outside l past w) :
    r.lease.eventId = r.validated.id ∧ ∃ claim ∈ past, Issues i r.validated.id r.lease claim := by
  obtain ⟨now, duration, hacquired⟩ := h.acquired
  obtain ⟨claim, hclaim, hlabel⟩ := mem_actsOf.mp (hlog hacquired)
  have hstep := hrun.step_of_mem hclaim
  rw [hlabel] at hstep
  exact ⟨(SystemStep.ledgerStep hstep).acquired.1, claim, hclaim, _, _, _, _, hlabel⟩

end Runs

section Leased

variable {x : Crates} {outside : HostCall → Prop} {l : Ledger} {w : SystemWorld} {time : Nat → Nat}
  {between later earlier : SystemHistory} {claim event : Event SystemWorld SystemLabel} {i : Nat}
  {lease : EventLease} {c : ConnectionId} {revision : ConnectionRevision} {now : UnixTimestamp}
  {duration : Duration} {ends : Nat}

/-- Nobody acquires the event before the lease expires. -/
theorem acquired_late {e : EventId} {c' : ConnectionId} {revision' : ConnectionRevision}
    {now' expires : Nat} {duration' : Duration} {lease' : EventLease}
    (hrun : SystemRun x outside l (later ++ event :: earlier) w)
    (houtside : ClaimsByExecutions outside)
    (hclock : ReadFromClock time (later ++ event :: earlier))
    (hcall : systemLedgerCall event.label =
      some ⟨.claim (.claimEvent e c' revision' now' duration'), .ok (.acquired lease')⟩)
    (hdue : expires ≤ now') (hexpires : ∀ t, t ≤ ends → t / Duration.nanosPerSec < expires) :
    ends < time earlier.length := by
  obtain ⟨hbefore, hstep, -⟩ := hrun.split
  obtain ⟨j, hlabel⟩ := houtside.act hstep hcall fun _ => ⟨_, _, _, _, _, rfl⟩
  obtain ⟨_, _, _, _, -, -, -, -, -, read, -, hread, rfl⟩ := claim_of_act hrun hclock hlabel
  have hmonotone := hclock.monotone (Nat.le_of_lt hread)
  by_contra hsoon
  have hlive := hexpires (time read) (by omega)
  omega

theorem ReadFromClock.past (h : ReadFromClock time (later ++ earlier)) :
    ReadFromClock time earlier where
  monotone := h.monotone
  reading := by
    intro newer read older j now hsplit
    apply h.reading (later ++ newer)
    rw [hsplit, List.append_assoc]

/-- A token was issued with one lease. -/
theorem DistinctTokens.same {e : EventId} {j : Nat} {lease' : EventLease}
    {event' : Event SystemWorld SystemLabel} {history : SystemHistory}
    (h : DistinctTokens e history) (hissued : Issues i e lease event) (hevent : event ∈ history)
    (hissued' : Issues j e lease' event') (hevent' : event' ∈ history)
    (htoken : lease.token = lease'.token) : lease = lease' :=
  List.inj_on_of_nodup_map h (hissued.mem hevent) (hissued'.mem hevent') htoken

/-- Whoever presents the lease is the execution that acquired it. -/
theorem retires_of_owner {op : ClaimOp} {value : op.Value} {lease' : EventLease}
    {now' : UnixTimestamp} (hrun : SystemRun x outside l (event :: (between ++ claim :: earlier)) w)
    (houtside : ClaimsByExecutions outside)
    (htokens : DistinctTokens lease.eventId (between ++ claim :: earlier))
    (hissued : Issues i lease.eventId lease claim)
    (hcall : systemLedgerCall event.label = some ⟨.claim op, .ok value⟩)
    (howner : op.owner = some (lease', now')) (heventId : lease'.eventId = lease.eventId)
    (htoken : lease'.token = lease.token)
    (hends : op.givesUp = some lease' ∨ ∃ duration', op = .renewLease lease' now' duration') :
    Retires i lease event := by
  rw [← List.nil_append (event :: (between ++ claim :: earlier))] at hrun
  obtain ⟨hbefore, hstep, -⟩ := hrun.split
  obtain ⟨j, hlabel⟩ := houtside.act hstep hcall fun hnone => by rw [howner] at hnone; cases hnone
  obtain ⟨r, older, hlog, hholds, rfl, hpresents⟩ := presented_of_act hrun hlabel howner
  have hsub : older ⊆ actsOf j (between ++ claim :: earlier) := by
    rw [hlog]
    exact List.subset_cons_self _ _
  obtain ⟨hid, claim', hclaim', hissued'⟩ := hholds.issues hsub hbefore
  rw [← hid, heventId] at hissued'
  have hclaim : claim ∈ between ++ claim :: earlier := by simp
  obtain rfl : j = i := htokens.issuer hissued' hclaim' hissued hclaim htoken
  have hlease : r.lease = lease := htokens.same hissued' hclaim' hissued hclaim htoken
  rw [hlease] at hends
  rcases hends with hgives | ⟨duration', hrenews⟩
  · exact ⟨_, hlabel, op, value, rfl, hgives⟩
  · exact absurd hrenews (hpresents.2.2 lease now' duration')

/-- Until its budget ends, the execution's lease stays in place as long as the execution
does not let go of it. -/
theorem leased_through (hrun : SystemRun x outside l (between ++ claim :: earlier) w)
    (houtside : ClaimsByExecutions outside)
    (hclock : ReadFromClock time (between ++ claim :: earlier))
    (htokens : DistinctTokens lease.eventId (between ++ claim :: earlier))
    (hlabel : Asked i (.ledger (.claim (.claimEvent lease.eventId c revision now duration)))
      (.ok (.acquired lease)) claim)
    (hexpires : ∀ t, t ≤ ends → t / Duration.nanosPerSec < now + duration.asSecs)
    (hwithin : time (between ++ claim :: earlier).length ≤ ends)
    (hheld : ∀ event ∈ between, ¬ Retires i lease event) :
    ∃ row, w.shared.LeasedUntil lease (now + duration.asSecs) c revision row := by
  induction between generalizing w with
  | nil =>
    obtain ⟨-, hstep, hend⟩ := hrun.split
    cases hend
    rw [hlabel] at hstep
    exact (SystemStep.ledgerStep hstep).leased.2
  | cons event rest ih =>
    have hwhole := hrun
    cases hrun with
    | @tail _ a _ label hpast hstep =>
      rw [List.cons_append, ← List.singleton_append] at hclock htokens
      have hearlier : time (rest ++ claim :: earlier).length ≤ ends := by
        apply Nat.le_trans (hclock.monotone (Nat.le_succ _))
        exact hwithin
      obtain ⟨row, hrow⟩ := ih hpast hclock.past htokens.past hearlier fun event hevent =>
        hheld event (List.mem_cons_of_mem _ hevent)
      obtain ⟨call, hcall, hledger⟩ | ⟨-, hsame⟩ := SystemStep.ledger hstep
      · obtain hkept | ⟨c', revision', now', duration', lease', hdue, rfl⟩ |
          ⟨op, value, lease', now', rfl, howner, heventId, htoken, hends⟩ := hrow.step hledger
        · exact hkept
        · exfalso
          rw [List.cons_append, ← List.nil_append (_ :: (rest ++ claim :: earlier))] at hwhole
          have hlate := acquired_late hwhole houtside hclock hcall hdue hexpires
          omega
        · exfalso
          have hretires := retires_of_owner hwhole houtside htokens.past ⟨_, _, _, _, hlabel⟩ hcall
            howner heventId htoken hends
          exact hheld _ List.mem_cons_self hretires
      · rw [hsame]
        exact ⟨row, hrow⟩

/-- An execution claims once: whatever else it does with claims, it does with a lease. -/
theorem owner_of_act {e : EventId} {op : ClaimOp} {reply : (LedgerOp.claim op).Reply}
    (hrun : SystemRun x outside l (later ++ event :: earlier) w)
    (hlabel : Asked i (.ledger (.claim op)) reply event)
    (hclaim : Answered (actsOf i earlier)
      (.ledger (.claim (.claimEvent e c revision now duration))) (.ok (.acquired lease))) :
    ∃ lease' now', op.owner = some (lease', now') := by
  have hguard := guard_of_act Job.leaseGuard hrun hlabel
  cases op with
  | claimEvent e' c' revision' now' duration' =>
    obtain ⟨remaining, older, hlog, -, hunbound⟩ := hguard
    rw [hlog] at hclaim
    rcases List.mem_cons.mp hclaim with heq | hrest
    · cases heq
    · rcases List.mem_cons.mp hrest with heq | hold
      · cases heq
      · cases hunbound _ hold
  | _ =>
    obtain ⟨r, now', older, -, -, hpresents⟩ := hguard
    exact ⟨_, _, hpresents.1⟩

/-- The execution does not lose its lease within its budget. -/
theorem lost_late {op : ClaimOp}
    (hrun : SystemRun x outside l (later ++ event :: (between ++ claim :: earlier)) w)
    (houtside : ClaimsByExecutions outside)
    (hclock : ReadFromClock time (later ++ event :: (between ++ claim :: earlier)))
    (htokens : DistinctTokens lease.eventId (between ++ claim :: earlier))
    (hlabel : Asked i (.ledger (.claim (.claimEvent lease.eventId c revision now duration)))
      (.ok (.acquired lease)) claim)
    (hexpires : ∀ t, t ≤ ends → t / Duration.nanosPerSec < now + duration.asSecs)
    (hlost : Asked i (.ledger (.claim op)) (.error .lostLease) event) :
    ends < time (between ++ claim :: earlier).length := by
  have hacquired : Answered (actsOf i (between ++ claim :: earlier))
      (.ledger (.claim (.claimEvent lease.eventId c revision now duration)))
      (.ok (.acquired lease)) := mem_actsOf.mpr ⟨claim, by simp, hlabel⟩
  obtain ⟨lease', now', howner⟩ := owner_of_act hrun hlost hacquired
  obtain ⟨r, older, hlog, hholds, rfl, hpresents⟩ := presented_of_act hrun hlost howner
  have hold : ∀ call ∈ actsOf i (between ++ claim :: earlier), call ≠ ⟨.clockNow, now'⟩ →
      call ∈ older := by
    intro call hcall hne
    rw [hlog] at hcall
    exact (List.mem_cons.mp hcall).resolve_left hne
  obtain ⟨-, rfl, rfl, rfl⟩ := hholds.once _ _ _ _ _ _ (hold _ hacquired nofun)
  have hheld : ∀ mark ∈ between, ¬ Retires i r.lease mark := by
    rintro mark hmark ⟨call, hmarkLabel, hgone⟩
    have hcall : call ∈ actsOf i (between ++ claim :: earlier) :=
      mem_actsOf.mpr ⟨mark, by simp [hmark], hmarkLabel⟩
    apply hholds.kept call (hold call hcall _) r.lease hgone
    rintro rfl
    obtain ⟨op', value, hne, -⟩ := hgone
    cases hne
  by_contra hsoon
  obtain ⟨hbefore, hstep, -⟩ := hrun.split
  have hpast : ReadFromClock time (between ++ claim :: earlier) := by
    rw [← List.singleton_append, ← List.append_assoc] at hclock
    exact hclock.past
  obtain ⟨row, hrow⟩ := leased_through hbefore houtside hpast htokens hlabel hexpires
    (Nat.le_of_not_lt hsoon) hheld
  have hread : (actsOf i (between ++ claim :: earlier)).head? = some ⟨.clockNow, now'⟩ := by
    rw [hlog, List.head?_cons]
  obtain ⟨recent, read, past, hsplit, -, hnow⟩ := read_before hclock hread
  have hlive : now' < now + duration.asSecs := by
    rw [hnow]
    apply hexpires
    apply Nat.le_trans (hclock.monotone _) (Nat.le_of_not_lt hsoon)
    rw [hsplit, List.length_append, List.length_cons]
    omega
  obtain ⟨hmem, -⟩ := eventOf_eq_some.mp hrow.found
  rw [hlost] at hstep
  rcases (SystemStep.ledgerStep hstep).error_cases with ⟨random, herror⟩ | hunavailable
  · apply ownerOp_not_lost howner hmem (hrow.owned hlive) _ herror
    rw [hrow.connection, hrow.revision]
    exact hpresents.2.1
  · cases hunavailable

end Leased

/-- The lease outlives the budget. An execution that acquires an event has read its
remaining budget just before, and until that budget ends its lease is live, nobody
acquires the event unless the execution has released or completed it, and no operation
on the claim tells the execution that it has lost the lease. -/
theorem lease_outlives_budget {x : Crates} {outside : HostCall → Prop} {l : Ledger}
    {w : SystemWorld} {time : Nat → Nat} {later earlier : SystemHistory}
    {claim : Event SystemWorld SystemLabel} {i : Nat} {e : EventId} {c : ConnectionId}
    {revision : ConnectionRevision} {now : UnixTimestamp} {duration : Duration} {lease : EventLease}
    (hrun : SystemRun x outside l (later ++ claim :: earlier) w)
    (houtside : ClaimsByExecutions outside)
    (hclock : ReadFromClock time (later ++ claim :: earlier))
    (htokens : DistinctTokens e (later ++ claim :: earlier))
    (hclaim : Asked i (.ledger (.claim (.claimEvent e c revision now duration)))
      (.ok (.acquired lease)) claim) :
    ∃ recent budget past remaining, earlier = recent ++ budget :: past ∧
      Asked i .deadlineRemaining remaining budget ∧ actsOf i recent = [⟨.clockNow, now⟩] ∧
      leaseDurationForBudget remaining = some duration ∧
      ∀ ends, ends = time past.length + remaining.nanos →
        (∃ row, claim.after.shared.eventOf e = some row ∧
          ∀ t, t ≤ ends → Claims.owned lease (t / Duration.nanosPerSec) row = true) ∧
        ∀ newer event between, later = newer ++ event :: between →
          (time (between ++ claim :: earlier).length ≤ ends →
            (∀ mark ∈ between, ¬ Retires i lease mark) →
            (∃ row, event.before.shared.eventOf e = some row ∧
              ∀ t, t ≤ ends → Claims.owned lease (t / Duration.nanosPerSec) row = true) ∧
            ¬ Acquires e event) ∧
          ∀ op, Asked i (.ledger (.claim op)) (.error .lostLease) event →
            ends < time (between ++ claim :: earlier).length := by
  obtain ⟨recent, budget, past, remaining, hearlier, hbudget, hrecent, hduration, -, read, hpast,
    hread, hnow⟩ := claim_of_act hrun hclock hclaim
  refine ⟨recent, budget, past, remaining, hearlier, hbudget, hrecent, hduration, ?_⟩
  rintro ends rfl
  have hexpires : ∀ t, t ≤ time past.length + remaining.nanos →
      t / Duration.nanosPerSec < now + duration.asSecs := by
    intro t ht
    rw [hnow]
    exact lease_covers hduration (hclock.monotone hpast) ht
  obtain ⟨-, hstep, -⟩ := hrun.split
  have hlabel := hclaim
  rw [hclaim] at hstep
  obtain ⟨rfl, row, hrow⟩ := (SystemStep.ledgerStep hstep).leased
  refine ⟨⟨row, hrow.found, fun t ht => hrow.owned (hexpires t ht)⟩, ?_⟩
  rintro newer event between rfl
  rw [List.append_assoc, List.cons_append] at hrun hclock htokens
  have htokens' : DistinctTokens lease.eventId (between ++ claim :: earlier) := by
    rw [← List.singleton_append, ← List.append_assoc] at htokens
    exact htokens.past
  constructor
  · intro hwithin hheld
    obtain ⟨hbefore, hstep', -⟩ := hrun.split
    have hpast' : ReadFromClock time (between ++ claim :: earlier) := by
      have hclock' := hclock
      rw [← List.singleton_append, ← List.append_assoc] at hclock'
      exact hclock'.past
    obtain ⟨row', hrow'⟩ := leased_through hbefore houtside hpast' htokens' hlabel hexpires hwithin
      hheld
    refine ⟨⟨row', hrow'.found, fun t ht => hrow'.owned (hexpires t ht)⟩, ?_⟩
    rintro ⟨c', revision', now', duration', lease', hcall⟩
    obtain ⟨call, hcall', hledger⟩ | ⟨hnone, -⟩ := SystemStep.ledger hstep'
    · rw [hcall, Option.some.injEq] at hcall'
      subst hcall'
      have hevent := hledger.eventStep lease.eventId
      rw [hrow'.found] at hevent
      generalize event.after.shared.eventOf lease.eventId = after at hevent
      cases hevent with
      | kept hkept => simp [LedgerCall.writesEvent] at hkept
      | resumed _ _ _ havailable hdue =>
        rw [hrow'.expires, Option.some.injEq] at havailable
        subst havailable
        have hlate := acquired_late hrun houtside hclock hcall hdue hexpires
        omega
      | owned howner => cases howner
    · rw [hcall] at hnone
      cases hnone
  · intro op hlost
    exact lost_late hrun houtside hclock htokens' hlabel hexpires hlost

namespace Sample

theorem managing_claims : ClaimsByExecutions managing := by
  rintro op reply ⟨op', reply', heq⟩
  cases heq

theorem retried_clock : ReadFromClock retryTime retried.1 := by
  have hturn : allInTurn retried.1 = true := by decide
  constructor
  · exact retryTime_monotone
  · intro later event earlier i now hsplit hasked
    have hin := inTurn_of_all hturn hsplit
    rw [hasked] at hin
    exact of_decide_eq_true (Bool.and_eq_true_iff.mp hin).1

theorem retried_tokens : DistinctTokens firstEvent.id retried.1 := by
  unfold DistinctTokens
  decide

/-- The first execution acquires the first event for twenty-one seconds. -/
def acquiresFirst : SystemLabel → Bool
  | .act 0 ⟨.ledger (.claim (.claimEvent e _ _ _ duration)), .ok (.acquired _)⟩ =>
    e == firstEvent.id && duration == .fromSecs 21
  | _ => false

theorem acquiresFirst_eq_true {event : Event SystemWorld SystemLabel}
    (h : acquiresFirst event.label = true) :
    ∃ c revision now lease, Asked 0 (.ledger (.claim
      (.claimEvent firstEvent.id c revision now (.fromSecs 21)))) (.ok (.acquired lease)) event := by
  unfold acquiresFirst at h
  split at h
  · rename_i e c revision now duration lease hlabel
    obtain ⟨he, hduration⟩ := Bool.and_eq_true_iff.mp h
    obtain rfl := beq_iff_eq.mp he
    obtain rfl := beq_iff_eq.mp hduration
    exact ⟨c, revision, now, lease, hlabel⟩
  · cases h

end Sample

set_option maxRecDepth 4000 in
/-- A budget of twenty seconds that begins with the second 1010 leaves a lease that is
live until the second 1029 at least. -/
theorem lease_outlives_budget_retried :
    ∃ later claim earlier lease, Sample.retried.1 = later ++ claim :: earlier ∧
      Issues 0 Sample.firstEvent.id lease claim ∧
      ∃ row, claim.after.shared.eventOf Sample.firstEvent.id = some row ∧
        ∀ t, t ≤ 1029000000000 →
          Claims.owned lease (t / Duration.nanosPerSec) row = true := by
  have hchecked : (Sample.retried.1[16]?).any
      (fun event => Sample.acquiresFirst event.label) = true := by
    decide
  obtain ⟨claim, hat, hacquires⟩ := (Option.any_eq_true ..).mp hchecked
  obtain ⟨c, revision, now, lease, hclaim⟩ := Sample.acquiresFirst_eq_true hacquires
  obtain ⟨hpast, hclaimAt⟩ := List.getElem?_eq_some_iff.mp hat
  have hsplit : Sample.retried.1 = Sample.retried.1.take 16 ++ claim :: Sample.retried.1.drop 17 := by
    rw [← hclaimAt, ← List.drop_eq_getElem_cons hpast, List.take_append_drop]
  have hrun := Sample.retried_run
  have hclock := Sample.retried_clock
  have htokens := Sample.retried_tokens
  rw [hsplit] at hrun hclock htokens
  obtain ⟨recent, budget, past, remaining, -, -, -, hduration, hends⟩ :=
    lease_outlives_budget hrun Sample.managing_claims hclock htokens hclaim
  obtain ⟨⟨row, hrow, hlive⟩, -⟩ := hends _ rfl
  refine ⟨_, claim, _, lease, hsplit, ⟨c, revision, now, _, hclaim⟩, row, hrow, fun t ht => ?_⟩
  apply hlive
  have hsecs := leaseDurationForBudget_asSecs hduration
  rw [Duration.asSecs_fromSecs] at hsecs
  have hstart : 1010000000000 ≤ Sample.retryTime past.length := by
    unfold Sample.retryTime
    split <;> omega
  unfold Duration.asSecs Duration.nanosPerSec at hsecs
  split at hsecs <;> omega

end NwcMobile
