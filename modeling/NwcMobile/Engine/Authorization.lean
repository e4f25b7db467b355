import NwcMobile.Engine.Guarded
import NwcMobile.Ledger.Freshness
import NwcMobile.Ledger.Revocation

/-!
Authorization before side effects, over runs of the whole system. What an
execution was answered is turned into what the ledger held when it answered.
-/

namespace NwcMobile

open Program Concurrent Transition Fallible

/-- Execution `i` asked `op` at this step and was answered `reply`. -/
def Asked (i : Nat) (op : HostOp) (reply : op.Reply) (event : Event SystemWorld SystemLabel) :
    Prop :=
  event.label = .act i ⟨op, reply⟩

/-- Before this point execution `i` has bound the wake to a connection: the
wake's relay was approved for an active unexpired connection of the wallet key,
the connection it loaded was active, had not expired and lists that relay, and
the event is authentic for it. -/
structure BoundIn (x : Crates) (earlier : SystemHistory) (i : Nat) (wake : WakeInput)
    (relay : SecureRelayUrl) (connection : ActiveConnection) (validated : ValidatedNwcEvent) :
    Prop where
  parsed : SecureRelayUrl.parse x wake.relay = .ok relay
  approved : ∃ now, (∃ event ∈ earlier, Asked i (.ledger (.registry
      (.isRelayApprovedForWallet wake.walletServicePubkey relay now))) (.ok true) event ∧
        event.before.shared.relayApproved wake.walletServicePubkey relay now = true) ∧
      connection.isExpiredAt now = false
  loaded : ∃ event ∈ earlier, Asked i (.ledger (.registry (.loadActiveConnectionByKeys
      connection.clientPubkey wake.walletServicePubkey))) (.ok (some connection)) event ∧
    ∃ row, ReadFrom event.before.shared row connection ∧
      row.walletServicePubkey = wake.walletServicePubkey
  allowed : relay ∈ connection.relays
  eventId : validated.id = wake.eventId
  authentic : ∃ eventJson event, Authentic x eventJson connection.clientPubkey
    connection.walletServicePubkey connection.encryption validated event

/-- Before this point execution `i` has moreover acquired a claim of the event,
and the event's freshness was accepted: by this execution inside the policy's
window, or under an earlier claim of the same event, or before the run began. -/
structure AuthorizedIn (x : Crates) (l : Ledger) (earlier : SystemHistory) (i : Nat)
    (policy : WakePolicy) (wake : WakeInput) (r : ClaimedRequest) : Prop where
  bound : BoundIn x earlier i wake r.relay r.connection r.validated
  claimed : ∃ now duration, ∃ event ∈ earlier, Asked i (.ledger (.claim (.claimEvent wake.eventId
    r.connection.id r.connection.revision now duration))) (.ok (.acquired r.lease)) event
  fresh : ((∃ now, (∃ event ∈ earlier, Asked i .clockNow now event) ∧
        policy.acceptsEventTime r.validated.createdAt now = true) ∧
      ∃ now, ∃ event ∈ earlier, Asked i (.ledger (.claim (.acceptEventFreshness r.lease now)))
        (.ok ()) event) ∨
    AcceptedIn wake.eventId (ledgerHistory earlier) ∨ l.FreshnessRecorded wake.eventId

section Answers

variable {x : Crates} {outside : HostCall → Prop} {l : Ledger} {earlier : SystemHistory}
  {w : SystemWorld} {i : Nat} {log : HostLog} {policy : WakePolicy} {wake : WakeInput}
  {relay : SecureRelayUrl} {connection : ActiveConnection} {validated : ValidatedNwcEvent}
  {r : ClaimedRequest}

theorem relayApproved_of_answer {l' : Ledger} {wallet : PublicKey} {now : UnixTimestamp}
    (h : LedgerStep x l ⟨.registry (.isRelayApprovedForWallet wallet relay now), .ok true⟩ l') :
    l.relayApproved wallet relay now = true := by
  obtain ⟨random, hop⟩ := h.run_of_ok
  obtain ⟨hread, -⟩ := reading_eq_ok.mp hop
  simp only [Ledger.isRelayApprovedForWallet, bind_eq_ok, Registry.sqliteU64, i64TryFrom_eq_ok,
    pure_eq_ok] at hread
  obtain ⟨time, ⟨-, rfl⟩, happroved⟩ := hread
  exact happroved

/-- The connection a lookup by keys returns is active and has those keys. -/
theorem readFrom_of_answer {l' : Ledger} {author wallet : PublicKey}
    (h : LedgerStep x l
      ⟨.registry (.loadActiveConnectionByKeys author wallet), .ok (some connection)⟩ l') :
    connection.clientPubkey = author ∧ ∃ row, ReadFrom l row connection ∧
      row.walletServicePubkey = wallet := by
  obtain ⟨random, hop⟩ := h.run_of_ok
  obtain ⟨hread, -⟩ := reading_eq_ok.mp hop
  obtain ⟨row, hrow, hhydrate⟩ := option_mapM_eq_some.mp hread
  obtain ⟨hmem, hkeys⟩ := Relational.Table.selectRow_mem hrow
  obtain ⟨stored, hstored, hactive⟩ := bind_eq_ok.mp hhydrate
  rw [requireActive_ok hactive] at hstored
  have hfrom := hydrate_active hmem hstored
  simp only [Bool.and_eq_true, beq_iff_eq] at hkeys
  exact ⟨hfrom.clientPubkey.trans hkeys.1.2, row, hfrom, hkeys.2⟩

variable (hrun : SystemRun x outside l earlier w)
  (hlog : ∀ prior ∈ log, ∃ event ∈ earlier, event.label = .act i prior)

include hrun hlog

theorem Bound.boundIn (h : Bound x wake log relay connection validated) :
    BoundIn x earlier i wake relay connection validated := by
  obtain ⟨now, happroved, hexpired⟩ := h.approved
  obtain ⟨author, hloaded⟩ := h.loaded
  obtain ⟨approval, happrovalMem, happrovalLabel⟩ := hlog _ happroved
  obtain ⟨load, hloadMem, hloadLabel⟩ := hlog _ hloaded
  have happrovalStep := hrun.step_of_mem happrovalMem
  have hloadStep := hrun.step_of_mem hloadMem
  rw [happrovalLabel] at happrovalStep
  rw [hloadLabel] at hloadStep
  obtain ⟨rfl, row, hfrom, hwallet⟩ := readFrom_of_answer (SystemStep.ledgerStep hloadStep)
  exact
    { parsed := h.parsed
      approved := ⟨now, ⟨approval, happrovalMem, happrovalLabel,
        relayApproved_of_answer (SystemStep.ledgerStep happrovalStep)⟩, hexpired⟩
      loaded := ⟨load, hloadMem, hloadLabel, row, hfrom, hwallet⟩
      allowed := by simpa [ActiveConnection.allowsRelay] using h.allowed
      eventId := h.eventId
      authentic := h.authentic }

theorem Fresh.authorizedIn (h : Fresh x policy wake log r) :
    AuthorizedIn x l earlier i policy wake r := by
  obtain ⟨time, duration, hacquired⟩ := h.claimed.acquired
  rw [h.claimed.bound.eventId] at hacquired
  obtain ⟨claim, hclaimMem, hclaimLabel⟩ := hlog _ hacquired
  refine ⟨h.claimed.bound.boundIn hrun hlog, ⟨time, duration, claim, hclaimMem, hclaimLabel⟩, ?_⟩
  rcases h.accepted with hearlier | ⟨⟨now, hclock, htime⟩, acceptedAt, haccepted⟩
  · -- the lease was issued from a row that already carried the flag
    obtain ⟨newer, older, rfl⟩ := List.append_of_mem hclaimMem
    obtain ⟨hbefore, hstep, -⟩ := hrun.split
    rw [hclaimLabel] at hstep
    have hrecorded := (SystemStep.ledgerStep hstep).acquired.2 hearlier
    rcases freshness_recorded (ledgerRun_of_run hbefore) hrecorded with
      ⟨accept, hmem, haccept⟩ | hstart
    · refine Or.inr (Or.inl ⟨accept, ?_, haccept⟩)
      rw [ledgerHistory, List.filterMap_append]
      exact List.mem_append_right _ (List.mem_filterMap.mpr (by
        obtain ⟨event, hevent, heq⟩ := List.mem_filterMap.mp hmem
        exact ⟨event, List.mem_cons_of_mem _ hevent, heq⟩))
    · exact Or.inr (Or.inr hstart)
  · obtain ⟨clock, hclockMem, hclockLabel⟩ := hlog _ hclock
    obtain ⟨accept, hacceptMem, hacceptLabel⟩ := hlog _ haccepted
    exact Or.inl ⟨⟨now, ⟨clock, hclockMem, hclockLabel⟩, htime⟩, acceptedAt, accept, hacceptMem,
      hacceptLabel⟩

end Answers

theorem domainMethod_protocolMethod (method : NwcMethod) :
    domainMethod (protocolMethod method) = some method := by
  cases method <;> rfl

/-- Authorization before side effects. Whatever an execution of a wake does in a
run of the system from any ledger: a secret is loaded only for the connection the
wake is bound to, under an acquired claim of a fresh event; the wallet is called
only for such a request once it is decrypted and its method, the one that call
serves, is granted; and a response is published only to the wake's own relay,
which the bound connection lists. An execution records freshness itself only
after checking the event's time against its clock. -/
theorem authorization_before_effects {x : Crates} (hparams : x.ParamsMatchMethod)
    {outside : HostCall → Prop} {l : Ledger} {later earlier : SystemHistory}
    {event : Event SystemWorld SystemLabel} {w : SystemWorld} {i : Nat} {op : HostOp}
    {reply : op.Reply} {t : SystemThread} {policy : WakePolicy} {wake : WakeInput}
    (hrun : SystemRun x outside l (later ++ event :: earlier) w)
    (hevent : Asked i op reply event) (hthread : event.before.threads[i]? = some t)
    (hjob : t.job = .wake policy wake) :
    (∀ id context, op = .loadNwcSecret id context →
      ∃ r, AuthorizedIn x l earlier i policy wake r ∧ id = r.connection.id) ∧
    (∀ call context, op = .wallet call context →
      ∃ r, AuthorizedIn x l earlier i policy wake r ∧
        (∃ context' secret request, (∃ event' ∈ earlier,
            Asked i (.loadNwcSecret r.connection.id context') (.ok secret) event') ∧
          parseRequest x r.validated secret = .ok request ∧
          request.method = protocolMethod call.method) ∧
        call.method ∈ r.connection.policy.methods) ∧
    (∀ relay json context, op = .publishEvent relay json context →
      ∃ connection validated, BoundIn x earlier i wake relay connection validated) ∧
    (∀ lease now, op = .ledger (.claim (.acceptEventFreshness lease now)) →
      ∃ (validated : ValidatedNwcEvent) (time : UnixTimestamp), validated.id = wake.eventId ∧
        (∃ event' ∈ earlier, Asked i .clockNow time event') ∧
        policy.acceptsEventTime validated.createdAt time = true) := by
  obtain ⟨t', hthread', hguard, hlog⟩ := SystemRun.act_guard hrun hevent
  rw [hthread, Option.some.injEq] at hthread'
  subst hthread'
  rw [hjob] at hguard
  obtain ⟨hbefore, -, -⟩ := hrun.split
  have hpermitted : ∀ {r request method call},
      Permitted x policy wake t.log r request method →
      request.params.method = protocolMethod call →
      AuthorizedIn x l earlier i policy wake r ∧
        (∃ context' secret request, (∃ event' ∈ earlier,
            Asked i (.loadNwcSecret r.connection.id context') (.ok secret) event') ∧
          parseRequest x r.validated secret = .ok request ∧
          request.method = protocolMethod call) ∧ call ∈ r.connection.policy.methods := by
    intro r request method call h hcall
    obtain ⟨context, secret, hsecret, hparse⟩ := h.decrypted
    have hmethod : request.method = protocolMethod call := by
      simp only [parseRequest, bind_eq_ok, okOr_eq_ok] at hparse
      obtain ⟨plaintext, -, hjson⟩ := hparse
      rw [← hparams plaintext request hjson, hcall]
    have hsame : method = call := by
      have hknown := h.known
      rw [hmethod, domainMethod_protocolMethod, Option.some.injEq] at hknown
      exact hknown.symm
    refine ⟨h.fresh.authorizedIn hbefore hlog,
      ⟨context, secret, request, hlog _ hsecret, hparse, hmethod⟩, ?_⟩
    have hgranted := h.granted
    rw [hsame] at hgranted
    simpa [ConnectionPolicy.allows] using hgranted
  refine ⟨?_, ?_, ?_, ?_⟩
  · rintro id context rfl
    obtain ⟨r, hfresh, hid⟩ := hguard
    exact ⟨r, hfresh.authorizedIn hbefore hlog, hid⟩
  · rintro call context rfl
    cases call with
    | startPayment start =>
      obtain ⟨r, attempt, ⟨request, payment, h, hpay⟩, -⟩ := hguard
      exact ⟨r, hpermitted h (by rw [hpay]; rfl)⟩
    | getInfo => obtain ⟨r, request, method, h, hcall⟩ := hguard; exact ⟨r, hpermitted h hcall⟩
    | getBalance => obtain ⟨r, request, method, h, hcall⟩ := hguard; exact ⟨r, hpermitted h hcall⟩
    | makeInvoice _ =>
      obtain ⟨r, request, method, h, hcall⟩ := hguard
      exact ⟨r, hpermitted h hcall⟩
    | quotePayment _ _ =>
      obtain ⟨r, request, method, h, hcall⟩ := hguard
      exact ⟨r, hpermitted h hcall⟩
    | paymentStatus _ =>
      obtain ⟨r, request, method, h, hcall⟩ := hguard
      exact ⟨r, hpermitted h hcall⟩
    | lookupInvoice _ =>
      obtain ⟨r, request, method, h, hcall⟩ := hguard
      exact ⟨r, hpermitted h hcall⟩
    | listTransactions _ =>
      obtain ⟨r, request, method, h, hcall⟩ := hguard
      exact ⟨r, hpermitted h hcall⟩
  · rintro relay json context rfl
    obtain ⟨connection, validated, hbound, -⟩ := hguard
    exact ⟨connection, validated, hbound.boundIn hbefore hlog⟩
  · rintro lease now rfl
    obtain ⟨r, time, older, holder, hclaimed, -, htime⟩ := hguard
    refine ⟨r.validated, time, hclaimed.bound.eventId, hlog ⟨.clockNow, time⟩ ?_, htime⟩
    rw [holder]
    exact List.mem_cons_of_mem _ List.mem_cons_self

namespace Sample

/-- An execution up to the load of its secret. -/
def loading : List Move :=
  List.replicate 13 (Move.act 0 (payingScript 1010 1)) ++
  [Move.spawn firstWake,
   Move.outside (.registry (.insertConnection connection 1000)) (script 1000 0)]

def loaded : SystemHistory × SystemWorld := play quickProgram crates .empty loading

theorem loaded_run : SystemRun crates (fun _ => True) .empty loaded.1 loaded.2 := by
  apply play_run
  · intro job hjob
    apply quickProgram_eq
    simp only [loading, List.mem_append, List.mem_replicate, List.mem_cons, List.not_mem_nil,
      reduceCtorEq, and_false, false_or, or_false, Move.spawn.injEq] at hjob
    exact Or.inl hjob
  · intros
    trivial

end Sample

theorem authorization_before_effects_loaded :
    ∃ event earlier, Sample.loaded.1 = event :: earlier ∧
      Asked 0 (.loadNwcSecret Sample.connectionId ⟨.fromSecs 20⟩) (.ok Sample.walletServiceSecret)
        event ∧
      ∃ r, AuthorizedIn Sample.crates .empty earlier 0 Sample.wakePolicy
        (Sample.wakeFor Sample.firstEvent Sample.firstEventJson) r ∧
        Sample.connectionId = r.connection.id := by
  refine ⟨_, _, rfl, rfl, ?_⟩
  have hall := @authorization_before_effects Sample.crates Sample.crates_paramsMatchMethod
    (fun _ => True) .empty [] _ _ _ 0 (.loadNwcSecret Sample.connectionId ⟨.fromSecs 20⟩)
    (.ok Sample.walletServiceSecret) _ Sample.wakePolicy
    (Sample.wakeFor Sample.firstEvent Sample.firstEventJson) Sample.loaded_run rfl rfl rfl
  exact hall.1 _ _ rfl

end NwcMobile
