import NwcMobile.Engine.ConnectionService
import NwcMobile.Engine.Execute
import NwcMobile.Engine.Reconciliation
import NwcMobile.Foundations.Concurrent

/-!
The whole system: any number of wake executions, reconciliation passes and legacy
imports interleaved over one ledger, each of which may stop after any step, with
further ledger calls in between. The ledger answers as in `LedgerStep`; every
other answer is up to the host.
-/

namespace NwcMobile

open Program Concurrent Transition

inductive Job where
  | wake (policy : WakePolicy) (input : WakeInput)
  | reconcile (maxAttempts : Nat)
  | migrate (imports : List LegacyConnectionImport)

inductive JobResult where
  | wake (disposition : WakeDisposition)
  | reconciled (result : Except PaymentReconciliationError PaymentReconciliationReport)
  | migrated (result : Except RegistryError LegacyMigrationResult)

def Job.program (x : Crates) : Job → HostProg JobResult
  | .wake policy input => do
    let disposition ← execute x policy input
    pure (.wake disposition)
  | .reconcile maxAttempts => do
    let result ← NwcMobile.reconcile maxAttempts
    pure (.reconciled result)
  | .migrate imports => do
    let result ← migrateLegacyBatch imports ⟨[], []⟩
    pure (.migrated result)

/-- The ledger answers its own operations; the host answers the others as it likes. -/
inductive HostAnswers (x : Crates) (l : Ledger) : HostCall → Ledger → Prop
  | ledger {op : LedgerOp} {reply : op.Reply} {l' : Ledger} (h : LedgerStep x l ⟨op, reply⟩ l') :
      HostAnswers x l ⟨.ledger op, reply⟩ l'
  | host {op : HostOp} {reply : op.Reply} (h : ∀ o, op ≠ .ledger o) : HostAnswers x l ⟨op, reply⟩ l

abbrev SystemThread := Thread Job HostOp HostOp.Reply JobResult

abbrev SystemWorld := World Ledger Job HostOp HostOp.Reply JobResult

abbrev SystemLabel := Label Job HostOp HostOp.Reply

abbrev SystemHistory := History Ledger Job HostOp HostOp.Reply JobResult

/-- One step of the system; `outside` says which ledger calls come from elsewhere. -/
abbrev SystemStep (x : Crates) (outside : HostCall → Prop) :
    SystemWorld → SystemLabel → SystemWorld → Prop :=
  Concurrent.Step (Job.program x) (HostAnswers x) outside

/-- Runs of the system that start with nothing running. -/
abbrev SystemRun (x : Crates) (outside : HostCall → Prop) (l : Ledger) :
    SystemHistory → SystemWorld → Prop :=
  Run (SystemStep x outside) ⟨l, []⟩

/-- The ledger call a label makes, if any. -/
def hostLedgerCall : HostCall → Option LedgerCall
  | ⟨.ledger op, reply⟩ => some ⟨op, reply⟩
  | _ => none

def systemLedgerCall : SystemLabel → Option LedgerCall
  | .act _ call => hostLedgerCall call
  | .outside call => hostLedgerCall call
  | .spawn _ | .crash _ => none

/-- The ledger's own history within a run of the system. -/
def ledgerHistory (history : SystemHistory) : LedgerHistory :=
  history.filterMap fun event =>
    (systemLedgerCall event.label).map fun call => ⟨event.before.shared, call, event.after.shared⟩

section Projection

variable {x : Crates} {outside : HostCall → Prop} {l l' : Ledger} {w w' : SystemWorld}
  {label : SystemLabel} {history : SystemHistory} {call : HostCall}

theorem hostLedgerCall_eq_some {op : LedgerOp} {reply : op.Reply}
    (h : hostLedgerCall call = some ⟨op, reply⟩) : call = ⟨.ledger op, reply⟩ := by
  obtain ⟨op', reply'⟩ := call
  cases op' with
  | ledger op' =>
    obtain ⟨rfl, hreply⟩ := LedgerCall.mk.inj (Option.some.inj h)
    cases hreply
    rfl
  | _ => cases h

theorem HostAnswers.ledgerStep (h : HostAnswers x l call l') :
    (∃ ledgerCall, hostLedgerCall call = some ledgerCall ∧ LedgerStep x l ledgerCall l') ∨
      (hostLedgerCall call = none ∧ l' = l) := by
  cases h with
  | ledger hstep => exact Or.inl ⟨_, rfl, hstep⟩
  | @host op reply hop =>
    cases op with
    | ledger o => exact absurd rfl (hop o)
    | _ => exact Or.inr ⟨rfl, rfl⟩

/-- Each system step is one ledger step, or leaves the ledger alone. -/
theorem SystemStep.ledger (h : SystemStep x outside w label w') :
    (∃ ledgerCall, systemLedgerCall label = some ledgerCall ∧
        LedgerStep x w.shared ledgerCall w'.shared) ∨
      (systemLedgerCall label = none ∧ w'.shared = w.shared) := by
  cases h with
  | spawn job => exact Or.inr ⟨rfl, rfl⟩
  | act hthread hlive hnext hanswer => exact hanswer.ledgerStep
  | crash hthread => exact Or.inr ⟨rfl, rfl⟩
  | outside hout hanswer => exact hanswer.ledgerStep

/-- A run of the system is a run of its ledger. -/
theorem ledgerRun_of_run {w₀ : SystemWorld} (hrun : Run (SystemStep x outside) w₀ history w) :
    LedgerRun x w₀.shared (ledgerHistory history) w.shared :=
  Run.project (f := World.shared) (g := systemLedgerCall) hrun fun _ _ _ hstep => hstep.ledger

theorem mem_ledgerHistory {event : Event SystemWorld SystemLabel} {ledgerCall : LedgerCall}
    (hevent : event ∈ history) (hcall : systemLedgerCall event.label = some ledgerCall) :
    ⟨event.before.shared, ledgerCall, event.after.shared⟩ ∈ ledgerHistory history := by
  apply List.mem_filterMap.mpr
  exact ⟨event, hevent, by rw [hcall]; rfl⟩

end Projection

/-- What one scripted host answers. -/
structure HostScript where
  now : UnixTimestamp
  cancelled : Bool
  remaining : Duration
  nonce : BitVec 256
  fetched : Except HostError (Option String)
  published : Except HostError Unit
  secret : Except HostError NwcSecretKey
  wallet : (op : WalletOp) → Except HostError op.Value
  random : Entropy

/-- The answer to one operation, and the ledger after it. -/
def HostScript.answer (x : Crates) (script : HostScript) (l : Ledger) :
    (op : HostOp) → op.Reply × Ledger
  | .ledger op => Fallible.settle (op.run x script.random l) l
  | .clockNow => (script.now, l)
  | .isCancelled => (script.cancelled, l)
  | .deadlineRemaining => (script.remaining, l)
  | .nonce => (script.nonce, l)
  | .fetchEvent .. => (script.fetched, l)
  | .publishEvent .. => (script.published, l)
  | .loadNwcSecret .. => (script.secret, l)
  | .wallet op _ => (script.wallet op, l)
  | .recordDiagnostic _ => ((), l)

theorem HostScript.answers (x : Crates) (script : HostScript) (l : Ledger) (op : HostOp) :
    HostAnswers x l ⟨op, (script.answer x l op).1⟩ (script.answer x l op).2 := by
  cases op with
  | ledger op => exact .ledger (.transaction op script.random)
  | _ => exact .host fun o h => by cases h

/-- One scheduling decision. -/
inductive Move where
  | spawn (job : Job)
  | act (thread : Nat) (script : HostScript)
  | outside (op : LedgerOp) (script : HostScript)

/-- The step a decision leads to, if it is possible. The programs are a parameter,
so that a play may run them in a form that evaluates faster. -/
def Move.step (program : Job → HostProg JobResult) (x : Crates) (w : SystemWorld) :
    Move → Option (SystemLabel × SystemWorld)
  | .spawn job =>
    some (.spawn job, { w with threads := w.threads ++ [⟨job, [], program job, true⟩] })
  | .act i script =>
    match w.threads[i]? with
    | some ⟨job, log, .call op next, true⟩ =>
      let out := script.answer x w.shared op
      some (.act i ⟨op, out.1⟩,
        ⟨out.2, w.threads.set i ⟨job, ⟨op, out.1⟩ :: log, next out.1, true⟩⟩)
    | _ => none
  | .outside op script =>
    let out := script.answer x w.shared (.ledger op)
    some (.outside ⟨.ledger op, out.1⟩, { w with shared := out.2 })

/-- Carry out decisions, newest first, skipping impossible ones. -/
def play (program : Job → HostProg JobResult) (x : Crates) (l : Ledger) :
    List Move → SystemHistory × SystemWorld
  | [] => ([], ⟨l, []⟩)
  | move :: earlier =>
    let past := play program x l earlier
    match move.step program x past.2 with
    | some (label, w) => (⟨past.2, label, w⟩ :: past.1, w)
    | none => past

theorem Move.step_sound {program : Job → HostProg JobResult} {x : Crates}
    {outside : HostCall → Prop} {w w' : SystemWorld} {label : SystemLabel} {move : Move}
    (h : move.step program x w = some (label, w'))
    (hprogram : ∀ job, move = .spawn job → program job = job.program x)
    (hout : ∀ call, label = .outside call → outside call) : SystemStep x outside w label w' := by
  cases move with
  | spawn job =>
    obtain ⟨rfl, rfl⟩ := Prod.mk.inj (Option.some.inj h)
    rw [hprogram job rfl]
    exact .spawn job
  | act i script =>
    simp only [Move.step] at h
    split at h
    · rename_i job log op next hthread
      obtain ⟨rfl, rfl⟩ := Prod.mk.inj (Option.some.inj h)
      exact .act hthread rfl rfl (script.answers x w.shared op)
    · cases h
  | outside op script =>
    obtain ⟨rfl, rfl⟩ := Prod.mk.inj (Option.some.inj h)
    exact .outside (hout _ rfl) (script.answers x w.shared (.ledger op))

/-- Every play is a run of the system. -/
theorem play_run {program : Job → HostProg JobResult} {x : Crates} {outside : HostCall → Prop}
    {l : Ledger} {moves : List Move}
    (hprogram : ∀ job, .spawn job ∈ moves → program job = job.program x)
    (hout : ∀ event ∈ (play program x l moves).1, ∀ call, event.label = .outside call →
      outside call) :
    SystemRun x outside l (play program x l moves).1 (play program x l moves).2 := by
  induction moves with
  | nil => exact .refl
  | cons move earlier ih =>
    have hearlier : ∀ job, .spawn job ∈ earlier → program job = job.program x :=
      fun job hjob => hprogram job (List.mem_cons_of_mem _ hjob)
    simp only [play] at hout ⊢
    split
    · rename_i label w hstep
      rw [hstep] at hout
      refine (ih hearlier fun event hevent => hout event (List.mem_cons_of_mem _ hevent)).tail ?_
      refine Move.step_sound hstep ?_ (hout _ List.mem_cons_self)
      rintro job rfl
      exact hprogram job List.mem_cons_self
    · rename_i hstep
      rw [hstep] at hout
      exact ih hearlier hout

/-- A longer play continues the shorter one. -/
theorem play_append {program : Job → HostProg JobResult} {x : Crates} {l : Ledger}
    {later earlier : List Move} : ∃ history,
      (play program x l (later ++ earlier)).1 = history ++ (play program x l earlier).1 := by
  induction later with
  | nil => exact ⟨[], rfl⟩
  | cons move rest ih =>
    obtain ⟨history, hrest⟩ := ih
    simp only [List.cons_append, play]
    split
    · exact ⟨_ :: history, by rw [hrest]; rfl⟩
    · exact ⟨history, hrest⟩

/-- A play only looks at the programs of the jobs it spawns. -/
theorem play_congr {program program' : Job → HostProg JobResult} {x : Crates} {l : Ledger}
    {moves : List Move} (h : ∀ job, .spawn job ∈ moves → program job = program' job) :
    play program x l moves = play program' x l moves := by
  induction moves with
  | nil => rfl
  | cons move earlier ih =>
    have hearlier := ih fun job hjob => h job (List.mem_cons_of_mem _ hjob)
    have hstep : ∀ w, move.step program x w = move.step program' x w := by
      intro w
      cases move with
      | spawn job => simp only [Move.step, h job List.mem_cons_self]
      | act i script => rfl
      | outside op script => rfl
    simp only [play, hearlier, hstep]

/-- Every step of a play is one of its decisions. -/
theorem play_move {program : Job → HostProg JobResult} {x : Crates} {l : Ledger}
    {moves : List Move} {event : Event SystemWorld SystemLabel}
    (hevent : event ∈ (play program x l moves).1) :
    ∃ move ∈ moves, move.step program x event.before = some (event.label, event.after) := by
  induction moves with
  | nil => cases hevent
  | cons move earlier ih =>
    have hearlier : event ∈ (play program x l earlier).1 → ∃ move' ∈ move :: earlier,
        move'.step program x event.before = some (event.label, event.after) := by
      intro hold
      obtain ⟨move', hmove', hstep⟩ := ih hold
      exact ⟨move', List.mem_cons_of_mem _ hmove', hstep⟩
    simp only [play] at hevent
    split at hevent
    · rename_i label w hstep
      rcases List.mem_cons.mp hevent with rfl | hold
      · exact ⟨move, List.mem_cons_self, hstep⟩
      · exact hearlier hold
    · exact hearlier hevent

theorem Move.step_spawn {program : Job → HostProg JobResult} {x : Crates} {w w' : SystemWorld}
    {move : Move} {job : Job} (h : move.step program x w = some (.spawn job, w')) :
    move = .spawn job := by
  cases move with
  | spawn job' =>
    obtain ⟨hlabel, -⟩ := Prod.mk.inj (Option.some.inj h)
    cases hlabel
    rfl
  | act i script =>
    simp only [Move.step] at h
    split at h
    · cases h
    · cases h
  | outside op script => cases h

theorem Move.step_outside {program : Job → HostProg JobResult} {x : Crates} {w w' : SystemWorld}
    {move : Move} {call : HostCall} (h : move.step program x w = some (.outside call, w')) :
    ∃ op script, move = .outside op script ∧ call.op = .ledger op := by
  cases move with
  | spawn job => cases h
  | act i script =>
    simp only [Move.step] at h
    split at h
    · cases h
    · cases h
  | outside op script =>
    obtain ⟨hlabel, -⟩ := Prod.mk.inj (Option.some.inj h)
    cases hlabel
    exact ⟨op, script, rfl, rfl⟩

namespace Sample

/-- A host that answers nothing but the clock, the deadline and the ledger. -/
def script (now : UnixTimestamp) (token : BitVec 128) : HostScript where
  now := now
  cancelled := false
  remaining := .fromSecs 20
  nonce := 0
  fetched := .ok none
  published := .error ⟨.unavailable⟩
  secret := .error ⟨.unavailable⟩
  wallet _ := .error ⟨.unavailable⟩
  random := ⟨some ⟨token⟩, none⟩

/-- A wake that carries the event. -/
def wakeFor (event : NostrEvent) (json : String) : WakeInput :=
  ⟨relayUrl, event.id, walletServicePubkey, some json⟩

/-- `bindConnection` for an event that is known to be valid for the sample keys. -/
def quickBind (x : Crates) (event : NostrEvent) (json : String) (time : UnixTimestamp) :
    HostProg (Except WakeDisposition (ActiveConnection × ValidatedNwcEvent)) := do
  let found ← NwcMobile.registry (.loadActiveConnectionByKeys clientPubkey walletServicePubkey)
  match found with
  | .error _ => pure (.error (queued .ledgerBusy))
  | .ok none => pure (.error (rejected .connectionUnavailable))
  | .ok (some connection) =>
    if connection.isExpiredAt time then pure (.error (rejected .connectionUnavailable))
    else if !connection.allowsRelay relay then pure (.error (rejected .relayNotAllowed))
    else if connection.clientPubkey = clientPubkey ∧
        connection.walletServicePubkey = walletServicePubkey ∧ connection.encryption = .nip44V2 then
      pure (.ok (connection, validatedEvent event))
    else
      match validateRequestForReplay x wakePolicy json event.id connection.clientPubkey
          connection.walletServicePubkey connection.encryption with
      | .error error => pure (.error (rejected (eventRejection error)))
      | .ok validated => pure (.ok (connection, validated))

/-- `execute` for such an event. -/
def quickExecute (x : Crates) (event : NostrEvent) (json : String) : HostProg WakeDisposition := do
  let cancelled ← ask .isCancelled
  if cancelled then pure (queued .deadline)
  else do
    let time ← clockNow
    let approved ← NwcMobile.registry (.isRelayApprovedForWallet walletServicePubkey relay time)
    match approved with
    | .ok true => do
      let bound ← quickBind x event json time
      match bound with
      | .error disposition => pure disposition
      | .ok (connection, validated) => claimAndExecute x wakePolicy relay connection validated
    | .ok false => pure (rejected .relayNotAllowed)
    | .error _ => pure (queued .ledgerBusy)

theorem bindConnection_eq_quickBind {x : Crates} {event : NostrEvent} {json : String} {time : UnixTimestamp}
    (h : candidateAuthor x wakePolicy json = .ok clientPubkey ∧
      validateRequestForReplay x wakePolicy json event.id clientPubkey walletServicePubkey
        .nip44V2 = .ok (validatedEvent event)) :
    bindConnection x wakePolicy (wakeFor event json) relay time json =
      quickBind x event json time := by
  unfold bindConnection quickBind
  rw [h.1]
  refine congrArg (NwcMobile.registry _ >>= ·) (funext fun found => ?_)
  cases found with
  | error _ => rfl
  | ok found =>
    cases found with
    | none => rfl
    | some connection =>
      by_cases hkeys : connection.clientPubkey = clientPubkey ∧
          connection.walletServicePubkey = walletServicePubkey ∧ connection.encryption = .nip44V2
      · simp only [hkeys.1, hkeys.2.1, hkeys.2.2, wakeFor, h.2, and_self, if_true]
      · simp only [hkeys, if_false]
        rfl

theorem execute_eq_quickExecute {x : Crates} {event : NostrEvent} {json : String}
    (hrelay : SecureRelayUrl.parse x relayUrl = .ok relay)
    (h : candidateAuthor x wakePolicy json = .ok clientPubkey ∧
      validateRequestForReplay x wakePolicy json event.id clientPubkey walletServicePubkey
        .nip44V2 = .ok (validatedEvent event)) :
    execute x wakePolicy (wakeFor event json) = quickExecute x event json := by
  have hparsed : SecureRelayUrl.parse x (wakeFor event json).relay = .ok relay := hrelay
  unfold execute quickExecute
  refine congrArg (ask .isCancelled >>= ·) (funext fun cancelled => ?_)
  cases cancelled with
  | true => rfl
  | false =>
    refine congrArg (clockNow >>= ·) (funext fun time => ?_)
    rw [hparsed]
    refine congrArg (NwcMobile.registry _ >>= ·) (funext fun approved => ?_)
    cases approved with
    | error _ => rfl
    | ok approved =>
      cases approved with
      | false => rfl
      | true =>
        change executeApproved x wakePolicy (wakeFor event json) relay time = _
        unfold executeApproved
        change bindConnection x wakePolicy (wakeFor event json) relay time json >>= _ = _
        exact congrArg (· >>= _) (bindConnection_eq_quickBind h)

theorem relay_parsed : SecureRelayUrl.parse crates relayUrl = .ok relay := by decide

/-- The program of a wake for an event that is known to be valid. -/
def quickJob (x : Crates) (event : NostrEvent) (json : String) : Job → HostProg JobResult
  | .wake policy input =>
    if input.eventId = event.id then do
      let disposition ← quickExecute x event json
      pure (.wake disposition)
    else Job.program x (.wake policy input)
  | job => job.program x

theorem quickJob_eq {x : Crates} {event : NostrEvent} {json : String}
    (hrelay : SecureRelayUrl.parse x relayUrl = .ok relay)
    (h : candidateAuthor x wakePolicy json = .ok clientPubkey ∧
      validateRequestForReplay x wakePolicy json event.id clientPubkey walletServicePubkey
        .nip44V2 = .ok (validatedEvent event)) :
    Job.program x (.wake wakePolicy (wakeFor event json)) =
      quickJob x event json (.wake wakePolicy (wakeFor event json)) := by
  have hid : (wakeFor event json).eventId = event.id := rfl
  simp only [quickJob, hid, if_true, Job.program, execute_eq_quickExecute hrelay h]

/-- The programs of the sample's jobs, told apart by the events they are woken for. -/
def quickProgram : Job → HostProg JobResult
  | .wake policy input =>
    if input.eventId = firstEvent.id then do
      let disposition ← quickExecute crates firstEvent firstEventJson
      pure (.wake disposition)
    else if input.eventId = secondEvent.id then do
      let disposition ← quickExecute crates secondEvent secondEventJson
      pure (.wake disposition)
    else Job.program crates (.wake policy input)
  | job => job.program crates

def firstWake : Job := .wake wakePolicy (wakeFor firstEvent firstEventJson)

def secondWake : Job := .wake wakePolicy (wakeFor secondEvent secondEventJson)

theorem quickProgram_eq {job : Job} (hjob : job = firstWake ∨ job = secondWake ∨
    ∃ maxAttempts, job = .reconcile maxAttempts) : quickProgram job = job.program crates := by
  rcases hjob with rfl | rfl | ⟨maxAttempts, rfl⟩
  · have hid : (wakeFor firstEvent firstEventJson).eventId = firstEvent.id := rfl
    simp only [quickProgram, firstWake, hid, if_true, Job.program,
      execute_eq_quickExecute relay_parsed validate_first]
  · have hid : (wakeFor secondEvent secondEventJson).eventId = secondEvent.id := rfl
    have hne : secondEvent.id ≠ firstEvent.id := by decide
    simp only [quickProgram, secondWake, hid, hne, if_true, if_false, Job.program,
      execute_eq_quickExecute relay_parsed validate_second]
  · rfl


/-- A host whose wallet quotes ten satoshis, does not know the payment and pays it. -/
def payingScript (now : UnixTimestamp) (token : BitVec 128) : HostScript where
  now := now
  cancelled := false
  remaining := .fromSecs 20
  nonce := 0
  fetched := .ok none
  published := .ok ()
  secret := .ok walletServiceSecret
  wallet op :=
    match op with
    | .quotePayment _ _ => .ok ⟨⟨9⟩, 10000⟩
    | .paymentStatus _ => .ok .unknown
    | .startPayment _ => .ok (.succeeded ⟨5⟩ 10000 900)
    | _ => .error ⟨.unavailable⟩
  random := ⟨some ⟨token⟩, none⟩

end Sample

end NwcMobile
