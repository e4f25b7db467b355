import NwcMobile.Engine.Guarded
import NwcMobile.Ledger.Lifecycle

/-!
What an execution asks the wallet about, and how it ends. Only one place in an
execution asks for the status of a payment, and only the claim itself can report
an event as already processed; every other stage is plain in both respects.
-/

namespace NwcMobile

open Program Prog Concurrent Nip47

/-- The operation does not ask for the status of a payment. -/
def NoStatus (op : HostOp) : Prop := ∀ hash context, op ≠ .wallet (.paymentStatus hash) context

/-- The operation starts no payment. -/
def NoStart (op : HostOp) : Prop := ∀ start context, op ≠ .wallet (.startPayment start) context

/-- The operation neither calls the wallet nor writes payments or records. -/
def Routine : HostOp → Prop
  | .wallet .. | .ledger (.payment _) | .ledger (.record _) => False
  | _ => True

/-- The event is not reported as already processed, and a retry is put off by the
engine's delay. -/
def Progressed : WakeDisposition → Prop
  | .alreadyProcessed _ => False
  | .retryAfter delay _ _ => delay = engineRetryDelay
  | _ => True

theorem Routine.noStatus {op : HostOp} (h : Routine op) : NoStatus op := by
  rintro hash context rfl
  exact h

theorem Routine.noStart {op : HostOp} (h : Routine op) : NoStart op := by
  rintro start context rfl
  exact h

/-- The program only does routine work, and progresses. -/
abbrev Routinely (log : HostLog) (p : HostProg WakeDisposition) : Prop :=
  Spec (fun _ => Routine) log p fun _ disposition => Progressed disposition

/-- The program asks for no status, and progresses. -/
abbrev Plain (log : HostLog) (p : HostProg WakeDisposition) : Prop :=
  Spec (fun _ => NoStatus) log p fun _ disposition => Progressed disposition

/-- A stage that only does routine work and may end the execution early. -/
abbrev RoutineStage {α : Type} (log : HostLog) (p : HostProg (Except WakeDisposition α)) : Prop :=
  Spec (fun _ => Routine) log p fun _ result =>
    ∀ disposition, result = .error disposition → Progressed disposition

/-- A stage that asks for no status and may end the execution early. -/
abbrev PlainStage {α : Type} (log : HostLog) (p : HostProg (Except WakeDisposition α)) : Prop :=
  Spec (fun _ => NoStatus) log p fun _ result =>
    ∀ disposition, result = .error disposition → Progressed disposition

section Stages

variable {x : Crates} {policy : WakePolicy} {wake : WakeInput} {log : HostLog}
  {relay : SecureRelayUrl} {connection : ActiveConnection} {r : ClaimedRequest}
  {lease : EventLease} {hash : PaymentHash} {attempt : PaymentAttempt} {context : OperationContext}

theorem PlainStage.early {disposition : WakeDisposition} {α : Type} (h : Progressed disposition) :
    ∀ d, (.error disposition : Except WakeDisposition α) = .error d → Progressed d := by
  intro d heq
  cases heq
  exact h

theorem routine_deadlineContext : Spec (fun _ => Routine) log deadlineContext fun _ _ => True := by
  refine ⟨trivial, fun cancelled => ?_⟩
  cases cancelled with
  | true => trivial
  | false => exact ⟨trivial, fun _ => trivial⟩

theorem routine_rejectClaim {code : RejectionCode} : Routinely log (rejectClaim lease code) := by
  refine ⟨trivial, fun now => ⟨trivial, fun done => ?_⟩⟩
  cases done with
  | ok _ => trivial
  | error _ => trivial

theorem routine_retryClaim {reason : RetryReason} : Routinely log (retryClaim lease reason) := by
  refine ⟨trivial, fun now => ⟨trivial, fun done => ?_⟩⟩
  cases done with
  | ok _ => rfl
  | error _ => trivial

theorem routine_releaseToApplication {reason : QueueReason} :
    Routinely log (releaseToApplication lease reason) := by
  refine ⟨trivial, fun now => ⟨trivial, fun done => ?_⟩⟩
  cases done with
  | ok _ => trivial
  | error _ => trivial

theorem routine_completionFailed {error : LedgerError} : Routinely log (completionFailed lease error) := by
  unfold completionFailed
  split
  · trivial
  · rfl
  · trivial
  · exact routine_retryClaim

theorem routine_ensureClaimConnectionActive :
    RoutineStage log (ensureClaimConnectionActive connection lease) := by
  refine ⟨trivial, fun active => ?_⟩
  match active with
  | .ok true => exact nofun
  | .ok false => exact routine_rejectClaim.seq fun _ _ h => PlainStage.early h
  | .error _ => exact routine_releaseToApplication.seq fun _ _ h => PlainStage.early h

theorem routine_publishFailed : Routinely log publishFailed := ⟨trivial, fun _ => rfl⟩

theorem routine_republishTerminal {eventJson : String} {notification : NotificationHint} :
    Routinely log (republishTerminal connection relay (some eventJson) notification) := by
  refine ⟨trivial, fun active => ?_⟩
  match active with
  | .ok false => trivial
  | .error _ => trivial
  | .ok true =>
    refine routine_deadlineContext.seq fun log' context _ => ?_
    cases context with
    | none => exact routine_publishFailed
    | some context =>
      refine ⟨trivial, fun published => ?_⟩
      cases published with
      | ok _ => trivial
      | error _ => exact routine_publishFailed

theorem routine_completeForActive {json : String} {method : Option NwcMethod}
    {now : UnixTimestamp} :
    Spec (fun _ => Routine) log (completeForActive r json method now) fun _ _ => True := by
  cases method with
  | none => exact ⟨trivial, fun _ => trivial⟩
  | some method => exact ⟨trivial, fun _ => trivial⟩

theorem routine_commitAndPublish {response : Response} :
    Routinely log (commitAndPublish x r response) := by
  refine routine_deadlineContext.seq fun log₁ context _ => ?_
  cases context with
  | none => exact routine_releaseToApplication
  | some context =>
    refine ⟨trivial, fun secret => ?_⟩
    cases secret with
    | error error => exact routine_releaseToApplication
    | ok secret =>
      refine ⟨trivial, fun createdAt => ⟨trivial, fun nonce => ?_⟩⟩
      dsimp only [Prog.bind]
      split
      · exact routine_rejectClaim
      · refine ⟨trivial, fun now => routine_completeForActive.seq fun log₂ done _ => ?_⟩
        cases done with
        | error error => exact routine_completionFailed
        | ok _ => exact routine_republishTerminal

theorem Progressed.asRejection {disposition : WakeDisposition} {code : RejectionCode}
    (h : Progressed disposition) : Progressed (asRejection code disposition) := by
  cases disposition with
  | completed notification => trivial
  | _ => exact h

theorem routine_respondWithError {method : Method} {errorCode : ErrorCode}
    {rejection : RejectionCode} :
    Routinely log (respondWithError x r method errorCode rejection) := by
  refine routine_ensureClaimConnectionActive.seq fun log' active hactive => ?_
  cases active with
  | error disposition => exact hactive disposition rfl
  | ok _ => exact routine_commitAndPublish.seq fun _ _ h => h.asRejection

theorem Routinely.plain {p : HostProg WakeDisposition} (h : Routinely log p) : Plain log p :=
  h.guard_imp fun _ _ => Routine.noStatus

theorem plain_ensureClaimConnectionActive :
    PlainStage log (ensureClaimConnectionActive connection lease) :=
  routine_ensureClaimConnectionActive.guard_imp fun _ _ => Routine.noStatus

theorem noStatus_deadlineContext : Spec (fun _ => NoStatus) log deadlineContext fun _ _ => True :=
  routine_deadlineContext.guard_imp fun _ _ => Routine.noStatus

section Payments

variable {invoice : String} {explicitAmount : Option AmountMsat} {status : PaymentStatus}

theorem plain_keepPending : Plain log (keepPending r hash) := by
  refine ⟨nofun, fun now => ⟨nofun, fun marked => ?_⟩⟩
  cases marked with
  | error _ => exact routine_releaseToApplication.plain
  | ok _ => exact routine_retryClaim.plain

theorem plain_finishSucceeded {preimage : PaymentPreimage} {amount fee : AmountMsat} :
    Plain log (finishSucceeded x r invoice hash preimage amount fee) := by
  refine ⟨nofun, fun _ => ⟨nofun, fun settledAt => ⟨nofun, fun marked => ?_⟩⟩⟩
  cases marked with
  | error _ => exact routine_releaseToApplication.plain
  | ok _ =>
    refine ⟨nofun, fun recorded => ?_⟩
    cases recorded with
    | error _ => exact routine_releaseToApplication.plain
    | ok _ =>
      refine plain_ensureClaimConnectionActive.seq fun log' active hactive => ?_
      cases active with
      | error disposition => exact hactive disposition rfl
      | ok _ => exact routine_commitAndPublish.plain

theorem plain_finishPaymentStatus :
    Plain log (finishPaymentStatus x r invoice hash status) := by
  cases status with
  | unknown => exact ⟨nofun, fun _ => plain_keepPending⟩
  | pending => exact ⟨nofun, fun _ => plain_keepPending⟩
  | succeeded preimage amount fee => exact plain_finishSucceeded
  | failed reason =>
    refine ⟨nofun, fun _ => ⟨nofun, fun now => ⟨nofun, fun marked => ?_⟩⟩⟩
    cases marked with
    | error _ => exact routine_releaseToApplication.plain
    | ok _ => exact routine_respondWithError.plain

theorem plain_startPayment : Plain log (startPayment x r invoice explicitAmount attempt) := by
  refine noStatus_deadlineContext.seq fun log' context _ => ?_
  cases context with
  | none => exact routine_retryClaim.plain
  | some context =>
    refine ⟨nofun, fun started => ?_⟩
    cases started with
    | ok status => exact plain_finishPaymentStatus
    | error error =>
      dsimp only [Prog.bind]
      split
      · exact plain_finishPaymentStatus
      · exact ⟨nofun, fun _ => plain_keepPending⟩

theorem plain_initiatePayment :
    Plain log (initiatePayment x r invoice explicitAmount attempt) := by
  unfold initiatePayment
  split
  · exact plain_startPayment
  · refine noStatus_deadlineContext.seq fun log' context _ => ?_
    cases context with
    | none => exact routine_retryClaim.plain
    | some context =>
      refine ⟨nofun, fun now => ⟨nofun, fun marked => ?_⟩⟩
      cases marked with
      | error _ => exact routine_releaseToApplication.plain
      | ok _ => exact plain_startPayment

theorem plain_resumePayment : Plain log (resumePayment x r invoice explicitAmount attempt) := by
  refine plain_ensureClaimConnectionActive.seq fun log' active hactive => ?_
  cases active with
  | error disposition => exact hactive disposition rfl
  | ok _ =>
    dsimp only
    split
    · exact routine_retryClaim.plain
    · exact plain_initiatePayment

end Payments

section Requests

variable {request : Nip47.Request}

theorem noStatus_makeInvoice {params : Nip47.MakeInvoiceRequest} :
    Spec (fun _ => NoStatus) log (makeInvoice r params context) fun _ _ => True := by
  unfold makeInvoice
  split
  · trivial
  · refine ⟨nofun, fun createdAt => ⟨nofun, fun existing => ?_⟩⟩
    match existing with
    | .error _ => trivial
    | .ok (some tracked) => trivial
    | .ok none =>
      refine ⟨nofun, fun created => ?_⟩
      cases created with
      | error _ => trivial
      | ok created =>
        refine ⟨nofun, fun recorded => ?_⟩
        cases recorded <;> trivial

theorem noStatus_trackedLookup {params : LookupInvoiceRequest} :
    Spec (fun _ => NoStatus) log (trackedLookup params) fun _ _ => True := by
  unfold trackedLookup
  split
  · exact ⟨nofun, fun _ => trivial⟩
  · split
    · trivial
    · exact ⟨nofun, fun _ => trivial⟩
  · trivial

theorem noStatus_lookupInvoice {params : LookupInvoiceRequest} :
    Spec (fun _ => NoStatus) log (lookupInvoice params context) fun _ _ => True := by
  refine noStatus_trackedLookup.seq fun log' tracked _ => ?_
  cases tracked with
  | error _ => trivial
  | ok tracked =>
    dsimp only
    split
    · trivial
    · refine ⟨nofun, fun found => ?_⟩
      match found with
      | .error _ => trivial
      | .ok (some transaction) => trivial
      | .ok none =>
        cases tracked with
        | none => trivial
        | some invoice => exact ⟨nofun, fun _ => trivial⟩

theorem noStatus_listTransactions {params : Nip47.ListTransactionsRequest} :
    Spec (fun _ => NoStatus) log (listTransactions params context) fun _ _ => True := by
  unfold listTransactions
  split
  · trivial
  · refine ⟨nofun, fun listed => ?_⟩
    cases listed with
    | error _ => trivial
    | ok transactions =>
      dsimp only [Prog.bind]
      split <;> trivial

theorem noStatus_executeRequest :
    Spec (fun _ => NoStatus) log (executeRequest request r context) fun _ _ => True := by
  unfold executeRequest
  split
  · refine ⟨nofun, fun info => ?_⟩
    cases info <;> trivial
  · refine ⟨nofun, fun balance => ?_⟩
    cases balance <;> trivial
  · exact noStatus_makeInvoice
  · exact noStatus_lookupInvoice
  · exact noStatus_listTransactions
  · trivial
  · trivial

theorem plain_executeDirect {method : NwcMethod} : Plain log (executeDirect x r request method) := by
  refine plain_ensureClaimConnectionActive.seq fun log₁ active hactive => ?_
  cases active with
  | error disposition => exact hactive disposition rfl
  | ok _ =>
    refine noStatus_deadlineContext.seq fun log₂ context _ => ?_
    cases context with
    | none => exact routine_releaseToApplication.plain
    | some context =>
      refine noStatus_executeRequest.seq fun log₃ result _ => ?_
      cases result with
      | error error =>
        dsimp only
        split
        · exact routine_retryClaim.plain
        · split
          · exact routine_releaseToApplication.plain
          · exact routine_respondWithError.plain
      | ok result =>
        refine plain_ensureClaimConnectionActive.seq fun log₄ stillActive hstill => ?_
        cases stillActive with
        | error disposition => exact hstill disposition rfl
        | ok _ => exact routine_commitAndPublish.plain

end Requests

theorem plain_acceptFreshness : PlainStage log (acceptFreshness policy r) := by
  unfold acceptFreshness
  split
  · exact nofun
  · refine ⟨nofun, fun now => ?_⟩
    dsimp only [Prog.bind]
    split
    · refine ⟨nofun, fun acceptedAt => ⟨nofun, fun accepted => ?_⟩⟩
      cases accepted with
      | ok _ => exact nofun
      | error _ => exact routine_releaseToApplication.plain.seq fun _ _ h => PlainStage.early h
    · exact routine_rejectClaim.plain.seq fun _ _ h => PlainStage.early h

theorem plain_decryptRequest : PlainStage log (decryptRequest x r) := by
  refine noStatus_deadlineContext.seq fun log' context _ => ?_
  cases context with
  | none => exact routine_releaseToApplication.plain.seq fun _ _ h => PlainStage.early h
  | some context =>
    refine ⟨nofun, fun secret => ?_⟩
    cases secret with
    | error _ => exact routine_releaseToApplication.plain.seq fun _ _ h => PlainStage.early h
    | ok secret =>
      dsimp only [Prog.bind]
      split
      · exact nofun
      · exact routine_rejectClaim.plain.seq fun _ _ h => PlainStage.early h

theorem plain_obtainEvent : PlainStage log (obtainEvent policy wake relay) := by
  unfold obtainEvent
  split
  · exact nofun
  · refine noStatus_deadlineContext.seq fun log' context _ => ?_
    cases context with
    | none => exact PlainStage.early trivial
    | some context =>
      refine ⟨nofun, fun fetched => ?_⟩
      match fetched with
      | .ok (some event) => exact nofun
      | .ok none => exact PlainStage.early rfl
      | .error error =>
        dsimp only [Prog.bind]
        split
        · exact PlainStage.early trivial
        · exact PlainStage.early rfl

theorem plain_bindConnection {now : UnixTimestamp} {eventJson : String} :
    PlainStage log (bindConnection x policy wake relay now eventJson) := by
  unfold bindConnection
  split
  · exact PlainStage.early trivial
  · refine ⟨nofun, fun found => ?_⟩
    match found with
    | .error _ => exact PlainStage.early trivial
    | .ok none => exact PlainStage.early trivial
    | .ok (some connection) =>
      dsimp only [Prog.bind]
      split
      · exact PlainStage.early trivial
      · split
        · exact PlainStage.early trivial
        · split
          · exact PlainStage.early trivial
          · exact nofun

end Stages

/-- A program was handed `attempt` by one of its calls. -/
def Given (log : HostLog) (attempt : PaymentAttempt) : Prop :=
  ∃ call ∈ log, ∃ ledgerCall, hostLedgerCall call = some ledgerCall ∧ attempt ∈ ledgerCall.returned

/-- No attempt for `hash` the program was handed may disclose a settlement. -/
def Foreign (log : HostLog) (hash : PaymentHash) : Prop :=
  ∀ attempt, Given log attempt → attempt.paymentHash = hash → attempt.mayDiscloseSettlement = false

/-- The wallet's answer to a status question. -/
def statusCall (hash : PaymentHash) (context : OperationContext) (status : PaymentStatus) : HostCall :=
  ⟨.wallet (.paymentStatus hash) context, .ok status⟩

/-- After a status of `hash` was noticed that belongs to no payment of the program,
it reads the clock, releases the reservation at that time and starts nothing. -/
structure Prompt (log : HostLog) (op : HostOp) : Prop where
  clock : ∀ hash context status older, log = statusCall hash context status :: older →
    status ≠ .unknown → Foreign older hash → op = .clockNow
  release : ∀ now hash context status older,
    log = ⟨.clockNow, now⟩ :: statusCall hash context status :: older → status ≠ .unknown →
      Foreign older hash → op = .ledger (.payment (.releaseUninitiatedPayment hash now))
  noStart : ∀ newer hash context status older, log = newer ++ statusCall hash context status :: older →
    status ≠ .unknown → Foreign older hash → NoStart op

/-- The program has noticed no foreign status. -/
def Free (log : HostLog) : Prop :=
  ∀ newer hash context status older, log = newer ++ statusCall hash context status :: older →
    status ≠ .unknown → ¬ Foreign older hash

/-- The program has asked for no status. -/
def Unasked (log : HostLog) : Prop := ∀ call ∈ log, NoStatus call.op

section Prompting

variable {x : Crates} {policy : WakePolicy} {wake : WakeInput} {log : HostLog} {op : HostOp}
  {r : ClaimedRequest} {attempt : PaymentAttempt} {invoice : String}
  {explicitAmount : Option AmountMsat} {α : Type} {p : HostProg α} {Q : HostLog → α → Prop}

theorem statusCall_not_noStatus {hash : PaymentHash} {context : OperationContext}
    {status : PaymentStatus} : ¬ NoStatus (statusCall hash context status).op :=
  fun h => h hash context rfl

theorem Unasked.not_mem {hash : PaymentHash} {context : OperationContext} {status : PaymentStatus}
    (h : Unasked log) : statusCall hash context status ∉ log :=
  fun hcall => statusCall_not_noStatus (h _ hcall)

theorem Unasked.free (h : Unasked log) : Free log := by
  rintro newer hash context status older rfl - -
  exact h.not_mem (List.mem_append_right _ List.mem_cons_self)

theorem unasked_nil : Unasked [] := fun _ h => absurd h List.not_mem_nil

theorem Unasked.cons {call : HostCall} (h : Unasked log) (hcall : NoStatus call.op) :
    Unasked (call :: log) := by
  intro c hc
  rcases List.mem_cons.mp hc with rfl | hprior
  · exact hcall
  · exact h c hprior

theorem Unasked.after (h : Unasked log) (op : HostOp) (reply : op.Reply) (hop : NoStatus op) :
    Unasked (⟨op, reply⟩ :: log) :=
  h.cons hop

theorem Free.prompt (h : Free log) : Prompt log op where
  clock hash context status older heq hknown hforeign :=
    absurd hforeign (h [] hash context status older heq hknown)
  release now hash context status older heq hknown hforeign :=
    absurd hforeign (h [⟨.clockNow, now⟩] hash context status older heq hknown)
  noStart newer hash context status older heq hknown hforeign :=
    absurd hforeign (h newer hash context status older heq hknown)

/-- Only an answer to a status question can end the freedom of a program. -/
theorem Free.cons {call : HostCall} (h : Free log)
    (hcall : ∀ hash context status, call = statusCall hash context status → status ≠ .unknown →
      ¬ Foreign log hash) : Free (call :: log) := by
  intro newer hash context status older heq hknown
  cases newer with
  | nil =>
    obtain ⟨rfl, rfl⟩ := List.cons.inj heq
    exact hcall hash context status rfl hknown
  | cons first rest => exact h rest hash context status older (List.cons.inj heq).2 hknown

theorem Free.cons_noStatus {call : HostCall} (h : Free log) (hcall : NoStatus call.op) :
    Free (call :: log) := by
  refine h.cons ?_
  rintro hash context status rfl
  exact absurd hcall statusCall_not_noStatus

theorem Free.spec (h : Free log) (hp : Spec (fun _ => NoStatus) log p Q) :
    Spec Prompt log p fun log' a => Q log' a ∧ Free log' := by
  induction p generalizing log with
  | done a => exact ⟨hp, h⟩
  | call op next ih => exact ⟨h.prompt, fun reply => ih reply (h.cons_noStatus hp.1) (hp.2 reply)⟩

theorem Unasked.spec (h : Unasked log) (hp : Spec (fun _ => NoStatus) log p Q) :
    Spec Prompt log p fun log' a => Q log' a ∧ Unasked log' := by
  induction p generalizing log with
  | done a => exact ⟨hp, h⟩
  | call op next ih =>
    exact ⟨h.free.prompt, fun reply => ih reply (h.cons hp.1) (hp.2 reply)⟩

/-- A plain program that has noticed nothing foreign is prompt. -/
theorem Free.ends (h : Free log) (hp : Spec (fun _ => NoStatus) log p Q) :
    Spec Prompt log p fun _ _ => True :=
  (h.spec hp).imp fun _ _ _ => trivial

/-- What was asked once is found at one place only. -/
theorem asked_once (newer known : HostLog) {older : HostLog} {call : HostCall} {hash : PaymentHash}
    {context : OperationContext} {status : PaymentStatus} (hunasked : Unasked log)
    (hknown : Unasked known)
    (h : known ++ call :: log = newer ++ statusCall hash context status :: older) :
    newer = known ∧ call = statusCall hash context status ∧ log = older := by
  rcases List.append_eq_append_iff.mp h with ⟨between, rfl, htail⟩ | ⟨between, rfl, htail⟩
  · cases between with
    | nil =>
      obtain ⟨rfl, rfl⟩ := List.cons.inj htail
      exact ⟨by simp, rfl, rfl⟩
    | cons first rest =>
      obtain ⟨rfl, rfl⟩ := List.cons.inj htail
      exact absurd (List.mem_append_right _ List.mem_cons_self) hunasked.not_mem
  · cases between with
    | nil =>
      obtain ⟨rfl, rfl⟩ := List.cons.inj htail
      exact ⟨by simp, rfl, rfl⟩
    | cons first rest =>
      obtain ⟨rfl, -⟩ := List.cons.inj htail
      exact absurd (List.mem_append_right _ List.mem_cons_self) hknown.not_mem

/-- Routine work after the release is prompt, whatever was noticed before. -/
theorem prompt_routine (known : HostLog) {call : HostCall} (hunasked : Unasked log)
    (hknown : Unasked known) (hlength : 2 ≤ known.length)
    (hp : Spec (fun _ => Routine) (known ++ call :: log) p Q) :
    Spec Prompt (known ++ call :: log) p fun _ _ => True := by
  induction p generalizing known with
  | done a => trivial
  | call op next ih =>
    refine ⟨⟨?_, ?_, ?_⟩, fun reply => ?_⟩
    · intro hash context status older heq
      obtain ⟨rfl, -⟩ := asked_once [] known hunasked hknown heq
      simp at hlength
    · intro now hash context status older heq
      obtain ⟨rfl, -⟩ := asked_once [⟨.clockNow, now⟩] known hunasked hknown heq
      simp at hlength
    · intro newer hash context status older heq hnoticed hforeign
      exact hp.1.noStart
    · have hmore : Unasked (⟨op, reply⟩ :: known) := hknown.cons hp.1.noStatus
      have hlonger : 2 ≤ (⟨op, reply⟩ :: known : HostLog).length := by
        rw [List.length_cons]
        omega
      exact ih reply (⟨op, reply⟩ :: known) hmore hlonger (hp.2 reply)

/-- A foreign status leads to the release of the reservation, and to nothing else. -/
theorem prompt_discardForeignStatus {context : OperationContext} {status : PaymentStatus}
    (hunasked : Unasked log) :
    Spec Prompt (statusCall attempt.paymentHash context status :: log)
      (discardForeignStatus x r attempt) fun _ _ => True := by
  refine ⟨⟨?_, ?_, ?_⟩, fun now => ⟨⟨?_, ?_, ?_⟩, fun released => ?_⟩⟩
  · intro hash context status older heq _ _
    rfl
  · intro now hash context status older heq
    obtain ⟨hcall, -⟩ := List.cons.inj heq
    cases hcall
  · exact fun newer hash context status older heq _ _ => nofun
  · intro hash context status older heq
    obtain ⟨hcall, -⟩ := List.cons.inj heq
    cases hcall
  · intro now' hash context' status' older heq _ _
    obtain ⟨hclock, hrest⟩ := List.cons.inj heq
    obtain ⟨hstatus, -⟩ := List.cons.inj hrest
    cases hclock
    cases hstatus
    rfl
  · exact fun newer hash context status older heq _ _ => nofun
  · have hclock : Unasked [⟨.clockNow, now⟩] := unasked_nil.cons fun _ _ h => by cases h
    have hknown : Unasked [⟨.ledger (.payment (.releaseUninitiatedPayment attempt.paymentHash now)),
        released⟩, ⟨.clockNow, now⟩] := hclock.cons fun _ _ h => by cases h
    cases released with
    | error _ => exact prompt_routine _ hunasked hknown (Nat.le_refl 2) routine_releaseToApplication
    | ok _ =>
      change Spec Prompt _ (paymentError x r .other .invalidRequest) _
      exact prompt_routine _ hunasked hknown (Nat.le_refl 2) routine_respondWithError

theorem Given.cons {call : HostCall} (h : Given log attempt) : Given (call :: log) attempt := by
  obtain ⟨prior, hprior, hreturned⟩ := h
  exact ⟨prior, List.mem_cons_of_mem _ hprior, hreturned⟩

/-- What a stage that asks for no status keeps until a status is asked for. -/
theorem Unasked.stage (h : Unasked log) (hgiven : Given log attempt)
    (hp : Spec (fun _ => NoStatus) log p Q) :
    Spec Prompt log p fun log' a => Q log' a ∧ Unasked log' ∧ Given log' attempt := by
  have hkept := (h.spec hp).keeps (P := fun log => Given log attempt)
    (fun _ _ _ _ hlog => hlog.cons) hgiven
  exact hkept.imp fun _ _ hpost => ⟨hpost.1.1, hpost.1.2, hpost.2⟩

theorem prompt_checkPaymentStatus (hunasked : Unasked log) (hgiven : Given log attempt) :
    Spec Prompt log (checkPaymentStatus x r invoice explicitAmount attempt) fun _ _ => True := by
  refine (hunasked.stage hgiven noStatus_deadlineContext).seq fun log' context hlog' => ?_
  obtain ⟨-, hunasked', hgiven'⟩ := hlog'
  cases context with
  | none => exact hunasked'.free.ends routine_retryClaim.plain
  | some context =>
    refine ⟨hunasked'.free.prompt, fun reply => ?_⟩
    cases reply with
    | error error =>
      have hfree : Free (⟨.wallet (.paymentStatus attempt.paymentHash) context, .error error⟩ ::
          log') := hunasked'.free.cons fun hash context' status heq => by cases heq
      refine ⟨hfree.prompt, fun _ => ?_⟩
      exact (hfree.cons_noStatus fun _ _ h => by cases h).ends routine_retryClaim.plain
    | ok status =>
      by_cases hunknown : status = .unknown
      · subst hunknown
        have hfree : Free (statusCall attempt.paymentHash context .unknown :: log') := by
          refine hunasked'.free.cons fun hash context' status heq hknown => ?_
          cases heq
          exact absurd rfl hknown
        exact hfree.ends plain_resumePayment
      · by_cases hdisclose : attempt.mayDiscloseSettlement = true
        · have hfree : Free (statusCall attempt.paymentHash context status :: log') := by
            refine hunasked'.free.cons fun hash context' status' heq _ hforeign => ?_
            cases heq
            rw [hforeign attempt hgiven' rfl] at hdisclose
            cases hdisclose
          have hnext : Spec Prompt (statusCall attempt.paymentHash context status :: log')
              (finishPaymentStatus x r invoice attempt.paymentHash status) fun _ _ => True :=
            hfree.ends plain_finishPaymentStatus
          cases status with
          | unknown => exact absurd rfl hunknown
          | _ =>
            dsimp only [Prog.bind]
            rw [if_pos hdisclose]
            exact hnext
        · have hnext : Spec Prompt (statusCall attempt.paymentHash context status :: log')
              (discardForeignStatus x r attempt) fun _ _ => True :=
            prompt_discardForeignStatus hunasked'
          cases status with
          | unknown => exact absurd rfl hunknown
          | _ =>
            dsimp only [Prog.bind]
            rw [if_neg hdisclose]
            exact hnext

theorem prompt_continuePayment (hunasked : Unasked log) (hgiven : Given log attempt) :
    Spec Prompt log (continuePayment x r invoice explicitAmount attempt) fun _ _ => True := by
  unfold continuePayment
  split
  · exact hunasked.free.ends routine_respondWithError.plain
  · split
    · refine (hunasked.spec plain_ensureClaimConnectionActive).seq fun log' active hactive => ?_
      cases active with
      | error disposition => trivial
      | ok _ => exact hactive.2.free.ends routine_respondWithError.plain
    · split
      · exact hunasked.free.ends plain_resumePayment
      · exact prompt_checkPaymentStatus hunasked hgiven

theorem prompt_reserveQuoted {payment : Nip47.PayInvoiceRequest} {hash : PaymentHash}
    {principal : Nat} (hunasked : Unasked log) :
    Spec Prompt log (reserveQuoted x r payment hash principal) fun _ _ => True := by
  refine ⟨hunasked.free.prompt, fun now => ?_⟩
  have hclock : Unasked (⟨.clockNow, now⟩ :: log) := hunasked.cons fun _ _ h => by cases h
  refine ⟨hclock.free.prompt, fun reservation => ?_⟩
  have hreserved : Unasked (⟨.ledger (.payment (.reservePayment r.validated.id hash r.connection
      principal now)), reservation⟩ :: ⟨.clockNow, now⟩ :: log) :=
    hclock.cons fun _ _ h => by cases h
  match reservation with
  | .ok (.reserved attempt) =>
    exact prompt_continuePayment hreserved
      ⟨_, List.mem_cons_self, _, rfl, by simp [LedgerCall.returned, PaymentReservationOutcome.attempt]⟩
  | .ok (.existing attempt) =>
    exact prompt_continuePayment hreserved
      ⟨_, List.mem_cons_self, _, rfl, by simp [LedgerCall.returned, PaymentReservationOutcome.attempt]⟩
  | .ok (.alreadyTracked attempt) => exact hreserved.free.ends routine_respondWithError.plain
  | .error .budgetExceeded =>
    refine ⟨hreserved.free.prompt, fun _ => ?_⟩
    exact (hreserved.cons fun _ _ h => by cases h).free.ends routine_respondWithError.plain
  | .error .connectionUnavailable => exact hreserved.free.ends routine_rejectClaim.plain
  | .error .invalidAmount => exact hreserved.free.ends routine_respondWithError.plain
  | .error .valueOutOfRange => exact hreserved.free.ends routine_respondWithError.plain
  | .error .reservationConflict => exact hreserved.free.ends routine_respondWithError.plain
  | .error .databaseUnavailable => exact hreserved.free.ends routine_releaseToApplication.plain
  | .error .corruptData => exact hreserved.free.ends routine_releaseToApplication.plain
  | .error .terminalStateConflict => exact hreserved.free.ends routine_releaseToApplication.plain

theorem prompt_quotePayment {payment : Nip47.PayInvoiceRequest} (hunasked : Unasked log) :
    Spec Prompt log (quotePayment x r payment) fun _ _ => True := by
  refine (hunasked.spec noStatus_deadlineContext).seq fun log' context hlog' => ?_
  cases context with
  | none => exact hlog'.2.free.ends routine_releaseToApplication.plain
  | some context =>
    refine ⟨hlog'.2.free.prompt, fun quote => ?_⟩
    have hquoted : Unasked (⟨.wallet (.quotePayment payment.invoice payment.amount) context, quote⟩ ::
        log') := hlog'.2.cons fun _ _ h => by cases h
    cases quote with
    | error error =>
      refine ⟨hquoted.free.prompt, fun _ => ?_⟩
      have hdiagnosed := (hquoted.after (.recordDiagnostic .paymentQuoteFailed) ()
        fun _ _ h => by cases h).free
      dsimp only [Prog.bind]
      split
      · exact hdiagnosed.ends routine_retryClaim.plain
      · split
        · exact hdiagnosed.ends routine_releaseToApplication.plain
        · exact hdiagnosed.ends routine_respondWithError.plain
    | ok quote =>
      dsimp only [Prog.bind]
      split
      · exact hquoted.free.ends routine_respondWithError.plain
      · split
        · exact hquoted.free.ends routine_respondWithError.plain
        · exact prompt_reserveQuoted hquoted

theorem prompt_executePayment {payment : Nip47.PayInvoiceRequest} (hunasked : Unasked log) :
    Spec Prompt log (executePayment x r payment) fun _ _ => True := by
  refine ⟨hunasked.free.prompt, fun existing => ?_⟩
  have hloaded : Unasked (⟨.ledger (.payment (.loadPaymentAttemptByEvent r.validated.id)),
      existing⟩ :: log) := hunasked.cons fun _ _ h => by cases h
  match existing with
  | .error _ => exact hloaded.free.ends routine_releaseToApplication.plain
  | .ok (some attempt) =>
    dsimp only [Prog.bind]
    split
    · exact hloaded.free.ends routine_respondWithError.plain
    · exact prompt_continuePayment hloaded
        ⟨_, List.mem_cons_self, _, rfl, by simp [LedgerCall.returned]⟩
  | .ok none =>
    dsimp only [Prog.bind]
    split
    · exact hloaded.free.ends routine_respondWithError.plain
    · exact prompt_quotePayment hloaded

theorem prompt_dispatchRequest {request : Nip47.Request} (hunasked : Unasked log) :
    Spec Prompt log (dispatchRequest x r request) fun _ _ => True := by
  unfold dispatchRequest
  split
  · exact hunasked.free.ends routine_respondWithError.plain
  · split
    · exact hunasked.free.ends routine_respondWithError.plain
    · split
      · refine ⟨hunasked.free.prompt, fun _ => ?_⟩
        have haccepted := hunasked.after (.recordDiagnostic .paymentRequestAccepted) ()
          fun _ _ h => by cases h
        dsimp only [Prog.bind]
        split
        · exact prompt_executePayment haccepted
        · exact haccepted.free.ends routine_rejectClaim.plain
      · split
        · exact hunasked.free.ends routine_respondWithError.plain
        · exact hunasked.free.ends plain_executeDirect

theorem prompt_executeClaimed (hunasked : Unasked log) :
    Spec Prompt log (executeClaimed x policy r) fun _ _ => True := by
  refine (hunasked.spec plain_acceptFreshness).seq fun log₁ fresh hlog₁ => ?_
  cases fresh with
  | error disposition => trivial
  | ok _ =>
    refine (hlog₁.2.spec plain_decryptRequest).seq fun log₂ request hlog₂ => ?_
    cases request with
    | error disposition => trivial
    | ok request => exact prompt_dispatchRequest hlog₂.2

theorem prompt_claimAndExecute {relay : SecureRelayUrl} {connection : ActiveConnection}
    {validated : ValidatedNwcEvent} (hunasked : Unasked log) :
    Spec Prompt log (claimAndExecute x policy relay connection validated) fun _ _ => True := by
  refine ⟨hunasked.free.prompt, fun remaining => ?_⟩
  have hremaining := hunasked.after .deadlineRemaining remaining fun _ _ h => by cases h
  dsimp only [Prog.bind]
  split
  · trivial
  · refine ⟨hremaining.free.prompt, fun now => ?_⟩
    have hclock := hremaining.after .clockNow now fun _ _ h => by cases h
    refine ⟨hclock.free.prompt, fun outcome => ?_⟩
    have hclaimed : Unasked (⟨.ledger (.claim (.claimEvent validated.id connection.id
        connection.revision now _)), outcome⟩ :: ⟨.clockNow, now⟩ ::
        ⟨.deadlineRemaining, remaining⟩ :: log) := hclock.cons fun _ _ h => by cases h
    match outcome with
    | .error _ => trivial
    | .ok (.inProgress _) => trivial
    | .ok (.terminal terminal) =>
      dsimp only [Prog.bind]
      cases terminal.responseEventJson with
      | none => trivial
      | some json => exact hclaimed.free.ends routine_republishTerminal.plain
    | .ok (.acquired lease) => exact prompt_executeClaimed hclaimed

/-- Every execution is prompt. -/
theorem prompt_execute : Spec Prompt [] (execute x policy wake) fun _ _ => True := by
  refine ⟨unasked_nil.free.prompt, fun cancelled => ?_⟩
  have hcancelled := unasked_nil.after .isCancelled cancelled fun _ _ h => by cases h
  cases cancelled with
  | true => trivial
  | false =>
    refine ⟨hcancelled.free.prompt, fun time => ?_⟩
    have hclock := hcancelled.after .clockNow time fun _ _ h => by cases h
    dsimp only [Prog.bind]
    split
    · trivial
    · rename_i relay _
      refine ⟨hclock.free.prompt, fun approved => ?_⟩
      have happroved : Unasked (⟨.ledger (.registry (.isRelayApprovedForWallet
          wake.walletServicePubkey relay time)), approved⟩ :: ⟨.clockNow, time⟩ ::
          ⟨.isCancelled, false⟩ :: []) := hclock.cons fun _ _ h => by cases h
      match approved with
      | .ok false => trivial
      | .error _ => trivial
      | .ok true =>
        refine (happroved.spec plain_obtainEvent).seq fun log₁ eventJson hlog₁ => ?_
        cases eventJson with
        | error disposition => trivial
        | ok eventJson =>
          refine (hlog₁.2.spec plain_bindConnection).seq fun log₂ bound hlog₂ => ?_
          cases bound with
          | error disposition => trivial
          | ok bound => exact prompt_claimAndExecute hlog₂.2

end Prompting

/-- Nothing foreign was noticed just now, so nothing is owed before the next call. -/
structure Clear (log : HostLog) : Prop where
  clock : ∀ hash context status older, log = statusCall hash context status :: older →
    status ≠ .unknown → ¬ Foreign older hash
  release : ∀ now hash context status older,
    log = ⟨.clockNow, now⟩ :: statusCall hash context status :: older → status ≠ .unknown →
      ¬ Foreign older hash

section Reconciling

variable {log : HostLog} {op : HostOp} {attempt : PaymentAttempt}

theorem Clear.prompt (h : Clear log) (hop : NoStart op) : Prompt log op where
  clock hash context status older heq hknown hforeign :=
    absurd hforeign (h.clock hash context status older heq hknown)
  release now hash context status older heq hknown hforeign :=
    absurd hforeign (h.release now hash context status older heq hknown)
  noStart _ _ _ _ _ _ _ _ := hop

theorem Free.clear (h : Free log) : Clear log where
  clock := h []
  release now := h [⟨.clockNow, now⟩]

theorem Clear.after (h : Clear log) (op : HostOp) (reply : op.Reply) (hop : NoStatus op) :
    Clear (⟨op, reply⟩ :: log) where
  clock hash context status older heq := by
    obtain ⟨hcall, -⟩ := List.cons.inj heq
    cases hcall
    exact absurd rfl (hop hash context)
  release now hash context status older heq := h.clock hash context status older (List.cons.inj heq).2

theorem clear_deadlineContext (h : Clear log) :
    Spec Prompt log deadlineContext fun log' _ => Clear log' ∧ log ⊆ log' := by
  refine ⟨h.prompt nofun, fun cancelled => ?_⟩
  have hcancelled := h.after .isCancelled cancelled fun _ _ h => by cases h
  cases cancelled with
  | true => exact ⟨hcancelled, List.subset_cons_self _ _⟩
  | false =>
    refine ⟨hcancelled.prompt nofun, fun remaining => ⟨?_, ?_⟩⟩
    · exact hcancelled.after .deadlineRemaining remaining fun _ _ h => by cases h
    · exact List.Subset.trans (List.subset_cons_self _ _) (List.subset_cons_self _ _)

theorem Unresolved.given (h : Unresolved log attempt) : Given log attempt := by
  obtain ⟨limit, attempts, more, hanswered, hmem⟩ := h
  exact ⟨_, hanswered, _, rfl, by simpa [LedgerCall.returned] using hmem⟩

/-- The pass releases a reservation whose status is foreign and accounts for the others. -/
theorem prompt_applyStatus {report : PaymentReconciliationReport} {status : PaymentStatus}
    {context : OperationContext} (hgiven : Given log attempt) :
    Spec Prompt (statusCall attempt.paymentHash context status :: log)
      (applyStatus attempt report status) fun log' _ => Clear log' ∧ log ⊆ log' := by
  have hread : log ⊆ statusCall attempt.paymentHash context status :: log :=
    List.subset_cons_self _ _
  have hmarked : ∀ (now : UnixTimestamp) (marked : HostCall),
      log ⊆ marked :: ⟨.clockNow, now⟩ :: statusCall attempt.paymentHash context status :: log :=
    fun now marked => fun call hcall => by simp [hcall]
  unfold applyStatus
  split
  · refine ⟨⟨?_, ?_, ?_⟩, fun now => ⟨⟨?_, ?_, ?_⟩, fun released => ⟨⟨?_, ?_⟩, hmarked now _⟩⟩⟩
    · exact fun _ _ _ _ _ _ _ => rfl
    · intro now hash context status older heq
      obtain ⟨hcall, -⟩ := List.cons.inj heq
      cases hcall
    · exact fun newer hash context status older heq _ _ => nofun
    · intro hash context status older heq
      obtain ⟨hcall, -⟩ := List.cons.inj heq
      cases hcall
    · intro now' hash context' status' older heq _ _
      obtain ⟨hclock, hrest⟩ := List.cons.inj heq
      obtain ⟨hstatus, -⟩ := List.cons.inj hrest
      cases hclock
      cases hstatus
      rfl
    · exact fun newer hash context status older heq _ _ => nofun
    · intro hash context status older heq
      obtain ⟨hcall, -⟩ := List.cons.inj heq
      cases hcall
    · intro now' hash context status older heq
      obtain ⟨hcall, -⟩ := List.cons.inj heq
      cases hcall
  · rename_i hown
    have hnoticed : Clear (statusCall attempt.paymentHash context status :: log) := by
      constructor
      · intro hash context' status' older heq hknown hforeign
        cases heq
        exact hown ⟨hknown, hforeign attempt hgiven rfl⟩
      · intro now hash context' status' older heq
        obtain ⟨hcall, -⟩ := List.cons.inj heq
        cases hcall
    have hclock := fun now => hnoticed.after .clockNow now fun _ _ h => by cases h
    split
    · exact ⟨hnoticed, hread⟩
    · split
      · refine ⟨hnoticed.prompt nofun, fun now => ⟨(hclock now).prompt nofun, fun marked => ?_⟩⟩
        exact ⟨(hclock now).after _ marked (fun _ _ h => by cases h), hmarked now _⟩
      · exact ⟨hnoticed, hread⟩
    · refine ⟨hnoticed.prompt nofun, fun now => ⟨(hclock now).prompt nofun, fun marked => ?_⟩⟩
      exact ⟨(hclock now).after _ marked (fun _ _ h => by cases h), hmarked now _⟩
    · refine ⟨hnoticed.prompt nofun, fun now => ⟨(hclock now).prompt nofun, fun marked => ?_⟩⟩
      exact ⟨(hclock now).after _ marked (fun _ _ h => by cases h), hmarked now _⟩

theorem prompt_reconcileAttempts {attempts : List PaymentAttempt} {pass : ReconciliationPass}
    (hclear : Clear log) (h : ∀ attempt ∈ attempts, Unresolved log attempt) :
    Spec Prompt log (reconcileAttempts attempts pass) fun _ _ => True := by
  induction attempts generalizing log pass with
  | nil => trivial
  | cons attempt rest ih =>
    have hrest : ∀ log', log ⊆ log' → ∀ other ∈ rest, Unresolved log' other :=
      fun log' hsub other hother => (h other (List.mem_cons_of_mem _ hother)).mono hsub
    unfold reconcileAttempts
    split
    · exact ih hclear (hrest log (List.Subset.refl log))
    · refine (clear_deadlineContext hclear).seq fun log₁ context hlog₁ => ?_
      obtain ⟨hclear₁, hsub₁⟩ := hlog₁
      cases context with
      | none => trivial
      | some context =>
        refine ⟨hclear₁.prompt (fun o c heq => by cases heq), fun status => ?_⟩
        cases status with
        | error error =>
          refine ih ⟨?_, ?_⟩ (hrest _ (List.Subset.trans hsub₁ (List.subset_cons_self _ _)))
          · intro hash context' status older heq
            obtain ⟨hcall, -⟩ := List.cons.inj heq
            cases hcall
          · intro now hash context' status older heq
            obtain ⟨hcall, -⟩ := List.cons.inj heq
            cases hcall
        | ok status =>
          have hgiven := ((h attempt List.mem_cons_self).mono hsub₁).given
          refine (prompt_applyStatus hgiven).seq fun log₃ updated hlog₃ => ?_
          cases updated with
          | error error => trivial
          | ok report => exact ih hlog₃.1 (hrest _ (List.Subset.trans hsub₁ hlog₃.2))

theorem prompt_reconcile {maxAttempts : Nat} :
    Spec Prompt [] (reconcile maxAttempts) fun _ _ => True := by
  unfold reconcile
  split
  · trivial
  · refine (clear_deadlineContext unasked_nil.free.clear).seq fun log' context hlog' => ?_
    cases context with
    | none => trivial
    | some context =>
      refine ⟨hlog'.1.prompt nofun, fun loaded => ?_⟩
      have hloaded := hlog'.1.after (.ledger (.payment (.loadUnresolvedPaymentAttempts maxAttempts)))
        loaded fun _ _ h => by cases h
      match loaded with
      | .error error => trivial
      | .ok (attempts, more) =>
        refine (prompt_reconcileAttempts hloaded fun attempt hattempt =>
          ⟨maxAttempts, attempts, more, List.mem_cons_self, hattempt⟩).seq fun _ pass _ => ?_
        cases pass <;> trivial

theorem noStatus_migrateLegacyBatch {imports : List LegacyConnectionImport}
    {result : LegacyMigrationResult} :
    Spec (fun _ => NoStatus) log (migrateLegacyBatch imports result) fun _ _ => True := by
  induction imports generalizing log result with
  | nil => trivial
  | cons legacy rest ih =>
    refine ⟨nofun, fun stored => ?_⟩
    match stored with
    | .error error => trivial
    | .ok none =>
      refine ⟨nofun, fun now => ⟨nofun, fun imported => ?_⟩⟩
      cases imported with
      | error error => trivial
      | ok active => exact ih
    | .ok (some (.active active)) =>
      dsimp only [Prog.bind]
      split
      · exact ih
      · trivial
    | .ok (some (.tombstoned tombstone)) => exact ih

/-- Every program of the system is prompt. -/
theorem Job.prompt (x : Crates) (job : Job) : Spec Prompt [] (job.program x) fun _ _ => True := by
  cases job with
  | wake policy input => exact prompt_execute.seq fun _ _ _ => trivial
  | reconcile maxAttempts => exact prompt_reconcile.seq fun _ _ _ => trivial
  | migrate imports =>
    exact (unasked_nil.free.ends noStatus_migrateLegacyBatch).seq fun _ _ _ => trivial

end Reconciling

end NwcMobile
