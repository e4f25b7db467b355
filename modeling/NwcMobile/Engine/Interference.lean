import NwcMobile.Engine.Footprint
import NwcMobile.Engine.Initiation
import NwcMobile.Ledger.Progress

/-!
Reconciler passes beside executions and other passes. A pass applies answers of the
wallet to attempts it has loaded some time ago. What it loads as started stays
started, and a settlement it is told of agrees with every other settlement of that
payment; only a release or a failure can meet an attempt that has moved on, and only
a clock reading that is earlier than the last change can come too late.
-/

namespace NwcMobile

open Program Prog Concurrent Transition Fallible

/-- The wallet's answer about the payment of a hash: the status it was asked for, or the
outcome of a start by a program that was handed an attempt of the hash. -/
inductive Reports (log : HostLog) (hash : PaymentHash) : HostCall → PaymentStatus → Prop
  | asked {context : OperationContext} {status : PaymentStatus} :
      Reports log hash ⟨.wallet (.paymentStatus hash) context, .ok status⟩ status
  | started {start : PayInvoiceRequest} {context : OperationContext} {status : PaymentStatus}
      {attempt : PaymentAttempt} (given : Given log attempt) (of_hash : attempt.paymentHash = hash) :
      Reports log hash ⟨.wallet (.startPayment start) context, .ok status⟩ status

/-- The program was told this status. -/
def Told (log : HostLog) (hash : PaymentHash) (status : PaymentStatus) : Prop :=
  ∃ newer call older, log = newer ++ call :: older ∧ Reports older hash call status

/-- A program settles an attempt only for amounts it was told. -/
def Attested (log : HostLog) : HostOp → Prop
  | .ledger (.payment (.markPaymentSucceeded hash amount fee _)) =>
      ∃ preimage, Told log hash (.succeeded preimage amount fee)
  | _ => True

abbrev Attests {α : Type} (log : HostLog) (p : HostProg α) : Prop :=
  Spec Attested log p fun _ _ => True

section Executions

variable {x : Crates} {policy : WakePolicy} {wake : WakeInput} {log : HostLog} {op : HostOp}
  {r : ClaimedRequest} {attempt : PaymentAttempt} {invoice : String} {hash : PaymentHash}
  {explicitAmount : Option AmountMsat} {status : PaymentStatus} {K : Activity → Bool} {α : Type}
  {p : HostProg α} {payment : Nip47.PayInvoiceRequest}

theorem Told.cons {call : HostCall} (h : Told log hash status) : Told (call :: log) hash status := by
  obtain ⟨newer, report, older, rfl, hreport⟩ := h
  exact ⟨call :: newer, report, older, rfl, hreport⟩

theorem attested_of_activity (h : op.activity ≠ .accounting) : Attested log op := by
  unfold Attested
  split
  · exact absurd rfl h
  · trivial

theorem Within.attests (h : Within K log p) (hK : K .accounting = false) : Attests log p := by
  apply h.guard_imp
  intro log' op hop
  apply attested_of_activity
  intro hactivity
  rw [hactivity, hK] at hop
  cases hop

/-- Work of other kinds leaves a program what it was handed. -/
theorem Given.across (h : Given log attempt) (hp : Within K log p) (hK : K .accounting = false) :
    Spec Attested log p fun log' _ => Given log' attempt :=
  ((hp.attests hK).keeps (fun _ _ _ _ hgiven => hgiven.cons) h).imp fun _ _ hpost => hpost.2

theorem attests_keepPending : Attests log (keepPending r hash) := by
  refine ⟨trivial, fun now => ⟨trivial, fun marked => ?_⟩⟩
  cases marked with
  | error error => exact within_releaseToApplication.attests rfl
  | ok attempt => exact within_retryClaim.attests rfl

theorem attests_finishSucceeded {preimage : PaymentPreimage} {amount fee : AmountMsat}
    (h : Told log hash (.succeeded preimage amount fee)) :
    Attests log (finishSucceeded x r invoice hash preimage amount fee) := by
  refine ⟨trivial, fun _ => ⟨trivial, fun settledAt => ⟨⟨preimage, h.cons.cons⟩, fun marked => ?_⟩⟩⟩
  cases marked with
  | error error => exact within_releaseToApplication.attests rfl
  | ok attempt =>
    refine ⟨trivial, fun recorded => ?_⟩
    cases recorded with
    | error error => exact within_releaseToApplication.attests rfl
    | ok _ =>
      refine (within_ensureClaimConnectionActive.attests rfl).seq fun log' active _ => ?_
      cases active with
      | error disposition => trivial
      | ok _ => exact within_commitAndPublish.attests rfl

theorem attests_finishPaymentStatus
    (h : ∀ preimage amount fee, status = .succeeded preimage amount fee → Told log hash status) :
    Attests log (finishPaymentStatus x r invoice hash status) := by
  cases status with
  | unknown => exact ⟨trivial, fun _ => attests_keepPending⟩
  | pending => exact ⟨trivial, fun _ => attests_keepPending⟩
  | succeeded preimage amount fee => exact attests_finishSucceeded (h preimage amount fee rfl)
  | failed reason =>
    refine ⟨trivial, fun _ => ⟨trivial, fun now => ⟨trivial, fun marked => ?_⟩⟩⟩
    cases marked with
    | error error => exact within_releaseToApplication.attests rfl
    | ok attempt => exact within_respondWithError.attests rfl

theorem attests_startPayment (h : Given log attempt) :
    Attests log (startPayment x r invoice explicitAmount attempt) := by
  refine (h.across (within_deadlineContext (K := responding) rfl) rfl).seq fun log' context hgiven => ?_
  cases context with
  | none => exact within_retryClaim.attests rfl
  | some context =>
    refine ⟨trivial, fun started => ?_⟩
    cases started with
    | ok status =>
      apply attests_finishPaymentStatus
      intro _ _ _ _
      exact ⟨[], _, log', rfl, .started hgiven rfl⟩
    | error error =>
      dsimp only [Prog.bind]
      split
      · exact attests_finishPaymentStatus nofun
      · exact ⟨trivial, fun _ => attests_keepPending⟩

theorem attests_initiatePayment (h : Given log attempt) :
    Attests log (initiatePayment x r invoice explicitAmount attempt) := by
  unfold initiatePayment
  split
  · exact attests_startPayment h
  · refine (h.across (within_deadlineContext (K := responding) rfl) rfl).seq
      fun log' context hgiven => ?_
    cases context with
    | none => exact within_retryClaim.attests rfl
    | some context =>
      refine ⟨trivial, fun now => ⟨trivial, fun marked => ?_⟩⟩
      cases marked with
      | error error => exact within_releaseToApplication.attests rfl
      | ok marked => exact attests_startPayment hgiven.cons.cons

theorem attests_resumePayment (h : Given log attempt) :
    Attests log (resumePayment x r invoice explicitAmount attempt) := by
  refine (h.across within_ensureClaimConnectionActive rfl).seq fun log' active hgiven => ?_
  cases active with
  | error disposition => trivial
  | ok _ =>
    dsimp only
    split
    · exact within_retryClaim.attests rfl
    · exact attests_initiatePayment hgiven

theorem attests_discardForeignStatus : Attests log (discardForeignStatus x r attempt) := by
  refine ⟨trivial, fun now => ⟨trivial, fun released => ?_⟩⟩
  cases released with
  | error error => exact within_releaseToApplication.attests rfl
  | ok _ => exact within_respondWithError.attests rfl

theorem attests_checkPaymentStatus (h : Given log attempt) :
    Attests log (checkPaymentStatus x r invoice explicitAmount attempt) := by
  refine (h.across (within_deadlineContext (K := responding) rfl) rfl).seq fun log' context hgiven => ?_
  cases context with
  | none => exact within_retryClaim.attests rfl
  | some context =>
    refine ⟨trivial, fun status => ?_⟩
    have haccount : ∀ known, status = .ok known →
        Attests (⟨.wallet (.paymentStatus attempt.paymentHash) context, status⟩ :: log')
          (if attempt.mayDiscloseSettlement then
            finishPaymentStatus x r invoice attempt.paymentHash known
          else discardForeignStatus x r attempt) := by
      rintro known rfl
      split
      · apply attests_finishPaymentStatus
        intro _ _ _ _
        exact ⟨[], _, log', rfl, .asked⟩
      · exact attests_discardForeignStatus
    match status with
    | .error error => exact ⟨trivial, fun _ => within_retryClaim.attests rfl⟩
    | .ok .unknown => exact attests_resumePayment hgiven.cons
    | .ok .pending => exact haccount _ rfl
    | .ok (.succeeded _ _ _) => exact haccount _ rfl
    | .ok (.failed _) => exact haccount _ rfl

theorem attests_continuePayment (h : Given log attempt) :
    Attests log (continuePayment x r invoice explicitAmount attempt) := by
  unfold continuePayment
  split
  · exact within_respondWithError.attests rfl
  · split
    · refine (within_ensureClaimConnectionActive.attests rfl).seq fun log' active _ => ?_
      cases active with
      | error disposition => trivial
      | ok _ => exact within_respondWithError.attests rfl
    · split
      · exact attests_resumePayment h
      · exact attests_checkPaymentStatus h

theorem attests_reserveQuoted {principalSat : Nat} :
    Attests log (reserveQuoted x r payment hash principalSat) := by
  refine ⟨trivial, fun now => ⟨trivial, fun reservation => ?_⟩⟩
  match reservation with
  | .ok (.reserved attempt) =>
    exact attests_continuePayment ⟨_, List.mem_cons_self, _, rfl, List.mem_singleton_self attempt⟩
  | .ok (.existing attempt) =>
    exact attests_continuePayment ⟨_, List.mem_cons_self, _, rfl, List.mem_singleton_self attempt⟩
  | .ok (.alreadyTracked _) => exact within_respondWithError.attests rfl
  | .error .budgetExceeded => exact ⟨trivial, fun _ => within_respondWithError.attests rfl⟩
  | .error .connectionUnavailable => exact within_rejectClaim.attests rfl
  | .error .invalidAmount => exact within_respondWithError.attests rfl
  | .error .valueOutOfRange => exact within_respondWithError.attests rfl
  | .error .reservationConflict => exact within_respondWithError.attests rfl
  | .error .databaseUnavailable => exact within_releaseToApplication.attests rfl
  | .error .corruptData => exact within_releaseToApplication.attests rfl
  | .error .terminalStateConflict => exact within_releaseToApplication.attests rfl

theorem attests_quotePayment : Attests log (quotePayment x r payment) := by
  refine ((within_deadlineContext (K := responding) rfl).attests rfl).seq fun log' context _ => ?_
  cases context with
  | none => exact within_releaseToApplication.attests rfl
  | some context =>
    refine ⟨trivial, fun quote => ?_⟩
    cases quote with
    | error error =>
      refine ⟨trivial, fun _ => ?_⟩
      dsimp only [Prog.bind]
      split
      · exact within_retryClaim.attests rfl
      · split
        · exact within_releaseToApplication.attests rfl
        · exact within_respondWithError.attests rfl
    | ok quote =>
      dsimp only [Prog.bind]
      split
      · exact within_respondWithError.attests rfl
      · split
        · exact within_respondWithError.attests rfl
        · exact attests_reserveQuoted

theorem attests_executePayment : Attests log (executePayment x r payment) := by
  refine ⟨trivial, fun existing => ?_⟩
  match existing with
  | .error error => exact within_releaseToApplication.attests rfl
  | .ok (some attempt) =>
    dsimp only [Prog.bind]
    split
    · exact within_respondWithError.attests rfl
    · exact attests_continuePayment ⟨_, List.mem_cons_self, _, rfl, List.mem_singleton_self attempt⟩
  | .ok none =>
    dsimp only [Prog.bind]
    split
    · exact within_respondWithError.attests rfl
    · exact attests_quotePayment

theorem attests_execute : Attests log (execute x policy wake) := by
  apply lift_execute
  · intro log op hop
    apply attested_of_activity
    intro hactivity
    rw [hactivity] at hop
    cases hop
  · exact fun log r request method => within_executeDirect.attests rfl
  · exact fun log r payment => attests_executePayment

end Executions

/-- One of the pass's accounting calls failed with this error. -/
def Refused (log : HostLog) (e : PaymentAccountingError) : Prop :=
  ∃ op : PaymentOp, ⟨.ledger (.payment op), .error e⟩ ∈ log

/-- The pass asked for the status of the attempt, unless only a replay may resume it. -/
def Visited (log : HostLog) (attempt : PaymentAttempt) : Prop :=
  (attempt.state = .reserved ∧ attempt.wasInitiated = true) ∨
    ∃ context reply, ⟨.wallet (.paymentStatus attempt.paymentHash) context, reply⟩ ∈ log

/-- The accounting calls of a pass; it never reaches its branch that marks an attempt as pending. -/
def PaymentOp.OfPass : PaymentOp → Prop
  | .loadUnresolvedPaymentAttempts limit => limit ≤ maxPaymentReconciliationBatch
  | .releaseUninitiatedPayment .. | .markPaymentFailed .. | .markPaymentSucceeded .. => True
  | _ => False

/-- What a pass asks of the ledger: it settles for amounts it was told. -/
def ReconcilerGuard (log : HostLog) (op : HostOp) : Prop :=
  Attested log op ∧ ∀ payment, op = .ledger (.payment payment) → payment.OfPass

section Passes

variable {log log' : HostLog} {attempt : PaymentAttempt} {attempts : List PaymentAttempt}
  {e : PaymentAccountingError}

theorem reconcilerGuard_deadlineContext :
    Spec ReconcilerGuard log deadlineContext fun log' _ => log ⊆ log' := by
  refine ⟨⟨trivial, nofun⟩, fun cancelled => ?_⟩
  cases cancelled with
  | true => exact List.subset_cons_self _ _
  | false =>
    exact ⟨⟨trivial, nofun⟩, fun remaining =>
      List.Subset.trans (List.subset_cons_self _ _) (List.subset_cons_self _ _)⟩

/-- One accounting call at the time the clock shows. -/
theorem refused_of_account {op : UnixTimestamp → PaymentOp}
    {count : ∀ now, (op now).Value → PaymentReconciliationReport}
    (hguard : ∀ now, ReconcilerGuard (⟨.clockNow, now⟩ :: log) (.ledger (.payment (op now)))) :
    Spec ReconcilerGuard log (do
        let now ← clockNow
        let marked ← payments (op now)
        pure (marked.map (count now)))
      fun log' updated => log ⊆ log' ∧ ∀ e, updated = .error e → Refused log' e := by
  refine ⟨⟨trivial, nofun⟩, fun now => ⟨hguard now, fun marked => ⟨?_, ?_⟩⟩⟩
  · exact List.Subset.trans (List.subset_cons_self _ _) (List.subset_cons_self _ _)
  · intro e herror
    cases marked with
    | ok value => cases herror
    | error e' =>
      cases herror
      exact ⟨op now, List.mem_cons_self⟩

theorem refused_applyStatus {report : PaymentReconciliationReport} {status : PaymentStatus}
    (h : Told log attempt.paymentHash status) :
    Spec ReconcilerGuard log (applyStatus attempt report status) fun log' updated =>
      log ⊆ log' ∧ ∀ e, updated = .error e → Refused log' e := by
  unfold applyStatus
  split
  · exact refused_of_account fun now => ⟨trivial, fun _ heq => by cases heq; trivial⟩
  · rename_i hown
    cases status with
    | unknown => exact ⟨List.Subset.refl log, fun e herror => by cases herror⟩
    | pending =>
      dsimp only
      split
      · -- An attempt whose settlement may be disclosed is no longer reserved.
        rename_i hreserved
        apply absurd _ hown
        simp [PaymentAttempt.mayDiscloseSettlement, hreserved]
      · exact ⟨List.Subset.refl log, fun e herror => by cases herror⟩
    | succeeded preimage amount fee =>
      exact refused_of_account fun now => ⟨⟨preimage, h.cons⟩, fun _ heq => by cases heq; trivial⟩
    | failed reason =>
      exact refused_of_account fun now => ⟨trivial, fun _ heq => by cases heq; trivial⟩

theorem refused_reconcileAttempts {pass : ReconciliationPass} :
    Spec ReconcilerGuard log (reconcileAttempts attempts pass) fun log' result =>
      log ⊆ log' ∧ (∀ e, result = .error e → Refused log' e) ∧
        ∀ done, result = .ok done → done.report.interrupted = true ∨
          ∀ attempt ∈ attempts, Visited log' attempt := by
  induction attempts generalizing log pass with
  | nil =>
    refine ⟨List.Subset.refl log, (fun e herror => by cases herror), fun done _ => Or.inr ?_⟩
    exact List.forall_mem_nil _
  | cons attempt rest ih =>
    have hvisit : ∀ {log₁ pass'}, log ⊆ log₁ → (∀ log', log₁ ⊆ log' → Visited log' attempt) →
        Spec ReconcilerGuard log₁ (reconcileAttempts rest pass') fun log' result =>
          log ⊆ log' ∧ (∀ e, result = .error e → Refused log' e) ∧
            ∀ done, result = .ok done → done.report.interrupted = true ∨
              ∀ other ∈ attempt :: rest, Visited log' other := by
      intro log₁ pass' hsub hhead
      apply ih.imp
      rintro log' result ⟨hsub', hrefused, hvisited⟩
      refine ⟨List.Subset.trans hsub hsub', hrefused, fun done hdone => ?_⟩
      rcases hvisited done hdone with hinterrupted | hrest
      · exact Or.inl hinterrupted
      · exact Or.inr (List.forall_mem_cons.mpr ⟨hhead log' hsub', hrest⟩)
    unfold reconcileAttempts
    split
    · rename_i hresumable
      exact hvisit (List.Subset.refl log) fun log' _ => Or.inl hresumable
    · refine reconcilerGuard_deadlineContext.seq fun log₁ context hsub₁ => ?_
      cases context with
      | none =>
        refine ⟨hsub₁, (fun e herror => by cases herror), fun done hdone => Or.inl ?_⟩
        cases hdone
        rfl
      | some context =>
        refine ⟨⟨trivial, fun _ heq => by cases heq⟩, fun status => ?_⟩
        have hsub₂ := List.Subset.trans hsub₁
          (List.subset_cons_self ⟨.wallet (.paymentStatus attempt.paymentHash) context, status⟩ log₁)
        have hasked : ∀ log', (⟨.wallet (.paymentStatus attempt.paymentHash) context, status⟩ ::
            log₁ : HostLog) ⊆ log' → Visited log' attempt :=
          fun log' hsub => Or.inr ⟨context, status, hsub List.mem_cons_self⟩
        cases status with
        | error error => exact hvisit hsub₂ hasked
        | ok status =>
          refine (refused_applyStatus ⟨[], _, log₁, rfl, .asked⟩).seq fun log₃ updated hpost => ?_
          obtain ⟨hsub₃, hrefused⟩ := hpost
          cases updated with
          | error error =>
            refine ⟨List.Subset.trans hsub₂ hsub₃, ?_, fun done hdone => by cases hdone⟩
            rintro e herror
            cases herror
            exact hrefused error rfl
          | ok report =>
            exact hvisit (List.Subset.trans hsub₂ hsub₃) fun log' hsub =>
              hasked log' (List.Subset.trans hsub₃ hsub)

/-- How a pass ends: with an accounting error of its own call, interrupted, or after a
visit to every attempt of its batch. -/
def PassEnds (maxAttempts : Nat) (log : HostLog)
    (result : Except PaymentReconciliationError PaymentReconciliationReport) : Prop :=
  (∀ e, result = .error (.accounting e) → Refused log e) ∧
    (result = .error .invalidBatchSize →
      maxAttempts = 0 ∨ maxPaymentReconciliationBatch < maxAttempts) ∧
    ∀ report, result = .ok report → report.interrupted = true ∨ ∃ attempts more,
      Answered log (.ledger (.payment (.loadUnresolvedPaymentAttempts maxAttempts)))
          (.ok (attempts, more)) ∧ ∀ attempt ∈ attempts, Visited log attempt

theorem refused_reconcile {maxAttempts : Nat} :
    Spec ReconcilerGuard log (reconcile maxAttempts) (PassEnds maxAttempts) := by
  unfold reconcile
  split
  · rename_i hsize
    exact ⟨nofun, fun _ => hsize, nofun⟩
  · rename_i hsize
    refine reconcilerGuard_deadlineContext.seq fun log₁ context _ => ?_
    cases context with
    | none =>
      refine ⟨nofun, nofun, fun report hreport => Or.inl ?_⟩
      cases hreport
      rfl
    | some context =>
      refine ⟨⟨trivial, fun payment heq => ?_⟩, fun loaded => ?_⟩
      · cases heq
        exact Nat.le_of_not_lt (not_or.mp hsize).2
      · match loaded with
        | .error error =>
          refine ⟨fun e herror => ?_, nofun, nofun⟩
          cases herror
          exact ⟨_, List.mem_cons_self⟩
        | .ok (attempts, more) =>
          refine refused_reconcileAttempts.seq fun log₂ pass hpost => ?_
          obtain ⟨hsub, hrefused, hvisited⟩ := hpost
          cases pass with
          | error error =>
            refine ⟨fun e herror => ?_, nofun, nofun⟩
            cases herror
            exact hrefused error rfl
          | ok pass =>
            refine ⟨nofun, nofun, fun report hreport => ?_⟩
            cases hreport
            rcases hvisited pass rfl with hinterrupted | hall
            · exact Or.inl hinterrupted
            · exact Or.inr ⟨attempts, more, hsub List.mem_cons_self, hall⟩

end Passes

/-- The guard of each job. -/
def Job.Attested : Job → HostLog → HostOp → Prop
  | .reconcile _ => ReconcilerGuard
  | .wake .. | .migrate _ => NwcMobile.Attested

/-- How each job ends. -/
def Job.Ends : Job → HostLog → JobResult → Prop
  | .reconcile maxAttempts, log, .reconciled result => PassEnds maxAttempts log result
  | _, _, _ => True

theorem Job.attested (x : Crates) (job : Job) : Spec job.Attested [] (job.program x) job.Ends := by
  cases job with
  | wake policy input => exact attests_execute.seq fun _ _ _ => trivial
  | reconcile maxAttempts => exact refused_reconcile.seq fun _ _ hends => hends
  | migrate imports => exact (within_migrateLegacyBatch.attests rfl).seq fun _ _ _ => trivial

/-- The answer goes back on an earlier one: a pending payment is unknown again, or a settled
one is not settled for these amounts. -/
def PaymentStatus.goesBackTo : PaymentStatus → PaymentStatus → Bool
  | .pending, .unknown => true
  | .succeeded _ amount fee, .succeeded _ amount' fee' => !(amount' == amount && fee' == fee)
  | .succeeded .., _ => true
  | _, _ => false

/-- The wallet's answers about one payment never go back from pending or settled. -/
def SteadyWallet (history : SystemHistory) : Prop :=
  ∀ recent second between first past i j call call' hash status status',
    history = recent ++ second :: (between ++ first :: past) →
    first.label = .act i call → Reports (actsOf i past) hash call status →
    second.label = .act j call' → Reports (actsOf j (between ++ first :: past)) hash call' status' →
      status.goesBackTo status' = false

/-- The wallet reported this status of the payment. -/
def WalletReported (history : SystemHistory) (hash : PaymentHash) (status : PaymentStatus) : Prop :=
  ∃ recent event past i call, history = recent ++ event :: past ∧ event.label = .act i call ∧
    Reports (actsOf i past) hash call status

/-- The step is an accounting call of a pass. -/
def ByPass (event : Event SystemWorld SystemLabel) (op : PaymentOp) : Prop :=
  ∃ i reply t maxAttempts, event.label = .act i ⟨.ledger (.payment op), reply⟩ ∧
    event.before.threads[i]? = some t ∧ t.job = .reconcile maxAttempts

/-- The attempt and the time of a call that accounts for it or releases it. -/
def PaymentOp.dated : PaymentOp → Option (PaymentHash × UnixTimestamp)
  | .releaseUninitiatedPayment hash now => some (hash, now)
  | .markPaymentPending hash now => some (hash, now)
  | .markPaymentFailed hash now => some (hash, now)
  | .markPaymentSucceeded hash _ _ now => some (hash, now)
  | _ => none

/-- A pass that releases an attempt finds it still reserved and uninitiated, one that marks an
attempt as failed finds it not settled, and the time it has read is no earlier than the last
change of the attempt. -/
structure InPlace (event : Event SystemWorld SystemLabel) : Prop where
  release : ∀ hash now, ByPass event (.releaseUninitiatedPayment hash now) →
    event.before.shared.stage hash = .reserved
  failure : ∀ hash now, ByPass event (.markPaymentFailed hash now) →
    event.before.shared.stage hash ≠ .succeeded
  current : ∀ op hash now, ByPass event op → op.dated = some (hash, now) →
    ∀ row ∈ event.before.shared.paymentAttempts, row.paymentHash = hash → row.updatedAt ≤ now

section Reports

variable {log : HostLog} {hash : PaymentHash} {call : HostCall} {status status' : PaymentStatus}
  {history later earlier : SystemHistory} {event : Event SystemWorld SystemLabel} {i : Nat}

theorem Reports.unique (h : Reports log hash call status) (h' : Reports log hash call status') :
    status = status' := by
  cases h with
  | asked =>
    cases h' with
    | asked => rfl
  | started given of_hash =>
    cases h' with
    | started given' of_hash' => rfl

theorem WalletReported.mono (later : SystemHistory) (h : WalletReported earlier hash status) :
    WalletReported (later ++ earlier) hash status := by
  obtain ⟨recent, event, past, i, call, rfl, hlabel, hreport⟩ := h
  exact ⟨later ++ recent, event, past, i, call, by simp, hlabel, hreport⟩

theorem Told.walletReported (h : Told (actsOf i earlier) hash status) :
    WalletReported earlier hash status := by
  obtain ⟨newer, call, older, hlog, hreport⟩ := h
  obtain ⟨recent, event, past, rfl, hlabel, -, rfl⟩ := actsOf_split hlog
  exact ⟨recent, event, past, i, call, rfl, hlabel, hreport⟩

/-- Two settlements of one payment agree. -/
theorem SteadyWallet.settles_once {preimage preimage' : PaymentPreimage}
    {amount fee amount' fee' : AmountMsat} (h : SteadyWallet history)
    (hfirst : WalletReported history hash (.succeeded preimage amount fee))
    (hsecond : WalletReported history hash (.succeeded preimage' amount' fee')) :
    amount' = amount ∧ fee' = fee := by
  have hagree : ∀ {p p' : PaymentPreimage} {a f a' f' : AmountMsat},
      (PaymentStatus.succeeded p a f).goesBackTo (.succeeded p' a' f') = false →
        a' = a ∧ f' = f := by
    intro p p' a f a' f' hback
    simpa [PaymentStatus.goesBackTo] using hback
  obtain ⟨recent, event, past, i, call, rfl, hlabel, hreport⟩ := hfirst
  obtain ⟨recent', event', past', i', call', hplace, hlabel', hreport'⟩ := hsecond
  rcases places_cases hplace with ⟨rfl, rfl⟩ | ⟨between, rfl⟩ | ⟨between, rfl⟩
  · rw [hlabel] at hlabel'
    obtain ⟨rfl, rfl⟩ := Label.act.inj hlabel'
    cases hreport.unique hreport'
    exact ⟨rfl, rfl⟩
  · obtain ⟨hamount, hfee⟩ := hagree
      (h recent event between event' past' _ _ _ _ _ _ _ rfl hlabel' hreport' hlabel hreport)
    exact ⟨hamount.symm, hfee.symm⟩
  · exact hagree
      (h recent' event' between event past _ _ _ _ _ _ _ hplace hlabel hreport hlabel' hreport')

end Reports

section Runs

variable {x : Crates} {outside : HostCall → Prop} {l : Ledger} {w : SystemWorld}
  {history later earlier : SystemHistory} {event : Event SystemWorld SystemLabel} {i : Nat}
  {t : SystemThread} {hash : PaymentHash}

/-- Whoever settles an attempt was told of the settlement before. -/
theorem settlement_told {amount fee : AmountMsat} {now : UnixTimestamp}
    {reply : (HostOp.ledger (.payment (.markPaymentSucceeded hash amount fee now))).Reply}
    (hrun : SystemRun x outside l (later ++ event :: earlier) w)
    (hlabel : event.label = .act i ⟨.ledger (.payment (.markPaymentSucceeded hash amount fee now)),
      reply⟩) : ∃ preimage, Told (actsOf i earlier) hash (.succeeded preimage amount fee) := by
  obtain ⟨t, hthread, -, hguard⟩ := act_spec (Job.attested x) hrun (by simp) hlabel
  rw [log_eq_actsOf hrun.split.1 i t hthread] at hguard
  cases hjob : t.job with
  | reconcile maxAttempts =>
    rw [hjob] at hguard
    exact hguard.1
  | wake policy input =>
    rw [hjob] at hguard
    exact hguard
  | migrate imports =>
    rw [hjob] at hguard
    exact hguard

/-- What a pass may account for is still initiated; if it has settled since, the wallet
reported the settlement. -/
theorem Reconciling.row (h : Reconciling t.log hash) (hpayments : PaymentsByPrograms outside)
    (hrun : SystemRun x outside l history w) (hthread : w.threads[i]? = some t) :
    ∃ row ∈ w.shared.paymentAttempts, row.paymentHash = hash ∧ row.initiatedAt.isSome ∧
      (row.state = .succeeded → ∃ preimage amount fee principalSat feeSat,
        WalletReported history hash (.succeeded preimage amount fee) ∧
          Accounting.msatToSatCeil amount = .ok principalSat ∧
          Accounting.msatToSatCeil fee = .ok feeSat ∧
          row.actualPrincipalSat = some principalSat ∧ row.actualFeeSat = some feeSat) := by
  obtain ⟨attempt, ⟨limit, attempts, more, hloaded, hmem⟩, rfl, hdisclose⟩ := h
  obtain ⟨load, hload, -, hstep⟩ := ledger_event hrun hthread hloaded
  obtain ⟨later, earlier, rfl⟩ := List.append_of_mem hload
  obtain ⟨-, -, hafter⟩ := hrun.split
  obtain ⟨row₀, hstored⟩ := hstep.returned_row hmem
  obtain ⟨random, hop⟩ := hstep.run_of_ok
  obtain ⟨hunresolved, -⟩ := loaded_unresolved hop attempt hmem
  have hinitiated : row₀.initiatedAt.isSome := by
    rw [← hstored.initiatedAt]
    simp only [PaymentAttempt.mayDiscloseSettlement, Bool.and_eq_true] at hdisclose
    exact hdisclose.1.1
  obtain ⟨row, hrow, hsame, hinitiated'⟩ := initiated_since hafter hstored.mem hinitiated
  have hhash : row.paymentHash = attempt.paymentHash :=
    hsame.paymentHash.trans hstored.paymentHash.symm
  refine ⟨row, hrow, hhash, hinitiated', fun hstate => ?_⟩
  rcases settled_since (ledgerRun_of_run hafter) hrow hstate with
    ⟨row₁, hrow₁, hhash₁, hstate₁⟩ | ⟨settled, hsettled, hby⟩
  · have heq : row₁ = row₀ := by
      apply Option.some.inj
      rw [← attemptOf_of_mem hrow₁, ← attemptOf_of_mem hstored.mem, ← hhash₁, hsame.paymentHash]
    rw [heq, ← hstored.state] at hstate₁
    rw [hstate₁] at hunresolved
    rcases hunresolved with h | h <;> cases h
  · obtain ⟨step, hstepMem, hprojected⟩ := List.mem_filterMap.mp hsettled
    obtain ⟨call, hcall, rfl⟩ := Option.map_eq_some_iff.mp hprojected
    obtain ⟨amount, fee, now, a, principalSat, feeSat, rfl, hprincipal, hfee, hactual, hactualFee⟩ :=
      hby
    obtain ⟨recent, past, rfl⟩ := List.append_of_mem hstepMem
    have hplace : (recent ++ step :: past) ++ load :: earlier =
        recent ++ step :: (past ++ load :: earlier) := by simp
    rw [hplace] at hrun
    obtain ⟨j, hlabel⟩ := hpayments.act hrun.split.2.1 hcall
    obtain ⟨preimage, htold⟩ := settlement_told hrun hlabel
    have hreported := htold.walletReported.mono (recent ++ [step])
    rw [hhash] at hreported
    refine ⟨preimage, amount, fee, principalSat, feeSat, ?_, hprincipal, hfee, hactual, hactualFee⟩
    simpa using hreported

/-- A pass that finds its attempt in place makes a call that is expected. -/
theorem InPlace.expected {op : PaymentOp} {reply : (LedgerOp.payment op).Reply} {maxAttempts : Nat}
    (hplace : InPlace event) (hpayments : PaymentsByPrograms outside)
    (hsteady : SteadyWallet (later ++ event :: earlier))
    (hrun : SystemRun x outside l (later ++ event :: earlier) w)
    (hlabel : event.label = .act i ⟨.ledger (.payment op), reply⟩)
    (hthread : event.before.threads[i]? = some t) (hjob : t.job = .reconcile maxAttempts) :
    op.Expected event.before.shared := by
  have hbefore := hrun.split.1
  obtain ⟨t', hthread', -, hguard⟩ := act_spec (Job.attested x) hrun (by simp) hlabel
  obtain ⟨t'', hthread'', hpassive, -⟩ := SystemRun.act_guard hrun hlabel
  rw [hthread, Option.some.injEq] at hthread' hthread''
  subst hthread' hthread''
  rw [hjob] at hguard hpassive
  have hby : ByPass event op := ⟨i, _, t, maxAttempts, hlabel, hthread, hjob⟩
  have hofPass := hguard.2 op rfl
  cases op with
  | loadUnresolvedPaymentAttempts limit => exact Nat.lt_of_le_of_lt hofPass (by decide)
  | releaseUninitiatedPayment hash now =>
    obtain ⟨row, hrow, hhash, hstate, hfresh⟩ :=
      Ledger.stage_eq_reserved.mp (hplace.release hash now hby)
    exact ⟨row, hrow, hhash, hplace.current _ hash now hby rfl row hrow hhash, hstate, hfresh⟩
  | markPaymentFailed hash now =>
    obtain ⟨row, hrow, hhash, hinitiated, -⟩ :=
      Reconciling.row hpassive hpayments hbefore hthread
    refine ⟨row, hrow, hhash, hplace.current _ hash now hby rfl row hrow hhash, hinitiated, ?_⟩
    intro hstate
    apply hplace.failure hash now hby
    rw [← hhash]
    exact Ledger.stage_of_succeeded hrow hstate
  | markPaymentSucceeded hash amount fee now =>
    obtain ⟨row, hrow, hhash, hinitiated, hsettled⟩ :=
      Reconciling.row hpassive hpayments hbefore hthread
    refine ⟨row, hrow, hhash, hplace.current _ hash now hby rfl row hrow hhash, hinitiated, ?_⟩
    intro hstate
    obtain ⟨preimage, amount', fee', principalSat, feeSat, hreported, hprincipal, hfee, hactual⟩ :=
      hsettled hstate
    obtain ⟨preimage', htold⟩ := settlement_told hrun hlabel
    have hfirst := hreported.mono (later ++ [event])
    have hsecond := htold.walletReported.mono (later ++ [event])
    rw [List.append_assoc] at hfirst hsecond
    obtain ⟨rfl, rfl⟩ := hsteady.settles_once hfirst hsecond
    exact ⟨principalSat, feeSat, hprincipal, hfee, hactual⟩
  | _ => exact hofPass.elim

/-- The call failed for reasons of its own: the database was unavailable for a call that would
have succeeded, or a value of the call does not fit. -/
def OwnFailure (event : Event SystemWorld SystemLabel) (op : PaymentOp)
    (e : PaymentAccountingError) : Prop :=
  op.OutOfRange event.before.shared ∨
    e = .databaseUnavailable ∧ ∃ done, op.run event.before.shared = .ok done

/-- A call of a pass that finds its attempt in place fails for reasons of its own only. -/
theorem InPlace.failed {op : PaymentOp} {e : PaymentAccountingError} {maxAttempts : Nat}
    (hplace : InPlace event) (hpayments : PaymentsByPrograms outside)
    (hsteady : SteadyWallet (later ++ event :: earlier))
    (hrun : SystemRun x outside .empty (later ++ event :: earlier) w)
    (hlabel : event.label = .act i ⟨.ledger (.payment op), .error e⟩)
    (hthread : event.before.threads[i]? = some t) (hjob : t.job = .reconcile maxAttempts) :
    e.conflicting = false ∧ OwnFailure event op e := by
  have hexpected := hplace.expected hpayments hsteady hrun hlabel hthread hjob
  obtain ⟨hbefore, hstep, -⟩ := hrun.split
  have hledger := ledgerRun_of_run hbefore
  rw [hlabel] at hstep
  have hcases := (SystemStep.ledgerStep hstep).error_cases
  constructor
  · rcases hcases with ⟨random, hop⟩ | hfault
    · exact hexpected.noConflict e hop
    · rw [hfault]
      rfl
  · by_cases hrange : op.OutOfRange event.before.shared
    · exact Or.inl hrange
    · right
      obtain ⟨done, hdone⟩ :=
        hexpected.succeeds (balanced_run hledger) (connected_run hledger) hrange
      refine ⟨?_, done, hdone⟩
      rcases hcases with ⟨random, hop⟩ | hfault
      · have hfails : op.run event.before.shared = .error e := hop
        rw [hdone] at hfails
        cases hfails
      · exact hfault

/-- Where every pass finds in place what it accounts for, a pass ends with an error only because
its batch size is not allowed, the database is unavailable or a value does not fit, never because
of another transition; and one that is not interrupted visits its whole batch. -/
theorem undisturbed_pass_completes {maxAttempts : Nat}
    {result : Except PaymentReconciliationError PaymentReconciliationReport}
    (hpayments : PaymentsByPrograms outside) (hrun : SystemRun x outside .empty history w)
    (hsteady : SteadyWallet history) (hplace : ∀ event ∈ history, InPlace event)
    (hthread : w.threads[i]? = some t) (hjob : t.job = .reconcile maxAttempts)
    (hdone : t.rest = .done (.reconciled result)) :
    (∀ e, result = .error (.accounting e) → e.conflicting = false ∧
      ∃ event ∈ history, ∃ op, event.label = .act i ⟨.ledger (.payment op), .error e⟩ ∧
        OwnFailure event op e) ∧
      (result = .error .invalidBatchSize →
        maxAttempts = 0 ∨ maxPaymentReconciliationBatch < maxAttempts) ∧
      ∀ report, result = .ok report → report.interrupted = true ∨ ∃ attempts more,
        Answered t.log (.ledger (.payment (.loadUnresolvedPaymentAttempts maxAttempts)))
            (.ok (attempts, more)) ∧ ∀ attempt ∈ attempts, Visited t.log attempt := by
  have hends := threads_spec (Job.attested x) hrun i t hthread
  rw [hjob, hdone] at hends
  obtain ⟨hrefused, hrest⟩ : PassEnds maxAttempts t.log result := hends
  refine ⟨fun e herror => ?_, hrest⟩
  obtain ⟨op, hcall⟩ := hrefused e herror
  obtain ⟨event, hevent, hlabel, -⟩ := ledger_event hrun hthread hcall
  obtain ⟨later, earlier, rfl⟩ := List.append_of_mem hevent
  obtain ⟨-, hstep, hafter⟩ := hrun.split
  obtain ⟨t₀, hthread₀, -, -⟩ := SystemRun.act_guard hrun hlabel
  obtain ⟨t₁, hthread₁, hjob₁, -⟩ := Step.keeps hstep hthread₀
  obtain ⟨t₂, hthread₂, hjob₂, -⟩ := threads_kept hafter hthread₁
  rw [hthread, Option.some.injEq] at hthread₂
  subst hthread₂
  have hjob₀ : t₀.job = .reconcile maxAttempts := by
    rw [← hjob₁, ← hjob₂, hjob]
  obtain ⟨hharmless, hown⟩ :=
    (hplace event hevent).failed hpayments hsteady hrun hlabel hthread₀ hjob₀
  exact ⟨hharmless, event, hevent, op, hlabel, hown⟩

end Runs

namespace Sample

/-- A host whose wallet has the payment under way. -/
def waitingScript : HostScript :=
  { payingScript 1010 1 with
    wallet := fun op =>
      match op with
      | .paymentStatus _ => .ok .pending
      | .startPayment _ => .ok .pending
      | _ => .error ⟨.unavailable⟩ }

/-- An execution that has reserved its payment and learned that it is unknown. -/
def inquired : List Move :=
  List.replicate 23 (Move.act 0 (payingScript 1010 1)) ++
    [Move.spawn firstWake,
      Move.outside (.registry (.insertConnection connection 1000)) (script 1000 0)]

/-- A pass loads the reservation, the execution starts the payment, and the pass goes on. -/
def overtaken : List Move :=
  List.replicate 3 (Move.act 1 waitingScript) ++ (List.replicate 8 (Move.act 0 waitingScript) ++
    (List.replicate 5 (Move.act 1 waitingScript) ++ Move.spawn (.reconcile 1) :: inquired))

/-- The execution has started the payment and handed its claim back before the pass. -/
def followed : List Move :=
  List.replicate 8 (Move.act 1 foreignScript) ++ Move.spawn (.reconcile 1) ::
    (List.replicate 14 (Move.act 0 waitingScript) ++ inquired)

/-- The plays of one execution and one pass are runs. -/
theorem beside_run {moves : List Move}
    (hspawns : ∀ job, .spawn job ∈ moves → job = firstWake ∨ job = .reconcile 1)
    (hmoves : ∀ op host, .outside op host ∈ moves → ∃ o, op = .registry o) :
    SystemRun crates managing .empty (play quickProgram crates .empty moves).1
      (play quickProgram crates .empty moves).2 := by
  apply quick_run _ hmoves
  intro job hjob
  rcases hspawns job hjob with rfl | rfl
  · exact Or.inl rfl
  · exact Or.inr (Or.inr ⟨1, rfl⟩)

theorem overtaken_run : SystemRun crates managing .empty
    (play quickProgram crates .empty overtaken).1 (play quickProgram crates .empty overtaken).2 := by
  apply beside_run
  · intro job hjob
    have hcases : job = .reconcile 1 ∨ job = firstWake := by
      simpa [overtaken, inquired] using hjob
    exact hcases.symm
  · intro op host hop
    simp only [overtaken, inquired, List.mem_append, List.mem_cons, List.mem_replicate,
      List.not_mem_nil, Move.outside.injEq, reduceCtorEq, and_false, or_false, false_or] at hop
    exact ⟨_, hop.1⟩

theorem followed_run : SystemRun crates managing .empty
    (play quickProgram crates .empty followed).1 (play quickProgram crates .empty followed).2 := by
  apply beside_run
  · intro job hjob
    have hcases : job = .reconcile 1 ∨ job = firstWake := by
      simpa [followed, inquired] using hjob
    exact hcases.symm
  · intro op host hop
    simp only [followed, inquired, List.mem_append, List.mem_cons, List.mem_replicate,
      List.not_mem_nil, Move.outside.injEq, reduceCtorEq, and_false, or_false, false_or] at hop
    exact ⟨_, hop.1⟩

def walletStatus : SystemLabel → Option PaymentStatus
  | .act _ ⟨.wallet (.paymentStatus _) _, .ok status⟩ => some status
  | .act _ ⟨.wallet (.startPayment _) _, .ok status⟩ => some status
  | _ => none

theorem walletStatus_of_reports {log : HostLog} {hash : PaymentHash} {call : HostCall}
    {status : PaymentStatus} {i : Nat} (h : Reports log hash call status) :
    walletStatus (.act i call) = some status := by
  cases h with
  | asked => rfl
  | started given of_hash => rfl

theorem steadyWallet_of_statuses {history : SystemHistory}
    (h : (history.filterMap fun event => walletStatus event.label).Pairwise
      fun newer older => older.goesBackTo newer = false) : SteadyWallet history := by
  rintro recent second between first past i j call call' hash status status' rfl hlabel hreport
    hlabel' hreport'
  have hfirst : walletStatus first.label = some status := by
    rw [hlabel]
    exact walletStatus_of_reports hreport
  have hsecond : walletStatus second.label = some status' := by
    rw [hlabel']
    exact walletStatus_of_reports hreport'
  rw [List.filterMap_append] at h
  have hlater := (List.pairwise_append.mp h).2.1
  rw [List.filterMap_cons_some
    (f := fun event : Event SystemWorld SystemLabel => walletStatus event.label) hsecond] at hlater
  apply (List.pairwise_cons.mp hlater).1 status
  exact List.mem_filterMap.mpr ⟨first, by simp, hfirst⟩

/-- The step neither releases an attempt nor marks one as failed, and no call comes after a later
change of its attempt. -/
def harmless (event : Event SystemWorld SystemLabel) : Bool :=
  match event.label with
  | .act _ ⟨.ledger (.payment op), _⟩ =>
    match op with
    | .releaseUninitiatedPayment .. => false
    | .markPaymentFailed .. => false
    | _ => event.before.shared.paymentAttempts.rows.all fun row =>
        op.dated.all fun dated => row.paymentHash != dated.1 || decide (row.updatedAt ≤ dated.2)
  | _ => true

theorem inPlace_of_harmless {event : Event SystemWorld SystemLabel}
    (h : harmless event = true) : InPlace event where
  release hash now hby := by
    obtain ⟨i, reply, t, maxAttempts, hlabel, -⟩ := hby
    simp [harmless, hlabel] at h
  failure hash now hby := by
    obtain ⟨i, reply, t, maxAttempts, hlabel, -⟩ := hby
    simp [harmless, hlabel] at h
  current op hash now hby hdated row hrow hhash := by
    obtain ⟨i, reply, t, maxAttempts, hlabel, -⟩ := hby
    have hall : (event.before.shared.paymentAttempts.rows.all fun row =>
        op.dated.all fun dated => row.paymentHash != dated.1 || decide (row.updatedAt ≤ dated.2)) =
          true := by
      rw [harmless, hlabel] at h
      dsimp only at h
      split at h
      · cases h
      · cases h
      · exact h
    have hthis := List.all_eq_true.mp hall row (Relational.Table.mem_rows.mpr hrow)
    rw [hdated] at hthis
    simpa [hhash] using hthis

/-- What the pass in this place has ended with. -/
def passResult (w : SystemWorld) (i : Nat) :
    Option (Except PaymentReconciliationError PaymentReconciliationReport) :=
  match w.threads[i]? with
  | some ⟨.reconcile 1, _, .done (.reconciled result), _⟩ => some result
  | _ => none

theorem passResult_eq_some {w : SystemWorld} {i : Nat}
    {result : Except PaymentReconciliationError PaymentReconciliationReport}
    (h : passResult w i = some result) : ∃ t, w.threads[i]? = some t ∧ t.job = .reconcile 1 ∧
      t.rest = .done (.reconciled result) := by
  unfold passResult at h
  split at h
  · rename_i log result' live hthread
    cases h
    exact ⟨_, hthread, rfl, rfl⟩
  · cases h

/-- The step reads the clock at another time. -/
def otherTime : SystemLabel → Bool
  | .act _ ⟨.clockNow, now⟩ => now != (1010 : Nat)
  | _ => false

end Sample

set_option maxRecDepth 4000 in
theorem undisturbed_pass_completes_followed : ∃ t,
    (play Sample.quickProgram Sample.crates .empty Sample.followed).2.threads[1]? = some t ∧
      t.rest = .done (.reconciled (.ok { emptyReport with examined := 1, succeeded := 1 })) ∧
      ∃ attempts more, Answered t.log
          (.ledger (.payment (.loadUnresolvedPaymentAttempts 1))) (.ok (attempts, more)) ∧
        ∀ attempt ∈ attempts, Visited t.log attempt := by
  have hsteady : ((play Sample.quickProgram Sample.crates .empty Sample.followed).1.filterMap
      fun event => Sample.walletStatus event.label).Pairwise
        fun newer older => older.goesBackTo newer = false := by
    decide
  have hharmless : (play Sample.quickProgram Sample.crates .empty Sample.followed).1.all
      Sample.harmless = true := by
    decide
  have hresult : Sample.passResult (play Sample.quickProgram Sample.crates .empty
      Sample.followed).2 1 = some (.ok { emptyReport with examined := 1, succeeded := 1 }) := by
    decide
  obtain ⟨t, hthread, hjob, hdone⟩ := Sample.passResult_eq_some hresult
  obtain ⟨-, -, hvisited⟩ := undisturbed_pass_completes Sample.managing_payments Sample.followed_run
    (Sample.steadyWallet_of_statuses hsteady)
    (fun event hevent => Sample.inPlace_of_harmless (List.all_eq_true.mp hharmless event hevent))
    hthread hjob hdone
  refine ⟨t, hthread, hdone, ?_⟩
  rcases hvisited _ rfl with hinterrupted | hall
  · cases hinterrupted
  · exact hall

set_option maxRecDepth 4000 in
/-- An execution that starts a payment between the load of a pass and its answer ends that
pass with a conflict. -/
theorem overtaken_pass_conflicts :
    SystemRun Sample.crates Sample.managing .empty
        (play Sample.quickProgram Sample.crates .empty Sample.overtaken).1
        (play Sample.quickProgram Sample.crates .empty Sample.overtaken).2 ∧
      SteadyWallet (play Sample.quickProgram Sample.crates .empty Sample.overtaken).1 ∧
      (∀ event ∈ (play Sample.quickProgram Sample.crates .empty Sample.overtaken).1, ∀ i now,
        event.label = .act i ⟨.clockNow, now⟩ → now = 1010) ∧
      ∃ t, (play Sample.quickProgram Sample.crates .empty Sample.overtaken).2.threads[1]? = some t ∧
        t.job = .reconcile 1 ∧
        t.rest = .done (.reconciled (.error (.accounting .terminalStateConflict))) := by
  have hsteady : ((play Sample.quickProgram Sample.crates .empty Sample.overtaken).1.filterMap
      fun event => Sample.walletStatus event.label).Pairwise
        fun newer older => older.goesBackTo newer = false := by
    decide
  have htime : (play Sample.quickProgram Sample.crates .empty Sample.overtaken).1.any
      (fun event => Sample.otherTime event.label) = false := by
    decide
  have hresult : Sample.passResult (play Sample.quickProgram Sample.crates .empty
      Sample.overtaken).2 1 = some (.error (.accounting .terminalStateConflict)) := by
    decide
  refine ⟨Sample.overtaken_run, Sample.steadyWallet_of_statuses hsteady, ?_,
    Sample.passResult_eq_some hresult⟩
  intro event hevent i now hlabel
  have hsame := List.any_eq_false.mp htime event hevent
  rw [hlabel] at hsame
  simpa [Sample.otherTime] using hsame

end NwcMobile
