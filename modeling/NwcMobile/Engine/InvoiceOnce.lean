import NwcMobile.Engine.Usage
import NwcMobile.Ledger.InvoiceRows

/-!
One invoice per request. The wallet has no idempotency key for invoices and is asked for
one outside the transaction that records it; so two executions of a request may both be
given an invoice. The ledger keeps the one recorded first and refuses the other, and an
execution answers only with an invoice that the ledger has handed to it for its event.
-/

namespace NwcMobile

open Program Prog Concurrent Transition Nip47 Fallible Notifications

/-- The ledger has handed this invoice to the execution as the one of the event. -/
inductive Tracks (log : HostLog) (e : EventId) (tracked : TrackedNwcInvoice) : Prop
  | loaded (answered : Answered log (.ledger (.record (.loadNwcInvoice e))) (.ok (some tracked)))
  | recorded {invoice : TrackedNwcInvoice} {relays : List SecureRelayUrl}
      (answered : Answered log (.ledger (.record (.recordNwcInvoice invoice relays))) (.ok tracked))
      (eventId : invoice.requestEventId = e)

/-- A `make_invoice` result has the content of an invoice tracked for the event. -/
def Backed (log : HostLog) (e : EventId) (response : Response) : Prop :=
  ∀ answer, response.result = some (.makeInvoice answer) →
    ∃ tracked, Tracks log e tracked ∧ (makeInvoiceResult tracked).result = .makeInvoice answer

/-- The execution has acquired the claim of `r`. -/
def Acquired (log : HostLog) (r : ClaimedRequest) : Prop :=
  ∃ now duration, Answered log (.ledger (.claim (.claimEvent r.validated.id r.connection.id
    r.connection.revision now duration))) (.ok (.acquired r.lease))

/-- The response is committed under a claim of the event its content belongs to. -/
def BackedCommit (x : Crates) (log : HostLog) (lease : EventLease) (json : String) : Prop :=
  ∃ r response, lease = r.lease ∧ Acquired log r ∧ Carries x json response ∧
    Backed log r.validated.id response

def InvoiceGuard (x : Crates) (log : HostLog) : HostOp → Prop
  | .ledger (.claim (.completeEventForActiveConnection lease _ _ json _)) =>
    BackedCommit x log lease json
  | .ledger (.claim (.completeNwcEventForActiveConnection lease _ _ json _ _)) =>
    BackedCommit x log lease json
  | _ => True

/-- The operation records an invoice. -/
def HostOp.recordsInvoice : HostOp → Bool
  | .ledger (.record (.recordNwcInvoice ..)) => true
  | _ => false

/-- The ledger has refused no invoice of the execution. -/
def Unrefused (log : HostLog) : Prop :=
  ∀ invoice relays error,
    ¬ Answered log (.ledger (.record (.recordNwcInvoice invoice relays))) (.error error)

/-- The operation completes an event or publishes a response. -/
def Activity.concludes : Activity → Bool
  | .completing | .publishing => true
  | _ => false

/-- Once an invoice is refused the execution neither commits nor publishes anything. -/
def RefusalGuard (log : HostLog) (op : HostOp) : Prop :=
  op.activity.concludes = true → Unrefused log

section Logs

variable {log log' : HostLog} {e : EventId} {tracked : TrackedNwcInvoice} {response : Response}
  {r : ClaimedRequest} {op : HostOp} {reply : op.Reply}

theorem Tracks.mono (h : Tracks log e tracked) (hsub : log ⊆ log') : Tracks log' e tracked := by
  cases h with
  | loaded answered => exact .loaded (hsub answered)
  | recorded answered eventId => exact .recorded (hsub answered) eventId

theorem Backed.mono (h : Backed log e response) (hsub : log ⊆ log') : Backed log' e response := by
  intro answer hanswer
  obtain ⟨tracked, htracks, hresult⟩ := h answer hanswer
  exact ⟨tracked, htracks.mono hsub, hresult⟩

theorem Acquired.mono (h : Acquired log r) (hsub : log ⊆ log') : Acquired log' r := by
  obtain ⟨now, duration, hanswered⟩ := h
  exact ⟨now, duration, hsub hanswered⟩

theorem Unrefused.cons (h : Unrefused log)
    (hcall : ∀ invoice relays error,
      (⟨op, reply⟩ : HostCall) ≠ ⟨.ledger (.record (.recordNwcInvoice invoice relays)), .error error⟩) :
    Unrefused (⟨op, reply⟩ :: log) := by
  intro invoice relays error hanswered
  rcases List.mem_cons.mp hanswered with heq | hold
  · exact hcall invoice relays error heq.symm
  · exact h invoice relays error hold

theorem Unrefused.other (h : Unrefused log) (hop : op.recordsInvoice = false) :
    Unrefused (⟨op, reply⟩ :: log) := by
  apply h.cons
  intro invoice relays error heq
  cases heq
  cases hop

theorem recordsInvoice_of_activity (h : op.activity ≠ .invoicing) : op.recordsInvoice = false := by
  cases hop : op.recordsInvoice with
  | false => rfl
  | true =>
    unfold HostOp.recordsInvoice at hop
    split at hop
    · exact absurd rfl h
    · cases hop

theorem unrefused_nil : Unrefused [] := by
  intro invoice relays error hanswered
  cases hanswered

end Logs

section Requests

variable {x : Crates} {log : HostLog} {r : ClaimedRequest} {context : OperationContext}
  {request : Nip47.Request} {e : EventId}

/-- What carrying out a request leaves: a result that is backed, or an error; and an
error that is retried if an invoice was refused. -/
structure Settles (log log' : HostLog) (e : EventId)
    (result : Except HostError DirectRequestResult) : Prop where
  backed : ∀ answer, result = .ok answer → Backed log' e ⟨answer.method, none, some answer.result⟩
  retried : Unrefused log → Unrefused log' ∨
    ∃ error, result = .error error ∧ error.isRetryable = true

/-- A request that neither records nor answers with an invoice. -/
abbrev Invoiceless (log : HostLog) (p : HostProg (Except HostError DirectRequestResult)) : Prop :=
  Spec (fun _ op => op.recordsInvoice = false) log p fun _ result =>
    ∀ answer, result = .ok answer → ∀ created, answer.result ≠ .makeInvoice created

theorem Invoiceless.settles {p : HostProg (Except HostError DirectRequestResult)} (h : Invoiceless log p) :
    Spec (fun _ _ => True) log p fun log' result => Settles log log' e result := by
  have hkept := h.keeps (P := fun log' => Unrefused log → Unrefused log')
    (fun _ _ _ hop hlog hstart => (hlog hstart).other hop) id
  apply (hkept.guard_imp fun _ _ _ => trivial).imp
  rintro log' result ⟨hinvoiceless, hunrefused⟩
  constructor
  · intro answer hanswer created hcreated
    exact absurd (Option.some.inj hcreated) (hinvoiceless answer hanswer created)
  · intro hstart
    exact Or.inl (hunrefused hstart)

theorem invoiceless_lookupInvoice {params : LookupInvoiceRequest} :
    Invoiceless log (lookupInvoice params context) := by
  have hfailed : ∀ (error : HostError) (answer : DirectRequestResult),
      (.error error : Except HostError DirectRequestResult) = .ok answer →
        ∀ created, answer.result ≠ .makeInvoice created := by
    intro error answer h
    cases h
  have hresult : ∀ transaction answer, lookupResult transaction = .ok answer →
      ∀ created, answer.result ≠ .makeInvoice created := by
    intro transaction answer h created
    unfold lookupResult at h
    split at h
    · cases h
    · split at h
      · cases h
      · cases h
        exact ResponseResult.noConfusion
  have htracked : Spec (fun _ op => op.recordsInvoice = false) log (trackedLookup params)
      fun _ _ => True := by
    unfold trackedLookup
    split
    · exact ⟨rfl, fun _ => trivial⟩
    · split
      · trivial
      · exact ⟨rfl, fun _ => trivial⟩
    · trivial
  refine htracked.seq fun log₁ tracked _ => ?_
  cases tracked with
  | error error => exact hfailed error
  | ok tracked =>
    dsimp only
    split
    · exact hfailed _
    · refine ⟨rfl, fun found => ?_⟩
      match found with
      | .error error => exact hfailed error
      | .ok (some transaction) => exact hresult _
      | .ok none =>
        cases tracked with
        | none => exact hresult _
        | some invoice => exact ⟨rfl, fun now => hresult _⟩

theorem invoiceless_listTransactions {params : Nip47.ListTransactionsRequest} :
    Invoiceless log (listTransactions params context) := by
  unfold listTransactions
  split
  · intro answer h
    cases h
  · refine ⟨rfl, fun listed => ?_⟩
    cases listed with
    | error error =>
      intro answer h
      cases h
    | ok transactions =>
      dsimp only [Prog.bind]
      split
      · intro answer h
        cases h
      · intro answer h created
        cases h
        exact ResponseResult.noConfusion

theorem settles_makeInvoice {params : Nip47.MakeInvoiceRequest} :
    Spec (fun _ _ => True) log (makeInvoice r params context)
      fun log' result => Settles log log' r.validated.id result := by
  have hfailed : ∀ {log' : HostLog} {error : HostError},
      (Unrefused log → Unrefused log' ∨ error.isRetryable = true) →
        Settles log log' r.validated.id (.error error) := by
    intro log' error hlog
    constructor
    · intro answer h
      cases h
    · intro hstart
      exact (hlog hstart).imp id fun hretryable => ⟨error, rfl, hretryable⟩
  have hanswered : ∀ {log' : HostLog} {tracked : TrackedNwcInvoice},
      Tracks log' r.validated.id tracked → (Unrefused log → Unrefused log') →
        Settles log log' r.validated.id (.ok (makeInvoiceResult tracked)) := by
    intro log' tracked htracks hlog
    constructor
    · intro answer h created hcreated
      obtain rfl := Except.ok.inj h
      exact ⟨tracked, htracks, Option.some.inj hcreated⟩
    · intro hstart
      exact Or.inl (hlog hstart)
  unfold makeInvoice
  split
  · exact hfailed Or.inl
  · refine ⟨trivial, fun createdAt => ⟨trivial, fun existing => ?_⟩⟩
    have hread : Unrefused log → Unrefused (⟨.ledger (.record (.loadNwcInvoice r.validated.id)),
        existing⟩ :: ⟨.clockNow, createdAt⟩ :: log) := by
      intro hstart
      apply Unrefused.other _ rfl
      exact hstart.other rfl
    match existing with
    | .error error => exact hfailed fun hstart => Or.inl (hread hstart)
    | .ok (some tracked) => exact hanswered (.loaded List.mem_cons_self) hread
    | .ok none =>
      refine ⟨trivial, fun created => ?_⟩
      cases created with
      | error error => exact hfailed fun hstart => Or.inl ((hread hstart).other rfl)
      | ok created =>
        refine ⟨trivial, fun recorded => ?_⟩
        cases recorded with
        | error error => exact hfailed fun _ => Or.inr rfl
        | ok tracked =>
          apply hanswered (.recorded List.mem_cons_self rfl)
          intro hstart
          apply ((hread hstart).other rfl).cons
          intro invoice relays error heq
          cases heq

theorem settles_executeRequest : Spec (fun _ _ => True) log (executeRequest request r context)
    fun log' result => Settles log log' r.validated.id result := by
  unfold executeRequest
  split
  · apply Invoiceless.settles
    refine ⟨rfl, fun info => ?_⟩
    cases info with
    | error error =>
      intro answer h
      cases h
    | ok info =>
      intro answer h created
      cases h
      exact ResponseResult.noConfusion
  · apply Invoiceless.settles
    refine ⟨rfl, fun balance => ?_⟩
    cases balance with
    | error error =>
      intro answer h
      cases h
    | ok balance =>
      intro answer h created
      cases h
      exact ResponseResult.noConfusion
  · exact settles_makeInvoice
  · exact invoiceless_lookupInvoice.settles
  · exact invoiceless_listTransactions.settles
  · apply Invoiceless.settles
    intro answer h
    cases h
  · apply Invoiceless.settles
    intro answer h
    cases h

end Requests

section Guards

variable {x : Crates} {r : ClaimedRequest} {P : Response → Prop}

theorem invoiceGuard_of_activity {log : HostLog} {op : HostOp} (h : op.activity.onClaim = false) :
    InvoiceGuard x log op := by
  cases op with
  | ledger op =>
    cases op with
    | claim op => cases op <;> cases h
    | _ => trivial
  | _ => trivial

/-- The claim is held, and the responses that may be committed are backed. -/
def HoldsBacked (r : ClaimedRequest) (P : Response → Prop) (log : HostLog) : Prop :=
  Acquired log r ∧ ∀ response, P response → Backed log r.validated.id response

theorem HoldsBacked.mono {log log' : HostLog} (h : HoldsBacked r P log) (hsub : log ⊆ log') :
    HoldsBacked r P log' :=
  ⟨h.1.mono hsub, fun response hresponse => (h.2 response hresponse).mono hsub⟩

theorem upholds_backed : Upholds x (InvoiceGuard x) (HoldsBacked r P) P r where
  plain := fun _ _ hop => invoiceGuard_of_activity hop
  kept := fun _ _ _ hlog _ => hlog.mono (List.subset_cons_self _ _)
  accepts := by
    intro log now hlog
    refine ⟨trivial, fun reply => hlog.mono ?_⟩
    exact List.Subset.trans (List.subset_cons_self _ _) (List.subset_cons_self _ _)
  releases := fun _ _ _ => trivial
  rejects := fun _ _ _ => trivial
  commits := by
    intro log response secret createdAt nonce json method now hlog hresponse hbuilt
    have hclock : HoldsBacked r P (⟨.clockNow, now⟩ :: log) := hlog.mono (List.subset_cons_self _ _)
    have hbacked : BackedCommit x (⟨.clockNow, now⟩ :: log) r.lease json :=
      ⟨r, response, rfl, hclock.1, ⟨r.validated, secret, createdAt, nonce, hbuilt⟩,
        hclock.2 response hresponse⟩
    cases method with
    | none => exact ⟨hbacked, fun _ _ _ => hclock.mono (List.subset_cons_self _ _)⟩
    | some method => exact ⟨hbacked, fun _ _ _ => hclock.mono (List.subset_cons_self _ _)⟩

/-- A response that is no `make_invoice` result. -/
def NoInvoice (response : Response) : Prop :=
  ∀ created, response.result ≠ some (.makeInvoice created)

theorem Job.invoiceGuard (job : Job) :
    Spec (InvoiceGuard x) [] (job.program x) fun _ _ => True := by
  apply upheld_program
  · intro log op hop
    exact invoiceGuard_of_activity hop
  · intro log remaining duration now e c revision _ _
    trivial
  · intro log remaining duration now policy r _
    have hholds : HoldsBacked r NoInvoice (⟨.ledger (.claim (.claimEvent r.validated.id
        r.connection.id r.connection.revision now duration)), .ok (.acquired r.lease)⟩ ::
        ⟨.clockNow, now⟩ :: ⟨.deadlineRemaining, remaining⟩ :: log) := by
      refine ⟨⟨now, duration, List.mem_cons_self⟩, ?_⟩
      intro response hresponse created hcreated
      exact absurd hcreated (hresponse created)
    apply (upholds_backed (P := NoInvoice)).executeClaimed
    · intro method error created hcreated
      cases hcreated
    · intro request context log hlog
      have hkept : Spec (InvoiceGuard x) log (executeRequest request r context)
          fun log' _ => HoldsBacked r NoInvoice log' := by
        apply upholds_backed.within within_executeRequest _ hlog
        intro a ha
        cases a <;> first | rfl | cases ha
      apply ((hkept.and settles_executeRequest).guard_imp fun _ _ hop => hop.1).imp
      rintro log' result ⟨hlog', hsettles⟩
      refine ⟨hlog', fun answer hanswer => ?_⟩
      refine ⟨HoldsBacked r (· = ⟨answer.method, none, some answer.result⟩), _, upholds_backed,
        ⟨hlog'.1, ?_⟩, rfl⟩
      rintro response rfl
      exact hsettles.backed answer hanswer
    · intro preimage fee created hcreated
      cases hcreated
    · exact hholds

/-- A stage that records no invoice goes on as it began. -/
theorem Unrefused.within {α : Type} {K : Activity → Bool} {log : HostLog} {p : HostProg α}
    (hlog : Unrefused log) (hp : Within K log p) (hK : K .invoicing = false) :
    Spec RefusalGuard log p fun log' _ => Unrefused log' := by
  have hkept := hp.throughout (P := Unrefused) (fun log op reply hop hlog => by
    apply hlog.other
    apply recordsInvoice_of_activity
    intro hactivity
    rw [hactivity, hK] at hop
    cases hop) hlog
  exact (hkept.imp fun _ _ hend => hend.2).guard_imp fun _ _ hop _ => hop.2

theorem refusalGuard_of_activity {log : HostLog} {op : HostOp}
    (h : op.activity.concludes = false) : RefusalGuard log op := by
  intro hconcludes
  rw [h] at hconcludes
  cases hconcludes

section Refusals

variable {log : HostLog} {request : Nip47.Request} {method : NwcMethod} {policy : WakePolicy}
  {wake : WakeInput}

theorem refusal_executeDirect (hlog : Unrefused log) :
    Spec RefusalGuard log (executeDirect x r request method) fun _ _ => True := by
  refine (hlog.within within_ensureClaimConnectionActive rfl).seq fun log₁ active hlog₁ => ?_
  cases active with
  | error disposition => trivial
  | ok _ =>
    have hcontext : Within (· == .ambient) log₁ deadlineContext := within_deadlineContext rfl
    refine (hlog₁.within hcontext rfl).seq fun log₂ context hlog₂ => ?_
    cases context with
    | none => exact (hlog₂.within within_releaseToApplication rfl).imp fun _ _ _ => trivial
    | some context =>
      have hserves : Within serving log₂ (executeRequest request r context) := within_executeRequest
      have hrequest := settles_executeRequest.and hserves
      refine (hrequest.guard_imp fun log op hop => ?_).seq fun log₃ result hresult => ?_
      · apply refusalGuard_of_activity
        have hserving := hop.2
        generalize op.activity = a at hserving
        cases a <;> first | rfl | cases hserving
      · have hretried := hresult.1.retried hlog₂
        cases result with
        | error error =>
          dsimp only
          split
          · -- the claim is handed back, whether or not an invoice was refused
            refine ⟨refusalGuard_of_activity rfl, fun now =>
              ⟨refusalGuard_of_activity rfl, fun done => ?_⟩⟩
            cases done <;> trivial
          · rename_i hfinal
            have hlog₃ : Unrefused log₃ := by
              rcases hretried with hlog₃ | ⟨error', heq, hretryable⟩
              · exact hlog₃
              · cases heq
                exact absurd hretryable hfinal
            split
            · exact (hlog₃.within within_releaseToApplication rfl).imp fun _ _ _ => trivial
            · exact (hlog₃.within within_respondWithError rfl).imp fun _ _ _ => trivial
        | ok answer =>
          have hlog₃ : Unrefused log₃ := by
            rcases hretried with hlog₃ | ⟨error, heq, -⟩
            · exact hlog₃
            · cases heq
          refine (hlog₃.within within_ensureClaimConnectionActive rfl).seq
            fun log₄ stillActive hlog₄ => ?_
          cases stillActive with
          | error disposition => trivial
          | ok _ => exact (hlog₄.within within_commitAndPublish rfl).imp fun _ _ _ => trivial

theorem refusal_dispatchRequest (hlog : Unrefused log) :
    Spec RefusalGuard log (dispatchRequest x r request) fun _ _ => True := by
  have hresponds : ∀ method code rejection,
      Spec RefusalGuard log (respondWithError x r method code rejection) fun _ _ => True :=
    fun method code rejection =>
      (hlog.within within_respondWithError rfl).imp fun _ _ _ => trivial
  unfold dispatchRequest
  split
  · exact hresponds _ _ _
  · split
    · exact hresponds _ _ _
    · split
      · refine ⟨refusalGuard_of_activity rfl, fun noted => ?_⟩
        have hnoted : Unrefused (⟨.recordDiagnostic .paymentRequestAccepted, noted⟩ :: log) :=
          hlog.other rfl
        dsimp only [Prog.bind]
        split
        · exact (hnoted.within within_executePayment rfl).imp fun _ _ _ => trivial
        · exact (hnoted.within within_rejectClaim rfl).imp fun _ _ _ => trivial
      · split
        · exact hresponds _ _ _
        · exact refusal_executeDirect hlog

theorem refusal_executeClaimed (hlog : Unrefused log) :
    Spec RefusalGuard log (executeClaimed x policy r) fun _ _ => True := by
  refine (hlog.within within_acceptFreshness rfl).seq fun log₁ fresh hlog₁ => ?_
  cases fresh with
  | error disposition => trivial
  | ok _ =>
    refine (hlog₁.within within_decryptRequest rfl).seq fun log₂ request hlog₂ => ?_
    cases request with
    | error disposition => trivial
    | ok request => exact refusal_dispatchRequest hlog₂

theorem refusal_claimAndExecute {relay : SecureRelayUrl} {connection : ActiveConnection}
    {validated : ValidatedNwcEvent} (hlog : Unrefused log) :
    Spec RefusalGuard log (claimAndExecute x policy relay connection validated) fun _ _ => True := by
  refine ⟨refusalGuard_of_activity rfl, fun remaining => ?_⟩
  dsimp only [Prog.bind]
  split
  · trivial
  · refine ⟨refusalGuard_of_activity rfl, fun now => ⟨refusalGuard_of_activity rfl,
      fun outcome => ?_⟩⟩
    rename_i duration _
    have hclaimed : Unrefused (⟨.ledger (.claim (.claimEvent validated.id connection.id
        connection.revision now duration)), outcome⟩ :: ⟨.clockNow, now⟩ ::
        ⟨.deadlineRemaining, remaining⟩ :: log) := by
      apply Unrefused.other _ rfl
      apply Unrefused.other _ rfl
      exact hlog.other rfl
    match outcome with
    | .error _ => trivial
    | .ok (.inProgress _) => trivial
    | .ok (.terminal terminal) =>
      exact (hclaimed.within within_republishTerminal rfl).imp fun _ _ _ => trivial
    | .ok (.acquired lease) => exact refusal_executeClaimed hclaimed

theorem refusal_execute (hlog : Unrefused log) :
    Spec RefusalGuard log (execute x policy wake) fun _ _ => True := by
  refine ⟨refusalGuard_of_activity rfl, fun cancelled => ?_⟩
  cases cancelled with
  | true => trivial
  | false =>
    refine ⟨refusalGuard_of_activity rfl, fun now => ?_⟩
    dsimp only [Prog.bind]
    split
    · trivial
    · rename_i relay _
      refine ⟨refusalGuard_of_activity rfl, fun approved => ?_⟩
      have happroved : Unrefused (⟨.ledger (.registry (.isRelayApprovedForWallet
          wake.walletServicePubkey relay now)), approved⟩ :: ⟨.clockNow, now⟩ ::
          ⟨.isCancelled, false⟩ :: log) := by
        apply Unrefused.other _ rfl
        apply Unrefused.other _ rfl
        exact hlog.other rfl
      match approved with
      | .ok false => trivial
      | .error _ => trivial
      | .ok true =>
        refine (happroved.within within_obtainEvent rfl).seq fun log₁ eventJson hlog₁ => ?_
        cases eventJson with
        | error disposition => trivial
        | ok eventJson =>
          refine (hlog₁.within within_bindConnection rfl).seq fun log₂ bound hlog₂ => ?_
          match bound with
          | .error disposition => trivial
          | .ok (connection, validated) => exact refusal_claimAndExecute hlog₂

theorem Job.refusalGuard (job : Job) : Spec RefusalGuard [] (job.program x) fun _ _ => True := by
  cases job with
  | wake policy input => exact (refusal_execute unrefused_nil).seq fun _ _ _ => trivial
  | reconcile maxAttempts =>
    exact (unrefused_nil.within within_reconcile rfl).seq fun _ _ _ => trivial
  | migrate imports =>
    exact (unrefused_nil.within within_migrateLegacyBatch rfl).seq fun _ _ _ => trivial

end Refusals

end Guards

/-- What the row answers to its request. -/
def CreatedInvoiceRow.answer (r : CreatedInvoiceRow) : MakeInvoiceResponse where
  invoice := r.invoice
  paymentHash := some (Hex32.toHex r.paymentHash.bytes)
  description := r.description
  amount := some r.amountMsat
  createdAt := some r.createdAt
  expiresAt := some r.expiresAt

/-- Execution `i` commits the response to the event at this step, or tries to. -/
def Responds (x : Crates) (i : Nat) (e : EventId) (response : Response)
    (event : Event SystemWorld SystemLabel) : Prop :=
  ∃ (op : ClaimOp) (reply : (LedgerOp.claim op).Reply) (lease : EventLease) (c : ConnectionId)
    (json : String) (now : UnixTimestamp),
    event.label = .act i ⟨.ledger (.claim op), reply⟩ ∧ op.commit = some (lease, c, json, now) ∧
      lease.eventId = e ∧ Carries x json response

/-- Execution `i` records an invoice for the event while another one is recorded there. -/
def LosesRace (i : Nat) (e : EventId) (event : Event SystemWorld SystemLabel) : Prop :=
  ∃ (invoice : TrackedNwcInvoice) (relays : List SecureRelayUrl)
    (reply : (LedgerOp.record (.recordNwcInvoice invoice relays)).Reply) (r : CreatedInvoiceRow),
    event.label = .act i ⟨.ledger (.record (.recordNwcInvoice invoice relays)), reply⟩ ∧
      invoice.requestEventId = e ∧ event.before.shared.invoiceOf e = some r ∧
      (r.paymentHash ≠ invoice.paymentHash ∨ r.invoice ≠ invoice.invoice)

section Runs

variable {x : Crates} {outside : HostCall → Prop} {l : Ledger} {w : SystemWorld}
  {later earlier : SystemHistory} {event : Event SystemWorld SystemLabel} {i : Nat} {e : EventId}

theorem answer_of_decode {r : CreatedInvoiceRow} {tracked : TrackedNwcInvoice}
    (h : decodeInvoice r = .ok tracked) :
    (makeInvoiceResult tracked).result = .makeInvoice r.answer := by
  simp only [decodeInvoice, bind_eq_ok, mapErr_eq_ok, pure_eq_ok] at h
  obtain ⟨connectionId, -, rfl⟩ := h
  rfl

/-- What the ledger hands out as the invoice of an event is in its row. -/
theorem Tracks.row {tracked : TrackedNwcInvoice} (h : Tracks (actsOf i earlier) e tracked)
    (hrun : SystemRun x outside l earlier w) :
    ∃ past ∈ earlier, ∃ r, past.after.shared.invoiceOf e = some r ∧ decodeInvoice r = .ok tracked := by
  cases h with
  | loaded answered =>
    obtain ⟨past, hpast, hlabel⟩ := mem_actsOf.mp answered
    have hstep := hrun.step_of_mem hpast
    rw [hlabel] at hstep
    obtain ⟨random, hop⟩ := (SystemStep.ledgerStep hstep).run_of_ok
    obtain ⟨hload, hsame⟩ := reading_eq_ok.mp hop
    refine ⟨past, hpast, ?_⟩
    rw [hsame]
    unfold Ledger.loadNwcInvoice at hload
    unfold Ledger.invoiceOf
    cases hrow : past.before.shared.createdInvoices.selectRow fun r => r.requestEventId == e with
    | none =>
      rw [hrow] at hload
      cases hload
    | some r =>
      rw [hrow] at hload
      refine ⟨r, rfl, ?_⟩
      cases hdecode : decodeInvoice r with
      | error error =>
        rw [Option.mapM_some, hdecode] at hload
        cases hload
      | ok found =>
        rw [Option.mapM_some, hdecode] at hload
        cases hload
        rfl
  | @recorded invoice relays answered eventId =>
    obtain ⟨past, hpast, hlabel⟩ := mem_actsOf.mp answered
    have hstep := hrun.step_of_mem hpast
    rw [hlabel] at hstep
    obtain ⟨random, hop⟩ := (SystemStep.ledgerStep hstep).run_of_ok
    obtain ⟨⟨r, hrow, hdecode, -⟩, -⟩ := recordNwcInvoice_ok hop
    rw [eventId] at hrow
    exact ⟨past, hpast, r, hrow, hdecode⟩

/-- A `make_invoice` result has the content of a row of its event. -/
theorem Responds.recorded {response : Response} {answer : MakeInvoiceResponse}
    (h : Responds x i e response event) (hreadable : x.ResponsesReadable)
    (hrun : SystemRun x outside l (later ++ event :: earlier) w)
    (hanswer : response.result = some (.makeInvoice answer)) :
    ∃ past ∈ earlier, ∃ r, past.after.shared.invoiceOf e = some r ∧ answer = r.answer := by
  obtain ⟨op, reply, lease, c, json, now, hlabel, hcommit, rfl, hcarries⟩ := h
  obtain ⟨hbefore, -, -⟩ := hrun.split
  have hguard := guard_of_act Job.invoiceGuard hrun hlabel
  have hbacked : BackedCommit x (actsOf i earlier) lease json := by
    cases op with
    | completeEventForActiveConnection lease' c' revision json' now' =>
      cases hcommit
      exact hguard
    | completeNwcEventForActiveConnection lease' c' revision json' method now' =>
      cases hcommit
      exact hguard
    | _ => cases hcommit
  obtain ⟨r, response', rfl, ⟨time, duration, hacquired⟩, hcarries', hbacked⟩ := hbacked
  obtain rfl := hreadable json response response' hcarries hcarries'
  obtain ⟨tracked, htracks, hresult⟩ := hbacked answer hanswer
  -- the lease is one of the event the result was made for
  obtain ⟨claim, hclaim, hclaimLabel⟩ := mem_actsOf.mp hacquired
  have hclaimed := hbefore.step_of_mem hclaim
  rw [hclaimLabel] at hclaimed
  rw [(SystemStep.ledgerStep hclaimed).acquired.1]
  obtain ⟨past, hpast, row, hrow, hdecode⟩ := htracks.row hbefore
  rw [answer_of_decode hdecode] at hresult
  exact ⟨past, hpast, row, hrow, (ResponseResult.makeInvoice.inj hresult).symm⟩

/-- An invoice that comes second is refused. -/
theorem LosesRace.refused (h : LosesRace i e event)
    (hrun : SystemRun x outside l (later ++ event :: earlier) w) :
    ∃ (invoice : TrackedNwcInvoice) (relays : List SecureRelayUrl) (error : LedgerError),
      event.label = .act i ⟨.ledger (.record (.recordNwcInvoice invoice relays)), .error error⟩ := by
  obtain ⟨invoice, relays, reply, r, hlabel, rfl, hrow, hdiffers⟩ := h
  obtain ⟨-, hstep, -⟩ := hrun.split
  rw [hlabel] at hstep
  cases reply with
  | error error => exact ⟨invoice, relays, error, hlabel⟩
  | ok tracked =>
    obtain ⟨random, hop⟩ := (SystemStep.ledgerStep hstep).run_of_ok
    obtain ⟨⟨r', hrow', -, hhash, htext⟩, hkept⟩ := recordNwcInvoice_ok hop
    rcases hkept invoice.requestEventId with hsame | ⟨hnone, -⟩
    · rw [hsame, hrow, Option.some.injEq] at hrow'
      subst hrow'
      rcases hdiffers with hdiffers | hdiffers
      · exact absurd hhash hdiffers
      · exact absurd htext hdiffers
    · rw [hrow] at hnone
      cases hnone

end Runs

/-- One invoice per request, for any interleaving of executions with each other, with crashes
and with any other ledger calls. The terms of a recorded invoice stay the same for as
long as it is recorded; a `make_invoice` result has the content of an invoice that was
recorded for its event before; and an execution whose invoice comes second is refused it
and commits and publishes nothing from then on. -/
theorem make_invoice_once {x : Crates} {outside : HostCall → Prop} {l : Ledger}
    {history : SystemHistory} {w : SystemWorld} (e : EventId) (hreadable : x.ResponsesReadable)
    (hrun : SystemRun x outside l history w) :
    (∀ later earlier w₀ r, history = later ++ earlier → Run (SystemStep x outside) w₀ later w →
      w₀.shared.invoiceOf e = some r → (∀ event ∈ later, event.after.shared.invoiceOf e ≠ none) →
        ∃ r', w.shared.invoiceOf e = some r' ∧ r'.terms = r.terms) ∧
    ∀ later event earlier, history = later ++ event :: earlier →
      (∀ i response answer, Responds x i e response event →
        response.result = some (.makeInvoice answer) →
          ∃ past ∈ earlier, ∃ r, past.after.shared.invoiceOf e = some r ∧ answer = r.answer) ∧
      ∀ i, LosesRace i e event →
        (∃ invoice relays error, event.label =
          .act i ⟨.ledger (.record (.recordNwcInvoice invoice relays)), .error error⟩) ∧
        ∀ other ∈ later, ∀ call, other.label = .act i call →
          call.op.activity.concludes = false := by
  refine ⟨?_, ?_⟩
  · intro later earlier w₀ r _ hlater hrow hpresent
    apply invoice_terms_kept (ledgerRun_of_run hlater) hrow
    intro mark hmark
    obtain ⟨event, hevent, hprojected⟩ := List.mem_filterMap.mp hmark
    obtain ⟨call, -, rfl⟩ := Option.map_eq_some_iff.mp hprojected
    exact hpresent event hevent
  · rintro later event earlier rfl
    refine ⟨fun i response answer hresponds hanswer => hresponds.recorded hreadable hrun hanswer, ?_⟩
    intro i hloses
    obtain ⟨invoice, relays, error, hrefused⟩ := hloses.refused hrun
    refine ⟨⟨invoice, relays, error, hrefused⟩, fun other hother call hlabel => ?_⟩
    obtain ⟨newer, older, rfl⟩ := List.append_of_mem hother
    rw [List.append_assoc, List.cons_append] at hrun
    have hguard := guard_of_act Job.refusalGuard hrun hlabel
    by_contra hconcludes
    rw [Bool.not_eq_false] at hconcludes
    apply hguard hconcludes invoice relays error
    exact mem_actsOf.mpr ⟨event, by simp, hrefused⟩

namespace Sample

def makeInvoiceCiphertext : String :=
  "AgQEBAQEBAQEBAQEBAQEBAQEBAQEBAQEBAQEBAQEBAQEuFqhvgCl+nR//e7bcCNsqZvFBjn9HiMfvzDJ" ++
  "GDpCrc/trzgYNl8yFPK8I5SzjTRoDjEtahY7jQmwLRbEYTkDyx7UxHxbRII0c4D30uK/b4hPYXMUq9FF" ++
  "ZZGXwU4xrSoQlBY="

def makeInvoiceEvent : NostrEvent where
  id := ⟨0x9b310a180d4a49b8901330f11fc22871f27f913ea6f2e66eeadcc4e025ee605b⟩
  pubkey := clientPubkey
  createdAt := 1002
  kind := 23194
  tags := [["p", walletServiceHex]]
  content := makeInvoiceCiphertext
  sig := 0xad39a6c1c73741ebe1b529911e7c67bf055354c37a1ada6f8a563db85f70244d#256 ++
    0xd494ae3bccc77beddf1d4b946ca5682477cf37d1c7b8997b4161bb7453632ae2#256

def makeInvoiceEventJson : String :=
  eventJson "9b310a180d4a49b8901330f11fc22871f27f913ea6f2e66eeadcc4e025ee605b" "1002"
    makeInvoiceCiphertext
    ("ad39a6c1c73741ebe1b529911e7c67bf055354c37a1ada6f8a563db85f70244d" ++
      "d494ae3bccc77beddf1d4b946ca5682477cf37d1c7b8997b4161bb7453632ae2")

def makeInvoiceRequestJson : String :=
  "\x7b\"method\":\"make_invoice\",\"params\":\x7b\"amount\":10000\x7d\x7d"

/-- The answer with the invoice that is recorded first. -/
def makeInvoiceResponse : Response :=
  ⟨.makeInvoice, none, some (.makeInvoice
    { invoice := "lnbc100n1second", paymentHash := some (Hex32.toHex 6), description := none
      amount := some 10000, createdAt := some 1035, expiresAt := some 4635 })⟩

def makeInvoiceResponseJson : String :=
  "\x7b\"result_type\":\"make_invoice\",\"result\":\x7b\"invoice\":\"lnbc100n1second\"," ++
    "\"payment_hash\":\"0000000000000000000000000000000000000000000000000000000000000006\"," ++
    "\"amount\":10000,\"created_at\":1035,\"expires_at\":4635\x7d\x7d"

def makeInvoiceResponseCiphertext : String :=
  "AgAAAAAAAAAAAAAAAAAAAAAAAAAAAAAAAAAAAAAAAAAABe/65HzwsqLqJslB8Q+KquktEzkx1XSLAiey" ++
  "03r5UhUWLYW34Nzn/S5CPrBC2FZ0ErzHDfzOSIQrKT8eDFrn5NqZ6TtfGhJud2/LpF5sUEWmfmCjhG95" ++
  "V6dRCIvIznAPp+cbAsR6m2Z0/uGy3FQ38Q9lKgn8FT+OyFIXILBWYLJwgB++OaN282s0Y3N4ZmPrqZYS" ++
  "1JjvVtZc7PukJAl/DdNVQChLG8/u3mBfb4tsJsxLfKb66X3hYIp9a0LaztyoKHnSiZCc/XubBiRf7RZ/" ++
  "1Z2CFuSLAIov3Bl+KttHjM0PcrmVQWYTi1vWfxfKaNTw9vI3zqjsYYvboCZ3GLzqwN3w"

def makeInvoiceResponseEventJson : String :=
  "\x7b\"id\":\"11e4e772c9e603bc2155bd04ff5bce7234d3f2357756dbca75d2ac1f2bcca76d\"," ++
    "\"pubkey\":\"" ++ walletServiceHex ++ "\",\"created_at\":1035,\"kind\":23195,\"tags\":[[\"p\",\"" ++
    clientHex ++ "\"],[\"e\",\"9b310a180d4a49b8901330f11fc22871f27f913ea6f2e66eeadcc4e025ee605b" ++
    "\"]],\"content\":\"" ++ makeInvoiceResponseCiphertext ++ "\",\"sig\":\"" ++
    "468a1a5904ef13fd8122bdce32fb0c9edc4de0c53fbe3cdcd405bbf6c39e7f70" ++
    "04e18a0e6fd7f6ba9e16fc0ce72909953cd650742c3523f5cf58f7da3481e81a\"\x7d"

/-- The crates on the texts of the request; what they yield on others does not matter. -/
def makeInvoiceCrates : Crates where
  parseUrl _ := some ⟨"wss", some "relay.example.com", "", none, none, relayUrl⟩
  publicKeyFromSlice key := key == clientPubkey || key == walletServicePubkey
  publicKeyFromHex _ := some walletServicePubkey
  eventFromJson _ := some makeInvoiceEvent
  verify event := event == makeInvoiceEvent
  secretPublicKey secret := if secret = walletServiceSecret then some walletServicePubkey else none
  decrypt _ _ _ _ := some makeInvoiceRequestJson
  encrypt _ _ _ text _ := if text.isEmpty then none else some makeInvoiceResponseCiphertext
  signEvent _ _ _ := some makeInvoiceResponseEventJson
  requestFromJson _ := some ⟨.makeInvoice, .makeInvoice ⟨10000, none, none, none⟩⟩
  responseAsJson response :=
    if response = makeInvoiceResponse then makeInvoiceResponseJson else ""

def makeInvoiceConnection : NewConnection :=
  { connection with
    policy := ⟨{.payInvoice, .makeInvoice}, ⟨100, .daily, .countTowardBudget 2⟩⟩
    methods_nonempty := by decide }

/-- A host whose wallet makes this invoice. -/
def invoicingScript (now : UnixTimestamp) (token : BitVec 128) (invoice : CreatedInvoice) :
    HostScript :=
  { payingScript now token with
    wallet := fun op =>
      match op with
      | .makeInvoice _ => .ok invoice
      | _ => .error ⟨.unavailable⟩
    random := ⟨some ⟨token⟩, some 1⟩ }

def slowInvoice : CreatedInvoice := ⟨"lnbc100n1first", ⟨7⟩, 10000, 4610⟩

def quickInvoice : CreatedInvoice := ⟨"lnbc100n1second", ⟨6⟩, 10000, 4635⟩

def makeInvoiceWake : Move :=
  .spawn (.wake wakePolicy (wakeFor makeInvoiceEvent makeInvoiceEventJson))

/-- An execution that is given an invoice and outlived by its lease, and a second one that
answers the request. -/
def outlived : List Move :=
  List.replicate 28 (Move.act 1 (invoicingScript 1035 2 quickInvoice)) ++ makeInvoiceWake ::
    (List.replicate 19 (Move.act 0 (invoicingScript 1010 1 slowInvoice)) ++
      [makeInvoiceWake,
       Move.outside (.registry (.insertConnection makeInvoiceConnection 1000)) (script 1000 0)])

/-- The first execution goes on to record its invoice. -/
def latecomer : List Move :=
  List.replicate 4 (Move.act 0 (invoicingScript 1036 3 slowInvoice)) ++
    Move.act 0 (invoicingScript 1036 3 slowInvoice) :: outlived

/-- The execution answers the request with the invoice that is recorded. -/
def answersInvoice : SystemLabel → Bool
  | .act 1 ⟨.ledger (.claim (.completeNwcEventForActiveConnection lease ..)), _⟩ =>
    lease.eventId == makeInvoiceEvent.id
  | _ => false

theorem makeInvoiceCrates_carries {json : String} {response : Response}
    (h : Carries makeInvoiceCrates json response) : response = makeInvoiceResponse := by
  obtain ⟨v, secret, createdAt, nonce, hbuilt⟩ := h
  simp only [ValidatedNwcEvent.buildResponseEvent, Fallible.bind_eq_ok, Fallible.okOr_eq_ok] at hbuilt
  obtain ⟨-, -, -, -, -, -, encrypted, hencrypted, -⟩ := hbuilt
  by_contra hother
  simp [makeInvoiceCrates, hother] at hencrypted

theorem makeInvoiceCrates_responsesReadable : makeInvoiceCrates.ResponsesReadable := by
  intro json response response' h h'
  rw [makeInvoiceCrates_carries h, makeInvoiceCrates_carries h']

theorem answersInvoice_responds {outside : HostCall → Prop} {w : SystemWorld}
    {later earlier : SystemHistory} {event : Event SystemWorld SystemLabel}
    (hrun : SystemRun makeInvoiceCrates outside .empty (later ++ event :: earlier) w)
    (h : answersInvoice event.label = true) :
    Responds makeInvoiceCrates 1 makeInvoiceEvent.id makeInvoiceResponse event := by
  unfold answersInvoice at h
  split at h
  · rename_i lease c revision json method now reply hlabel
    obtain ⟨response, hcarries⟩ := committed_carries hrun hlabel
    obtain rfl := makeInvoiceCrates_carries hcarries
    exact ⟨_, reply, lease, c, json, now, hlabel, rfl, beq_iff_eq.mp h, hcarries⟩
  · cases h

/-- The invoice of the first execution comes second. -/
def comesSecond (event : Event SystemWorld SystemLabel) : Bool :=
  match event.label with
  | .act 0 ⟨.ledger (.record (.recordNwcInvoice invoice _)), _⟩ =>
    invoice.requestEventId == makeInvoiceEvent.id &&
      (event.before.shared.invoiceOf makeInvoiceEvent.id).any fun r =>
        r.paymentHash != invoice.paymentHash
  | _ => false

theorem comesSecond_losesRace {event : Event SystemWorld SystemLabel}
    (h : comesSecond event = true) : LosesRace 0 makeInvoiceEvent.id event := by
  unfold comesSecond at h
  split at h
  · rename_i invoice relays reply hlabel
    simp only [Bool.and_eq_true, beq_iff_eq, Option.any_eq_true, bne_iff_ne] at h
    obtain ⟨hevent, r, hrow, hhash⟩ := h
    exact ⟨invoice, relays, reply, r, hlabel, hevent, hrow, Or.inl hhash⟩
  · cases h

/-- The newest step is one that comes second, after the request has been answered. -/
def outlives : SystemHistory → Bool
  | event :: earlier => comesSecond event && earlier.any fun event => answersInvoice event.label
  | [] => false

def raced (moves : List Move) : SystemHistory × SystemWorld :=
  play (Job.program makeInvoiceCrates) makeInvoiceCrates .empty moves

theorem makeInvoiceCiphertext_size : makeInvoiceCiphertext.utf8ByteSize = 176 := by
  unfold makeInvoiceCiphertext
  rw [String.utf8ByteSize_append, String.utf8ByteSize_append]
  decide

theorem makeInvoiceCiphertext_plain :
    containsText ivSeparator makeInvoiceCiphertext.toList = false := by
  unfold makeInvoiceCiphertext
  rw [String.toList_append, String.toList_append]
  decide +kernel

theorem makeInvoiceEventJson_size : makeInvoiceEventJson.utf8ByteSize ≤ 65536 := by
  refine le_trans (eventJson_size _ _ _ _) ?_
  rw [makeInvoiceCiphertext_size, String.utf8ByteSize_append]
  decide

theorem raced_eq {moves : List Move} (hmoves : ∀ job, .spawn job ∈ moves →
      .spawn job = makeInvoiceWake) : raced moves =
    play (quickJob makeInvoiceCrates makeInvoiceEvent makeInvoiceEventJson) makeInvoiceCrates .empty
      moves := by
  apply play_congr
  intro job hjob
  cases hmoves job hjob
  apply quickJob_eq (by decide)
  exact validate_sample makeInvoiceEventJson_size rfl (by simp [makeInvoiceCrates]) rfl rfl rfl rfl
    (ciphertextMatches_of makeInvoiceCiphertext_size makeInvoiceCiphertext_plain)

theorem outlived_outlives : outlives (raced (.act 0 (invoicingScript 1036 3 slowInvoice) ::
    outlived)).1 = true := by
  rw [raced_eq]
  · decide +kernel
  · intro job hjob
    simpa [outlived, makeInvoiceWake] using hjob

theorem latecomer_run : SystemRun makeInvoiceCrates managing .empty (raced latecomer).1
    (raced latecomer).2 := by
  apply managing_run
  · intro job _
    rfl
  · intro op host hop
    simp only [latecomer, outlived, makeInvoiceWake, List.mem_append, List.mem_cons,
      List.mem_replicate, List.not_mem_nil, Move.outside.injEq, reduceCtorEq, and_false, or_false,
      false_or] at hop
    exact ⟨_, hop.1⟩

end Sample

/-- The second execution answers; the first one is refused its invoice and answers nothing. -/
theorem make_invoice_once_latecomer : ∃ later event earlier,
    (Sample.raced Sample.latecomer).1 = later ++ event :: earlier ∧
      (∃ answered ∈ earlier, Responds Sample.makeInvoiceCrates 1 Sample.makeInvoiceEvent.id
        Sample.makeInvoiceResponse answered) ∧
      LosesRace 0 Sample.makeInvoiceEvent.id event ∧
      (∃ invoice relays error, event.label =
        .act 0 ⟨.ledger (.record (.recordNwcInvoice invoice relays)), .error error⟩) ∧
      ∀ other ∈ later, ∀ call, other.label = .act 0 call → call.op.activity.concludes = false := by
  obtain ⟨later, hlater⟩ : ∃ later, (Sample.raced Sample.latecomer).1 = later ++
      (Sample.raced (.act 0 (Sample.invoicingScript 1036 3 Sample.slowInvoice) ::
        Sample.outlived)).1 := play_append
  have hchecked := Sample.outlived_outlives
  have hrun := Sample.latecomer_run
  cases hhistory : (Sample.raced (.act 0 (Sample.invoicingScript 1036 3 Sample.slowInvoice) ::
      Sample.outlived)).1 with
  | nil =>
    rw [hhistory] at hchecked
    cases hchecked
  | cons event earlier =>
    rw [hhistory] at hchecked hlater
    obtain ⟨hsecond, hanswers⟩ := Bool.and_eq_true_iff.mp hchecked
    obtain ⟨answered, hmem, hresponse⟩ := List.any_eq_true.mp hanswers
    have hloses := Sample.comesSecond_losesRace hsecond
    have hanswered : Responds Sample.makeInvoiceCrates 1 Sample.makeInvoiceEvent.id
        Sample.makeInvoiceResponse answered := by
      obtain ⟨newer, older, rfl⟩ := List.append_of_mem hmem
      rw [hlater, ← List.cons_append, ← List.append_assoc] at hrun
      exact Sample.answersInvoice_responds hrun hresponse
    refine ⟨later, event, earlier, hlater, ⟨answered, hmem, hanswered⟩, hloses, ?_⟩
    exact ((make_invoice_once Sample.makeInvoiceEvent.id Sample.makeInvoiceCrates_responsesReadable
      hrun).2 later event earlier hlater).2 0 hloses

end NwcMobile
