import NwcMobile.Engine.Attempts

/-!
Preimages leave the system only for payments it started itself. In histories
whose programs run one after another, each of which may stop after any step, an
attempt leaves its reserved state only after a payment was started under its
event; and a reservation that was never initiated is released, whole, when the
wallet reports any status of its payment hash.
-/

namespace NwcMobile

open Program Concurrent Transition Nip47 Relational

/-- A payment was started under the event. -/
def StartedIn (history : SystemHistory) (e : EventId) : Prop :=
  ∃ event ∈ history, ∃ i start context reply,
    event.label = .act i ⟨.wallet (.startPayment start) context, reply⟩ ∧ start.idempotencyKey = e

section Started

variable {x : Crates} {outside : HostCall → Prop} {l : Ledger} {w : SystemWorld}
  {history later earlier : SystemHistory} {event : Event SystemWorld SystemLabel} {i : Nat}
  {t : SystemThread} {a : PaymentAttempt} {r : ClaimedRequest} {e : EventId} {log : HostLog}

theorem StartedIn.cons (h : StartedIn history e) : StartedIn (event :: history) e := by
  obtain ⟨start, hstart, hcall⟩ := h
  exact ⟨start, List.mem_cons_of_mem _ hstart, hcall⟩

theorem Started.startedIn (h : Started t.log e) (hrun : SystemRun x outside l history w)
    (hthread : w.threads[i]? = some t) : StartedIn history e := by
  obtain ⟨start, context, reply, hanswered, hkey⟩ := h
  obtain ⟨event, hevent, hlabel⟩ := log_event hrun i t hthread _ hanswered
  exact ⟨event, hevent, i, start, context, reply, hlabel, hkey⟩

theorem Sequential.tail (h : Sequential (event :: history)) : Sequential history :=
  fun past hpast => h past (List.mem_cons_of_mem _ hpast)

theorem Sequential.past (h : Sequential (later ++ event :: earlier)) : Sequential earlier :=
  fun past hpast => h past (List.mem_append_right _ (List.mem_cons_of_mem _ hpast))

theorem disclosable_not_reserved (h : a.mayDiscloseSettlement = true) : a.state ≠ .reserved := by
  simp only [PaymentAttempt.mayDiscloseSettlement, Bool.and_eq_true, bne_iff_ne] at h
  exact h.2

/-- A program reserves for its own event. -/
theorem Reserves.own {row : PaymentAttemptRow} {reserve : Event SystemWorld SystemLabel}
    (h : Reserves row reserve) (hpayments : PaymentsByPrograms outside)
    (hrun : SystemRun x outside l (later ++ reserve :: earlier) w) :
    ∃ i call t policy input, reserve.label = .act i call ∧
      reserve.before.threads[i]? = some t ∧ t.job = .wake policy input ∧
        row.eventId = input.eventId := by
  obtain ⟨connection, principal, now, a, hcall⟩ := h
  obtain ⟨i, hlabel⟩ := hpayments.act hrun.split.2.1 hcall
  obtain ⟨t, hthread, hguard, -⟩ := SystemRun.act_guard hrun hlabel
  cases hjob : t.job with
  | wake policy input =>
    rw [hjob] at hguard
    obtain ⟨r, hpaying, he, -⟩ := hguard
    exact ⟨i, _, t, policy, input, hlabel, hthread, hjob, he.trans hpaying.eventId⟩
  | reconcile maxAttempts =>
    rw [hjob] at hguard
    cases hguard
  | migrate imports =>
    rw [hjob] at hguard
    cases hguard

/-- In a sequential history the row of a hash that the newest program was handed
belongs to the event it was handed for, or to the program's own event. -/
theorem own_row {row : PaymentAttemptRow} (hpayments : PaymentsByPrograms outside)
    (hrun : SystemRun x outside l history w) (hseq : Sequential history)
    (hthread : w.threads[i]? = some t) (hnewest : w.threads.length = i + 1)
    (hgiven : Given t.log a) (hrow : row ∈ w.shared.paymentAttempts)
    (hhash : row.paymentHash = a.paymentHash) :
    row.eventId = a.eventId ∨ ∃ policy input, t.job = .wake policy input ∧
      row.eventId = input.eventId := by
  obtain ⟨event, hevent, ledgerCall, hcall, ha, call, hlabel⟩ := hgiven.handed hrun hthread
  obtain ⟨later, earlier, rfl⟩ := List.append_of_mem hevent
  rcases row_since hrun hcall ha hrow hhash with ⟨row₀, hstored, hsame⟩ | ⟨reserve, hreserve, hreserves⟩
  · exact Or.inl (hsame.eventId.trans hstored.eventId.symm)
  · right
    obtain ⟨recent, past, rfl⟩ := List.append_of_mem hreserve
    have hplace : (recent ++ reserve :: past) ++ event :: earlier =
        recent ++ reserve :: (past ++ event :: earlier) := by simp
    obtain ⟨j, call', t', policy, input, hact, hthread', hjob, heq⟩ :=
      hreserves.own hpayments (hplace ▸ hrun)
    have hj : j = i := hseq.between hrun hlabel hnewest hreserve hact
    subst hj
    rw [hplace] at hrun
    obtain ⟨-, hstep, hafter⟩ := hrun.split
    obtain ⟨mid, hmid, hmidJob, -⟩ := Step.keeps hstep hthread'
    obtain ⟨last, hlast, hlastJob, -⟩ := threads_kept hafter hmid
    rw [hthread, Option.some.injEq] at hlast
    subst hlast
    exact ⟨policy, input, by rw [hlastJob, hmidJob, hjob], heq⟩

/-- A status that may be attributed belongs to an event under which a payment was
started: by this execution, or before it was handed its attempt. -/
theorem Attributable.started {hash : PaymentHash} (h : Attributable t.log r hash)
    (hrun : SystemRun x outside l history w) (hthread : w.threads[i]? = some t)
    (hprior : ∀ a, Given t.log a → a.state ≠ .reserved → StartedIn history a.eventId) :
    StartedIn history r.validated.id := by
  obtain ⟨a, hsnapshot, -, hstarted | hdisclose⟩ := h
  · exact hstarted.startedIn hrun hthread
  · obtain ⟨howner, -⟩ := hsnapshot.owner hrun hthread
    rw [← howner]
    exact hprior a hsnapshot.given (disclosable_not_reserved hdisclose)

end Started

/-- Under whose events payments were started, as far as the ledger and the programs
can tell. -/
structure Accountable (history : SystemHistory) (w : SystemWorld) : Prop where
  rows : ∀ row ∈ w.shared.paymentAttempts, row.state ≠ .reserved → StartedIn history row.eventId
  attempts : ∀ (i : Nat) (t : SystemThread), w.threads[i]? = some t → ∀ a, Given t.log a →
    a.state ≠ .reserved → StartedIn history a.eventId
  initiated : ∀ e, StartedIn history e →
    ∃ row ∈ w.shared.paymentAttempts, row.eventId = e ∧ row.initiatedAt.isSome

section Accounts

variable {x : Crates} {outside : HostCall → Prop} {l : Ledger} {w w' : SystemWorld}
  {history : SystemHistory} {label : SystemLabel} {policy : WakePolicy} {input : WakeInput}
  {log : HostLog} {op : PaymentOp} {hash : PaymentHash}

theorem WakeGuard.accounts (h : WakeGuard x policy input log (.ledger (.payment op)))
    (hop : op.accounts = some hash) :
    ∃ r, Paying x policy input log r ∧ Attributable log r hash := by
  cases op with
  | markPaymentPending hash' now =>
    cases hop
    exact h
  | markPaymentFailed hash' now =>
    cases hop
    exact h
  | markPaymentSucceeded hash' principal fee now =>
    cases hop
    exact h
  | _ => cases hop

theorem PassiveGuard.accounts (h : PassiveGuard log (.ledger (.payment op)))
    (hop : op.accounts = some hash) : Reconciling log hash := by
  cases op with
  | markPaymentPending hash' now =>
    cases hop
    exact h
  | markPaymentFailed hash' now =>
    cases hop
    exact h
  | markPaymentSucceeded hash' principal fee now =>
    cases hop
    exact h
  | _ => cases hop

/-- Whoever accounts for a row's status does so after a payment was started under
the row's event. -/
theorem Accountable.accounted {row : PaymentAttemptRow} {value : op.Value}
    (h : Accountable history w) (hpayments : PaymentsByPrograms outside)
    (hrun : SystemRun x outside l history w)
    (hseq : Sequential (⟨w, label, w'⟩ :: history)) (hstep : SystemStep x outside w label w')
    (hcall : systemLedgerCall label = some ⟨.payment op, .ok value⟩)
    (hop : op.accounts = some row.paymentHash) (hrow : row ∈ w.shared.paymentAttempts) :
    StartedIn history row.eventId := by
  obtain ⟨i, rfl⟩ := hpayments.act hstep hcall
  have hnext : SystemRun x outside l ([] ++ ⟨w, _, w'⟩ :: history) w' := hrun.tail hstep
  obtain ⟨t, hthread, hguard, -⟩ := SystemRun.act_guard hnext rfl
  have hnewest : w.threads.length = i + 1 := hseq _ List.mem_cons_self i _ rfl
  have hown : ∀ a, Given t.log a → row.paymentHash = a.paymentHash →
      row.eventId = a.eventId ∨ ∃ policy input, t.job = .wake policy input ∧
        row.eventId = input.eventId :=
    fun a hgiven => own_row hpayments hrun hseq.tail hthread hnewest hgiven hrow
  have hpassive : PassiveGuard t.log (.ledger (.payment op)) →
      (∀ policy input, t.job ≠ .wake policy input) → StartedIn history row.eventId := by
    intro hguard hjob
    obtain ⟨a, hunresolved, hhash, hdisclose⟩ := hguard.accounts hop
    rcases hown a hunresolved.given hhash with heq | ⟨policy, input, hwake, -⟩
    · rw [heq]
      exact h.attempts i t hthread a hunresolved.given (disclosable_not_reserved hdisclose)
    · exact absurd hwake (hjob policy input)
  cases hjob : t.job with
  | wake policy input =>
    rw [hjob] at hguard
    obtain ⟨r, hpaying, hattributable⟩ := hguard.accounts hop
    have hstarted := hattributable.started hrun hthread (h.attempts i t hthread)
    obtain ⟨a, hsnapshot, hhash, -⟩ := hattributable
    obtain ⟨howner, -⟩ := hsnapshot.owner hrun hthread
    rcases hown a hsnapshot.given hhash with heq | ⟨policy', input', hwake, heq⟩
    · rw [heq, howner]
      exact hstarted
    · rw [hjob] at hwake
      cases hwake
      rw [heq, ← hpaying.eventId]
      exact hstarted
  | reconcile maxAttempts =>
    rw [hjob] at hguard
    exact hpassive hguard fun policy input heq => by rw [hjob] at heq; cases heq
  | migrate imports =>
    rw [hjob] at hguard
    exact hpassive hguard fun policy input heq => by rw [hjob] at heq; cases heq

theorem Accountable.rows_step (h : Accountable history w)
    (hpayments : PaymentsByPrograms outside) (hrun : SystemRun x outside l history w)
    (hseq : Sequential (⟨w, label, w'⟩ :: history)) (hstep : SystemStep x outside w label w') :
    ∀ row ∈ w'.shared.paymentAttempts, row.state ≠ .reserved →
      StartedIn (⟨w, label, w'⟩ :: history) row.eventId := by
  intro row hrow hstate
  apply StartedIn.cons
  obtain ⟨ledgerCall, hcall, hledger⟩ | ⟨-, hsame⟩ := SystemStep.ledger hstep
  · cases hledger.origin hrow with
    | kept mem same state initiated =>
      rw [same.eventId]
      exact h.rows _ mem (state ▸ hstate)
    | initiated mem same state fresh call_eq => exact absurd state hstate
    | accounted mem same started initiated call_eq hash =>
      rw [same.eventId]
      rw [call_eq] at hcall
      exact h.accounted hpayments hrun hseq hstep hcall (hash.trans (congrArg some same.paymentHash)) mem
    | reserved state fresh connectionId call_eq => exact absurd state hstate
  · rw [hsame] at hrow
    exact h.rows row hrow hstate

/-- A start is made for the attempt of its event, which is initiated by then. -/
theorem start_initiated {i : Nat} {start : PayInvoiceRequest} {context : OperationContext}
    {reply : (HostOp.wallet (.startPayment start) context).Reply}
    (hpayments : PaymentsByPrograms outside) (hrun : SystemRun x outside l history w)
    (hseq : Sequential (⟨w, label, w'⟩ :: history)) (hstep : SystemStep x outside w label w')
    (hlabel : label = .act i ⟨.wallet (.startPayment start) context, reply⟩) :
    ∃ row ∈ w.shared.paymentAttempts, row.eventId = start.idempotencyKey ∧
      row.initiatedAt.isSome := by
  subst hlabel
  have hnext : SystemRun x outside l ([] ++ ⟨w, _, w'⟩ :: history) w' := hrun.tail hstep
  obtain ⟨t, hthread, hguard, -⟩ := SystemRun.act_guard hnext rfl
  have hnewest : w.threads.length = i + 1 := hseq _ List.mem_cons_self i _ rfl
  cases hjob : t.job with
  | wake policy input =>
    rw [hjob] at hguard
    obtain ⟨r, a, hpaying, hsnapshot, hmarked, hkey, -⟩ := hguard
    obtain ⟨row, hrow, hhash, hinitiated⟩ := hmarked.initiated hsnapshot.given hrun hthread
    refine ⟨row, hrow, ?_, hinitiated⟩
    obtain ⟨howner, -⟩ := hsnapshot.owner hrun hthread
    rcases own_row hpayments hrun hseq.tail hthread hnewest hsnapshot.given hrow hhash with
      heq | ⟨policy', input', hwake, heq⟩
    · rw [heq, howner, hkey, hpaying.eventId]
    · rw [hjob] at hwake
      cases hwake
      rw [heq, hkey]
  | reconcile maxAttempts =>
    rw [hjob] at hguard
    cases hguard
  | migrate imports =>
    rw [hjob] at hguard
    cases hguard

/-- In every sequential history the books are in order. -/
theorem accountable (hpayments : PaymentsByPrograms outside)
    (hrun : SystemRun x outside .empty history w) (hseq : Sequential history) :
    Accountable history w := by
  refine hrun.history_invariant (J := fun history w => Sequential history → Accountable history w)
    ?_ ?_ hseq
  · intro _
    refine ⟨fun row hrow => absurd hrow (Table.not_mem_empty row), ?_, ?_⟩
    · intro i t hthread
      simp at hthread
    · rintro e ⟨start, hstart, -⟩
      cases hstart
  · intro past a label b hpast ih hstep hseq
    have hbefore := ih hseq.tail
    have hrows := hbefore.rows_step hpayments hpast hseq hstep
    refine ⟨hrows, ?_, ?_⟩
    · intro i t hthread attempt hgiven hstate
      have hchanges := hstep.changes hthread
      generalize hold : a.threads[i]? = old at hchanges
      cases hchanges with
      | same hother => exact (hbefore.attempts i t hold attempt hgiven hstate).cons
      | started =>
        obtain ⟨call, hcall, -⟩ := hgiven
        cases hcall
      | @acted t op next reply hlive hnext =>
        obtain ⟨call, hcall, ledgerCall, hledger, hreturned⟩ := hgiven
        rcases List.mem_cons.mp hcall with rfl | hprior
        · obtain ⟨ledgerCall', hcall', hledgerStep⟩ | ⟨hnone, -⟩ := SystemStep.ledger hstep
          · rw [show systemLedgerCall (.act i ⟨op, reply⟩) = some ledgerCall from hledger,
              Option.some.injEq] at hcall'
            subst hcall'
            obtain ⟨row, hstored⟩ := hledgerStep.returned_row hreturned
            rw [hstored.eventId]
            exact hrows row hstored.mem (hstored.state ▸ hstate)
          · rw [show systemLedgerCall (.act i ⟨op, reply⟩) = some ledgerCall from hledger] at hnone
            cases hnone
        · exact (hbefore.attempts i t hold attempt ⟨call, hprior, ledgerCall, hledger, hreturned⟩
            hstate).cons
      | @crashed t => exact (hbefore.attempts i t hold attempt hgiven hstate).cons
    · rintro e ⟨event, hevent, i, start, context, reply, hlabel, rfl⟩
      have hsurvives : ∀ row ∈ a.shared.paymentAttempts, row.eventId = start.idempotencyKey →
          row.initiatedAt.isSome → ∃ row ∈ b.shared.paymentAttempts,
            row.eventId = start.idempotencyKey ∧ row.initiatedAt.isSome := by
        intro row hrow he hinitiated
        obtain ⟨row', hrow', hsame, hinitiated'⟩ :=
          initiated_since (Run.refl.tail hstep) hrow hinitiated
        exact ⟨row', hrow', hsame.eventId.trans he, hinitiated'⟩
      rcases List.mem_cons.mp hevent with rfl | hprior
      · obtain ⟨row, hrow, he, hinitiated⟩ := start_initiated hpayments hpast hseq hstep hlabel
        exact hsurvives row hrow he hinitiated
      · obtain ⟨row, hrow, he, hinitiated⟩ :=
          hbefore.initiated _ ⟨event, hprior, i, start, context, reply, hlabel, rfl⟩
        exact hsurvives row hrow he hinitiated

end Accounts

/-- The preimages a response shows. -/
def Nip47.Response.preimages (response : Response) : List String :=
  match response.result with
  | some (.payInvoice preimage _) => [preimage]
  | some (.lookupInvoice found) => found.preimage.toList
  | some (.listTransactions found) => found.filterMap fun entry => entry.preimage
  | _ => []

/-- The preimage a response shows as the result of a payment. -/
def Nip47.Response.paidPreimage (response : Response) : Option String :=
  match response.result with
  | some (.payInvoice preimage _) => some preimage
  | _ => none

/-- The response event carries this response. -/
def Carries (x : Crates) (json : String) (response : Response) : Prop :=
  ∃ (v : ValidatedNwcEvent) (secret : NwcSecretKey) (createdAt : UnixTimestamp) (nonce : BitVec 256),
    v.buildResponseEvent x secret (x.responseAsJson response) createdAt nonce = .ok json

/-- A response event is decrypted to the one response that was put into it. -/
def Crates.ResponsesReadable (x : Crates) : Prop :=
  ∀ json response response', Carries x json response → Carries x json response' →
    response = response'

/-- The step puts a preimage into a sent-payment record for `e`, or a response that
`shows` one into a response event for `e`. -/
inductive Places (x : Crates) (shows : Response → Prop) (e : EventId) : SystemLabel → Prop
  | recorded {i : Nat} {payment : TrackedNwcPayment} {relays : List SecureRelayUrl}
      {reply : (LedgerOp.record (.recordNwcSentPayment payment relays)).Reply}
      (event : payment.requestEventId = e) :
      Places x shows e (.act i ⟨.ledger (.record (.recordNwcSentPayment payment relays)), reply⟩)
  | responded {i : Nat} {lease : EventLease} {c : ConnectionId} {revision : ConnectionRevision}
      {json : String} {now : UnixTimestamp} {response : Response}
      {reply : (LedgerOp.claim (.completeEventForActiveConnection lease c revision json now)).Reply}
      (event : lease.eventId = e) (carries : Carries x json response) (shown : shows response) :
      Places x shows e
        (.act i ⟨.ledger (.claim (.completeEventForActiveConnection lease c revision json now)), reply⟩)
  | respondedNwc {i : Nat} {lease : EventLease} {c : ConnectionId} {revision : ConnectionRevision}
      {json : String} {method : NwcMethod} {now : UnixTimestamp} {response : Response}
      {reply : (LedgerOp.claim (.completeNwcEventForActiveConnection lease c revision json method
        now)).Reply}
      (event : lease.eventId = e) (carries : Carries x json response) (shown : shows response) :
      Places x shows e (.act i ⟨.ledger (.claim (.completeNwcEventForActiveConnection lease c
        revision json method now)), reply⟩)

/-- The response shows the preimage of a payment it reports as made. -/
def ShowsPaid (response : Response) : Prop := response.paidPreimage.isSome

section Placements

variable {x : Crates} {outside : HostCall → Prop} {w : SystemWorld} {later earlier : SystemHistory}
  {event : Event SystemWorld SystemLabel} {i : Nat} {t : SystemThread} {e : EventId}
  {input : WakeInput} {lease : EventLease} {now : UnixTimestamp} {json : String}
  {response : Response}

theorem Disclosable.attributable {log : HostLog} {r : ClaimedRequest}
    (h : Disclosable log r response) (hshown : ShowsPaid response) :
    ∃ hash, Attributable log r hash := by
  unfold ShowsPaid Nip47.Response.paidPreimage at hshown
  split at hshown
  · rename_i preimage fees hresult
    exact h preimage fees hresult
  · cases hshown

theorem Responding.started {history : SystemHistory} (hreadable : x.ResponsesReadable)
    (h : Responding x input t.log lease now json) (hrun : SystemRun x outside .empty history w)
    (hthread : w.threads[i]? = some t) (haccounts : Accountable history w)
    (hcarries : Carries x json response) (hshown : ShowsPaid response) :
    StartedIn history lease.eventId := by
  obtain ⟨-, r, placed, secret, createdAt, nonce, hclaimed, rfl, hbuilt, hdisclosable⟩ := h
  have hplaced : placed = response :=
    hreadable json placed response ⟨r.validated, secret, createdAt, nonce, hbuilt⟩ hcarries
  subst hplaced
  obtain ⟨hash, hattributable⟩ := hdisclosable.attributable hshown
  rw [hclaimed.lease_eventId hrun hthread]
  exact hattributable.started hrun hthread (haccounts.attempts i t hthread)

/-- What a step places for an event was paid for under that event. -/
theorem Places.started (hreadable : x.ResponsesReadable) (hpayments : PaymentsByPrograms outside)
    (hrun : SystemRun x outside .empty (later ++ event :: earlier) w)
    (hseq : Sequential (later ++ event :: earlier)) (h : Places x ShowsPaid e event.label) :
    StartedIn earlier e := by
  have hbefore := hrun.split.1
  have haccounts := accountable hpayments hbefore hseq.past
  generalize hlabel : event.label = label at h
  obtain ⟨i, call, hact⟩ : ∃ i call, label = .act i call := by
    cases h with
    | recorded _ => exact ⟨_, _, rfl⟩
    | responded _ _ _ => exact ⟨_, _, rfl⟩
    | respondedNwc _ _ _ => exact ⟨_, _, rfl⟩
  obtain ⟨t, hthread, hguard, -⟩ := SystemRun.act_guard hrun (hlabel.trans hact)
  cases hjob : t.job with
  | wake policy input =>
    rw [hjob] at hguard
    cases h with
    | recorded heq =>
      cases hact
      obtain ⟨r, hpaying, he, hattributable⟩ := hguard
      rw [← heq, he]
      exact hattributable.started hbefore hthread (haccounts.attempts _ t hthread)
    | responded heq hcarries hshown =>
      cases hact
      have hresponding : Responding x input t.log _ _ _ := hguard
      rw [← heq]
      exact hresponding.started hreadable hbefore hthread haccounts hcarries hshown
    | respondedNwc heq hcarries hshown =>
      cases hact
      have hresponding : Responding x input t.log _ _ _ := hguard
      rw [← heq]
      exact hresponding.started hreadable hbefore hthread haccounts hcarries hshown
  | reconcile maxAttempts =>
    rw [hjob] at hguard
    cases h <;> cases hact <;> cases hguard
  | migrate imports =>
    rw [hjob] at hguard
    cases h <;> cases hact <;> cases hguard

/-- The text an execution commits as its answer carries a response. -/
theorem committed_carries {c : ConnectionId} {revision : ConnectionRevision} {method : NwcMethod}
    {reply : (LedgerOp.claim (.completeNwcEventForActiveConnection lease c revision json method
      now)).Reply} (hrun : SystemRun x outside .empty (later ++ event :: earlier) w)
    (hlabel : event.label = .act i ⟨.ledger (.claim (.completeNwcEventForActiveConnection lease c
      revision json method now)), reply⟩) : ∃ response, Carries x json response := by
  obtain ⟨t, -, hguard, -⟩ := SystemRun.act_guard hrun hlabel
  cases hjob : t.job with
  | wake policy input =>
    rw [hjob] at hguard
    have hresponding : Responding x input t.log lease now json := hguard
    obtain ⟨-, r, response, secret, createdAt, nonce, -, -, hbuilt, -⟩ := hresponding
    exact ⟨response, r.validated, secret, createdAt, nonce, hbuilt⟩
  | reconcile maxAttempts =>
    rw [hjob] at hguard
    cases hguard
  | migrate imports =>
    rw [hjob] at hguard
    cases hguard

end Placements

/-- A program is told a status other than unknown for the payment hash of a
reservation that was never initiated. -/
structure Meets (i : Nat) (row : PaymentAttemptRow) (event : Event SystemWorld SystemLabel) :
    Prop where
  noticed : ∃ context status, event.label = .act i (statusCall row.paymentHash context status) ∧
    status ≠ .unknown
  mem : row ∈ event.before.shared.paymentAttempts
  fresh : row.initiatedAt = none

/-- What comes of releasing the reservation at a time: its whole debit is returned
and its row is gone; or nothing changed, because the database was unavailable or the
time is no time after the row's last update. -/
inductive Discarded (row : PaymentAttemptRow) (now : UnixTimestamp)
    (reply : Except PaymentAccountingError Unit) (l l' : Ledger) : Prop
  | returned (ok : reply = .ok ())
      (periods : PeriodAdjusted l.budgetPeriods l'.budgetPeriods row.connectionId
        row.periodStartedAt (row.principalSat + row.feeReserveSat) 0)
      (frame : l' = { l with
        paymentAttempts := l.paymentAttempts.delete (hasHash row.paymentHash)
        budgetPeriods := l'.budgetPeriods })
  | refused (same : l' = l)
      (reason : reply = .error .databaseUnavailable ∨ now < row.updatedAt ∨ i64Max < now)

/-- What becomes of the reservation: the program reads the clock and releases it at
that time, unless it stops before. -/
def Releases (i : Nat) (row : PaymentAttemptRow) (later : SystemHistory) : Prop :=
  actsOf i later = [] ∨ (∃ now, actsOf i later = [⟨.clockNow, now⟩]) ∨
    ∃ now reply recent release between, later = recent ++ release :: between ∧
      actsOf i between = [⟨.clockNow, now⟩] ∧
      release.label = .act i
        ⟨.ledger (.payment (.releaseUninitiatedPayment row.paymentHash now)), reply⟩ ∧
      Discarded row now reply release.before.shared release.after.shared

section Discards

variable {x : Crates} {outside : HostCall → Prop} {l l' : Ledger} {w : SystemWorld}
  {history later earlier : SystemHistory} {event : Event SystemWorld SystemLabel} {i : Nat}
  {row : PaymentAttemptRow} {now : UnixTimestamp} {imported : String → Nat → Nat}

/-- What a release call does to a reservation that was never initiated. -/
theorem LedgerStep.discarded {reply : Except PaymentAccountingError Unit}
    (h : LedgerStep x l ⟨.payment (.releaseUninitiatedPayment row.paymentHash now), reply⟩ l')
    (hbalanced : Balanced imported l) (hrow : row ∈ l.paymentAttempts)
    (hstate : row.state = .reserved) (hfresh : row.initiatedAt = none) :
    Discarded row now reply l l' := by
  cases reply with
  | ok done =>
    obtain ⟨random, hrun⟩ := h.run_of_ok
    obtain ⟨row', hrow', hhash, -, -, hattempts, hperiods, hframe⟩ := releaseUninitiatedPayment_ok hrun
    have hsame : row' = row := Table.eq_of_key (hasHash_key row.paymentHash) hrow' hrow
      (by simpa using hhash) (by simp)
    subst hsame
    rw [unresolved_contribution (Or.inl hstate)] at hperiods
    refine .returned rfl hperiods ?_
    rw [← hattempts]
    exact hframe
  | error e =>
    refine .refused h.eq_of_error ?_
    rcases h.error_cases with ⟨random, hrun⟩ | heq
    · right
      by_contra hclock
      obtain ⟨hupdated, hrange⟩ := not_or.mp hclock
      obtain ⟨l'', hsucceeds⟩ := release_succeeds hbalanced hrow hstate hfresh
        (Nat.le_of_not_lt hupdated) (Nat.le_of_not_lt hrange)
      have hfailed : l.releaseUninitiatedPayment row.paymentHash now = .error e := hrun
      rw [hsucceeds] at hfailed
      cases hfailed
    · exact Or.inl (congrArg Except.error heq)

/-- A program that meets a reservation was handed no attempt of its hash that may
disclose a settlement. -/
theorem Meets.foreign (h : Meets i row event)
    (hrun : SystemRun x outside .empty (later ++ event :: earlier) w) :
    Foreign (actsOf i earlier) row.paymentHash := by
  intro a hgiven hhash
  have hbefore := hrun.split.1
  obtain ⟨call, hcall, ledgerCall, hledger, ha⟩ := hgiven
  obtain ⟨handed, hmem, hlabel⟩ := mem_actsOf.mp hcall
  obtain ⟨recent, past, rfl⟩ := List.append_of_mem hmem
  obtain ⟨-, hstep, hafter⟩ := hbefore.split
  obtain ⟨ledgerCall', hcall', hledgerStep⟩ | ⟨hnone, -⟩ := SystemStep.ledger hstep
  · rw [hlabel, show systemLedgerCall (.act i call) = some ledgerCall from hledger,
      Option.some.injEq] at hcall'
    subst hcall'
    obtain ⟨row₀, hstored⟩ := hledgerStep.returned_row ha
    have huninitiated : a.wasInitiated = false := by
      by_contra hinitiated
      have hmarked : row₀.initiatedAt.isSome := by
        rw [← hstored.initiatedAt]
        exact (Bool.not_eq_false _).mp hinitiated
      obtain ⟨row', hrow', hsame, hmarker⟩ := initiated_since hafter hstored.mem hmarked
      have heq : row' = row := Table.eq_of_key (hasHash_key row.paymentHash) hrow' h.mem
        (by simp [hsame.paymentHash, ← hstored.paymentHash, hhash]) (by simp)
      rw [heq, h.fresh] at hmarker
      cases hmarker
    simp [PaymentAttempt.mayDiscloseSettlement, huninitiated]
  · rw [hlabel, show systemLedgerCall (.act i call) = some ledgerCall from hledger] at hnone
    cases hnone

/-- The row stays as it is as long as the program that met it makes no payment call. -/
theorem Meets.stays (h : Meets i row event) (hpayments : PaymentsByPrograms outside)
    (hrun : SystemRun x outside .empty (history ++ event :: earlier) w)
    (hseq : Sequential (history ++ event :: earlier)) (hnewest : w.threads.length = i + 1)
    (hquiet : ∀ call ∈ actsOf i history, ∀ op, call.op ≠ .ledger (.payment op)) :
    row ∈ w.shared.paymentAttempts := by
  obtain ⟨context, status, hlabel, -⟩ := h.noticed
  obtain ⟨-, hstep, hafter⟩ := hrun.split
  have hkept : w.shared.paymentAttempts = event.after.shared.paymentAttempts := by
    refine attempts_unchanged hafter fun other hother op reply hcall => ?_
    obtain ⟨recent, past, rfl⟩ := List.append_of_mem hother
    obtain ⟨j, hact⟩ := hpayments.act hafter.split.2.1 hcall
    have hj : j = i := hseq.between hrun hlabel hnewest hother hact
    subst hj
    exact hquiet _ (mem_actsOf.mpr ⟨other, hother, hact⟩) op rfl
  have hsame : event.after.shared = event.before.shared := by
    rw [hlabel] at hstep
    obtain ⟨ledgerCall, hcall, -⟩ | ⟨-, hsame⟩ := SystemStep.ledger hstep
    · cases hcall
    · exact hsame
  rw [hkept, hsame]
  exact h.mem

/-- The acts of the program since it met the row follow what it noticed. -/
theorem Meets.acts (h : Meets i row event) (past : SystemHistory) :
    ∃ context status, actsOf i (past ++ event :: earlier) =
      actsOf i past ++ statusCall row.paymentHash context status :: actsOf i earlier ∧
        status ≠ .unknown := by
  obtain ⟨context, status, hlabel, hknown⟩ := h.noticed
  refine ⟨context, status, ?_, hknown⟩
  rw [actsOf_append, actsOf_cons hlabel]

/-- A reservation that is met is released next. -/
theorem Meets.releases (h : Meets i row event) (hpayments : PaymentsByPrograms outside)
    (hrun : SystemRun x outside .empty (later ++ event :: earlier) w)
    (hseq : Sequential (later ++ event :: earlier)) : Releases i row later := by
  have hforeign := h.foreign hrun
  unfold Releases
  rcases List.eq_nil_or_concat (actsOf i later) with hnone | ⟨newer, first, hacts⟩
  · exact Or.inl hnone
  · right
    rw [List.concat_eq_append] at hacts
    obtain ⟨recent, read, past, rfl, hread, hrecent, hpast⟩ := actsOf_split hacts
    have hplace : (recent ++ read :: past) ++ event :: earlier =
        recent ++ read :: (past ++ event :: earlier) := by simp
    rw [hplace] at hrun hseq
    -- the first act after the answer reads the clock
    have hprompt := prompt_act hrun hread
    obtain ⟨context, status, hlog, hknown⟩ := h.acts past
    rw [hlog, hpast] at hprompt
    have hclock := hprompt.clock _ _ _ _ rfl hknown hforeign
    obtain ⟨op, now⟩ := first
    obtain rfl : op = .clockNow := hclock
    rcases List.eq_nil_or_concat newer with hlast | ⟨newest, second, hnewer⟩
    · exact Or.inl ⟨now, by rw [hacts, hlast]; rfl⟩
    · right
      rw [List.concat_eq_append] at hnewer
      rw [hnewer] at hrecent
      obtain ⟨last, release, between, rfl, hrelease, -, hbetween⟩ := actsOf_split hrecent
      have hplace' : (last ++ release :: between) ++ read :: (past ++ event :: earlier) =
          last ++ release :: ((between ++ read :: past) ++ event :: earlier) := by simp
      rw [hplace'] at hrun hseq
      have hacted : actsOf i (between ++ read :: past) = [⟨.clockNow, now⟩] := by
        rw [actsOf_append, hbetween, actsOf_cons hread, hpast]
        rfl
      have hprompt' := prompt_act hrun hrelease
      obtain ⟨context', status', hlog', hknown'⟩ := h.acts (between ++ read :: past)
      rw [hlog', hacted] at hprompt'
      have hop := hprompt'.release now _ _ _ _ rfl hknown' hforeign
      obtain ⟨op, reply⟩ := second
      subst hop
      refine ⟨now, reply, last, release, between ++ read :: past, by simp, hacted, hrelease, ?_⟩
      obtain ⟨hbefore, hstep, -⟩ := hrun.split
      rw [hrelease] at hstep
      have hledger := ledgerRun_of_run hbefore
      have hrow : row ∈ release.before.shared.paymentAttempts := by
        refine h.stays hpayments hbefore hseq.past ?_ ?_
        · exact hseq release (by simp) i _ hrelease
        · rw [hacted]
          intro call hcall op heq
          rw [List.mem_singleton.mp hcall] at heq
          cases heq
      exact (SystemStep.ledgerStep hstep).discarded (balanced_run hledger) hrow
        (uninitiated_reserved hledger row hrow h.fresh) h.fresh

/-- The program that met a reservation starts no payment afterwards. -/
theorem Meets.startsNothing (h : Meets i row event)
    (hrun : SystemRun x outside .empty (later ++ event :: earlier) w)
    {other : Event SystemWorld SystemLabel} {call : HostCall} (hother : other ∈ later)
    (hact : other.label = .act i call) : NoStart call.op := by
  have hforeign := h.foreign hrun
  obtain ⟨context, status, hmet, hknown⟩ := h.noticed
  obtain ⟨recent, past, rfl⟩ := List.append_of_mem hother
  have hplace : (recent ++ other :: past) ++ event :: earlier =
      recent ++ other :: (past ++ event :: earlier) := by simp
  rw [hplace] at hrun
  have hprompt := prompt_act hrun hact
  rw [actsOf_append, actsOf_cons hmet] at hprompt
  exact hprompt.noStart _ _ _ _ _ rfl hknown hforeign

/-- Nothing is placed for the event of a reservation by the program that met it. -/
theorem Meets.undisclosed (h : Meets i row event) (hreadable : x.ResponsesReadable)
    (hpayments : PaymentsByPrograms outside)
    (hrun : SystemRun x outside .empty (later ++ event :: earlier) w)
    (hseq : Sequential (later ++ event :: earlier)) {other : Event SystemWorld SystemLabel}
    {call : HostCall} (hother : other ∈ later) (hact : other.label = .act i call) :
    ¬ Places x ShowsPaid row.eventId other.label := by
  intro hplaces
  obtain ⟨recent, past, rfl⟩ := List.append_of_mem hother
  have hplace : (recent ++ other :: past) ++ event :: earlier =
      recent ++ other :: (past ++ event :: earlier) := by simp
  rw [hplace] at hrun hseq
  obtain ⟨start, hstart, j, request, context, reply, hlabel, hkey⟩ :=
    hplaces.started hreadable hpayments hrun hseq
  have hbefore := hrun.split.1
  have hseqBefore : Sequential (past ++ event :: earlier) := hseq.past
  obtain ⟨context', status, hmet, hknown⟩ := h.noticed
  rcases List.mem_append.mp hstart with hbetween | hprior
  · -- the newest program is the one that met the row
    have hnewest := hseq other (by simp) i call hact
    have hj : j = i := hseqBefore.between hbefore hmet hnewest hbetween hlabel
    subst hj
    exact h.startsNothing hbefore hbetween hlabel request context rfl
  · -- no payment was started under the event of a row that is not initiated
    rcases List.mem_cons.mp hprior with rfl | hearlier
    · rw [hmet] at hlabel
      injection hlabel with _ hcall
      cases hcall
    · have haccounts := accountable hpayments hbefore.split.1 hseqBefore.past
      obtain ⟨row', hrow', he, hinitiated⟩ :=
        haccounts.initiated row.eventId ⟨start, hearlier, j, request, context, reply, hlabel, hkey⟩
      have hsame : row' = row := Table.eq_of_key (paymentAttempt_event_key row.eventId) hrow' h.mem
        (by simp [he]) (by simp)
      rw [hsame, h.fresh] at hinitiated
      cases hinitiated

end Discards

/-- Preimages are disclosed only for payments that were started. In every history
from a fresh ledger whose programs run one after another, each of which may stop
after any step, a preimage is put into a sent-payment record or a `pay_invoice`
response for an event only after a payment was started under that event; and a
program that is told a status of a reservation that was never initiated releases
it next, whole, starts no payment and discloses nothing for it. -/
theorem preimages_only_for_started_payments {x : Crates} (hreadable : x.ResponsesReadable)
    {outside : HostCall → Prop} (hpayments : PaymentsByPrograms outside) {w : SystemWorld}
    {later earlier : SystemHistory} {event : Event SystemWorld SystemLabel}
    (hrun : SystemRun x outside .empty (later ++ event :: earlier) w)
    (hseq : Sequential (later ++ event :: earlier)) :
    (∀ e, Places x ShowsPaid e event.label → StartedIn earlier e) ∧
      ∀ i row, Meets i row event → Releases i row later ∧
        ∀ other ∈ later, ∀ call, other.label = .act i call →
          NoStart call.op ∧ ¬ Places x ShowsPaid row.eventId other.label := by
  refine ⟨fun e hplaces => hplaces.started hreadable hpayments hrun hseq, fun i row hmeets => ?_⟩
  refine ⟨hmeets.releases hpayments hrun hseq, fun other hother call hact => ⟨?_, ?_⟩⟩
  · exact hmeets.startsNothing hrun hother hact
  · exact hmeets.undisclosed hreadable hpayments hrun hseq hother hact

namespace Sample

/-- From outside the programs only connections are managed. -/
def managing (call : HostCall) : Prop := ∃ op reply, call = ⟨.ledger (.registry op), reply⟩

theorem managing_payments : PaymentsByPrograms managing := by
  rintro op reply ⟨op', reply', heq⟩
  cases heq

/-- Every act is one of the thread started last. -/
def inSequence (history : SystemHistory) : Bool :=
  history.all fun event =>
    match event.label with
    | .act i _ => event.before.threads.length == i + 1
    | _ => true

theorem sequential_of_inSequence {history : SystemHistory} (h : inSequence history = true) :
    Sequential history := by
  intro event hevent i call hlabel
  have hact := List.all_eq_true.mp h event hevent
  simp only [hlabel] at hact
  exact beq_iff_eq.mp hact

theorem managing_run {program : Job → HostProg JobResult} {x : Crates} {moves : List Move}
    (hprogram : ∀ job, .spawn job ∈ moves → program job = job.program x)
    (hmoves : ∀ op host, .outside op host ∈ moves → ∃ o, op = .registry o) :
    SystemRun x managing .empty (play program x .empty moves).1 (play program x .empty moves).2 := by
  apply play_run hprogram
  intro event hevent call hlabel
  obtain ⟨move, hmove, hstep⟩ := play_move hevent
  rw [hlabel] at hstep
  obtain ⟨op, host, rfl, hop⟩ := Move.step_outside hstep
  obtain ⟨o, rfl⟩ := hmoves op host hmove
  obtain ⟨op', reply⟩ := call
  subst hop
  exact ⟨o, reply, rfl⟩

/-- A host whose wallet reports the invoice as paid before anything was started. -/
def foreignScript : HostScript :=
  { payingScript 1010 1 with
    wallet := fun op =>
      match op with
      | .quotePayment _ _ => .ok ⟨⟨9⟩, 10000⟩
      | .paymentStatus _ => .ok (.succeeded ⟨5⟩ 10000 900)
      | _ => .error ⟨.unavailable⟩ }

/-- A payment of an invoice that somebody else has paid, up to the question for its status. -/
def reservedPaid : List Move :=
  List.replicate 22 (Move.act 0 foreignScript) ++
    [Move.spawn firstWake,
      Move.outside (.registry (.insertConnection connection 1000)) (script 1000 0)]

/-- The question and what follows it. -/
def discardedPaid : List Move :=
  List.replicate 2 (Move.act 0 foreignScript) ++ Move.act 0 foreignScript :: reservedPaid

/-- The reservation. -/
def reservedRow : PaymentAttemptRow where
  eventId := firstEvent.id
  paymentHash := ⟨9⟩
  connectionId := "connection"
  connectionRevision := 0
  periodStartedAt := 1000
  principalSat := 10
  feeReserveSat := 2
  reservedSat := 12
  state := .reserved
  actualPrincipalSat := none
  actualFeeSat := none
  chargedSat := none
  authorizationExceeded := false
  initiatedAt := none
  legacyInitiationAmbiguous := false
  createdAt := 1010
  updatedAt := 1010
  reconciliationSequence := 1

theorem reservedPaid_spawns {job : Job} (h : .spawn job ∈ discardedPaid) : job = firstWake := by
  simpa [discardedPaid, reservedPaid] using h

theorem discardedPaid_run : SystemRun crates managing .empty
    (play quickProgram crates .empty discardedPaid).1
    (play quickProgram crates .empty discardedPaid).2 := by
  apply managing_run
  · intro job hjob
    exact quickProgram_eq (Or.inl (reservedPaid_spawns hjob))
  · intro op host hop
    simp only [discardedPaid, reservedPaid, List.mem_append, List.mem_cons, List.mem_replicate,
      List.not_mem_nil, Move.outside.injEq, reduceCtorEq, and_false, or_false, false_or] at hop
    exact ⟨_, hop.1⟩

/-- The sample crates build no response, so none is misread. -/
theorem crates_responsesReadable : crates.ResponsesReadable := by
  rintro json response response' ⟨v, secret, createdAt, nonce, hbuilt⟩ -
  simp only [ValidatedNwcEvent.buildResponseEvent, Fallible.bind_eq_ok, Fallible.okOr_eq_ok] at hbuilt
  obtain ⟨-, -, -, -, -, -, encrypted, hencrypted, -⟩ := hbuilt
  cases hencrypted

end Sample

set_option maxRecDepth 4000 in
theorem preimages_only_for_started_payments_foreign :
    ∃ later event earlier,
      (play Sample.quickProgram Sample.crates .empty Sample.discardedPaid).1 =
        later ++ event :: earlier ∧
      Meets 0 Sample.reservedRow event ∧ Releases 0 Sample.reservedRow later ∧
      (∀ other ∈ later, ∀ call, other.label = .act 0 call → NoStart call.op ∧
        ¬ Places Sample.crates ShowsPaid Sample.reservedRow.eventId other.label) ∧
      (play Sample.quickProgram Sample.crates .empty
        Sample.discardedPaid).2.shared.paymentAttempts.rows = [] := by
  obtain ⟨later, hlater⟩ : ∃ later,
      (play Sample.quickProgram Sample.crates .empty Sample.discardedPaid).1 = later ++
        (play Sample.quickProgram Sample.crates .empty
          (.act 0 Sample.foreignScript :: Sample.reservedPaid)).1 := play_append
  obtain ⟨event, hevent, hmeets⟩ : ∃ event,
      (play Sample.quickProgram Sample.crates .empty
        (.act 0 Sample.foreignScript :: Sample.reservedPaid)).1 =
          event :: (play Sample.quickProgram Sample.crates .empty Sample.reservedPaid).1 ∧
        Meets 0 Sample.reservedRow event := by
    refine ⟨_, rfl, ⟨⟨⟨.fromSecs 20⟩, .succeeded ⟨5⟩ 10000 900, rfl, by simp⟩, ?_, rfl⟩⟩
    have hrows : (play Sample.quickProgram Sample.crates .empty
        Sample.reservedPaid).2.shared.paymentAttempts.rows = [Sample.reservedRow] := by
      decide
    rw [← Table.mem_rows]
    change Sample.reservedRow ∈ (play Sample.quickProgram Sample.crates .empty
      Sample.reservedPaid).2.shared.paymentAttempts.rows
    rw [hrows]
    exact List.mem_cons_self
  have hrun := Sample.discardedPaid_run
  have hseq : Sequential (play Sample.quickProgram Sample.crates .empty Sample.discardedPaid).1 :=
    Sample.sequential_of_inSequence (by decide)
  rw [hlater, hevent] at hrun hseq
  obtain ⟨hreleases, hnothing⟩ := (preimages_only_for_started_payments
    Sample.crates_responsesReadable Sample.managing_payments hrun hseq).2 0 _ hmeets
  exact ⟨later, event, _, by rw [hlater, hevent], hmeets, hreleases, hnothing, by decide⟩

namespace Sample

def lookupCiphertext : String :=
  "AgMDAwMDAwMDAwMDAwMDAwMDAwMDAwMDAwMDAwMDAwMDR4sA/Y6dN7hPj0Zjpih87TnDU/kILLp03I0t" ++
  "O5mJfhD0J/CBFnolsaf9dGAP40iScb1+mgdVTZIh6S/Yt2PHKg+5Fjelbfj45Pon6TVNC7id8HIzE2S7" ++
  "MmamkpxOawXVmqI="

def lookupEvent : NostrEvent where
  id := ⟨0x97d616cf2859c6fd092bdd7829253020664bf64a31730cdc22aa5c754cfbe7a5⟩
  pubkey := clientPubkey
  createdAt := 1002
  kind := 23194
  tags := [["p", walletServiceHex]]
  content := lookupCiphertext
  sig := 0x18a9cce3c425e9c8e128be7f9af2a139784cf6410b62d17dfc4d7f0ee3a9c2be#256 ++
    0xe529e194a19d6f6f0fb74f5b2c63b5e733211c2d4cfa4cfbb7d50cd4dbd6c4b0#256

def lookupEventJson : String :=
  eventJson "97d616cf2859c6fd092bdd7829253020664bf64a31730cdc22aa5c754cfbe7a5" "1002"
    lookupCiphertext
    ("18a9cce3c425e9c8e128be7f9af2a139784cf6410b62d17dfc4d7f0ee3a9c2be" ++
      "e529e194a19d6f6f0fb74f5b2c63b5e733211c2d4cfa4cfbb7d50cd4dbd6c4b0")

def lookupRequestJson : String :=
  "\x7b\"method\":\"lookup_invoice\",\"params\":\x7b\"invoice\":\"lnbc1\"\x7d\x7d"

def preimageHex : String := "0000000000000000000000000000000000000000000000000000000000000005"

def paymentHashHex : String := "0000000000000000000000000000000000000000000000000000000000000009"

/-- A settled invoice of the wallet, with its preimage. -/
def lookupResponse : Response :=
  ⟨.lookupInvoice, none, some (.lookupInvoice
    { transactionType := some .incoming, state := some .settled, invoice := none
      description := none, descriptionHash := none, preimage := some preimageHex
      paymentHash := paymentHashHex, amount := 10000, feesPaid := 0, createdAt := 1000
      expiresAt := none, settledAt := some 1001 })⟩

def lookupResponseJson : String :=
  "\x7b\"result_type\":\"lookup_invoice\",\"result\":\x7b\"type\":\"incoming\"," ++
    "\"state\":\"settled\",\"preimage\":\"" ++ preimageHex ++ "\",\"payment_hash\":\"" ++
    paymentHashHex ++ "\",\"amount\":10000,\"fees_paid\":0,\"created_at\":1000," ++
    "\"settled_at\":1001\x7d\x7d"

def responseCiphertext : String :=
  "AgAAAAAAAAAAAAAAAAAAAAAAAAAAAAAAAAAAAAAAAAAABBX65HzwsqLqJslB8Q+KquktEjc1216SMziz" ++
  "zHb1E1wWc8K28MPms2AbJqIO2kBtFPvfFbfMRYklcWFJQEe28s2X8zpfDBJtc2LSrVV8LQHlfXrk1yAo" ++
  "APJDApnIznAPp+cbAsR6m2Z0/uGy3FQ38Q9lKgn8FT+OyFIXILBWYLJwgB++OaN282s0Y3N4ZmPrqZYS" ++
  "1JjpRMpOvab+c0spX4gdHX0VX7yk3GFSLMUrcqMaOLTw6H3iZZZvPgqal579axaDzYKW+X2YA2kS3SZP" ++
  "5a2yJtS7MLof7ClOGut3vP0/Qut64fN7FEHWQARiXuw89ryWOW5tapcFSec/BZpAicLJ5fVoK3r7+xDu" ++
  "rBG7GYseE+nbTT7QzdMvvP4YAbFdnmSfHfcWIIb8Gtwj6i18VM6iPCzwDjyl2Q9iMF+yUA94j4Cxw+OV" ++
  "FQyl9mwgTlgE57O3pez+4WBDin7BX9+zCpqY"

def responseEventJson : String :=
  "\x7b\"id\":\"3c44513e59568a3b17affcaaf367073f92c634453558334696193190405d4bb5\"," ++
    "\"pubkey\":\"" ++ walletServiceHex ++ "\",\"created_at\":1010,\"kind\":23195,\"tags\":[[\"p\",\"" ++
    clientHex ++ "\"],[\"e\",\"97d616cf2859c6fd092bdd7829253020664bf64a31730cdc22aa5c754cfbe7a5" ++
    "\"]],\"content\":\"" ++ responseCiphertext ++ "\",\"sig\":\"" ++
    "5919c673d1a6dad65c25e0bec2bba051ad205ce99eba8fa507348d5c8738a2ad" ++
    "8f5340d4b56acd0faf5f1f9415683119d1f2395ef3c93cc200b106f228e6c47a\"\x7d"

/-- The crates on the texts of a lookup; what they yield on others does not matter. -/
def lookupCrates : Crates where
  parseUrl _ := some ⟨"wss", some "relay.example.com", "", none, none, relayUrl⟩
  publicKeyFromSlice key := key == clientPubkey || key == walletServicePubkey
  publicKeyFromHex _ := some walletServicePubkey
  eventFromJson _ := some lookupEvent
  verify event := event == lookupEvent
  secretPublicKey secret := if secret = walletServiceSecret then some walletServicePubkey else none
  decrypt _ _ _ _ := some lookupRequestJson
  encrypt _ _ _ text _ := if text.isEmpty then none else some responseCiphertext
  signEvent _ _ _ := some responseEventJson
  requestFromJson _ := some ⟨.lookupInvoice, .lookupInvoice ⟨none, some "lnbc1"⟩⟩
  responseAsJson response := if response = lookupResponse then lookupResponseJson else ""


def lookupConnection : NewConnection :=
  { connection with
    policy := ⟨{.payInvoice, .lookupInvoice}, ⟨100, .daily, .countTowardBudget 2⟩⟩
    methods_nonempty := by decide }

/-- A host whose wallet knows the settled invoice. -/
def lookupScript : HostScript :=
  { payingScript 1010 1 with
    wallet := fun op =>
      match op with
      | .lookupInvoice _ => .ok (some
          { paymentHash := some ⟨9⟩, direction := .incoming, amount := 10000, fee := 0
            createdAt := 1000, settledAt := some 1001, status := .succeeded ⟨5⟩ 10000 0 })
      | _ => .error ⟨.unavailable⟩ }

/-- An invoice is looked up. -/
def lookedUp : List Move :=
  List.replicate 26 (Move.act 0 lookupScript) ++
    [Move.spawn (.wake wakePolicy (wakeFor lookupEvent lookupEventJson)),
     Move.outside (.registry (.insertConnection lookupConnection 1000)) (script 1000 0)]

/-- The lookup is answered. -/
def answersLookup : SystemLabel → Bool
  | .act _ ⟨.ledger (.claim (.completeNwcEventForActiveConnection lease ..)), _⟩ =>
    lease.eventId == lookupEvent.id
  | _ => false

def starts : SystemLabel → Bool
  | .act _ ⟨.wallet (.startPayment _) _, _⟩ => true
  | _ => false

theorem lookupCrates_carries {json : String} {response : Response}
    (h : Carries lookupCrates json response) : response = lookupResponse := by
  obtain ⟨v, secret, createdAt, nonce, hbuilt⟩ := h
  simp only [ValidatedNwcEvent.buildResponseEvent, Fallible.bind_eq_ok, Fallible.okOr_eq_ok] at hbuilt
  obtain ⟨-, -, -, -, -, -, encrypted, hencrypted, -⟩ := hbuilt
  by_contra hother
  simp [lookupCrates, hother] at hencrypted

theorem lookupCrates_responsesReadable : lookupCrates.ResponsesReadable := by
  intro json response response' h h'
  rw [lookupCrates_carries h, lookupCrates_carries h']

theorem answersLookup_places {outside : HostCall → Prop} {w : SystemWorld}
    {later earlier : SystemHistory} {event : Event SystemWorld SystemLabel}
    (hrun : SystemRun lookupCrates outside .empty (later ++ event :: earlier) w)
    (h : answersLookup event.label = true) :
    Places lookupCrates (fun response => response.preimages ≠ []) lookupEvent.id event.label := by
  unfold answersLookup at h
  split at h
  · rename_i lease c revision json method now reply hlabel
    obtain ⟨response, hcarries⟩ := committed_carries hrun hlabel
    rw [hlabel]
    apply Places.respondedNwc (beq_iff_eq.mp h) hcarries
    simp [lookupCrates_carries hcarries, lookupResponse, Response.preimages]
  · cases h

theorem starts_of_start {i : Nat} {start : PayInvoiceRequest} {context : OperationContext}
    {reply : (HostOp.wallet (.startPayment start) context).Reply} {label : SystemLabel}
    (h : label = .act i ⟨.wallet (.startPayment start) context, reply⟩) : starts label = true := by
  rw [h]
  rfl

def lookup : SystemHistory × SystemWorld :=
  play (Job.program lookupCrates) lookupCrates .empty lookedUp

theorem lookup_run : SystemRun lookupCrates managing .empty lookup.1 lookup.2 := by
  apply managing_run
  · intro job _
    rfl
  · intro op host hop
    simp only [lookedUp, List.mem_append, List.mem_cons, List.mem_replicate, List.not_mem_nil,
      Move.outside.injEq, reduceCtorEq, and_false, or_false, false_or] at hop
    exact ⟨_, hop.1⟩

theorem lookupCiphertext_size : lookupCiphertext.utf8ByteSize = 176 := by
  unfold lookupCiphertext
  rw [String.utf8ByteSize_append, String.utf8ByteSize_append]
  decide

theorem lookupCiphertext_plain : containsText ivSeparator lookupCiphertext.toList = false := by
  unfold lookupCiphertext
  rw [String.toList_append, String.toList_append]
  decide +kernel

theorem lookupEventJson_size : lookupEventJson.utf8ByteSize ≤ 65536 := by
  refine le_trans (eventJson_size _ _ _ _) ?_
  rw [lookupCiphertext_size, String.utf8ByteSize_append]
  decide

/-- The lookup is valid under every crates that read it. -/
theorem validate_lookup {x : Crates} (hparsed : x.eventFromJson lookupEventJson = some lookupEvent)
    (hverified : x.verify lookupEvent = true)
    (hhex : x.publicKeyFromHex walletServiceHex = some walletServicePubkey) :
    candidateAuthor x wakePolicy lookupEventJson = .ok clientPubkey ∧
      validateRequestForReplay x wakePolicy lookupEventJson lookupEvent.id clientPubkey
        walletServicePubkey .nip44V2 = .ok (validatedEvent lookupEvent) :=
  validate_sample lookupEventJson_size hparsed hverified rfl rfl rfl hhex
    (ciphertextMatches_of lookupCiphertext_size lookupCiphertext_plain)

theorem lookup_eq : lookup =
    play (quickJob lookupCrates lookupEvent lookupEventJson) lookupCrates .empty lookedUp := by
  apply play_congr
  intro job hjob
  obtain rfl : job = .wake wakePolicy (wakeFor lookupEvent lookupEventJson) := by
    simpa [lookedUp] using hjob
  exact quickJob_eq (by decide) (validate_lookup rfl (by simp [lookupCrates]) rfl)

/-- The lookup ends with its answer and has started no payment; the answer is the connection's
last use. -/
theorem lookup_answered :
    ((lookup.1.head?.any fun event => answersLookup event.label) = true ∧
      (lookup.1.tail.all fun event => !starts event.label) = true ∧
      inSequence lookup.1 = true) ∧
    lookup.2.shared.lastCompletedEventAt connectionId = .ok (some 1010) := by
  rw [lookup_eq]
  decide +kernel

end Sample

/-- A looked-up transaction is shown with its preimage, whoever paid it. -/
theorem lookup_shows_unstarted_preimage :
    ¬ ∀ x : Crates, x.ResponsesReadable → ∀ outside, PaymentsByPrograms outside →
      ∀ (w : SystemWorld) later event earlier,
        SystemRun x outside .empty (later ++ event :: earlier) w →
        Sequential (later ++ event :: earlier) → ∀ e,
          Places x (fun response => response.preimages ≠ []) e event.label → StartedIn earlier e := by
  intro hclaim
  obtain ⟨⟨hanswers, hunstarted, hsequence⟩, -⟩ := Sample.lookup_answered
  have hseq := Sample.sequential_of_inSequence hsequence
  have hrun := Sample.lookup_run
  cases hhistory : Sample.lookup.1 with
  | nil =>
    rw [hhistory] at hanswers
    cases hanswers
  | cons event earlier =>
    rw [hhistory] at hanswers hunstarted hseq hrun
    have hplaces : Places Sample.lookupCrates (fun response => response.preimages ≠ [])
        Sample.lookupEvent.id event.label := by
      rw [← List.nil_append (event :: earlier)] at hrun
      exact Sample.answersLookup_places hrun hanswers
    obtain ⟨start, hstart, i, request, context, reply, hlabel, -⟩ :=
      hclaim _ Sample.lookupCrates_responsesReadable _ Sample.managing_payments _ [] event earlier hrun
        hseq _ hplaces
    have hnone := List.all_eq_true.mp hunstarted start hstart
    rw [Sample.starts_of_start hlabel] at hnone
    cases hnone

end NwcMobile
