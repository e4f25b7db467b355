import NwcMobile.Engine.Alone
import NwcMobile.Engine.Footprint
import NwcMobile.Ledger.PaymentQueue

/-!
The report of a reconciliation pass. What became of an attempt is read off the
wallet's answer and the stage the attempt is in afterwards; the counters of the
report are the numbers of attempts with each outcome, and a pass that asks for
no retry leaves nothing unresolved.
-/

namespace NwcMobile

open Program Fallible Relational Accounting

/-- What the wallet answered about a payment. -/
def statusAnswer : HostCall → Option (PaymentHash × Except HostError PaymentStatus)
  | ⟨.wallet (.paymentStatus hash) _, reply⟩ => some (hash, reply)
  | _ => none

def statusAnswers (calls : List HostCall) : List (PaymentHash × Except HostError PaymentStatus) :=
  calls.filterMap statusAnswer

/-- What becomes of an attempt in a pass. -/
inductive Verdict where
  | notExamined
  | deferred
  | unresolved
  | discarded
  | succeeded
  | failed
deriving DecidableEq, Repr

/-- A verdict that leaves the attempt as it was. -/
def Verdict.keeps : Verdict → Bool
  | .notExamined | .deferred | .unresolved => true
  | .discarded | .succeeded | .failed => false

/-- The verdict on an attempt, by its answer and the ledger afterwards. -/
def verdict (calls : List HostCall) (l : Ledger) (hash : PaymentHash) : Verdict :=
  match (statusAnswers calls).lookup hash with
  | none => .notExamined
  | some (.error _) => .deferred
  | some (.ok _) =>
    match l.stage hash with
    | .absent => .discarded
    | .succeeded => .succeeded
    | .failed => .failed
    | .reserved | .initiated | .pending => .unresolved

namespace PaymentReconciliationReport

/-- Count one attempt. -/
def record (report : PaymentReconciliationReport) : Verdict → PaymentReconciliationReport
  | .notExamined => report
  | .deferred => { report with examined := report.examined + 1, deferred := report.deferred + 1 }
  | .unresolved =>
    { report with examined := report.examined + 1, unresolved := report.unresolved + 1 }
  | .discarded => { report with examined := report.examined + 1, discarded := report.discarded + 1 }
  | .succeeded => { report with examined := report.examined + 1, succeeded := report.succeeded + 1 }
  | .failed => { report with examined := report.examined + 1, failed := report.failed + 1 }

/-- The counters grow by the verdicts. -/
structure Counts (report report' : PaymentReconciliationReport) (verdicts : List Verdict) : Prop where
  examined : report'.examined = report.examined + verdicts.countP (· ≠ .notExamined)
  succeeded : report'.succeeded = report.succeeded + verdicts.count .succeeded
  failed : report'.failed = report.failed + verdicts.count .failed
  discarded : report'.discarded = report.discarded + verdicts.count .discarded
  unresolved : report'.unresolved = report.unresolved + verdicts.count .unresolved
  deferred : report'.deferred = report.deferred + verdicts.count .deferred

theorem Counts.cons {report report' : PaymentReconciliationReport} {v : Verdict}
    {verdicts : List Verdict} (h : Counts (report.record v) report' verdicts) :
    Counts report report' (v :: verdicts) := by
  obtain ⟨hexamined, hsucceeded, hfailed, hdiscarded, hunresolved, hdeferred⟩ := h
  cases v <;> constructor <;> simp_all [record] <;> omega

/-- Attempts that are not examined count nowhere. -/
theorem counts_unexamined (report : PaymentReconciliationReport) (interrupted : Bool)
    {verdicts : List Verdict} (hnone : ∀ v ∈ verdicts, v = .notExamined) :
    Counts report { report with interrupted } verdicts := by
  rw [List.eq_replicate_iff.mpr ⟨rfl, hnone⟩]
  constructor <;> simp [List.countP_replicate, List.count_replicate]

end PaymentReconciliationReport

section Passes

variable {x : Crates} {l l₁ l' : Ledger} {calls first later : List HostCall}
  {attempt : PaymentAttempt} {rest attempts : List PaymentAttempt} {hash : PaymentHash}
  {row : PaymentAttemptRow}

theorem statusAnswers_append : statusAnswers (first ++ later) =
    statusAnswers first ++ statusAnswers later := List.filterMap_append

theorem stage_congr (h : l'.attemptOf hash = l.attemptOf hash) : l'.stage hash = l.stage hash := by
  rw [Ledger.stage, h, Ledger.stage]

/-- What a pass over some attempts does to each payment hash. -/
structure Examined (l l' : Ledger) (attempts : List PaymentAttempt) (calls : List HostCall) :
    Prop where
  frame : ∀ hash ∉ attempts.map PaymentAttempt.paymentHash,
    (statusAnswers calls).lookup hash = none ∧ l'.attemptOf hash = l.attemptOf hash
  kept : ∀ a ∈ attempts, (verdict calls l' a.paymentHash).keeps = true →
    l'.attemptOf a.paymentHash = l.attemptOf a.paymentHash

/-- An attempt's verdict does not depend on what is done about others. -/
theorem verdict_congr (hanswer : (statusAnswers first).lookup hash = (statusAnswers later).lookup hash)
    (hsame : l'.attemptOf hash = l.attemptOf hash) : verdict first l' hash = verdict later l hash := by
  rw [verdict, verdict, hanswer, stage_congr hsame]

theorem Examined.cons (hfirst : Examined l l₁ [attempt] first) (hlater : Examined l₁ l' rest later)
    (hdistinct : attempt.paymentHash ∉ rest.map PaymentAttempt.paymentHash) :
    Examined l l' (attempt :: rest) (first ++ later) ∧
      verdict (first ++ later) l' attempt.paymentHash = verdict first l₁ attempt.paymentHash ∧
      ∀ a ∈ rest, verdict (first ++ later) l' a.paymentHash = verdict later l' a.paymentHash := by
  have hlookup : ∀ hash, (statusAnswers (first ++ later)).lookup hash =
      ((statusAnswers first).lookup hash).or ((statusAnswers later).lookup hash) := by
    intro hash
    rw [statusAnswers_append, List.lookup_append]
  have hhead : verdict (first ++ later) l' attempt.paymentHash =
      verdict first l₁ attempt.paymentHash := by
    obtain ⟨hnone, hsame⟩ := hlater.frame _ hdistinct
    apply verdict_congr _ hsame
    rw [hlookup, hnone, Option.or_none]
  have hother : ∀ hash, hash ≠ attempt.paymentHash →
      (statusAnswers (first ++ later)).lookup hash = (statusAnswers later).lookup hash ∧
        l₁.attemptOf hash = l.attemptOf hash := by
    intro hash hne
    obtain ⟨hnone, hsame⟩ := hfirst.frame hash (by simpa using hne)
    rw [hlookup, hnone, Option.none_or]
    exact ⟨rfl, hsame⟩
  have hne : ∀ a ∈ rest, a.paymentHash ≠ attempt.paymentHash :=
    fun a ha heq => hdistinct (heq ▸ List.mem_map_of_mem ha)
  have hrest : ∀ a ∈ rest, verdict (first ++ later) l' a.paymentHash =
      verdict later l' a.paymentHash :=
    fun a ha => verdict_congr (hother _ (hne a ha)).1 rfl
  refine ⟨⟨?_, ?_⟩, hhead, hrest⟩
  · intro hash hnot
    rw [List.map_cons, List.mem_cons, not_or] at hnot
    obtain ⟨hanswer, hsame⟩ := hother hash hnot.1
    obtain ⟨hnone, hsame'⟩ := hlater.frame hash hnot.2
    exact ⟨hanswer.trans hnone, hsame'.trans hsame⟩
  · rw [List.forall_mem_cons]
    constructor
    · intro hkeeps
      rw [hhead] at hkeeps
      exact (hlater.frame _ hdistinct).2.trans (hfirst.kept attempt List.mem_cons_self hkeeps)
    · intro a ha hkeeps
      rw [hrest a ha] at hkeeps
      exact (hlater.kept a ha hkeeps).trans (hother _ (hne a ha)).2

/-- Without an answer nothing is examined. -/
theorem examined_silent (hnone : statusAnswers calls = []) (attempts : List PaymentAttempt) :
    Examined l l attempts calls where
  frame := by
    intro hash _
    rw [hnone]
    exact ⟨rfl, rfl⟩
  kept := fun _ _ _ => rfl

theorem silent_verdict (hnone : statusAnswers calls = []) (l : Ledger) (hash : PaymentHash) :
    verdict calls l hash = .notExamined := by
  rw [verdict, hnone]
  rfl

/-- The attempt is stored and unresolved. -/
def Waiting (l : Ledger) (attempt : PaymentAttempt) : Prop :=
  ∃ row, l.Stored row attempt ∧ isUnresolved row = true

theorem Waiting.state (h : Waiting l attempt) : attempt.state = .reserved ∨ attempt.state = .pending := by
  obtain ⟨row, hstored, hunresolved⟩ := h
  rw [hstored.state]
  simpa [isUnresolved] using hunresolved

theorem Waiting.attemptOf (h : Waiting l attempt) : ∃ row, l.Stored row attempt ∧
    l.attemptOf attempt.paymentHash = some row := by
  obtain ⟨row, hstored, -⟩ := h
  exact ⟨row, hstored, attemptOf_eq_some.mpr ⟨hstored.mem, hstored.paymentHash.symm⟩⟩

/-- An attempt stays as it is while its row does. -/
theorem Waiting.congr (h : Waiting l attempt)
    (hsame : l'.attemptOf attempt.paymentHash = l.attemptOf attempt.paymentHash) :
    Waiting l' attempt := by
  obtain ⟨row, hstored, hunresolved⟩ := h
  have hrow := attemptOf_eq_some.mpr ⟨hstored.mem, hstored.paymentHash.symm⟩
  rw [← hsame, attemptOf_eq_some] at hrow
  exact ⟨row, ⟨hrow.1, hstored.connectionId, hstored.value⟩, hunresolved⟩

/-- The row of an unresolved attempt is the only one that has its hash. -/
theorem Waiting.row_state (h : Waiting l attempt) (hmem : row ∈ l.paymentAttempts)
    (hhash : row.paymentHash = attempt.paymentHash) : row.state = attempt.state := by
  obtain ⟨stored, hstored, -⟩ := h
  rw [hstored.state, Table.eq_of_key (hasHash_key attempt.paymentHash) hmem hstored.mem
    (by simpa using hhash) (by simpa using hstored.paymentHash.symm)]

theorem Waiting.verdict (h : Waiting l attempt) {status : PaymentStatus}
    (hanswer : statusAnswers calls = [(attempt.paymentHash, .ok status)]) :
    verdict calls l attempt.paymentHash = .unresolved := by
  have hstate := h.state
  obtain ⟨row, hstored, hrow⟩ := h.attemptOf
  rw [hstored.state] at hstate
  simp only [NwcMobile.verdict, hanswer, List.lookup_cons_self, Ledger.stage, hrow,
    PaymentAttemptRow.stage]
  rcases hstate with hreserved | hpending
  · rw [hreserved]
    cases row.initiatedAt.isSome <;> rfl
  · rw [hpending]

theorem answered_verdict {reply : Except HostError PaymentStatus}
    (hanswer : statusAnswers first = [(hash, reply)]) :
    verdict (first ++ later) l hash ≠ .notExamined := by
  rw [verdict, statusAnswers_append, hanswer, List.singleton_append, List.lookup_cons_self]
  cases reply with
  | error e => nofun
  | ok status => cases l.stage hash <;> nofun

theorem settled_verdict {status : PaymentStatus} {row : PaymentAttemptRow}
    (hanswer : statusAnswers calls = [(hash, .ok status)])
    (hrow : l.attemptOf hash = some row) (hsucceeded : row.state = .succeeded) :
    verdict calls l hash = .succeeded := by
  simp [verdict, hanswer, Ledger.stage, hrow, PaymentAttemptRow.stage, hsucceeded]

theorem failed_verdict {status : PaymentStatus} {row : PaymentAttemptRow}
    (hanswer : statusAnswers calls = [(hash, .ok status)])
    (hrow : l.attemptOf hash = some row) (hfailed : row.state = .failed) :
    verdict calls l hash = .failed := by
  simp [verdict, hanswer, Ledger.stage, hrow, PaymentAttemptRow.stage, hfailed]

theorem released_verdict {status : PaymentStatus}
    (hanswer : statusAnswers calls = [(hash, .ok status)]) (hrow : l.attemptOf hash = none) :
    verdict calls l hash = .discarded := by
  simp [verdict, hanswer, Ledger.stage, hrow]

theorem examined_one {reply : Except HostError PaymentStatus}
    (hanswer : statusAnswers calls = [(attempt.paymentHash, reply)])
    (hother : ∀ hash, hash ≠ attempt.paymentHash → l'.attemptOf hash = l.attemptOf hash)
    (hkept : (verdict calls l' attempt.paymentHash).keeps = true →
      l'.attemptOf attempt.paymentHash = l.attemptOf attempt.paymentHash) :
    Examined l l' [attempt] calls where
  frame := by
    intro hash hnot
    rw [List.map_singleton, List.mem_singleton] at hnot
    rw [hanswer, List.lookup_cons, beq_false_of_ne hnot]
    exact ⟨rfl, hother hash hnot⟩
  kept := by
    rw [List.forall_mem_singleton]
    exact hkept

theorem examined_unchanged (l : Ledger) {reply : Except HostError PaymentStatus}
    (hanswer : statusAnswers calls = [(attempt.paymentHash, reply)]) :
    Examined l l [attempt] calls :=
  examined_one hanswer (fun _ _ => rfl) fun _ => rfl

theorem examined_moved {row' : PaymentAttemptRow} {a : PaymentAttempt}
    {reply : Except HostError PaymentStatus}
    (hanswer : statusAnswers calls = [(attempt.paymentHash, reply)])
    (hmoved : Moved l l' row row' a) (hhash : row.paymentHash = attempt.paymentHash)
    (hsettled : (verdict calls l' attempt.paymentHash).keeps = false) :
    Examined l l' [attempt] calls := by
  apply examined_one hanswer
  · intro hash hne
    exact hmoved.attemptOf_other (hhash ▸ hne)
  · intro hkeeps
    rw [hsettled] at hkeeps
    cases hkeeps

/-- One accounting step: the operation commits and the report counts it. -/
theorem alone_accounts (op : UnixTimestamp → PaymentOp)
    {counted report' : PaymentReconciliationReport}
    (h : Alone x l (do
      let now ← clockNow
      let done ← payments (op now)
      pure (done.map fun _ => counted)) calls
      (.ok report' : Except PaymentAccountingError PaymentReconciliationReport) l') :
    report' = counted ∧ statusAnswers calls = [] ∧
      ∃ now, ∃ value : (op now).Value, (op now).run l = .ok (value, l') := by
  obtain ⟨now, rest, rfl, hrest⟩ := Alone.host .clockNow (by simp) h
  obtain ⟨reply, middle, last, rfl, hstep, hlast⟩ := Alone.ledger hrest
  obtain ⟨rfl, hreport, rfl⟩ := exec_done.mp hlast
  cases reply with
  | error e => cases hreport
  | ok value =>
    obtain ⟨random, hrun⟩ := hstep.run_of_ok
    exact ⟨Except.ok.inj hreport, rfl, now, value, hrun⟩

/-- What is accounted for an attempt is counted as what becomes of it. -/
theorem alone_applyStatus {status : PaymentStatus} {report report' : PaymentReconciliationReport}
    {asked : List HostCall} (hwaiting : Waiting l attempt)
    (hasked : statusAnswers asked = [(attempt.paymentHash, .ok status)])
    (h : Alone x l (applyStatus attempt { report with examined := report.examined + 1 } status)
      calls (.ok report') l') :
    Examined l l' [attempt] (asked ++ calls) ∧
      report' = report.record (verdict (asked ++ calls) l' attempt.paymentHash) := by
  have hanswer : statusAnswers calls = [] →
      statusAnswers (asked ++ calls) = [(attempt.paymentHash, .ok status)] := by
    intro hnone
    rw [statusAnswers_append, hasked, hnone, List.append_nil]
  unfold applyStatus at h
  split at h
  · -- An answer about a payment this library has not started releases the reservation.
    obtain ⟨rfl, hnone, now, done, hrelease⟩ :=
      alone_accounts (fun now => .releaseUninitiatedPayment attempt.paymentHash now) h
    obtain ⟨row, hmem, hhash, -, -, hattempts, -⟩ := releaseUninitiatedPayment_ok hrelease
    rw [← hhash] at hattempts
    have hverdict := released_verdict (hanswer hnone) (hhash ▸ attemptOf_deleted hattempts)
    refine ⟨examined_one (hanswer hnone) ?_ ?_, by rw [hverdict]; rfl⟩
    · intro hash hne
      exact attemptOf_deleted_other hattempts (hhash ▸ hne)
    · intro hkeeps
      rw [hverdict] at hkeeps
      cases hkeeps
  · rename_i hdiscloses
    have hunchanged : ∀ {l'}, calls = [] → l' = l → Examined l l' [attempt] (asked ++ calls) ∧
        verdict (asked ++ calls) l' attempt.paymentHash = .unresolved := by
      rintro _ rfl rfl
      exact ⟨examined_unchanged _ (hanswer rfl), hwaiting.verdict (hanswer rfl)⟩
    cases status with
    | unknown =>
      obtain ⟨hcalls, hreport, hsame⟩ := exec_done.mp h
      obtain ⟨hexamined, hverdict⟩ := hunchanged hcalls hsame
      exact ⟨hexamined, by rw [hverdict]; exact Except.ok.inj hreport⟩
    | pending =>
      -- A settlement is disclosed only once the payment is no longer reserved.
      have hnot : attempt.state ≠ .reserved := by
        intro hreserved
        apply hdiscloses
        simp [PaymentAttempt.mayDiscloseSettlement, hreserved]
      simp only [if_neg hnot] at h
      obtain ⟨hcalls, hreport, hsame⟩ := exec_done.mp h
      obtain ⟨hexamined, hverdict⟩ := hunchanged hcalls hsame
      exact ⟨hexamined, by rw [hverdict]; exact Except.ok.inj hreport⟩
    | succeeded preimage amount fee =>
      obtain ⟨rfl, hnone, now, a, hsettle⟩ :=
        alone_accounts (fun now => .markPaymentSucceeded attempt.paymentHash amount fee now) h
      obtain ⟨-, row, hstored, hhash, hstate⟩ | ⟨row, row', _, _, -, -, hhash, hsettled, hmoved⟩ :=
        markPaymentSucceeded_settles hsettle
      · rw [hwaiting.row_state hstored.mem hhash] at hstate
        rcases hwaiting.state with hopen | hopen <;> rw [hopen] at hstate <;> cases hstate
      · have hverdict := settled_verdict (hanswer hnone) (hhash ▸ hmoved.attemptOf) hsettled.state
        exact ⟨examined_moved (hanswer hnone) hmoved hhash (by rw [hverdict]; rfl),
          by rw [hverdict]; rfl⟩
    | failed reason =>
      obtain ⟨rfl, hnone, now, a, hfail⟩ :=
        alone_accounts (fun now => .markPaymentFailed attempt.paymentHash now) h
      obtain ⟨-, row, hstored, hhash, hstate⟩ | ⟨row, row', hhash, hfailed, hmoved⟩ :=
        markPaymentFailed_ok hfail
      · rw [hwaiting.row_state hstored.mem hhash] at hstate
        rcases hwaiting.state with hopen | hopen <;> rw [hopen] at hstate <;> cases hstate
      · have hverdict := failed_verdict (hanswer hnone) (hhash ▸ hmoved.attemptOf) hfailed
        exact ⟨examined_moved (hanswer hnone) hmoved hhash (by rw [hverdict]; rfl),
          by rw [hverdict]; rfl⟩

theorem statusAnswers_looks (h : ∀ call ∈ calls, looksAtDeadline call) :
    statusAnswers calls = [] := by
  rw [statusAnswers, List.filterMap_eq_nil_iff]
  intro call hcall
  obtain ⟨op, reply⟩ := call
  rcases h _ hcall with hop | hop <;> cases hop <;> rfl

/-- What the loop does over some attempts. -/
structure PassOver (l l' : Ledger) (attempts : List PaymentAttempt) (calls : List HostCall)
    (pass pass' : ReconciliationPass) : Prop where
  examined : Examined l l' attempts calls
  counts : pass.report.Counts pass'.report (attempts.map fun a => verdict calls l' a.paymentHash)
  skipped : ∀ a ∈ attempts, a.state = .reserved → a.wasInitiated = true →
    verdict calls l' a.paymentHash = .notExamined
  complete : pass'.skippedWithoutQuery = false → pass'.report.interrupted = false →
    pass.skippedWithoutQuery = false ∧
      ∀ a ∈ attempts, verdict calls l' a.paymentHash ≠ .notExamined

theorem PassOver.cons {pass middle pass' : ReconciliationPass}
    (hfirst : Examined l l₁ [attempt] first)
    (hcount : middle.report = pass.report.record (verdict first l₁ attempt.paymentHash))
    (hskipped : attempt.state = .reserved → attempt.wasInitiated = true →
      verdict first l₁ attempt.paymentHash = .notExamined)
    (hcomplete : middle.skippedWithoutQuery = false →
      pass.skippedWithoutQuery = false ∧ verdict first l₁ attempt.paymentHash ≠ .notExamined)
    (hlater : PassOver l₁ l' rest later middle pass')
    (hdistinct : attempt.paymentHash ∉ rest.map PaymentAttempt.paymentHash) :
    PassOver l l' (attempt :: rest) (first ++ later) pass pass' := by
  obtain ⟨hexamined, hhead, hrest⟩ := hfirst.cons hlater.examined hdistinct
  constructor
  · exact hexamined
  · rw [List.map_cons, hhead, List.map_congr_left hrest]
    apply PaymentReconciliationReport.Counts.cons
    rw [← hcount]
    exact hlater.counts
  · rw [List.forall_mem_cons, hhead]
    refine ⟨hskipped, ?_⟩
    intro a ha
    rw [hrest a ha]
    exact hlater.skipped a ha
  · intro hnoSkip hnoInterrupt
    obtain ⟨hmiddle, hlast⟩ := hlater.complete hnoSkip hnoInterrupt
    obtain ⟨hpass, hnow⟩ := hcomplete hmiddle
    refine ⟨hpass, ?_⟩
    rw [List.forall_mem_cons, hhead]
    refine ⟨hnow, ?_⟩
    intro a ha
    rw [hrest a ha]
    exact hlast a ha

/-- An interrupted loop leaves the attempts that are left alone. -/
theorem passOver_interrupted (hnone : statusAnswers calls = []) (pass : ReconciliationPass) :
    PassOver l l attempts calls pass
      { pass with report := { pass.report with interrupted := true } } where
  examined := examined_silent hnone attempts
  counts := by
    apply PaymentReconciliationReport.counts_unexamined
    simp [silent_verdict hnone]
  skipped := fun a _ _ _ => silent_verdict hnone l a.paymentHash
  complete := nofun

/-- The loop examines its attempts one by one and counts what becomes of each. -/
theorem alone_reconcileAttempts {pass pass' : ReconciliationPass}
    (hwaiting : ∀ a ∈ attempts, Waiting l a)
    (hdistinct : (attempts.map PaymentAttempt.paymentHash).Nodup)
    (h : Alone x l (reconcileAttempts attempts pass) calls (.ok pass') l') :
    PassOver l l' attempts calls pass pass' := by
  induction attempts generalizing l calls pass with
  | nil =>
    obtain ⟨rfl, hpass, rfl⟩ := exec_done.mp h
    obtain rfl := Except.ok.inj hpass
    exact ⟨examined_silent rfl [], PaymentReconciliationReport.counts_unexamined _ _ (by simp),
      by simp, fun hskipped _ => ⟨hskipped, by simp⟩⟩
  | cons attempt rest ih =>
    rw [List.forall_mem_cons] at hwaiting
    rw [List.map_cons, List.nodup_cons] at hdistinct
    have hlater : ∀ {first l₁}, Examined l l₁ [attempt] first → ∀ a ∈ rest, Waiting l₁ a := by
      intro first l₁ hfirst a ha
      apply (hwaiting.2 a ha).congr
      apply (hfirst.frame a.paymentHash _).2
      rw [List.map_singleton, List.mem_singleton]
      exact fun heq => hdistinct.1 (heq ▸ List.mem_map_of_mem ha)
    unfold reconcileAttempts at h
    split at h
    · -- A reservation that may have reached the wallet is left alone.
      have hnothing : Examined l l [attempt] [] := examined_silent rfl [attempt]
      have hloop := ih hwaiting.2 hdistinct.2 h
      have hpass : PassOver l l' (attempt :: rest) ([] ++ calls) pass pass' := by
        apply PassOver.cons hnothing _ _ _ hloop hdistinct.1
        · rfl
        · exact fun _ _ => rfl
        · exact fun hskipped => by cases hskipped
      exact hpass
    · rename_i hfresh
      obtain ⟨context, looks, asked, rfl, hlooks, hasked⟩ := Alone.deadline h
      cases context with
      | none =>
        obtain ⟨rfl, hpass, rfl⟩ := exec_done.mp hasked
        obtain rfl := Except.ok.inj hpass
        rw [List.append_nil]
        exact passOver_interrupted (statusAnswers_looks hlooks) pass
      | some context =>
        obtain ⟨reply, answered, rfl, hanswered⟩ :=
          Alone.host (.wallet (.paymentStatus attempt.paymentHash) context) (fun o heq => by cases heq)
            hasked
        have hanswer : statusAnswers (looks ++
            [⟨.wallet (.paymentStatus attempt.paymentHash) context, reply⟩]) =
            [(attempt.paymentHash, reply)] := by
          rw [statusAnswers_append, statusAnswers_looks hlooks]
          rfl
        rw [List.append_cons]
        cases reply with
        | error e =>
          have hdeferred : verdict (looks ++
              [⟨.wallet (.paymentStatus attempt.paymentHash) context, .error e⟩]) l
              attempt.paymentHash = .deferred := by
            rw [verdict, hanswer, List.lookup_cons_self]
          have hexamined := examined_unchanged l hanswer
          have hloop := ih (hlater hexamined) hdistinct.2 hanswered
          apply PassOver.cons hexamined _ _ _ hloop hdistinct.1
          · rw [hdeferred]
            rfl
          · exact fun hreserved hmarked => absurd ⟨hreserved, hmarked⟩ hfresh
          · rw [hdeferred]
            exact fun hskipped => ⟨hskipped, fun heq => by cases heq⟩
        | ok status =>
          obtain ⟨accounted, updated, middle, last, rfl, haccounted, hlast⟩ := exec_bind.mp hanswered
          cases updated with
          | error e => cases (exec_done.mp hlast).2.1
          | ok report =>
            obtain ⟨hexamined, rfl⟩ := alone_applyStatus hwaiting.1 hanswer haccounted
            have hloop := ih (hlater hexamined) hdistinct.2 hlast
            rw [← List.append_assoc]
            apply PassOver.cons hexamined _ _ _ hloop hdistinct.1
            · rfl
            · exact fun hreserved hmarked => absurd ⟨hreserved, hmarked⟩ hfresh
            · exact fun hskipped => ⟨hskipped, answered_verdict hanswer⟩

/-- The counts over a batch are those over all unresolved attempts, if the others
are not examined. -/
theorem count_verdicts {hashes : List PaymentHash} {unresolved : Finset PaymentHash}
    {v : PaymentHash → Verdict} {c : Verdict} (hdistinct : hashes.Nodup)
    (hsub : ∀ hash ∈ hashes, hash ∈ unresolved)
    (hrest : ∀ hash ∉ hashes, v hash = .notExamined) (hc : c ≠ .notExamined) :
    (hashes.map v).count c = (unresolved.filter fun hash => v hash = c).card := by
  have hfilter : unresolved.filter (fun hash => v hash = c) =
      (hashes.filter fun hash => v hash = c).toFinset := by
    ext hash
    rw [Finset.mem_filter, List.mem_toFinset, List.mem_filter, decide_eq_true_iff]
    constructor
    · rintro ⟨-, hverdict⟩
      refine ⟨?_, hverdict⟩
      by_contra hnot
      exact hc (hverdict.symm.trans (hrest hash hnot))
    · exact fun ⟨hmem, hverdict⟩ => ⟨hsub hash hmem, hverdict⟩
  rw [hfilter, List.toFinset_card_of_nodup (hdistinct.filter _), List.count, List.countP_map,
    List.countP_eq_length_filter]
  rfl

/-- An attempt that did not stay as it was has reached its end. -/
theorem stage_of_verdict (h : (verdict calls l hash).keeps = false) :
    l.stage hash = .succeeded ∨ l.stage hash = .failed ∨ l.stage hash = .absent := by
  unfold verdict at h
  split at h
  · cases h
  · cases h
  · cases hstage : l.stage hash <;> simp_all [Verdict.keeps]

end Passes

section Reports

variable {x : Crates} {l l' : Ledger} {calls : List HostCall} {maxAttempts : Nat}

theorem stage_eq_initiated {row : PaymentAttemptRow} (h : row.stage = .initiated) :
    row.state = .reserved ∧ row.initiatedAt.isSome = true := by
  unfold PaymentAttemptRow.stage at h
  cases hstate : row.state with
  | reserved =>
    simp only [hstate] at h
    split at h
    · rename_i hmarked
      exact ⟨rfl, hmarked⟩
    · cases h
  | pending => simp [hstate] at h
  | succeeded => simp [hstate] at h
  | failed => simp [hstate] at h

/-- A selected batch: distinct unresolved attempts, all of them unless there are more. -/
theorem loaded_batch {limit : Nat} {attempts : List PaymentAttempt} {more : Bool}
    (h : l.loadUnresolvedPaymentAttempts limit = .ok ((attempts, more), l')) :
    (∀ a ∈ attempts, Waiting l' a) ∧ (attempts.map PaymentAttempt.paymentHash).Nodup ∧
      (∀ hash ∈ attempts.map PaymentAttempt.paymentHash, hash ∈ l.unresolved) ∧
      (more = false → ∀ hash ∈ l.unresolved, hash ∈ attempts.map PaymentAttempt.paymentHash) := by
  obtain ⟨table, hrequeued, hhashes, hmore⟩ := loadUnresolved_selects h
  obtain ⟨hqueue, -, hstored⟩ := loadUnresolvedPaymentAttempts_ok h
  have hsame : Ledger.unresolved { l with paymentAttempts := table } = l.unresolved :=
    Requeued.unresolved hrequeued
  have hsub : ∀ hash ∈ attempts.map PaymentAttempt.paymentHash, hash ∈ l.unresolved := by
    intro hash hmem
    rw [hhashes] at hmem
    rw [← hsame, ← mem_reconciliationQueue]
    exact List.mem_of_mem_take hmem
  refine ⟨?_, ?_, hsub, ?_⟩
  · intro a ha
    obtain ⟨row, hrow⟩ := hstored a ha
    have hmem := hsub a.paymentHash (List.mem_map_of_mem ha)
    rw [← hqueue.unresolved] at hmem
    obtain ⟨waiting, hwaiting, hselects, hhash⟩ := mem_unresolved.mp hmem
    have heq : row = waiting := Table.eq_of_key (hasHash_key a.paymentHash) hrow.mem hwaiting
      (by simpa using hrow.paymentHash.symm) (by simpa using hhash)
    exact ⟨row, hrow, heq ▸ unresolved_of_reconcilable hselects⟩
  · rw [hhashes]
    exact (reconciliationQueue_nodup _).sublist (List.take_sublist _ _)
  · intro hall hash hmem
    rw [hmore, decide_eq_false_iff_not, Nat.not_lt] at hall
    rw [hhashes, List.take_of_length_le hall, mem_reconciliationQueue, hsame]
    exact hmem

/-- A pass asks the wallet for statuses only. -/
theorem alone_reconcile_asks {result : Except PaymentReconciliationError PaymentReconciliationReport}
    (h : Alone x l (reconcile maxAttempts) calls result l') {call : HostCall} (hcall : call ∈ calls)
    {op : WalletOp} {context : OperationContext} (hop : call.op = .wallet op context) :
    ∃ hash, op = .paymentStatus hash := by
  obtain ⟨-, hallowed⟩ := h.spec (within_reconcile : Within reconciling [] _)
  obtain ⟨past, hactivity⟩ := hallowed call hcall
  rw [hop] at hactivity
  cases op with
  | paymentStatus hash => exact ⟨hash, rfl⟩
  | _ => cases hactivity

/-- The report of a pass tells what became of the unresolved attempts. -/
structure Truthful (l l' : Ledger) (calls : List HostCall) (report : PaymentReconciliationReport) :
    Prop where
  examined : report.examined = report.succeeded + report.failed + report.discarded +
    report.unresolved + report.deferred
  succeeded : report.succeeded =
    (l.unresolved.filter fun hash => verdict calls l' hash = .succeeded).card
  failed : report.failed = (l.unresolved.filter fun hash => verdict calls l' hash = .failed).card
  discarded : report.discarded =
    (l.unresolved.filter fun hash => verdict calls l' hash = .discarded).card
  unresolved : report.unresolved =
    (l.unresolved.filter fun hash => verdict calls l' hash = .unresolved).card
  deferred : report.deferred =
    (l.unresolved.filter fun hash => verdict calls l' hash = .deferred).card
  kept : ∀ hash, (verdict calls l' hash).keeps = true →
    l'.loadPaymentAttempt hash = l.loadPaymentAttempt hash
  skipped : ∀ hash, l.stage hash = .initiated → verdict calls l' hash = .notExamined
  complete : report.needsRetry = false → ∀ hash ∈ l.unresolved,
    l'.stage hash = .succeeded ∨ l'.stage hash = .failed ∨ l'.stage hash = .absent

/-- A pass stopped before it loads a batch examines nothing. -/
theorem truthful_interrupted (hnone : statusAnswers calls = []) :
    Truthful l l calls { emptyReport with interrupted := true, needsRetry := true } := by
  have hverdict := silent_verdict hnone l
  constructor
  case complete => nofun
  case kept => exact fun _ _ => rfl
  case skipped => exact fun hash _ => hverdict hash
  all_goals simp [emptyReport, hverdict]

theorem sum_of_counts {report : PaymentReconciliationReport} {verdicts : List Verdict}
    (h : emptyReport.Counts report verdicts) : report.examined = report.succeeded + report.failed +
      report.discarded + report.unresolved + report.deferred := by
  have hsplit : verdicts.countP (· ≠ .notExamined) = verdicts.count .succeeded +
      verdicts.count .failed + verdicts.count .discarded + verdicts.count .unresolved +
      verdicts.count .deferred := by
    clear h
    induction verdicts with
    | nil => rfl
    | cons v rest ih =>
      rw [List.countP_cons, ih]
      simp only [List.count_cons]
      cases v <;> simp <;> omega
  obtain ⟨hexamined, hsucceeded, hfailed, hdiscarded, hunresolved, hdeferred⟩ := h
  simp only [emptyReport, Nat.zero_add] at *
  omega

/-- A pass that loads a batch and examines it reports truthfully. -/
theorem truthful_examined {limit : Nat} {attempts : List PaymentAttempt} {more : Bool}
    {loaded : Ledger} {pass : ReconciliationPass} {earlier : List HostCall}
    (hload : l.loadUnresolvedPaymentAttempts limit = .ok ((attempts, more), loaded))
    (hsilent : statusAnswers earlier = [])
    (h : PassOver loaded l' attempts calls ⟨emptyReport, false⟩ pass) :
    Truthful l l' (earlier ++ calls) { pass.report with
      needsRetry := more || pass.skippedWithoutQuery || pass.report.interrupted ||
        pass.report.unresolved != 0 || pass.report.deferred != 0 } := by
  have hanswers : ∀ hash, verdict (earlier ++ calls) l' hash = verdict calls l' hash := by
    intro hash
    rw [verdict, statusAnswers_append, hsilent, List.nil_append, verdict]
  obtain ⟨hwaiting, hdistinct, hsub, hall⟩ := loaded_batch hload
  obtain ⟨hrequeued, -, -⟩ := loadUnresolvedPaymentAttempts_ok hload
  have hrest : ∀ hash ∉ attempts.map PaymentAttempt.paymentHash,
      verdict calls l' hash = .notExamined := by
    intro hash hnot
    rw [verdict, (h.examined.frame hash hnot).1]
  have hcount : ∀ c, c ≠ .notExamined →
      (attempts.map fun a => verdict calls l' a.paymentHash).count c =
        (l.unresolved.filter fun hash => verdict calls l' hash = c).card := by
    intro c hc
    rw [← count_verdicts hdistinct hsub hrest hc, List.map_map]
    rfl
  have hcounts := h.counts
  have hkept : ∀ hash, (verdict calls l' hash).keeps = true →
      l'.attemptOf hash = loaded.attemptOf hash := by
    intro hash hkeeps
    by_cases hmem : hash ∈ attempts.map PaymentAttempt.paymentHash
    · obtain ⟨a, ha, rfl⟩ := List.mem_map.mp hmem
      exact h.examined.kept a ha hkeeps
    · exact (h.examined.frame hash hmem).2
  constructor
  · have hsum := sum_of_counts hcounts
    exact hsum
  · simpa [hanswers, emptyReport, hcount] using hcounts.succeeded
  · simpa [hanswers, emptyReport, hcount] using hcounts.failed
  · simpa [hanswers, emptyReport, hcount] using hcounts.discarded
  · simpa [hanswers, emptyReport, hcount] using hcounts.unresolved
  · simpa [hanswers, emptyReport, hcount] using hcounts.deferred
  · intro hash hkeeps
    rw [hanswers] at hkeeps
    rw [← hrequeued.loadPaymentAttempt]
    change (l'.attemptOf hash).mapM hydrateAttempt = (loaded.attemptOf hash).mapM hydrateAttempt
    rw [hkept hash hkeeps]
  · intro hash hinitiated
    rw [hanswers]
    by_cases hmem : hash ∈ attempts.map PaymentAttempt.paymentHash
    · obtain ⟨a, ha, rfl⟩ := List.mem_map.mp hmem
      obtain ⟨row, hstored, hrow⟩ := (hwaiting a ha).attemptOf
      rw [← hrequeued.stage, Ledger.stage, hrow] at hinitiated
      have hmarked := stage_eq_initiated hinitiated
      apply h.skipped a ha (hstored.state.trans hmarked.1)
      rw [PaymentAttempt.wasInitiated, hstored.initiatedAt]
      exact hmarked.2
    · exact hrest hash hmem
  · intro hretry hash hmem
    simp only [Bool.or_eq_false_iff, bne_eq_false_iff_eq] at hretry
    obtain ⟨⟨⟨⟨hmore, hskipped⟩, hinterrupted⟩, hunresolved⟩, hdeferred⟩ := hretry
    have hexamined := (h.complete hskipped hinterrupted).2
    obtain ⟨a, ha, rfl⟩ := List.mem_map.mp (hall hmore hash hmem)
    have hne : ∀ c, (attempts.map fun a => verdict calls l' a.paymentHash).count c = 0 →
        verdict calls l' a.paymentHash ≠ c := by
      intro c hzero heq
      rw [List.count_eq_zero] at hzero
      exact hzero (heq ▸ List.mem_map_of_mem ha)
    have hnotUnresolved := hne .unresolved (by
      have hcounted := hcounts.unresolved
      rw [hunresolved] at hcounted
      omega)
    have hnotDeferred := hne .deferred (by
      have hcounted := hcounts.deferred
      rw [hdeferred] at hcounted
      omega)
    have hasked := hexamined a ha
    have hsettled : (verdict calls l' a.paymentHash).keeps = false := by
      cases hverdict : verdict calls l' a.paymentHash with
      | notExamined => exact absurd hverdict hasked
      | unresolved => exact absurd hverdict hnotUnresolved
      | deferred => exact absurd hverdict hnotDeferred
      | discarded => rfl
      | succeeded => rfl
      | failed => rfl
    exact stage_of_verdict hsettled

/-- A reconciliation pass that runs alone asks for statuses only, and its report
is truthful. -/
theorem reconcile_report_is_truthful
    {result : Except PaymentReconciliationError PaymentReconciliationReport}
    (h : Alone x l (reconcile maxAttempts) calls result l') :
    (∀ call ∈ calls, ∀ op context, call.op = .wallet op context → ∃ hash, op = .paymentStatus hash) ∧
      ∀ report, result = .ok report → Truthful l l' calls report := by
  refine ⟨fun call hcall op context hop => alone_reconcile_asks h hcall hop, ?_⟩
  rintro report rfl
  unfold reconcile at h
  split at h
  · cases (exec_done.mp h).2.1
  · obtain ⟨context, looks, rest, rfl, hlooks, hrest⟩ := Alone.deadline h
    have hsilent := statusAnswers_looks hlooks
    cases context with
    | none =>
      obtain ⟨rfl, hreport, rfl⟩ := exec_done.mp hrest
      obtain rfl := Except.ok.inj hreport
      rw [List.append_nil]
      exact truthful_interrupted hsilent
    | some context =>
      obtain ⟨reply, loaded, examined, rfl, hstep, hexamined⟩ := Alone.ledger hrest
      cases reply with
      | error e => cases (exec_done.mp hexamined).2.1
      | ok batch =>
        obtain ⟨random, hload⟩ := hstep.run_of_ok
        obtain ⟨during, pass, middle, last, rfl, hpass, hlast⟩ := exec_bind.mp hexamined
        cases pass with
        | error e => cases (exec_done.mp hlast).2.1
        | ok pass =>
          obtain ⟨rfl, hreport, rfl⟩ := exec_done.mp hlast
          obtain rfl := Except.ok.inj hreport
          obtain ⟨hwaiting, hdistinct, -⟩ := loaded_batch hload
          rw [List.append_nil, List.append_cons]
          apply truthful_examined hload
          · rw [statusAnswers_append, hsilent]
            rfl
          · exact alone_reconcileAttempts hwaiting hdistinct hpass

end Reports

namespace Sample

/-- Of three attempts the first is with the wallet. -/
def reconcilable : Ledger :=
  (performAll crates waitingAttempts
    [payment (.markPaymentPending ⟨1⟩ 1050), payment (.markPaymentInitiated ⟨1⟩ 1040)]).2

/-- A wallet that has settled every payment. -/
def settledScript : HostScript :=
  { script 1100 1 with
    wallet := fun op =>
      match op with
      | .paymentStatus _ => .ok (.succeeded ⟨5⟩ 1000 0)
      | _ => .error ⟨.unavailable⟩ }

def reconciledPass := runAlone crates settledScript (reconcile 100) reconcilable

end Sample

theorem reconcile_report_is_truthful_settled :
    ∃ report, Sample.reconciledPass.2.1 = .ok report ∧ report.succeeded = 1 ∧
      report.discarded = 2 ∧ report.needsRetry = false ∧
      Truthful Sample.reconcilable Sample.reconciledPass.2.2 Sample.reconciledPass.1 report := by
  have hpass := runAlone_alone Sample.crates Sample.settledScript (reconcile 100)
    Sample.reconcilable
  have hchecked : Sample.reconciledPass.2.1.toOption.any (fun report => report.succeeded == 1 &&
      report.discarded == 2 && !report.needsRetry) = true := by
    decide
  cases hresult : Sample.reconciledPass.2.1 with
  | error e =>
    rw [hresult] at hchecked
    cases hchecked
  | ok report =>
    rw [hresult] at hchecked
    simp only [Except.toOption, Option.any_some, Bool.and_eq_true, beq_iff_eq,
      Bool.not_eq_true'] at hchecked
    obtain ⟨⟨hsucceeded, hdiscarded⟩, hretry⟩ := hchecked
    exact ⟨report, rfl, hsucceeded, hdiscarded, hretry,
      (reconcile_report_is_truthful hpass).2 report hresult⟩

end NwcMobile
