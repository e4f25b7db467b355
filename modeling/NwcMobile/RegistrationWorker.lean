import NwcMobile.Engine.System
import NwcMobile.Ledger.Outbox

/-!
The wake-registration worker: one bounded pass that applies due changes at the provider
and acknowledges or defers them. Any number of passes run over one ledger, with refreshes
and other ledger calls in between. A worker in flight holds changes that were loaded
before a refresh; whether their completions can be told from those of the refreshed row
depends on the times of the two.
-/

namespace NwcMobile

open Program Prog Fallible Relational Transition Concurrent Registration

/-- What a worker does: calls of the host, and calls of the provider. -/
inductive WorkerOp where
  | host (op : HostOp)
  | apply (change : WakeRegistrationChange) (context : OperationContext)

abbrev WorkerOp.Reply : WorkerOp → Type
  | .host op => op.Reply
  | .apply .. => Except HostError Unit

abbrev WorkerProg := Prog WorkerOp WorkerOp.Reply

abbrev WorkerCall := Call WorkerOp WorkerOp.Reply

abbrev WorkerLog := Log WorkerOp WorkerOp.Reply

abbrev WorkerOp.registration (op : RegistrationOp) : WorkerOp := .host (.ledger (.registration op))

inductive WakeRegistrationWorkerError where
  | outbox (error : WakeRegistrationError)
deriving DecidableEq, Repr

/-- Counts of one bounded pass. -/
structure WakeRegistrationWorkerReport where
  examined : Nat
  applied : Nat
  deferred : Nat
  superseded : Nat
  interrupted : Bool
  needsRetry : Bool
deriving DecidableEq, Repr

namespace WakeRegistrationWorker

def initialRetryDelay : Nat := 5

def maxRetryDelay : Nat := 60 * 60

/-- Exponential in the number of attempts, up to the cap. -/
def retryDelay (attemptCount : Nat) : Duration :=
  .fromSecs (min (initialRetryDelay * 2 ^ min attemptCount 16) maxRetryDelay)

def ask (op : HostOp) : WorkerProg op.Reply := perform (WorkerOp.host op)

def registration (op : RegistrationOp) : WorkerProg (Except WakeRegistrationError op.Value) :=
  perform (WorkerOp.registration op)

/-- `WakeRegistrationTransport::apply`, at the configured server. -/
def apply (change : WakeRegistrationChange) (context : OperationContext) :
    WorkerProg (Except HostError Unit) := perform (WorkerOp.apply change context)

/-- `OperationDeadline::context`. -/
def context : WorkerProg (Option OperationContext) := do
  let cancelled ← ask .isCancelled
  if cancelled then pure none
  else do
    let remaining ← ask .deadlineRemaining
    pure (if remaining.isZero then none else some ⟨remaining⟩)

/-- What a completion of a change counts as; a superseded change is no failure. -/
def settle (completed : Except WakeRegistrationError Unit) (done : WakeRegistrationWorkerReport)
    (report : WakeRegistrationWorkerReport) :
    Except WakeRegistrationWorkerError WakeRegistrationWorkerReport :=
  match completed with
  | .ok _ => .ok done
  | .error error =>
    if error = .staleChange then .ok { report with superseded := report.superseded + 1 }
    else .error (.outbox error)

/-- The loop over the loaded changes. -/
def applyChanges : List WakeRegistrationChange → WakeRegistrationWorkerReport →
    WorkerProg (Except WakeRegistrationWorkerError WakeRegistrationWorkerReport)
  | [], report => pure (.ok report)
  | change :: rest, report => do
    let granted ← context
    match granted with
    | none => pure (.ok { report with interrupted := true })
    | some granted => do
      let report := { report with examined := report.examined + 1 }
      let applied ← apply change granted
      match applied with
      | .ok _ => do
        let acknowledged ← registration (.acknowledgeWakeRegistration change)
        match settle acknowledged { report with applied := report.applied + 1 } report with
        | .error error => pure (.error error)
        | .ok report => applyChanges rest report
      | .error error =>
        if error.kind = .cancelled then pure (.ok { report with interrupted := true })
        else do
          let now ← ask .clockNow
          let deferred ← registration
            (.retryWakeRegistration change now (retryDelay change.attemptCount))
          match settle deferred { report with deferred := report.deferred + 1 } report with
          | .error error => pure (.error error)
          | .ok report => applyChanges rest report

def run (maximumRows : Nat) :
    WorkerProg (Except WakeRegistrationWorkerError WakeRegistrationWorkerReport) := do
  let now ← ask .clockNow
  let loaded ← registration (.loadDueWakeRegistrations now maximumRows)
  match loaded with
  | .error error => pure (.error (.outbox error))
  | .ok changes => do
    let processed ← applyChanges changes ⟨0, 0, 0, 0, false, false⟩
    pure (processed.map fun report =>
      { report with needsRetry := report.interrupted || report.deferred != 0 ||
          report.superseded != 0 || changes.length == maximumRows })

end WakeRegistrationWorker

/-- The ledger answers its own operations; the host and the provider answer the others as
they like. -/
inductive WorkerAnswers (x : Crates) (l : Ledger) : WorkerCall → Ledger → Prop
  | host {op : HostOp} {reply : op.Reply} {l' : Ledger} (h : HostAnswers x l ⟨op, reply⟩ l') :
      WorkerAnswers x l ⟨.host op, reply⟩ l'
  | provider {change : WakeRegistrationChange} {context : OperationContext}
      {reply : Except HostError Unit} : WorkerAnswers x l ⟨.apply change context, reply⟩ l

/-- Any other ledger call may come in between; changes are completed by workers only. -/
structure BesideWorkers (call : WorkerCall) : Prop where
  ledger : ∃ op, call.op = .host (.ledger op)
  acknowledges : ∀ change, call.op ≠ .registration (.acknowledgeWakeRegistration change)
  defers : ∀ change now delay, call.op ≠ .registration (.retryWakeRegistration change now delay)

abbrev WorkerResult := Except WakeRegistrationWorkerError WakeRegistrationWorkerReport

abbrev WorkerWorld := World Ledger Nat WorkerOp WorkerOp.Reply WorkerResult

abbrev WorkerHistory := History Ledger Nat WorkerOp WorkerOp.Reply WorkerResult

abbrev WorkerStep (x : Crates) : WorkerWorld → Label Nat WorkerOp WorkerOp.Reply → WorkerWorld → Prop :=
  Concurrent.Step WakeRegistrationWorker.run (WorkerAnswers x) BesideWorkers

/-- Worker passes over one ledger that starts empty, interleaved with refreshes and any other
ledger calls. -/
abbrev WorkerRun (x : Crates) : WorkerHistory → WorkerWorld → Prop :=
  Run (WorkerStep x) ⟨.empty, []⟩

/-- The ledger call a label makes, if any. -/
def workerLedgerCall : Label Nat WorkerOp WorkerOp.Reply → Option LedgerCall
  | .act _ ⟨.host op, reply⟩ => hostLedgerCall ⟨op, reply⟩
  | .outside ⟨.host op, reply⟩ => hostLedgerCall ⟨op, reply⟩
  | _ => none

/-- Some worker, or some other caller, is handed the change. -/
def HandedOut (event : Event WorkerWorld (Label Nat WorkerOp WorkerOp.Reply))
    (change : WakeRegistrationChange) : Prop :=
  ∃ call, workerLedgerCall event.label = some call ∧ HandsOut call change

section Programs

open WakeRegistrationWorker

variable {log : WorkerLog} {changes : List WakeRegistrationChange}

/-- The changes were loaded together. -/
def Loaded (log : WorkerLog) (changes : List WakeRegistrationChange) : Prop :=
  ∃ newer older now rows all,
    log = newer ++ ⟨.registration (.loadDueWakeRegistrations now rows), .ok all⟩ :: older ∧
      ∀ change ∈ changes, change ∈ all

/-- The provider accepted the change, after it was loaded. -/
def Accepted (log : WorkerLog) (change : WakeRegistrationChange) : Prop :=
  ∃ newer older context, log = newer ++ ⟨.apply change context, .ok ()⟩ :: older ∧
    Loaded older [change]

/-- A worker acknowledges what the provider accepted. -/
def WorkerGuard (log : WorkerLog) (op : WorkerOp) : Prop :=
  ∀ change, op = .registration (.acknowledgeWakeRegistration change) → Accepted log change

theorem Loaded.cons (h : Loaded log changes) (call : WorkerCall) : Loaded (call :: log) changes := by
  obtain ⟨newer, older, now, rows, all, rfl, hall⟩ := h
  exact ⟨call :: newer, older, now, rows, all, rfl, hall⟩

theorem Loaded.sub {fewer : List WakeRegistrationChange} (h : Loaded log changes)
    (hsub : fewer ⊆ changes) : Loaded log fewer := by
  obtain ⟨newer, older, now, rows, all, heq, hall⟩ := h
  exact ⟨newer, older, now, rows, all, heq, fun change hmem => hall change (hsub hmem)⟩

theorem guard_of_ne {op : WorkerOp}
    (h : ∀ change, op ≠ .registration (.acknowledgeWakeRegistration change)) :
    WorkerGuard log op := fun change heq => absurd heq (h change)

theorem guarded_context (h : Loaded log changes) :
    Spec WorkerGuard log context fun log' _ => Loaded log' changes := by
  refine ⟨guard_of_ne fun change heq => (by cases heq), fun cancelled => ?_⟩
  cases cancelled with
  | true => exact h.cons _
  | false => exact ⟨guard_of_ne fun change heq => (by cases heq), fun _ => (h.cons _).cons _⟩

theorem guarded_applyChanges {report : WakeRegistrationWorkerReport} (h : Loaded log changes) :
    Spec WorkerGuard log (applyChanges changes report) fun _ _ => True := by
  induction changes generalizing log report with
  | nil => trivial
  | cons change rest ih =>
    unfold applyChanges
    refine (guarded_context h).seq fun log₁ granted h₁ => ?_
    cases granted with
    | none => trivial
    | some granted =>
      refine ⟨guard_of_ne fun change heq => (by cases heq), fun applied => ?_⟩
      have h₂ := h₁.cons ⟨.apply change granted, applied⟩
      cases applied with
      | ok accepted =>
        refine ⟨?_, fun acknowledged => ?_⟩
        · intro change' heq
          cases heq
          exact ⟨[], log₁, granted, rfl, h₁.sub (by simp)⟩
        · dsimp only [Prog.bind]
          split
          · trivial
          · exact ih ((h₂.cons _).sub (List.subset_cons_self _ _))
      | error error =>
        dsimp only [Prog.bind]
        split
        · trivial
        · refine ⟨guard_of_ne fun change heq => (by cases heq), fun now =>
            ⟨guard_of_ne fun change heq => (by cases heq), fun deferred => ?_⟩⟩
          dsimp only [Prog.bind]
          split
          · trivial
          · exact ih (((h₂.cons _).cons _).sub (List.subset_cons_self _ _))

theorem guarded_run (maximumRows : Nat) :
    Spec WorkerGuard [] (run maximumRows) fun _ _ => True := by
  refine ⟨guard_of_ne fun change heq => (by cases heq), fun now =>
    ⟨guard_of_ne fun change heq => (by cases heq), fun loaded => ?_⟩⟩
  cases loaded with
  | error error => trivial
  | ok changes =>
    refine (guarded_applyChanges ?_).seq fun log' processed _ => (trivial : True)
    exact ⟨[], _, now, maximumRows, changes, rfl, fun _ hmem => hmem⟩

end Programs

/-- Whether the step refreshes the outbox. -/
def refreshes (label : Label Nat WorkerOp WorkerOp.Reply) : Bool :=
  match workerLedgerCall label with
  | some ⟨.registration (.requeueActiveWakeRegistrationsWithState ..), _⟩ => true
  | _ => false

section Steps

variable {x : Crates} {w w' : WorkerWorld} {label : Label Nat WorkerOp WorkerOp.Reply}
  {op : LedgerOp} {reply : op.Reply}

theorem WorkerAnswers.ledger {l l' : Ledger} {call : WorkerCall} (h : WorkerAnswers x l call l')
    (label : WorkerCall → Label Nat WorkerOp WorkerOp.Reply)
    (hlabel : ∀ op reply, workerLedgerCall (label ⟨.host op, reply⟩) = hostLedgerCall ⟨op, reply⟩)
    (happly : ∀ change context reply, workerLedgerCall (label ⟨.apply change context, reply⟩) = none) :
    (∃ ledgerCall, workerLedgerCall (label call) = some ledgerCall ∧ LedgerStep x l ledgerCall l') ∨
      (workerLedgerCall (label call) = none ∧ l' = l) := by
  cases h with
  | host h =>
    rw [hlabel]
    exact h.ledgerStep
  | provider => exact Or.inr ⟨happly _ _ _, rfl⟩

/-- Each step is one ledger step, or leaves the ledger alone. -/
theorem WorkerStep.ledger (h : WorkerStep x w label w') :
    (∃ call, workerLedgerCall label = some call ∧ LedgerStep x w.shared call w'.shared) ∨
      (workerLedgerCall label = none ∧ w'.shared = w.shared) := by
  cases h with
  | spawn job => exact Or.inr ⟨rfl, rfl⟩
  | @act i t op next reply s hthread hlive hnext hanswer =>
    exact hanswer.ledger (.act i) (fun _ _ => rfl) fun _ _ _ => rfl
  | crash hthread => exact Or.inr ⟨rfl, rfl⟩
  | outside hout hanswer => exact hanswer.ledger .outside (fun _ _ => rfl) fun _ _ _ => rfl

theorem WorkerStep.ledgerStep (h : WorkerStep x w label w')
    (hcall : workerLedgerCall label = some ⟨op, reply⟩) :
    LedgerStep x w.shared ⟨op, reply⟩ w'.shared := by
  rcases h.ledger with ⟨call, hlabel, hstep⟩ | ⟨hnone, -⟩
  · rw [hcall, Option.some.injEq] at hlabel
    rwa [hlabel]
  · rw [hcall] at hnone
    cases hnone

theorem WorkerStep.beside {call : WorkerCall} (h : WorkerStep x w (.outside call) w') :
    BesideWorkers call := by
  cases h with
  | outside hout hanswer => exact hout

theorem workerLedgerCall_eq_some (h : workerLedgerCall label = some ⟨op, reply⟩) :
    (∃ i, label = .act i ⟨.host (.ledger op), reply⟩) ∨
      label = .outside ⟨.host (.ledger op), reply⟩ := by
  cases label with
  | spawn job => cases h
  | crash i => cases h
  | act i call =>
    obtain ⟨workerOp, answer⟩ := call
    cases workerOp with
    | apply change context => cases h
    | host hostOp =>
      obtain ⟨hop, hreply⟩ := Call.mk.inj (hostLedgerCall_eq_some h)
      subst hop
      cases hreply
      exact Or.inl ⟨i, rfl⟩
  | outside call =>
    obtain ⟨workerOp, answer⟩ := call
    cases workerOp with
    | apply change context => cases h
    | host hostOp =>
      obtain ⟨hop, hreply⟩ := Call.mk.inj (hostLedgerCall_eq_some h)
      subst hop
      cases hreply
      exact Or.inr rfl

end Steps

/-- A refresh at this time leaves a row that no completion of the change can match, now or
after any number of deferrals: it asks for the other state, or comes later than the change;
or the change was never deferred and carries another time. -/
def Supersedes (change : WakeRegistrationChange) (enabled : Bool) (now : Nat) : Prop :=
  enabled ≠ change.enabled ∨ change.updatedAt < now ∨
    (change.attemptCount = 0 ∧ now ≠ change.updatedAt)

/-- Every refresh supersedes the changes of the active connections handed out before it. -/
def RefreshesSupersede (history : WorkerHistory) : Prop :=
  ∀ newer refresh older enabled now n, history = newer ++ refresh :: older →
    workerLedgerCall refresh.label =
      some ⟨.registration (.requeueActiveWakeRegistrationsWithState enabled now), .ok n⟩ →
    ∀ load ∈ older, ∀ change, HandedOut load change →
      refresh.before.shared.HasActive change.connectionId.value → Supersedes change enabled now

/-- The row cannot pass for the one the change was loaded from, nor come to. -/
def Outdated (change : WakeRegistrationChange) (r : WakeRegistrationRow) : Prop :=
  r.desiredEnabled ≠ change.enabled ∨ change.updatedAt < r.updatedAt ∨
    (change.attemptCount = 0 ∧ (0 < r.attemptCount ∨ r.updatedAt ≠ change.updatedAt))

/-- While its connection is active, every row of the connection has outdated the change. -/
structure Overtaken (l : Ledger) (change : WakeRegistrationChange) : Prop where
  known : ∃ c ∈ l.connections, c.connectionId = change.connectionId.value
  rows : l.HasActive change.connectionId.value → ∀ r ∈ l.wakeRegistrations,
    r.connectionId = change.connectionId.value → Outdated change r

section Overtaken

variable {x : Crates} {l l' : Ledger} {call : LedgerCall} {change : WakeRegistrationChange}
  {enabled : Bool} {now : UnixTimestamp}

theorem Outdated.not_matches {r : WakeRegistrationRow} (h : Outdated change r) :
    ¬ matchesChange change r = true := by
  intro hmatch
  obtain ⟨-, -, henabled, hattempts, hupdated⟩ := matchesChange_eq_true.mp hmatch
  rcases h with hother | hlater | ⟨hfresh, hdeferred | hother⟩
  · exact hother henabled
  · exact Nat.ne_of_gt hlater hupdated
  · omega
  · exact hother hupdated

theorem Outdated.deferred {other : WakeRegistrationChange} {row row' : WakeRegistrationRow}
    (h : Outdated change row) (hlater : Deferred l l' other row row') : Outdated change row' := by
  have hrises := hlater.updatedAt
  have hcounts := hlater.attemptCount
  rcases h with hother | hearlier | ⟨hfresh, -⟩
  · exact Or.inl (by rwa [hlater.enabled])
  · exact Or.inr (Or.inl (Nat.lt_of_lt_of_le hearlier hrises))
  · exact Or.inr (Or.inr ⟨hfresh, Or.inl (by omega)⟩)

theorem outdated_requeuedRow {c : ConnectionRow} (h : Supersedes change enabled now) :
    Outdated change (requeuedRow enabled now c) := by
  rcases h with hother | hlater | ⟨hfresh, hother⟩
  · exact Or.inl hother
  · exact Or.inr (Or.inl hlater)
  · exact Or.inr (Or.inr ⟨hfresh, Or.inr hother⟩)

/-- A refresh that supersedes the change overtakes it. -/
theorem Refreshed.overtakes (h : Refreshed l l' enabled now)
    (hconnections : l'.connections = l.connections)
    (hknown : ∃ c ∈ l.connections, c.connectionId = change.connectionId.value)
    (hsupersedes : l.HasActive change.connectionId.value → Supersedes change enabled now) :
    Overtaken l' change where
  known := by rwa [hconnections]
  rows := by
    intro hactive r hr hid
    rw [Ledger.HasActive, hconnections] at hactive
    rcases (h.registrations r).mp hr with ⟨-, hnone⟩ | ⟨c, -, -, rfl⟩
    · rw [hid] at hnone
      exact absurd hactive hnone
    · exact outdated_requeuedRow (hsupersedes hactive)

theorem Overtaken.registration {op : RegistrationOp} (h : Overtaken l change)
    (hconnections : l'.connections = l.connections) (heffect : RegistrationEffect l l' op)
    (hsupersedes : ∀ enabled now, op = .requeueActiveWakeRegistrationsWithState enabled now →
      l.HasActive change.connectionId.value → Supersedes change enabled now) :
    Overtaken l' change := by
  have hactive : l'.HasActive change.connectionId.value →
      l.HasActive change.connectionId.value := by
    intro hactive
    rwa [Ledger.HasActive, hconnections] at hactive
  cases heffect with
  | unchanged heq => exact heq ▸ h
  | requeued hnew => exact hnew.overtakes hconnections h.known (hsupersedes _ _ rfl)
  | acknowledged hdone =>
    refine ⟨by rw [hconnections]; exact h.known, fun hafter r hr hid => ?_⟩
    rw [hdone.registrations, Table.mem_delete] at hr
    exact h.rows (hactive hafter) r hr.1 hid
  | @deferred other now delay row row' hlater =>
    refine ⟨by rw [hconnections]; exact h.known, fun hafter r hr hid => ?_⟩
    rcases (Table.mem_replace hlater.registrations).mp hr with ⟨hold, -⟩ | ⟨rfl, -⟩
    · exact h.rows (hactive hafter) r hold hid
    · have hrow := h.rows (hactive hafter) row hlater.mem (hlater.connectionId.symm.trans hid)
      exact hrow.deferred hlater

/-- A step keeps a change overtaken if a refresh supersedes it too. -/
theorem Overtaken.step (h : Overtaken l change) (hstep : LedgerStep x l call l')
    (hsupersedes : ∀ enabled now n,
      call = ⟨.registration (.requeueActiveWakeRegistrationsWithState enabled now), .ok n⟩ →
        l.HasActive change.connectionId.value → Supersedes change enabled now) :
    Overtaken l' change := by
  have hknown : ∃ c ∈ l'.connections, c.connectionId = change.connectionId.value := by
    obtain ⟨c, hmem, hid⟩ := h.known
    obtain ⟨c', hmem', hid', -⟩ := hstep.keepsConnection hmem
    exact ⟨c', hmem', hid'.trans hid⟩
  have hactive := hstep.hasActive_before h.known
  cases hstep.outbox with
  | kept hconnections hown hregistrations hrelays =>
    refine ⟨hknown, fun hafter r hr => ?_⟩
    rw [hregistrations] at hr
    exact h.rows (hactive hafter) r hr
  | @inserted _ c createdAt now used new hi =>
    refine ⟨hknown, fun hafter r hr hid => ?_⟩
    rcases hi.mem_registrations.mp hr with hold | rfl
    · exact h.rows (hactive hafter) r hold hid
    · obtain ⟨c', hmem, hid'⟩ := h.known
      exact absurd (hid'.trans (hid.symm.trans hi.connectionId)) (hi.fresh hmem)
  | @tombstoned _ other old new ht =>
    refine ⟨hknown, fun hafter r hr hid => ?_⟩
    rcases ht.mem_registrations.mp hr with ⟨hold, -⟩ | rfl
    · exact h.rows (hactive hafter) r hold hid
    · have hsame := hid.symm.trans (ht.keeps.1.trans ht.connectionId)
      exact absurd hsame (ht.hasActive.mp hafter).2
  | @registration op value heffect hconnections hown =>
    refine h.registration hconnections heffect fun enabled now hop hbefore => ?_
    subst hop
    exact hsupersedes enabled now value rfl hbefore

/-- An overtaken change of an active connection can neither be acknowledged nor deferred. -/
theorem Overtaken.refused (h : Overtaken l change) (hstep : LedgerStep x l call l')
    (hactive : l.HasActive change.connectionId.value)
    (hcall : call.op = .registration (.acknowledgeWakeRegistration change) ∨
      ∃ now delay, call.op = .registration (.retryWakeRegistration change now delay)) : l' = l := by
  obtain ⟨op, reply⟩ := call
  have hrow : ∀ row ∈ l.wakeRegistrations, matchesChange change row = true → False := by
    intro row hmem hmatch
    obtain ⟨hid, -⟩ := matchesChange_eq_true.mp hmatch
    exact (h.rows hactive row hmem hid).not_matches hmatch
  rcases hstep.cases with hsame | ⟨value, random, -, hrun⟩
  · exact hsame
  · rcases hcall with hop | ⟨now, delay, hop⟩
    · change op = _ at hop
      subst hop
      obtain ⟨row, hmem, hmatch⟩ := (acknowledge_ok hrun).matched
      exact (hrow row hmem hmatch).elim
    · change op = _ at hop
      subst hop
      obtain ⟨row, row', hlater⟩ := retry_ok hrun
      exact (hrow row hlater.mem hlater.matched).elim

end Overtaken

section Runs

variable {x : Crates} {w w' : WorkerWorld} {history later earlier : WorkerHistory}
  {refresh load : Event WorkerWorld (Label Nat WorkerOp WorkerOp.Reply)}
  {change : WakeRegistrationChange} {id : ConnectionId}

theorem RefreshesSupersede.older {newest : Event WorkerWorld (Label Nat WorkerOp WorkerOp.Reply)}
    (h : RefreshesSupersede (newest :: history)) : RefreshesSupersede history := by
  intro newer refresh older enabled now n heq
  exact h (newest :: newer) refresh older enabled now n (by rw [heq, List.cons_append])

theorem refreshesSupersede_nil : RefreshesSupersede [] := by
  intro newer refresh older enabled now n heq
  cases newer with
  | nil => cases heq
  | cons first rest => cases heq

theorem RefreshesSupersede.cons {newest : Event WorkerWorld (Label Nat WorkerOp WorkerOp.Reply)}
    (h : RefreshesSupersede history)
    (hnewest : ∀ enabled now n, workerLedgerCall newest.label =
        some ⟨.registration (.requeueActiveWakeRegistrationsWithState enabled now), .ok n⟩ →
      ∀ load ∈ history, ∀ change, HandedOut load change →
        newest.before.shared.HasActive change.connectionId.value →
          Supersedes change enabled now) : RefreshesSupersede (newest :: history) := by
  intro newer refresh older enabled now n heq hrefresh
  cases newer with
  | nil =>
    obtain ⟨rfl, rfl⟩ := List.cons.inj heq
    exact hnewest enabled now n hrefresh
  | cons first rest =>
    obtain ⟨rfl, rfl⟩ := List.cons.inj heq
    exact h rest refresh older enabled now n rfl hrefresh

/-- Steps other than refreshes need not supersede anything. -/
theorem RefreshesSupersede.cons_of_not
    {newest : Event WorkerWorld (Label Nat WorkerOp WorkerOp.Reply)}
    (h : RefreshesSupersede history) (hnot : refreshes newest.label = false) :
    RefreshesSupersede (newest :: history) := by
  apply h.cons
  intro enabled now n hrefresh
  rw [refreshes, hrefresh] at hnot
  cases hnot

/-- Over a run that supersedes, a change handed out before stays overtaken. -/
theorem overtaken_history (hafter : Overtaken refresh.after.shared change)
    (hrun : Run (WorkerStep x) refresh.after later w) (hload : load ∈ earlier)
    (hhanded : HandedOut load change)
    (hsupersede : RefreshesSupersede (later ++ refresh :: earlier)) :
    Overtaken w.shared change := by
  induction hrun with
  | refl => exact hafter
  | @tail past a b label _ hlast ih =>
    have hprior := ih hsupersede.older
    rcases hlast.ledger with ⟨call, hcall, hstep⟩ | ⟨-, hsame⟩
    · refine hprior.step hstep fun enabled now n heq hactive => ?_
      rw [heq] at hcall
      exact hsupersede [] ⟨a, label, b⟩ (past ++ refresh :: earlier) enabled now n rfl hcall load
        (by simp [hload]) change hhanded hactive
    · rw [hsame]
      exact hprior

theorem active_before (hrun : Run (WorkerStep x) w history w')
    (hknown : ∃ c ∈ w.shared.connections, c.connectionId = id.value)
    (hactive : w'.shared.HasActive id.value) : w.shared.HasActive id.value := by
  have hall : (∃ c ∈ w'.shared.connections, c.connectionId = id.value) ∧
      (w'.shared.HasActive id.value → w.shared.HasActive id.value) := by
    refine hrun.invariant (I := fun m => (∃ c ∈ m.shared.connections, c.connectionId = id.value) ∧
      (m.shared.HasActive id.value → w.shared.HasActive id.value)) ⟨hknown, fun h => h⟩ ?_
    rintro a label b ⟨⟨c, hmem, hid⟩, hback⟩ hstep
    rcases hstep.ledger with ⟨call, -, hledger⟩ | ⟨-, hsame⟩
    · obtain ⟨c', hmem', hid', -⟩ := hledger.keepsConnection hmem
      exact ⟨⟨c', hmem', hid'.trans hid⟩,
        fun hafter => hback (hledger.hasActive_before ⟨c, hmem, hid⟩ hafter)⟩
    · rw [hsame]
      exact ⟨⟨c, hmem, hid⟩, hback⟩
  exact hall.2 hactive

/-- What a worker acknowledges it loaded before, and the provider accepted it in between. -/
theorem acknowledged_after {event : Event WorkerWorld (Label Nat WorkerOp WorkerOp.Reply)} {i : Nat}
    {reply : Except WakeRegistrationError Unit}
    (hrun : WorkerRun x (event :: history) w)
    (hlabel : event.label =
      .act i ⟨.registration (.acknowledgeWakeRegistration change), reply⟩) :
    ∃ recent accepted between load past context, history = recent ++ accepted ::
        (between ++ load :: past) ∧ HandedOut load change ∧
      accepted.label = .act i ⟨.apply change context, .ok ()⟩ := by
  obtain ⟨t, hthread, -, hguard⟩ := act_spec guarded_run hrun List.mem_cons_self hlabel
  obtain ⟨newer, older, context, hlog, newer', older', now, rows, all, holder, hall⟩ :=
    hguard change rfl
  have hcut : WorkerRun x ([] ++ event :: history) w := hrun
  obtain ⟨hbefore, -, -⟩ := hcut.split
  rw [log_eq_actsOf hbefore i t hthread] at hlog
  obtain ⟨recent, accepted, past, rfl, haccepted, -, hpast⟩ := actsOf_split hlog
  rw [holder] at hpast
  obtain ⟨between, load, past', rfl, hload, -, -⟩ := actsOf_split hpast
  refine ⟨recent, accepted, between, load, past', context, rfl, ?_, haccepted⟩
  refine ⟨_, by rw [hload]; rfl, now, rows, all, rfl, hall change List.mem_cons_self⟩

end Runs

/-- A refresh is not lost if every refresh supersedes the changes handed out before it. Then,
for a connection that was active at the refresh and still is: a completion of a change
handed out before the refresh changes nothing; and its row leaves the outbox only when a
worker acknowledges a change that it loaded after the refresh and the provider accepted
since. -/
theorem refresh_not_lost {x : Crates} {later earlier : WorkerHistory}
    {refresh : Event WorkerWorld (Label Nat WorkerOp WorkerOp.Reply)} {w : WorkerWorld}
    {id : ConnectionId} {enabled : Bool} {now : UnixTimestamp} {n : Nat}
    (hrun : WorkerRun x (later ++ refresh :: earlier) w)
    (hrefresh : workerLedgerCall refresh.label =
      some ⟨.registration (.requeueActiveWakeRegistrationsWithState enabled now), .ok n⟩)
    (hbefore : refresh.before.shared.HasActive id.value) (hactive : w.shared.HasActive id.value)
    (hsupersede : RefreshesSupersede (later ++ refresh :: earlier)) :
    (∀ load ∈ earlier, ∀ change, HandedOut load change → change.connectionId = id →
      ∀ event ∈ later, ∀ call, workerLedgerCall event.label = some call →
        (call.op = .registration (.acknowledgeWakeRegistration change) ∨
          ∃ time delay, call.op = .registration (.retryWakeRegistration change time delay)) →
        event.after.shared = event.before.shared) ∧
    ∀ newer event older, later = newer ++ event :: older →
      (∃ row ∈ event.before.shared.wakeRegistrations, row.connectionId = id.value) →
      (∀ row ∈ event.after.shared.wakeRegistrations, row.connectionId ≠ id.value) →
        ∃ i change recent accepted between load past context,
          event.label = .act i ⟨.registration (.acknowledgeWakeRegistration change), .ok ()⟩ ∧
          change.connectionId = id ∧ older = recent ++ accepted :: (between ++ load :: past) ∧
          accepted.label = .act i ⟨.apply change context, .ok ()⟩ ∧ HandedOut load change := by
  obtain ⟨hearlier, hstep, hlater⟩ := hrun.split
  have hledger := hstep.ledgerStep hrefresh
  obtain ⟨random, hop⟩ := hledger.run_of_ok
  have hconnections : refresh.after.shared.connections = refresh.before.shared.connections := by
    have hrequeue : RegistrationOp.run x refresh.before.shared
        (.requeueActiveWakeRegistrationsWithState enabled now) = .ok (n, refresh.after.shared) := hop
    rw [registrationOp_frame hrequeue]
  have hknown : ∃ c ∈ refresh.before.shared.connections, c.connectionId = id.value := by
    obtain ⟨c, hmem, hid, -⟩ := hbefore
    exact ⟨c, hmem, hid⟩
  have hovertaken : ∀ load ∈ earlier, ∀ change, HandedOut load change →
      change.connectionId = id → ∀ newer event older, later = newer ++ event :: older →
        Overtaken event.before.shared change ∧ event.before.shared.HasActive id.value := by
    rintro load hload change hhanded rfl newer event older rfl
    obtain ⟨holder, hevent, hnewer⟩ := hlater.split
    have hfirst : Overtaken refresh.after.shared change := by
      apply (requeue_ok hop).overtakes hconnections hknown
      exact hsupersede _ refresh earlier enabled now n rfl hrefresh load hload change hhanded
    have holderSupersede : RefreshesSupersede (older ++ refresh :: earlier) := by
      intro newer' refresh' older' enabled' now' n' heq
      exact hsupersede (newer ++ event :: newer') refresh' older' enabled' now' n' (by simp [heq])
    have hat := overtaken_history hfirst holder hload hhanded holderSupersede
    exact ⟨hat, active_before (hnewer.cons_first hevent) hat.known hactive⟩
  refine ⟨?_, ?_⟩
  · intro load hload change hhanded hid event hevent call hcall hcompletes
    obtain ⟨newer, older, rfl⟩ := List.append_of_mem hevent
    obtain ⟨hat, hstill⟩ := hovertaken load hload change hhanded hid newer event older rfl
    obtain ⟨-, hnext, -⟩ := hlater.split
    obtain ⟨op, reply⟩ := call
    exact hat.refused (hnext.ledgerStep hcall) (by rwa [hid]) hcompletes
  · rintro newer event older rfl hrow hgone
    obtain ⟨holder, hnext, -⟩ := hlater.split
    have hupto : WorkerRun x (event :: (older ++ refresh :: earlier)) event.after := by
      have hall := hrun
      rw [List.append_assoc, List.cons_append] at hall
      obtain ⟨hpast, hlast, -⟩ := hall.split
      exact hpast.tail hlast
    rcases hnext.ledger with ⟨call, hcall, hledgerStep⟩ | ⟨-, hsame⟩
    · obtain ⟨change, rfl, hid, row, hrowMem, hmatch⟩ := hledgerStep.rowLeaves hrow hgone
      obtain ⟨i, hlabel⟩ | hlabel := workerLedgerCall_eq_some hcall
      · obtain ⟨recent, accepted, between, load, past, context, heq, hhanded, haccepted⟩ :=
          acknowledged_after hupto hlabel
        have hplaces : older ++ refresh :: earlier =
            (recent ++ accepted :: between) ++ load :: past := by simp [heq]
        rcases places_cases hplaces with ⟨rfl, -⟩ | ⟨rest, rfl⟩ | ⟨rest, rfl⟩
        · -- a refresh hands nothing out
          obtain ⟨call, hload, time, rows, changes, rfl, -⟩ := hhanded
          rw [hrefresh] at hload
          cases hload
        · obtain ⟨hat, hstill⟩ := hovertaken load (by simp) change hhanded hid newer event older rfl
          obtain ⟨hrowId, -⟩ := matchesChange_eq_true.mp hmatch
          exact absurd hmatch (hat.rows (by rwa [hid]) row hrowMem hrowId).not_matches
        · have hcut : older ++ refresh :: earlier =
              (recent ++ accepted :: (between ++ load :: rest)) ++ refresh :: earlier := by
            simp [heq]
          exact ⟨i, change, recent, accepted, between, load, rest, context, hlabel, hid,
            List.append_cancel_right hcut, haccepted, hhanded⟩
      · rw [hlabel] at hnext
        exact absurd rfl (hnext.beside.acknowledges change)
    · rw [hsame] at hgone
      obtain ⟨row, hmem, hid⟩ := hrow
      exact absurd hid (hgone row hmem)

namespace Sample

/-- One scheduling decision; the host of a worker follows a script. -/
inductive WorkerMove where
  | start (maximumRows : Nat)
  | act (thread : Nat)
  | beside (op : LedgerOp)

def WorkerMove.allowed : WorkerMove → Bool
  | .beside (.registration (.acknowledgeWakeRegistration _)) => false
  | .beside (.registration (.retryWakeRegistration ..)) => false
  | _ => true

/-- The answer to a worker at time 1000 whose provider accepts everything. -/
def workerAnswer (l : Ledger) : (op : WorkerOp) → op.Reply × Ledger
  | .host op => (script 1000 0).answer crates l op
  | .apply .. => (.ok (), l)

theorem workerAnswer_answers (l : Ledger) (op : WorkerOp) :
    WorkerAnswers crates l ⟨op, (workerAnswer l op).1⟩ (workerAnswer l op).2 := by
  cases op with
  | host op => exact .host (HostScript.answers crates (script 1000 0) l op)
  | apply change context => exact .provider

/-- The step a decision leads to, if it is possible. -/
def WorkerMove.step (w : WorkerWorld) :
    WorkerMove → Option (Label Nat WorkerOp WorkerOp.Reply × WorkerWorld)
  | .start rows =>
    some (.spawn rows,
      { w with threads := w.threads ++ [⟨rows, [], WakeRegistrationWorker.run rows, true⟩] })
  | .act i =>
    match w.threads[i]? with
    | some ⟨job, log, .call op next, true⟩ =>
      let out := workerAnswer w.shared op
      some (.act i ⟨op, out.1⟩,
        ⟨out.2, w.threads.set i ⟨job, ⟨op, out.1⟩ :: log, next out.1, true⟩⟩)
    | _ => none
  | .beside op =>
    let out := workerAnswer w.shared (.host (.ledger op))
    some (.outside ⟨.host (.ledger op), out.1⟩, { w with shared := out.2 })

/-- Carry out decisions, newest first, skipping impossible ones. -/
def playWorkers : List WorkerMove → WorkerHistory × WorkerWorld
  | [] => ([], ⟨.empty, []⟩)
  | move :: earlier =>
    let past := playWorkers earlier
    match move.step past.2 with
    | some (label, w) => (⟨past.2, label, w⟩ :: past.1, w)
    | none => past

theorem WorkerMove.step_sound {w w' : WorkerWorld} {label : Label Nat WorkerOp WorkerOp.Reply}
    {move : WorkerMove} (hallowed : move.allowed = true) (h : move.step w = some (label, w')) :
    WorkerStep crates w label w' := by
  cases move with
  | start rows =>
    obtain ⟨rfl, rfl⟩ := Prod.mk.inj (Option.some.inj h)
    exact .spawn rows
  | act i =>
    simp only [WorkerMove.step] at h
    split at h
    · rename_i job log op next hthread
      obtain ⟨rfl, rfl⟩ := Prod.mk.inj (Option.some.inj h)
      exact .act hthread rfl rfl (workerAnswer_answers w.shared op)
    · cases h
  | beside op =>
    obtain ⟨rfl, rfl⟩ := Prod.mk.inj (Option.some.inj h)
    refine .outside ⟨⟨op, rfl⟩, ?_, ?_⟩ (workerAnswer_answers w.shared (.host (.ledger op)))
    · intro change heq
      cases heq
      cases hallowed
    · intro change now delay heq
      cases heq
      cases hallowed

theorem playWorkers_run {moves : List WorkerMove} (h : moves.all WorkerMove.allowed = true) :
    WorkerRun crates (playWorkers moves).1 (playWorkers moves).2 := by
  induction moves with
  | nil => exact .refl
  | cons move earlier ih =>
    rw [List.all_cons, Bool.and_eq_true] at h
    simp only [playWorkers]
    split
    · rename_i label w hstep
      exact (ih h.2).tail (WorkerMove.step_sound h.1 hstep)
    · exact ih h.2

/-- A worker loads the change of a new connection; the connections are refreshed at time `t`;
the provider accepts the change and the worker acknowledges it. -/
def inFlight (t : UnixTimestamp) : WorkerHistory × WorkerWorld :=
  playWorkers
    [.act 0, .act 0, .act 0, .act 0,
     .beside (.registration (.requeueActiveWakeRegistrationsWithState true t)),
     .act 0, .act 0, .start 10, .beside (.registry (.insertConnection connection 1000))]

theorem inFlight_run (t : UnixTimestamp) : WorkerRun crates (inFlight t).1 (inFlight t).2 :=
  playWorkers_run rfl

/-- The refresh at 1005 comes later than the change it finds in flight. -/
theorem inFlight_supersedes : RefreshesSupersede (inFlight 1005).1 := by
  have hnewest : ∀ {h : WorkerHistory} {a b c d : Event WorkerWorld (Label Nat WorkerOp WorkerOp.Reply)},
      RefreshesSupersede h → refreshes a.label = false → refreshes b.label = false →
        refreshes c.label = false → refreshes d.label = false →
          RefreshesSupersede (a :: b :: c :: d :: h) :=
    fun h ha hb hc hd => (((h.cons_of_not hd).cons_of_not hc).cons_of_not hb).cons_of_not ha
  refine hnewest ((hnewest refreshesSupersede_nil rfl rfl rfl rfl).cons ?_) rfl rfl rfl rfl
  intro enabled now n hrefresh load hload change hhanded _
  obtain ⟨hop, -⟩ := LedgerCall.mk.inj (Option.some.inj hrefresh)
  cases hop
  have hchange : change = enableChange := by
    obtain ⟨call, hcall, time, rows, changes, rfl, hmem⟩ := hhanded
    rcases List.mem_cons.mp hload with rfl | hload
    · obtain ⟨hop, hreply⟩ := LedgerCall.mk.inj (Option.some.inj hcall)
      cases hop
      obtain rfl := Except.ok.inj (eq_of_heq hreply)
      exact List.mem_singleton.mp hmem
    · rcases List.mem_cons.mp hload with rfl | hload
      · cases hcall
      · rcases List.mem_cons.mp hload with rfl | hload
        · cases hcall
        · obtain rfl := List.mem_singleton.mp hload
          obtain ⟨hop, -⟩ := LedgerCall.mk.inj (Option.some.inj hcall)
          cases hop
  rw [hchange]
  exact Or.inr (Or.inl (by decide))

end Sample

/-- A refresh within the second of the one before is lost: the completion of a change that
was loaded before it removes its row. -/
theorem refresh_lost_within_second :
    ∃ last between refresh load earlier w,
      WorkerRun Sample.crates (last :: between ++ refresh :: load :: earlier) w ∧
      workerLedgerCall refresh.label =
        some ⟨.registration (.requeueActiveWakeRegistrationsWithState true 1000), .ok 1⟩ ∧
      HandedOut load Sample.enableChange ∧
      last.label =
        .act 0 ⟨.registration (.acknowledgeWakeRegistration Sample.enableChange), .ok ()⟩ ∧
      w.shared.HasActive Sample.connectionId.value ∧
      last.before.shared.wakeRegistrations.rows.length = 1 ∧
      w.shared.wakeRegistrations.rows = [] := by
  refine ⟨_, [_, _, _], _, _, [_, _, _], _, Sample.inFlight_run 1000, rfl, ?_, rfl, ?_, rfl, rfl⟩
  · exact ⟨_, rfl, _, _, _, rfl, List.mem_cons_self⟩
  · exact ⟨_, Table.mem_rows.mp List.mem_cons_self, rfl, rfl⟩

theorem refresh_not_lost_later :
    ∃ last between refresh load earlier w,
      WorkerRun Sample.crates (last :: between ++ refresh :: load :: earlier) w ∧
      HandedOut load Sample.enableChange ∧
      last.label = .act 0
        ⟨.registration (.acknowledgeWakeRegistration Sample.enableChange), .error .staleChange⟩ ∧
      last.after.shared = last.before.shared := by
  have hhanded : HandedOut (Sample.inFlight 1005).1[5] Sample.enableChange :=
    ⟨_, rfl, _, _, _, rfl, List.mem_cons_self⟩
  have hbefore : (Sample.inFlight 1005).1[4].before.shared.HasActive Sample.connectionId.value :=
    ⟨_, Table.mem_rows.mp List.mem_cons_self, rfl, rfl⟩
  have hactive : (Sample.inFlight 1005).2.shared.HasActive Sample.connectionId.value :=
    ⟨_, Table.mem_rows.mp List.mem_cons_self, rfl, rfl⟩
  refine ⟨_, [_, _, _], _, _, [_, _, _], _, Sample.inFlight_run 1005, hhanded, rfl, ?_⟩
  obtain ⟨hrefused, -⟩ := @refresh_not_lost _ [_, _, _, _] _ _ _ _ _ _ _ (Sample.inFlight_run 1005)
    rfl hbefore hactive Sample.inFlight_supersedes
  exact hrefused _ List.mem_cons_self _ hhanded rfl _ List.mem_cons_self _ rfl (Or.inl rfl)

end NwcMobile
