import NwcMobile.Engine.Conduct
import NwcMobile.Ledger.Attribution
import NwcMobile.Ledger.Freshness

/-!
The attempts a program works on, in a run of the whole system. What a program was
handed was stored when it was handed over; from then on the row of that payment
hash stays under the same authorization unless somebody reserves the hash again.
-/

namespace NwcMobile

open Program Concurrent Transition

/-- The step reserves `row`'s payment hash for its event. -/
def Reserves (row : PaymentAttemptRow) (event : Event SystemWorld SystemLabel) : Prop :=
  ∃ connection principal now a, systemLedgerCall event.label = some ⟨.payment
    (.reservePayment row.eventId row.paymentHash connection principal now), .ok (.reserved a)⟩

/-- Payments are written by the programs only. -/
def PaymentsByPrograms (outside : HostCall → Prop) : Prop :=
  ∀ op reply, ¬ outside ⟨.ledger (.payment op), reply⟩

/-- Programs run one after another: only the one started last acts. -/
def Sequential (history : SystemHistory) : Prop :=
  ∀ event ∈ history, ∀ i call, event.label = .act i call → event.before.threads.length = i + 1

section Runs

variable {x : Crates} {outside : HostCall → Prop} {l : Ledger} {w : SystemWorld}
  {history later earlier : SystemHistory} {event : Event SystemWorld SystemLabel} {i : Nat}
  {t : SystemThread} {a : PaymentAttempt} {r : ClaimedRequest}

theorem PaymentsByPrograms.act {w' : SystemWorld} {label : SystemLabel} {op : PaymentOp}
    {reply : (LedgerOp.payment op).Reply} (h : PaymentsByPrograms outside)
    (hstep : SystemStep x outside w label w')
    (hcall : systemLedgerCall label = some ⟨.payment op, reply⟩) :
    ∃ i, label = .act i ⟨.ledger (.payment op), reply⟩ := by
  cases hstep with
  | spawn job => cases hcall
  | @act i _ op' _ reply' _ _ _ _ _ => exact ⟨i, congrArg (Label.act i) (hostLedgerCall_eq_some hcall)⟩
  | crash _ => cases hcall
  | @outside call _ hout _ =>
    rw [hostLedgerCall_eq_some hcall] at hout
    exact absurd hout (h op reply)

/-- A ledger call in a program's log was a step of the ledger. -/
theorem ledger_event {op : LedgerOp} {reply : op.Reply} (hrun : SystemRun x outside l history w)
    (hthread : w.threads[i]? = some t) (hcall : ⟨.ledger op, reply⟩ ∈ t.log) :
    ∃ event ∈ history, event.label = .act i ⟨.ledger op, reply⟩ ∧
      LedgerStep x event.before.shared ⟨op, reply⟩ event.after.shared := by
  obtain ⟨event, hevent, hlabel⟩ := log_event hrun i t hthread _ hcall
  have hstep := hrun.step_of_mem hevent
  rw [hlabel] at hstep
  exact ⟨event, hevent, hlabel, SystemStep.ledgerStep hstep⟩

/-- Where a program was handed an attempt. -/
theorem Given.handed (h : Given t.log a) (hrun : SystemRun x outside l history w)
    (hthread : w.threads[i]? = some t) :
    ∃ event ∈ history, ∃ ledgerCall, systemLedgerCall event.label = some ledgerCall ∧
      a ∈ ledgerCall.returned ∧ ∃ call, event.label = .act i call := by
  obtain ⟨call, hcall, ledgerCall, hledger, ha⟩ := h
  obtain ⟨event, hevent, hlabel⟩ := log_event hrun i t hthread _ hcall
  exact ⟨event, hevent, ledgerCall, by rw [hlabel]; exact hledger, ha, call, hlabel⟩

theorem Snapshot.given {log : HostLog} (h : Snapshot log r a) : Given log a := by
  cases h with
  | loaded answered _ => exact ⟨_, answered, _, rfl, by simp [LedgerCall.returned]⟩
  | reserved answered =>
    exact ⟨_, answered, _, rfl, by simp [LedgerCall.returned, PaymentReservationOutcome.attempt]⟩
  | existing answered =>
    exact ⟨_, answered, _, rfl, by simp [LedgerCall.returned, PaymentReservationOutcome.attempt]⟩

/-- The attempt an execution works on is its event's, for its connection. -/
theorem Snapshot.owner (h : Snapshot t.log r a) (hrun : SystemRun x outside l history w)
    (hthread : w.threads[i]? = some t) :
    a.eventId = r.validated.id ∧ a.connectionId.value = r.connection.id.value := by
  cases h with
  | loaded answered connectionId =>
    obtain ⟨event, -, -, hstep⟩ := ledger_event hrun hthread answered
    exact ⟨hstep.loaded_eventId, congrArg ConnectionId.value connectionId⟩
  | reserved answered =>
    obtain ⟨event, -, -, hstep⟩ := ledger_event hrun hthread answered
    exact hstep.reserved_eventId (Or.inl rfl)
  | existing answered =>
    obtain ⟨event, -, -, hstep⟩ := ledger_event hrun hthread answered
    exact hstep.reserved_eventId (Or.inr rfl)

theorem Paying.eventId {policy : WakePolicy} {input : WakeInput} {log : HostLog}
    (h : Paying x policy input log r) : r.validated.id = input.eventId :=
  h.fresh.claimed.bound.eventId

theorem Claimed.lease_eventId {input : WakeInput} (h : Claimed x input t.log r)
    (hrun : SystemRun x outside l history w) (hthread : w.threads[i]? = some t) :
    r.lease.eventId = r.validated.id := by
  obtain ⟨now, duration, hacquired⟩ := h.acquired
  obtain ⟨event, -, -, hstep⟩ := ledger_event hrun hthread hacquired
  exact hstep.acquired.1

/-- What was owed at an act was owed by the calls its program had made. -/
theorem prompt_act {call : HostCall} (hrun : SystemRun x outside l (later ++ event :: earlier) w)
    (hlabel : event.label = .act i call) : Prompt (actsOf i earlier) call.op := by
  have hmem : event ∈ later ++ event :: earlier := by simp
  obtain ⟨t, hthread, -, hprompt⟩ := act_spec (Q := fun _ _ _ => True) (Job.prompt x) hrun hmem hlabel
  rw [← log_eq_actsOf hrun.split.1 i t hthread]
  exact hprompt

/-- Steps that make no payment call leave the attempts alone. -/
theorem attempts_unchanged {w₀ : SystemWorld} (hrun : Run (SystemStep x outside) w₀ history w)
    (hquiet : ∀ event ∈ history, ∀ op reply,
      systemLedgerCall event.label ≠ some ⟨.payment op, reply⟩) :
    w.shared.paymentAttempts = w₀.shared.paymentAttempts := by
  induction hrun with
  | refl => rfl
  | @tail past a b label _ hstep ih =>
    rw [← ih fun event hevent => hquiet event (List.mem_cons_of_mem _ hevent)]
    obtain ⟨⟨op, reply⟩, hcall, hledger⟩ | ⟨-, hsame⟩ := SystemStep.ledger hstep
    · refine hledger.attempts_kept fun o heq => ?_
      subst heq
      exact hquiet _ List.mem_cons_self o reply hcall
    · rw [hsame]

/-- The row of a hash a step handed out is still under the same authorization,
unless the hash was reserved again. -/
theorem row_since {row : PaymentAttemptRow} {ledgerCall : LedgerCall}
    (hrun : SystemRun x outside l (later ++ event :: earlier) w)
    (hcall : systemLedgerCall event.label = some ledgerCall) (ha : a ∈ ledgerCall.returned)
    (hrow : row ∈ w.shared.paymentAttempts) (hhash : row.paymentHash = a.paymentHash) :
    (∃ row₀, event.after.shared.Stored row₀ a ∧ SameAuthorization row₀ row) ∨
      ∃ reserve ∈ later, Reserves row reserve := by
  obtain ⟨-, hstep, hafter⟩ := hrun.split
  obtain ⟨ledgerCall', hcall', hledger⟩ | ⟨hnone, -⟩ := SystemStep.ledger hstep
  · rw [hcall, Option.some.injEq] at hcall'
    subst hcall'
    obtain ⟨row₀, hstored⟩ := hledger.returned_row ha
    rcases row_since_stored (ledgerRun_of_run hafter) hstored hrow hhash with
      hsame | ⟨reserved, hreserved, hlabel⟩
    · exact Or.inl ⟨row₀, hstored, hsame⟩
    · obtain ⟨reserve, hmem, hprojected⟩ := List.mem_filterMap.mp hreserved
      obtain ⟨call, hreserve, rfl⟩ := Option.map_eq_some_iff.mp hprojected
      obtain ⟨connection, principal, now, a', hcall⟩ := hlabel
      exact Or.inr ⟨reserve, hmem, connection, principal, now, a', hreserve.trans (congrArg some hcall)⟩
  · rw [hcall] at hnone
    cases hnone

/-- An initiated row stays initiated and keeps its authorization. -/
theorem initiated_since {row : PaymentAttemptRow} {w₀ : SystemWorld}
    (hrun : Run (SystemStep x outside) w₀ history w) (hrow : row ∈ w₀.shared.paymentAttempts)
    (hinitiated : row.initiatedAt.isSome) :
    ∃ row' ∈ w.shared.paymentAttempts, SameAuthorization row row' ∧ row'.initiatedAt.isSome := by
  obtain ⟨row', hrow', hsame, -, hmarker, -⟩ :=
    attempt_persists (ledgerRun_of_run hrun) hrow (Or.inl hinitiated)
  obtain ⟨time, htime⟩ := Option.isSome_iff_exists.mp hinitiated
  exact ⟨row', hrow', hsame, by rw [hmarker time htime]; rfl⟩

/-- Once an execution knows its attempt is marked, the row of its hash is initiated. -/
theorem Marked.initiated (h : Marked t.log a) (hgiven : Given t.log a)
    (hrun : SystemRun x outside l history w) (hthread : w.threads[i]? = some t) :
    ∃ row ∈ w.shared.paymentAttempts, row.paymentHash = a.paymentHash ∧ row.initiatedAt.isSome := by
  rcases h with hwas | ⟨now, marked, hmarked⟩
  · obtain ⟨event, hevent, ledgerCall, hcall, ha, -⟩ := hgiven.handed hrun hthread
    obtain ⟨later, earlier, rfl⟩ := List.append_of_mem hevent
    obtain ⟨-, hstep, hafter⟩ := hrun.split
    obtain ⟨ledgerCall', hcall', hledger⟩ | ⟨hnone, -⟩ := SystemStep.ledger hstep
    · rw [hcall, Option.some.injEq] at hcall'
      subst hcall'
      obtain ⟨row₀, hstored⟩ := hledger.returned_row ha
      have hinitiated : row₀.initiatedAt.isSome := by
        rw [← hstored.initiatedAt]
        exact hwas
      obtain ⟨row, hrow, hsame, hmarker⟩ := initiated_since hafter hstored.mem hinitiated
      exact ⟨row, hrow, hsame.paymentHash.trans hstored.paymentHash.symm, hmarker⟩
    · rw [hcall] at hnone
      cases hnone
  · obtain ⟨event, hevent, -, hstep⟩ := ledger_event hrun hthread hmarked
    obtain ⟨later, earlier, rfl⟩ := List.append_of_mem hevent
    obtain ⟨-, -, hafter⟩ := hrun.split
    obtain ⟨random, hop⟩ := hstep.run_of_ok
    have hfound : ∃ row ∈ event.after.shared.paymentAttempts, row.paymentHash = a.paymentHash ∧
        row.initiatedAt.isSome := by
      obtain ⟨hsame, hinitiated, row, hstored, hhash⟩ | ⟨row, hhash, -, -, hmoved⟩ :=
        markPaymentInitiated_ok hop
      · rw [hsame]
        exact ⟨row, hstored.mem, hhash, by rw [← hstored.initiatedAt]; exact hinitiated⟩
      · exact ⟨_, hmoved.stored.mem, hhash, rfl⟩
    obtain ⟨row₀, hrow₀, hhash, hinitiated⟩ := hfound
    obtain ⟨row, hrow, hsame, hmarker⟩ := initiated_since hafter hrow₀ hinitiated
    exact ⟨row, hrow, hsame.paymentHash.trans hhash, hmarker⟩

/-- Threads are never lost, so between two acts of the newest one nobody else acts. -/
theorem Sequential.between {call call' : HostCall} {other : Event SystemWorld SystemLabel} {j : Nat}
    (hseq : Sequential (later ++ event :: earlier))
    (hrun : SystemRun x outside l (later ++ event :: earlier) w)
    (hlabel : event.label = .act i call) (hlast : w.threads.length = i + 1)
    (hother : other ∈ later) (hact : other.label = .act j call') : j = i := by
  have hfirst := hseq event (by simp) i call hlabel
  have hsecond := hseq other (List.mem_append_left _ hother) j call' hact
  obtain ⟨-, hstep, hafter⟩ := hrun.split
  obtain ⟨recent, past, rfl⟩ := List.append_of_mem hother
  obtain ⟨hpast, hotherStep, hrecent⟩ := hafter.split
  have hgrown₁ := hstep.length_le
  have hgrown₂ := length_le_of_run hpast
  have hgrown₃ := hotherStep.length_le
  have hgrown₄ := length_le_of_run hrecent
  omega

end Runs

end NwcMobile
