import NwcMobile.Engine.System
import NwcMobile.Foundations.Solo

/-!
A program that runs alone over a ledger: the ledger answers its own operations,
the host answers the others as it likes, and nothing else happens in between.
-/

namespace NwcMobile

open Program

/-- The program ran alone, made these calls and returned this value. -/
abbrev Alone {α : Type} (x : Crates) (l : Ledger) (p : HostProg α) (calls : List HostCall)
    (a : α) (l' : Ledger) : Prop :=
  Exec (HostAnswers x) l p calls a l'

section Steps

variable {x : Crates} {l l' : Ledger} {calls : List HostCall} {β : Type} {b : β}

theorem HostAnswers.unchanged {call : HostCall} (h : HostAnswers x l call l')
    (hcall : hostLedgerCall call = none) : l' = l := by
  rcases h.ledgerStep with ⟨_, hsome, -⟩ | ⟨-, hsame⟩
  · rw [hcall] at hsome
    cases hsome
  · exact hsame

theorem HostAnswers.step {op : LedgerOp} {reply : op.Reply}
    (h : HostAnswers x l ⟨.ledger op, reply⟩ l') : LedgerStep x l ⟨op, reply⟩ l' := by
  rcases h.ledgerStep with ⟨ledgerCall, hsome, hstep⟩ | ⟨hnone, -⟩
  · obtain rfl := Option.some.inj hsome
    exact hstep
  · cases hnone

/-- Asking the host for something leaves the ledger alone. -/
theorem Alone.host (op : HostOp) {k : op.Reply → HostProg β} (hop : ∀ o, op ≠ .ledger o)
    (h : Alone x l (ask op >>= k) calls b l') :
    ∃ reply rest, calls = ⟨op, reply⟩ :: rest ∧ Alone x l (k reply) rest b l' := by
  obtain ⟨reply, middle, rest, rfl, hanswer, hrest⟩ := exec_perform_bind.mp h
  have hnone : hostLedgerCall ⟨op, reply⟩ = none := by
    cases op with
    | ledger o => exact absurd rfl (hop o)
    | _ => rfl
  obtain rfl := hanswer.unchanged hnone
  exact ⟨reply, rest, rfl, hrest⟩

/-- A ledger operation is one step of the ledger. -/
theorem Alone.ledger {op : LedgerOp} {k : op.Reply → HostProg β}
    (h : Alone x l (ask (.ledger op) >>= k) calls b l') :
    ∃ reply middle rest, calls = ⟨.ledger op, reply⟩ :: rest ∧
      LedgerStep x l ⟨op, reply⟩ middle ∧ Alone x middle (k reply) rest b l' := by
  obtain ⟨reply, middle, rest, rfl, hanswer, hrest⟩ := exec_perform_bind.mp h
  exact ⟨reply, middle, rest, rfl, hanswer.step, hrest⟩

/-- The call looks at the time that is left. -/
def looksAtDeadline (call : HostCall) : Prop :=
  call.op = .isCancelled ∨ call.op = .deadlineRemaining

theorem Alone.deadline {k : Option OperationContext → HostProg β}
    (h : Alone x l (deadlineContext >>= k) calls b l') :
    ∃ context looks rest, calls = looks ++ rest ∧ (∀ call ∈ looks, looksAtDeadline call) ∧
      Alone x l (k context) rest b l' := by
  obtain ⟨looks, context, middle, rest, rfl, hlooks, hrest⟩ := exec_bind.mp h
  obtain ⟨cancelled, more, rfl, hmore⟩ := Alone.host .isCancelled (by simp) hlooks
  cases cancelled with
  | true =>
    obtain ⟨rfl, rfl, rfl⟩ := exec_done.mp hmore
    exact ⟨none, _, rest, rfl, by simp [looksAtDeadline], hrest⟩
  | false =>
    obtain ⟨remaining, last, rfl, hlast⟩ := Alone.host .deadlineRemaining (by simp) hmore
    obtain ⟨rfl, rfl, rfl⟩ := exec_done.mp hlast
    exact ⟨_, _, rest, rfl, by simp [looksAtDeadline], hrest⟩

end Steps

/-- Run a program alone against a scripted host. -/
def runAlone {α : Type} (x : Crates) (script : HostScript) :
    HostProg α → Ledger → List HostCall × α × Ledger
  | .done a, l => ([], a, l)
  | .call op next, l =>
    let answer := script.answer x l op
    let rest := runAlone x script (next answer.1) answer.2
    (⟨op, answer.1⟩ :: rest.1, rest.2)

theorem runAlone_alone {α : Type} (x : Crates) (script : HostScript) (p : HostProg α) (l : Ledger) :
    Alone x l p (runAlone x script p l).1 (runAlone x script p l).2.1
      (runAlone x script p l).2.2 := by
  induction p generalizing l with
  | done a => exact .done
  | call op next ih => exact .call (script.answers x l op) (ih _ _)

theorem runAlone_result {α : Type} {x : Crates} {script : HostScript} {p : HostProg α} {l : Ledger}
    {a : α} (h : (runAlone x script p l).2.1 = a) :
    Alone x l p (runAlone x script p l).1 a (runAlone x script p l).2.2 := by
  subst h
  exact runAlone_alone x script p l

end NwcMobile
