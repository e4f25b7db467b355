import Mathlib.Tactic

/-!
Sequential code over an interface of operations. A program either is done or
performs one operation and continues with whatever reply it receives; what the
replies are is up to the environment. `Spec` is the rule for reasoning about a
program without knowing its environment: every operation it performs, in any
order of replies, satisfies a guard that may read the log of calls made so far.
-/

namespace Program

universe u v

/-- Code that performs operations and returns a value of type `α`. -/
inductive Prog (Op : Type u) (Reply : Op → Type v) (α : Type v) : Type (max u v) where
  | done (a : α)
  | call (op : Op) (next : Reply op → Prog Op Reply α)

/-- One operation together with the reply it received. -/
structure Call (Op : Type u) (Reply : Op → Type v) where
  op : Op
  reply : Reply op

/-- The calls made so far, newest first. -/
abbrev Log (Op : Type u) (Reply : Op → Type v) := List (Call Op Reply)

variable {Op : Type u} {Reply : Op → Type v} {α β : Type v}

namespace Prog

def bind (p : Prog Op Reply α) (f : α → Prog Op Reply β) : Prog Op Reply β :=
  match p with
  | done a => f a
  | call op next => call op fun reply => (next reply).bind f

instance : Monad (Prog Op Reply) where
  pure := done
  bind := bind

@[simp] theorem pure_eq_done (a : α) : (pure a : Prog Op Reply α) = done a := rfl

@[simp] theorem done_bind (a : α) (f : α → Prog Op Reply β) : (done a >>= f) = f a := rfl

@[simp] theorem call_bind (op : Op) (next : Reply op → Prog Op Reply α)
    (f : α → Prog Op Reply β) : (call op next >>= f) = call op fun reply => next reply >>= f := rfl

/-- Perform one operation and return its reply. -/
def perform (op : Op) : Prog Op Reply (Reply op) := call op done

end Prog

open Prog

/-- Whatever the replies, every operation `p` performs satisfies `S` in the log
at that point, and what `p` returns satisfies `Q`. -/
def Spec (S : Log Op Reply → Op → Prop) (log : Log Op Reply) (p : Prog Op Reply α)
    (Q : Log Op Reply → α → Prop) : Prop :=
  match p with
  | done a => Q log a
  | call op next => S log op ∧ ∀ reply, Spec S (⟨op, reply⟩ :: log) (next reply) Q

variable {S : Log Op Reply → Op → Prop} {log : Log Op Reply} {p : Prog Op Reply α}
  {f : α → Prog Op Reply β} {Q Q' : Log Op Reply → α → Prop} {R : Log Op Reply → β → Prop}

@[simp] theorem spec_done {a : α} : Spec S log (done a) Q ↔ Q log a := Iff.rfl

@[simp] theorem spec_call {op : Op} {next : Reply op → Prog Op Reply α} :
    Spec S log (call op next) Q ↔
      S log op ∧ ∀ reply, Spec S (⟨op, reply⟩ :: log) (next reply) Q := Iff.rfl

theorem Spec.imp (h : Spec S log p Q) (hQ : ∀ log a, Q log a → Q' log a) : Spec S log p Q' := by
  induction p generalizing log with
  | done a => exact hQ log a h
  | call op next ih => exact ⟨h.1, fun reply => ih reply (h.2 reply)⟩

/-- Sequential composition. -/
theorem Spec.bind (h : Spec S log p fun log a => Spec S log (f a) R) :
    Spec S log (p >>= f) R := by
  induction p generalizing log with
  | done a => exact h
  | call op next ih => exact ⟨h.1, fun reply => ih reply (h.2 reply)⟩

theorem Spec.seq (h : Spec S log p Q) (hnext : ∀ log a, Q log a → Spec S log (f a) R) :
    Spec S log (p >>= f) R :=
  (h.imp hnext).bind

@[simp] theorem spec_perform {op : Op} {k : Reply op → Prog Op Reply β} :
    Spec S log (perform op >>= k) R ↔
      S log op ∧ ∀ reply, Spec S (⟨op, reply⟩ :: log) (k reply) R := Iff.rfl

theorem Spec.guard_imp {S' : Log Op Reply → Op → Prop} (h : Spec S log p Q)
    (hS : ∀ log op, S log op → S' log op) : Spec S' log p Q := by
  induction p generalizing log with
  | done a => exact h
  | call op next ih => exact ⟨hS _ _ h.1, fun reply => ih reply (h.2 reply)⟩

/-- What the calls of a program keep still holds when it is done. -/
theorem Spec.keeps {P : Log Op Reply → Prop} (h : Spec S log p Q)
    (hcall : ∀ log op reply, S log op → P log → P (⟨op, reply⟩ :: log)) (hP : P log) :
    Spec S log p fun log' a => Q log' a ∧ P log' := by
  induction p generalizing log with
  | done a => exact ⟨h, hP⟩
  | call op next ih => exact ⟨h.1, fun reply => ih reply (h.2 reply) (hcall _ _ _ h.1 hP)⟩

/-- What the calls of a program keep holds before each of them and when it is done. -/
theorem Spec.throughout {P : Log Op Reply → Prop} (h : Spec S log p Q)
    (hcall : ∀ log op reply, S log op → P log → P (⟨op, reply⟩ :: log)) (hP : P log) :
    Spec (fun log op => S log op ∧ P log) log p fun log' a => Q log' a ∧ P log' := by
  induction p generalizing log with
  | done a => exact ⟨h, hP⟩
  | call op next ih => exact ⟨⟨h.1, hP⟩, fun reply => ih reply (h.2 reply) (hcall _ _ _ h.1 hP)⟩

/-- What two specifications of one program say together. -/
theorem Spec.and {S' : Log Op Reply → Op → Prop} {Q' : Log Op Reply → α → Prop}
    (h : Spec S log p Q) (h' : Spec S' log p Q') :
    Spec (fun log op => S log op ∧ S' log op) log p fun log' a => Q log' a ∧ Q' log' a := by
  induction p generalizing log with
  | done a => exact ⟨h, h'⟩
  | call op next ih => exact ⟨⟨h.1, h'.1⟩, fun reply => ih reply (h.2 reply) (h'.2 reply)⟩

theorem spec_trivial : Spec (fun _ _ => True) log p fun _ _ => True := by
  induction p generalizing log with
  | done a => trivial
  | call op next ih => exact ⟨trivial, fun reply => ih reply⟩

end Program
