import NwcMobile.Foundations.Program

/-!
A program run on its own: nothing else touches the state between its calls.
-/

namespace Program

universe u v w

open Prog

variable {σ : Type w} {Op : Type u} {Reply : Op → Type v} {α β : Type v}

/-- The program makes these calls, the oldest first, and returns a value; each call is
answered in the state the one before it left. -/
inductive Exec (Answers : σ → Call Op Reply → σ → Prop) :
    σ → Prog Op Reply α → List (Call Op Reply) → α → σ → Prop
  | done {s a} : Exec Answers s (done a) [] a s
  | call {s op next reply s' calls a s''} (answer : Answers s ⟨op, reply⟩ s')
      (rest : Exec Answers s' (next reply) calls a s'') :
      Exec Answers s (call op next) (⟨op, reply⟩ :: calls) a s''

variable {Answers : σ → Call Op Reply → σ → Prop} {s s' : σ} {p : Prog Op Reply α}
  {f : α → Prog Op Reply β} {calls : List (Call Op Reply)} {a : α} {b : β}

@[simp] theorem exec_done {x : α} : Exec Answers s (done x) calls a s' ↔
    calls = [] ∧ a = x ∧ s' = s := by
  constructor
  · intro h
    cases h
    simp
  · rintro ⟨rfl, rfl, rfl⟩
    exact .done

theorem exec_call {op : Op} {next : Reply op → Prog Op Reply α} :
    Exec Answers s (call op next) calls a s' ↔ ∃ reply middle rest, calls = ⟨op, reply⟩ :: rest ∧
      Answers s ⟨op, reply⟩ middle ∧ Exec Answers middle (next reply) rest a s' := by
  constructor
  · intro h
    cases h with
    | call answer rest => exact ⟨_, _, _, rfl, answer, rest⟩
  · rintro ⟨reply, middle, rest, rfl, answer, hrest⟩
    exact .call answer hrest

/-- Sequential composition. -/
theorem exec_bind : Exec Answers s (p >>= f) calls b s' ↔ ∃ first x middle second,
    calls = first ++ second ∧ Exec Answers s p first x middle ∧
      Exec Answers middle (f x) second b s' := by
  induction p generalizing s calls with
  | done x =>
    simp only [done_bind, exec_done]
    constructor
    · intro h
      exact ⟨[], x, s, calls, rfl, ⟨rfl, rfl, rfl⟩, h⟩
    · rintro ⟨_, _, _, second, rfl, ⟨rfl, rfl, rfl⟩, h⟩
      exact h
  | call op next ih =>
    simp only [call_bind, exec_call, ih]
    constructor
    · rintro ⟨reply, middle, _, rfl, answer, first, x, last, second, rfl, hfirst, hsecond⟩
      exact ⟨⟨op, reply⟩ :: first, x, last, second, rfl,
        ⟨reply, middle, first, rfl, answer, hfirst⟩, hsecond⟩
    · rintro ⟨_, x, last, second, rfl, ⟨reply, middle, first, rfl, answer, hfirst⟩, hsecond⟩
      exact ⟨reply, middle, first ++ second, rfl, answer, first, x, last, second, rfl, hfirst,
        hsecond⟩

theorem exec_perform {op : Op} {reply : Reply op} :
    Exec Answers s (perform op) calls reply s' ↔ calls = [⟨op, reply⟩] ∧
      Answers s ⟨op, reply⟩ s' := by
  simp only [perform, exec_call, exec_done]
  constructor
  · rintro ⟨_, _, _, rfl, answer, rfl, rfl, rfl⟩
    exact ⟨rfl, answer⟩
  · rintro ⟨rfl, answer⟩
    exact ⟨reply, s', [], rfl, answer, rfl, rfl, rfl⟩

@[simp] theorem exec_perform_bind {op : Op} {k : Reply op → Prog Op Reply β} :
    Exec Answers s (perform op >>= k) calls b s' ↔ ∃ reply middle rest,
      calls = ⟨op, reply⟩ :: rest ∧ Answers s ⟨op, reply⟩ middle ∧
        Exec Answers middle (k reply) rest b s' :=
  exec_call

/-- What a program's specification says of its calls and its result. -/
theorem Exec.spec {S : Log Op Reply → Op → Prop} {Q : Log Op Reply → α → Prop}
    {log : Log Op Reply} (h : Exec Answers s p calls a s') (hspec : Spec S log p Q) :
    Q (calls.reverse ++ log) a ∧ ∀ call ∈ calls, ∃ past, S past call.op := by
  induction h generalizing log with
  | done => exact ⟨hspec, by simp⟩
  | @call s op next reply s' calls a s'' answer rest ih =>
    obtain ⟨hresult, hcalls⟩ := ih (hspec.2 reply)
    refine ⟨by simpa using hresult, ?_⟩
    rw [List.forall_mem_cons]
    exact ⟨⟨log, hspec.1⟩, hcalls⟩

end Program
