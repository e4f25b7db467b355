import NwcMobile.Foundations.Program
import NwcMobile.Foundations.Transition

/-!
Any number of programs running concurrently over shared state. A scheduler picks
who acts next; one action is one operation of one program, answered by the
shared state. Programs may be started at any time and may stop after any of their
operations, and operations from outside the programs may come in between. What a
program guarantees on its own (`Spec`) then holds of every action it takes in
every run.
-/

namespace Concurrent

open Program Transition

universe u v

variable {σ Job Op : Type u} {Reply : Op → Type v} {α : Type v}

/-- One running program with the log of its own calls. -/
structure Thread (Job Op : Type u) (Reply : Op → Type v) (α : Type v) where
  job : Job
  log : Log Op Reply
  rest : Prog Op Reply α
  live : Bool

structure World (σ Job Op : Type u) (Reply : Op → Type v) (α : Type v) where
  shared : σ
  threads : List (Thread Job Op Reply α)

inductive Label (Job Op : Type u) (Reply : Op → Type v) where
  | spawn (job : Job)
  | act (thread : Nat) (call : Call Op Reply)
  | crash (thread : Nat)
  | outside (call : Call Op Reply)

/-- The thread after one call. -/
def Thread.advance (t : Thread Job Op Reply α) (call : Call Op Reply)
    (rest : Prog Op Reply α) : Thread Job Op Reply α :=
  { t with log := call :: t.log, rest }

variable (program : Job → Prog Op Reply α) (answers : σ → Call Op Reply → σ → Prop)
  (outside : Call Op Reply → Prop)

inductive Step : World σ Job Op Reply α → Label Job Op Reply → World σ Job Op Reply α → Prop
  | spawn {w : World σ Job Op Reply α} (job : Job) :
      Step w (.spawn job) { w with threads := w.threads ++ [⟨job, [], program job, true⟩] }
  | act {w : World σ Job Op Reply α} {i : Nat} {t : Thread Job Op Reply α} {op : Op}
      {next : Reply op → Prog Op Reply α} {reply : Reply op} {s : σ}
      (hthread : w.threads[i]? = some t) (hlive : t.live = true) (hnext : t.rest = .call op next)
      (hanswer : answers w.shared ⟨op, reply⟩ s) :
      Step w (.act i ⟨op, reply⟩)
        ⟨s, w.threads.set i (t.advance ⟨op, reply⟩ (next reply))⟩
  | crash {w : World σ Job Op Reply α} {i : Nat} {t : Thread Job Op Reply α}
      (hthread : w.threads[i]? = some t) :
      Step w (.crash i) { w with threads := w.threads.set i { t with live := false } }
  | outside {w : World σ Job Op Reply α} {call : Call Op Reply} {s : σ} (hout : outside call)
      (hanswer : answers w.shared call s) : Step w (.outside call) { w with shared := s }

abbrev History (σ Job Op : Type u) (Reply : Op → Type v) (α : Type v) :=
  List (Event (World σ Job Op Reply α) (Label Job Op Reply))

/-- How a step changes the thread at one position. -/
inductive Changes (i : Nat) :
    Label Job Op Reply → Option (Thread Job Op Reply α) → Thread Job Op Reply α → Prop
  | same {label : Label Job Op Reply} {t : Thread Job Op Reply α}
      (hother : ∀ call, label ≠ .act i call) : Changes i label (some t) t
  | started {job : Job} : Changes i (.spawn job) none ⟨job, [], program job, true⟩
  | acted {t : Thread Job Op Reply α} {op : Op} {next : Reply op → Prog Op Reply α}
      {reply : Reply op} (hlive : t.live = true) (hnext : t.rest = .call op next) :
      Changes i (.act i ⟨op, reply⟩) (some t) (t.advance ⟨op, reply⟩ (next reply))
  | crashed {t : Thread Job Op Reply α} : Changes i (.crash i) (some t) { t with live := false }

variable {program answers outside} {w w' : World σ Job Op Reply α} {label : Label Job Op Reply}
  {history : History σ Job Op Reply α} {s₀ : σ} {t t' : Thread Job Op Reply α} {i : Nat}
  {call : Call Op Reply}

theorem Step.changes (h : Step program answers outside w label w')
    (hthread : w'.threads[i]? = some t') : Changes program i label w.threads[i]? t' := by
  cases h with
  | spawn job =>
    by_cases hi : i < w.threads.length
    · rw [List.getElem?_append_left hi] at hthread
      rw [hthread]
      exact .same fun call heq => by cases heq
    · have hlen : w.threads.length ≤ i := Nat.le_of_not_lt hi
      rw [List.getElem?_append_right hlen] at hthread
      have hzero : i - w.threads.length = 0 := by
        by_contra hne
        rw [List.getElem?_singleton, if_neg hne] at hthread
        cases hthread
      rw [hzero, List.getElem?_cons_zero, Option.some.injEq] at hthread
      rw [List.getElem?_eq_none hlen, ← hthread]
      exact .started
  | @act j t op next reply s hold hlive hnext hanswer =>
    by_cases hij : j = i
    · subst hij
      obtain ⟨hj, -⟩ := List.getElem?_eq_some_iff.mp hold
      rw [List.getElem?_set_self hj, Option.some.injEq] at hthread
      rw [hold, ← hthread]
      exact .acted hlive hnext
    · rw [List.getElem?_set_ne hij] at hthread
      rw [hthread]
      refine .same fun call heq => hij ?_
      injection heq
  | @crash j t hold =>
    by_cases hij : j = i
    · subst hij
      obtain ⟨hj, -⟩ := List.getElem?_eq_some_iff.mp hold
      rw [List.getElem?_set_self hj, Option.some.injEq] at hthread
      rw [hold, ← hthread]
      exact .crashed
    · rw [List.getElem?_set_ne hij] at hthread
      rw [hthread]
      exact .same fun call heq => by cases heq
  | outside hout hanswer =>
    change w.threads[i]? = some t' at hthread
    rw [hthread]
    exact .same fun call heq => by cases heq

/-- A step never loses a thread, its job or what it has logged. -/
theorem Step.keeps (h : Step program answers outside w label w')
    (hthread : w.threads[i]? = some t) :
    ∃ t', w'.threads[i]? = some t' ∧ t'.job = t.job ∧ t.log ⊆ t'.log := by
  obtain ⟨hi, -⟩ := List.getElem?_eq_some_iff.mp hthread
  have hlen : i < w'.threads.length := by
    cases h with
    | spawn job =>
      rw [List.length_append]
      omega
    | act hother hlive hnext hanswer => simpa using hi
    | crash hother => simpa using hi
    | outside hout hanswer => exact hi
  have hafter : w'.threads[i]? = some w'.threads[i] := List.getElem?_eq_getElem hlen
  refine ⟨_, hafter, ?_⟩
  have hchanges := h.changes hafter
  rw [hthread] at hchanges
  generalize w'.threads[i] = t' at hchanges
  cases hchanges with
  | same => exact ⟨rfl, List.Subset.refl _⟩
  | acted hlive hnext => exact ⟨rfl, List.subset_cons_self _ _⟩
  | crashed => exact ⟨rfl, List.Subset.refl _⟩

theorem Step.length_le (h : Step program answers outside w label w') :
    w.threads.length ≤ w'.threads.length := by
  cases h with
  | spawn job =>
    rw [List.length_append]
    omega
  | act hother hlive hnext hanswer => simp
  | crash hother => simp
  | outside hout hanswer => exact Nat.le_refl _

theorem length_le_of_run {w₀ : World σ Job Op Reply α}
    (hrun : Run (Step program answers outside) w₀ history w) :
    w₀.threads.length ≤ w.threads.length := by
  induction hrun with
  | refl => exact Nat.le_refl _
  | tail _ hstep ih => exact Nat.le_trans ih hstep.length_le

/-- The call a label makes on behalf of the thread at position `i`. -/
def Label.callOf (i : Nat) : Label Job Op Reply → Option (Call Op Reply)
  | .act j call => if j = i then some call else none
  | _ => none

theorem Label.callOf_eq_some {label : Label Job Op Reply} :
    label.callOf i = some call ↔ label = .act i call := by
  cases label with
  | act j call' =>
    by_cases hij : j = i
    · simp [Label.callOf, hij]
    · simp [Label.callOf, hij]
  | spawn job => simp [Label.callOf]
  | crash j => simp [Label.callOf]
  | outside call' => simp [Label.callOf]

/-- The calls of the thread at position `i` in a history, newest first. -/
def actsOf (i : Nat) (history : History σ Job Op Reply α) : Log Op Reply :=
  history.filterMap fun event => event.label.callOf i

theorem mem_actsOf : call ∈ actsOf i history ↔ ∃ event ∈ history, event.label = .act i call := by
  simp [actsOf, Label.callOf_eq_some]

theorem actsOf_append {recent past : History σ Job Op Reply α} :
    actsOf i (recent ++ past) = actsOf i recent ++ actsOf i past :=
  List.filterMap_append

theorem actsOf_cons {event : Event (World σ Job Op Reply α) (Label Job Op Reply)}
    (hlabel : event.label = .act i call) :
    actsOf i (event :: history) = call :: actsOf i history := by
  have hcall : event.label.callOf i = some call := Label.callOf_eq_some.mpr hlabel
  simp only [actsOf, List.filterMap_cons, hcall]

/-- Where in the history one of a thread's calls was made. -/
theorem actsOf_split {newer older : Log Op Reply} (h : actsOf i history = newer ++ call :: older) :
    ∃ recent event past, history = recent ++ event :: past ∧ event.label = .act i call ∧
      actsOf i recent = newer ∧ actsOf i past = older := by
  obtain ⟨recent, rest, rfl, hrecent, hrest⟩ := List.filterMap_eq_append_iff.mp h
  obtain ⟨skipped, event, past, rfl, hskipped, hevent, hpast⟩ := List.filterMap_eq_cons_iff.mp hrest
  refine ⟨recent ++ skipped, event, past, by simp, Label.callOf_eq_some.mp hevent, ?_, hpast⟩
  unfold actsOf
  rw [List.filterMap_append, hrecent, List.filterMap_eq_nil_iff.mpr hskipped, List.append_nil]

section Runs

variable {S : Job → Log Op Reply → Op → Prop} {Q : Job → Log Op Reply → α → Prop}

/-- In every reachable world each thread still keeps its program's guarantee. -/
theorem threads_spec
    (hspec : ∀ job, Spec (S job) [] (program job) (Q job))
    (hrun : Run (Step program answers outside) ⟨s₀, []⟩ history w) :
    ∀ (i : Nat) (t : Thread Job Op Reply α), w.threads[i]? = some t →
      Spec (S t.job) t.log t.rest (Q t.job) := by
  refine hrun.invariant (I := fun w => ∀ (i : Nat) (t : Thread Job Op Reply α),
    w.threads[i]? = some t → Spec (S t.job) t.log t.rest (Q t.job)) ?_ ?_
  · intro i t hthread
    simp at hthread
  · intro a label b ih hstep i t hthread
    have hchanges := hstep.changes hthread
    generalize hold : a.threads[i]? = old at hchanges
    cases hchanges with
    | same => exact ih i t hold
    | started => exact hspec _
    | acted hlive hnext =>
      have hprior := ih i _ hold
      rw [hnext] at hprior
      exact hprior.2 _
    | @crashed t => exact ih i t hold

/-- Every thread was started with its job. -/
theorem job_spawned (hrun : Run (Step program answers outside) ⟨s₀, []⟩ history w) :
    ∀ (i : Nat) (t : Thread Job Op Reply α), w.threads[i]? = some t →
      ∃ event ∈ history, event.label = .spawn t.job := by
  refine hrun.history_invariant (J := fun history w => ∀ (i : Nat) (t : Thread Job Op Reply α),
    w.threads[i]? = some t → ∃ event ∈ history, event.label = .spawn t.job) ?_ ?_
  · intro i t hthread
    simp at hthread
  · intro past a label b _ ih hstep i t hthread
    have hlift : ∀ job, (∃ event ∈ past, event.label = .spawn job) →
        ∃ event ∈ (⟨a, label, b⟩ :: past : History σ Job Op Reply α),
          event.label = .spawn job := by
      rintro job ⟨event, hmem, hlabel⟩
      exact ⟨event, List.mem_cons_of_mem _ hmem, hlabel⟩
    have hchanges := hstep.changes hthread
    generalize hold : a.threads[i]? = old at hchanges
    cases hchanges with
    | same hother => exact hlift _ (ih i t hold)
    | started => exact ⟨_, List.mem_cons_self, rfl⟩
    | @acted t op next reply hlive hnext => exact hlift _ (ih i t hold)
    | @crashed t => exact hlift _ (ih i t hold)

/-- Over a run no thread is lost, nor its job, nor what it has logged. -/
theorem threads_kept {w₀ : World σ Job Op Reply α}
    (hrun : Run (Step program answers outside) w₀ history w) (hthread : w₀.threads[i]? = some t) :
    ∃ t', w.threads[i]? = some t' ∧ t'.job = t.job ∧ t.log ⊆ t'.log := by
  induction hrun with
  | refl => exact ⟨t, hthread, rfl, List.Subset.refl _⟩
  | tail _ hstep ih =>
    obtain ⟨mid, hmid, hjob, hlog⟩ := ih
    obtain ⟨t', hthread', hjob', hlog'⟩ := hstep.keeps hmid
    exact ⟨t', hthread', hjob'.trans hjob, List.Subset.trans hlog hlog'⟩

/-- Every action in a run satisfies its program's guard. -/
theorem act_spec
    (hspec : ∀ job, Spec (S job) [] (program job) (Q job))
    (hrun : Run (Step program answers outside) ⟨s₀, []⟩ history w)
    {event : Event (World σ Job Op Reply α) (Label Job Op Reply)} (hevent : event ∈ history)
    (hlabel : event.label = .act i call) :
    ∃ t, event.before.threads[i]? = some t ∧ t.live = true ∧ S t.job t.log call.op := by
  obtain ⟨later, earlier, rfl⟩ := List.append_of_mem hevent
  obtain ⟨hbefore, hstep, -⟩ := hrun.split
  rw [hlabel] at hstep
  generalize event.after = after at hstep
  cases hstep with
  | @act j t op next reply s hthread hlive hnext hanswer =>
    have hrest := threads_spec hspec hbefore i t hthread
    rw [hnext] at hrest
    exact ⟨t, hthread, hlive, hrest.1⟩

/-- Every action of a thread is in its log from then on. -/
theorem event_log (hrun : Run (Step program answers outside) ⟨s₀, []⟩ history w) :
    ∀ event ∈ history, event.label = .act i call →
      ∃ t, w.threads[i]? = some t ∧ call ∈ t.log := by
  refine hrun.history_invariant (J := fun history w => ∀ event ∈ history,
    event.label = .act i call → ∃ t, w.threads[i]? = some t ∧ call ∈ t.log) ?_ ?_
  · intro event hevent
    exact absurd hevent List.not_mem_nil
  · intro past a label b _ ih hstep event hevent hlabel
    rcases List.mem_cons.mp hevent with rfl | hprior
    · change label = .act i call at hlabel
      subst hlabel
      cases hstep with
      | @act j t op next reply s hthread hlive hnext hanswer =>
        obtain ⟨hi, -⟩ := List.getElem?_eq_some_iff.mp hthread
        exact ⟨_, List.getElem?_set_self hi, List.mem_cons_self⟩
    · obtain ⟨t, hthread, hcall⟩ := ih event hprior hlabel
      obtain ⟨t', hthread', -, hlog⟩ := hstep.keeps hthread
      exact ⟨t', hthread', hlog hcall⟩

/-- A thread's log is the sequence of its actions. -/
theorem log_eq_actsOf (hrun : Run (Step program answers outside) ⟨s₀, []⟩ history w) :
    ∀ (i : Nat) (t : Thread Job Op Reply α), w.threads[i]? = some t → t.log = actsOf i history := by
  refine hrun.history_invariant (J := fun history w => (∀ (i : Nat) (t : Thread Job Op Reply α),
    w.threads[i]? = some t → t.log = actsOf i history)) ?_ ?_
  · intro i t hthread
    simp at hthread
  · intro past a label b hpast ih hstep i t hthread
    have hchanges := hstep.changes hthread
    have hquiet : (∀ call, label ≠ .act i call) →
        actsOf i (⟨a, label, b⟩ :: past : History σ Job Op Reply α) = actsOf i past := by
      intro hother
      have hnone : label.callOf i = none := by
        rw [Option.eq_none_iff_forall_ne_some]
        intro call hcall
        exact hother call (Label.callOf_eq_some.mp hcall)
      simp [actsOf, hnone]
    generalize hold : a.threads[i]? = old at hchanges
    cases hchanges with
    | same hother => rw [hquiet hother, ih i t hold]
    | started =>
      -- a thread that does not exist yet has not acted
      rw [hquiet fun call heq => by cases heq]
      symm
      apply List.eq_nil_iff_forall_not_mem.mpr
      intro call hcall
      obtain ⟨event, hevent, hlabel⟩ := mem_actsOf.mp hcall
      obtain ⟨t, hexists, -⟩ := event_log hpast event hevent hlabel
      rw [hold] at hexists
      cases hexists
    | @acted t op next reply hlive hnext =>
      have hcall : (Label.act i ⟨op, reply⟩ : Label Job Op Reply).callOf i = some ⟨op, reply⟩ :=
        Label.callOf_eq_some.mpr rfl
      simp only [Thread.advance, actsOf, List.filterMap_cons, hcall]
      rw [ih i t hold]
      rfl
    | @crashed t =>
      rw [hquiet fun call heq => by cases heq]
      exact ih i t hold

/-- Every call in a thread's log was an action of that thread. -/
theorem log_event (hrun : Run (Step program answers outside) ⟨s₀, []⟩ history w) :
    ∀ (i : Nat) (t : Thread Job Op Reply α), w.threads[i]? = some t → ∀ call ∈ t.log,
      ∃ event ∈ history, event.label = .act i call := by
  intro i t hthread call hcall
  rw [log_eq_actsOf hrun i t hthread] at hcall
  exact mem_actsOf.mp hcall

end Runs

end Concurrent
