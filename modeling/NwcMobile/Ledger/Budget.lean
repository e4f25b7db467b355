import NwcMobile.Ledger.RegistryEffects

/-!
Conservation of budgets over whole runs. The usage a period records is the usage
imported for it plus what its attempts stand for, so spending authority is
neither lost nor created by any sequence of calls.
-/

namespace NwcMobile

open Fallible Relational Transition Accounting

/-- The attempt is charged to this period. -/
def inPeriod (connectionId : String) (start : Nat) (r : PaymentAttemptRow) : Bool :=
  r.connectionId == connectionId && r.periodStartedAt == start

/-- One attempt's share of a period's usage. -/
def debitIn (connectionId : String) (start : Nat) (r : PaymentAttemptRow) : Nat :=
  if inPeriod connectionId start r then r.contribution else 0

/-- What the attempts of one period stand for together. -/
def Ledger.periodDebits (l : Ledger) (connectionId : String) (start : Nat) : Nat :=
  l.paymentAttempts.total (debitIn connectionId start)

/-- The usage one call imported for a period. -/
def LedgerCall.importedUsage (connectionId : String) (start : Nat) : LedgerCall → Nat
  | ⟨.registry (.importConnection c createdAt used now), .ok _⟩ =>
    if c.id.value = connectionId ∧
        Registry.importedBudgetPeriodStart c.policy.budget.interval createdAt now = .ok start then
      used
    else 0
  | _ => 0

/-- The usage a run imported for a period. -/
def importedUsage (history : LedgerHistory) (connectionId : String) (start : Nat) : Nat :=
  (history.map fun event => event.label.importedUsage connectionId start).sum

/-- Every period records its imported usage and its attempts' debits, and no
attempt or import refers to a period that has no row. -/
structure Balanced (imported : String → Nat → Nat) (l : Ledger) : Prop where
  used : ∀ period ∈ l.budgetPeriods, period.usedSat =
    imported period.connectionId period.periodStartedAt +
      l.periodDebits period.connectionId period.periodStartedAt
  attempt_period : ∀ row ∈ l.paymentAttempts, ∃ period ∈ l.budgetPeriods,
    samePeriod row.connectionId row.periodStartedAt period = true
  import_period : ∀ connectionId start, imported connectionId start ≠ 0 →
    ∃ period ∈ l.budgetPeriods, samePeriod connectionId start period = true
  connection_parses : ∀ row ∈ l.paymentAttempts, ∃ id : ConnectionId, id.value = row.connectionId

theorem samePeriod_eq_true {connectionId : String} {start : Nat} {period : BudgetPeriodRow} :
    samePeriod connectionId start period = true ↔
      period.connectionId = connectionId ∧ period.periodStartedAt = start := by
  simp [samePeriod]

theorem samePeriod_eq_false {connectionId : String} {start : Nat} {period : BudgetPeriodRow} :
    samePeriod connectionId start period = false ↔
      ¬ (period.connectionId = connectionId ∧ period.periodStartedAt = start) := by
  rw [← Bool.not_eq_true, samePeriod_eq_true]

theorem inPeriod_eq_true {connectionId : String} {start : Nat} {r : PaymentAttemptRow} :
    inPeriod connectionId start r = true ↔
      r.connectionId = connectionId ∧ r.periodStartedAt = start := by
  simp [inPeriod]

section Debits

variable {l l' : Ledger} {row row' : PaymentAttemptRow} {connectionId : String} {start : Nat}

theorem debitIn_self : debitIn row.connectionId row.periodStartedAt row = row.contribution := by
  simp [debitIn, inPeriod]

theorem debitIn_of_ne (h : ¬ (row.connectionId = connectionId ∧ row.periodStartedAt = start)) :
    debitIn connectionId start row = 0 := by
  rw [← inPeriod_eq_true] at h
  simp [debitIn, h]

theorem paymentAttempt_conflict_self (r : PaymentAttemptRow) :
    paymentAttemptSchema.conflict r r = true := by
  simp [paymentAttemptSchema]

theorem PaymentAttemptRow.Moves.periodStartedAt (h : row.Moves row') :
    row'.periodStartedAt = row.periodStartedAt := by
  cases h <;> rfl

theorem PaymentAttemptRow.Moves.debitIn_self (h : row.Moves row') :
    debitIn row.connectionId row.periodStartedAt row' = row'.contribution := by
  rw [← h.connectionId, ← h.periodStartedAt]
  exact NwcMobile.debitIn_self

/-- A period no attempt of which is stored has no debits. -/
theorem periodDebits_eq_zero
    (h : ∀ row ∈ l.paymentAttempts, inPeriod connectionId start row = false) :
    l.periodDebits connectionId start = 0 := by
  apply Table.total_eq_zero
  intro row hrow
  simp [debitIn, h row hrow]

theorem periodDebits_moved (hmem : row ∈ l.paymentAttempts)
    (hattempts : l.paymentAttempts.update (hasHash row.paymentHash) (fun _ => row') =
      some l'.paymentAttempts) :
    l'.periodDebits connectionId start + debitIn connectionId start row =
      l.periodDebits connectionId start + debitIn connectionId start row' :=
  Table.total_update paymentAttempt_conflict_self (hasHash_key _) hmem (by simp) hattempts

theorem periodDebits_requeued (h : Requeued l.paymentAttempts l'.paymentAttempts) :
    l'.periodDebits connectionId start = l.periodDebits connectionId start := by
  obtain ⟨f, hf, hrows⟩ := h
  simp only [Ledger.periodDebits, Table.total, hrows, List.map_map]
  congr 1
  apply List.map_congr_left
  intro r _
  rw [Function.comp_apply, hf r]
  rfl

end Debits

section Step

variable {imported : String → Nat → Nat} {l l' : Ledger}

/-- A period whose row is adjusted keeps its identity; the others are as they were. -/
theorem PeriodAdjusted.cases {before after : Table budgetPeriodSchema} {connectionId : String}
    {start old new : Nat} (h : PeriodAdjusted before after connectionId start old new)
    {period' : BudgetPeriodRow} (hperiod : period' ∈ after) :
    (period' ∈ before ∧ samePeriod connectionId start period' = false) ∨
      ∃ period ∈ before, samePeriod connectionId start period = true ∧ old ≤ period.usedSat ∧
        period'.connectionId = period.connectionId ∧
        period'.periodStartedAt = period.periodStartedAt ∧ period'.limitSat = period.limitSat ∧
        period'.usedSat = period.usedSat - old + new := by
  obtain ⟨period, hmem, now, hsame, hold, hupdate⟩ := h.exists_period
  rcases (Table.mem_replace hupdate).mp hperiod with hother | ⟨rfl, -⟩
  · exact Or.inl hother
  · exact Or.inr ⟨period, hmem, hsame, hold, rfl, rfl, rfl, rfl⟩

theorem PeriodAdjusted.exists_after {before after : Table budgetPeriodSchema}
    {connectionId : String} {start old new : Nat}
    (h : PeriodAdjusted before after connectionId start old new) {id : String} {at' : Nat}
    (hexists : ∃ period ∈ before, samePeriod id at' period = true) :
    ∃ period ∈ after, samePeriod id at' period = true := by
  obtain ⟨period, hmem, now, hsame, -, hupdate⟩ := h.exists_period
  obtain ⟨other, hother, hkey⟩ := hexists
  by_cases hp : samePeriod connectionId start other = true
  · have heq := Table.eq_of_key (samePeriod_key connectionId start) hother hmem hp hsame
    exact ⟨_, (Table.mem_replace hupdate).mpr (Or.inr ⟨rfl, period, hmem, hsame⟩),
      by simpa [samePeriod, heq] using hkey⟩
  · simp only [Bool.not_eq_true] at hp
    exact ⟨other, (Table.mem_replace hupdate).mpr (Or.inl ⟨hother, hp⟩), hkey⟩

/-- Exchanging one attempt's contribution in its period keeps the balance. -/
theorem Balanced.used_of_adjusted (h : Balanced imported l) {row : PaymentAttemptRow}
    {new : Nat} (hperiods : PeriodAdjusted l.budgetPeriods l'.budgetPeriods row.connectionId
      row.periodStartedAt row.contribution new)
    (hdebits : ∀ connectionId start, l'.periodDebits connectionId start +
      debitIn connectionId start row = l.periodDebits connectionId start +
        if connectionId = row.connectionId ∧ start = row.periodStartedAt then new else 0) :
    ∀ period ∈ l'.budgetPeriods, period.usedSat =
      imported period.connectionId period.periodStartedAt +
        l'.periodDebits period.connectionId period.periodStartedAt := by
  intro period' hperiod'
  have hdebit := hdebits period'.connectionId period'.periodStartedAt
  rcases hperiods.cases hperiod' with ⟨hmem, hother⟩ | ⟨period, hmem, hsame, hle, hid, hstart, -, hused⟩
  · have hne := samePeriod_eq_false.mp hother
    have hused := h.used period' hmem
    rw [debitIn_of_ne (by tauto), if_neg hne] at hdebit
    omega
  · obtain ⟨hcid, hcstart⟩ := samePeriod_eq_true.mp hsame
    have hbefore := h.used period hmem
    rw [hid, hstart, hcid, hcstart] at hdebit ⊢
    rw [hcid, hcstart] at hbefore
    rw [debitIn_self, if_pos ⟨rfl, rfl⟩] at hdebit
    omega

theorem Balanced.moved (h : Balanced imported l) {row row' : PaymentAttemptRow}
    {a : PaymentAttempt} (hmoved : Moved l l' row row' a) : Balanced imported l' := by
  have hdebits : ∀ connectionId start, l'.periodDebits connectionId start +
      debitIn connectionId start row = l.periodDebits connectionId start +
        debitIn connectionId start row' :=
    fun _ _ => periodDebits_moved hmoved.mem hmoved.attempts
  have hmem' : ∀ r ∈ l'.paymentAttempts, r ∈ l.paymentAttempts ∨ r = row' := by
    intro r hr
    rcases (Table.mem_replace hmoved.attempts).mp hr with hold | hnew
    · exact Or.inl hold.1
    · exact Or.inr hnew.1
  have hparses : ∀ r ∈ l'.paymentAttempts, ∃ id : ConnectionId, id.value = r.connectionId := by
    intro r hr
    rcases hmem' r hr with hold | rfl
    · exact h.connection_parses r hold
    · rw [hmoved.move.connectionId]
      exact h.connection_parses row hmoved.mem
  have hbefore : ∀ r ∈ l'.paymentAttempts, ∃ period ∈ l.budgetPeriods,
      samePeriod r.connectionId r.periodStartedAt period = true := by
    intro r hr
    rcases hmem' r hr with hold | rfl
    · exact h.attempt_period r hold
    · rw [hmoved.move.connectionId, hmoved.move.periodStartedAt]
      exact h.attempt_period row hmoved.mem
  rcases hmoved.periods with ⟨hperiods, hsame⟩ | hperiods
  · -- The period rows are untouched and the attempt stands for the same amount.
    refine ⟨?_, by rwa [hperiods], by rw [hperiods]; exact h.import_period, hparses⟩
    intro period hperiod
    rw [hperiods] at hperiod
    have hused := h.used period hperiod
    have hdebit := hdebits period.connectionId period.periodStartedAt
    have hshare : debitIn period.connectionId period.periodStartedAt row' =
        debitIn period.connectionId period.periodStartedAt row := by
      unfold debitIn inPeriod
      rw [hmoved.move.connectionId, hmoved.move.periodStartedAt, hsame]
    omega
  · refine ⟨h.used_of_adjusted hperiods ?_, fun r hr => hperiods.exists_after (hbefore r hr),
      fun id start hne => hperiods.exists_after (h.import_period id start hne), hparses⟩
    intro connectionId start
    rw [hdebits]
    congr 1
    by_cases hkey : connectionId = row.connectionId ∧ start = row.periodStartedAt
    · rw [if_pos hkey, hkey.1, hkey.2]
      exact hmoved.move.debitIn_self
    · rw [if_neg hkey]
      apply debitIn_of_ne
      rw [hmoved.move.connectionId, hmoved.move.periodStartedAt]
      tauto

theorem Balanced.released (h : Balanced imported l) {row : PaymentAttemptRow}
    (hmem : row ∈ l.paymentAttempts)
    (hattempts : l'.paymentAttempts = l.paymentAttempts.delete (hasHash row.paymentHash))
    (hperiods : PeriodAdjusted l.budgetPeriods l'.budgetPeriods row.connectionId
      row.periodStartedAt row.contribution 0) : Balanced imported l' := by
  have hmem' : ∀ r ∈ l'.paymentAttempts, r ∈ l.paymentAttempts := by
    intro r hr
    rw [hattempts] at hr
    exact (Table.mem_delete.mp hr).1
  refine ⟨h.used_of_adjusted hperiods ?_,
    fun r hr => hperiods.exists_after (h.attempt_period r (hmem' r hr)),
    fun id start hne => hperiods.exists_after (h.import_period id start hne),
    fun r hr => h.connection_parses r (hmem' r hr)⟩
  intro connectionId start
  have htotal := Table.total_delete (g := debitIn connectionId start) paymentAttempt_conflict_self
    (hasHash_key row.paymentHash) hmem (by simp)
  simp only [Ledger.periodDebits, hattempts, ite_self, Nat.add_zero]
  exact htotal

theorem Balanced.requeued (h : Balanced imported l)
    (hqueue : Requeued l.paymentAttempts l'.paymentAttempts)
    (hperiods : l'.budgetPeriods = l.budgetPeriods) : Balanced imported l' := by
  have hrow : ∀ r ∈ l'.paymentAttempts, ∃ s ∈ l.paymentAttempts,
      r.connectionId = s.connectionId ∧ r.periodStartedAt = s.periodStartedAt := by
    intro r hr
    obtain ⟨f, hf, hrows⟩ := hqueue
    rw [← Table.mem_rows, hrows, List.mem_map] at hr
    obtain ⟨s, hs, rfl⟩ := hr
    refine ⟨s, hs, ?_⟩
    rw [hf s]
    exact ⟨rfl, rfl⟩
  refine ⟨?_, ?_, by rw [hperiods]; exact h.import_period, ?_⟩
  · intro period hperiod
    rw [hperiods] at hperiod
    rw [periodDebits_requeued hqueue]
    exact h.used period hperiod
  · intro r hr
    obtain ⟨s, hs, hid, hstart⟩ := hrow r hr
    rw [hperiods, hid, hstart]
    exact h.attempt_period s hs
  · intro r hr
    obtain ⟨s, hs, hid, -⟩ := hrow r hr
    rw [hid]
    exact h.connection_parses s hs

/-- A period without a row has neither debits nor imported usage. -/
theorem Balanced.absent (h : Balanced imported l) {connectionId : String} {start : Nat}
    (habsent : ∀ period ∈ l.budgetPeriods, samePeriod connectionId start period = false) :
    l.periodDebits connectionId start = 0 ∧ imported connectionId start = 0 := by
  constructor
  · apply periodDebits_eq_zero
    intro row hrow
    by_contra hin
    obtain ⟨rfl, rfl⟩ := inPeriod_eq_true.mp (by simpa using hin)
    obtain ⟨period, hperiod, hsame⟩ := h.attempt_period row hrow
    rw [habsent period hperiod] at hsame
    cases hsame
  · by_contra hne
    obtain ⟨period, hperiod, hsame⟩ := h.import_period connectionId start hne
    rw [habsent period hperiod] at hsame
    cases hsame

/-- Opening an empty period keeps the balance. -/
theorem Balanced.opened (h : Balanced imported l) {connectionId : String} {start limit now : Nat}
    {opened : Table budgetPeriodSchema}
    (hopened : l.budgetPeriods.insertOrIgnore (samePeriod connectionId start)
      ⟨connectionId, start, limit, 0, now⟩ = some opened) :
    Balanced imported { l with budgetPeriods := opened } ∧
      ∃ period ∈ opened, samePeriod connectionId start period = true := by
  rcases Table.insertOrIgnore_cases hopened with ⟨rfl, hexists⟩ | ⟨habsent, hinsert⟩
  · exact ⟨h, hexists⟩
  · obtain ⟨hdebits, himported⟩ := h.absent habsent
    have hmono : ∀ {id at'}, (∃ period ∈ l.budgetPeriods, samePeriod id at' period = true) →
        ∃ period ∈ opened, samePeriod id at' period = true := by
      rintro id at' ⟨period, hperiod, hsame⟩
      exact ⟨period, (Table.mem_insert hinsert).mpr (Or.inl hperiod), hsame⟩
    refine ⟨⟨?_, fun r hr => hmono (h.attempt_period r hr),
      fun id at' hne => hmono (h.import_period id at' hne), h.connection_parses⟩,
      _, Table.insert_self hinsert, by simp [samePeriod]⟩
    intro period hperiod
    rcases (Table.mem_insert hinsert).mp hperiod with hold | rfl
    · exact h.used period hold
    · show 0 = imported connectionId start + l.periodDebits connectionId start
      omega

theorem Balanced.reserved (h : Balanced imported l) {row : PaymentAttemptRow} {limit : Nat}
    (hreserved : Reserved l l' row limit) : Balanced imported l' := by
  obtain ⟨opened, period, hmem, now, hopened, hsame, -, -, hdebited⟩ := hreserved.exists_period
  obtain ⟨hbalanced, -⟩ := h.opened hopened
  have hdebits : ∀ connectionId start, l'.periodDebits connectionId start =
      l.periodDebits connectionId start + debitIn connectionId start row :=
    fun _ _ => Table.total_insert hreserved.attempts
  have hperiods : ∀ period' ∈ l'.budgetPeriods,
      (period' ∈ opened ∧ samePeriod row.connectionId row.periodStartedAt period' = false) ∨
        period' = { period with usedSat := period.usedSat + row.contribution, updatedAt := now } := by
    intro period' hperiod'
    rcases (Table.mem_replace hdebited).mp hperiod' with hother | hnew
    · exact Or.inl hother
    · exact Or.inr hnew.1
  have hexists : ∀ {id at'}, (∃ p ∈ opened, samePeriod id at' p = true) →
      ∃ p ∈ l'.budgetPeriods, samePeriod id at' p = true := by
    rintro id at' ⟨other, hother, hkey⟩
    by_cases hp : samePeriod row.connectionId row.periodStartedAt other = true
    · have heq := Table.eq_of_key (samePeriod_key _ _) hother hmem hp hsame
      exact ⟨_, (Table.mem_replace hdebited).mpr (Or.inr ⟨rfl, period, hmem, hsame⟩),
        by simpa [samePeriod, heq] using hkey⟩
    · simp only [Bool.not_eq_true] at hp
      exact ⟨other, (Table.mem_replace hdebited).mpr (Or.inl ⟨hother, hp⟩), hkey⟩
  refine ⟨?_, ?_, fun id at' hne => hexists (hbalanced.import_period id at' hne), ?_⟩
  · intro period' hperiod'
    rw [hdebits]
    rcases hperiods period' hperiod' with ⟨hother, hne⟩ | rfl
    · have hused : period'.usedSat = imported period'.connectionId period'.periodStartedAt +
          l.periodDebits period'.connectionId period'.periodStartedAt :=
        hbalanced.used period' hother
      rw [debitIn_of_ne (by have := samePeriod_eq_false.mp hne; tauto)]
      omega
    · obtain ⟨hcid, hcstart⟩ := samePeriod_eq_true.mp hsame
      have hused : period.usedSat = imported period.connectionId period.periodStartedAt +
          l.periodDebits period.connectionId period.periodStartedAt :=
        hbalanced.used period hmem
      show period.usedSat + row.contribution = imported period.connectionId period.periodStartedAt +
        (l.periodDebits period.connectionId period.periodStartedAt +
          debitIn period.connectionId period.periodStartedAt row)
      rw [hcid, hcstart] at hused ⊢
      rw [debitIn_self]
      omega
  · intro r hr
    rcases (Table.mem_insert hreserved.attempts).mp hr with hold | rfl
    · exact hexists (hbalanced.attempt_period r hold)
    · exact hexists ⟨period, hmem, hsame⟩
  · intro r hr
    rcases (Table.mem_insert hreserved.attempts).mp hr with hold | rfl
    · exact h.connection_parses r hold
    · exact hreserved.connection

/-- An import writes its usage as a fresh period of a fresh connection. -/
theorem Balanced.importing (h : Balanced imported l) {connectionId : String} {limit used : Nat}
    {start : Except RegistryError Nat}
    (hperiods : ImportedPeriod l.budgetPeriods l'.budgetPeriods connectionId limit used start)
    (hattempts : l'.paymentAttempts = l.paymentAttempts) :
    Balanced (fun id at' => (if connectionId = id ∧ start = .ok at' then used else 0) +
      imported id at') l' := by
  have hdebits : ∀ id at', l'.periodDebits id at' = l.periodDebits id at' := by
    intro id at'
    simp only [Ledger.periodDebits, hattempts]
  rcases hperiods with ⟨rfl, hperiods⟩ | ⟨hused, startedAt, now, rfl, hinsert⟩
  · simp only [ite_self, Nat.zero_add]
    refine ⟨?_, ?_, by rw [hperiods]; exact h.import_period, ?_⟩
    · intro period hperiod
      rw [hdebits]
      exact h.used period (hperiods ▸ hperiod)
    · rw [hattempts, hperiods]
      exact h.attempt_period
    · rw [hattempts]
      exact h.connection_parses
  · have hfresh : ∀ period ∈ l.budgetPeriods, samePeriod connectionId startedAt period = false := by
      intro period hperiod
      simpa [budgetPeriodSchema, samePeriod] using Table.insert_no_conflict hinsert hperiod
    have hmono : ∀ {id at'}, (∃ period ∈ l.budgetPeriods, samePeriod id at' period = true) →
        ∃ period ∈ l'.budgetPeriods, samePeriod id at' period = true := by
      rintro id at' ⟨period, hperiod, hsame⟩
      exact ⟨period, (Table.mem_insert hinsert).mpr (Or.inl hperiod), hsame⟩
    obtain ⟨hnodebits, hnoimport⟩ := h.absent hfresh
    refine ⟨?_, ?_, ?_, by rw [hattempts]; exact h.connection_parses⟩
    · intro period hperiod
      rw [hdebits]
      rcases (Table.mem_insert hinsert).mp hperiod with hold | rfl
      · have hne := samePeriod_eq_false.mp (hfresh period hold)
        rw [if_neg (by rintro ⟨rfl, heq⟩; exact hne ⟨rfl, (Except.ok.inj heq).symm⟩), Nat.zero_add]
        exact h.used period hold
      · simp only [and_self, if_true]
        omega
    · rw [hattempts]
      exact fun r hr => hmono (h.attempt_period r hr)
    · intro id at' hne
      by_cases hkey : connectionId = id ∧ startedAt = at'
      · exact ⟨_, Table.insert_self hinsert, by simp [samePeriod, hkey.1, hkey.2]⟩
      · apply hmono
        apply h.import_period id at'
        rw [if_neg (by rintro ⟨rfl, heq⟩; exact hkey ⟨rfl, Except.ok.inj heq⟩)] at hne
        simpa using hne

theorem Balanced.congr (h : Balanced imported l) (hperiods : l'.budgetPeriods = l.budgetPeriods)
    (hattempts : l'.paymentAttempts = l.paymentAttempts) : Balanced imported l' := by
  have hdebits : ∀ id at', l'.periodDebits id at' = l.periodDebits id at' := by
    intro id at'
    simp only [Ledger.periodDebits, hattempts]
  refine ⟨?_, by rw [hattempts, hperiods]; exact h.attempt_period,
    by rw [hperiods]; exact h.import_period, by rw [hattempts]; exact h.connection_parses⟩
  intro period hperiod
  rw [hdebits]
  exact h.used period (hperiods ▸ hperiod)

theorem Balanced.payment (h : Balanced imported l) (heffect : PaymentEffect l l') :
    Balanced imported l' := by
  cases heffect with
  | unchanged heq => exact heq ▸ h
  | reserved hreserved _ => exact h.reserved hreserved
  | moved hmoved => exact h.moved hmoved
  | released hmem _ _ hattempts hperiods _ => exact h.released hmem hattempts hperiods
  | requeued hqueue hframe => exact h.requeued hqueue (by rw [hframe])

theorem importedUsage_error {op : LedgerOp} {e : op.Error} (id : String) (start : Nat) :
    LedgerCall.importedUsage id start ⟨op, .error e⟩ = 0 := by
  cases op with
  | registry op => cases op <;> rfl
  | payment op => rfl
  | claim op => rfl
  | record op => rfl
  | registration op => rfl

/-- One call keeps the balance, counting what it imports. -/
theorem Balanced.step (h : Balanced imported l) {x : Crates} {call : LedgerCall}
    (hstep : LedgerStep x l call l') :
    Balanced (fun id start => call.importedUsage id start + imported id start) l' := by
  obtain ⟨op, reply⟩ := call
  cases reply with
  | error e =>
    rw [hstep.eq_of_error]
    simpa only [importedUsage_error, Nat.zero_add] using h
  | ok value =>
    obtain ⟨random, hrun⟩ := hstep.run_of_ok
    cases op with
    | payment op =>
      simpa only [LedgerCall.importedUsage, Nat.zero_add] using h.payment (paymentOp_effect hrun)
    | claim op =>
      have hframe := claimOp_frame hrun
      simpa only [LedgerCall.importedUsage, Nat.zero_add] using
        h.congr (by rw [hframe]) (by rw [hframe])
    | record op =>
      have hframe := recordOp_frame hrun
      simpa only [LedgerCall.importedUsage, Nat.zero_add] using
        h.congr (by rw [hframe]) (by rw [hframe])
    | registration op =>
      have hframe := registrationOp_frame hrun
      simpa only [LedgerCall.importedUsage, Nat.zero_add] using
        h.congr (by rw [hframe]) (by rw [hframe])
    | registry op =>
      cases op with
      | importConnection c createdAt used now =>
        obtain ⟨-, -, row, hinserted⟩ := importConnection_ok hrun
        exact h.importing hinserted.periods hinserted.attempts
      | insertConnection c now =>
        obtain ⟨-, row, hinserted⟩ := insertConnectionState_ok hrun
        simpa only [LedgerCall.importedUsage, ite_self, Nat.zero_add] using
          h.importing hinserted.periods hinserted.attempts
      | tombstoneConnection id revision now =>
        obtain ⟨row, row', htombstoned, -⟩ := tombstoneConnection_ok hrun
        simpa only [LedgerCall.importedUsage, Nat.zero_add] using
          h.congr htombstoned.periods htombstoned.attempts
      | loadConnection id =>
        simpa only [LedgerCall.importedUsage, Nat.zero_add, (reading_eq_ok.mp hrun).2] using h
      | loadActiveConnection id =>
        simpa only [LedgerCall.importedUsage, Nat.zero_add, (reading_eq_ok.mp hrun).2] using h
      | listActiveConnections =>
        simpa only [LedgerCall.importedUsage, Nat.zero_add, (reading_eq_ok.mp hrun).2] using h
      | loadActiveConnectionByKeys client wallet =>
        simpa only [LedgerCall.importedUsage, Nat.zero_add, (reading_eq_ok.mp hrun).2] using h
      | isRelayApprovedForWallet wallet relay now =>
        simpa only [LedgerCall.importedUsage, Nat.zero_add, (reading_eq_ok.mp hrun).2] using h
      | isConnectionRevisionActive id revision =>
        simpa only [LedgerCall.importedUsage, Nat.zero_add, (reading_eq_ok.mp hrun).2] using h

end Step

section Corruption

variable {imported : String → Nat → Nat} {l : Ledger} {row : PaymentAttemptRow}
  {a : PaymentAttempt} {hash : PaymentHash} {now : UnixTimestamp}

/-- A stored attempt never stands for more than its period records. -/
theorem Balanced.contribution_le (h : Balanced imported l) (hrow : row ∈ l.paymentAttempts)
    {period : BudgetPeriodRow} (hperiod : period ∈ l.budgetPeriods)
    (hsame : samePeriod row.connectionId row.periodStartedAt period = true) :
    row.contribution ≤ period.usedSat := by
  obtain ⟨hid, hstart⟩ := samePeriod_eq_true.mp hsame
  have hused := h.used period hperiod
  have hshare : debitIn row.connectionId row.periodStartedAt row ≤
      l.periodDebits row.connectionId row.periodStartedAt := Table.le_total hrow
  rw [hid, hstart] at hused
  rw [debitIn_self] at hshare
  omega

/-- In a balanced ledger the subtraction of `adjust_period_used` cannot fail. -/
theorem Balanced.adjust_not_corrupt (h : Balanced imported l) (hstored : l.Stored row a)
    {old new nowSql : Nat} (hold : old = row.contribution) (hnew : new ≤ i64Max) :
    l.adjustPeriodUsed a old new nowSql ≠ .error .corruptData := by
  subst hold
  intro herr
  simp only [Ledger.adjustPeriodUsed, bind_eq_error, okOr_eq_error, okOr_eq_ok, sqliteU64,
    i64TryFrom_eq_error, i64TryFrom_eq_ok, reduceCtorEq, and_false, false_or, or_false,
    exists_false] at herr
  obtain ⟨_, ⟨-, rfl⟩, period, hperiod, herr⟩ := herr
  obtain ⟨hmem, hsame⟩ := Table.selectRow_mem hperiod
  rw [hstored.connectionId, hstored.periodStartedAt] at hsame
  have hle := h.contribution_le hstored.mem hmem hsame
  have hrange : period.usedSat ≤ i64Max := (budgetPeriod_valid hmem).2.2.1
  rcases herr with ⟨hsub, -⟩ | ⟨remaining, hsub, ⟨hadd, -⟩⟩
  · simp only [checkedSub, hle, if_true, reduceCtorEq] at hsub
  · obtain ⟨-, rfl⟩ := checkedSub_eq_some.mp hsub
    simp only [checkedAdd, ite_eq_right_iff, reduceCtorEq, imp_false] at hadd
    simp only [i64Max] at hrange hnew
    omega

theorem Balanced.requireAttempt_error (h : Balanced imported l) {e : PaymentAccountingError}
    (herr : l.requireAttempt hash = .error e) : e = .reservationConflict := by
  cases hrow : l.paymentAttempts.selectRow fun r => r.paymentHash == hash with
  | none =>
    have hload : l.loadAttemptByHash hash = .ok none := option_mapM_eq_none.mpr hrow
    rw [Ledger.requireAttempt, hload, ok_bind] at herr
    exact (okOr_eq_error.mp herr).2.symm
  | some row =>
    obtain ⟨hmem, hhash⟩ := Table.selectRow_mem hrow
    obtain ⟨id, hid⟩ := h.connection_parses row hmem
    have hfound := requireAttempt_eq_ok.mpr
      ⟨row, (⟨hmem, hid, rfl⟩ : l.Stored row (row.toAttempt id)), by simpa using hhash⟩
    rw [hfound] at herr
    cases herr

theorem Balanced.release_not_corrupt (h : Balanced imported l) :
    l.releaseUninitiatedPayment hash now ≠ .error .corruptData := by
  intro herr
  simp only [Ledger.releaseUninitiatedPayment, bind_eq_error, sqliteU64, i64TryFrom_eq_error,
    validateUpdateTime, ensure_eq_error, requireAttempt_eq_ok, reduceCtorEq, and_false, false_or,
    ensure_eq_ok, exists_false, or_false, pure, Except.pure] at herr
  obtain ⟨_, -, herr⟩ := herr
  rcases herr with hload | ⟨a, ⟨row, hstored, rfl⟩, -, -, -, hguard, hadjust⟩
  · cases h.requireAttempt_error hload
  · have hstate : row.state = .reserved := by
      simp [hstored.state] at hguard
      exact hguard.1
    refine h.adjust_not_corrupt hstored ?_ (Nat.zero_le _) hadjust
    rw [hstored.reservedSat, unresolved_contribution (Or.inl hstate)]

theorem Balanced.failed_not_corrupt (h : Balanced imported l) :
    l.markPaymentFailed hash now ≠ .error .corruptData := by
  intro herr
  simp only [Ledger.markPaymentFailed, bind_eq_error, sqliteU64, i64TryFrom_eq_error,
    validateUpdateTime, ensureAttemptInitiated, ensure_eq_error, requireAttempt_eq_ok,
    reduceCtorEq, and_false, false_or] at herr
  obtain ⟨_, -, herr⟩ := herr
  rcases herr with hload | ⟨a, ⟨row, hstored, rfl⟩, -, -, -, -, herr⟩
  · cases h.requireAttempt_error hload
  · have hadjust : (row.state = .reserved ∨ row.state = .pending) →
        ∀ nowSql, l.adjustPeriodUsed a a.reservedSat 0 nowSql ≠ .error .corruptData := by
      intro hstate nowSql
      refine h.adjust_not_corrupt hstored ?_ (Nat.zero_le _)
      rw [hstored.reservedSat, unresolved_contribution hstate]
    cases hs : a.state with
    | succeeded => simp [hs] at herr
    | failed => simp [hs, pure, Except.pure] at herr
    | reserved =>
      simp only [hs, bind_eq_error, okOr_eq_error, reduceCtorEq, and_false, exists_false,
        or_false, pure, Except.pure] at herr
      exact hadjust (Or.inl (hstored.state ▸ hs)) _ herr
    | pending =>
      simp only [hs, bind_eq_error, okOr_eq_error, reduceCtorEq, and_false, exists_false,
        or_false, pure, Except.pure] at herr
      exact hadjust (Or.inr (hstored.state ▸ hs)) _ herr

theorem Balanced.settle_not_corrupt (h : Balanced imported l) (hstored : l.Stored row a)
    (hstate : row.state ≠ .succeeded) {principal fee : Nat} (hprincipal : principal < 2 ^ 62)
    (hfee : fee < 2 ^ 62) : l.settleAttempt hash a principal fee now ≠ .error .corruptData := by
  intro herr
  simp only [Ledger.settleAttempt, bind_eq_error, okOr_eq_error, okOr_eq_ok, sqliteU64,
    i64TryFrom_eq_error, reduceCtorEq, and_false, false_or, exists_false, or_false, pure,
    Except.pure] at herr
  obtain ⟨nowSql, -, connection, -, herr⟩ := herr
  rcases herr with hcharge | ⟨charged, hcharge, hadjust⟩
  · unfold chargedAmount at hcharge
    split at hcharge
    · cases (okOr_eq_error.mp hcharge).2
    · cases hcharge
  · have hbound : charged ≤ i64Max := by
      unfold chargedAmount at hcharge
      simp only [i64Max]
      split at hcharge
      · have := (checkedAdd_eq_some.mp (okOr_eq_ok.mp hcharge)).2
        omega
      · have := Except.ok.inj hcharge
        omega
    exact h.adjust_not_corrupt hstored (hstored.contribution hstate).symm hbound hadjust

theorem msatToSatCeil_ok {amount sats : Nat} (h : msatToSatCeil amount = .ok sats) :
    sats = (amount + 999) / 1000 ∧ sats < 2 ^ 62 := by
  simp only [msatToSatCeil, bind_eq_ok, okOr_eq_ok, checkedAdd_eq_some, pure_eq_ok] at h
  obtain ⟨_, ⟨hrange, rfl⟩, rfl⟩ := h
  exact ⟨rfl, by omega⟩

theorem Balanced.succeeded_not_corrupt (h : Balanced imported l) {principal fee : AmountMsat} :
    l.markPaymentSucceeded hash principal fee now ≠ .error .corruptData := by
  intro herr
  have hceil : ∀ amount, msatToSatCeil amount ≠ .error .corruptData := by
    intro amount hceil
    simp only [msatToSatCeil, bind_eq_error, okOr_eq_error, reduceCtorEq, and_false, false_or,
      exists_false, pure, Except.pure] at hceil
  simp only [Ledger.markPaymentSucceeded, bind_eq_error, sqliteU64, i64TryFrom_eq_error,
    validateUpdateTime, ensureAttemptInitiated, ensure_eq_error, requireAttempt_eq_ok, hceil,
    reduceCtorEq, and_false, false_or] at herr
  obtain ⟨principalSat, hprincipal, feeSat, hfee, _, -, _, -, _, -, herr⟩ := herr
  rcases herr with hload | ⟨a, ⟨row, hstored, rfl⟩, -, -, -, -, herr⟩
  · cases h.requireAttempt_error hload
  · split at herr
    · split at herr <;> cases herr
    · rename_i hstate
      rw [hstored.state] at hstate
      exact h.settle_not_corrupt hstored hstate (msatToSatCeil_ok hprincipal).2
        (msatToSatCeil_ok hfee).2 herr

end Corruption

theorem balanced_empty : Balanced (fun _ _ => 0) Ledger.empty where
  used := fun period hperiod => absurd hperiod (Table.not_mem_empty period)
  attempt_period := fun row hrow => absurd hrow (Table.not_mem_empty row)
  import_period := fun _ _ hne => absurd rfl hne
  connection_parses := fun row hrow => absurd hrow (Table.not_mem_empty row)

/-- Every ledger a run reaches from a fresh database is balanced. -/
theorem balanced_run {x : Crates} {history : LedgerHistory} {l : Ledger}
    (hrun : LedgerRun x .empty history l) : Balanced (importedUsage history) l := by
  refine hrun.history_invariant (J := fun history l => Balanced (importedUsage history) l)
    balanced_empty ?_
  intro past a label b _ hbalanced hstep
  exact hbalanced.step hstep

/-- Budget conservation. After any calls, in any order and at any clock values,
every period row records exactly the usage imported for it plus the
contributions of its attempts; so the subtraction that adjusts a period never
fails and no settlement call reports corrupt data. -/
theorem budget_conservation {x : Crates} {history : LedgerHistory} {l : Ledger}
    (hrun : LedgerRun x .empty history l) :
    (∀ period ∈ l.budgetPeriods, period.usedSat =
      importedUsage history period.connectionId period.periodStartedAt +
        l.periodDebits period.connectionId period.periodStartedAt) ∧
      ∀ hash now, l.releaseUninitiatedPayment hash now ≠ .error .corruptData ∧
        l.markPaymentFailed hash now ≠ .error .corruptData ∧
        ∀ principal fee, l.markPaymentSucceeded hash principal fee now ≠ .error .corruptData := by
  have hbalanced := balanced_run hrun
  refine ⟨hbalanced.used, ?_⟩
  intro hash now
  exact ⟨hbalanced.release_not_corrupt, hbalanced.failed_not_corrupt,
    fun _ _ => hbalanced.succeeded_not_corrupt⟩

theorem budget_conservation_spent :
    (∀ period ∈ Sample.spent.2.budgetPeriods, period.usedSat =
      importedUsage Sample.spent.1 period.connectionId period.periodStartedAt +
        Sample.spent.2.periodDebits period.connectionId period.periodStartedAt) ∧
      Sample.spent.2.budgetPeriods.rows.map (·.usedSat) = [25] := by
  refine ⟨(budget_conservation Sample.spent_run).1, ?_⟩
  decide

end NwcMobile
