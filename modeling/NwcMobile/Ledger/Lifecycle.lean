import NwcMobile.Ledger.RegistryEffects

/-!
The lifecycle of a payment hash over whole runs. `AttemptStep` says what one
call can do to the row of one hash; the stages it passes through, what of it is
permanent and what a caller is told all follow from that.
-/

namespace NwcMobile

open Fallible Relational Transition Accounting

/-- The row of one payment hash, if there is one. -/
def Ledger.attemptOf (l : Ledger) (hash : PaymentHash) : Option PaymentAttemptRow :=
  l.paymentAttempts.selectRow (hasHash hash)

/-- Where a payment hash stands. -/
inductive PaymentStage where
  | absent
  | reserved
  | initiated
  | pending
  | succeeded
  | failed
deriving DecidableEq, Repr

/-- The stage of a row; a reservation counts as initiated once it is marked. -/
def PaymentAttemptRow.stage (r : PaymentAttemptRow) : PaymentStage :=
  match r.state with
  | .reserved => if r.initiatedAt.isSome then .initiated else .reserved
  | .pending => .pending
  | .succeeded => .succeeded
  | .failed => .failed

def Ledger.stage (l : Ledger) (hash : PaymentHash) : PaymentStage :=
  match l.attemptOf hash with
  | none => .absent
  | some r => r.stage

/-- The arrows of the lifecycle. -/
inductive PaymentStage.Next : PaymentStage → PaymentStage → Prop
  | reserve : Next .absent .reserved
  | release : Next .reserved .absent
  | initiate : Next .reserved .initiated
  | pend : Next .initiated .pending
  | settle : Next .initiated .succeeded
  | fail : Next .initiated .failed
  | settlePending : Next .pending .succeeded
  | failPending : Next .pending .failed
  | settleFailed : Next .failed .succeeded

/-- What one call can do to the row of one payment hash. -/
inductive AttemptStep : Option PaymentAttemptRow → Option PaymentAttemptRow → Prop
  | absent : AttemptStep none none
  | kept {r : PaymentAttemptRow} (sequence : Nat) :
      AttemptStep (some r) (some { r with reconciliationSequence := sequence })
  | reserved {r : PaymentAttemptRow} (hstate : r.state = .reserved)
      (hfresh : r.initiatedAt = none) : AttemptStep none (some r)
  | released {r : PaymentAttemptRow} (hstate : r.state = .reserved)
      (hfresh : r.initiatedAt = none) : AttemptStep (some r) none
  | moved {r r' : PaymentAttemptRow} (hmove : r.Moves r') : AttemptStep (some r) (some r')

/-- The columns that identify what was authorized. -/
structure SameAuthorization (r r' : PaymentAttemptRow) : Prop where
  eventId : r'.eventId = r.eventId
  paymentHash : r'.paymentHash = r.paymentHash
  connectionId : r'.connectionId = r.connectionId
  connectionRevision : r'.connectionRevision = r.connectionRevision
  periodStartedAt : r'.periodStartedAt = r.periodStartedAt
  principalSat : r'.principalSat = r.principalSat
  feeReserveSat : r'.feeReserveSat = r.feeReserveSat

/-- The settlement columns. -/
structure SameSettlement (r r' : PaymentAttemptRow) : Prop where
  state : r'.state = r.state
  actualPrincipalSat : r'.actualPrincipalSat = r.actualPrincipalSat
  actualFeeSat : r'.actualFeeSat = r.actualFeeSat
  chargedSat : r'.chargedSat = r.chargedSat
  authorizationExceeded : r'.authorizationExceeded = r.authorizationExceeded

section Rows

variable {l l' : Ledger} {hash : PaymentHash} {r r' : PaymentAttemptRow}

theorem attemptOf_eq_some :
    l.attemptOf hash = some r ↔ r ∈ l.paymentAttempts ∧ r.paymentHash = hash := by
  rw [Ledger.attemptOf, Table.selectRow_eq_some (hasHash_key hash), hasHash_eq_true]

theorem attemptOf_eq_none :
    l.attemptOf hash = none ↔ ∀ r ∈ l.paymentAttempts, r.paymentHash ≠ hash := by
  simp [Ledger.attemptOf, Table.selectRow_eq_none, hasHash]

theorem attemptOf_of_mem (h : r ∈ l.paymentAttempts) : l.attemptOf r.paymentHash = some r :=
  attemptOf_eq_some.mpr ⟨h, rfl⟩

theorem AttemptStep.refl : ∀ o : Option PaymentAttemptRow, AttemptStep o o
  | none => .absent
  | some r => .kept r.reconciliationSequence

/-- The rows of one hash alone decide what its attempt is. -/
theorem attemptOf_congr (h : ∀ s : PaymentAttemptRow, s.paymentHash = hash →
    (s ∈ l'.paymentAttempts ↔ s ∈ l.paymentAttempts)) : l'.attemptOf hash = l.attemptOf hash := by
  cases hrow : l.attemptOf hash with
  | none =>
    rw [attemptOf_eq_none] at hrow ⊢
    intro s hs hsame
    exact hrow s ((h s hsame).mp hs) hsame
  | some r =>
    rw [attemptOf_eq_some] at hrow ⊢
    exact ⟨(h r hrow.2).mpr hrow.1, hrow.2⟩

theorem Moved.attemptOf {a : PaymentAttempt} (h : Moved l l' r r' a) :
    l'.attemptOf r.paymentHash = some r' :=
  attemptOf_eq_some.mpr ⟨h.stored.mem, h.move.paymentHash⟩

theorem Moved.attemptOf_other {a : PaymentAttempt} (h : Moved l l' r r' a)
    (hne : hash ≠ r.paymentHash) : l'.attemptOf hash = l.attemptOf hash := by
  apply attemptOf_congr
  intro s hs
  have hother : hasHash r.paymentHash s = false := by simpa [hasHash, hs] using hne
  rw [Table.mem_replace h.attempts]
  constructor
  · rintro (hold | ⟨rfl, -⟩)
    · exact hold.1
    · exact absurd (hs.symm.trans h.move.paymentHash) hne
  · exact fun hold => Or.inl ⟨hold, hother⟩

theorem attemptOf_deleted
    (h : l'.paymentAttempts = l.paymentAttempts.delete (hasHash r.paymentHash)) :
    l'.attemptOf r.paymentHash = none := by
  rw [attemptOf_eq_none, h]
  intro s hs hsame
  have hkept := (Table.mem_delete.mp hs).2
  simp [hasHash, hsame] at hkept

theorem attemptOf_deleted_other
    (h : l'.paymentAttempts = l.paymentAttempts.delete (hasHash r.paymentHash))
    (hne : hash ≠ r.paymentHash) : l'.attemptOf hash = l.attemptOf hash := by
  apply attemptOf_congr
  intro s hs
  rw [h, Table.mem_delete]
  simp only [hasHash, hs, and_iff_left_iff_imp]
  intro _
  simpa using hne

/-- Every payment effect moves each hash by one attempt step. -/
theorem PaymentEffect.attemptStep (h : PaymentEffect l l') (hash : PaymentHash) :
    AttemptStep (l.attemptOf hash) (l'.attemptOf hash) := by
  cases h with
  | unchanged heq => exact heq ▸ AttemptStep.refl _
  | @reserved row limit hreserved _ =>
    by_cases hhash : row.paymentHash = hash
    · have hnone : l.attemptOf hash = none := by
        rw [attemptOf_eq_none]
        intro s hs hsame
        have hconflict := Table.insert_no_conflict hreserved.attempts hs
        simp [paymentAttemptSchema, hsame, hhash] at hconflict
      have hsome : l'.attemptOf hash = some row :=
        attemptOf_eq_some.mpr ⟨Table.insert_self hreserved.attempts, hhash⟩
      rw [hnone, hsome]
      exact .reserved hreserved.state hreserved.uninitiated
    · have hsame : l'.attemptOf hash = l.attemptOf hash := by
        apply attemptOf_congr
        intro s hs
        rw [Table.mem_insert hreserved.attempts]
        constructor
        · rintro (hold | rfl)
          · exact hold
          · exact absurd hs hhash
        · exact Or.inl
      exact hsame ▸ AttemptStep.refl _
  | @moved row row' a hmoved =>
    by_cases hhash : hash = row.paymentHash
    · rw [hhash, attemptOf_of_mem hmoved.mem, hmoved.attemptOf]
      exact .moved hmoved.move
    · rw [hmoved.attemptOf_other hhash]
      exact AttemptStep.refl _
  | @released row hmem hstate hfresh hattempts _ _ =>
    by_cases hhash : hash = row.paymentHash
    · rw [hhash, attemptOf_of_mem hmem, attemptOf_deleted hattempts]
      exact .released hstate hfresh
    · rw [attemptOf_deleted_other hattempts hhash]
      exact AttemptStep.refl _
  | requeued hqueue _ =>
    obtain ⟨f, hf, hrows⟩ := hqueue
    have hmem : ∀ s, s ∈ l'.paymentAttempts ↔ ∃ r ∈ l.paymentAttempts, f r = s := by
      intro s
      rw [← Table.mem_rows, hrows, List.mem_map]
      rfl
    have hsame : ∀ r, (f r).paymentHash = r.paymentHash := fun r => by rw [hf r]
    cases hrow : l.attemptOf hash with
    | none =>
      have hnone : l'.attemptOf hash = none := by
        rw [attemptOf_eq_none] at hrow ⊢
        intro s hs
        obtain ⟨r, hr, rfl⟩ := (hmem s).mp hs
        rw [hsame]
        exact hrow r hr
      rw [hnone]
      exact .absent
    | some r =>
      obtain ⟨hr, hhash⟩ := attemptOf_eq_some.mp hrow
      rw [attemptOf_eq_some.mpr ⟨(hmem _).mpr ⟨r, hr, rfl⟩, (hsame r).trans hhash⟩, hf r]
      exact .kept _

theorem LedgerStep.attemptStep {x : Crates} {call : LedgerCall} (h : LedgerStep x l call l')
    (hash : PaymentHash) : AttemptStep (l.attemptOf hash) (l'.attemptOf hash) := by
  rcases h.payments with heffect | ⟨hattempts, -⟩
  · exact heffect.attemptStep hash
  · have hsame : l'.attemptOf hash = l.attemptOf hash := by simp only [Ledger.attemptOf, hattempts]
    exact hsame ▸ AttemptStep.refl _

end Rows

section Consequences

variable {l l' : Ledger} {hash : PaymentHash} {r r' : PaymentAttemptRow}

/-- A move follows one arrow of the lifecycle. -/
theorem PaymentAttemptRow.Moves.next (h : r.Moves r') : r.stage.Next r'.stage := by
  cases h with
  | initiated hstate hfresh _ =>
    simpa [PaymentAttemptRow.stage, hstate, hfresh] using PaymentStage.Next.initiate
  | pending hstate hmarked _ =>
    simpa [PaymentAttemptRow.stage, hstate, hmarked] using PaymentStage.Next.pend
  | failed hstate hmarked _ =>
    rcases hstate with hstate | hstate
    · simpa [PaymentAttemptRow.stage, hstate, hmarked] using PaymentStage.Next.fail
    · simpa [PaymentAttemptRow.stage, hstate] using PaymentStage.Next.failPending
  | succeeded hstate hmarked _ =>
    cases hs : r.state with
    | reserved => simpa [PaymentAttemptRow.stage, hs, hmarked] using PaymentStage.Next.settle
    | pending => simpa [PaymentAttemptRow.stage, hs] using PaymentStage.Next.settlePending
    | succeeded => exact absurd hs hstate
    | failed => simpa [PaymentAttemptRow.stage, hs] using PaymentStage.Next.settleFailed

theorem AttemptStep.stage (h : AttemptStep (l.attemptOf hash) (l'.attemptOf hash)) :
    l'.stage hash = l.stage hash ∨ (l.stage hash).Next (l'.stage hash) := by
  unfold Ledger.stage
  generalize l.attemptOf hash = before at h ⊢
  generalize l'.attemptOf hash = after at h ⊢
  cases h with
  | absent => exact Or.inl rfl
  | kept sequence => exact Or.inl rfl
  | reserved hstate hfresh =>
    refine Or.inr ?_
    simpa [PaymentAttemptRow.stage, hstate, hfresh] using PaymentStage.Next.reserve
  | released hstate hfresh =>
    refine Or.inr ?_
    simpa [PaymentAttemptRow.stage, hstate, hfresh] using PaymentStage.Next.release
  | moved hmove => exact Or.inr hmove.next

theorem PaymentAttemptRow.Moves.sameAuthorization (h : r.Moves r') : SameAuthorization r r' := by
  cases h <;> exact ⟨rfl, rfl, rfl, rfl, rfl, rfl, rfl⟩

theorem PaymentAttemptRow.Moves.updatedAt_le (h : r.Moves r') : r.updatedAt ≤ r'.updatedAt := by
  cases h <;> assumption

theorem PaymentAttemptRow.Moves.initiatedAt (h : r.Moves r') {t : Nat}
    (ht : r.initiatedAt = some t) : r'.initiatedAt = some t := by
  cases h with
  | initiated _ hfresh _ => simp [hfresh] at ht
  | pending _ _ _ => exact ht
  | failed _ _ _ => exact ht
  | succeeded _ _ _ => exact ht

/-- What survives in a row that is there before and after one step. -/
theorem AttemptStep.keeps (h : AttemptStep (some r) (some r')) :
    SameAuthorization r r' ∧ r.updatedAt ≤ r'.updatedAt ∧
      (∀ t, r.initiatedAt = some t → r'.initiatedAt = some t) ∧
      (r.state = .succeeded → SameSettlement r r') := by
  cases h with
  | kept sequence =>
    exact ⟨⟨rfl, rfl, rfl, rfl, rfl, rfl, rfl⟩, le_rfl, fun _ ht => ht,
      fun _ => ⟨rfl, rfl, rfl, rfl, rfl⟩⟩
  | moved hmove =>
    exact ⟨hmove.sameAuthorization, hmove.updatedAt_le, fun _ => hmove.initiatedAt,
      fun hstate => absurd hstate hmove.state_ne⟩

/-- An initiated row stays. -/
theorem AttemptStep.persists {after : Option PaymentAttemptRow} (h : AttemptStep (some r) after)
    (hlasting : r.initiatedAt.isSome ∨ r.state = .succeeded) : ∃ r', after = some r' := by
  cases h with
  | kept sequence => exact ⟨_, rfl⟩
  | released hstate hfresh =>
    rcases hlasting with hmarked | hsucceeded
    · simp [hfresh] at hmarked
    · simp [hstate] at hsucceeded
  | moved hmove => exact ⟨_, rfl⟩

theorem SameAuthorization.trans {r₁ r₂ r₃ : PaymentAttemptRow} (h₁ : SameAuthorization r₁ r₂)
    (h₂ : SameAuthorization r₂ r₃) : SameAuthorization r₁ r₃ :=
  ⟨h₂.eventId.trans h₁.eventId, h₂.paymentHash.trans h₁.paymentHash,
    h₂.connectionId.trans h₁.connectionId, h₂.connectionRevision.trans h₁.connectionRevision,
    h₂.periodStartedAt.trans h₁.periodStartedAt, h₂.principalSat.trans h₁.principalSat,
    h₂.feeReserveSat.trans h₁.feeReserveSat⟩

theorem SameSettlement.trans {r₁ r₂ r₃ : PaymentAttemptRow} (h₁ : SameSettlement r₁ r₂)
    (h₂ : SameSettlement r₂ r₃) : SameSettlement r₁ r₃ :=
  ⟨h₂.state.trans h₁.state, h₂.actualPrincipalSat.trans h₁.actualPrincipalSat,
    h₂.actualFeeSat.trans h₁.actualFeeSat, h₂.chargedSat.trans h₁.chargedSat,
    h₂.authorizationExceeded.trans h₁.authorizationExceeded⟩

/-- Over any run an initiated or settled row keeps what identifies it, its
marker and, once settled, its settlement. -/
theorem attempt_persists {x : Crates} {history : LedgerHistory}
    (hrun : LedgerRun x l history l') (hrow : r ∈ l.paymentAttempts)
    (hlasting : r.initiatedAt.isSome ∨ r.state = .succeeded) :
    ∃ r' ∈ l'.paymentAttempts, SameAuthorization r r' ∧ r.updatedAt ≤ r'.updatedAt ∧
      (∀ t, r.initiatedAt = some t → r'.initiatedAt = some t) ∧
      (r.state = .succeeded → SameSettlement r r') := by
  induction hrun with
  | refl =>
    exact ⟨r, hrow, ⟨rfl, rfl, rfl, rfl, rfl, rfl, rfl⟩, le_rfl, fun _ ht => ht,
      fun _ => ⟨rfl, rfl, rfl, rfl, rfl⟩⟩
  | tail _ hstep ih =>
    obtain ⟨r₁, hr₁, hsame, hupdated, hmarker, hsettled⟩ := ih
    have hlasting₁ : r₁.initiatedAt.isSome ∨ r₁.state = .succeeded := by
      rcases hlasting with hmarked | hsucceeded
      · obtain ⟨t, ht⟩ := Option.isSome_iff_exists.mp hmarked
        exact Or.inl (by rw [hmarker t ht]; rfl)
      · exact Or.inr ((hsettled hsucceeded).state.trans hsucceeded)
    have hattempt := hstep.attemptStep r₁.paymentHash
    rw [attemptOf_of_mem hr₁] at hattempt
    obtain ⟨r₂, hr₂⟩ := hattempt.persists hlasting₁
    rw [hr₂] at hattempt
    obtain ⟨hsame₂, hupdated₂, hmarker₂, hsettled₂⟩ := hattempt.keeps
    refine ⟨r₂, (attemptOf_eq_some.mp hr₂).1, hsame.trans hsame₂, hupdated.trans hupdated₂,
      fun t ht => hmarker₂ t (hmarker t ht), ?_⟩
    intro hsucceeded
    have hfirst := hsettled hsucceeded
    exact hfirst.trans (hsettled₂ (hfirst.state.trans hsucceeded))

end Consequences

def PaymentReservationOutcome.attempt : PaymentReservationOutcome → PaymentAttempt
  | .reserved a => a
  | .existing a => a
  | .alreadyTracked a => a

/-- The attempts a call handed to its caller. -/
def LedgerCall.returned : LedgerCall → List PaymentAttempt
  | ⟨.payment (.loadPaymentAttemptByEvent _), .ok found⟩ => found.toList
  | ⟨.payment (.loadPaymentAttempt _), .ok found⟩ => found.toList
  | ⟨.payment (.reservePayment ..), .ok outcome⟩ => [outcome.attempt]
  | ⟨.payment (.markPaymentInitiated ..), .ok a⟩ => [a]
  | ⟨.payment (.markPaymentPending ..), .ok a⟩ => [a]
  | ⟨.payment (.markPaymentFailed ..), .ok a⟩ => [a]
  | ⟨.payment (.markPaymentSucceeded ..), .ok a⟩ => [a]
  | ⟨.payment (.loadUnresolvedPaymentAttempts _), .ok batch⟩ => batch.1
  | _ => []

/-- Whatever attempt a payment operation returns is stored when it commits. -/
theorem paymentOp_returned {l l' : Ledger} {op : PaymentOp} {value : op.Value}
    (h : op.run l = .ok (value, l')) {a : PaymentAttempt}
    (ha : a ∈ LedgerCall.returned ⟨.payment op, .ok value⟩) : ∃ row, l'.Stored row a := by
  cases op with
  | loadPaymentAttemptByEvent e =>
    obtain ⟨hload, rfl⟩ := reading_eq_ok.mp h
    obtain rfl : value = some a := by simpa [LedgerCall.returned] using ha
    obtain ⟨row, hstored, -⟩ := loadAttemptByEvent_eq_some.mp hload
    exact ⟨row, hstored⟩
  | loadPaymentAttempt hash =>
    obtain ⟨hload, rfl⟩ := reading_eq_ok.mp h
    obtain rfl : value = some a := by simpa [LedgerCall.returned] using ha
    obtain ⟨row, hstored, -⟩ := loadAttemptByHash_eq_some.mp hload
    exact ⟨row, hstored⟩
  | reservePayment e hash connection principal now =>
    obtain rfl : a = value.attempt := by simpa [LedgerCall.returned] using ha
    obtain ⟨c, -, -, ⟨a', row, rfl, rfl, hstored, -⟩ | ⟨a', row, rfl, rfl, hstored, -⟩ |
      ⟨a', row, _, rfl, hstored, -⟩⟩ := reservePayment_ok h
    · exact ⟨row, hstored⟩
    · exact ⟨row, hstored⟩
    · exact ⟨row, hstored⟩
  | markPaymentInitiated hash now =>
    obtain rfl : a = value := by simpa [LedgerCall.returned] using ha
    obtain ⟨rfl, -, row, hstored, -⟩ | ⟨row, -, -, -, hmoved⟩ := markPaymentInitiated_ok h
    · exact ⟨row, hstored⟩
    · exact ⟨_, hmoved.stored⟩
  | releaseUninitiatedPayment hash now => simp [LedgerCall.returned] at ha
  | markPaymentPending hash now =>
    obtain rfl : a = value := by simpa [LedgerCall.returned] using ha
    obtain ⟨rfl, row, hstored, -⟩ | ⟨row, row', -, -, hmoved⟩ := markPaymentPending_ok h
    · exact ⟨row, hstored⟩
    · exact ⟨_, hmoved.stored⟩
  | markPaymentFailed hash now =>
    obtain rfl : a = value := by simpa [LedgerCall.returned] using ha
    obtain ⟨rfl, row, hstored, -⟩ | ⟨row, row', -, -, hmoved⟩ := markPaymentFailed_ok h
    · exact ⟨row, hstored⟩
    · exact ⟨_, hmoved.stored⟩
  | markPaymentSucceeded hash principal fee now =>
    obtain rfl : a = value := by simpa [LedgerCall.returned] using ha
    obtain ⟨rfl, row, hstored, -⟩ | ⟨row, row', -, -, -, hmoved⟩ := markPaymentSucceeded_ok h
    · exact ⟨row, hstored⟩
    · exact ⟨_, hmoved.stored⟩
  | loadUnresolvedPaymentAttempts limit =>
    obtain ⟨-, -, hstored⟩ := loadUnresolvedPaymentAttempts_ok h
    exact hstored a ha

theorem returned_stored {x : Crates} {l l' : Ledger} {call : LedgerCall}
    (h : LedgerStep x l call l') {a : PaymentAttempt} (ha : a ∈ call.returned) :
    l'.loadPaymentAttempt a.paymentHash = .ok (some a) := by
  obtain ⟨op, reply⟩ := call
  cases op with
  | payment op =>
    cases reply with
    | error e => cases op <;> simp [LedgerCall.returned] at ha
    | ok value =>
      obtain ⟨random, hrun⟩ := h.run_of_ok
      obtain ⟨row, hstored⟩ := paymentOp_returned hrun ha
      exact hstored.load
  | registry op => simp [LedgerCall.returned] at ha
  | claim op => simp [LedgerCall.returned] at ha
  | record op => simp [LedgerCall.returned] at ha
  | registration op => simp [LedgerCall.returned] at ha

/-- The payment lifecycle, for every run from any ledger. Each call moves each
payment hash along at most one arrow; a row keeps what was authorized, its
update time never goes back, its marker is written once and marks it for ever,
and a settlement is final; event ids and hashes are unique among rows; a
successful call returns the stored rows, and a failed call changes neither
table. -/
theorem payment_lifecycle {x : Crates} {l l' : Ledger} {history : LedgerHistory}
    (hrun : LedgerRun x l history l') :
    (∀ event ∈ history, ∀ hash, event.after.stage hash = event.before.stage hash ∨
      (event.before.stage hash).Next (event.after.stage hash)) ∧
    (∀ event ∈ history, ∀ r ∈ event.before.paymentAttempts, ∀ r' ∈ event.after.paymentAttempts,
      r'.paymentHash = r.paymentHash →
        SameAuthorization r r' ∧ r.updatedAt ≤ r'.updatedAt ∧
          ∀ t, r.initiatedAt = some t → r'.initiatedAt = some t) ∧
    (∀ r ∈ l.paymentAttempts, r.initiatedAt.isSome ∨ r.state = .succeeded →
      ∃ r' ∈ l'.paymentAttempts, SameAuthorization r r' ∧
        (∀ t, r.initiatedAt = some t → r'.initiatedAt = some t) ∧
        (r.state = .succeeded → SameSettlement r r')) ∧
    (∀ r ∈ l'.paymentAttempts, ∀ s ∈ l'.paymentAttempts,
      r.eventId = s.eventId ∨ r.paymentHash = s.paymentHash → r = s) ∧
    (∀ event ∈ history, ∀ a ∈ event.label.returned,
      event.after.loadPaymentAttempt a.paymentHash = .ok (some a)) ∧
    (∀ event ∈ history, ∀ e, event.label.reply = .error e →
      event.after.paymentAttempts = event.before.paymentAttempts ∧
        event.after.budgetPeriods = event.before.budgetPeriods) := by
  refine ⟨?_, ?_, ?_, ?_, ?_, ?_⟩
  · intro event hevent hash
    exact ((hrun.step_of_mem hevent).attemptStep hash).stage
  · intro event hevent r hr r' hr' hsame
    have hstep := (hrun.step_of_mem hevent).attemptStep r.paymentHash
    rw [attemptOf_of_mem hr, attemptOf_eq_some.mpr ⟨hr', hsame⟩] at hstep
    obtain ⟨hauthorization, hupdated, hmarker, -⟩ := hstep.keeps
    exact ⟨hauthorization, hupdated, hmarker⟩
  · intro r hr hlasting
    obtain ⟨r', hr', hsame, -, hmarker, hsettled⟩ := attempt_persists hrun hr hlasting
    exact ⟨r', hr', hsame, hmarker, hsettled⟩
  · intro r hr s hs hsame
    refine Table.eq_of_conflict hr hs ?_
    simpa [paymentAttemptSchema] using hsame
  · intro event hevent a ha
    exact returned_stored (hrun.step_of_mem hevent) ha
  · intro event hevent e herror
    have hstep := hrun.step_of_mem hevent
    rw [hstep.eq_of_reply herror]
    exact ⟨rfl, rfl⟩

theorem payment_lifecycle_spent :
    (∀ event ∈ Sample.spent.1, ∀ hash, event.after.stage hash = event.before.stage hash ∨
      (event.before.stage hash).Next (event.after.stage hash)) ∧
      Sample.spent.2.stage ⟨1⟩ = .succeeded ∧ Sample.spent.2.stage ⟨2⟩ = .absent ∧
      Sample.spent.2.stage ⟨3⟩ = .reserved := by
  refine ⟨(payment_lifecycle Sample.spent_run).1, ?_⟩
  decide

end NwcMobile
