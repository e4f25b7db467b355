import NwcMobile.Engine.Disclosure
import NwcMobile.Engine.Revocation

/-!
What the wallet is asked to start. An execution works on the attempt it was handed
and marks the row of that payment hash, whoever holds it by then. So the started
payment is the reserved one exactly if the hash was not reserved on other terms in
the meantime; and a revocation stops the marker unless it commits between the
execution's last look at its connection and the marker.
-/

namespace NwcMobile

open Program Concurrent Transition Relational

/-- The step reserves a payment hash for the attempt. -/
def Reserving (b : PaymentAttempt) (event : Event SystemWorld SystemLabel) : Prop :=
  ∃ e hash connection principal now, systemLedgerCall event.label =
    some ⟨.payment (.reservePayment e hash connection principal now), .ok (.reserved b)⟩

/-- The newest reservation of the payment hash, if there is one. -/
def LatestReservation (history : SystemHistory) (hash : PaymentHash) (b : PaymentAttempt) : Prop :=
  ∃ later event earlier, history = later ++ event :: earlier ∧ Reserving b event ∧
    b.paymentHash = hash ∧ ∀ other ∈ later, ∀ c, Reserving c other → c.paymentHash ≠ hash

/-- Both attempts are for one event and one connection, with one fee reserve. -/
structure SameTerms (a b : PaymentAttempt) : Prop where
  eventId : a.eventId = b.eventId
  connectionId : a.connectionId = b.connectionId
  feeReserveSat : a.feeReserveSat = b.feeReserveSat

/-- The step hands the attempt to the program. -/
def HandedTo (i : Nat) (a : PaymentAttempt) (event : Event SystemWorld SystemLabel) : Prop :=
  ∃ call ledgerCall, event.label = .act i call ∧ hostLedgerCall call = some ledgerCall ∧
    a ∈ ledgerCall.returned

/-- If the attempt's hash was reserved again since the program was handed the
attempt, it was last reserved on the same terms. -/
def Undisturbed (history : SystemHistory) (i : Nat) (a : PaymentAttempt) : Prop :=
  ∀ later event earlier, history = later ++ event :: earlier → HandedTo i a event →
    ∀ b, LatestReservation later a.paymentHash b → SameTerms a b

/-- A program with these acts starts a payment for the attempt it was handed. -/
structure StartsFor (x : Crates) (log : HostLog) (request : PayInvoiceRequest)
    (r : ClaimedRequest) (a : PaymentAttempt) : Prop where
  paying : ∃ policy input, Paying x policy input log r
  snapshot : Snapshot log r a
  idempotencyKey : request.idempotencyKey = r.validated.id
  maximumFee : request.maximumFee = a.feeReserveSat

/-- The row is initiated, for the event, the connection and the fee of the request. -/
structure Authorizes (row : PaymentAttemptRow) (connection : ActiveConnection)
    (request : PayInvoiceRequest) : Prop where
  initiated : row.initiatedAt.isSome
  eventId : row.eventId = request.idempotencyKey
  connectionId : row.connectionId = connection.id.value
  feeReserveSat : row.feeReserveSat = request.maximumFee

section Reservations

variable {x : Crates} {outside : HostCall → Prop} {l : Ledger} {w : SystemWorld}
  {history later earlier : SystemHistory} {event : Event SystemWorld SystemLabel} {i : Nat}
  {t : SystemThread} {a b : PaymentAttempt} {r : ClaimedRequest} {row : PaymentAttemptRow}
  {hash : PaymentHash} {request : PayInvoiceRequest}

theorem latest_or_none (history : SystemHistory) (hash : PaymentHash) :
    (∃ b, LatestReservation history hash b) ∨
      ∀ other ∈ history, ∀ c, Reserving c other → c.paymentHash ≠ hash := by
  induction history with
  | nil => exact Or.inr fun other hother => by cases hother
  | cons newest past ih =>
    by_cases hnewest : ∃ c, Reserving c newest ∧ c.paymentHash = hash
    · obtain ⟨c, hreserving, hhash⟩ := hnewest
      exact Or.inl ⟨c, [], newest, past, rfl, hreserving, hhash, fun other hother => by cases hother⟩
    · have hother : ∀ c, Reserving c newest → c.paymentHash ≠ hash :=
        fun c hreserving hhash => hnewest ⟨c, hreserving, hhash⟩
      rcases ih with ⟨b, later, event, earlier, rfl, hreserving, hhash, hnone⟩ | hnone
      · refine Or.inl ⟨b, newest :: later, event, earlier, rfl, hreserving, hhash, ?_⟩
        intro other hmem
        rcases List.mem_cons.mp hmem with rfl | hlater
        · exact hother
        · exact hnone other hlater
      · right
        intro other hmem
        rcases List.mem_cons.mp hmem with rfl | hpast
        · exact hother
        · exact hnone other hpast

/-- A reservation of a row returns an attempt of the row's hash. -/
theorem Reserves.reserving (h : Reserves row event)
    (hrun : SystemRun x outside l (later ++ event :: earlier) w) :
    ∃ c, Reserving c event ∧ c.paymentHash = row.paymentHash := by
  obtain ⟨connection, principal, now, c, hcall⟩ := h
  refine ⟨c, ⟨_, _, _, _, _, hcall⟩, ?_⟩
  obtain ⟨ledgerCall, hcall', hledger⟩ | ⟨hnone, -⟩ := SystemStep.ledger hrun.split.2.1
  · rw [hcall, Option.some.injEq] at hcall'
    subst hcall'
    exact hledger.reserved_paymentHash
  · rw [hcall] at hnone
    cases hnone

/-- As long as its hash is not reserved again, a row keeps the authorization of the
attempt that was handed out for it. -/
theorem row_unless_reserved {ledgerCall : LedgerCall}
    (hrun : SystemRun x outside l (later ++ event :: earlier) w)
    (hcall : systemLedgerCall event.label = some ledgerCall) (ha : a ∈ ledgerCall.returned)
    (hrow : row ∈ w.shared.paymentAttempts) (hhash : row.paymentHash = a.paymentHash)
    (hnone : ∀ other ∈ later, ∀ c, Reserving c other → c.paymentHash ≠ a.paymentHash) :
    row.eventId = a.eventId ∧ row.connectionId = a.connectionId.value ∧
      row.feeReserveSat = a.feeReserveSat := by
  rcases row_since hrun hcall ha hrow hhash with ⟨row₀, hstored, hsame⟩ | ⟨other, hother, hreserves⟩
  · exact ⟨hsame.eventId.trans hstored.eventId.symm,
      hsame.connectionId.trans hstored.connectionId.symm,
      hsame.feeReserveSat.trans hstored.feeReserveSat.symm⟩
  · obtain ⟨recent, past, rfl⟩ := List.append_of_mem hother
    have hplace : (recent ++ other :: past) ++ event :: earlier =
        recent ++ other :: (past ++ event :: earlier) := by simp
    rw [hplace] at hrun
    obtain ⟨c, hreserving, hsame⟩ := hreserves.reserving hrun
    exact absurd (hsame.trans hhash) (hnone other hother c hreserving)

/-- The row of a hash has the terms of the hash's newest reservation. -/
theorem LatestReservation.terms (h : LatestReservation later hash b)
    (hrun : SystemRun x outside l (later ++ earlier) w) (hrow : row ∈ w.shared.paymentAttempts)
    (hhash : row.paymentHash = hash) : row.eventId = b.eventId ∧
      row.connectionId = b.connectionId.value ∧ row.feeReserveSat = b.feeReserveSat := by
  obtain ⟨recent, reserve, past, rfl, ⟨e, reserved, connection, principal, now, hcall⟩, rfl, hnone⟩ := h
  have hplace : (recent ++ reserve :: past) ++ earlier = recent ++ reserve :: (past ++ earlier) := by
    simp
  rw [hplace] at hrun
  refine row_unless_reserved hrun hcall ?_ hrow hhash hnone
  simp [LedgerCall.returned, PaymentReservationOutcome.attempt]

/-- What a row was authorized as, if the attempt of its hash was handed out and the
hash was not reserved on other terms since. -/
theorem Undisturbed.terms (h : Undisturbed history i a) (hgiven : Given t.log a)
    (hrun : SystemRun x outside l history w) (hthread : w.threads[i]? = some t)
    (hrow : row ∈ w.shared.paymentAttempts) (hhash : row.paymentHash = a.paymentHash) :
    row.eventId = a.eventId ∧ row.connectionId = a.connectionId.value ∧
      row.feeReserveSat = a.feeReserveSat := by
  obtain ⟨call, hcall, ledgerCall, hledger, ha⟩ := hgiven
  obtain ⟨event, hevent, hlabel⟩ := log_event hrun i t hthread _ hcall
  obtain ⟨later, earlier, rfl⟩ := List.append_of_mem hevent
  rcases latest_or_none later a.paymentHash with ⟨b, hlatest⟩ | hnone
  · have hsame := h later event earlier rfl ⟨call, ledgerCall, hlabel, hledger, ha⟩ b hlatest
    obtain ⟨he, hconnection, hfee⟩ := hlatest.terms hrun hrow hhash
    exact ⟨he.trans hsame.eventId.symm,
      hconnection.trans (congrArg ConnectionId.value hsame.connectionId).symm,
      hfee.trans hsame.feeReserveSat.symm⟩
  · exact row_unless_reserved hrun (by rw [hlabel]; exact hledger) ha hrow hhash hnone

/-- An execution starts a payment for the attempt it was handed, which it knows to be
marked. -/
theorem startsFor {context : OperationContext}
    {reply : (HostOp.wallet (.startPayment request) context).Reply}
    (hrun : SystemRun x outside l (later ++ event :: earlier) w)
    (hlabel : event.label = .act i ⟨.wallet (.startPayment request) context, reply⟩) :
    ∃ t r a, event.before.threads[i]? = some t ∧ t.log = actsOf i earlier ∧
      StartsFor x t.log request r a ∧ Marked t.log a := by
  obtain ⟨t, hthread, hguard, -⟩ := SystemRun.act_guard hrun hlabel
  have hlog := log_eq_actsOf hrun.split.1 i t hthread
  cases hjob : t.job with
  | wake policy input =>
    rw [hjob] at hguard
    obtain ⟨r, a, hpaying, hsnapshot, hmarked, hkey, hfee⟩ := hguard
    exact ⟨t, r, a, hthread, hlog,
      ⟨⟨policy, input, hpaying⟩, hsnapshot, hkey.trans hpaying.eventId.symm, hfee⟩, hmarked⟩
  | reconcile maxAttempts =>
    rw [hjob] at hguard
    cases hguard
  | migrate imports =>
    rw [hjob] at hguard
    cases hguard

/-- What the ledger holds at a start, if nobody came between. -/
theorem StartsFor.authorized (h : StartsFor x t.log request r a) (hmarked : Marked t.log a)
    (hundisturbed : Undisturbed history i a) (hrun : SystemRun x outside l history w)
    (hthread : w.threads[i]? = some t) :
    ∃ row ∈ w.shared.paymentAttempts, row.paymentHash = a.paymentHash ∧
      Authorizes row r.connection request := by
  have hgiven := h.snapshot.given
  obtain ⟨heventId, hconnectionId⟩ := h.snapshot.owner hrun hthread
  obtain ⟨row, hrow, hhash, hinitiated⟩ := hmarked.initiated hgiven hrun hthread
  obtain ⟨he, hconnection, hfee⟩ := hundisturbed.terms hgiven hrun hthread hrow hhash
  refine ⟨row, hrow, hhash, hinitiated, ?_, ?_, ?_⟩
  · rw [he, heventId, h.idempotencyKey]
  · rw [hconnection, hconnectionId]
  · rw [hfee, h.maximumFee]

end Reservations

/-- A started payment is the payment that was reserved, exactly if its hash was not
reserved on other terms since the execution was handed its attempt. -/
theorem started_payment_is_reserved {x : Crates} {outside : HostCall → Prop} {l : Ledger}
    {w : SystemWorld} {later earlier : SystemHistory} {event : Event SystemWorld SystemLabel}
    {i : Nat} {request : PayInvoiceRequest} {context : OperationContext}
    {reply : (HostOp.wallet (.startPayment request) context).Reply}
    (hrun : SystemRun x outside l (later ++ event :: earlier) w)
    (hlabel : event.label = .act i ⟨.wallet (.startPayment request) context, reply⟩) :
    ∃ r a, StartsFor x (actsOf i earlier) request r a ∧
      ((∃ row ∈ event.before.shared.paymentAttempts, row.paymentHash = a.paymentHash ∧
        Authorizes row r.connection request) ↔ Undisturbed earlier i a) := by
  obtain ⟨t, r, a, hthread, hlog, hstarts, hmarked⟩ := startsFor hrun hlabel
  have hbefore := hrun.split.1
  obtain ⟨heventId, hconnectionId⟩ := hstarts.snapshot.owner hbefore hthread
  refine ⟨r, a, hlog ▸ hstarts, ?_, ?_⟩
  · rintro ⟨row, hrow, hhash, hauthorizes⟩ recent handed past rfl - b hlatest
    obtain ⟨he, hconnection, hfee⟩ := hlatest.terms hbefore hrow hhash
    constructor
    · rw [← he, hauthorizes.eventId, hstarts.idempotencyKey, heventId]
    · apply ConnectionId.value_injective
      rw [hconnectionId, ← hconnection, hauthorizes.connectionId]
    · rw [← hfee, hauthorizes.feeReserveSat, hstarts.maximumFee]
  · exact fun hundisturbed => hstarts.authorized hmarked hundisturbed hbefore hthread

/-- A positive answer to a program's activity check of the connection. -/
def Confirms (i : Nat) (c : ConnectionId) (event : Event SystemWorld SystemLabel) : Prop :=
  ∃ revision, event.label =
    .act i ⟨.ledger (.registry (.isConnectionRevisionActive c revision)), .ok true⟩

def Marks (i : Nat) (hash : PaymentHash) (event : Event SystemWorld SystemLabel) : Prop :=
  ∃ now reply, event.label =
    .act i ⟨.ledger (.payment (.markPaymentInitiated hash now)), reply⟩

def StartsPayment (i : Nat) (request : PayInvoiceRequest) (event : Event SystemWorld SystemLabel) :
    Prop :=
  ∃ context reply, event.label = .act i ⟨.wallet (.startPayment request) context, reply⟩

/-- Nothing comes between: the hash of an attempt is not reserved on other terms
before the program it was handed to has marked and started it, and a connection is
not revoked between a program's look at it and the program's marker. -/
structure Uninterrupted (history : SystemHistory) : Prop where
  marked : ∀ later mark earlier i hash, history = later ++ mark :: earlier → Marks i hash mark →
    ∀ a, Undisturbed earlier i a
  started : ∀ later start earlier i request, history = later ++ start :: earlier →
    StartsPayment i request start → ∀ a, Undisturbed earlier i a
  unrevoked : ∀ later mark recent check earlier i hash c,
    history = later ++ mark :: recent ++ check :: earlier → Marks i hash mark →
      Confirms i c check → ∀ event ∈ recent, ¬ Tombstones c event

section Revocations

variable {x : Crates} {outside : HostCall → Prop} {l : Ledger} {w : SystemWorld}
  {later recent earlier : SystemHistory} {event mark : Event SystemWorld SystemLabel}
  {c : ConnectionId} {row : PaymentAttemptRow} {hash : PaymentHash} {i : Nat}

theorem Uninterrupted.tail (h : Uninterrupted (event :: earlier)) : Uninterrupted earlier where
  marked := fun later mark past i hash heq =>
    h.marked (event :: later) mark past i hash (congrArg (List.cons event) heq)
  started := fun later start past i request heq =>
    h.started (event :: later) start past i request (congrArg (List.cons event) heq)
  unrevoked := fun later mark recent check past i hash c heq =>
    h.unrevoked (event :: later) mark recent check past i hash c (congrArg (List.cons event) heq)

theorem Uninterrupted.past (h : Uninterrupted (later ++ event :: earlier)) :
    Uninterrupted earlier := by
  induction later with
  | nil => exact h.tail
  | cons newest past ih => exact ih h.tail

/-- No look at a revoked connection finds it active. -/
theorem Tombstones.not_confirmed {check : Event SystemWorld SystemLabel}
    (h : Tombstones c event)
    (hrun : SystemRun x outside l (later ++ check :: recent ++ event :: earlier) w) :
    ¬ Confirms i c check := by
  rintro ⟨revision, hlabel⟩
  obtain ⟨r, now, tombstone, hcall⟩ := h
  rw [List.append_assoc, List.cons_append] at hrun
  obtain ⟨hbefore, hcheck, -⟩ := hrun.split
  obtain ⟨-, hstep, hrecent⟩ := hbefore.split
  obtain ⟨row, row', -, -, hkept⟩ := revoked_since hstep hcall
  have hrevoked := hkept _ _ hrecent
  rw [hlabel] at hcheck
  obtain ⟨random, hop⟩ := (SystemStep.ledgerStep hcheck).run_of_ok
  have hanswer := (reading_eq_ok.mp hop).1
  rw [hrevoked.isConnectionRevisionActive] at hanswer
  split at hanswer
  · cases hanswer
  · cases hanswer

/-- A program does not write the marker of a row of a connection that was revoked
before, unless it was interrupted. -/
theorem Tombstones.not_marked {reply : Except PaymentAccountingError PaymentAttempt}
    {now : UnixTimestamp} (h : Tombstones c event)
    (hrun : SystemRun x outside l (later ++ mark :: recent ++ event :: earlier) w)
    (hsteady : Uninterrupted (later ++ mark :: recent ++ event :: earlier))
    (hmark : mark.label = .act i ⟨.ledger (.payment (.markPaymentInitiated hash now)), reply⟩)
    (hrow : row ∈ mark.before.shared.paymentAttempts) (hhash : row.paymentHash = hash) :
    row.connectionId ≠ c.value := by
  intro hconnection
  have hplace : later ++ mark :: recent ++ event :: earlier =
      later ++ mark :: (recent ++ event :: earlier) := by simp
  have hrun' := hplace ▸ hrun
  have hbefore := hrun'.split.1
  obtain ⟨t, hthread, hguard, -⟩ := SystemRun.act_guard hrun' hmark
  cases hjob : t.job with
  | wake policy input =>
    rw [hjob] at hguard
    obtain ⟨r, a, -, hsnapshot, hconfirmed, rfl⟩ := hguard
    have hundisturbed := hsteady.marked later mark _ i _ hplace ⟨_, _, hmark⟩ a
    obtain ⟨-, hterms, -⟩ := hundisturbed.terms hsnapshot.given hbefore hthread hrow hhash
    obtain ⟨-, howner⟩ := hsnapshot.owner hbefore hthread
    have hid : r.connection.id = c :=
      ConnectionId.value_injective (howner.symm.trans (hterms.symm.trans hconnection))
    obtain ⟨check, hcheck, hlabel⟩ := log_event hbefore i t hthread _ hconfirmed
    rw [hid] at hlabel
    rcases List.mem_append.mp hcheck with hrecent | hprior
    · -- the look came after the revocation, so it failed
      obtain ⟨newer, older, rfl⟩ := List.append_of_mem hrecent
      exact h.not_confirmed hbefore ⟨_, hlabel⟩
    · rcases List.mem_cons.mp hprior with rfl | hearlier
      · obtain ⟨revision, time, tombstone, hcall⟩ := h
        rw [hlabel] at hcall
        cases hcall
      · -- the look came before it, so the revocation interrupted the program
        obtain ⟨newer, older, rfl⟩ := List.append_of_mem hearlier
        refine hsteady.unrevoked later mark (recent ++ event :: newer) check older i _ c (by simp)
          ⟨_, _, hmark⟩ ⟨_, hlabel⟩ event (by simp) h
  | reconcile maxAttempts =>
    rw [hjob] at hguard
    cases hguard
  | migrate imports =>
    rw [hjob] at hguard
    cases hguard

/-- The initiated rows of a revoked connection were initiated when it was revoked. -/
theorem Tombstones.initiated_before (h : Tombstones c event)
    (hpayments : PaymentsByPrograms outside)
    (hrun : SystemRun x outside l (later ++ event :: earlier) w)
    (hsteady : Uninterrupted (later ++ event :: earlier))
    (hrow : row ∈ w.shared.paymentAttempts) (hconnection : row.connectionId = c.value)
    (hinitiated : row.initiatedAt.isSome) :
    ∃ row₀ ∈ event.after.shared.paymentAttempts, SameAuthorization row₀ row ∧
      row₀.initiatedAt.isSome := by
  induction later generalizing w row with
  | nil =>
    cases hrun with
    | tail _ _ => exact ⟨row, hrow, .refl row, hinitiated⟩
  | cons newest past ih =>
    rw [List.cons_append] at hrun hsteady
    have hwhole := hrun
    cases hrun with
    | @tail _ before _ label hpast hstep =>
      have hearlier : ∀ r ∈ before.shared.paymentAttempts, SameAuthorization r row →
          r.initiatedAt.isSome → ∃ row₀ ∈ event.after.shared.paymentAttempts,
            SameAuthorization row₀ row ∧ row₀.initiatedAt.isSome := by
        intro r hr hsame hmarker
        obtain ⟨row₀, hrow₀, hsame₀, hinitiated₀⟩ :=
          ih hpast hsteady.tail hr (hsame.connectionId.symm.trans hconnection) hmarker
        exact ⟨row₀, hrow₀, hsame₀.trans hsame, hinitiated₀⟩
      obtain ⟨⟨op, reply⟩, hcall, hledger⟩ | ⟨-, hsame⟩ := SystemStep.ledger hstep
      · cases hledger.origin hrow with
        | kept mem same state initiated => exact hearlier _ mem same (initiated ▸ hinitiated)
        | initiated mem same state fresh call_eq =>
          rw [call_eq] at hcall
          obtain ⟨i, rfl⟩ := hpayments.act hstep hcall
          have hplace : ∀ mark : Event SystemWorld SystemLabel,
              mark :: (past ++ event :: earlier) = [] ++ mark :: past ++ event :: earlier :=
            fun _ => rfl
          rw [hplace] at hwhole hsteady
          exact absurd (same.connectionId.symm.trans hconnection)
            (h.not_marked hwhole hsteady rfl mem same.paymentHash.symm)
        | accounted mem same started initiated call_eq hash => exact hearlier _ mem same started
        | reserved state fresh connectionId call_eq =>
          rw [fresh] at hinitiated
          cases hinitiated
      · exact hearlier row (hsame ▸ hrow) (.refl row) hinitiated

end Revocations

/-- Revocation stops the initiation of payments, as long as no program is
interrupted: an attempt of a revoked connection that was not initiated when the
connection was revoked is never initiated afterwards, and every payment started
afterwards for the connection was initiated before. -/
theorem revocation_stops_initiation {x : Crates} {outside : HostCall → Prop}
    (hpayments : PaymentsByPrograms outside) {l : Ledger} {w : SystemWorld}
    {later earlier : SystemHistory} {event : Event SystemWorld SystemLabel} {c : ConnectionId}
    (hrun : SystemRun x outside l (later ++ event :: earlier) w)
    (hsteady : Uninterrupted (later ++ event :: earlier)) (htombstone : Tombstones c event) :
    (∀ row ∈ event.after.shared.paymentAttempts, row.connectionId = c.value →
      row.initiatedAt = none → ∀ row' ∈ w.shared.paymentAttempts, SameAuthorization row row' →
        row'.initiatedAt = none) ∧
    ∀ recent start past i request, later = recent ++ start :: past →
      StartsPayment i request start →
        ∃ r a row, StartsFor x (actsOf i (past ++ event :: earlier)) request r a ∧
          row ∈ start.before.shared.paymentAttempts ∧ row.paymentHash = a.paymentHash ∧
          Authorizes row r.connection request ∧ (r.connection.id = c →
            ∃ row₀ ∈ event.after.shared.paymentAttempts, SameAuthorization row₀ row ∧
              row₀.initiatedAt.isSome) := by
  constructor
  · intro row hrow hconnection hfresh row' hrow' hsame
    by_contra hmarked
    have hinitiated : row'.initiatedAt.isSome := Option.isSome_iff_ne_none.mpr hmarked
    obtain ⟨row₀, hrow₀, hsame₀, hinitiated₀⟩ := htombstone.initiated_before hpayments hrun hsteady
      hrow' (hsame.connectionId.trans hconnection) hinitiated
    have heq : row₀ = row := Table.eq_of_key (hasHash_key row.paymentHash) hrow₀ hrow
      (by simp [← hsame₀.paymentHash, hsame.paymentHash]) (by simp)
    rw [heq, hfresh] at hinitiated₀
    cases hinitiated₀
  · rintro recent start past i request rfl ⟨context, reply, hlabel⟩
    have hplace : (recent ++ start :: past) ++ event :: earlier =
        recent ++ start :: (past ++ event :: earlier) := by simp
    have hundisturbed := hsteady.started recent start _ i request hplace ⟨context, reply, hlabel⟩
    rw [hplace] at hrun hsteady
    obtain ⟨t, r, a, hthread, hlog, hstarts, hmarked⟩ := startsFor hrun hlabel
    have hbefore := hrun.split.1
    obtain ⟨row, hrow, hhash, hauthorizes⟩ :=
      hstarts.authorized hmarked (hundisturbed a) hbefore hthread
    refine ⟨r, a, row, hlog ▸ hstarts, hrow, hhash, hauthorizes, ?_⟩
    rintro rfl
    exact htombstone.initiated_before hpayments hbefore hsteady.past hrow hauthorizes.connectionId
      hauthorizes.initiated

namespace Sample

/-- One payment, up to its start. -/
def paid : List Move :=
  List.replicate 31 (Move.act 0 (payingScript 1010 1)) ++
    [Move.spawn firstWake,
      Move.outside (.registry (.insertConnection connection 1000)) (script 1000 0)]

/-- The first execution has learned that its payment is unknown; then a pass of the
reconciler finds it known after all and releases it, and the second event reserves
the hash. -/
def replaced : List Move :=
  List.replicate 20 (Move.act 2 (payingScript 1010 2)) ++ Move.spawn secondWake ::
    (List.replicate 8 (Move.act 1 foreignScript) ++ Move.spawn (.reconcile 1) ::
      (List.replicate 23 (Move.act 0 (payingScript 1010 1)) ++
        [Move.spawn firstWake,
          Move.outside (.registry (.insertConnection connection 1000)) (script 1000 0)]))

/-- The first execution goes on to start its payment. -/
def startedReplaced : List Move := List.replicate 8 (Move.act 0 (payingScript 1010 1)) ++ replaced

theorem quick_run {moves : List Move}
    (hspawns : ∀ job, .spawn job ∈ moves → job = firstWake ∨ job = secondWake ∨
      ∃ maxAttempts, job = .reconcile maxAttempts)
    (hmoves : ∀ op host, .outside op host ∈ moves → ∃ o, op = .registry o) :
    SystemRun crates managing .empty (play quickProgram crates .empty moves).1
      (play quickProgram crates .empty moves).2 :=
  managing_run (fun job hjob => quickProgram_eq (hspawns job hjob)) hmoves

/-- The step starts the first event's payment. -/
def startsFirst : SystemLabel → Bool
  | .act _ ⟨.wallet (.startPayment request) _, _⟩ => request.idempotencyKey == firstEvent.id
  | _ => false

theorem startsFirst_eq_true {label : SystemLabel} (h : startsFirst label = true) :
    ∃ i request context reply, label = .act i ⟨.wallet (.startPayment request) context, reply⟩ ∧
      request.idempotencyKey = firstEvent.id := by
  unfold startsFirst at h
  split at h
  · rename_i i request context reply
    exact ⟨i, request, context, reply, rfl, beq_iff_eq.mp h⟩
  · cases h

theorem paid_run : SystemRun crates managing .empty (play quickProgram crates .empty paid).1
    (play quickProgram crates .empty paid).2 := by
  apply quick_run
  · intro job hjob
    left
    simpa [paid] using hjob
  · intro op host hop
    simp only [paid, List.mem_append, List.mem_cons, List.mem_replicate, List.not_mem_nil,
      Move.outside.injEq, reduceCtorEq, and_false, or_false, false_or] at hop
    exact ⟨_, hop.1⟩

theorem startedReplaced_run : SystemRun crates managing .empty
    (play quickProgram crates .empty startedReplaced).1
    (play quickProgram crates .empty startedReplaced).2 := by
  apply quick_run
  · intro job hjob
    have hcases : job = secondWake ∨ job = .reconcile 1 ∨ job = firstWake := by
      simpa [startedReplaced, replaced] using hjob
    rcases hcases with rfl | rfl | rfl
    · exact Or.inr (Or.inl rfl)
    · exact Or.inr (Or.inr ⟨1, rfl⟩)
    · exact Or.inl rfl
  · intro op host hop
    simp only [startedReplaced, replaced, List.mem_append, List.mem_cons, List.mem_replicate,
      List.not_mem_nil, Move.outside.injEq, reduceCtorEq, and_false, or_false, false_or] at hop
    exact ⟨_, hop.1⟩

end Sample

set_option maxRecDepth 4000 in
theorem started_payment_is_reserved_paid :
    ∃ event earlier i request r a, (play Sample.quickProgram Sample.crates .empty Sample.paid).1 =
        event :: earlier ∧ StartsFor Sample.crates (actsOf i earlier) request r a ∧
      request.idempotencyKey = Sample.firstEvent.id ∧
      ((∃ row ∈ event.before.shared.paymentAttempts, row.paymentHash = a.paymentHash ∧
        Authorizes row r.connection request) ↔ Undisturbed earlier i a) := by
  have hstarts : (play Sample.quickProgram Sample.crates .empty Sample.paid).1.head?.any
      (fun event => Sample.startsFirst event.label) = true := by
    decide
  have hrun := Sample.paid_run
  cases hhistory : (play Sample.quickProgram Sample.crates .empty Sample.paid).1 with
  | nil =>
    rw [hhistory] at hstarts
    cases hstarts
  | cons event earlier =>
    rw [hhistory, ← List.nil_append (event :: earlier)] at hrun
    rw [hhistory] at hstarts
    obtain ⟨i, request, context, reply, hlabel, hkey⟩ := Sample.startsFirst_eq_true hstarts
    obtain ⟨r, a, hstartsFor, hiff⟩ := started_payment_is_reserved hrun hlabel
    exact ⟨event, earlier, i, request, r, a, rfl, hstartsFor, hkey, hiff⟩

set_option maxRecDepth 4000 in
/-- A payment is started for an event while the ledger holds the hash for another. -/
theorem started_payment_replaced :
    ¬ ∀ (x : Crates) outside, PaymentsByPrograms outside → ∀ (w : SystemWorld) later event earlier,
      SystemRun x outside .empty (later ++ event :: earlier) w → ∀ i request context reply,
        event.label = .act i ⟨.wallet (.startPayment request) context, reply⟩ →
        ∃ r a, StartsFor x (actsOf i earlier) request r a ∧
          ∃ row ∈ event.before.shared.paymentAttempts, row.paymentHash = a.paymentHash ∧
            Authorizes row r.connection request := by
  intro hclaim
  have hchecked : (play Sample.quickProgram Sample.crates .empty Sample.startedReplaced).1.head?.any
      (fun event => Sample.startsFirst event.label &&
        event.before.shared.paymentAttempts.rows.all fun row =>
          row.eventId != Sample.firstEvent.id) = true := by
    decide
  have hrun := Sample.startedReplaced_run
  cases hhistory : (play Sample.quickProgram Sample.crates .empty Sample.startedReplaced).1 with
  | nil =>
    rw [hhistory] at hchecked
    cases hchecked
  | cons event earlier =>
    rw [hhistory] at hchecked hrun
    obtain ⟨hstarts, hrows⟩ := Bool.and_eq_true_iff.mp hchecked
    obtain ⟨i, request, context, reply, hlabel, hkey⟩ := Sample.startsFirst_eq_true hstarts
    obtain ⟨r, a, -, row, hrow, -, hauthorizes⟩ := hclaim _ _ Sample.managing_payments _ [] event
      earlier hrun i request context reply hlabel
    have hother := List.all_eq_true.mp hrows row (Table.mem_rows.mpr hrow)
    rw [hauthorizes.eventId, hkey] at hother
    simp at hother

namespace Sample

/-- A reservation of the first event's payment. -/
def unlooked : List Move :=
  List.replicate 22 (Move.act 0 (payingScript 1010 1)) ++
    [Move.spawn firstWake,
      Move.outside (.registry (.insertConnection connection 1000)) (script 1000 0)]

/-- A look at its connection. -/
def looked : List Move := List.replicate 2 (Move.act 0 (payingScript 1010 1)) ++ unlooked

def tombstoned : Move :=
  .outside (.registry (.tombstoneConnection connectionId 0 1010)) (script 1010 0)

/-- The connection is revoked after the look, and the payment started. -/
def startedRevoked : List Move :=
  List.replicate 7 (Move.act 0 (payingScript 1010 1)) ++ tombstoned :: looked

/-- The connection is revoked before the look, and the execution goes on. -/
def revokedReserved : List Move :=
  List.replicate 8 (Move.act 0 (payingScript 1010 1)) ++ tombstoned :: unlooked

/-- The payment is marked, the connection revoked, and the payment started. -/
def marked : List Move := List.replicate 4 (Move.act 0 (payingScript 1010 1)) ++ looked

def markedRevoked : List Move :=
  List.replicate 3 (Move.act 0 (payingScript 1010 1)) ++ tombstoned :: marked

theorem startedRevoked_run : SystemRun crates managing .empty
    (play quickProgram crates .empty startedRevoked).1
    (play quickProgram crates .empty startedRevoked).2 := by
  apply quick_run
  · intro job hjob
    left
    simpa [startedRevoked, tombstoned, looked, unlooked] using hjob
  · intro op host hop
    simp only [startedRevoked, tombstoned, looked, unlooked, List.mem_append, List.mem_cons,
      List.mem_replicate, List.not_mem_nil, Move.outside.injEq, reduceCtorEq, and_false, or_false,
      false_or] at hop
    rcases hop with hop | hop
    · exact ⟨_, hop.1⟩
    · exact ⟨_, hop.1⟩

theorem revokedReserved_run : SystemRun crates managing .empty
    (play quickProgram crates .empty revokedReserved).1
    (play quickProgram crates .empty revokedReserved).2 := by
  apply quick_run
  · intro job hjob
    left
    simpa [revokedReserved, tombstoned, unlooked] using hjob
  · intro op host hop
    simp only [revokedReserved, tombstoned, unlooked, List.mem_append, List.mem_cons, List.mem_replicate,
      List.not_mem_nil, Move.outside.injEq, reduceCtorEq, and_false, or_false, false_or] at hop
    rcases hop with hop | hop
    · exact ⟨_, hop.1⟩
    · exact ⟨_, hop.1⟩

theorem markedRevoked_run : SystemRun crates managing .empty
    (play quickProgram crates .empty markedRevoked).1
    (play quickProgram crates .empty markedRevoked).2 := by
  apply quick_run
  · intro job hjob
    left
    simpa [markedRevoked, marked, tombstoned, looked, unlooked] using hjob
  · intro op host hop
    simp only [markedRevoked, marked, tombstoned, looked, unlooked, List.mem_append, List.mem_cons,
      List.mem_replicate, List.not_mem_nil, Move.outside.injEq, reduceCtorEq, and_false, or_false,
      false_or] at hop
    rcases hop with hop | hop
    · exact ⟨_, hop.1⟩
    · exact ⟨_, hop.1⟩

/-- The step revokes the sample's connection. -/
def revokes : SystemLabel → Bool
  | .outside ⟨.ledger (.registry (.tombstoneConnection c _ _)), .ok _⟩ => c == connectionId
  | _ => false

theorem tombstones_of_revokes {event : Event SystemWorld SystemLabel}
    (h : revokes event.label = true) : Tombstones connectionId event := by
  generalize hlabel : event.label = label at h
  unfold revokes at h
  split at h
  · rename_i c revision now tombstone
    obtain rfl := beq_iff_eq.mp h
    exact ⟨revision, now, tombstone, by rw [hlabel]; rfl⟩
  · cases h

/-- The last step of a history that revokes the sample's connection while this is its only
attempt. -/
theorem revoked_with {history : SystemHistory} {row : PaymentAttemptRow}
    (h : history.head?.any (fun event => revokes event.label &&
      event.after.shared.paymentAttempts.rows == [row]) = true) :
    ∃ event earlier, history = event :: earlier ∧ Tombstones connectionId event ∧
      event.after.shared.paymentAttempts.rows = [row] := by
  cases history with
  | nil => cases h
  | cons event earlier =>
    obtain ⟨hrevokes, hrows⟩ := Bool.and_eq_true_iff.mp h
    exact ⟨event, earlier, rfl, tombstones_of_revokes hrevokes, beq_iff_eq.mp hrows⟩

/-- The step hands a program some attempt. -/
def hands : SystemLabel → Bool
  | .act _ call => (hostLedgerCall call).any fun ledgerCall => !ledgerCall.returned.isEmpty
  | _ => false

def reserves (label : SystemLabel) : Bool :=
  match systemLedgerCall label with
  | some ⟨.payment (.reservePayment ..), .ok (.reserved _)⟩ => true
  | _ => false

def marks : SystemLabel → Bool
  | .act _ ⟨.ledger (.payment (.markPaymentInitiated ..)), _⟩ => true
  | _ => false

def tombstones (label : SystemLabel) : Bool :=
  match systemLedgerCall label with
  | some ⟨.registry (.tombstoneConnection ..), .ok _⟩ => true
  | _ => false

/-- Nothing is reserved after an attempt was handed over, and nothing marked after a connection
was revoked. -/
def steady : SystemHistory → Bool
  | [] => true
  | event :: past =>
    (!reserves event.label || past.all fun other => !hands other.label) &&
      (!marks event.label || past.all fun other => !tombstones other.label) && steady past

section Steady

variable {later earlier history : SystemHistory} {event other : Event SystemWorld SystemLabel}

theorem steady_past (h : steady (later ++ event :: earlier) = true) :
    steady (event :: earlier) = true := by
  induction later with
  | nil => exact h
  | cons newest rest ih =>
    rw [List.cons_append, steady, Bool.and_eq_true] at h
    exact ih h.2

theorem not_handed (h : steady (later ++ event :: earlier) = true)
    (hreserves : reserves event.label = true) (hmem : other ∈ earlier) :
    hands other.label = false := by
  have hnow := steady_past h
  rw [steady, hreserves] at hnow
  simp only [Bool.not_true, Bool.false_or, Bool.and_eq_true] at hnow
  simpa using List.all_eq_true.mp hnow.1.1 other hmem

theorem not_tombstoned (h : steady (later ++ event :: earlier) = true)
    (hmarks : marks event.label = true) (hmem : other ∈ earlier) :
    tombstones other.label = false := by
  have hnow := steady_past h
  rw [steady, hmarks] at hnow
  simp only [Bool.not_true, Bool.false_or, Bool.and_eq_true] at hnow
  simpa using List.all_eq_true.mp hnow.1.2 other hmem

theorem undisturbed_of_steady (h : steady history = true) (i : Nat) (a : PaymentAttempt) :
    Undisturbed history i a := by
  rintro recent handed past rfl ⟨call, ledgerCall, hlabel, hcall, ha⟩ b
    ⟨newer, reserve, older, rfl, ⟨e, hash, connection, principal, now, hreserve⟩, -, -⟩
  have hreserves : reserves reserve.label = true := by rw [reserves, hreserve]
  have hplace : (newer ++ reserve :: older) ++ handed :: past =
      newer ++ reserve :: (older ++ handed :: past) := by simp
  rw [hplace] at h
  have hnot := not_handed h hreserves (by simp : handed ∈ older ++ handed :: past)
  rw [hlabel, hands, hcall, Option.any_some, Bool.not_eq_false', List.isEmpty_iff] at hnot
  rw [hnot] at ha
  cases ha

theorem uninterrupted_of_steady (h : steady history = true) : Uninterrupted history := by
  have hundisturbed : ∀ later event earlier, history = later ++ event :: earlier → ∀ i a,
      Undisturbed earlier i a := by
    rintro later event earlier rfl
    have hnow := steady_past h
    rw [steady, Bool.and_eq_true] at hnow
    exact undisturbed_of_steady hnow.2
  constructor
  · intro later mark earlier i hash hhistory _
    exact hundisturbed later mark earlier hhistory i
  · intro later start earlier i request hhistory _
    exact hundisturbed later start earlier hhistory i
  · rintro later mark recent check earlier i hash c rfl ⟨now, reply, hlabel⟩ - event hevent
      ⟨revision, time, tombstone, hcall⟩
    have hmarks : marks mark.label = true := by rw [hlabel]; rfl
    have hplace : later ++ mark :: recent ++ check :: earlier =
        later ++ mark :: (recent ++ check :: earlier) := by simp
    rw [hplace] at h
    have hnot := not_tombstoned h hmarks (List.mem_append_left _ hevent)
    rw [tombstones, hcall] at hnot
    cases hnot

end Steady

/-- The row of the first event's payment, marked. -/
def markedRow : PaymentAttemptRow := { reservedRow with initiatedAt := some 1010 }

end Sample

set_option maxRecDepth 4000 in
/-- A payment reserved before the revocation is never marked; one marked before it is started. -/
theorem revocation_stops_initiation_revoked :
    (∃ row ∈ (play Sample.quickProgram Sample.crates .empty
        Sample.revokedReserved).2.shared.paymentAttempts,
      SameAuthorization Sample.reservedRow row ∧ row.initiatedAt = none) ∧
    ∃ later event earlier, (play Sample.quickProgram Sample.crates .empty
        Sample.markedRevoked).1 = later ++ event :: earlier ∧
      Tombstones Sample.connectionId event ∧ (∃ start ∈ later, ∃ i request,
        StartsPayment i request start) ∧
      ∃ row ∈ event.after.shared.paymentAttempts,
        SameAuthorization row Sample.markedRow ∧ row.initiatedAt.isSome := by
  constructor
  · obtain ⟨later, hlater⟩ : ∃ later,
        (play Sample.quickProgram Sample.crates .empty Sample.revokedReserved).1 = later ++
          (play Sample.quickProgram Sample.crates .empty (Sample.tombstoned :: Sample.unlooked)).1 :=
      play_append
    obtain ⟨event, earlier, hevent, htombstones, hrows⟩ := @Sample.revoked_with
      (play Sample.quickProgram Sample.crates .empty (Sample.tombstoned :: Sample.unlooked)).1
        Sample.reservedRow (by decide)
    have hchecked : Sample.steady (play Sample.quickProgram Sample.crates .empty
          Sample.revokedReserved).1 = true ∧
        (play Sample.quickProgram Sample.crates .empty
          Sample.revokedReserved).2.shared.paymentAttempts.rows = [Sample.reservedRow] := by
      decide
    have hsteady := Sample.uninterrupted_of_steady hchecked.1
    have hrun := Sample.revokedReserved_run
    rw [hlater, hevent] at hrun hsteady
    have hfirst : Sample.reservedRow ∈ event.after.shared.paymentAttempts := by
      rw [← Table.mem_rows, hrows]
      exact List.mem_cons_self
    have hlast : Sample.reservedRow ∈ (play Sample.quickProgram Sample.crates .empty
        Sample.revokedReserved).2.shared.paymentAttempts := by
      rw [← Table.mem_rows, hchecked.2]
      exact List.mem_cons_self
    refine ⟨_, hlast, .refl _, ?_⟩
    exact (revocation_stops_initiation Sample.managing_payments hrun hsteady htombstones).1 _ hfirst
      rfl rfl _ hlast (.refl _)
  · obtain ⟨later, hlater⟩ : ∃ later,
        (play Sample.quickProgram Sample.crates .empty Sample.markedRevoked).1 = later ++
          (play Sample.quickProgram Sample.crates .empty (Sample.tombstoned :: Sample.marked)).1 :=
      play_append
    obtain ⟨event, earlier, hevent, htombstones, -⟩ := @Sample.revoked_with
      (play Sample.quickProgram Sample.crates .empty (Sample.tombstoned :: Sample.marked)).1
        Sample.markedRow (by decide)
    have hchecked : Sample.steady (play Sample.quickProgram Sample.crates .empty
          Sample.markedRevoked).1 = true ∧
        ((play Sample.quickProgram Sample.crates .empty Sample.markedRevoked).1.head?.any
          fun event => Sample.startsFirst event.label &&
            event.before.shared.paymentAttempts.rows == [Sample.markedRow]) = true := by
      decide
    obtain ⟨hsteady, hlast⟩ := hchecked
    have hsteady := Sample.uninterrupted_of_steady hsteady
    have hrun := Sample.markedRevoked_run
    rw [hlater, hevent] at hrun hsteady hlast
    rw [hlater, hevent]
    cases later with
    | nil =>
      obtain ⟨hstarts, -⟩ := Bool.and_eq_true_iff.mp hlast
      obtain ⟨i, request, context, reply, hlabel, -⟩ := Sample.startsFirst_eq_true hstarts
      obtain ⟨_, _, _, hcall⟩ := htombstones
      rw [hlabel] at hcall
      cases hcall
    | cons start rest =>
      obtain ⟨hstarts, hrows⟩ := Bool.and_eq_true_iff.mp hlast
      obtain ⟨i, request, context, reply, hlabel, -⟩ := Sample.startsFirst_eq_true hstarts
      have hstart : StartsPayment i request start := ⟨context, reply, hlabel⟩
      obtain ⟨r, a, row, -, hrow, -, hauthorizes, hmarked⟩ := (revocation_stops_initiation
        Sample.managing_payments hrun hsteady htombstones).2 [] start rest i request rfl hstart
      rw [← Table.mem_rows, beq_iff_eq.mp hrows, List.mem_singleton] at hrow
      subst hrow
      obtain ⟨row, hmem, hsame, hinitiated⟩ := hmarked
        (ConnectionId.value_injective hauthorizes.connectionId.symm)
      exact ⟨start :: rest, event, earlier, rfl, htombstones,
        ⟨start, List.mem_cons_self, i, request, hstart⟩, row, hmem, hsame, hinitiated⟩

set_option maxRecDepth 4000 in
/-- A payment of a connection that was revoked after the execution's look at it is
marked and started. -/
theorem revoked_payment_started :
    ¬ ∀ (x : Crates) outside, PaymentsByPrograms outside →
      ∀ (w : SystemWorld) later event earlier c,
        SystemRun x outside .empty (later ++ event :: earlier) w → Tombstones c event →
        ∀ row ∈ event.after.shared.paymentAttempts, row.connectionId = c.value →
          row.initiatedAt = none →
          (∀ row' ∈ w.shared.paymentAttempts, SameAuthorization row row' → row'.initiatedAt = none) ∨
          ∀ start ∈ later, ∀ i request, StartsPayment i request start →
            request.idempotencyKey ≠ row.eventId := by
  intro hclaim
  obtain ⟨later, hlater⟩ : ∃ later,
      (play Sample.quickProgram Sample.crates .empty Sample.startedRevoked).1 = later ++
        (play Sample.quickProgram Sample.crates .empty (Sample.tombstoned :: Sample.looked)).1 :=
    play_append
  obtain ⟨event, earlier, hevent, htombstones, hrows⟩ := @Sample.revoked_with
    (play Sample.quickProgram Sample.crates .empty (Sample.tombstoned :: Sample.looked)).1
      Sample.reservedRow (by decide)
  have hreserved : Sample.reservedRow ∈ event.after.shared.paymentAttempts := by
    rw [← Table.mem_rows, hrows]
    exact List.mem_cons_self
  have hchecked : ((play Sample.quickProgram Sample.crates .empty
        Sample.startedRevoked).1.head?.any fun event => Sample.startsFirst event.label) = true ∧
      (play Sample.quickProgram Sample.crates .empty
        Sample.startedRevoked).2.shared.paymentAttempts.rows = [Sample.markedRow] ∧
      ((play Sample.quickProgram Sample.crates .empty
        (Sample.tombstoned :: Sample.looked)).1.all fun event =>
          !Sample.startsFirst event.label) = true := by
    decide
  obtain ⟨hstarted, hlast, hunstarted⟩ := hchecked
  have hrun := Sample.startedRevoked_run
  rw [hlater, hevent] at hrun
  rw [hlater, hevent] at hstarted
  rw [hevent] at hunstarted
  have hmarked : Sample.markedRow ∈ (play Sample.quickProgram Sample.crates .empty
      Sample.startedRevoked).2.shared.paymentAttempts := by
    rw [← Table.mem_rows, hlast]
    exact List.mem_cons_self
  rcases hclaim _ _ Sample.managing_payments _ later event earlier _ hrun htombstones _ hreserved rfl
    rfl with hunmarked | hnone
  · have hsame : SameAuthorization Sample.reservedRow Sample.markedRow :=
      ⟨rfl, rfl, rfl, rfl, rfl, rfl, rfl⟩
    have hfresh := hunmarked _ hmarked hsame
    cases hfresh
  · cases later with
    | nil =>
      have hnot := List.all_eq_true.mp hunstarted event List.mem_cons_self
      simp only [List.nil_append, List.head?_cons, Option.any_some] at hstarted
      rw [hstarted] at hnot
      cases hnot
    | cons start rest =>
      obtain ⟨i, request, context, reply, hlabel, hkey⟩ := Sample.startsFirst_eq_true hstarted
      exact hnone start List.mem_cons_self i request ⟨context, reply, hlabel⟩ hkey

end NwcMobile
