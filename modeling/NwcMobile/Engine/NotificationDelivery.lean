import NwcMobile.Engine.Alone
import NwcMobile.Engine.InvoiceNotifications
import NwcMobile.Ledger.NotificationEffects

/-!
Delivering the notification of one record, run alone: the calls of a pass that
matter to its outcome, the ledger steps that succeed or end the pass, and the loop
that publishes to the relays still owed the notification.
-/

namespace NwcMobile

open Program Fallible Relational Notifications InvoiceNotificationWorker

section Calls

variable {calls first later : List HostCall}

/-- The pass was cancelled or out of time when it looked. -/
def Interrupted (calls : List HostCall) : Prop :=
  (⟨.isCancelled, true⟩ : HostCall) ∈ calls ∨
    ∃ remaining : Duration, remaining.isZero = true ∧
      (⟨.deadlineRemaining, remaining⟩ : HostCall) ∈ calls

def NotCancelled (calls : List HostCall) : Prop := (⟨.isCancelled, true⟩ : HostCall) ∉ calls

/-- Some ledger call failed. -/
def Faulted (calls : List HostCall) : Prop :=
  ∃ (op : LedgerOp) (error : op.Error), (⟨.ledger op, .error error⟩ : HostCall) ∈ calls

/-- What the wallet answered about an invoice. -/
def lookupAnswer : HostCall → Option (PaymentHash × Except HostError (Option WalletTransaction))
  | ⟨.wallet (.lookupInvoice (.paymentHash hash)) _, reply⟩ => some (hash, reply)
  | _ => none

def lookupAnswers (calls : List HostCall) :
    List (PaymentHash × Except HostError (Option WalletTransaction)) :=
  calls.filterMap lookupAnswer

@[simp] theorem lookupAnswers_nil : lookupAnswers [] = [] := rfl

@[simp] theorem lookupAnswers_append :
    lookupAnswers (first ++ later) = lookupAnswers first ++ lookupAnswers later :=
  List.filterMap_append

theorem lookupAnswers_cons {call : HostCall} (h : lookupAnswer call = none) :
    lookupAnswers (call :: calls) = lookupAnswers calls :=
  List.filterMap_cons_none h

theorem lookupAnswers_cons_some {call : HostCall}
    {answer : PaymentHash × Except HostError (Option WalletTransaction)}
    (h : lookupAnswer call = some answer) :
    lookupAnswers (call :: calls) = answer :: lookupAnswers calls :=
  List.filterMap_cons_some h

@[simp] theorem notCancelled_nil : NotCancelled [] := List.not_mem_nil

@[simp] theorem notCancelled_append :
    NotCancelled (first ++ later) ↔ NotCancelled first ∧ NotCancelled later := by
  rw [NotCancelled, List.mem_append, not_or]
  rfl

@[simp] theorem notCancelled_cons {call : HostCall} :
    NotCancelled (call :: calls) ↔ call ≠ ⟨.isCancelled, true⟩ ∧ NotCancelled calls := by
  rw [NotCancelled, List.mem_cons, not_or, ne_comm]
  rfl

theorem Interrupted.mono (h : Interrupted first) (hsub : first ⊆ calls) : Interrupted calls := by
  rcases h with hcancelled | ⟨remaining, hzero, hlook⟩
  · exact Or.inl (hsub hcancelled)
  · exact Or.inr ⟨remaining, hzero, hsub hlook⟩

theorem Faulted.mono (h : Faulted first) (hsub : first ⊆ calls) : Faulted calls := by
  obtain ⟨op, error, hmem⟩ := h
  exact ⟨op, error, hsub hmem⟩

/-- The calls ask nothing about invoices and were not told of a cancellation. -/
def Quiet (calls : List HostCall) : Prop := lookupAnswers calls = [] ∧ NotCancelled calls

theorem quiet_nil : Quiet [] := ⟨rfl, notCancelled_nil⟩

theorem Quiet.append (h : Quiet first) (h' : Quiet later) : Quiet (first ++ later) := by
  constructor
  · rw [lookupAnswers_append, h.1, h'.1]
    rfl
  · exact notCancelled_append.mpr ⟨h.2, h'.2⟩

theorem quiet_single {op : HostOp} {reply : op.Reply} (hlookup : lookupAnswer ⟨op, reply⟩ = none)
    (hcancelled : (⟨op, reply⟩ : HostCall) ≠ ⟨.isCancelled, true⟩) : Quiet [⟨op, reply⟩] := by
  constructor
  · simp [lookupAnswers, hlookup]
  · rw [NotCancelled, List.mem_singleton]
    exact fun heq => hcancelled heq.symm

end Calls

section Steps

variable {x : Crates} {l l' : Ledger} {calls : List HostCall}

/-- A program that only looks at the time, and finds some unless it is interrupted. -/
def AsksForTime (context : HostProg (Option OperationContext)) : Prop :=
  ∀ x l calls granted l', Alone x l context calls granted l' →
    l' = l ∧ lookupAnswers calls = [] ∧ (granted = none → Interrupted calls) ∧
      (granted ≠ none → NotCancelled calls)

theorem asksForTime_deadlineContext : AsksForTime deadlineContext := by
  intro x l calls granted l' h
  obtain ⟨cancelled, more, rfl, hmore⟩ := Alone.host .isCancelled (by simp) h
  cases cancelled with
  | true =>
    obtain ⟨rfl, rfl, rfl⟩ := exec_done.mp hmore
    exact ⟨rfl, rfl, fun _ => Or.inl List.mem_cons_self, fun hsome => absurd rfl hsome⟩
  | false =>
    obtain ⟨remaining, last, rfl, hlast⟩ := Alone.host .deadlineRemaining (by simp) hmore
    obtain ⟨rfl, rfl, rfl⟩ := exec_done.mp hlast
    refine ⟨rfl, rfl, ?_, ?_⟩
    · intro hnone
      by_cases hzero : remaining.isZero = true
      · exact Or.inr ⟨remaining, hzero, by simp⟩
      · rw [if_neg hzero] at hnone
        cases hnone
    · intro _
      simp [NotCancelled]

theorem asksForTime_cancellableContext : AsksForTime cancellableContext := by
  intro x l calls granted l' h
  obtain ⟨cancelled, more, rfl, hmore⟩ := Alone.host .isCancelled (by simp) h
  cases cancelled with
  | true =>
    obtain ⟨rfl, rfl, rfl⟩ := exec_done.mp hmore
    exact ⟨rfl, rfl, fun _ => Or.inl List.mem_cons_self, fun hsome => absurd rfl hsome⟩
  | false =>
    obtain ⟨rfl, hlookup, hnone, hsome⟩ := asksForTime_deadlineContext _ _ _ _ _ hmore
    refine ⟨rfl, hlookup, fun hgranted => (hnone hgranted).mono (List.subset_cons_self _ _), ?_⟩
    intro hgranted
    simpa [NotCancelled] using hsome hgranted

/-- A program that makes one ledger call, with this effect if the call succeeds. -/
def LedgerCommits {ε α : Type} (x : Crates) (p : HostProg (Except ε α)) (effect : Ledger → α → Ledger → Prop) :
    Prop :=
  ∀ l calls reply l', Alone x l p calls reply l' → Quiet calls ∧
    ((∃ error, reply = .error error ∧ Faulted calls ∧ l' = l) ∨
      ∃ value, reply = .ok value ∧ effect l value l')

theorem LedgerCommits.mono {ε α : Type} {p : HostProg (Except ε α)}
    {effect effect' : Ledger → α → Ledger → Prop} (h : LedgerCommits x p effect)
    (hmono : ∀ l a l', effect l a l' → effect' l a l') : LedgerCommits x p effect' := by
  intro l calls reply l' hrun
  obtain ⟨hquiet, hfault | ⟨value, hreply, heffect⟩⟩ := h l calls reply l' hrun
  · exact ⟨hquiet, Or.inl hfault⟩
  · exact ⟨hquiet, Or.inr ⟨value, hreply, hmono l value l' heffect⟩⟩

theorem ledgerCommits_call (x : Crates) (op : LedgerOp) : LedgerCommits x (ask (.ledger op))
    fun l value l' => ∃ random, op.run x random l = .ok (value, l') := by
  intro l calls reply l' h
  obtain ⟨rfl, hanswer⟩ := exec_perform.mp h
  refine ⟨quiet_single rfl (by simp), ?_⟩
  cases reply with
  | error error =>
    exact Or.inl ⟨error, rfl, ⟨op, error, List.mem_cons_self⟩, hanswer.step.eq_of_error⟩
  | ok value => exact Or.inr ⟨value, rfl, hanswer.step.run_of_ok⟩

theorem ledgerCommits_notifications (x : Crates) (op : NotificationOp) : LedgerCommits x (notifications op)
    fun l value l' => op.run x l = .ok (value, l') := by
  apply (ledgerCommits_call x (.record (.notification op))).mono
  rintro l value l' ⟨random, hrun⟩
  exact hrun

/-- A committed step, or the error it gives up with. -/
theorem Alone.orFail {ε α β : Type} {p : HostProg (Except ε α)}
    {effect : Ledger → α → Ledger → Prop} {error : InvoiceNotificationError}
    {next : α → HostProg (Except InvoiceNotificationError β)}
    {result : Except InvoiceNotificationError β} (hp : LedgerCommits x p effect)
    (h : Alone x l (orFail error p next) calls result l') :
    (result = .error error ∧ Faulted calls ∧ Quiet calls ∧ l' = l) ∨
      ∃ first value middle rest, calls = first ++ rest ∧ Quiet first ∧ effect l value middle ∧
        Alone x middle (next value) rest result l' := by
  obtain ⟨first, reply, middle, rest, rfl, hfirst, hrest⟩ := exec_bind.mp h
  obtain ⟨hquiet, ⟨e, rfl, hfault, rfl⟩ | ⟨value, rfl, heffect⟩⟩ := hp _ _ _ _ hfirst
  · obtain ⟨rfl, rfl, rfl⟩ := exec_done.mp hrest
    rw [List.append_nil]
    exact Or.inl ⟨rfl, hfault, hquiet, rfl⟩
  · exact Or.inr ⟨first, value, middle, rest, rfl, hquiet, heffect, hrest⟩

end Steps

/-- The table that holds the relays of one kind of record. -/
structure RelayLens where
  view : Ledger → Table notificationRelaySchema
  put : Ledger → Table notificationRelaySchema → Ledger
  view_put : ∀ l t, view (put l t) = t
  put_put : ∀ l t t', put (put l t) t' = put l t'
  put_view : ∀ l, put l (view l) = l

def sentRelays : RelayLens where
  view l := l.sentPaymentRelays
  put l t := { l with sentPaymentRelays := t }
  view_put _ _ := rfl
  put_put _ _ _ := rfl
  put_view _ := rfl

def invoiceRelays : RelayLens where
  view l := l.invoiceNotificationRelays
  put l t := { l with invoiceNotificationRelays := t }
  view_put _ _ := rfl
  put_put _ _ _ := rfl
  put_view _ := rfl

/-- Only relays of one record were reached. -/
structure RelaysReached (lens : RelayLens) (eventId : EventId) (reached : Set String)
    (l l' : Ledger) : Prop where
  rest : l' = lens.put l (lens.view l')
  own : owed (lens.view l') eventId = owed (lens.view l) eventId \ reached
  other : ∀ other, other ≠ eventId → owed (lens.view l') other = owed (lens.view l) other

theorem relaysReached_refl (lens : RelayLens) (eventId : EventId) (l : Ledger) :
    RelaysReached lens eventId ∅ l l :=
  ⟨(lens.put_view l).symm, Set.sdiff_empty.symm, fun _ _ => rfl⟩

theorem RelaysReached.trans {lens : RelayLens} {eventId : EventId} {first later : Set String}
    {l l₁ l' : Ledger} (h : RelaysReached lens eventId first l l₁)
    (h' : RelaysReached lens eventId later l₁ l') :
    RelaysReached lens eventId (first ∪ later) l l' where
  rest := by
    have hrest := h'.rest
    rw [h.rest, lens.put_put] at hrest
    exact hrest
  own := by
    rw [h'.own, h.own, Set.sdiff_sdiff]
  other := fun other hne => (h'.other other hne).trans (h.other other hne)

/-- One of these relays refused the event. -/
def RelayRefuses (relays : Set SecureRelayUrl) (eventJson : String) (calls : List HostCall) : Prop :=
  ∃ relay ∈ relays, ∃ context, ∃ error : HostError,
    (⟨.publishEvent relay eventJson context, .error error⟩ : HostCall) ∈ calls

theorem RelayRefuses.mono {relays relays' : Set SecureRelayUrl} {eventJson : String}
    {calls calls' : List HostCall} (h : RelayRefuses relays eventJson calls)
    (hrelays : relays ⊆ relays') (hsub : calls ⊆ calls') :
    RelayRefuses relays' eventJson calls' := by
  obtain ⟨relay, hrelay, context, error, hmem⟩ := h
  exact ⟨relay, hrelays hrelay, context, error, hsub hmem⟩

section Delivery

variable {x : Crates} {lens : RelayLens} {eventId : EventId} {l l' : Ledger}
  {calls calls' : List HostCall} {context : HostProg (Option OperationContext)}
  {acknowledge : SecureRelayUrl → UnixTimestamp → HostProg (Except LedgerError Unit)}
  {undelivered : HostProg (Except LedgerError (List SecureRelayUrl))}
  {complete : UnixTimestamp → HostProg (Except LedgerError Unit)}
  {effect : UnixTimestamp → Ledger → Unit → Ledger → Prop}
  {eventJson : String} {relays relays' : List SecureRelayUrl} {failed : Bool}
  {report : InvoiceNotificationWorkerReport}

/-- What the relay loop reports: every relay was reached, or why not. -/
inductive Published (eventJson : String) (relays : List SecureRelayUrl) (failed : Bool)
    (calls : List HostCall) : Except InvoiceNotificationError Bool → Set String → Prop
  | faulted {reached} (fault : Faulted calls) :
      Published eventJson relays failed calls (.error .ledger) reached
  | partly {reached} (cause : failed = true ∨ Interrupted calls ∨
      RelayRefuses {relay | relay ∈ relays} eventJson calls) :
      Published eventJson relays failed calls (.ok true) reached
  | everywhere (fresh : failed = false) (calm : NotCancelled calls) :
      Published eventJson relays failed calls (.ok false) {url | ⟨url⟩ ∈ relays}

/-- The relay loop reaches relays of its record only. -/
theorem alone_publishToRelays {result : Except InvoiceNotificationError Bool}
    (hcontext : AsksForTime context)
    (hack : ∀ relay now, LedgerCommits x (acknowledge relay now) fun l _ l' =>
      RelaysReached lens eventId {relay.value} l l')
    (h : Alone x l (publishToRelays context acknowledge eventJson relays failed) calls result l') :
    lookupAnswers calls = [] ∧ ∃ reached, RelaysReached lens eventId reached l l' ∧
      Published eventJson relays failed calls result reached := by
  induction relays generalizing l calls failed with
  | nil =>
    obtain ⟨rfl, rfl, rfl⟩ := exec_done.mp h
    refine ⟨rfl, ∅, relaysReached_refl lens eventId l', ?_⟩
    cases failed with
    | true => exact .partly (Or.inl rfl)
    | false =>
      have hempty : {url | (⟨url⟩ : SecureRelayUrl) ∈ ([] : List SecureRelayUrl)} = ∅ := by simp
      exact hempty ▸ .everywhere rfl notCancelled_nil
  | cons relay rest ih =>
    obtain ⟨looks, granted, middle, more, rfl, hlooks, hmore⟩ := exec_bind.mp h
    obtain ⟨rfl, hnothing, hnone, hsome⟩ := hcontext _ _ _ _ _ hlooks
    cases granted with
    | none =>
      obtain ⟨rfl, rfl, rfl⟩ := exec_done.mp hmore
      rw [List.append_nil]
      exact ⟨hnothing, ∅, relaysReached_refl lens eventId l',
        .partly (Or.inr (Or.inl (hnone rfl)))⟩
    | some granted =>
      have hcalm : NotCancelled looks := hsome nofun
      obtain ⟨published, sent, rfl, hsent⟩ :=
        Alone.host (.publishEvent relay eventJson granted) (by simp) hmore
      have hrest : {r | r ∈ rest} ⊆ {r | r ∈ relay :: rest} := fun r hr => List.mem_cons_of_mem _ hr
      cases published with
      | error error =>
        -- A relay that refuses does not end the loop, but the record is kept.
        obtain ⟨hlookup, reached, hreached, hpublished⟩ := ih hsent
        refine ⟨by rw [lookupAnswers_append, lookupAnswers_cons rfl, hnothing, hlookup]; rfl,
          reached, hreached, ?_⟩
        cases hpublished with
        | faulted fault => exact .faulted (fault.mono fun call hcall => by simp [hcall])
        | partly cause =>
          exact .partly (Or.inr (Or.inr ⟨relay, List.mem_cons_self, granted, error, by simp⟩))
        | everywhere fresh => cases fresh
      | ok _ =>
        obtain ⟨now, acked, rfl, hacked⟩ := Alone.host .clockNow (by simp) hsent
        obtain ⟨rfl, hfault, hquiet, rfl⟩ | ⟨first, _, reachedNow, last, rfl, hquiet, hreach, hlast⟩ :=
          Alone.orFail (hack relay now) hacked
        · refine ⟨?_, ∅, relaysReached_refl lens eventId l', .faulted (hfault.mono fun call hcall => by simp [hcall])⟩
          rw [lookupAnswers_append, lookupAnswers_cons rfl, lookupAnswers_cons rfl, hnothing,
            hquiet.1]
          rfl
        · obtain ⟨hlookup, reached, hreached, hpublished⟩ := ih hlast
          refine ⟨?_, _, hreach.trans hreached, ?_⟩
          · rw [lookupAnswers_append, lookupAnswers_cons rfl, lookupAnswers_cons rfl,
              lookupAnswers_append, hnothing, hquiet.1, hlookup]
            rfl
          · have hsub : last ⊆ looks ++ ⟨.publishEvent relay eventJson granted, .ok ()⟩ ::
                ⟨.clockNow, now⟩ :: (first ++ last) := by
              intro call hcall
              simp [hcall]
            cases hpublished with
            | faulted fault => exact .faulted (fault.mono hsub)
            | partly cause =>
              apply Published.partly
              rcases cause with hfailed | hinterrupted | hrefused
              · exact Or.inl hfailed
              · exact Or.inr (Or.inl (hinterrupted.mono hsub))
              · exact Or.inr (Or.inr (hrefused.mono hrest hsub))
            | everywhere fresh calm =>
              have hunion : {relay.value} ∪ {url | (⟨url⟩ : SecureRelayUrl) ∈ rest} =
                  {url | (⟨url⟩ : SecureRelayUrl) ∈ relay :: rest} := by
                ext url
                have hsame : (⟨url⟩ : SecureRelayUrl) = relay ↔ url = relay.value := by
                  cases relay
                  simp
                simp [hsame]
              rw [hunion]
              refine .everywhere fresh ?_
              simp [hcalm, hquiet.2, calm]

/-- What delivering a record comes to; `done` is what retiring it did. -/
inductive Delivery (x : Crates) (lens : RelayLens) (eventId : EventId) (eventJson : String)
    (report : InvoiceNotificationWorkerReport) (l : Ledger) (calls : List HostCall)
    (done : Ledger → Ledger → Prop) :
    Except InvoiceNotificationError InvoiceNotificationWorkerReport → Ledger → Prop
  | faulted {reached l'} (relays : RelaysReached lens eventId reached l l') (fault : Faulted calls) :
      Delivery x lens eventId eventJson report l calls done (.error .ledger) l'
  | retried {reached l'} (relays : RelaysReached lens eventId reached l l')
      (cause : Interrupted calls ∨
        RelayRefuses (owedRelays x (lens.view l) eventId) eventJson calls) :
      Delivery x lens eventId eventJson report l calls done
        (.ok { report with retryable := report.retryable + 1 }) l'
  | delivered {reached middle l'} (relays : RelaysReached lens eventId reached l middle)
      (calm : NotCancelled calls)
      (complete : owed (lens.view middle) eventId = ∅ ↔ Acknowledgeable x (lens.view l) eventId)
      (retired : done middle l') :
      Delivery x lens eventId eventJson report l calls done
        (.ok { report with delivered := report.delivered + 1 }) l'

theorem alone_deliver
    {result : Except InvoiceNotificationError InvoiceNotificationWorkerReport}
    (hundelivered : LedgerCommits x undelivered fun l relays l' =>
      undeliveredRelays x (lens.view l) eventId = .ok relays ∧ l' = l)
    (hcontext : AsksForTime context)
    (hack : ∀ relay now, LedgerCommits x (acknowledge relay now) fun l _ l' =>
      RelaysReached lens eventId {relay.value} l l')
    (hcomplete : ∀ now, LedgerCommits x (complete now) (effect now))
    (h : Alone x l (deliver undelivered context acknowledge complete eventJson report) calls
      result l') :
    lookupAnswers calls = [] ∧ Delivery x lens eventId eventJson report l calls
      (fun l l' => ∃ now, effect now l () l') result l' := by
  obtain ⟨rfl, hfault, hquiet, rfl⟩ |
    ⟨first, relays, middle, later, rfl, hquiet, ⟨hrelays, rfl⟩, hlater⟩ :=
    Alone.orFail hundelivered h
  · exact ⟨hquiet.1, .faulted (relaysReached_refl lens eventId l') hfault⟩
  obtain ⟨publishing, failed, reachedNow, last, rfl, hpublishing, hlast⟩ := exec_bind.mp hlater
  obtain ⟨hlookup, reached, hreached, hpublished⟩ := alone_publishToRelays hcontext hack hpublishing
  cases hpublished with
  | faulted fault =>
    obtain ⟨rfl, rfl, rfl⟩ := exec_done.mp hlast
    rw [List.append_nil, lookupAnswers_append, hquiet.1, hlookup]
    exact ⟨rfl, .faulted hreached (fault.mono (List.subset_append_right _ _))⟩
  | partly cause =>
    obtain ⟨rfl, rfl, rfl⟩ := exec_done.mp hlast
    rw [List.append_nil, lookupAnswers_append, hquiet.1, hlookup]
    refine ⟨rfl, .retried hreached ?_⟩
    have hsub := List.subset_append_right first publishing
    rcases cause with hfailed | hinterrupted | hrefused
    · cases hfailed
    · exact Or.inl (hinterrupted.mono hsub)
    · exact Or.inr (hrefused.mono (undeliveredRelays_ok hrelays).1 hsub)
  | everywhere _ calm =>
    obtain ⟨now, retiring, rfl, hretiring⟩ := Alone.host .clockNow (by simp) hlast
    have hwhole : Quiet (first ++ (publishing ++ [⟨.clockNow, now⟩])) :=
      hquiet.append (Quiet.append ⟨hlookup, calm⟩ (quiet_single rfl (by simp)))
    obtain ⟨rfl, hfault, hretired, rfl⟩ | ⟨ended, _, finished, left, rfl, hretired, heffect, hdone⟩ :=
      Alone.orFail (hcomplete now) hretiring
    · refine ⟨?_, .faulted hreached (hfault.mono fun call hcall => by simp [hcall])⟩
      have hall := hwhole.append hretired
      simpa using hall.1
    · obtain ⟨rfl, rfl, rfl⟩ := exec_done.mp hdone
      have hall := hwhole.append hretired
      rw [List.append_nil]
      refine ⟨by simpa using hall.1, .delivered hreached (by simpa using hall.2) ?_ ⟨now, heffect⟩⟩
      rw [hreached.own]
      exact owed_diff_eq_empty hrelays

end Delivery

end NwcMobile
