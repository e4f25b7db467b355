import NwcMobile.Engine.NotificationSystem

/-!
One notification per record. The event that is stored first is the only one ever
published, a relay counts as reached only after a pass has published to it, and a record
is completed only when every relay has been reached.
-/

namespace NwcMobile

open Program Concurrent Transition Relational Notifications

/-- Execution `i`, a pass, publishes `json` to the relay for a record; `earlier` is what
was done before. -/
def Notifies (i : Nat) (kind : RecordKind) (eventId : EventId) (relay : SecureRelayUrl)
    (json : String) (event : Event NodeWorld NodeLabel) (earlier : NodeHistory) : Prop :=
  ∃ scope record t context reply, event.label = .act i ⟨.publishEvent relay json context, reply⟩ ∧
    event.before.threads[i]? = some t ∧ t.job = .pass scope ∧ record.kind = kind ∧
    record.eventId = eventId ∧ Notifying (actsOf i earlier) scope record json relay

/-- Only the passes acknowledge, complete and discard. -/
def NotifiedByPasses (outside : HostCall → Prop) : Prop :=
  ∀ op reply, outside ⟨op, reply⟩ → op.activity ≠ .notifying

/-- Every relay of the record has been reached. -/
def NothingOwed (l : Ledger) (kind : RecordKind) (eventId : EventId) : Prop :=
  owed (l.notificationRelays kind) eventId = ∅

/-- The step adds a relay to the record. -/
def AddsRelay (kind : RecordKind) (eventId : EventId) (event : Event NodeWorld NodeLabel) : Prop :=
  ∃ position r, event.before.shared.relayAt kind eventId position = none ∧
    event.after.shared.relayAt kind eventId position = some r

/-- The step completes the record. -/
def Completes (kind : RecordKind) (eventId : EventId) (event : Event NodeWorld NodeLabel) : Prop :=
  ∃ s s', event.before.shared.notificationOf kind eventId = some s ∧ s.completedAt = none ∧
    event.after.shared.notificationOf kind eventId = some s' ∧ s'.completedAt ≠ none

/-- Execution `i` asks which relays are owed the record's notification. -/
def AsksOwed (i : Nat) (kind : RecordKind) (eventId : EventId) (event : Event NodeWorld NodeLabel) :
    Prop :=
  ∃ call, event.label = .act i call ∧
    call.op = .ledger (.record (.notification (kind.undelivered eventId)))

section Runs

variable {x : Crates} {asJson : Nip47.Notification → String} {outside : HostCall → Prop}
  {l : Ledger} {w : NodeWorld} {later earlier : NodeHistory} {event : Event NodeWorld NodeLabel}
  {i : Nat} {kind : RecordKind} {eventId : EventId} {relay : SecureRelayUrl} {json : String}
  {position : Nat} {r r' : NotificationRelayRow}

theorem nodeLedgerHistory_append :
    nodeLedgerHistory (later ++ earlier) = nodeLedgerHistory later ++ nodeLedgerHistory earlier :=
  List.filterMap_append

theorem Undiscarded.mono {history history' : LedgerHistory} (h : Undiscarded kind eventId history)
    (hsub : history' ⊆ history) : Undiscarded kind eventId history' :=
  fun hkind event hevent => h hkind event (hsub hevent)

/-- Every publication of a pass is one for a record. -/
theorem notifies_of_publication {scope : PassScope} {t : Thread NodeJob HostOp HostOp.Reply NodeResult}
    {context : OperationContext} {reply : (HostOp.publishEvent relay json context).Reply}
    (hrun : NodeRun x asJson outside l (later ++ event :: earlier) w)
    (hlabel : event.label = .act i ⟨.publishEvent relay json context, reply⟩)
    (hthread : event.before.threads[i]? = some t) (hjob : t.job = .pass scope) :
    ∃ kind eventId, Notifies i kind eventId relay json event earlier := by
  obtain ⟨t', hthread', hguard⟩ := guard_of_nodeAct hrun hlabel
  rw [hthread, Option.some.injEq] at hthread'
  subst hthread'
  rw [hjob] at hguard
  obtain ⟨record, hnotifying⟩ := hguard
  exact ⟨record.kind, record.eventId, scope, record, t, context, reply, hlabel, hthread, hjob, rfl,
    rfl, hnotifying⟩

/-- What a pass publishes for a record was stored before. -/
theorem Notifies.stored (h : Notifies i kind eventId relay json event earlier)
    (hrun : NodeRun x asJson outside l earlier w) :
    ∃ newer past older, earlier = newer ++ past :: older ∧
      past.after.shared.HoldsEvent kind eventId json := by
  obtain ⟨scope, record, t, context, reply, -, -, -, rfl, rfl, hnotifying⟩ := h
  exact hnotifying.publishable.canonical.step hnotifying.publishable.listed hrun

/-- It is what the ledger holds for the record from then on. -/
theorem Notifies.canonical (h : Notifies i kind eventId relay json event earlier)
    (hrun : NodeRun x asJson outside l (later ++ event :: earlier) w)
    (hkept : Undiscarded kind eventId (nodeLedgerHistory (later ++ event :: earlier))) :
    w.shared.HoldsEvent kind eventId json := by
  obtain ⟨newer, past, older, rfl, s, hrow, hjson⟩ := h.stored hrun.split.1
  have hplace : later ++ event :: (newer ++ past :: older) =
      (later ++ event :: newer) ++ past :: older := by simp
  rw [hplace] at hrun hkept
  obtain ⟨-, -, hsince⟩ := hrun.split
  apply notification_event_kept (nodeLedgerRun hsince) hrow hjson
  apply hkept.mono
  have happend : nodeLedgerHistory ((later ++ event :: newer) ++ past :: older) =
      nodeLedgerHistory (later ++ event :: newer) ++ nodeLedgerHistory (past :: older) :=
    nodeLedgerHistory_append
  rw [happend]
  exact List.subset_append_left _ _

/-- The step that marks a relay as reached is a pass's acknowledgement, and the pass has
just published the record's event to that relay. -/
theorem acknowledged_by_pass (hforeign : NotifiedByPasses outside)
    (hrun : NodeRun x asJson outside l (later ++ event :: earlier) w)
    (hbefore : event.before.shared.relayAt kind eventId position = some r)
    (hopen : r.deliveredAt = none)
    (hafter : event.after.shared.relayAt kind eventId position = some r')
    (hreached : r'.deliveredAt ≠ none) :
    r'.relayUrl = r.relayUrl ∧ ∃ i newer published older json context,
      (∃ op reply, event.label = .act i ⟨op, reply⟩) ∧ earlier = newer ++ published :: older ∧
      published.label = .act i ⟨.publishEvent ⟨r.relayUrl⟩ json context, .ok ()⟩ ∧
      Notifies i kind eventId ⟨r.relayUrl⟩ json published older := by
  obtain ⟨hpast, hstep, -⟩ := hrun.split
  rcases hstep.ledger with ⟨call, hcall, hledger⟩ | ⟨-, hsame⟩
  · have hmoved := hledger.relayStep kind eventId position
    rw [hbefore, hafter] at hmoved
    cases hmoved with
    | kept => exact absurd hopen hreached
    | delivered deliveredAt _ hop =>
      refine ⟨rfl, ?_⟩
      obtain ⟨time, hop⟩ := hop
      obtain ⟨op, reply⟩ := call
      obtain rfl : op = _ := hop
      cases hlabel : event.label with
      | spawn job =>
        rw [hlabel] at hcall
        cases hcall
      | crash i =>
        rw [hlabel] at hcall
        cases hcall
      | outside host =>
        rw [hlabel] at hcall hstep
        obtain rfl := hostLedgerCall_eq_some hcall
        generalize event.after = after at hstep
        cases hstep with
        | outside hout _ =>
          refine absurd ?_ (hforeign _ _ hout)
          cases kind <;> rfl
      | act i host =>
        rw [hlabel] at hcall
        obtain rfl := hostLedgerCall_eq_some hcall
        obtain ⟨t, hthread, hguard⟩ := guard_of_nodeAct hrun hlabel
        have hpublished : ∃ scope record, t.job = .pass scope ∧ record.kind = kind ∧
            record.eventId = eventId ∧
            JustPublished (actsOf i earlier) scope record ⟨r.relayUrl⟩ time := by
          cases hjob : t.job with
          | engine job =>
            rw [hjob] at hguard
            refine absurd ?_ hguard.1
            cases kind <;> rfl
          | pass scope =>
            rw [hjob] at hguard
            cases kind with
            | sent =>
              obtain ⟨record, hkind, hevent, hpublished⟩ := hguard
              exact ⟨scope, record, rfl, hkind, hevent, hpublished⟩
            | invoice =>
              obtain ⟨record, hkind, hevent, hpublished⟩ := hguard
              exact ⟨scope, record, rfl, hkind, hevent, hpublished⟩
        obtain ⟨scope, record, hjob, hkind, hevent, json, context, log, hlog, hnotifying⟩ := hpublished
        -- the publication is the act before the last one
        have hacts : actsOf i earlier = [⟨.clockNow, time⟩] ++
            ⟨.publishEvent ⟨r.relayUrl⟩ json context, .ok ()⟩ :: log := hlog
        obtain ⟨newer, published, older, rfl, hact, -, hrest⟩ := actsOf_split hacts
        refine ⟨i, newer, published, older, json, context, ⟨_, _, rfl⟩, rfl, hact, ?_⟩
        obtain ⟨-, hpublish, hnewer⟩ := hpast.split
        obtain ⟨t', hthread', -⟩ := act_spec nodeGuard hpast (by simp) hact
        obtain ⟨kept, hkept, hsame, -⟩ := threads_kept (hnewer.cons_first hpublish) hthread'
        rw [hthread, Option.some.injEq] at hkept
        subst hkept
        refine ⟨scope, record, t', context, .ok (), hact, hthread', hsame.symm.trans hjob, hkind,
          hevent, ?_⟩
        rw [hrest]
        exact hnotifying
  · rw [hsame, hbefore] at hafter
    obtain rfl := Option.some.inj hafter
    exact absurd hopen hreached

theorem mem_owed {table : Table notificationRelaySchema} {url : String} :
    url ∈ owed table eventId ↔ ∃ position r,
      (table.selectRow fun r => r.requestEventId == eventId && r.position == position) = some r ∧
        r.relayUrl = url ∧ r.deliveredAt = none := by
  constructor
  · rintro ⟨r, hr, hevent, hurl, hopen⟩
    refine ⟨r.position, r, ?_, hurl, hopen⟩
    apply (Table.selectRow_eq_some (relayPosition_key eventId r.position)).mpr
    exact ⟨hr, by simp [hevent]⟩
  · rintro ⟨position, r, hrow, hurl, hopen⟩
    obtain ⟨hr, hkey⟩ := Table.selectRow_mem hrow
    simp only [Bool.and_eq_true, beq_iff_eq] at hkey
    exact ⟨r, hr, hkey.1, hurl, hopen⟩

/-- Nothing comes to be owed unless a relay is added. -/
theorem NodeStep.nothingOwed {w' : NodeWorld} {label : NodeLabel}
    (h : NodeStep x asJson outside w label w') (hnone : NothingOwed w.shared kind eventId)
    (hadds : ¬ AddsRelay kind eventId ⟨w, label, w'⟩) : NothingOwed w'.shared kind eventId := by
  rcases h.ledger with ⟨call, -, hledger⟩ | ⟨-, hsame⟩
  · by_contra howed
    obtain ⟨url, hurl⟩ := Set.nonempty_iff_ne_empty.mpr howed
    obtain ⟨position, r, hrow, hr, hopen⟩ := mem_owed.mp hurl
    have hmoved := hledger.relayStep kind eventId position
    have hafter : w'.shared.relayAt kind eventId position = some r := hrow
    rw [hafter] at hmoved
    generalize hbefore : w.shared.relayAt kind eventId position = before at hmoved
    cases hmoved with
    | kept =>
      have hprior : url ∈ owed (w.shared.notificationRelays kind) eventId :=
        mem_owed.mpr ⟨position, r, hbefore, hr, hopen⟩
      rw [hnone] at hprior
      cases hprior
    | added => exact hadds ⟨position, r, hbefore, hafter⟩
    | delivered => cases hopen
  · rw [hsame]
    exact hnone

theorem nothingOwed_run {w₀ : NodeWorld} {history : NodeHistory}
    (hrun : Run (NodeStep x asJson outside) w₀ history w)
    (hnone : NothingOwed w₀.shared kind eventId)
    (hadds : ∀ past ∈ history, ¬ AddsRelay kind eventId past) :
    NothingOwed w.shared kind eventId := by
  induction hrun with
  | refl => exact hnone
  | tail _ hstep ih =>
    apply NodeStep.nothingOwed hstep
    · exact ih fun past hpast => hadds past (List.mem_cons_of_mem _ hpast)
    · exact hadds _ List.mem_cons_self

/-- A record is completed when it has an event and no relay is owed that. -/
theorem Completes.nothingOwed (h : Completes kind eventId event)
    (hstep : NodeStep x asJson outside event.before event.label event.after) :
    NothingOwed event.before.shared kind eventId ∧
      ∃ json, event.before.shared.HoldsEvent kind eventId json := by
  obtain ⟨s, s', hbefore, hopen, hafter, hdone⟩ := h
  rcases hstep.ledger with ⟨call, -, hledger⟩ | ⟨-, hsame⟩
  · have hmoved := hledger.notificationStep kind eventId
    rw [hbefore, hafter] at hmoved
    cases hmoved with
    | kept => exact absurd hopen hdone
    | stored => exact absurd rfl hdone
    | completed json completedAt hnone => exact ⟨hnone, json, _, hbefore, rfl⟩
  · rw [hsame, hbefore] at hafter
    obtain rfl := Option.some.inj hafter
    exact absurd hopen hdone

/-- A pass that publishes for a record has asked while a relay was owed that. -/
theorem Notifies.asked (h : Notifies i kind eventId relay json event earlier)
    (hrun : NodeRun x asJson outside l earlier w) :
    ∃ newer past older, earlier = newer ++ past :: older ∧ AsksOwed i kind eventId past ∧
      ¬ NothingOwed past.before.shared kind eventId := by
  obtain ⟨scope, record, t, context, reply, -, -, -, rfl, rfl, hnotifying⟩ := h
  have howed : ∀ {table : Table notificationRelaySchema} {relays : List SecureRelayUrl},
      undeliveredRelays x table record.eventId = .ok relays → relay ∈ relays →
        owed table record.eventId ≠ ∅ := by
    intro table relays hrelays hmem hempty
    obtain ⟨url, hurl, -⟩ := (undeliveredRelays_ok hrelays).1 relay hmem
    rw [hempty] at hurl
    cases hurl
  cases hnotifying.owedTo with
  | sent hkind returned mem =>
    obtain ⟨newer, past, older, hsplit, hlabel, hop⟩ := returned.step hrun
    refine ⟨newer, past, older, hsplit, ⟨_, hlabel, by rw [hkind]; rfl⟩, ?_⟩
    rw [hkind]
    exact howed (reading_eq_ok.mp hop).1 mem
  | invoice hkind returned mem =>
    obtain ⟨newer, past, older, hsplit, hlabel, hop⟩ := returned.step hrun
    refine ⟨newer, past, older, hsplit, ⟨_, hlabel, by rw [hkind]; rfl⟩, ?_⟩
    rw [hkind]
    exact howed (reading_eq_ok.mp hop).1 mem

end Runs

/-- One notification per record, for any interleaving of passes, executions, crashes and
other ledger calls. Whatever a pass publishes is the event of a record, stored before,
and all passes publish the same event for a record: the one the ledger holds for it. -/
theorem one_notification_per_record {x : Crates} {asJson : Nip47.Notification → String}
    {outside : HostCall → Prop} {l : Ledger} {history : NodeHistory} {w : NodeWorld}
    (hrun : NodeRun x asJson outside l history w) :
    (∀ later event earlier i scope t relay json context reply, history = later ++ event :: earlier →
      event.label = .act i ⟨.publishEvent relay json context, reply⟩ →
        event.before.threads[i]? = some t → t.job = .pass scope →
          ∃ kind eventId, Notifies i kind eventId relay json event earlier) ∧
    ∀ later event earlier i kind eventId relay json, history = later ++ event :: earlier →
      Notifies i kind eventId relay json event earlier →
        (∃ past ∈ earlier, past.after.shared.HoldsEvent kind eventId json) ∧
        (Undiscarded kind eventId (nodeLedgerHistory history) →
          w.shared.HoldsEvent kind eventId json ∧
          ∀ later' event' earlier' j relay' json', history = later' ++ event' :: earlier' →
            Notifies j kind eventId relay' json' event' earlier' → json' = json) := by
  refine ⟨?_, ?_⟩
  · rintro later event earlier i scope t relay json context reply rfl hlabel hthread hjob
    exact notifies_of_publication hrun hlabel hthread hjob
  · intro later event earlier i kind eventId relay json hsplit hnotifies
    have hhere := hrun
    rw [hsplit] at hhere
    refine ⟨?_, fun hkept => ?_⟩
    · obtain ⟨newer, past, older, hpast, hholds⟩ := hnotifies.stored hhere.split.1
      exact ⟨past, by simp [hpast], hholds⟩
    · have hheld : w.shared.HoldsEvent kind eventId json :=
        hnotifies.canonical hhere (hsplit ▸ hkept)
      refine ⟨hheld, ?_⟩
      intro later' event' earlier' j relay' json' hsplit' hnotifies'
      have hthere := hrun
      rw [hsplit'] at hthere
      obtain ⟨s', hs', hjson'⟩ := hnotifies'.canonical hthere (hsplit' ▸ hkept)
      obtain ⟨s, hs, hjson⟩ := hheld
      rw [hs, Option.some.injEq] at hs'
      rw [← hs', hjson, Option.some.injEq] at hjson'
      exact hjson'.symm

namespace Sample

/-- The content of the notification, encrypted with one nonce or another. -/
def notificationCiphertext (nonce : BitVec 256) : String :=
  if nonce = 1 then
  "AgAAAAAAAAAAAAAAAAAAAAAAAAAAAAAAAAAAAAAAAAABjZ5qnTwIZrgkkbFgKMx9n09b6wRaFuJG00Aq" ++
  "xi9ebXpq+iR3EAZQ/9BecH7VXaOYokOnrAAtjQ0GljqxBKsK1sO5zgLuIxyN5NfCExQcv/TiXSpqb0jH" ++
  "Di/wqOw9odHVEi36I3TTiJ/712RCHAMttPjag2ItP2Kx+AnVd6HClj7R1A9s140n0IxrRKq7gvSY/Qpm" ++
  "GBuKxPOnb2m03motcm8oAu6Q8/AB4SgsVjBhRYdNRq1cD5ucMn8+qFwf7YFmehH+TV3GEErbayVBpb5+" ++
  "U+4wz736vjFGKNQt4xFetMT2MguClRG5xkp2/ShD79ZJE2cwEnpbCYb0q0gKPoWEPTW/qRfwLapIV2S9" ++
  "0zto9t+h1UuwIwwZo2gbPatCt3UuQYRXM4k+onxXlEkFiAVP61Jegym6Hh67V5om5YDtLJLaehNM1JCJ" ++
  "6sbHRmvLEss26ZBk6mT7jpGsxUwWsYI6p4eLaSKDgvWKgu1n8LseQmuX1OWJ0jZUpnMUxIeBlpzuApVy" ++
  "Jqv2h1RB8lrBr16KYxhaz875B/pUjCyIr6n+OJzexg=="
  else
  "AgAAAAAAAAAAAAAAAAAAAAAAAAAAAAAAAAAAAAAAAAACzWfoXVZ3KVIev2Ad0qPROvOh5KP/JC0ufvd4" ++
  "gizIYK3gieHWqVuRCPMqKCtyy78zey5eWJiMx4CWlnWoFUBi2pQ1WlaYKrAMbaEkZ3jBUPu2MtmUBLfT" ++
  "Fap6+IylqXudfVFjZd5ZXTp0HmZk+ePk2uH8gANdHXktV0dMb1YSeq5IVvexwTv7rI1tQR7jG/MEHkNh" ++
  "jHv19fxObjP9/tgZtq2G2GzRDZ10G7ra4Dqktayd69cJD4lY6DXSXqx4zWYaeTAnpOW48CMFR4OOvHgJ" ++
  "CqYDrzHOMV89y+STtScvyCZG1qGRq5JyIwBnw7UfiXokSC2eZvZG/VQmiNlE9mKjyfi7v41oczclE+CW" ++
  "/bGApsWH5fKeq6mTrn221baGgUkC0s+lIaYkFT7QvgWrQX9yPeTpS1fdmeuA7tPeeUJhLR6LpvN9bO/p" ++
  "i3v6NGiy9c5rd7pNg/MrYWMl6NfU538zsoRJjJLehDFD7++YkwGgu9jVF/jTNbAkxzN0FfrE8wR2Bllm" ++
  "9RB3UmDWFPQJYjicdI1Aqq9n/Hy8B94o3HaTvq+y1A=="

def notificationEventJson (nonce : BitVec 256) : String :=
  if nonce = 1 then
    "\x7b\"id\":\"11745ee1615002433279a8e7ed0dfc5df071f6fe6a47db947c4a873d284f368a\"," ++
      "\"pubkey\":\"" ++ walletServiceHex ++ "\",\"created_at\":1010,\"kind\":23197," ++
      "\"tags\":[[\"p\",\"" ++ clientHex ++ "\"],[\"encryption\",\"nip44_v2\"]]," ++
      "\"content\":\"" ++ notificationCiphertext 1 ++ "\",\"sig\":\"" ++
      "ce00c0d89cf6a384b9b31cb5e12f666d15d60113f87bdcff6e09aec4dca7dc10" ++
      "c85f737d67d92dd63d0822d9edb484190e24781d7690d3ec031b3c1ac8b8ee53\"\x7d"
  else
    "\x7b\"id\":\"6aa00a36bc61354d46439173b58c028f11d14f862c8e6a76f0064da372b4fe78\"," ++
      "\"pubkey\":\"" ++ walletServiceHex ++ "\",\"created_at\":1010,\"kind\":23197," ++
      "\"tags\":[[\"p\",\"" ++ clientHex ++ "\"],[\"encryption\",\"nip44_v2\"]]," ++
      "\"content\":\"" ++ notificationCiphertext 2 ++ "\",\"sig\":\"" ++
      "12cb9ac00976d99109f1f0b3e94b50d2041cd5ceb24658ecf421949eecc9fe71" ++
      "3bc43d4a9dff0a353384301909faf77448931c2e42bb325608be0f538d2d0718\"\x7d"

/-- The crates on the notification of the settled payment; what they yield on other texts
does not matter. -/
def notificationCrates : Crates :=
  { crates with
    encrypt := fun _ _ _ _ nonce => some (notificationCiphertext nonce)
    signEvent := fun _ _ nonce => some (notificationEventJson nonce) }

def owedNotification : TrackedNwcPayment where
  requestEventId := firstEvent.id
  paymentHash := ⟨9⟩
  connectionId := connectionId
  connectionRevision := .initial
  invoice := "lnbc1"
  amount := 10000
  fee := 900
  preimage := ⟨5⟩
  createdAt := 1010
  settledAt := 1010
  notificationEventJson := none

def owedNotificationText : String :=
  "\x7b\"notification_type\":\"payment_sent\",\"notification\":\x7b\"type\":\"outgoing\"," ++
    "\"state\":\"settled\",\"invoice\":\"lnbc1\"," ++
    "\"preimage\":\"0000000000000000000000000000000000000000000000000000000000000005\"," ++
    "\"payment_hash\":\"0000000000000000000000000000000000000000000000000000000000000009\"," ++
    "\"amount\":10000,\"fees_paid\":900,\"created_at\":1010,\"settled_at\":1010\x7d\x7d"

/-- Every ledger call but those of the passes. -/
def unnotified (call : HostCall) : Prop := call.op.activity ≠ .notifying

def notifyingScript (nonce : BitVec 256) : HostScript :=
  { payingScript 1011 1 with nonce }

/-- Two passes over one settled payment. Each has built its own event; the second stores
its event first, and then the first publishes. -/
def racing : List NodeMove :=
  List.replicate 5 (NodeMove.act 0 (notifyingScript 1)) ++
    (List.replicate 8 (NodeMove.act 1 (notifyingScript 2)) ++
      (List.replicate 7 (NodeMove.act 0 (notifyingScript 1)) ++
        [NodeMove.spawn (.pass .all), NodeMove.spawn (.pass .all),
         NodeMove.outside (.record (.recordNwcSentPayment owedNotification [relay]))
           (script 1010 0),
         NodeMove.outside (.registry (.insertConnection connection 1000)) (script 1000 0)]))

def passesOver (moves : List NodeMove) : NodeHistory × NodeWorld :=
  nodePlay notificationCrates (fun _ => owedNotificationText) .empty moves

theorem racing_outside {op : LedgerOp} {host : HostScript} (h : .outside op host ∈ racing)
    (reply : op.Reply) : unnotified ⟨.ledger op, reply⟩ := by
  simp only [racing, List.mem_append, List.mem_cons, List.mem_replicate, List.not_mem_nil,
    NodeMove.outside.injEq, reduceCtorEq, and_false, or_false, false_or] at h
  rcases h with ⟨rfl, -⟩ | ⟨rfl, -⟩
  · exact fun h => by cases h
  · exact fun h => by cases h

/-- Execution `i`, a pass, publishes the event that was built with the nonce. -/
def publishesAs (i : Nat) (nonce : BitVec 256) (event : Event NodeWorld NodeLabel) : Bool :=
  match event.label with
  | .act k ⟨.publishEvent _ json _, _⟩ =>
    k == i && json == notificationEventJson nonce && event.before.threads[i]?.any fun t =>
      match t.job with
      | .pass .all => true
      | _ => false
  | _ => false

theorem publishesAs_publication {i : Nat} {nonce : BitVec 256} {event : Event NodeWorld NodeLabel}
    (h : publishesAs i nonce event = true) : ∃ relay context reply t,
      event.label = .act i ⟨.publishEvent relay (notificationEventJson nonce) context, reply⟩ ∧
        event.before.threads[i]? = some t ∧ t.job = .pass .all := by
  unfold publishesAs at h
  split at h
  · rename_i k relay json context reply hlabel
    simp only [Bool.and_eq_true, beq_iff_eq, Option.any_eq_true] at h
    obtain ⟨⟨rfl, rfl⟩, t, hthread, hpass⟩ := h
    split at hpass
    · rename_i hjob
      exact ⟨relay, context, reply, t, hlabel, hthread, hjob⟩
    · cases hpass
  · cases h

/-- The newest step is such a publication. -/
def endsPublishing (i : Nat) (nonce : BitVec 256) : NodeHistory → Bool
  | event :: _ => publishesAs i nonce event
  | [] => false

/-- The first pass goes on to acknowledge its relay. -/
def acknowledged : List NodeMove := List.replicate 2 (NodeMove.act 0 (notifyingScript 1)) ++ racing

theorem acknowledged_outside {op : LedgerOp} {host : HostScript}
    (h : .outside op host ∈ acknowledged) (reply : op.Reply) : unnotified ⟨.ledger op, reply⟩ := by
  apply racing_outside
  · simpa [acknowledged] using h

/-- The step marks the relay of the settled payment as reached. -/
def reaches (event : Event NodeWorld NodeLabel) : Bool :=
  event.before.shared.relayAt .sent firstEvent.id 0 ==
      some ⟨firstEvent.id, 0, relayUrl, none⟩ &&
    event.after.shared.relayAt .sent firstEvent.id 0 ==
      some ⟨firstEvent.id, 0, relayUrl, some 1011⟩

/-- The step is one of the first pass. -/
def actsFirst (event : Event NodeWorld NodeLabel) : Bool :=
  match event.label with
  | .act 0 _ => true
  | _ => false

theorem actsFirst_eq {event : Event NodeWorld NodeLabel} {i : Nat} {call : HostCall}
    (h : actsFirst event = true) (hlabel : event.label = .act i call) : i = 0 := by
  unfold actsFirst at h
  split at h
  · rename_i call' hfirst
    rw [hfirst, Label.act.injEq] at hlabel
    exact hlabel.1.symm
  · cases h

theorem racing_checked : endsPublishing 0 2 (passesOver racing).1 = true ∧
    ((passesOver acknowledged).1.head?.any fun event => reaches event && actsFirst event) =
      true := by
  decide +kernel

end Sample

/-- Two passes have built different events; the first publishes the one that the second
has stored. -/
theorem one_notification_per_record_raced : ∃ event earlier,
    (Sample.passesOver Sample.racing).1 = event :: earlier ∧
      Sample.publishesAs 0 2 event = true ∧ ∃ kind eventId relay, Notifies 0 kind eventId relay
        (Sample.notificationEventJson 2) event earlier ∧
          ∃ past ∈ earlier, past.after.shared.HoldsEvent kind eventId
            (Sample.notificationEventJson 2) := by
  have hchecked := Sample.racing_checked.1
  have hrun : NodeRun Sample.notificationCrates (fun _ => Sample.owedNotificationText)
      Sample.unnotified .empty (Sample.passesOver Sample.racing).1
      (Sample.passesOver Sample.racing).2 :=
    nodePlay_run fun _ _ hop => Sample.racing_outside hop
  have hone := one_notification_per_record hrun
  cases hhistory : (Sample.passesOver Sample.racing).1 with
  | nil =>
    rw [hhistory] at hchecked
    cases hchecked
  | cons event earlier =>
    rw [hhistory] at hchecked hone
    refine ⟨event, earlier, rfl, hchecked, ?_⟩
    obtain ⟨relay, context, reply, t, hlabel, hthread, hjob⟩ :=
      Sample.publishesAs_publication hchecked
    obtain ⟨kind, eventId, hnotifies⟩ :=
      hone.1 [] event earlier 0 .all t relay _ context reply rfl hlabel hthread hjob
    exact ⟨kind, eventId, relay, hnotifies, (hone.2 [] event earlier 0 kind eventId relay _ rfl hnotifies).1⟩

/-- Delivery is accounted for truthfully. A relay counts as reached only after the pass
that says so has published the record's event to it, with success, and counts so as
long as the record is kept. A record is completed only when it has an event and every
relay has been reached; afterwards a pass publishes for it only if it had asked for the
relays before, or if one is added. -/
theorem delivery_is_accounted {x : Crates} {asJson : Nip47.Notification → String}
    {outside : HostCall → Prop} {l : Ledger} {w : NodeWorld} {later earlier : NodeHistory}
    {event : Event NodeWorld NodeLabel} (hforeign : NotifiedByPasses outside)
    (hrun : NodeRun x asJson outside l (later ++ event :: earlier) w) (kind : RecordKind)
    (eventId : EventId) :
    (∀ position r r', event.before.shared.relayAt kind eventId position = some r →
      r.deliveredAt = none → event.after.shared.relayAt kind eventId position = some r' →
      r'.deliveredAt ≠ none →
        (∃ i newer published older json context, (∃ call, event.label = .act i call) ∧
          earlier = newer ++ published :: older ∧
          published.label = .act i ⟨.publishEvent ⟨r.relayUrl⟩ json context, .ok ()⟩ ∧
          Notifies i kind eventId ⟨r.relayUrl⟩ json published older) ∧
        (Lasting kind eventId (nodeLedgerHistory later) →
          w.shared.relayAt kind eventId position = some r')) ∧
    (Completes kind eventId event →
      (NothingOwed event.before.shared kind eventId ∧
        ∃ json, event.before.shared.HoldsEvent kind eventId json) ∧
      ∀ newer published middle i relay json, later = newer ++ published :: middle →
        Notifies i kind eventId relay json published (middle ++ event :: earlier) →
          (∃ past ∈ middle ++ [event], AddsRelay kind eventId past) ∨
            ∃ asked ∈ earlier, AsksOwed i kind eventId asked) := by
  obtain ⟨-, hstep, hlater⟩ := hrun.split
  refine ⟨?_, fun hcompletes => ⟨hcompletes.nothingOwed hstep, ?_⟩⟩
  · intro position r r' hbefore hopen hafter hreached
    obtain ⟨-, i, newer, published, older, json, context, ⟨op, reply, hact⟩, hsplit, hlabel, hnotifies⟩ :=
      acknowledged_by_pass hforeign hrun hbefore hopen hafter hreached
    refine ⟨⟨i, newer, published, older, json, context, ⟨_, hact⟩, hsplit, hlabel, hnotifies⟩, ?_⟩
    intro hlasting
    exact relay_delivery_kept (nodeLedgerRun hlater) hafter hreached hlasting
  · rintro newer published middle i relay json rfl hnotifies
    have hplace : (newer ++ published :: middle) ++ event :: earlier =
        newer ++ published :: (middle ++ event :: earlier) := by simp
    rw [hplace] at hrun
    obtain ⟨hpast, -, -⟩ := hrun.split
    obtain ⟨recent, asked, older, hsplit, hasks, howed⟩ := hnotifies.asked hpast
    by_cases hadds : ∃ past ∈ middle ++ [event], AddsRelay kind eventId past
    · exact Or.inl hadds
    right
    have hquiet : ∀ past ∈ middle ++ [event], ¬ AddsRelay kind eventId past :=
      fun past hmem hadded => hadds ⟨past, hmem, hadded⟩
    have hnone := (hcompletes.nothingOwed hstep).1
    rcases List.append_eq_append_iff.mp hsplit with ⟨between, rfl, hafter⟩ | ⟨between, rfl, hafter⟩
    · cases between with
      | nil =>
        obtain ⟨rfl, -⟩ := List.cons.inj hafter
        exact absurd hnone howed
      | cons first rest =>
        obtain ⟨rfl, rfl⟩ := List.cons.inj hafter
        exact ⟨asked, by simp, hasks⟩
    · cases between with
      | nil =>
        obtain ⟨rfl, -⟩ := List.cons.inj hafter
        exact absurd hnone howed
      | cons first since =>
        obtain ⟨rfl, rfl⟩ := List.cons.inj hafter
        -- between the completion and the question nothing came to be owed
        have hreaches : (recent ++ asked :: since) ++ event :: earlier =
            recent ++ asked :: (since ++ event :: earlier) := by simp
        rw [hreaches] at hpast
        obtain ⟨hasked, -, -⟩ := hpast.split
        obtain ⟨-, -, hsince⟩ := hasked.split
        refine absurd (nothingOwed_run (hsince.cons_first hstep) hnone ?_) howed
        intro past hmem
        apply hquiet
        rw [List.mem_append] at hmem ⊢
        exact hmem.imp (by simp +contextual) id

theorem delivery_is_accounted_acknowledged : ∃ event earlier,
    (Sample.passesOver Sample.acknowledged).1 = event :: earlier ∧
      ∃ newer published older json context, earlier = newer ++ published :: older ∧
        published.label = .act 0 ⟨.publishEvent Sample.relay json context, .ok ()⟩ ∧
          Notifies 0 .sent Sample.firstEvent.id Sample.relay json published older := by
  have hchecked := Sample.racing_checked.2
  have hrun : NodeRun Sample.notificationCrates (fun _ => Sample.owedNotificationText)
      Sample.unnotified .empty (Sample.passesOver Sample.acknowledged).1
      (Sample.passesOver Sample.acknowledged).2 :=
    nodePlay_run fun _ _ hop => Sample.acknowledged_outside hop
  cases hhistory : (Sample.passesOver Sample.acknowledged).1 with
  | nil =>
    rw [hhistory] at hchecked
    cases hchecked
  | cons event earlier =>
    rw [hhistory] at hchecked hrun
    obtain ⟨hreaches, hfirst⟩ := Bool.and_eq_true_iff.mp hchecked
    simp only [Sample.reaches, Bool.and_eq_true, beq_iff_eq] at hreaches
    have hnewest : NodeRun Sample.notificationCrates (fun _ => Sample.owedNotificationText)
        Sample.unnotified .empty ([] ++ event :: earlier)
        (Sample.passesOver Sample.acknowledged).2 := hrun
    have haccounted := delivery_is_accounted (fun _ _ h => h) hnewest .sent Sample.firstEvent.id
    obtain ⟨⟨i, newer, published, older, json, context, ⟨call, hcall⟩, hrest⟩, -⟩ :=
      haccounted.1 0 _ _ hreaches.1 rfl hreaches.2 (by simp)
    obtain rfl : i = 0 := Sample.actsFirst_eq hfirst hcall
    exact ⟨event, earlier, rfl, newer, published, older, json, context, hrest⟩

end NwcMobile
