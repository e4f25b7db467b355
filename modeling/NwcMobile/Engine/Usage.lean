import NwcMobile.Engine.LeaseBudget

/-!
When a connection counts as used. The ledger reads the time off its completed rows, and
a row is completed by the commit of a response, whether the response carries a result
or an error.
-/

namespace NwcMobile

open Program Prog Concurrent Transition Nip47 Fallible Relational

def Nip47.Response.IsResult (response : Response) : Prop :=
  response.error = none ∧ response.result.isSome

def Nip47.Response.IsError (response : Response) : Prop :=
  response.error.isSome ∧ response.result = none

/-- The response event is a result or an error of its request. -/
def Answers (x : Crates) (json : String) : Prop :=
  ∃ response, Carries x json response ∧ (response.IsResult ∨ response.IsError)

/-- What an execution commits is a response, and its claim counts as completed only then. -/
def AnswerGuard (x : Crates) (_ : HostLog) : HostOp → Prop
  | .ledger (.claim (.completeEvent _ kind _ _)) => kind ≠ .completed
  | .ledger (.claim (.completeEventForActiveConnection _ _ _ json _)) => Answers x json
  | .ledger (.claim (.completeNwcEventForActiveConnection _ _ _ json _ _)) => Answers x json
  | _ => True

section Guards

variable {x : Crates} {r : ClaimedRequest}

theorem answerGuard_of_activity {log : HostLog} {op : HostOp} (h : op.activity.onClaim = false) :
    AnswerGuard x log op := by
  cases op with
  | ledger op =>
    cases op with
    | claim op => cases op <;> cases h
    | _ => trivial
  | _ => trivial

theorem upholds_answers : Upholds x (AnswerGuard x) (fun _ => True)
    (fun response => response.IsResult ∨ response.IsError) r where
  plain := fun _ _ hop => answerGuard_of_activity hop
  kept := fun _ _ _ _ _ => trivial
  accepts := fun _ _ _ => ⟨trivial, fun _ => trivial⟩
  releases := fun _ _ _ => trivial
  rejects := fun _ _ _ => nofun
  commits := by
    intro log response secret createdAt nonce json method now _ hresponse hbuilt
    have hanswers : Answers x json :=
      ⟨response, ⟨r.validated, secret, createdAt, nonce, hbuilt⟩, hresponse⟩
    cases method with
    | none => exact ⟨hanswers, fun _ _ _ => trivial⟩
    | some method => exact ⟨hanswers, fun _ _ _ => trivial⟩

theorem Job.answerGuard (job : Job) :
    Spec (AnswerGuard x) [] (job.program x) fun _ _ => True := by
  apply upheld_program
  · intro log op hop
    exact answerGuard_of_activity hop
  · intro log remaining duration now e c revision _ _
    trivial
  · intro log remaining duration now policy r _
    apply upholds_answers.executeClaimed
    · intro method error
      exact Or.inr ⟨rfl, rfl⟩
    · intro request context log _
      apply (within_executeRequest.guard_imp fun log op hop => ?_).imp
      · intro log' result _
        refine ⟨trivial, fun answer _ => ⟨_, _, upholds_answers, trivial, ?_⟩⟩
        exact Or.inl ⟨rfl, rfl⟩
      · apply answerGuard_of_activity
        generalize op.activity = a at hop
        cases a <;> first | rfl | cases hop
    · intro preimage fee
      exact Or.inl ⟨rfl, rfl⟩
    · trivial

end Guards

/-- The commit an operation makes: its lease, connection, response event and time. -/
def ClaimOp.commit : ClaimOp → Option (EventLease × ConnectionId × String × UnixTimestamp)
  | .completeEventForActiveConnection lease c _ json now => some (lease, c, json, now)
  | .completeNwcEventForActiveConnection lease c _ json _ now => some (lease, c, json, now)
  | _ => none

/-- At this step a response to the event is committed for the connection. -/
def Commits (c : ConnectionId) (e : EventId) (json : String) (t : UnixTimestamp)
    (event : Event SystemWorld SystemLabel) : Prop :=
  ∃ (op : ClaimOp) (value : op.Value) (lease : EventLease),
    systemLedgerCall event.label = some ⟨.claim op, .ok value⟩ ∧
      op.commit = some (lease, c, json, t) ∧ lease.eventId = e

/-- The response was committed in the run, and its event has not been pruned since. -/
def CommittedIn (history : SystemHistory) (c : ConnectionId) (e : EventId) (json : String)
    (t : UnixTimestamp) : Prop :=
  ∃ later event earlier, history = later ++ event :: earlier ∧ Commits c e json t event ∧
    ∀ mark ∈ ledgerHistory later, ¬ Prunes e mark

/-- An event of the connection was answered at `t` with a result. -/
def UsedAt (x : Crates) (history : SystemHistory) (c : ConnectionId) (t : UnixTimestamp) : Prop :=
  ∃ e json response, CommittedIn history c e json t ∧ Carries x json response ∧ response.IsResult

/-- An event of the connection was answered at `t` with an error. -/
def RefusedAt (x : Crates) (history : SystemHistory) (c : ConnectionId) (t : UnixTimestamp) : Prop :=
  ∃ e json response, CommittedIn history c e json t ∧ Carries x json response ∧ response.IsError

/-- The connection's usage time is the greatest time at which it was answered with a
result, if there is one. -/
def ReflectsUse (x : Crates) (history : SystemHistory) (c : ConnectionId) (l : Ledger) : Prop :=
  ∃ last, l.lastCompletedEventAt c = .ok last ∧
    (∀ t, UsedAt x history c t → ∃ m, last = some m ∧ t ≤ m) ∧
      ∀ m, last = some m → UsedAt x history c m

/-- The row of a committed response. -/
structure CompletedRow (c : String) (json : String) (t : UnixTimestamp) (row : WakeEventRow) :
    Prop where
  connection : row.connectionId = c
  state : row.state = .terminal
  kind : row.terminalKind = some .completed
  json : row.responseEventJson = some json
  time : row.updatedAt = t

section Rows

variable {x : Crates} {l l' : Ledger} {lease : EventLease} {c : ConnectionId} {e : EventId}
  {json : String} {t : UnixTimestamp} {op : ClaimOp} {value : op.Value} {row : WakeEventRow}

theorem LedgerStep.committed (h : LedgerStep x l ⟨.claim op, .ok value⟩ l')
    (hop : op.commit = some (lease, c, json, t)) :
    ∃ row, l'.eventOf lease.eventId = some row ∧ CompletedRow c.value json t row := by
  obtain ⟨random, hrun⟩ := h.run_of_ok
  have hwritten : ∃ row method, row.connectionId = c.value ∧ OwnerWrite l l' lease t row
      { row with state := .terminal, claimToken := none, availableAt := none, updatedAt := t
                 terminalKind := some .completed, responseEventJson := some json
                 requestMethod := method } := by
    cases op with
    | completeEventForActiveConnection lease' c' revision json' now =>
      cases hop
      obtain ⟨-, row, hconnection, -, hwrite⟩ := completeForActive_ok hrun
      exact ⟨row, _, hconnection, hwrite⟩
    | completeNwcEventForActiveConnection lease' c' revision json' method now =>
      cases hop
      obtain ⟨-, row, hconnection, -, hwrite⟩ := completeForActive_ok hrun
      exact ⟨row, _, hconnection, hwrite⟩
    | _ => cases hop
  obtain ⟨row, method, hconnection, hwrite⟩ := hwritten
  have hevent := (owned_eq_true.mp hwrite.owned).1
  have hafter := (eventOf_replace (e := lease.eventId) hwrite.mem hevent (by rfl) hwrite.events).1
  exact ⟨_, hafter, hconnection, rfl, rfl, rfl, rfl⟩

theorem connectionId_ext {c c' : ConnectionId} (h : c.value = c'.value) : c = c' := by
  cases c
  cases c'
  cases h
  rfl

/-- What makes an open row count as completed. -/
theorem ClaimOp.commit_of_rewrite {now : UnixTimestamp} (howner : op.owner = some (lease, now))
    (hopen : row.state ≠ .terminal) (hterminal : (op.rewrite row).state = .terminal)
    (hkind : (op.rewrite row).terminalKind = some .completed) :
    (∃ c json t, op.commit = some (lease, c, json, t)) ∨
      ∃ json t, op = .completeEvent lease .completed json t := by
  cases op with
  | claimEvent e c revision time duration => cases howner
  | lastCompletedEventAt c => cases howner
  | pruneTerminal before rows => cases howner
  | acceptEventFreshness holder time => exact absurd hterminal hopen
  | renewLease holder time duration => exact absurd hterminal hopen
  | retryLater holder time delay => cases hterminal
  | completeEvent holder kind json time =>
    cases howner
    cases hkind
    exact Or.inr ⟨json, now, rfl⟩
  | completeEventForActiveConnection holder c revision json time =>
    cases howner
    exact Or.inl ⟨c, json, now, rfl⟩
  | completeNwcEventForActiveConnection holder c revision json method time =>
    cases howner
    exact Or.inl ⟨c, json, now, rfl⟩

/-- A terminal row only goes by being pruned. -/
theorem terminal_row_stays {history : LedgerHistory} (hrun : LedgerRun x l history l')
    (hrow : l.eventOf e = some row) (hterminal : row.state = .terminal)
    (hkept : ∀ mark ∈ history, ¬ Prunes e mark) : l'.eventOf e = some row := by
  induction hrun with
  | refl => exact hrow
  | @tail past a b call _ hstep ih =>
    have hbefore := ih fun mark hmark => hkept mark (List.mem_cons_of_mem _ hmark)
    have hevent := hstep.eventStep e
    rw [hbefore] at hevent
    generalize hafter : b.eventOf e = after at hevent
    cases hevent with
    | kept => rfl
    | resumed _ _ hlive => exact absurd hterminal hlive
    | owned howner heventId howned =>
      obtain ⟨-, hclaimed, -⟩ := owned_eq_true.mp howned
      rw [hterminal] at hclaimed
      cases hclaimed
    | @pruned before rows n =>
      have hpruned : Prunes e ⟨a, _, b⟩ := ⟨⟨before, rows, n, rfl⟩, by simp [hbefore], hafter⟩
      exact absurd hpruned (hkept _ List.mem_cons_self)

/-- Whether a row counts for the connection's usage. -/
def countsFor (c : ConnectionId) (r : WakeEventRow) : Bool :=
  r.connectionId == c.value && (r.state == .terminal && r.terminalKind == some .completed)

theorem countsFor_eq_true {r : WakeEventRow} : countsFor c r = true ↔
    r.connectionId = c.value ∧ r.state = .terminal ∧ r.terminalKind = some .completed := by
  simp [countsFor]

/-- The usage time is the greatest time of a row that counts. -/
theorem lastCompletedEventAt_spec : ∃ last, l.lastCompletedEventAt c = .ok last ∧
    (∀ r ∈ l.wakeEvents, countsFor c r = true → ∃ m, last = some m ∧ r.updatedAt ≤ m) ∧
      ∀ m, last = some m → ∃ r ∈ l.wakeEvents, countsFor c r = true ∧ r.updatedAt = m := by
  refine ⟨_, rfl, ?_, ?_⟩
  · intro r hr hcounts
    have hmem : r.updatedAt ∈ (l.wakeEvents.select (countsFor c)).map (·.updatedAt) := by
      apply List.mem_map_of_mem
      exact Table.mem_select.mpr ⟨hr, hcounts⟩
    obtain ⟨m, hm⟩ := Option.isSome_iff_exists.mp (List.isSome_max?_of_mem hmem)
    exact ⟨m, hm, (List.max?_eq_some_iff.mp hm).2 _ hmem⟩
  · intro m hm
    obtain ⟨r, hr, htime⟩ := List.mem_map.mp (List.max?_mem hm)
    obtain ⟨hmem, hcounts⟩ := Table.mem_select.mp hr
    exact ⟨r, hmem, hcounts, htime⟩

end Rows

section Runs

variable {x : Crates} {outside : HostCall → Prop} {w : SystemWorld}
  {history later earlier : SystemHistory} {event : Event SystemWorld SystemLabel}
  {c : ConnectionId} {e : EventId} {json : String} {t : UnixTimestamp}

/-- A commit is made by an execution, and what it commits is a response. -/
theorem Commits.answers (h : Commits c e json t event) (houtside : ClaimsByExecutions outside)
    (hrun : SystemRun x outside .empty (later ++ event :: earlier) w) : Answers x json := by
  obtain ⟨op, value, lease, hcall, hcommit, -⟩ := h
  obtain ⟨-, hstep, -⟩ := hrun.split
  have howner : op.owner = none → ∃ e c revision now duration,
      op = .claimEvent e c revision now duration := by
    intro hnone
    cases op <;> cases hcommit <;> cases hnone
  obtain ⟨i, hlabel⟩ := houtside.act hstep hcall howner
  have hguard := guard_of_act Job.answerGuard hrun hlabel
  cases op with
  | completeEventForActiveConnection lease' c' revision json' now =>
    cases hcommit
    exact hguard
  | completeNwcEventForActiveConnection lease' c' revision json' method now =>
    cases hcommit
    exact hguard
  | _ => cases hcommit

theorem CommittedIn.answers (h : CommittedIn history c e json t)
    (houtside : ClaimsByExecutions outside) (hrun : SystemRun x outside .empty history w) :
    Answers x json := by
  obtain ⟨later, event, earlier, rfl, hcommits, -⟩ := h
  exact hcommits.answers houtside hrun

/-- What is committed and not pruned is in the ledger. -/
theorem CommittedIn.completed (h : CommittedIn history c e json t)
    (hrun : SystemRun x outside .empty history w) :
    ∃ row ∈ w.shared.wakeEvents, CompletedRow c.value json t row := by
  obtain ⟨later, event, earlier, rfl, ⟨op, value, lease, hcall, hcommit, rfl⟩, hkept⟩ := h
  obtain ⟨-, hstep, hafter⟩ := hrun.split
  obtain ⟨call, hcall', hledger⟩ | ⟨hnone, -⟩ := SystemStep.ledger hstep
  · rw [hcall, Option.some.injEq] at hcall'
    subst hcall'
    obtain ⟨row, hrow, hcompleted⟩ := hledger.committed hcommit
    have hstays := terminal_row_stays (ledgerRun_of_run hafter) hrow hcompleted.state hkept
    exact ⟨row, (eventOf_eq_some.mp hstays).1, hcompleted⟩
  · rw [hcall] at hnone
    cases hnone

/-- A commit stays in the history as long as its row is there. -/
theorem CommittedIn.cons (h : CommittedIn history c e json t)
    (hrow : event.after.shared.eventOf e ≠ none) : CommittedIn (event :: history) c e json t := by
  obtain ⟨later, commit, earlier, rfl, hcommits, hkept⟩ := h
  refine ⟨event :: later, commit, earlier, rfl, hcommits, ?_⟩
  intro mark hmark hprunes
  rw [← List.singleton_append] at hmark
  simp only [ledgerHistory, List.filterMap_append, List.mem_append] at hmark
  rcases hmark with hnew | hold
  · obtain ⟨event', hevent', hprojected⟩ := List.mem_filterMap.mp hnew
    obtain rfl := List.mem_singleton.mp hevent'
    obtain ⟨call, -, rfl⟩ := Option.map_eq_some_iff.mp hprojected
    exact hrow hprunes.2.2
  · exact hkept mark hold hprunes

/-- What counts as usage in the ledger was committed in the run. -/
theorem committed_of_row (hrun : SystemRun x outside .empty history w)
    (houtside : ClaimsByExecutions outside) :
    ∀ e row, w.shared.eventOf e = some row → row.state = .terminal →
      row.terminalKind = some .completed → ∃ json, row.responseEventJson = some json ∧
        ∀ c : ConnectionId, row.connectionId = c.value → CommittedIn history c e json row.updatedAt := by
  induction hrun with
  | refl =>
    intro e row hrow
    cases hrow
  | @tail past a b label hpast hstep ih =>
    intro e row hrow hterminal hkind
    have hpresent : b.shared.eventOf e ≠ none := by
      rw [hrow]
      nofun
    have hkept : a.shared.eventOf e = some row → ∃ json, row.responseEventJson = some json ∧
        ∀ c : ConnectionId, row.connectionId = c.value →
          CommittedIn (⟨a, label, b⟩ :: past) c e json row.updatedAt := by
      intro hbefore
      obtain ⟨json, hjson, hcommitted⟩ := ih e row hbefore hterminal hkind
      exact ⟨json, hjson, fun c hc => (hcommitted c hc).cons hpresent⟩
    obtain ⟨call, hcall, hledger⟩ | ⟨-, hsame⟩ := SystemStep.ledger hstep
    · have hevent := hledger.eventStep e
      rw [hrow] at hevent
      generalize hbefore : a.shared.eventOf e = before at hevent
      cases hevent with
      | kept => exact hkept hbefore
      | opened => cases hterminal
      | resumed => cases hterminal
      | @owned op value lease now row₀ howner heventId howned =>
        subst heventId
        obtain ⟨-, hclaimed, -⟩ := owned_eq_true.mp howned
        have hopen : row₀.state ≠ .terminal := by
          rw [hclaimed]
          nofun
        rcases ClaimOp.commit_of_rewrite howner hopen hterminal hkind with
          ⟨c', json, t, hcommit⟩ | ⟨json, t, rfl⟩
        · obtain ⟨row', hrow', hcompleted⟩ := hledger.committed hcommit
          rw [hrow, Option.some.injEq] at hrow'
          subst hrow'
          refine ⟨json, hcompleted.json, fun c hc => ?_⟩
          obtain rfl : c' = c := connectionId_ext (hcompleted.connection.symm.trans hc)
          rw [hcompleted.time]
          refine ⟨[], _, past, rfl, ⟨op, value, lease, hcall, hcommit, rfl⟩, ?_⟩
          intro mark hmark
          cases hmark
        · obtain ⟨i, hlabel⟩ := houtside.act hstep hcall nofun
          have hrun := hpast.tail hstep
          rw [← List.nil_append (_ :: past)] at hrun
          exact absurd rfl (guard_of_act Job.answerGuard hrun hlabel)
    · exact hkept (by rw [← hsame]; exact hrow)

end Runs

/-- Usage time. In every state of a run the usage time of a connection is that of its
latest result, or absent when there is none, if and only if no error response of the
connection is later than all its results; so it always is in a run that commits no error
responses for the connection. -/
theorem usage_reflects_results_iff {x : Crates} {outside : HostCall → Prop} {w : SystemWorld}
    {history : SystemHistory} (c : ConnectionId) (hrun : SystemRun x outside .empty history w)
    (houtside : ClaimsByExecutions outside) :
    (ReflectsUse x history c w.shared ↔
        ∀ t, RefusedAt x history c t → ∃ t', UsedAt x history c t' ∧ t ≤ t') ∧
      ((∀ event ∈ history, ∀ e json t response, Commits c e json t event →
          Carries x json response → ¬ response.IsError) →
        ReflectsUse x history c w.shared) := by
  obtain ⟨last, hlast, hgreatest, hattained⟩ := lastCompletedEventAt_spec (l := w.shared) (c := c)
  have hcovers : ∀ e json t, CommittedIn history c e json t → ∃ m, last = some m ∧ t ≤ m := by
    intro e json t hcommitted
    obtain ⟨row, hmem, hrow⟩ := hcommitted.completed hrun
    rw [← hrow.time]
    exact hgreatest row hmem (countsFor_eq_true.mpr ⟨hrow.connection, hrow.state, hrow.kind⟩)
  have hanswered : ∀ m, last = some m → UsedAt x history c m ∨ RefusedAt x history c m := by
    intro m hm
    obtain ⟨row, hmem, hcounts, rfl⟩ := hattained m hm
    obtain ⟨hconnection, hstate, hkind⟩ := countsFor_eq_true.mp hcounts
    obtain ⟨json, -, hcommitted⟩ := committed_of_row hrun houtside row.eventId row
      (eventOf_eq_some.mpr ⟨hmem, rfl⟩) hstate hkind
    have hin := hcommitted c hconnection
    obtain ⟨response, hcarries, hresult | herror⟩ := hin.answers houtside hrun
    · exact Or.inl ⟨_, _, response, hin, hcarries, hresult⟩
    · exact Or.inr ⟨_, _, response, hin, hcarries, herror⟩
  have hiff : ReflectsUse x history c w.shared ↔
      ∀ t, RefusedAt x history c t → ∃ t', UsedAt x history c t' ∧ t ≤ t' := by
    constructor
    · rintro ⟨last', hlast', -, hused⟩ t ⟨e, json, -, hcommitted, -⟩
      rw [hlast, Except.ok.injEq] at hlast'
      subst hlast'
      obtain ⟨m, hm, hle⟩ := hcovers e json t hcommitted
      exact ⟨m, hused m hm, hle⟩
    · intro hresults
      refine ⟨last, hlast, ?_, ?_⟩
      · rintro t ⟨e, json, -, hcommitted, -⟩
        exact hcovers e json t hcommitted
      · intro m hm
        rcases hanswered m hm with hused | hrefused
        · exact hused
        · obtain ⟨t', hused, hle⟩ := hresults m hrefused
          obtain ⟨e, json, response, hcommitted, -, -⟩ := id hused
          obtain ⟨m', hm', hle'⟩ := hcovers e json t' hcommitted
          rw [hm, Option.some.injEq] at hm'
          subst hm'
          rwa [Nat.le_antisymm hle hle']
  refine ⟨hiff, fun hnone => hiff.mpr ?_⟩
  rintro t ⟨e, json, response, ⟨later, event, earlier, rfl, hcommits, -⟩, hcarries, herror⟩
  exact absurd herror (hnone event (by simp) e json t response hcommits hcarries)

namespace Sample

def deniedCiphertext : String :=
  "AgAAAAAAAAAAAAAAAAAAAAAAAAAAAAAAAAAAAAAAAAAABUb65HzwsqLqJslB8Q+KquktEjc1216SMzizzHb1" ++
  "E1wWc8Kh58L8rTYDZ/tPwV14U+PHZZvxcrQBW1trJkm4o9ST9CwcUVU8LDTLpERwYEnnZHuh0CI9R/YUTNOX" ++
  "jClF8rMJT4lKq1ZEztGC7GQHwT9VGjnMJQ+++GInEIBmUIJAsCi+8I4NIjkh7Kiitn4QOz7XKaNfGkmnP/FE" ++
  "3Yy7tMPE"

/-- A lookup over a connection that only allows payments. -/
def deniedResponse : Response :=
  ⟨.lookupInvoice, some ⟨.restricted, "method is not authorized"⟩, none⟩

def deniedResponseJson : String :=
  "\x7b\"result_type\":\"lookup_invoice\",\"error\":\x7b\"code\":\"RESTRICTED\"," ++
    "\"message\":\"method is not authorized\"\x7d\x7d"

def deniedEventJson : String :=
  "\x7b\"id\":\"4e5be4dc0701c7855b00759b2bdc9095daab8293ca860a6b956eb9314d15ffcc\"," ++
    "\"pubkey\":\"" ++ walletServiceHex ++ "\",\"created_at\":1010,\"kind\":23195,\"tags\":[[\"p\",\"" ++
    clientHex ++ "\"],[\"e\",\"97d616cf2859c6fd092bdd7829253020664bf64a31730cdc22aa5c754cfbe7a5" ++
    "\"]],\"content\":\"" ++ deniedCiphertext ++ "\",\"sig\":\"" ++
    "35182b9c2efa8aa3a302e6b8c0032b14194797d12d1f5bf861237270ec32e4a2" ++
    "23c1e9b14f3efb8a9a5af0446a8dc1d5eed15dde43667a47ecfae8788e9bfb81\"\x7d"

def deniedCrates : Crates :=
  { lookupCrates with
    encrypt := fun _ _ _ text _ => if text.isEmpty then none else some deniedCiphertext
    signEvent := fun _ _ _ => some deniedEventJson
    responseAsJson := fun response => if response = deniedResponse then deniedResponseJson else "" }

/-- The only request of the connection is refused. -/
def refused : List Move :=
  List.replicate 21 (Move.act 0 (payingScript 1010 1)) ++
    [Move.spawn (.wake wakePolicy (wakeFor lookupEvent lookupEventJson)),
     Move.outside (.registry (.insertConnection connection 1000)) (script 1000 0)]

def refusal : SystemHistory × SystemWorld :=
  play (Job.program deniedCrates) deniedCrates .empty refused

theorem refusal_run : SystemRun deniedCrates managing .empty refusal.1 refusal.2 := by
  apply managing_run
  · intro job _
    rfl
  · intro op host hop
    simp only [refused, List.mem_append, List.mem_cons, List.mem_replicate, List.not_mem_nil,
      Move.outside.injEq, reduceCtorEq, and_false, or_false, false_or] at hop
    exact ⟨_, hop.1⟩

theorem deniedCrates_carries {json : String} {response : Response}
    (h : Carries deniedCrates json response) : response = deniedResponse := by
  obtain ⟨v, secret, createdAt, nonce, hbuilt⟩ := h
  simp only [ValidatedNwcEvent.buildResponseEvent, Fallible.bind_eq_ok, Fallible.okOr_eq_ok] at hbuilt
  obtain ⟨-, -, -, -, -, -, encrypted, hencrypted, -⟩ := hbuilt
  by_contra hother
  simp [deniedCrates, hother] at hencrypted

theorem deniedCrates_responsesReadable : deniedCrates.ResponsesReadable := by
  intro json response response' h h'
  rw [deniedCrates_carries h, deniedCrates_carries h']

/-- A response to the first lookup is committed at this step. -/
def commitsLookup : SystemLabel → Bool
  | .act _ ⟨.ledger (.claim (.completeNwcEventForActiveConnection lease c _ _ _ now)), .ok _⟩ =>
    lease.eventId == lookupEvent.id && c == connectionId && now == 1010
  | _ => false

theorem commitsLookup_commits {w : SystemWorld} {later earlier : SystemHistory}
    {event : Event SystemWorld SystemLabel}
    (hrun : SystemRun deniedCrates managing .empty (later ++ event :: earlier) w)
    (h : commitsLookup event.label = true) :
    ∃ json, Commits connectionId lookupEvent.id json 1010 event ∧
      Carries deniedCrates json deniedResponse := by
  unfold commitsLookup at h
  split at h
  · rename_i i lease c revision json method now value hlabel
    simp only [Bool.and_eq_true, beq_iff_eq] at h
    obtain ⟨⟨hevent, rfl⟩, hnow⟩ := h
    obtain rfl : now = 1010 := hnow
    obtain ⟨response, hcarries⟩ := committed_carries hrun hlabel
    obtain rfl := deniedCrates_carries hcarries
    exact ⟨json, ⟨_, value, lease, by rw [hlabel]; rfl, rfl, hevent⟩, hcarries⟩
  · cases h

theorem refusal_eq : refusal =
    play (quickJob deniedCrates lookupEvent lookupEventJson) deniedCrates .empty refused := by
  apply play_congr
  intro job hjob
  obtain rfl : job = .wake wakePolicy (wakeFor lookupEvent lookupEventJson) := by
    simpa [refused] using hjob
  exact quickJob_eq (by decide) (validate_lookup rfl (by simp [deniedCrates, lookupCrates]) rfl)

theorem refusal_committed :
    (refusal.1.head?.any fun event => commitsLookup event.label) = true ∧
      refusal.2.shared.lastCompletedEventAt connectionId = .ok (some 1010) := by
  rw [refusal_eq]
  decide +kernel

theorem refusal_refusedAt : RefusedAt deniedCrates refusal.1 connectionId 1010 := by
  have hcommitted := refusal_committed.1
  have hrun := refusal_run
  cases hhistory : refusal.1 with
  | nil =>
    rw [hhistory] at hcommitted
    cases hcommitted
  | cons event earlier =>
    rw [hhistory] at hcommitted hrun
    rw [← List.nil_append (event :: earlier)] at hrun ⊢
    obtain ⟨json, hcommits, hcarries⟩ := commitsLookup_commits hrun hcommitted
    refine ⟨lookupEvent.id, json, deniedResponse, ⟨[], event, earlier, rfl, hcommits, ?_⟩,
      hcarries, rfl, rfl⟩
    intro mark hmark
    cases hmark

end Sample

/-- A refused request counts as use of its connection. -/
theorem refused_request_counts_as_use :
    ¬ ∀ (x : Crates) (outside : HostCall → Prop) (w : SystemWorld) (history : SystemHistory)
      (c : ConnectionId), x.ResponsesReadable → ClaimsByExecutions outside →
        SystemRun x outside .empty history w → ReflectsUse x history c w.shared := by
  intro hclaim
  obtain ⟨last, hlast, -, hused⟩ := hclaim _ _ _ _ Sample.connectionId
    Sample.deniedCrates_responsesReadable Sample.managing_claims Sample.refusal_run
  rw [Sample.refusal_committed.2, Except.ok.injEq] at hlast
  subst hlast
  obtain ⟨e, json, response, -, hcarries, hresult⟩ := hused 1010 rfl
  rw [Sample.deniedCrates_carries hcarries] at hresult
  cases hresult.1

/-- The usage time of the refused connection is no result's; that of a connection whose lookup
was answered is. -/
theorem usage_reflects_results_iff_refused :
    (¬ ReflectsUse Sample.deniedCrates Sample.refusal.1 Sample.connectionId
        Sample.refusal.2.shared ∧
      RefusedAt Sample.deniedCrates Sample.refusal.1 Sample.connectionId 1010) ∧
    ReflectsUse Sample.lookupCrates Sample.lookup.1 Sample.connectionId Sample.lookup.2.shared ∧
      Sample.lookup.2.shared.lastCompletedEventAt Sample.connectionId = .ok (some 1010) ∧
      UsedAt Sample.lookupCrates Sample.lookup.1 Sample.connectionId 1010 := by
  constructor
  · have hiff := (usage_reflects_results_iff Sample.connectionId Sample.refusal_run
      Sample.managing_claims).1
    refine ⟨?_, Sample.refusal_refusedAt⟩
    intro hreflects
    obtain ⟨t, ⟨e, json, response, -, hcarries, hresult⟩, -⟩ :=
      hiff.mp hreflects 1010 Sample.refusal_refusedAt
    rw [Sample.deniedCrates_carries hcarries] at hresult
    cases hresult.1
  · have hmet := (usage_reflects_results_iff Sample.connectionId Sample.lookup_run
      Sample.managing_claims).2
    have hreflects : ReflectsUse Sample.lookupCrates Sample.lookup.1 Sample.connectionId
        Sample.lookup.2.shared := by
      apply hmet
      intro event _ e json t response _ hcarries herror
      rw [Sample.lookupCrates_carries hcarries] at herror
      cases herror.1
    have hlast := Sample.lookup_answered.2
    refine ⟨hreflects, hlast, ?_⟩
    obtain ⟨last, hlast', -, hused⟩ := hreflects
    rw [hlast, Except.ok.injEq] at hlast'
    exact hused 1010 hlast'.symm

end NwcMobile
