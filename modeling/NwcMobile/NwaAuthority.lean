import NwcMobile.ApplicationMetadata

/-!
The authority an accepted request can ask for, and the inputs that mean the same
request: every bound of the parse policy holds of what is accepted, and the order
of the query parameters matters only among relays.
-/

namespace NwcMobile

open Fallible Nwa

/-- What the URL of an accepted request does not carry. -/
structure ParsedUrl.Clean (parts : UrlParts) (url : ParsedUrl) : Prop where
  noUserinfo : url.username.isEmpty = true ∧ url.password = none
  noFragment : url.fragment = none
  noSecrets : ∀ pair ∈ parts.queryPairs url,
    pair.1 ∉ ["secret", "nwc_uri", "value", "pubkey"]
  noRepeats : ((parts.queryPairs url).filter fun pair => pair.1 != "relay").Pairwise
    fun first second => first.1 ≠ second.1

/-- A canonical secure relay URL. -/
def SecureRelay (x : Crates) (relay : String) : Prop :=
  ∃ value url, x.parseUrl value = some url ∧ url.serialized = relay ∧ url.scheme = "wss" ∧
    url.hostStr.isSome = true ∧ url.username.isEmpty = true ∧ url.password = none ∧
    url.fragment = none

/-- The authority of a request lies within the parse policy. -/
structure NwaRequest.WithinPolicy (x : Crates) (query : NwaQuery) (now : UnixTimestamp)
    (policy : NwaParsePolicy) (request : NwaRequest) : Prop where
  relayCount : 1 ≤ request.relays.length ∧ request.relays.length ≤ policy.maximumRelays
  distinct : request.relays.Nodup
  secure : ∀ relay ∈ request.relays, SecureRelay x relay
  expiry : ∀ expiresAt ∈ request.expiresAt,
    now < expiresAt ∧ expiresAt ≤ now + policy.maximumLifetime.asSecs
  wholeSats : match query.value "max_amount" with
    | none => request.requestedPolicy.budget.limitSat = 0
    | some raw => parseUnsigned (2 ^ 64) raw =
        some (request.requestedPolicy.budget.limitSat * 1000)
  limit : request.requestedPolicy.budget.limitSat ≤ policy.maximumBudgetSat
  feeReserve : request.requestedPolicy.budget.feePolicy =
    .countTowardBudget (maximumMobileFeeSat request.requestedPolicy.budget.limitSat)
  methods : request.requestedPolicy.methods.Nonempty
  payable : .payInvoice ∈ request.requestedPolicy.methods →
    maximumMobileFeeSat request.requestedPolicy.budget.limitSat <
      request.requestedPolicy.budget.limitSat
  callback : ∀ callback ∈ request.callback, query.value "state" = some callback.state ∧
    32 ≤ callback.state.utf8ByteSize ∧ callback.state.utf8ByteSize ≤ 256

/-- Two queries with the same parameters, and the relays among them in one order. -/
structure NwaQuery.Reordered (query other : NwaQuery) : Prop where
  perm : query.pairs.Perm other.pairs
  relays : query.pairs.filter (fun pair => pair.1 == "relay") =
    other.pairs.filter fun pair => pair.1 == "relay"

/-- Two inputs that differ in the order of their query parameters. -/
structure Nwa.ReorderedInput (x : Crates) (parts : UrlParts) (input other : String) : Prop where
  length : input.utf8ByteSize = other.utf8ByteSize
  parsed : (x.parseUrl input = none ∧ x.parseUrl other = none) ∨
    ∃ url otherUrl, x.parseUrl input = some url ∧ x.parseUrl other = some otherUrl ∧
      url.scheme = otherUrl.scheme ∧ url.hostStr = otherUrl.hostStr ∧
      url.username = otherUrl.username ∧ url.password = otherUrl.password ∧
      url.fragment = otherUrl.fragment ∧
      NwaQuery.Reordered ⟨parts.queryPairs url⟩ ⟨parts.queryPairs otherUrl⟩

section Queries

variable {query other : NwaQuery} {name : String}

theorem NwaQuery.value_eq_none (h : query.value name = none) :
    ∀ pair ∈ query.pairs, pair.1 ≠ name := by
  simpa [NwaQuery.value] using h

/-- Whether a parameter other than a relay is given twice. -/
def NwaQuery.repeats (query : NwaQuery) : Bool :=
  query.pairs.any fun pair => pair.1 != "relay" && decide (1 < (query.values pair.1).length)

theorem NwaQuery.parse_eq {parts : UrlParts} {url : ParsedUrl} :
    NwaQuery.parse parts url = if NwaQuery.repeats ⟨parts.queryPairs url⟩ then
      .error .duplicateParameter else .ok ⟨parts.queryPairs url⟩ := by
  cases hrepeats : NwaQuery.repeats ⟨parts.queryPairs url⟩ with
  | false =>
    unfold NwaQuery.repeats at hrepeats
    simp [NwaQuery.parse, ensure, hrepeats, pure, Except.pure]
  | true =>
    unfold NwaQuery.repeats at hrepeats
    simp [NwaQuery.parse, ensure, hrepeats]

theorem NwaQuery.length_values (h : query.repeats = false) (hname : name ≠ "relay") :
    (query.values name).length ≤ 1 := by
  by_contra hmany
  have hpair : ∃ pair ∈ query.pairs, pair.1 = name := by
    by_contra hnone
    have hempty : query.pairs.filter (fun pair => pair.1 == name) = [] := by
      rw [List.filter_eq_nil_iff]
      intro pair hpair hsame
      exact hnone ⟨pair, hpair, by simpa using hsame⟩
    simp [NwaQuery.values, hempty] at hmany
  obtain ⟨pair, hpair, rfl⟩ := hpair
  have hsome : query.repeats = true := by
    rw [NwaQuery.repeats, List.any_eq_true]
    refine ⟨pair, hpair, ?_⟩
    simp only [Bool.and_eq_true, bne_iff_ne, decide_eq_true_eq]
    exact ⟨hname, by omega⟩
  rw [h] at hsome
  cases hsome

/-- Names given at most once are pairwise distinct. -/
theorem distinct_of_count {pairs : List (String × String)}
    (h : ∀ name, name ≠ "relay" → (pairs.filter fun pair => pair.1 == name).length ≤ 1) :
    (pairs.filter fun pair => pair.1 != "relay").Pairwise
      fun first second => first.1 ≠ second.1 := by
  induction pairs with
  | nil => exact List.Pairwise.nil
  | cons pair pairs ih =>
    have hrest : ∀ name, name ≠ "relay" →
        (pairs.filter fun pair => pair.1 == name).length ≤ 1 := by
      intro name hname
      have hsub := (List.sublist_cons_self pair pairs).filter fun pair => pair.1 == name
      exact hsub.length_le.trans (h name hname)
    by_cases hrelay : pair.1 = "relay"
    · rw [List.filter_cons_of_neg (by simp [hrelay])]
      exact ih hrest
    · rw [List.filter_cons_of_pos (by simp [hrelay]), List.pairwise_cons]
      refine ⟨?_, ih hrest⟩
      intro second hsecond hsame
      have hcount := h pair.1 hrelay
      rw [List.filter_cons_of_pos (by simp), List.length_cons] at hcount
      have hmem : second ∈ pairs.filter fun other => other.1 == pair.1 := by
        rw [List.mem_filter]
        exact ⟨List.mem_of_mem_filter hsecond, by simp [hsame]⟩
      have hpos := List.length_pos_of_mem hmem
      omega

theorem NwaQuery.distinct_of_not_repeats (h : query.repeats = false) :
    (query.pairs.filter fun pair => pair.1 != "relay").Pairwise
      fun first second => first.1 ≠ second.1 := by
  apply distinct_of_count
  intro name hname
  have hvalues := query.length_values h hname
  rwa [NwaQuery.values, List.length_map] at hvalues

theorem NwaQuery.value_eq_head : query.value name = (query.values name).head? := by
  rw [NwaQuery.value, NwaQuery.values, List.head?_map, List.head?_filter]

theorem NwaQuery.Reordered.values (h : query.Reordered other) :
    query.values "relay" = other.values "relay" :=
  congrArg (List.map Prod.snd) h.relays

theorem NwaQuery.Reordered.values_perm (h : query.Reordered other) (name : String) :
    (query.values name).Perm (other.values name) :=
  (h.perm.filter _).map Prod.snd

theorem NwaQuery.Reordered.repeats (h : query.Reordered other) :
    query.repeats = other.repeats := by
  have hlength : ∀ name, (query.values name).length = (other.values name).length :=
    fun name => (h.values_perm name).length_eq
  simp only [NwaQuery.repeats, hlength]
  exact h.perm.any_eq

/-- A parameter that is not repeated has one value, whatever the order. -/
theorem NwaQuery.Reordered.value (h : query.Reordered other) (hrepeats : query.repeats = false)
    (hname : name ≠ "relay") : query.value name = other.value name := by
  have hperm := h.values_perm name
  have hlength := query.length_values hrepeats hname
  rw [NwaQuery.value_eq_head, NwaQuery.value_eq_head]
  cases hvalues : query.values name with
  | nil =>
    rw [hvalues, List.nil_perm] at hperm
    rw [hperm]
  | cons value rest =>
    rw [hvalues, List.length_cons] at hlength
    have hnil : rest = [] := List.eq_nil_of_length_eq_zero (by omega)
    rw [hvalues, hnil, List.singleton_perm] at hperm
    rw [hnil, ← hperm]

end Queries

section Distinct

variable {α : Type} [BEq α]

theorem eraseDups_sublist (xs : List α) : xs.eraseDups.Sublist xs := by
  match xs with
  | [] => exact List.Sublist.refl _
  | x :: xs =>
    rw [List.eraseDups_cons]
    exact ((eraseDups_sublist _).trans List.filter_sublist).cons_cons x
termination_by xs.length
decreasing_by exact Nat.lt_succ_of_le (List.length_filter_le _ _)

theorem nodup_eraseDups [LawfulBEq α] (xs : List α) : xs.eraseDups.Nodup := by
  match xs with
  | [] => exact List.nodup_nil
  | x :: xs =>
    rw [List.eraseDups_cons, List.nodup_cons]
    refine ⟨?_, nodup_eraseDups _⟩
    rw [List.mem_eraseDups, List.mem_filter]
    simp
termination_by xs.length
decreasing_by exact Nat.lt_succ_of_le (List.length_filter_le _ _)

end Distinct

section Bounds

variable {x : Crates} {parts : UrlParts} {query : NwaQuery} {policy : NwaParsePolicy}
  {now : UnixTimestamp} {input : String} {random : Option (BitVec 128)} {request : NwaRequest}

theorem parseRelay_secure {value relay : String} (h : parseRelay x value = .ok relay) :
    SecureRelay x relay := by
  obtain ⟨url, hurl, rfl, hchecks⟩ := parseRelay_ok h
  refine ⟨value, url, hurl, rfl, ?_⟩
  simp only [Bool.or_eq_false_iff, bne_eq_false_iff_eq, Bool.not_eq_false',
    Option.isNone_eq_false_iff, Option.isSome_eq_false_iff, Option.isNone_iff_eq_none] at hchecks
  obtain ⟨⟨⟨⟨hscheme, hhost⟩, hname⟩, hpassword⟩, hfragment⟩ := hchecks
  exact ⟨hscheme, hhost, hname, hpassword, hfragment⟩

theorem parseRelays_bounds {relays : List String} (h : parseRelays x query policy = .ok relays) :
    1 ≤ relays.length ∧ relays.length ≤ policy.maximumRelays ∧ relays.Nodup := by
  simp only [parseRelays, bind_eq_ok, ensure_eq_ok, pure_eq_ok, Bool.not_eq_true',
    Bool.or_eq_false_iff, decide_eq_false_iff_not] at h
  obtain ⟨-, -, -, hcount, all, hall, -, hsome, rfl⟩ := h
  have hlength := (eraseDups_sublist all).length_le
  have hvalues := length_of_mapM hall
  refine ⟨?_, by omega, nodup_eraseDups all⟩
  rw [List.isEmpty_eq_false_iff] at hsome
  exact List.length_pos_of_ne_nil hsome

theorem parseExpiration_bounds {expiresAt : Option UnixTimestamp}
    (h : parseExpiration query now policy = .ok expiresAt) :
    ∀ time ∈ expiresAt, now < time ∧ time ≤ now + policy.maximumLifetime.asSecs := by
  unfold parseExpiration at h
  split at h
  · cases h
    nofun
  · simp only [bind_eq_ok, ensure_eq_ok, pure_eq_ok, Bool.not_eq_true',
      decide_eq_false_iff_not] at h
    obtain ⟨time, -, -, hfuture, -, hlifetime, rfl⟩ := h
    intro taken htaken
    cases htaken
    exact ⟨Nat.not_le.mp hfuture, Nat.sub_le_iff_le_add'.mp (Nat.not_lt.mp hlifetime)⟩

theorem parseBudget_bounds {budget : BudgetPolicy} (h : parseBudget query policy = .ok budget) :
    (match query.value "max_amount" with
      | none => budget.limitSat = 0
      | some raw => parseUnsigned (2 ^ 64) raw = some (budget.limitSat * 1000)) ∧
      budget.limitSat ≤ policy.maximumBudgetSat ∧
      budget.feePolicy = .countTowardBudget (maximumMobileFeeSat budget.limitSat) := by
  simp only [parseBudget, bind_eq_ok, ensure_eq_ok, pure_eq_ok, Bool.not_eq_true',
    decide_eq_false_iff_not] at h
  obtain ⟨limit, hlimit, -, hbound, interval, -, rfl⟩ := h
  refine ⟨?_, Nat.not_lt.mp hbound, rfl⟩
  cases hraw : query.value "max_amount" with
  | none =>
    simp only [budgetSat, hraw] at hlimit
    cases hlimit
    rfl
  | some raw =>
    simp only [budgetSat, hraw, bind_eq_ok, okOr_eq_ok, ensure_eq_ok, pure_eq_ok,
      beq_iff_eq] at hlimit
    obtain ⟨amountMsat, hamount, -, hwhole, rfl⟩ := hlimit
    simp only [hamount, Nat.div_mul_cancel (Nat.dvd_of_mod_eq_zero hwhole)]

theorem parseMethods_some {methods : List NwcMethod} (h : parseMethods query = .ok methods) :
    methods ≠ [] := by
  unfold parseMethods at h
  split at h
  · cases h
    simp
  · simp only [bind_eq_ok, pure_eq_ok] at h
    obtain ⟨named, -, rfl⟩ := h
    cases named with
    | nil => simp
    | cons method rest => simp [List.eraseDups_cons]

theorem parseCallback_bounds {callback : Option NwaCallback}
    (h : parseCallback x parts query = .ok callback) :
    ∀ taken ∈ callback, query.value "state" = some taken.state ∧
      32 ≤ taken.state.utf8ByteSize ∧ taken.state.utf8ByteSize ≤ 256 := by
  unfold parseCallback at h
  split at h
  · simp only [bind_eq_ok, pure_eq_ok] at h
    obtain ⟨-, -, rfl⟩ := h
    intro taken htaken
    cases htaken
  · simp only [bind_eq_ok, okOr_eq_ok, ensure_eq_ok, pure_eq_ok, Bool.not_eq_true',
      Bool.or_eq_false_iff, decide_eq_false_iff_not] at h
    obtain ⟨-, -, state, hstate, -, ⟨⟨hshort, hlong⟩, -⟩, url, -, host, -, -, -, rfl⟩ := h
    intro taken htaken
    cases htaken
    exact ⟨hstate, Nat.not_lt.mp hshort, Nat.not_lt.mp hlong⟩

/-- Every check an accepted request has passed. -/
theorem NwaRequest.parse_checks
    (h : NwaRequest.parse x parts random input now policy = .ok request) :
    ∃ url, x.parseUrl input = some url ∧ url.Clean parts ∧
      parseRelays x ⟨parts.queryPairs url⟩ policy = .ok request.relays ∧
      parseExpiration ⟨parts.queryPairs url⟩ now policy = .ok request.expiresAt ∧
      parseBudget ⟨parts.queryPairs url⟩ policy = .ok request.requestedPolicy.budget ∧
      parseCallback x parts ⟨parts.queryPairs url⟩ = .ok request.callback ∧
      ∃ methods, parseMethods ⟨parts.queryPairs url⟩ = .ok methods ∧
        request.requestedPolicy.methods = methods.toFinset ∧
        (.payInvoice ∈ methods → maximumMobileFeeSat request.requestedPolicy.budget.limitSat <
          request.requestedPolicy.budget.limitSat) := by
  simp only [NwaRequest.parse, NwaRequest.parseWithId, NwaQuery.parse_eq, bind_eq_ok, okOr_eq_ok,
    ensure_eq_ok, pure_eq_ok] at h
  obtain ⟨_, -, -, -, url, hurl, -, -, -, huser, -, hfragment, hex, -, -, -, client, -, query,
    hquery, -, -, -, hpubkey, -, -, -, -, -, hsecrets, relays, hrelays, expires, hexpires, budget,
    hbudget, methods, hmethods, -, hpayable, callback, hcallback, rfl⟩ := h
  split at hquery
  · cases hquery
  · rename_i hrepeats
    cases hquery
    refine ⟨url, hurl, ⟨?_, ?_, ?_, ?_⟩, hrelays, hexpires, hbudget, hcallback, methods, hmethods,
      rfl, ?_⟩
    · simpa using huser
    · simpa using hfragment
    · intro pair hpair hname
      simp only [Option.isNone_iff_eq_none, List.all_cons, List.all_nil, Bool.and_true,
        Bool.and_eq_true] at hpubkey hsecrets
      have hnamed : ∀ name, NwaQuery.value ⟨parts.queryPairs url⟩ name = none → pair.1 ≠ name :=
        fun name hnone => NwaQuery.value_eq_none hnone pair hpair
      simp only [List.mem_cons, List.not_mem_nil, or_false] at hname
      rcases hname with hname | hname | hname | hname
      · exact hnamed _ hsecrets.1 hname
      · exact hnamed _ hsecrets.2.1 hname
      · exact hnamed _ hsecrets.2.2 hname
      · exact hnamed _ hpubkey hname
    · exact NwaQuery.distinct_of_not_repeats (Bool.eq_false_iff.mpr hrepeats)
    · intro hpay
      simpa [hpay, ConnectionPolicy.new] using hpayable

theorem NwaRequest.parse_within
    (h : NwaRequest.parse x parts random input now policy = .ok request) :
    ∃ url, x.parseUrl input = some url ∧ url.Clean parts ∧
      request.WithinPolicy x ⟨parts.queryPairs url⟩ now policy := by
  obtain ⟨url, hurl, hclean, hrelays, hexpires, hbudget, hcallback, methods, hmethods, hset,
    hpayable⟩ := NwaRequest.parse_checks h
  obtain ⟨hsome, hcount, hdistinct⟩ := parseRelays_bounds hrelays
  obtain ⟨hamount, hlimit, hfee⟩ := parseBudget_bounds hbudget
  refine ⟨url, hurl, hclean, ⟨hsome, hcount⟩, hdistinct, ?_, parseExpiration_bounds hexpires,
    hamount, hlimit, hfee, ?_, ?_, parseCallback_bounds hcallback⟩
  · intro relay hrelay
    obtain ⟨value, -, hparsed⟩ := (parseRelays_ok hrelays).mp hrelay
    exact parseRelay_secure hparsed
  · rw [hset, List.toFinset_nonempty_iff]
    exact parseMethods_some hmethods
  · intro hpay
    apply hpayable
    rwa [hset, List.mem_toFinset] at hpay

end Bounds

section Order

variable {x : Crates} {parts : UrlParts} {query other : NwaQuery} {policy : NwaParsePolicy}
  {now : UnixTimestamp} {input otherInput : String}

/-- The identifier is all that differs between two readings of one input. -/
theorem NwaRequest.parseWithId_id (id otherId : BitVec 128) :
    NwaRequest.parseWithId x parts input now policy otherId =
      (NwaRequest.parseWithId x parts input now policy id).map fun request =>
        { request with id := otherId } := by
  simp only [NwaRequest.parseWithId, map_bind_eq]
  rfl

/-- Each part of a query is read by the names of its parameters alone. -/
theorem NwaQuery.Reordered.reads (x : Crates) (parts : UrlParts) (policy : NwaParsePolicy)
    (now : UnixTimestamp) (h : query.Reordered other) (hrepeats : query.repeats = false) :
    parseRelays x query policy = parseRelays x other policy ∧
      parseExpiration query now policy = parseExpiration other now policy ∧
      parseBudget query policy = parseBudget other policy ∧
      parseMethods query = parseMethods other ∧
      parseCallback x parts query = parseCallback x parts other ∧
      rawName query = rawName other := by
  have hvalue : ∀ name, name ≠ "relay" → query.value name = other.value name :=
    fun name hname => h.value hrepeats hname
  refine ⟨?_, ?_, ?_, ?_, ?_, ?_⟩
  · simp only [parseRelays, h.values]
  · simp only [parseExpiration, hvalue "expires_at" (by decide)]
  · simp only [parseBudget, budgetSat, hvalue "max_amount" (by decide),
      hvalue "budget_renewal" (by decide)]
  · simp only [parseMethods, hvalue "request_methods" (by decide)]
  · simp only [parseCallback, hvalue "return_to" (by decide), hvalue "state" (by decide)]
  · simp only [rawName, hvalue "name" (by decide), hvalue "appname" (by decide)]

/-- Inputs that differ in the order of their parameters are read to one request. -/
theorem NwaRequest.parseWithId_reordered (id : BitVec 128)
    (h : ReorderedInput x parts input otherInput) :
    NwaRequest.parseWithId x parts input now policy id =
      NwaRequest.parseWithId x parts otherInput now policy id := by
  unfold NwaRequest.parseWithId
  rw [h.length]
  rcases h.parsed with ⟨hurl, hother⟩ | ⟨url, otherUrl, hurl, hother, hscheme, hhost, huser,
    hpassword, hfragment, hquery⟩
  · rw [hurl, hother]
  · have hrepeats := hquery.repeats
    rw [hurl, hother]
    simp only [okOr, ok_bind, hscheme, hhost, huser, hpassword, hfragment, NwaQuery.parse_eq,
      ← hrepeats]
    cases hfound : NwaQuery.repeats ⟨parts.queryPairs url⟩ with
    | true => rfl
    | false =>
      obtain ⟨hrelays, hexpiration, hbudget, hmethods, hcallback, hname⟩ :=
        hquery.reads x parts policy now hfound
      have hvalue : ∀ name, name ≠ "relay" → NwaQuery.value ⟨parts.queryPairs url⟩ name =
          NwaQuery.value ⟨parts.queryPairs otherUrl⟩ name :=
        fun name hname => hquery.value hfound hname
      simp only [Bool.false_eq_true, if_false, ok_bind, hrelays, hexpiration, hbudget, hmethods,
        hcallback, hname, hvalue "version" (by decide), hvalue "pubkey" (by decide),
        hvalue "secret_mode" (by decide), hvalue "response_mode" (by decide),
        hvalue "icon" (by decide), hvalue "secret" (by decide), hvalue "nwc_uri" (by decide),
        hvalue "value" (by decide), List.all_cons, List.all_nil]

end Order

section Text

/-- An input from the part before its query and the parameters of the query. -/
def Nwa.queryInput (base : String) (params : List String) : String :=
  base ++ "?" ++ "&".intercalate params

/-- Text that a URL parser leaves in one parameter, whatever its place. -/
def Nwa.PlainParameter (param : String) : Prop :=
  ∀ c ∈ param.toList, c ≠ '&' ∧ c ≠ '#' ∧ isControl c = false ∧ isWhitespace c = false

/-- The query is decoded parameter by parameter, and the rest of the URL does not depend
on it. -/
def Crates.ReadsParameters (x : Crates) (parts : UrlParts)
    (decode : String → Option (String × String)) : Prop :=
  ∀ base params others, (∀ c ∈ base.toList, c ≠ '?' ∧ c ≠ '#') →
    (∀ param ∈ params ++ others, PlainParameter param) →
    (x.parseUrl (queryInput base params) = none ∧ x.parseUrl (queryInput base others) = none) ∨
    ∃ url otherUrl, x.parseUrl (queryInput base params) = some url ∧
      x.parseUrl (queryInput base others) = some otherUrl ∧
      url.scheme = otherUrl.scheme ∧ url.hostStr = otherUrl.hostStr ∧
      url.username = otherUrl.username ∧ url.password = otherUrl.password ∧
      url.fragment = otherUrl.fragment ∧ parts.queryPairs url = params.filterMap decode ∧
      parts.queryPairs otherUrl = others.filterMap decode

variable {x : Crates} {parts : UrlParts} {decode : String → Option (String × String)}
  {base : String} {params others : List String}

theorem utf8ByteSize_intercalate (params : List String) :
    ("&".intercalate params).utf8ByteSize =
      (params.map String.utf8ByteSize).sum + (params.length - 1) := by
  induction params with
  | nil => rfl
  | cons param params ih =>
    cases params with
    | nil => simp
    | cons next params =>
      rw [String.intercalate_cons_cons, String.utf8ByteSize_append, String.utf8ByteSize_append, ih]
      have hsep : "&".utf8ByteSize = 1 := by decide
      simp only [hsep, List.map_cons, List.sum_cons, List.length_cons]
      omega

/-- The text with its parameters in another order is the same input in another order. -/
theorem queryInput_reordered (hreads : x.ReadsParameters parts decode)
    (hbase : ∀ c ∈ base.toList, c ≠ '?' ∧ c ≠ '#')
    (hplain : ∀ param ∈ params, PlainParameter param) (hperm : params.Perm others)
    (hrelays : (params.filterMap decode).filter (fun pair => pair.1 == "relay") =
      (others.filterMap decode).filter fun pair => pair.1 == "relay") :
    ReorderedInput x parts (queryInput base params) (queryInput base others) := by
  constructor
  · simp only [queryInput, String.utf8ByteSize_append, utf8ByteSize_intercalate,
      (hperm.map _).sum_eq, hperm.length_eq]
  · have hboth : ∀ param ∈ params ++ others, PlainParameter param := by
      intro param hparam
      rw [List.mem_append] at hparam
      cases hparam with
      | inl hparam => exact hplain param hparam
      | inr hparam => exact hplain param (hperm.mem_iff.mpr hparam)
    rcases hreads base params others hbase hboth with hnone | ⟨url, otherUrl, hurl, hother, hscheme,
      hhost, huser, hpassword, hfragment, hpairs, hotherPairs⟩
    · exact Or.inl hnone
    · refine Or.inr ⟨url, otherUrl, hurl, hother, hscheme, hhost, huser, hpassword, hfragment, ?_, ?_⟩
      · rw [hpairs, hotherPairs]
        exact hperm.filterMap decode
      · rw [hpairs, hotherPairs]
        exact hrelays

end Text

/-- What is accepted lies within the policy, and the order of the parameters other than
relays changes nothing but the random identifier. -/
theorem nwa_parsing_bounds_authority (x : Crates) (parts : UrlParts) (input : String)
    (now : UnixTimestamp) (policy : NwaParsePolicy) :
    (∀ random request, NwaRequest.parse x parts random input now policy = .ok request →
      ∃ url, x.parseUrl input = some url ∧ url.Clean parts ∧
        request.WithinPolicy x ⟨parts.queryPairs url⟩ now policy) ∧
    ∀ other id otherId, ReorderedInput x parts input other →
      NwaRequest.parse x parts (some otherId) other now policy =
        (NwaRequest.parse x parts (some id) input now policy).map fun request =>
          { request with id := otherId } := by
  constructor
  · intro random request haccepted
    exact NwaRequest.parse_within haccepted
  · intro other id otherId hreordered
    change NwaRequest.parseWithId x parts other now policy otherId =
      (NwaRequest.parseWithId x parts input now policy id).map _
    rw [NwaRequest.parseWithId_reordered id hreordered]
    exact NwaRequest.parseWithId_id id otherId

namespace Sample

/-- The ASCII text a percent-encoded one stands for. -/
def percentDecoded : List Char → List Char
  | [] => []
  | '%' :: high :: low :: rest =>
    match Hex32.decodeNibble high, Hex32.decodeNibble low with
    | some high, some low => Char.ofNat (high * 16 + low) :: percentDecoded rest
    | _, _ => '%' :: percentDecoded (high :: low :: rest)
  | c :: rest => (if c = '+' then ' ' else c) :: percentDecoded rest

/-- A name and a value. An empty parameter is skipped. -/
def decodeParameter (param : String) : Option (String × String) :=
  if param = "" then none
  else
    let (name, value) := param.toList.span (· != '=')
    some (String.ofList (percentDecoded name), String.ofList (percentDecoded (value.drop 1)))

def beforeQuery (text : String) : List Char := text.toList.takeWhile (· != '?')

def queryText (text : String) : List Char := (text.toList.dropWhile (· != '?')).drop 1

def backupRelayUrl : String := "wss://backup.example.com/nwc"

def returnUrl : ParsedUrl :=
  ⟨"https", some "shop.example.com", "", none, none, "https://shop.example.com/return"⟩

def hostUrls : List ParsedUrl :=
  [⟨"wss", some "relay.example.com", "", none, none, relayUrl⟩,
    ⟨"wss", some "backup.example.com", "", none, none, backupRelayUrl⟩, returnUrl]

def nwaBase : String := "nostr+walletauth://" ++ clientHex

/-- Reads every request of the sample application, and the URLs in it. -/
def readingCrates : Crates :=
  { crates with
    parseUrl := fun text =>
      if beforeQuery text = nwaBase.toList then some (nwaUrl text)
      else hostUrls.find? fun url => url.serialized == text }

def readingParts : UrlParts where
  port _ := none
  path url := if url = returnUrl then "/return" else "/nwc"
  queryPairs url := (Words.words (· == '&') (queryText url.serialized)).filterMap fun param =>
    decodeParameter (String.ofList param)

section Reading

variable {base : String} {params : List String}

theorem toList_queryInput : (queryInput base params).toList =
    base.toList ++ '?' :: ['&'].intercalate (params.map String.toList) := by
  simp [queryInput, String.toList_intercalate]

theorem beforeQuery_queryInput (hbase : ∀ c ∈ base.toList, c ≠ '?' ∧ c ≠ '#') :
    beforeQuery (queryInput base params) = base.toList := by
  have hpass : ∀ c ∈ base.toList, (c != '?') = true := by
    intro c hc
    simpa using (hbase c hc).1
  rw [beforeQuery, toList_queryInput, List.takeWhile_append_of_pos hpass]
  simp

theorem queryText_queryInput (hbase : ∀ c ∈ base.toList, c ≠ '?' ∧ c ≠ '#') :
    queryText (queryInput base params) = ['&'].intercalate (params.map String.toList) := by
  have hpass : ∀ c ∈ base.toList, (c != '?') = true := by
    intro c hc
    simpa using (hbase c hc).1
  rw [queryText, toList_queryInput, List.dropWhile_append_of_pos hpass]
  simp

/-- The query is read parameter by parameter. -/
theorem queryPairs_queryInput (hbase : ∀ c ∈ base.toList, c ≠ '?' ∧ c ≠ '#')
    (hplain : ∀ param ∈ params, PlainParameter param) :
    readingParts.queryPairs (nwaUrl (queryInput base params)) =
      params.filterMap decodeParameter := by
  change (Words.words (· == '&') (queryText (queryInput base params))).filterMap _ = _
  rw [queryText_queryInput hbase, Words.words_intercalate (by simp)]
  clear hbase
  induction params with
  | nil => rfl
  | cons param params ih =>
    have hrest := ih fun other hother => hplain other (List.mem_cons_of_mem _ hother)
    rw [List.map_cons, List.flatMap_cons, List.filterMap_append, hrest]
    by_cases hempty : param = ""
    · subst hempty
      simp [Words.words, decodeParameter]
    · have hfree : ∀ c ∈ param.toList, (c == '&') = false := by
        intro c hc
        simpa using (hplain param List.mem_cons_self c hc).1
      rw [Words.words_eq_singleton (by simpa using hempty) hfree]
      simp [decodeParameter, hempty]

theorem readingCrates_readsParameters :
    readingCrates.ReadsParameters readingParts decodeParameter := by
  intro base params others hbase hplain
  by_cases hknown : base = nwaBase
  · subst hknown
    have hparsed : ∀ params, readingCrates.parseUrl (queryInput nwaBase params) =
        some (nwaUrl (queryInput nwaBase params)) := by
      intro params
      simp [readingCrates, beforeQuery_queryInput hbase]
    refine Or.inr ⟨_, _, hparsed params, hparsed others, rfl, rfl, rfl, rfl, rfl, ?_, ?_⟩
    · exact queryPairs_queryInput hbase fun param hparam => hplain param (by simp [hparam])
    · exact queryPairs_queryInput hbase fun param hparam => hplain param (by simp [hparam])
  · have hother : ∀ url ∈ hostUrls, '?' ∉ url.serialized.toList := by decide
    have hnone : ∀ params, readingCrates.parseUrl (queryInput base params) = none := by
      intro params
      have hbefore : base.toList ≠ nwaBase.toList := fun heq => hknown (String.toList_inj.mp heq)
      simp only [readingCrates, beforeQuery_queryInput hbase, if_neg hbefore, List.find?_eq_none,
        beq_iff_eq]
      intro url hurl heq
      apply hother url hurl
      rw [heq, toList_queryInput]
      simp
    exact Or.inl ⟨hnone params, hnone others⟩

end Reading

/-- A request to pay from two relays, with a budget, an expiry and a callback. -/
def shopParams : List String :=
  ["name=Corner+Shop", "relay=wss%3A%2F%2Frelay.example.com%2Fnwc", "expires_at=2000",
    "max_amount=100000000", "relay=wss%3A%2F%2Fbackup.example.com%2Fnwc", "budget_renewal=daily",
    "request_methods=pay_invoice%20get_balance", "return_to=https%3A%2F%2Fshop.example.com%2Freturn",
    "state=0123456789abcdef0123456789abcdef"]

/-- The same parameters; the relays keep their order. -/
def shuffledParams : List String :=
  ["state=0123456789abcdef0123456789abcdef", "relay=wss%3A%2F%2Frelay.example.com%2Fnwc",
    "return_to=https%3A%2F%2Fshop.example.com%2Freturn", "budget_renewal=daily",
    "relay=wss%3A%2F%2Fbackup.example.com%2Fnwc", "request_methods=pay_invoice%20get_balance",
    "max_amount=100000000", "name=Corner+Shop", "expires_at=2000"]

def shopUri : String := queryInput nwaBase shopParams

def shuffledUri : String := queryInput nwaBase shuffledParams

def shopRequest : NwaRequest where
  id := 7
  clientPubkey := clientPubkey
  displayName := "Corner Shop"
  iconUrl := none
  relays := [relayUrl, backupRelayUrl]
  requestedPolicy := ⟨{.payInvoice, .getBalance}, ⟨100000, .daily, .countTowardBudget 1000⟩⟩
  expiresAt := some 2000
  callback := some ⟨returnUrl, "0123456789abcdef0123456789abcdef"⟩

theorem shop_plain : ∀ param ∈ shopParams, PlainParameter param := by
  have hplain : (shopParams.all fun param => param.toList.all fun c =>
      c != '&' && c != '#' && !isControl c && !isWhitespace c) = true := by decide
  intro param hparam c hc
  have hc' := List.all_eq_true.mp (List.all_eq_true.mp hplain param hparam) c hc
  simpa [and_assoc] using hc'

theorem nwaBase_plain : ∀ c ∈ nwaBase.toList, c ≠ '?' ∧ c ≠ '#' := by
  have hplain : (nwaBase.toList.all fun c => c != '?' && c != '#') = true := by decide
  intro c hc
  simpa using List.all_eq_true.mp hplain c hc

/-- The parameters of the request as they are read. -/
def shopQuery : List (String × String) :=
  [("name", "Corner Shop"), ("relay", relayUrl), ("expires_at", "2000"),
    ("max_amount", "100000000"), ("relay", backupRelayUrl), ("budget_renewal", "daily"),
    ("request_methods", "pay_invoice get_balance"), ("return_to", returnUrl.serialized),
    ("state", "0123456789abcdef0123456789abcdef")]

theorem parse_shopQuery {uri : String} (hurl : readingCrates.parseUrl uri = some (nwaUrl uri))
    (hpairs : readingParts.queryPairs (nwaUrl uri) = shopQuery)
    (hsize : uri.utf8ByteSize ≤ 8 * 1024) :
    NwaRequest.parse readingCrates readingParts (some 7) uri 1000 .default = .ok shopRequest := by
  have hsmall : decide (uri.utf8ByteSize > NwaParsePolicy.default.maximumRequestBytes) = false :=
    decide_eq_false (Nat.not_lt.mpr hsize)
  simp only [NwaRequest.parse, NwaRequest.parseWithId, NwaQuery.parse, okOr, ok_bind, hurl, hpairs,
    hsmall]
  simp only [nwaUrl, List.mem_cons, true_or, decide_true]
  decide +kernel

theorem parse_shop : NwaRequest.parse readingCrates readingParts (some 7) shopUri 1000 .default =
    .ok shopRequest := by
  apply parse_shopQuery
  · simp [readingCrates, shopUri, beforeQuery_queryInput nwaBase_plain]
  · rw [shopUri, queryPairs_queryInput nwaBase_plain shop_plain]
    decide
  · decide +kernel

theorem shop_reordered : ReorderedInput readingCrates readingParts shopUri shuffledUri :=
  queryInput_reordered readingCrates_readsParameters nwaBase_plain shop_plain (by decide)
    (by decide)

end Sample

theorem nwa_parsing_bounds_example :
    (∃ url, Sample.readingCrates.parseUrl Sample.shopUri = some url ∧
      url.Clean Sample.readingParts ∧ Sample.shopRequest.WithinPolicy Sample.readingCrates
        ⟨Sample.readingParts.queryPairs url⟩ 1000 .default) ∧
    NwaRequest.parse Sample.readingCrates Sample.readingParts (some 9) Sample.shuffledUri 1000
        .default = .ok { Sample.shopRequest with id := 9 } := by
  obtain ⟨hbounds, horder⟩ := nwa_parsing_bounds_authority Sample.readingCrates
    Sample.readingParts Sample.shopUri 1000 .default
  refine ⟨hbounds (some 7) _ Sample.parse_shop, ?_⟩
  rw [horder Sample.shuffledUri 7 9 Sample.shop_reordered, Sample.parse_shop]
  rfl

end NwcMobile
