import Mathlib.Data.List.TakeWhile
import NwcMobile.ApplicationMetadata

/-!
The relays a user selects for a connection: parsed from native input, and encoded
as one text for host storage. When the text is read as input again it is the same
list exactly if no relay contains a character the input is split at.
-/

namespace NwcMobile

open Fallible Nwa Words

inductive ApplicationError where
  | missingRelay
  | tooManyRelays
  | invalidRelay
  | invalidKey
  | invalidConnection
deriving DecidableEq, Repr

def defaultMaximumConnectionRelays : Nat := 2

def relayStorageSeparator : String := "\n"

/-- The characters relay input is split at. -/
def isRelaySeparator (c : Char) : Bool := isWhitespace c || c == ','

def relayParts (selected : String) : List String :=
  ((selected.toList.splitOnP isRelaySeparator).map fun part => trim (String.ofList part)).filter
    fun relay => !relay.isEmpty

/-- The parsing loop: the first invalid relay ends it, a repeated one is skipped. -/
def collectRelays (x : Crates) (relays : List String) :
    List String → Except ApplicationError (List String)
  | [] => .ok relays
  | relay :: rest => do
    let secure ← mapErr (SecureRelayUrl.parse x relay) .invalidRelay
    collectRelays x (if secure.value ∈ relays then relays else relays ++ [secure.value]) rest

def parseConnectionRelays (x : Crates) (input fallback : String) (maximumRelays : Nat) :
    Except ApplicationError (List String) := do
  let selected := if (trim input).isEmpty then fallback else input
  let relays ← collectRelays x [] (relayParts selected)
  ensure (!relays.isEmpty) .missingRelay
  ensure (!(maximumRelays == 0 || decide (relays.length > maximumRelays))) .tooManyRelays
  pure relays

def encodeConnectionRelays (relays : List String) : String :=
  relayStorageSeparator.intercalate relays

def normalizeMethods (methods : List NwcMethod) : List NwcMethod :=
  [NwcMethod.getInfo, .getBalance, .payInvoice, .makeInvoice, .lookupInvoice,
    .listTransactions].filter fun method => methods.contains method

/-- User-selected authority for a connection being created or approved. -/
structure ConnectionSelection where
  relayUrls : List String
  methods : List NwcMethod
  budgetLimitSat : Nat
  budgetInterval : BudgetInterval
deriving DecidableEq, Repr

namespace ConnectionSelection

def fromHostInput (x : Crates) (relayInput fallbackRelayInput : String)
    (methods : List NwcMethod) (budgetLimitSat : Nat) (budgetInterval : BudgetInterval) :
    Except ApplicationError ConnectionSelection := do
  let relayUrls ← parseConnectionRelays x relayInput fallbackRelayInput
    defaultMaximumConnectionRelays
  ensure (!(normalizeMethods methods).isEmpty) .invalidConnection
  pure ⟨relayUrls, normalizeMethods methods, budgetLimitSat, budgetInterval⟩

def relayStorage (selection : ConnectionSelection) : String :=
  encodeConnectionRelays selection.relayUrls

end ConnectionSelection

/-- The relays an active connection can hold under a limit. -/
structure HeldRelays (x : Crates) (maximumRelays : Nat) (relays : List String) : Prop where
  some : relays ≠ []
  secure : ∀ relay ∈ relays, ∃ text, SecureRelayUrl.parse x text = .ok ⟨relay⟩
  distinct : relays.Nodup
  bounded : relays.length ≤ maximumRelays

def SeparatorFree (relay : String) : Prop := ∀ c ∈ relay.toList, isRelaySeparator c = false

instance (relay : String) : Decidable (SeparatorFree relay) := List.decidableBAll _ _

/-- Separators enter a canonical URL from the text it was parsed from or by decoding
its host, and a host is decoded once: a part of a URL parsed from a text without
separators is parsed to a URL without them. -/
def Crates.SeparatorsSettle (x : Crates) : Prop :=
  ∀ text relay, SeparatorFree text → SecureRelayUrl.parse x text = .ok relay →
    ∀ part ∈ relayParts relay.value, ∀ next, SecureRelayUrl.parse x part = .ok next →
      SeparatorFree next.value

section Parts

variable {text part : String} {relays : List String}

theorem relayParts_eq (text : String) :
    relayParts text = (words isRelaySeparator text.toList).map String.ofList := by
  have htrim : ∀ piece ∈ text.toList.splitOnP isRelaySeparator,
      trim (String.ofList piece) = String.ofList piece := by
    intro piece hpiece
    have hfree : ∀ c ∈ piece, isWhitespace c = false := by
      intro c hc
      have hsep := splitOnP_free hpiece c hc
      rw [isRelaySeparator, Bool.or_eq_false_iff] at hsep
      exact hsep.1
    apply trim_eq_self
    · intro c hc
      exact hfree c (List.mem_of_mem_head? hc)
    · intro c hc
      exact hfree c (List.mem_of_getLast? hc)
  unfold relayParts words
  rw [List.map_congr_left htrim, List.filter_map]
  congr 1
  apply List.filter_congr
  intro piece _
  cases piece <;> simp [Function.comp]

/-- A part is never empty and has no separators. -/
theorem mem_relayParts (h : part ∈ relayParts text) : part ≠ "" ∧ SeparatorFree part := by
  rw [relayParts_eq, List.mem_map] at h
  obtain ⟨word, hword, rfl⟩ := h
  obtain ⟨hne, hfree⟩ := mem_words hword
  refine ⟨by simpa using hne, ?_⟩
  intro c hc
  rw [String.toList_ofList] at hc
  exact hfree c hc

theorem relayParts_of_free (hne : text ≠ "") (hfree : SeparatorFree text) :
    relayParts text = [text] := by
  rw [relayParts_eq, words_eq_singleton (by simpa using hne) hfree]
  simp

/-- The encoded text is cut at every relay's end and wherever a relay has a separator. -/
theorem relayParts_encode :
    relayParts (encodeConnectionRelays relays) = relays.flatMap relayParts := by
  have hsep : isRelaySeparator '\n' = true := by decide
  have hwords : words isRelaySeparator (List.intercalate ['\n'] (relays.map String.toList)) =
      (relays.map String.toList).flatMap (words isRelaySeparator) := words_intercalate hsep
  rw [relayParts_eq, encodeConnectionRelays, String.toList_intercalate]
  have hsplit : relayStorageSeparator.toList = ['\n'] := rfl
  rw [hsplit, hwords, List.flatMap_map, List.map_flatMap]
  congr 1
  funext relay
  exact (relayParts_eq relay).symm

theorem trim_isEmpty_iff : (trim text).isEmpty = true ↔ ∀ c ∈ text.toList, isWhitespace c = true := by
  rw [trim, String.isEmpty_iff, String.ofList_eq_empty_iff, List.reverse_eq_nil_iff,
    List.dropWhile_eq_nil_iff]
  constructor
  · intro h
    have hrest := h
    simp only [List.mem_reverse] at hrest
    intro c hc
    rw [← List.takeWhile_append_dropWhile (p := isWhitespace) (l := text.toList),
      List.mem_append] at hc
    cases hc with
    | inl hc => exact List.mem_takeWhile_imp hc
    | inr hc => exact hrest c hc
  · intro h c hc
    rw [List.mem_reverse] at hc
    exact h c (List.dropWhile_sublist _ |>.mem hc)

theorem mem_encode (h : part ∈ relays) {c : Char} (hc : c ∈ part.toList) :
    c ∈ (encodeConnectionRelays relays).toList := by
  rw [encodeConnectionRelays, String.toList_intercalate]
  induction relays with
  | nil => cases h
  | cons relay relays ih =>
    cases relays with
    | nil =>
      rw [List.mem_singleton] at h
      simpa [h] using hc
    | cons next relays =>
      rw [List.map_cons, List.map_cons, List.intercalate_cons_cons]
      cases List.mem_cons.mp h with
      | inl hfirst =>
        rw [← hfirst]
        simp [hc]
      | inr hlater => exact List.mem_append_right _ (ih hlater)

end Parts

section Collecting

variable {x : Crates} {input fallback : String} {maximumRelays : Nat}
  {relays parts result : List String}

/-- What the loop collects are the relays its parts are parsed to, each once. -/
theorem collectRelays_ok (h : collectRelays x relays parts = .ok result) :
    (∀ part ∈ parts, ∃ secure, SecureRelayUrl.parse x part = .ok secure ∧
      secure.value ∈ result) ∧
    (∀ relay ∈ result, relay ∈ relays ∨
      ∃ part ∈ parts, SecureRelayUrl.parse x part = .ok ⟨relay⟩) ∧
    (∀ relay ∈ relays, relay ∈ result) ∧ (relays.Nodup → result.Nodup) := by
  induction parts generalizing relays with
  | nil =>
    cases h
    simp
  | cons part parts ih =>
    simp only [collectRelays, bind_eq_ok, mapErr_eq_ok] at h
    obtain ⟨secure, hparse, hrest⟩ := h
    obtain ⟨hparsed, hfrom, hkept, hnodup⟩ := ih hrest
    refine ⟨?_, ?_, ?_, ?_⟩
    · rw [List.forall_mem_cons]
      refine ⟨⟨secure, hparse, hkept _ ?_⟩, hparsed⟩
      split
      · assumption
      · simp
    · intro relay hrelay
      cases hfrom relay hrelay with
      | inl hbefore =>
        split at hbefore
        · exact Or.inl hbefore
        · rw [List.mem_append, List.mem_singleton] at hbefore
          cases hbefore with
          | inl hbefore => exact Or.inl hbefore
          | inr hthis =>
            subst hthis
            exact Or.inr ⟨part, List.mem_cons_self, hparse⟩
      | inr hlater =>
        obtain ⟨next, hnext, hparsedNext⟩ := hlater
        exact Or.inr ⟨next, List.mem_cons_of_mem part hnext, hparsedNext⟩
    · intro relay hrelay
      apply hkept
      split
      · exact hrelay
      · exact List.mem_append_left _ hrelay
    · intro hdistinct
      apply hnodup
      split
      · exact hdistinct
      · rename_i hnew
        rw [← List.concat_eq_append, List.nodup_concat]
        exact ⟨hnew, hdistinct⟩

theorem collectRelays_canonical
    (hparts : ∀ part ∈ parts, SecureRelayUrl.parse x part = .ok ⟨part⟩)
    (hdistinct : (relays ++ parts).Nodup) :
    collectRelays x relays parts = .ok (relays ++ parts) := by
  induction parts generalizing relays with
  | nil => simp [collectRelays]
  | cons part parts ih =>
    rw [List.forall_mem_cons] at hparts
    have hnew : part ∉ relays := by
      intro hmem
      exact List.disjoint_of_nodup_append hdistinct hmem List.mem_cons_self
    rw [List.append_cons] at hdistinct ⊢
    have hstep : collectRelays x relays (part :: parts) =
        collectRelays x (if part ∈ relays then relays else relays ++ [part]) parts := by
      rw [collectRelays, hparts.1]
      rfl
    rw [hstep, if_neg hnew]
    exact ih hparts.2 hdistinct

theorem parseConnectionRelays_eq_ok :
    parseConnectionRelays x input fallback maximumRelays = .ok result ↔
      collectRelays x [] (relayParts (if (trim input).isEmpty then fallback else input)) =
        .ok result ∧ result ≠ [] ∧ result.length ≤ maximumRelays := by
  simp only [parseConnectionRelays, bind_eq_ok, ensure_eq_ok, pure_eq_ok]
  constructor
  · rintro ⟨relays, hcollect, _, hsome, _, hbounded, rfl⟩
    simp at hsome hbounded
    refine ⟨hcollect, hsome, by omega⟩
  · rintro ⟨hcollect, hsome, hbounded⟩
    have hpositive : 0 < result.length := List.length_pos_of_ne_nil hsome
    refine ⟨result, hcollect, (), by simpa using hsome, (), ?_, rfl⟩
    simp
    omega

/-- What native input selects can be held by a connection. -/
theorem heldRelays_of_parse
    (h : parseConnectionRelays x input fallback maximumRelays = .ok result) :
    HeldRelays x maximumRelays result := by
  obtain ⟨hcollect, hsome, hbounded⟩ := parseConnectionRelays_eq_ok.mp h
  obtain ⟨-, hfrom, -, hnodup⟩ := collectRelays_ok hcollect
  refine ⟨hsome, ?_, hnodup List.nodup_nil, hbounded⟩
  intro relay hrelay
  cases hfrom relay hrelay with
  | inl hbefore => cases hbefore
  | inr hpart =>
    obtain ⟨part, -, hparse⟩ := hpart
    exact ⟨part, hparse⟩

end Collecting

section RoundTrip

variable {x : Crates} {maximumRelays : Nat} {relays : List String}

theorem HeldRelays.canonical (h : HeldRelays x maximumRelays relays) (hurls : x.UrlsCanonical) :
    ∀ relay ∈ relays, SecureRelayUrl.parse x relay = .ok ⟨relay⟩ := by
  intro relay hrelay
  obtain ⟨text, hparse⟩ := h.secure relay hrelay
  exact SecureRelayUrl.parse_value hurls hparse

theorem SecureRelayUrl.visible (htrimmed : x.UrlsTrimmed) {text : String} {relay : SecureRelayUrl}
    (h : SecureRelayUrl.parse x text = .ok relay) : trim relay.value = relay.value := by
  unfold SecureRelayUrl.parse at h
  split at h
  · cases h
  · split at h
    · cases h
    · rename_i url hurl
      split at h
      · cases h
      · rename_i hparts
        split at h
        · cases h
        · cases h
          apply htrimmed text url hurl
          simp only [Bool.or_eq_true, not_or] at hparts
          cases hhost : url.hostStr with
          | none => simp [hhost] at hparts
          | some host => rfl

/-- The encoded text of held relays is read itself, never the fallback. -/
theorem HeldRelays.selected (h : HeldRelays x maximumRelays relays) (hurls : x.UrlsCanonical)
    (htrimmed : x.UrlsTrimmed) (fallback : String) :
    (if (trim (encodeConnectionRelays relays)).isEmpty then fallback
      else encodeConnectionRelays relays) = encodeConnectionRelays relays := by
  obtain ⟨relay, hrelay⟩ := List.exists_mem_of_ne_nil relays h.some
  have hcanonical := h.canonical hurls relay hrelay
  have hvisible := SecureRelayUrl.visible htrimmed hcanonical
  rw [if_neg]
  intro hempty
  have hblank : ∀ c ∈ relay.toList, isWhitespace c = true := by
    intro c hc
    apply trim_isEmpty_iff.mp hempty
    exact mem_encode hrelay hc
  rw [← trim_isEmpty_iff, hvisible] at hblank
  simp [SecureRelayUrl.parse, hblank] at hcanonical

/-- Relays without separators are read back as they were encoded. -/
theorem parse_encode (hurls : x.UrlsCanonical) (htrimmed : x.UrlsTrimmed)
    (hheld : HeldRelays x maximumRelays relays) (hfree : ∀ relay ∈ relays, SeparatorFree relay)
    (fallback : String) :
    parseConnectionRelays x (encodeConnectionRelays relays) fallback maximumRelays =
      .ok relays := by
  have hcanonical := hheld.canonical hurls
  have hparts : relays.flatMap relayParts = relays := by
    have hsingle : ∀ relay ∈ relays, relayParts relay = [relay] := by
      intro relay hrelay
      apply relayParts_of_free
      · rintro rfl
        simpa [SecureRelayUrl.parse] using hcanonical "" hrelay
      · exact hfree relay hrelay
    rw [List.flatMap_congr hsingle]
    simp
  rw [parseConnectionRelays_eq_ok, hheld.selected hurls htrimmed, relayParts_encode, hparts]
  exact ⟨collectRelays_canonical hcanonical (by simpa using hheld.distinct), hheld.some,
    hheld.bounded⟩

/-- A relay with a separator among them is lost or comes back as another relay. -/
theorem free_of_parse_encode (hurls : x.UrlsCanonical) (htrimmed : x.UrlsTrimmed)
    (hsettle : x.SeparatorsSettle) (hheld : HeldRelays x maximumRelays relays)
    {fallback : String} (h : parseConnectionRelays x (encodeConnectionRelays relays) fallback
      maximumRelays = .ok relays) {relay : String} (hrelay : relay ∈ relays) :
    SeparatorFree relay := by
  rw [parseConnectionRelays_eq_ok, hheld.selected hurls htrimmed, relayParts_encode] at h
  obtain ⟨-, hfrom, -, -⟩ := collectRelays_ok h.1
  have hpart : ∀ relay ∈ relays, ∃ source ∈ relays, ∃ part ∈ relayParts source,
      SecureRelayUrl.parse x part = .ok ⟨relay⟩ := by
    intro relay hrelay
    cases hfrom relay hrelay with
    | inl hbefore => cases hbefore
    | inr hpart =>
      obtain ⟨part, hpart, hparse⟩ := hpart
      rw [List.mem_flatMap] at hpart
      obtain ⟨source, hsource, hpart⟩ := hpart
      exact ⟨source, hsource, part, hpart, hparse⟩
  -- The relay comes from a part of a second one, and that one from a part of a third.
  obtain ⟨source, hsource, part, hmem, hparse⟩ := hpart relay hrelay
  obtain ⟨_, _, origin, horigin, hsourceParse⟩ := hpart source hsource
  exact hsettle origin ⟨source⟩ (mem_relayParts horigin).2 hsourceParse part hmem ⟨relay⟩ hparse

/-- Held relays are read back from their encoding exactly if none of them contains a
character that relay input is split at. -/
theorem relay_storage_round_trip (hurls : x.UrlsCanonical) (htrimmed : x.UrlsTrimmed)
    (hsettle : x.SeparatorsSettle) (hheld : HeldRelays x maximumRelays relays)
    (fallback : String) :
    parseConnectionRelays x (encodeConnectionRelays relays) fallback maximumRelays =
        .ok relays ↔
      ∀ relay ∈ relays, SeparatorFree relay := by
  constructor
  · intro h relay hrelay
    exact free_of_parse_encode hurls htrimmed hsettle hheld h hrelay
  · intro hfree
    exact parse_encode hurls htrimmed hheld hfree fallback

theorem ConnectionSelection.fromHostInput_eq_ok {input fallback : String}
    {methods : List NwcMethod} {limit : Nat} {interval : BudgetInterval}
    {selection : ConnectionSelection} :
    fromHostInput x input fallback methods limit interval = .ok selection ↔
      parseConnectionRelays x input fallback defaultMaximumConnectionRelays =
          .ok selection.relayUrls ∧ normalizeMethods methods ≠ [] ∧
        selection = ⟨selection.relayUrls, normalizeMethods methods, limit, interval⟩ := by
  simp only [fromHostInput, bind_eq_ok, ensure_eq_ok, pure_eq_ok]
  constructor
  · rintro ⟨relayUrls, hparse, _, hsome, rfl⟩
    exact ⟨hparse, by simpa using hsome, rfl⟩
  · rintro ⟨hparse, hsome, hselection⟩
    exact ⟨selection.relayUrls, hparse, (), by simpa using hsome, hselection.symm⟩

theorem normalizeMethods_idem (methods : List NwcMethod) :
    normalizeMethods (normalizeMethods methods) = normalizeMethods methods := by
  unfold normalizeMethods
  apply List.filter_congr
  intro method hmethod
  simp only [List.contains_eq_mem, List.mem_filter, hmethod, true_and, Bool.decide_eq_true]

/-- A selection's storage text selects the same authority again exactly if no relay of it
has a separator. -/
theorem ConnectionSelection.reselected_iff (hurls : x.UrlsCanonical) (htrimmed : x.UrlsTrimmed)
    (hsettle : x.SeparatorsSettle) {input fallback again : String} {methods : List NwcMethod}
    {limit : Nat} {interval : BudgetInterval} {selection : ConnectionSelection}
    (h : fromHostInput x input fallback methods limit interval = .ok selection) :
    fromHostInput x selection.relayStorage again selection.methods limit interval =
        .ok selection ↔
      ∀ relay ∈ selection.relayUrls, SeparatorFree relay := by
  obtain ⟨hparse, hsome, hselection⟩ := fromHostInput_eq_ok.mp h
  have hheld := heldRelays_of_parse hparse
  have hmethods : selection.methods = normalizeMethods methods := by rw [hselection]
  rw [fromHostInput_eq_ok, hmethods, normalizeMethods_idem]
  constructor
  · intro hagain relay hrelay
    exact free_of_parse_encode hurls htrimmed hsettle hheld hagain.1 hrelay
  · intro hfree
    exact ⟨parse_encode hurls htrimmed hheld hfree again, hsome, hselection⟩

end RoundTrip

namespace Sample

def queryRelay : String := "wss://a.example/?b"

def plainRelay : String := "wss://c.example/"

/-- One relay whose query holds a comma and another relay's URL. -/
def commaRelay : String := "wss://a.example/?b,wss://c.example/"

def relayTable : List ParsedUrl :=
  [⟨"wss", some "a.example", "", none, none, queryRelay⟩,
    ⟨"wss", some "c.example", "", none, none, plainRelay⟩,
    ⟨"wss", some "a.example", "", none, none, commaRelay⟩]

def relayCrates : Crates :=
  { crates with parseUrl := fun text => relayTable.find? fun url => url.serialized == text }

theorem relayCrates_url {text : String} {url : ParsedUrl}
    (h : relayCrates.parseUrl text = some url) : url ∈ relayTable ∧ url.serialized = text := by
  change relayTable.find? (fun url => url.serialized == text) = some url at h
  have hfound := List.find?_some h
  refine ⟨List.mem_of_find?_eq_some h, ?_⟩
  simpa using hfound

theorem relayCrates_urlsCanonical : relayCrates.UrlsCanonical := by
  intro text url h
  obtain ⟨hmem, hsame⟩ := relayCrates_url h
  have hnonempty : ∀ url ∈ relayTable, url.serialized.isEmpty = false := by decide
  refine ⟨hnonempty url hmem, ?_⟩
  rw [hsame]
  exact h

theorem relayCrates_urlsTrimmed : relayCrates.UrlsTrimmed := by
  intro text url h _
  have htrimmed : ∀ url ∈ relayTable, trim url.serialized = url.serialized := by decide
  exact htrimmed url (relayCrates_url h).1

theorem relayCrates_parse {text : String} {relay : SecureRelayUrl}
    (h : SecureRelayUrl.parse relayCrates text = .ok relay) :
    relay.value = text := by
  unfold SecureRelayUrl.parse at h
  split at h
  · cases h
  · split at h
    · cases h
    · rename_i url hurl
      split at h
      · cases h
      · split at h
        · cases h
        · cases h
          exact (relayCrates_url hurl).2

theorem relayCrates_separatorsSettle : relayCrates.SeparatorsSettle := by
  intro text relay _ _ part hpart next hnext
  rw [relayCrates_parse hnext]
  exact (mem_relayParts hpart).2

theorem held_relays : HeldRelays relayCrates 2 [queryRelay, plainRelay] := by
  refine ⟨by simp, ?_, by decide, by decide⟩
  have hsecure : ∀ relay ∈ [queryRelay, plainRelay],
      SecureRelayUrl.parse relayCrates relay = .ok ⟨relay⟩ := by decide
  intro relay hrelay
  exact ⟨relay, hsecure relay hrelay⟩

end Sample

theorem relay_storage_round_trip_two :
    parseConnectionRelays Sample.relayCrates
        (encodeConnectionRelays [Sample.queryRelay, Sample.plainRelay]) "" 2 =
        .ok [Sample.queryRelay, Sample.plainRelay] ↔
      ∀ relay ∈ [Sample.queryRelay, Sample.plainRelay], SeparatorFree relay :=
  relay_storage_round_trip Sample.relayCrates_urlsCanonical Sample.relayCrates_urlsTrimmed
    Sample.relayCrates_separatorsSettle Sample.held_relays ""

/-- Input with two relays, one of them twice, selects each once; its storage text selects the
same authority again whatever the fallback. -/
theorem ConnectionSelection.reselected_iff_two :
    ∃ selection,
      fromHostInput Sample.relayCrates
          " wss://a.example/?b, wss://c.example/\nwss://a.example/?b" ""
          [.payInvoice, .getInfo] 500 .weekly = .ok selection ∧
        selection.methods = [.getInfo, .payInvoice] ∧
        fromHostInput Sample.relayCrates selection.relayStorage Sample.commaRelay
          selection.methods 500 .weekly = .ok selection := by
  refine ⟨⟨[Sample.queryRelay, Sample.plainRelay], [.getInfo, .payInvoice], 500, .weekly⟩, ?_⟩
  have hselected : fromHostInput Sample.relayCrates
      " wss://a.example/?b, wss://c.example/\nwss://a.example/?b" ""
      [.payInvoice, .getInfo] 500 .weekly =
        .ok ⟨[Sample.queryRelay, Sample.plainRelay], [.getInfo, .payInvoice], 500, .weekly⟩ := by
    decide
  refine ⟨hselected, rfl, ?_⟩
  apply (reselected_iff Sample.relayCrates_urlsCanonical Sample.relayCrates_urlsTrimmed
    Sample.relayCrates_separatorsSettle hselected).mpr
  decide

/-- One held relay is read back from its encoding as two others. -/
theorem comma_relay_read_as_two :
    HeldRelays Sample.relayCrates 2 [Sample.commaRelay] ∧
      parseConnectionRelays Sample.relayCrates (encodeConnectionRelays [Sample.commaRelay]) "" 2 =
        .ok [Sample.queryRelay, Sample.plainRelay] ∧
      [Sample.commaRelay] ≠ [Sample.queryRelay, Sample.plainRelay] := by
  refine ⟨⟨by simp, ?_, by simp, by decide⟩, by decide, by simp⟩
  intro relay hrelay
  rw [List.mem_singleton] at hrelay
  subst hrelay
  exact ⟨Sample.commaRelay, by decide⟩

end NwcMobile
