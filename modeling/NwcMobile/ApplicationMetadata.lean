import NwcMobile.Ledger.Registry
import NwcMobile.Nwa

/-!
Display metadata of a connection, and whether what an authorization request shows
to the user can be stored once it is approved.
-/

namespace NwcMobile

open Fallible Relational Nwa

def maxDisplayNameBytes : Nat := 256

def maxIconUrlBytes : Nat := 2048

/-- Non-sensitive product metadata of an authorization. -/
structure ApplicationConnectionMetadata where
  displayName : String
  iconUrl : Option String
  pendingInfoEventRelays : List String
deriving DecidableEq, Repr

/-- `validated_public_icon_url`. -/
def validatedPublicIconUrl (x : Crates) (parts : UrlParts) (raw : String) : Option String :=
  (parseIconUrl x parts (some raw)).map ParsedUrl.serialized

namespace ApplicationConnectionMetadata

def newIcon (x : Crates) (parts : UrlParts) (icon : String) : Except RegistryError String := do
  ensure (!decide (icon.utf8ByteSize > maxIconUrlBytes)) .invalidConnection
  okOr (validatedPublicIconUrl x parts icon) .invalidConnection

def newRelay (x : Crates) (relay : String) : Except RegistryError String := do
  let relay ← mapErr (SecureRelayUrl.parse x relay) .invalidConnection
  pure relay.value

/-- `ApplicationConnectionMetadata::new`. -/
def new (x : Crates) (parts : UrlParts) (displayName : String) (iconUrl : Option String)
    (pendingInfoEventRelays : List String) : Except RegistryError ApplicationConnectionMetadata := do
  let displayName := trim displayName
  ensure (!(displayName.isEmpty || decide (displayName.utf8ByteSize > maxDisplayNameBytes)))
    .invalidConnection
  let iconUrl ← iconUrl.mapM (newIcon x parts)
  let pendingInfoEventRelays ← pendingInfoEventRelays.mapM (newRelay x)
  pure { displayName, iconUrl, pendingInfoEventRelays }

end ApplicationConnectionMetadata

structure ConnectionMetadataRow where
  connectionId : String
  displayName : String
  iconUrl : Option String
deriving DecidableEq, Repr

def ConnectionMetadataRow.Valid (r : ConnectionMetadataRow) : Prop :=
  (1 ≤ r.displayName.utf8ByteSize ∧ r.displayName.utf8ByteSize ≤ 256) ∧
    ∀ url ∈ r.iconUrl, 1 ≤ url.utf8ByteSize ∧ url.utf8ByteSize ≤ 2048

instance (r : ConnectionMetadataRow) : Decidable r.Valid := by
  unfold ConnectionMetadataRow.Valid
  infer_instance

def connectionMetadataSchema : Schema ConnectionMetadataRow where
  check r := decide r.Valid
  conflict a b := a.connectionId == b.connectionId
  conflict_symm _ _ := Bool.beq_comm

structure NwcInfoOutboxRow where
  connectionId : String
  relayUrl : String
deriving DecidableEq, Repr

def nwcInfoOutboxSchema : Schema NwcInfoOutboxRow where
  check r := decide (1 ≤ r.relayUrl.utf8ByteSize ∧ r.relayUrl.utf8ByteSize ≤ 2048)
  conflict a b := a.connectionId == b.connectionId && a.relayUrl == b.relayUrl
  conflict_symm a b := by
    simp only [Bool.beq_comm (a := a.connectionId), Bool.beq_comm (a := a.relayUrl)]

/-- Both tables take the metadata. -/
def ApplicationConnectionMetadata.Storable (metadata : ApplicationConnectionMetadata)
    (connectionId : String) : Prop :=
  connectionMetadataSchema.check ⟨connectionId, metadata.displayName, metadata.iconUrl⟩ = true ∧
    ∀ relay ∈ metadata.pendingInfoEventRelays,
      nwcInfoOutboxSchema.check ⟨connectionId, relay⟩ = true

/-- The request can be approved as it was asked: its relays are taken unchanged and its
metadata is taken by the constructor and by the tables. -/
structure NwaRequest.Storable (x : Crates) (parts : UrlParts) (request : NwaRequest) : Prop where
  relays : ∀ relay ∈ request.relays, SecureRelayUrl.parse x relay = .ok ⟨relay⟩
  metadata : ∃ metadata, ApplicationConnectionMetadata.new x parts request.displayName
      (request.iconUrl.map ParsedUrl.serialized) request.relays = .ok metadata ∧
    ∀ connectionId, metadata.Storable connectionId

/-- Neither a control character nor one that redirects the text. -/
def isVisible (c : Char) : Bool := !(isControl c || isBidiFormatting c)

/-- A displayed text: its visible words, one space between them, cut to a length. -/
def displayText (value : String) (maximumChars : Nat) : String :=
  String.ofList (Words.cut ' ' maximumChars (Words.spaced isWhitespace ' '
    (value.toList.filter isVisible)))

/-- The values of a query fit the stores once they are in the form in which they are kept. -/
structure NwaQuery.Fits (x : Crates) (parts : UrlParts) (query : NwaQuery) : Prop where
  name : (displayText (rawName query) 80).utf8ByteSize ≤ 256
  icon : ∀ raw ∈ query.value "icon", ∀ url host, (trim raw).isEmpty = false →
    (trim raw).utf8ByteSize ≤ 2048 → x.parseUrl (trim raw) = some url →
    url.hostStr = some host → isPublicHttps parts url host = true →
    url.serialized.utf8ByteSize ≤ 2048
  relays : ∀ value ∈ query.values "relay", ∀ url, x.parseUrl value = some url →
    url.serialized.utf8ByteSize ≤ 2048

/-- The serialization of a URL with a host has no whitespace around it. -/
def Crates.UrlsTrimmed (x : Crates) : Prop :=
  ∀ text url, x.parseUrl text = some url → url.hostStr.isSome = true →
    trim url.serialized = url.serialized

section Text

theorem trim_eq_self {chars : List Char} (hhead : ∀ c ∈ chars.head?, isWhitespace c = false)
    (hlast : ∀ c ∈ chars.getLast?, isWhitespace c = false) :
    trim (String.ofList chars) = String.ofList chars := by
  have hkept : ∀ cs : List Char, (∀ c ∈ cs.head?, isWhitespace c = false) →
      cs.dropWhile isWhitespace = cs := by
    intro cs hcs
    cases cs with
    | nil => rfl
    | cons c rest =>
      rw [List.dropWhile_cons, if_neg]
      simp [hcs c rfl]
  unfold trim
  rw [String.toList_ofList, hkept chars hhead, hkept, List.reverse_reverse]
  rwa [List.head?_reverse]

theorem append_nonempty {first second : String} (h : first.isEmpty = false) :
    (first ++ second).isEmpty = false := by
  rw [← Bool.not_eq_true, String.isEmpty_iff] at h ⊢
  intro hempty
  exact h (String.append_eq_empty_iff.mp hempty).1

/-- A text between two others that start and end visibly has nothing to trim. -/
theorem trim_between {first text last : String} {a b : Char} {rest init : List Char}
    (hfirst : first.toList = a :: rest) (hlast : last.toList = init ++ [b])
    (ha : isWhitespace a = false) (hb : isWhitespace b = false) :
    trim (first ++ text ++ last) = first ++ text ++ last := by
  have hchars : (first ++ text ++ last).toList = a :: (rest ++ text.toList ++ init ++ [b]) := by
    simp only [String.toList_append, hfirst, hlast]
    simp
  rw [← String.ofList_toList (s := first ++ text ++ last), hchars]
  apply trim_eq_self
  · simpa using ha
  · rw [← List.cons_append, List.getLast?_concat]
    simpa using hb

theorem sanitizeLoop_eq_gather (maximumChars : Nat) (result : List Char) (pendingSpace : Bool)
    (chars : List Char) : sanitizeLoop maximumChars result pendingSpace chars =
      Words.gather isWhitespace ' ' maximumChars result pendingSpace (chars.filter isVisible) := by
  induction chars generalizing result pendingSpace with
  | nil => rfl
  | cons c rest ih =>
    by_cases hdropped : (isControl c || isBidiFormatting c) = true
    · have hinvisible : ¬ isVisible c = true := by simp only [isVisible, hdropped]; decide
      rw [sanitizeLoop, if_pos hdropped, ih, List.filter_cons_of_neg hinvisible]
    · have hvisible : isVisible c = true := by simpa [isVisible] using hdropped
      rw [sanitizeLoop, if_neg hdropped, List.filter_cons_of_pos hvisible, Words.gather]
      split
      · exact ih _ _
      · split
        · rfl
        · exact ih _ _

/-- The sanitizing loop displays the words of the text. -/
theorem sanitizeDisplayText_eq {value : String} {maximumChars : Nat} (h : 0 < maximumChars) :
    sanitizeDisplayText value maximumChars = displayText value maximumChars := by
  rw [sanitizeDisplayText, sanitizeLoop_eq_gather,
    Words.gather_eq_cut (by decide) h, displayText]

theorem trim_sanitizeDisplayText (value : String) (maximumChars : Nat) :
    trim (sanitizeDisplayText value maximumChars) = sanitizeDisplayText value maximumChars := by
  rw [sanitizeDisplayText, sanitizeLoop_eq_gather]
  apply trim_eq_self
  · exact (Words.gather_trimmed (by simp) (by simp) (by simp)).1
  · exact (Words.gather_trimmed (by simp) (by simp) (by simp)).2

theorem utf8ByteSize_pos {value : String} (h : value.isEmpty = false) : 1 ≤ value.utf8ByteSize := by
  apply Nat.pos_of_ne_zero
  intro hzero
  rw [String.utf8ByteSize_eq_zero_iff] at hzero
  rw [hzero] at h
  cases h

end Text

section Urls

variable {x : Crates} {parts : UrlParts}

theorem parseRelay_ok {value relay : String} (h : parseRelay x value = .ok relay) :
    ∃ url, x.parseUrl value = some url ∧ relay = url.serialized ∧
      (url.scheme != "wss" || url.hostStr.isNone || !url.username.isEmpty ||
        url.password.isSome || url.fragment.isSome) = false := by
  simp only [parseRelay, bind_eq_ok, okOr_eq_ok, ensure_eq_ok, pure_eq_ok, Bool.not_eq_true'] at h
  obtain ⟨url, hurl, -, hchecks, rfl⟩ := h
  exact ⟨url, hurl, rfl, hchecks⟩

/-- A relay the request parser takes is taken unchanged where relays are approved, unless its
canonical form is too long. -/
theorem parseRelay_approved (hurls : x.UrlsCanonical) {value relay : String}
    (h : parseRelay x value = .ok relay) :
    SecureRelayUrl.parse x relay = .ok ⟨relay⟩ ↔ relay.utf8ByteSize ≤ 2048 := by
  obtain ⟨url, hurl, rfl, hchecks⟩ := parseRelay_ok h
  obtain ⟨hnonempty, hsame⟩ := hurls value url hurl
  by_cases hbytes : url.serialized.utf8ByteSize ≤ 2048
  · have hfits : ¬ url.serialized.utf8ByteSize > maxRelayUrlBytes := Nat.not_lt.mpr hbytes
    simp [SecureRelayUrl.parse, hnonempty, hsame, hchecks, hfits, hbytes]
  · have hlong : url.serialized.utf8ByteSize > maxRelayUrlBytes := Nat.lt_of_not_le hbytes
    simp [SecureRelayUrl.parse, hlong, hbytes]

theorem parseRelays_ok {query : NwaQuery} {policy : NwaParsePolicy} {relays : List String}
    (h : parseRelays x query policy = .ok relays) {relay : String} :
    relay ∈ relays ↔ ∃ value ∈ query.values "relay", parseRelay x value = .ok relay := by
  simp only [parseRelays, bind_eq_ok, ensure_eq_ok, pure_eq_ok] at h
  obtain ⟨-, -, -, -, all, hall, -, -, rfl⟩ := h
  rw [List.mem_eraseDups]
  constructor
  · intro hmem
    exact mem_of_mapM hall relay hmem
  · rintro ⟨value, hvalue, hrelay⟩
    obtain ⟨relay', hmem, hrelay'⟩ := mapM_mem hall hvalue
    rw [hrelay] at hrelay'
    cases hrelay'
    exact hmem

theorem parseRelays_takes {query : NwaQuery} {policy : NwaParsePolicy} {relays : List String}
    (h : parseRelays x query policy = .ok relays) {value : String}
    (hvalue : value ∈ query.values "relay") : ∃ relay, parseRelay x value = .ok relay := by
  simp only [parseRelays, bind_eq_ok, ensure_eq_ok, pure_eq_ok] at h
  obtain ⟨-, -, -, -, all, hall, -⟩ := h
  obtain ⟨relay, -, hrelay⟩ := mapM_mem hall hvalue
  exact ⟨relay, hrelay⟩

theorem approvedRelay_bytes {relay : String} (h : SecureRelayUrl.parse x relay = .ok ⟨relay⟩) :
    1 ≤ relay.utf8ByteSize ∧ relay.utf8ByteSize ≤ 2048 := by
  unfold SecureRelayUrl.parse at h
  split at h
  · cases h
  · rename_i hbounds
    rw [Bool.or_eq_true, decide_eq_true_eq, not_or, Bool.not_eq_true] at hbounds
    exact ⟨utf8ByteSize_pos hbounds.1, Nat.not_lt.mp hbounds.2⟩

theorem parseIconUrl_eq_some {raw : String} {url : ParsedUrl} :
    parseIconUrl x parts (some raw) = some url ↔
      ((trim raw).isEmpty = false ∧ (trim raw).utf8ByteSize ≤ 2048) ∧
        x.parseUrl (trim raw) = some url ∧
          ∃ host, url.hostStr = some host ∧ isPublicHttps parts url host = true := by
  simp only [parseIconUrl, Option.bind_eq_bind, Option.bind_some]
  split
  · rename_i hrefused
    rw [Bool.or_eq_true, decide_eq_true_eq] at hrefused
    constructor
    · nofun
    · rintro ⟨⟨hnonempty, hbytes⟩, -⟩
      rcases hrefused with hempty | hlong
      · rw [hnonempty] at hempty
        cases hempty
      · exact absurd hbytes (Nat.not_le.mpr hlong)
  · rename_i htaken
    rw [Bool.or_eq_true, decide_eq_true_eq, not_or, Bool.not_eq_true] at htaken
    simp only [Option.bind_eq_some_iff, Option.ite_none_right_eq_some, Option.some.injEq]
    constructor
    · rintro ⟨url', hurl, host, hhost, hpublic, rfl⟩
      exact ⟨⟨htaken.1, Nat.not_lt.mp htaken.2⟩, hurl, host, hhost, hpublic⟩
    · rintro ⟨-, hurl, host, hhost, hpublic⟩
      exact ⟨url, hurl, host, hhost, hpublic, rfl⟩

/-- An accepted icon is accepted again in its canonical form, unless that is too long. -/
theorem validatedPublicIconUrl_canonical (hurls : x.UrlsCanonical) (htrim : x.UrlsTrimmed)
    {raw : String} {url : ParsedUrl} (h : parseIconUrl x parts (some raw) = some url)
    (hbytes : url.serialized.utf8ByteSize ≤ 2048) :
    validatedPublicIconUrl x parts url.serialized = some url.serialized := by
  obtain ⟨-, hurl, host, hhost, hpublic⟩ := parseIconUrl_eq_some.mp h
  obtain ⟨hnonempty, hsame⟩ := hurls _ url hurl
  have htrimmed := htrim _ url hurl (by rw [hhost]; rfl)
  have hagain : parseIconUrl x parts (some url.serialized) = some url := by
    rw [parseIconUrl_eq_some, htrimmed]
    exact ⟨⟨hnonempty, hbytes⟩, hsame, host, hhost, hpublic⟩
  rw [validatedPublicIconUrl, hagain]
  rfl

end Urls

section Requests

variable {x : Crates} {parts : UrlParts} {input : String} {now : UnixTimestamp}
  {policy : NwaParsePolicy} {random : Option (BitVec 128)} {request : NwaRequest}

/-- What an accepted request shows and lists was read from its query. -/
theorem NwaRequest.parse_ok (h : NwaRequest.parse x parts random input now policy = .ok request) :
    ∃ url, x.parseUrl input = some url ∧
      parseRelays x ⟨parts.queryPairs url⟩ policy = .ok request.relays ∧
      request.iconUrl = parseIconUrl x parts (NwaQuery.value ⟨parts.queryPairs url⟩ "icon") ∧
      request.displayName =
        (let name := sanitizeDisplayText (rawName ⟨parts.queryPairs url⟩)
          policy.maximumDisplayNameChars
        if name.isEmpty then "External App" else name) := by
  simp only [NwaRequest.parse, NwaRequest.parseWithId, NwaQuery.parse, bind_eq_ok, okOr_eq_ok,
    ensure_eq_ok, pure_eq_ok] at h
  obtain ⟨_, -, -, -, url, hurl, -, -, -, -, -, -, hex, -, -, -, client, -, query,
    ⟨-, -, rfl⟩, -, -, -, -, -, -, -, -, -, -, relays, hrelays, expires, -, budget, -, methods, -,
    -, -, callback, -, rfl⟩ := h
  exact ⟨url, hurl, hrelays, rfl, rfl⟩

end Requests

section Storing

variable {x : Crates} {parts : UrlParts} {metadata : ApplicationConnectionMetadata}
  {name : String} {icon : Option String} {relays : List String}

/-- What the constructor takes, the name given to it without surrounding whitespace. -/
theorem ApplicationConnectionMetadata.new_ok (hname : trim name = name)
    (h : ApplicationConnectionMetadata.new x parts name icon relays = .ok metadata) :
    name.utf8ByteSize ≤ 256 ∧ metadata.displayName = name ∧ name.isEmpty = false ∧
      ∀ url ∈ icon, url.utf8ByteSize ≤ 2048 := by
  simp only [ApplicationConnectionMetadata.new, bind_eq_ok, ensure_eq_ok, pure_eq_ok, hname,
    Bool.not_eq_true', Bool.or_eq_false_iff, decide_eq_false_iff_not] at h
  obtain ⟨-, ⟨hnonempty, hbytes⟩, stored, hicon, kept, -, rfl⟩ := h
  refine ⟨Nat.not_lt.mp hbytes, rfl, hnonempty, ?_⟩
  rintro url rfl
  cases stored with
  | none => cases option_mapM_eq_none.mp hicon
  | some kept =>
    obtain ⟨_, hsome, hnew⟩ := option_mapM_eq_some.mp hicon
    cases hsome
    simp only [ApplicationConnectionMetadata.newIcon, bind_eq_ok, ensure_eq_ok,
      Bool.not_eq_true', decide_eq_false_iff_not] at hnew
    obtain ⟨-, hfits, -⟩ := hnew
    exact Nat.not_lt.mp hfits

/-- Values in their canonical form that fit are taken and stored as they are. -/
theorem ApplicationConnectionMetadata.new_canonical (hname : trim name = name)
    (hnonempty : name.isEmpty = false) (hbytes : name.utf8ByteSize ≤ 256)
    (hicon : ∀ url ∈ icon, validatedPublicIconUrl x parts url = some url ∧
      url.isEmpty = false ∧ url.utf8ByteSize ≤ 2048)
    (hrelays : ∀ relay ∈ relays, SecureRelayUrl.parse x relay = .ok ⟨relay⟩) :
    ApplicationConnectionMetadata.new x parts name icon relays = .ok ⟨name, icon, relays⟩ := by
  have hkept : relays.mapM (ApplicationConnectionMetadata.newRelay x) = .ok relays := by
    rw [mapM_eq_map (g := id), List.map_id]
    intro relay hrelay
    simp [ApplicationConnectionMetadata.newRelay, hrelays relay hrelay, mapErr, pure, Except.pure]
  have hstored : icon.mapM (ApplicationConnectionMetadata.newIcon x parts) = .ok icon := by
    cases icon with
    | none => rfl
    | some url =>
      obtain ⟨hvalid, -, hfits⟩ := hicon url rfl
      apply option_mapM_eq_some.mpr
      refine ⟨url, rfl, ?_⟩
      simp [ApplicationConnectionMetadata.newIcon, hvalid, maxIconUrlBytes, hfits]
  simp only [ApplicationConnectionMetadata.new, bind_eq_ok, ensure_eq_ok, pure_eq_ok, hname]
  refine ⟨(), ?_, icon, hstored, relays, hkept, rfl⟩
  simp [hnonempty, maxDisplayNameBytes, hbytes]

end Storing

section Claims

variable {x : Crates} {parts : UrlParts} {input : String} {now : UnixTimestamp}
  {random : Option (BitVec 128)} {request : NwaRequest}

/-- An accepted request can be stored as it was asked exactly when its values fit in the form
in which they are kept. -/
theorem nwa_storable_iff (hurls : x.UrlsCanonical) (htrim : x.UrlsTrimmed)
    (hparse : NwaRequest.parse x parts random input now .default = .ok request) :
    request.Storable x parts ↔
      ∃ url, x.parseUrl input = some url ∧ NwaQuery.Fits x parts ⟨parts.queryPairs url⟩ := by
  obtain ⟨url, hurl, hrelays, hicon, hname⟩ := NwaRequest.parse_ok hparse
  have htext : sanitizeDisplayText (rawName ⟨parts.queryPairs url⟩) 80 =
      displayText (rawName ⟨parts.queryPairs url⟩) 80 := sanitizeDisplayText_eq (by decide)
  have htrimmed : trim request.displayName = request.displayName := by
    rw [hname]
    dsimp only
    split
    · decide
    · exact trim_sanitizeDisplayText _ _
  constructor
  · intro hstorable
    obtain ⟨metadata, hnew, -⟩ := hstorable.metadata
    obtain ⟨hbytes, -, -, hiconBytes⟩ := ApplicationConnectionMetadata.new_ok htrimmed hnew
    refine ⟨url, hurl, ?_, ?_, ?_⟩
    · rw [← htext]
      rw [hname] at hbytes
      dsimp only at hbytes
      split at hbytes
      · rename_i hempty
        rw [String.isEmpty_iff] at hempty
        exact hempty ▸ Nat.zero_le 256
      · exact hbytes
    · intro raw hraw icon host hnonempty hshort hicon' hhost hpublic
      apply hiconBytes
      rw [hicon, Option.mem_def.mp hraw, parseIconUrl_eq_some.mpr
        ⟨⟨hnonempty, hshort⟩, hicon', host, hhost, hpublic⟩]
      rfl
    · intro value hvalue relay hrelay
      -- Every relay the query gives was accepted, so it is among those of the request.
      obtain ⟨taken, htaken⟩ := parseRelays_takes hrelays hvalue
      obtain ⟨relay', hrelay', rfl, -⟩ := parseRelay_ok htaken
      rw [hrelay] at hrelay'
      cases hrelay'
      have happroved := hstorable.relays _ ((parseRelays_ok hrelays).mpr ⟨value, hvalue, htaken⟩)
      exact (parseRelay_approved hurls htaken).mp happroved
  · rintro ⟨url', hurl', hfits⟩
    rw [hurl] at hurl'
    cases hurl'
    have happroved : ∀ relay ∈ request.relays, SecureRelayUrl.parse x relay = .ok ⟨relay⟩ := by
      intro relay hrelay
      obtain ⟨value, hvalue, htaken⟩ := (parseRelays_ok hrelays).mp hrelay
      obtain ⟨relay', hrelay', rfl, -⟩ := parseRelay_ok htaken
      exact (parseRelay_approved hurls htaken).mpr (hfits.relays value hvalue _ hrelay')
    have hnonempty : request.displayName.isEmpty = false := by
      rw [hname]
      dsimp only
      split
      · decide
      · rename_i hshown
        exact Bool.eq_false_of_not_eq_true hshown
    have hbytes : request.displayName.utf8ByteSize ≤ 256 := by
      rw [hname]
      dsimp only
      split
      · decide
      · exact (congrArg String.utf8ByteSize htext).trans_le hfits.name
    have hiconTaken : ∀ icon ∈ request.iconUrl.map ParsedUrl.serialized,
        validatedPublicIconUrl x parts icon = some icon ∧ icon.isEmpty = false ∧
          icon.utf8ByteSize ≤ 2048 := by
      intro icon hmem
      obtain ⟨iconUrl, hiconUrl, rfl⟩ := Option.map_eq_some_iff.mp hmem
      rw [hicon] at hiconUrl
      cases hraw : NwaQuery.value ⟨parts.queryPairs url⟩ "icon" with
      | none =>
        rw [hraw] at hiconUrl
        cases hiconUrl
      | some raw =>
        rw [hraw] at hiconUrl
        obtain ⟨⟨hfilled, hshort⟩, hparsed, host, hhost, hpublic⟩ :=
          parseIconUrl_eq_some.mp hiconUrl
        have hfit := hfits.icon raw hraw iconUrl host hfilled hshort hparsed hhost hpublic
        exact ⟨validatedPublicIconUrl_canonical hurls htrim hiconUrl hfit,
          (hurls _ _ hparsed).1, hfit⟩
    have hnew := ApplicationConnectionMetadata.new_canonical htrimmed hnonempty hbytes hiconTaken
      happroved
    refine ⟨happroved, _, hnew, ?_⟩
    intro connectionId
    constructor
    · apply decide_eq_true
      refine ⟨⟨utf8ByteSize_pos hnonempty, hbytes⟩, ?_⟩
      intro icon hmem
      obtain ⟨-, hfilled, hfit⟩ := hiconTaken icon hmem
      exact ⟨utf8ByteSize_pos hfilled, hfit⟩
    · intro relay hrelay
      obtain ⟨hfilled, hfit⟩ := approvedRelay_bytes (happroved relay hrelay)
      exact decide_eq_true ⟨hfilled, hfit⟩

end Claims

namespace Sample

/-- A request of an application with the given name, percent-encoded in the URI. -/
def nwaUri (encodedName : String) : String :=
  "nostr+walletauth://" ++ (clientHex ++ "?name=" ++ encodedName) ++
    "&relay=wss%3A%2F%2Frelay.example.com%2Fnwc"

def exampleUri : String := nwaUri "Example"

/-- A name of 65 characters, four bytes each. -/
def longName : String := String.ofList (List.replicate 65 '😀')

def longUri : String := nwaUri (String.join (List.replicate 65 "%F0%9F%98%80"))

def nwaUrl (uri : String) : ParsedUrl := ⟨"nostr+walletauth", some clientHex, "", none, none, uri⟩

def nwaCrates : Crates :=
  { crates with
    parseUrl := fun url =>
      if url = exampleUri ∨ url = longUri then some (nwaUrl url) else crates.parseUrl url }

def urlParts : UrlParts where
  port _ := none
  path url := if url.serialized = relayUrl then "/nwc" else ""
  queryPairs url :=
    if url.serialized = exampleUri then [("name", "Example"), ("relay", relayUrl)]
    else if url.serialized = longUri then [("name", longName), ("relay", relayUrl)]
    else []

def nwaRequest (name : String) : NwaRequest where
  id := 7
  clientPubkey := clientPubkey
  displayName := name
  iconUrl := none
  relays := [relayUrl]
  requestedPolicy := ⟨{.getInfo}, ⟨0, .never, .countTowardBudget 0⟩⟩
  expiresAt := none
  callback := none

theorem nwaUri_size (encodedName : String) :
    (nwaUri encodedName).utf8ByteSize = encodedName.utf8ByteSize + 131 := by
  have hpieces : "nostr+walletauth://".utf8ByteSize + clientHex.utf8ByteSize +
      "?name=".utf8ByteSize + "&relay=wss%3A%2F%2Frelay.example.com%2Fnwc".utf8ByteSize = 131 := by
    decide
  unfold nwaUri
  rw [String.utf8ByteSize_append, String.utf8ByteSize_append, String.utf8ByteSize_append,
    String.utf8ByteSize_append]
  omega

theorem join_size (n : Nat) (text : String) :
    (String.join (List.replicate n text)).utf8ByteSize = n * text.utf8ByteSize := by
  induction n with
  | zero => simp [String.join]
  | succ n ih =>
    rw [List.replicate_succ, String.join_cons, String.utf8ByteSize_append, ih, Nat.succ_mul]
    omega

theorem exampleUri_size : exampleUri.utf8ByteSize = 138 := by
  rw [exampleUri, nwaUri_size]
  decide

theorem longUri_size : longUri.utf8ByteSize = 911 := by
  have hletter : "%F0%9F%98%80".utf8ByteSize = 12 := by decide
  rw [longUri, nwaUri_size, join_size, hletter]

theorem longUri_ne : longUri ≠ exampleUri := by
  intro hsame
  have hsize := congrArg String.utf8ByteSize hsame
  rw [longUri_size, exampleUri_size] at hsize
  omega

theorem parse_named {uri name : String} (hurl : nwaCrates.parseUrl uri = some (nwaUrl uri))
    (hpairs : urlParts.queryPairs (nwaUrl uri) = [("name", name), ("relay", relayUrl)])
    (hsize : uri.utf8ByteSize ≤ 8 * 1024) (hname : sanitizeDisplayText name 80 = name)
    (hsome : ¬ name = "") :
    NwaRequest.parse nwaCrates urlParts (some 7) uri 1000 .default = .ok (nwaRequest name) := by
  have hsmall : decide (uri.utf8ByteSize > NwaParsePolicy.default.maximumRequestBytes) = false :=
    decide_eq_false (Nat.not_lt.mpr hsize)
  have hhost : clientHex.utf8ByteSize = Hex32.length := by decide
  have hclient : Hex32.fromHex clientHex = .ok clientPubkey.bytes := by decide
  have hrelay : parseRelay nwaCrates relayUrl = .ok relayUrl := by decide
  simp only [NwaRequest.parse, NwaRequest.parseWithId, NwaQuery.parse, okOr, ok_bind, hurl, hpairs,
    hsmall]
  simp only [nwaUrl, NwaParsePolicy.default]
  simp [ensure, NwaQuery.values, NwaQuery.value, rawName, hhost, hclient, mapErr, parseRelays,
    hrelay, parseExpiration, parseBudget, budgetSat, parseMethods, parseCallback, parseIconUrl,
    hname]
  refine ⟨by decide +kernel, by decide +kernel, by decide, .never, rfl, ?_⟩
  rw [if_neg hsome]
  rfl

theorem sanitizeLoop_emoji {maximumChars n : Nat} {result : List Char}
    (h : result.length + n ≤ maximumChars) :
    sanitizeLoop maximumChars result false (List.replicate n '😀') =
      result ++ List.replicate n '😀' := by
  induction n generalizing result with
  | zero => simp [sanitizeLoop]
  | succ n ih =>
    have hplain : (isControl '😀' || isBidiFormatting '😀') = false := by decide
    have hvisible : isWhitespace '😀' = false := by decide
    have hroom : ¬ maximumChars ≤ result.length := by omega
    have hnext : (result ++ ['😀']).length + n ≤ maximumChars := by
      rw [List.length_append, List.length_singleton]
      omega
    rw [List.replicate_succ, sanitizeLoop, hplain, hvisible]
    simp only [Bool.false_eq_true, if_false, hroom]
    rw [ih hnext]
    simp

theorem sanitize_emoji {n : Nat} (h : n ≤ 80) :
    sanitizeDisplayText (String.ofList (List.replicate n '😀')) 80 =
      String.ofList (List.replicate n '😀') := by
  have hroom : ([] : List Char).length + n ≤ 80 := by simpa using h
  rw [sanitizeDisplayText, String.toList_ofList, sanitizeLoop_emoji hroom, List.nil_append]

theorem emoji_size (n : Nat) : (String.ofList (List.replicate n '😀')).utf8ByteSize = 4 * n := by
  have hemoji : (String.ofList ['😀']).utf8ByteSize = 4 := by decide
  induction n with
  | zero => rfl
  | succ n ih =>
    rw [List.replicate_succ, ← List.singleton_append, String.ofList_append,
      String.utf8ByteSize_append, ih, hemoji, Nat.mul_succ, Nat.add_comm]

theorem longName_size : longName.utf8ByteSize = 260 := emoji_size 65

theorem longName_nonempty : ¬ longName = "" := by
  intro hempty
  have hsize := longName_size
  rw [hempty] at hsize
  cases hsize

theorem parse_example : NwaRequest.parse nwaCrates urlParts (some 7) exampleUri 1000 .default =
    .ok (nwaRequest "Example") := by
  apply parse_named
  · simp [nwaCrates]
  · simp [urlParts, nwaUrl]
  · simp [exampleUri_size]
  · decide
  · simp

theorem parse_long : NwaRequest.parse nwaCrates urlParts (some 7) longUri 1000 .default =
    .ok (nwaRequest longName) := by
  apply parse_named
  · simp [nwaCrates]
  · simp [urlParts, nwaUrl, longUri_ne]
  · simp [longUri_size]
  · exact sanitize_emoji (by decide : 65 ≤ 80)
  · exact longName_nonempty

theorem longName_trimmed : trim longName = longName := by
  apply trim_eq_self
  · simp
    decide
  · simp
    decide

theorem nwaCrates_url {text : String} {url : ParsedUrl} (h : nwaCrates.parseUrl text = some url) :
    (∃ name, url = nwaUrl (nwaUri name) ∧ nwaCrates.parseUrl (nwaUri name) = some url) ∨
      url = ⟨"wss", some "relay.example.com", "", none, none, relayUrl⟩ := by
  have hparsed := h
  unfold nwaCrates at h
  dsimp only at h
  split at h
  · rename_i hknown
    rcases hknown with rfl | rfl
    · exact Or.inl ⟨_, (Option.some.inj h).symm, hparsed⟩
    · exact Or.inl ⟨_, (Option.some.inj h).symm, hparsed⟩
  · unfold crates at h
    dsimp only at h
    split at h
    · exact Or.inr (Option.some.inj h).symm
    · cases h

theorem trim_nwaUri (name : String) : trim (nwaUri name) = nwaUri name :=
  trim_between (a := 'n') (b := 'c') rfl (List.dropLast_append_getLast (by decide)).symm
    (by decide) (by decide)

theorem nwaUri_nonempty (name : String) : (nwaUri name).isEmpty = false :=
  append_nonempty (append_nonempty (by decide))

theorem nwaCrates_urlsCanonical : nwaCrates.UrlsCanonical := by
  intro text url h
  rcases nwaCrates_url h with ⟨name, rfl, hparsed⟩ | rfl
  · exact ⟨nwaUri_nonempty name, hparsed⟩
  · decide

theorem nwaCrates_urlsTrimmed : nwaCrates.UrlsTrimmed := by
  intro text url h _
  rcases nwaCrates_url h with ⟨name, rfl, -⟩ | rfl
  · exact trim_nwaUri name
  · decide +kernel

end Sample

theorem nwa_storable_iff_example :
    (Sample.nwaRequest "Example").Storable Sample.nwaCrates Sample.urlParts ↔
      ∃ url, Sample.nwaCrates.parseUrl Sample.exampleUri = some url ∧
        NwaQuery.Fits Sample.nwaCrates Sample.urlParts ⟨Sample.urlParts.queryPairs url⟩ :=
  nwa_storable_iff Sample.nwaCrates_urlsCanonical Sample.nwaCrates_urlsTrimmed Sample.parse_example

/-- A name within the limit of characters that no connection can have as its display name. -/
theorem long_name_not_storable :
    NwaRequest.parse Sample.nwaCrates Sample.urlParts (some 7) Sample.longUri 1000 .default =
        .ok (Sample.nwaRequest Sample.longName) ∧
      ApplicationConnectionMetadata.new Sample.nwaCrates Sample.urlParts Sample.longName none
        [Sample.relayUrl] = .error .invalidConnection ∧
      ¬ (Sample.nwaRequest Sample.longName).Storable Sample.nwaCrates Sample.urlParts := by
  have hrefused : ApplicationConnectionMetadata.new Sample.nwaCrates Sample.urlParts
      Sample.longName none [Sample.relayUrl] = .error .invalidConnection := by
    have hlong : ¬ 260 ≤ maxDisplayNameBytes := by decide
    simp only [ApplicationConnectionMetadata.new, Sample.longName_trimmed, Sample.longName_size]
    simp [ensure, hlong]
  refine ⟨Sample.parse_long, hrefused, ?_⟩
  intro hstorable
  obtain ⟨metadata, hnew, -⟩ := hstorable.metadata
  cases hrefused.symm.trans hnew

end NwcMobile
