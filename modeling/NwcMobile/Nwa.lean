import NwcMobile.Crates
import NwcMobile.Foundations.Words

/-!
Nostr Wallet Auth requests: a URI from another application that asks for a
connection. Everything in it is untrusted; parsing bounds it, and keeps what the
user will review.
-/

namespace NwcMobile

open Fallible

/-- Accessors of a parsed URL that only authorization requests use. -/
structure UrlParts where
  port : ParsedUrl → Option Nat
  path : ParsedUrl → String
  /-- The decoded pairs of the query string. -/
  queryPairs : ParsedUrl → List (String × String)

/-- `char::is_control`. -/
def isControl (c : Char) : Bool :=
  decide (c.toNat < 0x20) || (decide (0x7f ≤ c.toNat) && decide (c.toNat < 0xa0))

/-- `char::is_whitespace`: the Unicode property `White_Space`. -/
def isWhitespace (c : Char) : Bool :=
  (decide (0x9 ≤ c.toNat) && decide (c.toNat ≤ 0xd)) ||
    c.toNat ∈ [0x20, 0x85, 0xa0, 0x1680, 0x2028, 0x2029, 0x202f, 0x205f, 0x3000] ||
    (decide (0x2000 ≤ c.toNat) && decide (c.toNat ≤ 0x200a))

def isBidiFormatting (c : Char) : Bool :=
  c.toNat ∈ [0x61c, 0x200e, 0x200f] ||
    (decide (0x202a ≤ c.toNat) && decide (c.toNat ≤ 0x202e)) ||
    (decide (0x2066 ≤ c.toNat) && decide (c.toNat ≤ 0x2069))

/-- `str::trim`. -/
def trim (value : String) : String :=
  String.ofList ((value.toList.dropWhile isWhitespace).reverse.dropWhile isWhitespace).reverse

/-- `str::parse` to an unsigned integer below `bound`: an optional plus sign and digits. -/
def parseUnsigned (bound : Nat) (raw : String) : Option Nat :=
  let digits :=
    match raw.toList with
    | '+' :: rest => rest
    | chars => chars
  if digits.isEmpty || !digits.all Char.isDigit then none
  else
    let value := digits.foldl (fun acc digit => acc * 10 + (digit.toNat - '0'.toNat)) 0
    if value < bound then some value else none

inductive NwaError where
  | requestTooLarge
  | invalidUrl
  | unsupportedScheme
  | invalidClientPublicKey
  | duplicateParameter
  | unsupportedVersion
  | unsupportedSecretMode
  | unsupportedResponseMode
  | secretMaterialPresent
  | missingRelay
  | tooManyRelays
  | invalidRelay
  | invalidExpiration
  | expired
  | lifetimeTooLong
  | invalidBudget
  | budgetTooHigh
  | invalidBudgetInterval
  | unknownMethod
  | invalidCallback
  | missingCallbackState
  | invalidCallbackState
  | randomnessUnavailable
deriving DecidableEq, Repr

structure NwaParsePolicy where
  maximumRequestBytes : Nat
  maximumRelays : Nat
  maximumDisplayNameChars : Nat
  maximumLifetime : Duration
  maximumBudgetSat : Nat
deriving DecidableEq, Repr

/-- `NwaParsePolicy::default`. -/
def NwaParsePolicy.default : NwaParsePolicy where
  maximumRequestBytes := 8 * 1024
  maximumRelays := 2
  maximumDisplayNameChars := 80
  maximumLifetime := .fromSecs (30 * 24 * 60 * 60)
  maximumBudgetSat := 1000000

/-- A validated HTTPS callback and its correlation value. -/
structure NwaCallback where
  url : ParsedUrl
  state : String
deriving DecidableEq, Repr

/-- A validated request ready for explicit user review. -/
structure NwaRequest where
  id : BitVec 128
  clientPubkey : PublicKey
  displayName : String
  iconUrl : Option ParsedUrl
  relays : List String
  requestedPolicy : ConnectionPolicy
  expiresAt : Option UnixTimestamp
  callback : Option NwaCallback
deriving DecidableEq

/-- `maximum_mobile_fee_sat`: five percent within fixed bounds. -/
def maximumMobileFeeSat (budgetLimitSat : Nat) : Nat :=
  if budgetLimitSat = 0 then 0
  else min (min (max (budgetLimitSat / 20) 10) 1000) budgetLimitSat

/-- The query of a request; only relays may be given more than once. -/
structure NwaQuery where
  pairs : List (String × String)

namespace NwaQuery

def value (query : NwaQuery) (name : String) : Option String :=
  (query.pairs.find? fun pair => pair.1 == name).map Prod.snd

def values (query : NwaQuery) (name : String) : List String :=
  (query.pairs.filter fun pair => pair.1 == name).map Prod.snd

def parse (parts : UrlParts) (url : ParsedUrl) : Except NwaError NwaQuery := do
  let query : NwaQuery := ⟨parts.queryPairs url⟩
  ensure (!query.pairs.any fun pair => pair.1 != "relay" && decide (1 < (query.values pair.1).length))
    .duplicateParameter
  pure query

end NwaQuery

namespace Nwa

def parseRelay (x : Crates) (value : String) : Except NwaError String := do
  let relay ← okOr (x.parseUrl value) .invalidRelay
  ensure (!(relay.scheme != "wss" || relay.hostStr.isNone || !relay.username.isEmpty ||
    relay.password.isSome || relay.fragment.isSome)) .invalidRelay
  -- There is no fragment left for `set_fragment(None)` to remove.
  pure relay.serialized

def parseRelays (x : Crates) (query : NwaQuery) (policy : NwaParsePolicy) :
    Except NwaError (List String) := do
  let values := query.values "relay"
  ensure (!values.isEmpty) .missingRelay
  ensure (!(decide (values.length > policy.maximumRelays) || policy.maximumRelays == 0))
    .tooManyRelays
  let relays ← values.mapM (parseRelay x)
  let unique := relays.eraseDups
  ensure (!unique.isEmpty) .missingRelay
  pure unique

def parseExpiration (query : NwaQuery) (now : UnixTimestamp) (policy : NwaParsePolicy) :
    Except NwaError (Option UnixTimestamp) :=
  match query.value "expires_at" with
  | none => .ok none
  | some raw => do
    let expiresAt ← okOr (parseUnsigned (2 ^ 64) raw) .invalidExpiration
    ensure (!decide (expiresAt ≤ now)) .expired
    ensure (!decide (expiresAt - now > policy.maximumLifetime.asSecs)) .lifetimeTooLong
    pure (some expiresAt)

def budgetSat (query : NwaQuery) : Except NwaError Nat :=
  match query.value "max_amount" with
  | none => .ok 0
  | some raw => do
    let amountMsat ← okOr (parseUnsigned (2 ^ 64) raw) .invalidBudget
    ensure (amountMsat % 1000 == 0) .invalidBudget
    pure (amountMsat / 1000)

def parseInterval : Option String → Except NwaError BudgetInterval
  | none => .ok .never
  | some value =>
    if value = "" ∨ value = "never" then .ok .never
    else if value = "hourly" then .ok .hourly
    else if value = "daily" then .ok .daily
    else if value = "weekly" then .ok .weekly
    else if value = "monthly" then .ok .monthly
    else if value = "yearly" then .ok .yearly
    else .error .invalidBudgetInterval

def parseBudget (query : NwaQuery) (policy : NwaParsePolicy) : Except NwaError BudgetPolicy := do
  let limit ← budgetSat query
  ensure (!decide (limit > policy.maximumBudgetSat)) .budgetTooHigh
  let interval ← parseInterval (query.value "budget_renewal")
  pure ⟨limit, interval, .countTowardBudget (maximumMobileFeeSat limit)⟩

def parseMethods (query : NwaQuery) : Except NwaError (List NwcMethod) :=
  match (query.value "request_methods").filter fun value => !(trim value).isEmpty with
  | none => .ok [.getInfo]
  | some raw => do
    let names := Words.words (fun c => isWhitespace c || c == ',') raw.toList
    let methods ← names.mapM fun name =>
      okOr (NwcMethod.all.find? fun method => method.asStr == String.ofList name) .unknownMethod
    pure (if methods.isEmpty then [.getInfo] else methods.eraseDups)

def isPublicDomain (host : String) : Bool :=
  let host := host.toLower.toList
  if !host.contains '.' || host == "localhost".toList || ".local".toList.isSuffixOf host ||
      host.contains ':' then
    false
  else
    let parts := host.splitOn '.'
    !(parts.length == 4 && parts.all fun part => (parseUnsigned 256 (String.ofList part)).isSome)

/-- An HTTPS URL of a public domain on the standard port, without credentials or fragment. -/
def isPublicHttps (parts : UrlParts) (url : ParsedUrl) (host : String) : Bool :=
  !(url.scheme != "https" || !url.username.isEmpty || url.password.isSome ||
    url.fragment.isSome || (parts.port url).any (fun port => port != 443) || !isPublicDomain host)

def maxUrlParameterBytes : Nat := 2048

def parseCallback (x : Crates) (parts : UrlParts) (query : NwaQuery) :
    Except NwaError (Option NwaCallback) :=
  match query.value "return_to" with
  | none => do
    ensure (query.value "state").isNone .invalidCallback
    pure none
  | some rawUrl => do
    ensure (!decide (rawUrl.utf8ByteSize > maxUrlParameterBytes)) .invalidCallback
    let state ← okOr (query.value "state") .missingCallbackState
    ensure (!(decide (state.utf8ByteSize < 32) || decide (state.utf8ByteSize > 256) ||
      state.toList.any isControl)) .invalidCallbackState
    let url ← okOr (x.parseUrl rawUrl) .invalidCallback
    let host ← okOr url.hostStr .invalidCallback
    ensure (isPublicHttps parts url host && !(parts.path url).isEmpty) .invalidCallback
    pure (some ⟨url, state⟩)

def parseIconUrl (x : Crates) (parts : UrlParts) (raw : Option String) : Option ParsedUrl := do
  let raw := trim (← raw)
  if raw.isEmpty || decide (raw.utf8ByteSize > maxUrlParameterBytes) then none
  else
    let url ← x.parseUrl raw
    let host ← url.hostStr
    if isPublicHttps parts url host then some url else none

/-- One pass over the characters: control and bidirectional formatting characters are
dropped, runs of whitespace become one space between words. -/
def sanitizeLoop (maximumChars : Nat) (result : List Char) (pendingSpace : Bool) :
    List Char → List Char
  | [] => result
  | c :: rest =>
    if isControl c || isBidiFormatting c then sanitizeLoop maximumChars result pendingSpace rest
    else if isWhitespace c then sanitizeLoop maximumChars result (!result.isEmpty) rest
    else if maximumChars ≤ result.length then result
    else sanitizeLoop maximumChars ((if pendingSpace then result ++ [' '] else result) ++ [c]) false
      rest

def sanitizeDisplayText (value : String) (maximumChars : Nat) : String :=
  String.ofList (sanitizeLoop maximumChars [] false value.toList)

/-- The name the query gives, if any. -/
def rawName (query : NwaQuery) : String :=
  ((query.value "name").or (query.value "appname")).getD "External App"

end Nwa

open Nwa

/-- `NwaRequest::parse_with_id`. -/
def NwaRequest.parseWithId (x : Crates) (parts : UrlParts) (input : String) (now : UnixTimestamp)
    (policy : NwaParsePolicy) (id : BitVec 128) : Except NwaError NwaRequest := do
  ensure (!(decide (input.utf8ByteSize > policy.maximumRequestBytes) ||
    policy.maximumRequestBytes == 0)) .requestTooLarge
  let url ← okOr (x.parseUrl input) .invalidUrl
  ensure (url.scheme ∈ ["nostr+walletauth", "nostr+walletauth+rebelwallet"]) .unsupportedScheme
  ensure (!(!url.username.isEmpty || url.password.isSome)) .secretMaterialPresent
  ensure url.fragment.isNone .secretMaterialPresent
  let clientHex ← okOr url.hostStr .invalidClientPublicKey
  ensure (clientHex.utf8ByteSize == Hex32.length) .invalidClientPublicKey
  let clientPubkey ← mapErr (Hex32.fromHex clientHex) .invalidClientPublicKey
  let query ← NwaQuery.parse parts url
  ensure ((query.value "version").getD "1" == "1") .unsupportedVersion
  ensure (query.value "pubkey").isNone .invalidClientPublicKey
  ensure (((query.value "secret_mode").getD "client").toLower == "client") .unsupportedSecretMode
  ensure (((query.value "response_mode").getD "relay").toLower == "relay") .unsupportedResponseMode
  ensure (["secret", "nwc_uri", "value"].all fun name => (query.value name).isNone)
    .secretMaterialPresent
  let relays ← parseRelays x query policy
  let expiresAt ← parseExpiration query now policy
  let budget ← parseBudget query policy
  let methods ← parseMethods query
  ensure (!(methods.contains .payInvoice &&
    decide (budget.limitSat ≤ maximumMobileFeeSat budget.limitSat))) .invalidBudget
  let callback ← parseCallback x parts query
  let displayName := sanitizeDisplayText (rawName query) policy.maximumDisplayNameChars
  pure
    { id, clientPubkey := ⟨clientPubkey⟩
      displayName := if displayName.isEmpty then "External App" else displayName
      iconUrl := parseIconUrl x parts (query.value "icon")
      relays, requestedPolicy := ConnectionPolicy.new methods budget, expiresAt, callback }

/-- `NwaRequest::parse`: the identifier comes from the random source. -/
def NwaRequest.parse (x : Crates) (parts : UrlParts) (random : Option (BitVec 128))
    (input : String) (now : UnixTimestamp) (policy : NwaParsePolicy) :
    Except NwaError NwaRequest := do
  let id ← okOr random .randomnessUnavailable
  parseWithId x parts input now policy id

end NwcMobile
