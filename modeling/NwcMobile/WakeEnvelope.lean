import NwcMobile.Host
import NwcMobile.WakeInbox

/-!
Push payloads at the native boundary. The library validates the fields of a
payload; before that the Apple and the Android adapter each decode them and keep
what they decoded for a later run. All three bound the same texts, each with its
platform's notion of length.
-/

namespace NwcMobile

open Fallible

/-- A value of a push payload; only texts and booleans are told apart. -/
inductive PayloadValue where
  | string (value : String)
  | boolean (value : Bool)
  | other
deriving DecidableEq, Repr

def PayloadValue.asStr : PayloadValue → Option String
  | .string value => some value
  | _ => none

def PayloadValue.asBool : PayloadValue → Option Bool
  | .boolean value => some value
  | _ => none

/-- The fields of a payload by key. -/
abbrev PayloadFields := String → Option PayloadValue

/-- What `serde_json` reads. -/
inductive PayloadJson where
  | object (fields : PayloadFields)
  | other

inductive WakeEnvelopeError where
  | payloadTooLarge
  | invalidJson
  | wrongProtocol
  | missingField
  | invalidField
  | invalidRelay
  | invalidEventId
  | invalidWalletServicePublicKey
  | embeddedEventTooLarge
deriving DecidableEq, Repr

/-- Untrusted platform fields of a push notification. -/
structure WakeEnvelope where
  relayUrl : String
  eventIdHex : String
  walletServicePublicKeyHex : String
  embeddedEventJson : Option String
  receivedAtSeconds : Nat
  settlementCheck : Bool
deriving DecidableEq, Repr

def maxWakePayloadJsonBytes : Nat := 128 * 1024

def maxEmbeddedWakeEventBytes : Nat := 64 * 1024

namespace WakeEnvelope

def new (relayUrl eventIdHex walletServicePublicKeyHex : String)
    (embeddedEventJson : Option String) (receivedAtSeconds : Nat) : WakeEnvelope :=
  { relayUrl, eventIdHex, walletServicePublicKeyHex, embeddedEventJson, receivedAtSeconds
    settlementCheck := false }

def stringField (object : PayloadFields) (canonical legacy : String) :
    Except WakeEnvelopeError String :=
  match object canonical with
  | some value => okOr value.asStr .invalidField
  | none => do
    let value ← okOr (object legacy) .missingField
    okOr value.asStr .invalidField

def optionalStringField (object : PayloadFields) (canonical legacy : String) :
    Except WakeEnvelopeError (Option String) :=
  match (object canonical).or (object legacy) with
  | some value => (okOr value.asStr .invalidField).map some
  | none => .ok none

def optionalBooleanField (object : PayloadFields) (field : String) :
    Except WakeEnvelopeError Bool :=
  match object field with
  | some value => okOr value.asBool .invalidField
  | none => .ok false

def validate (x : Crates) (envelope : WakeEnvelope) : Except WakeEnvelopeError WakeInput := do
  let relay ← mapErr (SecureRelayUrl.parse x envelope.relayUrl) .invalidRelay
  let eventId ← mapErr (Hex32.fromHex envelope.eventIdHex) .invalidEventId
  let walletServicePubkey ←
    mapErr (Hex32.fromHex envelope.walletServicePublicKeyHex) .invalidWalletServicePublicKey
  ensure (!envelope.embeddedEventJson.any fun event =>
    decide (event.utf8ByteSize > maxEmbeddedWakeEventBytes)) .embeddedEventTooLarge
  pure
    { relay := relay.value
      eventId := ⟨eventId⟩
      walletServicePubkey := ⟨walletServicePubkey⟩
      embeddedEventJson := envelope.embeddedEventJson }

/-- `parse_json`; `fromStr` is `serde_json::from_str`. -/
def parseJson (x : Crates) (fromStr : String → Option PayloadJson) (payloadJson : String)
    (receivedAtSeconds : Nat) : Except WakeEnvelopeError WakeEnvelope := do
  ensure (!decide (payloadJson.utf8ByteSize > maxWakePayloadJsonBytes)) .payloadTooLarge
  match fromStr payloadJson with
  | none | some .other => .error .invalidJson
  | some (.object object) => do
    ensure ((object "protocol").all fun protocol => protocol.asStr == some "nwc_wake")
      .wrongProtocol
    let relayUrl ← stringField object "nwc_relay" "relay"
    let eventIdHex ← stringField object "nwc_event_id" "event_id"
    let walletServicePublicKeyHex ←
      stringField object "nwc_wallet_service_pubkey" "wallet_service_pubkey"
    let embeddedEventJson ← optionalStringField object "nwc_event_json" "nwc_event"
    let settlementCheck ← optionalBooleanField object "settlement_check"
    let envelope :=
      { new relayUrl eventIdHex walletServicePublicKeyHex embeddedEventJson receivedAtSeconds with
        settlementCheck }
    let _ ← validate x envelope
    pure envelope

end WakeEnvelope

/-- Failures of the Apple decoder. -/
inductive NwcWakePayloadError where
  | missingRequiredField
  | invalidFieldType
  | invalidFieldValue
deriving DecidableEq, Repr

namespace NwcWakePayload

def requiredString (userInfo : PayloadFields) (key : String) :
    Except NwcWakePayloadError String := do
  let value ← okOr (userInfo key) .missingRequiredField
  okOr value.asStr .invalidFieldType

def embeddedEvent (userInfo : PayloadFields) : Except NwcWakePayloadError (Option String) :=
  match userInfo "nwc_event_json" with
  | some value => (okOr value.asStr .invalidFieldType).map some
  | none => .ok none

/-- The decoder of the Apple adapter. -/
def decode (text : SwiftText) (userInfo : PayloadFields) :
    Except NwcWakePayloadError NwcWakePayload := do
  let embeddedEventJson ← embeddedEvent userInfo
  let relayUrl ← requiredString userInfo "nwc_relay"
  let eventIdHex ← requiredString userInfo "nwc_event_id"
  let walletServicePublicKeyHex ← requiredString userInfo "nwc_wallet_service_pubkey"
  mapErr (text.validated { relayUrl, eventIdHex, walletServicePublicKeyHex, embeddedEventJson })
    .invalidFieldValue

def normalizedUserInfo (payload : NwcWakePayload) : PayloadFields := fun key =>
  if key = "nwc_relay" then some (.string payload.relayUrl)
  else if key = "nwc_event_id" then some (.string payload.eventIdHex)
  else if key = "nwc_wallet_service_pubkey" then some (.string payload.walletServicePublicKeyHex)
  else if key = "nwc_event_json" then payload.embeddedEventJson.map .string
  else none

/-- The envelope that the Apple adapter hands over. -/
def envelope (payload : NwcWakePayload) (receivedAtSeconds : Nat) : WakeEnvelope :=
  .new payload.relayUrl payload.eventIdHex payload.walletServicePublicKeyHex
    payload.embeddedEventJson receivedAtSeconds

end NwcWakePayload

/-- `String.length`, in UTF-16 code units. -/
def utf16Length (value : String) : Nat :=
  (value.toList.map fun c => if c.toNat < 0x10000 then 1 else 2).sum

/-- The part of Kotlin's `String` whose result depends on Unicode tables. -/
structure JvmText where
  lowercase : String → String

def JvmText.AsciiHex (text : JvmText) : Prop :=
  ∀ value : String, value.toList.all isHexScalar = true → text.lowercase value = value.toLower

namespace Android

structure NwcWakePayload where
  relayUrl : String
  eventIdHex : String
  walletServicePublicKeyHex : String
  receivedAtSeconds : Int
deriving DecidableEq, Repr

inductive NwcWakePayloadError where
  | missingField
  | invalidField
deriving DecidableEq, Repr

/-- `androidx.work.Data`. -/
structure WorkData where
  getString : String → Option String
  getLong : String → Option Int

def isFixedHex (value : String) : Bool :=
  utf16Length value == fixedHexLength && value.toList.all isHexScalar

def within (value : String) (maximum : Nat) : Bool :=
  decide (utf16Length value ≤ maximum) && decide (value.utf8ByteSize ≤ maximum)

def required (remoteData : String → Option String) (key : String) :
    Except NwcWakePayloadError String :=
  okOr ((remoteData key).filter fun value => !value.isEmpty) .missingField

/-- The decoder of the Android adapter; the embedded event is bounded and dropped. -/
def decodeNwcWakePayload (text : JvmText) (remoteData : String → Option String)
    (receivedAtSeconds : Int) : Except NwcWakePayloadError NwcWakePayload := do
  let relayUrl ← required remoteData "nwc_relay"
  let eventId ← required remoteData "nwc_event_id"
  let walletKey ← required remoteData "nwc_wallet_service_pubkey"
  ensure (!decide (receivedAtSeconds < 0) && within relayUrl maximumRelayUrlBytes &&
    ((remoteData "nwc_event_json").all fun event => within event maximumEmbeddedEventBytes) &&
    isFixedHex eventId && isFixedHex walletKey) .invalidField
  pure
    { relayUrl
      eventIdHex := text.lowercase eventId
      walletServicePublicKeyHex := text.lowercase walletKey
      receivedAtSeconds }

namespace NwcWakePayload

def toWorkData (payload : NwcWakePayload) : WorkData where
  getString key :=
    if key = "nwc_relay" then some payload.relayUrl
    else if key = "nwc_event_id" then some payload.eventIdHex
    else if key = "nwc_wallet_service_pubkey" then some payload.walletServicePublicKeyHex
    else none
  getLong key :=
    if key = "nwc_received_at_seconds" then some payload.receivedAtSeconds else none

/-- The envelope that the Android adapter hands over. -/
def envelope (payload : NwcWakePayload) (receivedAtSeconds : Nat) : WakeEnvelope :=
  .new payload.relayUrl payload.eventIdHex payload.walletServicePublicKeyHex none
    receivedAtSeconds

end NwcWakePayload

def decodeNwcWakeWorkData (text : JvmText) (data : WorkData) :
    Except NwcWakePayloadError NwcWakePayload :=
  decodeNwcWakePayload text
    (fun key =>
      if key ∈ ["nwc_relay", "nwc_event_id", "nwc_wallet_service_pubkey"] then data.getString key
      else none)
    ((data.getLong "nwc_received_at_seconds").getD (-1))

end Android

/-- A Swift `Character` is a cluster of one or more scalars. -/
def SwiftText.CountsClusters (text : SwiftText) : Prop :=
  ∀ value : String, ∃ clusters : List (List Char),
    clusters.flatten = value.toList ∧ [] ∉ clusters ∧ text.count value = clusters.length

/-- A payload whose canonical fields are texts; the embedded event may be missing. -/
structure CanonicalFields (payload : PayloadFields) (relay eventId wallet : String)
    (event : Option String) : Prop where
  relay : payload "nwc_relay" = some (.string relay)
  eventId : payload "nwc_event_id" = some (.string eventId)
  wallet : payload "nwc_wallet_service_pubkey" = some (.string wallet)
  event : payload "nwc_event_json" = event.map .string

/-- The data message with the texts of a payload. -/
def remoteData (payload : PayloadFields) (key : String) : Option String :=
  (payload key).bind PayloadValue.asStr

section Lengths

theorem utf8ByteSize_eq_sum (value : String) :
    value.utf8ByteSize = (value.toList.map Char.utf8Size).sum := by
  have hlist : ∀ chars : List Char,
      (String.ofList chars).utf8ByteSize = (chars.map Char.utf8Size).sum := by
    intro chars
    induction chars with
    | nil => rfl
    | cons c rest ih =>
      have hcons : String.ofList (c :: rest) = String.singleton c ++ String.ofList rest := by
        apply String.toList_inj.mp
        simp
      rw [hcons, String.utf8ByteSize_append, String.utf8ByteSize_singleton, ih, List.map_cons,
        List.sum_cons]
  rw [← hlist, String.ofList_toList]

theorem length_le_utf8ByteSize (value : String) : value.length ≤ value.utf8ByteSize := by
  rw [utf8ByteSize_eq_sum, ← String.length_toList]
  induction value.toList with
  | nil => exact Nat.le_refl 0
  | cons c rest ih =>
    have hpos := c.utf8Size_pos
    rw [List.length_cons, List.map_cons, List.sum_cons]
    omega

/-- A text has no more UTF-16 units than UTF-8 bytes. -/
theorem utf16Length_le_utf8ByteSize (value : String) : utf16Length value ≤ value.utf8ByteSize := by
  have hchar : ∀ c : Char, (if c.toNat < 0x10000 then 1 else 2) ≤ c.utf8Size := by
    intro c
    split
    · exact c.utf8Size_pos
    · rename_i hwide
      have hfour : c.utf8Size = 4 := by
        rw [Char.utf8Size_eq_four_iff, UInt32.lt_iff_toNat_lt]
        have hval : c.val.toNat = c.toNat := rfl
        have hbound : (0xffff : UInt32).toNat = 0xffff := rfl
        omega
      omega
  rw [utf8ByteSize_eq_sum, utf16Length]
  apply List.sum_le_sum
  exact fun c _ => hchar c

theorem SwiftText.CountsClusters.le {text : SwiftText} (h : text.CountsClusters) (value : String) :
    text.count value ≤ value.utf8ByteSize := by
  obtain ⟨clusters, hflatten, hfilled, hcount⟩ := h value
  have hlength : clusters.length ≤ clusters.flatten.length := by
    clear hflatten hcount
    induction clusters with
    | nil => exact Nat.le_refl 0
    | cons cluster rest ih =>
      rw [List.mem_cons, not_or] at hfilled
      have hpos := List.length_pos_of_ne_nil (Ne.symm hfilled.1)
      have hrest := ih hfilled.2
      rw [List.length_cons, List.flatten_cons, List.length_append]
      omega
  rw [hflatten, String.length_toList] at hlength
  exact hcount.trans_le (hlength.trans (length_le_utf8ByteSize value))

end Lengths

section Hex

variable {value : String} {bytes : BitVec 256}

theorem decodeNibble_hex {c : Char} {nibble : Nat} (h : Hex32.decodeNibble c = some nibble) :
    isHexScalar c = true := by
  unfold Hex32.decodeNibble at h
  simp only [isHexScalar, Bool.or_eq_true, Bool.and_eq_true, decide_eq_true_eq]
  split at h
  · rename_i hdigit
    exact Or.inl (Or.inl hdigit)
  · split at h
    · rename_i hlower
      exact Or.inr hlower
    · split at h
      · rename_i hupper
        exact Or.inl (Or.inr hupper)
      · cases h

theorem decodeNibble_toLower {c : Char} (h : isHexScalar c = true) :
    Hex32.decodeNibble c.toLower = Hex32.decodeNibble c := by
  have hall : ∀ n < 128, isHexScalar (Char.ofNat n) = true →
      Hex32.decodeNibble (Char.ofNat n).toLower = Hex32.decodeNibble (Char.ofNat n) := by
    decide
  rw [← Char.ofNat_toNat c] at h ⊢
  exact hall c.toNat (isHexScalar_ascii (by rwa [Char.ofNat_toNat] at h)) h

/-- Hexadecimal text has one byte and one UTF-16 unit for each digit. -/
theorem hex_lengths (h : value.toList.all isHexScalar = true) :
    value.utf8ByteSize = value.length ∧ utf16Length value = value.length := by
  rw [List.all_eq_true] at h
  rw [utf8ByteSize_eq_sum, utf16Length, ← String.length_toList]
  generalize value.toList = chars at h ⊢
  induction chars with
  | nil => exact ⟨rfl, rfl⟩
  | cons c rest ih =>
    rw [List.forall_mem_cons] at h
    obtain ⟨hbytes, hunits⟩ := ih h.2
    have hascii := isHexScalar_ascii h.1
    have hone : c.utf8Size = 1 := by
      rw [Char.utf8Size_eq_one_iff, UInt32.le_iff_toNat_le]
      have hval : c.val.toNat = c.toNat := rfl
      have hbound : (127 : UInt32).toNat = 127 := rfl
      omega
    have hnarrow : c.toNat < 0x10000 := by omega
    simp only [List.map_cons, List.sum_cons, List.length_cons, hbytes, hunits, hone, if_pos hnarrow]
    omega

theorem decodeNibbles_hex {chars : List Char} {nibbles : List Nat}
    (h : chars.mapM Hex32.decodeNibble = some nibbles) : ∀ c ∈ chars, isHexScalar c = true := by
  induction chars generalizing nibbles with
  | nil => simp
  | cons c rest ih =>
    simp only [List.mapM_cons, Option.bind_eq_bind, Option.bind_eq_some_iff] at h
    obtain ⟨nibble, hnibble, others, hothers, -⟩ := h
    rw [List.forall_mem_cons]
    exact ⟨decodeNibble_hex hnibble, ih hothers⟩

theorem fromHex_ok (h : Hex32.fromHex value = .ok bytes) :
    value.toList.all isHexScalar = true ∧ value.length = 64 := by
  unfold Hex32.fromHex at h
  split at h
  · cases h
  · rename_i hsize
    rw [not_not] at hsize
    simp only [bind_eq_ok, okOr_eq_ok, pure_eq_ok] at h
    obtain ⟨nibbles, hnibbles, -⟩ := h
    have hhex : value.toList.all isHexScalar = true :=
      List.all_eq_true.mpr (decodeNibbles_hex hnibbles)
    exact ⟨hhex, by rw [← (hex_lengths hhex).1, hsize]; rfl⟩

/-- Either case is read as the same bytes. -/
theorem fromHex_toLower (h : value.toList.all isHexScalar = true) :
    Hex32.fromHex value.toLower = Hex32.fromHex value := by
  obtain ⟨hlower, -, hlength⟩ := toLower_hex h
  have hsize : value.toLower.utf8ByteSize = value.utf8ByteSize := by
    rw [(hex_lengths hlower).1, hlength, (hex_lengths h).1]
  have hnibbles : value.toLower.toList.mapM Hex32.decodeNibble =
      value.toList.mapM Hex32.decodeNibble := by
    rw [List.all_eq_true] at h
    rw [Words.toList_toLower]
    clear hlower hlength hsize
    generalize value.toList = chars at h ⊢
    induction chars with
    | nil => rfl
    | cons c rest ih =>
      rw [List.forall_mem_cons] at h
      rw [List.map_cons, List.mapM_cons, List.mapM_cons, decodeNibble_toLower h.1, ih h.2]
  rw [Hex32.fromHex, Hex32.fromHex, hsize, hnibbles]

end Hex

section Decoders

variable {x : Crates} {swift : SwiftText} {jvm : JvmText} {payload : PayloadFields}
  {relay eventId wallet value : String} {event : Option String} {receivedAt : Nat}
  {input : WakeInput} {bytes : BitVec 256}

theorem parse_bounds {parsed : SecureRelayUrl} (h : SecureRelayUrl.parse x relay = .ok parsed) :
    relay.isEmpty = false ∧ relay.utf8ByteSize ≤ maximumRelayUrlBytes := by
  unfold SecureRelayUrl.parse at h
  split at h
  · cases h
  · rename_i hbounds
    rw [Bool.or_eq_true, decide_eq_true_eq, not_or, Bool.not_eq_true] at hbounds
    exact ⟨hbounds.1, Nat.not_lt.mp hbounds.2⟩

/-- What a validated envelope holds, and what it is sealed into. -/
theorem validate_eq_ok :
    (WakeEnvelope.new relay eventId wallet event receivedAt).validate x = .ok input ↔
      ∃ parsed id key, SecureRelayUrl.parse x relay = .ok parsed ∧
        Hex32.fromHex eventId = .ok id ∧ Hex32.fromHex wallet = .ok key ∧
        (∀ json ∈ event, json.utf8ByteSize ≤ maximumEmbeddedEventBytes) ∧
        input = ⟨parsed.value, ⟨id⟩, ⟨key⟩, event⟩ := by
  have hbound : ((!event.any fun json => decide (json.utf8ByteSize > maxEmbeddedWakeEventBytes)) =
      true) ↔ ∀ json ∈ event, json.utf8ByteSize ≤ maximumEmbeddedEventBytes := by
    cases event <;> simp [maxEmbeddedWakeEventBytes, maximumEmbeddedEventBytes]
  simp only [WakeEnvelope.validate, WakeEnvelope.new, bind_eq_ok, mapErr_eq_ok, ensure_eq_ok,
    pure_eq_ok, hbound]
  constructor
  · rintro ⟨parsed, hparsed, id, hid, key, hkey, -, hevent, rfl⟩
    exact ⟨parsed, id, key, hparsed, hid, hkey, hevent, rfl⟩
  · rintro ⟨parsed, id, key, hparsed, hid, hkey, hevent, rfl⟩
    exact ⟨parsed, hparsed, id, hid, key, hkey, (), hevent, rfl⟩

theorem swift_isFixedHex (htext : swift.AsciiHex) (h : Hex32.fromHex value = .ok bytes) :
    swift.isFixedHex value = true ∧ Hex32.fromHex (swift.lowercased value) = .ok bytes := by
  obtain ⟨hhex, hlength⟩ := fromHex_ok h
  rw [SwiftText.isFixedHex, htext.count value hhex, hlength, htext.lowercased value hhex,
    fromHex_toLower hhex]
  exact ⟨by rw [hhex]; rfl, h⟩

theorem android_isFixedHex (htext : jvm.AsciiHex) (h : Hex32.fromHex value = .ok bytes) :
    Android.isFixedHex value = true ∧ Hex32.fromHex (jvm.lowercase value) = .ok bytes := by
  obtain ⟨hhex, hlength⟩ := fromHex_ok h
  rw [Android.isFixedHex, (hex_lengths hhex).2, hlength, htext value hhex, fromHex_toLower hhex]
  exact ⟨by rw [hhex]; rfl, h⟩

theorem swift_within (hclusters : swift.CountsClusters) {maximum : Nat}
    (h : value.utf8ByteSize ≤ maximum) : swift.within value maximum = true := by
  have hcount := (hclusters.le value).trans h
  rw [SwiftText.within, decide_eq_true hcount, decide_eq_true h, Bool.and_self]

theorem android_within {maximum : Nat} (h : value.utf8ByteSize ≤ maximum) :
    Android.within value maximum = true := by
  have hunits := (utf16Length_le_utf8ByteSize value).trans h
  rw [Android.within, decide_eq_true hunits, decide_eq_true h, Bool.and_self]

/-- The Apple adapter takes what the library validates, and hands over what is sealed the same. -/
theorem decode_of_validate (htext : swift.AsciiHex) (hclusters : swift.CountsClusters)
    (hfields : CanonicalFields payload relay eventId wallet event)
    (h : (WakeEnvelope.new relay eventId wallet event receivedAt).validate x = .ok input) :
    ∃ decoded, NwcWakePayload.decode swift payload = .ok decoded ∧
      (decoded.envelope receivedAt).validate x = .ok input := by
  obtain ⟨parsed, id, key, hparsed, hid, hkey, hevent, rfl⟩ := validate_eq_ok.mp h
  obtain ⟨hfilled, hshort⟩ := parse_bounds hparsed
  obtain ⟨hfixedId, hlowerId⟩ := swift_isFixedHex htext hid
  obtain ⟨hfixedKey, hlowerKey⟩ := swift_isFixedHex htext hkey
  have hembedded : NwcWakePayload.embeddedEvent payload = .ok event := by
    rw [NwcWakePayload.embeddedEvent, hfields.event]
    cases event <;> rfl
  have hrequired : ∀ {name text : String}, payload name = some (.string text) →
      NwcWakePayload.requiredString payload name = .ok text := by
    intro name text hname
    rw [NwcWakePayload.requiredString, hname]
    rfl
  have hbounded : event.all (fun json => swift.within json maximumEmbeddedEventBytes) = true := by
    cases event with
    | none => rfl
    | some json => exact swift_within hclusters (hevent json rfl)
  refine ⟨⟨relay, swift.lowercased eventId, swift.lowercased wallet, event⟩, ?_, ?_⟩
  · simp only [NwcWakePayload.decode, bind_eq_ok, mapErr_eq_ok, SwiftText.validated, ensure_eq_ok,
      pure_eq_ok]
    refine ⟨event, hembedded, relay, hrequired hfields.relay, eventId, hrequired hfields.eventId,
      wallet, hrequired hfields.wallet, (), ?_, rfl⟩
    rw [hfilled, swift_within hclusters hshort, hfixedId, hfixedKey, hbounded]
    rfl
  · exact validate_eq_ok.mpr ⟨parsed, id, key, hparsed, hlowerId, hlowerKey, hevent, rfl⟩

/-- The Android adapter takes it too; the embedded event alone is left out. -/
theorem decodeNwcWakePayload_of_validate (htext : jvm.AsciiHex) {seconds : Int}
    (hseconds : 0 ≤ seconds) (hfields : CanonicalFields payload relay eventId wallet event)
    (h : (WakeEnvelope.new relay eventId wallet event receivedAt).validate x = .ok input) :
    ∃ decoded, Android.decodeNwcWakePayload jvm (remoteData payload) seconds = .ok decoded ∧
      (decoded.envelope receivedAt).validate x = .ok { input with embeddedEventJson := none } := by
  obtain ⟨parsed, id, key, hparsed, hid, hkey, hevent, rfl⟩ := validate_eq_ok.mp h
  obtain ⟨hfilled, hshort⟩ := parse_bounds hparsed
  obtain ⟨hfixedId, hlowerId⟩ := android_isFixedHex htext hid
  obtain ⟨hfixedKey, hlowerKey⟩ := android_isFixedHex htext hkey
  have hhexFilled : ∀ {text : String} {bytes : BitVec 256}, Hex32.fromHex text = .ok bytes →
      text.isEmpty = false := by
    intro text bytes htext
    rw [← Bool.not_eq_true, String.isEmpty_iff]
    rintro rfl
    exact absurd (fromHex_ok htext).2 (by decide)
  have hrequired : ∀ {name text : String}, payload name = some (.string text) →
      text.isEmpty = false → Android.required (remoteData payload) name = .ok text := by
    intro name text hname hfilled
    rw [Android.required, remoteData, hname]
    simp only [Option.bind_some, PayloadValue.asStr, Option.filter_some, hfilled, Bool.not_false]
    rfl
  have hbounded : (remoteData payload "nwc_event_json").all
      (fun json => Android.within json maximumEmbeddedEventBytes) = true := by
    rw [remoteData, hfields.event]
    cases event with
    | none => rfl
    | some json => exact android_within (hevent json rfl)
  have hpast : (!decide (seconds < 0)) = true := by simpa using hseconds
  refine ⟨⟨relay, jvm.lowercase eventId, jvm.lowercase wallet, seconds⟩, ?_, ?_⟩
  · simp only [Android.decodeNwcWakePayload, bind_eq_ok, ensure_eq_ok, pure_eq_ok]
    refine ⟨relay, hrequired hfields.relay hfilled, eventId,
      hrequired hfields.eventId (hhexFilled hid), wallet,
      hrequired hfields.wallet (hhexFilled hkey), (), ?_, rfl⟩
    rw [hpast, android_within hshort, hbounded, hfixedId, hfixedKey]
    rfl
  · refine validate_eq_ok.mpr ⟨parsed, id, key, hparsed, hlowerId, hlowerKey, ?_, rfl⟩
    intro json hjson
    cases hjson

/-- Validated text of the Apple adapter is in its final form. -/
theorem validated_again (htext : swift.AsciiHex) {first kept : NwcWakePayload}
    (h : swift.validated first = .ok kept) : swift.validated kept = .ok kept := by
  simp only [SwiftText.validated, bind_eq_ok, ensure_eq_ok, pure_eq_ok, Bool.and_eq_true] at h
  obtain ⟨-, ⟨⟨⟨hrelay, heventId⟩, hwallet⟩, hevent⟩, rfl⟩ := h
  obtain ⟨heventId', hsameId⟩ := htext.canonical heventId
  obtain ⟨hwallet', hsameWallet⟩ := htext.canonical hwallet
  simp only [SwiftText.validated, bind_eq_ok, ensure_eq_ok, pure_eq_ok, Bool.and_eq_true]
  refine ⟨(), ⟨⟨⟨hrelay, heventId'⟩, hwallet'⟩, hevent⟩, ?_⟩
  simp only [hsameId, hsameWallet]

theorem decode_normalizedUserInfo (htext : swift.AsciiHex) {decoded : NwcWakePayload}
    (h : NwcWakePayload.decode swift payload = .ok decoded) :
    NwcWakePayload.decode swift decoded.normalizedUserInfo = .ok decoded := by
  simp only [NwcWakePayload.decode, bind_eq_ok, mapErr_eq_ok] at h
  obtain ⟨_, -, _, -, _, -, _, -, hvalidated⟩ := h
  have hembedded : NwcWakePayload.embeddedEvent decoded.normalizedUserInfo =
      .ok decoded.embeddedEventJson := by
    have hvalue : decoded.normalizedUserInfo "nwc_event_json" =
        decoded.embeddedEventJson.map .string := rfl
    rw [NwcWakePayload.embeddedEvent, hvalue]
    cases decoded.embeddedEventJson <;> rfl
  simp only [NwcWakePayload.decode, bind_eq_ok, mapErr_eq_ok]
  exact ⟨_, hembedded, _, rfl, _, rfl, _, rfl, validated_again htext hvalidated⟩

theorem android_isFixedHex_lowercase (htext : jvm.AsciiHex) (h : Android.isFixedHex value = true) :
    Android.isFixedHex (jvm.lowercase value) = true ∧
      jvm.lowercase (jvm.lowercase value) = jvm.lowercase value := by
  rw [Android.isFixedHex, Bool.and_eq_true, beq_iff_eq] at h
  obtain ⟨hunits, hhex⟩ := h
  obtain ⟨hlower, hagain, hlength⟩ := toLower_hex hhex
  rw [htext value hhex, htext _ hlower, hagain]
  refine ⟨?_, rfl⟩
  rw [Android.isFixedHex, Bool.and_eq_true, beq_iff_eq, (hex_lengths hlower).2, hlength,
    ← (hex_lengths hhex).2]
  exact ⟨hunits, hlower⟩

theorem decodeNwcWakeWorkData_toWorkData (htext : jvm.AsciiHex) {data : String → Option String}
    {seconds : Int} {decoded : Android.NwcWakePayload}
    (h : Android.decodeNwcWakePayload jvm data seconds = .ok decoded) :
    Android.decodeNwcWakeWorkData jvm decoded.toWorkData = .ok decoded := by
  simp only [Android.decodeNwcWakePayload, bind_eq_ok, ensure_eq_ok, pure_eq_ok,
    Bool.and_eq_true] at h
  obtain ⟨relayUrl, hrelay, eventId, heventId, walletKey, hwallet, -,
    ⟨⟨⟨⟨hseconds, hshort⟩, -⟩, hfixedId⟩, hfixedKey⟩, rfl⟩ := h
  obtain ⟨hfixedId', hsameId⟩ := android_isFixedHex_lowercase htext hfixedId
  obtain ⟨hfixedKey', hsameKey⟩ := android_isFixedHex_lowercase htext hfixedKey
  have hrequired : ∀ {remote : String → Option String} {name text : String},
      remote name = some text → text.isEmpty = false →
        Android.required remote name = .ok text := by
    intro remote name text hname hfilled
    rw [Android.required, hname, Option.filter_some, hfilled]
    rfl
  have hrelayFilled : relayUrl.isEmpty = false := by
    rw [Android.required, okOr_eq_ok, Option.filter_eq_some_iff] at hrelay
    simpa using hrelay.2
  have hhexFilled : ∀ {text : String}, Android.isFixedHex text = true → text.isEmpty = false := by
    intro text hfixed
    rw [← Bool.not_eq_true, String.isEmpty_iff]
    rintro rfl
    exact absurd hfixed (by decide)
  simp only [Android.decodeNwcWakeWorkData, Android.decodeNwcWakePayload, bind_eq_ok, ensure_eq_ok,
    pure_eq_ok, Bool.and_eq_true]
  refine ⟨_, hrequired rfl hrelayFilled, _, hrequired rfl (hhexFilled hfixedId'), _,
    hrequired rfl (hhexFilled hfixedKey'), (), ⟨⟨⟨⟨hseconds, hshort⟩, rfl⟩, hfixedId'⟩, hfixedKey'⟩,
    ?_⟩
  simp only [hsameId, hsameKey]
  rfl

/-- The library reads the canonical fields of a payload that has them, and validates them. -/
theorem parseJson_canonical {fromStr : String → Option PayloadJson} {text : String}
    {envelope : WakeEnvelope} (hread : fromStr text = some (.object payload))
    (hfields : CanonicalFields payload relay eventId wallet event)
    (h : WakeEnvelope.parseJson x fromStr text receivedAt = .ok envelope) :
    (envelope.relayUrl = relay ∧ envelope.eventIdHex = eventId ∧
      envelope.walletServicePublicKeyHex = wallet) ∧
    (event.isSome = true ∨ payload "nwc_event" = none → envelope.embeddedEventJson = event) ∧
    ∃ input, (WakeEnvelope.new relay eventId wallet event receivedAt).validate x = .ok input := by
  have hstring : ∀ {canonical legacy value : String}, payload canonical = some (.string value) →
      WakeEnvelope.stringField payload canonical legacy = .ok value := by
    intro canonical legacy value hvalue
    rw [WakeEnvelope.stringField, hvalue]
    rfl
  simp only [WakeEnvelope.parseJson, hread, bind_eq_ok, hstring hfields.relay,
    hstring hfields.eventId, hstring hfields.wallet, Except.ok.injEq, exists_eq_left',
    pure_eq_ok] at h
  obtain ⟨-, -, -, -, embedded, hembedded, settlement, -, sealed, hvalid, rfl⟩ := h
  have hcases : embedded = event ∨ event = none ∧ payload "nwc_event" ≠ none := by
    rw [WakeEnvelope.optionalStringField, hfields.event] at hembedded
    cases event with
    | some json =>
      cases hembedded
      exact Or.inl rfl
    | none =>
      cases hlegacy : payload "nwc_event" with
      | none =>
        rw [hlegacy] at hembedded
        cases hembedded
        exact Or.inl rfl
      | some value => exact Or.inr ⟨rfl, Option.some_ne_none value⟩
  have hvalid' : (WakeEnvelope.new relay eventId wallet embedded receivedAt).validate x =
      .ok sealed := hvalid
  obtain ⟨parsed, id, key, hparsed, hid, hkey, hevent, -⟩ := validate_eq_ok.mp hvalid'
  refine ⟨⟨rfl, rfl, rfl⟩, ?_, ?_⟩
  · rintro hkept
    rcases hcases with rfl | ⟨rfl, hlegacy⟩
    · rfl
    · rcases hkept with hsome | hnone
      · cases hsome
      · exact absurd hnone hlegacy
  · refine ⟨_, validate_eq_ok.mpr ⟨parsed, id, key, hparsed, hid, hkey, ?_, rfl⟩⟩
    rcases hcases with rfl | ⟨rfl, -⟩
    · exact hevent
    · intro json hjson
      cases hjson

end Decoders

/-- The three decoders agree. What the library reads and validates is taken by both adapters,
and what these hand over is sealed into the same relay, event and wallet key (with the same
embedded event on Apple platforms, without one on Android). What an adapter decoded it decodes
again unchanged from its own encoding. -/
theorem native_decoders_agree {x : Crates} {swift : SwiftText} {jvm : JvmText}
    (hswift : swift.AsciiHex) (hclusters : swift.CountsClusters) (hjvm : jvm.AsciiHex) :
    (∀ payload relay eventId wallet event, CanonicalFields payload relay eventId wallet event →
      (∀ receivedAt input,
        (WakeEnvelope.new relay eventId wallet event receivedAt).validate x = .ok input →
          (∃ decoded, NwcWakePayload.decode swift payload = .ok decoded ∧
            (decoded.envelope receivedAt).validate x = .ok input) ∧
          ∀ seconds : Int, 0 ≤ seconds → ∃ decoded,
            Android.decodeNwcWakePayload jvm (remoteData payload) seconds = .ok decoded ∧
              (decoded.envelope receivedAt).validate x =
                .ok { input with embeddedEventJson := none }) ∧
      ∀ fromStr text receivedAt envelope, fromStr text = some (.object payload) →
        WakeEnvelope.parseJson x fromStr text receivedAt = .ok envelope →
          (envelope.relayUrl = relay ∧ envelope.eventIdHex = eventId ∧
            envelope.walletServicePublicKeyHex = wallet) ∧
          (event.isSome = true ∨ payload "nwc_event" = none →
            envelope.embeddedEventJson = event) ∧
          ∃ input, (WakeEnvelope.new relay eventId wallet event receivedAt).validate x =
            .ok input) ∧
    (∀ userInfo decoded, NwcWakePayload.decode swift userInfo = .ok decoded →
      NwcWakePayload.decode swift decoded.normalizedUserInfo = .ok decoded) ∧
    ∀ data seconds decoded, Android.decodeNwcWakePayload jvm data seconds = .ok decoded →
      Android.decodeNwcWakeWorkData jvm decoded.toWorkData = .ok decoded := by
  refine ⟨?_, ?_, ?_⟩
  · intro payload relay eventId wallet event hfields
    constructor
    · intro receivedAt input hvalid
      constructor
      · exact decode_of_validate hswift hclusters hfields hvalid
      · intro seconds hseconds
        exact decodeNwcWakePayload_of_validate hjvm hseconds hfields hvalid
    · intro fromStr text receivedAt envelope hread hparsed
      exact parseJson_canonical hread hfields hparsed
  · intro userInfo decoded hdecoded
    exact decode_normalizedUserInfo hswift hdecoded
  · intro data seconds decoded hdecoded
    exact decodeNwcWakeWorkData_toWorkData hjvm hdecoded

namespace Sample

def jvmText : JvmText := ⟨String.toLower⟩

theorem jvmText_asciiHex : jvmText.AsciiHex := fun _ _ => rfl

theorem swiftText_countsClusters : swiftText.CountsClusters := by
  intro value
  refine ⟨value.toList.map fun c => [c], ?_, ?_, ?_⟩
  · rw [← List.flatMap_def, List.flatMap_singleton']
  · simp
  · rw [List.length_map, String.length_toList]
    rfl

def wakePayload : PayloadFields := fun key =>
  if key = "nwc_relay" then some (.string relayUrl)
  else if key = "nwc_event_id" then some (.string clientHex)
  else if key = "nwc_wallet_service_pubkey" then some (.string walletServiceHex)
  else if key = "nwc_event_json" then some (.string "{}")
  else none

theorem wakePayload_fields :
    CanonicalFields wakePayload relayUrl clientHex walletServiceHex (some "{}") :=
  ⟨rfl, rfl, rfl, rfl⟩

end Sample

theorem native_decoders_agree_example :
    (∃ decoded, NwcWakePayload.decode Sample.swiftText Sample.wakePayload = .ok decoded ∧
      (decoded.envelope 42).validate Sample.crates = .ok
        ⟨Sample.relayUrl, ⟨Sample.clientPubkey.bytes⟩, Sample.walletServicePubkey, some "{}"⟩ ∧
      NwcWakePayload.decode Sample.swiftText decoded.normalizedUserInfo = .ok decoded) ∧
    ∃ decoded, Android.decodeNwcWakePayload Sample.jvmText (remoteData Sample.wakePayload) 42 =
        .ok decoded ∧
      (decoded.envelope 42).validate Sample.crates = .ok
        ⟨Sample.relayUrl, ⟨Sample.clientPubkey.bytes⟩, Sample.walletServicePubkey, none⟩ ∧
      Android.decodeNwcWakeWorkData Sample.jvmText decoded.toWorkData = .ok decoded := by
  obtain ⟨hagree, hswiftAgain, hjvmAgain⟩ := @native_decoders_agree Sample.crates
    Sample.swiftText Sample.jvmText Sample.swiftText_asciiHex Sample.swiftText_countsClusters
    Sample.jvmText_asciiHex
  have hvalid : (WakeEnvelope.new Sample.relayUrl Sample.clientHex Sample.walletServiceHex
      (some "{}") 42).validate Sample.crates = .ok
        ⟨Sample.relayUrl, ⟨Sample.clientPubkey.bytes⟩, Sample.walletServicePubkey, some "{}"⟩ := by
    decide
  obtain ⟨hswift, hjvm⟩ := (hagree _ _ _ _ _ Sample.wakePayload_fields).1 42 _ hvalid
  constructor
  · obtain ⟨decoded, hdecoded, hsealed⟩ := hswift
    exact ⟨decoded, hdecoded, hsealed, hswiftAgain _ _ hdecoded⟩
  · obtain ⟨decoded, hdecoded, hsealed⟩ := hjvm 42 (by decide)
    exact ⟨decoded, hdecoded, hsealed, hjvmAgain _ _ _ hdecoded⟩

end NwcMobile
