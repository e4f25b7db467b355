import NwcMobile.Crates

/-!
The authenticated boundary to Nostr: which request events are accepted for a
wake and a connection, how a request is decrypted and how its response is built.
-/

namespace NwcMobile

open Fallible

inductive NostrEventError where
  | payloadTooLarge
  | malformedEvent
  | invalidSignature
  | eventIdMismatch
  | unexpectedKind
  | unexpectedAuthor
  | unexpectedRecipient
  | invalidCreatedAt
  | invalidCiphertext
  | invalidSecretKey
  | secretKeyMismatch
  | decryptionFailed
  | plaintextTooLarge
  | responseBuildFailed
deriving DecidableEq, Repr

def walletConnectRequestKind : Nat := 23194

def walletConnectResponseKind : Nat := 23195

/-- A signed request that has been bound to a wake and a connection. -/
structure ValidatedNwcEvent where
  id : EventId
  author : PublicKey
  walletServicePubkey : PublicKey
  createdAt : UnixTimestamp
  encryption : NwcEncryption
  ciphertext : String
  maximumPlaintextBytes : Nat
deriving DecidableEq, Repr

/-- `str::split_once` on characters: cut at the first occurrence of `separator`. -/
def splitOnce (separator : List Char) : List Char → Option (List Char × List Char)
  | [] => if separator.isEmpty then some ([], []) else none
  | c :: rest =>
    if separator.isPrefixOf (c :: rest) then some ([], (c :: rest).drop separator.length)
    else (splitOnce separator rest).map fun parts => (c :: parts.1, parts.2)

/-- `str::contains`. -/
def containsText (separator : List Char) (text : List Char) : Bool :=
  (splitOnce separator text).isSome

def ivSeparator : List Char := ['?', 'i', 'v', '=']

def ciphertextMatches (encryption : NwcEncryption) (content : String) : Bool :=
  if content.isEmpty then false
  else
    match encryption with
    | .nip44V2 =>
      !containsText ivSeparator content.toList && decide (content.utf8ByteSize ≥ 132)
    | .legacyNip04 =>
      (splitOnce ivSeparator content.toList).any fun parts =>
        !parts.1.isEmpty && !parts.2.isEmpty && !containsText ivSeparator parts.2

variable (x : Crates)

/-- Exactly one `p` tag, and it names the expected key. -/
def hasExactRecipient (event : NostrEvent) (expected : PublicKey) : Bool :=
  match event.tags.filter fun tag => tag.head? == some "p" with
  | [recipient] => recipient[1]?.any fun value => x.publicKeyFromHex value == some expected
  | _ => false

/-- `NwcEventValidator::candidate_author`: an untrusted lookup key. -/
def candidateAuthor (policy : WakePolicy) (eventJson : String) :
    Except NostrEventError PublicKey := do
  ensure (!decide (eventJson.utf8ByteSize > policy.maximumPayloadBytes)) .payloadTooLarge
  let event ← okOr (x.eventFromJson eventJson) .malformedEvent
  pure event.pubkey

/-- `validate_request_for_replay`: every authenticated property but freshness. -/
def validateRequestForReplay (policy : WakePolicy) (eventJson : String)
    (expectedEventId : EventId) (expectedClientPubkey expectedWalletServicePubkey : PublicKey)
    (encryption : NwcEncryption) : Except NostrEventError ValidatedNwcEvent := do
  ensure (!decide (eventJson.utf8ByteSize > policy.maximumPayloadBytes)) .payloadTooLarge
  let event ← okOr (x.eventFromJson eventJson) .malformedEvent
  ensure (x.verify event) .invalidSignature
  ensure (event.id == expectedEventId) .eventIdMismatch
  ensure (event.kind == walletConnectRequestKind) .unexpectedKind
  ensure (event.pubkey == expectedClientPubkey) .unexpectedAuthor
  ensure (hasExactRecipient x event expectedWalletServicePubkey) .unexpectedRecipient
  ensure (ciphertextMatches encryption event.content) .invalidCiphertext
  pure
    { id := event.id, author := event.pubkey, walletServicePubkey := expectedWalletServicePubkey
      createdAt := event.createdAt, encryption, ciphertext := event.content
      maximumPlaintextBytes := policy.maximumPayloadBytes }

/-- `ValidatedNwcEvent::decrypt`. -/
def ValidatedNwcEvent.decrypt (v : ValidatedNwcEvent) (secret : NwcSecretKey) :
    Except NostrEventError String := do
  let publicKey ← okOr (x.secretPublicKey secret) .invalidSecretKey
  ensure (publicKey == v.walletServicePubkey) .secretKeyMismatch
  let plaintext ← okOr (x.decrypt v.encryption secret v.author v.ciphertext) .decryptionFailed
  ensure (!decide (plaintext.utf8ByteSize > v.maximumPlaintextBytes)) .plaintextTooLarge
  pure plaintext

/-- `ValidatedNwcEvent::build_response_event`; `nonce` is what the random source
yields to the encryption and the signature. -/
def ValidatedNwcEvent.buildResponseEvent (v : ValidatedNwcEvent) (secret : NwcSecretKey)
    (responseJson : String) (createdAt : UnixTimestamp) (nonce : BitVec 256) :
    Except NostrEventError String := do
  ensure (!decide (responseJson.utf8ByteSize > v.maximumPlaintextBytes)) .plaintextTooLarge
  let publicKey ← okOr (x.secretPublicKey secret) .invalidSecretKey
  ensure (publicKey == v.walletServicePubkey) .secretKeyMismatch
  let encrypted ← okOr (x.encrypt v.encryption secret v.author responseJson nonce)
    .responseBuildFailed
  okOr (x.signEvent secret
    { kind := walletConnectResponseKind
      tags := [["p", Hex32.toHex v.author.bytes], ["e", Hex32.toHex v.id.bytes]]
      createdAt, content := encrypted } nonce) .responseBuildFailed

variable {x}

/-- What a validated event is known to satisfy. -/
structure Authentic (x : Crates) (eventJson : String) (clientPubkey walletServicePubkey : PublicKey)
    (encryption : NwcEncryption) (v : ValidatedNwcEvent) (event : NostrEvent) : Prop where
  parsed : x.eventFromJson eventJson = some event
  verified : x.verify event = true
  id : v.id = event.id
  kind : event.kind = walletConnectRequestKind
  author : event.pubkey = clientPubkey
  recipient : hasExactRecipient x event walletServicePubkey = true
  ciphertext : ciphertextMatches encryption event.content = true
  createdAt : v.createdAt = event.createdAt

theorem validateRequestForReplay_ok {policy : WakePolicy} {eventJson : String} {eventId : EventId}
    {client wallet : PublicKey} {encryption : NwcEncryption} {v : ValidatedNwcEvent}
    (h : validateRequestForReplay x policy eventJson eventId client wallet encryption = .ok v) :
    v.id = eventId ∧ ∃ event, Authentic x eventJson client wallet encryption v event := by
  simp only [validateRequestForReplay, bind_eq_ok, ensure_eq_ok, okOr_eq_ok, pure_eq_ok] at h
  obtain ⟨-, -, event, hparsed, -, hverified, -, hid, -, hkind, -, hauthor, -, hrecipient, -,
    hciphertext, rfl⟩ := h
  have heventId : event.id = eventId := by simpa using hid
  refine ⟨heventId, event, ?_⟩
  exact ⟨hparsed, hverified, rfl, by simpa using hkind, by simpa using hauthor, hrecipient,
    hciphertext, rfl⟩

namespace Sample

/-- The default policy. -/
def wakePolicy : WakePolicy :=
  ⟨.fromSecs (10 * 60), .fromSecs 30, .fromSecs (24 * 60 * 60), 64 * 1024, 2⟩

/-- What an event of the sample client is validated to. -/
def validatedEvent (event : NostrEvent) : ValidatedNwcEvent where
  id := event.id
  author := clientPubkey
  walletServicePubkey := walletServicePubkey
  createdAt := event.createdAt
  encryption := .nip44V2
  ciphertext := event.content
  maximumPlaintextBytes := 65536

/-- Long texts are measured piece by piece. -/
theorem eventJson_size (id createdAt ciphertext sig : String) :
    (eventJson id createdAt ciphertext sig).utf8ByteSize ≤ id.utf8ByteSize +
      createdAt.utf8ByteSize + ciphertext.utf8ByteSize + sig.utf8ByteSize + 300 := by
  have hpieces : "\x7b\"id\":\"".utf8ByteSize + "\",\"pubkey\":\"".utf8ByteSize +
      clientHex.utf8ByteSize + "\",\"created_at\":".utf8ByteSize +
      ",\"kind\":23194,\"tags\":[[\"p\",\"".utf8ByteSize + walletServiceHex.utf8ByteSize +
      "\"]],\"content\":\"".utf8ByteSize + "\",\"sig\":\"".utf8ByteSize +
      "\"\x7d".utf8ByteSize ≤ 300 := by decide
  unfold eventJson
  rw [String.utf8ByteSize_append, String.utf8ByteSize_append, String.utf8ByteSize_append,
    String.utf8ByteSize_append, String.utf8ByteSize_append, String.utf8ByteSize_append,
    String.utf8ByteSize_append, String.utf8ByteSize_append, String.utf8ByteSize_append,
    String.utf8ByteSize_append, String.utf8ByteSize_append, String.utf8ByteSize_append]
  omega

theorem firstCiphertext_size : firstCiphertext.utf8ByteSize = 176 := by
  unfold firstCiphertext
  rw [String.utf8ByteSize_append, String.utf8ByteSize_append]
  decide

theorem secondCiphertext_size : secondCiphertext.utf8ByteSize = 176 := by
  unfold secondCiphertext
  rw [String.utf8ByteSize_append, String.utf8ByteSize_append]
  decide

theorem firstCiphertext_plain : containsText ivSeparator firstCiphertext.toList = false := by
  unfold firstCiphertext
  rw [String.toList_append, String.toList_append]
  decide +kernel

theorem secondCiphertext_plain : containsText ivSeparator secondCiphertext.toList = false := by
  unfold secondCiphertext
  rw [String.toList_append, String.toList_append]
  decide +kernel

theorem firstEventJson_size : firstEventJson.utf8ByteSize ≤ 65536 := by
  refine le_trans (eventJson_size _ _ _ _) ?_
  rw [firstCiphertext_size, String.utf8ByteSize_append]
  decide

theorem secondEventJson_size : secondEventJson.utf8ByteSize ≤ 65536 := by
  refine le_trans (eventJson_size _ _ _ _) ?_
  rw [secondCiphertext_size, String.utf8ByteSize_append]
  decide

theorem ciphertextMatches_of {content : String} (hsize : content.utf8ByteSize = 176)
    (hplain : containsText ivSeparator content.toList = false) :
    ciphertextMatches .nip44V2 content = true := by
  have hne : content.isEmpty = false := by
    rw [String.isEmpty, hsize]
    rfl
  simp [ciphertextMatches, hne, hplain, hsize]

theorem hasExactRecipient_sample {x : Crates} {event : NostrEvent}
    (htags : event.tags = [["p", walletServiceHex]])
    (hhex : x.publicKeyFromHex walletServiceHex = some walletServicePubkey) :
    hasExactRecipient x event walletServicePubkey = true := by
  simp [hasExactRecipient, htags, hhex]

/-- An event of the sample client is accepted for its own connection. -/
theorem validate_sample {x : Crates} {event : NostrEvent} {json : String}
    (hsize : json.utf8ByteSize ≤ 65536) (hparsed : x.eventFromJson json = some event)
    (hverified : x.verify event = true) (hkind : event.kind = walletConnectRequestKind)
    (hauthor : event.pubkey = clientPubkey) (htags : event.tags = [["p", walletServiceHex]])
    (hhex : x.publicKeyFromHex walletServiceHex = some walletServicePubkey)
    (hcontent : ciphertextMatches .nip44V2 event.content = true) :
    candidateAuthor x wakePolicy json = .ok clientPubkey ∧
      validateRequestForReplay x wakePolicy json event.id clientPubkey walletServicePubkey
        .nip44V2 = .ok (validatedEvent event) := by
  constructor
  · simp [candidateAuthor, wakePolicy, hsize, hparsed, hauthor, okOr, ensure]
  · simp [validateRequestForReplay, wakePolicy, hsize, hparsed, hverified, hkind, hauthor,
      hasExactRecipient_sample htags hhex, hcontent, okOr, ensure, validatedEvent]

theorem validate_first :
    candidateAuthor crates wakePolicy firstEventJson = .ok clientPubkey ∧
      validateRequestForReplay crates wakePolicy firstEventJson firstEvent.id clientPubkey
        walletServicePubkey .nip44V2 = .ok (validatedEvent firstEvent) :=
  validate_sample firstEventJson_size eventFromJson_first (by simp [crates]) rfl rfl rfl rfl
    (ciphertextMatches_of firstCiphertext_size firstCiphertext_plain)

theorem validate_second :
    candidateAuthor crates wakePolicy secondEventJson = .ok clientPubkey ∧
      validateRequestForReplay crates wakePolicy secondEventJson secondEvent.id clientPubkey
        walletServicePubkey .nip44V2 = .ok (validatedEvent secondEvent) :=
  validate_sample secondEventJson_size eventFromJson_second (by simp [crates]) rfl rfl rfl rfl
    (ciphertextMatches_of secondCiphertext_size secondCiphertext_plain)

end Sample

end NwcMobile
