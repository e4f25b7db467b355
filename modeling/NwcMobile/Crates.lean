import NwcMobile.Policy

/-!
The parts of the `url` and `nostr` crates the program calls. Their types are
written out as far as the program reads or builds them; their functions are the
fields of `Crates`, so every result below holds for whatever those crates
compute. Assumptions about them are stated as separate predicates and appear as
hypotheses where they are used.
-/

namespace NwcMobile

/-- The components of a parsed URL that the program inspects. -/
structure ParsedUrl where
  scheme : String
  hostStr : Option String
  username : String
  password : Option String
  fragment : Option String
  serialized : String
deriving DecidableEq, Repr

/-- A signed Nostr event as decoded from JSON. A tag is its list of strings:
the first is the tag kind, the second its content. -/
structure NostrEvent where
  id : EventId
  pubkey : PublicKey
  createdAt : Nat
  kind : Nat
  tags : List (List String)
  content : String
  sig : BitVec 512
deriving DecidableEq, Repr

/-- What `EventBuilder` signs: the event without author, id and signature. -/
structure UnsignedEvent where
  kind : Nat
  tags : List (List String)
  createdAt : Nat
  content : String
deriving DecidableEq, Repr

/-- Encryption negotiated for one connection. -/
inductive NwcEncryption where
  | nip44V2
  | legacyNip04
deriving DecidableEq, Repr

/-- The wallet-service secret a host hands out for one operation. -/
structure NwcSecretKey where
  bytes : BitVec 256
deriving DecidableEq, Repr

namespace Nip47

/-- Method of a NIP-47 message. The crate knows further methods that this
program does not implement; they are `other`. -/
inductive Method where
  | payInvoice
  | makeInvoice
  | lookupInvoice
  | listTransactions
  | getBalance
  | getInfo
  | other (name : String)
deriving DecidableEq, Repr

inductive TransactionType where
  | incoming
  | outgoing
deriving DecidableEq, Repr

inductive TransactionState where
  | pending
  | settled
  | failed
deriving DecidableEq, Repr

structure PayInvoiceRequest where
  invoice : String
  amount : Option Nat
deriving DecidableEq, Repr

structure MakeInvoiceRequest where
  amount : Nat
  description : Option String
  descriptionHash : Option String
  expiry : Option Nat
deriving DecidableEq, Repr

structure LookupInvoiceRequest where
  paymentHash : Option String
  invoice : Option String
deriving DecidableEq, Repr

structure ListTransactionsRequest where
  from? : Option Nat
  until? : Option Nat
  limit : Option Nat
  offset : Option Nat
  unpaid : Option Bool
  transactionType : Option TransactionType
deriving DecidableEq, Repr

inductive RequestParams where
  | payInvoice (request : PayInvoiceRequest)
  | makeInvoice (request : MakeInvoiceRequest)
  | lookupInvoice (request : LookupInvoiceRequest)
  | listTransactions (request : ListTransactionsRequest)
  | getBalance
  | getInfo
  | other (name : String)
deriving DecidableEq, Repr

def RequestParams.method : RequestParams → Method
  | .payInvoice _ => .payInvoice
  | .makeInvoice _ => .makeInvoice
  | .lookupInvoice _ => .lookupInvoice
  | .listTransactions _ => .listTransactions
  | .getBalance => .getBalance
  | .getInfo => .getInfo
  | .other name => .other name

structure Request where
  method : Method
  params : RequestParams
deriving DecidableEq, Repr

inductive ErrorCode where
  | rateLimited
  | notImplemented
  | insufficientBalance
  | quotaExceeded
  | restricted
  | unauthorized
  | internal
  | other
  | paymentFailed
  | notFound
deriving DecidableEq, Repr

structure Error where
  code : ErrorCode
  message : String
deriving DecidableEq, Repr

structure LookupInvoiceResponse where
  transactionType : Option TransactionType
  state : Option TransactionState
  invoice : Option String
  description : Option String
  descriptionHash : Option String
  preimage : Option String
  paymentHash : String
  amount : Nat
  feesPaid : Nat
  createdAt : Nat
  expiresAt : Option Nat
  settledAt : Option Nat
deriving DecidableEq, Repr

structure GetInfoResponse where
  pubkey : Option String
  methods : List Method
  notifications : List String
deriving DecidableEq, Repr

structure MakeInvoiceResponse where
  invoice : String
  paymentHash : Option String
  description : Option String
  amount : Option Nat
  createdAt : Option Nat
  expiresAt : Option Nat
deriving DecidableEq, Repr

inductive ResponseResult where
  | payInvoice (preimage : String) (feesPaid : Option Nat)
  | makeInvoice (response : MakeInvoiceResponse)
  | lookupInvoice (response : LookupInvoiceResponse)
  | listTransactions (responses : List LookupInvoiceResponse)
  | getBalance (balance : Nat)
  | getInfo (response : GetInfoResponse)
deriving DecidableEq, Repr

structure Response where
  resultType : Method
  error : Option Error
  result : Option ResponseResult
deriving DecidableEq, Repr

end Nip47

/-- The third-party functions the program calls. -/
structure Crates where
  /-- `url::Url::parse`. -/
  parseUrl : String → Option ParsedUrl
  /-- Whether `nostr::PublicKey::from_slice` accepts the bytes. -/
  publicKeyFromSlice : PublicKey → Bool
  publicKeyFromHex : String → Option PublicKey
  eventFromJson : String → Option NostrEvent
  /-- `Event::verify`: the id is the hash of the event and the signature is
  the author's. -/
  verify : NostrEvent → Bool
  /-- The public key of a valid secret key. -/
  secretPublicKey : NwcSecretKey → Option PublicKey
  decrypt : NwcEncryption → NwcSecretKey → PublicKey → String → Option String
  /-- Encryption and signing draw a nonce from the random source. -/
  encrypt : NwcEncryption → NwcSecretKey → PublicKey → String → BitVec 256 → Option String
  /-- `EventBuilder::sign_with_keys` followed by `Event::as_json`. -/
  signEvent : NwcSecretKey → UnsignedEvent → BitVec 256 → Option String
  requestFromJson : String → Option Nip47.Request
  responseAsJson : Nip47.Response → String

/-- The crate parses a request so that its parameters match its method. -/
def Crates.ParamsMatchMethod (x : Crates) : Prop :=
  ∀ json request, x.requestFromJson json = some request → request.params.method = request.method

/-- A verified event is determined by its id: the id is a collision-free hash
of the author, the creation time, the kind, the tags and the content. -/
def Crates.EventIdsCollisionFree (x : Crates) : Prop :=
  ∀ a b, x.verify a = true → x.verify b = true → a.id = b.id →
    a.pubkey = b.pubkey ∧ a.createdAt = b.createdAt ∧ a.kind = b.kind ∧ a.tags = b.tags ∧
      a.content = b.content

/-- A secure WebSocket relay URL in canonical form. -/
structure SecureRelayUrl where
  value : String
deriving DecidableEq, Repr

def maxRelayUrlBytes : Nat := 2048

/-- `SecureRelayUrl::parse`. -/
def SecureRelayUrl.parse (x : Crates) (value : String) : Except DomainError SecureRelayUrl :=
  if value.isEmpty || decide (value.utf8ByteSize > maxRelayUrlBytes) then
    .error .invalidRelayUrl
  else
    match x.parseUrl value with
    | none => .error .invalidRelayUrl
    | some relay =>
      if relay.scheme != "wss" || relay.hostStr.isNone || !relay.username.isEmpty
          || relay.password.isSome || relay.fragment.isSome then
        .error .invalidRelayUrl
      else if relay.serialized.utf8ByteSize > maxRelayUrlBytes then
        .error .invalidRelayUrl
      else .ok ⟨relay.serialized⟩

/-- Parsing the serialization of a URL yields the URL again. -/
def Crates.UrlsCanonical (x : Crates) : Prop :=
  ∀ text url, x.parseUrl text = some url →
    url.serialized.isEmpty = false ∧ x.parseUrl url.serialized = some url

theorem SecureRelayUrl.parse_value {x : Crates} (hurls : x.UrlsCanonical) {text : String}
    {relay : SecureRelayUrl} (h : SecureRelayUrl.parse x text = .ok relay) :
    SecureRelayUrl.parse x relay.value = .ok relay := by
  unfold SecureRelayUrl.parse at h
  split at h
  · cases h
  · split at h
    · cases h
    · rename_i url hurl
      split at h
      · cases h
      · split at h
        · cases h
        · rename_i hparts hbytes
          cases h
          obtain ⟨hnonempty, hsame⟩ := hurls text url hurl
          simp only [SecureRelayUrl.parse, hnonempty, hbytes, decide_false, Bool.or_self,
            Bool.false_eq_true, if_false, hsame, hparts]

namespace Sample

def clientHex : String := "1b84c5567b126440995d3ed5aaba0565d71e1834604819ff9c17f5e9d5dd078f"

def clientPubkey : PublicKey :=
  ⟨0x1b84c5567b126440995d3ed5aaba0565d71e1834604819ff9c17f5e9d5dd078f⟩

def walletServiceHex : String :=
  "4d4b6cd1361032ca9bd2aeb9d900aa4d45d9ead80ac9423374c451a7254d0766"

def walletServicePubkey : PublicKey :=
  ⟨0x4d4b6cd1361032ca9bd2aeb9d900aa4d45d9ead80ac9423374c451a7254d0766⟩

def walletServiceSecret : NwcSecretKey :=
  ⟨0x0202020202020202020202020202020202020202020202020202020202020202⟩

def relayUrl : String := "wss://relay.example.com/nwc"

def requestJson : String :=
  "\x7b\"method\":\"pay_invoice\",\"params\":\x7b\"invoice\":\"lnbc1\"\x7d\x7d"

/-- A request event as JSON. -/
def eventJson (id createdAt ciphertext sig : String) : String :=
  "\x7b\"id\":\"" ++ id ++ "\",\"pubkey\":\"" ++ clientHex ++ "\",\"created_at\":" ++ createdAt ++
    ",\"kind\":23194,\"tags\":[[\"p\",\"" ++ walletServiceHex ++ "\"]],\"content\":\"" ++
    ciphertext ++ "\",\"sig\":\"" ++ sig ++ "\"\x7d"

def firstCiphertext : String :=
  "AgEBAQEBAQEBAQEBAQEBAQEBAQEBAQEBAQEBAQEBAQEBMu1VMJK34HVTMH2" ++
  "znqnBY2ffrr7+irU7o7uY5WQ531vg9n2bf3Cfo4VADeT8jGrouCQB+KnTH70" ++
  "hkr5rI5UQGOm6Os9VEqvwwN4wkCIKy1PklZuU7TZQ/DnrBKzllu9BSmM="

def firstEvent : NostrEvent where
  id := ⟨0x845c8936df542d317bf9c818876a92b79cfb3d2d62a9dbcd7e85214526fbc02c⟩
  pubkey := clientPubkey
  createdAt := 1000
  kind := 23194
  tags := [["p", walletServiceHex]]
  content := firstCiphertext
  sig := 0x3b7438f7b1e2fe0021a87e787171833800bb7bb6adcf10c40eafc321d4202bd2#256 ++
    0xc4f06e9854d7bc2959322484e1f3e9b8db8537c158462d704e98d47538bf8343#256

def firstEventJson : String :=
  eventJson "845c8936df542d317bf9c818876a92b79cfb3d2d62a9dbcd7e85214526fbc02c" "1000" firstCiphertext
    ("3b7438f7b1e2fe0021a87e787171833800bb7bb6adcf10c40eafc321d4202bd2" ++
      "c4f06e9854d7bc2959322484e1f3e9b8db8537c158462d704e98d47538bf8343")

def secondCiphertext : String :=
  "AgICAgICAgICAgICAgICAgICAgICAgICAgICAgICAgICq5x1hKHPu8eAX43" ++
  "gN5sCqN3OzLUh9MaLxcYGJsK/zHpw/01Cc7a2gWhELZ0StE1SAjjzkfUbN+g" ++
  "hzAtde9yXwLntuSw9TqETQr9yWS7XtI4D5hVeIfGaKsGKOWiK2LZRCRA="

def secondEvent : NostrEvent where
  id := ⟨0x1ee4ac11e1d45cebc1a4b820a1a162e2c7ab4884f4d241d368e7666884038e4b⟩
  pubkey := clientPubkey
  createdAt := 1001
  kind := 23194
  tags := [["p", walletServiceHex]]
  content := secondCiphertext
  sig := 0x0ccaf7523c4df91ecb4307923d36069a7e608a3f2e44738f2e56023c88637ae2#256 ++
    0x61e7f3960bf24a2f77b8e1875de8d54311e17c99c7b369b6e69c001e0756b958#256

def secondEventJson : String :=
  eventJson "1ee4ac11e1d45cebc1a4b820a1a162e2c7ab4884f4d241d368e7666884038e4b" "1001"
    secondCiphertext
    ("0ccaf7523c4df91ecb4307923d36069a7e608a3f2e44738f2e56023c88637ae2" ++
      "61e7f3960bf24a2f77b8e1875de8d54311e17c99c7b369b6e69c001e0756b958")

/-- The crates on the inputs used in the examples of this development. -/
def crates : Crates where
  parseUrl url :=
    if url = relayUrl then some ⟨"wss", some "relay.example.com", "", none, none, relayUrl⟩
    else none
  publicKeyFromSlice key := key == clientPubkey || key == walletServicePubkey
  publicKeyFromHex hex := if hex = walletServiceHex then some walletServicePubkey else none
  eventFromJson json :=
    if json = firstEventJson then some firstEvent
    else if json = secondEventJson then some secondEvent
    else none
  verify event := event == firstEvent || event == secondEvent
  secretPublicKey secret := if secret = walletServiceSecret then some walletServicePubkey else none
  decrypt encryption secret author ciphertext :=
    if encryption = .nip44V2 ∧ secret = walletServiceSecret ∧ author = clientPubkey ∧
        (ciphertext = firstCiphertext ∨ ciphertext = secondCiphertext) then some requestJson
    else none
  encrypt _ _ _ _ _ := none
  signEvent _ _ _ := none
  requestFromJson json :=
    if json = requestJson then some ⟨.payInvoice, .payInvoice ⟨"lnbc1", none⟩⟩ else none
  responseAsJson _ := ""

theorem crates_paramsMatchMethod : crates.ParamsMatchMethod := by
  intro json request h
  have hrequest : some ⟨.payInvoice, .payInvoice ⟨"lnbc1", none⟩⟩ = some request := by
    unfold crates at h
    dsimp only at h
    split at h
    · exact h
    · cases h
  cases hrequest
  rfl

theorem crates_eventIdsCollisionFree : crates.EventIdsCollisionFree := by
  have hverified : ∀ event, crates.verify event = true → event = firstEvent ∨ event = secondEvent :=
    fun event h => by simpa [crates] using h
  have hne : firstEvent.id ≠ secondEvent.id := by decide
  intro a b ha hb hid
  rcases hverified a ha with rfl | rfl
  · rcases hverified b hb with rfl | rfl
    · exact ⟨rfl, rfl, rfl, rfl, rfl⟩
    · exact absurd hid hne
  · rcases hverified b hb with rfl | rfl
    · exact absurd hid.symm hne
    · exact ⟨rfl, rfl, rfl, rfl, rfl⟩

theorem crates_urlsCanonical : crates.UrlsCanonical := by
  intro text url h
  have hsample : some ⟨"wss", some "relay.example.com", "", none, none, relayUrl⟩ = some url := by
    unfold crates at h
    dsimp only at h
    split at h
    · exact h
    · cases h
  cases hsample
  exact ⟨by decide, by decide⟩

theorem eventFromJson_first : crates.eventFromJson firstEventJson = some firstEvent := by
  simp only [crates, if_true]

theorem firstEventJson_ne : secondEventJson ≠ firstEventJson := by decide

theorem eventFromJson_second : crates.eventFromJson secondEventJson = some secondEvent := by
  simp only [crates, firstEventJson_ne, if_true, if_false]

end Sample

end NwcMobile
