import NwcMobile.Foundations.Fallible
import NwcMobile.Foundations.KeyedQueue
import NwcMobile.Foundations.Transition
import NwcMobile.Foundations.Words
import Mathlib.Data.String.Basic

/-!
The file inbox that an iOS application shares with its notification extension.
Every operation holds the exclusive lock of the file from its first read to its
last write, so the operations of all processes take place one after another.
-/

namespace NwcMobile

open Fallible Transition

/-- The parts of Swift's `String` whose results depend on Unicode tables. -/
structure SwiftText where
  /-- `count`, in characters. -/
  count : String → Nat
  lowercased : String → String

def isHexScalar (c : Char) : Bool :=
  (decide ('0' ≤ c) && decide (c ≤ '9')) || (decide ('A' ≤ c) && decide (c ≤ 'F')) ||
    (decide ('a' ≤ c) && decide (c ≤ 'f'))

/-- What the tables say of hexadecimal digits. -/
structure SwiftText.AsciiHex (text : SwiftText) : Prop where
  count : ∀ value : String, value.toList.all isHexScalar = true → text.count value = value.length
  lowercased : ∀ value : String, value.toList.all isHexScalar = true →
    text.lowercased value = value.toLower

structure NwcWakePayload where
  relayUrl : String
  eventIdHex : String
  walletServicePublicKeyHex : String
  embeddedEventJson : Option String
deriving DecidableEq, Repr

/-- A wake request handed over to the foreground. -/
structure NwcQueuedWakeRequest where
  payload : NwcWakePayload
  receivedAtSeconds : Nat
  settlementCheck : Bool
deriving DecidableEq, Repr

def NwcQueuedWakeRequest.eventIdHex (request : NwcQueuedWakeRequest) : String :=
  request.payload.eventIdHex

inductive WakeInboxError where
  | invalidFieldValue
  | fileReadTooLarge
  | fileReadCorruptFile
  | fileWriteOutOfSpace
  | notDecodable
  | system
deriving DecidableEq, Repr

/-- The JSON coder of the platform. Decoding validates each payload. -/
structure JsonCoder (Data : Type) where
  encode : List NwcQueuedWakeRequest → Data
  decode : Data → Option (List NwcQueuedWakeRequest)
  count : Data → Nat

def maximumRelayUrlBytes : Nat := 2048

def maximumEmbeddedEventBytes : Nat := 64 * 1024

def fixedHexLength : Nat := 64

def maximumPersistedEmbeddedEventBytes : Nat := 64 * 1024

def maximumPersistedQueueBytes : Nat := 8 * 1024 * 1024

/-- One inbox directory with the maximum its users share. -/
structure WakeFileInbox (Data : Type) where
  text : SwiftText
  coder : JsonCoder Data
  maxPendingRequests : Nat
  positive : 0 < maxPendingRequests

/-- The content of the queue file, if it exists. -/
abbrev QueueFile (Data : Type) := Option Data

namespace SwiftText

variable (text : SwiftText)

def isFixedHex (value : String) : Bool :=
  text.count value == fixedHexLength && value.toList.all isHexScalar

def within (value : String) (maximum : Nat) : Bool :=
  decide (text.count value ≤ maximum) && decide (value.utf8ByteSize ≤ maximum)

/-- `NwcWakePayload.validated`. -/
def validated (payload : NwcWakePayload) : Except WakeInboxError NwcWakePayload := do
  ensure (!payload.relayUrl.isEmpty && text.within payload.relayUrl maximumRelayUrlBytes &&
    text.isFixedHex payload.eventIdHex && text.isFixedHex payload.walletServicePublicKeyHex &&
    payload.embeddedEventJson.all fun event => text.within event maximumEmbeddedEventBytes)
    .invalidFieldValue
  pure
    { payload with
      eventIdHex := text.lowercased payload.eventIdHex
      walletServicePublicKeyHex := text.lowercased payload.walletServicePublicKeyHex }

/-- The embedded event is not kept when it is too long. -/
def boundedPayload (payload : NwcWakePayload) : NwcWakePayload :=
  { payload with
    embeddedEventJson := payload.embeddedEventJson.filter fun event =>
      text.within event maximumPersistedEmbeddedEventBytes }

def persistenceSafe (request : NwcQueuedWakeRequest) :
    Except WakeInboxError NwcQueuedWakeRequest := do
  let payload ← text.validated (text.boundedPayload request.payload)
  pure { request with payload }

end SwiftText

namespace WakeFileInbox

variable {Data : Type} (inbox : WakeFileInbox Data)

def loadLocked (file : QueueFile Data) : Except WakeInboxError (List NwcQueuedWakeRequest) :=
  match file with
  | none => .ok []
  | some data => do
    ensure (decide (inbox.coder.count data ≤ maximumPersistedQueueBytes)) .fileReadTooLarge
    let requests ← okOr (inbox.coder.decode data) .notDecodable
    ensure (decide (requests.length ≤ inbox.maxPendingRequests)) .fileReadCorruptFile
    requests.mapM inbox.text.persistenceSafe

/-- The new content of the file; an empty queue has no file. -/
def saveLocked (requests : List NwcQueuedWakeRequest) : Except WakeInboxError (QueueFile Data) :=
  if requests.isEmpty then .ok none
  else do
    let data := inbox.coder.encode requests
    ensure (decide (inbox.coder.count data ≤ maximumPersistedQueueBytes)) .fileWriteOutOfSpace
    pure (some data)

/-- Replies with the number of requests it evicted. -/
def enqueue (file : QueueFile Data) (request : NwcQueuedWakeRequest) :
    Except WakeInboxError (Nat × QueueFile Data) := do
  let requests ← inbox.loadLocked file
  let request ← inbox.text.persistenceSafe request
  let requests := (requests.filter fun r => r.eventIdHex != request.eventIdHex) ++ [request]
  let evicted := requests.length - inbox.maxPendingRequests
  let file ← inbox.saveLocked
    (if requests.length > inbox.maxPendingRequests then requests.drop evicted else requests)
  pure (evicted, file)

def pendingRequests (file : QueueFile Data) : Except WakeInboxError (List NwcQueuedWakeRequest) :=
  inbox.loadLocked file

/-- Replies whether a request was removed. -/
def remove (file : QueueFile Data) (eventIds : List String) :
    Except WakeInboxError (Bool × QueueFile Data) :=
  if eventIds.isEmpty then .ok (false, file)
  else do
    let canonicalEventIds := eventIds.map inbox.text.lowercased
    let requests ← inbox.loadLocked file
    let kept := requests.filter fun r => !canonicalEventIds.contains r.eventIdHex
    if kept.length == requests.length then pure (false, file)
    else do
      let file ← inbox.saveLocked kept
      pure (true, file)

end WakeFileInbox

inductive InboxOp where
  | enqueue (request : NwcQueuedWakeRequest)
  | pendingRequests
  | remove (eventIds : List String)

abbrev InboxOp.Value : InboxOp → Type
  | .enqueue _ => Nat
  | .pendingRequests => List NwcQueuedWakeRequest
  | .remove _ => Bool

def InboxOp.run {Data : Type} (inbox : WakeFileInbox Data) (file : QueueFile Data) :
    (op : InboxOp) → Except WakeInboxError (op.Value × QueueFile Data)
  | .enqueue request => inbox.enqueue file request
  | .pendingRequests => (inbox.pendingRequests file).map fun requests => (requests, file)
  | .remove eventIds => inbox.remove file eventIds

/-- One operation together with the reply it received. -/
structure InboxCall where
  op : InboxOp
  reply : Except WakeInboxError op.Value

/-- One operation under the lock, or one that the operating system fails. -/
inductive InboxStep {Data : Type} (inbox : WakeFileInbox Data) (file : QueueFile Data) :
    InboxCall → QueueFile Data → Prop
  | locked (op : InboxOp) :
      InboxStep inbox file ⟨op, (settle (op.run inbox file) file).1⟩
        (settle (op.run inbox file) file).2
  | fault (op : InboxOp) : InboxStep inbox file ⟨op, .error .system⟩ file

abbrev InboxHistory (Data : Type) := List (Event (QueueFile Data) InboxCall)

/-- The runs of an inbox: any operations of any processes in any order. -/
abbrev InboxRun {Data : Type} (inbox : WakeFileInbox Data) (file : QueueFile Data) :
    InboxHistory Data → QueueFile Data → Prop :=
  Run (InboxStep inbox) file

section Text

variable {text : SwiftText}

theorem isHexScalar_ascii {c : Char} (h : isHexScalar c = true) : c.toNat < 128 := by
  have hbound : c ≤ 'f' := by
    simp only [isHexScalar, Bool.or_eq_true, Bool.and_eq_true, decide_eq_true_eq] at h
    rcases h with (⟨-, h⟩ | ⟨-, h⟩) | ⟨-, h⟩
    · exact Char.le_trans h (by decide)
    · exact Char.le_trans h (by decide)
    · exact h
  have hnat : c.toNat ≤ 'f'.toNat := by
    rw [Char.le_def, UInt32.le_iff_toNat_le] at hbound
    exact hbound
  have hf : 'f'.toNat = 102 := rfl
  omega

theorem isHexScalar_toLower {c : Char} (h : isHexScalar c = true) :
    isHexScalar c.toLower = true ∧ c.toLower.toLower = c.toLower := by
  have hall : ∀ n < 128, isHexScalar (Char.ofNat n) = true →
      isHexScalar (Char.ofNat n).toLower = true ∧
        (Char.ofNat n).toLower.toLower = (Char.ofNat n).toLower := by
    decide
  rw [← Char.ofNat_toNat c] at h ⊢
  exact hall c.toNat (isHexScalar_ascii (by rwa [Char.ofNat_toNat] at h)) h

theorem toLower_hex {value : String} (h : value.toList.all isHexScalar = true) :
    value.toLower.toList.all isHexScalar = true ∧ value.toLower.toLower = value.toLower ∧
      value.toLower.length = value.length := by
  rw [List.all_eq_true] at h
  refine ⟨?_, ?_, String.length_map⟩
  · rw [Words.toList_toLower, List.all_eq_true]
    intro c hc
    obtain ⟨d, hd, rfl⟩ := List.mem_map.mp hc
    exact (isHexScalar_toLower (h d hd)).1
  · rw [← String.toList_inj, Words.toList_toLower, Words.toList_toLower, List.map_map]
    apply List.map_congr_left
    intro c hc
    exact (isHexScalar_toLower (h c hc)).2

/-- Lowercase hexadecimal text is hexadecimal text in its final form. -/
theorem SwiftText.AsciiHex.canonical (htext : text.AsciiHex) {value : String}
    (h : text.isFixedHex value = true) :
    text.isFixedHex (text.lowercased value) = true ∧
      text.lowercased (text.lowercased value) = text.lowercased value := by
  rw [SwiftText.isFixedHex, Bool.and_eq_true, beq_iff_eq] at h
  obtain ⟨hcount, hhex⟩ := h
  obtain ⟨hlower, hagain, hlength⟩ := toLower_hex hhex
  rw [htext.lowercased value hhex, htext.lowercased _ hlower, hagain]
  refine ⟨?_, rfl⟩
  rw [SwiftText.isFixedHex, Bool.and_eq_true, beq_iff_eq, htext.count _ hlower, hlength,
    ← htext.count value hhex]
  exact ⟨hcount, hlower⟩

end Text

namespace SwiftText

variable {text : SwiftText} {request kept : NwcQueuedWakeRequest}

/-- The form in which the inbox keeps a request: identifiers in lower case, and no embedded
event that is too long. -/
def canonical (text : SwiftText) (request : NwcQueuedWakeRequest) : NwcQueuedWakeRequest :=
  { request with
    payload :=
      { text.boundedPayload request.payload with
        eventIdHex := text.lowercased request.payload.eventIdHex
        walletServicePublicKeyHex := text.lowercased request.payload.walletServicePublicKeyHex } }

theorem persistenceSafe_ok (h : text.persistenceSafe request = .ok kept) :
    kept = text.canonical request := by
  simp only [persistenceSafe, validated, bind_eq_ok, pure_eq_ok] at h
  obtain ⟨_, ⟨-, -, rfl⟩, rfl⟩ := h
  rfl

/-- A kept request is kept as it is. -/
theorem persistenceSafe_again (htext : text.AsciiHex)
    (h : text.persistenceSafe request = .ok kept) : text.persistenceSafe kept = .ok kept := by
  simp only [persistenceSafe, validated, bind_eq_ok, ensure_eq_ok, pure_eq_ok,
    Bool.and_eq_true] at h
  obtain ⟨payload, ⟨-, ⟨⟨⟨hrelay, heventId⟩, hwallet⟩, hevent⟩, hpayload⟩, rfl⟩ := h
  obtain ⟨heventId', hsameId⟩ := htext.canonical heventId
  obtain ⟨hwallet', hsameWallet⟩ := htext.canonical hwallet
  have hbounded : text.boundedPayload payload = payload := by
    rw [← hpayload]
    simp only [boundedPayload, Option.filter_filter, Bool.and_self]
  simp only [persistenceSafe, validated, bind_eq_ok, ensure_eq_ok, pure_eq_ok, hbounded,
    Bool.and_eq_true]
  subst hpayload
  refine ⟨_, ⟨(), ⟨⟨⟨hrelay, heventId'⟩, hwallet'⟩, hevent⟩, rfl⟩, ?_⟩
  simp only [hsameId, hsameWallet]

end SwiftText

namespace WakeFileInbox

variable {Data : Type} {inbox : WakeFileInbox Data} {file file' : QueueFile Data}
  {q : List NwcQueuedWakeRequest} {request kept : NwcQueuedWakeRequest}

/-- Decoding yields what was encoded, for requests in the form in which they are kept. -/
def Lossless (inbox : WakeFileInbox Data) : Prop :=
  ∀ q, (∀ r ∈ q, inbox.text.persistenceSafe r = .ok r) →
    inbox.coder.decode (inbox.coder.encode q) = some q

/-- The encoded queue is within the bound of the file. -/
def Fits (inbox : WakeFileInbox Data) (q : List NwcQueuedWakeRequest) : Prop :=
  inbox.coder.count (inbox.coder.encode q) ≤ maximumPersistedQueueBytes

/-- The queue after a request was enqueued. -/
def pushed (inbox : WakeFileInbox Data) (q : List NwcQueuedWakeRequest)
    (request : NwcQueuedWakeRequest) : List NwcQueuedWakeRequest :=
  KeyedQueue.push NwcQueuedWakeRequest.eventIdHex inbox.maxPendingRequests q
    (inbox.text.canonical request)

/-- The queue after some identifiers were removed. -/
def discarded (inbox : WakeFileInbox Data) (q : List NwcQueuedWakeRequest)
    (eventIds : List String) : List NwcQueuedWakeRequest :=
  KeyedQueue.discard NwcQueuedWakeRequest.eventIdHex
    (eventIds.map inbox.text.lowercased).contains q

/-- The file holds the queue. -/
structure Represents (inbox : WakeFileInbox Data) (file : QueueFile Data)
    (q : List NwcQueuedWakeRequest) : Prop where
  stored : inbox.saveLocked q = .ok file
  safe : ∀ r ∈ q, inbox.text.persistenceSafe r = .ok r
  bounded : KeyedQueue.Bounded NwcQueuedWakeRequest.eventIdHex inbox.maxPendingRequests q

theorem saveLocked_cases (inbox : WakeFileInbox Data) (q : List NwcQueuedWakeRequest) :
    (q = [] ∧ inbox.saveLocked q = .ok none) ∨
      (q ≠ [] ∧ inbox.Fits q ∧ inbox.saveLocked q = .ok (some (inbox.coder.encode q))) ∨
      (q ≠ [] ∧ ¬ inbox.Fits q ∧ inbox.saveLocked q = .error .fileWriteOutOfSpace) := by
  cases q with
  | nil => exact Or.inl ⟨rfl, rfl⟩
  | cons first rest =>
    right
    by_cases hfits : inbox.Fits (first :: rest)
    · refine Or.inl ⟨List.cons_ne_nil _ _, hfits, ?_⟩
      unfold Fits at hfits
      simp [saveLocked, hfits, ensure, pure, Except.pure]
    · refine Or.inr ⟨List.cons_ne_nil _ _, hfits, ?_⟩
      unfold Fits at hfits
      simp [saveLocked, hfits, ensure]

theorem represents_empty : inbox.Represents none [] :=
  ⟨rfl, by simp, KeyedQueue.bounded_nil⟩

theorem Represents.loadLocked (h : inbox.Represents file q) (hlossless : inbox.Lossless) :
    inbox.loadLocked file = .ok q := by
  rcases saveLocked_cases inbox q with ⟨rfl, hsave⟩ | ⟨-, hfits, hsave⟩ | ⟨-, -, hsave⟩
  · cases h.stored.symm.trans hsave
    rfl
  · cases h.stored.symm.trans hsave
    simp only [WakeFileInbox.loadLocked, bind_eq_ok, ensure_eq_ok, okOr_eq_ok]
    refine ⟨(), decide_eq_true hfits, q, hlossless q h.safe, (), decide_eq_true h.bounded.bounded, ?_⟩
    rw [mapM_eq_map (g := id) h.safe, List.map_id]
  · cases h.stored.symm.trans hsave

/-- What enqueueing does, as far as the queue is concerned. -/
theorem Represents.enqueue_eq (h : inbox.Represents file q) (hlossless : inbox.Lossless)
    (hsafe : inbox.text.persistenceSafe request = .ok kept) :
    ∃ evicted, inbox.enqueue file request =
      inbox.saveLocked (inbox.pushed q request) >>= fun file => pure (evicted, file) := by
  cases SwiftText.persistenceSafe_ok hsafe
  have hcut : ∀ rs : List NwcQueuedWakeRequest,
      (if rs.length > inbox.maxPendingRequests then rs.drop (rs.length - inbox.maxPendingRequests)
        else rs) = rs.drop (rs.length - inbox.maxPendingRequests) := by
    intro rs
    split
    · rfl
    · rename_i hfew
      rw [Nat.sub_eq_zero_of_le (Nat.not_lt.mp hfew), List.drop_zero]
  simp only [WakeFileInbox.enqueue, h.loadLocked hlossless, hsafe, ok_bind, hcut]
  exact ⟨_, rfl⟩

/-- A request that passes validation is enqueued exactly when the resulting queue fits. -/
theorem Represents.enqueue (h : inbox.Represents file q) (hlossless : inbox.Lossless)
    (hsafe : inbox.text.persistenceSafe request = .ok kept) :
    (inbox.Fits (inbox.pushed q request) ∧ ∃ evicted, inbox.enqueue file request =
        .ok (evicted, some (inbox.coder.encode (inbox.pushed q request)))) ∨
      (¬ inbox.Fits (inbox.pushed q request) ∧
        inbox.enqueue file request = .error .fileWriteOutOfSpace) := by
  obtain ⟨evicted, henqueue⟩ := h.enqueue_eq hlossless hsafe
  have hnonempty : inbox.pushed q request ≠ [] :=
    List.ne_nil_of_mem (KeyedQueue.push_self inbox.positive)
  rcases saveLocked_cases inbox (inbox.pushed q request) with ⟨hnil, -⟩ | ⟨-, hfits, hsave⟩ |
    ⟨-, hlong, hsave⟩
  · exact absurd hnil hnonempty
  · rw [hsave] at henqueue
    exact Or.inl ⟨hfits, evicted, henqueue⟩
  · rw [hsave] at henqueue
    exact Or.inr ⟨hlong, henqueue⟩

theorem Represents.enqueued (h : inbox.Represents file q) (htext : inbox.text.AsciiHex)
    (hlossless : inbox.Lossless) {evicted : Nat}
    (henqueue : inbox.enqueue file request = .ok (evicted, file')) :
    inbox.Represents file' (inbox.pushed q request) := by
  have hvalid : ∃ kept, inbox.text.persistenceSafe request = .ok kept := by
    simp only [WakeFileInbox.enqueue, bind_eq_ok] at henqueue
    obtain ⟨_, -, kept, hsafe, -⟩ := henqueue
    exact ⟨kept, hsafe⟩
  obtain ⟨kept, hsafe⟩ := hvalid
  obtain ⟨evicted', heq⟩ := h.enqueue_eq hlossless hsafe
  rw [heq] at henqueue
  simp only [bind_eq_ok, pure_eq_ok, Prod.mk.injEq] at henqueue
  obtain ⟨_, hsave, -, rfl⟩ := henqueue
  refine ⟨hsave, ?_, h.bounded.push⟩
  intro r hr
  rcases KeyedQueue.mem_of_mem_push hr with ⟨hold, -⟩ | rfl
  · exact h.safe r hold
  · rw [← SwiftText.persistenceSafe_ok hsafe]
    exact SwiftText.persistenceSafe_again htext hsafe

theorem Represents.removed (h : inbox.Represents file q) (hlossless : inbox.Lossless)
    {eventIds : List String} {changed : Bool}
    (hremove : inbox.remove file eventIds = .ok (changed, file')) :
    inbox.Represents file' (inbox.discarded q eventIds) := by
  have hkept : ∀ r ∈ inbox.discarded q eventIds, inbox.text.persistenceSafe r = .ok r :=
    fun r hr => h.safe r (List.mem_of_mem_filter hr)
  have hsame : inbox.discarded q eventIds = q → file' = file →
      inbox.Represents file' (inbox.discarded q eventIds) := by
    intro heq hfile
    rw [heq, hfile]
    exact h
  unfold WakeFileInbox.remove at hremove
  split at hremove
  · rename_i hnone
    rw [List.isEmpty_iff] at hnone
    subst hnone
    apply hsame
    · simp [discarded, KeyedQueue.discard]
    · exact (Prod.mk.inj (Except.ok.inj hremove)).2.symm
  · simp only [h.loadLocked hlossless, ok_bind] at hremove
    split at hremove
    · rename_i hlength
      apply hsame
      · exact List.filter_eq_self.mpr (List.length_filter_eq_length_iff.mp (beq_iff_eq.mp hlength))
      · exact (Prod.mk.inj (Except.ok.inj hremove)).2.symm
    · simp only [bind_eq_ok, pure_eq_ok, Prod.mk.injEq] at hremove
      obtain ⟨_, hsave, -, rfl⟩ := hremove
      exact ⟨hsave, hkept, h.bounded.discard⟩

/-- The queue as a call leaves it: only successful writers change it. -/
def applied (inbox : WakeFileInbox Data) (q : List NwcQueuedWakeRequest) :
    InboxCall → List NwcQueuedWakeRequest
  | ⟨.enqueue request, .ok _⟩ => inbox.pushed q request
  | ⟨.remove eventIds, .ok _⟩ => inbox.discarded q eventIds
  | _ => q

/-- The abstract queue a history leaves behind. -/
def queue (inbox : WakeFileInbox Data) : InboxHistory Data → List NwcQueuedWakeRequest
  | [] => []
  | event :: earlier => inbox.applied (inbox.queue earlier) event.label

/-- Why a call takes a request out of the queue. -/
inductive Drops (inbox : WakeFileInbox Data) (q : List NwcQueuedWakeRequest)
    (r : NwcQueuedWakeRequest) : InboxCall → Prop
  | removed (eventIds : List String) (changed : Bool)
      (h : r.eventIdHex ∈ eventIds.map inbox.text.lowercased) :
      Drops inbox q r ⟨.remove eventIds, .ok changed⟩
  | renewed (request : NwcQueuedWakeRequest) (evicted : Nat)
      (h : r.eventIdHex = inbox.text.lowercased request.eventIdHex) :
      Drops inbox q r ⟨.enqueue request, .ok evicted⟩
  | evicted (request : NwcQueuedWakeRequest) (evicted : Nat)
      (hfull : inbox.maxPendingRequests < (KeyedQueue.renewed NwcQueuedWakeRequest.eventIdHex q
        (inbox.text.canonical request)).length)
      (hold : r ∈ (KeyedQueue.renewed NwcQueuedWakeRequest.eventIdHex q
        (inbox.text.canonical request)).take ((KeyedQueue.renewed NwcQueuedWakeRequest.eventIdHex q
          (inbox.text.canonical request)).length - inbox.maxPendingRequests)) :
      Drops inbox q r ⟨.enqueue request, .ok evicted⟩

theorem drops_of_lost {call : InboxCall} {r : NwcQueuedWakeRequest} (hmem : r ∈ q)
    (hlost : r ∉ inbox.applied q call) : inbox.Drops q r call := by
  obtain ⟨op, reply⟩ := call
  cases reply with
  | error e =>
    have hsame : inbox.applied q ⟨op, .error e⟩ = q := by
      cases op <;> rfl
    rw [hsame] at hlost
    exact absurd hmem hlost
  | ok value =>
    cases op with
    | enqueue request =>
      rcases KeyedQueue.lost_by_push hmem hlost with hkey | ⟨hfull, hold⟩
      · exact .renewed request value hkey
      · exact .evicted request value hfull hold
    | pendingRequests => exact absurd hmem hlost
    | remove eventIds =>
      apply Drops.removed
      by_contra hkept
      apply hlost
      apply List.mem_filter.mpr
      refine ⟨hmem, ?_⟩
      simpa using hkept

end WakeFileInbox

section Runs

variable {Data : Type} {inbox : WakeFileInbox Data} {file file' : QueueFile Data}
  {op : InboxOp} {call : InboxCall} {history : InboxHistory Data}

theorem InboxStep.run_of_ok {value : op.Value} (h : InboxStep inbox file ⟨op, .ok value⟩ file') :
    op.run inbox file = .ok (value, file') := by
  generalize hcall : (⟨op, .ok value⟩ : InboxCall) = call at h
  cases h with
  | locked op' =>
    obtain ⟨rfl, hreply⟩ := InboxCall.mk.inj hcall
    exact (settle_eq_ok (s := file)).mp (Prod.ext (eq_of_heq hreply).symm rfl)
  | fault op' =>
    obtain ⟨rfl, hreply⟩ := InboxCall.mk.inj hcall
    cases eq_of_heq hreply

/-- A failing operation leaves the file as it was. -/
theorem InboxStep.eq_of_error (h : InboxStep inbox file call file') {e : WakeInboxError}
    (herror : call.reply = .error e) : file' = file := by
  cases h with
  | locked op => exact (settle_eq_error (Prod.ext herror rfl)).2
  | fault op => rfl

/-- Each step leaves the file of the queue that the call leaves. -/
theorem InboxStep.represents {q : List NwcQueuedWakeRequest} (h : InboxStep inbox file call file')
    (htext : inbox.text.AsciiHex) (hlossless : inbox.Lossless) (hq : inbox.Represents file q) :
    inbox.Represents file' (inbox.applied q call) := by
  obtain ⟨op, reply⟩ := call
  cases reply with
  | error e =>
    rw [h.eq_of_error rfl]
    cases op <;> exact hq
  | ok value =>
    have hrun := h.run_of_ok
    cases op with
    | enqueue request => exact hq.enqueued htext hlossless hrun
    | pendingRequests =>
      simp only [InboxOp.run, WakeFileInbox.pendingRequests, hq.loadLocked hlossless] at hrun
      cases hrun
      exact hq
    | remove eventIds => exact hq.removed hlossless hrun

theorem represents_run (htext : inbox.text.AsciiHex) (hlossless : inbox.Lossless)
    (hrun : InboxRun inbox none history file) : inbox.Represents file (inbox.queue history) := by
  induction hrun with
  | refl => exact WakeFileInbox.represents_empty
  | tail _ hlast ih => exact hlast.represents htext hlossless ih

/-- The inbox file refines the bounded queue; an enqueue of a request that passes validation
fails exactly when the encoded queue would exceed the bound of the file. -/
theorem inbox_refines_queue (htext : inbox.text.AsciiHex) (hlossless : inbox.Lossless)
    (hrun : InboxRun inbox none history file) :
    inbox.pendingRequests file = .ok (inbox.queue history) ∧
      KeyedQueue.Bounded NwcQueuedWakeRequest.eventIdHex inbox.maxPendingRequests
        (inbox.queue history) ∧
      (∀ later event earlier r, history = later ++ event :: earlier → r ∈ inbox.queue earlier →
        r ∉ inbox.queue (event :: earlier) → inbox.Drops (inbox.queue earlier) r event.label) ∧
      (∀ event ∈ history, ∀ e, event.label.reply = .error e → event.after = event.before) ∧
      ∀ request kept, inbox.text.persistenceSafe request = .ok kept →
        (inbox.Fits (inbox.pushed (inbox.queue history) request) ∧
          ∃ evicted, inbox.enqueue file request =
            .ok (evicted, some (inbox.coder.encode (inbox.pushed (inbox.queue history) request)))) ∨
        (¬ inbox.Fits (inbox.pushed (inbox.queue history) request) ∧
          inbox.enqueue file request = .error .fileWriteOutOfSpace) := by
  have hfile := represents_run htext hlossless hrun
  refine ⟨hfile.loadLocked hlossless, hfile.bounded, ?_, ?_, ?_⟩
  · intro later event earlier r _ hmem hlost
    exact WakeFileInbox.drops_of_lost hmem hlost
  · intro event hmem e herror
    exact (hrun.step_of_mem hmem).eq_of_error herror
  · intro request kept hsafe
    exact hfile.enqueue hlossless hsafe

theorem enqueue_run (hrun : InboxRun inbox none history file) {request : NwcQueuedWakeRequest}
    {evicted : Nat} (henqueue : inbox.enqueue file request = .ok (evicted, file')) :
    ∃ history', InboxRun inbox none history' file' ∧
      inbox.queue history' = inbox.pushed (inbox.queue history) request := by
  have hop : (InboxOp.enqueue request).run inbox file = .ok (evicted, file') := henqueue
  have hstep : InboxStep inbox file ⟨.enqueue request, (settle ((InboxOp.enqueue request).run inbox
      file) file).1⟩ (settle ((InboxOp.enqueue request).run inbox file) file).2 := .locked _
  rw [hop] at hstep
  exact ⟨_, hrun.tail hstep, rfl⟩

namespace WakeFileInbox

/-- What a sequence of operations, the last one first, does to a new inbox. -/
def replay (inbox : WakeFileInbox Data) : List InboxOp → InboxHistory Data × QueueFile Data
  | [] => ([], none)
  | op :: earlier =>
    let before := inbox.replay earlier
    let outcome := settle (op.run inbox before.2) before.2
    (⟨before.2, ⟨op, outcome.1⟩, outcome.2⟩ :: before.1, outcome.2)

theorem replay_run (inbox : WakeFileInbox Data) (ops : List InboxOp) :
    InboxRun inbox none (inbox.replay ops).1 (inbox.replay ops).2 := by
  induction ops with
  | nil => exact .refl
  | cons op earlier ih => exact ih.tail (.locked op)

theorem replay_cons (inbox : WakeFileInbox Data) (op : InboxOp) (earlier : List InboxOp) :
    (inbox.replay (op :: earlier)).1 = [] ++ ⟨(inbox.replay earlier).2,
      ⟨op, (settle (op.run inbox (inbox.replay earlier).2) (inbox.replay earlier).2).1⟩,
      (settle (op.run inbox (inbox.replay earlier).2) (inbox.replay earlier).2).2⟩ ::
        (inbox.replay earlier).1 := rfl

theorem replay_kept {earlier : List InboxOp} {e : WakeInboxError}
    (hkept : ∀ event ∈ (inbox.replay (op :: earlier)).1, ∀ e, event.label.reply = .error e →
      event.after = event.before)
    (hreply : (settle (op.run inbox (inbox.replay earlier).2) (inbox.replay earlier).2).1 =
      .error e) :
    (inbox.replay (op :: earlier)).2 = (inbox.replay earlier).2 :=
  hkept _ List.mem_cons_self e hreply

section Replay

variable {earlier : List InboxOp} {q : List NwcQueuedWakeRequest}
  {request kept : NwcQueuedWakeRequest}

theorem replay_enqueue (htext : inbox.text.AsciiHex) (hlossless : inbox.Lossless)
    (hqueue : inbox.queue (inbox.replay earlier).1 = q)
    (hsafe : inbox.text.persistenceSafe request = .ok kept)
    (hfits : inbox.Fits (inbox.pushed q request)) :
    (∃ evicted, (settle ((InboxOp.enqueue request).run inbox (inbox.replay earlier).2)
        (inbox.replay earlier).2).1 = .ok evicted) ∧
      inbox.queue (inbox.replay (.enqueue request :: earlier)).1 = inbox.pushed q request := by
  have hfile := represents_run htext hlossless (inbox.replay_run earlier)
  rw [hqueue] at hfile
  rcases hfile.enqueue hlossless hsafe with ⟨-, evicted, henqueue⟩ | ⟨hlong, -⟩
  · have hrun : (InboxOp.enqueue request).run inbox (inbox.replay earlier).2 = _ := henqueue
    refine ⟨⟨evicted, by rw [hrun]; rfl⟩, ?_⟩
    rw [replay_cons, List.nil_append, queue, hqueue, hrun]
    rfl
  · exact absurd hfits hlong

theorem replay_refused {e : WakeInboxError} (htext : inbox.text.AsciiHex)
    (hlossless : inbox.Lossless) (hqueue : inbox.queue (inbox.replay earlier).1 = q)
    (hinvalid : inbox.text.persistenceSafe request = .error e) :
    (settle ((InboxOp.enqueue request).run inbox (inbox.replay earlier).2)
        (inbox.replay earlier).2).1 = .error e ∧
      inbox.queue (inbox.replay (.enqueue request :: earlier)).1 = q := by
  have hfile := represents_run htext hlossless (inbox.replay_run earlier)
  have hrun : (InboxOp.enqueue request).run inbox (inbox.replay earlier).2 = .error e := by
    simp only [InboxOp.run, WakeFileInbox.enqueue, hfile.loadLocked hlossless, ok_bind, hinvalid,
      error_bind]
  refine ⟨by rw [hrun]; rfl, ?_⟩
  rw [replay_cons, List.nil_append, queue, hqueue, hrun]
  rfl

theorem replay_remove {eventIds : List String} (htext : inbox.text.AsciiHex)
    (hlossless : inbox.Lossless) (hqueue : inbox.queue (inbox.replay earlier).1 = q)
    (hfits : inbox.Fits (inbox.discarded q eventIds)) :
    inbox.queue (inbox.replay (.remove eventIds :: earlier)).1 = inbox.discarded q eventIds := by
  have hfile := represents_run htext hlossless (inbox.replay_run earlier)
  rw [hqueue] at hfile
  have hsaved : ∃ file, inbox.saveLocked (inbox.discarded q eventIds) = .ok file := by
    rcases saveLocked_cases inbox (inbox.discarded q eventIds) with ⟨-, hsave⟩ | ⟨-, -, hsave⟩ |
      ⟨-, hlong, -⟩
    · exact ⟨_, hsave⟩
    · exact ⟨_, hsave⟩
    · exact absurd hfits hlong
  obtain ⟨saved, hsave⟩ := hsaved
  have hremoved : ∃ changed file, inbox.remove (inbox.replay earlier).2 eventIds =
      .ok (changed, file) := by
    unfold WakeFileInbox.remove
    split
    · exact ⟨_, _, rfl⟩
    · simp only [hfile.loadLocked hlossless, ok_bind]
      split
      · exact ⟨_, _, rfl⟩
      · refine ⟨true, saved, ?_⟩
        change inbox.saveLocked (inbox.discarded q eventIds) >>= _ = _
        rw [hsave]
        rfl
  obtain ⟨changed, file, hremove⟩ := hremoved
  have hrun : (InboxOp.remove eventIds).run inbox (inbox.replay earlier).2 = .ok (changed, file) :=
    hremove
  rw [replay_cons, List.nil_append, queue, hqueue, hrun]
  rfl

end Replay

end WakeFileInbox

end Runs

namespace Sample

def swiftText : SwiftText := ⟨String.length, String.toLower⟩

theorem swiftText_asciiHex : swiftText.AsciiHex := ⟨fun _ _ => rfl, fun _ _ => rfl⟩

/-- The bytes of one character in a JSON string. -/
def jsonCharBytes (c : Char) : Nat :=
  if c == '"' || c == '\\' || c == '/' then 2
  else if c.toNat ∈ [8, 9, 10, 12, 13] then 2
  else if c.toNat < 0x20 then 6
  else c.utf8Size

def jsonStringBytes (value : String) : Nat := 2 + (value.toList.map jsonCharBytes).sum

def jsonPayloadBytes (payload : NwcWakePayload) : Nat :=
  "\x7b\"relayURL\":".length + jsonStringBytes payload.relayUrl +
    ",\"eventIDHex\":".length + jsonStringBytes payload.eventIdHex +
    ",\"walletServicePublicKeyHex\":".length + jsonStringBytes payload.walletServicePublicKeyHex +
    (payload.embeddedEventJson.elim 0 fun event =>
      ",\"embeddedEventJSON\":".length + jsonStringBytes event) + "\x7d".length

def jsonRequestBytes (request : NwcQueuedWakeRequest) : Nat :=
  "\x7b\"payload\":".length + jsonPayloadBytes request.payload +
    ",\"receivedAtSeconds\":".length + (Nat.toDigits 10 request.receivedAtSeconds).length +
    ",\"settlementCheck\":".length + (if request.settlementCheck then 4 else 5) + "\x7d".length

/-- A coder with the lengths of the JSON texts; the texts themselves are left out. -/
def jsonCoder : JsonCoder (List NwcQueuedWakeRequest) where
  encode := id
  decode := some
  count requests := 2 + (requests.map jsonRequestBytes).sum + (requests.length - 1)

def wakeInbox : WakeFileInbox (List NwcQueuedWakeRequest) where
  text := swiftText
  coder := jsonCoder
  maxPendingRequests := 100
  positive := by decide

theorem wakeInbox_lossless : wakeInbox.Lossless := fun _ _ => rfl

/-- An embedded event whose every character is escaped in JSON. -/
def quotes (n : Nat) : String := String.ofList (List.replicate n '"')

def wakeEventId (i : Nat) : String :=
  String.ofList (List.replicate (63 - i) '0' ++ List.replicate (i + 1) '1')

def wakeRequest (event : String) (i : Nat) : NwcQueuedWakeRequest where
  payload :=
    { relayUrl := "wss://relay.example.com"
      eventIdHex := wakeEventId i
      walletServicePublicKeyHex := wakeEventId 63
      embeddedEventJson := some event }
  receivedAtSeconds := 1000
  settlementCheck := false

def wakeRequests (event : String) (n : Nat) : List NwcQueuedWakeRequest :=
  (List.range n).map (wakeRequest event)

/-- An event that is kept and whose JSON text has the greatest possible length. -/
structure Longest (event : String) : Prop where
  within : swiftText.within event maximumPersistedEmbeddedEventBytes = true
  bytes : jsonStringBytes event = 131074

theorem quotes_bytes (n : Nat) : (quotes n).utf8ByteSize = n := by
  rw [quotes, String.utf8ByteSize_ofList]
  induction n with
  | zero => rfl
  | succ n ih =>
    rw [List.replicate_succ, String.utf8Len_cons, ih]
    rfl

theorem quotes_within {n maximum : Nat} (h : n ≤ maximum) :
    swiftText.within (quotes n) maximum = true := by
  have hcount : swiftText.count (quotes n) = n := String.length_ofList.trans List.length_replicate
  rw [SwiftText.within, Bool.and_eq_true, decide_eq_true_eq, decide_eq_true_eq, hcount,
    quotes_bytes]
  exact ⟨h, h⟩

theorem wakeEventId_chars {i : Nat} {c : Char} (h : c ∈ (wakeEventId i).toList) :
    c = '0' ∨ c = '1' := by
  rw [wakeEventId, String.toList_ofList, List.mem_append, List.mem_replicate,
    List.mem_replicate] at h
  rcases h with ⟨-, rfl⟩ | ⟨-, rfl⟩
  · exact Or.inl rfl
  · exact Or.inr rfl

theorem wakeEventId_fixed {i : Nat} (h : i ≤ 63) :
    swiftText.isFixedHex (wakeEventId i) = true ∧
      swiftText.lowercased (wakeEventId i) = wakeEventId i := by
  constructor
  · rw [SwiftText.isFixedHex, Bool.and_eq_true, beq_iff_eq, List.all_eq_true]
    constructor
    · simp [swiftText, wakeEventId, fixedHexLength]
      omega
    · intro c hc
      rcases wakeEventId_chars hc with rfl | rfl <;> decide
  · have hlist : (swiftText.lowercased (wakeEventId i)).toList =
        (wakeEventId i).toList.map Char.toLower := String.toList_map
    rw [← String.toList_inj, hlist]
    nth_rewrite 2 [← List.map_id (wakeEventId i).toList]
    apply List.map_congr_left
    intro c hc
    rcases wakeEventId_chars hc with rfl | rfl <;> decide

theorem wakeEventId_injective {i j : Nat} (h : wakeEventId i = wakeEventId j) : i = j := by
  have hcount := congrArg (fun id => id.toList.count '1') h
  simpa [wakeEventId, String.toList_ofList, List.count_replicate] using hcount

theorem jsonStringBytes_wakeEventId {i : Nat} (h : i ≤ 63) :
    jsonStringBytes (wakeEventId i) = 66 := by
  have hzero : jsonCharBytes '0' = 1 := by decide
  have hone : jsonCharBytes '1' = 1 := by decide
  simp only [jsonStringBytes, wakeEventId, String.toList_ofList, List.map_append,
    List.map_replicate, List.sum_append, List.sum_replicate, hzero, hone, smul_eq_mul]
  omega

theorem jsonStringBytes_quotes (n : Nat) : jsonStringBytes (quotes n) = 2 + n * 2 := by
  have hquote : jsonCharBytes '"' = 2 := by decide
  simp only [jsonStringBytes, quotes, String.toList_ofList, List.map_replicate, List.sum_replicate,
    hquote, smul_eq_mul]

section Filling

variable {event : String} {i n : Nat}

theorem wakeRequest_safe (hevent : Longest event) (h : i ≤ 63) :
    swiftText.persistenceSafe (wakeRequest event i) = .ok (wakeRequest event i) := by
  obtain ⟨heventId, hsameId⟩ := wakeEventId_fixed h
  obtain ⟨hwallet, hsameWallet⟩ := wakeEventId_fixed (Nat.le_refl 63)
  have hrelay : swiftText.within "wss://relay.example.com" maximumRelayUrlBytes = true := by
    decide
  have hnonempty : (!"wss://relay.example.com".isEmpty) = true := by decide
  have hbounded : swiftText.boundedPayload (wakeRequest event i).payload =
      (wakeRequest event i).payload := by
    simp only [SwiftText.boundedPayload, wakeRequest, Option.filter_some, hevent.within, if_true]
  have hpayload : swiftText.validated (wakeRequest event i).payload =
      .ok (wakeRequest event i).payload := by
    have hshort : swiftText.within event maximumEmbeddedEventBytes = true := hevent.within
    simp only [SwiftText.validated, wakeRequest, hnonempty, hrelay, heventId, hwallet, hshort,
      hsameId, hsameWallet, Option.all_some, Bool.and_self]
    rfl
  rw [SwiftText.persistenceSafe, hbounded, hpayload]
  rfl

theorem jsonRequestBytes_wakeRequest (hevent : Longest event) (h : i ≤ 63) :
    jsonRequestBytes (wakeRequest event i) = 131371 := by
  have hrelay : jsonStringBytes "wss://relay.example.com" = 27 := by decide
  have hseconds : (Nat.toDigits 10 1000).length = 4 := by decide
  simp only [jsonRequestBytes, jsonPayloadBytes, wakeRequest, jsonStringBytes_wakeEventId h,
    jsonStringBytes_wakeEventId (Nat.le_refl 63), hevent.bytes, hrelay, hseconds, Option.elim_some]
  rfl

theorem wakeRequest_count (hevent : Longest event) {ids : List Nat} (h : ∀ i ∈ ids, i ≤ 63) :
    jsonCoder.count (ids.map (wakeRequest event)) = 2 + ids.length * 131371 + (ids.length - 1) := by
  have hbytes : (ids.map (wakeRequest event)).map jsonRequestBytes =
      List.replicate ids.length 131371 := by
    rw [List.map_map, List.eq_replicate_iff]
    refine ⟨by simp, ?_⟩
    intro bytes hmem
    obtain ⟨i, hi, rfl⟩ := List.mem_map.mp hmem
    exact jsonRequestBytes_wakeRequest hevent (h i hi)
  simp only [jsonCoder, hbytes, List.length_map, List.sum_replicate, smul_eq_mul]

theorem wakeRequests_count (hevent : Longest event) (h : n ≤ 64) :
    jsonCoder.count (wakeRequests event n) = 2 + n * 131371 + (n - 1) := by
  have hids : ∀ i ∈ List.range n, i ≤ 63 := by
    intro i hi
    rw [List.mem_range] at hi
    omega
  rw [wakeRequests, wakeRequest_count hevent hids, List.length_range]

/-- Requests of different events are appended. -/
theorem wakeInbox_pushed (hevent : Longest event) (h : n ≤ 63) :
    wakeInbox.pushed (wakeRequests event n) (wakeRequest event n) = wakeRequests event (n + 1) := by
  have hcanonical : wakeInbox.text.canonical (wakeRequest event n) = wakeRequest event n :=
    (SwiftText.persistenceSafe_ok (wakeRequest_safe hevent h)).symm
  have hrenewed : KeyedQueue.renewed NwcQueuedWakeRequest.eventIdHex (wakeRequests event n)
      (wakeRequest event n) = wakeRequests event (n + 1) := by
    have hothers : (wakeRequests event n).filter
        (fun r => r.eventIdHex != (wakeRequest event n).eventIdHex) = wakeRequests event n := by
      rw [List.filter_eq_self]
      intro r hr
      obtain ⟨i, hi, rfl⟩ := List.mem_map.mp hr
      rw [List.mem_range] at hi
      rw [bne_iff_ne]
      intro hsame
      exact absurd (wakeEventId_injective hsame) (Nat.ne_of_lt hi)
    rw [KeyedQueue.renewed, hothers]
    simp [wakeRequests, List.range_succ]
  have hlength : (wakeRequests event (n + 1)).length = n + 1 := by
    simp [wakeRequests]
  have hmaximum : wakeInbox.maxPendingRequests = 100 := rfl
  have hnone : n + 1 - 100 = 0 := by
    omega
  rw [WakeFileInbox.pushed, hcanonical, KeyedQueue.push, hrenewed, hlength, hmaximum, hnone,
    List.drop_zero]

theorem wakeInbox_fits_iff (q : List NwcQueuedWakeRequest) :
    wakeInbox.Fits q ↔ jsonCoder.count q ≤ 8388608 := Iff.rfl

theorem wakeInbox_fills (hevent : Longest event) (h : n ≤ 63) : ∃ history file,
    InboxRun wakeInbox none history file ∧ wakeInbox.queue history = wakeRequests event n := by
  induction n with
  | zero => exact ⟨[], none, .refl, rfl⟩
  | succ n ih =>
    obtain ⟨history, file, hrun, hqueue⟩ := ih (by omega)
    have hfile := represents_run swiftText_asciiHex wakeInbox_lossless hrun
    rw [hqueue] at hfile
    have hpushed := wakeInbox_pushed (n := n) hevent (by omega)
    have hfits : wakeInbox.Fits (wakeRequests event (n + 1)) := by
      rw [wakeInbox_fits_iff, wakeRequests_count hevent (by omega)]
      omega
    rcases hfile.enqueue wakeInbox_lossless (wakeRequest_safe (i := n) hevent (by omega)) with
      ⟨-, evicted, henqueue⟩ | ⟨hlong, -⟩
    · obtain ⟨history', hrun', hqueue'⟩ := enqueue_run hrun henqueue
      rw [hqueue, hpushed] at hqueue'
      exact ⟨history', _, hrun', hqueue'⟩
    · rw [hpushed] at hlong
      exact absurd hfits hlong

theorem wakeInbox_accepts (hevent : Longest event) (h : i ≤ 63) :
    ∃ stored, wakeInbox.enqueue none (wakeRequest event i) = .ok stored := by
  have hpushed : wakeInbox.pushed [] (wakeRequest event i) = [wakeRequest event i] := by
    have hcanonical := SwiftText.persistenceSafe_ok (wakeRequest_safe hevent h)
    change [swiftText.canonical (wakeRequest event i)] = _
    rw [← hcanonical]
  rcases WakeFileInbox.represents_empty.enqueue wakeInbox_lossless (wakeRequest_safe hevent h) with
    ⟨-, evicted, henqueue⟩ | ⟨hlong, -⟩
  · exact ⟨_, henqueue⟩
  · rw [hpushed, wakeInbox_fits_iff] at hlong
    simp only [jsonCoder, List.map_singleton, List.sum_singleton, List.length_singleton,
      jsonRequestBytes_wakeRequest hevent h] at hlong
    omega

theorem wakeInbox_refuses (hevent : Longest event) {file : QueueFile (List NwcQueuedWakeRequest)}
    (hfile : wakeInbox.Represents file (wakeRequests event 63)) :
    wakeInbox.enqueue file (wakeRequest event 63) = .error .fileWriteOutOfSpace := by
  have hsafe := wakeRequest_safe hevent (Nat.le_refl 63)
  rcases hfile.enqueue wakeInbox_lossless hsafe with ⟨hfits, -⟩ | ⟨-, henqueue⟩
  · rw [wakeInbox_pushed hevent (Nat.le_refl 63), wakeInbox_fits_iff,
      wakeRequests_count hevent (Nat.le_refl 64)] at hfits
    omega
  · exact henqueue

end Filling

theorem quotes_longest : Longest (quotes 65536) :=
  ⟨quotes_within (by decide), jsonStringBytes_quotes 65536⟩

/-- An inbox that keeps two requests. -/
def pairInbox : WakeFileInbox (List NwcQueuedWakeRequest) :=
  { wakeInbox with maxPendingRequests := 2, positive := by decide }

theorem pairInbox_lossless : pairInbox.Lossless := fun _ _ => rfl

def longEvent : String := quotes 65536

theorem longEvent_longest : Longest longEvent := quotes_longest

/-- A request without a relay. -/
def relaylessRequest : NwcQueuedWakeRequest :=
  { wakeRequest longEvent 3 with payload := { (wakeRequest longEvent 3).payload with relayUrl := "" } }

/-- Two requests and the first of them again; the last operation comes first. -/
def renewing : List InboxOp :=
  [.enqueue (wakeRequest longEvent 0), .enqueue (wakeRequest longEvent 1),
    .enqueue (wakeRequest longEvent 0)]

def overflowing : List InboxOp := .enqueue (wakeRequest longEvent 2) :: renewing

def refusing : List InboxOp := .enqueue relaylessRequest :: overflowing

def emptying : List InboxOp := .remove [wakeEventId 2] :: refusing

section Pair

variable {event : String} {i : Nat} {ids : List Nat}

theorem pairInbox_pushed (hevent : Longest event) (h : i ≤ 63) :
    pairInbox.pushed (ids.map (wakeRequest event)) (wakeRequest event i) =
      (KeyedQueue.push id 2 ids i).map (wakeRequest event) := by
  have hcanonical : pairInbox.text.canonical (wakeRequest event i) = wakeRequest event i :=
    (SwiftText.persistenceSafe_ok (wakeRequest_safe hevent h)).symm
  have hkeys : ∀ j, ((wakeRequest event j).eventIdHex != (wakeRequest event i).eventIdHex) =
      (j != i) := by
    intro j
    rw [Bool.eq_iff_iff, bne_iff_ne, bne_iff_ne]
    exact not_congr ⟨fun hsame => wakeEventId_injective hsame, fun hsame => by rw [hsame]⟩
  have hrenewed : KeyedQueue.renewed NwcQueuedWakeRequest.eventIdHex (ids.map (wakeRequest event))
      (wakeRequest event i) = (KeyedQueue.renewed id ids i).map (wakeRequest event) := by
    simp [KeyedQueue.renewed, List.filter_map, Function.comp_def, hkeys]
  rw [WakeFileInbox.pushed, hcanonical, KeyedQueue.push, KeyedQueue.push, hrenewed, List.map_drop,
    List.length_map]
  rfl

theorem pairInbox_discarded (h : i ≤ 63) :
    pairInbox.discarded (ids.map (wakeRequest event)) [wakeEventId i] =
      (ids.filter (· != i)).map (wakeRequest event) := by
  have hlower : pairInbox.text.lowercased (wakeEventId i) = wakeEventId i := (wakeEventId_fixed h).2
  have hkeys : ∀ j, (!([wakeEventId i].contains (wakeRequest event j).eventIdHex)) = (j != i) := by
    intro j
    rw [Bool.eq_iff_iff, Bool.not_eq_true', bne_iff_ne, List.contains_eq_mem,
      decide_eq_false_iff_not, List.mem_singleton]
    exact not_congr ⟨fun hsame => wakeEventId_injective hsame, fun hsame => by rw [hsame]; rfl⟩
  simp only [WakeFileInbox.discarded, KeyedQueue.discard, List.map_cons, List.map_nil, hlower,
    List.filter_map, Function.comp_def, hkeys]

theorem pairInbox_fits (hevent : Longest event) (hids : ∀ i ∈ ids, i ≤ 63) (hfew : ids.length ≤ 2) :
    pairInbox.Fits (ids.map (wakeRequest event)) := by
  have hcount := wakeRequest_count hevent hids
  change jsonCoder.count (ids.map (wakeRequest event)) ≤ 8388608
  omega

/-- A request is enqueued as its number is. -/
theorem pairInbox_enqueue (hevent : Longest event) {earlier : List InboxOp} (h : i ≤ 63)
    (hids : ∀ i ∈ ids, i ≤ 63)
    (hqueue : pairInbox.queue (pairInbox.replay earlier).1 = ids.map (wakeRequest event)) :
    (∃ evicted, (settle ((InboxOp.enqueue (wakeRequest event i)).run pairInbox
        (pairInbox.replay earlier).2) (pairInbox.replay earlier).2).1 = .ok evicted) ∧
      pairInbox.queue (pairInbox.replay (.enqueue (wakeRequest event i) :: earlier)).1 =
        (KeyedQueue.push id 2 ids i).map (wakeRequest event) := by
  have hpushed : ∀ j ∈ KeyedQueue.push id 2 ids i, j ≤ 63 := by
    intro j hj
    rcases KeyedQueue.mem_of_mem_push hj with ⟨hold, -⟩ | rfl
    · exact hids j hold
    · exact h
  have hfits : pairInbox.Fits (pairInbox.pushed (ids.map (wakeRequest event))
      (wakeRequest event i)) := by
    rw [pairInbox_pushed hevent h]
    apply pairInbox_fits hevent hpushed
    rw [KeyedQueue.push, List.length_drop]
    omega
  rw [← pairInbox_pushed hevent h]
  exact pairInbox.replay_enqueue swiftText_asciiHex pairInbox_lossless hqueue
    (wakeRequest_safe hevent h) hfits

end Pair

theorem renewing_queue : pairInbox.queue (pairInbox.replay renewing).1 =
    [1, 0].map (wakeRequest longEvent) := by
  have hnone : pairInbox.queue (pairInbox.replay []).1 = [].map (wakeRequest longEvent) := rfl
  have hfirst := (pairInbox_enqueue (i := 0) longEvent_longest (by decide) (by decide) hnone).2
  have hsecond := (pairInbox_enqueue (i := 1) longEvent_longest (by decide) (by decide) hfirst).2
  exact (pairInbox_enqueue (i := 0) longEvent_longest (by decide) (by decide) hsecond).2

theorem overflowing_queue :
    (∃ evicted, (settle ((InboxOp.enqueue (wakeRequest longEvent 2)).run pairInbox
        (pairInbox.replay renewing).2) (pairInbox.replay renewing).2).1 = .ok evicted) ∧
      pairInbox.queue (pairInbox.replay overflowing).1 = [0, 2].map (wakeRequest longEvent) :=
  pairInbox_enqueue longEvent_longest (by decide) (by decide) renewing_queue

theorem relaylessRequest_invalid :
    swiftText.persistenceSafe relaylessRequest = .error .invalidFieldValue := by
  have hempty : (!"".isEmpty) = false := rfl
  simp only [SwiftText.persistenceSafe, SwiftText.validated, SwiftText.boundedPayload,
    relaylessRequest, hempty, Bool.false_and]
  rfl

theorem refusing_queue :
    (settle ((InboxOp.enqueue relaylessRequest).run pairInbox (pairInbox.replay overflowing).2)
        (pairInbox.replay overflowing).2).1 = .error .invalidFieldValue ∧
      pairInbox.queue (pairInbox.replay refusing).1 = [0, 2].map (wakeRequest longEvent) :=
  pairInbox.replay_refused swiftText_asciiHex pairInbox_lossless overflowing_queue.2
    relaylessRequest_invalid

theorem emptying_queue : pairInbox.queue (pairInbox.replay emptying).1 =
    [0].map (wakeRequest longEvent) := by
  have hkept : pairInbox.discarded ([0, 2].map (wakeRequest longEvent)) [wakeEventId 2] =
      [0].map (wakeRequest longEvent) := pairInbox_discarded (by decide)
  rw [← hkept]
  apply pairInbox.replay_remove swiftText_asciiHex pairInbox_lossless refusing_queue.2
  rw [hkept]
  exact pairInbox_fits longEvent_longest (by decide) (by decide)

end Sample

/-- A request that came again outlives one that came once: the third evicts that one. A
request without a relay changes nothing, and what is removed is gone. -/
theorem inbox_refines_queue_shared :
    (∃ evicted, Sample.pairInbox.Drops
        (Sample.pairInbox.queue (Sample.pairInbox.replay Sample.renewing).1)
        (Sample.wakeRequest Sample.longEvent 1)
        ⟨.enqueue (Sample.wakeRequest Sample.longEvent 2), .ok evicted⟩) ∧
      (Sample.pairInbox.replay Sample.refusing).2 = (Sample.pairInbox.replay Sample.overflowing).2 ∧
      Sample.pairInbox.pendingRequests (Sample.pairInbox.replay Sample.emptying).2 =
        .ok [Sample.wakeRequest Sample.longEvent 0] ∧
      KeyedQueue.Bounded NwcQueuedWakeRequest.eventIdHex 2
        (Sample.pairInbox.queue (Sample.pairInbox.replay Sample.emptying).1) ∧
      ∃ evicted file, Sample.pairInbox.enqueue (Sample.pairInbox.replay Sample.emptying).2
        (Sample.wakeRequest Sample.longEvent 1) = .ok (evicted, file) := by
  have hrefines := fun ops => inbox_refines_queue Sample.swiftText_asciiHex
    Sample.pairInbox_lossless (Sample.pairInbox.replay_run ops)
  obtain ⟨-, -, hdrops, -, -⟩ := hrefines Sample.overflowing
  obtain ⟨-, -, -, hrefused, -⟩ := hrefines Sample.refusing
  obtain ⟨hpending, hbounded, -, -, haccepts⟩ := hrefines Sample.emptying
  refine ⟨?_, ?_, hpending.trans (congrArg Except.ok Sample.emptying_queue), hbounded, ?_⟩
  · obtain ⟨⟨evicted, hreply⟩, hafter⟩ := Sample.overflowing_queue
    have hbefore : Sample.wakeRequest Sample.longEvent 1 ∈
        Sample.pairInbox.queue (Sample.pairInbox.replay Sample.renewing).1 := by
      rw [Sample.renewing_queue]
      exact List.mem_cons_self
    have hlost : Sample.wakeRequest Sample.longEvent 1 ∉
        Sample.pairInbox.queue (Sample.pairInbox.replay Sample.overflowing).1 := by
      rw [hafter]
      intro hmem
      obtain ⟨i, hi, hsame⟩ := List.mem_map.mp hmem
      have hi1 := Sample.wakeEventId_injective (congrArg NwcQueuedWakeRequest.eventIdHex hsame)
      subst hi1
      exact absurd hi (by decide)
    refine ⟨evicted, ?_⟩
    rw [Sample.overflowing, WakeFileInbox.replay_cons, List.nil_append] at hlost
    rw [← hreply]
    exact hdrops [] _ _ _ (Sample.pairInbox.replay_cons _ Sample.renewing) hbefore hlost
  · exact WakeFileInbox.replay_kept hrefused Sample.refusing_queue.1
  · have hsafe := Sample.wakeRequest_safe (i := 1) Sample.longEvent_longest (by decide)
    rcases haccepts _ _ hsafe with ⟨-, evicted, hstored⟩ | ⟨hfull, -⟩
    · exact ⟨evicted, _, hstored⟩
    · refine absurd ?_ hfull
      rw [Sample.emptying_queue, Sample.pairInbox_pushed Sample.longEvent_longest (by decide)]
      exact Sample.pairInbox_fits Sample.longEvent_longest (by decide) (by decide)

/-- A queue that leaves no space for a request which an empty inbox accepts. -/
theorem enqueue_without_space : ∃ request history file,
    InboxRun Sample.wakeInbox none history file ∧
      Sample.swiftText.persistenceSafe request = .ok request ∧
      (∃ stored, Sample.wakeInbox.enqueue none request = .ok stored) ∧
      Sample.wakeInbox.enqueue file request = .error .fileWriteOutOfSpace := by
  have hlongest := Sample.quotes_longest
  obtain ⟨history, file, hrun, hqueue⟩ := Sample.wakeInbox_fills hlongest (Nat.le_refl 63)
  have hfile := represents_run Sample.swiftText_asciiHex Sample.wakeInbox_lossless hrun
  rw [hqueue] at hfile
  exact ⟨Sample.wakeRequest (Sample.quotes 65536) 63, history, file, hrun,
    Sample.wakeRequest_safe hlongest (Nat.le_refl 63),
    Sample.wakeInbox_accepts hlongest (Nat.le_refl 63), Sample.wakeInbox_refuses hlongest hfile⟩

end NwcMobile
