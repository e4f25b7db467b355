import NwcMobile.Foundations.Fallible

/-!
Identifiers, amounts and times of the wake protocol. Unsigned 64-bit values are
natural numbers here; every place where the program depends on the width checks
it explicitly, and the checks below are those checks.
-/

namespace NwcMobile

open Fallible

/-- Whole seconds since the Unix epoch (`u64` in the program). -/
abbrev UnixTimestamp := Nat

/-- A connection's monotonically increasing revision. -/
abbrev ConnectionRevision := Nat

abbrev AmountMsat := Nat

abbrev AmountSat := Nat

/-- `u64::checked_add`. -/
def checkedAdd (a b : Nat) : Option Nat :=
  if a + b < 2 ^ 64 then some (a + b) else none

/-- `u64::checked_mul`. -/
def checkedMul (a b : Nat) : Option Nat :=
  if a * b < 2 ^ 64 then some (a * b) else none

/-- `u64::checked_sub`. -/
def checkedSub (a b : Nat) : Option Nat :=
  if b ≤ a then some (a - b) else none

/-- The largest value of an SQLite integer column. -/
def i64Max : Nat := 2 ^ 63 - 1

/-- `i64::checked_add` on non-negative values. -/
def checkedAddI64 (a b : Nat) : Option Nat :=
  if a + b ≤ i64Max then some (a + b) else none

/-- `i64::try_from(u64)`, with the error its caller maps the failure to. -/
def i64TryFrom {ε : Type} (value : Nat) (error : ε) : Except ε Nat :=
  if value ≤ i64Max then .ok value else .error error

@[simp] theorem checkedAdd_eq_some {a b c : Nat} :
    checkedAdd a b = some c ↔ a + b < 2 ^ 64 ∧ a + b = c := by
  simp [checkedAdd]

@[simp] theorem checkedMul_eq_some {a b c : Nat} :
    checkedMul a b = some c ↔ a * b < 2 ^ 64 ∧ a * b = c := by
  simp [checkedMul]

@[simp] theorem checkedSub_eq_some {a b c : Nat} :
    checkedSub a b = some c ↔ b ≤ a ∧ a - b = c := by
  simp [checkedSub]

@[simp] theorem checkedAddI64_eq_some {a b c : Nat} :
    checkedAddI64 a b = some c ↔ a + b ≤ i64Max ∧ a + b = c := by
  simp [checkedAddI64]

@[simp] theorem i64TryFrom_eq_ok {ε : Type} {value n : Nat} {error : ε} :
    i64TryFrom value error = .ok n ↔ value ≤ i64Max ∧ value = n := by
  unfold i64TryFrom
  split <;> simp [*]

@[simp] theorem i64TryFrom_eq_error {ε : Type} {value : Nat} {error e : ε} :
    i64TryFrom value error = .error e ↔ i64Max < value ∧ error = e := by
  unfold i64TryFrom
  split
  · simp; omega
  · simp; omega

/-- A Nostr event identifier, 32 bytes read as one big-endian number. -/
structure EventId where
  bytes : BitVec 256
deriving DecidableEq, Repr

structure PublicKey where
  bytes : BitVec 256
deriving DecidableEq, Repr

structure PaymentHash where
  bytes : BitVec 256
deriving DecidableEq, Repr

structure PaymentPreimage where
  bytes : BitVec 256
deriving DecidableEq, Repr

/-- Sixteen random bytes that identify one claim of an event. -/
structure ClaimToken where
  bytes : BitVec 128
deriving DecidableEq, Repr

/-- Failures while constructing a domain value. -/
inductive DomainError where
  | emptyIdentifier
  | identifierTooLong (maximum : Nat)
  | invalidIdentifierCharacter
  | invalidHexLength (expected actual : Nat)
  | invalidHex
  | revisionOverflow
  | invalidRelayUrl
  | invalidWakePolicy
deriving DecidableEq, Repr

namespace Hex32

def length : Nat := 64

/-- `decode_hex_nibble`: either case is accepted. -/
def decodeNibble (c : Char) : Option Nat :=
  if '0' ≤ c ∧ c ≤ '9' then some (c.toNat - '0'.toNat)
  else if 'a' ≤ c ∧ c ≤ 'f' then some (c.toNat - 'a'.toNat + 10)
  else if 'A' ≤ c ∧ c ≤ 'F' then some (c.toNat - 'A'.toNat + 10)
  else none

/-- `Hex32::from_hex`. -/
def fromHex (value : String) : Except DomainError (BitVec 256) :=
  if value.utf8ByteSize ≠ length then
    .error (.invalidHexLength length value.utf8ByteSize)
  else do
    let nibbles ← okOr (value.toList.mapM decodeNibble) .invalidHex
    pure (BitVec.ofNat 256 (nibbles.foldl (fun acc nibble => acc * 16 + nibble) 0))

/-- `Hex32::to_hex`: 64 lowercase digits, most significant first. -/
def toHex (bytes : BitVec 256) : String :=
  String.ofList ((List.range length).map fun i =>
    Nat.digitChar (bytes.toNat / 16 ^ (length - 1 - i) % 16))

end Hex32

def PaymentHash.fromHex (value : String) : Except DomainError PaymentHash :=
  (Hex32.fromHex value).map PaymentHash.mk

def maxConnectionIdBytes : Nat := 128

def isIdentifierChar (c : Char) : Bool :=
  c.isAlphanum || c == '-' || c == '_' || c == '.' || c == ':'

/-- A stable wallet-local connection identifier: a short non-empty string over
a conservative ASCII alphabet. -/
structure ConnectionId where
  value : String
  nonempty : value.isEmpty = false
  bounded : value.utf8ByteSize ≤ maxConnectionIdBytes
  conservative : value.toList.all isIdentifierChar = true
deriving DecidableEq, Repr

def ConnectionId.parse (value : String) : Except DomainError ConnectionId :=
  if hempty : value.isEmpty = false then
    if hlength : value.utf8ByteSize ≤ maxConnectionIdBytes then
      if hchars : value.toList.all isIdentifierChar = true then
        .ok ⟨value, hempty, hlength, hchars⟩
      else .error .invalidIdentifierCharacter
    else .error (.identifierTooLong maxConnectionIdBytes)
  else .error .emptyIdentifier

theorem ConnectionId.parse_eq_ok {value : String} {id : ConnectionId} :
    ConnectionId.parse value = .ok id ↔ id.value = value := by
  constructor
  · intro h
    unfold ConnectionId.parse at h
    split at h
    · split at h
      · split at h
        · cases h
          rfl
        · cases h
      · cases h
    · cases h
  · rintro rfl
    simp [ConnectionId.parse, id.nonempty, id.bounded, id.conservative]

theorem ConnectionId.value_injective : Function.Injective ConnectionId.value := by
  rintro ⟨a, _, _, _⟩ ⟨b, _, _, _⟩ h
  simpa using h

/-- `ConnectionRevision::INITIAL`. -/
def ConnectionRevision.initial : ConnectionRevision := 0

/-- `ConnectionRevision::next`, failing closed on overflow. -/
def ConnectionRevision.next (revision : ConnectionRevision) :
    Except DomainError ConnectionRevision :=
  okOr (checkedAdd revision 1) .revisionOverflow

/-- A NIP-47 method understood by the engine. -/
inductive NwcMethod where
  | getInfo
  | getBalance
  | makeInvoice
  | payInvoice
  | lookupInvoice
  | listTransactions
deriving DecidableEq, Repr

/-- The wire name, which is also the stored name. -/
def NwcMethod.asStr : NwcMethod → String
  | .getInfo => "get_info"
  | .getBalance => "get_balance"
  | .makeInvoice => "make_invoice"
  | .payInvoice => "pay_invoice"
  | .lookupInvoice => "lookup_invoice"
  | .listTransactions => "list_transactions"

theorem NwcMethod.asStr_injective : Function.Injective NwcMethod.asStr := by
  intro a b h
  cases a <;> cases b <;> first | rfl | simp [NwcMethod.asStr] at h

/-- `std::time::Duration`, counted in nanoseconds. -/
structure Duration where
  nanos : Nat
deriving DecidableEq, Repr

namespace Duration

def nanosPerSec : Nat := 1000000000

def fromSecs (secs : Nat) : Duration := ⟨secs * nanosPerSec⟩

def asSecs (d : Duration) : Nat := d.nanos / nanosPerSec

def subsecNanos (d : Duration) : Nat := d.nanos % nanosPerSec

def isZero (d : Duration) : Bool := d.nanos == 0

/-- `Duration::MAX`: `u64::MAX` seconds and the largest fraction. -/
def max : Duration := ⟨(2 ^ 64 - 1) * nanosPerSec + (nanosPerSec - 1)⟩

/-- `Duration::checked_add`. -/
def checkedAdd (a b : Duration) : Option Duration :=
  if a.nanos + b.nanos ≤ max.nanos then some ⟨a.nanos + b.nanos⟩ else none

def saturatingMul (d : Duration) (factor : Nat) : Duration :=
  ⟨min (d.nanos * factor) max.nanos⟩

instance : LE Duration := ⟨fun a b => a.nanos ≤ b.nanos⟩

instance : LT Duration := ⟨fun a b => a.nanos < b.nanos⟩

instance (a b : Duration) : Decidable (a ≤ b) := inferInstanceAs (Decidable (a.nanos ≤ b.nanos))

instance (a b : Duration) : Decidable (a < b) := inferInstanceAs (Decidable (a.nanos < b.nanos))

theorem le_iff {a b : Duration} : a ≤ b ↔ a.nanos ≤ b.nanos := Iff.rfl

@[simp] theorem asSecs_fromSecs (secs : Nat) : (fromSecs secs).asSecs = secs := by
  simp [fromSecs, asSecs, nanosPerSec]

end Duration

end NwcMobile
