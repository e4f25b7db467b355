import NwcMobile.Nwa
import Mathlib.Data.List.Destutter

/-!
Downloading an application's icon. The host name of the URL is resolved once, and
the client may connect to the public addresses among the answers only. An IPv6
address can name an IPv4 host; whether such a host is public is asked of the IPv6
address.
-/

namespace NwcMobile

open Fallible

/-- `std::net::Ipv4Addr`, by octets. -/
structure Ipv4Addr where
  first : BitVec 8
  second : BitVec 8
  third : BitVec 8
  fourth : BitVec 8
deriving DecidableEq, Repr

namespace Ipv4Addr

variable (address : Ipv4Addr)

def isPrivate : Bool :=
  address.first == 10 ||
    (address.first == 172 && decide (16 ≤ address.second) && decide (address.second ≤ 31)) ||
    (address.first == 192 && address.second == 168)

def isLoopback : Bool := address.first == 127

def isLinkLocal : Bool := address.first == 169 && address.second == 254

def isBroadcast : Bool := address == ⟨255, 255, 255, 255⟩

def isDocumentation : Bool :=
  (address.first, address.second, address.third) ∈
    [(192, 0, 2), (198, 51, 100), ((203, 0, 113) : BitVec 8 × BitVec 8 × BitVec 8)]

def isMulticast : Bool := decide (224 ≤ address.first) && decide (address.first ≤ 239)

def isUnspecified : Bool := address == ⟨0, 0, 0, 0⟩

end Ipv4Addr

/-- `std::net::Ipv6Addr`, by segments. -/
structure Ipv6Addr where
  segments : Vector (BitVec 16) 8
deriving DecidableEq, Repr

inductive SocketAddr where
  | v4 (ip : Ipv4Addr) (port : BitVec 16)
  | v6 (ip : Ipv6Addr) (port : BitVec 16) (flowinfo scopeId : BitVec 32)
deriving DecidableEq, Repr

/-- The order of `SocketAddr`: IPv4 first, then by address, port and the other fields. -/
def SocketAddr.key : SocketAddr → List Nat
  | .v4 ip port =>
    [0, ip.first.toNat, ip.second.toNat, ip.third.toNat, ip.fourth.toNat, port.toNat]
  | .v6 ip port flowinfo scopeId =>
    1 :: ip.segments.toList.map BitVec.toNat ++ [port.toNat, flowinfo.toNat, scopeId.toNat]

def isPublicIpv4 (address : Ipv4Addr) : Bool :=
  !address.isPrivate && !address.isLoopback && !address.isLinkLocal && !address.isBroadcast &&
    !address.isDocumentation && !address.isMulticast && !address.isUnspecified &&
    address.first != 0 && decide (address.first < 240) &&
    !(address.first == 100 && decide (64 ≤ address.second) && decide (address.second ≤ 127)) &&
    !(address.first == 192 && address.second == 0 && address.third == 0) &&
    !(address.first == 198 && (address.second == 18 || address.second == 19))

def isPublicIpv6 (address : Ipv6Addr) : Bool :=
  let segments := address.segments
  let isGlobalUnicast := segments[0] &&& 0xe000 == 0x2000
  let isDocumentation := segments[0] == 0x2001 && segments[1] == 0x0db8
  let isBenchmarking := segments[0] == 0x2001 && segments[1] == 0x0002
  let isOrchid := segments[0] == 0x2001 &&
    (segments[1] &&& 0xfff0 == 0x0010 || segments[1] &&& 0xfff0 == 0x0020)
  let isAdditionalDocumentation := segments[0] == 0x3fff && segments[1] &&& 0xf000 == 0
  isGlobalUnicast && !isDocumentation && !isBenchmarking && !isOrchid && !isAdditionalDocumentation

def isPublicSocketAddress : SocketAddr → Bool
  | .v4 address _ => isPublicIpv4 address
  | .v6 address .. => isPublicIpv6 address

namespace ApplicationIcon

/-- The public addresses in order, each once. -/
def publicAddresses (addresses : List SocketAddr) : List SocketAddr :=
  ((addresses.filter isPublicSocketAddress).insertionSort fun a b => a.key ≤ b.key).destutter
    (· ≠ ·)

end ApplicationIcon

open ApplicationIcon

/-- The standard ways to write an IPv4 address as an IPv6 address. -/
inductive Ipv4Embedding where
  | mapped
  | compatible
  | nat64
  | sixToFour
deriving DecidableEq, Repr

/-- The IPv6 addresses that stand for an IPv4 address. -/
inductive Embeds (v : Ipv4Addr) : Ipv4Embedding → Ipv6Addr → Prop
  | mapped : Embeds v .mapped
      ⟨#v[0, 0, 0, 0, 0, 0xffff, v.first ++ v.second, v.third ++ v.fourth]⟩
  | compatible : Embeds v .compatible
      ⟨#v[0, 0, 0, 0, 0, 0, v.first ++ v.second, v.third ++ v.fourth]⟩
  | nat64 : Embeds v .nat64
      ⟨#v[0x64, 0xff9b, 0, 0, 0, 0, v.first ++ v.second, v.third ++ v.fourth]⟩
  | sixToFour (rest : Vector (BitVec 16) 5) : Embeds v .sixToFour
      ⟨#v[0x2002, v.first ++ v.second, v.third ++ v.fourth,
        rest[0], rest[1], rest[2], rest[3], rest[4]]⟩

/-- The IPv4 host an address leads to. -/
inductive SocketAddr.RoutesTo (v : Ipv4Addr) : SocketAddr → Prop
  | plain (port : BitVec 16) : RoutesTo v (.v4 v port)
  | embedded {embedding : Ipv4Embedding} {address : Ipv6Addr} (port : BitVec 16)
      (flowinfo scopeId : BitVec 32) (embeds : Embeds v embedding address) :
      RoutesTo v (.v6 address port flowinfo scopeId)

section Addresses

variable {v : Ipv4Addr} {embedding : Ipv4Embedding} {address : Ipv6Addr}
  {addresses : List SocketAddr} {target : SocketAddr}

/-- The first segment of a 6to4 address decides: it is in the global unicast space and none of
the excluded blocks. -/
theorem isPublicIpv6_sixToFour (h : address.segments[0] = 0x2002) :
    isPublicIpv6 address = true := by
  have hunicast : ((0x2002 : BitVec 16) &&& 0xe000 == 0x2000) = true := by decide
  have hdocumentation : ((0x2002 : BitVec 16) == 0x2001) = false := by decide
  have hadditional : ((0x2002 : BitVec 16) == 0x3fff) = false := by decide
  simp only [isPublicIpv6, h, hunicast, hdocumentation, hadditional, Bool.false_and, Bool.not_false,
    Bool.and_self]

theorem isPublicIpv6_low (h : address.segments[0] &&& 0xe000 = 0) :
    isPublicIpv6 address = false := by
  have hunicast : ((0 : BitVec 16) == 0x2000) = false := by decide
  simp only [isPublicIpv6, h, hunicast, Bool.false_and]

/-- Of the embeddings, 6to4 alone lies in the global unicast space, all of it public. -/
theorem Embeds.isPublicIpv6 (h : Embeds v embedding address) :
    isPublicIpv6 address = decide (embedding = .sixToFour) := by
  cases h with
  | mapped => exact isPublicIpv6_low (by decide : (0 : BitVec 16) &&& 0xe000 = 0)
  | compatible => exact isPublicIpv6_low (by decide : (0 : BitVec 16) &&& 0xe000 = 0)
  | nat64 => exact isPublicIpv6_low (by decide : (0x64 : BitVec 16) &&& 0xe000 = 0)
  | sixToFour rest => exact isPublicIpv6_sixToFour rfl

theorem mem_destutter_ne {α : Type} [DecidableEq α] {xs : List α} {a : α} :
    a ∈ xs.destutter (· ≠ ·) ↔ a ∈ xs := by
  constructor
  · exact fun h => (List.destutter_sublist _ _).subset h
  · cases xs with
    | nil => exact id
    | cons x xs =>
      rw [List.destutter_cons']
      intro h
      induction xs generalizing x with
      | nil => exact h
      | cons y xs ih =>
        by_cases hne : x ≠ y
        · rw [List.destutter'_cons_pos _ hne, List.mem_cons]
          rcases List.mem_cons.mp h with rfl | hrest
          · exact Or.inl rfl
          · exact Or.inr (ih y hrest)
        · rw [List.destutter'_cons_neg _ hne]
          rw [not_ne_iff] at hne
          apply ih
          rwa [hne, List.mem_cons, List.mem_cons, or_self_left, ← List.mem_cons, ← hne] at h

theorem mem_publicAddresses :
    target ∈ publicAddresses addresses ↔
      target ∈ addresses ∧ isPublicSocketAddress target = true := by
  rw [publicAddresses, mem_destutter_ne, List.mem_insertionSort, List.mem_filter]

/-- A public target leads to a public IPv4 host, unless it is a 6to4 address. -/
theorem SocketAddr.RoutesTo.cases (h : target.RoutesTo v)
    (hpublic : isPublicSocketAddress target = true) :
    isPublicIpv4 v = true ∨ ∃ address port flowinfo scopeId,
      target = .v6 address port flowinfo scopeId ∧ Embeds v .sixToFour address := by
  cases h with
  | plain port => exact Or.inl hpublic
  | @embedded embedding address port flowinfo scopeId embeds =>
    have hsix : NwcMobile.isPublicIpv6 address = true := hpublic
    rw [embeds.isPublicIpv6, decide_eq_true_eq] at hsix
    subst hsix
    exact Or.inr ⟨address, port, flowinfo, scopeId, rfl, embeds⟩

end Addresses

/-- An embedding of a private IPv4 address is refused exactly when it is not 6to4. So the
targets of a download lead to public IPv4 hosts exactly when no answer of the resolver is a
6to4 address of a private one. -/
theorem embedded_private_refused_iff {v : Ipv4Addr} {embedding : Ipv4Embedding}
    {address : Ipv6Addr} (port : BitVec 16) (flowinfo scopeId : BitVec 32)
    (addresses : List SocketAddr) (hembeds : Embeds v embedding address) :
    ((isPublicIpv4 v = false →
        isPublicSocketAddress (.v6 address port flowinfo scopeId) = false) ↔
      isPublicIpv4 v = true ∨ embedding ≠ .sixToFour) ∧
    ((∀ target ∈ publicAddresses addresses, ∀ w, target.RoutesTo w → isPublicIpv4 w = true) ↔
      ∀ w address port flowinfo scopeId, .v6 address port flowinfo scopeId ∈ addresses →
        Embeds w .sixToFour address → isPublicIpv4 w = true) := by
  constructor
  · have hpublic : isPublicSocketAddress (.v6 address port flowinfo scopeId) =
        decide (embedding = .sixToFour) := hembeds.isPublicIpv6
    rw [hpublic, decide_eq_false_iff_not, ← Bool.not_eq_true]
    exact Decidable.imp_iff_not_or.trans (by rw [not_not])
  · constructor
    · intro hall w address port flowinfo scopeId hmem hembeds
      have hpublic : isPublicSocketAddress (.v6 address port flowinfo scopeId) = true :=
        hembeds.isPublicIpv6
      exact hall _ (mem_publicAddresses.mpr ⟨hmem, hpublic⟩) w
        (.embedded port flowinfo scopeId hembeds)
    · intro hall target hmem w hroutes
      obtain ⟨hresolved, hpublic⟩ := mem_publicAddresses.mp hmem
      rcases hroutes.cases hpublic with hw | ⟨address, port, flowinfo, scopeId, rfl, hembeds⟩
      · exact hw
      · exact hall w address port flowinfo scopeId hresolved hembeds

namespace Sample

/-- The loopback address 127.0.0.1. -/
def loopback : Ipv4Addr := ⟨127, 0, 0, 1⟩

/-- 2002:7f00:1::1, the 6to4 address of the loopback address. -/
def loopbackSixToFour : Ipv6Addr := ⟨#v[0x2002, 0x7f00, 1, 0, 0, 0, 0, 1]⟩

end Sample

/-- The 6to4 address of the loopback address is a download target. -/
theorem loopback_six_to_four_fetched :
    isPublicIpv4 Sample.loopback = false ∧
      Embeds Sample.loopback .sixToFour Sample.loopbackSixToFour ∧
      publicAddresses [.v6 Sample.loopbackSixToFour 443 0 0] =
        [.v6 Sample.loopbackSixToFour 443 0 0] := by
  refine ⟨by decide, ?_, by decide⟩
  exact .sixToFour #v[0, 0, 0, 0, 1]

theorem embedded_private_refused_loopback :
    isPublicSocketAddress (.v6 ⟨#v[0, 0, 0, 0, 0, 0xffff, 0x7f00, 1]⟩ 443 0 0) = false := by
  have hmapped : Embeds Sample.loopback .mapped ⟨#v[0, 0, 0, 0, 0, 0xffff, 0x7f00, 1]⟩ := .mapped
  obtain ⟨hrefused, -⟩ := embedded_private_refused_iff 443 0 0 [] hmapped
  exact hrefused.mpr (Or.inr (by decide)) (by decide)

section Downloads

variable {x : Crates} {parts : UrlParts} {transport first second : IconTransport}
  {remoteUrl : String}
  {bytes icon : List (BitVec 8)} {chunks : List (Except IconRequestError (List (BitVec 8)))}

end Downloads

namespace Sample

def iconUrl : String := "https://icons.example/app.png"

end Sample

end NwcMobile
