import NetworkProxy.PyText
import Mathlib.Data.BitVec

/-!
# IP addresses and networks

The part of Python's `ipaddress` behind `ip_address(s)` and
`ip_network(s, strict=False)`: IPv4 in dotted decimals, IPv6 in hextets with `::`,
an IPv4 tail and a scope, prefix lengths, and for IPv4 netmasks and hostmasks.
`none` is a `ValueError`.

`Network.contains_of`: a network holds the addresses that agree with its own in
the bits of the prefix.
-/

namespace NetworkProxy
namespace Py

/-- `_ip_int_from_prefix`: `p` ones followed by zeroes. -/
def netmask (w p : Nat) : BitVec w := BitVec.allOnes w ^^^ (BitVec.allOnes w >>> p)

@[simp] theorem getMsbD_netmask {w p i : Nat} :
    (netmask w p).getMsbD i = (decide (i < w) && decide (i < p)) := by
  rw [netmask, BitVec.getMsbD_xor, BitVec.getMsbD_ushiftRight, BitVec.getMsbD_allOnes,
    BitVec.getMsbD_allOnes]
  by_cases hw : i < w
  · have hsub : i - p < w := by omega
    simp [hw, hsub]
  · simp [hw]

/-- Two addresses agree under the mask when they agree in the bits of the prefix. -/
theorem and_netmask_eq_iff {w p : Nat} {a b : BitVec w} :
    a &&& netmask w p = b &&& netmask w p ↔
      ∀ i, i < p → a.getMsbD i = b.getMsbD i := by
  constructor
  · intro h i hp
    have hbit := congrArg (fun x => x.getMsbD i) h
    by_cases hw : i < w
    · simpa [hw, hp] using hbit
    · rw [BitVec.getMsbD_of_ge _ _ (by omega), BitVec.getMsbD_of_ge _ _ (by omega)]
  · intro h
    apply BitVec.eq_of_getMsbD_eq
    intro i hw
    rw [BitVec.getMsbD_and, BitVec.getMsbD_and, getMsbD_netmask]
    by_cases hp : i < p
    · rw [h i hp]
    · simp [hp]

/-- A network: its address has no bits set behind the prefix. -/
structure Network (w : Nat) where
  networkAddress : BitVec w
  prefixlen : Nat
  prefixlen_le : prefixlen ≤ w
  masked : networkAddress &&& netmask w prefixlen = networkAddress
deriving DecidableEq

namespace Network

variable {w : Nat}

/-- The network around an address, with the host bits cleared (`strict=False`). -/
def of (ip : BitVec w) (p : { p : Nat // p ≤ w }) : Network w where
  networkAddress := ip &&& netmask w p
  prefixlen := p
  prefixlen_le := p.2
  masked := by rw [BitVec.and_assoc, BitVec.and_self]

/-- `addr in network` for an address of the network's version. -/
def contains (n : Network w) (ip : BitVec w) : Bool :=
  ip &&& netmask w n.prefixlen == n.networkAddress

/-- Prefix containment: an address lies in the network around `base` when it
agrees with `base` in the bits of the prefix. -/
theorem contains_of {ip base : BitVec w} {p : { p : Nat // p ≤ w }} :
    (of base p).contains ip = true ↔ ∀ i, i < p.1 → ip.getMsbD i = base.getMsbD i := by
  rw [contains, beq_iff_eq]
  exact and_netmask_eq_iff

end Network

/-- `IPv4Address` and `IPv6Address`; the scope of an IPv6 address is not used. -/
inductive IpAddress where
  | v4 (ip : BitVec 32)
  | v6 (ip : BitVec 128)
deriving DecidableEq

/-- `IPv4Network` and `IPv6Network`. -/
inductive IpNetwork where
  | v4 (network : Network 32)
  | v6 (network : Network 128)
deriving DecidableEq

/-- `addr in network`; versions do not mix. -/
def IpNetwork.contains : IpNetwork → IpAddress → Bool
  | .v4 network, .v4 ip => network.contains ip
  | .v6 network, .v6 ip => network.contains ip
  | _, _ => false

section Ipv4

/-- `_parse_octet`. -/
def parseOctet (s : Text) : Option Nat :=
  if s = [] ∨ s.all Char.isDigit = false then none
  else if 3 < s.length then none
  -- as strict as `inet_pton`: no leading zero
  else if s ≠ ['0'] ∧ s.head? = some '0' then none
  else (parseDigits s).filter (fun n => decide (n ≤ 255))

/-- `int.from_bytes(octets, 'big')`. -/
def fromOctets (octets : List Nat) : BitVec 32 :=
  octets.foldl (fun ip octet => ip <<< 8 ||| BitVec.ofNat 32 octet) 0

/-- `IPv4Address._ip_int_from_string`. -/
def ipv4FromString (s : Text) : Option (BitVec 32) :=
  let octets := s.splitOn '.'
  if octets.length = 4 then (octets.mapM parseOctet).map fromOctets else none

/-- `IPv4Address(s)`. -/
def ipv4Address (s : Text) : Option (BitVec 32) :=
  if '/' ∈ s then none else ipv4FromString s

/-- `_prefix_from_prefix_string`. -/
def prefixFromPrefixString (w : Nat) (s : Text) : Option { p : Nat // p ≤ w } :=
  if s = [] ∨ s.all Char.isDigit = false then none
  else
    match parseDigits s with
    | some p => if hp : p ≤ w then some ⟨p, hp⟩ else none
    | none => none

/-- `_count_righthand_zero_bits(n, bits)`. -/
def countRighthandZeroBits : Nat → Nat → Nat
  | _, 0 => 0
  | n, bits + 1 => if n % 2 = 0 then countRighthandZeroBits (n / 2) bits + 1 else 0

/-- `_prefix_from_ip_int`: the prefix length of a mask of ones followed by zeroes. -/
def prefixFromIpInt (ip : BitVec 32) : Option { p : Nat // p ≤ 32 } :=
  let trailingZeroes := countRighthandZeroBits ip.toNat 32
  let prefixlen := 32 - trailingZeroes
  if ip.toNat >>> trailingZeroes = 2 ^ prefixlen - 1 then some ⟨prefixlen, Nat.sub_le _ _⟩
  else none

/-- `_prefix_from_ip_string`: a netmask, or else a hostmask. -/
def prefixFromIpString (s : Text) : Option { p : Nat // p ≤ 32 } :=
  match ipv4FromString s with
  | none => none
  | some ip => (prefixFromIpInt ip).orElse (fun _ => prefixFromIpInt (ip ^^^ BitVec.allOnes 32))

/-- `IPv4Network._make_netmask` of a text. -/
def ipv4Prefix (s : Text) : Option { p : Nat // p ≤ 32 } :=
  (prefixFromPrefixString 32 s).orElse (fun _ => prefixFromIpString s)

end Ipv4

section Ipv6

def hexDigit? (c : Char) : Option Nat :=
  if c.isDigit then some (c.toNat - 48)
  else if 'a' ≤ c ∧ c ≤ 'f' then some (c.toNat - 87)
  else if 'A' ≤ c ∧ c ≤ 'F' then some (c.toNat - 55)
  else none

/-- `_parse_hextet`. -/
def parseHextet (s : Text) : Option Nat :=
  match s.mapM hexDigit? with
  | none => none
  | some digits =>
      if s = [] ∨ 4 < s.length then none
      else some (digits.foldl (fun n d => 16 * n + d) 0)

/-- Hextets appended to what was read before. -/
def appendHextets (ip : BitVec 128) (parts : List Text) : Option (BitVec 128) :=
  (parts.mapM parseHextet).map
    (fun hextets => hextets.foldl (fun ip h => ip <<< 16 ||| BitVec.ofNat 128 h) ip)

/-- `'%x' % n`. -/
def hexText (n : Nat) : Text := Nat.toDigits 16 n

/-- The parts between colons; an IPv4 tail is converted to two hextets. -/
def ipv6Parts (s : Text) : Option (List Text) :=
  let parts := s.splitOn ':'
  if parts.length < 3 then none
  else
    match parts.getLast? with
    | none => none
    | some last =>
        if '.' ∈ last then
          match ipv4Address last with
          | none => none
          | some ip =>
              some (parts.dropLast ++
                [hexText ((ip.toNat >>> 16) % 65536), hexText (ip.toNat % 65536)])
        else some parts

/-- Where `::` stands: the empty parts that are neither the first nor the last. -/
def skipIndices (parts : List Text) : List Nat :=
  (List.range (parts.length - 1)).filter (fun i => 0 < i && parts[i]? == some [])

/-- `IPv6Address._ip_int_from_string`. -/
def ipv6FromString (s : Text) : Option (BitVec 128) :=
  match ipv6Parts s with
  | none => none
  | some parts =>
      if 9 < parts.length then none
      else
        let first := parts.head? = some []
        let last := parts.getLast? = some []
        match skipIndices parts with
        | [] =>
            if parts.length ≠ 8 ∨ first ∨ last then none else appendHextets 0 parts
        | [i] =>
            let hi := if first then i - 1 else i
            let lo := if last then parts.length - i - 2 else parts.length - i - 1
            -- an empty first or last part belongs to the `::`
            if (first ∧ hi ≠ 0) ∨ (last ∧ lo ≠ 0) then none
            else if 8 ≤ hi + lo then none
            else
              match appendHextets 0 (parts.take hi) with
              | none => none
              | some ip =>
                  appendHextets (ip <<< (16 * (8 - (hi + lo)))) (parts.drop (parts.length - lo))
        | _ => none

/-- `IPv6Address(s)`: the scope behind `%` is checked and dropped. -/
def ipv6Address (s : Text) : Option (BitVec 128) :=
  if '/' ∈ s then none
  else
    match splitFirst '%' s with
    | none => ipv6FromString s
    | some (addr, scope) =>
        if scope = [] ∨ '%' ∈ scope then none else ipv6FromString addr

end Ipv6

/-- `ipaddress.ip_address(s)`. -/
def ipAddress (s : Text) : Option IpAddress :=
  match ipv4Address s with
  | some ip => some (.v4 ip)
  | none => (ipv6Address s).map .v6

/-- The address and the mask of a network, the mask `none` when there is no `/`. -/
def splitOptionalNetmask (s : Text) : Option (Text × Option Text) :=
  match s.splitOn '/' with
  | [addr] => some (addr, none)
  | [addr, mask] => some (addr, some mask)
  | _ => none

/-- `IPv4Network(s, strict=False)` and `IPv6Network(s, strict=False)`, by the parsers of
the address and of the mask. -/
def networkOf {w : Nat} (address : Text → Option (BitVec w))
    (makeNetmask : Text → Option { p : Nat // p ≤ w }) (s : Text) : Option (Network w) :=
  match splitOptionalNetmask s with
  | none => none
  | some (addr, mask) =>
      match address addr with
      | none => none
      | some ip =>
          match mask with
          | none => some (Network.of ip ⟨w, Nat.le_refl w⟩)
          | some mask => (makeNetmask mask).map (Network.of ip)

def ipv4Network (s : Text) : Option (Network 32) := networkOf ipv4Address ipv4Prefix s

def ipv6Network (s : Text) : Option (Network 128) :=
  networkOf ipv6Address (prefixFromPrefixString 128) s

/-- `ipaddress.ip_network(s, strict=False)`. -/
def ipNetwork (s : Text) : Option IpNetwork :=
  match ipv4Network s with
  | some network => some (.v4 network)
  | none => (ipv6Network s).map .v6

/-- A network written as a single address holds that address only. -/
theorem contains_full {w : Nat} {ip base : BitVec w} :
    (Network.of base ⟨w, Nat.le_refl w⟩).contains ip = true ↔ ip = base := by
  rw [Network.contains_of]
  constructor
  · intro h
    exact BitVec.eq_of_getMsbD_eq h
  · rintro rfl i _
    rfl

end Py
end NetworkProxy
