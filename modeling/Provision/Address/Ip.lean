import Provision.Text.Decimal

/-! Internet addresses of both families and their text. Of the many spellings of an address, `text`
writes one: no zeros in front, lower-case letters, the longest run of zero groups left out. -/
namespace Provision

structure Ip4 where
  a : UInt8
  b : UInt8
  c : UInt8
  d : UInt8
  deriving DecidableEq

/-- Eight groups of sixteen bits. -/
structure Ip6 where
  groups : List UInt16
  length_groups : groups.length = 8
  deriving DecidableEq

inductive IpAddress
  | v4 (address : Ip4)
  | v6 (address : Ip6)
  deriving DecidableEq

/-- The number of bits of an address, hence the longest prefix length. -/
def IpAddress.width : IpAddress → Nat
  | v4 _ => 32
  | v6 _ => 128

def IpAddress.isV6 : IpAddress → Bool
  | v4 _ => false
  | v6 _ => true

namespace Ip4

/-- The last two groups of an address of the other family can be written as this one. -/
def ofGroups (high low : UInt16) : Ip4 :=
  ⟨(high >>> 8).toUInt8, high.toUInt8, (low >>> 8).toUInt8, low.toUInt8⟩

def high (ip : Ip4) : UInt16 := ip.a.toUInt16 <<< 8 ||| ip.b.toUInt16
def low (ip : Ip4) : UInt16 := ip.c.toUInt16 <<< 8 ||| ip.d.toUInt16

def octet (n : UInt8) : List Char := Nat.toDigits 10 n.toNat

def text (ip : Ip4) : List Char :=
  octet ip.a ++ '.' :: octet ip.b ++ '.' :: octet ip.c ++ '.' :: octet ip.d

end Ip4

namespace Ip6

def group (n : UInt16) : List Char := Nat.toDigits 16 n.toNat

/-- Groups with a colon between any two. -/
def joined : List UInt16 → List Char
  | [] => []
  | [g] => group g
  | g :: gs => group g ++ ':' :: joined gs

/-- A stretch of consecutive groups. -/
structure Stretch where
  start : Nat
  size : Nat
  deriving DecidableEq

/-- The longest stretch of zero groups, of equally long ones the first. `current` is the stretch that
ends just before position `i`, and `best` the longest one so far. -/
def longestZeros (i : Nat) (current best : Stretch) : List UInt16 → Stretch
  | [] => best
  | g :: gs =>
    if g = 0 then
      let here : Stretch := ⟨if current.size = 0 then i else current.start, current.size + 1⟩
      longestZeros (i + 1) here (if best.size < here.size then here else best) gs
    else longestZeros (i + 1) ⟨0, 0⟩ best gs

def zeros (gs : List UInt16) : Stretch := longestZeros 0 ⟨0, 0⟩ ⟨0, 0⟩ gs

/-- An address that stands for one of the other family is written with that one's text; any other
leaves out its longest stretch of at least two zero groups. -/
def text (ip : Ip6) : List Char :=
  match ip.groups with
  | [0, 0, 0, 0, 0, 0xffff, high, low] => "::ffff:".toList ++ (Ip4.ofGroups high low).text
  | gs =>
    let gap := zeros gs
    if 1 < gap.size then
      joined (gs.take gap.start) ++ "::".toList ++ joined (gs.drop (gap.start + gap.size))
    else joined gs

end Ip6

def IpAddress.text : IpAddress → String
  | v4 ip => String.ofList ip.text
  | v6 ip => String.ofList ip.text

end Provision
