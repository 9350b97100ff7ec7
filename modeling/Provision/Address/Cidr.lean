import Provision.Address.IpReader
import Provision.Json.Value

/-! Subnets in CIDR notation: an address, a stroke, and the length of the common prefix, which may not
exceed the number of bits of the address. -/
namespace Provision

structure Cidr where
  address : IpAddress
  prefixLength : Nat
  prefixLength_le : prefixLength ≤ address.width
  deriving DecidableEq

namespace Cidr

def read? (text : String) : Option Cidr :=
  let address := text.toList.takeWhile (· ≠ '/')
  match text.toList.dropWhile (· ≠ '/') with
  | _ :: length =>
    match IpAddress.read? address, Text.readBelow? 256 length with
    | some ip, some n => if h : n ≤ ip.width then some ⟨ip, n, h⟩ else none
    | _, _ => none
  | [] => none

def text (c : Cidr) : String := c.address.text ++ "/" ++ toString c.prefixLength

def isV6 (c : Cidr) : Bool := c.address.isV6

/-- In JSON a subnet is its text. -/
def toJson (c : Cidr) : Json := .str c.text

def ofJson? (x : Json) : Option Cidr := x.string? >>= read?

end Cidr
end Provision
