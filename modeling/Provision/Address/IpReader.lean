import Provision.Address.Ip

/-! Reading internet addresses. Each reader takes the longest beginning it can and returns the rest;
an address is the whole text. -/
namespace Provision

/-- A number of one to `most` digits, not followed by another digit. -/
def readNumber? (base most : Nat) (zerosInFront : Bool) (text : List Char) :
    Option (Nat × List Char) :=
  let digits := text.takeWhile (Text.isDigitIn base)
  if digits = [] ∨ most < digits.length then none
  else if zerosInFront = false ∧ digits.head? = some '0' ∧ 1 < digits.length then none
  else some (Text.ofDigits base digits, text.dropWhile (Text.isDigitIn base))

/-- The text after the separator; the first item has none in front of it. -/
def afterSeparator? (separator : Char) (first : Bool) (text : List Char) : Option (List Char) :=
  if first then some text
  else match text with
    | c :: rest => if c = separator then some rest else none
    | [] => none

namespace Ip4

def readOctet? (text : List Char) : Option (UInt8 × List Char) :=
  match readNumber? 10 3 false text with
  | some (n, rest) => if n < 256 then some (n.toUInt8, rest) else none
  | none => none

/-- Four numbers of the decimal system with points between them. -/
def read? (text : List Char) : Option (Ip4 × List Char) := do
  let (a, text) ← readOctet? text
  let (b, text) ← afterSeparator? '.' false text >>= readOctet?
  let (c, text) ← afterSeparator? '.' false text >>= readOctet?
  let (d, text) ← afterSeparator? '.' false text >>= readOctet?
  return (⟨a, b, c, d⟩, text)

end Ip4

namespace Ip6

def readGroup? (text : List Char) : Option (UInt16 × List Char) :=
  (readNumber? 16 4 true text).map fun (n, rest) => (n.toUInt16, rest)

/-- What a row of groups gave: the groups, whether the last two came from an embedded address of the
other family, and the text after them. -/
structure Row where
  groups : List UInt16
  embedded : Bool
  rest : List Char

/-- As many groups as the text holds, at most `room`. Where two groups have room, an embedded
address may take their place, and ends the row. -/
def readRow (first : Bool) : Nat → List Char → Row
  | 0, text => ⟨[], false, text⟩
  | room + 1, text =>
    match if room = 0 then none else afterSeparator? ':' first text >>= Ip4.read? with
    | some (ip, rest) => ⟨[ip.high, ip.low], true, rest⟩
    | none =>
      match afterSeparator? ':' first text >>= readGroup? with
      | some (g, rest) =>
        let row := readRow false room rest
        ⟨g :: row.groups, row.embedded, row.rest⟩
      | none => ⟨[], false, text⟩

/-- The address whose first groups are `front` and whose last are `back`, with zeros between. -/
def around (front back : List UInt16) (h : front.length + back.length ≤ 8) : Ip6 :=
  ⟨front ++ List.replicate (8 - (front.length + back.length)) 0 ++ back, by simp; omega⟩

/-- Eight groups, or fewer with one double colon that stands for at least one zero group. -/
def read? (text : List Char) : Option (Ip6 × List Char) :=
  let front := readRow true 8 text
  if h : front.groups.length = 8 then some (⟨front.groups, h⟩, front.rest)
  else if front.embedded then none
  else match front.rest with
    | ':' :: ':' :: rest =>
      let back := readRow true (8 - (front.groups.length + 1)) rest
      if h : front.groups.length + back.groups.length ≤ 8 then
        some (around front.groups back.groups h, back.rest)
      else none
    | _ => none

end Ip6

/-- The address that the whole text spells. -/
def IpAddress.read? (text : List Char) : Option IpAddress :=
  match Ip4.read? text with
  | some (ip, rest) => if rest = [] then some (.v4 ip) else none
  | none =>
    match Ip6.read? text with
    | some (ip, rest) => if rest = [] then some (.v6 ip) else none
    | none => none

end Provision
