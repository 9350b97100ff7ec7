import Provision.Json.Value
import Provision.Text.Decimal

/-! Reading JSON text, strictly: no comments, no commas too many, no zeros in front, nothing after
the value. Text that is well formed and has no value is read as `Json.invalid`. -/
namespace Provision.Json

open Text

def isSpace (c : Char) : Bool := c == ' ' || c == '\n' || c == '\t' || c == '\r'

def skipSpace (text : List Char) : List Char := text.dropWhile isSpace

/-- A piece of a string: a character as it stands, or the sixteen bits of an escape. -/
inductive Piece
  | char (c : Char)
  | unit (n : Nat)

/-- The number of four hexadecimal digits. -/
def unit? (a b c d : Char) : Option Nat :=
  if [a, b, c, d].all (isDigitIn 16) = true then some (ofDigits 16 [a, b, c, d]) else none

/-- The character of a short escape. -/
def shortEscape? : Char → Option Char
  | '"' => some '"'
  | '\\' => some '\\'
  | '/' => some '/'
  | 'b' => some (Char.ofNat 8)
  | 'f' => some (Char.ofNat 12)
  | 'n' => some '\n'
  | 'r' => some '\r'
  | 't' => some '\t'
  | _ => none

/-- The pieces of a string up to its closing quote, and the text after the quote. -/
def pieces? : List Char → Option (List Piece × List Char)
  | [] => none
  | '"' :: rest => some ([], rest)
  | '\\' :: 'u' :: a :: b :: c :: d :: rest =>
    match unit? a b c d, pieces? rest with
    | some n, some (ps, rest) => some (.unit n :: ps, rest)
    | _, _ => none
  | '\\' :: c :: rest =>
    match shortEscape? c, pieces? rest with
    | some c, some (ps, rest) => some (.char c :: ps, rest)
    | _, _ => none
  | c :: rest =>
    if c.toNat < 32 then none
    else match pieces? rest with
      | some (ps, rest) => some (.char c :: ps, rest)
      | none => none

/-- The first half of a pair. -/
def isLeading (n : Nat) : Bool := decide (0xD800 ≤ n ∧ n < 0xDC00)

/-- The second half of a pair. -/
def isTrailing (n : Nat) : Bool := decide (0xDC00 ≤ n ∧ n < 0xE000)

/-- The characters that the pieces stand for; half of a pair stands for none. -/
def assemble? : List Piece → Option (List Char)
  | [] => some []
  | .char c :: ps => (assemble? ps).map (c :: ·)
  | .unit n :: .unit m :: ps =>
    if isLeading n then
      if isTrailing m then
        (assemble? ps).map (Char.ofNat (0x10000 + (n - 0xD800) * 0x400 + (m - 0xDC00)) :: ·)
      else none
    else if isTrailing n then none
    else (assemble? (.unit m :: ps)).map (Char.ofNat n :: ·)
  | .unit n :: ps =>
    if isLeading n || isTrailing n then none else (assemble? ps).map (Char.ofNat n :: ·)

/-- The string after an opening quote, if its pieces stand for one, and the text behind it. -/
def readString? (text : List Char) : Option (Option String × List Char) :=
  (pieces? text).map fun (ps, rest) => ((assemble? ps).map String.ofList, rest)

/-- A number as it is written: its digits before and after the point, and the exponent. -/
structure Numeral where
  negative : Bool
  whole : List Char
  fraction : Option (List Char)
  exponent : Option Int

def digits (text : List Char) : List Char := text.takeWhile (isDigitIn 10)
def afterDigits (text : List Char) : List Char := text.dropWhile (isDigitIn 10)

/-- The digits after a point, at least one. -/
def fraction? (text : List Char) : Option (Option (List Char) × List Char) :=
  match text with
  | '.' :: rest => if digits rest = [] then none else some (some (digits rest), afterDigits rest)
  | _ => some (none, text)

def sign (text : List Char) : Int × List Char :=
  match text with
  | '-' :: rest => (-1, rest)
  | '+' :: rest => (1, rest)
  | _ => (1, text)

/-- The exponent after a letter, at least one digit. -/
def exponent? (text : List Char) : Option (Option Int × List Char) :=
  match text with
  | c :: rest =>
    if c == 'e' || c == 'E' then
      let (s, rest) := sign rest
      if digits rest = [] then none
      else some (some (s * (ofDigits 10 (digits rest) : Nat)), afterDigits rest)
    else some (none, text)
  | [] => some (none, text)

/-- A numeral: a zero stands alone in front of the point. -/
def readNumeral? (text : List Char) : Option (Numeral × List Char) := do
  let (negative, text) := match text with
    | '-' :: rest => (true, rest)
    | _ => (false, text)
  let whole := digits text
  if whole = [] ∨ (whole.head? = some '0' ∧ 1 < whole.length) then none
  else
    let (fraction, text) ← fraction? (afterDigits text)
    let (exponent, text) ← exponent? text
    return (⟨negative, whole, fraction, exponent⟩, text)

/-- The number of the longest beginning of the digits that stays below `2 ^ 64`, continuing from
`n`, and the number of digits left over. -/
def significand (n : Nat) : List Char → Nat × Nat
  | [] => (n, 0)
  | c :: cs =>
    let m := n * 10 + (digitIn? 10 c).getD 0
    if m < UInt64.size then significand m cs else (n, cs.length + 1)

/-- A whole number of sixty-four bits is an integer. Every other numeral, and minus zero, is a
binary number, or out of range. -/
def Numeral.value (x : Numeral) : Json :=
  let n : Int := ofDigits 10 x.whole
  let n := if x.negative then -n else n
  if x.fraction.isNone && x.exponent.isNone && isInteger n && !(x.negative && n == 0) then int n
  else
    let fraction := x.fraction.getD []
    let (m, dropped) := significand 0 x.whole
    let (m, unused) := significand m fraction
    let power : Int := x.exponent.getD 0 + dropped - ((fraction.length - unused : Nat) : Int)
    match Binary64.ofDecimal? x.negative m power with
    | some r => real r
    | none => invalid

/-- The value of an object that has these members, if every key is a string. -/
def ofMembers (members : List (Option String × Json)) : Json :=
  match members.mapM fun m => m.1.map (·, m.2) with
  | some ms => obj ms
  | none => invalid

mutual

/-- The value at the start of the text, and the text after it. -/
def readValue? : Nat → List Char → Option (Json × List Char)
  | 0, _ => none
  | fuel + 1, text =>
    match text with
    | 'n' :: 'u' :: 'l' :: 'l' :: rest => some (null, rest)
    | 't' :: 'r' :: 'u' :: 'e' :: rest => some (bool true, rest)
    | 'f' :: 'a' :: 'l' :: 's' :: 'e' :: rest => some (bool false, rest)
    | '"' :: rest =>
      match readString? rest with
      | some (some s, rest) => some (str s, rest)
      | some (none, rest) => some (invalid, rest)
      | none => none
    | '[' :: rest =>
      match skipSpace rest with
      | ']' :: rest => some (arr [], rest)
      | rest =>
        match readItems? fuel rest with
        | some (xs, rest) => some (arr xs, rest)
        | none => none
    | '{' :: rest =>
      match skipSpace rest with
      | '}' :: rest => some (obj [], rest)
      | rest =>
        match readMembers? fuel rest with
        | some (xs, rest) => some (ofMembers xs, rest)
        | none => none
    | text =>
      match readNumeral? text with
      | some (x, rest) => some (x.value, rest)
      | none => none

/-- One item and those after it, to the end of the array. -/
def readItems? : Nat → List Char → Option (List Json × List Char)
  | 0, _ => none
  | fuel + 1, text =>
    match readValue? fuel text with
    | none => none
    | some (x, rest) =>
      match skipSpace rest with
      | ',' :: rest =>
        match readItems? fuel (skipSpace rest) with
        | some (xs, rest) => some (x :: xs, rest)
        | none => none
      | ']' :: rest => some ([x], rest)
      | _ => none

/-- One member and those after it, to the end of the object. -/
def readMembers? : Nat → List Char → Option (List (Option String × Json) × List Char)
  | 0, _ => none
  | fuel + 1, text =>
    match text with
    | '"' :: rest =>
      match readString? rest with
      | none => none
      | some (key, rest) =>
        match skipSpace rest with
        | ':' :: rest =>
          match readValue? fuel (skipSpace rest) with
          | none => none
          | some (x, rest) =>
            match skipSpace rest with
            | ',' :: rest =>
              match readMembers? fuel (skipSpace rest) with
              | some (xs, rest) => some ((key, x) :: xs, rest)
              | none => none
            | '}' :: rest => some ([(key, x)], rest)
            | _ => none
        | _ => none
    | _ => none

end

/-- The document that the whole text spells. Every step into a part reads at least one character
within two levels, so twice the length is enough. -/
def parse? (text : String) : Option Json :=
  let cs := text.toList
  match readValue? (2 * cs.length + 2) (skipSpace cs) with
  | some (x, rest) => if skipSpace rest = [] then some x else none
  | none => none

end Provision.Json
