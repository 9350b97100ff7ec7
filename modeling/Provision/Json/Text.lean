import Provision.Json.Value

/-! The text of JSON values: compact, without any space, and indented by two spaces a level. Both
writers put their text in front of what follows, so each character is written once. -/
namespace Provision.Json

def hexDigit (n : Nat) : Char := Nat.digitChar n

/-- Quotes, strokes and control characters are escaped; all else stands for itself. -/
def escape (c : Char) : List Char :=
  match c with
  | '"' => ['\\', '"']
  | '\\' => ['\\', '\\']
  | '\n' => ['\\', 'n']
  | '\r' => ['\\', 'r']
  | '\t' => ['\\', 't']
  | c =>
    if c.toNat = 8 then ['\\', 'b']
    else if c.toNat = 12 then ['\\', 'f']
    else if c.toNat < 32 then
      ['\\', 'u', '0', '0', hexDigit (c.toNat / 16), hexDigit (c.toNat % 16)]
    else [c]

def writeChars : List Char → List Char → List Char
  | [], rest => '"' :: rest
  | c :: cs, rest => escape c ++ writeChars cs rest

def writeString (s : String) (rest : List Char) : List Char := '"' :: writeChars s.toList rest

def writeInt (n : Int) (rest : List Char) : List Char :=
  match n with
  | .ofNat m => Nat.toDigits 10 m ++ rest
  | .negSucc m => '-' :: Nat.toDigits 10 (m + 1) ++ rest

/-- Values without parts. Nothing has `invalid` for its value, and it is written as null. -/
def writeScalar (value : Json) (rest : List Char) : List Char :=
  match value with
  | bool true => "true".toList ++ rest
  | bool false => "false".toList ++ rest
  | int n => writeInt n rest
  | real x => x.text ++ rest
  | str s => writeString s rest
  | _ => "null".toList ++ rest

mutual

/-- The compact text of the value in front of `rest`. -/
def write : Json → List Char → List Char
  | arr [], rest => '[' :: ']' :: rest
  | arr (x :: xs), rest => '[' :: write x (writeItems xs rest)
  | obj [], rest => '{' :: '}' :: rest
  | obj (x :: xs), rest => '{' :: writeString x.1 (':' :: write x.2 (writeMembers xs rest))
  | value, rest => writeScalar value rest

/-- The items after the first, each behind a comma, and the end of the array. -/
def writeItems : List Json → List Char → List Char
  | [], rest => ']' :: rest
  | x :: xs, rest => ',' :: write x (writeItems xs rest)

def writeMembers : List (String × Json) → List Char → List Char
  | [], rest => '}' :: rest
  | x :: xs, rest => ',' :: writeString x.1 (':' :: write x.2 (writeMembers xs rest))

end

/-- A new line at the depth. -/
def newline (depth : Nat) (rest : List Char) : List Char :=
  '\n' :: (List.replicate (2 * depth) ' ' ++ rest)

mutual

/-- The indented text of a value that stands at the depth. -/
def indent (depth : Nat) : Json → List Char → List Char
  | arr [], rest => '[' :: ']' :: rest
  | arr (x :: xs), rest =>
    '[' :: newline (depth + 1) (indent (depth + 1) x (indentItems depth xs rest))
  | obj [], rest => '{' :: '}' :: rest
  | obj (x :: xs), rest =>
    '{' :: newline (depth + 1) (writeString x.1
      (':' :: ' ' :: indent (depth + 1) x.2 (indentMembers depth xs rest)))
  | value, rest => writeScalar value rest

def indentItems (depth : Nat) : List Json → List Char → List Char
  | [], rest => newline depth (']' :: rest)
  | x :: xs, rest =>
    ',' :: newline (depth + 1) (indent (depth + 1) x (indentItems depth xs rest))

def indentMembers (depth : Nat) : List (String × Json) → List Char → List Char
  | [], rest => newline depth ('}' :: rest)
  | x :: xs, rest =>
    ',' :: newline (depth + 1) (writeString x.1
      (':' :: ' ' :: indent (depth + 1) x.2 (indentMembers depth xs rest)))

end

def compact (value : Json) : String := String.ofList (write value [])
def pretty (value : Json) : String := String.ofList (indent 0 value [])

end Provision.Json
