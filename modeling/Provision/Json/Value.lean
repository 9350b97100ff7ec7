import Provision.Binary64
import Provision.OrderedMap

/-! Values of JSON. Objects keep their members in the order of the text, a repeated key included;
`collapse` gives the value that such an object stands for. -/
namespace Provision

/-- A JSON value. `invalid` is what text stands for that is well formed and has no value: a number
beyond the range, or a string with half of a surrogate pair. It can be skipped but not read. -/
inductive Json
  | null
  | bool (value : Bool)
  | int (value : Int)
  | real (value : Binary64)
  | str (value : String)
  | arr (items : List Json)
  | obj (members : List (String × Json))
  | invalid
  deriving BEq, Inhabited

namespace Json

/-- The integers of JSON text: those of sixty-four bits, with or without a sign. -/
def isInteger (n : Int) : Bool := decide (-9223372036854775808 ≤ n ∧ n < 18446744073709551616)

mutual

/-- Every part has a value, and arrays and objects nest at most `room` deep. -/
def fits (room : Nat) : Json → Bool
  | invalid => false
  | arr items => decide (0 < room) && fitsItems (room - 1) items
  | obj members => decide (0 < room) && fitsMembers (room - 1) members
  | _ => true

def fitsItems (room : Nat) : List Json → Bool
  | [] => true
  | x :: xs => fits room x && fitsItems room xs

def fitsMembers (room : Nat) : List (String × Json) → Bool
  | [] => true
  | x :: xs => fits room x.2 && fitsMembers room xs

end

mutual

/-- How deep arrays and objects nest. -/
def height : Json → Nat
  | arr items => heightItems items + 1
  | obj members => heightMembers members + 1
  | _ => 0

def heightItems : List Json → Nat
  | [] => 0
  | x :: xs => max (height x) (heightItems xs)

def heightMembers : List (String × Json) → Nat
  | [] => 0
  | x :: xs => max (height x.2) (heightMembers xs)

end

mutual

/-- A repeated key of an object keeps its first place and its last value. -/
def collapse : Json → Json
  | arr items => arr (collapseItems items)
  | obj members => obj (OrderedMap.ofList (collapseMembers members)).entries
  | value => value

def collapseItems : List Json → List Json
  | [] => []
  | x :: xs => collapse x :: collapseItems xs

def collapseMembers : List (String × Json) → List (String × Json)
  | [] => []
  | x :: xs => (x.1, collapse x.2) :: collapseMembers xs

end

def member? (key : String) : Json → Option Json
  | obj members => (members.find? fun m => m.1 == key).map Prod.snd
  | _ => none

def string? : Json → Option String
  | str s => some s
  | _ => none

def items? : Json → Option (List Json)
  | arr items => some items
  | _ => none

end Json
end Provision
