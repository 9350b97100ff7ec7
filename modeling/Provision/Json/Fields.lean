import Provision.Json.Reader
import Provision.SortedMap

/-! Records and tables in JSON. A record is an object with its fields as members, or an array of its
fields in order; members that are no field are skipped unread. -/
namespace Provision.Json

/-- The values of the named fields, where given. A field given twice is refused, and so is an array
with more items than there are fields. -/
def fields? (names : List String) : Json → Option (List (Option Json))
  | obj members =>
    if names.all (fun name => (members.filter fun m => m.1 == name).length ≤ 1) = true then
      some (names.map fun name => (members.find? fun m => m.1 == name).map Prod.snd)
    else none
  | arr items =>
    if items.length ≤ names.length then
      some (items.map some ++ List.replicate (names.length - items.length) none)
    else none
  | _ => none

variable {α : Type}

/-- A field that must be given. -/
def required (read : Json → Option α) (field : Option Json) : Option α := field >>= read

/-- A field that has a value when it is not given. -/
def withDefault (default : α) (read : Json → Option α) : Option Json → Option α
  | some x => read x
  | none => some default

/-- A field that need not be given; `null` is the same as nothing. -/
def optional (read : Json → Option α) : Option Json → Option (Option α)
  | none => some none
  | some null => some none
  | some x => (read x).map some

def bool? : Json → Option Bool
  | bool b => some b
  | _ => none

/-- A whole number from zero up to the limit, the limit excluded. -/
def below? (limit : Nat) : Json → Option Nat
  | int n => if 0 ≤ n ∧ n < limit then some n.toNat else none
  | _ => none

def uint32? (x : Json) : Option UInt32 := (below? UInt32.size x).map Nat.toUInt32
def uint64? (x : Json) : Option UInt64 := (below? UInt64.size x).map Nat.toUInt64

def list? (read : Json → Option α) : Json → Option (List α)
  | arr items => items.mapM read
  | _ => none

/-- The members of an object, each value read. -/
def entries? (read : Json → Option α) : Json → Option (List (String × α))
  | obj members => members.mapM fun m => (read m.2).map (m.1, ·)
  | _ => none

/-- A key given twice keeps its first place and its last value. -/
def orderedMap? (read : Json → Option α) (x : Json) : Option (OrderedMap α) :=
  (entries? read x).map OrderedMap.ofList

def sortedMap? (read : Json → Option α) (x : Json) : Option (SortedMap α) :=
  (entries? read x).map SortedMap.ofList

/-- The depth to which values may nest in text. -/
def maxDepth : Nat := 127

/-- Reads a value that is there already; it may nest as deep as it does. -/
def readValue {α : Type} (read : Nat → Json → Option α) (x : Json) : Option α := read x.height x

/-- Reads the text of a document. -/
def readText {α : Type} (read : Nat → Json → Option α) (text : String) : Option α :=
  parse? text >>= read maxDepth

/-- The table that the text of an object stands for. -/
def readTable (text : String) : Option (OrderedMap Json) :=
  readText (fun room x =>
    if x.fits room = true then orderedMap? (fun v => some v.collapse) x else none) text

end Provision.Json
