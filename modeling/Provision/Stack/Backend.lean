import Provision.Stack.Error

/-! The service that makes stacks out of graphs, seen from outside: four calls, each answered with a
result and the time it took. Time is counted in milliseconds. -/
namespace Provision

/-- How a backend knows a stack. -/
structure Handle where
  id : String
  name : String
  deriving DecidableEq

/-- A status as a backend words it, with its explanation if it has one. -/
structure Report where
  status : String
  reason : Option String := none
  deriving DecidableEq

/-- An output with its value, as a backend reports it. -/
abbrev OutputValues := List (String × Json)

structure Reply (α : Type) where
  result : Except StackError α
  took : Nat := 0

/-- A backend with states `σ`. Each call is told the time at which it is made. A deletion that is
refused is answered with `false`. -/
structure Backend (σ : Type) where
  submit : (now : Nat) → (name : String) → Graph → SortedMap String → σ → Reply Handle × σ
  status : (now : Nat) → Handle → σ → Reply Report × σ
  outputs : (now : Nat) → Handle → σ → Reply OutputValues × σ
  delete : (now : Nat) → Handle → σ → Reply Bool × σ

/-- What is worth remembering: a record was made, or the backend was called and answered. A call to
submit that was given up has no answer. A call for a status is made by an operation that waits, or by
someone who only asks. -/
inductive Event
  | registered (name : String)
  | submit (name : String) (graph : Graph) (parameters : SortedMap String)
      (answer : Option (Except StackError Handle))
  | status (handle : Handle) (waiting : Option Operation) (answer : Except StackError Report)
  | outputs (handle : Handle) (answer : Except StackError OutputValues)
  | delete (handle : Handle) (answer : Except StackError Bool)

/-- An event and the time of it; for a call, the time at which it is made. -/
structure LogEntry where
  time : Nat
  event : Event

end Provision
