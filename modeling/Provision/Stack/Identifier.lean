/-! Identifiers of stacks: texts of the form of a UUID of version seven, one for each number. -/
namespace Provision

/-- The last twelve hexadecimal digits are those of the number; texts of two numbers below `2 ^ 48`
differ. -/
def identifier (n : Nat) : String :=
  let digits := Nat.toDigits 16 (n % 0x1000000000000)
  "00000000-0000-7000-8000-" ++
    String.ofList (List.replicate (12 - digits.length) '0' ++ digits)

end Provision
