/-!
# Hexadecimal digits

The digits below sixteen as letters in lower case, and the values of digits in either case.
-/

namespace SuffixLint.Text

/-- The letter of a digit below sixteen. -/
def hexLetter (n : Nat) : Char :=
  if n < 10 then Char.ofNat (48 + n) else Char.ofNat (87 + n)

/-- The value of a hexadecimal digit in either case. -/
def hexValue? (c : Char) : Option Nat :=
  if '0' ≤ c ∧ c ≤ '9' then some (c.toNat - 48)
  else if 'a' ≤ c ∧ c ≤ 'f' then some (c.toNat - 87)
  else if 'A' ≤ c ∧ c ≤ 'F' then some (c.toNat - 55)
  else none

end SuffixLint.Text
