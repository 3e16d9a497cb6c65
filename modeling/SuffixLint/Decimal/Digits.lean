/-!
# Decimal digits

A natural number as decimal digits without leading zeros, and the number that digits stand for.
-/

namespace SuffixLint.Decimal

/-- The character of a digit below ten. -/
def digitChar (d : Nat) : Char :=
  Char.ofNat (48 + d)

/-- The digit that a character between `0` and `9` stands for. -/
def digitValue (c : Char) : Nat :=
  c.toNat - 48

/-- The decimal digits of a number, most significant first. -/
def digits (n : Nat) : List Char :=
  if n < 10 then [digitChar n] else digits (n / 10) ++ [digitChar (n % 10)]
termination_by n
decreasing_by omega

/-- The number that digits stand for, when `start` has been read before them. -/
def valueFrom (start : Nat) (ds : List Char) : Nat :=
  ds.foldl (fun n c => n * 10 + digitValue c) start

/-- The number that digits stand for. -/
def value (ds : List Char) : Nat :=
  valueFrom 0 ds

end SuffixLint.Decimal
