/-!
# Finite double-precision numbers

A finite double is a sign, a mantissa below `2 ^ 53` and a power of two, kept apart as exact whole
numbers. `ofRatio` rounds a ratio of natural numbers to the nearest double, a tie to the even
mantissa; multiplication and division round the exact result once.
-/

namespace SuffixLint.Decimal

/-- The double `± mantissa * 2 ^ exponent`. The exponent is never below `-1074`, and the mantissa
is below `2 ^ 52` at that exponent only. -/
structure Binary64 where
  negative : Bool
  mantissa : Nat
  exponent : Int
  deriving DecidableEq, Repr, Inhabited

namespace Binary64

/-- The double zero, with a sign. -/
def zero (negative : Bool) : Binary64 :=
  ⟨negative, 0, -1074⟩

/-- A number times a power of two as a ratio. -/
def scaled (n d : Nat) (e : Int) : Nat × Nat :=
  if e ≥ 0 then (n * Nat.pow 2 e.toNat, d) else (n, d * Nat.pow 2 (-e).toNat)

/-- A quotient to the nearest whole number, a tie to the even one. -/
def divideToEven (n d : Nat) : Nat :=
  let q := n / d
  let twice := 2 * (n % d)
  if twice < d then q else if d < twice then q + 1 else q + q % 2

/-- The exponent at which `n / d` has a mantissa of 53 bits, or `-1074` for a smaller number. -/
def exponentOf (n d : Nat) : Int :=
  let guess : Int := (n.log2 : Int) - (d.log2 : Int) - 52
  let ratio := scaled n d (-guess)
  let exact := if ratio.1 < ratio.2 * Nat.pow 2 52 then guess - 1 else guess
  max exact (-1074)

/-- The double nearest to `n / d`, a tie to the even mantissa; nothing when it is beyond the
largest finite double. -/
def ofRatio (negative : Bool) (n d : Nat) : Option Binary64 :=
  if n = 0 then some (zero negative)
  else
    let e := exponentOf n d
    let ratio := scaled n d (-e)
    let m := divideToEven ratio.1 ratio.2
    let rounded : Nat × Int := if m = Nat.pow 2 53 then (Nat.pow 2 52, e + 1) else (m, e)
    if rounded.2 > 971 then none else some ⟨negative, rounded.1, rounded.2⟩

/-- The double nearest to a natural number. -/
def ofNat (n : Nat) : Option Binary64 :=
  ofRatio false n 1

/-- The magnitude of a double as an exact ratio. -/
def ratio (x : Binary64) : Nat × Nat :=
  scaled x.mantissa 1 x.exponent

/-- The product of two doubles, rounded once; nothing when it is beyond the largest double. -/
def mul (x y : Binary64) : Option Binary64 :=
  ofRatio (x.negative != y.negative) (x.ratio.1 * y.ratio.1) (x.ratio.2 * y.ratio.2)

/-- The quotient of two doubles, rounded once; nothing when it is beyond the largest double. The
divisor is a power of ten wherever this is used, so it is not zero. -/
def div (x y : Binary64) : Option Binary64 :=
  ofRatio (x.negative != y.negative) (x.ratio.1 * y.ratio.2) (x.ratio.2 * y.ratio.1)

end Binary64

end SuffixLint.Decimal
