import SuffixLint.Decimal.Digits
import SuffixLint.Decimal.Binary64
/-!
# The shortest decimal text of a double

Among the decimals that round to a given double, the text shows one with the fewest digits, and of
those the nearest to the double. For one digit, two digits and so on up to seventeen, the two
neighbours of the double on that decimal grid are tried; if a point of a grid rounds to the double,
so does one of these two.
-/

namespace SuffixLint.Decimal

/-- A decimal `coefficient * 10 ^ exponent`. -/
structure Scientific where
  coefficient : Nat
  exponent : Int
  deriving DecidableEq, Repr

namespace Scientific

/-- A decimal as an exact ratio. -/
def ratio (x : Scientific) : Nat × Nat :=
  if x.exponent ≥ 0 then (x.coefficient * Nat.pow 10 x.exponent.toNat, 1)
  else (x.coefficient, Nat.pow 10 (-x.exponent).toNat)

/-- The decimal without the zeros at the end of its coefficient. -/
def dropZeros (x : Scientific) : Scientific :=
  if _h : x.coefficient ≠ 0 ∧ x.coefficient % 10 = 0 then
    dropZeros ⟨x.coefficient / 10, x.exponent + 1⟩
  else x
termination_by x.coefficient
decreasing_by omega

end Scientific

/-- The distance of two ratios, as a ratio. -/
def distance (a b : Nat × Nat) : Nat × Nat :=
  let x := a.1 * b.2
  let y := b.1 * a.2
  (if x ≤ y then y - x else x - y, a.2 * b.2)

/-- Whether a ratio is at most another. -/
def ratioLe (a b : Nat × Nat) : Bool :=
  a.1 * b.2 ≤ b.1 * a.2

/-- Whether a decimal rounds to a double: it lies within half a step of it, where the step below a
power of two is half as wide. The ends of that interval belong to an even mantissa. -/
def roundsTo (x : Scientific) (y : Binary64) : Bool :=
  let r := x.ratio
  let quarter := y.exponent - 2
  let low := if y.mantissa = Nat.pow 2 52 ∧ y.exponent > -1074 then 4 * y.mantissa - 1
    else 4 * y.mantissa - 2
  let lower := Binary64.scaled low 1 quarter
  let upper := Binary64.scaled (4 * y.mantissa + 2) 1 quarter
  if y.mantissa % 2 = 0 then ratioLe lower r && ratioLe r upper
  else !ratioLe r lower && !ratioLe upper r

/-- How many digits the whole part of a ratio has, or one minus the number of zeros behind the
point of a ratio below one. It is found by trying powers of ten near the given estimate. -/
def magnitude (r : Nat × Nat) (estimate : Int) : Int :=
  let reaches (k : Int) : Bool := ratioLe (Scientific.ratio ⟨1, k⟩) r
  if reaches (estimate + 1) then estimate + 2
  else if reaches estimate then estimate + 1
  else if reaches (estimate - 1) then estimate
  else estimate - 1

/-- The two neighbours of a ratio on the decimal grid `10 ^ k`. -/
def neighbours (r : Nat × Nat) (k : Int) : Scientific × Scientific :=
  let q := if k ≥ 0 then r.1 / (r.2 * Nat.pow 10 k.toNat) else r.1 * Nat.pow 10 (-k).toNat / r.2
  (⟨q, k⟩, ⟨q + 1, k⟩)

/-- The better of the two neighbours of a double on a grid, if one rounds to it. Two that are
equally near are told apart by the even coefficient. -/
def onGrid (y : Binary64) (k : Int) : Option Scientific :=
  let r := y.ratio
  let pair := neighbours r k
  match roundsTo pair.1 y, roundsTo pair.2 y with
  | false, false => none
  | true, false => some pair.1
  | false, true => some pair.2
  | true, true =>
    let below := distance r pair.1.ratio
    let above := distance r pair.2.ratio
    if !ratioLe above below then some pair.1
    else if !ratioLe below above then some pair.2
    else if pair.1.coefficient % 2 = 0 then some pair.1 else some pair.2

/-- The shortest decimal that rounds to a double, and of those the nearest. -/
def shortest (y : Binary64) : Scientific :=
  if y.mantissa = 0 then ⟨0, 0⟩
  else
    let r := y.ratio
    let bits : Int := (y.mantissa.log2 : Int) + y.exponent
    let top := magnitude r (bits * 30103 / 100000)
    let found := (List.range 17).findSome? fun (n : Nat) => onGrid y (top - 1 - (n : Int))
    (found.getD (neighbours r (top - 17)).1).dropZeros

/-- The places in which the texts of doubles are positional: the point stands behind the sixteenth
digit at the latest, and at most four zeros follow it before the first digit. Elsewhere a power of
ten is written. -/
def isPositional (point : Int) : Bool :=
  -5 < point && point ≤ 16

/-- The text of a double: the shortest digits that read back, with a point even where no fraction
follows it. -/
def text (y : Binary64) : List Char :=
  let sign := if y.negative then ['-'] else []
  if y.mantissa = 0 then sign ++ "0.0".toList
  else
    let x := shortest y
    let ds := digits x.coefficient
    let point := (ds.length : Int) + x.exponent
    let body :=
      if isPositional point then
        if 0 ≤ x.exponent then ds ++ List.replicate x.exponent.toNat '0' ++ ['.', '0']
        else if 0 < point then ds.take point.toNat ++ '.' :: ds.drop point.toNat
        else ['0', '.'] ++ List.replicate (-point).toNat '0' ++ ds
      else
        let power := point - 1
        let exponent := (if power < 0 then ['-'] else []) ++ digits power.natAbs
        let fraction := if ds.length = 1 then [] else '.' :: ds.drop 1
        ds.take 1 ++ fraction ++ 'e' :: exponent
    sign ++ body

end SuffixLint.Decimal
