import SuffixLint.Json.Lexeme
/-!
# The value of a number

A number without fraction and power of ten is whole, as long as it fits 64 bits. Any other number is
a double: as many leading digits as fit 64 bits are rounded to a double, and that double is then
multiplied or divided by a power of ten. This rounds twice, so the result may be a neighbour of the
double nearest to the text; which one is part of what this format means.
-/

namespace SuffixLint.Json.Lexeme

open Decimal Text

/-- Takes digits into a number as long as it fits 64 bits, and counts the digits taken. -/
def absorb (n : Nat) : List Char → Nat × Nat
  | [] => (n, 0)
  | c :: r =>
    let m := n * 10 + digitValue c
    if m < UInt64.size then
      let taken := absorb m r
      (taken.1, taken.2 + 1)
    else (n, 0)

/-- The double nearest to a power of ten of at most 308. -/
def powerOfTen (k : Nat) : Binary64 :=
  (Binary64.ofNat (Nat.pow 10 k)).getD (Binary64.zero false)

/-- A double divided by a power of ten, by `10 ^ 308` at a time while the power is greater. -/
def divideByPower (x : Binary64) (k : Nat) : Binary64 :=
  if x.mantissa = 0 then x
  else if _h : 308 < k then
    divideByPower ((x.div (powerOfTen 308)).getD x) (k - 308)
  else (x.div (powerOfTen k)).getD x
termination_by k
decreasing_by omega

/-- A double multiplied by a power of ten; nothing when that is beyond the largest double. -/
def multiplyByPower (x : Binary64) (k : Nat) : Option Binary64 :=
  if 308 < k then if x.mantissa = 0 then some x else none
  else x.mul (powerOfTen k)

/-- The double for a significand and a power of ten, with a sign. -/
def scaleByPower (negative : Bool) (significand : Nat) (power : Int) : Except Error Number :=
  let start := (Binary64.ofNat significand).getD (Binary64.zero false)
  let magnitude :=
    if 0 ≤ power then multiplyByPower start power.toNat
    else some (divideByPower start (-power).toNat)
  match magnitude with
  | none => .error .numberOutOfRange
  | some x => .ok (.double { x with negative := negative })

/-- The value of a number without fraction and power of ten that fits 64 bits. A negative one below
the least signed word is a double, and so is a negative zero. -/
def wholeNumber (negative : Bool) (significand : Nat) : Except Error Number :=
  if !negative then .ok (.whole significand)
  else if 0 < significand ∧ significand ≤ Nat.pow 2 63 then .ok (.whole (-(significand : Int)))
  else scaleByPower true significand 0

/-- The value of a number as it is written. -/
def Numeral.value (negative : Bool) (n : Numeral) : Except Error Number :=
  let whole := absorb 0 n.whole
  let dropped := n.whole.length - whole.2
  if dropped = 0 ∧ n.fraction = none ∧ n.power = none then wholeNumber negative whole.1
  else
    let all := absorb whole.1 (n.fraction.getD [])
    let point : Int := (dropped : Int) - (all.2 : Int)
    match n.power with
    | none => scaleByPower negative all.1 point
    | some (down, ds) =>
      let size := Decimal.value ds
      if Nat.pow 2 31 ≤ size then
        if all.1 ≠ 0 ∧ !down then .error .numberOutOfRange
        else .ok (.double (Binary64.zero negative))
      else scaleByPower negative all.1 (if down then point - size else point + size)

/-- A number, whose first character has been read. -/
def number (first : Char) (cs : List Char) : Except Error (Number × Tail cs) :=
  if first = '-' then
    match numeral false cs with
    | .error e => .error e
    | .ok (n, r) => (n.value true).map fun v => (v, r.toTail)
  else
    match numeral false (first :: cs) with
    | .error e => .error e
    | .ok (n, r) => (n.value false).map fun v => (v, r.behindFirst)

/-- A number that is only skipped, whose first character has been read. -/
def skipNumber (first : Char) (cs : List Char) : Except Error (Tail cs) :=
  if first = '-' then
    (numeral true cs).map fun found => found.2.toTail
  else
    (numeral true (first :: cs)).map fun found => found.2.behindFirst

/-- Whether a number begins with a character. -/
def startsNumber (c : Char) : Bool :=
  c = '-' || c.isDigit

end SuffixLint.Json.Lexeme
