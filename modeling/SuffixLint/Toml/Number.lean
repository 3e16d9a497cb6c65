import SuffixLint.Decimal.Digits
import SuffixLint.Json.Value
import SuffixLint.Toml.Lexeme
/-!
# Numbers and dates in a TOML text

A whole number has to fit a signed word of 64 bits and may be written in decimals or, without a
sign, to the base 16, 8 or 2. A number with a fraction or a power of ten is the nearest double. An
underscore may stand between two digits. Dates and times of day have to exist.

A document has no dates and no numbers that are not finite. No setting is either of them, so it is
enough that each stands as something that no setting can be: a date as an object with one member, an
infinite number and one that is no number as a double.
-/

namespace SuffixLint.Toml

open Text

/-! ## Digits -/

/-- The digits at the front of a text, without the underscores between them; nothing when an
underscore is not followed by a digit. -/
def digitsAfter (isDigit : Char → Bool) : (cs : List Char) → Option (List Char × Tail cs)
  | [] => some ([], unread [])
  | ['_'] => none
  | '_' :: d :: r =>
    if isDigit d then
      (digitsAfter isDigit r).map fun found => (d :: found.1, found.2.past.past.toTail)
    else none
  | d :: r =>
    if isDigit d then
      (digitsAfter isDigit r).map fun found => (d :: found.1, found.2.past.toTail)
    else some ([], unread (d :: r))

/-- One digit or more. -/
def someDigits (isDigit : Char → Bool) : Read (List Char)
  | [] => none
  | d :: r =>
    if isDigit d then
      (digitsAfter isDigit r).map fun found => (d :: found.1, found.2.past)
    else none

/-- A sign, if one stands here: whether it is a minus. -/
def sign : (cs : List Char) → Option Bool × Tail cs
  | '+' :: r => (some false, (behind r).toTail)
  | '-' :: r => (some true, (behind r).toTail)
  | cs => (none, unread cs)

/-- What is left behind a word. -/
def word : List Char → (cs : List Char) → Option (Tail cs)
  | [], cs => some (unread cs)
  | _ :: _, [] => none
  | w :: ws, c :: r =>
    if c = w then (word ws r).map fun t => t.past.toTail else none

/-! ## Values of numbers -/

/-- A number that is not finite. -/
def notFinite : Json :=
  .number (.double (.zero false))

/-- A whole number, if it fits a signed word of 64 bits. -/
def wholeNumber (negative : Bool) (n : Nat) : Option Json :=
  if n < Nat.pow 2 63 ∨ (negative ∧ n = Nat.pow 2 63) then
    some (.number (.whole (if negative then -(n : Int) else n)))
  else none

/-- The double nearest to a number given by its digits and a power of ten, which is refused when it
is beyond the greatest double, but not when it is beyond the least. -/
def floatNumber (negative : Bool) (digits : List Char) (power : Int) : Option Json :=
  let n := Decimal.value digits
  let places := ((Decimal.digits n).length : Int) + power
  let infinite := if negative then some notFinite else none
  if n = 0 ∨ places < -400 then some (.number (.double (.zero negative)))
  else if 400 < places then infinite
  else
    let ratio :=
      if 0 ≤ power then (n * Nat.pow 10 power.toNat, 1) else (n, Nat.pow 10 (-power).toNat)
    match Decimal.Binary64.ofRatio negative ratio.1 ratio.2 with
    | some x => some (.number (.double x))
    | none => infinite

/-! ## Reading numbers -/

/-- A whole number to a base, behind the mark of the base. -/
def basedNumber (base : Nat) : Read Json := fun cs =>
  let isDigit (c : Char) : Bool := (hexValue? c).any (· < base)
  (someDigits isDigit cs).bind fun found =>
    let n := found.1.foldl (fun n d => n * base + (hexValue? d).getD 0) 0
    (wholeNumber false n).map fun v => (v, found.2)

/-- The digits before the point: one zero, or digits that do not begin with a zero. -/
def wholeDigits : Read (List Char)
  | '0' :: r => some (['0'], behind r)
  | cs => someDigits Char.isDigit cs

/-- The digits behind the point, if there is a point. -/
def fraction : (cs : List Char) → Option (Option (List Char) × Tail cs)
  | '.' :: r => (someDigits Char.isDigit r).map fun found => (some found.1, found.2.past.toTail)
  | cs => some (none, unread cs)

/-- The power of ten, if there is one. -/
def power : (cs : List Char) → Option (Option Int × Tail cs)
  | [] => some (none, unread [])
  | c :: r =>
    if c = 'e' || c = 'E' then
      let s := sign r
      (someDigits Char.isDigit s.2.val).map fun found =>
        let size : Int := Decimal.value found.1
        (some (if s.1 = some true then -size else size), (s.2.rest found.2).past.toTail)
    else some (none, unread (c :: r))

/-- A number in decimals, behind its sign. -/
def decimalNumber (negative : Bool) : Read Json := fun cs =>
  match wholeDigits cs with
  | none => none
  | some (whole, r) =>
    match fraction r.val with
    | none => none
    | some (decimals, t) =>
      match power t.val with
      | none => none
      | some (exponent, t') =>
        let value :=
          if decimals.isNone && exponent.isNone then wholeNumber negative (Decimal.value whole)
          else
            let places := decimals.getD []
            floatNumber negative (whole ++ places) (exponent.getD 0 - places.length)
        value.map fun v => (v, (r.tail t).tail t')

/-- A number that is not finite, behind its sign. -/
def notFiniteNumber : Read Json := fun cs =>
  match cs with
  | 'i' :: 'n' :: 'f' :: r => some (notFinite, (behind r).past.past)
  | 'n' :: 'a' :: 'n' :: r => some (notFinite, (behind r).past.past)
  | _ => none

/-- A number behind its sign. -/
def signedNumber (negative : Bool) : Read Json := fun cs =>
  match notFiniteNumber cs with
  | some found => some found
  | none => decimalNumber negative cs

/-- A number. -/
def number : Read Json := fun cs =>
  match cs with
  | '0' :: 'x' :: r => (basedNumber 16 r).map fun found => (found.1, found.2.past.past)
  | '0' :: 'o' :: r => (basedNumber 8 r).map fun found => (found.1, found.2.past.past)
  | '0' :: 'b' :: r => (basedNumber 2 r).map fun found => (found.1, found.2.past.past)
  | cs =>
    let s := sign cs
    (signedNumber (s.1 = some true) s.2.val).map fun found => (found.1, s.2.rest found.2)

/-! ## Dates -/

/-- The number that digits alone stand for. -/
def allDigits? (ds : List Char) : Option Nat :=
  if ds.all Char.isDigit then some (Decimal.value ds) else none

/-- How many days a month of a year has. -/
def daysOfMonth (year month : Nat) : Nat :=
  if month = 2 then
    if year % 4 = 0 ∧ (year % 100 ≠ 0 ∨ year % 400 = 0) then 29 else 28
  else if month = 4 ∨ month = 6 ∨ month = 9 ∨ month = 11 then 30
  else 31

/-- Whether a text begins with a day of the calendar, which takes ten characters. -/
def startsWithDay : List Char → Bool
  | a :: b :: c :: d :: '-' :: m :: n :: '-' :: x :: y :: _ =>
    match allDigits? [a, b, c, d], allDigits? [m, n], allDigits? [x, y] with
    | some year, some month, some day =>
      1 ≤ month && month ≤ 12 && 1 ≤ day && day ≤ daysOfMonth year month
    | _, _, _ => false
  | _ => false

/-- How many characters the fraction of a second takes, none if there is no fraction. -/
def fractionLength : List Char → Nat
  | '.' :: r =>
    let n := (r.takeWhile Char.isDigit).length
    if n = 0 then 0 else n + 1
  | _ => 0

/-- How many characters a time of day takes at the front of a text. The last minute of a day may
have a sixty-first second. -/
def timeLength? : List Char → Option Nat
  | h :: i :: ':' :: m :: n :: ':' :: s :: t :: r =>
    match allDigits? [h, i], allDigits? [m, n], allDigits? [s, t] with
    | some hour, some minute, some second =>
      if hour < 24 ∧ minute < 60 ∧ second ≤ 60 then some (8 + fractionLength r) else none
    | _, _, _ => none
  | _ => none

/-- How many characters the distance to universal time takes, none if there is none. -/
def offsetLength : List Char → Nat
  | 'Z' :: _ => 1
  | 'z' :: _ => 1
  | c :: h :: i :: ':' :: m :: n :: _ =>
    match allDigits? [h, i], allDigits? [m, n] with
    | some hour, some minute =>
      if (c = '+' ∨ c = '-') ∧ hour < 24 ∧ minute < 60 then 6 else 0
    | _, _ => 0
  | _ => 0

/-- How many characters a date takes at the front of a text, if one stands there: a day, a time of
day, or both, and then maybe the distance to universal time. -/
def dateLength? (cs : List Char) : Option Nat :=
  if startsWithDay cs then
    match cs.drop 10 with
    | c :: r =>
      if c = 'T' ∨ c = 't' ∨ c = ' ' then
        match timeLength? r with
        | some n => some (11 + n + offsetLength (r.drop n))
        | none => some 10
      else some 10
    | [] => some 10
  else timeLength? cs

/-- A date. -/
def date : Read Json := fun cs =>
  match cs with
  | [] => none
  | c :: r =>
    (dateLength? (c :: r)).map fun n =>
      (.object [("date", .string (String.ofList ((c :: r).take n)))],
        (dropped (n - 1) r).past)

end SuffixLint.Toml
