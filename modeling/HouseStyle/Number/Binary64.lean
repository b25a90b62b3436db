/-!
# Binary floating point

The numbers of a 64-bit binary floating point format, with their rounding done in exact integer
arithmetic: a finite number is a natural number times a power of two, and `ofRatio` finds the one
nearest to a given ratio, on a tie the one whose multiple is even.

`decimal` writes a number with the fewest digits that read back as the same number.
-/

namespace HouseStyle

/-- A number of the format. A finite one is `significand · 2 ^ exponent`, negated if it says so. -/
inductive Binary64 where
  | finite (negative : Bool) (significand : Nat) (exponent : Int)
  | infinite (negative : Bool)
  | nan
  deriving DecidableEq, Repr, Inhabited

namespace Binary64

/-- The digits of a significand. -/
def precision : Nat := 53

/-- The least exponent of a finite number. -/
def minExponent : Int := -1074

/-- The largest exponent of a finite number. -/
def maxExponent : Int := 971

/-- The quotient rounded to the nearest natural number, on a tie to the even one. -/
def roundQuotient (num den : Nat) : Nat :=
  let q := num / den
  let twice := 2 * (num % den)
  if twice < den then q
  else if den < twice then q + 1
  else if q % 2 = 0 then q else q + 1

/-- The ratio `num / (den · 2 ^ e)`, rounded. -/
def scaled (num den : Nat) (e : Int) : Nat :=
  if 0 ≤ e then roundQuotient num (den * Nat.pow 2 e.toNat) else roundQuotient (num * Nat.pow 2 (-e).toNat) den

/-- The exponent at which the significand of a ratio has all its digits, or the least exponent. -/
def exponentFor (num den : Nat) : Int :=
  let e : Int := (num.log2 : Int) - (den.log2 : Int) - (precision - 1 : Int)
  -- The logarithms are off by less than one each, so the quotient may be one digit short.
  let fits : Bool :=
    if 0 ≤ e then den * Nat.pow 2 (e.toNat + precision - 1) ≤ num
    else den * Nat.pow 2 (precision - 1) ≤ num * Nat.pow 2 (-e).toNat
  max (if fits then e else e - 1) minExponent

/-- The finite number nearest to a ratio, as significand and exponent; none if it is too large. -/
def nearest? (num den : Nat) : Option (Nat × Int) :=
  if num = 0 then some (0, minExponent)
  else
    let e := exponentFor num den
    let m := scaled num den e
    -- Rounding up can reach one digit more; then the last one is zero.
    let (m, e) := if m = Nat.pow 2 precision then (Nat.pow 2 (precision - 1), e + 1) else (m, e)
    if maxExponent < e then none else some (m, e)

/-- The number nearest to a ratio; infinite beyond the largest finite one. -/
def ofRatio (negative : Bool) (num den : Nat) : Binary64 :=
  match nearest? num den with
  | some (m, e) => .finite negative m e
  | none => .infinite negative

/-- The number nearest to an integer; none if it is too large for a finite one. -/
def ofInt? (n : Int) : Option Binary64 :=
  (nearest? n.natAbs 1).map fun (m, e) => .finite (n < 0) m e

/-- Zero. -/
def zero : Binary64 := .finite false 0 minExponent

/-- The value of a decimal: `digits · 10 ^ exponent`. Beyond the range of the format the power is
not computed. -/
def ofDecimal (negative : Bool) (digits : Nat) (exponent : Int) : Binary64 :=
  let size : Int := (Nat.toDigits 10 digits).length + exponent
  if digits = 0 || size < -330 then .finite negative 0 minExponent
  else if 320 < size then .infinite negative
  else if 0 ≤ exponent then ofRatio negative (digits * Nat.pow 10 exponent.toNat) 1
  else ofRatio negative digits (Nat.pow 10 (-exponent).toNat)

/-- The integer and the power of two that a finite number is the product of. -/
def signed (negative : Bool) (significand : Nat) : Int :=
  if negative then -(significand : Int) else significand

/-- The order of two products of an integer and a power of two. -/
def compareScaled (a : Int) (e : Int) (b : Int) (f : Int) : Ordering :=
  let least := min e f
  compare (a * Nat.pow 2 (e - least).toNat) (b * Nat.pow 2 (f - least).toNat)

/-- Whether `x ≤ y`; never for a number that is not one. -/
def le (x y : Binary64) : Bool :=
  match x, y with
  | .nan, _ => false
  | _, .nan => false
  | .infinite true, _ => true
  | _, .infinite false => true
  | .infinite false, _ => false
  | _, .infinite true => false
  | .finite s m e, .finite t n f => (compareScaled (signed s m) e (signed t n) f).isLE

/-- The sum of two numbers. -/
def add (x y : Binary64) : Binary64 :=
  match x, y with
  | .nan, _ => .nan
  | _, .nan => .nan
  | .infinite s, .infinite t => if s = t then .infinite s else .nan
  | .infinite s, _ => .infinite s
  | _, .infinite t => .infinite t
  | .finite s m e, .finite t n f =>
    let least := min e f
    let sum := signed s m * Nat.pow 2 (e - least).toNat + signed t n * Nat.pow 2 (f - least).toNat
    if sum = 0 then .finite (s && t) 0 minExponent
    else if 0 ≤ least then ofRatio (sum < 0) (sum.natAbs * Nat.pow 2 least.toNat) 1
    else ofRatio (sum < 0) sum.natAbs (Nat.pow 2 (-least).toNat)

/-! ## Decimal text -/

/-- The ratio that a significand and an exponent stand for. -/
def ratio (significand : Nat) (exponent : Int) : Nat × Nat :=
  if 0 ≤ exponent then (significand * Nat.pow 2 exponent.toNat, 1)
  else (significand, Nat.pow 2 (-exponent).toNat)

/-- How many digits stand in front of the decimal point of a ratio; zero or less if it is below
one tenth. -/
def pointPlace (num den : Nat) : Int :=
  if den ≤ num then (Nat.toDigits 10 (num / den)).length
  else
    -- With `k` more digits than the quotient has, the ratio lies between one tenth and ten.
    let k := (Nat.toDigits 10 (den / num)).length
    if den ≤ num * Nat.pow 10 (k - 1) then 2 - (k : Int)
    else if den ≤ num * Nat.pow 10 k then 1 - (k : Int) else -(k : Int)

/-- A decimal of `count` digits that is nearest to a number among those that read back as it. The
answer holds the digits as a number. -/
def decimalOf? (significand : Nat) (exponent : Int) (count : Nat) : Option (Nat × Int) :=
  let (num, den) := ratio significand exponent
  let place : Int := pointPlace num den - count
  -- The number in units of the last digit.
  let (num', den') :=
    if 0 ≤ place then (num, den * Nat.pow 10 place.toNat) else (num * Nat.pow 10 (-place).toNat, den)
  let below := num' / den'
  let readsBack (d : Nat) : Bool :=
    nearest? (if 0 ≤ place then d * Nat.pow 10 place.toNat else d)
      (if 0 ≤ place then 1 else Nat.pow 10 (-place).toNat) == some (significand, exponent)
  let nearer := roundQuotient num' den'
  let further := if nearer = below then below + 1 else below
  if readsBack nearer then some (nearer, place)
  else if readsBack further then some (further, place)
  else none

/-- The decimal with the fewest digits that reads back as a positive finite number: its digits
and the power of ten they are to be multiplied with. Seventeen digits are always enough. -/
def shortest (significand : Nat) (exponent : Int) : Nat × Int :=
  ((List.range 17).findSome? fun k => decimalOf? significand exponent (k + 1)).getD (significand, 0)

/-- Decimal digits without the zeros at their end, and the power of ten with those zeros in it. -/
def withoutZeros (digits : List Char) (place : Int) : List Char × Int :=
  let kept := (digits.reverse.dropWhile (· == '0')).reverse
  (kept, place + (digits.length - kept.length : Nat))

/-- How numbers are written: with a point between the digits if it stands at most this many places
behind the first digit, -/
def positionalMax : Int := 16

/-- and at most this many zeros after the point come before the first digit. -/
def positionalMin : Int := -3

/-- A finite number that is not negative. -/
def magnitude (significand : Nat) (exponent : Int) : String :=
  if significand = 0 then "0.0"
  else
    let (d, place) := shortest significand exponent
    let (digits, place) := withoutZeros (Nat.toDigits 10 d) place
    let point : Int := digits.length + place
    if positionalMin ≤ point && point ≤ positionalMax then
      if point ≤ 0 then "0." ++ String.ofList (List.replicate (-point).toNat '0' ++ digits)
      else if 0 ≤ place then String.ofList (digits ++ List.replicate place.toNat '0') ++ ".0"
      else
        String.ofList (digits.take point.toNat) ++ "." ++ String.ofList (digits.drop point.toNat)
    else
      let e := point - 1
      let mark := String.ofList (digits.take 1) ++
        (if digits.length = 1 then "" else "." ++ String.ofList (digits.drop 1))
      let size := Nat.toDigits 10 e.natAbs
      mark ++ (if e < 0 then "e-" else "e+") ++
        String.ofList (List.replicate (2 - size.length) '0' ++ size)

/-- The text of a number. -/
def decimal : Binary64 → String
  | .nan => "nan"
  | .infinite negative => if negative then "-inf" else "inf"
  | .finite negative m e => (if negative then "-" else "") ++ magnitude m e

end Binary64

/-- A number of seconds or a clock reading: a whole number, or a number of the binary format. Whole
numbers are exact, however large. -/
inductive Quantity where
  | whole (n : Int)
  | real (x : Binary64)
  deriving DecidableEq, Repr, Inhabited

namespace Quantity

/-- The quantity in the binary format; none if it is too large. -/
def toReal? : Quantity → Option Binary64
  | .whole n => Binary64.ofInt? n
  | .real x => some x

/-- Whether `a ≤ b`, without rounding. -/
def le (a b : Quantity) : Bool :=
  match a, b with
  | .whole m, .whole n => m ≤ n
  | .real x, .real y => x.le y
  | .whole m, .real y =>
    match y with
    | .nan => false
    | .infinite negative => !negative
    | .finite t n f => (Binary64.compareScaled m 0 (Binary64.signed t n) f).isLE
  | .real x, .whole n =>
    match x with
    | .nan => false
    | .infinite negative => negative
    | .finite s m e => (Binary64.compareScaled (Binary64.signed s m) e n 0).isLE

/-- The sum; none if a whole number is too large to be added to one that is not. -/
def add? (a b : Quantity) : Option Quantity :=
  match a, b with
  | .whole m, .whole n => some (.whole (m + n))
  | a, b =>
    match a.toReal?, b.toReal? with
    | some x, some y => some (.real (x.add y))
    | _, _ => none

/-- The text of a quantity. -/
def text : Quantity → String
  | .whole n => toString n
  | .real x => x.decimal

end Quantity

end HouseStyle
