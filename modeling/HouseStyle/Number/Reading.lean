import HouseStyle.Number.Binary64
import HouseStyle.Text.Blank
import HouseStyle.Text.Letter

/-!
# Reading numbers

Numbers as a user writes them in a setting: white space around them means nothing, the digits may be
those of any script, and a single underscore may stand between two digits.
-/

namespace HouseStyle.NumberText

/-- The value of digits with single underscores between them, where `value` has been read so far. -/
def digitsFrom (value : Nat) : List Char → Option Nat
  | [] => some value
  | '_' :: c :: cs => (Letter.decimalValue? c).bind fun d => digitsFrom (value * 10 + d) cs
  | c :: cs => (Letter.decimalValue? c).bind fun d => digitsFrom (value * 10 + d) cs

/-- The value of digits with single underscores between them. -/
def digits? : List Char → Option Nat
  | [] => none
  | c :: cs => (Letter.decimalValue? c).bind fun d => digitsFrom d cs

/-- Takes a sign off: whether it is a minus, and what follows it. -/
def sign : List Char → Bool × List Char
  | '-' :: cs => (true, cs)
  | '+' :: cs => (false, cs)
  | cs => (false, cs)

/-- The most digits that an integer may have. -/
def maxDigits : Nat := 4300

/-- The number of digits in a text. -/
def countDigits (cs : List Char) : Nat := (cs.filter fun c => (Letter.decimalValue? c).isSome).length

/-- Reads an integer. -/
def integer? (s : String) : Option Int :=
  let (negative, cs) := sign (Blank.trim s).toList
  if maxDigits < countDigits cs then none
  else (digits? cs).map fun n => if negative then -(n : Int) else n

/-- The digits before a character of `stop`, and the rest from it on. -/
def upTo (stop : Char → Bool) (cs : List Char) : List Char × List Char :=
  (cs.takeWhile (!stop ·), cs.dropWhile (!stop ·))

/-- Digits that may be missing, with how many there are. -/
def someDigits? (cs : List Char) : Option (Nat × Nat) :=
  if cs.isEmpty then some (0, 0) else (digits? cs).map fun n => (n, countDigits cs)

/-- Reads the exponent that follows the digits of a number. -/
def exponent? : List Char → Option Int
  | [] => some 0
  | _ :: cs =>
    let (negative, cs) := sign cs
    (digits? cs).map fun n => if negative then -(n : Int) else n

/-- Reads a number that may have a fraction and an exponent, without its sign. -/
def unsigned? (negative : Bool) (cs : List Char) : Option Binary64 :=
  let isExponent := fun c => c = 'e' || c = 'E'
  let (mantissa, exponent) := upTo isExponent cs
  let (whole, fraction) := upTo (· = '.') mantissa
  match someDigits? whole, someDigits? (fraction.drop 1), exponent? exponent with
  | some (a, m), some (b, n), some e =>
    if m + n = 0 then none else some (.ofDecimal negative (a * Nat.pow 10 n + b) (e - n))
  | _, _, _ => none

/-- Reads a number of the binary format. -/
def decimal? (s : String) : Option Binary64 :=
  let (negative, cs) := sign (Blank.trim s).toList
  let word := (String.ofList cs).toLower
  if word = "inf" || word = "infinity" then some (.infinite negative)
  else if word = "nan" then some .nan
  else unsigned? negative cs

end HouseStyle.NumberText
