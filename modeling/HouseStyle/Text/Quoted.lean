import HouseStyle.Text.Visible

/-!
# Quoted strings

A string as messages show it between quotes: in single quotes, or in double ones if it holds a
single quote and no double one. What cannot be seen is written as an escape with the fewest digits
that its code point needs, out of two, four and eight.
-/

namespace HouseStyle.Quoted

/-- The last `count` hexadecimal digits of a number. -/
def hexDigits : Nat → Nat → List Char
  | 0, _ => []
  | count + 1, n =>
    let d := n % 16
    hexDigits count (n / 16) ++ [Char.ofNat (if d < 10 then '0'.toNat + d else 'a'.toNat + (d - 10))]

/-- A character inside quotes. -/
def escape (quote c : Char) : List Char :=
  if c = quote || c = '\\' then ['\\', c]
  else if c = '\n' then ['\\', 'n']
  else if c = '\r' then ['\\', 'r']
  else if c = '\t' then ['\\', 't']
  else if Visible.isVisible c then [c]
  else
    let n := c.toNat
    if n < 0x100 then '\\' :: 'x' :: hexDigits 2 n
    else if n < 0x10000 then '\\' :: 'u' :: hexDigits 4 n
    else '\\' :: 'U' :: hexDigits 8 n

/-- A string in quotes. -/
def quote (s : String) : String :=
  let cs := s.toList
  let mark := if cs.contains '\'' && !cs.contains '"' then '"' else '\''
  String.ofList (mark :: cs.flatMap (escape mark) ++ [mark])

end HouseStyle.Quoted
