import HouseStyle.Config.Value
import HouseStyle.Number.Reading
import HouseStyle.Toml.Quotation

/-!
# Numbers and dates of a document

A number or a date is the longest text of its form at the front. An integer is decimal, or
hexadecimal, octal or binary without a sign; one with a fraction or an exponent is a float. Single
underscores may stand between digits.
-/

namespace HouseStyle.Toml

/-! ## Numbers -/

/-- The digits at the front that follow a digit, without the underscores between them, and what is
left. -/
def moreDigits (isDigit : Char → Bool) : List Char → List Char × List Char
  | [] => ([], [])
  | '_' :: c :: cs =>
    if isDigit c then
      let (ds, rest) := moreDigits isDigit cs
      (c :: ds, rest)
    else ([], '_' :: c :: cs)
  | c :: cs =>
    if isDigit c then
      let (ds, rest) := moreDigits isDigit cs
      (c :: ds, rest)
    else ([], c :: cs)

/-- The digits at the front, if there is one, and what is left. -/
def digits? (isDigit : Char → Bool) : List Char → Option (List Char × List Char)
  | [] => none
  | c :: cs =>
    if isDigit c then
      let (ds, rest) := moreDigits isDigit cs
      some (c :: ds, rest)
    else none

/-- The number that digits stand for. -/
def number (base : Nat) (digits : List Char) : Nat :=
  digits.foldl (fun n c => n * base + (hexValue? c).getD 0) 0

/-- The base that a letter after a zero announces, with its digits. -/
def base? (c : Char) : Option (Nat × (Char → Bool)) :=
  if c = 'x' then some (16, fun d => (hexValue? d).isSome)
  else if c = 'o' then some (8, fun d => '0' ≤ d && d ≤ '7')
  else if c = 'b' then some (2, fun d => d = '0' || d = '1')
  else none

/-- Reads an integer in another base than ten, if one starts here. -/
def prefixed? (cs : List Char) : Option (ConfigValue × List Char) :=
  match cs with
  | '0' :: letter :: rest => do
    let (base, isDigit) ← base? letter
    let (ds, rest) ← digits? isDigit rest
    return (.integer (number base ds), rest)
  | _ => none

/-- The digits of a whole decimal number at the front, and what is left. After a zero there are no
more. -/
def wholeDigits? : List Char → Option (List Char × List Char)
  | '0' :: cs => some (['0'], cs)
  | cs => digits? Char.isDigit cs

/-- The digits of a fraction, and what is left; none if no fraction starts here. -/
def fractionDigits : List Char → List Char × List Char
  | '.' :: cs => (digits? Char.isDigit cs).getD ([], '.' :: cs)
  | cs => ([], cs)

/-- The exponent, and what is left; none if no exponent starts here. -/
def exponent? : List Char → Option (Int × List Char)
  | c :: cs =>
    if c = 'e' || c = 'E' then
      let (negative, unsigned) := NumberText.sign cs
      (digits? Char.isDigit unsigned).map fun (ds, rest) =>
        (if negative then -(number 10 ds : Int) else number 10 ds, rest)
    else none
  | [] => none

/-- Reads a decimal number, if one starts here. -/
def decimal? (cs : List Char) : Option (Reading ConfigValue) :=
  let (negative, unsigned) := NumberText.sign cs
  (wholeDigits? unsigned).map fun (whole, rest) =>
    let (fraction, rest) := fractionDigits rest
    let float (e : Int) : ConfigValue :=
      .float (.ofDecimal negative (number 10 (whole ++ fraction)) (e - fraction.length))
    match exponent? rest with
    | some (e, rest) => .ok (float e, rest)
    | none =>
      if !fraction.isEmpty then .ok (float 0, rest)
      else if NumberText.maxDigits < whole.length then .error .tooManyDigits
      else
        let n := number 10 whole
        .ok (.integer (if negative then -(n : Int) else n), rest)

/-- Reads infinity or what is no number, if it stands here. -/
def special? (cs : List Char) : Option (ConfigValue × List Char) :=
  let (negative, unsigned) := NumberText.sign cs
  match unsigned with
  | 'i' :: 'n' :: 'f' :: rest => some (.float (.infinite negative), rest)
  | 'n' :: 'a' :: 'n' :: rest => some (.float .nan, rest)
  | _ => none

/-! ## Dates and times -/

/-- A number of so many digits at the front, and what is left. -/
def fixedDigits? (count : Nat) (cs : List Char) : Option (Nat × List Char) :=
  let ds := cs.take count
  if ds.length = count && ds.all Char.isDigit then some (number 10 ds, cs.drop count) else none

/-- A number of two digits between two bounds. -/
def twoDigits? (low high : Nat) (cs : List Char) : Option (Nat × List Char) :=
  (fixedDigits? 2 cs).filter fun (n, _) => low ≤ n && n ≤ high

/-- What is left after a character that has to stand here. -/
def after? (c : Char) : List Char → Option (List Char)
  | d :: cs => if d = c then some cs else none
  | [] => none

/-- What is left after a time of day. -/
def afterTime? (cs : List Char) : Option (List Char) := do
  let (_, cs) ← twoDigits? 0 23 cs
  let cs ← after? ':' cs
  let (_, cs) ← twoDigits? 0 59 cs
  let cs ← after? ':' cs
  let (_, cs) ← twoDigits? 0 59 cs
  match cs with
  | '.' :: d :: rest => return if d.isDigit then rest.dropWhile Char.isDigit else cs
  | _ => return cs

/-- What is left after an offset from universal time, if one stands here. -/
def afterOffset (cs : List Char) : List Char :=
  match cs with
  | c :: rest =>
    if c = 'Z' || c = 'z' then rest
    else if c = '+' || c = '-' then
      let offset : Option (List Char) := do
        let (_, rest) ← twoDigits? 0 23 rest
        let rest ← after? ':' rest
        let (_, rest) ← twoDigits? 0 59 rest
        return rest
      offset.getD cs
    else cs
  | [] => []

/-- The days of a month. -/
def daysIn (year month : Nat) : Nat :=
  if month = 2 then
    if year % 4 = 0 && (year % 100 != 0 || year % 400 = 0) then 29 else 28
  else if month = 4 || month = 6 || month = 9 || month = 11 then 30
  else 31

/-- Year, month and day, and what is left. -/
def day? (cs : List Char) : Option ((Nat × Nat × Nat) × List Char) := do
  let (year, cs) ← fixedDigits? 4 cs
  let cs ← after? '-' cs
  let (month, cs) ← twoDigits? 1 12 cs
  let cs ← after? '-' cs
  let (day, cs) ← twoDigits? 1 31 cs
  return ((year, month, day), cs)

/-- The text before what is left of it. -/
def textBefore (cs rest : List Char) : String := String.ofList (cs.take (cs.length - rest.length))

/-- Reads a date, with a time of day and an offset if they follow, or a time of day alone; none if
neither starts here. A date has to be one of the calendar. -/
def date? (cs : List Char) : Option (Reading ConfigValue) :=
  match day? cs with
  | some ((year, month, day), rest) =>
    if year = 0 || daysIn year month < day then some (malformed cs)
    else
      let rest :=
        match rest with
        | c :: more =>
          if c = 'T' || c = 't' || c = ' ' then ((afterTime? more).map afterOffset).getD rest else rest
        | [] => []
      some (.ok (.date (textBefore cs rest), rest))
  | none => (afterTime? cs).map fun rest => .ok (.date (textBefore cs rest), rest)

/-- Reads a number or a date. -/
def scalar (cs : List Char) : Reading ConfigValue :=
  match date? cs with
  | some r => r
  | none =>
    match prefixed? cs with
    | some r => .ok r
    | none =>
      match decimal? cs with
      | some r => r
      | none =>
        match special? cs with
        | some r => .ok r
        | none => malformed cs

theorem once_prefixed {cs : List Char} {r : ConfigValue × List Char} (h : prefixed? cs = some r) : r.1.Once := by
  unfold prefixed? at h
  split at h
  · simp only [Option.bind_eq_bind, Option.bind_eq_some_iff, Option.pure_def, Option.some.injEq] at h
    obtain ⟨-, -, -, -, rfl⟩ := h
    exact .integer
  · exact absurd h (by simp)

theorem once_decimal {cs : List Char} {r : Reading ConfigValue} (h : decimal? cs = some r) :
    Gives (fun r => r.1.Once) r := by
  obtain ⟨⟨whole, rest⟩, -, rfl⟩ := Option.map_eq_some_iff.mp h
  dsimp only
  split
  · exact gives_ok .float
  · split
    · exact gives_ok .float
    · split
      · exact gives_error _
      · exact gives_ok .integer

theorem once_special {cs : List Char} {r : ConfigValue × List Char} (h : special? cs = some r) : r.1.Once := by
  unfold special? at h
  dsimp only at h
  split at h
  · exact Option.some.inj h ▸ .float
  · exact Option.some.inj h ▸ .float
  · exact absurd h (by simp)

theorem once_date {cs : List Char} {r : Reading ConfigValue} (h : date? cs = some r) :
    Gives (fun r => r.1.Once) r := by
  unfold date? at h
  split at h
  · split at h
    · exact Option.some.inj h ▸ gives_malformed cs
    · exact Option.some.inj h ▸ gives_ok .date
  · obtain ⟨rest, -, rfl⟩ := Option.map_eq_some_iff.mp h
    exact gives_ok .date

theorem once_scalar (cs : List Char) : Gives (fun r => r.1.Once) (scalar cs) := by
  unfold scalar
  split
  next h => exact once_date h
  split
  next h => exact gives_ok (once_prefixed h)
  split
  next h => exact once_decimal h
  split
  next h => exact gives_ok (once_special h)
  · exact gives_malformed cs

end HouseStyle.Toml
