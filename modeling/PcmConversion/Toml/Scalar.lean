import PcmConversion.Toml.Text
import PcmConversion.Toml.Value

/-!
# Numbers, dates and truth values of TOML

A scalar without quotes is a run of letters, digits and the signs `+ - . : _`; its kind is decided by the
whole run.
-/

namespace PcmConversion.Toml

/-- A character of an unquoted scalar. -/
def isScalarChar (c : Char) : Bool :=
  c.isAlphanum || c = '_' || c = '-' || c = '+' || c = '.' || c = ':'

/-- Digits with single underscores between them, without the underscores. -/
def ungroup? (isDigit : Char → Bool) : List Char → Option (List Char)
  | [] => none
  | [c] => if isDigit c then some [c] else none
  | c :: '_' :: rest => if isDigit c then (ungroup? isDigit rest).map (c :: ·) else none
  | c :: rest => if isDigit c then (ungroup? isDigit rest).map (c :: ·) else none

/-- A sign before a number, if there is one: whether it is a minus, and what follows. -/
def splitSign : List Char → Bool × List Char
  | '+' :: rest => (false, rest)
  | '-' :: rest => (true, rest)
  | s => (false, s)

/-- A magnitude with its sign. -/
def signed (negative : Bool) (magnitude : Nat) : Int :=
  if negative then -magnitude else magnitude

/-- Decimal digits without a leading zero. -/
def decimalDigits? (s : List Char) : Option (List Char) := do
  let digits ← ungroup? Char.isDigit s
  match digits with
  | '0' :: _ :: _ => none
  | _ => some digits

/-- A number in a base that a letter announces. -/
def based? (base : Nat) (s : List Char) : Option Int := do
  let digits ← ungroup? (fun c => (digitValue? c).any (· < base)) s
  return (← ofDigits? base digits : Nat)

/-- An integer of any size. -/
def unboundedInteger? : List Char → Option Int
  | '0' :: 'x' :: rest => based? 16 rest
  | '0' :: 'o' :: rest => based? 8 rest
  | '0' :: 'b' :: rest => based? 2 rest
  | s => do
    let (negative, rest) := splitSign s
    let magnitude ← ofDigits? 10 (← decimalDigits? rest)
    return signed negative magnitude

/-- An integer that fits 128 bits. -/
def integer? (s : List Char) : Option Int := do
  let v ← unboundedInteger? s
  if -(1 <<< 127 : Nat) ≤ v ∧ v < (1 <<< 128 : Nat) then some v else none

/-- The 64-bit float nearest to `mantissa * 10^exponent`.  What lies far outside the range is settled
without computing the power. -/
def ofDecimal (negative : Bool) (mantissa : Nat) (exponent : Int) : Number :=
  let size := (Nat.toDigits 10 mantissa).length + exponent
  if mantissa = 0 ∨ size < -400 then .finite negative 0 BinaryFormat.double.bottom
  else if 400 < size then .infinite negative
  else BinaryFormat.double.nearest negative
    (mantissa * Nat.pow 10 exponent.toNat) (Nat.pow 10 (-exponent).toNat) 0

/-- The exponent of a float: none, or a letter, a sign and digits. -/
def exponent? : List Char → Option Int
  | [] => some 0
  | c :: rest =>
    if c = 'e' ∨ c = 'E' then do
      let (negative, rest) := splitSign rest
      let magnitude ← ofDigits? 10 (← ungroup? Char.isDigit rest)
      return signed negative magnitude
    else none

/-- A decimal float: an integer with a fraction, an exponent or both. -/
def decimalFloat? (negative : Bool) (s : List Char) : Option Number := do
  let inRun (c : Char) : Bool := c.isDigit || c = '_'
  let whole ← decimalDigits? (s.takeWhile inRun)
  match s.dropWhile inRun with
  | '.' :: rest =>
    let fraction ← ungroup? Char.isDigit (rest.takeWhile inRun)
    let exponent ← exponent? (rest.dropWhile inRun)
    return ofDecimal negative (← ofDigits? 10 (whole ++ fraction)) (exponent - fraction.length)
  | [] => none
  | rest => return ofDecimal negative (← ofDigits? 10 whole) (← exponent? rest)

/-- A float; a finite one must stay in range. -/
def float? (s : List Char) : Option Number := do
  let (negative, rest) := splitSign s
  if rest = ['i', 'n', 'f'] then return .infinite negative
  if rest = ['n', 'a', 'n'] then return .nan
  match ← decimalFloat? negative rest with
  | .finite s m e => some (.finite s m e)
  | _ => none

/-- A number of exactly two digits at the start. -/
def twoDigits? : List Char → Option (Nat × List Char)
  | a :: b :: rest =>
    if a.isDigit && b.isDigit then (ofDigits? 10 [a, b]).map (·, rest) else none
  | _ => none

/-- Days of a month. -/
def daysOfMonth (year month : Nat) : Nat :=
  if month = 2 then
    if year % 4 = 0 ∧ (year % 100 ≠ 0 ∨ year % 400 = 0) then 29 else 28
  else if month = 4 ∨ month = 6 ∨ month = 9 ∨ month = 11 then 30
  else 31

/-- A character that must come next. -/
def expect? (c : Char) : List Char → Option (List Char)
  | d :: rest => if d = c then some rest else none
  | [] => none

/-- A date `YYYY-MM-DD` at the start; what follows it. -/
def date? (s : List Char) : Option (List Char) := do
  let (century, s) ← twoDigits? s
  let (year, s) ← twoDigits? s
  let (month, s) ← twoDigits? (← expect? '-' s)
  let (day, s) ← twoDigits? (← expect? '-' s)
  if 1 ≤ month ∧ month ≤ 12 ∧ 1 ≤ day ∧ day ≤ daysOfMonth (100 * century + year) month then some s
  else none

/-- A time `HH:MM`, with seconds and a fraction of them or without, at the start; what follows it. -/
def time? (s : List Char) : Option (List Char) := do
  let (hour, s) ← twoDigits? s
  let (minute, s) ← twoDigits? (← expect? ':' s)
  if 23 < hour ∨ 59 < minute then none
  match s with
  | ':' :: s =>
    let (second, s) ← twoDigits? s
    if 60 < second then none
    match s with
    | '.' :: s => if (s.takeWhile Char.isDigit).isEmpty then none else some (s.dropWhile Char.isDigit)
    | s => some s
  | s => some s

/-- An offset from universal time, or none; nothing may follow. -/
def offset? : List Char → Option Unit
  | [] | ['Z'] | ['z'] => some ()
  | c :: s =>
    if c = '+' ∨ c = '-' then do
      let (hour, s) ← twoDigits? s
      let (minute, s) ← twoDigits? (← expect? ':' s)
      if hour ≤ 23 ∧ minute ≤ 59 ∧ s.isEmpty then some () else none
    else none

/-- Whether the text is a date, a time, or a date and a time with an offset or without. -/
def isDateTime (s : List Char) : Bool :=
  match date? s with
  | some [] => true
  | some (c :: s) =>
    (c = 'T' || c = 't' || c = ' ') && ((time? s).bind offset?).isSome
  | none => time? s = some []

/-- The value of an unquoted scalar. -/
def scalar? (s : List Char) : Option Value :=
  if s = ['t', 'r', 'u', 'e'] then some (.boolean true)
  else if s = ['f', 'a', 'l', 's', 'e'] then some (.boolean false)
  else match integer? s with
    | some v => some (.integer v)
    | none =>
      match float? s with
      | some v => some (.float v)
      | none => if isDateTime s then some (.dateTime (String.ofList s)) else none

/-- An unquoted scalar at the start.  A date may be parted from its time by one space. -/
def readScalar (s : List Char) : Option (Value × List Char) :=
  let run := s.takeWhile isScalarChar
  let rest := s.dropWhile isScalarChar
  match date? run, rest with
  | some [], ' ' :: more =>
    let next := more.takeWhile isScalarChar
    if next.isEmpty then (scalar? run).map (·, rest)
    else (scalar? (run ++ ' ' :: next)).map (·, more.dropWhile isScalarChar)
  | _, _ => (scalar? run).map (·, rest)

end PcmConversion.Toml
