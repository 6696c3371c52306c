import Relock.Text.Digit

/-!
# Number tokens

The spellings that read as numbers. An integer is an optional sign and decimal digits; a real is an
optional sign and either a decimal with a point or an exponent, or one of the words `inf`,
`infinity` and `nan` in any case. Blanks may surround a number, single underscores may stand between
two digits, and digits of any script count.
-/

namespace Relock.Number

open Relock.Text

/-- The token in ASCII and without the blanks around it. -/
def trimmed (token : List Char) : List Char :=
  ((token.map toAsciiNumeral).dropWhile isBlank).reverse.dropWhile isBlank |>.reverse

/-- A leading sign, with what follows it; `true` for minus. -/
def splitSign : List Char → Bool × List Char
  | '-' :: cs => (true, cs)
  | '+' :: cs => (false, cs)
  | cs => (false, cs)

/-- Removes the underscores, each of which has to stand between two digits. `afterDigit` says
whether a digit comes right before. -/
def dropUnderscores (afterDigit : Bool) : List Char → Option (List Char)
  | [] => some []
  | '_' :: c :: cs =>
    if afterDigit && c.isDigit then (dropUnderscores true cs).map (c :: ·) else none
  | '_' :: [] => none
  | c :: cs => (dropUnderscores c.isDigit cs).map (c :: ·)

/-- The number that a row of digits spells. -/
def digitsValue (digits : List Char) : Nat :=
  digits.foldl (fun n c => 10 * n + (c.toNat - 0x30)) 0

/-- The most digits an integer token may have; a longer row of digits reads as a real. -/
def maxIntegerDigits : Nat := 4300

/-- Reads an integer token. -/
def integer? (token : String) : Option Int := do
  let (negative, body) := splitSign (trimmed token.toList)
  let digits ← dropUnderscores false body
  if digits.isEmpty || !digits.all Char.isDigit || digits.length > maxIntegerDigits then none
  else
    let n := digitsValue digits
    some (if negative then -n else n)

/-- A decimal `m · 10^e` rounded to binary64. The magnitude decides first, so that an exponent far
outside the range of binary64 is never raised to. -/
def roundDecimal (m : Nat) (e : Int) : Float :=
  let place := ((Nat.toDigits 10 m).length : Int) + e
  if m = 0 || place < -330 then 0.0
  else if place > 310 then 1.0 / 0.0
  else if e < 0 then Float.ofScientific m true e.natAbs
  else Float.ofScientific m false e.natAbs

/-- Reads the exponent part of a real: nothing, or `e`, an optional sign and digits. -/
def exponent? : List Char → Option Int
  | [] => some 0
  | c :: cs =>
    let (negative, digits) := splitSign cs
    if (c = 'e' || c = 'E') && !digits.isEmpty && digits.all Char.isDigit then
      some (if negative then -(digitsValue digits : Int) else digitsValue digits)
    else none

/-- Reads an unsigned decimal: digits with at most one point among them, then an exponent. -/
def magnitude? (cs : List Char) : Option Float := do
  let whole := cs.takeWhile Char.isDigit
  let rest := cs.dropWhile Char.isDigit
  let (fraction, rest) := match rest with
    | '.' :: rest => (rest.takeWhile Char.isDigit, rest.dropWhile Char.isDigit)
    | rest => ([], rest)
  if whole.isEmpty && fraction.isEmpty then none
  let e ← exponent? rest
  return roundDecimal (digitsValue (whole ++ fraction)) (e - fraction.length)

/-- Reads a real token. -/
def real? (token : String) : Option Float := do
  let body ← dropUnderscores false (trimmed token.toList)
  let (negative, body) := splitSign body
  let size ← match String.ofList (body.map Char.toLower) with
    | "inf" | "infinity" => some (1.0 / 0.0)
    | "nan" => some (0.0 / 0.0)
    | _ => magnitude? body
  return if negative then -size else size

end Relock.Number
