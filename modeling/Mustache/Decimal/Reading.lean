import Mustache.Text.Blank
import Mustache.Text.Digit

/-!
# Reading decimals

The double nearest to a written number. The grammar is that of a sign, digits with single
underscores between them, a fraction and an exponent; the words for the values that are not finite
are read in any case of letters.
-/

namespace Mustache.Decimal

/-- The value of a text of decimal digits. -/
def natOfDigits (s : List Char) : Nat := s.foldl (fun n c => 10 * n + (c.toNat - '0'.toNat)) 0

/-- The double nearest to `digits · 10^exponent`. The place of the first digit is guessed from the
number of binary digits, which is right but for a place or two; a number with its first digit far
above the place `10^308` is infinite, and one with its first digit far below `10^-324` is zero. -/
def nearest (negative : Bool) (digits : Nat) (exponent : Int) : Float :=
  let first := exponent + (digits.log2 * 30103 / 100000 : Nat)
  let magnitude : Float :=
    if digits = 0 then 0.0
    else if first > 320 then 1.0 / 0.0
    else if first < -340 then 0.0
    else if exponent < 0 then Float.ofScientific digits true exponent.natAbs
    else Float.ofScientific digits false exponent.natAbs
  if negative then -magnitude else magnitude

/-- A sign at the start of a text, and the rest. -/
def splitSign : List Char → Bool × List Char
  | '-' :: r => (true, r)
  | '+' :: r => (false, r)
  | r => (false, r)

/-- The digits at the start of a text, an underscore allowed between two of them, and the rest. -/
def splitDigits (isDigit : Char → Bool) : List Char → List Char × List Char
  | c :: '_' :: d :: r =>
    if isDigit c && isDigit d then
      let (ds, rest) := splitDigits isDigit (d :: r)
      (c :: ds, rest)
    else if isDigit c then ([c], '_' :: d :: r)
    else ([], c :: '_' :: d :: r)
  | c :: r =>
    if isDigit c then
      let (ds, rest) := splitDigits isDigit r
      (c :: ds, rest)
    else ([], c :: r)
  | [] => ([], [])

/-- The exponent written at the start of a text: zero where there is none. Nothing may follow. -/
def exponent? : List Char → Option Int
  | [] => some 0
  | e :: r =>
    if e = 'e' || e = 'E' then
      let (negative, r) := splitSign r
      match splitDigits Char.isDigit r with
      | ([], _) => none
      | (ds, []) => some (if negative then -(natOfDigits ds : Int) else natOfDigits ds)
      | _ => none
    else none

/-- The digits and the decimal exponent of an unsigned number. -/
def unsigned? (s : List Char) : Option (Nat × Int) :=
  let (whole, r) := splitDigits Char.isDigit s
  let (fraction, r) := match r with
    | '.' :: r => splitDigits Char.isDigit r
    | r => ([], r)
  if whole.isEmpty && fraction.isEmpty then none
  else (exponent? r).map fun e => (natOfDigits (whole ++ fraction), e - fraction.length)

/-- The blank characters of ASCII that may stand around a number. -/
def isPadding (c : Char) : Bool := c = ' ' || (0x09 ≤ c.toNat && c.toNat ≤ 0x0D)

/-- The text without padding at its two ends. -/
def trim (s : List Char) : List Char :=
  ((s.dropWhile isPadding).reverse.dropWhile isPadding).reverse

/-- The text with the digits and the blank characters beyond ASCII replaced by those of ASCII. -/
def toAscii (s : List Char) : List Char :=
  s.map fun c =>
    if c.toNat < 0x80 then c
    else if Text.isBlank c then ' '
    else match Text.digit? c with
      | some d => Char.ofNat ('0'.toNat + d)
      | none => c

/-- Reads a double, padding around it allowed. -/
def float? (text : String) : Option Float :=
  let (negative, s) := splitSign (trim (toAscii text.toList))
  match String.ofList (s.map Char.toLower) with
  | "inf" | "infinity" => some (if negative then -(1.0 / 0.0) else 1.0 / 0.0)
  | "nan" => some (0.0 / 0.0)
  | _ => (unsigned? s).map fun (digits, e) => nearest negative digits e

end Mustache.Decimal
