import Mustache.Text.Printable

/-!
# Quoted text

Strings and byte strings as they are written inside other values: between single quotes, or between
double quotes where the text has single quotes and no double ones. The quote in use and the
backslash are escaped, the three common controls have letters, and everything else that is not
printable is written by its number.
-/

namespace Mustache.Text

/-- The quote to use for a text: single, unless that would need an escape and double would not. -/
def quoteFor (s : List Char) : Char :=
  if s.contains '\'' && !s.contains '"' then '"' else '\''

/-- A number in lower-case hexadecimal digits, with zeros in front up to a width. -/
def hex (width n : Nat) : List Char :=
  let digits := Nat.toDigits 16 n
  List.replicate (width - digits.length) '0' ++ digits

/-- The escapes that strings and byte strings share. -/
def commonEscape? (quote c : Char) : Option (List Char) :=
  if c = quote || c = '\\' then some ['\\', c]
  else if c = '\n' then some ['\\', 'n']
  else if c = '\r' then some ['\\', 'r']
  else if c = '\t' then some ['\\', 't']
  else none

/-- How a character stands in a quoted string: by its code point, where it is not printable, in the
shortest of the widths two, four and eight. -/
def escapeChar (quote c : Char) : List Char :=
  (commonEscape? quote c).getD <|
    if isPrintable c then [c]
    else if c.toNat < 0x100 then '\\' :: 'x' :: hex 2 c.toNat
    else if c.toNat < 0x10000 then '\\' :: 'u' :: hex 4 c.toNat
    else '\\' :: 'U' :: hex 8 c.toNat

/-- How a byte stands in a quoted byte string: as the ASCII character that it is, or by its
number. -/
def escapeByte (quote : Char) (b : UInt8) : List Char :=
  let c := Char.ofNat b.toNat
  (commonEscape? quote c).getD <|
    if 0x20 ≤ b.toNat && b.toNat < 0x7F then [c] else '\\' :: 'x' :: hex 2 b.toNat

/-- A string between quotes. -/
def quoted (s : String) : String :=
  let quote := quoteFor s.toList
  String.ofList (quote :: s.toList.flatMap (escapeChar quote) ++ [quote])

/-- Bytes between quotes, with the mark of byte strings in front, given the quote to escape. -/
def enclosed (quote escaped : Char) (bytes : List UInt8) : String :=
  String.ofList ('b' :: quote :: bytes.flatMap (escapeByte escaped) ++ [quote])

/-- The quote to use for bytes. -/
def byteQuote (bytes : List UInt8) : Char := quoteFor (bytes.map fun b => Char.ofNat b.toNat)

/-- A byte string between quotes. -/
def quotedBytes (bytes : List UInt8) : String := enclosed (byteQuote bytes) (byteQuote bytes) bytes

/-- The bytes of a byte array between quotes; single quotes are escaped even where they need not
be. -/
def quotedArray (bytes : List UInt8) : String := enclosed (byteQuote bytes) '\'' bytes

end Mustache.Text
