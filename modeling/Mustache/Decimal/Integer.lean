import Mustache.Decimal.Reading

/-!
# Reading integers

An integer in a base from two to thirty-six: a sign, digits with single underscores between them,
and padding around it all. A mark in front of the digits may name one of three bases; where no base
is given the mark decides, and without one it is ten. Bases that are not powers of two have a limit
on the number of digits.
-/

namespace Mustache.Decimal

/-- What a text is as an integer. -/
inductive IntText
  | value (n : Int)
  /-- There are more digits than are read; this is their number. -/
  | tooLong (digits : Nat)
  | malformed
  deriving DecidableEq, Repr

namespace IntText

/-- The value of a digit: after nine come the letters, in either case. -/
def digitValue? (c : Char) : Option Nat :=
  if c.isDigit then some (c.toNat - '0'.toNat)
  else if c.isLower then some (c.toNat - 'a'.toNat + 10)
  else if c.isUpper then some (c.toNat - 'A'.toNat + 10)
  else none

/-- Whether a character is a digit in a base. -/
def isDigitIn (base : Nat) (c : Char) : Bool := (digitValue? c).any (· < base)

/-- The value of a text of digits in a base. -/
def natIn (base : Nat) (s : List Char) : Nat :=
  s.foldl (fun n c => base * n + (digitValue? c).getD 0) 0

/-- The base that the letter of a mark names. -/
def markedBase? : Char → Option Nat
  | 'x' | 'X' => some 16
  | 'o' | 'O' => some 8
  | 'b' | 'B' => some 2
  | _ => none

/-- The base that the mark at the start of a text names. -/
def mark? : List Char → Option Nat
  | '0' :: c :: _ => markedBase? c
  | _ => none

/-- The text after a mark, which one underscore may follow. -/
def afterMark (s : List Char) : List Char :=
  match s.drop 2 with
  | '_' :: r => r
  | r => r

/-- Whether a base has a limit on the number of digits. -/
def isLimited (base : Nat) : Bool := !([2, 4, 8, 16, 32].contains base)

/-- What a text is as an integer, given the most digits that are read. The base zero stands for no
base; a number with zeros in front must then have a mark. -/
def read (maxDigits base : Nat) (text : List Char) : IntText :=
  let (negative, s) := splitSign (trim text)
  let actual := if base = 0 then (mark? s).getD 10 else base
  let marked := mark? s == some actual
  let (digits, rest) := splitDigits (isDigitIn actual) (if marked then afterMark s else s)
  let n := natIn actual digits
  if rest.head? = some '_' then malformed
  else if isLimited actual && maxDigits < digits.length then tooLong digits.length
  else if digits = [] || rest ≠ [] then malformed
  else if base = 0 && !marked && s.head? = some '0' && n ≠ 0 then malformed
  else value (if negative then -(n : Int) else n)

end IntText

end Mustache.Decimal
