import Mustache.Decimal.Shortest

/-!
# Layout of decimals

How the digits of a number are set out: which exponents are written positionally, how an exponent is
written, and the words for the values that are not finite. The decisions are the fields of `Layout`;
`Layout.render` writes a double by them with the fewest digits that read back.
-/

namespace Mustache.Decimal

/-- The decisions on how a number is set out. -/
structure Layout where
  /-- The least decimal exponent of the first digit that is written positionally. -/
  positionalFrom : Int
  /-- The first decimal exponent that is too large for that. -/
  positionalBelow : Int
  /-- The least count of digits of a written exponent. -/
  exponentWidth : Nat
  notANumber : String
  infinity : String

/-- Zeros in front of a text up to a width. -/
def padZeros (width : Nat) (digits : List Char) : List Char :=
  List.replicate (width - digits.length) '0' ++ digits

/-- A whole number has one decimal place, which is zero. -/
def positional (digits : List Char) (first : Int) : List Char :=
  if first < 0 then '0' :: '.' :: List.replicate (-first - 1).toNat '0' ++ digits
  else
    let whole := first.toNat + 1
    if digits.length ≤ whole then
      digits ++ List.replicate (whole - digits.length) '0' ++ ['.', '0']
    else digits.take whole ++ '.' :: digits.drop whole

/-- One digit before the point, the sign of the exponent always written. -/
def exponential (width : Nat) (digits : List Char) (first : Int) : List Char :=
  let tail := match digits.drop 1 with
    | [] => []
    | r => '.' :: r
  digits.take 1 ++ tail ++ ['e', if first < 0 then '-' else '+'] ++
    padZeros width (Nat.toDigits 10 first.natAbs)

/-- Sets out a positive number. -/
def Layout.magnitude (l : Layout) (x : Scientific) : List Char :=
  let digits := Nat.toDigits 10 x.digits
  let first := x.exponent + digits.length - 1
  if l.positionalFrom ≤ first && first < l.positionalBelow then positional digits first
  else exponential l.exponentWidth digits first

/-- A minus sign, where there is one. -/
def signed (negative : Bool) (text : List Char) : String :=
  String.ofList (if negative then '-' :: text else text)

/-- Writes a double. -/
def Layout.render (l : Layout) (x : Float) : String :=
  match Real.ofFloat x with
  | .zero negative => signed negative ['0', '.', '0']
  | .finite negative b => signed negative (l.magnitude b.shortest)
  | .infinite negative => signed negative l.infinity.toList
  | .notANumber => l.notANumber

end Mustache.Decimal
