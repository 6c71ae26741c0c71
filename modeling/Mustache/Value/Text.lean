import Mustache.Value.Kind
import Mustache.Decimal.Layout
import Mustache.Text.Quoted

/-!
# The text of a value

What a value is written as. A string on its own stands for itself; inside other values it is
quoted. Collections are written with the brackets of their kind, in order. Functions have no text
of their own and are written by a word; callables without definition are written by their names.

Integers with very many digits are never written, nor is anything that they are in (`isWritable`).
-/

namespace Mustache

/-- How many digits of a number are read or written at most. -/
def Error.maxDigits : Nat := 4300

/-- The message for a number with more digits than that, with what is known of them. -/
def Error.limitMessage (detail : String) : String :=
  "Exceeds the limit (" ++ toString maxDigits ++ " digits) for integer string conversion" ++
    detail ++ "; use sys.set_int_max_str_digits() to increase the limit"

/-- What a callable without definition is written as: a conversion by the class that it makes. -/
def Builtin.spelling : Builtin → String
  | .integer => "<class 'int'>"
  | .text => "<class 'str'>"
  | .mapping => "<class 'dict'>"
  | .least => "<built-in function min>"
  | .size => "<built-in function len>"

namespace Value

/-- Numbers are written with the fewest digits that identify them, positionally from 10^-4 up to
10^16 and with an exponent of at least two digits elsewhere. -/
def numberLayout : Decimal.Layout where
  positionalFrom := -4
  positionalBelow := 16
  exponentWidth := 2
  notANumber := "nan"
  infinity := "inf"

/-- An integer in decimal digits. -/
def intText (n : Int) : String :=
  Decimal.signed (n < 0) (Nat.toDigits 10 n.natAbs)

/-- Texts with a comma and a space between them. -/
def commas (texts : List String) : String := ", ".intercalate texts

/-- A tuple of one item has a comma after it. -/
def tupleText : List String → String
  | [one] => "(" ++ one ++ ",)"
  | texts => "(" ++ commas texts ++ ")"

/-- The set without items is written by its name, since empty braces are the empty mapping. -/
def setText : List String → String
  | [] => "set()"
  | texts => "\x7b" ++ commas texts ++ "\x7d"

/-- The step of a range is written unless it is one. -/
def rangeText (start stop step : Int) : String :=
  let ends := intText start ++ ", " ++ intText stop
  if step = 1 then "range(" ++ ends ++ ")" else "range(" ++ ends ++ ", " ++ intText step ++ ")"

mutual

/-- The text of a value inside another one. -/
def inner : Value → String
  | null => "None"
  | bool b => if b then "True" else "False"
  | int n => intText n
  | float x => numberLayout.render x
  | str s => Text.quoted s
  | bytes b => Text.quotedBytes b
  | byteArray b => "bytearray(" ++ Text.quotedArray b ++ ")"
  | list xs => "[" ++ commas (inners xs) ++ "]"
  | tuple xs => tupleText (inners xs)
  | range start stop step => rangeText start stop step
  | set _ xs => setText (inners xs)
  | dict entries => "\x7b" ++ commas (entryTexts entries) ++ "\x7d"
  | object o => o.text
  | function _ _ | setMethod _ _ _ | renderer => "<function>"
  | builtin b => b.spelling

/-- The texts of some values inside another one. -/
def inners : List Value → List String
  | [] => []
  | v :: vs => inner v :: inners vs

/-- The text of an entry of a mapping. -/
def entryText : Value × Value → String
  | (k, v) => inner k ++ ": " ++ inner v

/-- The texts of the entries of a mapping. -/
def entryTexts : List (Value × Value) → List String
  | [] => []
  | e :: es => entryText e :: entryTexts es

end

/-- The text of a value on its own. -/
def text : Value → String
  | str s => s
  | v => inner v

/-! ## Long integers -/

/-- Whether an integer has few enough digits. -/
def isShort (n : Int) : Bool := n.natAbs < Nat.pow 10 Error.maxDigits

mutual

/-- Whether all integers in a value have few enough digits. -/
def isWritable : Value → Bool
  | int n => isShort n
  | list xs | tuple xs | set _ xs => areWritable xs
  | range start stop step => isShort start && isShort stop && isShort step
  | dict entries => areWritableEntries entries
  | _ => true

/-- Whether all of some values can be written. -/
def areWritable : List Value → Bool
  | [] => true
  | v :: vs => isWritable v && areWritable vs

/-- Whether an entry of a mapping can be written. -/
def isWritableEntry : Value × Value → Bool
  | (k, v) => isWritable k && isWritable v

/-- Whether all of some entries can be written. -/
def areWritableEntries : List (Value × Value) → Bool
  | [] => true
  | e :: es => isWritableEntry e && areWritableEntries es

end

end Value

end Mustache
