/-!
# Faults of JSON texts

What is wrong with a JSON text, and where: the place is an offset in characters, together with the
line and the column that it has.
-/

namespace Mustache

/-- What is wrong with a JSON text. -/
inductive Json.Reason
  | byteOrderMark
  | expectedValue
  | expectedName
  | expectedColon
  | expectedComma
  | extraData
  | unterminatedString
  | controlCharacter
  | badEscape
  | badUnicodeEscape
  deriving DecidableEq, Repr

/-- The words for a fault. -/
def Json.Reason.words : Json.Reason → String
  | byteOrderMark => "Unexpected UTF-8 BOM (decode using utf-8-sig)"
  | expectedValue => "Expecting value"
  | expectedName => "Expecting property name enclosed in double quotes"
  | expectedColon => "Expecting ':' delimiter"
  | expectedComma => "Expecting ',' delimiter"
  | extraData => "Extra data"
  | unterminatedString => "Unterminated string starting at"
  | controlCharacter => "Invalid control character at"
  | badEscape => "Invalid \\escape"
  | badUnicodeEscape => "Invalid \\uXXXX escape"

/-- A fault and its place. -/
structure Json.Error where
  reason : Json.Reason
  line : Nat
  column : Nat
  offset : Nat
  deriving DecidableEq, Repr

namespace Json.Error

/-- The fault at an offset of a text. Lines and columns count from one. -/
def locate (text : List Char) (offset : Nat) (reason : Json.Reason) : Json.Error :=
  let before := text.take offset
  let lastLine := before.reverse.takeWhile (· != '\n')
  ⟨reason, before.count '\n' + 1, lastLine.length + 1, offset⟩

/-- The message of a fault. -/
def message (e : Json.Error) : String :=
  e.reason.words ++ ": line " ++ toString e.line ++ " column " ++ toString e.column ++ " (char " ++
    toString e.offset ++ ")"

end Json.Error

end Mustache
