import Mustache.Json.Basic
import Mustache.Table
import Mustache.Error
import Mustache.Decimal.Reading

/-!
# Reading JSON

A reader of JSON that tells where the first fault is. The words for the numbers that are not finite
are allowed; control characters in strings are not. Of members with one name the first has the place
and the last the value.

Strings are texts of characters, which all can be written in UTF-8. Half a character that stands
alone, as an escape by number can give it, is none, and a text with one in a string is refused:
what is done with such data is left open here, and by the statements about data that was read.

Every reading function takes the offset of the text that is left and that text, and gives back the
same after what it read. The functions for documents, items and members count down from a bound.
Each character of the text pays for two steps, so reading never gets to the end of the count.
-/

namespace Mustache.Json

/-- Why reading stopped. -/
inductive Stop
  | fault (reason : Reason) (offset : Nat)
  | digits (n : Nat)
  /-- An escape gives half a character, and no other half goes with it. -/
  | loneHalf
  /-- The count of steps came to its end. -/
  | outOfSteps

/-- What was read, the offset after it, and the text that is left. -/
structure Read (α : Type) where
  result : α
  offset : Nat
  rest : List Char

/-- What was read, with its result changed. -/
def Read.map {α β : Type} (f : α → β) (r : Read α) : Read β := ⟨f r.result, r.offset, r.rest⟩

/-- The characters that may stand between the parts of a document. -/
def isSpace (c : Char) : Bool := c = ' ' || c = '\t' || c = '\n' || c = '\r'

/-- Passes over the space at the start of a text. -/
def skipSpace (offset : Nat) (s : List Char) : Nat × List Char :=
  (offset + (s.takeWhile isSpace).length, s.dropWhile isSpace)

/-! ## Strings -/

/-- The value of a hexadecimal digit. -/
def hexDigit? (c : Char) : Option Nat :=
  if c.isDigit then some (c.toNat - '0'.toNat)
  else if 'a' ≤ c ∧ c ≤ 'f' then some (c.toNat - 'a'.toNat + 10)
  else if 'A' ≤ c ∧ c ≤ 'F' then some (c.toNat - 'A'.toNat + 10)
  else none

/-- The value of four hexadecimal digits. -/
def hex4? (a b c d : Char) : Option Nat := do
  return ((← hexDigit? a) * 16 + (← hexDigit? b)) * 256 + (← hexDigit? c) * 16 + (← hexDigit? d)

/-- The character that an escape by a letter stands for. -/
def letterEscape? : Char → Option Char
  | '"' => some '"'
  | '\\' => some '\\'
  | '/' => some '/'
  | 'b' => some (Char.ofNat 8)
  | 'f' => some (Char.ofNat 12)
  | 'n' => some '\n'
  | 'r' => some '\r'
  | 't' => some '\t'
  | _ => none

/-- Whether a number is the first half of a character written in two escapes. -/
def isHighHalf (n : Nat) : Bool := 0xD800 ≤ n && n ≤ 0xDBFF

/-- Whether a number is the second half. -/
def isLowHalf (n : Nat) : Bool := 0xDC00 ≤ n && n ≤ 0xDFFF

/-- Puts the two halves of a character together. -/
def joinHalves (high low : Nat) : Char :=
  Char.ofNat (0x10000 + (high - 0xD800) * 0x400 + (low - 0xDC00))

/-- Reads the rest of a string, whose opening quote stands at `start`. An escape by number must have
something after it, if only the closing quote. -/
def readString (start : Nat) : Nat → List Char → Except Stop (Read (List Char))
  | _, [] => .error (.fault .unterminatedString start)
  | offset, '"' :: r => .ok ⟨[], offset + 1, r⟩
  | _, ['\\'] => .error (.fault .unterminatedString start)
  | offset, '\\' :: 'u' :: a :: b :: c :: d :: e :: r =>
    match hex4? a b c d with
    | none => .error (.fault .badUnicodeEscape (offset + 1))
    | some n =>
      if isHighHalf n then
        match e, r with
        | '\\', 'u' :: a' :: b' :: c' :: d' :: f :: r' =>
          match hex4? a' b' c' d' with
          | none => .error (.fault .badUnicodeEscape (offset + 7))
          | some m =>
            if isLowHalf m then
              (readString start (offset + 12) (f :: r')).map (·.map (joinHalves n m :: ·))
            else .error .loneHalf
        | _, _ => .error .loneHalf
      else if isLowHalf n then .error .loneHalf
      else (readString start (offset + 6) (e :: r)).map (·.map (Char.ofNat n :: ·))
  | offset, '\\' :: 'u' :: _ => .error (.fault .badUnicodeEscape (offset + 1))
  | offset, '\\' :: c :: r =>
    match letterEscape? c with
    | none => .error (.fault .badEscape offset)
    | some e => (readString start (offset + 2) r).map (·.map (e :: ·))
  | offset, c :: r =>
    if c.toNat < 0x20 then .error (.fault .controlCharacter offset)
    else (readString start (offset + 1) r).map (·.map (c :: ·))

/-! ## Numbers -/

/-- Reads the digits at the start of a text. -/
def readDigits (offset : Nat) (s : List Char) : Read (List Char) :=
  let digits := s.takeWhile Char.isDigit
  ⟨digits, offset + digits.length, s.dropWhile Char.isDigit⟩

/-- Reads a minus sign, if there is one. -/
def readMinus (offset : Nat) : List Char → Read Bool
  | '-' :: r => ⟨true, offset + 1, r⟩
  | s => ⟨false, offset, s⟩

/-- Reads the digits before the point: a zero alone, or digits that start with none. -/
def readWhole (offset : Nat) : List Char → Read (List Char)
  | '0' :: r => ⟨['0'], offset + 1, r⟩
  | s => readDigits offset s

/-- Reads a point and the digits after it, if there is a point with digits after it. -/
def readFraction (offset : Nat) : List Char → Read (List Char)
  | '.' :: c :: r =>
    if c.isDigit then readDigits (offset + 1) (c :: r) else ⟨[], offset, '.' :: c :: r⟩
  | s => ⟨[], offset, s⟩

/-- Reads the sign of an exponent, if there is one. -/
def readSign (offset : Nat) : List Char → Read Bool
  | '+' :: r => ⟨false, offset + 1, r⟩
  | s => readMinus offset s

/-- Reads an exponent, if one is written with digits. -/
def readExponent (offset : Nat) : List Char → Read (Option Int)
  | [] => ⟨none, offset, []⟩
  | e :: r =>
    if e = 'e' || e = 'E' then
      let sign := readSign (offset + 1) r
      let digits := readDigits sign.offset sign.rest
      if digits.result = [] then ⟨none, offset, e :: r⟩
      else digits.map fun ds =>
        some (if sign.result then -(Decimal.natOfDigits ds : Int) else Decimal.natOfDigits ds)
    else ⟨none, offset, e :: r⟩

/-- Reads a number. It is a float if it has a fraction or an exponent. -/
def readNumber (offset : Nat) (s : List Char) : Except Stop (Read Json) :=
  let minus := readMinus offset s
  let whole := readWhole minus.offset minus.rest
  if whole.result = [] then .error (.fault .expectedValue offset)
  else
    let fraction := readFraction whole.offset whole.rest
    let exponent := readExponent fraction.offset fraction.rest
    if fraction.result = [] ∧ exponent.result = none then
      if Error.maxDigits < whole.result.length then .error (.digits whole.result.length)
      else
        let n : Int := Decimal.natOfDigits whole.result
        .ok (exponent.map fun _ => int (if minus.result then -n else n))
    else
      let digits := Decimal.natOfDigits (whole.result ++ fraction.result)
      .ok (exponent.map fun e =>
        float (Decimal.nearest minus.result digits (e.getD 0 - fraction.result.length)))

/-! ## Documents -/

/-- The words that stand for documents. -/
def wordDocuments : List (List Char × Json) :=
  [("null".toList, null), ("true".toList, bool true), ("false".toList, bool false),
    ("NaN".toList, float (0.0 / 0.0)), ("Infinity".toList, float (1.0 / 0.0)),
    ("-Infinity".toList, float (-(1.0 / 0.0)))]

/-- Reads a document that has no parts. -/
def readLeaf (offset : Nat) (s : List Char) : Except Stop (Read Json) :=
  match wordDocuments.find? fun w => w.1.isPrefixOf s with
  | some (word, j) => .ok ⟨j, offset + word.length, s.drop word.length⟩
  | none => readNumber offset s

/-- Reads a colon, with the space around it. -/
def readColon (offset : Nat) (s : List Char) : Except Stop (Nat × List Char) :=
  match skipSpace offset s with
  | (offset, ':' :: r) => .ok (skipSpace (offset + 1) r)
  | (offset, _) => .error (.fault .expectedColon offset)

mutual

/-- Reads a document. -/
def readValue : Nat → Nat → List Char → Except Stop (Read Json)
  | 0, _, _ => .error .outOfSteps
  | _ + 1, offset, [] => .error (.fault .expectedValue offset)
  | steps + 1, offset, c :: r =>
    if c = '"' then (readString offset (offset + 1) r).map (·.map (str ∘ String.ofList))
    else if c = '[' then
      match skipSpace (offset + 1) r with
      | (offset, ']' :: r) => .ok ⟨arr [], offset + 1, r⟩
      | (offset, r) => (readItems steps offset r).map (·.map arr)
    else if c = '{' then
      match skipSpace (offset + 1) r with
      | (offset, '}' :: r) => .ok ⟨obj [], offset + 1, r⟩
      | (offset, r) =>
        (readMembers steps offset r).map (·.map fun ms => obj (Table.ofList ms).entries)
    else readLeaf offset (c :: r)

/-- Reads the items of an array, of which there is at least one. -/
def readItems : Nat → Nat → List Char → Except Stop (Read (List Json))
  | 0, _, _ => .error .outOfSteps
  | steps + 1, offset, s => do
    let first ← readValue steps offset s
    match skipSpace first.offset first.rest with
    | (offset, ']' :: r) => return ⟨[first.result], offset + 1, r⟩
    | (offset, ',' :: r) =>
      let (offset, r) := skipSpace (offset + 1) r
      return (← readItems steps offset r).map (first.result :: ·)
    | (offset, _) => throw (.fault .expectedComma offset)

/-- Reads the members of an object, of which there is at least one. -/
def readMembers : Nat → Nat → List Char → Except Stop (Read (List (String × Json)))
  | 0, _, _ => .error .outOfSteps
  | _ + 1, offset, [] => .error (.fault .expectedName offset)
  | steps + 1, offset, c :: r =>
    if c = '"' then do
      let name ← readString offset (offset + 1) r
      let (after, r) ← readColon name.offset name.rest
      let first ← readValue steps after r
      let entry := (String.ofList name.result, first.result)
      match skipSpace first.offset first.rest with
      | (offset, '}' :: r) => return ⟨[entry], offset + 1, r⟩
      | (offset, ',' :: r) =>
        let (offset, r) := skipSpace (offset + 1) r
        return (← readMembers steps offset r).map (entry :: ·)
      | (offset, _) => throw (.fault .expectedComma offset)
    else .error (.fault .expectedName offset)

end

/-- Reads a text that is one document with space around it. -/
def readChars (s : List Char) : Except Stop Json :=
  if s.head? = some (Char.ofNat 0xFEFF) then .error (.fault .byteOrderMark 0)
  else do
    let (offset, r) := skipSpace 0 s
    let document ← readValue (2 * s.length + 1) offset r
    match skipSpace document.offset document.rest with
    | (_, []) => return document.result
    | (offset, _) => throw (.fault .extraData offset)

/-- Reads a document. -/
def read (text : List Char) : Except Mustache.Error Json :=
  (readChars text).mapError fun
    | .fault reason offset => .json (Error.locate text offset reason)
    | .digits n => .digitLimit n
    | .loneHalf => .loneHalf
    | .outOfSteps => .tooDeep

end Mustache.Json
