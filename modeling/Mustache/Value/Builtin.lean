import Mustache.Value.Order
import Mustache.Value.Written
import Mustache.Decimal.Integer
import Mustache.Text.Encoding

/-!
# Callables without definition

What the callables do that come without a signature and a body: conversion to an integer, a text or
a mapping, the least of some values, and the number of items.
-/

namespace Mustache

namespace Value

/-- The number of items of a value. -/
def measure (v : Value) : Except Error Value :=
  match v.size? with
  | none => .error .mismatch
  | some n => if Range.sizeLimit ≤ n then .error .tooLarge else .ok (.int n)

/-- What a value gives when it is gone through: items, keys, characters or bytes. -/
def elements? : Value → Option (List Value)
  | str s => some (s.toList.map fun c => str (String.singleton c))
  | bytes b | byteArray b => some (b.map fun n => int n.toNat)
  | list xs | tuple xs | set _ xs => some xs
  | range start stop step => some ((Range.items start stop step).map int)
  | dict entries => some (entries.map (·.1))
  | _ => none

/-! ## Integers -/

/-- A double without its fraction. -/
def truncated (x : Float) : Except Error Value :=
  match Decimal.Real.ofFloat x with
  | .zero _ => .ok (int 0)
  | .finite negative b =>
    let magnitude : Nat :=
      b.significand * Nat.pow 2 b.exponent.toNat / Nat.pow 2 (-b.exponent).toNat
    .ok (int (if negative then -(magnitude : Int) else magnitude))
  | .infinite _ => .error .tooLarge
  | .notANumber => .error (.raised "cannot convert float NaN to integer")

/-- A text read as an integer; a fault quotes the text, which `shown` is, up to a length. -/
def readInteger (base : Nat) (text : List Char) (shown : String) : Except Error Value :=
  match Decimal.IntText.read Error.maxDigits base text with
  | .value n => .ok (int n)
  | .tooLong digits => .error (.digitLimit digits)
  | .malformed =>
    .error (.raised ("invalid literal for int() with base " ++ toString base ++ ": " ++
      String.ofList (shown.toList.take 200)))

/-- A text or a byte string read as an integer. -/
def integerIn (base : Nat) : Value → Except Error Value
  | str s => readInteger base (Decimal.toAscii s.toList) (Text.quoted s)
  | bytes b | byteArray b =>
    readInteger base (b.map fun n => Char.ofNat n.toNat) (Text.quotedBytes (b.take 200))
  | _ => .error .mismatch

/-- The integer that a value converts to. -/
def toInteger : Value → Except Error Value
  | bool b => .ok (int (if b then 1 else 0))
  | int n => .ok (int n)
  | float x => truncated x
  | v => integerIn 10 v

/-- The integer that a text is in a base: none, which is written as zero, or from two to
thirty-six. -/
def toIntegerIn (base : Int) (v : Value) : Except Error Value :=
  if base = 0 ∨ 2 ≤ base ∧ base ≤ 36 then integerIn base.toNat v
  else .error (.raised "int() base must be >= 2 and <= 36, or 0")

/-! ## Mappings -/

/-- The entry that the item at a place stands for: it must give two values. -/
def toEntry (place : Nat) (item : Value) : Except Error (Value × Value) :=
  match item.size? with
  | none => .error .mismatch
  | some n =>
    if Range.sizeLimit ≤ n then .error .tooLarge
    else if n ≠ 2 then
      .error (.raised ("dictionary update sequence element #" ++ toString place ++ " has length " ++
        toString n ++ "; 2 is required"))
    else
      match item.elements? with
      | some [key, v] => if key.canBeKey then .ok (key, v) else .error .mismatch
      | _ => .error .mismatch

/-- The entries that some items stand for, the first of them at a place. -/
def toEntries (place : Nat) : List Value → Except Error (List (Value × Value))
  | [] => .ok []
  | item :: items => do
    let entry ← toEntry place item
    return entry :: (← toEntries (place + 1) items)

/-- The mapping that a value converts to. An integer is no entry, so a range has none unless it is
empty. -/
def toMapping : Value → Except Error Value
  | dict entries => .ok (dict entries)
  | range start stop step =>
    if Range.size start stop step = 0 then .ok (dict []) else .error .mismatch
  | v =>
    match v.elements? with
    | none => .error .mismatch
    | some items => dictOf <$> toEntries 0 items

/-- The least of what a value gives when it is gone through. -/
def leastElement (v : Value) : Except Error Value :=
  match v.elements? with
  | none => .error .mismatch
  | some [] => .error (.raised "min() arg is an empty sequence")
  | some (item :: items) => least item items

/-! ## Texts -/

/-- A byte by its number, as it stands in quoted byte strings. -/
def spelledByte (b : UInt8) : List Char := '\\' :: 'x' :: Text.hex 2 b.toNat

/-- The text that a byte string stands for in a named encoding. What is done about bytes that stand
for nothing has a name too, which does not matter where there are none. -/
def decoded (encoding onFault : String) (v : Value) : Except Error Value :=
  if (encoding ++ onFault).toList.contains (Char.ofNat 0) then
    .error (.raised "embedded null character")
  else
    match v.byteString? with
    | none => .error .mismatch
    | some [] => .ok (str "")
    | some b =>
      match Text.Encoding.ofName? encoding with
      | none => .error .unknownCodec
      | some e =>
        let mended (f : List UInt8 → List Char) : Except Error Value :=
          .ok (str (String.ofList (e.mend f b.length b)))
        match e.decode b, onFault with
        | .ok s, _ => .ok (str (String.ofList s))
        | .error fault, "strict" => .error (.encoding fault)
        | .error _, "ignore" => mended fun _ => []
        | .error _, "replace" => mended fun _ => [Char.ofNat 0xFFFD]
        | .error _, "backslashreplace" => mended fun bytes => bytes.flatMap spelledByte
        | .error _, _ => .error .unknownCodec

end Value

/-- What a callable without definition gives. -/
def Builtin.apply : Builtin → List Value → Except Error Value
  | .integer, [] => .ok (.int 0)
  | .integer, [v] => v.toInteger
  | .integer, [v, .int base] => v.toIntegerIn base
  | .integer, [v, .bool base] => v.toIntegerIn (if base then 1 else 0)
  | .text, [] => .ok (.str "")
  | .text, [v] => .str <$> v.written
  | .text, [v, .str encoding] => v.decoded encoding "strict"
  | .text, [v, .str encoding, .str onFault] => v.decoded encoding onFault
  | .mapping, [] => .ok (.dict [])
  | .mapping, [v] => v.toMapping
  | .least, [v] => v.leastElement
  | .least, v :: w :: vs => v.least (w :: vs)
  | .size, [v] => v.measure
  | _, _ => .error .mismatch

end Mustache
