import Mustache.Text.Utf8

/-!
# Encodings

The encodings that bytes can be read in, each with the names that it goes by. A name may be written
in either case, and what stands between its letters and digits does not matter.

Decoding stops at the first bytes that stand for nothing; `mend` puts something else in their place
and goes on.
-/

namespace Mustache.Text

/-- The encodings. -/
inductive Encoding
  | utf8
  /-- One byte for each of the first 128 characters. -/
  | ascii
  /-- One byte for each of the first 256 characters. -/
  | latin1
  deriving DecidableEq, Repr

namespace Encoding

/-- The names of an encoding. -/
def names : Encoding → List String
  | utf8 => ["utf_8", "utf8", "u8", "utf", "utf8_ucs2", "utf8_ucs4", "cp65001"]
  | ascii => ["ascii", "us_ascii", "646", "ansi_x3_4_1968", "ansi_x3_4_1986", "cp367", "csascii",
      "ibm367", "iso646_us", "iso_646_irv_1991", "iso_ir_6", "us"]
  | latin1 => ["latin_1", "latin1", "iso_8859_1", "iso8859_1", "8859", "cp819", "csisolatin1",
      "ibm819", "iso8859", "iso_8859_1_1987", "iso_ir_100", "l1", "latin"]

/-- A name with one underscore in place of whatever stands between its letters and digits. -/
def plainName (name : String) : String :=
  let words := (name.toList.splitBy fun a b => a.isAlphanum == b.isAlphanum).filter fun w =>
    w.any Char.isAlphanum
  "_".intercalate (words.map fun w => String.ofList (w.map Char.toLower))

/-- The encoding that goes by a name. -/
def ofName? (name : String) : Option Encoding :=
  [utf8, ascii, latin1].find? fun e => e.names.contains (plainName name)

/-- Decodes bytes of which each is a character of its own, those from a bound on being none. -/
def decodeBelow (bound offset : Nat) : List UInt8 → Except Utf8.Fault (List Char)
  | [] => .ok []
  | b :: r =>
    if b.toNat < bound then (decodeBelow bound (offset + 1) r).map (Char.ofNat b.toNat :: ·)
    else .error ⟨b, offset, 1, .beyondAscii⟩

/-- Decodes bytes, or reports the first fault. -/
def decode : Encoding → List UInt8 → Except Utf8.Fault (List Char)
  | utf8, bytes => Utf8.decode bytes
  | ascii, bytes => decodeBelow 0x80 0 bytes
  | latin1, bytes => decodeBelow 0x100 0 bytes

/-- Decodes bytes with something else in the place of those that stand for nothing, going over as
many faults as it is told. -/
def mend (e : Encoding) (replacement : List UInt8 → List Char) : Nat → List UInt8 → List Char
  | 0, _ => []
  | faults + 1, bytes =>
    match e.decode bytes with
    | .ok s => s
    | .error fault =>
      let sound := (e.decode (bytes.take fault.start)).toOption.getD []
      let rest := bytes.drop fault.start
      sound ++ replacement (rest.take fault.count) ++
        mend e replacement faults (rest.drop fault.count)

end Encoding

end Mustache.Text
