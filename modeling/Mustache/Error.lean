import Mustache.Template.Error
import Mustache.File.Error
import Mustache.Json.Error
import Mustache.Text.Utf8

/-!
# Errors

Every way in which rendering a template or a page can fail.
-/

namespace Mustache

/-- Why an operation failed. -/
inductive Error
  | template (e : TemplateError)
  /-- A value was used in a way that its type does not allow, or called with arguments that do not
  fit. -/
  | mismatch
  /-- A function or a loader failed with a message of its own. -/
  | raised (message : String)
  /-- A value has no member of the name, or no operation of the kind, that is asked for. -/
  | noMember
  /-- A parameter of the name is not there. -/
  | unbound
  /-- There is no item left to take out of a set. -/
  | emptySet
  /-- A number has more digits than are read. -/
  | digitLimit (digits : Nat)
  /-- A number has more digits than are written. -/
  | unwritable
  /-- There is no encoding, or no way of treating its faults, under the name. -/
  | unknownCodec
  /-- A number is too large for a size or a place. -/
  | tooLarge
  /-- Partials, functions or re-rendered sections are nested too deeply. -/
  | tooDeep
  | file (e : File.Error)
  | encoding (e : Text.Utf8.Fault)
  | json (e : Json.Error)
  /-- The data has half a character in a string, as no text here can. -/
  | loneHalf
  /-- The data file at a path holds something else than an object. -/
  | notAnObject (path : String)
  /-- A help text has a percent sign that starts no placeholder; this is the character at fault. -/
  | placeholder (c : Char) (index : Nat)
  /-- The program ends at once, with an exit code. -/
  | exit (code : Nat)

namespace Error

/-- The message of a decoding fault. -/
def encodingMessage (e : Text.Utf8.Fault) : String :=
  let reason := match e.reason with
    | .badStart => "invalid start byte"
    | .badContinuation => "invalid continuation byte"
    | .cutOff => "unexpected end of data"
    | .beyondAscii => "ordinal not in range(128)"
  let codec := if e.reason = .beyondAscii then "'ascii'" else "'utf-8'"
  let place :=
    if e.count = 1 then
      "byte 0x" ++ String.ofList (Text.hex 2 e.byte.toNat) ++ " in position " ++ toString e.start
    else
      "bytes in position " ++ toString e.start ++ "-" ++ toString (e.start + e.count - 1)
  codec ++ " codec can't decode " ++ place ++ ": " ++ reason

/-- The message of an error. -/
def message : Error → String
  | template e => e.message
  | mismatch => "value cannot be used this way"
  | raised message => message
  | noMember => "no such member"
  | unbound => "no such parameter"
  | emptySet => "'pop from an empty set'"
  | digitLimit digits =>
    limitMessage (": value has " ++ toString digits ++ " digits")
  | unwritable => limitMessage ""
  | unknownCodec => "no such encoding"
  | tooLarge => "number too large"
  | tooDeep => "nested too deeply"
  | file e => e.message
  | encoding e => encodingMessage e
  | json e => e.message
  | loneHalf => "half a character"
  | notAnObject path => "App data must be a JSON object: " ++ path
  | placeholder c index =>
    "unsupported format character '" ++ String.singleton c ++ "' (0x" ++
      String.ofList (Nat.toDigits 16 c.toNat) ++ ") at index " ++ toString index
  | exit code => toString code

end Error

end Mustache
