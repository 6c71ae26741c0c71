import Mustache.Pattern
import Mustache.Text.Slice
import Mustache.Error

/-!
# Scanners

A cursor over a text that is moved by patterns. Taking a pattern moves past its match at the cursor;
skipping to a pattern moves to its first match or, failing that, to the end. The cursor may be put
anywhere, also outside the text; patterns are then tried from the nearer end, unless it is out of
all reach.
-/

namespace Mustache

/-- A text and a place in it. -/
structure Scanner where
  text : List Char
  position : Int

namespace Scanner

/-- A scanner at the start of a text. -/
def ofText (text : List Char) : Scanner := ⟨text, 0⟩

/-- Whether nothing is left. -/
def atEnd (s : Scanner) : Bool := s.text.length ≤ s.position

/-- Where patterns are tried. -/
def cursor (s : Scanner) : Nat := min s.position.toNat s.text.length

/-- What is left of the text. -/
def rest (s : Scanner) : List Char := s.text.drop s.cursor

/-- The match of a pattern at the cursor, and the scanner after it. -/
def take (s : Scanner) (p : Pattern) : List Char × Scanner :=
  match p.length? s.rest with
  | none => ([], s)
  | some n => (s.rest.take n, { s with position := (s.cursor + n : Nat) })

/-- The text up to the first match of a pattern, and the scanner before it. -/
def skipTo (s : Scanner) (p : Pattern) : List Char × Scanner :=
  let stop : Int := (s.cursor + p.offset s.rest : Nat)
  (Text.slice s.text s.position (some stop), { s with position := stop })

/-- The scanner with its cursor put elsewhere. -/
def putAt (s : Scanner) (position : Int) : Scanner := { s with position }

/-- Whether the cursor is where patterns can still be tried. -/
def inReach (s : Scanner) : Bool :=
  -(Range.sizeLimit : Int) ≤ s.position && s.position < Range.sizeLimit

/-- What can be done with a scanner. -/
inductive Move
  | putAt (position : Int)
  | take (p : Pattern)
  | skipTo (p : Pattern)

/-- What a move gives, and the scanner after it. Patterns cannot be tried where the cursor is out of
reach. -/
def move (s : Scanner) : Move → Except Error (Option (List Char) × Scanner)
  | .putAt position => .ok (none, s.putAt position)
  | .take p =>
    if s.inReach then .ok (some (s.take p).1, (s.take p).2) else .error .tooLarge
  | .skipTo p =>
    if s.inReach then .ok (some (s.skipTo p).1, (s.skipTo p).2) else .error .tooLarge

end Scanner

end Mustache
