import Mustache.Delimiters
import Mustache.Template.Token

/-!
# Scanning

A template is read from left to right into texts of one character and tags. Where the opening
delimiter stands, a tag starts; everything else is text. After the opening delimiter may stand a
sigil that tells the kind of the tag; the tag's value ends where the first match of its end begins,
so it has no blank characters at either end. A tag that sets the delimiters changes them for what
follows it.

`scan` counts down the characters of the tag that was read last, so that it goes through the
template one character at a time.
-/

namespace Mustache

/-- The characters that tell the kind of a tag. -/
def sigils : List Char := ['#', '^', '/', '>', '{', '&', '=', '!']

/-- The kind of tag that a sigil stands for; a brace stands for a variable that is not escaped. -/
def Token.Kind.ofSigil : Option Char → Token.Kind
  | some '#' => sectionTag
  | some '^' => invertedTag
  | some '/' => closeTag
  | some '>' => partialTag
  | some '{' => unescapedTag
  | some '&' => unescapedTag
  | some '=' => delimiterTag
  | some '!' => commentTag
  | _ => nameTag

/-- A sigil at the start of a text, and the rest. -/
def splitSigil : List Char → Option Char × List Char
  | [] => (none, [])
  | c :: r => if sigils.contains c then (some c, r) else (none, c :: r)

/-- Where the value of a tag ends and where the tag's end begins, as offsets in the text that starts
with the value. Between the two stands the sign that closes a tag with an equals sign or a brace of
its own. -/
def valueSpan (d : Delimiters) (sigil : Option Char) (s : List Char) : Nat × Nat :=
  let closedBy (valueEnd sign : Pattern) : Nat × Nat :=
    let n := valueEnd.offset s
    let m := n + sign.width (s.drop n)
    (n, m + d.stop.offset (s.drop m))
  match sigil with
  | some '=' => closedBy (.blanksThen ['=']) (.blanksThen ['='])
  | some '{' => closedBy d.braceStop (.blanksThen ['}'])
  | _ => (d.stop.offset s, d.stop.offset s)

/-- A tag as it was read. -/
structure Tag where
  kind : Token.Kind
  value : List Char
  length : Nat
  deriving DecidableEq, Repr

/-- Reads the tag at the start of a text, unless it has no end. -/
def Tag.read? (d : Delimiters) (s : List Char) : Option Tag :=
  let opening := d.start.width s
  let (sigil, body) := splitSigil (s.drop opening)
  let blanks := Text.blankRun body
  let value := body.drop blanks
  let (valueEnd, stop) := valueSpan d sigil value
  (d.stop.length? (value.drop stop)).map fun n =>
    ⟨Token.Kind.ofSigil sigil, value.take valueEnd,
      opening + sigil.toList.length + blanks + stop + n⟩

/-- The delimiters that are in force after a tag. -/
def Tag.delimiters (t : Tag) (d : Delimiters) : Except TemplateError Delimiters :=
  if t.kind = .delimiterTag then Delimiters.ofText t.value else .ok d

/-- The token of a tag that stands at an offset. -/
def Tag.token (t : Tag) (start : Nat) : Token :=
  ⟨t.kind, String.ofList t.value, start, start + t.length⟩

/-- The tokens of the rest of a template, which starts at the offset `position`. Its first `inTag`
characters belong to the tag read last. -/
def scan (d : Delimiters) (position : Nat) : Nat → List Char → Except TemplateError (List Token)
  | _, [] => .ok []
  | inTag + 1, _ :: r => scan d (position + 1) inTag r
  | 0, c :: r =>
    if d.opening.isPrefixOf (c :: r) then
      match Tag.read? d (c :: r) with
      | none => .error (.unclosedTag (position + (c :: r).length))
      | some tag => do
        let d' ← tag.delimiters d
        let tokens ← scan d' (position + 1) (tag.length - 1) r
        return tag.token position :: tokens
    else do
      let tokens ← scan d (position + 1) 0 r
      return Token.ofChar c position :: tokens

/-! ## Passing over characters -/

theorem scan_skip (d : Delimiters) (position n : Nat) (s : List Char) (h : n ≤ s.length) :
    scan d position n s = scan d (position + n) 0 (s.drop n) := by
  induction n generalizing position s with
  | zero => rfl
  | succ n ih =>
    cases s with
    | nil => simp at h
    | cons c r =>
      rw [scan, ih (position + 1) r (by simpa using h), List.drop_succ_cons]
      congr 1
      omega

end Mustache
