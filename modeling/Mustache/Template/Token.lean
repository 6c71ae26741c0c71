import Mustache.Text.Blank

/-!
# Tokens

The pieces of a template: texts and tags, each with the place where it stands. Places are offsets
counted in characters; a token reaches from its start up to its stop, the stop excluded.
-/

namespace Mustache

/-- What a piece of a template is. -/
inductive Token.Kind
  | text
  /-- A name whose value is put in escaped. -/
  | nameTag
  /-- A name whose value is put in as it is. -/
  | unescapedTag
  | sectionTag
  | invertedTag
  | closeTag
  | partialTag
  | delimiterTag
  | commentTag
  deriving DecidableEq, Repr

namespace Token.Kind

/-- The word or sign for a kind. -/
def label : Token.Kind → String
  | text => "text"
  | nameTag => "name"
  | unescapedTag => "&"
  | sectionTag => "#"
  | invertedTag => "^"
  | closeTag => "/"
  | partialTag => ">"
  | delimiterTag => "="
  | commentTag => "!"

/-- The kind that a word or sign stands for. -/
def ofLabel? (label : String) : Option Token.Kind :=
  [text, nameTag, unescapedTag, sectionTag, invertedTag, closeTag, partialTag, delimiterTag,
    commentTag].find? fun k => k.label == label

theorem ofLabel?_label (k : Token.Kind) : ofLabel? k.label = some k := by
  cases k <;> rfl

/-- Whether tags of a kind order the template and show nothing themselves. -/
def isStructural : Token.Kind → Bool
  | text | nameTag | unescapedTag => false
  | _ => true

/-- Whether tags of a kind open a section. -/
def opensSection : Token.Kind → Bool
  | sectionTag | invertedTag => true
  | _ => false

end Token.Kind

/-- A piece of a template. -/
structure Token where
  kind : Token.Kind
  value : String
  start : Nat
  stop : Nat
  deriving DecidableEq, Repr

namespace Token

/-- The text token of one character. -/
def ofChar (c : Char) (start : Nat) : Token := ⟨.text, String.singleton c, start, start + 1⟩

/-- Whether a token is a text of blank characters only. -/
def isBlank (t : Token) : Bool := t.kind == .text && t.value.toList.all Text.isBlank

/-- Whether a token shows something: a text that is not blank, or a variable. -/
def isVisible (t : Token) : Bool := !t.kind.isStructural && !t.isBlank

/-- Whether a token ends a line. -/
def endsLine (t : Token) : Bool := t.kind == .text && t.value == "\n"

end Token

end Mustache
