import Mustache.Template.Error
import Mustache.Pattern

/-!
# Delimiters

The two texts between which tags stand. They are neither empty nor the same, which the type
`Delimiters` keeps. They are given as one text of two words or as a sequence of two texts, the
latter allowing blank characters in them; `Delimiters.Spec` is what may be given and
`Spec.delimiters` what it stands for, if anything.
-/

namespace Mustache

/-- A pair of delimiters. -/
structure Delimiters where
  opening : List Char
  closing : List Char
  opening_ne_nil : opening ≠ []
  closing_ne_nil : closing ≠ []
  distinct : opening ≠ closing
  deriving DecidableEq

namespace Delimiters

/-- Two braces on either side. -/
def braces : Delimiters where
  opening := ['{', '{']
  closing := ['}', '}']
  opening_ne_nil := by decide
  closing_ne_nil := by decide
  distinct := by decide

instance : Inhabited Delimiters := ⟨braces⟩

/-- The delimiters that a sequence of values stands for. -/
def ofItems : List Value → Except TemplateError Delimiters
  | [.str opening, .str closing] =>
    if h : opening.toList ≠ [] ∧ closing.toList ≠ [] ∧ opening.toList ≠ closing.toList then
      .ok ⟨opening.toList, closing.toList, h.1, h.2.1, h.2.2⟩
    else .error (.malformedDelimiters [.str opening, .str closing])
  | items => .error (.malformedDelimiters items)

/-- The words of a text as a sequence of values; a blank text has one word, the empty one. -/
def wordItems (s : List Char) : List Value :=
  match Text.words s with
  | [] => [.str ""]
  | ws => ws.map fun w => .str (String.ofList w)

/-- The delimiters that a text of two words stands for. -/
def ofText (s : List Char) : Except TemplateError Delimiters := ofItems (wordItems s)

/-- What delimiters may be given as. -/
inductive Spec
  | text (s : String)
  | items (vs : List Value)

/-- The delimiters that are meant. -/
def Spec.delimiters : Spec → Except TemplateError Delimiters
  | text s => ofText s.toList
  | items vs => ofItems vs

/-- Two braces on either side. -/
def Spec.braces : Spec := .items [.str "\x7b\x7b", .str "\x7d\x7d"]

instance : Inhabited Spec := ⟨Spec.braces⟩

/-- The start of a tag. -/
def start (d : Delimiters) : Pattern := .thenBlanks d.opening

/-- The end of a tag. -/
def stop (d : Delimiters) : Pattern := .blanksThen d.closing

/-- The end of a tag that started with a brace of its own. -/
def braceStop (d : Delimiters) : Pattern := .blanksThen ('}' :: d.closing)

theorem delimiters_braces : Spec.braces.delimiters = .ok braces := rfl

end Delimiters

end Mustache
