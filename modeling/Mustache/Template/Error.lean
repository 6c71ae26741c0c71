import Mustache.Value.Text

/-!
# Faults of templates

The four ways in which a template, or the delimiters to read it with, can be wrong.
-/

namespace Mustache

/-- What is wrong with a template. -/
inductive TemplateError
  /-- The delimiters are not two distinct texts; these are the items given. -/
  | malformedDelimiters (items : List Value)
  /-- A tag has no end, which is known where the text ends. -/
  | unclosedTag (position : Nat)
  /-- A closing tag where no section is open. -/
  | unopenedSection (name : String)
  /-- A section that is not closed, or closed by another name. -/
  | unclosedSection (name : String)

/-- The message of a fault. Where an item of the delimiters cannot be written, that is told in its
place. -/
def TemplateError.message : TemplateError → String
  | malformedDelimiters items =>
    if Value.areWritable items then "Invalid tags: " ++ " ".intercalate (items.map Value.text)
    else Error.limitMessage ""
  | unclosedTag position => "Unclosed tag at " ++ toString position
  | unopenedSection name => "Unopened section: " ++ name
  | unclosedSection name => "Unclosed section: " ++ name

end Mustache
