import Mustache.Template.Scan
import Mustache.Template.Line
import Mustache.Template.Node

/-!
# Parsing

From the text of a template to its tree: scan it, strip standalone lines, join what is left of
adjacent texts, and nest. Faults of single tags are found before faults of sections, wherever they
stand, because the whole template is scanned first.
-/

namespace Mustache.Template

/-- The tokens in runs: adjacent texts are in one run, and every other token is a run of its own. -/
def runs : List Token → List (List Token)
  | [] => []
  | t :: ts =>
    match runs ts with
    | (u :: us) :: rest =>
      if t.kind = .text ∧ u.kind = .text then (t :: u :: us) :: rest
      else [t] :: (u :: us) :: rest
    | rest => [t] :: rest

/-- The token that a run stands for: it reaches from the start of the first to the stop of the last
one. -/
def joinRun : List Token → Option Token
  | [] => none
  | t :: ts =>
    some { t with
      value := String.join ((t :: ts).map (·.value))
      stop := ((t :: ts).getLast (List.cons_ne_nil t ts)).stop }

/-- Joins adjacent texts. -/
def squash (tokens : List Token) : List Token := (runs tokens).filterMap joinRun

/-- The tokens of a template without the blank texts of standalone lines, a token for each
character that stands outside tags. -/
def pieces (d : Delimiters) (template : String) : Except TemplateError (List Token) :=
  (scan d 0 0 template.toList).map sweep

/-- The tokens of a template before they are nested. -/
def tokens (d : Delimiters) (template : String) : Except TemplateError (List Token) :=
  (pieces d template).map squash

/-- The tree of a template read with the given delimiters. -/
def parse (d : Delimiters) (template : String) : Except TemplateError (List Node) := do
  Node.nest (← tokens d template)

/-- The tree of a template, where the delimiters themselves may be at fault. -/
def parseWith (spec : Delimiters.Spec) (template : String) : Except TemplateError (List Node) := do
  parse (← spec.delimiters) template

end Mustache.Template
