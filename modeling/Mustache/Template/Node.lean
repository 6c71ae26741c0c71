import Mustache.Template.Error
import Mustache.Template.Token

/-!
# Nodes

The tree of a template. A section holds what stands between its two tags, and remembers where its
closing tag starts, so that the text it was written as can be recovered; every other token is a
leaf. Closing tags have no node of their own.

`nest` builds the tree of a list of tokens. It refuses the first closing tag that does not match,
and otherwise a section that is still open at the end, the innermost one.
-/

namespace Mustache

/-- A node of a template's tree. -/
inductive Node
  | leaf (token : Token)
  /-- A section, inverted or not: its opening tag, what it holds, and where its closing tag
  starts. -/
  | block (opening : Token) (children : List Node) (close : Nat)

namespace Node

/-- The token of a node: for a section its opening tag. -/
def token : Node → Token
  | leaf t => t
  | block t _ _ => t

/-- A section that is being read, and the nodes before it in the section around it, the last one
first. -/
structure Open where
  tag : Token
  before : List Node

/-- Nests the tokens that are left, given the nodes read so far in the innermost open section, the
last one first, and the open sections from the inside out. -/
def nestFrom : List Node → List Open → List Token → Except TemplateError (List Node)
  | done, [], [] => .ok done.reverse
  | _, innermost :: _, [] => .error (.unclosedSection innermost.tag.value)
  | done, around, t :: ts =>
    if t.kind.opensSection then nestFrom [] (⟨t, done⟩ :: around) ts
    else if t.kind = .closeTag then
      match around with
      | [] => .error (.unopenedSection t.value)
      | innermost :: outer =>
        if innermost.tag.value = t.value then
          nestFrom (block innermost.tag done.reverse t.start :: innermost.before) outer ts
        else .error (.unclosedSection innermost.tag.value)
    else nestFrom (leaf t :: done) around ts

/-- The tree of a list of tokens. -/
def nest (tokens : List Token) : Except TemplateError (List Node) := nestFrom [] [] tokens

end Node

end Mustache
