import Mustache.Template.Node
import Mustache.Text.Slice

/-!
# Drafts

Trees of tokens that were put together by hand, without a template being read. Their offsets may be
anything, a section may lack its children or its close, and their kinds are any words. `nodes` reads
a draft against the template that it is meant for: tokens of unknown kinds show nothing and are
dropped, and offsets become places in the template.
-/

namespace Mustache

/-- A token put together by hand. -/
inductive Draft
  | mk (kind : String) (value : String) (start stop : Int) (children : Option (List Draft))
      (close : Option Int)

namespace Draft

mutual

/-- The node that a draft stands for in a template of the given length. -/
def node? (length : Nat) : Draft → Option Node
  | mk label value start stop children close =>
    (Token.Kind.ofLabel? label).map fun kind =>
      let token : Token := ⟨kind, value, Text.place length start, Text.place length stop⟩
      if kind.opensSection then
        .block token (childNodes length children) ((close.map (Text.place length)).getD length)
      else .leaf token

/-- The nodes of a draft's children; there are none if none are given. -/
def childNodes (length : Nat) : Option (List Draft) → List Node
  | none => []
  | some drafts => nodes length drafts

/-- The nodes that some drafts stand for. -/
def nodes (length : Nat) : List Draft → List Node
  | [] => []
  | d :: ds => (node? length d).toList ++ nodes length ds

end

end Draft

end Mustache
