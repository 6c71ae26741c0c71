import Mustache.Render.Call

/-!
# Rendering nodes

What each node of a tree puts out. A variable puts out its value's text; a section puts out what it
holds, once for each item of a sequence, once for another true value, and not at all for a false
one. A callable is handed the section's own source and decides itself.

The functions follow the tree. Calls and partials go through `Deeper`.
-/

namespace Mustache

variable {σ : Type}

namespace Render

/-- What a name stands for in a scope. A callable that needs no arguments is called, and what it
gives is what is remembered. -/
def lookup (deeper : Deeper σ) (scope : Scope) (name : String) : Render σ Value := do
  match (← get).memo.find? name with
  | some v => return v
  | none =>
    let found ← ofExcept (scope.resolve name)
    let v ← if found.isCallable && found.required == 0 then deeper.apply scope found [] else
      pure found
    remember name v
    return v

/-- The text that a value is put out as: none for null. -/
def shown : Value → Except Error String
  | .null => .ok ""
  | v => v.written

/-- The text of a variable. A callable is called with the current view. -/
def variableText (deeper : Deeper σ) (scope : Scope) (name : String) : Render σ String := do
  let v ← lookup deeper scope name
  let v ← if v.isCallable then deeper.apply scope v [scope.view] else pure v
  ofCurrent shown v

/-- What a section hands to its callable, by the number of arguments that it needs. -/
def sectionArguments (scope : Scope) (source : String) : Nat → List Value
  | 1 => [.str source]
  | 2 => [.str source, .renderer]
  | _ => [scope.view, .str source, .renderer]

/-- The text of a template between two places. -/
def source (template : String) (start stop : Nat) : String :=
  String.ofList ((template.toList.drop start).take (stop - start))

end Render

namespace Node

open Render

/-- What a leaf puts out. -/
def renderLeaf (deeper : Deeper σ) (scope : Scope) (t : Token) :
    Render σ String :=
  match t.kind with
  | .text => pure t.value
  | .nameTag => do
    let text ← variableText deeper scope t.value
    return deeper.escape (← get).writer text
  | .unescapedTag => variableText deeper scope t.value
  | .partialTag => deeper.expand scope t.value
  | _ => pure ""

mutual

/-- What a node puts out. -/
def render (deeper : Deeper σ) (template : String) (scope : Scope) :
    Node → Render σ String
  | leaf t => renderLeaf deeper scope t
  | block t children close => do
    let v ← lookup deeper scope t.value
    let v ← current v
    if t.kind = .invertedTag then
      if v.truth then pure "" else renderAll deeper template scope children
    else
      match v.kind with
      | .null => pure ""
      | .scalar => if v.truth then renderAll deeper template scope children else pure ""
      | .mapping =>
        if v.truth then inChild (renderAll deeper template (scope.push v) children)
        else pure ""
      | .sequence =>
        joinItems
          (fun item => inChild (renderAll deeper template (scope.push item) children)) v
      | .callable => do
        let args := sectionArguments scope (source template t.stop close) v.required
        let result ← deeper.apply scope v args
        ofCurrent shown result

/-- What some nodes put out, joined. -/
def renderAll (deeper : Deeper σ) (template : String) (scope : Scope) :
    List Node → Render σ String
  | [] => pure ""
  | n :: ns => do
    let first ← n.render deeper template scope
    let others ← renderAll deeper template scope ns
    return first ++ others

end

end Node

end Mustache
