import Mustache.Render.Node

/-!
# Levels of rendering

Partials are rendered inside templates, functions are called inside functions, and the helper that a
section hands to its callable renders templates inside both. Each goes one level deeper, and there
is a limit to the levels: `deeper settings n` is what can be reached with `n` levels left. An
endless chain of partials or calls so ends in the error `tooDeep`. What calls nothing itself can be
called on every level.
-/

namespace Mustache

namespace Render

/-- Takes a value that is no text for a template. It is one only if it can be a key, for templates
are kept under what they are, and if it is empty; whether it is, is asked once the delimiters are
known to be sound. -/
def acceptBlank (settings : Settings) (v : Value) : Render Writer Unit := do
  let w := (← get).writer
  if !v.canBeKey then throw .mismatch
  else if w.knowsBlank v then return
  else
    match settings.delimiters.delimiters with
    | .error e => throw (.template e)
    | .ok _ =>
      match ← ofExcept v.measure with
      | .int 0 => modify fun s => { s with writer := s.writer.keepBlank v }
      | _ => throw .mismatch

/-- Renders the source that was handed to a section's helper. -/
def sourceText (settings : Settings) (deeper : Deeper Writer) (scope : Scope) :
    Value → Render Writer String
  | .str template => do
    let c ← compile settings template
    Node.renderAll deeper c.template scope c.nodes
  | v => do
    acceptBlank settings v
    return ""

/-- Calls a callable. What a section's helper makes of the source that it is given is handed in. -/
def apply {σ : Type} (deeper : Deeper σ) (rendered : Value → Render σ String) (scope : Scope)
    (callee : Value) (args : List Value) : Render σ Value :=
  match callee, args with
  | .function f owner, args => f.invoke deeper scope owner args
  | .object o, args =>
    match o.call with
    | some f => f.invoke deeper scope (some o) args
    | none => throw .mismatch
  | .setMethod m identity items, [] => onTally (m.perform identity items)
  | .builtin b, args => onTally fun t => (b.apply (Value.currentAll t args), t)
  | .renderer, [v] => do return .str (← rendered v)
  | _, _ => throw .mismatch

/-- Calls what calls nothing itself, a method of a set or a function of the system. -/
def applyFlat {σ : Type} : Value → List Value → Render σ Value
  | .setMethod m identity items, [] => onTally (m.perform identity items)
  | .builtin b, args => onTally fun t => (b.apply (Value.currentAll t args), t)
  | _, _ => throw .tooDeep

/-- Renders the partial of a name; there is nothing to render where none is known. -/
def expand (settings : Settings) (deeper : Deeper Writer) (scope : Scope) (name : String) :
    Render Writer String := do
  fetch settings name
  match (← get).writer.partials.find? name with
  | none => return ""
  | some c => Node.renderAll deeper c.template scope c.nodes

/-- What can be reached with a number of levels left. The level below is made only when it is gone
to. -/
def deeper (settings : Settings) : Nat → Deeper Writer
  | 0 =>
    ⟨fun w => w.escaping settings, fun _ => applyFlat, fun _ _ => throw .tooDeep⟩
  | n + 1 =>
    ⟨fun w => w.escaping settings,
      fun scope callee args =>
        apply (deeper settings n) (sourceText settings (deeper settings n) scope) scope callee args,
      fun scope name => expand settings (deeper settings n) scope name⟩

/-- All levels escape in the same way. -/
theorem deeper_escape (settings : Settings) (levels : Nat) (w : Writer) :
    (deeper settings levels).escape w = w.escaping settings := by
  cases levels <;> rfl

/-- Methods of sets do the same on all levels. -/
theorem deeper_apply_setMethod (settings : Settings) (levels : Nat) (scope : Scope) (m : SetMethod)
    (identity : SetId) (items : List Value) :
    (deeper settings levels).apply scope (.setMethod m identity items) [] =
      onTally (m.perform identity items) := by
  cases levels <;> rfl

/-- How many levels there are. -/
def depthLimit : Nat := 1000000

/-- Renders a compiled template in a scope, after taking over the partials that are given. -/
def call (settings : Settings) (limit : Nat) (c : Compiled) (partials : Partials) (scope : Scope) :
    Render Writer String := do
  accept settings partials
  Node.renderAll (deeper settings limit) c.template scope c.nodes

/-- Compiles a template and renders it in a scope. -/
def template (settings : Settings) (limit : Nat) (text : String) (partials : Partials)
    (scope : Scope) : Render Writer String := do
  let c ← compile settings text
  call settings limit c partials scope

end Render

end Mustache
