import Mustache.Render.Depth

/-!
# Rendering without caches

What a writer does, said without its caches. A registry keeps the source that each partial was last
registered with, and the loader that was given last. A template is read anew each time it is needed;
its tree is gone through as it is with a writer, and forgotten.

A template that cannot be read fails before partials are taken over. Text is escaped as the settings
say at that time, unless the registry has a way of its own.

Of a template that was compiled, a handle remembers the text, and the tree only if it was put
together by hand. Compiling gives the same function again until what is known is forgotten, and a
handle tells whether that has happened; nothing that is rendered depends on it.
-/

namespace Mustache

open Render

/-- What is kept from one rendering to the next. -/
structure Registry where
  escape : Option (String → String)
  sources : Table String
  loader : Option Loader

namespace Registry

/-- How text is escaped. -/
def escaping (r : Registry) (settings : Settings) : String → String :=
  r.escape.getD settings.escape

/-- Reads a template. -/
def read (settings : Settings) (template : String) : Render Registry (List Node) :=
  match Template.parseWith settings.delimiters template with
  | .error e => throw (.template e)
  | .ok nodes => pure nodes

/-- Makes a template the source of a partial, if it can be read. -/
def register (settings : Settings) (name template : String) : Render Registry Unit := do
  let _ ← read settings template
  modify fun s =>
    { s with writer := { s.writer with sources := s.writer.sources.insert name template } }

/-- Takes over the partials that are given. -/
def accept (settings : Settings) : Partials → Render Registry Unit
  | .none => pure ()
  | .named templates => templates.forM fun (name, template) => register settings name template
  | .loader loader =>
    modify fun s => { s with writer := { s.writer with loader := some loader } }

/-- Asks the loader for the source of a partial that has none. -/
def fetch (settings : Settings) (name : String) : Render Registry Unit := do
  let r := (← get).writer
  match r.sources.find? name, r.loader with
  | none, some loader =>
    record (.loaded name)
    match ← Render.ofExcept (loader.load name) with
    | none => return ()
    | some template => register settings name template
  | _, _ => return ()

/-- Reads a value that is no text as a template: it has to be empty, and such that it can be a
key. -/
def readBlank (settings : Settings) (v : Value) : Render Registry Unit :=
  if !v.canBeKey then throw .mismatch
  else
    match settings.delimiters.delimiters with
    | .error e => throw (.template e)
    | .ok _ => do
      match ← Render.ofExcept v.measure with
      | .int 0 => return ()
      | _ => throw .mismatch

/-- Renders the source that was handed to a section's helper. -/
def sourceText (settings : Settings) (deeper : Deeper Registry) (scope : Scope) :
    Value → Render Registry String
  | .str template => do
    let nodes ← read settings template
    Node.renderAll deeper template scope nodes
  | v => do
    readBlank settings v
    return ""

/-- Renders the partial of a name, which is read from its source each time. -/
def expand (settings : Settings) (deeper : Deeper Registry) (scope : Scope) (name : String) :
    Render Registry String := do
  fetch settings name
  match (← get).writer.sources.find? name with
  | none => return ""
  | some template => do
    let nodes ← read settings template
    Node.renderAll deeper template scope nodes

/-- What can be reached with a number of levels left. -/
def deeper (settings : Settings) : Nat → Deeper Registry
  | 0 =>
    ⟨fun r => r.escaping settings, fun _ => applyFlat, fun _ _ => throw .tooDeep⟩
  | n + 1 =>
    ⟨fun r => r.escaping settings,
      fun scope callee args =>
        apply (deeper settings n) (sourceText settings (deeper settings n) scope) scope callee args,
      fun scope name => expand settings (deeper settings n) scope name⟩

/-- Takes over the partials that are given, and goes through a tree. -/
def call (settings : Settings) (limit : Nat) (template : String) (nodes : List Node)
    (partials : Partials) (scope : Scope) : Render Registry String := do
  accept settings partials
  Node.renderAll (deeper settings limit) template scope nodes

/-- Reads a template and renders it. -/
def template (settings : Settings) (limit : Nat) (text : String) (partials : Partials)
    (scope : Scope) : Render Registry String := do
  let nodes ← read settings text
  call settings limit text nodes partials scope

end Registry

/-- A compiled template that was given out. -/
inductive Handle
  /-- It is read from its text; `current` if compiling the text would give it again. -/
  | read (template : String) (current : Bool)
  | assembled (template : String) (nodes : List Node)

namespace Handle

/-- Whether compiling a text would give the template again. -/
def isCurrent (template : String) : Handle → Bool
  | read t current => current && t == template
  | assembled _ _ => false

/-- The template after everything that was compiled has been forgotten. -/
def outdate : Handle → Handle
  | read t _ => read t false
  | assembled t nodes => assembled t nodes

/-- Renders what a handle stands for. -/
def call (settings : Settings) (limit : Nat) (partials : Partials) (scope : Scope) :
    Handle → Render Registry String
  | read t _ => Registry.template settings limit t partials scope
  | assembled t nodes => Registry.call settings limit t nodes partials scope

end Handle

end Mustache
