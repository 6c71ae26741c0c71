import Mustache.Proofs.Render.Registry
import Mustache.Session

/-!
# An interpreter without caches

A session with one writer, done with a registry in its place. Its actions are the steps of a session
that use the first writer, give no delimiters and leave the default ones as they are. Forgetting
empties the table of sources and leaves the loader; what was compiled before still renders its own
template.

Main definitions: `Interpreter.step`, `Interpreter.answers` and `Session.answers`.
-/

namespace Mustache

open Render

/-- What can be done with one writer, while no delimiters are given and the default ones stay. -/
inductive Action
  | compile (template : String)
  | compilePartial (name template : String)
  | assemble (template : String) (drafts : List Draft)
  | assembleParsed (template other : String) (delimiters : Option Delimiters.Spec)
  | call (compiled : Nat) (view : View) (partials : Partials)
  | render (template : String) (view : View) (partials : Partials)
  | clear
  | setEscape (escape : String → String)
  | makeContext (v : Value)
  | push (context : Nat) (v : Value)
  | lookup (context : Nat) (name : String)
  | forget (context : Nat)

/-- The step of a session that an action is, with the first writer. -/
def Action.step : Action → Step
  | compile template => .compile 0 template none
  | compilePartial name template => .compilePartial 0 name template none
  | assemble template drafts => .assemble 0 template drafts
  | assembleParsed template other delimiters => .assembleParsed 0 template other delimiters
  | call compiled view partials => .call compiled view partials
  | render template view partials => .render 0 template view partials
  | clear => .clear 0
  | setEscape escape => .setEscape escape
  | makeContext v => .makeContext (.value v)
  | push context v => .push context v
  | lookup context name => .lookup context name
  | forget context => .forget context

/-- The state of a session of the interpreter. -/
structure Interpreter where
  settings : Settings
  registry : Registry
  contexts : List Context
  handles : List Handle
  tally : Tally

namespace Interpreter

open Session (Outcome)

/-- Before anything was done. -/
def start (settings : Settings) (escape : Option (String → String)) : Interpreter :=
  ⟨settings, ⟨escape, ∅, none⟩, [], [], ∅⟩

/-- The context that a view stands for. -/
def contextOf (s : Interpreter) : View → Option Context
  | .value v => some (Context.ofView v)
  | .context n => s.contexts[n]?

/-- Runs a computation in the context of a view, and keeps what it leaves behind. -/
def run {α : Type} (s : Interpreter) (view : View) (act : Scope → Render Registry α) :
    Outcome α × Interpreter :=
  match s.contextOf view with
  | none => (.quiet (.error .mismatch), s)
  | some c =>
    let (result, left) := (act c.scope).runFrom ⟨s.registry, c.memo, s.tally, []⟩
    let contexts := match view with
      | .value _ => s.contexts
      | .context n => s.contexts.set n { c with memo := left.memo }
    (⟨result, left.log⟩, { s with registry := left.writer, contexts, tally := left.tally })

/-- Gives out a handle that was not given out before. -/
def add (s : Interpreter) (h : Handle) : Outcome Answer × Interpreter :=
  (.quiet (.ok (.compiled s.handles.length)), { s with handles := s.handles ++ [h] })

/-- Gives out what a template is compiled to. -/
def giveOut (s : Interpreter) (template : String) : Outcome Answer × Interpreter :=
  match s.handles.findIdx? (Handle.isCurrent template) with
  | some n => (.quiet (.ok (.compiled n)), s)
  | none => s.add (.read template true)

/-- Reads a template and goes on with its tree, unless it cannot be read. -/
def reading (s : Interpreter) (delimiters : Delimiters.Spec) (template : String)
    (go : List Node → Outcome Answer × Interpreter) : Outcome Answer × Interpreter :=
  match Template.parseWith delimiters template with
  | .error e => (.quiet (.error (.template e)), s)
  | .ok nodes => go nodes

/-- Adds a context. -/
def addContext (s : Interpreter) (c : Context) : Outcome Answer × Interpreter :=
  (.quiet (.ok (.context s.contexts.length)), { s with contexts := s.contexts ++ [c] })

/-- Uses the context of a number, unless there is none. -/
def withContext (s : Interpreter) (n : Nat) (f : Context → Outcome Answer × Interpreter) :
    Outcome Answer × Interpreter :=
  match s.contexts[n]? with
  | none => (.quiet (.error .mismatch), s)
  | some c => f c

/-- Performs an action. -/
def step (s : Interpreter) : Action → Outcome Answer × Interpreter
  | .compile template => s.reading s.settings.delimiters template fun _ => s.giveOut template
  | .compilePartial name template =>
    s.reading s.settings.delimiters template fun _ =>
      giveOut { s with registry.sources := s.registry.sources.insert name template } template
  | .assemble template drafts => s.add (.assembled template (Draft.nodes template.length drafts))
  | .assembleParsed template other delimiters =>
    s.reading (delimiters.getD s.settings.delimiters) other fun nodes =>
      s.add (.assembled template nodes)
  | .call compiled view partials =>
    match s.handles[compiled]? with
    | none => (.quiet (.error .mismatch), s)
    | some h =>
      let (outcome, s) := s.run view fun scope => h.call s.settings depthLimit partials scope
      (outcome.map .rendered, s)
  | .render template view partials =>
    let (outcome, s) := s.run view (Registry.template s.settings depthLimit template partials)
    (outcome.map .rendered, s)
  | .clear =>
    (.quiet (.ok .done),
      { s with registry.sources := ∅, handles := s.handles.map Handle.outdate })
  | .setEscape escape => (.quiet (.ok .done), { s with settings.escape := escape })
  | .makeContext v => s.addContext (Context.ofView v)
  | .push context v => s.withContext context fun c => s.addContext (c.push v)
  | .lookup context name =>
    let (outcome, s) := s.run (.context context) fun scope => do
      let v ← Render.lookup (Registry.deeper s.settings depthLimit) scope name
      Render.ofCurrent Value.writable v
    (outcome.map .value, s)
  | .forget context =>
    s.withContext context fun c =>
      (.quiet (.ok .done), { s with contexts := s.contexts.set context c.forget })

/-- What the actions of a session answer, one after another. -/
def answers (s : Interpreter) : List Action → List (Outcome Answer)
  | [] => []
  | a :: as => (s.step a).1 :: answers (s.step a).2 as

end Interpreter

/-- What the steps of a session answer, one after another. -/
def Session.answers (s : Session) : List Step → List (Outcome Answer)
  | [] => []
  | a :: as => (s.step a).1 :: answers (s.step a).2 as

end Mustache
