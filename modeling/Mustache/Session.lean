import Mustache.Render.Depth
import Mustache.Template.Draft
import Mustache.Text.Html

/-!
# Sessions

A session is a sequence of steps on some writers and contexts. Writers, contexts and compiled
templates are named by numbers, in the order in which they were first given out; a compiled template
that is met again keeps its number. The first writer is there from the start.

A step gives an answer or an error, and either way the session goes on from the state that the step
left behind.
-/

namespace Mustache

/-- What a template is rendered with: a value, in a context of its own, or a context of the
session. -/
inductive View
  | value (v : Value)
  | context (n : Nat)

/-- A step of a session. Writers, contexts and compiled templates are given by number. -/
inductive Step
  | makeWriter (escape : Option (String → String))
  | compile (writer : Nat) (template : String) (delimiters : Option Delimiters.Spec)
  | compilePartial (writer : Nat) (name template : String) (delimiters : Option Delimiters.Spec)
  /-- Takes a tree that was put together by hand. -/
  | assemble (writer : Nat) (template : String) (drafts : List Draft)
  /-- Takes the tree of another template. -/
  | assembleParsed (writer : Nat) (template other : String) (delimiters : Option Delimiters.Spec)
  | call (compiled : Nat) (view : View) (partials : Partials)
  | render (writer : Nat) (template : String) (view : View) (partials : Partials)
  /-- Renders with the first writer and hands the result on, if there is someone to take it. -/
  | send (template : String) (view : View) (partials : Partials) (taken : Bool)
  | clear (writer : Nat)
  | inspect (writer : Nat)
  | setEscape (escape : String → String)
  | setDelimiters (delimiters : Delimiters.Spec)
  | makeContext (view : View)
  | push (context : Nat) (v : Value)
  | lookup (context : Nat) (name : String)
  | viewOf (context : Nat)
  | forget (context : Nat)

/-- What a step answers. -/
inductive Answer
  | done
  | writer (n : Nat)
  | compiled (n : Nat)
  | context (n : Nat)
  | rendered (text : String)
  /-- What came back, and what was handed on. -/
  | sent (text : Option String) (taken : List String)
  /-- The templates and partials that a writer knows, and whether it has a loader. -/
  | known (templates partials : List String) (loader : Bool)
  | value (v : Value)

/-- The state of a session. -/
structure Session where
  settings : Settings
  writers : List Writer
  contexts : List Context
  /-- The compiled templates that were given out, each with the number of its writer. -/
  compiled : List (Nat × Compiled)
  tally : Tally

namespace Session

/-- Two braces on either side, and escaping for HTML. -/
def defaults : Settings := ⟨Delimiters.Spec.braces, Text.escapeHtml⟩

/-- A session with one writer. -/
def start : Session := ⟨defaults, [Writer.new none], [], [], ∅⟩

/-- What a computation did: its result and what it recorded. -/
structure Outcome (α : Type) where
  result : Except Error α
  log : List Event

/-- An outcome without records. -/
def Outcome.quiet {α : Type} (result : Except Error α) : Outcome α := ⟨result, []⟩

/-- The outcome with its result changed. -/
def Outcome.map {α β : Type} (f : α → β) (o : Outcome α) : Outcome β := ⟨f <$> o.result, o.log⟩

/-- The context that a view stands for. -/
def contextOf (s : Session) : View → Option Context
  | .value v => some (Context.ofView v)
  | .context n => s.contexts[n]?

/-- Runs a computation with a writer, in the context of a view, and keeps what it leaves behind. -/
def run {α : Type} (s : Session) (writer : Nat) (view : View) (act : Scope → Render Writer α) :
    Outcome α × Session :=
  match s.writers[writer]?, s.contextOf view with
  | some w, some c =>
    let (result, left) := (act c.scope).runFrom ⟨w, c.memo, s.tally, []⟩
    let contexts := match view with
      | .value _ => s.contexts
      | .context n => s.contexts.set n { c with memo := left.memo }
    (⟨result, left.log⟩,
      { s with writers := s.writers.set writer left.writer, contexts, tally := left.tally })
  | _, _ => (.quiet (.error .mismatch), s)

/-- Gives out a compiled template of a writer. -/
def giveOut (s : Session) (writer : Nat) (c : Compiled) : Outcome Answer × Session :=
  match s.compiled.findIdx? fun g => g.1 == writer && g.2.number == c.number with
  | some n => (.quiet (.ok (.compiled n)), s)
  | none =>
    (.quiet (.ok (.compiled s.compiled.length)),
      { s with compiled := s.compiled ++ [(writer, c)] })

/-- Changes a writer by compiling with it, and gives out what it compiled. -/
def compileWith (s : Session) (writer : Nat)
    (f : Writer → Except TemplateError (Compiled × Writer)) : Outcome Answer × Session :=
  match s.writers[writer]? with
  | none => (.quiet (.error .mismatch), s)
  | some w =>
    match f w with
    | .error e => (.quiet (.error (.template e)), s)
    | .ok (c, w) => giveOut { s with writers := s.writers.set writer w } writer c

/-- Adds a context. -/
def addContext (s : Session) (c : Context) : Outcome Answer × Session :=
  (.quiet (.ok (.context s.contexts.length)), { s with contexts := s.contexts ++ [c] })

/-- Uses the writer of a number, unless there is none. -/
def withWriter (s : Session) (n : Nat) (f : Writer → Answer × Session) :
    Outcome Answer × Session :=
  match s.writers[n]? with
  | none => (.quiet (.error .mismatch), s)
  | some w =>
    let (answer, s) := f w
    (.quiet (.ok answer), s)

/-- Uses the context of a number, unless there is none. -/
def withContext (s : Session) (n : Nat) (f : Context → Outcome Answer × Session) :
    Outcome Answer × Session :=
  match s.contexts[n]? with
  | none => (.quiet (.error .mismatch), s)
  | some c => f c

/-- Names in ascending order. -/
def sorted (names : List String) : List String := names.mergeSort fun a b => !decide (b < a)

/-- What a writer knows. What stands for an empty template without being a text cannot be put in
order with the others. -/
def inventory (w : Writer) : Except Error Answer :=
  if w.blanks.isEmpty then
    .ok (.known (sorted w.templates.names) (sorted w.partials.names) w.loader.isSome)
  else .error .mismatch

/-- Performs a step. -/
def step (s : Session) : Step → Outcome Answer × Session
  | .makeWriter escape =>
    (.quiet (.ok (.writer s.writers.length)),
      { s with writers := s.writers ++ [Writer.new escape] })
  | .compile writer template delimiters =>
    s.compileWith writer fun w => w.compile (delimiters.getD s.settings.delimiters) template
  | .compilePartial writer name template delimiters =>
    s.compileWith writer fun w =>
      w.compilePartial (delimiters.getD s.settings.delimiters) name template
  | .assemble writer template drafts =>
    s.compileWith writer fun w => .ok (w.assemble template (Draft.nodes template.length drafts))
  | .assembleParsed writer template other delimiters =>
    s.compileWith writer fun w =>
      (Template.parseWith (delimiters.getD s.settings.delimiters) other).map (w.assemble template)
  | .call compiled view partials =>
    match s.compiled[compiled]? with
    | none => (.quiet (.error .mismatch), s)
    | some (writer, c) =>
      let (outcome, s) := s.run writer view (Render.call s.settings Render.depthLimit c partials)
      (outcome.map .rendered, s)
  | .render writer template view partials =>
    let act := Render.template s.settings Render.depthLimit template partials
    let (outcome, s) := s.run writer view act
    (outcome.map .rendered, s)
  | .send template view partials taken =>
    let act := Render.template s.settings Render.depthLimit template partials
    let (outcome, s) := s.run 0 view act
    (outcome.map fun text => if taken then .sent none [text] else .sent (some text) [], s)
  | .clear writer =>
    s.withWriter writer fun w => (.done, { s with writers := s.writers.set writer w.clear })
  | .inspect writer =>
    match s.writers[writer]? with
    | none => (.quiet (.error .mismatch), s)
    | some w => (.quiet (inventory w), s)
  | .setEscape escape =>
    (.quiet (.ok .done), { s with settings := { s.settings with escape } })
  | .setDelimiters delimiters =>
    (.quiet (.ok .done), { s with settings := { s.settings with delimiters } })
  | .makeContext (.value v) => s.addContext (Context.ofView v)
  | .makeContext (.context n) => (.quiet (.ok (.context n)), s)
  | .push context v => s.withContext context fun c => s.addContext (c.push v)
  | .lookup context name =>
    let (outcome, s) := s.run 0 (.context context) fun scope => do
      let v ← Render.lookup (Render.deeper s.settings Render.depthLimit) scope name
      Render.ofCurrent Value.writable v
    (outcome.map .value, s)
  | .viewOf context =>
    s.withContext context fun c => (.quiet (.ok (.value (c.scope.view.current s.tally))), s)
  | .forget context =>
    s.withContext context fun c =>
      (.quiet (.ok .done), { s with contexts := s.contexts.set context c.forget })

end Session

end Mustache
