import Mustache.Proofs.Render.Notes

/-!
# A journal of rendering

Rendering evaluates the nodes of templates. On the way it looks names up, calls callables and
renders other templates: partials, and the sources that functions give to a section's helper. A
journal has all this in it as a tree: each thing that was done, with what was done in the course of
it, and with what it came to.

Rendering with a journal is rendering, and writing the journal besides.

**Idea.** The journal takes the place of the writer in the state, and has the writer in it. What is
done in the course of something is written on an empty page, which then becomes part of one entry
(`Journal.entering`). Entries are made of templates, nodes, the names of sections, and calls
(`Journal.notes`); leaving them out gives what happens without a journal.

Main statement: `Journal.silent`.
-/

namespace Mustache

open Render

/-- Something that was done, with what was done in the course of it, in order, and with what it came
to. -/
inductive Trace
  /-- A template was rendered, with its own text and its own tree. -/
  | rendered (c : Compiled) (inner : List Trace) (result : Except Error String)
  /-- A node was evaluated in a scope. -/
  | evaluated (n : Node) (scope : Scope) (inner : List Trace) (result : Except Error String)
  /-- The name of a section was looked up. -/
  | looked (name : String) (inner : List Trace) (result : Except Error Value)
  /-- A callable was called with some arguments. What it gave is written down as it was then. -/
  | called (callee : Value) (args : List Value) (inner : List Trace) (result : Except Error Value)

/-- A writer, and what was done. -/
structure Journal where
  writer : Writer
  traces : List Trace

namespace Journal

variable {α : Type}

/-! ## Entries -/

/-- Does with the writer what a computation does. -/
def onWriter (act : Render Writer α) : Render Journal α := fun s =>
  let (result, left) := act.runFrom ⟨s.writer.writer, s.memo, s.tally, s.log⟩
  (result, ⟨⟨left.writer, s.writer.traces⟩, left.memo, left.tally, left.log⟩)

/-- The state with another page to write on. -/
def page (s : State Journal) (ts : List Trace) : State Journal :=
  { s with writer := { s.writer with traces := ts } }

/-- Does something, and enters it together with what is done in the course of it. The entry is made
when it is done, with the tally of that time. -/
def entering (entry : Tally → List Trace → Except Error α → Trace) (act : Render Journal α) :
    Render Journal α := fun s =>
  let (result, left) := act.runFrom (page s [])
  (result, page left (s.writer.traces ++ [entry left.tally left.writer.traces result]))

/-- What is entered in a journal: templates, nodes, the names of sections, and calls. What a call
gives is written down as it is when it is given. -/
def notes : Notes Journal where
  escape settings x := x.writer.escaping settings
  compile settings t := onWriter (Render.compile settings t)
  blank settings v := onWriter (acceptBlank settings v)
  accept settings partials := onWriter (accept settings partials)
  supply settings name := onWriter (supply settings name)
  tree c := entering fun _ => .rendered c
  node n scope := entering fun _ => .evaluated n scope
  sectionName name := entering fun _ => .looked name
  call callee args :=
    entering fun tally inner result => .called callee args inner (Value.current tally <$> result)

/-! ## Nothing but entries -/

/-- A journal is over a writer. -/
def Over (w : Writer) (x : Journal) : Prop := x.writer = w

theorem agree_onWriter (act : Render Writer α) : Agree Over Eq act (onWriter act) := by
  rintro ⟨w, memo, tally, log⟩ ⟨x, memo', tally', log'⟩ ⟨hstore, hmemo, htally, hlog⟩
  cases hmemo
  cases htally
  cases hlog
  cases hstore
  exact ⟨SameResult.refl _, rfl, rfl, rfl, rfl⟩

theorem around_entering (entry : Tally → List Trace → Except Error α → Trace) :
    Notes.Around Over (entering entry) := by
  intro act act' h s t hs
  obtain ⟨hresult, hleft⟩ := h s (page t []) ⟨hs.store, hs.memo, hs.tally, hs.log⟩
  exact ⟨hresult, hleft.store, hleft.memo, hleft.tally, hleft.log⟩

theorem agree_accept (settings : Settings) (partials : Partials) :
    Agree Over Eq (Render.accept settings partials) (notes.accept settings partials) :=
  agree_onWriter _

/-- **What a journal has in it is of rendering,** which does not change for it. -/
theorem silent (settings : Settings) : notes.Silent settings Over where
  escape w x hx := by
    show w.escaping settings = x.writer.escaping settings
    rw [show x.writer = w from hx]
  compile t := agree_onWriter _
  blank v := agree_onWriter _
  supply name := agree_onWriter _
  tree c := around_entering _
  node n scope := around_entering _
  sectionName name := around_entering _
  answer _ _ := Notes.around_id _
  child _ := Notes.around_id _
  partialTag _ := Notes.around_id _
  call callee args := around_entering _

end Journal

end Mustache
