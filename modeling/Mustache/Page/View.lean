import Mustache.Page.Data
import Mustache.Session

/-!
# Rendering a page

The template of a page is a file, and its partials are files next to it. A partial is looked for
under three names in turn: with the ending of a template, with the ending of a page, and as it is.
-/

namespace Mustache.Page

/-- The paths where a partial may be, the one to be preferred first. -/
def candidates (directory : File.Path) (name : String) : List File.Path :=
  [name ++ "-tpl.html", name ++ ".html", name].map fun n => directory.join (File.Path.ofText n)

/-- The text of the first of some paths that leads to a file. -/
def firstFile (files : File.Tree) : List File.Path → Except Error (Option String)
  | [] => .ok none
  | path :: paths => do
    if ← (files.isFile path).mapError Error.file then
      return some (String.ofList (← files.readText path))
    else firstFile files paths

/-- Loads partials from a directory. -/
def partialsIn (files : File.Tree) (directory : File.Path) : Loader where
  load name := firstFile files (candidates directory name)

/-- Renders the template at a path with some data. The delimiters, if any are given, are those of
the template alone and not of its partials. -/
def view (settings : Settings) (files : File.Tree) (path : File.Path) (data : Value)
    (delimiters : Option Delimiters.Spec) : Render Writer String := do
  let text ← Render.ofExcept (files.readText path)
  let own := { settings with delimiters := delimiters.getD settings.delimiters }
  let compiled ← Render.compile own (String.ofList text)
  Render.inChild <|
    Render.call settings Render.depthLimit compiled (.loader (partialsIn files path.parent))
      (Scope.ofView data)

/-- Renders the templates at some paths, one after another, with one writer. -/
def views (settings : Settings) (files : File.Tree) (data : Value)
    (delimiters : Option Delimiters.Spec) : List File.Path → Render Writer (List String)
  | [] => pure []
  | path :: paths => do
    let first ← view settings files path data delimiters
    let others ← views settings files data delimiters paths
    return first :: others

/-- Renders with a writer that was just made, in place of the one there is. -/
def apart {α : Type} (act : Render Writer α) : Render Writer α := do
  modify fun s => { s with writer := Writer.new none }
  act

/-- Renders the templates at some paths, one after another, each with a writer of its own. -/
def viewsApart (settings : Settings) (files : File.Tree) (data : Value)
    (delimiters : Option Delimiters.Spec) : List File.Path → Render Writer (List String)
  | [] => pure []
  | path :: paths => do
    let first ← apart (view settings files path data delimiters)
    let others ← viewsApart settings files data delimiters paths
    return first :: others

/-- Renders from the start, with a writer that was just made. -/
def withWriter {α : Type} (escape : Option (String → String)) (act : Render Writer α) :
    Session.Outcome α :=
  let (result, left) := act.runFrom ⟨Writer.new escape, ∅, ∅, []⟩
  ⟨result, left.log⟩

end Mustache.Page
