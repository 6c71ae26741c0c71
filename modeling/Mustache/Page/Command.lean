import Mustache.Page.View
import Mustache.Page.Options

/-!
# The page command

Renders a page: loads its data, writes the data to a file if that is asked for, renders the
template, and writes the page to a file or to the standard output. Each stage comes after the one
before has succeeded, so a page that cannot be rendered is never written in part.
-/

namespace Mustache.Page

/-- What a run of the command leaves behind. -/
structure Run where
  /-- What is written to the standard output, or why the command failed. -/
  result : Except Error String
  files : File.Tree
  log : List Event

/-- The path that an option gives, if it gives any: an empty text does not. -/
def Given.path? : Given → Option File.Path
  | .text s => if s = "" then none else some (File.Path.ofText s)
  | _ => none

/-- The path that an option must give. An empty text stands for the current directory. -/
def Given.path : Given → Except Error File.Path
  | .text s => .ok (File.Path.ofText s)
  | _ => .error .mismatch

/-- The delimiters that an option gives. -/
def Given.delimiters? : Given → Option Delimiters.Spec
  | .nothing => none
  | .empty => some (.items [])
  | .text s => some (.text s)

/-- Writes the page, and tells what to put out. -/
def deliver (files : File.Tree) (page : String) : Given → Except Error (String × File.Tree)
  | .nothing => .ok (page, files)
  | given => do
    let path ← given.path
    let files ← (files.write path page).mapError Error.file
    return ("Wrote: " ++ path.toText ++ "\n", files)

/-- The page that the options ask for, rendered with some data. -/
def page (options : Options) (files : File.Tree) (data : Json) : Session.Outcome String :=
  withWriter none do
    let path ← Render.ofExcept options.template.path
    view Session.defaults files path data.toValue options.tags.delimiters?

/-- Renders and writes the page, given its data and the files that there are by now. -/
def produce (options : Options) (files : File.Tree) (data : Json) : Run :=
  let outcome := page options files data
  match outcome.result with
  | .error e => ⟨.error e, files, outcome.log⟩
  | .ok page =>
    match deliver files page options.output with
    | .error e => ⟨.error e, files, outcome.log⟩
    | .ok (out, files) => ⟨.ok out, files, outcome.log⟩

/-- Runs the command with the options given. -/
def runWith (options : Options) (files : File.Tree) : Run :=
  match loadData files options.data.path? with
  | .error e => ⟨.error e, files, []⟩
  | .ok data =>
    match options.dataOut.path? with
    | none => produce options files data
    | some path =>
      match files.write path (Json.print data) with
      | .error e => ⟨.error (.file e), files, []⟩
      | .ok files => produce options files data

/-- The paths that a run with some options asks about: the data, the template, what is written, and
the places where the partials may be that it asked for. -/
def askedFor (options : Options) (r : Run) : List File.Path :=
  let given := [options.template, options.data, options.dataOut, options.output]
  let partials := match options.template with
    | .text s => r.log.flatMap fun
      | .loaded name => candidates (File.Path.ofText s).parent name
      | .called _ _ => []
    | _ => []
  (given.filterMap fun g => g.path.toOption) ++ partials

/-- Runs the command with the words of a command line. -/
def run (arguments : List String) (files : File.Tree) : Run :=
  match Options.read arguments with
  | .error e => ⟨.error e, files, []⟩
  | .ok options => runWith options files

end Mustache.Page
