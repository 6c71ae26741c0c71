import Mustache.Page.Command

/-!
# The page command

Runs the page command on the files of the machine. What the command does is a function of a file
tree, so the program first finds the part of the tree that matters: it runs the command on what it
knows, looks at the files that were asked for, and starts again until nothing new is asked for. Only
then it writes.
-/

namespace Mustache.Page

/-- What there is under a path. -/
def lookAt (path : File.Path) : IO (Option File.Entry) := do
  try
    let bytes ← IO.FS.readBinFile path.toText
    return some (.file bytes.toList)
  catch _ =>
    try
      let real ← IO.FS.realPath path.toText
      let _ ← real.readDir
      return some .directory
    catch _ => return none

/-- The tree with what there is under a path and on the way to it. -/
def learn (files : File.Tree) (path : File.Path) : IO File.Tree := do
  let mut files := files
  for n in List.range path.segments.length do
    let part := { path with segments := path.segments.take (n + 1) }
    match ← lookAt part with
    | some e => files := files.put (files.namesOf part) e
    | none => pure ()
  return files

/-- Runs the command on more and more files until it asks for no others. Gives the files that it
started from at last, and the run. -/
partial def settle (options : Options) (known : List File.Path) (files : File.Tree) :
    IO (File.Tree × Run) := do
  let r := runWith options files
  match (askedFor options r).filter fun p => !known.contains p with
  | [] => return (files, r)
  | unknown =>
    let mut files := files
    for path in unknown do
      files ← learn files path
    settle options (unknown ++ known) files

/-- Tells an error, and gives the exit code for it. -/
def report : Error → IO UInt32
  | .exit code => return code.toUInt32
  | e => do
    IO.eprintln e.message
    return 1

/-- Runs the command. -/
def command (arguments : List String) : IO UInt32 := do
  match Options.read arguments with
  | .error e => report e
  | .ok options =>
    let here := File.Path.ofText (← IO.currentDir).toString
    let (before, r) ← settle options [] (File.Tree.empty here.segments)
    for (names, bytes) in before.changes r.files do
      IO.FS.writeBinFile (File.Path.toText ⟨"/", names⟩) bytes.toByteArray
    match r.result with
    | .error e => report e
    | .ok out =>
      IO.print out
      return 0

end Mustache.Page

/-- Runs the page command. -/
def main (arguments : List String) : IO UInt32 := Mustache.Page.command arguments
