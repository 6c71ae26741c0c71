/-!
# Paths

Paths are written with slashes. Empty segments and single dots mean nothing and are left out; two
dots stay, for what they lead to depends on the files. A path that starts with a slash does not
depend on the directory it is read from; one that starts with exactly two keeps both.
-/

namespace Mustache.File

/-- A path: the slashes in front, and its segments. -/
structure Path where
  root : String
  segments : List String
  deriving DecidableEq, Repr

namespace Path

/-- The texts between slashes. -/
def splitSlashes : List Char → List (List Char)
  | [] => [[]]
  | c :: r =>
    if c = '/' then [] :: splitSlashes r
    else match splitSlashes r with
      | [] => [[c]]
      | s :: ss => (c :: s) :: ss

/-- The slashes in front of a path that mean something: all but two are as good as one. -/
def rootOf (s : List Char) : String :=
  match (s.takeWhile (· = '/')).length with
  | 0 => ""
  | 2 => "//"
  | _ => "/"

/-- Reads a path. -/
def ofText (text : String) : Path where
  root := rootOf text.toList
  segments := ((splitSlashes text.toList).filter fun s => s ≠ [] ∧ s ≠ ['.']).map String.ofList

/-- Writes a path. The path without segments is a dot. -/
def toText (p : Path) : String :=
  match p.segments with
  | [] => if p.root = "" then "." else p.root
  | segments => p.root ++ "/".intercalate segments

/-- A path read from the directory of another one. -/
def join (directory p : Path) : Path :=
  if p.root = "" then ⟨directory.root, directory.segments ++ p.segments⟩ else p

/-- The path without its last segment. -/
def parent (p : Path) : Path := { p with segments := p.segments.dropLast }

end Path

end Mustache.File
