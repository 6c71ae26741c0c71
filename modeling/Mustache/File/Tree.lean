import Mustache.File.Path
import Mustache.File.Error
import Mustache.Error

/-!
# File trees

The files that there are, and the directory that paths are read from. A path is walked segment by
segment: each must be a directory for the walk to go on, and two dots lead to the directory around
it, the outermost one having none around it but itself.

`write` changes the one file that it is given. `readText` decodes what a file holds and gives it one
kind of line end.
-/

namespace Mustache.File

/-- What a name stands for. -/
inductive Entry
  | directory
  | file (bytes : List UInt8)
  deriving DecidableEq, Repr

/-- The entries that there are, by the names that lead to them from the outermost directory, and the
names that lead to the current one. -/
structure Tree where
  current : List String
  entries : List (List String × Entry)

namespace Tree

/-- The tree with nothing in it but the current directory and those around it. -/
def empty (current : List String) : Tree :=
  ⟨current, (List.range current.length).map fun n => (current.take (n + 1), .directory)⟩

/-- The entry that some names lead to. No names lead to the outermost directory. -/
def find? (t : Tree) (names : List String) : Option Entry :=
  if names = [] then some .directory else t.entries.lookup names

/-- The tree with an entry put in. -/
def put (t : Tree) (names : List String) (e : Entry) : Tree :=
  { t with entries := (names, e) :: t.entries.filter fun entry => entry.1 ≠ names }

/-- The tree with all directories in it that lead to some names. -/
def makeParents (t : Tree) (names : List String) : Tree :=
  (List.range names.length).foldl
    (fun t n => if (t.find? (names.take n)).isNone then t.put (names.take n) .directory else t) t

/-- The names of the directory that a path starts from. -/
def startOf (t : Tree) (p : Path) : List String := if p.root = "" then t.current else []

/-- The names that lead to where a name leads from a directory. -/
def enter (names : List String) (name : String) : List String :=
  if name = ".." then names.dropLast else names ++ [name]

/-- The names that a path leads to, if the walk along it goes well. -/
def namesOf (t : Tree) (p : Path) : List String := p.segments.foldl enter (t.startOf p)

/-- The tree with an entry put in under a path, and the directories that lead to it. -/
def add (t : Tree) (p : Path) (e : Entry) : Tree :=
  (t.makeParents (t.namesOf p)).put (t.namesOf p) e

/-! ## Walking -/

/-- Where a walk ends. -/
inductive Place
  | directory
  | file (names : List String) (bytes : List UInt8)
  /-- There is nothing, but a file could be. -/
  | vacant (names : List String)

/-- The length of a text in bytes. -/
def byteLength (s : String) : Nat := s.utf8ByteSize

/-- Walks on from the directory that some names lead to. -/
def walk (t : Tree) : List String → List String → Except Cause Place
  | _, [] => .ok .directory
  | names, name :: rest =>
    if 255 < byteLength name then .error .nameTooLong
    else if name = ".." then walk t (enter names name) rest
    else
      match t.find? (enter names name) with
      | some .directory => walk t (enter names name) rest
      | some (.file bytes) =>
        if rest = [] then .ok (.file (enter names name) bytes) else .error .notADirectory
      | none => if rest = [] then .ok (.vacant (enter names name)) else .error .missing

/-- Where a path leads. -/
def locate (t : Tree) (p : Path) : Except Error Place :=
  if p.segments.any (·.toList.contains (Char.ofNat 0)) then .error .embeddedNull
  else if 4096 ≤ byteLength p.toText then .error (.refused .nameTooLong p.toText)
  else (walk t (t.startOf p) p.segments).mapError fun cause => .refused cause p.toText

/-! ## Files -/

/-- Whether a path leads to a file. A path that leads nowhere, or that can be none, does not. -/
def isFile (t : Tree) (p : Path) : Except Error Bool :=
  match t.locate p with
  | .ok (.file _ _) => .ok true
  | .ok _ => .ok false
  | .error (.refused .nameTooLong path) => .error (.refused .nameTooLong path)
  | .error _ => .ok false

/-- The bytes of a file. -/
def read (t : Tree) (p : Path) : Except Error (List UInt8) := do
  match ← t.locate p with
  | .file _ bytes => return bytes
  | .directory => throw (.refused .isADirectory p.toText)
  | .vacant _ => throw (.refused .missing p.toText)

/-- The text of a file. -/
def readText (t : Tree) (p : Path) : Except Mustache.Error (List Char) := do
  let bytes ← (t.read p).mapError .file
  let chars ← (Text.Utf8.decode bytes).mapError .encoding
  return Text.Utf8.lines chars

/-- The tree after a text was written to a file. What the file held is gone once it is opened, and
nothing can fail after that: a text of characters always has its bytes. -/
def write (t : Tree) (p : Path) (text : String) : Except Error Tree := do
  match ← t.locate p with
  | .file names _ | .vacant names => return t.put names (.file (Text.Utf8.encode text))
  | .directory => throw (.refused .isADirectory p.toText)

/-- The files that are in a tree and were not in another one, or held something else. -/
def changes (before after : Tree) : List (List String × List UInt8) :=
  after.entries.filterMap fun (names, e) =>
    match e with
    | .directory => none
    | .file bytes => if before.find? names = some (.file bytes) then none else some (names, bytes)

/-- Whether a list of names does not come after another one. -/
def namesLe (names others : List String) : Bool := !decide (others < names)

/-- The changes below the current directory, by the names on their paths in ascending order. -/
def changesHere (before after : Tree) : List (String × List UInt8) :=
  let here := (before.changes after).filter fun c => before.current.isPrefixOf c.1
  let sorted := here.mergeSort fun a b => namesLe a.1 b.1
  sorted.map fun c => (Path.toText ⟨"", c.1.drop before.current.length⟩, c.2)

end Tree

end Mustache.File
