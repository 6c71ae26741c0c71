import Mustache.Value.Key

/-!
# JSON documents

The data that pages are rendered with. The members of an object keep their order, and no two have
the same name. As views, arrays are lists and objects are mappings.
-/

namespace Mustache

/-- A JSON document. -/
inductive Json
  | null
  | bool (b : Bool)
  | int (n : Int)
  | float (x : Float)
  | str (s : String)
  | arr (items : List Json)
  | obj (members : List (String × Json))

namespace Json

instance : Inhabited Json := ⟨.null⟩

mutual

/-- The view that a document is. -/
def toValue : Json → Value
  | null => .null
  | bool b => .bool b
  | int n => .int n
  | float x => .float x
  | str s => .str s
  | arr items => .list (toValues items)
  | obj members => .dict (toEntries members)

/-- The views that some documents are. -/
def toValues : List Json → List Value
  | [] => []
  | j :: js => toValue j :: toValues js

/-- The entries that some members are. -/
def toEntries : List (String × Json) → List (Value × Value)
  | [] => []
  | m :: ms => toEntry m :: toEntries ms

/-- The entry that a member is. -/
def toEntry : String × Json → Value × Value
  | (name, j) => (.str name, toValue j)

end

end Json

end Mustache
