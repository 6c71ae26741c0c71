import Mustache.Value.Basic

/-!
# Methods of sets

The names under which the methods of a set stand, and what a method does to the set when it is
called without arguments, which is how names call it: it may need an argument, take items out,
make a set like this one, or do nothing. Methods that could put items in need to be given them, so
sets never grow.
-/

namespace Mustache

namespace SetMethod

/-- The name of a method. -/
def name : SetMethod → String
  | add => "add"
  | clear => "clear"
  | copy => "copy"
  | difference => "difference"
  | differenceUpdate => "difference_update"
  | discard => "discard"
  | intersection => "intersection"
  | intersectionUpdate => "intersection_update"
  | isDisjoint => "isdisjoint"
  | isSubset => "issubset"
  | isSuperset => "issuperset"
  | pop => "pop"
  | remove => "remove"
  | symmetricDifference => "symmetric_difference"
  | symmetricDifferenceUpdate => "symmetric_difference_update"
  | union => "union"
  | update => "update"

/-- All methods. -/
def all : List SetMethod :=
  [add, clear, copy, difference, differenceUpdate, discard, intersection, intersectionUpdate,
    isDisjoint, isSubset, isSuperset, pop, remove, symmetricDifference, symmetricDifferenceUpdate,
    union, update]

/-- The method of a name, if it is the name of one. -/
def ofName? (s : String) : Option SetMethod := all.find? fun m => m.name == s

/-- What a method does when it is given nothing. -/
inductive Effect
  /-- It cannot do without an argument. -/
  | refused
  /-- It gives the first item, and takes it out. -/
  | takesFirst
  /-- It takes all items out. -/
  | takesAll
  /-- It makes a set with the items that are left. -/
  | copies
  | nothing

/-- What each method does when it is given nothing: the union of a set with no others is the set
again, and so on. -/
def effect : SetMethod → Effect
  | pop => .takesFirst
  | clear => .takesAll
  | copy | difference | intersection | union => .copies
  | differenceUpdate | intersectionUpdate | update => .nothing
  | add | discard | isDisjoint | isSubset | isSuperset | remove | symmetricDifference
  | symmetricDifferenceUpdate => .refused

theorem name_of_ofName? {s : String} {m : SetMethod} (h : ofName? s = some m) : m.name = s := by
  simpa using List.find?_some h

end SetMethod

end Mustache
