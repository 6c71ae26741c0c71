/-!
# Values

The data that templates are rendered with: plain data, objects with attributes and methods, and
callables. Mappings keep their entries in order, and their keys may be any value.

A function is data too: a signature and an expression for its body. Expressions can read the
arguments, join texts, call other callables, count, and raise an error. What a callable does when
it is called is said elsewhere; here is only what it is.

Sets are the only values that change: their methods take items out of them. A set is written with
the items that it had at first, and with what tells it apart; what is left of it is kept elsewhere,
so that it is the same wherever the set is met.
-/

namespace Mustache

/-- A parameter; one that is not optional must be given an argument. -/
structure Param where
  name : String
  optional : Bool
  deriving DecidableEq, Repr

/-- The parameters of a function, by kind. -/
structure Signature where
  /-- Parameters that take an argument by place only. -/
  positionalOnly : List Param
  /-- Parameters that take an argument by place or by name. -/
  positional : List Param
  /-- The parameter that collects the arguments left over. -/
  rest : Option String
  /-- Parameters that take an argument by name only. -/
  named : List Param
  /-- The parameter that collects the named arguments left over. -/
  namedRest : Option String
  deriving DecidableEq, Repr

/-- The parameters that take an argument by place, in order. -/
def Signature.places (s : Signature) : List Param := s.positionalOnly ++ s.positional

/-- How many parameters must be given an argument by place. -/
def Signature.required (s : Signature) : Nat := (s.places.filter fun p => !p.optional).length

/-- Callables that need no definition. All but `size` hide their parameters, so they count as
needing none. -/
inductive Builtin
  | integer
  | text
  | mapping
  | least
  | size
  deriving DecidableEq, Repr

/-- What tells a set apart: it was there from the start, or a method made it. -/
inductive SetId
  | given (n : Nat)
  | made (n : Nat)
  deriving DecidableEq, Repr

/-- The methods of a set. -/
inductive SetMethod
  | add
  | clear
  | copy
  | difference
  | differenceUpdate
  | discard
  | intersection
  | intersectionUpdate
  | isDisjoint
  | isSubset
  | isSuperset
  | pop
  | remove
  | symmetricDifference
  | symmetricDifferenceUpdate
  | union
  | update
  deriving DecidableEq, Repr

mutual

/-- A value. -/
inductive Value
  | null
  | bool (b : Bool)
  | int (n : Int)
  | float (x : Float)
  | str (s : String)
  | bytes (data : List UInt8)
  | byteArray (data : List UInt8)
  | list (items : List Value)
  | tuple (items : List Value)
  | range (start stop step : Int)
  /-- A set, with the items that it had at first. -/
  | set (identity : SetId) (items : List Value)
  | dict (entries : List (Value × Value))
  | object (o : Object)
  /-- A function, with the object that it belongs to if it is a method. -/
  | function (f : Function) (owner : Option Object)
  /-- A method of a set, with the set. -/
  | setMethod (m : SetMethod) (identity : SetId) (items : List Value)
  | builtin (b : Builtin)
  /-- The helper that a section hands to its callable: it renders a template where it is called. -/
  | renderer

/-- A plain object: the number that tells it apart from every other one, named attributes, methods,
the text that stands for it, its truth, and the function that is called when the object itself
is. -/
inductive Object
  | mk (identity : Nat) (attributes : List (String × Value)) (methods : List (String × Function))
      (text : String) (truth : Bool) (call : Option Function)

/-- A function, with the number that tells it apart. Calls of one with a label are recorded. -/
inductive Function
  | mk (identity : Nat) (label : Option String) (signature : Signature) (body : Expr)

/-- The body of a function. -/
inductive Expr
  | literal (v : Value)
  /-- The argument of a parameter. -/
  | argument (name : String)
  /-- The texts of some values, joined. -/
  | join (parts : List Expr)
  | call (callee : Expr) (arguments : List Expr)
  /-- A text in upper case. -/
  | upper (e : Expr)
  | size (e : Expr)
  /-- The entry of a mapping. -/
  | entry (e : Expr) (key : Value)
  /-- An attribute of the object that the method belongs to. -/
  | attribute (name : String)
  /-- Adds one to a counter and gives the sum. -/
  | count (name : String)
  /-- Fails with a message. -/
  | fail (message : String)

end

instance : Inhabited Value := ⟨.null⟩

namespace Object

/-- What tells an object apart. -/
def identity : Object → Nat
  | mk identity _ _ _ _ _ => identity

/-- The attributes of an object. -/
def attributes : Object → List (String × Value)
  | mk _ attributes _ _ _ _ => attributes

/-- The methods of an object. -/
def methods : Object → List (String × Function)
  | mk _ _ methods _ _ _ => methods

/-- The text that stands for an object. -/
def text : Object → String
  | mk _ _ _ text _ _ => text

/-- The truth of an object. -/
def truth : Object → Bool
  | mk _ _ _ _ truth _ => truth

/-- What is called when an object is. -/
def call : Object → Option Function
  | mk _ _ _ _ _ call => call

/-- The value under a name: an attribute, or a method with its object. -/
def member? (o : Object) (name : String) : Option Value :=
  match o.attributes.lookup name with
  | some v => some v
  | none => (o.methods.lookup name).map fun f => .function f (some o)

end Object

namespace Function

/-- What tells a function apart. -/
def identity : Function → Nat
  | mk identity _ _ _ => identity

/-- The label of a function. -/
def label : Function → Option String
  | mk _ label _ _ => label

/-- The signature of a function. -/
def signature : Function → Signature
  | mk _ _ signature _ => signature

/-- The body of a function. -/
def body : Function → Expr
  | mk _ _ _ body => body

end Function

end Mustache
