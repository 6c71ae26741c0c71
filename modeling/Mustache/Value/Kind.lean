import Mustache.Value.Basic
import Mustache.Value.Range

/-!
# Kinds of values

Sections treat a value by its kind. Plain objects count as mappings, for their attributes stand
under names as the entries of a mapping do, and so do sets, whose methods stand under names. An
object that can be called is a callable and no mapping.

Truth is a matter of its own: a value of any kind but null may be true.
-/

namespace Mustache

/-- The kinds of values. -/
inductive Kind
  | null
  | scalar
  | sequence
  | mapping
  | callable
  deriving DecidableEq, Repr

/-- The word for a kind. -/
def Kind.label : Kind → String
  | null => "null"
  | scalar => "scalar"
  | sequence => "sequence"
  | mapping => "mapping"
  | callable => "callable"

namespace Value

/-- The kind of a value. -/
def kind : Value → Kind
  | null => .null
  | bool _ | int _ | float _ | str _ | bytes _ | byteArray _ => .scalar
  | list _ | tuple _ | range _ _ _ => .sequence
  | set _ _ | dict _ => .mapping
  | object o => if o.call.isSome then .callable else .mapping
  | function _ _ | setMethod _ _ _ | builtin _ | renderer => .callable

/-- Whether a value can be called. -/
def isCallable (v : Value) : Bool := v.kind == .callable

/-- The truth of a value: numbers but zero are true, collections and texts unless empty, callables
always. An object says so itself. -/
def truth : Value → Bool
  | null => false
  | bool b => b
  | int n => n != 0
  | float x => !(x == 0.0)
  | str s => s != ""
  | bytes b | byteArray b => !b.isEmpty
  | list xs | tuple xs | set _ xs => !xs.isEmpty
  | range start stop step => Range.size start stop step != 0
  | dict entries => !entries.isEmpty
  | object o => o.truth
  | function _ _ | setMethod _ _ _ | builtin _ | renderer => true

/-- The items of a sequence. -/
def items : Value → List Value
  | list xs | tuple xs => xs
  | range start stop step => (Range.items start stop step).map int
  | _ => []

/-- The number of items, entries, characters or bytes, where a value has them. -/
def size? : Value → Option Nat
  | str s => some s.length
  | bytes b | byteArray b => some b.length
  | list xs | tuple xs | set _ xs => some xs.length
  | range start stop step => some (Range.size start stop step)
  | dict entries => some entries.length
  | _ => none

/-- How many arguments a callable must be given by place. An object's own function and a method do
not count their object. The methods of sets hide their parameters, so they count as needing none;
younger runtimes show those of the two inclusions, older ones, as here, do not. -/
def required : Value → Nat
  | function f _ => f.signature.required
  | object o => (o.call.map (·.signature.required)).getD 0
  | builtin .size | renderer => 1
  | _ => 0

end Value

end Mustache
