import Mustache.Value.Basic
import Mustache.Value.Range
import Mustache.Decimal.Shortest

/-!
# Keys

Which values are one key of a mapping. Numbers are compared by what they stand for, so that one, one
point zero and true are the same key; tuples are compared item by item. Objects and functions are
told apart by their identity alone, a method also by that of its object or set. `dictOf` builds a
mapping from entries: the first of equal keys keeps its place, the last value wins.
-/

namespace Mustache.Value

/-- The integer that a double stands for, if it is one. -/
def integral? (x : Float) : Option Int :=
  match Decimal.Real.ofFloat x with
  | .zero _ => some 0
  | .finite negative b =>
    let magnitude := b.significand * Nat.pow 2 b.exponent.toNat / Nat.pow 2 (-b.exponent).toNat
    if magnitude * Nat.pow 2 (-b.exponent).toNat = b.significand * Nat.pow 2 b.exponent.toNat then
      some (if negative then -(magnitude : Int) else magnitude)
    else none
  | _ => none

/-- The integer that a number stands for, if it is one. -/
def asInt? : Value → Option Int
  | bool b => some (if b then 1 else 0)
  | int n => some n
  | float x => integral? x
  | _ => none

/-- Whether two ranges have the same integers. -/
def sameRange (start stop step start' stop' step' : Int) : Bool :=
  let size := Range.size start stop step
  size == Range.size start' stop' step' &&
    (size == 0 || start == start' && (size == 1 || step == step'))

mutual

/-- Whether a value can be a key at all. Collections that can change cannot, nor tuples of them. -/
def canBeKey : Value → Bool
  | list _ | dict _ | set _ _ | byteArray _ => false
  | tuple items => canBeKeys items
  | _ => true

/-- Whether all of some values can be keys. -/
def canBeKeys : List Value → Bool
  | [] => true
  | v :: vs => canBeKey v && canBeKeys vs

end

mutual

/-- Whether two values are the same key. -/
def sameKey : Value → Value → Bool
  | null, null => true
  | str s, str t => s == t
  | bytes b, bytes c => b == c
  | range a b c, range x y z => sameRange a b c x y z
  | tuple xs, tuple ys => sameKeys xs ys
  | float x, float y => x == y
  | builtin b, builtin c => b == c
  | object o, object p => o.identity == p.identity
  | function f o, function g p =>
    f.identity == g.identity && o.map Object.identity == p.map Object.identity
  | setMethod m i _, setMethod n j _ => m == n && i == j
  | renderer, renderer => true
  | v, w =>
    match asInt? v, asInt? w with
    | some m, some n => m == n
    | _, _ => false

/-- Whether two lists of values are the same keys, one by one. -/
def sameKeys : List Value → List Value → Bool
  | [], [] => true
  | v :: vs, w :: ws => sameKey v w && sameKeys vs ws
  | _, _ => false

end

/-- The entry under a key. -/
def entry? (entries : List (Value × Value)) (key : Value) : Option Value :=
  (entries.find? fun e => sameKey e.1 key).map (·.2)

/-- Puts an entry into a mapping. -/
def putEntry (entries : List (Value × Value)) (key v : Value) : List (Value × Value) :=
  if entries.any fun e => sameKey e.1 key then
    entries.map fun e => if sameKey e.1 key then (e.1, v) else e
  else entries ++ [(key, v)]

/-- The mapping of a list of entries. -/
def dictOf (entries : List (Value × Value)) : Value :=
  dict (entries.foldl (fun es e => putEntry es e.1 e.2) [])

end Mustache.Value
