import Mustache.Value.Key
import Mustache.Error

/-!
# Equality and order of values

Numbers are equal and ordered by what they stand for, texts and byte strings go by their elements,
and lists and tuples by the first items that differ. Sets are ordered by inclusion. Nothing else is
ordered, and values of different sorts are neither equal nor ordered. Objects and functions are
equal to themselves only.
-/

namespace Mustache.Value

/-- The bytes of a byte string of either sort. -/
def byteString? : Value → Option (List UInt8)
  | bytes b | byteArray b => some b
  | _ => none

/-- Whether all items of a set are in another one. -/
def includes (ys xs : List Value) : Bool := xs.all fun x => ys.any (sameKey x)

/-- Whether two values that do not hold others are equal. -/
def equalLeaf (v w : Value) : Bool :=
  match v.byteString?, w.byteString? with
  | some b, some c => b == c
  | _, _ => sameKey v w

mutual

/-- Whether two values are equal. -/
def equal : Value → Value → Bool
  | list xs, list ys => equalAll xs ys
  | tuple xs, tuple ys => equalAll xs ys
  | set _ xs, set _ ys => xs.length == ys.length && includes ys xs
  | dict xs, dict ys => xs.length == ys.length && equalEntries xs ys
  | v, w => equalLeaf v w

/-- Whether two lists of values are equal, one by one. -/
def equalAll : List Value → List Value → Bool
  | [], [] => true
  | v :: vs, w :: ws => equal v w && equalAll vs ws
  | _, _ => false

/-- Whether a mapping has all of some entries. -/
def equalEntries : List (Value × Value) → List (Value × Value) → Bool
  | [], _ => true
  | e :: es, others => equalEntry e others && equalEntries es others

/-- Whether a mapping has an entry. -/
def equalEntry : Value × Value → List (Value × Value) → Bool
  | (k, v), others =>
    match entry? others k with
    | some w => equal v w
    | none => false

end

/-! ## Order -/

/-- Whether an integer is below a double. -/
def intBelow (n : Int) (x : Float) : Bool :=
  match Decimal.Real.ofFloat x with
  | .zero _ => n < 0
  | .finite negative b =>
    let m : Int := if negative then -(b.significand : Int) else b.significand
    n * Nat.pow 2 (-b.exponent).toNat < m * Nat.pow 2 b.exponent.toNat
  | .infinite negative => !negative
  | .notANumber => false

/-- Whether a double is below an integer. -/
def belowInt (x : Float) (n : Int) : Bool := intBelow (-n) (-x)

/-- Whether a value that holds no others is below another one. -/
def lessLeaf (v w : Value) : Except Error Bool :=
  match v.byteString?, w.byteString? with
  | some b, some c => .ok (decide (b < c))
  | _, _ =>
    match v, w with
    | str s, str t => .ok (decide (s < t))
    | float x, float y => .ok (decide (x < y))
    | float x, w => match w.asInt? with
      | some n => .ok (belowInt x n)
      | none => .error .mismatch
    | v, float y => match v.asInt? with
      | some n => .ok (intBelow n y)
      | none => .error .mismatch
    | v, w => match v.asInt?, w.asInt? with
      | some m, some n => .ok (decide (m < n))
      | _, _ => .error .mismatch

mutual

/-- Whether a value is below another one, if the two are ordered at all. -/
def less : Value → Value → Except Error Bool
  | list xs, list ys => lessAll xs ys
  | tuple xs, tuple ys => lessAll xs ys
  | set _ xs, set _ ys => .ok (xs.length < ys.length && includes ys xs)
  | v, w => lessLeaf v w

/-- Whether a list of values is below another one, which the first items that differ decide. -/
def lessAll : List Value → List Value → Except Error Bool
  | _, [] => .ok false
  | [], _ :: _ => .ok true
  | v :: vs, w :: ws => if equal v w then lessAll vs ws else less v w

end

/-- The least of some values, the first one of several. -/
def least (v : Value) : List Value → Except Error Value
  | [] => .ok v
  | w :: ws => do
    if ← less w v then least w ws else least v ws

end Mustache.Value
