import Mustache.Value.Key
import Mustache.Value.Kind
import Mustache.Value.SetMethod
import Mustache.Decimal.Reading
import Mustache.Error

/-!
# Paths into values

A dotted name leads into a value segment by segment. A segment names an entry of a mapping, a member
of an object, a method of a set, or, written in digits, an item of a sequence; everything else has
nothing under any name, and nothing leads on from nothing. Members whose names start with an
underscore are private.
-/

namespace Mustache.Value

/-- The segments of a dotted name, one more than it has dots. -/
def segments : List Char → List (List Char)
  | [] => [[]]
  | c :: r =>
    if c = '.' then [] :: segments r
    else match segments r with
      | [] => [[c]]
      | s :: ss => (c :: s) :: ss

/-- The number that a segment is written as, if it is one. -/
def place? (segment : List Char) : Option Nat :=
  if segment ≠ [] ∧ segment.all Char.isDigit then
    some (Decimal.natOfDigits segment)
  else none

/-- The item of a sequence that a segment names. A number with too many digits is refused, and so is
any number where the sequence cannot be measured. -/
def itemAt (segment : List Char) (size : Nat) (item? : Nat → Option Value) : Except Error Value :=
  match place? segment with
  | none => .ok null
  | some n =>
    if Error.maxDigits < segment.length then .error (.digitLimit segment.length)
    else if Range.sizeLimit ≤ size then .error .tooLarge
    else .ok ((item? n).getD null)

/-- The entry of a mapping under a name. -/
def named? (entries : List (Value × Value)) (name : String) : Option Value :=
  (entries.find? fun e => match e.1 with
    | str s => s == name
    | _ => false).map (·.2)

/-- What stands under one segment of a name in a value. -/
def get (v : Value) (segment : List Char) : Except Error Value :=
  match v with
  | dict entries => .ok ((named? entries (String.ofList segment)).getD null)
  | object o =>
    if o.call.isSome || segment.head? == some '_' then .ok null
    else .ok ((o.member? (String.ofList segment)).getD null)
  | set identity items =>
    match SetMethod.ofName? (String.ofList segment) with
    | some m => .ok (setMethod m identity items)
    | none => .ok null
  | list xs | tuple xs => itemAt segment xs.length (xs[·]?)
  | range start stop step =>
    let size := Range.size start stop step
    itemAt segment size fun n => if n < size then some (int (Range.item start step n)) else none
  | _ => .ok null

/-- Whether a value is nothing. -/
def isNull : Value → Bool
  | null => true
  | _ => false

/-- What the parts of a name lead to, one after the other, up to the first that leads nowhere. -/
def follow {α : Type} (lead : Value → α → Except Error Value) : Value → List α → Except Error Value
  | v, [] => .ok v
  | v, part :: parts => do
    let u ← lead v part
    if u.isNull then return null else follow lead u parts

/-- What a name leads to in a value. A name without dots is looked up at once, any other one is
followed segment by segment. -/
def resolve (v : Value) (name : String) : Except Error Value :=
  if '.' ∈ name.toList then follow get v (segments name.toList) else v.get name.toList

/-! ## Following names -/

theorem isNull_iff {v : Value} : v.isNull = true ↔ v = null := by
  cases v <;> simp [isNull]

/-- A name without dots is a segment. -/
theorem segments_of_dotless {s : List Char} (h : '.' ∉ s) : segments s = [s] := by
  induction s with
  | nil => rfl
  | cons c s ih =>
    have hc : c ≠ '.' := fun hc => h (hc ▸ List.mem_cons_self)
    rw [segments, if_neg hc, ih fun hs => h (List.mem_cons_of_mem c hs)]

/-- Nothing leads on from nothing, whatever leads along the parts. -/
theorem foldlM_null {α : Type} {lead : Value → α → Except Error Value}
    (hlead : ∀ part, lead null part = .ok null) (parts : List α) :
    parts.foldlM lead null = .ok null := by
  induction parts with
  | nil => rfl
  | cons part parts ih =>
    rw [List.foldlM_cons, hlead]
    exact ih

/-- Stopping at the first part that leads nowhere changes nothing. -/
theorem follow_eq_foldlM {α : Type} {lead : Value → α → Except Error Value}
    (hlead : ∀ part, lead null part = .ok null) (v : Value) (parts : List α) :
    follow lead v parts = parts.foldlM lead v := by
  induction parts generalizing v with
  | nil => rfl
  | cons part parts ih =>
    rw [follow, List.foldlM_cons]
    refine congrArg (lead v part >>= ·) (funext fun u => ?_)
    split
    · next hu =>
      rw [isNull_iff.1 hu, foldlM_null hlead]
      rfl
    · exact ih u

/-- A name without dots comes to the same, looked up at once or followed. -/
theorem resolve_eq_foldlM (v : Value) (name : String) :
    v.resolve name = (segments name.toList).foldlM get v := by
  rw [resolve]
  split
  · exact follow_eq_foldlM (fun _ => rfl) v _
  · next hdot =>
    rw [segments_of_dotless hdot, List.foldlM_cons]
    exact (bind_pure _).symm

end Mustache.Value
