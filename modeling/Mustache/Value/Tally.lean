import Mustache.Table
import Mustache.Value.Kind

/-!
# What changes

Values do not change, but for two things: counters count, and sets lose items. A tally says how far
the counters are, and how many items are left in those sets that any were taken out of. Items are
taken from the front, so what is left of a set is an end of the items that it had at first.

`current` is what a value is by now. Sets can be neither keys nor items of sets, so only lists,
tuples and the values of mappings are looked into.

Main statement: `Tally.remaining_suffix`, sets never grow.
-/

namespace Mustache

/-- How far counters are, and what is left of sets. -/
structure Tally where
  counters : Table Nat
  /-- How many items are left in a set, the last word coming first. -/
  left : List (SetId × Nat)
  /-- How many sets were made. -/
  made : Nat
  deriving DecidableEq

namespace Tally

/-- Nothing was counted, and nothing was taken out of a set. -/
def empty : Tally := ⟨∅, [], 0⟩

instance : EmptyCollection Tally := ⟨empty⟩

/-- The items that are left in a set. -/
def remaining (t : Tally) (identity : SetId) (items : List Value) : List Value :=
  match t.left.lookup identity with
  | none => items
  | some n => items.drop (items.length - n)

/-- Leaves only so many items in a set. -/
def leave (t : Tally) (identity : SetId) (n : Nat) : Tally :=
  { t with left := (identity, n) :: t.left }

/-- Adds one to a counter, and gives the sum. -/
def count (t : Tally) (name : String) : Nat × Tally :=
  let n := (t.counters.find? name).getD 0 + 1
  (n, { t with counters := t.counters.insert name n })

theorem remaining_suffix (t : Tally) (identity : SetId) (items : List Value) :
    t.remaining identity items <:+ items := by
  unfold remaining
  split
  · exact List.suffix_refl items
  · exact List.drop_suffix _ _

end Tally

namespace Value

mutual

/-- What a value is by now. -/
def current (t : Tally) : Value → Value
  | list items => list (currentAll t items)
  | tuple items => tuple (currentAll t items)
  | set identity items => set identity (t.remaining identity items)
  | dict entries => dict (currentEntries t entries)
  | v => v

/-- What some values are by now. -/
def currentAll (t : Tally) : List Value → List Value
  | [] => []
  | v :: vs => current t v :: currentAll t vs

/-- What an entry of a mapping is by now. -/
def currentEntry (t : Tally) : Value × Value → Value × Value
  | (key, v) => (key, current t v)

/-- What the entries of a mapping are by now. -/
def currentEntries (t : Tally) : List (Value × Value) → List (Value × Value)
  | [] => []
  | e :: es => currentEntry t e :: currentEntries t es

end

variable {t : Tally}

theorem currentAll_eq_map (vs : List Value) : currentAll t vs = vs.map (current t) := by
  induction vs with
  | nil => rfl
  | cons v vs ih => rw [currentAll, ih, List.map_cons]

@[simp] theorem kind_current (v : Value) : (v.current t).kind = v.kind := by
  cases v <;> rfl

/-- What can be called never changes. -/
theorem current_of_kind_callable {v : Value} (h : v.kind = .callable) : v.current t = v := by
  cases v <;> first | rfl | cases h

end Value

end Mustache
