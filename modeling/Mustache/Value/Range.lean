/-!
# Integer ranges

The integers from a start towards a stop in steps of one size, the stop excluded. `item` gives the
one at a place and `items` all of them.
-/

namespace Mustache.Range

/-- How many integers a range has. -/
def size (start stop step : Int) : Nat :=
  if 0 < step then ((stop - start + step - 1) / step).toNat
  else if step < 0 then ((start - stop - step - 1) / (-step)).toNat
  else 0

/-- The integer at a place. -/
def item (start step : Int) (place : Nat) : Int := start + place * step

/-- All integers of a range. -/
def items (start stop step : Int) : List Int :=
  (List.range (size start stop step)).map (item start step)

/-- Sizes and places stay below this; what has this many items or more cannot be measured. -/
def sizeLimit : Nat := Nat.pow 2 63

end Mustache.Range
