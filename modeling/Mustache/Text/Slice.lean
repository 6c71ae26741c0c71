/-!
# Slices by signed offsets

Offsets into a text may be given from its end: a negative offset counts backwards from there, and
an offset that lies outside the text stands for its nearer end. `slice_natCast` says that for
offsets inside the text a slice is what lies between them.
-/

namespace Mustache.Text

/-- The place that a signed offset stands for in a text of the given length. -/
def place (length : Nat) (offset : Int) : Nat :=
  if offset < 0 then (offset + length).toNat else min offset.toNat length

/-- The part of a text between two signed offsets; without the second, all after the first. -/
def slice {α : Type} (s : List α) (start : Int) (stop : Option Int) : List α :=
  let first := place s.length start
  let last := (stop.map (place s.length)).getD s.length
  (s.drop first).take (last - first)

theorem place_natCast {length offset : Nat} (h : offset ≤ length) :
    place length offset = offset := by
  have h0 : ¬ (offset : Int) < 0 := by omega
  simp [place, h0, Nat.min_eq_left h]

theorem slice_natCast {α : Type} (s : List α) {start stop : Nat} (h : start ≤ stop)
    (hs : stop ≤ s.length) :
    slice s start (some (stop : Int)) = (s.drop start).take (stop - start) := by
  simp [slice, place_natCast hs, place_natCast (Nat.le_trans h hs)]

end Mustache.Text
