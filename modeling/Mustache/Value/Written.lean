import Mustache.Value.Text
import Mustache.Error

/-!
# Writing values

A value is written as its text, unless it holds an integer with more digits than are ever written.
`written_eq_ok_iff` says when there is a text.
-/

namespace Mustache.Value

/-- The value itself, if it can be written. -/
def writable (v : Value) : Except Error Value :=
  if v.isWritable then .ok v else .error .unwritable

/-- The text of a value, if it can be written. -/
def written (v : Value) : Except Error String := text <$> v.writable

theorem written_eq_ok_iff {v : Value} {s : String} :
    v.written = .ok s ↔ v.isWritable = true ∧ s = v.text := by
  unfold written writable
  split
  · next h => simp [h, Functor.map, Except.map, eq_comm]
  · next h => simp [h, Functor.map, Except.map]

end Mustache.Value
