import Mustache.Proofs.Value.Entry
import Mustache.Proofs.Value.Nearest

/-!
# Dotted names

A dotted name may be followed in two parts: what the name up to a dot leads to, and from there what
the name behind the dot leads to. It does not matter at which dot the name is cut, nor whether one
stops at a part that leads nowhere or goes on from nothing.

In a chain of views a dotted name is tried whole, so the view in which its first part leads anywhere
decides only if the rest leads anywhere there. Otherwise the views around are tried, with the whole
name.

Main statements: `Value.resolve_dot`, `Value.resolve_cut` and `Scope.resolve_dot`.
-/

namespace Mustache

namespace Value

theorem segments_append_dot (a b : List Char) :
    segments (a ++ '.' :: b) = segments a ++ segments b := by
  induction a with
  | nil => simp [segments]
  | cons c a ih =>
    by_cases hc : c = '.'
    · simp [segments, hc, ih]
    · cases ha : segments a with
      | nil => exact absurd ha (segments_ne_nil a)
      | cons s ss => simp [segments, hc, ih, ha]

/-- **A dotted name is followed part by part.** -/
theorem resolve_dot (v : Value) (first rest : String) :
    v.resolve (first ++ "." ++ rest) = v.resolve first >>= fun u => u.resolve rest := by
  have hname : (first ++ "." ++ rest).toList = first.toList ++ '.' :: rest.toList := by simp
  simp only [resolve_eq_foldlM, hname, segments_append_dot, List.foldlM_append]

theorem resolve_null (name : String) : null.resolve name = .ok null := by
  rw [resolve_eq_foldlM, foldlM_null fun _ => rfl]

/-- Where the first part of a name leads nowhere, the name does not either. -/
theorem resolve_dot_of_null {v : Value} {first : String} (h : v.resolve first = .ok null)
    (rest : String) : v.resolve (first ++ "." ++ rest) = .ok null := by
  rw [resolve_dot, h]
  exact resolve_null rest

/-! ## Names cut into parts -/

theorem resolve_eq_follow (v : Value) (name : String) :
    v.resolve name = follow get v (segments name.toList) := by
  rw [resolve_eq_foldlM, follow_eq_foldlM fun _ => rfl]

theorem resolve_intercalate (v : Value) (first : String) (rest : List String) :
    v.resolve (".".intercalate (first :: rest)) = (first :: rest).foldlM resolve v := by
  induction rest generalizing v first with
  | nil =>
    rw [String.intercalate_singleton, List.foldlM_cons]
    exact (bind_pure _).symm
  | cons second rest ih =>
    rw [String.intercalate_cons_cons, resolve_dot, List.foldlM_cons]
    exact congrArg (v.resolve first >>= ·) (funext fun u => ih u second)

/-- **It does not matter where a name is cut.** In any value, a name with a dot in it leads nowhere
if what is before the dot does, and otherwise to what the rest leads to from there. A name without
dots may be looked up at once and any other followed segment by segment, up to the first that leads
nowhere, which comes to the same for the former; and a name may be followed part by part wherever it
is cut at dots. -/
theorem resolve_cut (v : Value) (first rest : String) :
    (v.resolve (first ++ "." ++ rest) = do
      let u ← v.resolve first
      if u.isNull then return null else u.resolve rest) ∧
    (v.resolve first =
      if '.' ∈ first.toList then follow get v (segments first.toList) else v.get first.toList) ∧
    v.resolve first = follow get v (segments first.toList) ∧
    ∀ parts : List String,
      v.resolve (".".intercalate (first :: parts)) = follow resolve v (first :: parts) := by
  refine ⟨?_, rfl, resolve_eq_follow v first, fun parts => ?_⟩
  · rw [resolve_dot]
    refine congrArg (v.resolve first >>= ·) (funext fun u => ?_)
    split
    · next hu =>
      rw [isNull_iff.1 hu, resolve_null]
      rfl
    · rfl
  · rw [resolve_intercalate, follow_eq_foldlM resolve_null]

/-- A name with an empty segment, cut at its second dot. -/
example :
    let v := dict [(.str "a", dict [(.str "", list [.int 5, .int 7])])]
    v.resolve "a..1" = .ok (.int 7) ∧ v.resolve "a." = .ok (list [.int 5, .int 7]) :=
  ⟨rfl, rfl⟩

end Value

namespace Scope

/-- Views that have nothing under a name are passed over. -/
theorem resolveIn_of_null {name : String} {before : List Value}
    (h : ∀ u ∈ before, u.resolve name = .ok .null) (views : List Value) :
    resolveIn name (before ++ views) = resolveIn name views := by
  induction before with
  | nil => rfl
  | cons u before ih =>
    obtain ⟨hu, hbefore⟩ := List.forall_mem_cons.1 h
    rw [List.cons_append, resolveIn, hu]
    exact ih hbefore

/-- **A dotted name in a chain of views.** If the first part of the name leads to a value in one
view and nowhere in those inside it, then the name leads to what the rest leads to in that value,
unless that is nowhere: then it leads to what the whole name leads to in the views around. -/
theorem resolve_dot {scope : Scope} {first rest : String} (hname : first ++ "." ++ rest ≠ ".")
    {before after : List Value} {w v : Value} (hviews : scope.views = before ++ w :: after)
    (hbefore : ∀ u ∈ before, u.resolve first = .ok .null) (hw : w.resolve first = .ok v) :
    scope.resolve (first ++ "." ++ rest) = v.resolve rest >>= fun found =>
      if found.isNull then resolveIn (first ++ "." ++ rest) after else .ok found := by
  have hpassed : ∀ u ∈ before, u.resolve (first ++ "." ++ rest) = .ok .null :=
    fun u hu => Value.resolve_dot_of_null (hbefore u hu) rest
  have hcut : w.resolve (first ++ "." ++ rest) = v.resolve rest := by
    rw [Value.resolve_dot, hw]
    rfl
  rw [resolve_of_ne hname, hviews, resolveIn_of_null hpassed, resolveIn, hcut]
  rfl

end Scope

end Mustache
