import Mathlib.Tactic.Common
import Mustache.Context

/-!
# The nearest view

A name leads to what stands under the whole of it in the nearest view where anything does; the name
`.` leads to the innermost view itself. Following a name into a view may fail, and then looking the
name up fails if no nearer view has anything under it.

Main statements: `Scope.resolve_eq_ok_iff` and `Scope.resolve_eq_error_iff`.
-/

namespace Mustache

namespace Scope

/-- A name leads to a value in a scope. -/
inductive Finds (scope : Scope) : String → Value → Prop
  | view : Finds scope "." scope.view
  | nearest {name : String} {before after : List Value} {w v : Value} (hname : name ≠ ".")
      (hviews : scope.views = before ++ w :: after)
      (hbefore : ∀ u ∈ before, u.resolve name = .ok .null)
      (hw : w.resolve name = .ok v) (hv : v ≠ .null) : Finds scope name v
  | nothing {name : String} (hname : name ≠ ".")
      (hviews : ∀ u ∈ scope.views, u.resolve name = .ok .null) : Finds scope name .null

/-- Following a name fails in the nearest view where it does not lead to nothing. -/
def Fails (scope : Scope) (name : String) (e : Error) : Prop :=
  name ≠ "." ∧ ∃ before w after, scope.views = before ++ w :: after ∧
    (∀ u ∈ before, u.resolve name = .ok .null) ∧ w.resolve name = .error e

variable {scope : Scope} {name : String} {v : Value} {e : Error} {views before after : List Value}
  {w : Value}

theorem resolveIn_eq_null (hviews : ∀ u ∈ views, u.resolve name = .ok .null) :
    resolveIn name views = .ok .null := by
  induction views with
  | nil => rfl
  | cons u views ih =>
    obtain ⟨hu, hviews⟩ := List.forall_mem_cons.1 hviews
    rw [resolveIn, hu]
    exact ih hviews

/-- Views that have nothing under a name are passed over, and the first other one decides. -/
theorem resolveIn_append (hbefore : ∀ u ∈ before, u.resolve name = .ok .null)
    (hw : w.resolve name ≠ .ok .null) :
    resolveIn name (before ++ w :: after) = w.resolve name := by
  induction before with
  | nil =>
    rw [List.nil_append, resolveIn]
    cases hr : w.resolve name with
    | error e => rfl
    | ok v =>
      have hv : v.isNull = false := by
        rw [Bool.eq_false_iff, Ne, Value.isNull_iff]
        rintro rfl
        exact hw hr
      show (if v.isNull then resolveIn name after else pure v) = _
      rw [hv]
      rfl
  | cons u before ih =>
    obtain ⟨hu, hbefore⟩ := List.forall_mem_cons.1 hbefore
    rw [List.cons_append, resolveIn, hu]
    exact ih hbefore

/-- Either no view has anything under a name, or there is a nearest one that has, or where following
the name fails. -/
theorem all_null_or_exists_cut (name : String) (views : List Value) :
    (∀ u ∈ views, u.resolve name = .ok .null) ∨
      ∃ before w after, views = before ++ w :: after ∧
        (∀ u ∈ before, u.resolve name = .ok .null) ∧ w.resolve name ≠ .ok .null := by
  induction views with
  | nil => exact .inl fun _ h => nomatch h
  | cons v views ih =>
    by_cases hv : v.resolve name = .ok .null
    · rcases ih with hall | ⟨before, w, after, rfl, hbefore, hw⟩
      · exact .inl (List.forall_mem_cons.2 ⟨hv, hall⟩)
      · exact .inr ⟨v :: before, w, after, rfl, List.forall_mem_cons.2 ⟨hv, hbefore⟩, hw⟩
    · exact .inr ⟨[], v, views, rfl, nofun, hv⟩

theorem resolve_of_ne (hname : name ≠ ".") : scope.resolve name = resolveIn name scope.views :=
  if_neg hname

/-- **Looking up finds what stands under the whole name in the nearest view.** -/
theorem resolve_eq_ok_iff : scope.resolve name = .ok v ↔ scope.Finds name v := by
  constructor
  · intro h
    by_cases hname : name = "."
    · subst hname
      cases h
      exact .view
    rw [resolve_of_ne hname] at h
    rcases all_null_or_exists_cut name scope.views with hall | ⟨before, w, after, hcut, hbefore, hw⟩
    · rw [resolveIn_eq_null hall] at h
      cases h
      exact .nothing hname hall
    · rw [hcut, resolveIn_append hbefore hw] at h
      refine .nearest hname hcut hbefore h ?_
      rintro rfl
      exact hw h
  · intro h
    cases h with
    | view => rfl
    | nearest hname hviews hbefore hw hv =>
      rw [resolve_of_ne hname, hviews, resolveIn_append hbefore, hw]
      rw [hw]
      exact fun heq => hv (Except.ok.inj heq)
    | nothing hname hviews => rw [resolve_of_ne hname, resolveIn_eq_null hviews]

/-- **Looking up fails where following the name does.** -/
theorem resolve_eq_error_iff : scope.resolve name = .error e ↔ scope.Fails name e := by
  constructor
  · intro h
    have hname : name ≠ "." := by
      rintro rfl
      cases h
    rw [resolve_of_ne hname] at h
    rcases all_null_or_exists_cut name scope.views with hall | ⟨before, w, after, hcut, hbefore, hw⟩
    · rw [resolveIn_eq_null hall] at h
      cases h
    · rw [hcut, resolveIn_append hbefore hw] at h
      exact ⟨hname, before, w, after, hcut, hbefore, h⟩
  · rintro ⟨hname, before, w, after, hcut, hbefore, hw⟩
    rw [resolve_of_ne hname, hcut, resolveIn_append hbefore, hw]
    rw [hw]
    nofun

end Scope

end Mustache
