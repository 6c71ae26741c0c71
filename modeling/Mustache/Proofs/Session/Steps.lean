import Mathlib.Tactic.Common
import Mustache.Session

/-!
# What steps do with a writer

A step of a session that renders runs a computation with one writer, in the context of a view, and a
step that compiles changes one writer and gives out what it compiled. Here both are said for a
writer and a context that are there.

Main statements: `run_eq`, `compileWith_error` and `compileWith_ok`.
-/

namespace Mustache.Session

variable {s : Session} {n : Nat} {w w' : Writer} {view : View} {c : Context}

/-- The session after a computation with a writer, in the context of a view. -/
def leave (s : Session) (n : Nat) (view : View) (c : Context) (left : Render.State Writer) :
    Session :=
  { s with
    writers := s.writers.set n left.writer
    contexts := match view with
      | .value _ => s.contexts
      | .context k => s.contexts.set k { c with memo := left.memo }
    tally := left.tally }

theorem set_eq_self {α : Type} {l : List α} {k : Nat} {a : α} (h : l[k]? = some a) :
    l.set k a = l := by
  obtain ⟨hk, rfl⟩ := List.getElem?_eq_some_iff.1 h
  exact List.set_getElem_self hk

/-- Nothing but the writer has changed. -/
theorem leave_eq (hc : s.contextOf view = some c) (w' : Writer) (log : List Event) :
    s.leave n view c ⟨w', c.memo, s.tally, log⟩ = { s with writers := s.writers.set n w' } := by
  cases view with
  | value v => rfl
  | context k =>
    show ({ s with writers := s.writers.set n w', contexts := s.contexts.set k c } : Session) = _
    rw [set_eq_self hc]

theorem run_eq {α : Type} (hw : s.writers[n]? = some w) (hc : s.contextOf view = some c)
    (act : Scope → Render Writer α) :
    s.run n view act =
      let (result, left) := (act c.scope).runFrom ⟨w, c.memo, s.tally, []⟩
      (⟨result, left.log⟩, s.leave n view c left) := by
  rw [run, hw, hc]
  rfl

theorem run_of_not_there {α : Type} (h : s.writers[n]? = none ∨ s.contextOf view = none)
    (act : Scope → Render Writer α) : s.run n view act = (.quiet (.error .mismatch), s) := by
  rw [run]
  rcases h with hw | hc
  · rw [hw]
  · rw [hc]
    cases s.writers[n]? <;> rfl

theorem compileWith_of_writers_eq_none (hw : s.writers[n]? = none)
    (f : Writer → Except TemplateError (Compiled × Writer)) :
    s.compileWith n f = (.quiet (.error .mismatch), s) := by
  rw [compileWith, hw]

theorem compileWith_error {f : Writer → Except TemplateError (Compiled × Writer)}
    {e : TemplateError} (hw : s.writers[n]? = some w) (hf : f w = .error e) :
    s.compileWith n f = (.quiet (.error (.template e)), s) := by
  simp only [compileWith, hw, hf]

theorem compileWith_ok {f : Writer → Except TemplateError (Compiled × Writer)} {c : Compiled}
    (hw : s.writers[n]? = some w) (hf : f w = .ok (c, w')) :
    s.compileWith n f = giveOut { s with writers := s.writers.set n w' } n c := by
  simp only [compileWith, hw, hf]

/-- A compiled template is given out under the number that it has, or under a new one. -/
theorem giveOut_cases (s : Session) (n : Nat) (c : Compiled) :
    (∃ k e, s.compiled[k]? = some (n, e) ∧ e.number = c.number ∧
      s.giveOut n c = (.quiet (.ok (.compiled k)), s)) ∨
    s.giveOut n c = (.quiet (.ok (.compiled s.compiled.length)),
      { s with compiled := s.compiled ++ [(n, c)] }) := by
  rw [giveOut]
  cases hfind : s.compiled.findIdx? fun g => g.1 == n && g.2.number == c.number with
  | none => exact .inr rfl
  | some k =>
    obtain ⟨hk, hp, -⟩ := List.findIdx?_eq_some_iff_getElem.1 hfind
    simp only [Bool.and_eq_true, beq_iff_eq] at hp
    refine .inl ⟨k, s.compiled[k].2, ?_, hp.2, rfl⟩
    rw [List.getElem?_eq_getElem hk, ← hp.1]

/-- A compiled template is called with the writer that it is of. -/
theorem step_call_eq {k : Nat} {given : Compiled} {partials : Partials}
    (hk : s.compiled[k]? = some (n, given)) :
    s.step (.call k view partials) =
      ((s.run n view (Render.call s.settings Render.depthLimit given partials)).1.map .rendered,
        (s.run n view (Render.call s.settings Render.depthLimit given partials)).2) := by
  rw [step, hk]

end Mustache.Session
