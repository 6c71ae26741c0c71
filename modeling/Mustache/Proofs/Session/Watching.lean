import Mustache.Proofs.Render.Watch
import Mustache.Proofs.Session.Frame
import Mustache.Proofs.Session.History

/-!
# Watching a session

What happens in the contexts of a session, and with the partials and loaders of its writers, can be
noted as the session goes on: each step that renders or looks a name up is done with a watch, which
goes on from the notes that there are. The contexts of the session and those that sections make are
told apart by numbers.

**Idea.** The work of a step is told of a watch (`Session.watching`). With the notes left out of
what the watch saw, it is what the step answers, records and leaves (`Session.step_eq_retold`).

Main statement: `Session.step_eq_retold`.
-/

namespace Mustache

open Render

/-- What was noted in a session: the scopes of all contexts by their numbers, and what was looked up
in them, the last look first; the number of each context of the session; and the past of each
writer. -/
structure Record where
  scopes : List Scope
  looks : List Look
  numbers : List Nat
  pasts : Nat → List Dealing

namespace Record

/-- Nothing was noted yet. -/
def empty : Record := ⟨[], [], [], fun _ => []⟩

/-- The number of the context of a view. A value is given a new one. -/
def numberOf (r : Record) : View → Nat
  | .value _ => r.scopes.length
  | .context k => r.numbers.getD k 0

theorem numberOf_context {r : Record} {k number : Nat} (h : r.numbers[k]? = some number) :
    r.numberOf (.context k) = number := by
  show r.numbers.getD k 0 = number
  rw [List.getD_eq_getElem?_getD, h]
  rfl

/-- The scopes of all contexts, once a view has one. -/
def scopesWith (r : Record) (scope : Scope) : View → List Scope
  | .value _ => r.scopes ++ [scope]
  | .context _ => r.scopes

/-- A watch over a writer, in the context of a view. -/
def watch (r : Record) (n : Nat) (w : Writer) (view : View) (scope : Scope) : Watch :=
  ⟨w, r.numberOf view, r.scopesWith scope view, r.looks, r.pasts n⟩

/-- The record with what a watch over a writer saw. -/
def seen (r : Record) (n : Nat) (x : Watch) : Record :=
  { r with scopes := x.scopes, looks := x.looks, pasts := Function.update r.pasts n x.past }

/-- The record with some contexts opened. -/
def opening (r : Record) (new : List Scope) : Record :=
  { r with
    scopes := r.scopes ++ new
    numbers := r.numbers ++ List.range' r.scopes.length new.length }

/-- The record with a context of the session made to forget. -/
def forgetting (r : Record) (k : Nat) : Record :=
  match r.numbers[k]? with
  | some number => { r with looks := .forgot number :: r.looks }
  | none => r

/-- Forgetting is no dealing with a writer. -/
@[simp] theorem forgetting_pasts (r : Record) (k : Nat) : (r.forgetting k).pasts = r.pasts := by
  unfold forgetting
  cases r.numbers[k]? <;> rfl

/-- The record with a dealing of a writer noted. -/
def dealt (r : Record) (n : Nat) (d : Dealing) : Record :=
  { r with pasts := Function.update r.pasts n (d :: r.pasts n) }

end Record

/-- What a step does, told of a watch: with which writer, in the context of what view, and how that
goes. -/
structure Watching where
  writer : Nat
  view : View
  act : Scope → Render Watch Answer

/-- What a watch over the work sees, and what the work comes to. -/
def Watching.seen (k : Watching) (r : Record) (w : Writer) (c : Context) (tally : Tally) :
    Except Error Answer × State Watch :=
  (k.act c.scope).runFrom ⟨r.watch k.writer w k.view c.scope, c.memo, tally, []⟩

/-- The state with the notes left out. -/
def Render.State.erased (s : State Watch) : State Writer :=
  ⟨s.writer.writer, s.memo, s.tally, s.log⟩

namespace Session

/-- What a step answers that hands on a text. -/
def sent (taken : Bool) (text : String) : Answer :=
  if taken then .sent none [text] else .sent (some text) []

/-- The work of a step that renders or looks a name up. -/
def watching (s : Session) : Step → Option Watching
  | .call k view partials =>
    s.compiled[k]?.map fun (n, c) =>
      ⟨n, view, fun scope =>
        .rendered <$> Watch.notes.renderCompiled s.settings depthLimit c partials scope⟩
  | .render n t view partials =>
    some ⟨n, view, fun scope =>
      .rendered <$> Watch.notes.template s.settings depthLimit t partials scope⟩
  | .send t view partials taken =>
    some ⟨0, view, fun scope =>
      sent taken <$> Watch.notes.template s.settings depthLimit t partials scope⟩
  | .lookup k name =>
    some ⟨0, .context k, fun scope => .value <$> do
      let v ← Watch.notes.lookup (Watch.notes.deeper s.settings depthLimit) scope name
      ofCurrent Value.writable v⟩
  | _ => none

/-- What is noted after a step, from what was noted before. -/
def noted (s : Session) (r : Record) (a : Step) : Record :=
  match s.watching a with
  | some k =>
    match s.writers[k.writer]?, s.contextOf k.view with
    | some w, some c => r.seen k.writer (k.seen r w c s.tally).2.writer
    | _, _ => r
  | none =>
    match a with
    | .compilePartial n name t delimiters =>
      match s.writers[n]? with
      | some w =>
        match w.compilePartial (delimiters.getD s.settings.delimiters) name t with
        | .ok _ => r.dealt n (.registered name t)
        | .error _ => r
      | none => r
    | .clear n => if (s.writers[n]?).isSome then r.dealt n .cleared else r
    | .makeContext _ | .push _ _ => r.opening (s.opened a)
    | .forget k => r.forgetting k
    | _ => r

/-- What is noted after some steps, from what was noted before. -/
def notedAll (s : Session) (r : Record) : List Step → Record
  | [] => r
  | a :: as => notedAll (s.step a).2 (s.noted r a) as

variable {s : Session} {r : Record} {a : Step} {k : Watching} {n : Nat} {w : Writer} {view : View}
  {c : Context}

theorem noted_eq_seen (hk : s.watching a = some k) (hw : s.writers[k.writer]? = some w)
    (hc : s.contextOf k.view = some c) (r : Record) :
    s.noted r a = r.seen k.writer (k.seen r w c s.tally).2.writer := by
  unfold noted
  rw [hk]
  dsimp only
  rw [hw, hc]

theorem noted_of_not_there (hk : s.watching a = some k)
    (h : s.writers[k.writer]? = none ∨ s.contextOf k.view = none) (r : Record) :
    s.noted r a = r := by
  unfold noted
  rw [hk]
  dsimp only
  rcases h with hw | hc
  · rw [hw]
  · rw [hc]
    cases s.writers[k.writer]? <;> rfl

/-- Compiling changes the writer if it succeeds, and otherwise nothing. -/
theorem writers_compileWith (s : Session) (n : Nat)
    (f : Writer → Except TemplateError (Compiled × Writer)) :
    (∃ w given, s.writers[n]? = some w ∧ f w = .ok given ∧
      (s.compileWith n f).2.writers = s.writers.set n given.2) ∨
    (∀ w, s.writers[n]? = some w → ∃ e, f w = .error e) ∧
      (s.compileWith n f).2.writers = s.writers := by
  cases hw : s.writers[n]? with
  | none =>
    refine .inr ⟨nofun, ?_⟩
    rw [compileWith_of_writers_eq_none hw]
  | some w =>
    cases hf : f w with
    | error e =>
      refine .inr ⟨fun v hv => ?_, ?_⟩
      · cases hv
        exact ⟨e, hf⟩
      · rw [compileWith_error hw hf]
    | ok given =>
      refine .inl ⟨w, given, rfl, hf, ?_⟩
      rw [compileWith_ok hw hf]
      rcases giveOut_cases { s with writers := s.writers.set n given.2 } n given.1 with
        ⟨j, e, -, -, hout⟩ | hout <;> rw [hout]

theorem noted_compilePartial_ok {name t : String} {delimiters : Option Delimiters.Spec}
    {given : Compiled × Writer} (hw : s.writers[n]? = some w)
    (hf : w.compilePartial (delimiters.getD s.settings.delimiters) name t = .ok given)
    (r : Record) :
    s.noted r (.compilePartial n name t delimiters) = r.dealt n (.registered name t) := by
  unfold noted
  dsimp only [watching]
  rw [hw]
  dsimp only
  rw [hf]

theorem noted_compilePartial_error {name t : String} {delimiters : Option Delimiters.Spec}
    (hf : ∀ w, s.writers[n]? = some w →
      ∃ e, w.compilePartial (delimiters.getD s.settings.delimiters) name t = .error e)
    (r : Record) : s.noted r (.compilePartial n name t delimiters) = r := by
  unfold noted
  dsimp only [watching]
  cases hw : s.writers[n]? with
  | none => rfl
  | some w =>
    obtain ⟨e, he⟩ := hf w hw
    dsimp only
    rw [he]

/-! ## Leaving the notes out -/

/-- A step answers, records and leaves what its work comes to with the notes left out, whatever was
noted before. -/
def Retold (s : Session) (r : Record) (a : Step) : Prop :=
  ∀ k w c, s.watching a = some k → s.writers[k.writer]? = some w → s.contextOf k.view = some c →
    let (result, left) := k.seen r w c s.tally
    s.step a = (⟨result, left.log⟩, s.leave k.writer k.view c left.erased)

theorem runFrom_map {α β σ : Type} (f : α → β) (m : Render σ α) (t : State σ) :
    (f <$> m).runFrom t = (f <$> (m.runFrom t).1, (m.runFrom t).2) := by
  rw [map_eq_pure_bind, runFrom_bind]
  rcases m.runFrom t with ⟨x, t'⟩
  cases x <;> rfl

/-- Work that agrees with what is told of a watch comes to the same. -/
theorem run_eq_seen {α : Type} {act : Scope → Render Writer α} {act' : Scope → Render Watch α}
    (hw : s.writers[n]? = some w) (hc : s.contextOf view = some c)
    (h : ∀ scope, Agree Watch.Over Eq (act scope) (act' scope)) (f : α → Answer) (r : Record) :
    ((s.run n view act).1.map f, (s.run n view act).2) =
      let (result, left) := Watching.seen ⟨n, view, fun scope => f <$> act' scope⟩ r w c s.tally
      (⟨result, left.log⟩, s.leave n view c left.erased) := by
  obtain ⟨hresult, hleft⟩ := h c.scope ⟨w, c.memo, s.tally, []⟩
    ⟨r.watch n w view c.scope, c.memo, s.tally, []⟩ ⟨rfl, rfl, rfl, rfl⟩
  rw [run_eq hw hc, Watching.seen, runFrom_map]
  rcases hr : (act c.scope).runFrom ⟨w, c.memo, s.tally, []⟩ with ⟨x, left⟩
  rcases hr' : (act' c.scope).runFrom ⟨r.watch n w view c.scope, c.memo, s.tally, []⟩
    with ⟨x', left'⟩
  rw [hr, hr'] at hresult hleft
  have herased : left'.erased = left := by
    rw [State.erased, show left'.writer.writer = left.writer from hleft.store, ← hleft.memo,
      ← hleft.tally, ← hleft.log]
  have hlog : left'.log = left.log := hleft.log.symm
  dsimp only
  have hx : x = x' := hresult.eq
  rw [herased, hlog, ← hx]
  rfl

theorem exists_of_watching_call {i : Nat} {partials : Partials}
    (hk : s.watching (.call i view partials) = some k) :
    ∃ n given, s.compiled[i]? = some (n, given) ∧
      k = ⟨n, view, fun scope =>
        .rendered <$> Watch.notes.renderCompiled s.settings depthLimit given partials scope⟩ := by
  obtain ⟨g, hg, rfl⟩ := Option.map_eq_some_iff.1 hk
  exact ⟨g.1, g.2, hg, rfl⟩

/-- A function that was not given out is not called. -/
theorem step_of_watching_call_eq_none {i : Nat} {partials : Partials}
    (hk : s.watching (.call i view partials) = none) (r : Record) :
    s.step (.call i view partials) = (.quiet (.error .mismatch), s) ∧
      s.noted r (.call i view partials) = r := by
  have hi : s.compiled[i]? = none := Option.map_eq_none_iff.1 hk
  constructor
  · rw [step, hi]
  · unfold noted
    rw [hk]

/-- **A step does what is told of a watch,** with the notes left out. -/
theorem step_eq_retold (s : Session) (r : Record) (a : Step) : s.Retold r a := by
  intro k w c hk hw hc
  cases a with
  | call i view partials =>
    obtain ⟨n, given, hg, rfl⟩ := exists_of_watching_call hk
    rw [step_call_eq hg]
    have h :=
      (Watch.silent s.settings).agree_call (Watch.agree_accept s.settings partials) depthLimit
    exact run_eq_seen hw hc (h given) .rendered r
  | render n t view partials =>
    cases hk
    have h := (Watch.silent s.settings).agree_template (Watch.agree_accept s.settings partials)
    exact run_eq_seen hw hc (h depthLimit t) .rendered r
  | send t view partials taken =>
    cases hk
    have h := (Watch.silent s.settings).agree_template (Watch.agree_accept s.settings partials)
    exact run_eq_seen hw hc (h depthLimit t) (sent taken) r
  | lookup i name =>
    cases hk
    have silent := Watch.silent s.settings
    have h (scope : Scope) :=
      (silent.agree_lookup (silent.alike_deeper depthLimit) scope name).bindEq
        fun v => agree_onTally fun t => ((v.current t).writable, t)
    exact run_eq_seen hw hc h .value r
  | _ => cases hk

/-- Work with a writer or in a context that is not there is not done. -/
theorem step_of_watching_not_there (hk : s.watching a = some k)
    (h : s.writers[k.writer]? = none ∨ s.contextOf k.view = none) :
    s.step a = (.quiet (.error .mismatch), s) := by
  have same : ∃ j : Work, s.work a = some j ∧ j.writer = k.writer ∧ j.view = k.view := by
    cases a with
    | call i view partials =>
      obtain ⟨n, given, hg, rfl⟩ := exists_of_watching_call hk
      rw [work, hg]
      exact ⟨_, rfl, rfl, rfl⟩
    | render | send | lookup =>
      cases hk
      exact ⟨_, rfl, rfl, rfl⟩
    | _ => cases hk
  obtain ⟨j, hj, hwriter, hview⟩ := same
  exact step_of_not_there hj (hwriter ▸ hview ▸ h)

end Session

end Mustache
