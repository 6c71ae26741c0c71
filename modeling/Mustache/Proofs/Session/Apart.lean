import Mustache.Proofs.Session.Frame
import Mustache.Proofs.Session.Interpreter
import Mustache.Proofs.Render.Steady

/-!
# Writers keep to themselves

A session may have many writers. What is done with one of them does not touch the others: if all
that is addressed to other writers is left out of a session, the steps that are left answer what
they answered, and the writer knows in the end what it knew. Compiled templates are numbered in the
order in which they are given out, so in what is left they have other numbers.

Sets are there for all writers. Where a step that is left out takes an item out of a set, through a
method of the set, the item is missing for the others; and sets that are made are numbered. So no
step that is left out may do that. Two settings are there for all writers too. A writer with a way
of escaping of its own does not even see when the one for all is changed.

**Idea.** `SameFor n s t` says that a session `t` has all that a session `s` has for its writer `n`.
A step that concerns the writer keeps two sessions so, taken in both (`SameFor.step`); any other
step does, taken in `s` alone (`SameFor.leaveOut`). What is then remembered in `s` is ahead of what
is remembered in `t`, and makes no difference.

Main statement: `Session.writers_apart`.
-/

namespace Mustache

open Render

/-- The step with the compiled templates numbered anew. -/
def Step.renumber (f : Nat → Nat) : Step → Step
  | .call k view partials => .call (f k) view partials
  | a => a

/-- The answer with the compiled templates numbered anew. -/
def Answer.renumber (f : Nat → Nat) : Answer → Answer
  | .compiled k => .compiled (f k)
  | a => a

@[simp] theorem Step.made_renumber (f : Nat → Nat) (a : Step) : (a.renumber f).made = a.made := by
  cases a <;> rfl

@[simp] theorem Settings.after_renumber (settings : Settings) (f : Nat → Nat) (a : Step) :
    settings.after (a.renumber f) = settings.after a := by
  cases a <;> rfl

/-! ## Places in a part of a list -/

section Places

variable {α : Type} {p q : α → Bool}

/-- What is found in a part of a list stands there behind as many as are of that part before it. -/
theorem findIdx?_filter_of_imp (h : ∀ a, p a = true → q a = true) (l : List α) :
    (l.filter q).findIdx? p = (l.findIdx? p).map fun k => (l.take k).countP q := by
  induction l with
  | nil => rfl
  | cons a l ih =>
    by_cases hp : p a = true
    · simp [List.findIdx?_cons, h a hp, hp]
    · by_cases hq : q a = true
      · simp [List.findIdx?_cons, hp, hq, ih, Function.comp_def]
      · simp [List.findIdx?_cons, hp, hq, ih, Function.comp_def]

theorem getElem?_filter_countP {l : List α} {k : Nat} (h : ∀ a, l[k]? = some a → q a = true) :
    (l.filter q)[(l.take k).countP q]? = l[k]? := by
  induction l generalizing k with
  | nil => rfl
  | cons a l ih =>
    cases k with
    | zero => simp [h a rfl]
    | succ k =>
      have ih := ih (k := k) h
      by_cases hq : q a = true
      · simpa [hq] using ih
      · simpa [hq] using ih

end Places

namespace Session

/-! ## What is addressed to whom -/

/-- Whether a step is addressed to no other writer. -/
def isFor (n : Nat) (s : Session) (a : Step) : Bool := (s.addressee a).all (· == n)

/-- Whether a writer has a way of escaping of its own. -/
def hasOwnEscape (s : Session) (n : Nat) : Bool := s.writers[n]?.any fun w => w.escape.isSome

/-- Whether a step is of any concern for a writer: it is addressed to no other one, and is not only
about the way of escaping that the writer does not use. -/
def concerns (n : Nat) (s : Session) : Step → Bool
  | .setEscape _ => !s.hasOwnEscape n
  | a => s.isFor n a

/-- The number of a compiled template among those of its writer. -/
def rank (s : Session) (n k : Nat) : Nat := (s.compiled.take k).countP (isOf n)

/-- The steps that are kept, with the numbers that compiled templates have if the others are left
out. -/
def kept (keep : Session → Step → Bool) (n : Nat) (s : Session) : List Step → List Step
  | [] => []
  | a :: as =>
    if keep s a then a.renumber (s.rank n) :: kept keep n (s.step a).2 as
    else kept keep n (s.step a).2 as

/-- No step that is left out takes an item out of a set, or makes a set. -/
def LeavesSets (keep : Session → Step → Bool) (s : Session) : List Step → Prop
  | [] => True
  | a :: as =>
    (keep s a = false → (s.step a).2.tally = s.tally) ∧ LeavesSets keep (s.step a).2 as

instance decidableLeavesSets (keep : Session → Step → Bool) (s : Session) :
    (steps : List Step) → Decidable (s.LeavesSets keep steps)
  | [] => inferInstanceAs (Decidable True)
  | a :: as =>
    let _ := decidableLeavesSets keep (s.step a).2 as
    inferInstanceAs (Decidable ((keep s a = false → (s.step a).2.tally = s.tally) ∧
      LeavesSets keep (s.step a).2 as))

/-! ## Two sessions, the same for one writer -/

variable {s t : Session} {n m : Nat} {a : Step} {view : View} {keep : Session → Step → Bool}

theorem opened_renumber (s : Session) (f : Nat → Nat) (a : Step) :
    s.opened (a.renumber f) = s.opened a := by
  cases a <;> rfl

/-- A session has all that another one has for a writer: the writer itself and the templates that it
compiled, the settings as far as the writer sees them, contexts of the same scopes, and the sets as
they are by now. What is remembered in the other one is at most ahead. -/
structure SameFor (n : Nat) (s t : Session) : Prop where
  delimiters : t.settings.delimiters = s.settings.delimiters
  escape : t.settings.escape = s.settings.escape ∨ s.hasOwnEscape n = true
  length : t.writers.length = s.writers.length
  writer : t.writers[n]? = s.writers[n]?
  compiled : t.compiled = s.compiled.filter (isOf n)
  scopes : t.scopes = s.scopes
  tally : t.tally = s.tally
  memos : s.IsAhead t
  plain : s.IsPlain
  left : s.Remembers
  right : t.Remembers

/-- A step does the same for a writer in two sessions, in the second one with the numbers of the
writer's own compiled templates. -/
structure DoesSame (n : Nat) (s : Session) (o o' : Outcome Answer × Session) : Prop where
  answer : o'.1 = o.1.map (Answer.renumber (o.2.rank n))
  writer : o'.2.writers[n]? = o.2.writers[n]?
  compiled : o'.2.compiled = o.2.compiled.filter (isOf n)
  escape : s.hasOwnEscape n = true → o.2.hasOwnEscape n = true
  tally : o'.2.tally = o.2.tally
  memos : o.2.IsAhead o'.2

namespace SameFor

theorem contextOf (h : SameFor n s t) (view : View) :
    (t.contextOf view).map (·.scope) = (s.contextOf view).map (·.scope) := by
  cases view with
  | value v => rfl
  | context k =>
    show t.contexts[k]?.map _ = s.contexts[k]?.map _
    rw [← getElem?_scopes, ← getElem?_scopes, h.scopes]

theorem length_contexts (h : SameFor n s t) : t.contexts.length = s.contexts.length := by
  have hlength := congrArg List.length h.scopes
  rwa [Session.scopes, Session.scopes, List.length_map, List.length_map] at hlength

/-- A compiled template of the writer, or none at all, has its number in the other session. -/
theorem getElem?_compiled (h : SameFor n s t) {k : Nat}
    (hk : ∀ g, s.compiled[k]? = some g → isOf n g = true) :
    t.compiled[s.rank n k]? = s.compiled[k]? := by
  rw [h.compiled]
  exact getElem?_filter_countP hk

theorem settings_eq (h : SameFor n s t) :
    t.settings = { s.settings with escape := t.settings.escape } := by
  show t.settings = ⟨s.settings.delimiters, t.settings.escape⟩
  rw [← h.delimiters]

end SameFor

/-! ### Computations -/

/-- An answer that gives out no compiled template is the same with other numbers. -/
theorem map_renumber {f : Nat → Nat} {o : Outcome Answer}
    (h : ∀ a, o.result = .ok a → a.compiled? = none) : o.map (Answer.renumber f) = o := by
  obtain ⟨result, log⟩ := o
  cases result with
  | error e => rfl
  | ok a =>
    have hnone := h a rfl
    cases a with
    | compiled k => cases hnone
    | _ => rfl

/-- A computation that renders, with some settings: it depends on the writer, the views and the
settings alone, and with a writer that has a way of escaping of its own not on the one for all. -/
structure Renders (act : Settings → Scope → Render Writer String) : Prop where
  steady : ∀ settings scope, scope.IsPlain →
    Judgement.steady String scope (act settings scope) fun _ => True
  own : ∀ settings f scope, Agree (Writer.Same fun w => w.escape.isSome = true) Eq
    (act settings scope) (act { settings with escape := f } scope)

theorem renders_call (limit : Nat) (c : Compiled) (partials : Partials) :
    Renders fun settings => call settings limit c partials where
  steady settings _ hscope := Judgement.steady_call settings limit c partials hscope
  own settings f scope := agree_call_ownEscape settings f limit c partials scope

theorem renders_template (limit : Nat) (text : String) (partials : Partials) :
    Renders fun settings => template settings limit text partials where
  steady settings _ hscope := Judgement.steady_template settings limit text partials hscope
  own settings f scope := agree_template_ownEscape settings f limit text partials scope

variable {act : Settings → Scope → Render Writer String} {g : String → Answer} {w : Writer}

theorem hasOwnEscape_iff (hw : s.writers[n]? = some w) :
    s.hasOwnEscape n = true ↔ w.escape.isSome = true := by
  rw [hasOwnEscape, hw]
  rfl

/-- With the writer, the computation is the same in both sessions. -/
theorem SameFor.runFrom_eq (h : SameFor n s t) (hact : Renders act) {st : State Writer}
    (hw : s.writers[n]? = some st.writer) (scope : Scope) :
    (act t.settings scope).runFrom st = (act s.settings scope).runFrom st := by
  rw [h.settings_eq]
  rcases h.escape with hescape | hown
  · rw [hescape]
  · have hown : st.writer.escape.isSome = true := (hasOwnEscape_iff hw).1 hown
    exact (runFrom_eq_of_agree (hact.own s.settings t.settings.escape scope) hown).symm

/-- **Rendering with the writer does the same in both sessions.** -/
theorem SameFor.run (h : SameFor n s t) (hact : Renders act) (hview : view.isData true = true)
    (hg : ∀ text, (g text).compiled? = none) :
    DoesSame n s ((s.run n view (act s.settings)).1.map g, (s.run n view (act s.settings)).2)
      ((t.run n view (act t.settings)).1.map g, (t.run n view (act t.settings)).2) := by
  cases hw : s.writers[n]? with
  | none =>
    have hw' : t.writers[n]? = none := h.writer.trans hw
    rw [run_of_not_there (.inl hw), run_of_not_there (.inl hw')]
    exact ⟨rfl, h.writer, h.compiled, id, h.tally, h.memos⟩
  | some w =>
    have hw' : t.writers[n]? = some w := h.writer.trans hw
    have hcontext := h.contextOf view
    cases hc : s.contextOf view with
    | none =>
      rw [hc] at hcontext
      have hc' : t.contextOf view = none := Option.map_eq_none_iff.1 hcontext
      rw [run_of_not_there (.inr hc), run_of_not_there (.inr hc')]
      exact ⟨rfl, h.writer, h.compiled, id, h.tally, h.memos⟩
    | some c =>
      rw [hc] at hcontext
      obtain ⟨c', hc', hscope⟩ := Option.map_eq_some_iff.1 hcontext
      have hscope : c'.scope = c.scope := hscope
      have hplain : c.scope.IsPlain := h.plain.contextOf hview hc
      have hright : c'.IsRight := h.right.contextOf hc' (hscope ▸ hplain)
      have hbeside : State.Beside c.scope ⟨w, c'.memo, t.tally, []⟩ ⟨w, c.memo, s.tally, []⟩ :=
        ⟨rfl, h.tally.symm, rfl, ⟨trivial, fun name v hv => hscope ▸ hright name v hv⟩,
          h.memos.contextOf hc hc'⟩
      obtain ⟨hresult, -, hafter⟩ := hact.steady s.settings c.scope hplain _ _ hbeside
      rw [run_eq hw hc, run_eq hw' hc', hscope, h.runFrom_eq hact hw]
      rcases hr : (act s.settings c.scope).runFrom ⟨w, c.memo, s.tally, []⟩ with ⟨x, left⟩
      rcases hr' : (act s.settings c.scope).runFrom ⟨w, c'.memo, t.tally, []⟩ with ⟨x', left'⟩
      rw [hr, hr'] at hresult hafter
      obtain rfl : x = x' := hresult
      dsimp only
      refine ⟨?_, ?_, h.compiled, fun hown => ?_, hafter.tally.symm,
        h.memos.leave hc hc' hafter.memo n⟩
      · rw [map_renumber, hafter.log]
        rintro a ha
        obtain ⟨text, -, rfl⟩ := exists_of_map_eq_ok ha
        exact hg text
      · show (t.writers.set n left'.writer)[n]? = (s.writers.set n left.writer)[n]?
        rw [List.getElem?_set_self', List.getElem?_set_self', hw, hw', hafter.writer]
      · have hkeeps := Writer.keeps_of_agree (hact.own s.settings s.settings.escape c.scope)
          (s := ⟨w, c.memo, s.tally, []⟩) ((hasOwnEscape_iff hw).1 hown)
        rw [hr] at hkeeps
        have hw₁ : (s.leave n view c left).writers[n]? = some left.writer := by
          show (s.writers.set n left.writer)[n]? = _
          rw [List.getElem?_set_self', hw]
          rfl
        exact (hasOwnEscape_iff hw₁).2 hkeeps

/-! ### Compiling -/

theorem SameFor.giveOut (hwriter : t.writers[n]? = s.writers[n]?)
    (hcompiled : t.compiled = s.compiled.filter (isOf n)) (htally : t.tally = s.tally)
    (hmemos : s.IsAhead t) (c : Compiled) :
    DoesSame n s (s.giveOut n c) (t.giveOut n c) := by
  have hplace := findIdx?_filter_of_imp (p := fun g => g.1 == n && g.2.number == c.number)
    (q := isOf n) (fun g hg => (Bool.and_eq_true_iff.1 hg).1) s.compiled
  rw [← hcompiled] at hplace
  rw [Session.giveOut, Session.giveOut, hplace]
  cases s.compiled.findIdx? fun g => g.1 == n && g.2.number == c.number with
  | some k => exact ⟨rfl, hwriter, hcompiled, id, htally, hmemos⟩
  | none =>
    refine ⟨?_, hwriter, ?_, id, htally, hmemos⟩
    · show Outcome.quiet (.ok (Answer.compiled t.compiled.length)) =
        .quiet (.ok (Answer.compiled
          (((s.compiled ++ [(n, c)]).take s.compiled.length).countP (isOf n))))
      rw [List.take_left, List.countP_eq_length_filter, hcompiled]
    · show t.compiled ++ [(n, c)] = (s.compiled ++ [(n, c)]).filter (isOf n)
      rw [hcompiled, List.filter_append]
      simp [isOf]

/-- **Compiling with the writer does the same in both sessions.** -/
theorem SameFor.compileWith (h : SameFor n s t)
    {f : Writer → Except TemplateError (Compiled × Writer)}
    (hf : ∀ w c w', f w = .ok (c, w') → w'.escape = w.escape) :
    DoesSame n s (s.compileWith n f) (t.compileWith n f) := by
  cases hw : s.writers[n]? with
  | none =>
    have hw' : t.writers[n]? = none := h.writer.trans hw
    rw [compileWith_of_writers_eq_none hw, compileWith_of_writers_eq_none hw']
    exact ⟨rfl, h.writer, h.compiled, id, h.tally, h.memos⟩
  | some w =>
    have hw' : t.writers[n]? = some w := h.writer.trans hw
    cases hfw : f w with
    | error e =>
      rw [compileWith_error hw hfw, compileWith_error hw' hfw]
      exact ⟨rfl, h.writer, h.compiled, id, h.tally, h.memos⟩
    | ok given =>
      obtain ⟨c, w₁⟩ := given
      rw [compileWith_ok hw hfw, compileWith_ok hw' hfw]
      have hw₁ : (s.writers.set n w₁)[n]? = some w₁ := by
        rw [List.getElem?_set_self', hw]
        rfl
      have hwriter : (t.writers.set n w₁)[n]? = (s.writers.set n w₁)[n]? := by
        rw [hw₁, List.getElem?_set_self', hw']
        rfl
      obtain ⟨hanswer, hwriter, hcompiled, hescape, htally, hmemos⟩ := SameFor.giveOut
        (s := { s with writers := s.writers.set n w₁ })
        (t := { t with writers := t.writers.set n w₁ }) hwriter h.compiled h.tally h.memos c
      refine ⟨hanswer, hwriter, hcompiled, fun hown => hescape ?_, htally, hmemos⟩
      rw [hasOwnEscape_iff (s := { s with writers := s.writers.set n w₁ }) hw₁, hf w c w₁ hfw]
      exact (hasOwnEscape_iff hw).1 hown

/-! ### Steps -/

theorem isFor_iff : isFor n s a = true ↔ s.addressee a = some n ∨ s.addressee a = none := by
  rw [isFor]
  cases s.addressee a with
  | none => simp
  | some m => simp

theorem SameFor.addressee (h : SameFor n s t) (ha : isFor n s a = true) :
    t.addressee (a.renumber (s.rank n)) = s.addressee a := by
  cases a with
  | call k view partials =>
    refine congrArg (Option.map (·.1)) (h.getElem?_compiled fun g hg => ?_)
    rw [isFor, Session.addressee, hg] at ha
    exact ha
  | _ => rfl

theorem SameFor.withContext (h : SameFor n s t) {k : Nat} {f : Nat → Nat}
    {use use' : Context → Outcome Answer × Session}
    (huse : ∀ c c', c'.scope = c.scope → (use' c').1 = (use c).1.map (Answer.renumber f)) :
    (t.withContext k use').1 = (s.withContext k use).1.map (Answer.renumber f) := by
  have hk := h.contextOf (.context k)
  rw [Session.withContext, Session.withContext]
  cases hc : s.contexts[k]? with
  | none =>
    have hc' : t.contexts[k]? = none := by
      rw [Session.contextOf, Session.contextOf, hc] at hk
      exact Option.map_eq_none_iff.1 hk
    rw [hc']
    rfl
  | some c =>
    rw [Session.contextOf, Session.contextOf, hc] at hk
    obtain ⟨c', hc', hscope⟩ := Option.map_eq_some_iff.1 hk
    rw [hc']
    exact huse c c' hscope

/-- Looking a name up does the same in both sessions. -/
theorem SameFor.lookup (h : SameFor n s t) (k : Nat) (name : String) :
    (t.step (.lookup k name)).1 = (s.step (.lookup k name)).1 ∧
      (∀ a, (s.step (.lookup k name)).1.result = .ok a → a.compiled? = none) ∧
      (t.step (.lookup k name)).2.tally = (s.step (.lookup k name)).2.tally ∧
      (s.step (.lookup k name)).2.IsAhead (t.step (.lookup k name)).2 := by
  have unthere {u : Session} (hu : u.writers[0]? = none ∨ u.contextOf (.context k) = none) :
      u.step (.lookup k name) = (.quiet (.error .mismatch), u) := by
    rw [step, run_of_not_there hu]
    rfl
  have hlength := h.length
  cases hw : s.writers[0]? with
  | none =>
    have hw' : t.writers[0]? = none := by
      rw [List.getElem?_eq_none_iff] at hw ⊢
      rwa [hlength]
    rw [unthere (.inl hw), unthere (.inl hw')]
    exact ⟨rfl, by rintro _ ⟨⟩, h.tally, h.memos⟩
  | some w =>
    obtain ⟨w', hw'⟩ : ∃ w', t.writers[0]? = some w' := by
      obtain ⟨hthere, -⟩ := List.getElem?_eq_some_iff.1 hw
      exact ⟨_, List.getElem?_eq_getElem (hlength ▸ hthere)⟩
    have hk := h.contextOf (.context k)
    cases hc : s.contextOf (.context k) with
    | none =>
      rw [hc] at hk
      rw [unthere (.inr hc), unthere (.inr (Option.map_eq_none_iff.1 hk))]
      exact ⟨rfl, by rintro _ ⟨⟩, h.tally, h.memos⟩
    | some c =>
      rw [hc] at hk
      obtain ⟨c', hc', hscope⟩ := Option.map_eq_some_iff.1 hk
      have hscope : c'.scope = c.scope := hscope
      have hplain : c.scope.IsPlain := h.plain.context hc
      have hright := h.right.contextOf hc' (hscope ▸ hplain)
      obtain ⟨r, left', hlooked'⟩ := exists_looked hplain name ⟨w', c'.memo, t.tally, []⟩
      have hbeside : State.Beside c.scope ⟨w', c'.memo, t.tally, []⟩ ⟨w', c.memo, s.tally, []⟩ :=
        ⟨rfl, h.tally.symm, rfl, ⟨trivial, fun name v hv => hscope ▸ hright name v hv⟩,
          h.memos.contextOf hc hc'⟩
      obtain ⟨left, hlooked, hafter⟩ := hlooked'.beside hplain hbeside
      have hstep := step_lookup_eq hw hc (hlooked.withWriter w [])
      have hstep' := step_lookup_eq hw' hc' (hscope ▸ hlooked')
      rw [hstep, hstep']
      refine ⟨?_, fun a ha => ?_, hafter.tally.symm, ?_⟩
      · dsimp only
        rw [hafter.tally]
      · cases r with
        | error e => cases ha
        | ok v =>
          obtain ⟨shown, -, rfl⟩ := exists_of_map_eq_ok ha
          rfl
      · exact h.memos.leave hc hc' hafter.memo 0

/-- What a step that uses no writer answers is the same in both sessions. -/
theorem SameFor.answer (h : SameFor n s t) (ha : s.addressee a = none) :
    (t.step (a.renumber (s.rank n))).1 =
      (s.step a).1.map (Answer.renumber ((s.step a).2.rank n)) := by
  have hcontexts := h.length_contexts
  cases a with
  | makeWriter escape =>
    exact congrArg (fun k => Outcome.quiet (.ok (Answer.writer k))) h.length
  | setEscape | setDelimiters => rfl
  | makeContext view =>
    cases view with
    | value v => exact congrArg (fun k => Outcome.quiet (.ok (Answer.context k))) hcontexts
    | context k => rfl
  | call k view partials =>
    have hk : s.compiled[k]? = none := Option.map_eq_none_iff.1 ha
    have hk' : t.compiled[s.rank n k]? = none := by
      rw [h.getElem?_compiled fun g hg => ?_, hk]
      rw [hk] at hg
      cases hg
    rw [Step.renumber, step, step, hk, hk']
    rfl
  | push k v =>
    refine h.withContext fun c c' _ => ?_
    exact congrArg (fun k => Outcome.quiet (.ok (Answer.context k))) hcontexts
  | viewOf k =>
    refine h.withContext fun c c' hscope => ?_
    rw [hscope, h.tally]
    rfl
  | forget k => exact h.withContext fun c c' _ => rfl
  | lookup k name =>
    obtain ⟨hsame, hnone, -⟩ := h.lookup k name
    exact hsame.trans (map_renumber hnone).symm
  | _ => cases ha

/-- What a step that uses no writer leaves of the sets and of what is remembered is the same in both
sessions. -/
theorem SameFor.left_of_none (h : SameFor n s t) (ha : s.addressee a = none) :
    (t.step (a.renumber (s.rank n))).2.tally = (s.step a).2.tally ∧
      (s.step a).2.IsAhead (t.step (a.renumber (s.rank n))).2 := by
  have ifThere {k : Nat} {f : Context → Outcome Answer × Session}
      {f' : Context → Outcome Answer × Session}
      (hf : ∀ c c', s.contexts[k]? = some c → t.contexts[k]? = some c' → c'.scope = c.scope →
        (f' c').2.tally = (f c).2.tally ∧ (f c).2.IsAhead (f' c').2) :
      (t.withContext k f').2.tally = (s.withContext k f).2.tally ∧
        (s.withContext k f).2.IsAhead (t.withContext k f').2 := by
    have hk := h.contextOf (.context k)
    rw [Session.contextOf, Session.contextOf] at hk
    rw [Session.withContext, Session.withContext]
    cases hc : s.contexts[k]? with
    | none =>
      rw [hc] at hk
      rw [Option.map_eq_none_iff.1 hk]
      exact ⟨h.tally, h.memos⟩
    | some c =>
      rw [hc] at hk
      obtain ⟨c', hc', hscope⟩ := Option.map_eq_some_iff.1 hk
      rw [hc']
      exact hf c c' hc hc' hscope
  cases a with
  | makeWriter | setEscape | setDelimiters => exact ⟨h.tally, h.memos⟩
  | makeContext view =>
    cases view with
    | value v => exact ⟨h.tally, h.memos.append h.length_contexts (.refl _ _)⟩
    | context k => exact ⟨h.tally, h.memos⟩
  | call k view partials =>
    have hk : s.compiled[k]? = none := Option.map_eq_none_iff.1 ha
    have hk' : t.compiled[s.rank n k]? = none := by
      rw [h.getElem?_compiled fun g hg => ?_, hk]
      rw [hk] at hg
      cases hg
    rw [Step.renumber, step, step, hk, hk']
    exact ⟨h.tally, h.memos⟩
  | push k v =>
    exact ifThere fun c c' _ _ _ => ⟨h.tally, h.memos.append h.length_contexts (.refl _ _)⟩
  | viewOf k => exact ifThere fun c c' _ _ _ => ⟨h.tally, h.memos⟩
  | forget k => exact ifThere fun c c' _ _ _ => ⟨h.tally, h.memos.set k (.refl _ _)⟩
  | lookup k name =>
    obtain ⟨-, -, hleft⟩ := h.lookup k name
    exact hleft
  | _ => cases ha

/-- **A step that uses no writer does the same in both sessions.** -/
theorem SameFor.doesSame_of_none (h : SameFor n s t) (ha : s.addressee a = none) :
    DoesSame n s (s.step a) (t.step (a.renumber (s.rank n))) := by
  have ha' : t.addressee (a.renumber (s.rank n)) = none :=
    (h.addressee (isFor_iff.2 (.inr ha))).trans ha
  have hplain' : t.IsPlain := fun scope hscope => h.plain scope (h.scopes ▸ hscope)
  have hleft := leavesAlone_step h.plain (n := n) (by rw [ha]; nofun)
  have hright := leavesAlone_step hplain' (n := n) (by rw [ha']; nofun)
  obtain ⟨htally, hmemos⟩ := h.left_of_none ha
  refine ⟨h.answer ha, ?_, ?_, fun hown => ?_, htally, hmemos⟩
  · rw [hleft.writer, hright.writer, Step.made_renumber, List.getElem?_append,
      List.getElem?_append, h.length, h.writer]
  · rw [compiled_step_of_addressee_eq_none ha, compiled_step_of_addressee_eq_none ha', h.compiled]
  · rw [hasOwnEscape, Option.any_eq_true] at hown ⊢
    obtain ⟨w, hw, hescape⟩ := hown
    refine ⟨w, ?_, hescape⟩
    obtain ⟨hthere, -⟩ := List.getElem?_eq_some_iff.1 hw
    rw [hleft.writer, List.getElem?_append_left hthere, hw]

/-- **A step that is addressed to the writer does the same in both sessions.** -/
theorem SameFor.doesSame_of_some (h : SameFor n s t) (hplain : a.isPlain = true)
    (ha : s.addressee a = some n) :
    DoesSame n s (s.step a) (t.step (a.renumber (s.rank n))) := by
  cases a with
  | compile m text delimiters =>
    cases ha
    show DoesSame n s _ (t.step (.compile n text delimiters))
    rw [step, step, h.delimiters]
    exact h.compileWith fun w c w' hc => (Writer.same_of_compile hc).1
  | compilePartial m name text delimiters =>
    cases ha
    show DoesSame n s _ (t.step (.compilePartial n name text delimiters))
    rw [step, step, h.delimiters]
    refine h.compileWith fun w c w' hc => ?_
    obtain ⟨w₁, hcompiled, hleft⟩ := Writer.compile_of_compilePartial_ok hc
    rw [show w' = _ from hleft]
    exact (Writer.same_of_compile hcompiled).1
  | assemble m text drafts =>
    cases ha
    show DoesSame n s _ (t.step (.assemble n text drafts))
    rw [step, step]
    refine h.compileWith fun w c w' hc => ?_
    cases hc
    rfl
  | assembleParsed m text other delimiters =>
    cases ha
    show DoesSame n s _ (t.step (.assembleParsed n text other delimiters))
    rw [step, step, h.delimiters]
    refine h.compileWith fun w c w' hc => ?_
    cases hp : Template.parseWith (delimiters.getD s.settings.delimiters) other with
    | error e =>
      rw [hp] at hc
      cases hc
    | ok nodes =>
      rw [hp] at hc
      cases hc
      rfl
  | call k view partials =>
    obtain ⟨g, hg, rfl⟩ := Option.map_eq_some_iff.1 ha
    have hg' : t.compiled[s.rank g.1 k]? = some g := by
      rw [h.getElem?_compiled fun g' hg' => ?_, hg]
      rw [hg] at hg'
      cases hg'
      exact beq_self_eq_true _
    rw [Step.renumber, step_call_eq hg, step_call_eq hg']
    exact h.run (renders_call depthLimit g.2 partials) hplain fun _ => rfl
  | render m text view partials =>
    cases ha
    exact h.run (renders_template depthLimit text partials) hplain fun _ => rfl
  | send text view partials taken =>
    cases ha
    refine h.run (renders_template depthLimit text partials) hplain fun text => ?_
    cases taken <;> rfl
  | clear m =>
    cases ha
    show DoesSame n s _ (t.step (.clear n))
    rw [step, step, withWriter, withWriter, h.writer]
    cases hw : s.writers[n]? with
    | none => exact ⟨rfl, h.writer, h.compiled, id, h.tally, h.memos⟩
    | some w =>
      refine ⟨rfl, ?_, h.compiled, fun hown => ?_, h.tally, h.memos⟩
      · show (t.writers.set n w.clear)[n]? = (s.writers.set n w.clear)[n]?
        rw [List.getElem?_set_self', List.getElem?_set_self', h.writer]
      · have hw₁ : (s.writers.set n w.clear)[n]? = some w.clear := by
          rw [List.getElem?_set_self', hw]
          rfl
        refine (hasOwnEscape_iff (s := { s with writers := s.writers.set n w.clear }) hw₁).2 ?_
        exact (hasOwnEscape_iff hw).1 hown
  | inspect m =>
    cases ha
    show DoesSame n s _ (t.step (.inspect n))
    rw [step, step, h.writer]
    cases hw : s.writers[n]? with
    | none => exact ⟨rfl, h.writer, h.compiled, id, h.tally, h.memos⟩
    | some w =>
      refine ⟨(map_renumber fun answer hanswer => ?_).symm, h.writer, h.compiled, id, h.tally,
        h.memos⟩
      have hanswer : inventory w = .ok answer := hanswer
      rw [inventory] at hanswer
      split at hanswer <;> cases hanswer
      rfl
  | _ => cases ha

/-- **A step that is addressed to no other writer keeps two sessions the same,** taken in both. -/
theorem SameFor.step (h : SameFor n s t) (hplain : a.isPlain = true) (ha : isFor n s a = true) :
    (t.step (a.renumber (s.rank n))).1 =
        (s.step a).1.map (Answer.renumber ((s.step a).2.rank n)) ∧
      SameFor n (s.step a).2 (t.step (a.renumber (s.rank n))).2 := by
  have hsame : DoesSame n s (s.step a) (t.step (a.renumber (s.rank n))) :=
    (isFor_iff.1 ha).elim (h.doesSame_of_some hplain) h.doesSame_of_none
  have hleft := goesOn_step s a
  have hright := goesOn_step t (a.renumber (s.rank n))
  rw [Settings.after_renumber, Step.made_renumber, opened_renumber] at hright
  refine ⟨hsame.answer, ?_⟩
  constructor
  case delimiters =>
    rw [hleft.settings, hright.settings]
    cases a with
    | setDelimiters delimiters => rfl
    | _ => exact h.delimiters
  case escape =>
    rw [hleft.settings, hright.settings]
    cases a with
    | setEscape escape => exact .inl rfl
    | _ => exact h.escape.imp_right hsame.escape
  case length => rw [hleft.length, hright.length, h.length]
  case writer => exact hsame.writer
  case compiled => exact hsame.compiled
  case scopes =>
    have hopened : t.opened a = s.opened a := by
      cases a with
      | push k v => rw [opened, opened, h.scopes]
      | makeContext view => cases view <;> rfl
      | _ => rfl
    rw [hleft.scopes, hright.scopes, h.scopes, hopened]
  case tally => exact hsame.tally
  case memos => exact hsame.memos
  case plain => exact h.plain.step hplain
  case left => exact h.left.step a
  case right => exact h.right.step _

/-- A step is of no concern for a writer: it is addressed to another one, or only changes the way of
escaping that the writer does not use. -/
def Foreign (n : Nat) (s : Session) (a : Step) : Prop :=
  isFor n s a = false ∨ (∃ f, a = .setEscape f) ∧ s.hasOwnEscape n = true

theorem foreign_of_concerns_eq_false (h : concerns n s a = false) : Foreign n s a := by
  cases a with
  | setEscape f => exact .inr ⟨⟨f, rfl⟩, by simpa [concerns] using h⟩
  | _ => exact .inl h

/-- Leaving out changes of the way of escaping besides takes nothing out of a set. -/
theorem LeavesSets.concerns {steps : List Step} (h : s.LeavesSets (isFor n) steps) :
    s.LeavesSets (concerns n) steps := by
  induction steps generalizing s with
  | nil => trivial
  | cons a steps ih =>
    refine ⟨fun hk => ?_, ih h.2⟩
    rcases foreign_of_concerns_eq_false hk with hother | ⟨⟨f, rfl⟩, -⟩
    · exact h.1 hother
    · rfl

end Session

end Mustache
