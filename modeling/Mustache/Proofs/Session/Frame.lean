import Mustache.Proofs.Session.Memo

/-!
# What steps leave alone

A step may make a writer or open a context, and takes none away. It changes the settings only if it
is about them. Among the writers it changes no other one than that which it is addressed to: a step
names its writer, or calls a compiled template, which is of the writer that compiled it. Looking
names up is addressed to no writer, if the views are plain. What is remembered in contexts is then
at most ahead of what it was, if the step takes nothing out of a set and makes none.

Main statements: `Session.goesOn_step`, `Session.leavesAlone_step` and `Session.isAhead_step`.
-/

namespace Mustache

open Render

/-- Whether a view that is given is data; there may be sets in it or not. -/
def View.isData (sets : Bool) : View → Bool
  | .value v => v.isData sets
  | .context _ => true

/-- Whether the values that are given are data; there may be sets in them or not. -/
def Step.isData (sets : Bool) : Step → Bool
  | .call _ view _ | .render _ _ view _ | .send _ view _ _ | .makeContext view => view.isData sets
  | .push _ v => v.isData sets
  | _ => true

/-- Whether no value is given that can be called. -/
abbrev Step.isPlain (a : Step) : Bool := a.isData true

/-- Whether no value is given that can be called, and no set, so that nothing can be called at all.
-/
abbrev Step.isInert (a : Step) : Bool := a.isData false

/-- The writers that a step makes. -/
def Step.made : Step → List Writer
  | .makeWriter escape => [Writer.new escape]
  | _ => []

/-- The settings after a step. -/
def Settings.after (settings : Settings) : Step → Settings
  | .setEscape escape => { settings with escape }
  | .setDelimiters delimiters => { settings with delimiters }
  | _ => settings

namespace Session

/-- The writer that a step is addressed to, if it is addressed to one. A compiled template is of the
writer that compiled it. -/
def addressee (s : Session) : Step → Option Nat
  | .compile n _ _ | .compilePartial n _ _ _ | .assemble n _ _ | .assembleParsed n _ _ _
  | .render n _ _ _ | .clear n | .inspect n => some n
  | .call k _ _ => s.compiled[k]?.map (·.1)
  | .send _ _ _ _ => some 0
  | _ => none

/-- Whether a compiled template is of a writer. -/
def isOf (n : Nat) (g : Nat × Compiled) : Bool := g.1 == n

variable {s t u : Session} {n m : Nat} {a : Step} {view : View} {c : Context} {sets : Bool}

/-- The scopes of the contexts. -/
def scopes (s : Session) : List Scope := s.contexts.map (·.scope)

/-- The scopes of the contexts that a step makes. -/
def opened (s : Session) : Step → List Scope
  | .makeContext (.value v) => [Scope.ofView v]
  | .push k v => (s.scopes[k]?.map (·.push v)).toList
  | _ => []

theorem getElem?_scopes (s : Session) (k : Nat) : s.scopes[k]? = s.contexts[k]?.map (·.scope) :=
  List.getElem?_map

/-- A session goes on with some settings, with some writers made and some contexts opened, and with
none taken away. -/
structure GoesOn (s : Session) (settings : Settings) (made : List Writer) (opened : List Scope)
    (s' : Session) : Prop where
  settings : s'.settings = settings
  scopes : s'.scopes = s.scopes ++ opened
  length : s'.writers.length = s.writers.length + made.length

/-- A session goes on with one of its writers, and its compiled templates, as they are, but for some
writers that are made. -/
structure LeavesAlone (s : Session) (n : Nat) (made : List Writer) (s' : Session) : Prop where
  writer : s'.writers[n]? = (s.writers ++ made)[n]?
  compiled : s'.compiled.filter (isOf n) = s.compiled.filter (isOf n)

theorem goesOn_of_eq {s' : Session} (hsettings : s'.settings = s.settings)
    (hscopes : s'.scopes = s.scopes) (hlength : s'.writers.length = s.writers.length) :
    s.GoesOn s.settings [] [] s' :=
  ⟨hsettings, hscopes.trans (List.append_nil _).symm, hlength⟩

theorem leavesAlone_of_eq {s' : Session} (hwriter : s'.writers[n]? = s.writers[n]?)
    (hcompiled : s'.compiled.filter (isOf n) = s.compiled.filter (isOf n)) :
    s.LeavesAlone n [] s' :=
  ⟨hwriter.trans (by rw [List.append_nil]), hcompiled⟩

theorem goesOn_self (s : Session) : s.GoesOn s.settings [] [] s := goesOn_of_eq rfl rfl rfl

theorem leavesAlone_self (s : Session) (n : Nat) : s.LeavesAlone n [] s := leavesAlone_of_eq rfl rfl

theorem goesOn_leave (hc : s.contextOf view = some c) (n : Nat) (left : State Writer) :
    s.GoesOn s.settings [] [] (s.leave n view c left) := by
  refine goesOn_of_eq rfl ?_ List.length_set
  cases view with
  | value v => rfl
  | context k =>
    have hthere : s.scopes[k]? = some c.scope := by
      rw [getElem?_scopes, show s.contexts[k]? = some c from hc]
      rfl
    show (s.contexts.set k _).map _ = s.scopes
    rw [List.map_set]
    exact set_eq_self hthere

theorem compiled_run {α : Type} (s : Session) (n : Nat) (view : View)
    (act : Scope → Render Writer α) : (s.run n view act).2.compiled = s.compiled := by
  cases hw : s.writers[n]? with
  | none => rw [run_of_not_there (.inl hw)]
  | some w =>
    cases hc : s.contextOf view with
    | none => rw [run_of_not_there (.inr hc)]
    | some c => rw [run_eq hw hc]; rfl

theorem goesOn_run {α : Type} (s : Session) (n : Nat) (view : View)
    (act : Scope → Render Writer α) : s.GoesOn s.settings [] [] (s.run n view act).2 := by
  cases hw : s.writers[n]? with
  | none =>
    rw [run_of_not_there (.inl hw)]
    exact s.goesOn_self
  | some w =>
    cases hc : s.contextOf view with
    | none =>
      rw [run_of_not_there (.inr hc)]
      exact s.goesOn_self
    | some c =>
      rw [run_eq hw hc]
      exact goesOn_leave hc n _

theorem leavesAlone_run {α : Type} (hm : m ≠ n) (view : View) (act : Scope → Render Writer α) :
    s.LeavesAlone n [] (s.run m view act).2 := by
  cases hw : s.writers[m]? with
  | none =>
    rw [run_of_not_there (.inl hw)]
    exact s.leavesAlone_self n
  | some w =>
    cases hc : s.contextOf view with
    | none =>
      rw [run_of_not_there (.inr hc)]
      exact s.leavesAlone_self n
    | some c =>
      rw [run_eq hw hc]
      exact leavesAlone_of_eq (List.getElem?_set_ne hm) rfl

theorem goesOn_giveOut (s : Session) (n : Nat) (c : Compiled) :
    s.GoesOn s.settings [] [] (s.giveOut n c).2 := by
  rcases giveOut_cases s n c with ⟨k, e, -, -, hout⟩ | hout
  · rw [hout]
    exact s.goesOn_self
  · rw [hout]
    exact goesOn_of_eq rfl rfl rfl

theorem leavesAlone_giveOut (hm : m ≠ n) (s : Session) (c : Compiled) :
    s.LeavesAlone n [] (s.giveOut m c).2 := by
  rcases giveOut_cases s m c with ⟨k, e, -, -, hout⟩ | hout
  · rw [hout]
    exact s.leavesAlone_self n
  · rw [hout]
    refine leavesAlone_of_eq rfl ?_
    show (s.compiled ++ [(m, c)]).filter (isOf n) = s.compiled.filter (isOf n)
    simp [isOf, hm]

theorem goesOn_compileWith (s : Session) (n : Nat)
    (f : Writer → Except TemplateError (Compiled × Writer)) :
    s.GoesOn s.settings [] [] (s.compileWith n f).2 := by
  cases hw : s.writers[n]? with
  | none =>
    rw [compileWith_of_writers_eq_none hw]
    exact s.goesOn_self
  | some w =>
    cases hf : f w with
    | error e =>
      rw [compileWith_error hw hf]
      exact s.goesOn_self
    | ok given =>
      rw [compileWith_ok hw hf]
      obtain ⟨hsettings, hscopes, hlength⟩ :=
        goesOn_giveOut { s with writers := s.writers.set n given.2 } n given.1
      exact ⟨hsettings, hscopes, hlength.trans List.length_set⟩

theorem leavesAlone_compileWith (hm : m ≠ n)
    (f : Writer → Except TemplateError (Compiled × Writer)) :
    s.LeavesAlone n [] (s.compileWith m f).2 := by
  cases hw : s.writers[m]? with
  | none =>
    rw [compileWith_of_writers_eq_none hw]
    exact s.leavesAlone_self n
  | some w =>
    cases hf : f w with
    | error e =>
      rw [compileWith_error hw hf]
      exact s.leavesAlone_self n
    | ok given =>
      rw [compileWith_ok hw hf]
      obtain ⟨hwriter, hcompiled⟩ :=
        leavesAlone_giveOut hm { s with writers := s.writers.set m given.2 } given.1
      refine leavesAlone_of_eq (hwriter.trans ?_) hcompiled
      rw [List.append_nil]
      exact List.getElem?_set_ne hm

/-- **How a session goes on after a step:** with the settings, writers and contexts that the step
says. -/
theorem goesOn_step (s : Session) (a : Step) :
    s.GoesOn (s.settings.after a) a.made (s.opened a) (s.step a).2 := by
  cases a with
  | makeWriter escape => exact ⟨rfl, (List.append_nil _).symm, List.length_append⟩
  | compile | compilePartial | assemble | assembleParsed => exact goesOn_compileWith s _ _
  | call k view partials =>
    rw [step]
    cases s.compiled[k]? with
    | none => exact s.goesOn_self
    | some g => exact goesOn_run s g.1 view _
  | render n t view partials =>
    rw [step]
    exact goesOn_run s n view _
  | send t view partials taken =>
    rw [step]
    exact goesOn_run s 0 view _
  | lookup k name =>
    rw [step]
    exact goesOn_run s 0 (.context k) _
  | clear n =>
    rw [step, withWriter]
    cases s.writers[n]? with
    | none => exact s.goesOn_self
    | some w => exact goesOn_of_eq rfl rfl List.length_set
  | inspect n =>
    rw [step]
    cases s.writers[n]? <;> exact s.goesOn_self
  | setEscape | setDelimiters => exact ⟨rfl, (List.append_nil _).symm, rfl⟩
  | makeContext view =>
    cases view with
    | value v => exact ⟨rfl, List.map_append, rfl⟩
    | context k => exact s.goesOn_self
  | push k v =>
    rw [step, withContext, opened, getElem?_scopes]
    cases s.contexts[k]? with
    | none => exact s.goesOn_self
    | some c => exact ⟨rfl, List.map_append, rfl⟩
  | viewOf k =>
    rw [step, withContext]
    cases s.contexts[k]? <;> exact s.goesOn_self
  | forget k =>
    rw [step, withContext]
    cases hc : s.contexts[k]? with
    | none => exact s.goesOn_self
    | some c =>
      refine goesOn_of_eq rfl ?_ rfl
      have hthere : s.scopes[k]? = some c.scope := by rw [getElem?_scopes, hc]; rfl
      show (s.contexts.set k _).map _ = s.scopes
      rw [List.map_set]
      exact set_eq_self hthere

/-- All views of a session are data. -/
def IsData (sets : Bool) (s : Session) : Prop := ∀ scope ∈ s.scopes, scope.IsData sets

/-- No value that can be called is around. -/
abbrev IsPlain (s : Session) : Prop := s.IsData true

theorem IsData.context (h : s.IsData sets) {k : Nat} (hc : s.contexts[k]? = some c) :
    c.scope.IsData sets :=
  h c.scope (List.mem_map_of_mem (List.mem_of_getElem? hc))

theorem IsData.contextOf (h : s.IsData sets) (hview : view.isData sets = true)
    (hc : s.contextOf view = some c) : c.scope.IsData sets := by
  cases view with
  | value v =>
    cases hc
    exact Scope.isData_ofView.2 hview
  | context k => exact h.context hc

theorem IsData.step (h : s.IsData sets) (ha : a.isData sets = true) : (s.step a).2.IsData sets := by
  intro scope hscope
  rw [(goesOn_step s a).scopes] at hscope
  rcases List.mem_append.1 hscope with hold | hnew
  · exact h scope hold
  · cases a with
    | makeContext view =>
      cases view with
      | value v =>
        obtain rfl := List.mem_singleton.1 hnew
        exact Scope.isData_ofView.2 ha
      | context k => cases hnew
    | push k v =>
      rw [opened, Option.mem_toList] at hnew
      obtain ⟨around, haround, rfl⟩ := Option.map_eq_some_iff.1 hnew
      exact (h around (List.mem_of_getElem? haround)).push ha
    | _ => cases hnew

/-- **A step leaves a writer alone that it is not addressed to.** -/
theorem leavesAlone_step (hplain : s.IsPlain)
    (ha : s.addressee a ≠ some n) : s.LeavesAlone n a.made (s.step a).2 := by
  have other {m : Nat} (h : some m ≠ some n) : m ≠ n := fun hm => h (congrArg some hm)
  cases a with
  | makeWriter escape => exact ⟨rfl, rfl⟩
  | compile | compilePartial | assemble | assembleParsed =>
    exact leavesAlone_compileWith (other ha) _
  | call k view partials =>
    rw [step]
    rw [addressee] at ha
    cases hk : s.compiled[k]? with
    | none => exact s.leavesAlone_self n
    | some g =>
      rw [hk] at ha
      exact leavesAlone_run (other ha) view _
  | render m t view partials =>
    rw [step]
    exact leavesAlone_run (other ha) view _
  | send t view partials taken =>
    rw [step]
    exact leavesAlone_run (other ha) view _
  | clear m =>
    rw [step, withWriter]
    cases s.writers[m]? with
    | none => exact s.leavesAlone_self n
    | some w => exact leavesAlone_of_eq (List.getElem?_set_ne (other ha)) rfl
  | inspect m =>
    rw [step]
    cases s.writers[m]? <;> exact s.leavesAlone_self n
  | setEscape | setDelimiters => exact leavesAlone_of_eq rfl rfl
  | makeContext view => cases view <;> exact leavesAlone_of_eq rfl rfl
  | push k v =>
    rw [step, withContext]
    cases s.contexts[k]? <;> exact leavesAlone_of_eq rfl rfl
  | viewOf k | forget k =>
    rw [step, withContext]
    cases s.contexts[k]? <;> exact leavesAlone_of_eq rfl rfl
  | lookup k name =>
    cases hw : s.writers[0]? with
    | none =>
      rw [step, run_of_not_there (.inl hw)]
      exact s.leavesAlone_self n
    | some w =>
      cases hc : s.contexts[k]? with
      | none =>
        have hthere : s.contextOf (.context k) = none := hc
        rw [step, run_of_not_there (.inr hthere)]
        exact s.leavesAlone_self n
      | some c =>
        obtain ⟨r, left, -, hstep⟩ := exists_step_lookup s hw hc (hplain.context hc) name
        rw [hstep]
        exact leavesAlone_of_eq rfl rfl

theorem compiled_step_of_addressee_eq_none (ha : s.addressee a = none) :
    (s.step a).2.compiled = s.compiled := by
  cases a with
  | makeWriter | setEscape | setDelimiters => rfl
  | makeContext view => cases view <;> rfl
  | push k v | viewOf k | forget k =>
    rw [step, withContext]
    cases s.contexts[k]? <;> rfl
  | lookup k name =>
    rw [step]
    exact compiled_run s 0 (.context k) _
  | call k view partials =>
    rw [step, show s.compiled[k]? = none from Option.map_eq_none_iff.1 ha]
  | _ => cases ha

theorem IsData.after (h : s.IsData sets) {steps : List Step}
    (hdata : ∀ a ∈ steps, a.isData sets = true) : (s.after steps).IsData sets := by
  induction steps generalizing s with
  | nil => exact h
  | cons a steps ih =>
    obtain ⟨ha, hsteps⟩ := List.forall_mem_cons.1 hdata
    exact ih (h.step ha) hsteps

/-! ## What is remembered -/

/-- In its contexts, a session remembers all that another one does, and besides only what would be
found at any time. -/
def IsAhead (s t : Session) : Prop :=
  ∀ (k : Nat) (c c' : Context), s.contexts[k]? = some c → t.contexts[k]? = some c' →
    c.scope.Ahead c'.memo c.memo

theorem IsAhead.trans (h : s.IsAhead t) (h' : t.IsAhead u) (hscopes : s.scopes = t.scopes) :
    s.IsAhead u := by
  intro k c c'' hc hc''
  have hscope : t.contexts[k]?.map (·.scope) = some c.scope := by
    rw [← getElem?_scopes, ← hscopes, getElem?_scopes, hc]
    rfl
  obtain ⟨c', hc', hscope⟩ := Option.map_eq_some_iff.1 hscope
  have hahead := h' k c' c'' hc' hc''
  rw [show c'.scope = c.scope from hscope] at hahead
  exact hahead.trans (h k c c' hc hc')

theorem IsAhead.contextOf (h : s.IsAhead t) {c' : Context} (hc : s.contextOf view = some c)
    (hc' : t.contextOf view = some c') : c.scope.Ahead c'.memo c.memo := by
  cases view with
  | value v =>
    cases hc
    cases hc'
    exact .refl _ _
  | context k => exact h k c c' hc hc'

/-- Putting contexts in the place of others in both sessions. -/
theorem IsAhead.set (h : s.IsAhead t) (k : Nat) {d d' : Context}
    (hd : d.scope.Ahead d'.memo d.memo) :
    IsAhead { s with contexts := s.contexts.set k d }
      { t with contexts := t.contexts.set k d' } := by
  intro j c c' hc hc'
  have hc : (s.contexts.set k d)[j]? = some c := hc
  have hc' : (t.contexts.set k d')[j]? = some c' := hc'
  rw [List.getElem?_set] at hc hc'
  by_cases hkj : k = j
  · rw [if_pos hkj] at hc hc'
    obtain rfl := Option.some.inj (Option.ite_none_right_eq_some.1 hc).2
    obtain rfl := Option.some.inj (Option.ite_none_right_eq_some.1 hc').2
    exact hd
  · rw [if_neg hkj] at hc hc'
    exact h j c c' hc hc'

/-- Adding a context to each of two sessions. -/
theorem IsAhead.append (h : s.IsAhead t) (hlength : t.contexts.length = s.contexts.length)
    {d d' : Context} (hd : d.scope.Ahead d'.memo d.memo) :
    IsAhead { s with contexts := s.contexts ++ [d] } { t with contexts := t.contexts ++ [d'] } := by
  intro j c c' hc hc'
  have hc : (s.contexts ++ [d])[j]? = some c := hc
  have hc' : (t.contexts ++ [d'])[j]? = some c' := hc'
  rw [List.getElem?_append] at hc hc'
  rw [hlength] at hc'
  by_cases hj : j < s.contexts.length
  · rw [if_pos hj] at hc hc'
    exact h j c c' hc hc'
  · rw [if_neg hj] at hc hc'
    obtain rfl := List.mem_singleton.1 (List.mem_of_getElem? hc)
    obtain rfl := List.mem_singleton.1 (List.mem_of_getElem? hc')
    exact hd

/-- Leaving contexts behind in both sessions after a computation in the same view. -/
theorem IsAhead.leave (h : s.IsAhead t) {c' : Context} (hc : s.contextOf view = some c)
    (hc' : t.contextOf view = some c') {left left' : State Writer}
    (hahead : c.scope.Ahead left'.memo left.memo) (n : Nat) :
    (s.leave n view c left).IsAhead (t.leave n view c' left') := by
  cases view with
  | value v => exact h
  | context k => exact h.set k (d := { c with memo := left.memo }) hahead

end Session

end Mustache
