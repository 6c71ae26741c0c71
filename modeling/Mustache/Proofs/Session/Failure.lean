import Mustache.Proofs.Render.Accounts
import Mustache.Proofs.Render.Supply
import Mustache.Proofs.Session.Steps

/-!
# What failing leaves behind

A template that cannot be read leaves nothing behind, wherever it is met.

- Compiling it and making it a partial fail, and change nothing.
- Rendering it fails before the partials that are given are taken over, and changes nothing.
- If it is one of the partials that are given, those before it are registered, nothing is rendered,
  and no function is called.

When rendering fails later, the writer may know more than before: templates that were read and
partials that were registered on the way. What it knew it still knows, and it never knows anything
that was not read to its end.

**Idea.** What a writer may come to know while something is rendered is said by `Writer.Extends`, a
property that all deeds keep.

Main statements: `Render.extends_call`, `Render.runFrom_accept_unreadable` and
`Session.failsCleanly`.
-/

namespace Mustache

open Render

/-- All delimiters that a deed was done with are the given ones. -/
def Deed.UsesOnly (spec : Delimiters.Spec) : Deed → Prop
  | .compile _ spec' _ => spec' = spec
  | .blank _ spec' => spec' = spec
  | _ => True

namespace Writer

/-- A writer knows what another one knew, and what it knows besides was read to its end. A name may
be the partial of another template than before. -/
structure Extends (spec : Delimiters.Spec) (w w' : Writer) : Prop where
  escape : w'.escape = w.escape
  kept : ∀ t c, w.templates.find? t = some c → w'.templates.find? t = some c
  added : ∀ t c, w'.templates.find? t = some c → w.templates.find? t = some c ∨
    c.template = t ∧ Template.parseWith spec t = .ok c.nodes
  named : ∀ name, (w.partials.find? name).isSome → (w'.partials.find? name).isSome
  partials : ∀ name c, w'.partials.find? name = some c →
    w.partials.find? name = some c ∨ ∃ t, w'.templates.find? t = some c
  blanksKept : ∀ v ∈ w.blanks, v ∈ w'.blanks
  blanks : ∀ v ∈ w'.blanks, v ∈ w.blanks ∨ v.size? = some 0 ∧ ∃ d, spec.delimiters = .ok d

/-- Makes templates the partials of names, one after another. -/
def registerAll (spec : Delimiters.Spec) (w : Writer) :
    List (String × String) → Except TemplateError Writer
  | [] => .ok w
  | (name, t) :: entries => do
    let (_, w') ← w.compilePartial spec name t
    registerAll spec w' entries

variable {spec : Delimiters.Spec} {w₀ w w' : Writer} {d : Deed} {t name : String} {c : Compiled}
  {loader : Option Loader}

theorem Extends.refl (spec : Delimiters.Spec) (w : Writer) : w.Extends spec w where
  escape := rfl
  kept _ _ h := h
  added _ _ h := .inl h
  named _ h := h
  partials _ _ h := .inl h
  blanksKept _ h := h
  blanks _ h := .inl h

theorem Extends.change (h : w₀.Extends spec w) (hd : d.Changes w w') (hspec : d.UsesOnly spec)
    (hescape : w'.escape = w.escape) (hblanks : ∀ v ∈ w.blanks, v ∈ w'.blanks) :
    w₀.Extends spec w' where
  escape := hescape.trans h.escape
  kept t c hc := hd.kept t c (h.kept t c hc)
  added t c hc := by
    rcases hd.added t c hc with hold | ⟨-, spec', rfl, ht, hp⟩
    · exact h.added t c hold
    · obtain rfl := hspec
      exact .inr ⟨ht, hp⟩
  named name hn := by
    rcases hd.partials name with ⟨t, c, -, -, hp⟩ | ⟨-, hp⟩
    · rw [hp]
      rfl
    · rw [hp]
      exact h.named name hn
  partials name c hc := by
    rcases hd.partials name with ⟨t, e, -, ht, hp⟩ | ⟨-, hp⟩
    · exact .inr ⟨t, ht.trans (hp.symm.trans hc)⟩
    · rcases h.partials name c (hp.symm.trans hc) with hold | ⟨t, ht⟩
      · exact .inl hold
      · exact .inr ⟨t, hd.kept t c ht⟩
  blanksKept v hv := hblanks v (h.blanksKept v hv)
  blanks v hv := by
    rcases hd.blanks v hv with hold | ⟨hsize, spec', rfl, hsound⟩
    · exact h.blanks v hold
    · obtain rfl := hspec
      exact .inr ⟨hsize, hsound⟩

theorem Extends.compile (h : w₀.Extends spec w) (hc : w.compile spec t = .ok (c, w')) :
    w₀.Extends spec w' := by
  obtain ⟨hescape, -, hblanks⟩ := same_of_compile hc
  refine h.change (Deed.changes_compile hc) rfl hescape fun v hv => ?_
  rw [hblanks]
  exact hv

theorem loader_of_registerAll {entries : List (String × String)}
    (h : w.registerAll spec entries = .ok w') : w'.loader = w.loader := by
  induction entries generalizing w with
  | nil =>
    cases h
    rfl
  | cons entry entries ih =>
    rw [registerAll] at h
    cases hg : w.compilePartial spec entry.1 entry.2 with
    | error e =>
      rw [hg] at h
      cases h
    | ok given =>
      rw [hg] at h
      obtain ⟨w₁, hc, hleft⟩ := compile_of_compilePartial_ok hg
      have hsame := (same_of_compile hc).2.1
      rw [ih h, hleft]
      exact hsame

/-- What a writer may have become while something is rendered, with a loader in place. -/
def Grown (spec : Delimiters.Spec) (w₀ : Writer) (loader : Option Loader) (w : Writer) : Prop :=
  w₀.Extends spec w ∧ w.loader = loader

/-- **All that rendering does only adds what was read to its end.** -/
theorem stable_grown (settings : Settings) (w₀ : Writer) (loader : Option Loader) :
    Chronicle.Stable settings fun ch => Grown settings.delimiters w₀ loader ch.writer where
  compiled _ _ _ _ h hc := ⟨h.1.compile hc, (same_of_compile hc).2.1.trans h.2⟩
  registered _ _ _ _ h hc :=
    ⟨h.1.change (Deed.changes_register hc) trivial rfl fun _ hv => hv, h.2⟩
  blank _ _ h hv hd :=
    ⟨h.1.change (Deed.changes_blank hv hd) rfl rfl fun _ => List.mem_cons_of_mem _, h.2⟩
  knownBlank _ _ h _ := h

theorem Extends.withLoader (h : w₀.Extends spec w) (loader : Option Loader) :
    w₀.Extends spec { w with loader } :=
  ⟨h.escape, h.kept, h.added, h.named, h.partials, h.blanksKept, h.blanks⟩

end Writer

namespace Render

variable {settings : Settings} {w₀ w w₁ : Writer} {c : Compiled} {text name source : String}
  {before after : List (String × String)} {e : TemplateError} {s : State Writer}

/-- What a call leaves the writer knowing, however it ends. -/
theorem extends_call (limit : Nat) (c : Compiled) (partials : Partials) (scope : Scope)
    (h : w₀.Extends settings.delimiters s.writer) :
    Writer.Grown settings.delimiters w₀ (partials.loaderAfter s.writer.loader)
      ((call settings limit c partials scope).runFrom s).2.writer := by
  cases partials with
  | loader loader =>
    -- The loader is put in place first, and stays.
    have hstable := Writer.stable_grown settings w₀ (some loader)
    have hafter : Writer.Grown settings.delimiters w₀ (some loader)
        { s.writer with loader := some loader } := ⟨h.withLoader (some loader), rfl⟩
    exact Chronicle.holds_of_agree
      (Node.agree_renderAll (hstable.silent.alike_deeper limit) c.template scope c.nodes)
      (s := { s with writer := { s.writer with loader := some loader } }) hafter
  | none | named =>
    have hstable := Writer.stable_grown settings w₀ s.writer.loader
    refine Chronicle.holds_of_agree (hstable.silent.agree_call (hstable.agree_accept ?_) limit c
      scope) ⟨h, rfl⟩
    exact fun _ hl => nomatch hl

/-- What rendering a template leaves the writer knowing, if the template itself can be compiled. -/
theorem extends_template (limit : Nat) (partials : Partials) (scope : Scope)
    (hc : s.writer.compile settings.delimiters text = .ok (c, w₁)) :
    Writer.Grown settings.delimiters s.writer (partials.loaderAfter s.writer.loader)
      ((template settings limit text partials scope).runFrom s).2.writer := by
  have hloader := (Writer.same_of_compile hc).2.1
  rw [template, runFrom_bind, runFrom_compile_ok hc, ← hloader]
  exact extends_call limit c partials scope ((Writer.Extends.refl _ _).compile hc)

/-- **The first partial that cannot be read** ends the taking over of partials. Those before it have
been registered. -/
theorem runFrom_accept_unreadable
    (hbefore : s.writer.registerAll settings.delimiters before = .ok w)
    (he : w.compile settings.delimiters source = .error e) :
    (accept settings (.named (before ++ (name, source) :: after))).runFrom s =
      (.error (.template e), { s with writer := w }) := by
  induction before generalizing s with
  | nil =>
    cases hbefore
    show (register settings name source >>= fun _ => accept settings (.named after)).runFrom s = _
    rw [runFrom_bind, runFrom_register_error he]
  | cons entry before ih =>
    rw [Writer.registerAll] at hbefore
    show (register settings entry.1 entry.2 >>= fun _ =>
      accept settings (.named (before ++ (name, source) :: after))).runFrom s = _
    cases hg : s.writer.compilePartial settings.delimiters entry.1 entry.2 with
    | error e' =>
      rw [hg] at hbefore
      cases hbefore
    | ok given =>
      rw [hg] at hbefore
      obtain ⟨w', hc, hleft⟩ := Writer.compile_of_compilePartial_ok hg
      rw [runFrom_bind, runFrom_register_ok hc, ← hleft]
      exact ih hbefore

theorem runFrom_call_unreadable (limit : Nat) (c : Compiled) (scope : Scope)
    (hbefore : s.writer.registerAll settings.delimiters before = .ok w)
    (he : w.compile settings.delimiters source = .error e) :
    (call settings limit c (.named (before ++ (name, source) :: after)) scope).runFrom s =
      (.error (.template e), { s with writer := w }) := by
  rw [call, runFrom_bind, runFrom_accept_unreadable hbefore he]

theorem runFrom_template_unreadable (limit : Nat) (scope : Scope)
    (hc : s.writer.compile settings.delimiters text = .ok (c, w₁))
    (hbefore : w₁.registerAll settings.delimiters before = .ok w)
    (he : w.compile settings.delimiters source = .error e) :
    (template settings limit text (.named (before ++ (name, source) :: after)) scope).runFrom s =
      (.error (.template e), { s with writer := w }) := by
  rw [template, runFrom_bind, runFrom_compile_ok hc]
  exact runFrom_call_unreadable limit c scope hbefore he

end Render

namespace Session

variable {s : Session} {n : Nat} {w : Writer} {view : View} {ctx : Context}

/-- What failing operations leave behind, with a writer and in the context of a view. -/
structure FailsCleanly (s : Session) (n : Nat) (w : Writer) (view : View) : Prop where
  compile : ∀ t delimiters e, (s.step (.compile n t delimiters)).1.result = .error e →
    (s.step (.compile n t delimiters)).2 = s
  compilePartial : ∀ name t delimiters e,
    (s.step (.compilePartial n name t delimiters)).1.result = .error e →
    (s.step (.compilePartial n name t delimiters)).2 = s
  /-- A template that cannot be read is not rendered, and no partials are taken over. -/
  template : ∀ text partials e, w.templates.find? text = none →
    Template.parseWith s.settings.delimiters text = .error e →
    s.step (.render n text view partials) = (.quiet (.error (.template e)), s)
  /-- If a partial that is given cannot be read, those before it are registered, and that is all. -/
  renderPartial : ∀ text c w₁ before name source after w₂ e,
    w.compile s.settings.delimiters text = .ok (c, w₁) →
    w₁.registerAll s.settings.delimiters before = .ok w₂ → w₂.templates.find? source = none →
    Template.parseWith s.settings.delimiters source = .error e →
    s.step (.render n text view (.named (before ++ (name, source) :: after))) =
        (.quiet (.error (.template e)), { s with writers := s.writers.set n w₂ }) ∧
      w₂.loader = w.loader
  callPartial : ∀ k c before name source after w₂ e, s.compiled[k]? = some (n, c) →
    w.registerAll s.settings.delimiters before = .ok w₂ → w₂.templates.find? source = none →
    Template.parseWith s.settings.delimiters source = .error e →
    s.step (.call k view (.named (before ++ (name, source) :: after))) =
        (.quiet (.error (.template e)), { s with writers := s.writers.set n w₂ }) ∧
      w₂.loader = w.loader
  /-- However rendering ends, what the writer knows then was read to its end. -/
  render : ∀ text c w₁ partials, w.compile s.settings.delimiters text = .ok (c, w₁) →
    ∃ w', (s.step (.render n text view partials)).2.writers = s.writers.set n w' ∧
      w.Extends s.settings.delimiters w' ∧ w'.loader = partials.loaderAfter w.loader
  call : ∀ k c partials, s.compiled[k]? = some (n, c) →
    ∃ w', (s.step (.call k view partials)).2.writers = s.writers.set n w' ∧
      w.Extends s.settings.delimiters w' ∧ w'.loader = partials.loaderAfter w.loader

theorem compileWith_of_error {f : Writer → Except TemplateError (Compiled × Writer)} {e : Error}
    (hw : s.writers[n]? = some w) (h : (s.compileWith n f).1.result = .error e) :
    (s.compileWith n f).2 = s := by
  cases hf : f w with
  | error e' => rw [compileWith_error hw hf]
  | ok given =>
    rw [compileWith_ok hw hf] at h
    rcases giveOut_cases { s with writers := s.writers.set n given.2 } n given.1 with
      ⟨k, c, -, -, hout⟩ | hout
    · rw [hout] at h
      cases h
    · rw [hout] at h
      cases h

/-- **Failing leaves a writer consistent.** -/
theorem failsCleanly (hw : s.writers[n]? = some w) (hview : s.contextOf view = some ctx) :
    s.FailsCleanly n w view where
  compile t delimiters e h := compileWith_of_error hw h
  compilePartial name t delimiters e h := compileWith_of_error hw h
  template text partials e hf hp := by
    have hc := Writer.compile_eq_error_iff.2 ⟨hf, hp⟩
    rw [step, run_eq hw hview, template, runFrom_bind, runFrom_compile_error hc]
    dsimp only
    rw [leave_eq hview, set_eq_self hw]
    rfl
  renderPartial text c w₁ before name source after w₂ e hc hbefore hf hp := by
    have he := Writer.compile_eq_error_iff.2 ⟨hf, hp⟩
    refine ⟨?_, (Writer.loader_of_registerAll hbefore).trans (Writer.same_of_compile hc).2.1⟩
    rw [step, run_eq hw hview, runFrom_template_unreadable depthLimit _ hc hbefore he]
    dsimp only
    rw [leave_eq hview]
    rfl
  callPartial k c before name source after w₂ e hk hbefore hf hp := by
    have he := Writer.compile_eq_error_iff.2 ⟨hf, hp⟩
    refine ⟨?_, Writer.loader_of_registerAll hbefore⟩
    rw [step_call_eq hk, run_eq hw hview, runFrom_call_unreadable depthLimit c _ hbefore he]
    dsimp only
    rw [leave_eq hview]
    rfl
  render text c w₁ partials hc := by
    have h := extends_template (s := ⟨w, ctx.memo, s.tally, []⟩) depthLimit partials ctx.scope hc
    rw [step, run_eq hw hview]
    exact ⟨_, rfl, h⟩
  call k c partials hk := by
    have h := extends_call (s := ⟨w, ctx.memo, s.tally, []⟩) depthLimit c partials ctx.scope
      (Writer.Extends.refl s.settings.delimiters w)
    rw [step_call_eq hk, run_eq hw hview]
    exact ⟨_, rfl, h⟩

/-- The second of three partials cannot be read, and the first one is registered again. -/
theorem failsCleanly_secondPartial :
    let t := "\x7b\x7b>a\x7d\x7d"
    let old : Compiled := ⟨0, "x", [.leaf ⟨.text, "x", 0, 1⟩]⟩
    let c : Compiled := ⟨1, t, [.leaf ⟨.partialTag, "a", 0, 6⟩]⟩
    let new : Compiled := ⟨2, "y", [.leaf ⟨.text, "y", 0, 1⟩]⟩
    let loader : Loader := ⟨fun _ => .ok none⟩
    let w : Writer := ⟨none, ⟨[("x", old)]⟩, [], ⟨[("a", old)]⟩, some loader, 1⟩
    let left : Writer :=
      ⟨none, ⟨[("x", old), (t, c), ("y", new)]⟩, [], ⟨[("a", new)]⟩, some loader, 3⟩
    let s : Session := { start with writers := [w] }
    s.writers[0]? = some w ∧ s.contextOf (.value .null) = some (Context.ofView .null) ∧
      s.FailsCleanly 0 w (.value .null) ∧
      s.step (.render 0 t (.value .null)
          (.named [("a", "y"), ("b", "\x7b\x7b#c\x7d\x7d"), ("d", "z")])) =
        (.quiet (.error (.template (.unclosedSection "c"))), { s with writers := [left] }) := by
  intro t old c new loader w left s
  have hw : s.writers[0]? = some w := rfl
  have hview : s.contextOf (.value .null) = some (Context.ofView .null) := rfl
  have hclean : s.FailsCleanly 0 w (.value .null) := failsCleanly hw hview
  have ht : Template.parseWith s.settings.delimiters "\x7b\x7b>a\x7d\x7d" =
      .ok [.leaf ⟨.partialTag, "a", 0, 6⟩] := by
    with_unfolding_all rfl
  have hy : Template.parseWith s.settings.delimiters "y" = .ok [.leaf ⟨.text, "y", 0, 1⟩] := by
    with_unfolding_all rfl
  have hp : Template.parseWith s.settings.delimiters "\x7b\x7b#c\x7d\x7d" =
      .error (.unclosedSection "c") := by
    with_unfolding_all rfl
  have hc : w.compile s.settings.delimiters t = .ok (c, w.keep t c.nodes) :=
    Writer.compile_new rfl ht
  have hbefore : (w.keep t c.nodes).registerAll s.settings.delimiters [("a", "y")] = .ok left := by
    rw [Writer.registerAll, Writer.compilePartial, Writer.compile_new rfl hy]
    rfl
  exact ⟨hw, hview, hclean,
    (hclean.renderPartial _ _ _ _ "b" _ [("d", "z")] _ _ hc hbefore rfl hp).1⟩

end Session

end Mustache
