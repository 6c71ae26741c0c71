import Mustache.Proofs.Render.Refinement
import Mustache.Proofs.Session.Interpreter
import Mustache.Proofs.Session.Steps

/-!
# The writer refines the interpreter

Whatever is done with a writer, the answers are those of the interpreter without caches, the calls
and questions that are recorded along with them.

**Idea.** A session and the interpreter correspond (`Session.Mirrors`) if the writer refines the
registry and all else is the same. Each action keeps that up and has the same answer, and so has a
whole run, by induction.

Main statements: `Session.Mirrors.step` and `answers_eq_interpreter`.
-/

namespace Mustache

open Render

variable {spec : Delimiters.Spec} {t : String} {nodes : List Node} {s : Session} {i : Interpreter}

/-- A session with one writer stands for a session of the interpreter. -/
structure Session.Mirrors (s : Session) (i : Interpreter) : Prop where
  settings : s.settings = i.settings
  contexts : s.contexts = i.contexts
  tally : s.tally = i.tally
  writer : ∃ w, s.writers = [w] ∧
    Refines i.settings.delimiters s.compiled i.handles w i.registry

/-- The same answer, and states that stand for each other. -/
def SameStep (x : Session.Outcome Answer × Session) (y : Session.Outcome Answer × Interpreter) :
    Prop :=
  x.1 = y.1 ∧ x.2.Mirrors y.2

theorem Session.Mirrors.contextOf (h : s.Mirrors i) (view : View) :
    s.contextOf view = i.contextOf view := by
  cases view with
  | value v => rfl
  | context n =>
    show s.contexts[n]? = i.contexts[n]?
    rw [h.contexts]

/-- Computations that agree are run alike. -/
theorem Session.Mirrors.run {α : Type} (h : s.Mirrors i) (view : View)
    {act : Scope → Render Writer α} {act' : Scope → Render Registry α}
    (ha : ∀ scope, Agree (Refines i.settings.delimiters s.compiled i.handles) Eq (act scope)
      (act' scope)) :
    (s.run 0 view act).1 = (i.run view act').1 ∧
      (s.run 0 view act).2.Mirrors (i.run view act').2 := by
  obtain ⟨w, hw, href⟩ := h.writer
  rw [Session.run, Interpreter.run, hw, h.contextOf]
  cases i.contextOf view with
  | none => exact ⟨rfl, h⟩
  | some c =>
    -- Both are run from states that are alike, so what they leave behind is alike too.
    obtain ⟨hr, hs⟩ := ha c.scope ⟨w, c.memo, s.tally, []⟩ ⟨i.registry, c.memo, i.tally, []⟩
      ⟨href, rfl, h.tally, rfl⟩
    refine ⟨congrArg₂ Session.Outcome.mk hr.eq hs.log, h.settings, ?_, hs.tally, _, rfl, hs.store⟩
    cases view with
    | value v => exact h.contexts
    | context n =>
      show s.contexts.set n _ = i.contexts.set n _
      rw [h.contexts]
      exact congrArg (fun memo => i.contexts.set n { c with memo }) hs.memo

/-- Rendering something answers the same text. -/
theorem Session.Mirrors.runTo {α : Type} (h : s.Mirrors i) (view : View) (answer : α → Answer)
    {act : Scope → Render Writer α} {act' : Scope → Render Registry α}
    (ha : ∀ scope, Agree (Refines i.settings.delimiters s.compiled i.handles) Eq (act scope)
      (act' scope)) :
    SameStep ((s.run 0 view act).1.map answer, (s.run 0 view act).2)
      ((i.run view act').1.map answer, (i.run view act').2) := by
  obtain ⟨heq, hm⟩ := h.run view ha
  exact ⟨congrArg (Session.Outcome.map answer) heq, hm⟩

theorem Session.Mirrors.update (h : s.Mirrors i) {w : Writer} {r : Registry}
    (hw : Refines i.settings.delimiters s.compiled i.handles w r) :
    Session.Mirrors { s with writers := s.writers.set 0 w } { i with registry := r } := by
  obtain ⟨w₀, hw₀, -⟩ := h.writer
  exact ⟨h.settings, h.contexts, h.tally, w, by rw [hw₀]; rfl, hw⟩

/-- Giving out a compiled template under a new number. -/
theorem Session.Mirrors.add (h : s.Mirrors i) {w : Writer} (hw : s.writers = [w])
    (href : Refines i.settings.delimiters s.compiled i.handles w i.registry) {c : Compiled}
    {handle : Handle} (hn : c.number < w.made) (hfits : handle.Fits i.settings.delimiters w c) :
    SameStep (.quiet (.ok (.compiled s.compiled.length)),
      { s with compiled := s.compiled ++ [(0, c)] }) (i.add handle) := by
  refine ⟨?_, h.settings, h.contexts, h.tally, w, hw, href.sound, href.mirrors, ?_⟩
  · rw [href.handles.length_eq]
    rfl
  · exact List.rel_append href.handles (.cons ⟨rfl, hn, hfits⟩ .nil)

theorem Session.Mirrors.giveOut (h : s.Mirrors i) {w : Writer} (hw : s.writers = [w])
    (href : Refines i.settings.delimiters s.compiled i.handles w i.registry) {c : Compiled}
    (hc : w.templates.find? t = some c) : SameStep (s.giveOut 0 c) (i.giveOut t) := by
  rw [Session.giveOut, Interpreter.giveOut, href.findIdx?_eq hc]
  cases i.handles.findIdx? (Handle.isCurrent t) with
  | some n => exact ⟨rfl, h⟩
  | none =>
    obtain ⟨ht, hn, hp⟩ := href.sound.parsed t c hc
    exact h.add hw href hn ⟨ht, hp, hc⟩

/-! ### Single actions -/

theorem Session.firstWriter_of {w : Writer} (hw : s.writers = [w]) : s.writers[0]? = some w := by
  rw [hw]
  rfl

theorem Interpreter.reading_error {e : TemplateError}
    (hp : Template.parseWith spec t = .error e)
    (go : List Node → Session.Outcome Answer × Interpreter) :
    i.reading spec t go = (.quiet (.error (.template e)), i) := by
  rw [Interpreter.reading, hp]

theorem Interpreter.reading_ok (hp : Template.parseWith spec t = .ok nodes)
    (go : List Node → Session.Outcome Answer × Interpreter) :
    i.reading spec t go = go nodes := by
  rw [Interpreter.reading, hp]

theorem Session.Mirrors.compile (h : s.Mirrors i) (template : String) :
    SameStep (s.step (.compile 0 template none)) (i.step (.compile template)) := by
  obtain ⟨w, hw, href⟩ := h.writer
  rw [Session.step, Interpreter.step, Option.getD_none, h.settings]
  cases hp : Template.parseWith i.settings.delimiters template with
  | error e =>
    rw [Session.compileWith_error (Session.firstWriter_of hw) (href.sound.compile_error hp),
      Interpreter.reading_error hp]
    exact ⟨rfl, h⟩
  | ok nodes =>
    obtain ⟨c, w', hc, -, -, hf, hw'⟩ := href.compile hp
    rw [Session.compileWith_ok (Session.firstWriter_of hw) hc, Interpreter.reading_ok hp]
    exact (h.update hw').giveOut (by rw [hw]; rfl) hw' hf

theorem Session.Mirrors.compilePartial (h : s.Mirrors i) (name template : String) :
    SameStep (s.step (.compilePartial 0 name template none))
      (i.step (.compilePartial name template)) := by
  obtain ⟨w, hw, href⟩ := h.writer
  rw [Session.step, Interpreter.step, Option.getD_none, h.settings]
  cases hp : Template.parseWith i.settings.delimiters template with
  | error e =>
    rw [Session.compileWith_error (Session.firstWriter_of hw)
      (href.sound.compilePartial_error hp name), Interpreter.reading_error hp]
    exact ⟨rfl, h⟩
  | ok nodes =>
    obtain ⟨c, w', hc, hf, hw'⟩ := href.compilePartial hp name
    rw [Session.compileWith_ok (Session.firstWriter_of hw) hc, Interpreter.reading_ok hp]
    exact (h.update hw').giveOut (by rw [hw]; rfl) hw' hf

theorem Session.giveOut_new {writer : Nat} {c : Compiled}
    (h : s.compiled.findIdx? (fun g => g.1 == writer && g.2.number == c.number) = none) :
    s.giveOut writer c = (.quiet (.ok (.compiled s.compiled.length)),
      { s with compiled := s.compiled ++ [(writer, c)] }) := by
  rw [Session.giveOut, h]

/-- A template that was put together has a number that no other has, and is given out anew. -/
theorem Session.Mirrors.addAssembled (h : s.Mirrors i) {w : Writer} (hw : s.writers = [w])
    (href : Refines i.settings.delimiters s.compiled i.handles w i.registry) (template : String)
    (nodes : List Node) :
    SameStep (Session.giveOut { s with writers := s.writers.set 0 (w.assemble template nodes).2 } 0
      (w.assemble template nodes).1) (i.add (.assembled template nodes)) := by
  have hless : ∀ g ∈ s.compiled, g.2.number < w.made :=
    (List.forall₂_and_left _ _).1 (href.handles.imp fun _ _ hg => ⟨hg.2.1, trivial⟩) |>.1
  have hnew : s.compiled.findIdx? (fun g => g.1 == 0 && g.2.number == w.made) = none := by
    rw [List.findIdx?_eq_none_iff]
    intro g hg
    rw [beq_eq_false_iff_ne.2 (Nat.ne_of_lt (hless g hg)), Bool.and_false]
  have hw' := href.assemble
  rw [Session.giveOut_new hnew]
  refine (h.update hw').add (by rw [hw]; rfl) hw' (Nat.lt_succ_self _) ⟨rfl, rfl, ?_⟩
  intro u e he
  exact Nat.ne_of_lt (href.sound.parsed u e he).2.1

theorem Session.Mirrors.assemble (h : s.Mirrors i) (template : String) (drafts : List Draft) :
    SameStep (s.step (.assemble 0 template drafts)) (i.step (.assemble template drafts)) := by
  obtain ⟨w, hw, href⟩ := h.writer
  rw [Session.step, Interpreter.step, Session.compileWith_ok (Session.firstWriter_of hw) rfl]
  exact h.addAssembled hw href template _

theorem Session.Mirrors.assembleParsed (h : s.Mirrors i) (template other : String)
    (delimiters : Option Delimiters.Spec) :
    SameStep (s.step (.assembleParsed 0 template other delimiters))
      (i.step (.assembleParsed template other delimiters)) := by
  obtain ⟨w, hw, href⟩ := h.writer
  rw [Session.step, Interpreter.step, h.settings]
  cases hp : Template.parseWith (delimiters.getD i.settings.delimiters) other with
  | error e =>
    rw [Session.compileWith_error (Session.firstWriter_of hw) rfl, Interpreter.reading_error hp]
    exact ⟨rfl, h⟩
  | ok nodes =>
    rw [Session.compileWith_ok (Session.firstWriter_of hw) rfl, Interpreter.reading_ok hp]
    exact h.addAssembled hw href template nodes

theorem Session.Mirrors.call (h : s.Mirrors i) (compiled : Nat) (view : View)
    (partials : Partials) :
    SameStep (s.step (.call compiled view partials)) (i.step (.call compiled view partials)) := by
  obtain ⟨w, hw, href⟩ := h.writer
  rw [Session.step, Interpreter.step]
  rcases getElem?_of_forall₂ href.handles compiled with ⟨hg, hh⟩ | ⟨⟨x, c⟩, handle, hg, hh, hrel⟩
  · rw [hg, hh]
    exact ⟨rfl, h⟩
  · obtain ⟨rfl, -, hfits⟩ := hrel
    rw [hg, hh, h.settings]
    exact h.runTo view .rendered fun scope => agree_handle depthLimit hfits partials scope

theorem Session.Mirrors.setContexts (h : s.Mirrors i) (contexts : List Context) :
    Session.Mirrors { s with contexts } { i with contexts } :=
  ⟨h.settings, rfl, h.tally, h.writer⟩

theorem Session.Mirrors.addContext (h : s.Mirrors i) (c : Context) :
    SameStep (s.addContext c) (i.addContext c) := by
  rw [Session.addContext, Interpreter.addContext, h.contexts]
  exact ⟨rfl, h.setContexts _⟩

theorem Session.Mirrors.withContext (h : s.Mirrors i) (n : Nat)
    {f : Context → Session.Outcome Answer × Session}
    {g : Context → Session.Outcome Answer × Interpreter} (hfg : ∀ c, SameStep (f c) (g c)) :
    SameStep (s.withContext n f) (i.withContext n g) := by
  rw [Session.withContext, Interpreter.withContext, h.contexts]
  cases i.contexts[n]? with
  | none => exact ⟨rfl, h⟩
  | some c => exact hfg c

/-- **Every action answers the same,** and keeps up the correspondence. -/
theorem Session.Mirrors.step (h : s.Mirrors i) (a : Action) :
    SameStep (s.step a.step) (i.step a) := by
  cases a with
  | compile template => exact h.compile template
  | compilePartial name template => exact h.compilePartial name template
  | assemble template drafts => exact h.assemble template drafts
  | assembleParsed template other delimiters => exact h.assembleParsed template other delimiters
  | call compiled view partials => exact h.call compiled view partials
  | render template view partials =>
    rw [Action.step, Session.step, Interpreter.step, h.settings]
    exact h.runTo view .rendered fun scope => agree_template _ depthLimit template partials scope
  | clear =>
    obtain ⟨w, hw, href⟩ := h.writer
    rw [Action.step, Session.step, Interpreter.step, Session.withWriter, hw]
    exact ⟨rfl, h.settings, h.contexts, h.tally, w.clear, rfl, href.clear⟩
  | setEscape escape =>
    rw [Action.step, Session.step, Interpreter.step, h.settings]
    exact ⟨rfl, rfl, h.contexts, h.tally, h.writer⟩
  | makeContext v => exact h.addContext (Context.ofView v)
  | push context v => exact h.withContext context fun c => h.addContext (c.push v)
  | lookup context name =>
    rw [Action.step, Session.step, Interpreter.step, h.settings]
    refine h.runTo (.context context) .value fun scope => ?_
    exact (agree_lookup (alike_deeper _ depthLimit) scope name).bindEq fun v => agree_ofCurrent _ v
  | forget context =>
    refine h.withContext context fun c => ?_
    rw [h.contexts]
    exact ⟨rfl, h.setContexts _⟩

theorem Session.Mirrors.answers_eq (h : s.Mirrors i) (actions : List Action) :
    s.answers (actions.map Action.step) = i.answers actions := by
  induction actions generalizing s i with
  | nil => rfl
  | cons a actions ih =>
    obtain ⟨heq, hm⟩ := h.step a
    rw [List.map_cons, Session.answers, Interpreter.answers, heq, ih hm]

/-- **The writer refines the interpreter.** Whatever is done with a new writer, while no delimiters
are given and the default ones stay, every answer is that of the interpreter without caches: the
same text or error, with the same calls and questions recorded. -/
theorem answers_eq_interpreter (settings : Settings) (escape : Option (String → String))
    (actions : List Action) :
    Session.answers ⟨settings, [Writer.new escape], [], [], ∅⟩ (actions.map Action.step) =
      (Interpreter.start settings escape).answers actions :=
  Session.Mirrors.answers_eq ⟨rfl, rfl, rfl, _, rfl, refines_new settings.delimiters escape⟩ actions

end Mustache
