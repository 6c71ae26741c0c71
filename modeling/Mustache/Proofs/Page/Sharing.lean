import Mustache.Page.View
import Mustache.Proofs.Render.Plain
import Mustache.Proofs.Render.Refinement

/-!
# Views that share a writer

The views of a page can be rendered with one writer, which then has what it compiled for one view at
hand for the next. Whether this can be seen depends on what the views read. A writer keeps partials
by their names, so the directories of two views should answer alike where both ask; and it keeps
templates by their texts, whatever they were read with, so where the template of one view is a
partial of another one, it should read the same as both. Where either fails, the views need not be
what they are with writers of their own (`not_views_eq_viewsApart`).

**Idea.** What a view comes to is a function of what it reads (`Source.rendered`), because nothing
in data can be called, and nothing changes. A writer that has rendered some of the views knows
nothing but what reading for one of them gives (`Knows`). So the next one comes to its function,
whatever the writer has, and the writer still knows nothing else; and a writer that was just made is
only a special case.

Main statement: `views_eq_viewsApart`.
-/

namespace Mustache.Page

open Render

/-! ## What views read -/

/-- What the rendering of a view reads: the text of its template, and the loader of its partials. -/
structure Source where
  text : String
  loader : Loader

/-- What the rendering of the view at a path reads. -/
def sourceAt (files : File.Tree) (path : File.Path) : Except Error Source := do
  let text ← files.readText path
  return ⟨String.ofList text, partialsIn files path.parent⟩

variable (settings : Settings) (delimiters : Option Delimiters.Spec)

namespace Source

/-- The delimiters that the text of a partial is read with: those that hold where none are given.
But the text of the view itself has been read before, with those of the view, and is not read
again. -/
def spec (s : Source) (text : String) : Delimiters.Spec :=
  if text = s.text then delimiters.getD settings.delimiters else settings.delimiters

/-- The tree of the partial of a name, if there is one. -/
def partialNodes (s : Source) (name : String) : Except Error (Option (List Node)) := do
  match ← s.loader.load name with
  | none => return none
  | some text =>
    let ns ← (Template.parseWith (s.spec settings delimiters text) text).mapError Error.template
    return some ns

/-- The names of partials that a view may ask for: those in its template, and those in the partials
that it may ask for. -/
inductive Asks (s : Source) : String → Prop
  | inView {ns : List Node} {t : Token}
      (hns : Template.parseWith (delimiters.getD settings.delimiters) s.text = .ok ns)
      (ht : .leaf t ∈ Node.preorder ns) (hk : t.kind = .partialTag) : Asks s t.value
  | inPartial {name : String} {ns : List Node} {t : Token} (h : Asks s name)
      (hns : s.partialNodes settings delimiters name = .ok (some ns))
      (ht : .leaf t ∈ Node.preorder ns) (hk : t.kind = .partialTag) : Asks s t.value

/-- Two views can share a writer: for names that both may ask for they get the same answers, and if
the template of the one is a partial of the other one, it reads the same as both. -/
structure Compatible (s t : Source) : Prop where
  loads : ∀ name, s.Asks settings delimiters name → t.Asks settings delimiters name →
    s.loader.load name = t.loader.load name
  reads : ∀ name, t.Asks settings delimiters name → t.loader.load name = .ok (some s.text) →
    s.text ≠ t.text →
      Template.parseWith (delimiters.getD settings.delimiters) s.text =
        Template.parseWith settings.delimiters s.text

end Source

/-- Some of the views read a text with some delimiters: as the template of a view, or as a partial
whose text is not that of the view. -/
inductive Reads (S : Source → Prop) (text : String) : Delimiters.Spec → Prop
  | asView {s : Source} (hs : S s) (htext : text = s.text) :
      Reads S text (delimiters.getD settings.delimiters)
  | asPartial {s : Source} {name : String} (hs : S s) (h : s.Asks settings delimiters name)
      (hload : s.loader.load name = .ok (some text)) (htext : text ≠ s.text) :
      Reads S text settings.delimiters

/-- Any two of the views can share a writer. -/
def AllCompatible (S : Source → Prop) : Prop :=
  ∀ s, S s → ∀ t, S t → s.Compatible settings delimiters t

variable {settings : Settings} {delimiters : Option Delimiters.Spec} {S : Source → Prop}
  {s t : Source} {name text : String} {ns : List Node}

theorem Source.Asks.reads (h : s.Asks settings delimiters name) (hs : S s)
    (hload : s.loader.load name = .ok (some text)) :
    Reads settings delimiters S text (s.spec settings delimiters text) := by
  rw [Source.spec]
  split
  · next htext => exact .asView hs htext
  · next htext => exact .asPartial hs h hload htext

/-- All of the views that are compatible read a text alike. -/
theorem Reads.parseWith_eq (hS : AllCompatible settings delimiters S)
    {a b : Delimiters.Spec} (ha : Reads settings delimiters S text a)
    (hb : Reads settings delimiters S text b) :
    Template.parseWith a text = Template.parseWith b text := by
  have mixed {s t : Source} {name : String} (hs : S s) (ht : S t)
      (hasks : t.Asks settings delimiters name) (hload : t.loader.load name = .ok (some text))
      (heq : text = s.text) (hne : text ≠ t.text) :
      Template.parseWith (delimiters.getD settings.delimiters) text =
        Template.parseWith settings.delimiters text := by
    subst heq
    exact (hS s hs t ht).reads name hasks hload hne
  cases ha with
  | asView hs heq =>
    cases hb with
    | asView _ _ => rfl
    | asPartial ht hasks hload hne => exact mixed hs ht hasks hload heq hne
  | asPartial ht hasks hload hne =>
    cases hb with
    | asView hs heq => exact (mixed hs ht hasks hload heq hne).symm
    | asPartial _ _ _ _ => rfl

theorem Source.Asks.partialNodes_eq (hS : AllCompatible settings delimiters S)
    (hs : S s) (ht : S t) (h : s.Asks settings delimiters name)
    (h' : t.Asks settings delimiters name) :
    s.partialNodes settings delimiters name = t.partialNodes settings delimiters name := by
  have hloads := (hS s hs t ht).loads name h h'
  rw [Source.partialNodes, Source.partialNodes, hloads]
  cases hload : t.loader.load name with
  | error e => rfl
  | ok answer =>
    cases answer with
    | none => rfl
    | some text =>
      have := Reads.parseWith_eq hS (h.reads hs (hloads.trans hload)) (h'.reads ht hload)
      simp only [bind, Except.bind, this]

/-! ## What views come to -/

/-- What a view's partials come to, by the levels that are left. -/
def Source.expand (settings : Settings) (delimiters : Option Delimiters.Spec)
    (escape : String → String) (s : Source) : Nat → Scope → String → Except Error String
  | 0, _, _ => .error .tooDeep
  | n + 1, scope, name => do
    match ← s.partialNodes settings delimiters name with
    | none => .ok ""
    | some ns => Node.plainAll ∅ escape (s.expand settings delimiters escape n) scope ns

/-- What a view comes to. -/
def Source.rendered (settings : Settings) (delimiters : Option Delimiters.Spec)
    (escape : String → String) (s : Source) (data : Value) : Except Error String := do
  let ns ← (Template.parseWith (delimiters.getD settings.delimiters) s.text).mapError Error.template
  Node.plainAll ∅ escape (s.expand settings delimiters escape depthLimit) (Scope.ofView data) ns

/-! ## What a writer knows -/

/-- A writer escapes in one way, and it knows only what some views read: of a text, what each of
them reads it as, and of a name, what one of them that may ask for it gets. -/
structure Knows (settings : Settings) (delimiters : Option Delimiters.Spec) (S : Source → Prop)
    (escape : String → String) (w : Writer) : Prop where
  escaping : w.escaping settings = escape
  templates : ∀ text c, w.templates.find? text = some c → ∀ spec,
    Reads settings delimiters S text spec → Template.parseWith spec text = .ok c.nodes
  partials : ∀ name c, w.partials.find? name = some c → ∃ s, S s ∧
    s.Asks settings delimiters name ∧ s.partialNodes settings delimiters name = .ok (some c.nodes)

/-- A writer that knows only what some views read is at work on one of them: it asks the view's
loader, and has compiled the view's template. -/
structure WorksOn (settings : Settings) (delimiters : Option Delimiters.Spec) (S : Source → Prop)
    (escape : String → String) (s : Source) (w : Writer) : Prop
    extends Knows settings delimiters S escape w where
  loader : w.loader = some s.loader
  known : w.templates.has s.text = true

variable {escape : String → String} {w : Writer}

theorem Knows.new (custom : Option (String → String)) :
    Knows settings delimiters S (custom.getD settings.escape) (Writer.new custom) where
  escaping := rfl
  templates _ _ h := by cases h
  partials _ _ h := by cases h

theorem Knows.keep (h : Knows settings delimiters S escape w)
    (hS : AllCompatible settings delimiters S) {spec : Delimiters.Spec}
    (hr : Reads settings delimiters S text spec) (hp : Template.parseWith spec text = .ok ns) :
    Knows settings delimiters S escape (w.keep text ns) where
  escaping := h.escaping
  templates u c hc other hother := by
    rcases Writer.find?_keep hc with ⟨rfl, rfl⟩ | ⟨-, hc⟩
    · exact (Reads.parseWith_eq hS hother hr).trans hp
    · exact h.templates u c hc other hother
  partials := h.partials

/-- Compiling a text that some view reads gives what it is read as, whatever was compiled before.
The delimiters only matter if the text is not known. -/
theorem Knows.compile_ok (h : Knows settings delimiters S escape w)
    {spec used : Delimiters.Spec} (hr : Reads settings delimiters S text spec)
    (hused : w.templates.find? text = none → used = spec)
    (hp : Template.parseWith spec text = .ok ns) :
    ∃ c w', w.compile used text = .ok (c, w') ∧ c.nodes = ns ∧ w'.templates.find? text = some c ∧
      (w' = w ∨ w' = w.keep text ns) := by
  cases hf : w.templates.find? text with
  | some c =>
    have hnodes := (h.templates text c hf spec hr).symm.trans hp
    exact ⟨c, w, Writer.compile_known hf, Except.ok.inj hnodes, hf, .inl rfl⟩
  | none =>
    rw [hused hf]
    refine ⟨_, _, Writer.compile_new hf hp, rfl, ?_, .inr rfl⟩
    rw [Writer.keep, Table.find?_insert, if_pos rfl]

theorem Knows.compile_error (h : Knows settings delimiters S escape w)
    {spec used : Delimiters.Spec} (hr : Reads settings delimiters S text spec)
    (hused : w.templates.find? text = none → used = spec) {e : TemplateError}
    (hp : Template.parseWith spec text = .error e) : w.compile used text = .error e := by
  cases hf : w.templates.find? text with
  | some c =>
    have := (h.templates text c hf spec hr).symm.trans hp
    cases this
  | none =>
    rw [Writer.compile, hf, hused hf, hp]
    rfl

theorem WorksOn.keep (h : WorksOn settings delimiters S escape s w)
    (hS : AllCompatible settings delimiters S) {spec : Delimiters.Spec}
    (hr : Reads settings delimiters S text spec) (hp : Template.parseWith spec text = .ok ns) :
    WorksOn settings delimiters S escape s (w.keep text ns) where
  toKnows := h.toKnows.keep hS hr hp
  loader := h.loader
  known := by
    rw [Writer.keep, Table.has, Table.find?_insert]
    split
    · rfl
    · exact h.known

/-- The text of a partial is compiled with the delimiters that hold where none are given, and yet it
is read as the view reads it: where that is with others, the text is known. -/
theorem WorksOn.eq_spec (h : WorksOn settings delimiters S escape s w)
    (hf : w.templates.find? text = none) :
    settings.delimiters = s.spec settings delimiters text := by
  rw [Source.spec, if_neg]
  rintro rfl
  have := h.known
  rw [Table.has, hf] at this
  cases this

theorem WorksOn.register (h : WorksOn settings delimiters S escape s w) (hs : S s)
    (hasks : s.Asks settings delimiters name) {c : Compiled}
    (hc : s.partialNodes settings delimiters name = .ok (some c.nodes)) :
    WorksOn settings delimiters S escape s { w with partials := w.partials.insert name c } where
  escaping := h.escaping
  templates := h.templates
  partials other d hd := by
    rw [Table.find?_insert] at hd
    split at hd
    · next heq =>
      cases hd
      rw [heq]
      exact ⟨s, hs, hasks, hc⟩
    · exact h.partials other d hd
  loader := h.loader
  known := h.known

/-! ## Rendering a view -/

/-- A writer knows only what some views read, and nothing was counted or taken out of a set. -/
def AtRest (settings : Settings) (delimiters : Option Delimiters.Spec) (S : Source → Prop)
    (escape : String → String) (st : State Writer) : Prop :=
  Knows settings delimiters S escape st.writer ∧ st.tally = ∅

/-- What is known under a name once it was fetched for a view: the partial that the view gets, or
nothing if it gets none. -/
def Fetched (J : Writer → Prop) (scope : Scope) (name : String) (found : Option (List Node))
    (_ : Unit) (st : State Writer) : Prop :=
  Rests J ∅ scope st ∧ (st.writer.partials.find? name).map (·.nodes) = found

theorem yields_register (hS : AllCompatible settings delimiters S) (hs : S s)
    (hasks : s.Asks settings delimiters name) (hload : s.loader.load name = .ok (some text))
    {scope : Scope} :
    Yields (Rests (WorksOn settings delimiters S escape s) ∅ scope) (register settings name text)
      (s.partialNodes settings delimiters name)
      (Fetched (WorksOn settings delimiters S escape s) scope name) := by
  intro st hst
  have hreads := hasks.reads hs hload
  have hnodes : s.partialNodes settings delimiters name = (do
      let ns ← (Template.parseWith (s.spec settings delimiters text) text).mapError Error.template
      return some ns) := by
    rw [Source.partialNodes, hload]
    rfl
  rw [register, runFrom_get_bind]
  cases hp : Template.parseWith (s.spec settings delimiters text) text with
  | error e =>
    rw [hp] at hnodes
    rw [hnodes, Writer.compilePartial, hst.store.compile_error hreads hst.store.eq_spec hp]
    exact ⟨rfl, hst⟩
  | ok ns =>
    rw [hp] at hnodes
    obtain ⟨c, w, hc, rfl, -, hw⟩ := hst.store.compile_ok hreads hst.store.eq_spec hp
    have hwork : WorksOn settings delimiters S escape s w := by
      rcases hw with rfl | rfl
      · exact hst.store
      · exact hst.store.keep hS hreads hp
    have hentry : (w.partials.insert name c).find? name = some c := by
      rw [Table.find?_insert, if_pos rfl]
    rw [hnodes, Writer.compilePartial, hc]
    exact ⟨⟨⟨hwork.register hs hasks hnodes, hst.memo⟩, hst.rest⟩,
      congrArg (Option.map (·.nodes)) hentry⟩

/-- Fetching a partial for a view gives the one that the view gets, if it was not known; and if it
was, then because this or another view got it under the name. -/
theorem yields_fetch (hS : AllCompatible settings delimiters S) (hs : S s)
    (hasks : s.Asks settings delimiters name) {scope : Scope} :
    Yields (Rests (WorksOn settings delimiters S escape s) ∅ scope) (fetch settings name)
      (s.partialNodes settings delimiters name)
      (Fetched (WorksOn settings delimiters S escape s) scope name) := by
  rw [fetch]
  refine leads_get_bind fun st hst => ?_
  cases hf : st.writer.partials.find? name with
  | some c =>
    obtain ⟨t, ht, hasks', hnodes⟩ := hst.store.partials name c hf
    rw [Source.Asks.partialNodes_eq hS ht hs hasks' hasks] at hnodes
    simp only [hf]
    refine leads_pure fun st' hst' => ?_
    rw [hnodes, hst']
    exact ⟨hst, congrArg (Option.map (·.nodes)) hf⟩
  | none =>
    simp only [hf, hst.store.loader]
    refine Leads.bind (P := fun r st' => r = .ok () ∧
      Fetched (WorksOn settings delimiters S escape s) scope name none () st') ?_ (fun _ => ?_) ?_
    · refine leads_modify fun st' hst' => ?_
      rw [hst']
      exact ⟨rfl, ⟨⟨hst.store, hst.memo⟩, hst.rest⟩, congrArg (Option.map (·.nodes)) hf⟩
    · cases hload : s.loader.load name with
      | error e =>
        have hnodes : s.partialNodes settings delimiters name = .error e := by
          rw [Source.partialNodes, hload]
          rfl
        rw [hnodes]
        exact leads_throw fun st' hst' => ⟨rfl, hst'.2.1⟩
      | ok answer =>
        cases answer with
        | none =>
          have hnodes : s.partialNodes settings delimiters name = .ok none := by
            rw [Source.partialNodes, hload]
            rfl
          rw [hnodes]
          exact leads_pure fun st' hst' => hst'.2
        | some text => exact (yields_register hS hs hasks hload).of_imp fun st' hst' => hst'.2.1
    · rintro e st' ⟨he, -⟩
      cases he

/-- A partial of a view comes to its function if what it holds does, a level below. -/
theorem gives_expand (hS : AllCompatible settings delimiters S) (hs : S s)
    (hasks : s.Asks settings delimiters name) {levels : Nat} {scope : Scope}
    (hinner : ∀ template ns, s.partialNodes settings delimiters name = .ok (some ns) →
      Gives (Rests (WorksOn settings delimiters S escape s) ∅ scope)
        (Node.renderAll (deeper settings levels) template scope ns)
        (Node.plainAll ∅ escape (s.expand settings delimiters escape levels) scope ns)) :
    Gives (Rests (WorksOn settings delimiters S escape s) ∅ scope)
      (expand settings (deeper settings levels) scope name)
      (s.expand settings delimiters escape (levels + 1) scope name) := by
  rw [expand, Source.expand]
  refine (yields_fetch hS hs hasks).bind fun found _ hfound => ?_
  rintro st ⟨hst, hknown⟩
  rw [runFrom_get_bind]
  cases hf : st.writer.partials.find? name with
  | none =>
    rw [hf] at hknown
    cases hknown
    exact ⟨rfl, hst⟩
  | some c =>
    rw [hf] at hknown
    cases hknown
    exact hinner c.template c.nodes hfound st hst

theorem gives_renderAll_view (hS : AllCompatible settings delimiters S)
    (hs : S s) {levels : Nat} {template : String} {scope : Scope} (hscope : scope.IsInert)
    (hasks : ∀ t, .leaf t ∈ Node.preorder ns → t.kind = .partialTag →
      s.Asks settings delimiters t.value) :
    Gives (Rests (WorksOn settings delimiters S escape s) ∅ scope)
      (Node.renderAll (deeper settings levels) template scope ns)
      (Node.plainAll ∅ escape (s.expand settings delimiters escape levels) scope ns) := by
  have evaluates {levels : Nat} {ns : List Node}
      (hpartials : ∀ scope t, scope.IsInert → .leaf t ∈ Node.preorder ns → t.kind = .partialTag →
        Gives (Rests (WorksOn settings delimiters S escape s) ∅ scope)
          ((deeper settings levels).expand scope t.value)
          (s.expand settings delimiters escape levels scope t.value)) :
      (deeper settings levels).Evaluates (WorksOn settings delimiters S escape s) ∅ false escape
        (s.expand settings delimiters escape levels) ns :=
    ⟨fun w hw => (deeper_escape settings levels w).trans hw.escaping, fun _ _ _ => nofun, hpartials⟩
  induction levels generalizing template scope ns with
  | zero =>
    exact Node.gives_renderAll scope ns (evaluates fun scope t _ _ _ => gives_throw .tooDeep) hscope
  | succ levels ih =>
    refine Node.gives_renderAll scope ns (evaluates fun scope t hscope ht hk => ?_) hscope
    have hname := hasks t ht hk
    refine gives_expand hS hs hname fun template ns hns => ih hscope fun u hu hk' => ?_
    exact .inPartial hname hns hu hk'

theorem Knows.worksOn (h : Knows settings delimiters S escape w) {c : Compiled}
    (hc : w.templates.find? s.text = some c) :
    WorksOn settings delimiters S escape s { w with loader := some s.loader } where
  escaping := h.escaping
  templates := h.templates
  partials := h.partials
  loader := rfl
  known := by rw [Table.has, hc]; rfl

variable {files : File.Tree} {path : File.Path} {data : Value}

/-- Compiling the template of a view gives what the view reads it as. -/
theorem yields_compileView (hS : AllCompatible settings delimiters S)
    (hs : S s) :
    Yields (AtRest settings delimiters S escape)
      (Render.compile { settings with delimiters := delimiters.getD settings.delimiters } s.text)
      ((Template.parseWith (delimiters.getD settings.delimiters) s.text).mapError Error.template)
      fun ns c st => c.nodes = ns ∧ AtRest settings delimiters S escape st ∧
        st.writer.templates.find? s.text = some c := by
  rintro st ⟨hst, hrest⟩
  have hreads : Reads settings delimiters S s.text (delimiters.getD settings.delimiters) :=
    .asView hs rfl
  rw [Render.compile, runFrom_get_bind]
  cases hp : Template.parseWith (delimiters.getD settings.delimiters) s.text with
  | error e =>
    rw [hst.compile_error hreads (fun _ => rfl) hp]
    exact ⟨rfl, hst, hrest⟩
  | ok ns =>
    obtain ⟨c, w, hc, hnodes, hknown, hw⟩ := hst.compile_ok hreads (fun _ => rfl) hp
    rw [hc]
    refine ⟨hnodes, ⟨?_, hrest⟩, hknown⟩
    rcases hw with rfl | rfl
    · exact hst
    · exact hst.keep hS hreads hp

/-- Rendering the template of a view, once it is compiled. -/
theorem leads_call (hS : AllCompatible settings delimiters S) (hs : S s)
    (hdata : data.isInert = true) {c : Compiled}
    (hp : Template.parseWith (delimiters.getD settings.delimiters) s.text = .ok c.nodes) :
    Leads (fun st => AtRest settings delimiters S escape st ∧
        st.writer.templates.find? s.text = some c)
      (Render.inChild (call settings depthLimit c (.loader s.loader) (Scope.ofView data)))
      fun r st =>
        r = Node.plainAll ∅ escape (s.expand settings delimiters escape depthLimit)
          (Scope.ofView data) c.nodes ∧ AtRest settings delimiters S escape st := by
  rintro st ⟨⟨hst, hrest⟩, hc⟩
  have hrun : Gives (Rests (WorksOn settings delimiters S escape s) ∅ (Scope.ofView data))
      (Node.renderAll (deeper settings depthLimit) c.template (Scope.ofView data) c.nodes)
      (Node.plainAll ∅ escape (s.expand settings delimiters escape depthLimit) (Scope.ofView data)
        c.nodes) :=
    gives_renderAll_view hS hs (Scope.isData_ofView.2 hdata) fun t ht hk => .inView hp ht hk
  obtain ⟨hresult, hleft⟩ := hrun ⟨{ st.writer with loader := some s.loader }, ∅, st.tally, st.log⟩
    (rests_of_empty (hst.worksOn hc) rfl hrest)
  exact ⟨hresult, hleft.store.toKnows, hleft.rest⟩

theorem gives_source (hS : AllCompatible settings delimiters S) (hs : S s)
    (hdata : data.isInert = true) :
    Gives (AtRest settings delimiters S escape)
      (do
        let own := { settings with delimiters := delimiters.getD settings.delimiters }
        let c ← Render.compile own s.text
        Render.inChild (call settings depthLimit c (.loader s.loader) (Scope.ofView data)))
      (s.rendered settings delimiters escape data) := by
  rw [Source.rendered]
  refine (yields_compileView hS hs).bind fun ns c hns => ?_
  rintro st ⟨hnodes, hst, hknown⟩
  cases hp : Template.parseWith (delimiters.getD settings.delimiters) s.text with
  | error e =>
    rw [hp] at hns
    cases hns
  | ok ms =>
    rw [hp] at hns
    cases hns
    subst hnodes
    exact leads_call hS hs hdata hp st ⟨hst, hknown⟩

/-- What the view at a path comes to. -/
def renderedAt (settings : Settings) (delimiters : Option Delimiters.Spec)
    (escape : String → String) (files : File.Tree) (data : Value) (path : File.Path) :
    Except Error String := do
  let s ← sourceAt files path
  s.rendered settings delimiters escape data

/-- **A view comes to its function,** whatever the writer knows of the other views. -/
theorem gives_view (hS : AllCompatible settings delimiters S)
    (hs : ∀ s, sourceAt files path = .ok s → S s) (hdata : data.isInert = true) :
    Gives (AtRest settings delimiters S escape)
      (view settings files path data delimiters)
      (renderedAt settings delimiters escape files data path) := by
  rw [sourceAt] at hs
  rw [view, renderedAt, sourceAt]
  cases hread : files.readText path with
  | error e => exact gives_throw e
  | ok chars =>
    rw [hread] at hs
    exact gives_source hS (hs _ rfl) hdata

/-! ## Views together and apart -/

variable {paths : List File.Path}

theorem gives_views (hS : AllCompatible settings delimiters S)
    (hs : ∀ path ∈ paths, ∀ s, sourceAt files path = .ok s → S s) (hdata : data.isInert = true) :
    Gives (AtRest settings delimiters S escape)
      (views settings files data delimiters paths)
      (paths.mapM (renderedAt settings delimiters escape files data)) := by
  induction paths with
  | nil => exact gives_pure []
  | cons path paths ih =>
    obtain ⟨hpath, hpaths⟩ := List.forall_mem_cons.1 hs
    rw [views, List.mapM_cons]
    exact (gives_view hS hpath hdata).bind fun first _ =>
      (ih hpaths).bind fun others _ => gives_pure (first :: others)

/-- A view with a writer of its own is one with a writer that knows nothing. -/
theorem gives_viewsApart (hS : AllCompatible settings delimiters S)
    (hs : ∀ path ∈ paths, ∀ s, sourceAt files path = .ok s → S s) (hdata : data.isInert = true) :
    Gives (fun st => st.tally = ∅) (viewsApart settings files data delimiters paths)
      (paths.mapM (renderedAt settings delimiters settings.escape files data)) := by
  induction paths with
  | nil => exact gives_pure []
  | cons path paths ih =>
    obtain ⟨hpath, hpaths⟩ := List.forall_mem_cons.1 hs
    rw [viewsApart, List.mapM_cons]
    have hfirst : Gives (fun st => st.tally = ∅) (apart (view settings files path data delimiters))
        (renderedAt settings delimiters settings.escape files data path) := fun st hst =>
      have hview := gives_view hS hpath hdata { st with writer := Writer.new none }
        ⟨Knows.new none, hst⟩
      ⟨hview.1, hview.2.2⟩
    exact hfirst.bind fun first _ => (ih hpaths).bind fun others _ => gives_pure (first :: others)

/-- A view asks for one partial at most if its template has tags for no other and the partial has
none. -/
theorem Source.Asks.eq_of_single {ms : List Node} {other : String}
    (h : s.Asks settings delimiters other)
    (hns : Template.parseWith (delimiters.getD settings.delimiters) s.text = .ok ns)
    (htags : ∀ t, .leaf t ∈ Node.preorder ns → t.kind = .partialTag → t.value = name)
    (hms : s.partialNodes settings delimiters name = .ok (some ms))
    (hnone : ∀ t, .leaf t ∈ Node.preorder ms → t.kind ≠ .partialTag) : other = name := by
  induction h with
  | inView hns' ht hk =>
    cases hns.symm.trans hns'
    exact htags _ ht hk
  | inPartial _ hms' ht hk ih =>
    rw [ih] at hms'
    cases hms.symm.trans hms'
    exact absurd hk (hnone _ ht)

/-- Two views that ask for one partial at most, and get the same for it, are compatible if it is
not what the first one's template is. -/
theorem Source.compatible_of_single
    (hs : ∀ other, s.Asks settings delimiters other → other = name)
    (ht : ∀ other, t.Asks settings delimiters other → other = name)
    (hload : s.loader.load name = t.loader.load name)
    (hne : t.loader.load name ≠ .ok (some s.text)) : s.Compatible settings delimiters t where
  loads other h _ := by rw [hs other h, hload]
  reads other h hother _ := by
    rw [ht other h] at hother
    exact absurd hother hne

/-- **Views can share a writer** if they are compatible: rendered with one writer, one after
another, they come to what they come to with a writer of their own each. -/
theorem views_eq_viewsApart {data : Json}
    (h : ∀ p ∈ paths, ∀ q ∈ paths, ∀ s t, sourceAt files p = .ok s → sourceAt files q = .ok t →
      s.Compatible settings delimiters t) :
    (withWriter none (views settings files data.toValue delimiters paths)).result =
      (withWriter none (viewsApart settings files data.toValue delimiters paths)).result := by
  let S : Source → Prop := fun s => ∃ path ∈ paths, sourceAt files path = .ok s
  have hS : AllCompatible settings delimiters S := by
    rintro s ⟨p, hp, hs⟩ t ⟨q, hq, ht⟩
    exact h p hp q hq s t hs ht
  have hs : ∀ path ∈ paths, ∀ s, sourceAt files path = .ok s → S s :=
    fun path hpath s hs => ⟨path, hpath, hs⟩
  have hdata := Json.isInert_toValue data
  have htogether := gives_views hS hs hdata ⟨Writer.new none, ∅, ∅, []⟩ ⟨Knows.new none, rfl⟩
  have hapart := gives_viewsApart hS hs hdata ⟨Writer.new none, ∅, ∅, []⟩ rfl
  exact htogether.1.trans hapart.1.symm

theorem ok_of_toOption {ε α : Type} {x : Except ε α} {a : α} (h : x.toOption = some a) :
    x = .ok a := by
  cases x with
  | error e => cases h
  | ok b => rw [Option.some.inj h]

/-- Two directories that have the same partial of one name, and delimiters for the views alone. -/
theorem views_eq_viewsApart_twoDirectories :
    let files : File.Tree := ⟨[], [(["a"], .directory), (["b"], .directory),
      (["a", "t.html"], .file (Text.Utf8.encode "<%>p%>")),
      (["a", "p.html"], .file (Text.Utf8.encode "\x7b\x7bx\x7d\x7d!")),
      (["b", "u.html"], .file (Text.Utf8.encode "<%x%><%>p%>")),
      (["b", "p.html"], .file (Text.Utf8.encode "\x7b\x7bx\x7d\x7d!"))]⟩
    let paths : List File.Path := [⟨"", ["a", "t.html"]⟩, ⟨"", ["b", "u.html"]⟩]
    let data := (Json.obj [("x", .int 1)]).toValue
    let delimiters : Option Delimiters.Spec := some (.text "<% %>")
    (withWriter none (views Session.defaults files data delimiters paths)).result =
      (withWriter none (viewsApart Session.defaults files data delimiters paths)).result := by
  intro files paths data delimiters
  -- A view whose own text has only tags for the one partial asks for that one.
  have hsource {path : File.Path} {own : String} {ns : List Node}
      (hread : (files.readText path).toOption = some own.toList)
      (hload : ((partialsIn files path.parent).load "p").toOption =
        some (some "\x7b\x7bx\x7d\x7d!"))
      (hne : "\x7b\x7bx\x7d\x7d!" ≠ own)
      (hns : Template.parseWith (delimiters.getD Session.defaults.delimiters) own = .ok ns)
      (htags : ∀ t, .leaf t ∈ Node.preorder ns → t.kind = .partialTag → t.value = "p")
      (s : Source) (hs : sourceAt files path = .ok s) :
      s.loader.load "p" = .ok (some "\x7b\x7bx\x7d\x7d!") ∧ "\x7b\x7bx\x7d\x7d!" ≠ s.text ∧
        ∀ other, s.Asks Session.defaults delimiters other → other = "p" := by
    rw [sourceAt, ok_of_toOption hread] at hs
    cases hs
    rw [String.ofList_toList]
    have hms : (Source.mk own (partialsIn files path.parent)).partialNodes Session.defaults
        delimiters "p" = .ok (some [.leaf ⟨.nameTag, "x", 0, 5⟩, .leaf ⟨.text, "!", 5, 6⟩]) := by
      rw [Source.partialNodes, ok_of_toOption hload]
      simp only [bind, Except.bind, Source.spec, if_neg hne]
      with_unfolding_all rfl
    refine ⟨ok_of_toOption hload, hne, fun other h => ?_⟩
    refine h.eq_of_single hns htags hms ?_
    simp [Node.preorder, Node.within]
  have hviews : ∀ path ∈ paths, ∀ s, sourceAt files path = .ok s →
      s.loader.load "p" = .ok (some "\x7b\x7bx\x7d\x7d!") ∧ "\x7b\x7bx\x7d\x7d!" ≠ s.text ∧
        ∀ other, s.Asks Session.defaults delimiters other → other = "p" := by
    simp only [paths, List.forall_mem_cons, List.not_mem_nil]
    refine ⟨?_, ?_, fun _ h => nomatch h⟩
    · have hns : Template.parseWith (.text "<% %>") "<%>p%>" =
          .ok [.leaf ⟨.partialTag, "p", 0, 6⟩] := by with_unfolding_all rfl
      refine hsource (by decide +kernel) (by decide +kernel) (by decide) hns ?_
      simp [Node.preorder, Node.within]
    · have hns : Template.parseWith (.text "<% %>") "<%x%><%>p%>" =
          .ok [.leaf ⟨.nameTag, "x", 0, 5⟩, .leaf ⟨.partialTag, "p", 5, 11⟩] := by
        with_unfolding_all rfl
      refine hsource (by decide +kernel) (by decide +kernel) (by decide) hns ?_
      simp [Node.preorder, Node.within]
  refine views_eq_viewsApart fun p hp q hq s t hs ht => ?_
  obtain ⟨hload, hne, hasks⟩ := hviews p hp s hs
  obtain ⟨hload', -, hasks'⟩ := hviews q hq t ht
  refine Source.compatible_of_single hasks hasks' (hload.trans hload'.symm) ?_
  rw [hload']
  exact fun h => hne (Option.some.inj (Except.ok.inj h))

/-- Views that are not compatible: two directories that have different partials of one name, and a
partial that is a view as well, with delimiters that are meant for views alone. -/
theorem not_views_eq_viewsApart :
    let siblings : File.Tree := ⟨[], [(["a"], .directory), (["b"], .directory),
      (["a", "t.html"], .file (Text.Utf8.encode "\x7b\x7b>p\x7d\x7d")),
      (["a", "p.html"], .file (Text.Utf8.encode "A")),
      (["b", "t.html"], .file (Text.Utf8.encode "\x7b\x7b>p\x7d\x7d")),
      (["b", "p.html"], .file (Text.Utf8.encode "B"))]⟩
    let twofold : File.Tree := ⟨[], [(["t.html"], .file (Text.Utf8.encode "<%>p%>")),
      (["p.html"], .file (Text.Utf8.encode "\x7b\x7bx\x7d\x7d"))]⟩
    let data := (Json.obj [("x", .int 1)]).toValue
    ((withWriter none (views Session.defaults siblings data none
        [⟨"", ["a", "t.html"]⟩, ⟨"", ["b", "t.html"]⟩])).result.toOption = some ["A", "A"] ∧
      (withWriter none (viewsApart Session.defaults siblings data none
        [⟨"", ["a", "t.html"]⟩, ⟨"", ["b", "t.html"]⟩])).result.toOption = some ["A", "B"]) ∧
    ((withWriter none (views Session.defaults twofold data (some (.text "<% %>"))
        [⟨"", ["t.html"]⟩, ⟨"", ["p.html"]⟩])).result.toOption = some ["1", "1"] ∧
      (withWriter none (viewsApart Session.defaults twofold data (some (.text "<% %>"))
        [⟨"", ["t.html"]⟩, ⟨"", ["p.html"]⟩])).result.toOption =
          some ["1", "\x7b\x7bx\x7d\x7d"]) := by
  decide +kernel

end Mustache.Page
