import Mustache.Page.View
import Mustache.Proofs.Render.Mirror
import Mustache.Proofs.Render.Supply
import Mustache.Proofs.Template.Section
import Mustache.Proofs.Value.Entry

/-!
# Callables that render their own source

A section whose callable only renders the source that it is handed puts out what the section would
put out if a true value stood in the callable's place: the one goes through the section's children,
the other reads the section's source again and goes through what it finds there.

The helper reads with the delimiters that hold where none are given, not with those in force in the
template, so this needs that the sources of such sections read the same with both. Where they do
not, the two may differ (`not_transparent_of_delimiters`).

**Idea.** The two renderings are gone through side by side: the views differ in one entry, where the
one has the callable and the other one a value that is true. The sources are read into the children
themselves (`Node.Rereads`), and those of sections inside them are sources of the whole template, so
this goes on to any depth, by induction on the levels that are left: a source is shorter than the
template it comes from.

Main statement: `Render.rendering_transparent`.
-/

namespace Mustache

open Render

/-! ## Reading sources again -/

theorem Template.parseWith_eq_ok_iff {spec : Delimiters.Spec} {template : String}
    {ns : List Node} :
    parseWith spec template = .ok ns ↔
      ∃ d, spec.delimiters = .ok d ∧ parse d template = .ok ns := by
  rw [parseWith]
  cases spec.delimiters with
  | error e =>
    refine iff_of_false (fun h => ?_) (fun ⟨_, hd, _⟩ => ?_)
    · cases h
    · cases hd
  | ok d =>
    constructor
    · exact fun h => ⟨d, rfl, h⟩
    · rintro ⟨_, hd, h⟩
      cases hd
      exact h

theorem Token.Kind.eq_sectionTag {k : Token.Kind} (h : k.opensSection = true)
    (hk : k ≠ .invertedTag) : k = .sectionTag := by
  cases k with
  | sectionTag => rfl
  | invertedTag => exact absurd rfl hk
  | _ => cases h

namespace Node

/-- The sources of a template's sections of a name are read into what the sections hold. -/
def Rereads (spec : Delimiters.Spec) (name template : String) (ns : List Node) : Prop :=
  ∀ t children close, .block t children close ∈ preorder ns → t.kind = .sectionTag →
    t.value = name → ∃ ms, Template.parseWith spec (source template t.stop close) = .ok ms ∧
      children = shiftAll t.stop ms

/-- A section in a section's source is a section of the template. -/
theorem Rereads.inner {spec : Delimiters.Spec} {name template : String} {ns children ms : List Node}
    {t : Token} {close : Nat} (h : Rereads spec name template ns)
    (hmem : .block t children close ∈ preorder ns)
    (hms : Template.parseWith spec (source template t.stop close) = .ok ms)
    (hchildren : children = shiftAll t.stop ms) :
    Rereads spec name (source template t.stop close) ms := by
  intro u kids stop hu hk hv
  have hu' : .block (u.shift t.stop) (shiftAll t.stop kids) (stop + t.stop) ∈ preorder ns := by
    refine mem_preorder_trans ?_ ns hmem
    rw [mem_within_block, hchildren, preorder_shiftAll]
    exact .inr (List.mem_map.2 ⟨_, hu, by rw [shift]⟩)
  obtain ⟨ks, hks, hkids⟩ := h _ _ _ hu' hk hv
  obtain ⟨d, -, hparse⟩ := Template.parseWith_eq_ok_iff.1 hms
  obtain ⟨-, -, -, hstop⟩ := Template.section_bounds hparse hu
  have hlength : (source template t.stop close).length ≤ close - t.stop := by
    rw [source, String.length_ofList, List.length_take]
    exact Nat.min_le_left _ _
  refine ⟨ks, ?_, shiftAll_injective t.stop ?_⟩
  · rwa [Template.source_source (by omega)]
  · rw [hkids, shiftAll_shiftAll, Token.shift_stop]

/-- A node is no partial, and if it looks a name up, the name is not the dot, and not `name` where
it is put out. -/
def Suits (name : String) : Node → Prop
  | leaf t => t.kind ≠ .partialTag ∧
      (t.kind = .nameTag ∨ t.kind = .unescapedTag → t.value ≠ name ∧ t.value ≠ ".")
  | block t _ _ => t.value ≠ "."

theorem suits_shift {name : String} {n : Nat} {x : Node} :
    (x.shift n).Suits name ↔ x.Suits name := by
  cases x <;> rfl

theorem Suits.inner {name : String} {ns children ms : List Node} {t : Token} {close : Nat}
    (h : ∀ x ∈ preorder ns, x.Suits name) (hmem : .block t children close ∈ preorder ns)
    (hchildren : children = shiftAll t.stop ms) : ∀ x ∈ preorder ms, x.Suits name := by
  intro x hx
  rw [← suits_shift]
  refine h _ (mem_preorder_trans ?_ ns hmem)
  rw [mem_within_block, hchildren, preorder_shiftAll]
  exact .inr (List.mem_map_of_mem hx)

end Node

/-! ## Two entries -/

/-- A callable that renders the source that it is handed: it takes a text and a helper, and calls
the helper with the text. -/
def Value.rendering (identity : Nat) : Value :=
  .function (.mk identity none ⟨[], [⟨"text", false⟩, ⟨"render", false⟩], none, [], none⟩
    (.call (.argument "render") [.argument "text"])) none

theorem Value.isBlind_rendering (identity : Nat) : (rendering identity).IsBlind := fun _ => rfl

theorem Value.isBlind_bool (b : Bool) : (bool b).IsBlind := fun _ => rfl

/-- What is the same but for where it stands has the same tags. -/
theorem Node.Resembles.of_shiftAll {P : Token → List Node → Prop} {k : Nat} {ns ms : List Node}
    (hP : ∀ t ps, P (t.shift k) ps → P t ps) (h : Node.Resembles P (Node.shiftAll k ns) ms) :
    Node.Resembles P ns ms := by
  generalize hks : Node.shiftAll k ns = ks at h
  induction h generalizing ns with
  | nil =>
    cases ns with
    | nil => exact .nil
    | cons n ns => cases hks
  | leaf hkind hvalue _ ih =>
    cases ns with
    | nil => cases hks
    | cons n ns =>
      cases n with
      | leaf t =>
        cases hks
        exact .leaf hkind hvalue (ih rfl)
      | block t children close => cases hks
  | block hkind hvalue _ _ ih ih' =>
    cases ns with
    | nil => cases hks
    | cons n ns =>
      cases n with
      | leaf t => cases hks
      | block t children close =>
        cases hks
        exact .block hkind hvalue (ih rfl) (ih' rfl)
  | replaced hkind hps _ ih =>
    cases ns with
    | nil => cases hks
    | cons n ns =>
      cases n with
      | leaf t =>
        cases hks
        exact .replaced hkind (hP t _ hps) (ih rfl)
      | block t children close => cases hks

section Entry

variable {es : List (Value × Value)} {name : String} {identity : Nat} {escape : String → String}

/-- Two scopes that sections come to from two views that differ in one entry: in the first one the
callable is put in that renders its source, in the second one a value that is true. -/
def AroundBoth (es : List (Value × Value)) (name : String) (identity : Nat)
    (scope scope' : Scope) : Prop :=
  ∃ inner, (∀ w ∈ inner, w.isPlain = true) ∧
    scope = Scope.around inner (.dict (Value.putEntry es (.str name) (.rendering identity))) ∧
    scope' = Scope.around inner (.dict (Value.putEntry es (.str name) (.bool true)))

/-- Two values that stand under a name: they are the same and plain, or they are the two entries. -/
def SameOrRendering (name : String) (identity : Nat) (key : String) (v w : Value) : Prop :=
  v = w ∧ v.isPlain = true ∨ key = name ∧ v = .rendering identity ∧ w = .bool true

theorem AroundBoth.push {scope scope' : Scope} (h : AroundBoth es name identity scope scope')
    {v : Value} (hv : v.isPlain = true) :
    AroundBoth es name identity (scope.push v) (scope'.push v) := by
  obtain ⟨inner, hinner, rfl, rfl⟩ := h
  exact ⟨v :: inner, List.forall_mem_cons.2 ⟨hv, hinner⟩, Scope.push_around inner _ v,
    Scope.push_around inner _ v⟩

/-- A name leads to the two entries, or to the same in both scopes. -/
theorem AroundBoth.settles_lookup {R : Writer → Writer → Prop} {settings : Settings}
    {levels limit : Nat} {scope scope' : Scope} (h : AroundBoth es name identity scope scope')
    (hes : ∀ e ∈ es, e.2.isPlain = true) {key : String} (hkey : key ≠ ".") :
    SettlesOn (fun _ => False) (State.Mirrors R (SameOrRendering name identity))
      (SameOrRendering name identity key) (lookup (deeper settings levels) scope key)
      (lookup (deeper settings limit) scope' key) := by
  obtain ⟨inner, hinner, rfl, rfl⟩ := h
  refine Render.settles_lookup ?_
  rcases Scope.resolve_around hes hinner hkey with ⟨heq, hentry⟩ | ⟨x, hx, hfound⟩
  · rw [hentry (.rendering identity) rfl, hentry (.bool true) rfl]
    exact .ok (agree_pure (.inr ⟨heq, rfl, rfl⟩)).settles
  · rw [hx _ (Value.isBlind_rendering identity), hx _ (Value.isBlind_bool true)]
    cases x with
    | error e => exact .error e
    | ok v =>
      exact .ok (settles_found (hfound v rfl) fun w hw => .inl ⟨rfl, hw⟩)

/-! ## The writer -/

/-- A writer escapes in one way, and what it knows of the templates that are shorter than a bound is
what reading them gives. A longer one may have been read with other delimiters. -/
structure Writer.SoundBelow (settings : Settings) (escape : String → String) (bound : Nat)
    (w : Writer) : Prop where
  escaping : w.escaping settings = escape
  parsed : ∀ text c, w.templates.find? text = some c → text.length < bound →
    c.template = text ∧ Template.parseWith settings.delimiters text = .ok c.nodes

variable {settings : Settings} {bound : Nat}

theorem Writer.SoundBelow.keep {w : Writer} (h : w.SoundBelow settings escape bound)
    {text : String} {ns : List Node} (hp : Template.parseWith settings.delimiters text = .ok ns) :
    (w.keep text ns).SoundBelow settings escape bound where
  escaping := h.escaping
  parsed u c hc hu := by
    rcases Writer.find?_keep hc with ⟨rfl, rfl⟩ | ⟨-, hc⟩
    · exact ⟨rfl, hp⟩
    · exact h.parsed u c hc hu

/-- The first writer knows short templates as they are read, and both escape alike. -/
abbrev SoundBesides (settings : Settings) (escape : String → String) (bound : Nat)
    (w w' : Writer) : Prop :=
  w.SoundBelow settings escape bound ∧ w'.escaping settings = escape

namespace Render

/-- A text that is shorter than the bound, compiled on the one side only. -/
theorem settles_compile_left {V : String → Value → Value → Prop} {α β : Type} {Q : α → β → Prop}
    {E : Error → Prop} {text : String} {ns : List Node} (hlt : text.length < bound)
    (hp : Template.parseWith settings.delimiters text = .ok ns) {k : Compiled → Render Writer α}
    {m : Render Writer β}
    (h : ∀ c : Compiled, c.template = text → c.nodes = ns →
      SettlesOn E (State.Mirrors (SoundBesides settings escape bound) V) Q (k c) m) :
    SettlesOn E (State.Mirrors (SoundBesides settings escape bound) V) Q
      (compile settings text >>= k) m := by
  intro s t hs
  rw [runFrom_bind]
  cases hf : s.writer.templates.find? text with
  | none =>
    rw [runFrom_compile_ok (Writer.compile_new hf hp)]
    exact h _ rfl rfl _ t ⟨⟨hs.store.1.keep hp, hs.store.2⟩, hs.memo, hs.tally⟩
  | some c =>
    obtain ⟨ht, hn⟩ := hs.store.1.parsed text c hf hlt
    rw [runFrom_compile_ok (Writer.compile_known hf)]
    exact h c ht (Except.ok.inj (hn.symm.trans hp)) s t hs

/-- What is put out for the section of a callable that renders its source: the call itself is one
level, and the helper that it calls is another. -/
theorem apply_rendering (settings : Settings) (n : Nat) (scope : Scope) (text : String)
    (identity : Nat) :
    (do
      let result ← (deeper settings (n + 2)).apply scope (.rendering identity)
        [.str text, .renderer]
      ofCurrent shown result) =
    sourceText settings (deeper settings n) scope (.str text) := by
  have happly : (deeper settings (n + 2)).apply scope (.rendering identity) [.str text, .renderer] =
      (do return .str (← sourceText settings (deeper settings n) scope (.str text))) := rfl
  rw [happly, bind_assoc]
  simp only [pure_bind]
  exact bind_pure _

/-- **With the callable in the view, and with a true value in its place, trees put out the same:**
the callable's sections are rendered from their sources, which are shorter than the template and
have the same tags as what the sections hold. -/
theorem settles_rendering (u : String) (hes : ∀ e ∈ es, e.2.isPlain = true)
    {levels limit : Nat} {d : Delimiters} {text : String} {ns ms : List Node}
    (hlevels : text.length ≤ levels)
    (hbound : text.length ≤ bound) (hp : Template.parse d text = .ok ns)
    (hrereads : Node.Rereads settings.delimiters name text ns)
    (hsuits : ∀ x ∈ Node.preorder ns, x.Suits name)
    (hR : Node.Resembles (fun _ _ => False) ns ms) {scope scope' : Scope}
    (hscope : AroundBoth es name identity scope scope') :
    SettlesOn (fun _ => False)
      (State.Mirrors (SoundBesides settings escape bound) (SameOrRendering name identity)) Eq
      (Node.renderAll (deeper settings levels) text scope ns)
      (Node.renderAll (deeper settings limit) u scope' ms) := by
  induction levels using Nat.strongRecOn generalizing u d text ns ms scope scope' with
  | ind levels ih =>
    refine hR.settles (A := AroundBoth es name identity) ?_ hscope
    refine { push := ?_, escape := ?_, lookup := ?_, names := ?_, partials := ?_, replaced := ?_,
             sections := ?_ }
    · exact fun scope scope' v hscope hv => hscope.push hv
    · rintro w r ⟨hw, hr⟩
      rw [deeper_escape, deeper_escape, hw.escaping, hr]
    · intro scope scope' x hscope hx hlooks
      refine hscope.settles_lookup hes ?_
      cases x with
      | leaf t => exact ((hsuits _ hx).2 hlooks).2
      | block t children close => exact hsuits _ hx
    · intro t v w ht hlooks hvw
      exact hvw.resolve_right fun hentry => ((hsuits _ ht).2 hlooks).1 hentry.1
    · exact fun scope scope' t _ ht hk => absurd hk (hsuits _ ht).1
    · exact fun _ _ _ _ _ h => h.elim
    · rintro t children close v w ht (hsame | ⟨heq, rfl, rfl⟩)
      · exact .inl hsame
      · refine .inr ⟨rfl, rfl, rfl, fun hi scope scope' children' hscope hchildren' => ?_⟩
        obtain ⟨hopens, hstop, hle, hclose⟩ := Template.section_bounds hp ht
        obtain ⟨ks, hks, hchildren⟩ :=
          hrereads t children close ht (Token.Kind.eq_sectionTag hopens hi) heq
        obtain ⟨e, -, hparse⟩ := Template.parseWith_eq_ok_iff.1 hks
        have hlength : (source text t.stop close).length + 2 ≤ text.length := by
          rw [source, String.length_ofList, List.length_take]
          omega
        obtain ⟨n, rfl⟩ : ∃ n, levels = n + 2 := ⟨levels - 2, by omega⟩
        show SettlesOn _ _ _ (do
          let result ← (deeper settings (n + 2)).apply scope (.rendering identity)
            [.str (source text t.stop close), .renderer]
          ofCurrent shown result) _
        rw [apply_rendering, sourceText]
        refine settles_compile_left (by omega) hks fun c htemplate hnodes => ?_
        rw [htemplate, hnodes]
        exact ih n (by omega) _ (by omega) (by omega) hparse
          (hrereads.inner ht hks hchildren) (Node.Suits.inner hsuits ht hchildren)
          ((hchildren ▸ hchildren').of_shiftAll fun _ _ => id) hscope

end Render

end Entry

/-! ## From the start -/

namespace Template

/-- A name is only that of sections in a template, there are no partials in it and no tags named by
the dot, and nothing is dropped in it, nor in the source of a section of the name, read with the
delimiters in force there. -/
structure SectionsOnly (d : Delimiters) (template name : String) (ns : List Node) : Prop where
  suits : ∀ x ∈ Node.preorder ns, x.Suits name
  undropped : ∀ i, ¬ DropsAt d template i
  sources : ∀ before t children close after e,
    Node.preorder ns = before ++ .block t children close :: after → t.kind = .sectionTag →
      t.value = name → inForce d (before.map Node.token ++ [t]) = .ok e →
        ∀ i, ¬ DropsAt e (source template t.stop close) i

/-- The source of a section of a name reads the same with the delimiters that hold where none are
given as with those in force where it stands. -/
def ReadsAlike (spec : Delimiters.Spec) (d : Delimiters) (template name : String)
    (ns : List Node) : Prop :=
  ∀ before t children close after e,
    Node.preorder ns = before ++ .block t children close :: after → t.kind = .sectionTag →
      t.value = name → inForce d (before.map Node.token ++ [t]) = .ok e →
        parseWith spec (source template t.stop close) = parse e (source template t.stop close)

/-- In a template of tags alone there is nothing to drop. -/
theorem SectionsOnly.of_tags {d : Delimiters} {template name : String} {ns : List Node}
    (hp : parse d template = .ok ns) (hsuits : ∀ x ∈ Node.preorder ns, x.Suits name)
    {us : List Token} (hscan : scan d 0 0 template.toList = .ok us)
    (htags : ∀ u ∈ us, u.kind ≠ .text) : SectionsOnly d template name ns where
  suits := hsuits
  undropped := not_dropsAt_of_tags hscan htags
  sources _ _ _ _ _ _ hcut _ _ he := not_dropsAt_source_of_tags hp hcut he hscan htags

/-- In a template that is read with the delimiters that hold where none are given, all sources read
alike, unless some tag sets others. -/
theorem ReadsAlike.of_unswitched {spec : Delimiters.Spec} {d : Delimiters}
    {template name : String} {ns : List Node} (hspec : spec.delimiters = .ok d)
    (h : ∀ x ∈ Node.preorder ns, x.token.kind ≠ .delimiterTag) :
    ReadsAlike spec d template name ns := by
  intro before t children close after e hcut _ _ he
  have htokens : ∀ u ∈ before.map Node.token ++ [t], u.kind ≠ .delimiterTag := by
    intro u hu
    rcases List.mem_append.1 hu with hu | hu
    · obtain ⟨x, hx, rfl⟩ := List.mem_map.1 hu
      exact h x (by simp [hcut, hx])
    · rw [List.mem_singleton.1 hu]
      exact h (.block t children close) (by simp [hcut])
  rw [inForce_eq_self htokens] at he
  cases he
  rw [parseWith, hspec]
  rfl

theorem SectionsOnly.rereads {spec : Delimiters.Spec} {d : Delimiters} {template name : String}
    {ns : List Node} (h : SectionsOnly d template name ns)
    (hsame : ReadsAlike spec d template name ns) (hp : parse d template = .ok ns) :
    Node.Rereads spec name template ns := by
  intro t children close hmem hk hv
  obtain ⟨before, after, hcut⟩ := List.append_of_mem hmem
  obtain ⟨e, ms, he, hms, -⟩ := exists_parse_source hp hcut
  refine ⟨ms, (hsame before t children close after e hcut hk hv he).trans hms, ?_⟩
  exact children_eq_of_not_dropsAt hp hcut he hms (fun i _ _ => h.undropped i)
    (h.sources before t children close after e hcut hk hv he)

end Template

namespace Render

/-- Compiles a template with a writer that was just made, with delimiters of its own if any are
given, and renders it with a view. -/
def fresh (settings : Settings) (limit : Nat) (escape : Option (String → String))
    (spec : Option Delimiters.Spec) (template : String) (view : Value) : Session.Outcome String :=
  Page.withWriter escape do
    let c ← compile { settings with delimiters := spec.getD settings.delimiters } template
    call settings limit c .none (Scope.ofView view)

variable {settings : Settings} {limit : Nat} {escape : Option (String → String)}
  {spec : Option Delimiters.Spec} {d : Delimiters} {template name : String} {ns : List Node}

theorem result_fresh (hspec : (spec.getD settings.delimiters).delimiters = .ok d)
    (hp : Template.parse d template = .ok ns) (view : Value) :
    (fresh settings limit escape spec template view).result =
      ((Node.renderAll (deeper settings limit) template (Scope.ofView view) ns).runFrom
        ⟨(Writer.new escape).keep template ns, ∅, ∅, []⟩).1 := by
  have hcompile : (Writer.new escape).compile (spec.getD settings.delimiters) template =
      .ok (⟨0, template, ns⟩, (Writer.new escape).keep template ns) :=
    Writer.compile_new rfl (Template.parseWith_eq_ok_iff.2 ⟨d, hspec, hp⟩)
  rw [fresh, Page.withWriter, runFrom_bind, compile, runFrom_get_bind]
  simp only [hcompile]
  rfl

/-- **A callable that renders its source is transparent.** In its place, a value that is true gives
the same text, or the same error. Every section in another takes up two levels, so as many levels as
the template has characters are always enough. -/
theorem rendering_transparent (hspec : (spec.getD settings.delimiters).delimiters = .ok d)
    (hp : Template.parse d template = .ok ns)
    (h : Template.SectionsOnly d template name ns)
    (hsame : Template.ReadsAlike settings.delimiters d template name ns)
    {es : List (Value × Value)} (hes : ∀ e ∈ es, e.2.isPlain = true)
    (hlimit : template.length ≤ limit) (identity : Nat) :
    (fresh settings limit escape spec template
        (.dict (Value.putEntry es (.str name) (.rendering identity)))).result =
      (fresh settings limit escape spec template
        (.dict (Value.putEntry es (.str name) (.bool true)))).result := by
  have hnone : ∀ w ∈ ([] : List Value), w.isPlain = true := fun _ h => nomatch h
  have hstart : State.Mirrors
      (SoundBesides settings (escape.getD settings.escape) template.length)
      (SameOrRendering name identity) ⟨(Writer.new escape).keep template ns, ∅, ∅, []⟩
      ⟨(Writer.new escape).keep template ns, ∅, ∅, []⟩ := by
    refine ⟨⟨⟨rfl, fun text c hc hlt => ?_⟩, rfl⟩, fun _ => .none, rfl⟩
    rcases Writer.find?_keep hc with ⟨rfl, -⟩ | ⟨-, hc⟩
    · exact absurd hlt (Nat.lt_irrefl _)
    · cases hc
  rw [result_fresh hspec hp, result_fresh hspec hp]
  rcases settles_rendering template hes hlimit le_rfl hp (h.rereads hsame hp)
    h.suits (Node.Resembles.refl _ ns) ⟨[], hnone, rfl, rfl⟩ _ _ hstart
    with ⟨_, _, hfalse⟩ | ⟨hr, -⟩
  · exact hfalse.elim
  · exact hr.eq

theorem rendering_transparent_nested :
    (fresh Session.defaults depthLimit none none
        "\x7b\x7b#n\x7d\x7d\x7b\x7b#n\x7d\x7d\x7b\x7bx\x7d\x7d\x7b\x7b/n\x7d\x7d\x7b\x7b/n\x7d\x7d"
        (.dict (Value.putEntry [(.str "x", .int 1)] (.str "n") (.rendering 0)))).result =
      (fresh Session.defaults depthLimit none none
        "\x7b\x7b#n\x7d\x7d\x7b\x7b#n\x7d\x7d\x7b\x7bx\x7d\x7d\x7b\x7b/n\x7d\x7d\x7b\x7b/n\x7d\x7d"
        (.dict (Value.putEntry [(.str "x", .int 1)] (.str "n") (.bool true)))).result := by
  have hscan : scan .braces 0 0
      ("\x7b\x7b#n\x7d\x7d\x7b\x7b#n\x7d\x7d\x7b\x7bx\x7d\x7d" ++
        "\x7b\x7b/n\x7d\x7d\x7b\x7b/n\x7d\x7d").toList =
      .ok [⟨.sectionTag, "n", 0, 6⟩, ⟨.sectionTag, "n", 6, 12⟩, ⟨.nameTag, "x", 12, 17⟩,
        ⟨.closeTag, "n", 17, 23⟩, ⟨.closeTag, "n", 23, 29⟩] := by with_unfolding_all rfl
  have hp : Template.parse .braces
      "\x7b\x7b#n\x7d\x7d\x7b\x7b#n\x7d\x7d\x7b\x7bx\x7d\x7d\x7b\x7b/n\x7d\x7d\x7b\x7b/n\x7d\x7d" =
      .ok [.block ⟨.sectionTag, "n", 0, 6⟩ [.block ⟨.sectionTag, "n", 6, 12⟩
        [.leaf ⟨.nameTag, "x", 12, 17⟩] 17] 23] := by with_unfolding_all rfl
  refine rendering_transparent rfl hp (.of_tags hp (fun x hx => ?_) hscan (by decide))
    (.of_unswitched rfl fun x hx => ?_) (by decide) (by decide) 0
  all_goals
    simp only [Node.preorder, Node.within, List.append_nil, List.mem_cons, List.not_mem_nil,
      or_false] at hx
    rcases hx with rfl | rfl | rfl <;> simp [Node.Suits, Node.token]

/-- The source of the section reads differently with braces: there it is a text, while with the
delimiters in force it is a variable. -/
theorem not_transparent_of_delimiters :
    ∃ d ns, (Delimiters.Spec.text "<% %>").delimiters = .ok d ∧
      Template.parse d "<%#n%><%x%><%/n%>" = .ok ns ∧
      Template.SectionsOnly d "<%#n%><%x%><%/n%>" "n" ns ∧
      (fresh Session.defaults depthLimit none (some (.text "<% %>")) "<%#n%><%x%><%/n%>"
        (.dict (Value.putEntry [(.str "x", .int 1)] (.str "n") (.rendering 0)))).result.toOption =
          some "<%x%>" ∧
      (fresh Session.defaults depthLimit none (some (.text "<% %>")) "<%#n%><%x%><%/n%>"
        (.dict (Value.putEntry [(.str "x", .int 1)] (.str "n") (.bool true)))).result.toOption =
          some "1" := by
  let d : Delimiters := ⟨['<', '%'], ['%', '>'], by decide, by decide, by decide⟩
  have hscan : scan d 0 0 "<%#n%><%x%><%/n%>".toList = .ok [⟨.sectionTag, "n", 0, 6⟩,
      ⟨.nameTag, "x", 6, 11⟩, ⟨.closeTag, "n", 11, 17⟩] := by with_unfolding_all rfl
  have hp : Template.parse d "<%#n%><%x%><%/n%>" =
      .ok [.block ⟨.sectionTag, "n", 0, 6⟩ [.leaf ⟨.nameTag, "x", 6, 11⟩] 11] := by
    with_unfolding_all rfl
  refine ⟨d, _, rfl, hp, .of_tags hp (fun x hx => ?_) hscan (by decide), by decide +kernel,
    by decide +kernel⟩
  simp only [Node.preorder, Node.within, List.append_nil, List.mem_cons, List.not_mem_nil,
    or_false] at hx
  rcases hx with rfl | rfl <;> simp [Node.Suits]

end Render

end Mustache
