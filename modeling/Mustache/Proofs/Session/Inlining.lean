import Mustache.Proofs.Render.Inlining
import Mustache.Proofs.Render.Transparent
import Mustache.Proofs.Session.History

/-!
# Partials put in by hand

With a new writer and plain data, rendering a template gives what its tree gives when it is put
together by hand with one partial tag, at any depth, replaced by the tokens of the partial. The
template and the partial are read each for itself: the delimiters that one of them sets do not
matter to the other.

**Idea.** A tree can be written down as tokens and taken in again; the nodes are then the same but
for their offsets (`Node.resembles_nodes_drafts`). A writer with which partials were only registered
draws all it knows from what was given (`stocked_after_registered`), and so do the writers that
render the two trees, which resemble each other.

Main statement: `Session.partials_inlined`.
-/

namespace Mustache

open Render

namespace Node

/-! ## Trees as they are written down -/

mutual

/-- A node as it would be put together by hand. -/
def draft : Node → Draft
  | leaf t => .mk t.kind.label t.value t.start t.stop none none
  | block t children close =>
    .mk t.kind.label t.value t.start t.stop (some (drafts children)) (some close)

/-- Some nodes as they would be put together by hand. -/
def drafts : List Node → List Draft
  | [] => []
  | n :: ns => draft n :: drafts ns

end

/-- The tag of a node opens a section if and only if the node is one. -/
def IsProper : Node → Prop
  | leaf t => t.kind.opensSection = false
  | block t _ _ => t.kind.opensSection = true

theorem Nested.isProper {ts : List Token} {ns : List Node} (h : Nested ts ns) :
    ∀ x ∈ preorder ns, x.IsProper := by
  induction h with
  | nil => simp [preorder]
  | leaf ho _ _ ih =>
    intro x hx
    rcases mem_preorder_cons.1 hx with hx | hx
    · obtain rfl := mem_within_leaf.1 hx
      exact ho
    · exact ih x hx
  | block ho _ _ _ _ ih ih' =>
    intro x hx
    rcases mem_preorder_cons.1 hx with hx | hx
    · rcases mem_within_block.1 hx with rfl | hx
      · exact ho
      · exact ih x hx
    · exact ih' x hx

theorem preorder_append (ns ms : List Node) :
    preorder (ns ++ ms) = preorder ns ++ preorder ms := by
  induction ns with
  | nil => rfl
  | cons n ns ih => rw [List.cons_append, preorder, preorder, ih, List.append_assoc]

theorem Inlined.isProper {name : String} {ps ns ms : List Node} (h : Inlined name ps ns ms)
    (hps : ∀ x ∈ preorder ps, x.IsProper) (hns : ∀ x ∈ preorder ns, x.IsProper) :
    ∀ x ∈ preorder ms, x.IsProper := by
  induction h with
  | here =>
    intro x hx
    rw [preorder_append, List.mem_append] at hx
    rcases hx with hx | hx
    · exact hps x hx
    · exact hns x (mem_preorder_cons.2 (.inr hx))
  | @inside t children children' ns close _ ih =>
    intro x hx
    rcases mem_preorder_cons.1 hx with hx | hx
    · rcases mem_within_block.1 hx with rfl | hx
      · exact hns (block t children close) (by simp [preorder, within])
      · exact ih (fun y hy => hns y (by simp [preorder, within, hy])) x hx
    · exact hns x (mem_preorder_cons.2 (.inr hx))
  | later _ ih =>
    intro x hx
    rcases mem_preorder_cons.1 hx with hx | hx
    · exact hns x (mem_preorder_cons.2 (.inl hx))
    · exact ih (fun y hy => hns y (mem_preorder_cons.2 (.inr hy))) x hx

variable {P : Token → List Node → Prop}

mutual

theorem exists_node?_draft (P : Token → List Node → Prop) (length : Nat) : ∀ n : Node,
    (∀ x ∈ within n, x.IsProper) → ∃ m, (draft n).node? length = some m ∧
      ∀ {ns ms : List Node}, Resembles P ns ms → Resembles P (n :: ns) (m :: ms)
  | leaf t, h => by
    have ho : t.kind.opensSection = false := h (leaf t) (by simp [within])
    let token : Token :=
      ⟨t.kind, t.value, Text.place length t.start, Text.place length t.stop⟩
    refine ⟨leaf token, ?_, .leaf rfl rfl⟩
    rw [draft, Draft.node?, Token.Kind.ofLabel?_label]
    simp [ho, token]
  | block t children close, h => by
    have ho : t.kind.opensSection = true := h (block t children close) (by simp [within])
    have hchildren := resembles_nodes_drafts P length children
      fun x hx => h x (by simp [within, hx])
    let token : Token :=
      ⟨t.kind, t.value, Text.place length t.start, Text.place length t.stop⟩
    refine ⟨block token (Draft.nodes length (drafts children)) (Text.place length close), ?_,
      .block rfl rfl hchildren⟩
    rw [draft, Draft.node?, Token.Kind.ofLabel?_label]
    simp [ho, token, Draft.childNodes]

/-- Nodes that were written down have the same tags as before. -/
theorem resembles_nodes_drafts (P : Token → List Node → Prop) (length : Nat) : ∀ ns : List Node,
    (∀ x ∈ preorder ns, x.IsProper) → Resembles P ns (Draft.nodes length (drafts ns))
  | [], _ => by
    rw [drafts, Draft.nodes]
    exact .nil
  | n :: ns, h => by
    obtain ⟨m, hm, hcons⟩ := exists_node?_draft P length n
      fun x hx => h x (mem_preorder_cons.2 (.inl hx))
    have hothers := resembles_nodes_drafts P length ns
      fun x hx => h x (mem_preorder_cons.2 (.inr hx))
    rw [drafts, Draft.nodes, hm, Option.toList_some, List.singleton_append]
    exact hcons hothers

end

end Node

namespace Session

variable {settings : Settings} {escape : Option (String → String)}
  {given : List (String × String)}

/-- The steps that make some texts partials of the first writer, in order. -/
def registered (given : List (String × String)) : List Step :=
  given.map fun e => .compilePartial 0 e.1 e.2 none

/-- The first writer of a session draws from what was given, and what was given out is numbered
below what it will make next. -/
structure Stocked (settings : Settings) (escape : Option (String → String))
    (given : List (String × String)) (s : Session) : Prop where
  uses : s.settings = settings
  writer : ∃ w, s.writers[0]? = some w ∧
    w.Draws settings (escape.getD settings.escape) given none ∧
    ∀ g ∈ s.compiled, g.1 = 0 → g.2.number < w.made

theorem stocked_begun : Stocked settings escape [] (begun settings escape) where
  uses := rfl
  writer := ⟨Writer.new escape, rfl, .new settings escape, by simp [begun]⟩

theorem made_le_of_compile {spec : Delimiters.Spec} {w w' : Writer} {t : String} {c : Compiled}
    (hc : w.compile spec t = .ok (c, w')) : w.made ≤ w'.made := by
  rcases Writer.compile_cases hc with ⟨-, rfl⟩ | ⟨ns, -, -, -, rfl⟩
  · exact le_rfl
  · exact Nat.le_succ _

theorem Stocked.register {s : Session} (h : s.Stocked settings escape given) {t : String}
    (hp : ∃ ns, Template.parseWith settings.delimiters t = .ok ns) (name : String) :
    (s.step (.compilePartial 0 name t none)).2.Stocked settings escape (given ++ [(name, t)]) := by
  obtain ⟨w, hw, hdraws, hgiven⟩ := h.writer
  obtain ⟨c, w', hc⟩ := w.exists_compile hp
  obtain ⟨hdraws', rfl, hparse⟩ := hdraws.compile hc
  have hnumber : c.number < w'.made :=
    (hdraws'.sound.parsed _ c (Writer.find?_of_compile hc)).2.1
  have hmade : w.made ≤ w'.made := made_le_of_compile hc
  let left : Writer := { w' with partials := w'.partials.insert name c }
  have hleft := hdraws'.register hparse name
  have hthere : (s.writers.set 0 left)[0]? = some left := by
    rw [List.getElem?_set_self (List.getElem?_eq_some_iff.1 hw).1]
  have hstep : s.step (.compilePartial 0 name c.template none) =
      giveOut { s with writers := s.writers.set 0 left } 0 c := by
    rw [step]
    refine compileWith_ok hw ?_
    rw [Option.getD_none, h.uses, Writer.compilePartial, hc]
    rfl
  rw [hstep]
  rcases giveOut_cases { s with writers := s.writers.set 0 left } 0 c with
    ⟨k, e, -, -, hgive⟩ | hgive
  · rw [hgive]
    exact ⟨h.uses, left, hthere, hleft, fun g hg hzero => (hgiven g hg hzero).trans_le hmade⟩
  · rw [hgive]
    refine ⟨h.uses, left, hthere, hleft, fun g hg hzero => ?_⟩
    rcases List.mem_append.1 hg with hg | hg
    · exact (hgiven g hg hzero).trans_le hmade
    · rw [List.mem_singleton.1 hg]
      exact hnumber

theorem stocked_after_registered {s : Session} {before : List (String × String)}
    (h : s.Stocked settings escape before)
    (hp : ∀ e ∈ given, ∃ ns, Template.parseWith settings.delimiters e.2 = .ok ns) :
    (s.after (registered given)).Stocked settings escape (before ++ given) := by
  induction given generalizing s before with
  | nil => rwa [List.append_nil]
  | cons e given ih =>
    obtain ⟨he, hp⟩ := List.forall_mem_cons.1 hp
    have := ih (h.register he e.1) hp
    rwa [List.append_assoc, List.singleton_append] at this

/-! ## Rendering -/

variable {s : Session} {partials : Partials} {view : Value} {t : String} {ns : List Node}

/-- Rendering goes on to the tree of the template, with a writer that draws from the sources. -/
theorem Stocked.render (h : s.Stocked settings escape given)
    (hp : ∀ e ∈ partials.listed, ∃ ks, Template.parseWith settings.delimiters e.2 = .ok ks)
    (ht : Template.parseWith settings.delimiters t = .ok ns) (view : Value) :
    ∃ s', DrawsAnew settings (escape.getD settings.escape) (given ++ partials.listed)
        (partials.loaderAfter none) s.tally s' ∧
      (s.step (.render 0 t (.value view) partials)).1.result = Answer.rendered <$>
        ((Node.renderAll (deeper settings depthLimit) t (Scope.ofView view) ns).runFrom s').1 := by
  obtain ⟨w, hw, hdraws, -⟩ := h.writer
  have hs : DrawsAnew settings (escape.getD settings.escape) given none s.tally
      ⟨w, ∅, s.tally, []⟩ := ⟨hdraws, rfl, rfl⟩
  obtain ⟨s', hs', hrun⟩ := exists_template depthLimit hp ht hs
  refine ⟨s', hs', ?_⟩
  show Answer.rendered <$> (s.run 0 (.value view)
    (template s.settings depthLimit t partials)).1.result = _
  rw [run_eq hw (c := Context.ofView view) rfl, h.uses]
  exact congrArg (fun r => Answer.rendered <$> r.1) hrun

/-- A tree that is put together by hand is given out under a number of its own. -/
theorem Stocked.assemble (h : s.Stocked settings escape given) (t : String) (ds : List Draft) :
    ∃ k c, (s.step (.assemble 0 t ds)).1.result = .ok (.compiled k) ∧
      (s.step (.assemble 0 t ds)).2.compiled[k]? = some (0, c) ∧
      c.nodes = Draft.nodes t.length ds ∧
      (s.step (.assemble 0 t ds)).2.Stocked settings escape given ∧
      (s.step (.assemble 0 t ds)).2.tally = s.tally := by
  obtain ⟨w, hw, hdraws, hgiven⟩ := h.writer
  let c : Compiled := ⟨w.made, t, Draft.nodes t.length ds⟩
  let left : Writer := { w with made := w.made + 1 }
  have hleft : left.Draws settings (escape.getD settings.escape) given none :=
    ⟨⟨fun u e he =>
      let ⟨hu, hn, hp⟩ := hdraws.sound.parsed u e he
      ⟨hu, Nat.lt_succ_of_lt hn, hp⟩, hdraws.sound.injective, hdraws.sound.partials,
        hdraws.sound.blanks⟩, hdraws.escaping, hdraws.asks, hdraws.known, hdraws.unknown⟩
  have hstep : s.step (.assemble 0 t ds) =
      giveOut { s with writers := s.writers.set 0 left } 0 c := by
    rw [step]
    exact compileWith_ok (f := fun w => .ok (w.assemble t (Draft.nodes t.length ds))) hw rfl
  rw [hstep]
  rcases giveOut_cases { s with writers := s.writers.set 0 left } 0 c with
    ⟨k, e, hk, hn, -⟩ | hgive
  · -- Its number is new.
    exact absurd hn (Nat.ne_of_lt (hgiven (0, e) (List.mem_of_getElem? hk) rfl))
  · rw [hgive]
    refine ⟨_, c, rfl, List.getElem?_concat_length, rfl, ⟨h.uses, left, ?_, hleft, ?_⟩, rfl⟩
    · rw [List.getElem?_set_self (List.getElem?_eq_some_iff.1 hw).1]
    · intro g hg hzero
      rcases List.mem_append.1 hg with hg | hg
      · exact Nat.lt_succ_of_lt (hgiven g hg hzero)
      · rw [List.mem_singleton.1 hg]
        exact Nat.lt_succ_self _

theorem Stocked.call (h : s.Stocked settings escape given) {k : Nat} {c : Compiled}
    (hk : s.compiled[k]? = some (0, c))
    (hp : ∀ e ∈ partials.listed, ∃ ks, Template.parseWith settings.delimiters e.2 = .ok ks)
    (view : Value) :
    ∃ s', DrawsAnew settings (escape.getD settings.escape) (given ++ partials.listed)
        (partials.loaderAfter none) s.tally s' ∧
      (s.step (.call k (.value view) partials)).1.result = Answer.rendered <$>
        ((Node.renderAll (deeper settings depthLimit) c.template (Scope.ofView view)
          c.nodes).runFrom s').1 := by
  obtain ⟨w, hw, hdraws, -⟩ := h.writer
  have hs : DrawsAnew settings (escape.getD settings.escape) given none s.tally
      ⟨w, ∅, s.tally, []⟩ := ⟨hdraws, rfl, rfl⟩
  obtain ⟨s', hs', hrun⟩ := exists_call depthLimit c hp hs
  refine ⟨s', hs', ?_⟩
  rw [step_call_eq hk]
  show Answer.rendered <$> (s.run 0 (.value view) _).1.result = _
  rw [run_eq hw (c := Context.ofView view) rfl, h.uses]
  exact congrArg (fun r => Answer.rendered <$> r.1) hrun

/-- **Partials are put in as they are.** In a session with one new writer and some partials, all of
which can be read, let `source` be the text of the partial of a name. A template rendered with plain
data gives the text, or the error, that its tree gives when it is put together by hand with one tag
of that partial, anywhere in it, replaced by the nodes of `source`; unless the partials of the
template are nested too deeply. -/
theorem partials_inlined {name source : String} {ps ms : List Node}
    (hgiven : ∀ e ∈ given ++ partials.listed,
      ∃ ks, Template.parseWith settings.delimiters e.2 = .ok ks)
    (hsource : sourceOf (given ++ partials.listed) (partials.loaderAfter none) name =
      .ok (some source))
    (ht : Template.parseWith settings.delimiters t = .ok ns)
    (hp : Template.parseWith settings.delimiters source = .ok ps)
    (hms : Node.Inlined name ps ns ms) (hview : view.isPlain = true)
    (hlevels : (((begun settings escape).after (registered given)).step
      (.render 0 t (.value view) partials)).1.result ≠ .error .tooDeep) :
    let s := (begun settings escape).after (registered given)
    ∃ k, (s.step (.assemble 0 t (Node.drafts ms))).1.result = .ok (.compiled k) ∧
      ((s.step (.assemble 0 t (Node.drafts ms))).2.step (.call k (.value view) partials)).1.result =
        (s.step (.render 0 t (.value view) partials)).1.result := by
  intro s
  have hs : s.Stocked settings escape given :=
    stocked_after_registered stocked_begun fun e he => hgiven e (List.mem_append_left _ he)
  have hlisted : ∀ e ∈ partials.listed,
      ∃ ks, Template.parseWith settings.delimiters e.2 = .ok ks :=
    fun e he => hgiven e (List.mem_append_right _ he)
  obtain ⟨k, c, hk, hthere, hnodes, hs', htally⟩ := hs.assemble t (Node.drafts ms)
  refine ⟨k, hk, ?_⟩
  obtain ⟨left, hleft, hrendered⟩ := hs.render hlisted ht view
  obtain ⟨right, hright, hcalled⟩ := hs'.call hthere hlisted view
  rw [htally] at hright
  rw [hcalled, hrendered, hnodes]
  have hproper : ∀ x ∈ Node.preorder ms, x.IsProper := by
    have hread {text : String} {ks : List Node}
        (h : Template.parseWith settings.delimiters text = .ok ks) :
        ∀ x ∈ Node.preorder ks, x.IsProper := by
      obtain ⟨d, -, hd⟩ := Template.parseWith_eq_ok_iff.1 h
      obtain ⟨us, -, hnested⟩ := Template.parse_eq_ok_iff.1 hd
      exact hnested.isProper
    exact hms.isProper (hread hp) (hread ht)
  have hscope : (Scope.ofView view).IsPlain := Scope.isData_ofView.2 hview
  have hps : ∀ u : Token, u.value = name → IsTreeOf settings (given ++ partials.listed)
      (partials.loaderAfter none) u ps := by
    rintro u rfl
    exact treeOfPartial_of_source hsource hp
  -- First the tag is replaced, then the tree is written down.
  have hns : ((Node.renderAll (deeper settings depthLimit) t (Scope.ofView view) ns).runFrom
      left).1 ≠ .error .tooDeep := by
    intro hdeep
    rw [hrendered, hdeep] at hlevels
    exact hlevels rfl
  have hreplaced := result_eq_of_resembles t c.template (hms.resembles hps) hleft hright hscope
    hns
  rw [hreplaced] at hns ⊢
  exact congrArg _ (result_eq_of_resembles _ _ (Node.resembles_nodes_drafts _ t.length ms hproper)
    hright hright hscope hns).symm

/-- The text that a step renders, if it does. -/
def Outcome.text? (o : Outcome Answer) : Option String :=
  match o.result with
  | .ok (.rendered text) => some text
  | _ => none

theorem Outcome.result_of_text? {o : Outcome Answer} {text : String} (h : o.text? = some text) :
    o.result = .ok (.rendered text) := by
  rw [text?] at h
  split at h
  · next text' hresult =>
    rw [hresult, Option.some.inj h]
  · cases h

/-- The template and the partial both set delimiters of their own, and the partial is rendered for
each item. -/
theorem partials_inlined_delimiterSwitch :
    let t := "\x7b\x7b=( )=\x7d\x7d(#a)(>p)(/a)"
    let source := "\x7b\x7b=[ ]=\x7d\x7d[x]!"
    let view : View := .value (.dict [(.str "a", .list [.dict [(.str "x", .int 1)], .null])])
    let ps : List Node := [.leaf ⟨.delimiterTag, "[ ]", 0, 9⟩, .leaf ⟨.nameTag, "x", 9, 12⟩,
      .leaf ⟨.text, "!", 12, 13⟩]
    let ms : List Node :=
      [.leaf ⟨.delimiterTag, "( )", 0, 9⟩, .block ⟨.sectionTag, "a", 9, 13⟩ ps 17]
    let s := (begun defaults none).after (registered [("p", source)])
    (s.step (.render 0 t view .none)).1.result = .ok (.rendered "1!!") ∧
      ∃ k, (s.step (.assemble 0 t (Node.drafts ms))).1.result = .ok (.compiled k) ∧
        ((s.step (.assemble 0 t (Node.drafts ms))).2.step (.call k view .none)).1.result =
          (s.step (.render 0 t view .none)).1.result := by
  intro t source view ps ms s
  have hrendered : (s.step (.render 0 t view .none)).1.result = .ok (.rendered "1!!") :=
    Outcome.result_of_text? (by decide +kernel)
  let ns : List Node := [.leaf ⟨.delimiterTag, "( )", 0, 9⟩,
    .block ⟨.sectionTag, "a", 9, 13⟩ [.leaf ⟨.partialTag, "p", 13, 17⟩] 17]
  have hsource : Template.parse .braces "\x7b\x7b=[ ]=\x7d\x7d[x]!" = .ok ps := by
    with_unfolding_all rfl
  have ht : Template.parse .braces "\x7b\x7b=( )=\x7d\x7d(#a)(>p)(/a)" = .ok ns := by
    with_unfolding_all rfl
  have hread (text : String) :
      Template.parseWith defaults.delimiters text = Template.parse .braces text := rfl
  rw [← hread] at hsource ht
  have hms : Node.Inlined "p" ps ns ms := .later (.inside (.here rfl rfl))
  refine ⟨hrendered, partials_inlined ?_ rfl ht hsource hms rfl ?_⟩
  · intro e he
    obtain rfl := List.mem_singleton.1 he
    exact ⟨_, hsource⟩
  · show (s.step (.render 0 t view .none)).1.result ≠ _
    rw [hrendered]
    rintro ⟨⟩

end Session

end Mustache
