import Mustache.Proofs.Render.Composed
import Mustache.Proofs.Render.Watch

/-!
# Judging what is watched

A judgement of rendering with a watch passes through trees, functions and partials on all levels, if
it does so with what these are put together of: looking up, looking for partials, compiling, and
working in a new context.

**Idea.** `Judgement.Oversees` lists what is asked of the judgement. A name may be answered by a
call, so what is asked of looking up may rest on what is said of all calls on the level below. The
induction over the tree, and that over the levels, are done once.

Main statement: `Judgement.Oversees.template`.
-/

namespace Mustache

open Render

namespace Judgement

variable {J : Judgement Watch} {settings : Settings}

/-- A judgement passes through what rendering with a watch is put together of. -/
structure Oversees (J : Judgement Watch) (settings : Settings) : Prop extends J.Composes where
  reading : ∀ scope, J (State Watch) scope get fun _ => True
  compile : ∀ scope template,
    J Compiled scope (Watch.onWriter (Render.compile settings template)) fun _ => True
  blank : ∀ scope v, J Unit scope (Watch.onWriter (acceptBlank settings v)) fun _ => True
  came : ∀ scope name, J Unit scope (Watch.came name) fun _ => True
  fetch : ∀ scope name, J Unit scope (do Watch.came name; Watch.fetch settings name) fun _ => True
  child : ∀ scope v (m : Render Watch String), J String (scope.push v) m (fun _ => True) →
    J String scope (Watch.inContext (scope.push v) (inChild m)) fun _ => True
  lookup : ∀ d scope name,
    (∀ callee args, J Value scope (d.apply scope callee args) fun _ => True) →
      J Value scope (Watch.notes.lookup d scope name) fun _ => True

namespace Oversees

/-- What a judgement says of the level below: of all that is called there, and put in for a tag. -/
structure Below (J : Judgement Watch) (d : Deeper Watch) : Prop where
  apply : ∀ scope callee args, J Value scope (d.apply scope callee args) fun _ => True
  expand : ∀ scope name, J String scope (do Watch.came name; d.expand scope name) fun _ => True

section Trees

variable {d : Deeper Watch} {template : String}

theorem variableText (h : J.Oversees settings) (hd : Below J d) (scope : Scope) (name : String) :
    J String scope (Watch.notes.variableText d scope name) fun _ => True := by
  have shown (v : Value) : J String scope (ofCurrent Render.shown v) fun _ => True :=
    h.ofCurrent _ v
  unfold Notes.variableText
  refine h.bind (h.lookup d scope name (hd.apply scope)) fun v _ => ?_
  by_cases hc : v.isCallable = true
  · simp only [hc, if_true]
    exact h.bind (hd.apply scope v _) fun result _ => shown result
  · simp only [hc, Bool.false_eq_true, if_false, pure_bind]
    exact shown v

theorem renderLeaf (h : J.Oversees settings) (hd : Below J d) (scope : Scope) (t : Token) :
    J String scope (Watch.notes.renderLeaf d scope t) fun _ => True := by
  unfold Notes.renderLeaf
  cases t.kind with
  | nameTag =>
    refine h.bind (h.variableText hd scope t.value) fun text _ => ?_
    exact h.bind (h.reading scope) fun s _ => h.done _
  | unescapedTag => exact h.variableText hd scope t.value
  | partialTag => exact hd.expand scope t.value
  | _ => exact h.done _

mutual

theorem render (h : J.Oversees settings) (hd : Below J d) : ∀ (scope : Scope) (node : Node),
    J String scope (Watch.notes.render d template scope node) fun _ => True
  | scope, .leaf t => by
    unfold Notes.render
    exact h.renderLeaf hd scope t
  | scope, .block t children close => by
    have empty : J String scope (pure "") fun _ => True := h.done ""
    have inner := renderAll h hd scope children
    have hpush (item : Value) := h.child scope item _ (renderAll h hd (scope.push item) children)
    unfold Notes.render
    refine h.bind (h.lookup d scope t.value (hd.apply scope)) fun v _ => ?_
    refine h.bind (h.ofCurrent _ v) fun v _ => ?_
    by_cases hi : t.kind = .invertedTag
    · simp only [hi, if_true]
      split
      · exact empty
      · exact inner
    · simp only [hi, if_false]
      cases v.kind with
      | null => exact empty
      | scalar =>
        simp only
        split
        · exact inner
        · exact empty
      | mapping =>
        simp only
        split
        · exact hpush v
        · exact empty
      | sequence =>
        simp only [joinItems_eq_joinEach]
        exact h.joinEach hpush
      | callable => exact h.bind (hd.apply scope v _) fun result _ => h.ofCurrent _ result

theorem renderAll (h : J.Oversees settings) (hd : Below J d) :
    ∀ (scope : Scope) (nodes : List Node),
      J String scope (Watch.notes.renderAll d template scope nodes) fun _ => True
  | scope, [] => by
    unfold Notes.renderAll
    exact h.done ""
  | scope, node :: nodes => by
    unfold Notes.renderAll
    refine h.bind (render h hd scope node) fun first _ => ?_
    exact h.bind (renderAll h hd scope nodes) fun others _ => h.done _

end

theorem sourceText (h : J.Oversees settings) (hd : Below J d) (scope : Scope) (v : Value) :
    J String scope (Watch.notes.sourceText settings d scope v) fun _ => True := by
  have blank (v : Value) : J String scope
      (do Watch.notes.blank settings v; return "") fun _ => True :=
    h.bind (h.blank scope v) fun _ _ => h.done ""
  cases v with
  | str t =>
    refine h.bind (h.compile scope t) fun c _ => ?_
    exact h.renderAll hd scope c.nodes
  | _ => exact blank _

theorem expand (h : J.Oversees settings) (hd : Below J d) (scope : Scope) (name : String) :
    J String scope (do Watch.came name; Watch.notes.expand settings d scope name)
      fun _ => True := by
  have hsupply : J (Option Compiled) scope
      (do Watch.came name; Watch.supply settings name) fun _ => True := by
    unfold Watch.supply
    rw [← bind_assoc]
    exact h.bind (h.fetch scope name) fun _ _ =>
      h.bind (h.reading scope) fun s _ => h.done _
  unfold Notes.expand
  rw [← bind_assoc]
  refine h.bind hsupply fun found _ => ?_
  cases found with
  | none => exact h.done ""
  | some c => exact h.renderAll hd scope c.nodes

end Trees

/-- On every level, the judgement passes through what is called and put in. -/
theorem below (h : J.Oversees settings) (n : Nat) : Below J (Watch.notes.deeper settings n) := by
  induction n with
  | zero =>
    refine ⟨fun scope callee args => h.applyFlat callee args, fun scope name => ?_⟩
    exact h.bind (h.came scope name) fun _ _ => h.error scope _ _
  | succ n ih =>
    refine ⟨fun scope callee args => ?_, fun scope name => h.expand ih scope name⟩
    exact h.apply (ih.apply scope) (h.sourceText ih scope) callee args

variable {scope : Scope} {partials : Partials}

theorem renderCompiled (h : J.Oversees settings) (limit : Nat) (c : Compiled)
    (haccept : J Unit scope (Watch.accept settings partials) fun _ => True) :
    J String scope (Watch.notes.renderCompiled settings limit c partials scope) fun _ => True := by
  unfold Notes.renderCompiled
  exact h.bind haccept fun _ _ => h.renderAll (h.below limit) scope c.nodes

/-- **What a judgement says of the parts it says of rendering with a watch.** -/
theorem template (h : J.Oversees settings) (limit : Nat) (text : String)
    (haccept : J Unit scope (Watch.accept settings partials) fun _ => True) :
    J String scope (Watch.notes.template settings limit text partials scope) fun _ => True := by
  unfold Notes.template
  exact h.bind (h.compile scope text) fun c _ => h.renderCompiled limit c haccept

end Oversees

end Judgement

end Mustache
