import Mustache.Proofs.Render.Supply
import Mustache.Proofs.Text.Entities
import Mustache.Session

/-!
# No markup comes from data

Where texts are escaped for HTML, markup in what is put out stands in the templates, and never comes
from the data: if no text of the templates has a character of markup in it, no tag asks for a value
as it is, and no section hands its source to a callable, then what is put out has no such character
in it either. Names may lead to callables nevertheless; what they give is escaped as any other value
is. They may render on their own, and with that change what the writer knows, but not what is put in
for a partial.

**Idea.** All that is put out is a text of a tree or was escaped, so the tree is followed as it is
rendered, from state to state. The values of the sections that are come to on the way are listed by
`Render.met`; that none of them can be called is all that is asked of the data. Trees that are put
in have no markup either, since a writer goes on serving what it could serve at first
(`Writer.Serves`).

Main statements: `Node.unmarked_renderAll` and `Render.template_unmarked`.
-/

namespace Mustache

open Render

namespace Node

/-- A text has no markup in it, and no tag puts out its value as it is. -/
def IsUnmarked : Node → Prop
  | leaf t => (t.kind = .text → Text.IsUnmarked t.value) ∧ t.kind ≠ .unescapedTag
  | block _ _ _ => True

/-- All nodes of a tree are unmarked. -/
def AreUnmarked (ns : List Node) : Prop := ∀ x ∈ preorder ns, x.IsUnmarked

instance : DecidablePred IsUnmarked
  | leaf _ => inferInstanceAs (Decidable (_ ∧ _))
  | block _ _ _ => inferInstanceAs (Decidable True)

instance (ns : List Node) : Decidable (AreUnmarked ns) :=
  List.decidableBAll IsUnmarked (preorder ns)

end Node

/-! ## Sections that are come to -/

/-- What is listed for each of some things, each come to after those before have been rendered. -/
def Render.listEach {σ α β : Type} (f : α → Render σ String) (list : α → State σ → List β) :
    List α → State σ → List β
  | [], _ => []
  | a :: as, s => list a s ++
    match (f a).runFrom s with
    | (.ok _, s') => listEach f list as s'
    | (.error _, _) => []

namespace Node

mutual

/-- The values that the names of sections lead to, for all sections that are come to when a node is
rendered from a state; inverted ones do not count. Those in partials are handed in. -/
def met (deeper : Deeper Writer) (below : Scope → String → State Writer → List Value)
    (template : String) (scope : Scope) : Node → State Writer → List Value
  | leaf t, s => if t.kind = .partialTag then below scope t.value s else []
  | block t children _, s =>
    match (lookup deeper scope t.value).runFrom s with
    | (.error _, _) => []
    | (.ok v, s') =>
      let v := v.current s'.tally
      if t.kind = .invertedTag then
        if v.truth then [] else metAll deeper below template scope children s'
      else v ::
        match v.kind with
        | .scalar => if v.truth then metAll deeper below template scope children s' else []
        | .mapping =>
          if v.truth then
            metAll deeper below template (scope.push v) children { s' with memo := ∅ }
          else []
        | .sequence =>
          listEach (fun item => inChild (renderAll deeper template (scope.push item) children))
            (fun item s => metAll deeper below template (scope.push item) children
              { s with memo := ∅ }) v.items s'
        | .null | .callable => []

/-- The values of all sections that are come to when some nodes are rendered from a state. -/
def metAll (deeper : Deeper Writer) (below : Scope → String → State Writer → List Value)
    (template : String) (scope : Scope) : List Node → State Writer → List Value
  | [], _ => []
  | n :: ns, s => n.met deeper below template scope s ++
    match (n.render deeper template scope).runFrom s with
    | (.ok _, s') => metAll deeper below template scope ns s'
    | (.error _, _) => []

end

end Node

namespace Render

/-- The values of the sections that are come to in the partial of a name. -/
def metBelow (settings : Settings) : Nat → Scope → String → State Writer → List Value
  | 0, _, _, _ => []
  | n + 1, scope, name, s =>
    match (supply settings name).runFrom s with
    | (.ok (some c), s') =>
      Node.metAll (deeper settings n) (metBelow settings n) c.template scope c.nodes s'
    | _ => []

/-- The values of the sections that are come to when a template is rendered from a state. -/
def met (settings : Settings) (limit : Nat) (text : String) (partials : Partials) (scope : Scope)
    (s : State Writer) : List Value :=
  match (prepare settings text partials).runFrom s with
  | (.ok c, s') =>
    Node.metAll (deeper settings limit) (metBelow settings limit) c.template scope c.nodes s'
  | (.error _, _) => []

/-! ## What is put out -/

/-- If a computation ends well, then with a text that is unmarked. -/
def PutsUnmarked {σ : Type} (m : Render σ String) (s : State σ) : Prop :=
  ∀ out s', m.runFrom s = (.ok out, s') → Text.IsUnmarked out

theorem putsUnmarked_pure {σ : Type} {text : String} (h : Text.IsUnmarked text) (s : State σ) :
    PutsUnmarked (pure text) s := by
  intro out s' hrun
  cases hrun
  exact h

/-- A computation that is done in steps ends well only if each of them does. -/
theorem exists_of_runFrom_bind {σ α β : Type} {m : Render σ α} {k : α → Render σ β} {b : β}
    {s s' : State σ} (h : (m >>= k).runFrom s = (.ok b, s')) :
    ∃ a s₁, m.runFrom s = (.ok a, s₁) ∧ (k a).runFrom s₁ = (.ok b, s') := by
  rw [runFrom_bind] at h
  rcases hm : m.runFrom s with ⟨r, s₁⟩
  rw [hm] at h
  cases r with
  | ok a => exact ⟨a, s₁, rfl, h⟩
  | error e => cases h

theorem putsUnmarked_append {σ : Type} {m k : Render σ String} {s : State σ}
    (hm : PutsUnmarked m s) (hk : ∀ a s₁, m.runFrom s = (.ok a, s₁) → PutsUnmarked k s₁) :
    PutsUnmarked (do
      let first ← m
      let others ← k
      return first ++ others) s := by
  intro out s' hrun
  obtain ⟨first, s₁, hfirst, hrest⟩ := exists_of_runFrom_bind hrun
  obtain ⟨others, s₂, hothers, hpure⟩ := exists_of_runFrom_bind hrest
  cases hpure
  exact (hm first s₁ hfirst).append (hk first s₁ hfirst others _ hothers)

theorem putsUnmarked_inChild {σ : Type} {m : Render σ String} {s : State σ}
    (h : PutsUnmarked m { s with memo := ∅ }) : PutsUnmarked (inChild m) s := by
  intro out s' hrun
  rcases hm : m.runFrom { s with memo := ∅ } with ⟨r, left⟩
  have hr : (inChild m).runFrom s = (r, { left with memo := s.memo }) := by
    show (let (result, left) := m.runFrom { s with memo := ∅ }
      (result, { left with memo := s.memo })) = _
    rw [hm]
  rw [hr] at hrun
  cases hrun
  exact h out left hm

theorem putsUnmarked_joinEach {σ α : Type} {I : σ → Prop} {f : α → Render σ String}
    {list : α → State σ → List Value}
    (hkeeps : ∀ a s, I s.writer → I ((f a).runFrom s).2.writer)
    (hf : ∀ a s, I s.writer → (∀ v ∈ list a s, v.isCallable = false) → PutsUnmarked (f a) s)
    {as : List α} {s : State σ} (hs : I s.writer)
    (hmet : ∀ v ∈ listEach f list as s, v.isCallable = false) :
    PutsUnmarked (joinEach f as) s := by
  induction as generalizing s with
  | nil => exact putsUnmarked_pure Text.isUnmarked_empty s
  | cons a as ih =>
    rw [listEach, List.forall_mem_append] at hmet
    rw [joinEach]
    refine putsUnmarked_append (hf a s hs hmet.1) fun out s₁ hrun => ?_
    have hkept := hkeeps a s hs
    rw [hrun] at hkept hmet
    exact ih hkept hmet.2

end Render

/-! ## Following the tree -/

/-- What going through a tree relies on: a property that rendering keeps, of writers that escape for
HTML, and that partials are unmarked, if none of the sections in them leads to a callable. -/
structure Writer.Guards (settings : Settings) (n : Nat) (I : Writer → Prop) : Prop where
  lasting : Lasting settings I
  escape : ∀ w, I w → w.escaping settings = Text.escapeHtml
  expand : ∀ scope name s, I s.writer →
    (∀ v ∈ metBelow settings n scope name s, v.isCallable = false) →
      PutsUnmarked ((deeper settings n).expand scope name) s

namespace Node

variable {settings : Settings} {n : Nat} {I : Writer → Prop} {template : String}

theorem unmarked_renderLeaf (h : Writer.Guards settings n I) {scope : Scope} {t : Token}
    {s : State Writer} (hclear : AreUnmarked [leaf t]) (hs : I s.writer)
    (hmet : ∀ v ∈ (leaf t).met (deeper settings n) (metBelow settings n) template scope s,
      v.isCallable = false) :
    PutsUnmarked (renderLeaf (deeper settings n) scope t) s := by
  obtain ⟨htext, htag⟩ := hclear (leaf t) (mem_preorder_cons.2 (.inl (mem_within_leaf.2 rfl)))
  rw [renderLeaf]
  cases hk : t.kind with
  | text => exact putsUnmarked_pure (htext hk) s
  | unescapedTag => exact absurd hk htag
  | partialTag =>
    rw [met, if_pos hk] at hmet
    exact h.expand scope t.value s hs hmet
  | nameTag =>
    intro out s' hrun
    obtain ⟨text, s₁, hfound, hrest⟩ := exists_of_runFrom_bind hrun
    have hkept := Writer.keeps_of_agree
      (agree_variableText (h.lasting.alike_deeper n) scope t.value) hs
    rw [hfound] at hkept
    have hescape : (deeper settings n).escape s₁.writer = Text.escapeHtml := by
      rw [deeper_escape, h.escape _ hkept]
    cases hrest
    rw [hescape]
    exact Text.isUnmarked_escapeHtml text
  | _ => exact putsUnmarked_pure Text.isUnmarked_empty s

mutual

theorem unmarked_render (h : Writer.Guards settings n I) : ∀ (scope : Scope) (x : Node)
    (s : State Writer), AreUnmarked [x] → I s.writer →
      (∀ v ∈ x.met (deeper settings n) (metBelow settings n) template scope s,
        v.isCallable = false) →
      PutsUnmarked (x.render (deeper settings n) template scope) s
  | scope, leaf t, s, hclear, hs, hmet => by
    rw [render]
    exact unmarked_renderLeaf h hclear hs hmet
  | scope, block t children close, s, hclear, hs, hmet => by
    have hchildren : AreUnmarked children := fun u hu =>
      hclear u (mem_preorder_cons.2 (.inl (mem_within_block.2 (.inr hu))))
    have inner (scope : Scope) (s : State Writer) :=
      unmarked_renderAll h scope children s hchildren
    have empty (s : State Writer) : PutsUnmarked (pure "") s :=
      putsUnmarked_pure Text.isUnmarked_empty s
    rw [render]
    intro out s' hrun
    obtain ⟨w, s₁, hlookup, hrest⟩ := exists_of_runFrom_bind hrun
    rw [runFrom_current_bind] at hrest
    have hkept := Writer.keeps_of_agree (agree_lookup (h.lasting.alike_deeper n) scope t.value) hs
    rw [met, hlookup] at hmet
    rw [hlookup] at hkept
    dsimp only at hmet hkept
    generalize w.current s₁.tally = v at hmet hrest
    -- What is left goes on from the state that looking up leaves; the list was made from there too.
    refine (?_ : PutsUnmarked _ s₁) out s' hrest
    by_cases hi : t.kind = .invertedTag
    · rw [if_pos hi] at hmet ⊢
      cases hv : v.truth with
      | true => exact empty s₁
      | false =>
        rw [hv] at hmet
        exact inner scope s₁ hkept hmet
    · rw [if_neg hi, List.forall_mem_cons] at hmet
      rw [if_neg hi]
      obtain ⟨huncallable, hmet⟩ := hmet
      cases hk : v.kind with
      | null => exact empty s₁
      | scalar =>
        rw [hk] at hmet
        cases hv : v.truth with
        | true =>
          rw [hv] at hmet
          exact inner scope s₁ hkept hmet
        | false => exact empty s₁
      | mapping =>
        rw [hk] at hmet
        cases hv : v.truth with
        | true =>
          rw [hv] at hmet
          exact putsUnmarked_inChild (inner _ { s₁ with memo := ∅ } hkept hmet)
        | false => exact empty s₁
      | sequence =>
        rw [hk] at hmet
        dsimp only
        rw [joinItems_eq_joinEach]
        refine putsUnmarked_joinEach (I := I) (fun item s hs => ?_) (fun item s hs hmet => ?_)
          hkept hmet
        · exact Writer.keeps_of_agree
            (agree_renderAll (h.lasting.alike_deeper n) template _ children).inChild hs
        · exact putsUnmarked_inChild (inner _ { s with memo := ∅ } hs hmet)
      | callable =>
        rw [Value.isCallable, hk] at huncallable
        cases huncallable

/-- **What a tree puts out is unmarked,** if its texts are, it has no tag for values as they are,
and none of its sections leads to a callable. -/
theorem unmarked_renderAll (h : Writer.Guards settings n I) : ∀ (scope : Scope) (ns : List Node)
    (s : State Writer), AreUnmarked ns → I s.writer →
      (∀ v ∈ metAll (deeper settings n) (metBelow settings n) template scope ns s,
        v.isCallable = false) →
      PutsUnmarked (renderAll (deeper settings n) template scope ns) s
  | scope, [], s, _, _, _ => by
    rw [renderAll]
    exact putsUnmarked_pure Text.isUnmarked_empty s
  | scope, x :: xs, s, hclear, hs, hmet => by
    rw [metAll, List.forall_mem_append] at hmet
    rw [renderAll]
    have hhead : AreUnmarked [x] := fun u hu => hclear u (by
      rw [mem_preorder_cons] at hu ⊢
      exact .inl (hu.resolve_right List.not_mem_nil))
    refine putsUnmarked_append (unmarked_render h scope x s hhead hs hmet.1) fun out s₁ hrun => ?_
    have hkept := Writer.keeps_of_agree
      (agree_render (h.lasting.alike_deeper n) template scope x) hs
    rw [hrun] at hkept hmet
    exact unmarked_renderAll h scope xs s₁ (fun u hu => hclear u (mem_preorder_cons.2 (.inr hu)))
      hkept hmet.2

end

end Node

namespace Render

variable {settings : Settings} {partials : Partials} {w₀ : Writer}

/-- A partial that is found is one that may be put in, and the writer goes on serving. -/
theorem mayPutIn_of_supply {name : String} {s s₁ : State Writer} {c : Compiled}
    (hs : w₀.Serves settings.delimiters partials (partials.loaderAfter w₀.loader) s.writer)
    (h : (supply settings name).runFrom s = (.ok (some c), s₁)) :
    w₀.MayPutIn settings.delimiters partials name c.nodes ∧
      w₀.Serves settings.delimiters partials (partials.loaderAfter w₀.loader) s₁.writer := by
  obtain ⟨r, left, hfetched⟩ := exists_fetched settings name s
  rw [hfetched.supply_eq] at h
  cases r with
  | error e => cases h
  | ok _ =>
    have hleft := (Writer.lasting_serves settings w₀ partials).fetch hs hfetched
    simp only [Except.map, Prod.mk.injEq, Except.ok.injEq] at h
    obtain ⟨hknown, rfl⟩ := h
    exact ⟨hleft.partials name c hknown, hleft⟩

/-- What is put in for partials is unmarked on every level. -/
theorem guards (settings : Settings) (hescape : w₀.escaping settings = Text.escapeHtml)
    (hput : ∀ name ns, w₀.MayPutIn settings.delimiters partials name ns → Node.AreUnmarked ns)
    (n : Nat) :
    Writer.Guards settings n
      (w₀.Serves settings.delimiters partials (partials.loaderAfter w₀.loader)) := by
  have hlasting := Writer.lasting_serves settings w₀ partials
  have hescapes (w : Writer)
      (hw : w₀.Serves settings.delimiters partials (partials.loaderAfter w₀.loader) w) :
      w.escaping settings = Text.escapeHtml := by
    rw [Writer.escaping, hw.escape]
    exact hescape
  -- A partial is rendered with one level less, so the induction is on the levels that are left.
  induction n with
  | zero => exact ⟨hlasting, hescapes, fun _ _ _ _ _ _ _ hrun => by cases hrun⟩
  | succ n ih =>
    refine ⟨hlasting, hescapes, fun scope name s hs hmet => ?_⟩
    show PutsUnmarked (expand settings (deeper settings n) scope name) s
    rw [expand_eq]
    intro out s' hrun
    obtain ⟨found, s₁, hsupply, hrest⟩ := exists_of_runFrom_bind hrun
    cases found with
    | none =>
      cases hrest
      exact Text.isUnmarked_empty
    | some c =>
      obtain ⟨hmay, hs₁⟩ := mayPutIn_of_supply hs hsupply
      rw [metBelow, hsupply] at hmet
      exact Node.unmarked_renderAll ih scope c.nodes s₁ (hput name c.nodes hmay) hs₁ hmet out s'
        hrest

/-- **No markup comes from data.** If texts are escaped for HTML, no text of the template and of all
that may be put in has markup in it, no tag there is for values as they are, and no section that is
come to leads to a callable, then what is put out has no markup in it. -/
theorem template_unmarked (settings : Settings) (limit : Nat) (text : String) (partials : Partials)
    (scope : Scope) (s : State Writer)
    (hescape : s.writer.escaping settings = Text.escapeHtml)
    (htext : ∀ ns, s.writer.treeOf settings.delimiters text = .ok ns → Node.AreUnmarked ns)
    (hput : ∀ name ns, s.writer.MayPutIn settings.delimiters partials name ns →
      Node.AreUnmarked ns)
    (hmet : ∀ v ∈ met settings limit text partials scope s, v.isCallable = false) :
    PutsUnmarked (template settings limit text partials scope) s := by
  rw [template_eq]
  intro out s' hrun
  obtain ⟨c, s₁, hprepare, hrest⟩ := exists_of_runFrom_bind hrun
  have hprepared := prepared settings text partials s
  rw [hprepare] at hprepared
  rw [met, hprepare] at hmet
  cases hprepared with
  | ready hread _ hserves =>
    exact Node.unmarked_renderAll (guards settings hescape hput limit) scope c.nodes s₁
      (htext c.nodes hread) hserves hmet out s' hrest

/-- Markup in the text of an item, in an item that is a list, and in what a function gives, all put
in by a partial that a loader gives. -/
theorem template_unmarked_lazily :
    let greet : Function := .mk 0 none ⟨[], [⟨"view", false⟩], none, [], none⟩
      (.join [.literal (.str "</b>")])
    let loader : Loader := ⟨fun name =>
      .ok (if name = "cell" then some "\x7b\x7b.\x7d\x7d\x7b\x7bgreet\x7d\x7d;" else none)⟩
    let text := "a \x7b\x7b#rows\x7d\x7d\x7b\x7b>cell\x7d\x7d\x7b\x7b/rows\x7d\x7d"
    let scope := Scope.ofView (.dict [(.str "rows", .list [.str "<i>", .list [.str "it's"]]),
      (.str "greet", .function greet none)])
    let s : State Writer := ⟨Writer.new none, ∅, ∅, []⟩
    let act := template Session.defaults 2 text (.loader loader) scope
    (act.runFrom s).1.toOption = some
        "a &lt;i&gt;&lt;&#x2F;b&gt;;[&quot;it&#39;s&quot;]&lt;&#x2F;b&gt;;" ∧
      PutsUnmarked act s := by
  intro greet loader text scope s act
  have htext : Template.parse .braces
      "a \x7b\x7b#rows\x7d\x7d\x7b\x7b>cell\x7d\x7d\x7b\x7b/rows\x7d\x7d" =
        .ok [.leaf ⟨.text, "a ", 0, 2⟩, .block ⟨.sectionTag, "rows", 2, 11⟩
          [.leaf ⟨.partialTag, "cell", 11, 20⟩] 20] := by
    with_unfolding_all rfl
  have hcell : Template.parse .braces "\x7b\x7b.\x7d\x7d\x7b\x7bgreet\x7d\x7d;" =
      .ok [.leaf ⟨.nameTag, ".", 0, 5⟩, .leaf ⟨.nameTag, "greet", 5, 14⟩,
        .leaf ⟨.text, ";", 14, 15⟩] := by
    with_unfolding_all rfl
  have htree (t : String) : (Writer.new none).treeOf Session.defaults.delimiters t =
      Template.parse .braces t := rfl
  rw [← htree] at htext hcell
  refine ⟨by decide +kernel, template_unmarked Session.defaults 2 text (.loader loader) scope s rfl
    ?_ ?_ (by decide +kernel)⟩
  · intro ns hns
    obtain rfl := Except.ok.inj (htext.symm.trans hns)
    decide +kernel
  · rintro name ns (⟨c, hc, -⟩ | ⟨t, ht | ⟨l, hl, hload⟩, hns⟩)
    · cases hc
    · cases ht
    · obtain rfl := Option.some.inj hl
      have hgiven :
          (if name = "cell" then some "\x7b\x7b.\x7d\x7d\x7b\x7bgreet\x7d\x7d;" else none) =
            some t := Except.ok.inj hload
      obtain ⟨-, hsame⟩ := Option.ite_none_right_eq_some.1 hgiven
      obtain rfl := Option.some.inj hsame
      obtain rfl := Except.ok.inj (hcell.symm.trans hns)
      decide +kernel

end Render

end Mustache
