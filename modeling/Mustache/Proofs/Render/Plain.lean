import Mustache.Proofs.Render.Judgement
import Mustache.Proofs.Template.Shift

/-!
# Rendering as a function

Where nothing is called, rendering has no need of effects: what a tree puts out is a function of the
tree, its scope, and what is left of sets (`Node.plainAll`). Looking a name up again gives what it
gave before, so a memo changes nothing; and what a writer compiles on the way cannot be seen in the
text.

**Idea.** While the nodes of one scope are rendered, the memo has only what the scope says itself,
and no set loses an item (`Rests`). A lookup keeps that up, a new context starts with an empty memo,
and the nodes are gone through in the same order by both. What rendering asks of the level below, to
put in partials, is assumed to come to what the function says (`Evaluates`).

Main statement: `Node.gives_renderAll`.
-/

namespace Mustache

open Render

/-- The text of what a name leads to in a scope. -/
def Scope.plainText (tally : Tally) (scope : Scope) (name : String) : Except Error String := do
  let v ← scope.resolve name
  shown (v.current tally)

namespace Node

/-- What a leaf puts out where nothing is called. -/
def plainLeaf (tally : Tally) (escape : String → String)
    (expand : Scope → String → Except Error String) (scope : Scope) (t : Token) :
    Except Error String :=
  match t.kind with
  | .text => .ok t.value
  | .nameTag => do
    let text ← scope.plainText tally t.value
    return escape text
  | .unescapedTag => scope.plainText tally t.value
  | .partialTag => expand scope t.value
  | _ => .ok ""

mutual

/-- What a node puts out where nothing is called. -/
def plain (tally : Tally) (escape : String → String)
    (expand : Scope → String → Except Error String) (scope : Scope) : Node → Except Error String
  | leaf t => plainLeaf tally escape expand scope t
  | block t children _ => do
    let v ← scope.resolve t.value
    let v := v.current tally
    if t.kind = .invertedTag then
      if v.truth then .ok "" else plainAll tally escape expand scope children
    else
      match v.kind with
      | .null => .ok ""
      | .scalar => if v.truth then plainAll tally escape expand scope children else .ok ""
      | .mapping =>
        if v.truth then plainAll tally escape expand (scope.push v) children else .ok ""
      | .sequence =>
        joinTexts (fun item => plainAll tally escape expand (scope.push item) children) v.items
      | .callable => .ok ""

/-- What some nodes put out where nothing is called, joined. -/
def plainAll (tally : Tally) (escape : String → String)
    (expand : Scope → String → Except Error String) (scope : Scope) :
    List Node → Except Error String
  | [] => .ok ""
  | n :: ns => do
    let first ← n.plain tally escape expand scope
    let others ← plainAll tally escape expand scope ns
    return first ++ others

end

end Node

namespace Render

variable {σ α : Type} {J : σ → Prop} {tally : Tally} {scope : Scope} {s : State σ}

/-- The store is as `J` says, all that is remembered may be remembered in the scope, and sets are as
they were. -/
structure Rests (J : σ → Prop) (tally : Tally) (scope : Scope) (s : State σ) : Prop
    extends Keeps J scope s where
  rest : s.tally = tally

theorem rests_of_empty (h : J s.writer) (hm : s.memo = ∅) (ht : s.tally = tally) :
    Rests J tally scope s :=
  ⟨keeps_of_empty h hm, ht⟩

theorem Gives.inChildRests {inner : Scope} {m : Render σ α} {x : Except Error α}
    (h : Gives (Rests J tally inner) m x) :
    Gives (Rests J tally scope) (Render.inChild m) x :=
  h.inChild (fun _ hs => rests_of_empty hs.store rfl hs.rest)
    fun _ _ hs ht => ⟨⟨ht.store, hs.memo⟩, ht.rest⟩

/-- What something makes of a value by now. -/
theorem gives_ofCurrent (f : Value → Except Error α) (v : Value) :
    Gives (Rests J tally scope) (ofCurrent f v) (f (v.current tally)) :=
  fun _ hs => ⟨by rw [← hs.rest]; rfl, hs⟩

theorem gives_current_bind {v : Value} {k : Value → Render σ α} {x : Except Error α}
    (h : Gives (Rests J tally scope) (k (v.current tally)) x) :
    Gives (Rests J tally scope) (current v >>= k) x := by
  intro s hs
  rw [runFrom_current_bind, hs.rest]
  exact h s hs

end Render

variable {σ : Type} {deeper : Deeper σ} {template : String} {J : σ → Prop} {tally : Tally}
  {sets : Bool} {escape : String → String} {expand : Scope → String → Except Error String}

/-- What rendering some nodes needs, in all scopes of data, so that it comes to what the function
says: the escaping is always the same one, names lead to data, and partials come to what the
function makes of them. -/
structure Deeper.Evaluates (deeper : Deeper σ) (J : σ → Prop) (tally : Tally) (sets : Bool)
    (escape : String → String) (expand : Scope → String → Except Error String) (ns : List Node) :
    Prop where
  escapes : ∀ w, J w → deeper.escape w = escape
  names : ∀ x ∈ Node.preorder ns, x.LooksUp → Value.LeadsToData sets x.token.value
  partials : ∀ scope t, scope.IsData sets → .leaf t ∈ Node.preorder ns → t.kind = .partialTag →
    Gives (Rests J tally scope) (deeper.expand scope t.value) (expand scope t.value)

theorem Deeper.Evaluates.mono {ns ms : List Node}
    (h : deeper.Evaluates J tally sets escape expand ns)
    (hsub : ∀ x ∈ Node.preorder ms, x ∈ Node.preorder ns) :
    deeper.Evaluates J tally sets escape expand ms where
  escapes := h.escapes
  names x hx := h.names x (hsub x hx)
  partials scope t hs ht := h.partials scope t hs (hsub _ ht)

/-! ## Looking up -/

namespace Render

variable {scope : Scope} {name : String}

/-- Looking up data gives what the scope says, and calls nothing. -/
theorem gives_lookup_data (h : ∀ v, scope.resolve name = .ok v → v.isCallable = false) :
    Gives (Rests J tally scope) (lookup deeper scope name) (scope.resolve name) := by
  intro s hs
  obtain ⟨hx, hkeeps⟩ := gives_lookup h s hs.toKeeps
  refine ⟨hx, hkeeps, ?_⟩
  rw [lookup, runFrom_get_bind]
  dsimp only
  cases s.memo.find? name with
  | some v => exact hs.rest
  | none =>
    cases hr : scope.resolve name with
    | error e => exact hs.rest
    | ok v =>
      simp only [ofExcept, pure_bind, h v hr, Bool.false_and, Bool.false_eq_true, if_false]
      exact hs.rest

theorem gives_variableText (h : ∀ v, scope.resolve name = .ok v → v.isCallable = false) :
    Gives (Rests J tally scope) (variableText deeper scope name) (scope.plainText tally name) := by
  refine (gives_lookup_data h).bind fun v hv => ?_
  simp only [h v hv, Bool.false_eq_true, if_false, pure_bind]
  exact gives_ofCurrent shown v

end Render

/-! ## Going through a tree -/

namespace Node

theorem gives_renderLeaf {ns : List Node} (h : deeper.Evaluates J tally sets escape expand ns)
    {scope : Scope} (hs : scope.IsData sets) {t : Token} (ht : leaf t ∈ preorder ns) :
    Gives (Rests J tally scope) (renderLeaf deeper scope t)
      (plainLeaf tally escape expand scope t) := by
  have hvariable (hk : (leaf t).LooksUp) :
      Gives (Rests J tally scope) (variableText deeper scope t.value)
        (scope.plainText tally t.value) :=
    gives_variableText fun v hv => Value.isCallable_of_isData
      (Scope.isData_of_leadsToData hs (h.names _ ht hk) hv)
  rw [renderLeaf, plainLeaf]
  cases hk : t.kind with
  | nameTag =>
    refine (hvariable (.inl hk)).bind fun text _ => leads_get_bind fun s hkeep => ?_
    rw [h.escapes _ hkeep.store]
    exact leads_pure fun t ht => ⟨rfl, ht ▸ hkeep⟩
  | unescapedTag => exact hvariable (.inr hk)
  | partialTag => exact h.partials scope t hs ht hk
  | _ => exact gives_pure _

/-- A section comes to what the function says if its name leads to data, and what it holds does. -/
theorem gives_block {scope : Scope} {t : Token} {children : List Node} {close : Nat}
    (hs : scope.IsData sets)
    (hdata : ∀ v, scope.resolve t.value = .ok v → v.isData sets = true)
    (hchildren : ∀ scope : Scope, scope.IsData sets →
      Gives (Rests J tally scope) (renderAll deeper template scope children)
        (plainAll tally escape expand scope children)) :
    Gives (Rests J tally scope) ((block t children close).render deeper template scope)
      ((block t children close).plain tally escape expand scope) := by
  rw [render, plain]
  refine (gives_lookup_data fun v hv => Value.isCallable_of_isData (hdata v hv)).bind fun v hv => ?_
  have hcurrent : (v.current tally).isData sets = true := Value.isData_current v (hdata v hv)
  have hinside {item : Value} (hitem : item.isData sets = true) :
      Gives (Rests J tally scope) (inChild (renderAll deeper template (scope.push item) children))
        (plainAll tally escape expand (scope.push item) children) :=
    (hchildren _ (hs.push hitem)).inChildRests
  refine gives_current_bind ?_
  by_cases hi : t.kind = .invertedTag
  · simp only [hi, if_true]
    split
    · exact gives_pure _
    · exact hchildren scope hs
  · simp only [hi, if_false]
    cases hk : (v.current tally).kind with
    | null => exact gives_pure _
    | scalar =>
      simp only
      split
      · exact hchildren scope hs
      · exact gives_pure _
    | mapping =>
      simp only
      split
      · exact hinside hcurrent
      · exact gives_pure _
    | sequence =>
      simp only [joinItems_eq_joinEach]
      exact gives_joinEach fun item hitem => hinside (Value.isData_items hcurrent item hitem)
    | callable => exact absurd hk (Value.kind_ne_callable hcurrent)

mutual

theorem gives_render : ∀ (scope : Scope) (n : Node),
    deeper.Evaluates J tally sets escape expand [n] → scope.IsData sets →
      Gives (Rests J tally scope) (n.render deeper template scope)
        (n.plain tally escape expand scope)
  | scope, leaf t, h, hs => by
    rw [render, plain]
    exact gives_renderLeaf h hs (by simp [preorder, within])
  | scope, block t children close, h, hs => by
    have hname := h.names (block t children close) (by simp [preorder, within]) trivial
    refine gives_block hs (fun v hv => Scope.isData_of_leadsToData hs hname hv) fun scope hs => ?_
    exact gives_renderAll scope children (h.mono fun x hx => by simp [preorder, within, hx]) hs

/-- **Rendering comes to what the function says.** -/
theorem gives_renderAll : ∀ (scope : Scope) (ns : List Node),
    deeper.Evaluates J tally sets escape expand ns → scope.IsData sets →
      Gives (Rests J tally scope) (renderAll deeper template scope ns)
        (plainAll tally escape expand scope ns)
  | scope, [], _, _ => by
    rw [renderAll, plainAll]
    exact gives_pure _
  | scope, n :: ns, h, hs => by
    rw [renderAll, plainAll]
    have hhead := gives_render scope n (h.mono fun x hx => by
      rw [mem_preorder_cons]
      exact .inl (by simpa [preorder] using hx)) hs
    have htail := gives_renderAll scope ns (h.mono fun x hx => by
      rw [mem_preorder_cons]
      exact .inr hx) hs
    exact hhead.bind fun first _ => htail.bind fun others _ => gives_pure _

end

end Node

end Mustache
