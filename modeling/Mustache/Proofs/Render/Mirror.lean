import Mustache.Proofs.Render.Judgement

/-!
# Two renderings side by side

Two trees with the same tags can be rendered with different texts, levels, writers and views, and
yet put out the same. Here they are gone through side by side: lookups give values that belong
together, methods take the same items out of sets, and so what is put out is the same, unless the
first one ends in an error of a kind that is left open, as when there are no levels left.

**Idea.** Two states belong together if what is remembered under each name does, and sets are as
they are in the other one (`State.Mirrors`). That is kept step by step (`SettlesOn`). The trees may
differ where a partial tag has nodes in its place (`Node.Resembles`), and the views where a callable
has a true value in its place; what these come to is assumed of each (`Deeper.Mirrors`).

Main statement: `Node.Resembles.settles`.
-/

namespace Mustache

open Render

namespace Render

variable {σ τ α β γ δ : Type}

/-- From states that are related, the first computation ends in an error as `E` says, or both come
to the same error or to related results, and to states that are related. -/
def SettlesOn (E : Error → Prop) (S : State σ → State τ → Prop) (Q : α → β → Prop)
    (m : Render σ α) (m' : Render τ β) : Prop :=
  ∀ s t, S s t → (∃ e, (m.runFrom s).1 = .error e ∧ E e) ∨
    SameResult Q (m.runFrom s).1 (m'.runFrom t).1 ∧ S (m.runFrom s).2 (m'.runFrom t).2

theorem current_of_callable {v : Value} (h : v.kind = .callable) :
    (current v : Render σ Value) = pure v := by
  funext s
  show (Except.ok (v.current s.tally), s) = (Except.ok v, s)
  rw [Value.current_of_kind_callable h]

/-- What two states remember belongs together, name by name, their stores are related, and counters
and sets are the same. -/
structure State.Mirrors (J : σ → τ → Prop) (V : String → Value → Value → Prop) (s : State σ)
    (t : State τ) : Prop where
  store : J s.writer t.writer
  memo : ∀ name, Option.Rel (V name) (s.memo.find? name) (t.memo.find? name)
  tally : s.tally = t.tally

variable {E : Error → Prop} {S : State σ → State τ → Prop} {J : σ → τ → Prop}
  {V : String → Value → Value → Prop} {Q : α → β → Prop} {P : γ → δ → Prop}
  {m : Render σ α} {m' : Render τ β}

theorem AgreeOn.settles (h : AgreeOn S Q m m') : SettlesOn E S Q m m' :=
  fun s t hs => .inr (h s t hs)

theorem settles_throw_left {e : Error} (he : E e) : SettlesOn E S Q (throw e) m' :=
  fun _ _ _ => .inl ⟨e, rfl, he⟩

theorem SettlesOn.bind {k : α → Render σ γ} {k' : β → Render τ δ} (h : SettlesOn E S Q m m')
    (hk : ∀ a b, Q a b → SettlesOn E S P (k a) (k' b)) :
    SettlesOn E S P (m >>= k) (m' >>= k') := by
  intro s t hs
  rw [runFrom_bind, runFrom_bind]
  rcases h s t hs with ⟨e, hm, he⟩ | ⟨hr, hs'⟩
  · rw [show m.runFrom s = (.error e, (m.runFrom s).2) from Prod.ext hm rfl]
    exact .inl ⟨e, rfl, he⟩
  · rcases hm : m.runFrom s with ⟨x, s'⟩
    rcases hm' : m'.runFrom t with ⟨y, t'⟩
    rw [hm, hm'] at hr hs'
    cases hr with
    | ok hab => exact hk _ _ hab s' t' hs'
    | error e => exact .inr ⟨.error e, hs'⟩

theorem SettlesOn.bindEq {m : Render σ α} {m' : Render τ α} {k : α → Render σ γ}
    {k' : α → Render τ δ} (h : SettlesOn E S Eq m m') (hk : ∀ a, SettlesOn E S P (k a) (k' a)) :
    SettlesOn E S P (m >>= k) (m' >>= k') := by
  refine h.bind fun a b hab => ?_
  subst hab
  exact hk a

theorem settles_joinEach {f : γ → Render σ String} {g : γ → Render τ String} {as : List γ}
    (h : ∀ a ∈ as, SettlesOn E S Eq (f a) (g a)) :
    SettlesOn E S Eq (joinEach f as) (joinEach g as) := by
  induction as with
  | nil => exact (agree_pure rfl).settles
  | cons a as ih =>
    obtain ⟨ha, has⟩ := List.forall_mem_cons.1 h
    rw [joinEach, joinEach]
    exact ha.bindEq fun first => (ih has).bindEq fun others => (agree_pure rfl).settles

/-! ## States that belong together -/

/-- What is done with counters and sets alone is the same on both sides. -/
theorem settles_onTally {f : Tally → Except Error α × Tally} {Q : α → α → Prop}
    (hf : ∀ t a, (f t).1 = .ok a → Q a a) :
    SettlesOn E (State.Mirrors J V) Q (onTally f : Render σ α) (onTally f : Render τ α) := by
  intro s t hs
  refine .inr ?_
  show SameResult Q (f s.tally).1 (f t.tally).1 ∧
    State.Mirrors J V { s with tally := (f s.tally).2 } { t with tally := (f t.tally).2 }
  rw [hs.tally]
  refine ⟨?_, hs.store, hs.memo, rfl⟩
  cases hr : (f t.tally).1 with
  | ok a => exact .ok (hf t.tally a hr)
  | error e => exact .error e

theorem SettlesOn.inChild (h : SettlesOn E (State.Mirrors J V) Q m m') :
    SettlesOn E (State.Mirrors J V) Q (inChild m) (inChild m') := by
  intro s t hs
  have hempty : State.Mirrors J V { s with memo := ∅ } { t with memo := ∅ } :=
    ⟨hs.store, fun _ => .none, hs.tally⟩
  rcases h _ _ hempty with ⟨e, hm, he⟩ | ⟨hr, hs'⟩
  · exact .inl ⟨e, hm, he⟩
  · exact .inr ⟨hr, hs'.store, hs.memo, hs'.tally⟩

theorem settles_remember {name : String} {v w : Value} (h : V name v w) :
    SettlesOn E (State.Mirrors J V) Eq (remember name v : Render σ Unit)
      (remember name w : Render τ Unit) := by
  refine (agree_modify fun s t hs => ⟨hs.store, fun other => ?_, hs.tally⟩).settles
  rw [Table.find?_insert, Table.find?_insert]
  split
  · next heq => exact heq ▸ .some h
  · exact hs.memo other

/-- Looking up a name gives values that belong together, if what the scopes say and what that gives
where it is called do. -/
theorem settles_lookup {d : Deeper σ} {d' : Deeper τ} {scope scope' : Scope} {name : String}
    (h : SameResult (fun v w => SettlesOn E (State.Mirrors J V) (V name)
        (if v.isCallable && v.required == 0 then d.apply scope v [] else pure v)
        (if w.isCallable && w.required == 0 then d'.apply scope' w [] else pure w))
      (scope.resolve name) (scope'.resolve name)) :
    SettlesOn E (State.Mirrors J V) (V name) (lookup d scope name) (lookup d' scope' name) := by
  intro s t hs
  rw [lookup, lookup, runFrom_get_bind, runFrom_get_bind]
  dsimp only
  have hmemo := hs.memo name
  generalize s.memo.find? name = x, t.memo.find? name = y at hmemo
  cases hmemo with
  | some hv => exact (agree_pure hv).settles s t hs
  | none =>
    dsimp only
    generalize scope.resolve name = x, scope'.resolve name = y at h
    cases h with
    | error e => exact (agree_throw e).settles s t hs
    | @ok v w hfound =>
      -- Calling or not, what is found is remembered.
      have keep : SettlesOn E (State.Mirrors J V) (V name) _ _ := hfound.bind fun v w hv =>
        (settles_remember hv).bindEq fun _ => (agree_pure hv).settles
      have hboth := keep s t hs
      simp only [ofExcept, pure_bind]
      split <;> split <;> simpa [*] using hboth

/-- Plain data, or what a method of a set gives, is the same on all levels. -/
theorem settles_found {R : Writer → Writer → Prop} {settings : Settings} {n m : Nat}
    {scope scope' : Scope} {name : String} {v : Value} (hv : Value.IsFound true v)
    (hV : ∀ w, w.isPlain = true → V name w w) :
    SettlesOn E (State.Mirrors R V) (V name)
      (if v.isCallable && v.required == 0 then (deeper settings n).apply scope v [] else pure v)
      (if v.isCallable && v.required == 0 then (deeper settings m).apply scope' v [] else
        pure v) := by
  cases hv with
  | data hv =>
    simp only [Value.isCallable_of_isData hv, Bool.false_and, Bool.false_eq_true, if_false]
    exact (agree_pure (hV v hv)).settles
  | method method identity _ hitems =>
    have hcalled (items : List Value) : ((Value.setMethod method identity items).isCallable &&
        (Value.setMethod method identity items).required == 0) = true := rfl
    simp only [hcalled, if_true, deeper_apply_setMethod]
    exact settles_onTally fun t w hw => hV w (SetMethod.isPlain_perform hitems hw)

end Render

/-! ## Trees -/

namespace Node

/-- Two trees have the same tags, one by one, wherever they stand; or there are other nodes where
`P` says that they may stand in the place of a partial tag. -/
inductive Resembles (P : Token → List Node → Prop) : List Node → List Node → Prop
  | nil : Resembles P [] []
  | leaf {t u : Token} {ns ms : List Node} : t.kind = u.kind → t.value = u.value →
      Resembles P ns ms → Resembles P (leaf t :: ns) (leaf u :: ms)
  | block {t u : Token} {children children' ns ms : List Node} {close close' : Nat} :
      t.kind = u.kind → t.value = u.value → Resembles P children children' →
      Resembles P ns ms →
      Resembles P (block t children close :: ns) (block u children' close' :: ms)
  | replaced {t : Token} {ps ns ms : List Node} : t.kind = .partialTag → P t ps →
      Resembles P ns ms → Resembles P (leaf t :: ns) (ps ++ ms)

mutual

theorem Resembles.cons_self (P : Token → List Node → Prop) {ns ms : List Node} :
    ∀ n : Node, Resembles P ns ms → Resembles P (n :: ns) (n :: ms)
  | Node.leaf _, h => .leaf rfl rfl h
  | Node.block _ children _, h => .block rfl rfl (Resembles.refl P children) h

/-- A tree resembles itself. -/
theorem Resembles.refl (P : Token → List Node → Prop) : ∀ ns : List Node, Resembles P ns ns
  | [] => .nil
  | n :: ns => Resembles.cons_self P n (Resembles.refl P ns)

end

theorem renderAll_append {σ : Type} (d : Deeper σ) (template : String) (scope : Scope)
    (ns ms : List Node) :
    renderAll d template scope (ns ++ ms) = (do
      let first ← renderAll d template scope ns
      let others ← renderAll d template scope ms
      return first ++ others) := by
  induction ns with
  | nil =>
    rw [List.nil_append, renderAll, pure_bind]
    simp only [String.empty_append]
    exact (bind_pure _).symm
  | cons n ns ih =>
    rw [List.cons_append, renderAll, renderAll, ih]
    simp only [bind_assoc, pure_bind, String.append_assoc]

end Node

variable {σ τ : Type}

/-- What rendering two trees side by side needs, in all pairs of scopes that belong together: plain
values can be put into both, both escape alike, lookups give values that belong together, and
partials, or what is in their place, come to the same. A variable's values are one plain value; and
so are a section's, or the one is a callable that comes to what the section of the other one holds,
with a true value in its place. -/
structure Deeper.Mirrors (d : Deeper σ) (d' : Deeper τ) (E : Error → Prop) (J : σ → τ → Prop)
    (V : String → Value → Value → Prop) (A : Scope → Scope → Prop)
    (P : Token → List Node → Prop) (template template' : String) (ns : List Node) : Prop where
  push : ∀ scope scope' v, A scope scope' → v.isPlain = true → A (scope.push v) (scope'.push v)
  escape : ∀ w r, J w r → d.escape w = d'.escape r
  lookup : ∀ scope scope' x, A scope scope' → x ∈ Node.preorder ns → x.LooksUp →
    SettlesOn E (State.Mirrors J V) (V x.token.value) (Render.lookup d scope x.token.value)
      (Render.lookup d' scope' x.token.value)
  names : ∀ t v w, .leaf t ∈ Node.preorder ns → (Node.leaf t).LooksUp → V t.value v w →
    v = w ∧ v.isPlain = true
  partials : ∀ scope scope' t, A scope scope' → .leaf t ∈ Node.preorder ns →
    t.kind = .partialTag →
      SettlesOn E (State.Mirrors J V) Eq (d.expand scope t.value) (d'.expand scope' t.value)
  replaced : ∀ scope scope' t ps, A scope scope' → P t ps →
    SettlesOn E (State.Mirrors J V) Eq (d.expand scope t.value)
      (Node.renderAll d' template' scope' ps)
  sections : ∀ t children close v w, .block t children close ∈ Node.preorder ns →
    V t.value v w → v = w ∧ v.isPlain = true ∨
      v.kind = .callable ∧ v.truth = true ∧ w = .bool true ∧ (t.kind ≠ .invertedTag →
        ∀ scope scope' children', A scope scope' → Node.Resembles P children children' →
          SettlesOn E (State.Mirrors J V) Eq
            (do
              let args := sectionArguments scope (source template t.stop close) v.required
              let result ← d.apply scope v args
              ofCurrent shown result)
            (Node.renderAll d' template' scope' children'))

variable {d : Deeper σ} {d' : Deeper τ} {E : Error → Prop} {J : σ → τ → Prop}
  {V : String → Value → Value → Prop} {A : Scope → Scope → Prop} {P : Token → List Node → Prop}
  {template template' : String} {ns ms : List Node}

theorem Deeper.Mirrors.of_subset (h : d.Mirrors d' E J V A P template template' ns)
    (hsub : ∀ x ∈ Node.preorder ms, x ∈ Node.preorder ns) :
    d.Mirrors d' E J V A P template template' ms where
  push := h.push
  escape := h.escape
  lookup scope scope' x hA hx := h.lookup scope scope' x hA (hsub x hx)
  names t v w ht := h.names t v w (hsub _ ht)
  partials scope scope' t hA ht := h.partials scope scope' t hA (hsub _ ht)
  replaced := h.replaced
  sections t children close v w ht := h.sections t children close v w (hsub _ ht)

namespace Node

theorem settles_variableText (h : d.Mirrors d' E J V A P template template' ns)
    {scope scope' : Scope} (hA : A scope scope') {t : Token} (ht : leaf t ∈ preorder ns)
    (hlooks : (leaf t).LooksUp) :
    SettlesOn E (State.Mirrors J V) Eq (variableText d scope t.value)
      (variableText d' scope' t.value) := by
  refine (h.lookup scope scope' (leaf t) hA ht hlooks).bind fun v w hvw => ?_
  obtain ⟨rfl, hplain⟩ := h.names t v w ht hlooks hvw
  simp only [Value.isCallable_of_isData hplain, Bool.false_eq_true, if_false, pure_bind]
  exact settles_onTally fun _ _ _ => rfl

theorem settles_renderLeaf (h : d.Mirrors d' E J V A P template template' ns)
    {scope scope' : Scope} (hA : A scope scope') {t u : Token} (ht : leaf t ∈ preorder ns)
    (hkind : t.kind = u.kind) (hvalue : t.value = u.value) :
    SettlesOn E (State.Mirrors J V) Eq (renderLeaf d scope t) (renderLeaf d' scope' u) := by
  have htext (hlooks : (leaf t).LooksUp) := settles_variableText h hA ht hlooks
  rw [renderLeaf, renderLeaf, ← hkind, ← hvalue]
  cases hk : t.kind with
  | nameTag =>
    refine (htext (.inl hk)).bindEq fun text => (agree_get_bind fun s s' hs => ?_).settles
    rw [h.escape _ _ hs.store]
    exact agree_pure rfl
  | unescapedTag => exact htext (.inr hk)
  | partialTag => exact h.partials scope scope' t hA ht hk
  | _ => exact (agree_pure rfl).settles

/-- A section on either side, if its children come to the same. -/
theorem settles_block (h : d.Mirrors d' E J V A P template template' ns) {scope scope' : Scope}
    (hA : A scope scope') {t u : Token} {children children' : List Node} {close close' : Nat}
    (ht : block t children close ∈ preorder ns) (hkind : t.kind = u.kind)
    (hvalue : t.value = u.value) (hchildren : Resembles P children children')
    (inner : ∀ scope scope', A scope scope' → SettlesOn E (State.Mirrors J V) Eq
      (renderAll d template scope children) (renderAll d' template' scope' children')) :
    SettlesOn E (State.Mirrors J V) Eq ((block t children close).render d template scope)
      ((block u children' close').render d' template' scope') := by
  have empty : SettlesOn E (State.Mirrors J V) Eq (pure "" : Render σ String)
      (pure "" : Render τ String) := (agree_pure rfl).settles
  rw [render, render, ← hkind, ← hvalue]
  refine (h.lookup scope scope' _ hA ht trivial).bind fun v w hvw => ?_
  rcases h.sections t children close v w ht hvw with
    ⟨rfl, hplain⟩ | ⟨hcallable, htruth, rfl, hcalled⟩
  · have hcurrent : SettlesOn E (State.Mirrors J V) (fun v w => v = w ∧ v.isPlain = true)
        (current v : Render σ Value) (current v : Render τ Value) :=
      settles_onTally fun t a ha => ⟨rfl, by cases ha; exact Value.isData_current v hplain⟩
    refine hcurrent.bind ?_
    rintro v _ ⟨rfl, hplain⟩
    have hinside {item : Value} (hitem : item.isPlain = true) :=
      (inner _ _ (h.push scope scope' item hA hitem)).inChild
    by_cases hi : t.kind = .invertedTag
    · simp only [hi, if_true]
      split
      · exact empty
      · exact inner scope scope' hA
    · simp only [hi, if_false]
      cases hk : v.kind with
      | null => exact empty
      | scalar =>
        simp only
        split
        · exact inner scope scope' hA
        · exact empty
      | mapping =>
        simp only
        split
        · exact hinside hplain
        · exact empty
      | sequence =>
        simp only [joinItems_eq_joinEach]
        exact settles_joinEach fun item hitem => hinside (Value.isData_items hplain item hitem)
      | callable => exact absurd hk (Value.kind_ne_callable hplain)
  · -- A callable and a true value.
    rw [current_of_callable hcallable, show (current (.bool true) : Render τ Value) =
      pure (.bool true) from rfl, pure_bind, pure_bind]
    have hscalar : (Value.bool true).kind = .scalar := rfl
    have htrue : (Value.bool true).truth = true := rfl
    by_cases hi : t.kind = .invertedTag
    · simp only [hi, htruth, htrue, if_true]
      exact empty
    · simp only [hi, if_false, hcallable, hscalar, htrue, if_true]
      exact hcalled hi scope scope' children' hA hchildren

/-- **Trees that resemble each other put out the same,** unless the first one fails as `E` says. -/
theorem Resembles.settles (hR : Resembles P ns ms)
    (h : d.Mirrors d' E J V A P template template' ns) {scope scope' : Scope}
    (hA : A scope scope') :
    SettlesOn E (State.Mirrors J V) Eq (renderAll d template scope ns)
      (renderAll d' template' scope' ms) := by
  induction hR generalizing scope scope' with
  | nil =>
    rw [renderAll, renderAll]
    exact (agree_pure rfl).settles
  | @leaf t u ns ms hkind hvalue _ ih =>
    have hrest := h.of_subset fun x hx => mem_preorder_cons.2 (.inr hx)
    rw [renderAll, renderAll, render, render]
    refine (settles_renderLeaf h hA (mem_preorder_cons.2 (.inl (mem_within_leaf.2 rfl))) hkind
      hvalue).bindEq fun first => ?_
    exact (ih hrest hA).bindEq fun others => (agree_pure rfl).settles
  | @block t u children children' ns ms close close' hkind hvalue hchildren _ ih ih' =>
    have hinside := h.of_subset fun x hx =>
      mem_preorder_cons.2 (.inl (mem_within_block.2 (.inr hx)))
    have hrest := h.of_subset fun x hx => mem_preorder_cons.2 (.inr hx)
    rw [renderAll, renderAll]
    refine (settles_block h hA (mem_preorder_cons.2 (.inl (mem_within_block.2 (.inl rfl)))) hkind
      hvalue hchildren fun _ _ hA => ih hinside hA).bindEq fun first => ?_
    exact (ih' hrest hA).bindEq fun others => (agree_pure rfl).settles
  | @replaced t ps ns ms hkind hps _ ih =>
    have hrest := h.of_subset fun x hx => mem_preorder_cons.2 (.inr hx)
    rw [renderAll, renderAll_append, render, renderLeaf]
    simp only [hkind]
    refine (h.replaced scope scope' t ps hA hps).bindEq fun first => ?_
    exact (ih hrest hA).bindEq fun others => (agree_pure rfl).settles

end Node

end Mustache
