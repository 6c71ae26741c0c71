import Mustache.Proofs.Render.Leads
import Mustache.Proofs.Template.Order
import Mustache.Proofs.Value.Plain

/-!
# Judging computations part by part

Where no callable is come to, rendering is put together of few parts: looking names up, writing
values down, escaping, putting in partials, and doing one after another. What holds of each of these
parts, and of computations in a row if it holds of each, holds of all rendering.

**Idea.** A judgement says something of computations in a scope, and of the results that they may
come to. `Judgement.Covers` lists the parts that it has to hold of; the induction over the tree is
done once, here. `ends` is the judgement that is used most: a computation keeps a property of the
store, keeps the memo right (`Render.Keeps`), and fails in certain ways only.

Main statements: `Render.gives_lookup`, `Judgement.Covers.renderAll` and `Judgement.covers_ends`.
-/

namespace Mustache

open Render

/-! ## What is remembered -/

/-- A value may be remembered under a name: it is what the views say, or what they say needs no
arguments, was called and gave data. -/
def Scope.Recalls (scope : Scope) (name : String) (v : Value) : Prop :=
  ∃ found, scope.resolve name = .ok found ∧
    if (found.isCallable && found.required == 0) = true then v.isPlain = true else v = found

theorem Scope.Recalls.resolve_eq {scope : Scope} {name : String} {v : Value}
    (h : scope.Recalls name v)
    (hfound : ∀ found, scope.resolve name = .ok found → found.isCallable = false) :
    scope.resolve name = .ok v := by
  obtain ⟨found, hresolve, hv⟩ := h
  rw [hfound found hresolve] at hv
  rw [hresolve, show v = found from hv]

/-- What a method of a set gives is plain where the items are. -/
theorem SetMethod.isPlain_perform {m : SetMethod} {identity : SetId} {items : List Value}
    (hitems : ∀ v ∈ items, v.isPlain = true) {t : Tally} {v : Value}
    (h : (m.perform identity items t).1 = .ok v) : v.isPlain = true := by
  have hleft : ∀ v ∈ t.remaining identity items, v.isPlain = true :=
    fun v hv => hitems v ((t.remaining_suffix identity items).subset hv)
  rcases perform_eq_ok h with rfl | hv | rfl
  · rfl
  · exact hleft v hv
  · exact Value.isData_set.2 ⟨rfl, hleft⟩

namespace Render

variable {σ : Type} {J : σ → Prop} {scope : Scope} {deeper : Deeper σ} {name : String}

/-- The store is as `J` says, and all that is remembered may be remembered in the scope. -/
structure Keeps (J : σ → Prop) (scope : Scope) (s : State σ) : Prop where
  store : J s.writer
  memo : ∀ name v, s.memo.find? name = some v → scope.Recalls name v

theorem keeps_of_empty {s : State σ} (h : J s.writer) (hm : s.memo = ∅) : Keeps J scope s :=
  ⟨h, fun name v hv => by rw [hm] at hv; cases hv⟩

/-- Remembering what may be remembered. -/
theorem Keeps.remember {s : State σ} (hs : Keeps J scope s) {v : Value}
    (hv : scope.Recalls name v) : Keeps J scope { s with memo := s.memo.insert name v } where
  store := hs.store
  memo other w hw := by
    rw [Table.find?_insert] at hw
    split at hw
    · next heq =>
      cases hw
      rw [heq]
      exact hv
    · exact hs.memo other w hw

/-- A lookup that comes to no callable gives what the scope says. -/
theorem gives_lookup (h : ∀ v, scope.resolve name = .ok v → v.isCallable = false) :
    Gives (Keeps J scope) (lookup deeper scope name) (scope.resolve name) := by
  refine leads_get_bind fun s hs => ?_
  cases hm : s.memo.find? name with
  | some v =>
    refine leads_pure fun t ht => ?_
    subst ht
    exact ⟨((hs.memo name v hm).resolve_eq h).symm, hs⟩
  | none =>
    cases hr : scope.resolve name with
    | error e => exact (gives_throw e).of_imp fun t ht => ht ▸ hs
    | ok v =>
      simp only [ofExcept, pure_bind, h v hr, Bool.false_and, Bool.false_eq_true, if_false]
      refine Leads.bind (P := fun r t => r = .ok () ∧ Keeps J scope t) ?_ (fun _ => ?_) ?_
      · refine leads_modify fun t ht => ⟨rfl, ?_⟩
        rw [ht]
        exact hs.remember ⟨v, hr, by rw [h v hr]; rfl⟩
      · exact leads_pure fun t ht => ⟨rfl, ht.2⟩
      · rintro e t ⟨he, -⟩
        cases he

end Render

/-! ## Parts -/

/-- Something that is said of the computations in a scope, and of their results. -/
def Judgement (σ : Type) : Type 1 := ∀ α : Type, Scope → Render σ α → (α → Prop) → Prop

/-- Whether a node looks its name up. -/
def Node.LooksUp : Node → Prop
  | leaf t => t.kind = .nameTag ∨ t.kind = .unescapedTag
  | block _ _ _ => True

namespace Judgement

variable {σ : Type}

/-- What is said of single texts, and of computations in a row, is said of texts that are joined. -/
theorem joinEach_of_inRow {J : Judgement σ} {scope : Scope} {f : Value → Render σ String}
    {vs : List Value} (hresult : ∀ text, J String scope (pure text) fun _ => True)
    (hrow : ∀ {m : Render σ String} {k : String → Render σ String},
      J String scope m (fun _ => True) → (∀ a, J String scope (k a) fun _ => True) →
        J String scope (m >>= k) fun _ => True)
    (hf : ∀ v ∈ vs, J String scope (f v) fun _ => True) :
    J String scope (joinEach f vs) fun _ => True := by
  induction vs with
  | nil => exact hresult ""
  | cons v vs ih =>
    obtain ⟨hv, hvs⟩ := List.forall_mem_cons.1 hf
    rw [Render.joinEach]
    exact hrow hv fun first => hrow (ih hvs) fun others => hresult (first ++ others)

/-- A judgement holds of the parts that rendering is put together of, in scopes of a class, for
names of a class, which lead to values of a class. None of these can be called. -/
structure Covers (J : Judgement σ) (deeper : Deeper σ) (scopes : Scope → Prop)
    (values : Value → Prop) (names : String → Prop) : Prop where
  uncallable : ∀ v, values v → v.isCallable = false
  items : ∀ v, values v → ∀ item ∈ v.items, values item
  push : ∀ scope v, scopes scope → values v → scopes (scope.push v)
  result : ∀ {α : Type} (scope : Scope) (a : α) (Q : α → Prop), Q a → J α scope (pure a) Q
  andThen : ∀ {α β : Type} (scope : Scope) (m : Render σ α) (k : α → Render σ β) (Q : α → Prop)
    (R : β → Prop), J α scope m Q → (∀ a, Q a → J β scope (k a) R) → J β scope (m >>= k) R
  inChild : ∀ {α : Type} (scope : Scope) (v : Value) (m : Render σ α) (Q : α → Prop),
    J α (scope.push v) m Q → J α scope (inChild m) Q
  lookup : ∀ scope name, scopes scope → names name →
    J Value scope (lookup deeper scope name) values
  current : ∀ scope v, values v → J Value scope (current v) values
  shown : ∀ scope v, values v → J String scope (ofCurrent shown v) fun _ => True
  escape : ∀ scope text,
    J String scope (do return deeper.escape (← get).writer text) fun _ => True

variable {J : Judgement σ} {deeper : Deeper σ} {scopes : Scope → Prop} {values : Value → Prop}
  {names : String → Prop} {template : String}

namespace Covers

theorem joinEach (h : J.Covers deeper scopes values names) {scope : Scope}
    {f : Value → Render σ String} {vs : List Value}
    (hf : ∀ v ∈ vs, J String scope (f v) fun _ => True) :
    J String scope (joinEach f vs) fun _ => True := by
  refine joinEach_of_inRow (fun text => h.result scope text _ trivial) (fun hm hk => ?_) hf
  exact h.andThen scope _ _ _ _ hm fun a _ => hk a

theorem variableText (h : J.Covers deeper scopes values names) {scope : Scope} {name : String}
    (hscope : scopes scope) (hname : names name) :
    J String scope (variableText deeper scope name) fun _ => True := by
  refine h.andThen scope _ _ _ _ (h.lookup scope name hscope hname) fun v hv => ?_
  simp only [h.uncallable v hv, Bool.false_eq_true, if_false, pure_bind]
  exact h.shown scope v hv

theorem renderLeaf (h : J.Covers deeper scopes values names) {scope : Scope} {t : Token}
    (hscope : scopes scope) (hname : (Node.leaf t).LooksUp → names t.value)
    (hexpand : t.kind = .partialTag → J String scope (deeper.expand scope t.value) fun _ => True) :
    J String scope (Node.renderLeaf deeper scope t) fun _ => True := by
  rw [Node.renderLeaf]
  cases hk : t.kind with
  | nameTag =>
    refine h.andThen scope _ _ _ _ (h.variableText hscope (hname (.inl hk))) fun text _ => ?_
    exact h.escape scope text
  | unescapedTag => exact h.variableText hscope (hname (.inr hk))
  | partialTag => exact hexpand hk
  | _ => exact h.result scope _ _ trivial

mutual

theorem render (h : J.Covers deeper scopes values names) : ∀ (scope : Scope) (n : Node),
    scopes scope → (∀ x ∈ Node.within n, x.LooksUp → names x.token.value) →
      (∀ scope t, scopes scope → .leaf t ∈ Node.within n → t.kind = .partialTag →
        J String scope (deeper.expand scope t.value) fun _ => True) →
      J String scope (n.render deeper template scope) fun _ => True
  | scope, .leaf t, hscope, hnames, hexpand => by
    have hself : .leaf t ∈ Node.within (.leaf t) := Node.mem_within_leaf.2 rfl
    rw [Node.render]
    exact h.renderLeaf hscope (hnames _ hself) (hexpand scope t hscope hself)
  | scope, .block t children close, hscope, hnames, hexpand => by
    have inner (scope : Scope) (hscope : scopes scope) := renderAll h scope children hscope
      (fun x hx => hnames x (Node.mem_within_block.2 (.inr hx)))
      (fun scope t hscope ht => hexpand scope t hscope (Node.mem_within_block.2 (.inr ht)))
    have hname : names t.value := hnames _ (Node.mem_within_block.2 (.inl rfl)) trivial
    rw [Node.render]
    refine h.andThen scope _ _ _ _ (h.lookup scope t.value hscope hname) fun v hv => ?_
    refine h.andThen scope _ _ _ _ (h.current scope v hv) fun v hv => ?_
    have empty : J String scope (pure "") fun _ => True := h.result scope "" _ trivial
    by_cases hi : t.kind = .invertedTag
    · simp only [hi, if_true]
      split
      · exact empty
      · exact inner scope hscope
    · simp only [hi, if_false]
      have hpush {item : Value} (hitem : values item) :
          J String scope
              (Render.inChild (Node.renderAll deeper template (scope.push item) children))
            fun _ => True :=
        h.inChild scope item _ _ (inner _ (h.push scope item hscope hitem))
      cases hk : v.kind with
      | null => exact empty
      | scalar =>
        simp only
        split
        · exact inner scope hscope
        · exact empty
      | mapping =>
        simp only
        split
        · exact hpush hv
        · exact empty
      | sequence =>
        simp only [joinItems_eq_joinEach]
        exact h.joinEach fun item hitem => hpush (h.items v hv item hitem)
      | callable =>
        have huncallable := h.uncallable v hv
        rw [Value.isCallable, hk] at huncallable
        cases huncallable

/-- **What holds of the parts holds of rendering.** -/
theorem renderAll (h : J.Covers deeper scopes values names) : ∀ (scope : Scope) (ns : List Node),
    scopes scope → (∀ x ∈ Node.preorder ns, x.LooksUp → names x.token.value) →
      (∀ scope t, scopes scope → .leaf t ∈ Node.preorder ns → t.kind = .partialTag →
        J String scope (deeper.expand scope t.value) fun _ => True) →
      J String scope (Node.renderAll deeper template scope ns) fun _ => True
  | scope, [], _, _, _ => by
    rw [Node.renderAll]
    exact h.result scope "" _ trivial
  | scope, n :: ns, hscope, hnames, hexpand => by
    rw [Node.renderAll]
    have hhead := render h scope n hscope
      (fun x hx => hnames x (Node.mem_preorder_cons.2 (.inl hx)))
      (fun scope t hscope ht => hexpand scope t hscope (Node.mem_preorder_cons.2 (.inl ht)))
    have htail := renderAll h scope ns hscope
      (fun x hx => hnames x (Node.mem_preorder_cons.2 (.inr hx)))
      (fun scope t hscope ht => hexpand scope t hscope (Node.mem_preorder_cons.2 (.inr ht)))
    refine h.andThen scope _ _ _ _ hhead fun first _ =>
      h.andThen scope _ _ _ _ htail fun others _ => ?_
    exact h.result scope _ _ trivial

end

end Covers

/-! ## Results and errors -/

/-- The computation keeps a property of the store and keeps the memo right, and its result is as
`Q` says, or its error as `E` says. -/
def ends (I : σ → Prop) (E : Error → Prop) : Judgement σ := fun _ scope m Q =>
  Leads (Keeps I scope) m fun r s =>
    Keeps I scope s ∧ (∀ a, r = .ok a → Q a) ∧ ∀ e, r = .error e → E e

variable {I : σ → Prop} {E : Error → Prop}

theorem ends_of_gives {α : Type} {scope : Scope} {m : Render σ α} {x : Except Error α}
    {Q : α → Prop} (h : Gives (Keeps I scope) m x) (hok : ∀ a, x = .ok a → Q a)
    (herror : ∀ e, x = .error e → E e) : ends I E α scope m Q := by
  intro s hs
  obtain ⟨hx, hleft⟩ := h s hs
  rw [hx]
  exact ⟨hleft, hok, herror⟩

theorem ends_bind {α β : Type} {scope : Scope} {m : Render σ α} {k : α → Render σ β}
    {Q : α → Prop} {R : β → Prop} (h : ends I E α scope m Q)
    (hk : ∀ a, Q a → ends I E β scope (k a) R) : ends I E β scope (m >>= k) R := by
  refine Leads.bind h (fun a s hs => ?_) fun e s hs => ?_
  · exact hk a (hs.2.1 a rfl) s hs.1
  · exact ⟨hs.1, nofun, fun e' he => hs.2.2 e' (by cases he; rfl)⟩

theorem ends_mono {E' : Error → Prop} {α : Type} {scope : Scope} {m : Render σ α} {Q : α → Prop}
    (h : ends I E α scope m Q) (hE : ∀ e, E e → E' e) : ends I E' α scope m Q :=
  fun s hs => ⟨(h s hs).1, (h s hs).2.1, fun e he => hE e ((h s hs).2.2 e he)⟩

/-- What is only done with the tally keeps everything else. -/
theorem ends_ofCurrent {α : Type} {scope : Scope} {f : Value → Except Error α} {v : Value}
    {Q : α → Prop} (hok : ∀ t a, f (v.current t) = .ok a → Q a)
    (herror : ∀ t e, f (v.current t) = .error e → E e) : ends I E α scope (ofCurrent f v) Q :=
  fun s hs => ⟨hs, hok s.tally, herror s.tally⟩

/-- Looking up a name that leads to no callable. -/
theorem ends_lookup {values : Value → Prop} {deeper : Deeper σ} {scope : Scope} {name : String}
    (hok : ∀ v, scope.resolve name = .ok v → values v ∧ v.isCallable = false)
    (herror : ∀ e, scope.resolve name = .error e → E e) :
    ends I E Value scope (lookup deeper scope name) values :=
  ends_of_gives (gives_lookup fun v hv => (hok v hv).2) (fun v hv => (hok v hv).1) herror

/-- **Rendering keeps the memo right, and fails only in the ways that looking up and writing down
do.** -/
theorem covers_ends {values : Value → Prop} {names : String → Prop} {deeper : Deeper σ}
    (huncallable : ∀ v, values v → v.isCallable = false)
    (hitems : ∀ v, values v → ∀ item ∈ v.items, values item)
    (hcurrent : ∀ t v, values v → values (v.current t))
    (hlookup : ∀ (scope : Scope) (name : String), (∀ v ∈ scope.views, values v) → names name →
      ends I E Value scope (lookup deeper scope name) values)
    (hshown : ∀ v e, values v → shown v = .error e → E e) :
    (ends I E).Covers deeper (fun scope => ∀ v ∈ scope.views, values v) values names where
  uncallable := huncallable
  items := hitems
  push scope v hscope hv := List.forall_mem_cons.2 ⟨hv, hscope⟩
  result scope a Q ha := ends_of_gives (gives_pure a) (by rintro _ ⟨⟩; exact ha) nofun
  andThen scope m k Q R := ends_bind
  inChild scope v m Q h s hs := by
    obtain ⟨hleft, hresult⟩ := h { s with memo := ∅ } (keeps_of_empty hs.store rfl)
    exact ⟨⟨hleft.store, hs.memo⟩, hresult⟩
  lookup := hlookup
  current scope v hv := ends_ofCurrent (fun t a ha => by cases ha; exact hcurrent t v hv) nofun
  shown scope v hv := ends_ofCurrent (fun _ _ _ => trivial) fun t e => hshown _ e (hcurrent t v hv)
  escape scope text s hs := ⟨hs, fun _ _ => trivial, nofun⟩

end Judgement

end Mustache
