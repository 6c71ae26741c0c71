import Mustache.Proofs.Render.Inlining
import Mustache.Proofs.Render.Plain
import Mustache.Proofs.Template.Section
import Mustache.Proofs.Value.Entry

/-!
# Items of a section

A section over the items of a list renders what it holds once for each, in a scope of the item's
own. If no name that is looked up in there starts with the list's name, the list is of no account
for what an item comes to, and neither are the items before it.

**Idea.** Where names lead to data, rendering is a function (`Node.plainAll`), and what a partial
comes to is one of the levels that are left (`partialText`). The function depends on its scope only
by the names that are looked up (`Node.plainAll_congr`). Inside a section every scope has an item in
front of the view, so that the name `.` leads to something inside the item; and any other name that
starts with another segment leads past the entry of the list (`Scope.resolve_around_eq`). That the
section may stand in another text than what it holds was read from is of no account, since only tags
matter to names (`Node.Avoids.of_tags`).

Main statements: `Node.gives_section` and `Node.plainAll_section`.
-/

namespace Mustache

open Render

/-! ## Names that pass an entry -/

namespace Value

variable {es : List (Value × Value)} {key name : String}

/-- A name without dots leads to the entry that was put in under it. -/
theorem resolve_putEntry_self (h : '.' ∉ key.toList) (v : Value) :
    (dict (putEntry es (.str key) v)).resolve key = .ok v := by
  rw [resolve, if_neg h, get, named?_putEntry, String.ofList_toList, if_pos rfl]
  rfl

/-- A name that starts with another segment leads past the entry. -/
theorem resolve_putEntry_eq (h : (segments name.toList).head? ≠ some key.toList) (v w : Value) :
    (dict (putEntry es (.str key) v)).resolve name =
      (dict (putEntry es (.str key) w)).resolve name := by
  rw [resolve_eq_foldlM, resolve_eq_foldlM]
  cases hsegments : segments name.toList with
  | nil => exact absurd hsegments (segments_ne_nil _)
  | cons segment rest =>
    have hne : String.ofList segment ≠ key := by
      rintro rfl
      rw [hsegments, List.head?_cons, String.toList_ofList] at h
      exact h rfl
    rw [List.foldlM_cons, List.foldlM_cons, get, get, named?_putEntry, named?_putEntry, if_neg hne,
      if_neg hne]

end Value

namespace Scope

variable {es : List (Value × Value)} {key name : String}

/-- In a scope inside that of a mapping, a name leads past an entry if it starts with another
segment. -/
theorem resolve_around_eq (h : (Value.segments name.toList).head? ≠ some key.toList) (u : Value)
    (inner : List Value) (v w : Value) :
    (around (u :: inner) (.dict (Value.putEntry es (.str key) v))).resolve name =
      (around (u :: inner) (.dict (Value.putEntry es (.str key) w))).resolve name := by
  by_cases hdot : name = "."
  · rw [resolve, resolve, if_pos hdot, if_pos hdot]
    rfl
  · rw [resolve, resolve, if_neg hdot, if_neg hdot, views_around, views_around]
    induction u :: inner with
    | nil =>
      simp only [List.nil_append, resolveIn]
      rw [Value.resolve_putEntry_eq h v w]
    | cons u views ih => rw [List.cons_append, List.cons_append, resolveIn, resolveIn, ih]

/-- Two scopes are the same but for the outermost view, and there they differ in one entry. There is
a view inside that one. -/
def DifferOutside (es : List (Value × Value)) (key : String) (v w : Value) (s s' : Scope) : Prop :=
  ∃ u inner, s = around (u :: inner) (.dict (Value.putEntry es (.str key) v)) ∧
    s' = around (u :: inner) (.dict (Value.putEntry es (.str key) w))

theorem DifferOutside.push {v w : Value} {s s' : Scope} (h : DifferOutside es key v w s s')
    (item : Value) : DifferOutside es key v w (s.push item) (s'.push item) := by
  obtain ⟨u, inner, rfl, rfl⟩ := h
  exact ⟨item, u :: inner, rfl, rfl⟩

end Scope

/-! ## Trees -/

namespace Node

/-- No name that is looked up in a tree starts with a segment. -/
def Avoids (name : String) (ns : List Node) : Prop :=
  ∀ x ∈ preorder ns, x.LooksUp → (Value.segments x.token.value.toList).head? ≠ some name.toList

variable {tally : Tally} {escape : String → String}
  {expand : Scope → String → Except Error String} {R : Scope → Scope → Prop}

mutual

theorem plain_congr (hpush : ∀ s s' v, R s s' → R (s.push v) (s'.push v)) :
    ∀ (n : Node) {s s' : Scope},
      (∀ x ∈ within n, x.LooksUp → ∀ s s', R s s' → s.resolve x.token.value =
        s'.resolve x.token.value) →
      (∀ t, leaf t ∈ within n → t.kind = .partialTag → ∀ s s', R s s' →
        expand s t.value = expand s' t.value) →
      R s s' → n.plain tally escape expand s = n.plain tally escape expand s'
  | leaf t, s, s', hnames, hpartials, hR => by
    have hself : leaf t ∈ within (leaf t) := mem_within_leaf.2 rfl
    have htext (hk : t.kind = .nameTag ∨ t.kind = .unescapedTag) :
        s.plainText tally t.value = s'.plainText tally t.value := by
      rw [Scope.plainText, Scope.plainText]
      exact congrArg (· >>= fun v => shown (v.current tally)) (hnames _ hself hk s s' hR)
    rw [plain, plain, plainLeaf, plainLeaf]
    cases hk : t.kind with
    | nameTag => simp only [htext (.inl hk)]
    | unescapedTag => exact htext (.inr hk)
    | partialTag => exact hpartials t hself hk s s' hR
    | _ => rfl
  | block t children close, s, s', hnames, hpartials, hR => by
    have hname : s.resolve t.value = s'.resolve t.value :=
      hnames _ (mem_within_block.2 (.inl rfl)) trivial s s' hR
    have hchildren {s s' : Scope} (hR : R s s') :=
      plainAll_congr hpush children (fun x hx => hnames x (mem_within_block.2 (.inr hx)))
        (fun t ht => hpartials t (mem_within_block.2 (.inr ht))) hR
    rw [plain, plain, hname]
    simp only [hchildren hR, fun v => hchildren (hpush s s' v hR)]

/-- **Rendering depends on its scope by the names that are looked up,** and by what partials come
to. -/
theorem plainAll_congr (hpush : ∀ s s' v, R s s' → R (s.push v) (s'.push v)) :
    ∀ (ns : List Node) {s s' : Scope},
      (∀ x ∈ preorder ns, x.LooksUp → ∀ s s', R s s' → s.resolve x.token.value =
        s'.resolve x.token.value) →
      (∀ t, leaf t ∈ preorder ns → t.kind = .partialTag → ∀ s s', R s s' →
        expand s t.value = expand s' t.value) →
      R s s' → plainAll tally escape expand s ns = plainAll tally escape expand s' ns
  | [], s, s', _, _, _ => by rw [plainAll, plainAll]
  | n :: ns, s, s', hnames, hpartials, hR => by
    rw [plainAll, plainAll,
      plain_congr hpush n (fun x hx => hnames x (mem_preorder_cons.2 (.inl hx)))
        (fun t ht => hpartials t (mem_preorder_cons.2 (.inl ht))) hR,
      plainAll_congr hpush ns (fun x hx => hnames x (mem_preorder_cons.2 (.inr hx)))
        (fun t ht => hpartials t (mem_preorder_cons.2 (.inr ht))) hR]

end

variable {settings : Settings} {given : List (String × String)} {loader : Option Loader}

/-- `Involves settings given loader ns ms`: the tree `ms` is the tree `ns`, or that of a partial
that `ns` reaches. -/
inductive Involves (settings : Settings) (given : List (String × String)) (loader : Option Loader)
    (ns : List Node) : List Node → Prop
  | self : Involves settings given loader ns ns
  | reached {ms ps : List Node} {t : Token} : Involves settings given loader ns ms →
      .leaf t ∈ preorder ms → t.kind = .partialTag →
      treeOfPartial settings given loader t.value = .ok (some ps) →
      Involves settings given loader ns ps

end Node

/-- What a partial comes to where names lead to data, by the levels that are left. -/
def partialText (settings : Settings) (given : List (String × String)) (loader : Option Loader)
    (tally : Tally) (escape : String → String) : Nat → Scope → String → Except Error String
  | 0, _, _ => .error .tooDeep
  | n + 1, scope, name => do
    match ← treeOfPartial settings given loader name with
    | none => .ok ""
    | some ns =>
      Node.plainAll tally escape (partialText settings given loader tally escape n) scope ns

namespace Node

variable {es : List (Value × Value)} {name : String} {ns : List Node} {sets : Bool}

/-- All names that are looked up in a tree, and in the partials that it reaches, lead to data. -/
def LeadToData (settings : Settings) (given : List (String × String)) (loader : Option Loader)
    (sets : Bool) (ns : List Node) : Prop :=
  ∀ ms, Involves settings given loader ns ms → ∀ x ∈ preorder ms, x.LooksUp →
    Value.LeadsToData sets x.token.value

/-- What a tree reaches comes to what the function says, if partials do on the levels that are
left. -/
theorem gives_renderAll_of_expand (hnames : LeadToData settings given loader sets ns) {n : Nat}
    (hexpand : ∀ {scope : Scope} {ms : List Node} {t : Token}, scope.IsData sets →
      Involves settings given loader ns ms → leaf t ∈ preorder ms → t.kind = .partialTag →
        Gives (Rests (Writer.Draws settings escape given loader) tally scope)
          ((deeper settings n).expand scope t.value)
          (partialText settings given loader tally escape n scope t.value))
    {ms : List Node} (hms : Involves settings given loader ns ms) {scope : Scope}
    (hscope : scope.IsData sets) (template : String) :
    Gives (Rests (Writer.Draws settings escape given loader) tally scope)
      (renderAll (deeper settings n) template scope ms)
      (plainAll tally escape (partialText settings given loader tally escape n) scope ms) := by
  refine gives_renderAll scope ms ?_ hscope
  exact
    { escapes := fun w hw => (deeper_escape settings n w).trans hw.escaping
      names := hnames ms hms
      partials := fun scope t hscope ht hk => hexpand hscope hms ht hk }

/-- On every level, a partial comes to what the function says. -/
theorem gives_expand_of_draws (hnames : LeadToData settings given loader sets ns) (n : Nat)
    {scope : Scope} {ms : List Node} {t : Token} (hscope : scope.IsData sets)
    (hms : Involves settings given loader ns ms) (ht : leaf t ∈ preorder ms)
    (hk : t.kind = .partialTag) :
    Gives (Rests (Writer.Draws settings escape given loader) tally scope)
      ((deeper settings n).expand scope t.value)
      (partialText settings given loader tally escape n scope t.value) := by
  induction n generalizing scope ms t with
  | zero => exact gives_throw .tooDeep
  | succ n ih =>
    intro s hs
    obtain ⟨r, s', hr, htree, hdraws, hmemo, htally⟩ := hs.store.supply t.value
    have hs' : Rests (Writer.Draws settings escape given loader) tally scope s' :=
      ⟨⟨hdraws, hmemo ▸ hs.memo⟩, htally.trans hs.rest⟩
    have hrun : ((deeper settings (n + 1)).expand scope t.value).runFrom s = _ :=
      (congrArg (fun m => runFrom m s) (expand_eq settings (deeper settings n) scope t.value)).trans
        (runFrom_bind _ _ s)
    rw [hrun, hr, partialText, ← htree]
    cases r with
    | error e => exact ⟨rfl, hs'⟩
    | ok found =>
      cases found with
      | none => exact ⟨rfl, hs'⟩
      | some c =>
        exact gives_renderAll_of_expand hnames (fun hscope hms ht hk => ih hscope hms ht hk)
          (hms.reached ht hk htree.symm) hscope c.template s' hs'

/-- Rendering comes to what the function of the sources says. -/
theorem gives_renderAll_of_draws (hnames : LeadToData settings given loader sets ns) (n : Nat)
    {scope : Scope} (hscope : scope.IsData sets) (template : String) :
    Gives (Rests (Writer.Draws settings escape given loader) tally scope)
      (renderAll (deeper settings n) template scope ns)
      (plainAll tally escape (partialText settings given loader tally escape n) scope ns) :=
  gives_renderAll_of_expand hnames (gives_expand_of_draws hnames n) .self hscope template

/-- Inside a section, a tree comes to the same whatever stands under a name, if no name that is
looked up starts with it, neither in the tree nor in a partial that it reaches. -/
theorem plainAll_eq_of_differOutside
    (h : ∀ ms, Involves settings given loader ns ms → Avoids name ms) (v w : Value) (n : Nat)
    {ms : List Node} (hms : Involves settings given loader ns ms) {s s' : Scope}
    (hs : Scope.DifferOutside es name v w s s') :
    plainAll tally escape (partialText settings given loader tally escape n) s ms =
      plainAll tally escape (partialText settings given loader tally escape n) s' ms := by
  have hnames {ms : List Node} (hms : Involves settings given loader ns ms) :
      ∀ x ∈ preorder ms, x.LooksUp → ∀ s s', Scope.DifferOutside es name v w s s' →
        s.resolve x.token.value = s'.resolve x.token.value := by
    rintro x hx hlooks s s' ⟨u, inner, rfl, rfl⟩
    exact Scope.resolve_around_eq (h ms hms x hx hlooks) u inner v w
  have hpartials (n : Nat) : ∀ {ms : List Node}, Involves settings given loader ns ms →
      ∀ t, .leaf t ∈ preorder ms → t.kind = .partialTag →
        ∀ s s', Scope.DifferOutside es name v w s s' →
          partialText settings given loader tally escape n s t.value =
            partialText settings given loader tally escape n s' t.value := by
    induction n with
    | zero => exact fun _ _ _ _ _ _ _ => rfl
    | succ n ih =>
      intro ms hms t ht hk s s' hs
      rw [partialText, partialText]
      cases htree : treeOfPartial settings given loader t.value with
      | error e => rfl
      | ok found =>
        cases found with
        | none => rfl
        | some ps =>
          have hps := hms.reached ht hk htree
          exact plainAll_congr (fun _ _ item hs => hs.push item) ps (hnames hps) (ih hps) hs
  exact plainAll_congr (fun _ _ item hs => hs.push item) ms (hnames hms) (hpartials n hms) hs

end Node

/-! ## Trees with the same tags -/

namespace Node

mutual

theorem within_of_tag? : ∀ {x y : Node}, tag? x = some y → within y = (within x).filterMap tag?
  | leaf t, y, h => by
    obtain rfl : y = leaf t := by
      rw [tag?] at h
      split at h
      · cases h
      · exact (Option.some.inj h).symm
    rw [within, List.filterMap_cons_some h, List.filterMap_nil]
  | block t children close, y, h => by
    obtain rfl := Option.some.inj h
    rw [within, within, List.filterMap_cons_some h, preorder_tags children]

theorem preorder_tags : ∀ ns : List Node, preorder (tags ns) = (preorder ns).filterMap tag?
  | [] => rfl
  | x :: xs => by
    rw [tags, preorder, List.filterMap_append, ← preorder_tags xs]
    cases h : tag? x with
    | none =>
      cases x with
      | leaf t => rw [within, List.filterMap_cons_none h]; rfl
      | block t children close => cases h
    | some y =>
      rw [← within_of_tag? h]
      rfl

end

theorem token_of_tag? {x y : Node} (h : tag? x = some y) :
    y.token = x.token ∧ (y.LooksUp ↔ x.LooksUp) := by
  cases x with
  | leaf t =>
    rw [tag?] at h
    split at h
    · cases h
    · obtain rfl := Option.some.inj h
      exact ⟨rfl, .rfl⟩
  | block t children close =>
    obtain rfl := Option.some.inj h
    exact ⟨rfl, .rfl⟩

theorem exists_tag?_of_looksUp {x : Node} (h : x.LooksUp) : ∃ y, tag? x = some y := by
  cases x with
  | leaf t =>
    refine ⟨leaf t, if_neg fun ht => ?_⟩
    rcases h with hk | hk <;> rw [ht] at hk <;> cases hk
  | block t children close => exact ⟨_, rfl⟩

variable {ns ms : List Node} {k : Nat} {name : String}

/-- What is a tag in one tree is one in another tree with the same tags. -/
theorem exists_of_tags (h : tags ns = shiftAll k (tags ms)) {x y : Node} (hx : x ∈ preorder ns)
    (hy : tag? x = some y) : ∃ x' ∈ preorder ms, ∃ y', tag? x' = some y' ∧ y'.shift k = y := by
  have hmem : y ∈ preorder (tags ns) := by
    rw [preorder_tags]
    exact List.mem_filterMap.2 ⟨x, hx, hy⟩
  rw [h, preorder_shiftAll, preorder_tags] at hmem
  obtain ⟨y', hy', rfl⟩ := List.mem_map.1 hmem
  obtain ⟨x', hx', htag⟩ := List.mem_filterMap.1 hy'
  exact ⟨x', hx', y', htag, rfl⟩

/-- A name that is looked up in one tree is looked up in another one with the same tags. -/
theorem exists_looksUp_of_tags (h : tags ns = shiftAll k (tags ms)) {x : Node}
    (hx : x ∈ preorder ns) (hlooks : x.LooksUp) :
    ∃ x' ∈ preorder ms, x'.LooksUp ∧ x'.token.value = x.token.value := by
  obtain ⟨y, hy⟩ := exists_tag?_of_looksUp hlooks
  obtain ⟨x', hx', y', hy', rfl⟩ := exists_of_tags h hx hy
  obtain ⟨htoken, hiff⟩ := token_of_tag? hy
  obtain ⟨htoken', hiff'⟩ := token_of_tag? hy'
  have hlooks' : x'.LooksUp := by
    rw [← hiff']
    cases y' <;> exact hiff.2 hlooks
  have hvalue : x.token.value = x'.token.value := by
    rw [← htoken, ← htoken']
    cases y' <;> rfl
  exact ⟨x', hx', hlooks', hvalue.symm⟩

theorem Avoids.of_tags (hms : Avoids name ms) (h : tags ns = shiftAll k (tags ms)) :
    Avoids name ns := by
  intro x hx hlooks
  obtain ⟨x', hx', hlooks', hvalue⟩ := exists_looksUp_of_tags h hx hlooks
  rw [← hvalue]
  exact hms x' hx' hlooks'

variable {settings : Settings} {given : List (String × String)} {loader : Option Loader}

/-- Trees with the same tags reach the same partials. -/
theorem Involves.of_tags {ks : List Node} (hks : Involves settings given loader ns ks)
    (h : tags ns = shiftAll k (tags ms)) : ks = ns ∨ Involves settings given loader ms ks := by
  induction hks with
  | self => exact .inl rfl
  | @reached js ps t _ ht hk htree ih =>
    refine .inr ?_
    rcases ih with rfl | hjs
    · have htag : tag? (leaf t) = some (leaf t) := if_neg (by simp [hk])
      obtain ⟨x, hx, y, hy, hshift⟩ := exists_of_tags h ht htag
      cases y with
      | block => cases hshift
      | leaf u =>
        obtain rfl : u.shift k = t := by simpa [shift] using hshift
        cases x with
        | block => cases hy
        | leaf v =>
          rw [tag?] at hy
          split at hy
          · cases hy
          · cases hy
            exact Involves.self.reached hx hk htree
    · exact hjs.reached ht hk htree

/-- Names that are looked up under the same tags lead to data alike. -/
theorem LeadToData.of_tags {sets : Bool} (hms : LeadToData settings given loader sets ms)
    (h : tags ns = shiftAll k (tags ms)) : LeadToData settings given loader sets ns := by
  intro ks hks x hx hlooks
  rcases hks.of_tags h with rfl | hreached
  · obtain ⟨x', hx', hlooks', hvalue⟩ := exists_looksUp_of_tags h hx hlooks
    exact hvalue ▸ hms ms .self x' hx' hlooks'
  · exact hms ks hreached x hx hlooks

end Node

/-! ## The section -/

namespace Render

variable {α : Type} {f : α → Except Error String}

/-- Texts that are found one by one and joined. -/
theorem joinTexts_eq_mapM (as : List α) : joinTexts f as = String.join <$> as.mapM f := by
  induction as with
  | nil => rfl
  | cons a as ih =>
    rw [joinTexts, ih, List.mapM_cons]
    cases f a with
    | error e => rfl
    | ok first =>
      cases as.mapM f with
      | error e => rfl
      | ok others => exact congrArg Except.ok String.join_cons.symm

theorem joinTexts_map {β : Type} (g : β → α) (bs : List β) :
    joinTexts f (bs.map g) = joinTexts (fun b => f (g b)) bs := by
  induction bs with
  | nil => rfl
  | cons b bs ih => rw [List.map_cons, joinTexts, joinTexts, ih]

theorem joinTexts_append (as bs : List α) :
    joinTexts f (as ++ bs) = (do
      let first ← joinTexts f as
      let others ← joinTexts f bs
      return first ++ others) := by
  simp only [joinTexts_eq_mapM, List.mapM_append]
  cases as.mapM f with
  | error e => rfl
  | ok texts =>
    cases bs.mapM f with
    | error e => rfl
    | ok texts' => exact congrArg Except.ok String.join_append

end Render

namespace Node

variable {tally : Tally} {escape : String → String} {settings : Settings}
  {given : List (String × String)} {loader : Option Loader} {es : List (Value × Value)}
  {t : Token} {children : List Node} {close : Nat} {sets : Bool}

/-- The name of a section leads to the list that was put in under it. -/
theorem resolve_items (hdotless : '.' ∉ t.value.toList) (items : List Value) :
    (Scope.ofView (.dict (Value.putEntry es (.str t.value) (.list items)))).resolve t.value =
      .ok (.list items) := by
  have hdot : t.value ≠ "." := by
    intro heq
    rw [heq] at hdotless
    exact hdotless (by decide)
  rw [Scope.resolve, if_neg hdot, Scope.views, Scope.ofView, Scope.resolveIn,
    Value.resolve_putEntry_self hdotless]
  rfl

/-- A section that is all of a template, over a list of data, comes to what the function says. -/
theorem gives_section (hdotless : '.' ∉ t.value.toList)
    (hnames : LeadToData settings given loader sets children) (n : Nat)
    (hes : ∀ e ∈ es, e.2.isData sets = true) {items : List Value}
    (hitems : ∀ v ∈ items, v.isData sets = true) (template : String) :
    let scope := Scope.ofView (.dict (Value.putEntry es (.str t.value) (.list items)))
    Gives (Rests (Writer.Draws settings escape given loader) tally scope)
      (renderAll (deeper settings n) template scope [block t children close])
      (plainAll tally escape (partialText settings given loader tally escape n) scope
        [block t children close]) := by
  intro scope
  have hlist : (Value.list items).isData sets = true := Value.isData_list.2 hitems
  have hscope : scope.IsData sets := Scope.isData_ofView.2 (Value.isData_dict.2
    (Value.forall_mem_putEntry (P := fun v => v.isData sets = true) hes hlist))
  rw [renderAll, plainAll, renderAll, plainAll]
  refine (gives_block hscope (fun v hv => ?_) fun scope hscope =>
    gives_renderAll_of_draws hnames n hscope template).bind fun first _ =>
      (gives_pure "").bind fun others _ => gives_pure _
  rw [resolve_items hdotless] at hv
  cases hv
  exact hlist

/-- What such a section comes to: the items one by one, as they are by now, each in a scope in which
the list is empty. -/
theorem plainAll_section (hkind : t.kind = .sectionTag) (hdotless : '.' ∉ t.value.toList)
    (h : ∀ ms, Involves settings given loader children ms → Avoids t.value ms) (n : Nat)
    (items : List Value) :
    let expand := partialText settings given loader tally escape n
    let view (items : List Value) : Value := .dict (Value.putEntry es (.str t.value) (.list items))
    plainAll tally escape expand (Scope.ofView (view items)) [block t children close] =
      joinTexts (fun item => plainAll tally escape expand
        ((Scope.ofView (view [])).push (item.current tally)) children) items := by
  intro expand view
  have hitem (item : Value) : plainAll tally escape expand ((Scope.ofView (view items)).push item)
      children = plainAll tally escape expand ((Scope.ofView (view [])).push item) children :=
    plainAll_eq_of_differOutside h (.list items) (.list []) n .self ⟨item, [], rfl, rfl⟩
  have hsection : (block t children close).plain tally escape expand (Scope.ofView (view items)) =
      joinTexts (fun item => plainAll tally escape expand
        ((Scope.ofView (view items)).push item) children) (items.map (Value.current tally)) := by
    rw [plain, resolve_items hdotless, ← Value.currentAll_eq_map]
    simp only [hkind]
    rfl
  rw [plainAll, hsection, joinTexts_map, joinTexts_congr fun item _ => hitem _, plainAll]
  cases joinTexts _ items with
  | error e => rfl
  | ok text => exact congrArg Except.ok String.append_empty

end Node

end Mustache
