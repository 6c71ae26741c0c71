import Mustache.Proofs.Render.Mirror
import Mustache.Proofs.Render.Supply

/-!
# Partials and their nodes

A partial tag puts out what the nodes of its partial put out where the tag stands. So in a tree, any
partial tag can be replaced by the nodes of the partial, at any depth, and what is rendered with
plain data stays the same. The nodes are rendered in the scope of the tag, with what was looked up
there before them; that they were read from another text, maybe with other delimiters in force, is
of no account.

**Idea.** The two trees are gone through side by side. A partial tag uses up a level that its nodes
in its place do not, so the one result is the other unless no level was left, and more levels only
settle more; this is one induction on the levels. A writer that draws all it knows from given
sources keeps doing so while it renders (`Writer.Draws`).

Main statements: `Node.Resembles.settles_levels`, `Writer.Draws.supply`, `Render.exists_call` and
`Render.exists_template`.
-/

namespace Mustache

open Render

namespace Node

/-- `Inlined name ps ns ms`: the nodes `ms` are `ns` with one partial tag of the name, at any depth,
replaced by the nodes `ps`. -/
inductive Inlined (name : String) (ps : List Node) : List Node → List Node → Prop
  | here {t : Token} {ns : List Node} : t.kind = .partialTag → t.value = name →
      Inlined name ps (leaf t :: ns) (ps ++ ns)
  | inside {t : Token} {children children' ns : List Node} {close : Nat} :
      Inlined name ps children children' →
      Inlined name ps (block t children close :: ns) (block t children' close :: ns)
  | later {n : Node} {ns ms : List Node} : Inlined name ps ns ms →
      Inlined name ps (n :: ns) (n :: ms)

variable {P : Token → List Node → Prop} {name : String} {ps ns ms : List Node}

/-- A tree with a partial tag replaced resembles the tree. -/
theorem Inlined.resembles (h : Inlined name ps ns ms) (hps : ∀ t, t.value = name → P t ps) :
    Resembles P ns ms := by
  induction h with
  | here hk hname => exact .replaced hk (hps _ hname) (.refl P _)
  | inside _ ih => exact .block rfl rfl ih (.refl P _)
  | later _ ih => exact ih.cons_self P _

end Node

/-! ## Partials from given sources -/

/-- The text of a partial: the one that was given last under the name, or else the loader's. -/
def sourceOf (given : List (String × String)) (loader : Option Loader) (name : String) :
    Except Error (Option String) :=
  match given.reverse.lookup name with
  | some t => .ok (some t)
  | none =>
    match loader with
    | some l => l.load name
    | none => .ok none

variable (settings : Settings) (given : List (String × String)) (loader : Option Loader)

/-- The tree of a partial, if there is one. -/
def treeOfPartial (name : String) : Except Error (Option (List Node)) := do
  match ← sourceOf given loader name with
  | none => return none
  | some t =>
    let ns ← (Template.parseWith settings.delimiters t).mapError Error.template
    return some ns

variable {settings given loader} {escape : String → String} {name : String} {ps ns ms : List Node}

theorem treeOfPartial_of_source {t : String} {r : Except TemplateError (List Node)}
    (hsource : sourceOf given loader name = .ok (some t))
    (hp : Template.parseWith settings.delimiters t = r) :
    treeOfPartial settings given loader name = some <$> r.mapError Error.template := by
  rw [treeOfPartial, hsource, ← hp]
  rfl

/-! ## Writers that draw from the sources -/

/-- A text that can be read can be compiled. -/
theorem Writer.exists_compile {spec : Delimiters.Spec} {t : String} (w : Writer)
    (hp : ∃ ns, Template.parseWith spec t = .ok ns) : ∃ c w', w.compile spec t = .ok (c, w') := by
  obtain ⟨ns, hp⟩ := hp
  cases hc : w.compile spec t with
  | error e =>
    rw [(compile_eq_error_iff.1 hc).2] at hp
    cases hp
  | ok found => exact ⟨found.1, found.2, rfl⟩

/-- All that a writer knows comes from the sources: its templates are as reading them gives, its
partials are those that were given or that the loader gave, and it knows all that were given. -/
structure Writer.Draws (settings : Settings) (escape : String → String)
    (given : List (String × String)) (loader : Option Loader) (w : Writer) : Prop where
  sound : w.Sound settings.delimiters
  escaping : w.escaping settings = escape
  asks : w.loader = loader
  known : ∀ name c, w.partials.find? name = some c →
    sourceOf given loader name = .ok (some c.template)
  unknown : ∀ name, w.partials.find? name = none → given.reverse.lookup name = none

namespace Writer.Draws

variable {w w' : Writer} {c : Compiled} {t : String}

theorem new (settings : Settings) (escape : Option (String → String)) :
    Writer.Draws settings (escape.getD settings.escape) [] none (Writer.new escape) where
  sound := Writer.sound_of_empty rfl rfl rfl
  escaping := rfl
  asks := rfl
  known _ _ h := nomatch h
  unknown _ _ := rfl

theorem compile (h : w.Draws settings escape given loader)
    (hc : w.compile settings.delimiters t = .ok (c, w')) :
    w'.Draws settings escape given loader ∧ c.template = t ∧
      Template.parseWith settings.delimiters t = .ok c.nodes := by
  rcases Writer.compile_cases hc with ⟨hf, rfl⟩ | ⟨ns, -, hp, rfl, rfl⟩
  · obtain ⟨ht, -, hp⟩ := h.sound.parsed t c hf
    exact ⟨h, ht, hp⟩
  · exact ⟨⟨h.sound.keep hp, h.escaping, h.asks, h.known, h.unknown⟩, rfl, hp⟩

theorem sound_insert (h : w.Sound settings.delimiters)
    (hp : Template.parseWith settings.delimiters c.template = .ok c.nodes) (name : String) :
    Writer.Sound settings.delimiters { w with partials := w.partials.insert name c } where
  parsed := h.parsed
  injective := h.injective
  partials key e he := by
    rw [Table.find?_insert] at he
    split at he
    · cases he
      exact hp
    · exact h.partials key e he
  blanks := h.blanks

/-- A partial that is given comes before what was given so far. -/
theorem register (h : w.Draws settings escape given loader)
    (hp : Template.parseWith settings.delimiters c.template = .ok c.nodes) (name : String) :
    Writer.Draws settings escape (given ++ [(name, c.template)]) loader
      { w with partials := w.partials.insert name c } where
  sound := sound_insert h.sound hp name
  escaping := h.escaping
  asks := h.asks
  known key e he := by
    rw [Table.find?_insert] at he
    rw [sourceOf.eq_def, List.reverse_append, List.reverse_singleton, List.singleton_append,
      List.lookup_cons]
    split at he
    · next heq =>
      cases he
      simp [heq]
    · next hne =>
      rw [show (key == name) = false by simpa using hne]
      exact h.known key e he
  unknown key he := by
    rw [Table.find?_insert] at he
    split at he
    · cases he
    · next hne =>
      rw [List.reverse_append, List.reverse_singleton, List.singleton_append, List.lookup_cons,
        show (key == name) = false by simpa using hne]
      exact h.unknown key he

/-- What the loader gives for a name that is not known was the source of the name before. -/
theorem load (h : w.Draws settings escape given loader)
    (hp : Template.parseWith settings.delimiters c.template = .ok c.nodes)
    (hsource : sourceOf given loader name = .ok (some c.template)) :
    Writer.Draws settings escape given loader
      { w with partials := w.partials.insert name c } where
  sound := sound_insert h.sound hp name
  escaping := h.escaping
  asks := h.asks
  known key e he := by
    rw [Table.find?_insert] at he
    split at he
    · next heq =>
      cases he
      rw [heq, hsource]
    · exact h.known key e he
  unknown key he := by
    rw [Table.find?_insert] at he
    split at he
    · cases he
    · exact h.unknown key he

theorem setLoader (h : w.Draws settings escape given none) (l : Loader) :
    Writer.Draws settings escape given (some l) { w with loader := some l } where
  sound := ⟨h.sound.parsed, h.sound.injective, h.sound.partials, h.sound.blanks⟩
  escaping := h.escaping
  asks := rfl
  known key c hc := by
    have := h.known key c hc
    rw [sourceOf.eq_def] at this ⊢
    split at this
    · exact this
    · cases this
  unknown := h.unknown

/-- A name that is not known has the loader as its source. -/
theorem sourceOf_eq (h : w.Draws settings escape given loader)
    (hf : w.partials.find? name = none) :
    sourceOf given loader name =
      match w.loader with
      | some l => l.load name
      | none => .ok none := by
  rw [sourceOf.eq_def, h.unknown name hf, h.asks]

end Writer.Draws

/-- **What is put in for a name is what the sources say,** and the writer goes on drawing from
them. -/
theorem Writer.Draws.supply {s : State Writer} (hs : s.writer.Draws settings escape given loader)
    (name : String) : ∃ r s', (Render.supply settings name).runFrom s = (r, s') ∧
      Option.map Compiled.nodes <$> r = treeOfPartial settings given loader name ∧
      s'.writer.Draws settings escape given loader ∧ s'.memo = s.memo ∧ s'.tally = s.tally := by
  obtain ⟨r, s', hfetched⟩ := exists_fetched settings name s
  obtain ⟨hmemo, htally⟩ := hfetched.same
  refine ⟨_, s', hfetched.supply_eq, ?_⟩
  cases hfetched with
  | @known c hp =>
    rw [treeOfPartial_of_source (hs.known name c hp) (hs.sound.partials name c hp)]
    exact ⟨congrArg (fun x => Except.ok (Option.map _ x)) hp, hs, hmemo, htally⟩
  | unasked hp hl =>
    rw [treeOfPartial, hs.sourceOf_eq hp, hl]
    exact ⟨congrArg (fun x => Except.ok (Option.map _ x)) hp, hs, hmemo, htally⟩
  | failed hp hl hload =>
    rw [treeOfPartial, hs.sourceOf_eq hp, hl]
    simp only [hload]
    exact ⟨rfl, hs, hmemo, htally⟩
  | absent hp hl hload =>
    rw [treeOfPartial, hs.sourceOf_eq hp, hl]
    simp only [hload]
    exact ⟨congrArg (fun x => Except.ok (Option.map _ x)) hp, hs, hmemo, htally⟩
  | @unreadable l t e hp hl hload hc =>
    have hsource : sourceOf given loader name = .ok (some t) := by
      rw [hs.sourceOf_eq hp, hl]
      exact hload
    rw [treeOfPartial_of_source hsource (Writer.compile_eq_error_iff.1 hc).2]
    exact ⟨rfl, hs, hmemo, htally⟩
  | @loaded l t c w hp hl hload hc =>
    have hsource : sourceOf given loader name = .ok (some t) := by
      rw [hs.sourceOf_eq hp, hl]
      exact hload
    obtain ⟨hw, rfl, hparse⟩ := hs.compile hc
    rw [treeOfPartial_of_source hsource hparse]
    have hentry : (w.partials.insert name c).find? name = some c := by
      rw [Table.find?_insert, if_pos rfl]
    exact ⟨congrArg (fun x => Except.ok (Option.map _ x)) hentry, hw.load hparse hsource, hmemo,
      htally⟩

/-! ## Levels -/

/-- The nodes are those of the partial that a tag names. -/
def IsTreeOf (settings : Settings) (given : List (String × String)) (loader : Option Loader)
    (t : Token) (ps : List Node) : Prop :=
  treeOfPartial settings given loader t.value = .ok (some ps)

/-- Both writers draw from the same sources. -/
abbrev DrawBoth (settings : Settings) (escape : String → String) (given : List (String × String))
    (loader : Option Loader) (w w' : Writer) : Prop :=
  w.Draws settings escape given loader ∧ w'.Draws settings escape given loader

/-- A value is remembered as it is, and plain. -/
abbrev SamePlain (_ : String) (v w : Value) : Prop := v = w ∧ v.isPlain = true

theorem sameResult_of_map_eq {α β γ : Type} {f : α → γ} {g : β → γ} {x : Except Error α}
    {y : Except Error β} (h : f <$> x = g <$> y) : SameResult (fun a b => f a = g b) x y := by
  cases x with
  | error e =>
    cases y with
    | error e' =>
      cases h
      exact .error e
    | ok b => cases h
  | ok a =>
    cases y with
    | error e => cases h
    | ok b => exact .ok (Except.ok.inj h)

section Supply

variable {E : Error → Prop} {α β : Type} {Q : α → β → Prop}

/-- Both writers put in partials with the same nodes. -/
theorem settles_supply (name : String) :
    SettlesOn E (State.Mirrors (DrawBoth settings escape given loader) SamePlain)
      (fun c c' => c.map Compiled.nodes = c'.map Compiled.nodes) (supply settings name)
      (supply settings name) := by
  intro s t hs
  obtain ⟨r, s', hr, htree, hdraws, hmemo, htally⟩ := hs.store.1.supply name
  obtain ⟨r', t', hr', htree', hdraws', hmemo', htally'⟩ := hs.store.2.supply name
  rw [hr, hr']
  refine .inr ⟨sameResult_of_map_eq (htree.trans htree'.symm), ⟨hdraws, hdraws'⟩, ?_, ?_⟩
  · rw [hmemo, hmemo']
    exact hs.memo
  · rw [htally, htally', hs.tally]

/-- Where the first writer puts in a partial, the second one may do nothing. -/
theorem settles_supply_left {t : Token} (hps : IsTreeOf settings given loader t ps)
    {k : Option Compiled → Render Writer α} {m : Render Writer β}
    (h : ∀ c : Compiled, c.nodes = ps →
      SettlesOn E (State.Mirrors (DrawBoth settings escape given loader) SamePlain) Q (k (some c))
        m) :
    SettlesOn E (State.Mirrors (DrawBoth settings escape given loader) SamePlain) Q
      (supply settings t.value >>= k) m := by
  intro s s' hs
  obtain ⟨r, left, hr, htree, hdraws, hmemo, htally⟩ := hs.store.1.supply t.value
  rw [hps] at htree
  obtain ⟨c, rfl, hc⟩ : ∃ c, r = .ok (some c) ∧ c.nodes = ps := by
    rcases r with e | _ | c <;> cases htree
    exact ⟨c, rfl, rfl⟩
  rw [runFrom_bind, hr]
  refine h c hc left s' ⟨⟨hdraws, hs.store.2⟩, ?_, htally.trans hs.tally⟩
  rw [hmemo]
  exact hs.memo

end Supply

/-- Plain scopes, each beside itself. -/
abbrev SameScope (scope scope' : Scope) : Prop := scope = scope' ∧ scope.IsPlain

theorem mirrors_of_levels {n m : Nat} {template template' : String}
    (hpartials : ∀ (scope : Scope) (name : String), scope.IsPlain →
      SettlesOn (· = .tooDeep) (State.Mirrors (DrawBoth settings escape given loader) SamePlain) Eq
        ((deeper settings n).expand scope name) ((deeper settings m).expand scope name))
    (hreplaced : ∀ (scope : Scope) (t : Token) (ps : List Node), scope.IsPlain →
      IsTreeOf settings given loader t ps →
        SettlesOn (· = .tooDeep) (State.Mirrors (DrawBoth settings escape given loader) SamePlain)
          Eq ((deeper settings n).expand scope t.value)
          (Node.renderAll (deeper settings m) template' scope ps)) :
    (deeper settings n).Mirrors (deeper settings m) (· = .tooDeep)
      (DrawBoth settings escape given loader) SamePlain SameScope
      (IsTreeOf settings given loader) template template' ns where
  push := by
    rintro scope _ v ⟨rfl, hscope⟩ hv
    exact ⟨rfl, hscope.push hv⟩
  escape := by
    rintro w r ⟨hw, hr⟩
    rw [deeper_escape, deeper_escape, hw.escaping, hr.escaping]
  lookup := by
    rintro scope _ x ⟨rfl, hscope⟩ - -
    refine settles_lookup ?_
    cases hx : scope.resolve x.token.value with
    | error e => exact .error e
    | ok v =>
      exact .ok (settles_found (Scope.isFound_resolve hscope hx)
        fun w hw => ⟨rfl, hw⟩)
  names _ _ _ _ _ h := h
  partials := by
    rintro scope _ t ⟨rfl, hscope⟩ - -
    exact hpartials scope t.value hscope
  replaced := by
    rintro scope _ t ps ⟨rfl, hscope⟩ hps
    exact hreplaced scope t ps hscope hps
  sections _ _ _ _ _ _ h := .inl h

/-- **With plain data, trees that resemble each other put out the same on as many levels or more,**
if there are levels enough for the first one. -/
theorem Node.Resembles.settles_levels {n m : Nat} (hle : n ≤ m)
    (hR : Node.Resembles (IsTreeOf settings given loader) ns ms) {scope : Scope}
    (hscope : scope.IsPlain) (template template' : String) :
    SettlesOn (· = .tooDeep) (State.Mirrors (DrawBoth settings escape given loader) SamePlain) Eq
      (Node.renderAll (deeper settings n) template scope ns)
      (Node.renderAll (deeper settings m) template' scope ms) := by
  induction n generalizing m ns ms scope template template' with
  | zero =>
    refine hR.settles (mirrors_of_levels ?_ ?_) ⟨rfl, hscope⟩
    · exact fun _ _ _ => settles_throw_left rfl
    · exact fun _ _ _ _ _ => settles_throw_left rfl
  | succ n ih =>
    refine hR.settles (mirrors_of_levels (fun scope name hscope => ?_)
      fun scope t ps hscope hps => ?_) ⟨rfl, hscope⟩
    · obtain ⟨m, rfl⟩ : ∃ k, m = k + 1 := ⟨m - 1, by omega⟩
      show SettlesOn _ _ _ (expand settings (deeper settings n) scope name)
        (expand settings (deeper settings m) scope name)
      rw [expand_eq, expand_eq]
      refine (settles_supply name).bind fun c c' hc => ?_
      cases c with
      | none =>
        obtain rfl : c' = none := by simpa using hc.symm
        exact (agree_pure rfl).settles
      | some c =>
        obtain ⟨c', rfl, hnodes⟩ := Option.map_eq_some_iff.1 hc.symm
        dsimp only
        rw [hnodes]
        exact ih (by omega) (.refl _ _) hscope c.template c'.template
    · show SettlesOn _ _ _ (expand settings (deeper settings n) scope t.value) _
      rw [expand_eq]
      refine settles_supply_left hps fun c hc => ?_
      subst hc
      exact ih (by omega) (.refl _ _) hscope c.template template'

/-! ## From the start -/

namespace Render

variable {tally : Tally}

/-- The writer draws from some sources, nothing was looked up yet, and counters and sets are as a
tally says. -/
structure DrawsAnew (settings : Settings) (escape : String → String)
    (given : List (String × String)) (loader : Option Loader) (tally : Tally) (s : State Writer) :
    Prop where
  store : s.writer.Draws settings escape given loader
  memo : s.memo = ∅
  tally : s.tally = tally

theorem leads_register {t : String}
    (hp : ∃ ns, Template.parseWith settings.delimiters t = .ok ns) (name : String) :
    Leads (DrawsAnew settings escape given loader tally) (register settings name t)
      fun r s => r = .ok () ∧ DrawsAnew settings escape (given ++ [(name, t)]) loader tally s := by
  intro s hs
  obtain ⟨c, w, hc⟩ := s.writer.exists_compile hp
  obtain ⟨hw', rfl, hparse⟩ := hs.store.compile hc
  rw [runFrom_register_ok hc]
  exact ⟨rfl, hw'.register hparse name, hs.memo, hs.tally⟩

/-- Partials that are given, when they can be read, become sources after those given before. -/
theorem leads_accept {partials : Partials}
    (hp : ∀ e ∈ partials.listed, ∃ ns, Template.parseWith settings.delimiters e.2 = .ok ns) :
    Leads (DrawsAnew settings escape given none tally) (accept settings partials) fun r s =>
      r = .ok () ∧ DrawsAnew settings escape (given ++ partials.listed)
        (partials.loaderAfter none) tally s := by
  cases partials with
  | none =>
    refine leads_pure fun s hs => ⟨rfl, ?_⟩
    show DrawsAnew settings escape (given ++ []) none tally s
    rwa [List.append_nil]
  | loader l =>
    refine leads_modify fun s hs => ⟨rfl, ?_⟩
    show DrawsAnew settings escape (given ++ []) (some l) tally _
    rw [List.append_nil]
    exact ⟨hs.store.setLoader l, hs.memo, hs.tally⟩
  | named entries =>
    change ∀ e ∈ entries, _ at hp
    show Leads _ (entries.forM _) fun r s =>
      r = .ok () ∧ DrawsAnew settings escape (given ++ entries) none tally s
    induction entries generalizing given with
    | nil =>
      refine leads_pure fun s hs => ⟨rfl, ?_⟩
      rwa [List.append_nil]
    | cons e entries ih =>
      obtain ⟨he, hp⟩ := List.forall_mem_cons.1 hp
      have hothers := @ih (given ++ [e]) hp
      rw [List.append_assoc, List.singleton_append] at hothers
      refine (leads_register he e.1).bind (fun _ => hothers.of_imp fun s hs => hs.2) ?_
      rintro _ s ⟨⟨⟩, -⟩

variable {scope : Scope} {partials : Partials} {s t : State Writer}

/-- Trees that resemble each other give the same, whatever the writers know, if both draw from the
same sources and there are levels enough. -/
theorem result_eq_of_resembles (template template' : String) {levels : Nat}
    (hR : Node.Resembles (IsTreeOf settings given loader) ns ms)
    (hs : DrawsAnew settings escape given loader tally s)
    (ht : DrawsAnew settings escape given loader tally t) (hscope : scope.IsPlain)
    (hlevels : ((Node.renderAll (deeper settings levels) template scope ns).runFrom s).1 ≠
      .error .tooDeep) :
    ((Node.renderAll (deeper settings levels) template scope ns).runFrom s).1 =
      ((Node.renderAll (deeper settings levels) template' scope ms).runFrom t).1 := by
  have hmirrors : State.Mirrors (DrawBoth settings escape given loader) SamePlain s t := by
    refine ⟨⟨hs.store, ht.store⟩, fun name => ?_, hs.tally.trans ht.tally.symm⟩
    rw [hs.memo, ht.memo]
    exact .none
  rcases hR.settles_levels le_rfl hscope template template' s t hmirrors with ⟨e, he, rfl⟩ | ⟨hr, -⟩
  · exact absurd he hlevels
  · exact hr.eq

/-- A compiled template, rendered with partials that can be read, goes on to its tree with a writer
that draws from these. -/
theorem exists_call (limit : Nat) (c : Compiled)
    (hp : ∀ e ∈ partials.listed, ∃ ns, Template.parseWith settings.delimiters e.2 = .ok ns)
    (hs : DrawsAnew settings escape given none tally s) :
    ∃ s',
      DrawsAnew settings escape (given ++ partials.listed) (partials.loaderAfter none) tally s' ∧
      (call settings limit c partials scope).runFrom s =
        (Node.renderAll (deeper settings limit) c.template scope c.nodes).runFrom s' := by
  obtain ⟨hr, hs'⟩ := leads_accept hp s hs
  refine ⟨_, hs', ?_⟩
  rw [call, runFrom_bind, show (accept settings partials).runFrom s =
    (.ok (), ((accept settings partials).runFrom s).2) from Prod.ext hr rfl]

/-- So does a template that can be read, which is compiled first. -/
theorem exists_template (limit : Nat) {t : String}
    (hp : ∀ e ∈ partials.listed, ∃ ns, Template.parseWith settings.delimiters e.2 = .ok ns)
    (ht : Template.parseWith settings.delimiters t = .ok ns)
    (hs : DrawsAnew settings escape given none tally s) :
    ∃ s',
      DrawsAnew settings escape (given ++ partials.listed) (partials.loaderAfter none) tally s' ∧
      (template settings limit t partials scope).runFrom s =
        (Node.renderAll (deeper settings limit) t scope ns).runFrom s' := by
  obtain ⟨c, w, hc⟩ := s.writer.exists_compile ⟨ns, ht⟩
  obtain ⟨hw', rfl, hparse⟩ := hs.store.compile hc
  obtain rfl := Except.ok.inj (ht.symm.trans hparse)
  rw [template, runFrom_bind, runFrom_compile_ok hc]
  exact exists_call limit c hp ⟨hw', hs.memo, hs.tally⟩

end Render

end Mustache
