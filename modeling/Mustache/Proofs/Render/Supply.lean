import Mustache.Proofs.Render.Chronicle
import Mustache.Proofs.Render.Judgement

/-!
# Where partials come from

The partial of a name is the one that the writer knows, or else the one that its loader gives, read
as the writer reads: if it knows the text already, it has a tree for it, whatever the delimiters are
now. Rendering changes none of this: what the writer comes to know meanwhile, it would have given
before.

**Idea.** `Fetched` says once what asking for a partial comes to; what is shown of it goes by its
cases. A property of writers is `Lasting` if compiling, loading and keeping empty values keep it,
and then all rendering keeps it, whatever is called on the way. `Writer.Serves` is such a property:
what a writer reads and puts in is what another one would have read and put in.

Main statements: `Render.fetched`, `Writer.Lasting.alike_deeper`, `Writer.lasting_serves` and
`Render.prepared`.
-/

namespace Mustache

open Render

/-! ## Asking for a partial -/

namespace Render

/-- The state with an event recorded. -/
def State.recorded {σ : Type} (s : State σ) (e : Event) : State σ := { s with log := s.log ++ [e] }

/-- What asking for the partial of a name comes to. -/
inductive Fetched (settings : Settings) (name : String) (s : State Writer) :
    Except Error Unit → State Writer → Prop
  | known {c : Compiled} (hp : s.writer.partials.find? name = some c) :
      Fetched settings name s (.ok ()) s
  | unasked (hp : s.writer.partials.find? name = none) (hl : s.writer.loader = none) :
      Fetched settings name s (.ok ()) s
  | failed {l : Loader} {e : Error} (hp : s.writer.partials.find? name = none)
      (hl : s.writer.loader = some l) (hload : l.load name = .error e) :
      Fetched settings name s (.error e) (s.recorded (.loaded name))
  | absent {l : Loader} (hp : s.writer.partials.find? name = none)
      (hl : s.writer.loader = some l) (hload : l.load name = .ok none) :
      Fetched settings name s (.ok ()) (s.recorded (.loaded name))
  | unreadable {l : Loader} {t : String} {e : TemplateError}
      (hp : s.writer.partials.find? name = none) (hl : s.writer.loader = some l)
      (hload : l.load name = .ok (some t))
      (hc : s.writer.compile settings.delimiters t = .error e) :
      Fetched settings name s (.error (.template e)) (s.recorded (.loaded name))
  | loaded {l : Loader} {t : String} {c : Compiled} {w : Writer}
      (hp : s.writer.partials.find? name = none) (hl : s.writer.loader = some l)
      (hload : l.load name = .ok (some t))
      (hc : s.writer.compile settings.delimiters t = .ok (c, w)) :
      Fetched settings name s (.ok ()) { s.recorded (.loaded name) with
        writer := { w with partials := w.partials.insert name c } }

variable {settings : Settings} {s : State Writer} {name : String}

/-- A partial that is not known is asked of the loader. -/
theorem runFrom_fetch_asked {l : Loader} (hp : s.writer.partials.find? name = none)
    (hl : s.writer.loader = some l) :
    (fetch settings name).runFrom s = (ofExcept (l.load name) >>= fun found =>
      match found with
      | none => pure ()
      | some t => register settings name t).runFrom (s.recorded (.loaded name)) := by
  rw [fetch, runFrom_get_bind]
  dsimp only
  rw [hp, hl]
  exact runFrom_bind _ _ s

theorem Fetched.eq {r : Except Error Unit} {s₁ : State Writer}
    (h : Fetched settings name s r s₁) :
    (fetch settings name).runFrom s = (r, s₁) := by
  cases h with
  | known hp =>
    rw [fetch, runFrom_get_bind]
    dsimp only
    rw [hp]
    rfl
  | unasked hp hl =>
    rw [fetch, runFrom_get_bind]
    dsimp only
    rw [hp, hl]
    rfl
  | failed hp hl hload =>
    rw [runFrom_fetch_asked hp hl, hload]
    rfl
  | absent hp hl hload =>
    rw [runFrom_fetch_asked hp hl, hload]
    rfl
  | unreadable hp hl hload hc =>
    rw [runFrom_fetch_asked hp hl, hload]
    exact runFrom_register_error (s := s.recorded (.loaded name)) hc
  | loaded hp hl hload hc =>
    rw [runFrom_fetch_asked hp hl, hload]
    exact runFrom_register_ok (s := s.recorded (.loaded name)) hc

theorem exists_fetched (settings : Settings) (name : String) (s : State Writer) :
    ∃ r s₁, Fetched settings name s r s₁ := by
  cases hp : s.writer.partials.find? name with
  | some c => exact ⟨_, _, .known hp⟩
  | none =>
    cases hl : s.writer.loader with
    | none => exact ⟨_, _, .unasked hp hl⟩
    | some l =>
      cases hload : l.load name with
      | error e => exact ⟨_, _, .failed hp hl hload⟩
      | ok found =>
        cases found with
        | none => exact ⟨_, _, .absent hp hl hload⟩
        | some t =>
          cases hc : s.writer.compile settings.delimiters t with
          | error e => exact ⟨_, _, .unreadable hp hl hload hc⟩
          | ok given => exact ⟨_, _, .loaded hp hl hload hc⟩

/-- **All that asking for a partial can come to.** -/
theorem fetched (settings : Settings) (name : String) (s : State Writer) :
    Fetched settings name s ((fetch settings name).runFrom s).1
      ((fetch settings name).runFrom s).2 := by
  obtain ⟨r, s₁, h⟩ := exists_fetched settings name s
  rw [h.eq]
  exact h

/-- Asking for a partial touches nothing but the writer and the records. -/
theorem Fetched.same {r : Except Error Unit} {s' : State Writer}
    (h : Fetched settings name s r s') : s'.memo = s.memo ∧ s'.tally = s.tally := by
  cases h <;> exact ⟨rfl, rfl⟩

theorem Fetched.supply_eq {r : Except Error Unit} {s₁ : State Writer}
    (h : Fetched settings name s r s₁) :
    (supply settings name).runFrom s = (r.map fun _ => s₁.writer.partials.find? name, s₁) := by
  rw [supply, runFrom_bind, h.eq]
  cases r <;> rfl

/-- Taking a value for an empty template changes nothing but that the writer may keep it. -/
theorem runFrom_acceptBlank (settings : Settings) (v : Value) (s : State Writer) :
    ∃ r w, (acceptBlank settings v).runFrom s = (r, { s with writer := w }) ∧
      (w = s.writer ∨ w = s.writer.keepBlank v) := by
  rw [acceptBlank, runFrom_get_bind]
  dsimp only
  cases v.canBeKey with
  | false => exact ⟨_, _, rfl, .inl rfl⟩
  | true =>
    cases s.writer.knowsBlank v with
    | true => exact ⟨_, _, rfl, .inl rfl⟩
    | false =>
      cases settings.delimiters.delimiters with
      | error e => exact ⟨_, _, rfl, .inl rfl⟩
      | ok d =>
        cases hm : v.measure with
        | error e => exact ⟨_, _, rfl, .inl rfl⟩
        | ok size =>
          have hmeasured (k : Value → Render Writer Unit) :
              (ofExcept (.ok size) >>= k).runFrom s = (k size).runFrom s := rfl
          simp only [Bool.not_true, Bool.false_eq_true, if_false, hmeasured]
          split
          · exact ⟨_, _, rfl, .inr rfl⟩
          · exact ⟨_, _, rfl, .inl rfl⟩

end Render

/-- **What holds of the parts holds on every level,** if it holds of finding partials, and of the
error where no level is left. -/
theorem Judgement.Covers.deeper {J : Judgement Writer} {settings : Settings}
    {scopes : Scope → Prop} {values : Value → Prop}
    (h : ∀ n, J.Covers (Render.deeper settings n) scopes values fun _ => True)
    (htooDeep : ∀ scope, J String scope (throw .tooDeep) fun _ => True)
    (hsupply : ∀ scope name, J (Option Compiled) scope (supply settings name) fun _ => True)
    (n : Nat) {scope : Scope} (hscope : scopes scope) (template : String) (ns : List Node) :
    J String scope (Node.renderAll (Render.deeper settings n) template scope ns) fun _ => True := by
  induction n generalizing scope template ns with
  | zero =>
    refine (h 0).renderAll scope ns hscope (fun _ _ _ => trivial) fun scope t _ _ _ => ?_
    exact htooDeep scope
  | succ n ih =>
    refine (h (n + 1)).renderAll scope ns hscope (fun _ _ _ => trivial) fun scope t hscope _ _ => ?_
    show J String scope (expand settings (Render.deeper settings n) scope t.value) fun _ => True
    rw [expand_eq]
    refine (h n).andThen scope _ _ _ _ (hsupply scope t.value) fun found _ => ?_
    cases found with
    | none => exact (h n).result scope "" _ trivial
    | some c => exact ih hscope c.template c.nodes

/-! ## Properties that rendering keeps -/

namespace Writer

/-- A property of writers that all that is done with them in rendering keeps. -/
structure Lasting (settings : Settings) (I : Writer → Prop) : Prop where
  compile : ∀ w t c w', I w → w.compile settings.delimiters t = .ok (c, w') → I w'
  load : ∀ w name l t c w', I w → w.loader = some l → l.load name = .ok (some t) →
    w.compile settings.delimiters t = .ok (c, w') →
      I { w' with partials := w'.partials.insert name c }
  blank : ∀ w v, I w → I (w.keepBlank v)

/-- Two writers are one and the same, and have a property. -/
def Same (I : Writer → Prop) (w w' : Writer) : Prop := w = w' ∧ I w'

variable {settings : Settings} {I : Writer → Prop} {α : Type} {act : Render Writer α}
  {s : State Writer} {name : String}

theorem agree_same (h : ∀ s, I s.writer → I (act.runFrom s).2.writer) :
    Agree (Same I) Eq act act := by
  rintro ⟨w, memo, tally, log⟩ ⟨w', memo', tally', log'⟩ ⟨⟨hw, hI⟩, hmemo, htally, hlog⟩
  cases hw
  cases hmemo
  cases htally
  cases hlog
  exact ⟨SameResult.refl _, ⟨rfl, h _ hI⟩, rfl, rfl, rfl⟩

/-- A computation that agrees with itself on writers with a property keeps the property. -/
theorem keeps_of_agree (h : Agree (Same I) Eq act act) (hs : I s.writer) :
    I (act.runFrom s).2.writer :=
  (h s s ⟨⟨rfl, hs⟩, rfl, rfl, rfl⟩).2.store.2

namespace Lasting

theorem agree_compile (h : Lasting settings I) (t : String) :
    Agree (Same I) Eq (Render.compile settings t) (Render.compile settings t) := by
  refine agree_same fun s hs => ?_
  cases hc : s.writer.compile settings.delimiters t with
  | error e =>
    rw [runFrom_compile_error hc]
    exact hs
  | ok given =>
    rw [runFrom_compile_ok hc]
    exact h.compile _ t _ _ hs hc

theorem fetch (h : Lasting settings I) {r : Except Error Unit} {s' : State Writer}
    (hs : I s.writer) (hfetched : Fetched settings name s r s') : I s'.writer := by
  cases hfetched with
  | loaded hp hl hload hc => exact h.load _ name _ _ _ _ hs hl hload hc
  | _ => exact hs

theorem agree_acceptBlank (h : Lasting settings I) (v : Value) :
    Agree (Same I) Eq (Render.acceptBlank settings v) (Render.acceptBlank settings v) := by
  refine agree_same fun s hs => ?_
  obtain ⟨r, w, hrun, hw⟩ := runFrom_acceptBlank settings v s
  rw [hrun]
  rcases hw with rfl | rfl
  · exact hs
  · exact h.blank _ v hs

theorem agree_sourceText (h : Lasting settings I) {d d' : Deeper Writer}
    (hd : d.Alike (Same I) d') (scope : Scope) (v : Value) :
    Agree (Same I) Eq (Render.sourceText settings d scope v)
      (Render.sourceText settings d' scope v) := by
  have blank (v : Value) : Agree (Same I) Eq (do Render.acceptBlank settings v; return "")
      (do Render.acceptBlank settings v; return "") :=
    (h.agree_acceptBlank v).bindEq fun _ => agree_pure rfl
  cases v with
  | str t =>
    exact (h.agree_compile t).bindEq fun c => Node.agree_renderAll hd c.template scope c.nodes
  | _ => exact blank _

theorem agree_expand (h : Lasting settings I) {d d' : Deeper Writer}
    (hd : d.Alike (Same I) d') (scope : Scope) (name : String) :
    Agree (Same I) Eq (Render.expand settings d scope name)
      (Render.expand settings d' scope name) := by
  refine (agree_same fun s hs => h.fetch hs (fetched settings name s)).bindEq fun _ => ?_
  refine agree_get_bind fun s s' hs => ?_
  rw [hs.store.1]
  cases s'.writer.partials.find? name with
  | none => exact agree_pure rfl
  | some c => exact Node.agree_renderAll hd c.template scope c.nodes

theorem alike_deeper (h : Lasting settings I) (n : Nat) :
    (deeper settings n).Alike (Same I) (deeper settings n) := by
  have escape (n : Nat) (w w' : Writer) (hw : Same I w w') :
      (deeper settings n).escape w = (deeper settings n).escape w' := by
    rw [hw.1]
  induction n with
  | zero => exact ⟨escape 0, fun _ => agree_applyFlat, fun _ _ => agree_throw _⟩
  | succ n ih =>
    refine ⟨escape (n + 1), fun scope callee args => ?_,
      fun scope name => h.agree_expand ih scope name⟩
    exact agree_apply ih (h.agree_sourceText ih scope) scope callee args

/-- What is found for a name is what a writer with the property may know, and asking fails only as
it does for such a writer. -/
theorem ends_supply (h : Lasting settings I) {E : Error → Prop} {Q : Compiled → Prop}
    (hknown : ∀ w c, I w → w.partials.find? name = some c → Q c)
    (herror : ∀ s e s', I s.writer → Fetched settings name s (.error e) s' → E e) (scope : Scope) :
    Judgement.ends I E (Option Compiled) scope (supply settings name) fun found =>
      ∀ c ∈ found, Q c := by
  intro s hs
  obtain ⟨r, s', hfetched⟩ := exists_fetched settings name s
  have hleft : Keeps I scope s' :=
    ⟨h.fetch hs.store hfetched, fun key v hv => hs.memo key v (hfetched.same.1 ▸ hv)⟩
  rw [hfetched.supply_eq]
  cases r with
  | ok _ =>
    refine ⟨hleft, ?_, nofun⟩
    rintro _ ⟨⟩ c hc
    exact hknown _ c hleft.store hc
  | error e =>
    refine ⟨hleft, nofun, ?_⟩
    rintro _ ⟨⟩
    exact herror s e s' hs.store hfetched

end Lasting

end Writer

/-! ## What may be put in -/

/-- The loader after partials have been taken over. -/
def Partials.loaderAfter (partials : Partials) (loader : Option Loader) : Option Loader :=
  match partials with
  | .loader l => some l
  | _ => loader

/-- The partials that are given by name. -/
def Partials.listed : Partials → List (String × String)
  | .named entries => entries
  | _ => []

/-- A text may become the partial of a name: it is given by name, or the loader that is in place
then gives it. -/
def Partials.Offers (partials : Partials) (loader : Option Loader) (name t : String) : Prop :=
  (name, t) ∈ partials.listed ∨
    ∃ l, partials.loaderAfter loader = some l ∧ l.load name = .ok (some t)

namespace Writer

/-- The tree that a writer has of a template: the one that it knows, or else the one that reading
gives. -/
def treeOf (spec : Delimiters.Spec) (w : Writer) (t : String) : Except TemplateError (List Node) :=
  match w.templates.find? t with
  | some c => .ok c.nodes
  | none => Template.parseWith spec t

/-- A tree may be put in for a name while something is rendered with some partials: it is that of
the partial that is known, or of a text that may become the partial. -/
def MayPutIn (spec : Delimiters.Spec) (w : Writer) (partials : Partials) (name : String)
    (ns : List Node) : Prop :=
  (∃ c, w.partials.find? name = some c ∧ c.nodes = ns) ∨
    ∃ t, partials.Offers w.loader name t ∧ w.treeOf spec t = .ok ns

/-- A writer reads and escapes like another one, and its partials are such as the other one may put
in. -/
structure Serves (spec : Delimiters.Spec) (w₀ : Writer) (partials : Partials)
    (loader : Option Loader) (w : Writer) : Prop where
  escape : w.escape = w₀.escape
  loader : w.loader = loader
  trees : ∀ t, w.treeOf spec t = w₀.treeOf spec t
  partials : ∀ name c, w.partials.find? name = some c → w₀.MayPutIn spec partials name c.nodes

variable {spec : Delimiters.Spec} {settings : Settings} {w₀ w w' : Writer} {t name : String}
  {c : Compiled} {partials : Partials} {loader : Option Loader}

/-- Compiling adds to what is known, and leaves the way of escaping and the loader. -/
theorem same_of_compile (h : w.compile spec t = .ok (c, w')) :
    w'.escape = w.escape ∧ w'.loader = w.loader ∧ w'.blanks = w.blanks := by
  rcases compile_cases h with ⟨-, rfl⟩ | ⟨nodes, -, -, -, rfl⟩
  · exact ⟨rfl, rfl, rfl⟩
  · exact ⟨rfl, rfl, rfl⟩

theorem partials_of_compile (h : w.compile spec t = .ok (c, w')) : w'.partials = w.partials := by
  rcases compile_cases h with ⟨-, rfl⟩ | ⟨nodes, -, -, -, rfl⟩ <;> rfl

theorem compile_eq_error_iff_treeOf {e : TemplateError} :
    w.compile spec t = .error e ↔ w.treeOf spec t = .error e := by
  rw [compile_eq_error_iff, treeOf]
  cases w.templates.find? t with
  | some c => simp
  | none => simp

/-- Compiling gives the tree that the writer has, and the writer then has the same trees. -/
theorem treeOf_of_compile (h : w.compile spec t = .ok (c, w')) :
    w.treeOf spec t = .ok c.nodes ∧ ∀ u, w'.treeOf spec u = w.treeOf spec u := by
  rcases compile_cases h with ⟨hf, rfl⟩ | ⟨nodes, hf, hp, rfl, rfl⟩
  · exact ⟨by rw [treeOf, hf], fun _ => rfl⟩
  · refine ⟨by rw [treeOf, hf, hp], fun u => ?_⟩
    rw [treeOf, treeOf, keep, Table.find?_insert]
    by_cases hu : u = t
    · rw [if_pos hu, hu, hf, hp]
    · rw [if_neg hu]

theorem Serves.compile (h : w₀.Serves spec partials loader w)
    (hc : w.compile spec t = .ok (c, w')) : w₀.Serves spec partials loader w' where
  escape := (same_of_compile hc).1.trans h.escape
  loader := (same_of_compile hc).2.1.trans h.loader
  trees u := ((treeOf_of_compile hc).2 u).trans (h.trees u)
  partials name e he := h.partials name e (partials_of_compile hc ▸ he)

/-- Making an offered text the partial of its name. -/
theorem Serves.register (h : w₀.Serves spec partials loader w)
    (hoffers : partials.Offers w₀.loader name t) (hc : w.compile spec t = .ok (c, w')) :
    w₀.Serves spec partials loader { w' with partials := w'.partials.insert name c } where
  escape := (h.compile hc).escape
  loader := (h.compile hc).loader
  trees := (h.compile hc).trees
  partials key e he := by
    rw [Table.find?_insert] at he
    by_cases hkey : key = name
    · rw [if_pos hkey] at he
      cases he
      rw [hkey]
      exact .inr ⟨t, hoffers, (h.trees t).symm.trans (treeOf_of_compile hc).1⟩
    · rw [if_neg hkey] at he
      exact (h.compile hc).partials key e he

/-- **Rendering changes nothing about what is read and put in.** -/
theorem lasting_serves (settings : Settings) (w₀ : Writer) (partials : Partials) :
    Lasting settings
      (w₀.Serves settings.delimiters partials (partials.loaderAfter w₀.loader)) where
  compile _ _ _ _ h hc := h.compile hc
  load _ _ l _ _ _ h hl hload hc := h.register (.inr ⟨l, h.loader.symm.trans hl, hload⟩) hc
  blank _ _ h := ⟨h.escape, h.loader, h.trees, h.partials⟩

theorem serves_self (spec : Delimiters.Spec) (w : Writer) (partials : Partials) :
    w.Serves spec partials w.loader w :=
  ⟨rfl, rfl, fun _ => rfl, fun _ c hc => .inl ⟨c, hc, rfl⟩⟩

/-- What taking over partials comes to: all of them are then such as may be put in, or one of those
that are given by name cannot be read. -/
structure Accepts (settings : Settings) (w₀ : Writer) (partials : Partials)
    (loader : Option Loader) (s : State Writer) (o : Except Error Unit × State Writer) : Prop where
  memo : o.2.memo = s.memo
  tally : o.2.tally = s.tally
  result : (o.1 = .ok () ∧ w₀.Serves settings.delimiters partials loader o.2.writer) ∨
    ∃ entry ∈ partials.listed, ∃ e, o.1 = .error (.template e) ∧
      w₀.treeOf settings.delimiters entry.2 = .error e

theorem Serves.accepts_named {entries : List (String × String)} {s : State Writer}
    (hlisted : ∀ entry ∈ entries, entry ∈ partials.listed)
    (h : w₀.Serves settings.delimiters partials loader s.writer) :
    Accepts settings w₀ partials loader s ((accept settings (.named entries)).runFrom s) := by
  induction entries generalizing s with
  | nil => exact ⟨rfl, rfl, .inl ⟨rfl, h⟩⟩
  | cons entry entries ih =>
    obtain ⟨hentry, hentries⟩ := List.forall_mem_cons.1 hlisted
    show Accepts settings w₀ partials loader s
      ((Render.register settings entry.1 entry.2 >>= fun _ =>
        accept settings (.named entries)).runFrom s)
    rw [runFrom_bind]
    cases hc : s.writer.compile settings.delimiters entry.2 with
    | error e =>
      rw [runFrom_register_error hc]
      refine ⟨rfl, rfl, .inr ⟨entry, hentry, e, rfl, ?_⟩⟩
      exact (h.trees entry.2).symm.trans (compile_eq_error_iff_treeOf.1 hc)
    | ok given =>
      rw [runFrom_register_ok hc]
      have hnext : w₀.Serves settings.delimiters partials loader
          { given.2 with partials := given.2.partials.insert entry.1 given.1 } :=
        h.register (.inl hentry) hc
      obtain ⟨hmemo, htally, hresult⟩ := ih hentries (s := { s with writer :=
        { given.2 with partials := given.2.partials.insert entry.1 given.1 } }) hnext
      exact ⟨hmemo, htally, hresult⟩

/-- **Taking over partials** makes those known that are given by name, and puts a loader in place.
-/
theorem Serves.accepts {s : State Writer}
    (h : w₀.Serves settings.delimiters partials w₀.loader s.writer) :
    Accepts settings w₀ partials (partials.loaderAfter w₀.loader) s
      ((accept settings partials).runFrom s) := by
  cases partials with
  | none => exact ⟨rfl, rfl, .inl ⟨rfl, h⟩⟩
  | loader l => exact ⟨rfl, rfl, .inl ⟨rfl, h.escape, rfl, h.trees, h.partials⟩⟩
  | named entries => exact h.accepts_named fun _ hentry => hentry

end Writer

namespace Render

/-- Compiles a template and takes over the partials that are given. What is left of rendering is to
go through the tree. -/
def prepare (settings : Settings) (text : String) (partials : Partials) :
    Render Writer Compiled := do
  let c ← compile settings text
  accept settings partials
  return c

theorem template_eq (settings : Settings) (limit : Nat) (text : String) (partials : Partials)
    (scope : Scope) :
    template settings limit text partials scope = prepare settings text partials >>= fun c =>
      Node.renderAll (deeper settings limit) c.template scope c.nodes := by
  simp only [template, call, prepare, bind_assoc, pure_bind]

/-- What preparing to render comes to: the template cannot be read, or one of the partials that are
given by name cannot, or there is the tree that the writer has of the template, and a writer that
serves like the one at first. -/
inductive Prepared (settings : Settings) (text : String) (partials : Partials) (s : State Writer) :
    Except Error Compiled → State Writer → Prop
  | unreadable {e : TemplateError} {s' : State Writer}
      (htext : s.writer.treeOf settings.delimiters text = .error e) :
      Prepared settings text partials s (.error (.template e)) s'
  | refused {entry : String × String} {e : TemplateError} {s' : State Writer}
      (hentry : entry ∈ partials.listed)
      (hread : s.writer.treeOf settings.delimiters entry.2 = .error e) :
      Prepared settings text partials s (.error (.template e)) s'
  | ready {c : Compiled} {s' : State Writer}
      (htext : s.writer.treeOf settings.delimiters text = .ok c.nodes) (hmemo : s'.memo = s.memo)
      (hserves : s.writer.Serves settings.delimiters partials
        (partials.loaderAfter s.writer.loader) s'.writer) :
      Prepared settings text partials s (.ok c) s'

/-- **How rendering a template begins.** -/
theorem prepared (settings : Settings) (text : String) (partials : Partials) (s : State Writer) :
    Prepared settings text partials s ((prepare settings text partials).runFrom s).1
      ((prepare settings text partials).runFrom s).2 := by
  rw [prepare, runFrom_bind]
  cases hc : s.writer.compile settings.delimiters text with
  | error e =>
    rw [runFrom_compile_error hc]
    exact .unreadable (Writer.compile_eq_error_iff_treeOf.1 hc)
  | ok given =>
    obtain ⟨c, w⟩ := given
    have hserves := (Writer.serves_self settings.delimiters s.writer partials).compile hc
    have haccepts := hserves.accepts (s := { s with writer := w })
    rw [runFrom_compile_ok hc]
    dsimp only
    rw [runFrom_bind]
    rcases hr : (accept settings partials).runFrom { s with writer := w } with ⟨r, s'⟩
    rw [hr] at haccepts
    obtain ⟨hmemo, -, ⟨rfl, hafter⟩ | ⟨entry, hentry, e, rfl, hread⟩⟩ := haccepts
    · exact .ready (Writer.treeOf_of_compile hc).1 hmemo hafter
    · exact .refused hentry hread

end Render

end Mustache
