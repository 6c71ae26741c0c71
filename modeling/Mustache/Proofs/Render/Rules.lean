import Mustache.Proofs.Render.Chronicle
import Mustache.Proofs.Render.Composed
import Mustache.Proofs.Render.Journal
import Mustache.Proofs.Render.Supply
import Mustache.Proofs.Template.Order

/-!
# What is done in the course of what

Rendering a template evaluates the nodes of its tree. Evaluating a section looks its name up; then
either what the section holds is evaluated, or a callable is called, once, with the source of the
section, and then nothing that the section holds is evaluated. In the body of a function there are
calls only, and it is the helper of a section that renders again: the source that it is given.

**Idea.** `Trace.Proper` has one rule for each way in which something is done, in the place where it
is done. What a computation adds to the page is said together with its result (`Journal.Adds`), and
this passes along computations in a row. The bodies of functions are gone through by the judgement
that they add calls only (`Journal.calls`); trees and levels by induction.

A template that is rendered was read from its own text, for a writer keeps no other
(`Writer.Reads`). The one that a step is called with may have been put together by hand.

Main statements: `Journal.adds_call` and `Journal.adds_template`.
-/

namespace Mustache

open Render

/-! ## Templates that were read -/

/-- The tree of a compiled template is what its text was read as. -/
def Compiled.IsRead (c : Compiled) : Prop :=
  ∃ spec, Template.parseWith spec c.template = .ok c.nodes

/-- A writer keeps what was read, each template under its own text. -/
structure Writer.Reads (w : Writer) : Prop where
  templates : ∀ t c, w.templates.find? t = some c → c.template = t ∧ c.IsRead
  partials : ∀ name c, w.partials.find? name = some c → c.IsRead

namespace Writer.Reads

variable {w w' : Writer} {spec : Delimiters.Spec} {settings : Settings} {t name : String}
  {c : Compiled} {s : State Writer}

theorem compile (h : w.Reads) (hc : w.compile spec t = .ok (c, w')) : w'.Reads := by
  rcases Writer.compile_cases hc with ⟨-, rfl⟩ | ⟨nodes, -, hp, rfl, rfl⟩
  · exact h
  · refine ⟨fun u e he => ?_, h.partials⟩
    rcases Writer.find?_keep he with ⟨rfl, rfl⟩ | ⟨-, he⟩
    · exact ⟨rfl, spec, hp⟩
    · exact h.templates u e he

theorem register (h : w.Reads) (hf : w.templates.find? t = some c) (name : String) :
    { w with partials := w.partials.insert name c }.Reads := by
  refine ⟨h.templates, fun key e he => ?_⟩
  rw [Table.find?_insert] at he
  split at he
  · cases he
    exact (h.templates t c hf).2
  · exact h.partials key e he

/-- Nothing that is done with a writer makes it keep anything else. -/
theorem stable (settings : Settings) : Chronicle.Stable settings fun ch => ch.writer.Reads where
  compiled _ _ _ _ h hc := h.compile hc
  registered _ name _ _ h hf := h.register hf name
  blank _ _ h _ _ := ⟨h.templates, h.partials⟩
  knownBlank _ _ h _ := h

theorem after_compile (h : s.writer.Reads) :
    ((Render.compile settings t).runFrom s).2.writer.Reads ∧
      ∀ c, ((Render.compile settings t).runFrom s).1 = .ok c → c.template = t ∧ c.IsRead := by
  cases hc : s.writer.compile settings.delimiters t with
  | error e =>
    rw [runFrom_compile_error hc]
    exact ⟨h, nofun⟩
  | ok given =>
    rw [runFrom_compile_ok hc]
    refine ⟨h.compile hc, ?_⟩
    rintro _ ⟨⟩
    exact (h.compile hc).templates t _ (Writer.find?_of_compile hc)

theorem after_accept (h : s.writer.Reads) (partials : Partials) :
    ((accept settings partials).runFrom s).2.writer.Reads :=
  Chronicle.holds_of_agree ((stable settings).agree_accept fun _ _ _ h => ⟨h.templates, h.partials⟩)
    h

theorem after_acceptBlank (h : s.writer.Reads) (v : Value) :
    ((acceptBlank settings v).runFrom s).2.writer.Reads :=
  Chronicle.holds_of_agree ((stable settings).agree_acceptBlank v) h

theorem after_supply (h : s.writer.Reads) :
    ((supply settings name).runFrom s).2.writer.Reads ∧
      ∀ c, ((supply settings name).runFrom s).1 = .ok (some c) → c.IsRead := by
  have hleft := Chronicle.holds_of_agree ((stable settings).agree_fetch name) h
  rw [(fetched settings name s).supply_eq]
  refine ⟨hleft, fun c hc => ?_⟩
  cases hr : ((fetch settings name).runFrom s).1 with
  | error e =>
    rw [hr] at hc
    cases hc
  | ok _ =>
    rw [hr] at hc
    exact hleft.partials name c (Except.ok.inj hc)

end Writer.Reads

/-! ## The rules -/

namespace Trace

/-- What was done in the course of something. -/
def inner : Trace → List Trace
  | rendered _ inner _ => inner
  | evaluated _ _ inner _ => inner
  | looked _ inner _ => inner
  | called _ _ inner _ => inner

/-- The text that something put out. -/
def text : Trace → String
  | rendered _ _ (.ok text) => text
  | evaluated _ _ _ (.ok text) => text
  | _ => ""

/-- What was put out by some things, one after another. -/
def texts (ts : List Trace) : String := String.join (ts.map text)

/-- Where something is done: on its own, to find what a section's name stands for, in the course of
a call, or as a part of rendering a template. -/
inductive Place
  | alone
  | name
  | call
  | tree (c : Compiled)

/-- Something is done as it has to be where it is done, and `read` holds of all templates that are
rendered. -/
inductive Proper (read : Compiled → Prop) : Place → Trace → Prop
  /-- A template's tree is gone through, and what its nodes put out is put out. -/
  | rendered {c : Compiled} {inner : List Trace} {result : Except Error String} (hc : read c)
      (hinner : ∀ y ∈ inner, Proper read (.tree c) y)
      (htext : ∀ text, result = .ok text → text = texts inner) :
      Proper read .alone (.rendered c inner result)
  /-- In the body of a function there are calls only. -/
  | called {callee : Value} {args : List Value} {inner : List Trace} {result : Except Error Value}
      (hinner : ∀ y ∈ inner, Proper read .call y) :
      Proper read .call (.called callee args inner result)
  /-- The helper of a section renders the source that it is given. -/
  | helper {c : Compiled} {inner : List Trace} {result : Except Error String}
      (hx : Proper read .alone (.rendered c inner result)) :
      Proper read .call
        (.called .renderer [.str c.template] [.rendered c inner result] (result.map .str))
  | looked {name : String} {inner : List Trace} {result : Except Error Value}
      (hinner : ∀ y ∈ inner, Proper read .call y) : Proper read .name (.looked name inner result)
  | leaf {c : Compiled} {t : Token} {scope : Scope} {inner : List Trace}
      {result : Except Error String} (hn : .leaf t ∈ Node.preorder c.nodes)
      (hinner : ∀ y ∈ inner, Proper read .call y) :
      Proper read (.tree c) (.evaluated (.leaf t) scope inner result)
  | putIn {c e : Compiled} {t : Token} {scope : Scope} {inner : List Trace}
      {result : Except Error String} (hn : .leaf t ∈ Node.preorder c.nodes)
      (ht : t.kind = .partialTag) (hx : Proper read .alone (.rendered e inner result)) :
      Proper read (.tree c) (.evaluated (.leaf t) scope [.rendered e inner result] result)
  /-- The name of a section could not be looked up. -/
  | astray {c : Compiled} {t : Token} {children : List Node} {close : Nat} {scope : Scope}
      {looks : List Trace} {e : Error} (hn : .block t children close ∈ Node.preorder c.nodes)
      (hlook : Proper read .name (.looked t.value looks (.error e))) :
      Proper read (.tree c) (.evaluated (.block t children close) scope
        [.looked t.value looks (.error e)] (.error e))
  /-- The name of a section stands for a callable, which is called once, with the section's
  source. -/
  | handed {c : Compiled} {t : Token} {children : List Node} {close : Nat} {scope : Scope}
      {looks calls : List Trace} {v : Value} {answer : Except Error Value}
      (hn : .block t children close ∈ Node.preorder c.nodes) (ht : t.kind ≠ .invertedTag)
      (hlook : Proper read .name (.looked t.value looks (.ok v))) (hv : v.isCallable = true)
      (hcall : Proper read .call (.called v
        (sectionArguments scope (source c.template t.stop close) v.required) calls answer)) :
      Proper read (.tree c) (.evaluated (.block t children close) scope
        [.looked t.value looks (.ok v), .called v
          (sectionArguments scope (source c.template t.stop close) v.required) calls answer]
        (answer >>= shown))
  /-- What a section holds is evaluated, any number of times. -/
  | entered {c : Compiled} {t : Token} {children : List Node} {close : Nat} {scope : Scope}
      {looks inner : List Trace} {v : Value} {result : Except Error String}
      (hn : .block t children close ∈ Node.preorder c.nodes)
      (hlook : Proper read .name (.looked t.value looks (.ok v)))
      (hv : t.kind = .invertedTag ∨ v.isCallable = false)
      (hinner : ∀ y ∈ inner, Proper read (.tree c) y)
      (htext : ∀ text, result = .ok text → text = texts inner) :
      Proper read (.tree c) (.evaluated (.block t children close) scope
        (.looked t.value looks (.ok v) :: inner) result)

theorem texts_append (ts us : List Trace) : texts (ts ++ us) = texts ts ++ texts us := by
  rw [texts, List.map_append, String.join_append, texts, texts]

end Trace

namespace Journal

open Trace

variable {α β : Type}

/-! ## What is added to the page -/

/-- A computation adds some traces to the page, of which `P` holds together with the result and the
tally at that time. The writer keeps only what was read. -/
def AddsThen (P : Tally → List Trace → Except Error α → Prop) (m : Render Journal α) : Prop :=
  ∀ ts, Leads (fun s => s.writer.writer.Reads ∧ s.writer.traces = ts) m fun r s =>
    s.writer.writer.Reads ∧ ∃ new, s.writer.traces = ts ++ new ∧ P s.tally new r

/-- A computation adds some traces to the page, of which `P` holds together with the result,
whatever the tally. -/
abbrev Adds (P : List Trace → Except Error α → Prop) (m : Render Journal α) : Prop :=
  AddsThen (fun _ => P) m

section Adds

variable {m : Render Journal α} {k : α → Render Journal β}
  {P : List Trace → Except Error α → Prop} {PT PT' : Tally → List Trace → Except Error α → Prop}
  {Q : List Trace → Except Error β → Prop}

theorem adds_pure {a : α} (h : P [] (.ok a)) : Adds P (pure a) :=
  fun _ => leads_pure fun _ hs => ⟨hs.1, [], by rw [hs.2, List.append_nil], h⟩

theorem adds_throw {e : Error} (h : P [] (.error e)) : Adds P (throw e) :=
  fun _ => leads_throw fun _ hs => ⟨hs.1, [], by rw [hs.2, List.append_nil], h⟩

theorem AddsThen.mono (h : AddsThen PT m) (hP : ∀ tally new r, PT tally new r → PT' tally new r) :
    AddsThen PT' m := by
  intro ts s hs
  obtain ⟨hreads, new, hnew, hr⟩ := h ts s hs
  exact ⟨hreads, new, hnew, hP _ new _ hr⟩

theorem AddsThen.bind (h : Adds P m)
    (hk : ∀ a new, P new (.ok a) → Adds (fun more r => Q (new ++ more) r) (k a))
    (herror : ∀ e new, P new (.error e) → Q new (.error e)) : Adds Q (m >>= k) := by
  intro ts
  refine Leads.bind (h ts) (fun a s hs => ?_) fun e s hs => ?_
  · obtain ⟨hreads, new, hnew, ha⟩ := hs
    obtain ⟨hreads', more, hmore, hr⟩ := hk a new ha (ts ++ new) s ⟨hreads, hnew⟩
    exact ⟨hreads', new ++ more, by rw [hmore, List.append_assoc], hr⟩
  · obtain ⟨hreads, new, hnew, he⟩ := hs
    exact ⟨hreads, new, hnew, herror e new he⟩

/-- What is made of a result is made of it as it is when it is there. -/
theorem AddsThen.bind_ofCurrent (h : AddsThen PT m) {f : α → Value}
    {g : Value → Except Error β}
    (hQ : ∀ tally new r, PT tally new r → Q new (r >>= fun a => g ((f a).current tally))) :
    Adds Q (m >>= fun a => ofCurrent g (f a)) := by
  intro ts s hs
  obtain ⟨hreads, new, hnew, hr⟩ := h ts s hs
  rw [runFrom_bind]
  rcases hm : m.runFrom s with ⟨x, left⟩
  rw [hm] at hreads hnew hr
  cases x with
  | ok a => exact ⟨hreads, new, hnew, hQ _ _ _ hr⟩
  | error e => exact ⟨hreads, new, hnew, hQ _ _ _ hr⟩

/-- What leaves the store alone adds nothing. -/
theorem adds_of_quiet (h : ∀ s, (m.runFrom s).2.writer = s.writer) (hP : ∀ r, P [] r) :
    Adds P m := by
  rintro ts s ⟨hreads, hts⟩
  rw [h s]
  exact ⟨hreads, [], by rw [hts, List.append_nil], hP _⟩

theorem adds_get_bind {k : State Journal → Render Journal α} (h : ∀ s, Adds P (k s)) :
    Adds P (get >>= k) :=
  fun ts s hs => h s ts s hs

theorem adds_current_bind {v : Value} {k : Value → Render Journal α}
    (h : ∀ tally, Adds P (k (v.current tally))) : Adds P (current v >>= k) :=
  fun ts s hs => h s.tally ts s hs

theorem AddsThen.inChild (h : Adds P m) : Adds P (inChild m) :=
  fun ts s hs => h ts { s with memo := ∅ } hs

theorem AddsThen.entering (h : AddsThen PT m)
    (entry : Tally → List Trace → Except Error α → Trace) :
    AddsThen (fun tally new r => ∃ inner, PT tally inner r ∧ new = [entry tally inner r])
      (entering entry m) := by
  rintro ts s ⟨hreads, rfl⟩
  obtain ⟨hleft, new, hnew, hr⟩ := h [] (page s []) ⟨hreads, rfl⟩
  refine ⟨hleft, _, rfl, new, hr, ?_⟩
  rw [← List.nil_append new, ← hnew]
  rfl

/-- What is only done with the writer adds nothing. -/
theorem adds_onWriter {act : Render Writer α} {R : Except Error α → Prop}
    (h : ∀ s, s.writer.Reads → (act.runFrom s).2.writer.Reads ∧ R (act.runFrom s).1) :
    Adds (fun new r => new = [] ∧ R r) (onWriter act) := by
  rintro ts s ⟨hreads, hts⟩
  obtain ⟨hleft, hr⟩ := h ⟨s.writer.writer, s.memo, s.tally, s.log⟩ hreads
  exact ⟨hleft, [], hts.trans (List.append_nil ts).symm, rfl, hr⟩

theorem adds_compile (settings : Settings) (t : String) :
    Adds (fun new r => new = [] ∧ ∀ c : Compiled, r = .ok c → c.template = t ∧ c.IsRead)
      (onWriter (Render.compile settings t)) :=
  adds_onWriter (R := fun r => ∀ c : Compiled, r = .ok c → c.template = t ∧ c.IsRead)
    fun _ h => h.after_compile

theorem adds_supply (settings : Settings) (name : String) :
    Adds (fun new r => new = [] ∧ ∀ c : Compiled, r = .ok (some c) → c.IsRead)
      (onWriter (supply settings name)) :=
  adds_onWriter (R := fun r => ∀ c : Compiled, r = .ok (some c) → c.IsRead)
    fun _ h => h.after_supply

end Adds

variable {read : Compiled → Prop}

/-- A computation adds calls only. -/
def calls (read : Compiled → Prop) : Judgement Journal := fun _ _ m Q =>
  AddsThen (fun _ new r => (∀ y ∈ new, Proper read .call y) ∧ ∀ a, r = .ok a → Q a) m

theorem composes_calls : (calls read).Composes where
  result scope a Q ha := adds_pure ⟨nofun, by rintro _ ⟨⟩; exact ha⟩
  error scope e Q := adds_throw ⟨nofun, nofun⟩
  andThen scope m k Q R hm hk := by
    refine AddsThen.bind hm (fun a new ha => ?_) fun e new he => ⟨he.1, nofun⟩
    exact (hk a (ha.2 a rfl)).mono fun _ more r hr => ⟨List.forall_mem_append.2 ⟨ha.1, hr.1⟩, hr.2⟩
  tallied scope f Q hQ := by
    rintro ts s ⟨hreads, hts⟩
    exact ⟨hreads, [], hts.trans (List.append_nil ts).symm, nofun, hQ s.tally⟩
  recorded scope label args := by
    refine adds_of_quiet (fun s => ?_) fun _ => ⟨nofun, fun _ _ => trivial⟩
    rw [recordCall, runFrom_get_bind]
    dsimp only
    split <;> rfl

/-! ## Trees -/

/-- A template was rendered, and the result is what that gave; or else nothing was done. -/
def Renders (read : Compiled → Prop) (new : List Trace) (r : Except Error String) : Prop :=
  new = [] ∨ ∃ c inner, new = [.rendered c inner r] ∧ Proper read .alone (.rendered c inner r)

/-- A value was given to the helper of a section: nothing was rendered, or the source that the value
is. -/
def RendersSource (read : Compiled → Prop) (v : Value) (new : List Trace)
    (r : Except Error String) : Prop :=
  new = [] ∨ ∃ c inner, v = .str c.template ∧ new = [.rendered c inner r] ∧
    Proper read .alone (.rendered c inner r)

/-- What is called on the level below is entered as a call, and what is put in there is a template
that is rendered. -/
structure Enters (read : Compiled → Prop) (d : Deeper Journal) : Prop where
  apply : ∀ scope callee args, AddsThen
    (fun tally new r => ∃ inner, new = [.called callee args inner (Value.current tally <$> r)] ∧
      Proper read .call (.called callee args inner (Value.current tally <$> r)))
    (d.apply scope callee args)
  expand : ∀ scope name, Adds (Renders read) (d.expand scope name)

/-- Some nodes of a template were evaluated, and the result is what they put out. -/
def Evaluates (read : Compiled → Prop) (c : Compiled) (new : List Trace)
    (r : Except Error String) : Prop :=
  (∀ y ∈ new, Proper read (.tree c) y) ∧ ∀ text, r = .ok text → text = texts new

section Trees

variable {d : Deeper Journal} {c : Compiled}

theorem evaluates_empty : Evaluates read c [] (.ok "") := ⟨nofun, by rintro _ ⟨⟩; rfl⟩

/-- What is put out in a row is joined. -/
theorem adds_inRow {m k : Render Journal String} (hm : Adds (Evaluates read c) m)
    (hk : Adds (Evaluates read c) k) :
    Adds (Evaluates read c) (do let first ← m; let others ← k; return first ++ others) := by
  refine hm.bind (fun first new hnew => ?_) fun e new he => ⟨he.1, nofun⟩
  refine hk.bind (fun others more hmore => ?_) fun e more he =>
    ⟨List.forall_mem_append.2 ⟨hnew.1, he.1⟩, nofun⟩
  refine adds_pure ⟨?_, ?_⟩
  · rw [List.append_nil]
    exact List.forall_mem_append.2 ⟨hnew.1, hmore.1⟩
  · rintro _ ⟨⟩
    rw [List.append_nil, texts_append, ← hnew.2 first rfl, ← hmore.2 others rfl]

theorem adds_joinEach {f : Value → Render Journal String} {vs : List Value}
    (hf : ∀ v, Adds (Evaluates read c) (f v)) : Adds (Evaluates read c) (joinEach f vs) := by
  induction vs with
  | nil => exact adds_pure evaluates_empty
  | cons v vs ih => exact adds_inRow (hf v) ih

theorem Enters.calls_apply (hd : Enters read d) (scope : Scope) (callee : Value)
    (args : List Value) : calls read Value scope (d.apply scope callee args) fun _ => True := by
  refine AddsThen.mono (hd.apply scope callee args) ?_
  rintro _ _ r ⟨inner, rfl, hcall⟩
  exact ⟨List.forall_mem_singleton.2 hcall, fun _ _ => trivial⟩

theorem Enters.calls_lookup (hd : Enters read d) (scope : Scope) (name : String) :
    calls read Value scope (notes.lookup d scope name) fun _ => True := by
  have h : (calls read).Composes := composes_calls
  refine adds_get_bind fun s => ?_
  cases s.memo.find? name with
  | some v => exact h.result scope v _ trivial
  | none =>
    cases scope.resolve name with
    | error e => exact h.error scope e _
    | ok found =>
      have keep (v : Value) : calls read Value scope (do remember name v; return v) fun _ => True :=
        adds_of_quiet (fun _ => rfl) fun _ => ⟨nofun, fun _ _ => trivial⟩
      dsimp only
      by_cases hc : (found.isCallable && found.required == 0) = true
      · simp only [hc, if_true]
        exact h.bind (hd.calls_apply scope found []) fun v _ => keep v
      · simp only [hc]
        exact h.bind (h.done found) fun v _ => keep v

theorem Enters.calls_variableText (hd : Enters read d) (scope : Scope) (name : String) :
    calls read String scope (notes.variableText d scope name) fun _ => True := by
  have h : (calls read).Composes := composes_calls
  refine h.bind (hd.calls_lookup scope name) fun v _ => ?_
  by_cases hc : v.isCallable = true
  · simp only [hc, if_true]
    exact h.bind (hd.calls_apply scope v _) fun v _ => h.ofCurrent shown v
  · simp only [hc]
    exact h.bind (h.done v) fun v _ => h.ofCurrent shown v

theorem Enters.leaf (hd : Enters read d) (scope : Scope) {t : Token}
    (ht : .leaf t ∈ Node.preorder c.nodes) :
    Adds (fun inner r => Proper read (.tree c) (.evaluated (.leaf t) scope inner r))
      (notes.renderLeaf d scope t) := by
  have h : (calls read).Composes := composes_calls
  have only {m : Render Journal String} (hm : calls read String scope m fun _ => True) :
      Adds (fun inner r => Proper read (.tree c) (.evaluated (.leaf t) scope inner r)) m :=
    hm.mono fun _ inner r hr => .leaf ht hr.1
  rw [Notes.renderLeaf]
  cases hk : t.kind with
  | nameTag =>
    refine only (h.bind (hd.calls_variableText scope t.value) fun text _ => ?_)
    exact adds_get_bind fun s => h.result scope _ _ trivial
  | unescapedTag => exact only (hd.calls_variableText scope t.value)
  | partialTag =>
    refine (hd.expand scope t.value).mono ?_
    rintro _ _ r (rfl | ⟨e, inner, rfl, hx⟩)
    · exact .leaf ht (List.forall_mem_nil _)
    · exact .putIn ht hk hx
  | _ => exact only (h.done _)

/-- An evaluation is entered, with what it put out. -/
theorem adds_evaluated {n : Node} {scope : Scope} {m : Render Journal String}
    (h : Adds (fun inner r => Proper read (.tree c) (.evaluated n scope inner r)) m) :
    Adds (Evaluates read c) (notes.node n scope m) := by
  refine (h.entering fun _ => .evaluated n scope).mono ?_
  rintro _ _ r ⟨inner, hx, rfl⟩
  refine ⟨List.forall_mem_singleton.2 hx, ?_⟩
  rintro text rfl
  simp [texts, Trace.text]

section Sections

variable {t : Token} {children : List Node} {close : Nat} {looks : List Trace} {v : Value}

/-- A section that renders what it holds, or nothing, is evaluated by the rules. -/
theorem adds_entered {m : Render Journal String} (scope : Scope)
    (hn : .block t children close ∈ Node.preorder c.nodes)
    (hlook : Proper read .name (.looked t.value looks (.ok v)))
    (hv : t.kind = .invertedTag ∨ v.isCallable = false) (hm : Adds (Evaluates read c) m) :
    Adds (fun more r => Proper read (.tree c) (.evaluated (.block t children close) scope
      ([.looked t.value looks (.ok v)] ++ more) r)) m :=
  hm.mono fun _ _ _ hr => .entered hn hlook hv hr.1 hr.2

/-- A section that is handed to a callable is evaluated by the rules. -/
theorem Enters.adds_handed (hd : Enters read d) (scope : Scope)
    (hn : .block t children close ∈ Node.preorder c.nodes) (ht : t.kind ≠ .invertedTag)
    (hlook : Proper read .name (.looked t.value looks (.ok v))) (hv : v.isCallable = true) :
    Adds (fun more r => Proper read (.tree c) (.evaluated (.block t children close) scope
        ([.looked t.value looks (.ok v)] ++ more) r))
      (d.apply scope v (sectionArguments scope (source c.template t.stop close) v.required) >>=
        fun result => ofCurrent shown result) := by
  refine (hd.apply scope v _).bind_ofCurrent (f := id) ?_
  rintro tally _ r ⟨calls, rfl, hcall⟩
  have hshown :
      (r >>= fun v => shown (v.current tally)) = (Value.current tally <$> r) >>= shown := by
    cases r <;> rfl
  exact hshown ▸ .handed hn ht hlook hv hcall

end Sections

mutual

theorem Enters.render (hd : Enters read d) : ∀ (scope : Scope) (n : Node),
    (∀ x ∈ Node.within n, x ∈ Node.preorder c.nodes) →
      Adds (Evaluates read c) (notes.render d c.template scope n)
  | scope, .leaf t, hn => by
    unfold Notes.render
    exact adds_evaluated (hd.leaf scope (hn _ (Node.mem_within_leaf.2 rfl)))
  | scope, .block t children close, hn => by
    have hblock : .block t children close ∈ Node.preorder c.nodes :=
      hn _ (Node.mem_within_block.2 (.inl rfl))
    have inside (scope : Scope) := Enters.renderAll hd scope children fun x hx =>
      hn x (Node.mem_within_block.2 (.inr hx))
    have empty : Adds (Evaluates read c) (pure "") := adds_pure evaluates_empty
    unfold Notes.render
    have hname := (hd.calls_lookup scope t.value).entering fun _ => .looked t.value
    refine adds_evaluated (hname.bind ?_ ?_)
    · rintro v _ ⟨looks, hlooks, rfl⟩
      have hlook : Proper read .name (.looked t.value looks (.ok v)) := .looked hlooks.1
      refine adds_current_bind fun tally => ?_
      by_cases hi : t.kind = .invertedTag
      · simp only [hi, if_true]
        refine adds_entered scope hblock hlook (.inl hi) ?_
        split
        · exact empty
        · exact inside scope
      simp only [hi, if_false]
      rw [Value.kind_current]
      by_cases hv : v.kind = .callable
      · simp only [hv, Value.current_of_kind_callable hv]
        exact hd.adds_handed scope hblock hi hlook (beq_iff_eq.2 hv)
      refine adds_entered scope hblock hlook (.inr (beq_false_of_ne hv)) ?_
      cases hk : v.kind with
      | null => exact empty
      | scalar =>
        simp only
        split
        · exact inside scope
        · exact empty
      | mapping =>
        simp only
        split
        · exact (inside _).inChild
        · exact empty
      | sequence =>
        simp only [joinItems_eq_joinEach]
        exact adds_joinEach fun item => (inside _).inChild
      | callable => exact absurd hk hv
    · rintro e _ ⟨looks, hlooks, rfl⟩
      exact .astray hblock (.looked hlooks.1)

theorem Enters.renderAll (hd : Enters read d) : ∀ (scope : Scope) (ns : List Node),
    (∀ x ∈ Node.preorder ns, x ∈ Node.preorder c.nodes) →
      Adds (Evaluates read c) (notes.renderAll d c.template scope ns)
  | scope, [], _ => by
    unfold Notes.renderAll
    exact adds_pure evaluates_empty
  | scope, n :: ns, hns => by
    unfold Notes.renderAll
    exact adds_inRow
      (Enters.render hd scope n fun x hx => hns x (Node.mem_preorder_cons.2 (.inl hx)))
      (Enters.renderAll hd scope ns fun x hx => hns x (Node.mem_preorder_cons.2 (.inr hx)))

end

theorem Enters.through (hd : Enters read d) (hc : read c) (scope : Scope) :
    Adds
      (fun new r => ∃ inner, new = [.rendered c inner r] ∧ Proper read .alone (.rendered c inner r))
      (notes.through d c scope) := by
  refine ((hd.renderAll scope c.nodes fun _ hx => hx).entering fun _ => .rendered c).mono ?_
  rintro _ _ r ⟨inner, hinner, rfl⟩
  exact ⟨inner, rfl, .rendered hc hinner.1 hinner.2⟩

end Trees

/-! ## Levels and templates -/

section Levels

variable {settings : Settings} {d : Deeper Journal}

/-- The helper renders the source that it is given, if that is a text. -/
theorem Enters.sourceText (hread : ∀ c, c.IsRead → read c) (hd : Enters read d) (scope : Scope)
    (v : Value) : Adds (RendersSource read v) (notes.sourceText settings d scope v) := by
  have blank (v : Value) :
      Adds (RendersSource read v) (do notes.blank settings v; return "") := by
    have hblank : Adds (fun new r => new = [] ∧ True) (notes.blank settings v) :=
      adds_onWriter (R := fun _ => True) fun s h => ⟨h.after_acceptBlank v, trivial⟩
    refine hblank.bind ?_ fun e new he => .inl he.1
    rintro _ _ ⟨rfl, -⟩
    exact adds_pure (.inl rfl)
  cases v with
  | str t =>
    refine (adds_compile settings _).bind ?_ fun e new he => .inl he.1
    rintro c _ ⟨rfl, hgiven⟩
    obtain ⟨rfl, hc⟩ := hgiven c rfl
    refine (hd.through (hread c hc) scope).mono ?_
    rintro _ _ r ⟨inner, rfl, hx⟩
    exact .inr ⟨c, inner, rfl, rfl, hx⟩
  | _ => exact blank _

/-- What is done in a call of any callable. -/
theorem Enters.called (hd : Enters read d) {rendered : Value → Render Journal String}
    (hrendered : ∀ v, Adds (RendersSource read v) (rendered v)) (scope : Scope) (callee : Value)
    (args : List Value) :
    Adds (fun inner r => ∀ tally : Tally,
        Proper read .call (.called callee args inner (Value.current tally <$> r)))
      (Render.apply d rendered scope callee args) := by
  have h : (calls read).Composes := composes_calls
  -- But for the helper with one argument, what the helper renders does not matter.
  have body (hsame : Render.apply d rendered scope callee args =
      Render.apply d (fun _ => throw .mismatch) scope callee args) :
      Adds (fun inner r => ∀ tally : Tally,
          Proper read .call (.called callee args inner (Value.current tally <$> r)))
        (Render.apply d rendered scope callee args) := by
    have hcalls : calls read Value scope
        (Render.apply d (fun _ => throw .mismatch) scope callee args) fun _ => True :=
      h.apply (hd.calls_apply scope) (fun _ => h.error scope _ _) callee args
    rw [hsame]
    exact hcalls.mono fun _ inner r hr _ => .called hr.1
  cases callee with
  | renderer =>
    rcases args with _ | ⟨v, _ | ⟨u, args⟩⟩
    · exact body rfl
    · rw [apply.eq_def]
      refine (hrendered v).bind ?_ ?_
      · rintro text _ (rfl | ⟨c, inner, rfl, rfl, hx⟩)
        · exact adds_pure fun _ => .called (List.forall_mem_nil _)
        · exact adds_pure fun _ => .helper hx
      · rintro e _ (rfl | ⟨c, inner, rfl, rfl, hx⟩)
        · exact fun _ => .called (List.forall_mem_nil _)
        · exact fun _ => .helper hx
    · exact body rfl
  | setMethod => exact body (by cases args <;> rfl)
  | _ => exact body rfl

theorem Enters.expanded (hread : ∀ c, c.IsRead → read c) (hd : Enters read d) (scope : Scope)
    (name : String) : Adds (Renders read) (notes.expand settings d scope name) := by
  refine (adds_supply settings name).bind ?_ fun e new he => .inl he.1
  rintro found _ ⟨rfl, hfound⟩
  cases found with
  | none => exact adds_pure (.inl rfl)
  | some c =>
    refine (hd.through (hread c (hfound c rfl)) scope).mono ?_
    rintro _ _ r ⟨inner, rfl, hx⟩
    exact .inr ⟨c, inner, rfl, hx⟩

/-- **On every level,** what is done is done by the rules. -/
theorem enters_deeper (hread : ∀ c, c.IsRead → read c) (settings : Settings) (n : Nat) :
    Enters read (notes.deeper settings n) := by
  have enter {callee : Value} {args : List Value} {m : Render Journal Value}
      (h : Adds (fun inner r => ∀ tally : Tally,
        Proper read .call (.called callee args inner (Value.current tally <$> r))) m) :
      AddsThen (fun tally new r =>
        ∃ inner, new = [.called callee args inner (Value.current tally <$> r)] ∧
          Proper read .call (.called callee args inner (Value.current tally <$> r)))
        (notes.call callee args m) := by
    refine (h.entering fun tally inner r =>
      .called callee args inner (Value.current tally <$> r)).mono ?_
    rintro tally _ r ⟨inner, hx, rfl⟩
    exact ⟨inner, rfl, hx tally⟩
  have hcomposes : (calls read).Composes := composes_calls
  induction n with
  | zero =>
    refine ⟨fun scope callee args => enter ?_, fun scope name => adds_throw (.inl rfl)⟩
    have hflat : calls read Value scope (applyFlat callee args) fun _ => True :=
      hcomposes.applyFlat callee args
    exact hflat.mono fun _ inner r hr _ => .called hr.1
  | succ n ih =>
    exact ⟨fun scope callee args => enter (ih.called (ih.sourceText hread scope) scope callee args),
      fun scope name => ih.expanded hread scope name⟩

/-- **Calling a compiled template renders it, and all is done by the rules,** whether it was read or
put together by hand. -/
theorem adds_call (hread : ∀ c, c.IsRead → read c) (settings : Settings) (n : Nat) {c : Compiled}
    (hc : read c) (partials : Partials) (scope : Scope) :
    Adds (Renders read) (notes.renderCompiled settings n c partials scope) := by
  refine (adds_onWriter (R := fun _ => True) fun s h => ⟨h.after_accept partials, trivial⟩).bind ?_
    fun e new he => .inl he.1
  rintro _ _ ⟨rfl, -⟩
  refine ((enters_deeper hread settings n).through hc scope).mono ?_
  rintro _ _ r ⟨inner, rfl, hx⟩
  exact .inr ⟨c, inner, rfl, hx⟩

/-- **Rendering a template is done by the rules.** -/
theorem adds_template (hread : ∀ c, c.IsRead → read c) (settings : Settings) (n : Nat)
    (text : String) (partials : Partials) (scope : Scope) :
    Adds (Renders read) (notes.template settings n text partials scope) := by
  refine (adds_compile settings _).bind ?_ fun e new he => .inl he.1
  rintro c _ ⟨rfl, hc⟩
  exact adds_call hread settings n (hread c (hc c rfl).2) partials scope

end Levels

end Journal

end Mustache
