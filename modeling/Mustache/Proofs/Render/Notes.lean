import Mustache.Proofs.Render.Alike

/-!
# Rendering with notes

What rendering does can be noted as it happens: around the evaluation of each node, each answer to a
name, each call, and each dealing with the writer. Here is the renderer once more, with the places
where notes can be taken. What is noted, and in what store, is a parameter, so everything that is
noted anywhere is noted by this one renderer.

**Idea.** Notes are silent for a relation of stores (`Notes.Silent`) if what is done to the writer
keeps the relation, and nothing else of rendering is changed by taking them. With silent notes,
rendering comes to what it comes to without notes, on all levels.

Main statements: `Notes.Silent.agree_call` and `Notes.Silent.agree_template`.
-/

namespace Mustache

open Render

namespace Render

/-- The partial that is put in for a name, if there is one. -/
def supply (settings : Settings) (name : String) : Render Writer (Option Compiled) := do
  fetch settings name
  return (← get).writer.partials.find? name

theorem supply_bind {α : Type} (settings : Settings) (name : String)
    (k : Option Compiled → Render Writer α) :
    supply settings name >>= k = fetch settings name >>= fun _ =>
      get >>= fun left => k (left.writer.partials.find? name) := by
  simp only [supply, bind_assoc, pure_bind]

/-- Putting in a partial is finding it, and then going through its tree. -/
theorem expand_eq (settings : Settings) (deeper : Deeper Writer) (scope : Scope) (name : String) :
    expand settings deeper scope name = supply settings name >>= fun found =>
      match found with
      | none => pure ""
      | some c => Node.renderAll deeper c.template scope c.nodes := by
  refine Eq.trans ?_ (supply_bind settings name _).symm
  rfl

end Render

/-- In what way a name was answered. -/
inductive Way
  /-- The context remembered what was found before. -/
  | remembered
  /-- What the views say was taken as it is. -/
  | found
  /-- What the views say needs no arguments, and was called. -/
  | called (callee : Value)

/-- What is noted, in some store: how the store does what is done with a writer, and what is noted
around everything else that is done. Where nothing else is said, nothing is noted. -/
structure Notes (σ : Type) where
  /-- How the store escapes. -/
  escape : Settings → σ → String → String
  /-- Compiles a template. -/
  compile : Settings → String → Render σ Compiled
  /-- Takes a value that is no text for a template. -/
  blank : Settings → Value → Render σ Unit
  /-- Takes over the partials that are given. -/
  accept : Settings → Partials → Render σ Unit
  /-- Finds the partial of a name. -/
  supply : Settings → String → Render σ (Option Compiled)
  /-- Around rendering the tree of a template. -/
  tree : Compiled → Render σ String → Render σ String := fun _ act => act
  /-- Around evaluating a node in a scope. -/
  node : Node → Scope → Render σ String → Render σ String := fun _ _ act => act
  /-- Around finding what the name of a section stands for. -/
  sectionName : String → Render σ Value → Render σ Value := fun _ act => act
  /-- Around answering a name in some way. -/
  answer : String → Way → Render σ Value → Render σ Value := fun _ _ act => act
  /-- Around what is done in a new context with a scope. -/
  child : Scope → Render σ String → Render σ String := fun _ act => act
  /-- Around putting in the partial of a tag. -/
  partialTag : String → Render σ String → Render σ String := fun _ act => act
  /-- Around calling a callable with some arguments. -/
  call : Value → List Value → Render σ Value → Render σ Value := fun _ _ act => act

namespace Notes

variable {σ : Type}

section Rendering

variable (N : Notes σ) (settings : Settings)

/-! ## The renderer -/

/-- What a name stands for in a scope. -/
def lookup (deeper : Deeper σ) (scope : Scope) (name : String) : Render σ Value := do
  match (← get).memo.find? name with
  | some v => N.answer name .remembered (pure v)
  | none =>
    match scope.resolve name with
    | .error e => N.answer name .found (throw e)
    | .ok found =>
      let v ← if found.isCallable && found.required == 0 then
          N.answer name (.called found) (deeper.apply scope found [])
        else N.answer name .found (pure found)
      remember name v
      return v

/-- The text of a variable. -/
def variableText (deeper : Deeper σ) (scope : Scope) (name : String) : Render σ String := do
  let v ← N.lookup deeper scope name
  let v ← if v.isCallable then deeper.apply scope v [scope.view] else pure v
  ofCurrent shown v

/-- What a leaf puts out. -/
def renderLeaf (deeper : Deeper σ) (scope : Scope) (t : Token) : Render σ String :=
  match t.kind with
  | .text => pure t.value
  | .nameTag => do
    let text ← N.variableText deeper scope t.value
    return deeper.escape (← get).writer text
  | .unescapedTag => N.variableText deeper scope t.value
  | .partialTag => N.partialTag t.value (deeper.expand scope t.value)
  | _ => pure ""

mutual

/-- What a node puts out. -/
def render (deeper : Deeper σ) (template : String) (scope : Scope) : Node → Render σ String
  | .leaf t => N.node (.leaf t) scope (N.renderLeaf deeper scope t)
  | .block t children close => N.node (.block t children close) scope do
    let v ← N.sectionName t.value (N.lookup deeper scope t.value)
    let v ← current v
    if t.kind = .invertedTag then
      if v.truth then pure "" else renderAll deeper template scope children
    else
      match v.kind with
      | .null => pure ""
      | .scalar => if v.truth then renderAll deeper template scope children else pure ""
      | .mapping =>
        if v.truth then
          N.child (scope.push v) (inChild (renderAll deeper template (scope.push v) children))
        else pure ""
      | .sequence =>
        joinItems
          (fun item => N.child (scope.push item)
            (inChild (renderAll deeper template (scope.push item) children))) v
      | .callable => do
        let args := sectionArguments scope (source template t.stop close) v.required
        let result ← deeper.apply scope v args
        ofCurrent shown result

/-- What some nodes put out, joined. -/
def renderAll (deeper : Deeper σ) (template : String) (scope : Scope) :
    List Node → Render σ String
  | [] => pure ""
  | n :: ns => do
    let first ← render deeper template scope n
    let others ← renderAll deeper template scope ns
    return first ++ others

end

/-- Renders the tree of a compiled template. -/
def through (deeper : Deeper σ) (c : Compiled) (scope : Scope) : Render σ String :=
  N.tree c (N.renderAll deeper c.template scope c.nodes)

/-- Renders the source that was handed to a section's helper. -/
def sourceText (deeper : Deeper σ) (scope : Scope) : Value → Render σ String
  | .str template => do
    let c ← N.compile settings template
    N.through deeper c scope
  | v => do
    N.blank settings v
    return ""

/-- Renders the partial of a name; there is nothing to render where none is known. -/
def expand (deeper : Deeper σ) (scope : Scope) (name : String) : Render σ String := do
  match ← N.supply settings name with
  | none => return ""
  | some c => N.through deeper c scope

/-- What can be reached with a number of levels left. -/
def deeper : Nat → Deeper σ
  | 0 =>
    ⟨N.escape settings, fun _ callee args => N.call callee args (applyFlat callee args),
      fun _ _ => throw .tooDeep⟩
  | n + 1 =>
    ⟨N.escape settings,
      fun scope callee args => N.call callee args
        (apply (deeper n) (N.sourceText settings (deeper n) scope) scope callee args),
      fun scope name => N.expand settings (deeper n) scope name⟩

/-- Renders a compiled template in a scope, after taking over the partials that are given. -/
def renderCompiled (limit : Nat) (c : Compiled) (partials : Partials) (scope : Scope) :
    Render σ String := do
  N.accept settings partials
  N.through (N.deeper settings limit) c scope

/-- Compiles a template and renders it in a scope. -/
def template (limit : Nat) (text : String) (partials : Partials) (scope : Scope) :
    Render σ String := do
  let c ← N.compile settings text
  N.renderCompiled settings limit c partials scope

end Rendering

/-! ## Silent notes -/

/-- What is noted around something is no part of it. -/
def Around {α : Type} (R : Writer → σ → Prop) (note : Render σ α → Render σ α) : Prop :=
  ∀ act act', Agree R Eq act act' → Agree R Eq act (note act')

/-- On stores that are related to writers, the notes do with the writer what is done without them,
and nothing else is changed by taking them. -/
structure Silent (N : Notes σ) (settings : Settings) (R : Writer → σ → Prop) : Prop where
  escape : ∀ w x, R w x → w.escaping settings = N.escape settings x
  compile : ∀ t, Agree R Eq (Render.compile settings t) (N.compile settings t)
  blank : ∀ v, Agree R Eq (acceptBlank settings v) (N.blank settings v)
  supply : ∀ name, Agree R Eq (Render.supply settings name) (N.supply settings name)
  tree : ∀ c, Around R (N.tree c)
  node : ∀ n scope, Around R (N.node n scope)
  sectionName : ∀ name, Around R (N.sectionName name)
  answer : ∀ name way, Around R (N.answer name way)
  child : ∀ scope, Around R (N.child scope)
  partialTag : ∀ name, Around R (N.partialTag name)
  call : ∀ callee args, Around R (N.call callee args)

theorem around_id {α : Type} (R : Writer → σ → Prop) :
    Around R fun act : Render σ α => act := fun _ _ h => h

namespace Silent

variable {N : Notes σ} {settings : Settings} {R : Writer → σ → Prop} {d : Deeper Writer}
  {d' : Deeper σ}

/-- **Looking up with notes is looking up.** -/
theorem agree_lookup (h : N.Silent settings R) (hd : d.Alike R d') (scope : Scope)
    (name : String) : Agree R Eq (Render.lookup d scope name) (N.lookup d' scope name) := by
  refine agree_get_bind fun s t hs => ?_
  rw [hs.memo]
  cases t.memo.find? name with
  | some v => exact h.answer name .remembered _ _ (agree_pure rfl)
  | none =>
    cases scope.resolve name with
    | error e => exact h.answer name .found _ _ (agree_throw e)
    | ok found =>
      show Agree R Eq (pure found >>= _) _
      rw [pure_bind]
      have keep (v : Value) :
          Agree R Eq (do remember name v; return v) (do remember name v; return v) :=
        (agree_remember name v).bindEq fun _ => agree_pure rfl
      by_cases hc : (found.isCallable && found.required == 0) = true
      · simp only [hc, if_true]
        exact (h.answer name (.called found) _ _ (hd.apply scope found [])).bindEq keep
      · simp only [hc]
        exact (h.answer name .found _ _ (agree_pure rfl)).bindEq keep

theorem agree_variableText (h : N.Silent settings R) (hd : d.Alike R d') (scope : Scope)
    (name : String) :
    Agree R Eq (Render.variableText d scope name) (N.variableText d' scope name) := by
  refine (h.agree_lookup hd scope name).bindEq fun v => ?_
  by_cases hc : v.isCallable = true
  · simp only [hc, if_true]
    exact (hd.apply scope v [scope.view]).bindEq fun v => agree_onTally _
  · simp only [hc]
    exact (agree_pure rfl).bindEq fun v => agree_onTally _

theorem agree_renderLeaf (h : N.Silent settings R) (hd : d.Alike R d') (scope : Scope)
    (t : Token) : Agree R Eq (Node.renderLeaf d scope t) (N.renderLeaf d' scope t) := by
  unfold Node.renderLeaf renderLeaf
  cases t.kind with
  | nameTag =>
    refine (h.agree_variableText hd scope t.value).bindEq fun text => ?_
    refine agree_get_bind fun s s' hs => ?_
    rw [hd.escape _ _ hs.store]
    exact agree_pure rfl
  | unescapedTag => exact h.agree_variableText hd scope t.value
  | partialTag => exact h.partialTag t.value _ _ (hd.expand scope t.value)
  | _ => exact agree_pure rfl

mutual

theorem agree_render (h : N.Silent settings R) (hd : d.Alike R d') (template : String) :
    ∀ (scope : Scope) (n : Node),
      Agree R Eq (n.render d template scope) (N.render d' template scope n)
  | scope, .leaf t => by
    unfold Node.render render
    exact h.node _ scope _ _ (h.agree_renderLeaf hd scope t)
  | scope, .block t children close => by
    have inner (scope : Scope) := agree_renderAll h hd template scope children
    have push (item : Value) := h.child (scope.push item) _ _ (inner (scope.push item)).inChild
    unfold Node.render render
    refine h.node _ scope _ _ ?_
    refine (h.sectionName t.value _ _ (h.agree_lookup hd scope t.value)).bindEq fun v => ?_
    refine (agree_current v).bindEq fun v => ?_
    by_cases hi : t.kind = .invertedTag
    · simp only [hi, if_true]
      split
      · exact agree_pure rfl
      · exact inner scope
    · simp only [hi, if_false]
      cases v.kind with
      | null => exact agree_pure rfl
      | scalar =>
        simp only
        split
        · exact inner scope
        · exact agree_pure rfl
      | mapping =>
        simp only
        split
        · exact push v
        · exact agree_pure rfl
      | sequence => exact agree_joinItems push v
      | callable => exact (hd.apply scope v _).bindEq fun _ => agree_onTally _

theorem agree_renderAll (h : N.Silent settings R) (hd : d.Alike R d') (template : String) :
    ∀ (scope : Scope) (ns : List Node),
      Agree R Eq (Node.renderAll d template scope ns) (N.renderAll d' template scope ns)
  | scope, [] => by
    unfold Node.renderAll renderAll
    exact agree_pure rfl
  | scope, n :: ns => by
    unfold Node.renderAll renderAll
    exact (agree_render h hd template scope n).bindEq fun _ =>
      (agree_renderAll h hd template scope ns).bindEq fun _ => agree_pure rfl

end

theorem agree_through (h : N.Silent settings R) (hd : d.Alike R d') (c : Compiled)
    (scope : Scope) :
    Agree R Eq (Node.renderAll d c.template scope c.nodes) (N.through d' c scope) :=
  h.tree c _ _ (h.agree_renderAll hd c.template scope c.nodes)

theorem agree_sourceText (h : N.Silent settings R) (hd : d.Alike R d') (scope : Scope)
    (v : Value) :
    Agree R Eq (Render.sourceText settings d scope v) (N.sourceText settings d' scope v) := by
  have blank (v : Value) : Agree R Eq (do acceptBlank settings v; return "")
      (do N.blank settings v; return "") :=
    (h.blank v).bindEq fun _ => agree_pure rfl
  cases v with
  | str t => exact (h.compile t).bindEq fun c => h.agree_through hd c scope
  | _ => exact blank _

theorem agree_expand (h : N.Silent settings R) (hd : d.Alike R d') (scope : Scope)
    (name : String) :
    Agree R Eq (Render.expand settings d scope name) (N.expand settings d' scope name) := by
  rw [expand_eq]
  refine (h.supply name).bindEq fun found => ?_
  cases found with
  | none => exact agree_pure rfl
  | some c => exact h.agree_through hd c scope

/-- On every level, what is reached with notes is what is reached without them. -/
theorem alike_deeper (h : N.Silent settings R) (n : Nat) :
    (Render.deeper settings n).Alike R (N.deeper settings n) := by
  induction n with
  | zero =>
    exact ⟨h.escape, fun _ callee args => h.call callee args _ _ (agree_applyFlat _ _),
      fun _ _ => agree_throw _⟩
  | succ n ih =>
    refine ⟨h.escape, fun scope callee args => ?_, fun scope name => h.agree_expand ih scope name⟩
    exact h.call callee args _ _ (agree_apply ih (h.agree_sourceText ih scope) scope callee args)

/-- **Calling a compiled template with notes is calling it,** if partials are taken over alike. -/
theorem agree_call (h : N.Silent settings R) {partials : Partials}
    (haccept : Agree R Eq (Render.accept settings partials) (N.accept settings partials)) (n : Nat)
    (c : Compiled) (scope : Scope) :
    Agree R Eq (Render.call settings n c partials scope)
      (N.renderCompiled settings n c partials scope) :=
  haccept.bindEq fun _ => h.agree_through (h.alike_deeper n) c scope

/-- **Rendering with notes is rendering,** if partials are taken over alike. -/
theorem agree_template (h : N.Silent settings R) {partials : Partials}
    (haccept : Agree R Eq (Render.accept settings partials) (N.accept settings partials)) (n : Nat)
    (text : String) (scope : Scope) :
    Agree R Eq (Render.template settings n text partials scope)
      (N.template settings n text partials scope) :=
  (h.compile text).bindEq fun c => h.agree_call haccept n c scope

end Silent

end Notes

end Mustache
