import Mathlib.Tactic.Common
import Mustache.Render.Depth

/-!
# Rendering with two stores

Going through a tree and evaluating the body of a function do not depend on what templates are kept
in. Two ways of keeping them can therefore be compared by their own operations alone.

**Idea.** Two states are alike if their stores are related and all else is the same. Two
computations agree (`Agree`) if they lead from alike states to alike states, with the same error or
with related results; `AgreeOn` is the same for states that are related in any other way. Pure
computations, errors and sequences of computations that agree do so again, so agreement passes
through everything that is built of them: lookups, bodies of functions, and trees.

Nothing that renders looks at the records, it only adds to them. So the records need not be the same
either: any relation will do that is kept when both sides record the same call (`CallRelation`).
`AlikeUpTo` and `AgreeUpTo` are for such a relation, `Agree` is for records that are equal.

Main statements: `Expr.agree_eval` and `Node.agree_renderAll`.
-/

namespace Mustache

namespace Render

variable {σ τ α β γ δ : Type}

/-- A relation between records that stays when the same call is recorded on both sides. -/
class CallRelation (L : List Event → List Event → Prop) : Prop where
  append : ∀ {l l'} label arguments, L l l' →
    L (l ++ [.called label arguments]) (l' ++ [.called label arguments])

instance : CallRelation Eq where
  append label arguments h := congrArg (· ++ [.called label arguments]) h

/-- The stores and the records of two states are related, and all else is the same. -/
structure State.AlikeUpTo (L : List Event → List Event → Prop) (R : σ → τ → Prop) (s : State σ)
    (t : State τ) : Prop where
  store : R s.writer t.writer
  memo : s.memo = t.memo
  tally : s.tally = t.tally
  log : L s.log t.log

/-- Two results are the same error, or related. -/
inductive SameResult (Q : α → β → Prop) : Except Error α → Except Error β → Prop
  | ok {a : α} {b : β} : Q a b → SameResult Q (.ok a) (.ok b)
  | error (e : Error) : SameResult Q (.error e) (.error e)

theorem SameResult.refl (x : Except Error α) : SameResult Eq x x := by
  cases x with
  | ok a => exact .ok rfl
  | error e => exact .error e

theorem SameResult.eq {x y : Except Error α} (h : SameResult Eq x y) : x = y := by
  cases h with
  | ok h => rw [h]
  | error => rfl

/-- From states that are related, two computations come to the same error or to related results, and
to states that are related. -/
def AgreeOn (S : State σ → State τ → Prop) (Q : α → β → Prop) (m : Render σ α)
    (m' : Render τ β) : Prop :=
  ∀ s t, S s t → SameResult Q (m.runFrom s).1 (m'.runFrom t).1 ∧ S (m.runFrom s).2 (m'.runFrom t).2

/-- Two computations agree on states whose stores and records are related. -/
abbrev AgreeUpTo (L : List Event → List Event → Prop) (R : σ → τ → Prop) (Q : α → β → Prop)
    (m : Render σ α) (m' : Render τ β) : Prop :=
  AgreeOn (State.AlikeUpTo L R) Q m m'

/-- Two computations agree, and record the same. -/
abbrev Agree (R : σ → τ → Prop) (Q : α → β → Prop) (m : Render σ α) (m' : Render τ β) : Prop :=
  AgreeUpTo Eq R Q m m'

variable {S : State σ → State τ → Prop} {L : List Event → List Event → Prop} {R : σ → τ → Prop}
  {Q : α → β → Prop} {P : γ → δ → Prop}

theorem runFrom_bind (m : Render σ α) (k : α → Render σ γ) (s : State σ) :
    (m >>= k).runFrom s = match m.runFrom s with
      | (.ok a, s') => (k a).runFrom s'
      | (.error e, s') => (.error e, s') := by
  show (match m s with | (r, s') => ExceptT.bindCont k r s') = _
  rw [runFrom]
  obtain ⟨r, s'⟩ := m s
  cases r <;> rfl

theorem runFrom_get_bind (k : State σ → Render σ α) (s : State σ) :
    (get >>= k).runFrom s = (k s).runFrom s := rfl

theorem runFrom_onTally (f : Tally → Except Error α × Tally) (s : State σ) :
    (onTally f).runFrom s = ((f s.tally).1, { s with tally := (f s.tally).2 }) := rfl

theorem runFrom_current_bind (v : Value) (k : Value → Render σ α) (s : State σ) :
    (current v >>= k).runFrom s = (k (v.current s.tally)).runFrom s := rfl

/-! ## Pure computations, errors, sequences -/

theorem agree_pure {a : α} {b : β} (h : Q a b) : AgreeOn S Q (pure a) (pure b) :=
  fun _ _ hs => ⟨.ok h, hs⟩

theorem agree_throw (e : Error) : AgreeOn S Q (throw e) (throw e) :=
  fun _ _ hs => ⟨.error e, hs⟩

theorem AgreeOn.bind {m : Render σ α} {m' : Render τ β} {k : α → Render σ γ}
    {k' : β → Render τ δ} (h : AgreeOn S Q m m')
    (hk : ∀ a b, Q a b → AgreeOn S P (k a) (k' b)) :
    AgreeOn S P (m >>= k) (m' >>= k') := by
  intro s t hs
  obtain ⟨hr, hs'⟩ := h s t hs
  rw [runFrom_bind, runFrom_bind]
  rcases hm : m.runFrom s with ⟨x, s'⟩
  rcases hm' : m'.runFrom t with ⟨y, t'⟩
  simp only [hm, hm'] at hr hs' ⊢
  cases hr with
  | ok hab => exact hk _ _ hab s' t' hs'
  | error e => exact ⟨.error e, hs'⟩

theorem AgreeOn.bindEq {m : Render σ α} {m' : Render τ α} {k : α → Render σ γ}
    {k' : α → Render τ δ} (h : AgreeOn S Eq m m') (hk : ∀ a, AgreeOn S P (k a) (k' a)) :
    AgreeOn S P (m >>= k) (m' >>= k') := by
  refine h.bind fun a b hab => ?_
  subst hab
  exact hk a

theorem agree_get_bind {k : State σ → Render σ γ} {k' : State τ → Render τ δ}
    (h : ∀ s t, S s t → AgreeOn S P (k s) (k' t)) :
    AgreeOn S P (get >>= k) (get >>= k') :=
  fun s t hs => h s t hs s t hs

theorem agree_get_bind_left {k : State σ → Render σ γ} {m' : Render τ δ}
    (h : ∀ s t, S s t → AgreeOn S P (k s) m') :
    AgreeOn S P (get >>= k) m' :=
  fun s t hs => h s t hs s t hs

theorem agree_modify {f : State σ → State σ} {g : State τ → State τ}
    (h : ∀ s t, S s t → S (f s) (g t)) :
    AgreeOn S Eq (modify f : Render σ Unit) (modify g : Render τ Unit) :=
  fun s t hs => ⟨.ok rfl, h s t hs⟩

theorem agree_ofExcept (x : Except Error α) :
    AgreeOn S Eq (ofExcept x : Render σ α) (ofExcept x : Render τ α) := by
  cases x with
  | ok a => exact agree_pure rfl
  | error e => exact agree_throw e

theorem agree_ofExcept_ok (x : Except Error α) :
    AgreeOn S (fun a b => x = .ok a ∧ a = b) (ofExcept x : Render σ α)
      (ofExcept x : Render τ α) := by
  cases x with
  | ok a => exact agree_pure ⟨rfl, rfl⟩
  | error e => exact agree_throw e

/-! ## Effects -/

theorem agree_record (e : Event) : Agree R Eq (record e : Render σ Unit) (record e) :=
  agree_modify fun _ _ hs => ⟨hs.store, hs.memo, hs.tally, congrArg (· ++ [e]) hs.log⟩

theorem agree_recordCall [CallRelation L] (label : String) (arguments : List (String × Value)) :
    AgreeUpTo L R Eq (recordCall label arguments : Render σ Unit) (recordCall label arguments) := by
  refine agree_get_bind fun s t hs => ?_
  rw [hs.tally]
  dsimp only
  split
  · exact agree_modify fun _ _ hs =>
      ⟨hs.store, hs.memo, hs.tally, CallRelation.append label _ hs.log⟩
  · exact agree_throw _

theorem agree_remember (name : String) (v : Value) :
    AgreeUpTo L R Eq (remember name v : Render σ Unit) (remember name v) :=
  agree_modify fun _ _ hs => ⟨hs.store, by rw [hs.memo], hs.tally, hs.log⟩

/-- What is done with the tally alone is the same where the tallies are. -/
theorem agree_onTally (f : Tally → Except Error α × Tally) :
    AgreeUpTo L R Eq (onTally f : Render σ α) (onTally f : Render τ α) := by
  intro s t hs
  show SameResult Eq (f s.tally).1 (f t.tally).1 ∧
    State.AlikeUpTo L R { s with tally := (f s.tally).2 } { t with tally := (f t.tally).2 }
  rw [hs.tally]
  exact ⟨.refl _, hs.store, hs.memo, rfl, hs.log⟩

theorem agree_ofCurrent (f : Value → Except Error α) (v : Value) :
    AgreeUpTo L R Eq (ofCurrent f v : Render σ α) (ofCurrent f v : Render τ α) :=
  agree_onTally _

theorem agree_current (v : Value) :
    AgreeUpTo L R Eq (current v : Render σ Value) (current v : Render τ Value) :=
  agree_ofCurrent .ok v

theorem AgreeUpTo.inChild {m : Render σ α} {m' : Render τ β} (h : AgreeUpTo L R Q m m') :
    AgreeUpTo L R Q (inChild m) (inChild m') := by
  intro s t hs
  obtain ⟨hr, hs'⟩ := h { s with memo := ∅ } { t with memo := ∅ } ⟨hs.store, rfl, hs.tally, hs.log⟩
  exact ⟨hr, hs'.store, hs.memo, hs'.tally, hs'.log⟩

theorem agree_joinEach {f : α → Render σ String} {g : α → Render τ String}
    (h : ∀ a, AgreeUpTo L R Eq (f a) (g a)) (as : List α) :
    AgreeUpTo L R Eq (joinEach f as) (joinEach g as) := by
  induction as with
  | nil => exact agree_pure rfl
  | cons a as ih =>
    rw [joinEach, joinEach]
    exact (h a).bindEq fun first => ih.bindEq fun others => agree_pure rfl

theorem agree_joinItems {f : Value → Render σ String} {g : Value → Render τ String}
    (h : ∀ v, AgreeUpTo L R Eq (f v) (g v)) (v : Value) :
    AgreeUpTo L R Eq (joinItems f v) (joinItems g v) := by
  rw [joinItems_eq_joinEach, joinItems_eq_joinEach]
  exact agree_joinEach h v.items

end Render

/-! ## Going through bodies and trees -/

/-- On the level below, escaping is the same for related stores, and applying callables and
rendering partials agree. -/
structure Deeper.AlikeUpTo {σ τ : Type} (L : List Event → List Event → Prop) (R : σ → τ → Prop)
    (d : Deeper σ) (d' : Deeper τ) : Prop where
  escape : ∀ w r, R w r → d.escape w = d'.escape r
  apply : ∀ scope callee args,
    Render.AgreeUpTo L R Eq (d.apply scope callee args) (d'.apply scope callee args)
  expand : ∀ scope name, Render.AgreeUpTo L R Eq (d.expand scope name) (d'.expand scope name)

/-- The levels below agree, and record the same. -/
abbrev Deeper.Alike {σ τ : Type} (R : σ → τ → Prop) (d : Deeper σ) (d' : Deeper τ) : Prop :=
  Deeper.AlikeUpTo Eq R d d'

open Render

variable {σ τ : Type} {L : List Event → List Event → Prop} {R : σ → τ → Prop} {d : Deeper σ}
  {d' : Deeper τ}

theorem Render.agree_lookup (hd : d.AlikeUpTo L R d') (scope : Scope) (name : String) :
    AgreeUpTo L R Eq (lookup d scope name) (lookup d' scope name) := by
  refine agree_get_bind fun s t hs => ?_
  rw [hs.memo]
  cases t.memo.find? name with
  | some v => exact agree_pure rfl
  | none =>
    refine (agree_ofExcept _).bindEq fun found => ?_
    have keep (v : Value) :
        AgreeUpTo L R Eq (do remember name v; return v) (do remember name v; return v) :=
      (agree_remember name v).bindEq fun _ => agree_pure rfl
    by_cases hc : (found.isCallable && found.required == 0) = true
    · simp only [hc, if_true]
      exact (hd.apply scope found []).bindEq keep
    · simp only [hc]
      exact (agree_pure rfl).bindEq keep

theorem Render.agree_variableText (hd : d.AlikeUpTo L R d') (scope : Scope) (name : String) :
    AgreeUpTo L R Eq (variableText d scope name) (variableText d' scope name) := by
  refine (agree_lookup hd scope name).bindEq fun v => ?_
  by_cases hc : v.isCallable = true
  · simp only [hc, if_true]
    exact (hd.apply scope v [scope.view]).bindEq fun v => agree_onTally _
  · simp only [hc]
    exact (agree_pure rfl).bindEq fun v => agree_onTally _

mutual

theorem Expr.agree_eval (hd : d.AlikeUpTo L R d') (scope : Scope) (frame : Frame) :
    ∀ e : Expr, AgreeUpTo L R Eq (e.eval d scope frame) (e.eval d' scope frame)
  | .literal v => agree_pure rfl
  | .argument name => by
    rw [Expr.eval, Expr.eval]
    cases frame.arguments.lookup name with
    | some v => exact agree_pure rfl
    | none => exact agree_throw _
  | .join parts => (Expr.agree_evalText hd scope frame parts).bindEq fun _ => agree_pure rfl
  | .call callee args =>
    (Expr.agree_eval hd scope frame callee).bindEq fun f =>
      (Expr.agree_evalAll hd scope frame args).bindEq fun vs => hd.apply scope f vs
  | .upper e => (Expr.agree_eval hd scope frame e).bindEq fun v => by
    cases v with
    | str s => exact agree_pure rfl
    | _ => exact agree_throw _
  | .size e => (Expr.agree_eval hd scope frame e).bindEq fun v => agree_onTally _
  | .entry e key => (Expr.agree_eval hd scope frame e).bindEq fun v => by
    cases v with
    | dict entries =>
      by_cases hk : key.canBeKey = true
      · simp only [hk, if_true]
        exact agree_pure rfl
      · simp only [hk]
        exact agree_throw _
    | _ => exact agree_throw _
  | .attribute name => by
    rw [Expr.eval, Expr.eval]
    cases frame.owner.bind (·.member? name) with
    | some v => exact agree_pure rfl
    | none => exact agree_throw _
  | .count name => (agree_onTally _).bindEq fun _ => agree_pure rfl
  | .fail message => agree_throw _

theorem Expr.agree_evalAll (hd : d.AlikeUpTo L R d') (scope : Scope) (frame : Frame) :
    ∀ es : List Expr,
      AgreeUpTo L R Eq (Expr.evalAll d scope frame es) (Expr.evalAll d' scope frame es)
  | [] => agree_pure rfl
  | e :: es =>
    (Expr.agree_eval hd scope frame e).bindEq fun _ =>
      (Expr.agree_evalAll hd scope frame es).bindEq fun _ => agree_pure rfl

theorem Expr.agree_evalText (hd : d.AlikeUpTo L R d') (scope : Scope) (frame : Frame) :
    ∀ es : List Expr,
      AgreeUpTo L R Eq (Expr.evalText d scope frame es) (Expr.evalText d' scope frame es)
  | [] => agree_pure rfl
  | e :: es =>
    (Expr.agree_eval hd scope frame e).bindEq fun _ =>
      (agree_onTally _).bindEq fun _ =>
        (Expr.agree_evalText hd scope frame es).bindEq fun _ => agree_pure rfl

end

theorem Function.agree_invoke [CallRelation L] (hd : d.AlikeUpTo L R d') (scope : Scope)
    (f : Function) (owner : Option Object) (args : List Value) :
    AgreeUpTo L R Eq (f.invoke d scope owner args) (f.invoke d' scope owner args) := by
  rw [Function.invoke, Function.invoke]
  cases f.signature.bind args with
  | none => exact agree_throw _
  | some bound =>
    have hbody := Expr.agree_eval hd scope ⟨bound, owner⟩ f.body
    cases f.label with
    | none => exact hbody
    | some label => exact (agree_recordCall label bound).bindEq fun _ => hbody

theorem Render.agree_apply [CallRelation L] (hd : d.AlikeUpTo L R d')
    {f : Value → Render σ String} {g : Value → Render τ String}
    (h : ∀ v, AgreeUpTo L R Eq (f v) (g v)) (scope : Scope) (callee : Value) (args : List Value) :
    AgreeUpTo L R Eq (apply d f scope callee args) (apply d' g scope callee args) := by
  rw [apply.eq_def, apply.eq_def]
  split
  · exact Function.agree_invoke hd _ _ _ _
  · next o =>
    cases o.call with
    | some f => exact Function.agree_invoke hd _ _ _ _
    | none => exact agree_throw _
  · exact agree_onTally _
  · exact agree_onTally _
  · exact (h _).bindEq fun _ => agree_pure rfl
  · exact agree_throw _

theorem Render.agree_applyFlat [CallRelation L] (callee : Value) (args : List Value) :
    AgreeUpTo L R Eq (applyFlat callee args) (applyFlat callee args) := by
  rw [applyFlat.eq_def, applyFlat.eq_def]
  split
  · exact agree_onTally _
  · exact agree_onTally _
  · exact agree_throw _

theorem Node.agree_renderLeaf (hd : d.AlikeUpTo L R d') (scope : Scope) (t : Token) :
    AgreeUpTo L R Eq (renderLeaf d scope t) (renderLeaf d' scope t) := by
  rw [renderLeaf, renderLeaf]
  cases t.kind with
  | nameTag =>
    refine (agree_variableText hd scope t.value).bindEq fun text => ?_
    refine agree_get_bind fun s s' hs => ?_
    rw [hd.escape _ _ hs.store]
    exact agree_pure rfl
  | unescapedTag => exact agree_variableText hd scope t.value
  | partialTag => exact hd.expand scope t.value
  | _ => exact agree_pure rfl

mutual

theorem Node.agree_render (hd : d.AlikeUpTo L R d') (template : String) :
    ∀ (scope : Scope) (n : Node),
      AgreeUpTo L R Eq (n.render d template scope) (n.render d' template scope)
  | scope, .leaf t => by
    rw [Node.render, Node.render]
    exact Node.agree_renderLeaf hd scope t
  | scope, .block t children close => by
    have inner (scope : Scope) := Node.agree_renderAll hd template scope children
    rw [Node.render, Node.render]
    refine (agree_lookup hd scope t.value).bindEq fun v => (agree_current v).bindEq fun v => ?_
    by_cases hi : t.kind = .invertedTag
    · simp only [hi, if_true]
      split
      · exact agree_pure rfl
      · exact inner scope
    · simp only [hi, if_false]
      cases v.kind with
      | null => exact agree_pure rfl
      | scalar =>
        simp only
        split
        · exact inner scope
        · exact agree_pure rfl
      | mapping =>
        simp only
        split
        · exact (inner _).inChild
        · exact agree_pure rfl
      | sequence => exact agree_joinItems (fun item => (inner _).inChild) v
      | callable => exact (hd.apply scope v _).bindEq fun _ => agree_onTally _

/-- **Rendering does not see the store:** on levels that agree, trees are rendered alike. -/
theorem Node.agree_renderAll (hd : d.AlikeUpTo L R d') (template : String) :
    ∀ (scope : Scope) (ns : List Node),
      AgreeUpTo L R Eq (renderAll d template scope ns) (renderAll d' template scope ns)
  | scope, [] => by
    rw [Node.renderAll, Node.renderAll]
    exact agree_pure rfl
  | scope, n :: ns => by
    rw [Node.renderAll, Node.renderAll]
    exact (Node.agree_render hd template scope n).bindEq fun _ =>
      (Node.agree_renderAll hd template scope ns).bindEq fun _ => agree_pure rfl

end

end Mustache
