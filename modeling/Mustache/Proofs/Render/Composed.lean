import Mustache.Proofs.Render.Judgement

/-!
# Judging calls

What a judgement says of calling a callable, if it passes through what computations are put together
of, and if it says the same of all that can be called on the level below.

**Idea.** `Judgement.Composes` lists what is asked of a judgement. The bodies of functions are put
together of these, so they are gone through once, for all judgements.

Main statement: `Judgement.Composes.apply`.
-/

namespace Mustache

open Render

namespace Judgement

variable {σ α β : Type}

/-- A judgement passes through what computations are put together of. -/
structure Composes (J : Judgement σ) : Prop where
  result : ∀ {α : Type} (scope : Scope) (a : α) (Q : α → Prop), Q a → J α scope (pure a) Q
  error : ∀ {α : Type} (scope : Scope) (e : Error) (Q : α → Prop), J α scope (throw e) Q
  andThen : ∀ {α β : Type} (scope : Scope) (m : Render σ α) (k : α → Render σ β) (Q : α → Prop)
    (R : β → Prop), J α scope m Q → (∀ a, Q a → J β scope (k a) R) → J β scope (m >>= k) R
  tallied : ∀ {α : Type} (scope : Scope) (f : Tally → Except Error α × Tally) (Q : α → Prop),
    (∀ t a, (f t).1 = .ok a → Q a) → J α scope (onTally f) Q
  recorded : ∀ scope label args, J Unit scope (recordCall label args) fun _ => True

namespace Composes

variable {J : Judgement σ} {scope : Scope} {deeper : Deeper σ} {frame : Frame}

theorem bind (h : J.Composes) {m : Render σ α} {k : α → Render σ β} {Q : α → Prop} {R : β → Prop}
    (hm : J α scope m Q) (hk : ∀ a, Q a → J β scope (k a) R) : J β scope (m >>= k) R :=
  h.andThen scope m k Q R hm hk

theorem done (h : J.Composes) (a : α) : J α scope (pure a) fun _ => True :=
  h.result scope a _ trivial

theorem ofCurrent (h : J.Composes) (f : Value → Except Error α) (v : Value) :
    J α scope (Render.ofCurrent f v) fun _ => True :=
  h.tallied scope _ _ fun _ _ _ => trivial

theorem joinEach (h : J.Composes) {f : Value → Render σ String} {vs : List Value}
    (hf : ∀ v, J String scope (f v) fun _ => True) : J String scope (joinEach f vs) fun _ => True :=
  joinEach_of_inRow (fun text => h.result scope text _ trivial)
    (fun hm hk => h.bind hm fun a _ => hk a) fun v _ => hf v

/-- A judgement is made of all that bodies can call. -/
def Calls (J : Judgement σ) (deeper : Deeper σ) (scope : Scope) : Prop :=
  ∀ callee args, J Value scope (deeper.apply scope callee args) fun _ => True

mutual

theorem eval (h : J.Composes) (happly : Calls J deeper scope) :
    ∀ e : Expr, J Value scope (e.eval deeper scope frame) fun _ => True
  | .literal v => by
    rw [Expr.eval]
    exact h.done v
  | .argument name => by
    rw [Expr.eval]
    cases frame.arguments.lookup name with
    | none => exact h.error scope _ _
    | some v => exact h.done v
  | .join parts => by
    rw [Expr.eval]
    exact h.bind (evalText h happly parts) fun text _ => h.done _
  | .call callee args => by
    rw [Expr.eval]
    refine h.bind (eval h happly callee) fun f _ => ?_
    exact h.bind (evalAll h happly args) fun vs _ => happly f vs
  | .upper e => by
    rw [Expr.eval]
    refine h.bind (eval h happly e) fun v _ => ?_
    cases v with
    | str s => exact h.done _
    | _ => exact h.error scope _ _
  | .size e => by
    rw [Expr.eval]
    exact h.bind (eval h happly e) fun v _ => h.ofCurrent _ v
  | .entry e key => by
    rw [Expr.eval]
    refine h.bind (eval h happly e) fun v _ => ?_
    cases v with
    | dict es =>
      by_cases hk : key.canBeKey = true
      · simp only [hk, if_true]
        exact h.done _
      · simp only [hk]
        exact h.error scope _ _
    | _ => exact h.error scope _ _
  | .attribute name => by
    rw [Expr.eval]
    cases frame.owner.bind (·.member? name) with
    | none => exact h.error scope _ _
    | some v => exact h.done v
  | .count name => by
    rw [Expr.eval]
    exact h.bind (h.tallied scope _ (fun _ => True) fun _ _ _ => trivial) fun n _ => h.done _
  | .fail message => by
    rw [Expr.eval]
    exact h.error scope _ _

theorem evalAll (h : J.Composes) (happly : Calls J deeper scope) :
    ∀ es : List Expr, J (List Value) scope (Expr.evalAll deeper scope frame es) fun _ => True
  | [] => by
    rw [Expr.evalAll]
    exact h.done []
  | e :: es => by
    rw [Expr.evalAll]
    refine h.bind (eval h happly e) fun v _ => ?_
    exact h.bind (evalAll h happly es) fun vs _ => h.done _

theorem evalText (h : J.Composes) (happly : Calls J deeper scope) :
    ∀ es : List Expr, J String scope (Expr.evalText deeper scope frame es) fun _ => True
  | [] => by
    rw [Expr.evalText]
    exact h.done ""
  | e :: es => by
    rw [Expr.evalText]
    refine h.bind (eval h happly e) fun v _ => ?_
    refine h.bind (h.ofCurrent _ v) fun first _ => ?_
    exact h.bind (evalText h happly es) fun others _ => h.done _

end

theorem invoke (h : J.Composes) (happly : Calls J deeper scope) (f : Function)
    (owner : Option Object) (args : List Value) :
    J Value scope (f.invoke deeper scope owner args) fun _ => True := by
  unfold Function.invoke
  cases f.signature.bind args with
  | none => exact h.error scope _ _
  | some bound =>
    have heval : J Value scope (f.body.eval deeper scope ⟨bound, owner⟩) fun _ => True :=
      h.eval happly f.body
    cases f.label with
    | none => exact heval
    | some label => exact h.bind (h.recorded scope label bound) fun _ _ => heval

/-- **What is said of all calls on the level below is said of calls,** if the same is said of what
the helper of a section renders. -/
theorem apply (h : J.Composes) (happly : Calls J deeper scope) {rendered : Value → Render σ String}
    (hrendered : ∀ v, J String scope (rendered v) fun _ => True) (callee : Value)
    (args : List Value) :
    J Value scope (Render.apply deeper rendered scope callee args) fun _ => True := by
  rw [apply.eq_def]
  split
  · exact h.invoke happly _ _ _
  · next o =>
    cases o.call with
    | none => exact h.error scope _ _
    | some f => exact h.invoke happly f _ _
  · exact h.tallied scope _ _ fun _ _ _ => trivial
  · exact h.tallied scope _ _ fun _ _ _ => trivial
  · next v => exact h.bind (hrendered v) fun text _ => h.done _
  · exact h.error scope _ _

/-- On the lowest level there is nothing below to say anything of. -/
theorem applyFlat (h : J.Composes) (callee : Value) (args : List Value) :
    J Value scope (Render.applyFlat callee args) fun _ => True := by
  unfold Render.applyFlat
  split
  · exact h.tallied scope _ _ fun _ _ _ => trivial
  · exact h.tallied scope _ _ fun _ _ _ => trivial
  · exact h.error scope _ _

end Composes

end Judgement

end Mustache
