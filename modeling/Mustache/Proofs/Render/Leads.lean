import Mathlib.Tactic.Common
import Mustache.Proofs.Render.Alike

/-!
# What a computation leads to

`Leads I m P`: from every state where `I` holds, the computation `m` ends with a result and in a
state of which `P` holds. Such statements are put together along the steps of a computation. The
case that matters most is `Gives I m x`: the result is always the same one, `x`, an error or not,
and the invariant `I` is kept. Where what is found is not quite `x`, but stands for it,
`Yields I m x R` says how.

Main statements: `Leads.bind`, `Gives.bind`, `Yields.bind` and `gives_joinEach`.
-/

namespace Mustache.Render

variable {σ α β : Type}

/-- From the states where `I` holds, a computation comes to a result and a state of which `P`
holds. -/
def Leads (I : State σ → Prop) (m : Render σ α) (P : Except Error α → State σ → Prop) : Prop :=
  ∀ s, I s → P (m.runFrom s).1 (m.runFrom s).2

/-- From the states where `I` holds, a computation comes to the result `x`, and to a state where `I`
holds. -/
def Gives (I : State σ → Prop) (m : Render σ α) (x : Except Error α) : Prop :=
  Leads I m fun r s => r = x ∧ I s

variable {I J : State σ → Prop} {m : Render σ α} {k : α → Render σ β}
  {P : Except Error α → State σ → Prop} {Q : Except Error β → State σ → Prop}

theorem leads_pure {a : α} (h : ∀ s, I s → P (.ok a) s) : Leads I (pure a) P := h

theorem leads_throw {e : Error} (h : ∀ s, I s → P (.error e) s) : Leads I (throw e) P := h

theorem leads_modify {f : State σ → State σ} {P : Except Error Unit → State σ → Prop}
    (h : ∀ s, I s → P (.ok ()) (f s)) : Leads I (modify f) P := h

theorem leads_ofExcept {x : Except Error α} (h : ∀ s, I s → P x s) : Leads I (ofExcept x) P := by
  cases x with
  | ok a => exact leads_pure h
  | error e => exact leads_throw h

theorem Leads.bind (h : Leads I m P) (hk : ∀ a, Leads (P (.ok a)) (k a) Q)
    (herror : ∀ e s, P (.error e) s → Q (.error e) s) : Leads I (m >>= k) Q := by
  intro s hs
  have hm := h s hs
  rw [runFrom_bind]
  rcases hr : m.runFrom s with ⟨x, s'⟩
  rw [hr] at hm
  cases x with
  | ok a => exact hk a s' hm
  | error e => exact herror e s' hm

theorem leads_get_bind {k : State σ → Render σ β}
    (h : ∀ s, I s → Leads (fun t => t = s) (k s) Q) : Leads I (get >>= k) Q :=
  fun s hs => h s hs s rfl

theorem Leads.of_imp (h : Leads I m P) (hI : ∀ s, J s → I s) : Leads J m P :=
  fun s hs => h s (hI s hs)

/-! ## One result -/

theorem gives_pure (a : α) : Gives I (pure a) (.ok a) := leads_pure fun _ hs => ⟨rfl, hs⟩

theorem gives_throw (e : Error) : Gives I (throw e : Render σ α) (.error e) :=
  leads_throw fun _ hs => ⟨rfl, hs⟩

theorem Gives.bind {x : Except Error α} {f : α → Except Error β} (h : Gives I m x)
    (hk : ∀ a, x = .ok a → Gives I (k a) (f a)) : Gives I (m >>= k) (x >>= f) := by
  refine Leads.bind h (fun a => ?_) fun e s hs => ?_
  · rintro s ⟨rfl, hs⟩
    exact hk a rfl s hs
  · obtain ⟨rfl, hs⟩ := hs
    exact ⟨rfl, hs⟩

/-- Whether a result stands for another one: values are related, with what the state then is, and
errors are the same. -/
def StandsFor (I : State σ → Prop) (R : α → β → State σ → Prop) :
    Except Error α → Except Error β → State σ → Prop
  | .ok a, .ok b, s => R a b s
  | .error e, .error e', s => e = e' ∧ I s
  | _, _, _ => False

/-- From the states where `I` holds, a computation comes to a result that stands for `x`. -/
def Yields (I : State σ → Prop) (m : Render σ β) (x : Except Error α)
    (R : α → β → State σ → Prop) : Prop :=
  Leads I m (StandsFor I R x)

theorem Yields.bind {γ : Type} {m : Render σ β} {k : β → Render σ γ} {x : Except Error α}
    {f : α → Except Error γ} {R : α → β → State σ → Prop} (h : Yields I m x R)
    (hk : ∀ a b, x = .ok a → Leads (R a b) (k b) fun r s => r = f a ∧ I s) :
    Gives I (m >>= k) (x >>= f) := by
  cases x with
  | ok a => exact Leads.bind h (fun b => hk a b rfl) fun _ _ hs => nomatch hs
  | error e =>
    refine Leads.bind h (fun _ _ hs => nomatch hs) ?_
    rintro _ s ⟨rfl, hs⟩
    exact ⟨rfl, hs⟩

/-- Work in a context of its own leaves the memo of the one around it as it was. -/
theorem Gives.inChild {x : Except Error α} (h : Gives J m x)
    (hchild : ∀ s, I s → J { s with memo := ∅ })
    (hback : ∀ s t, I s → J t → I { t with memo := s.memo }) : Gives I (inChild m) x := by
  intro s hs
  obtain ⟨hx, ht⟩ := h { s with memo := ∅ } (hchild s hs)
  exact ⟨hx, hback s _ hs ht⟩

/-- Joins the texts that are found for some things. -/
def joinTexts (f : α → Except Error String) : List α → Except Error String
  | [] => .ok ""
  | a :: as => do
    let first ← f a
    let others ← joinTexts f as
    return first ++ others

theorem gives_joinEach {g : α → Render σ String} {f : α → Except Error String} {as : List α}
    (h : ∀ a ∈ as, Gives I (g a) (f a)) : Gives I (joinEach g as) (joinTexts f as) := by
  induction as with
  | nil => exact gives_pure ""
  | cons a as ih =>
    obtain ⟨ha, has⟩ := List.forall_mem_cons.1 h
    rw [joinEach, joinTexts]
    exact ha.bind fun first _ => (ih has).bind fun others _ => gives_pure _

theorem joinTexts_congr {f g : α → Except Error String} {as : List α}
    (h : ∀ a ∈ as, f a = g a) : joinTexts f as = joinTexts g as := by
  induction as with
  | nil => rfl
  | cons a as ih =>
    obtain ⟨ha, has⟩ := List.forall_mem_cons.1 h
    rw [joinTexts, joinTexts, ha, ih has]

end Mustache.Render
