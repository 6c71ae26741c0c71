import Mathlib.Tactic.Common
import Mustache.Proofs.Render.Alike

/-!
# Sections and inverted sections

How often a section renders what it holds, and in which context. A section decides by the kind of
its value and then, for most kinds, by its truth; an inverted section decides by truth alone. The
two never disagree: what the inverted section holds is rendered if and only if what the section
holds is not rendered at all.

**Idea.** Each time that a section renders what it holds is a round, in the section's own context or
in a child (`Round`). The rounds of a value are a list (`Value.rounds`), which is empty just for the
false values (`Value.rounds_eq_nil_iff`); for a sequence this is because its truth is that of its
size, whatever its items are.

Main statement: `Node.sections_complementary`.
-/

namespace Mustache

/-- One time that a section renders what it holds: in its own context, or in a child of it with a
view of its own. -/
inductive Round
  | same
  | child (view : Value)

/-- The rounds of a section whose value is no callable. -/
def Value.rounds (v : Value) : List Round :=
  match v.kind with
  | .sequence => v.items.map .child
  | .mapping => if v.truth then [.child v] else []
  | .scalar => if v.truth then [.same] else []
  | .null | .callable => []

/-- `v.Turns rounds`: for a sequence, there is a round for each item, in order, so as many as it has
items; for any other true value there is one, in a child if it is a mapping, and for a false one
there is none. -/
structure Value.Turns (v : Value) (rounds : List Round) : Prop where
  sequence : v.kind = .sequence → rounds = v.items.map .child ∧ v.size? = some rounds.length
  mapping : v.kind = .mapping → v.truth = true → rounds = [.child v]
  scalar : v.kind = .scalar → v.truth = true → rounds = [.same]
  false : v.kind ≠ .sequence → v.truth = false → rounds = []

namespace Value

variable {v : Value}

theorem size?_of_sequence (h : v.kind = .sequence) : v.size? = some v.items.length := by
  cases v with
  | list items => rfl
  | tuple items => rfl
  | range start stop step => simp [size?, items, Range.items]
  | object o => rw [kind] at h; split at h <;> cases h
  | _ => cases h

/-- A sequence is true if it has any items, be they true or false. -/
theorem truth_of_sequence (h : v.kind = .sequence) : v.truth = !v.items.isEmpty := by
  cases v with
  | list items => rfl
  | tuple items => rfl
  | range start stop step =>
    rw [truth, items, Range.items]
    cases Range.size start stop step with
    | zero => rfl
    | succ n => simp
  | object o => rw [kind] at h; split at h <;> cases h
  | _ => cases h

theorem truth_of_null (h : v.kind = .null) : v.truth = false := by
  cases v with
  | null => rfl
  | object o => rw [kind] at h; split at h <;> cases h
  | _ => cases h

theorem turns_rounds (v : Value) : v.Turns v.rounds where
  sequence h := by simp [rounds, h, size?_of_sequence h]
  mapping h ht := by simp [rounds, h, ht]
  scalar h ht := by simp [rounds, h, ht]
  false h ht := by
    rw [rounds]
    split <;> simp_all

/-- **A section has no rounds if and only if its value is false.** -/
theorem rounds_eq_nil_iff (hv : v.isCallable = false) : v.rounds = [] ↔ v.truth = false := by
  rw [rounds]
  split
  · next h => simp [truth_of_sequence h]
  · simp
  · simp
  · next h => simp [truth_of_null h]
  · next h => simp [isCallable, h] at hv

end Value

namespace Render

variable {σ : Type}

/-- Renders some nodes in one round of the section that holds them. -/
def inRound (deeper : Deeper σ) (template : String) (scope : Scope) (children : List Node) :
    Round → Render σ String
  | .same => Node.renderAll deeper template scope children
  | .child view => inChild (Node.renderAll deeper template (scope.push view) children)

theorem joinEach_map {α β : Type} (f : β → Render σ String) (g : α → β) (as : List α) :
    joinEach f (as.map g) = joinEach (fun a => f (g a)) as := by
  induction as with
  | nil => rfl
  | cons a as ih => rw [List.map_cons, joinEach, joinEach, ih]

theorem joinEach_singleton {α : Type} (f : α → Render σ String) (a : α) :
    joinEach f [a] = f a := by
  have hempty : (fun first : String => (pure (first ++ "") : Render σ String)) = pure :=
    funext fun first => by rw [String.append_empty]
  rw [joinEach, joinEach]
  simp only [pure_bind, hempty, bind_pure]

end Render

namespace Node

open Render

variable {σ : Type}

variable {deeper : Deeper σ} {template : String} {scope : Scope} {t : Token} {s s' : State σ}
  {v w : Value}

/-- What is rendered for a section after its name was looked up. -/
theorem runFrom_block (hlook : (lookup deeper scope t.value).runFrom s = (.ok w, s'))
    (hnow : w.current s'.tally = v) (children : List Node) (close : Nat) :
    (render deeper template scope (block t children close)).runFrom s =
      ((if t.kind = .invertedTag then
          if v.truth then pure "" else renderAll deeper template scope children
        else
          match v.kind with
          | .null => pure ""
          | .scalar => if v.truth then renderAll deeper template scope children else pure ""
          | .mapping =>
            if v.truth then inChild (renderAll deeper template (scope.push v) children)
            else pure ""
          | .sequence =>
            joinItems
              (fun item => inChild (renderAll deeper template (scope.push item) children)) v
          | .callable => do
            let args := sectionArguments scope (source template t.stop close) v.required
            let result ← deeper.apply scope v args
            ofCurrent shown result) : Render σ String).runFrom s' := by
  subst hnow
  rw [render, runFrom_bind, hlook]
  rfl

/-- A section renders what it holds in each of its rounds, one after the other. -/
theorem runFrom_section (ht : t.kind = .sectionTag)
    (hlook : (lookup deeper scope t.value).runFrom s = (.ok w, s'))
    (hnow : w.current s'.tally = v) (hv : v.isCallable = false) (children : List Node)
    (close : Nat) :
    (render deeper template scope (block t children close)).runFrom s =
      (joinEach (inRound deeper template scope children) v.rounds).runFrom s' := by
  rw [runFrom_block hlook hnow]
  simp only [ht, reduceCtorEq, if_false, Value.rounds]
  cases hk : v.kind with
  | null => rfl
  | scalar =>
    cases v.truth with
    | true => simp only [if_true, joinEach_singleton, inRound]
    | false => rfl
  | mapping =>
    cases v.truth with
    | true => simp only [if_true, joinEach_singleton, inRound]
    | false => rfl
  | sequence =>
    rw [joinItems_eq_joinEach, joinEach_map]
    rfl
  | callable => simp [Value.isCallable, hk] at hv

/-- An inverted section renders what it holds in its own context if its value is false. -/
theorem runFrom_inverted (ht : t.kind = .invertedTag)
    (hlook : (lookup deeper scope t.value).runFrom s = (.ok w, s'))
    (hnow : w.current s'.tally = v) (children : List Node) (close : Nat) :
    (render deeper template scope (block t children close)).runFrom s =
      if v.truth then (.ok "", s') else (renderAll deeper template scope children).runFrom s' := by
  rw [runFrom_block hlook hnow]
  simp only [ht, if_true]
  split <;> rfl

/-- **Sections and inverted sections are complementary.** Wherever a name stands for what is `v` by
now, a section renders what it holds in the rounds of `v`, and an inverted section renders what it
holds once, in the unchanged context, if there are no rounds, and otherwise nothing. -/
theorem sections_complementary (σ : Type) {v : Value} (hv : v.isCallable = false) :
    ∃ rounds, v.Turns rounds ∧
      ∀ (deeper : Deeper σ) (template : String) (scope : Scope) (name : String) (s s' : State σ)
        (w : Value),
        (lookup deeper scope name).runFrom s = (.ok w, s') → w.current s'.tally = v →
        ∀ (children : List Node) (start stop close : Nat),
          (render deeper template scope
              (block ⟨.sectionTag, name, start, stop⟩ children close)).runFrom s =
            (joinEach (inRound deeper template scope children) rounds).runFrom s' ∧
          (render deeper template scope
              (block ⟨.invertedTag, name, start, stop⟩ children close)).runFrom s =
            if rounds.isEmpty then (renderAll deeper template scope children).runFrom s'
            else (.ok "", s') := by
  refine ⟨v.rounds, v.turns_rounds, ?_⟩
  intro deeper template scope name s s' w hlook hnow children start stop close
  refine ⟨runFrom_section rfl hlook hnow hv children close, ?_⟩
  rw [runFrom_inverted rfl hlook hnow]
  cases ht : v.truth with
  | true =>
    have hrounds : v.rounds ≠ [] := by simp [Value.rounds_eq_nil_iff hv, ht]
    simp [hrounds]
  | false => simp [(Value.rounds_eq_nil_iff hv).2 ht]

/-- A sequence whose items are all false has as many rounds as items. -/
theorem sections_of_falsyItems :
    let deeper : Deeper Unit :=
      ⟨fun _ text => text, fun _ _ _ => throw .tooDeep, fun _ _ => throw .tooDeep⟩
    let scope := Scope.ofView (.dict [(.str "a", .list [.bool false, .null])])
    let children := [leaf ⟨.text, "x", 6, 7⟩]
    ((render deeper "" scope (block ⟨.sectionTag, "a", 0, 6⟩ children 7)).runFrom
        ⟨(), ∅, ∅, []⟩).1 = .ok "xx" ∧
      ((render deeper "" scope (block ⟨.invertedTag, "a", 0, 6⟩ children 7)).runFrom
        ⟨(), ∅, ∅, []⟩).1 = .ok "" := by
  intro deeper scope children
  have hlook : (lookup deeper scope "a").runFrom ⟨(), ∅, ∅, []⟩ =
      (.ok (.list [.bool false, .null]),
        ⟨(), (∅ : Table Value).insert "a" (.list [.bool false, .null]), ∅, []⟩) := rfl
  obtain ⟨rounds, hturns, h⟩ :=
    sections_complementary Unit (v := .list [.bool false, .null]) rfl
  obtain ⟨rfl, -⟩ := hturns.sequence rfl
  obtain ⟨hsection, hinverted⟩ := h deeper "" scope "a" _ _ _ hlook rfl children 0 6 7
  constructor
  · rw [hsection]
    rfl
  · rw [hinverted]
    rfl

end Node

end Mustache
