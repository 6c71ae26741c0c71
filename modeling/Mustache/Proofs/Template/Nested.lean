import Mathlib.Tactic.Common
import Mustache.Template.Node

/-!
# Nested tokens

`nest` reads tokens from left to right and keeps the sections that are still open on a stack.
`Nested` says without a stack which tree a list of tokens stands for: a section's tag, the tokens of
what it holds, and a closing tag of the same name make up one node, and every other token is a leaf.

Main statement: `nest_eq_ok_iff` (nesting succeeds with exactly the tree that the tokens stand for).
-/

namespace Mustache.Node

/-- `Nested ts ns`: the tokens `ts`, properly nested, stand for the nodes `ns`. -/
inductive Nested : List Token → List Node → Prop
  | nil : Nested [] []
  | leaf {t : Token} {ts : List Token} {ns : List Node} :
      t.kind.opensSection = false → t.kind ≠ .closeTag → Nested ts ns →
      Nested (t :: ts) (.leaf t :: ns)
  | block {t c : Token} {us ts : List Token} {children ns : List Node} :
      t.kind.opensSection = true → Nested us children → c.kind = .closeTag → c.value = t.value →
      Nested ts ns → Nested (t :: us ++ c :: ts) (.block t children c.start :: ns)

/-! ## Reading the tokens of a tree -/

theorem nestFrom_leaf {t : Token} (ho : t.kind.opensSection = false) (hc : t.kind ≠ .closeTag)
    (done : List Node) (around : List Open) (ts : List Token) :
    nestFrom done around (t :: ts) = nestFrom (.leaf t :: done) around ts := by
  cases around <;> rw [nestFrom, if_neg (by simp [ho]), if_neg hc]

theorem nestFrom_open {t : Token} (ho : t.kind.opensSection = true) (done : List Node)
    (around : List Open) (ts : List Token) :
    nestFrom done around (t :: ts) = nestFrom [] (⟨t, done⟩ :: around) ts := by
  cases around <;> rw [nestFrom, if_pos ho]

theorem not_opensSection_of_close {t : Token} (hc : t.kind = .closeTag) :
    t.kind.opensSection = false := by
  rw [hc]; rfl

theorem nestFrom_close {c : Token} (hc : c.kind = .closeTag) {o : Open}
    (hv : c.value = o.tag.value) (done : List Node) (around : List Open) (ts : List Token) :
    nestFrom done (o :: around) (c :: ts) =
      nestFrom (.block o.tag done.reverse c.start :: o.before) around ts := by
  rw [nestFrom, if_neg (by simp [not_opensSection_of_close hc]), if_pos hc, if_pos hv.symm]

theorem nestFrom_unopened {c : Token} (hc : c.kind = .closeTag) (done : List Node)
    (ts : List Token) : nestFrom done [] (c :: ts) = .error (.unopenedSection c.value) := by
  rw [nestFrom, if_neg (by simp [not_opensSection_of_close hc]), if_pos hc]

theorem nestFrom_mismatch {c : Token} (hc : c.kind = .closeTag) {o : Open}
    (hv : c.value ≠ o.tag.value) (done : List Node) (around : List Open) (ts : List Token) :
    nestFrom done (o :: around) (c :: ts) = .error (.unclosedSection o.tag.value) := by
  rw [nestFrom, if_neg (by simp [not_opensSection_of_close hc]), if_pos hc, if_neg (Ne.symm hv)]

/-- Nested tokens are read into their nodes, whatever is open around them and follows them. -/
theorem Nested.nestFrom_append {us : List Token} {ns : List Node} (h : Nested us ns)
    (done : List Node) (around : List Open) (ts : List Token) :
    nestFrom done around (us ++ ts) = nestFrom (ns.reverse ++ done) around ts := by
  induction h generalizing done around ts with
  | nil => rfl
  | leaf ho hc _ ih => simp [nestFrom_leaf ho hc, ih]
  | @block t c us vs children ns ho _ hc hv _ ih ih' =>
    rw [List.append_assoc, List.cons_append, nestFrom_open ho, ih, List.cons_append,
      nestFrom_close hc hv, ih']
    simp

/-! ## The tree that was read -/

/-- What is left of a read with no section open stands for the nodes after those done before. With a
section open, it begins with nested tokens and the closing tag of that section. -/
theorem nested_of_nestFrom {ts : List Token} {done ns : List Node} {around : List Open}
    (h : nestFrom done around ts = .ok ns) :
    match around with
    | [] => ∃ ms, Nested ts ms ∧ ns = done.reverse ++ ms
    | o :: outer => ∃ us c rest ms, ts = us ++ c :: rest ∧ Nested us ms ∧ c.kind = .closeTag ∧
        c.value = o.tag.value ∧
        nestFrom (.block o.tag (done.reverse ++ ms) c.start :: o.before) outer rest = .ok ns := by
  -- A section takes away the tokens up to its closing tag, so the induction is on the length.
  induction hn : ts.length using Nat.strongRecOn generalizing ts done around with
  | _ n ih =>
    subst hn
    cases ts with
    | nil =>
      cases around with
      | nil =>
        rw [nestFrom] at h
        cases h
        exact ⟨[], .nil, by simp⟩
      | cons o outer => rw [nestFrom] at h; cases h
    | cons t ts =>
      by_cases ho : t.kind.opensSection = true
      · rw [nestFrom_open ho] at h
        obtain ⟨us, c, rest, ms, rfl, hms, hc, hv, hrest⟩ := ih _ (by simp) h rfl
        have := ih rest.length (by simp; omega) hrest rfl
        cases around with
        | nil =>
          obtain ⟨ks, hks, rfl⟩ := this
          exact ⟨.block t ms c.start :: ks, .block ho hms hc hv hks, by simp⟩
        | cons o outer =>
          obtain ⟨vs, e, rest', ks, rfl, hks, he, hev, hrest'⟩ := this
          refine ⟨t :: us ++ c :: vs, e, rest', .block t ms c.start :: ks, by simp,
            .block ho hms hc hv hks, he, hev, ?_⟩
          simpa using hrest'
      · rw [Bool.not_eq_true] at ho
        by_cases hc : t.kind = .closeTag
        · cases around with
          | nil => rw [nestFrom, if_neg (by simp [ho]), if_pos hc] at h; cases h
          | cons o outer =>
            by_cases hv : t.value = o.tag.value
            · rw [nestFrom_close hc hv] at h
              exact ⟨[], t, ts, [], rfl, .nil, hc, hv, by simpa using h⟩
            · rw [nestFrom, if_neg (by simp [ho]), if_pos hc, if_neg (Ne.symm hv)] at h
              cases h
        · rw [nestFrom_leaf ho hc] at h
          have := ih _ (by simp) h rfl
          cases around with
          | nil =>
            obtain ⟨ms, hms, rfl⟩ := this
            exact ⟨.leaf t :: ms, .leaf ho hc hms, by simp⟩
          | cons o outer =>
            obtain ⟨us, c, rest, ms, rfl, hms, hck, hv, hrest⟩ := this
            refine ⟨t :: us, c, rest, .leaf t :: ms, rfl, .leaf ho hc hms, hck, hv, ?_⟩
            simpa using hrest

/-- **Nesting succeeds with exactly the tree that the tokens stand for.** -/
theorem nest_eq_ok_iff {ts : List Token} {ns : List Node} : nest ts = .ok ns ↔ Nested ts ns := by
  constructor
  · intro h
    have hread : nestFrom [] [] ts = .ok ns := h
    obtain ⟨ms, hms, rfl⟩ := nested_of_nestFrom hread
    simpa using hms
  · intro h
    have := h.nestFrom_append [] [] []
    simpa [nest, nestFrom] using this

end Mustache.Node
