import Mathlib.Data.List.Induction
import Mustache.Proofs.Template.Nested

/-!
# Which tokens nest

Which lists of tokens nest, what is kept of them, and what is wrong with the others, said of the
tokens alone. Tokens are balanced if every opening tag has its closing tag, of the same name, and
what stands between the two is balanced (`Balanced`). The tree of balanced tokens keeps the kind,
the value and the start of each of them, closing tags included, in the order of the template
(`outlines`).

All other tokens have a first fault. What is before it is balanced but for some tags that it leaves
open (`LeavesOpen`), and then there is a closing tag without an open section, one of another name
than the innermost open section, or the end (`FirstFault`).

**Idea.** Reading a list of tokens from the left, every closing tag closes the innermost open
section or is a fault, so a list without a fault in it leaves some sections open, maybe none
(`leavesOpen_or_fault`). Nesting keeps just those sections on its stack
(`LeavesOpen.nestFrom_append`), so it comes to the same fault.

Main statement: `nest_iff_balanced`.
-/

namespace Mustache

/-- What a tree keeps of any token: its kind, its value and where it starts. -/
def Token.outline (t : Token) : Token.Kind × String × Nat := (t.kind, t.value, t.start)

namespace Node

mutual

/-- The tokens of a node in the order of the template; a section's closing tag has the section's
value. -/
def outline : Node → List (Token.Kind × String × Nat)
  | leaf t => [t.outline]
  | block t children close => t.outline :: outlines children ++ [(.closeTag, t.value, close)]

/-- The tokens of some nodes in the order of the template. -/
def outlines : List Node → List (Token.Kind × String × Nat)
  | [] => []
  | x :: xs => outline x ++ outlines xs

end

/-- Every opening tag has a closing tag of the same name, and they are properly nested. -/
inductive Balanced : List Token → Prop
  | nil : Balanced []
  | leaf {t : Token} {ts : List Token} :
      t.kind.opensSection = false → t.kind ≠ .closeTag → Balanced ts → Balanced (t :: ts)
  | block {t c : Token} {us ts : List Token} :
      t.kind.opensSection = true → Balanced us → c.kind = .closeTag → c.value = t.value →
      Balanced ts → Balanced (t :: us ++ c :: ts)

/-- `LeavesOpen ts os`: the tokens `ts` are balanced but for the opening tags `os`, which are still
open at the end, the innermost one first. -/
inductive LeavesOpen : List Token → List Token → Prop
  | balanced {ts : List Token} : Balanced ts → LeavesOpen ts []
  | opened {ts us os : List Token} {t : Token} :
      LeavesOpen ts os → t.kind.opensSection = true → Balanced us →
      LeavesOpen (ts ++ t :: us) (t :: os)

/-- The first fault of some tokens, from the left. -/
inductive FirstFault : List Token → TemplateError → Prop
  | unopened {us ts : List Token} {c : Token} :
      LeavesOpen us [] → c.kind = .closeTag →
      FirstFault (us ++ c :: ts) (.unopenedSection c.value)
  | mismatch {us ts os : List Token} {o c : Token} :
      LeavesOpen us (o :: os) → c.kind = .closeTag → c.value ≠ o.value →
      FirstFault (us ++ c :: ts) (.unclosedSection o.value)
  | leftOpen {ts os : List Token} {o : Token} :
      LeavesOpen ts (o :: os) → FirstFault ts (.unclosedSection o.value)

variable {ts us os : List Token} {t c o : Token} {ns : List Node} {e : TemplateError}

/-! ## Balanced tokens -/

theorem balanced_iff_nested : Balanced ts ↔ ∃ ns, Nested ts ns := by
  constructor
  · intro h
    induction h with
    | nil => exact ⟨[], .nil⟩
    | leaf ho hc _ ih =>
      obtain ⟨ns, hns⟩ := ih
      exact ⟨_, .leaf ho hc hns⟩
    | block ho _ hc hv _ ih ih' =>
      obtain ⟨children, hchildren⟩ := ih
      obtain ⟨ns, hns⟩ := ih'
      exact ⟨_, .block ho hchildren hc hv hns⟩
  · rintro ⟨ns, h⟩
    induction h with
    | nil => exact .nil
    | leaf ho hc _ ih => exact .leaf ho hc ih
    | block ho _ hc hv _ ih ih' => exact .block ho ih hc hv ih'

theorem Balanced.append (h : Balanced ts) (h' : Balanced us) : Balanced (ts ++ us) := by
  induction h with
  | nil => exact h'
  | leaf ho hc _ ih => exact .leaf ho hc ih
  | block ho hvs hc hv _ _ ih =>
    rw [List.append_assoc, List.cons_append, List.cons_append]
    exact .block ho hvs hc hv ih

/-- The tree has the tokens that it was nested from. -/
theorem Nested.outlines_eq (h : Nested ts ns) : outlines ns = ts.map Token.outline := by
  induction h with
  | nil => rfl
  | leaf _ _ _ ih => simp [outlines, outline, ih]
  | block _ _ hc hv _ ih ih' => simp [outlines, outline, ih, ih', Token.outline, hc, hv]

/-! ## Open sections -/

theorem LeavesOpen.append (h : LeavesOpen ts os) (hus : Balanced us) :
    LeavesOpen (ts ++ us) os := by
  cases h with
  | balanced hts => exact .balanced (hts.append hus)
  | opened hts ho hvs =>
    rw [List.append_assoc, List.cons_append]
    exact .opened hts ho (hvs.append hus)

/-- A closing tag of the right name closes the innermost open section. -/
theorem LeavesOpen.close (h : LeavesOpen ts (o :: os)) (hc : c.kind = .closeTag)
    (hv : c.value = o.value) : LeavesOpen (ts ++ [c]) os := by
  cases h with
  | opened hts ho hus =>
    rw [List.append_assoc]
    exact hts.append (.block ho hus hc hv .nil)

/-- A closing tag closes nothing: there is no open section, or the innermost one has another
name. -/
def ClosesNothing (c : Token) (os : List Token) : Prop :=
  c.kind = .closeTag ∧ ∀ o ∈ os.head?, c.value ≠ o.value

/-- A list of tokens leaves some sections open, unless a closing tag in it closes nothing. -/
theorem leavesOpen_or_fault (ts : List Token) :
    (∃ os, LeavesOpen ts os) ∨
      ∃ us c rest os, ts = us ++ c :: rest ∧ LeavesOpen us os ∧ ClosesNothing c os := by
  -- What a tag does depends on those before it, so the induction takes the last one off.
  induction ts using List.reverseRecOn with
  | nil => exact .inl ⟨[], .balanced .nil⟩
  | append_singleton ts t ih =>
    rcases ih with ⟨os, hts⟩ | ⟨us, c, rest, os, rfl, hus, hc⟩
    · by_cases ho : t.kind.opensSection = true
      · exact .inl ⟨t :: os, .opened hts ho .nil⟩
      rw [Bool.not_eq_true] at ho
      by_cases hc : t.kind = .closeTag
      · cases os with
        | nil => exact .inr ⟨ts, t, [], [], rfl, hts, hc, by simp⟩
        | cons o os =>
          by_cases hv : t.value = o.value
          · exact .inl ⟨os, hts.close hc hv⟩
          · exact .inr ⟨ts, t, [], o :: os, rfl, hts, hc, by simpa using hv⟩
      · exact .inl ⟨os, hts.append (.leaf ho hc .nil)⟩
    · exact .inr ⟨us, c, rest ++ [t], os, by simp, hus, hc⟩

/-- A list of tokens is balanced or has a first fault. -/
theorem balanced_or_firstFault (ts : List Token) : Balanced ts ∨ ∃ e, FirstFault ts e := by
  rcases leavesOpen_or_fault ts with ⟨os, hts⟩ | ⟨us, c, rest, os, rfl, hus, hc, hv⟩
  · cases os with
    | nil =>
      cases hts with
      | balanced hts => exact .inl hts
    | cons o os => exact .inr ⟨_, .leftOpen hts⟩
  · cases os with
    | nil => exact .inr ⟨_, .unopened hus hc⟩
    | cons o os => exact .inr ⟨_, .mismatch hus hc (hv o (by simp))⟩

/-! ## Nesting -/

/-- After tokens that leave sections open, nesting has just those on its stack. -/
theorem LeavesOpen.nestFrom_append (h : LeavesOpen us os) (ts : List Token) :
    ∃ done around, around.map Open.tag = os ∧
      nestFrom [] [] (us ++ ts) = nestFrom done around ts := by
  induction h generalizing ts with
  | balanced hus =>
    obtain ⟨ns, hns⟩ := balanced_iff_nested.1 hus
    exact ⟨_, [], rfl, hns.nestFrom_append [] [] ts⟩
  | @opened us vs os t _ ho hvs ih =>
    obtain ⟨done, around, hmap, hnest⟩ := ih (t :: (vs ++ ts))
    obtain ⟨ns, hns⟩ := balanced_iff_nested.1 hvs
    refine ⟨ns.reverse ++ [], ⟨t, done⟩ :: around, by rw [List.map_cons, hmap], ?_⟩
    rw [List.append_assoc, List.cons_append, hnest, nestFrom_open ho, hns.nestFrom_append]

theorem FirstFault.nest_eq (h : FirstFault ts e) : nest ts = .error e := by
  rw [nest]
  cases h with
  | @unopened us rest c hus hc =>
    obtain ⟨done, around, hmap, hnest⟩ := hus.nestFrom_append (c :: rest)
    rw [hnest, List.map_eq_nil_iff.1 hmap, nestFrom_unopened hc]
  | @mismatch us rest os o c hus hc hv =>
    obtain ⟨done, around, hmap, hnest⟩ := hus.nestFrom_append (c :: rest)
    obtain ⟨innermost, outer, rfl, rfl, -⟩ := List.map_eq_cons_iff.1 hmap
    rw [hnest, nestFrom_mismatch hc hv]
  | @leftOpen ts os o hts =>
    obtain ⟨done, around, hmap, hnest⟩ := hts.nestFrom_append []
    obtain ⟨innermost, outer, rfl, rfl, -⟩ := List.map_eq_cons_iff.1 hmap
    rw [List.append_nil] at hnest
    rw [hnest, nestFrom]

theorem exists_nest_eq_ok_iff : (∃ ns, nest ts = .ok ns) ↔ Balanced ts := by
  simp only [nest_eq_ok_iff, balanced_iff_nested]

theorem nest_eq_error_iff : nest ts = .error e ↔ FirstFault ts e := by
  refine ⟨fun h => ?_, FirstFault.nest_eq⟩
  rcases balanced_or_firstFault ts with hts | ⟨e', he⟩
  · obtain ⟨ns, hns⟩ := exists_nest_eq_ok_iff.2 hts
    rw [h] at hns
    cases hns
  · have := he.nest_eq
    rw [h, Except.error.injEq] at this
    rwa [this]

/-- **Nesting accepts exactly the balanced tokens and loses nothing of them.** Otherwise it tells
their first fault from the left. -/
theorem nest_iff_balanced (ts : List Token) :
    ((∃ ns, nest ts = .ok ns) ↔ Balanced ts) ∧
      (∀ ns, nest ts = .ok ns → outlines ns = ts.map Token.outline) ∧
      ∀ e, nest ts = .error e ↔ FirstFault ts e :=
  ⟨exists_nest_eq_ok_iff, fun _ h => (nest_eq_ok_iff.1 h).outlines_eq, fun _ => nest_eq_error_iff⟩

end Node

end Mustache
