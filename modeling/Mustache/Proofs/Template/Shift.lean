import Mustache.Proofs.Template.Offsets

/-!
# Moving tokens

A text that stands further back in a template is read into the same tokens, further back. Offsets
decide nothing on the way from characters to trees: they are carried along by the scan, and neither
what is blank, nor what is joined, nor what closes a section depends on them.

Main statements: `scan_shift`, `strip_shift`, `squash_shift` and `Node.nest_shift`.
-/

namespace Mustache

/-- A token `n` characters further back. -/
def Token.shift (n : Nat) (t : Token) : Token :=
  { t with start := t.start + n, stop := t.stop + n }

/-- A fault `n` characters further back; only an unclosed tag has a place. -/
def TemplateError.shift (n : Nat) : TemplateError → TemplateError
  | unclosedTag position => unclosedTag (position + n)
  | e => e

namespace Node

mutual

/-- A node `n` characters further back, with all that it holds. -/
def shift (n : Nat) : Node → Node
  | leaf t => leaf (t.shift n)
  | block t children close => block (t.shift n) (shiftAll n children) (close + n)

/-- Nodes `n` characters further back. -/
def shiftAll (n : Nat) : List Node → List Node
  | [] => []
  | x :: xs => shift n x :: shiftAll n xs

end

theorem shiftAll_eq_map (n : Nat) (ns : List Node) : shiftAll n ns = ns.map (shift n) := by
  induction ns with
  | nil => rw [shiftAll, List.map_nil]
  | cons x xs ih => rw [shiftAll, List.map_cons, ih]

theorem shift_block (n : Nat) (t : Token) (children : List Node) (close : Nat) :
    (block t children close).shift n =
      block (t.shift n) (children.map (shift n)) (close + n) := by
  rw [shift, shiftAll_eq_map]

mutual

theorem shift_shift (m n : Nat) : ∀ x : Node, (x.shift m).shift n = x.shift (m + n)
  | leaf t => by simp only [shift, Token.shift, Nat.add_assoc]
  | block t children close => by
    simp only [shift, Token.shift, Nat.add_assoc, shiftAll_shiftAll m n children]

theorem shiftAll_shiftAll (m n : Nat) :
    ∀ ns : List Node, shiftAll n (shiftAll m ns) = shiftAll (m + n) ns
  | [] => rfl
  | x :: xs => by
    rw [shiftAll, shiftAll, shiftAll, shift_shift m n x, shiftAll_shiftAll m n xs]

end

theorem token_shift_injective {n : Nat} {t u : Token} (h : t.shift n = u.shift n) : t = u := by
  obtain ⟨kind, value, start, stop⟩ := t
  obtain ⟨kind', value', start', stop'⟩ := u
  simpa [Token.shift] using h

mutual

theorem shift_injective (n : Nat) : ∀ {x y : Node}, x.shift n = y.shift n → x = y
  | leaf t, leaf u, h => by rw [token_shift_injective (leaf.inj h)]
  | leaf _, block _ _ _, h => nomatch h
  | block _ _ _, leaf _, h => nomatch h
  | block t children close, block u kids stop, h => by
    obtain ⟨ht, hchildren, hclose⟩ := block.inj h
    rw [token_shift_injective ht, shiftAll_injective n hchildren, Nat.add_right_cancel hclose]

theorem shiftAll_injective (n : Nat) :
    ∀ {ns ms : List Node}, shiftAll n ns = shiftAll n ms → ns = ms
  | [], [], _ => rfl
  | [], _ :: _, h => nomatch h
  | _ :: _, [], h => nomatch h
  | x :: xs, y :: ys, h => by
    obtain ⟨hx, hxs⟩ := List.cons.inj h
    rw [shift_injective n hx, shiftAll_injective n hxs]

end

end Node

namespace Token

variable (n : Nat) (t : Token)

@[simp] theorem shift_kind : (t.shift n).kind = t.kind := rfl

@[simp] theorem shift_stop : (t.shift n).stop = t.stop + n := rfl

@[simp] theorem isBlank_shift : (t.shift n).isBlank = t.isBlank := rfl

@[simp] theorem isVisible_shift : (t.shift n).isVisible = t.isVisible := rfl

@[simp] theorem endsLine_shift : (t.shift n).endsLine = t.endsLine := rfl

theorem ofChar_shift (c : Char) (p : Nat) : (ofChar c p).shift n = ofChar c (p + n) := by
  simp only [shift, ofChar, Nat.add_right_comm]

end Token

theorem Tag.token_shift (tag : Tag) (p n : Nat) :
    (tag.token p).shift n = tag.token (p + n) := by
  simp only [Token.shift, Tag.token, Nat.add_right_comm]

namespace Template

open Token (shift)

/-! ## Scanning -/

theorem tag_delimiters_shift {tag : Tag} {d : Delimiters} {e : TemplateError}
    (h : tag.delimiters d = .error e) (n : Nat) : e.shift n = e := by
  rw [Tag.delimiters, Delimiters.ofText] at h
  split at h
  · unfold Delimiters.ofItems at h
    split at h
    · split at h <;> cases h
      rfl
    · cases h
      rfl
  · cases h

/-- **A text that stands further back** is scanned into the same tokens, further back. -/
theorem scan_shift (d : Delimiters) (p n k : Nat) (s : List Char) :
    scan d (p + n) k s = ((scan d p k s).map (List.map (shift n))).mapError (·.shift n) := by
  induction s generalizing d p k with
  | nil => cases k <;> rfl
  | cons c r ih =>
    have hnext : p + n + 1 = p + 1 + n := Nat.add_right_comm p n 1
    cases k with
    | succ k => rw [scan, scan, hnext, ih]
    | zero =>
      rw [scan, scan, hnext]
      split
      · cases Tag.read? d (c :: r) with
        | none => simp only [Except.map, Except.mapError, TemplateError.shift, Nat.add_right_comm]
        | some tag =>
          show (tag.delimiters d >>= _) = Except.mapError _ (Except.map _ (tag.delimiters d >>= _))
          cases hd : tag.delimiters d with
          | error e => exact congrArg Except.error (tag_delimiters_shift hd n).symm
          | ok d' =>
            simp only [bind, Except.bind, ih]
            cases scan d' (p + 1) (tag.length - 1) r with
            | error e => rfl
            | ok ts =>
              simp [Except.map, Except.mapError, Except.pure, pure, Tag.token_shift]
      · simp only [ih]
        cases scan d (p + 1) 0 r with
        | error e => rfl
        | ok ts =>
          simp [bind, Except.bind, Except.map, Except.mapError, Except.pure, pure,
            Token.ofChar_shift]

/-- What tiles a text that stands further back is what tiles it at the start, further back. -/
theorem tiles_shift_iff {d : Delimiters} {s : List Char} {p n : Nat} {us : List Token} :
    Tiles d s (p + n) us ↔ ∃ ts, Tiles d s p ts ∧ us = ts.map (shift n) := by
  rw [← scan_eq_ok_iff, scan_shift]
  simp only [← scan_eq_ok_iff]
  cases scan d p 0 s <;> simp [Except.map, Except.mapError, eq_comm]

/-! ## Stripping, joining and nesting -/

theorem lines_shift (n : Nat) (ts : List Token) :
    lines (ts.map (shift n)) = (lines ts).map (List.map (shift n)) := by
  induction ts with
  | nil => rfl
  | cons t ts ih =>
    rw [List.map_cons, lines, lines, ih, Token.endsLine_shift]
    split
    · rfl
    · cases lines ts <;> rfl

theorem stripLine_shift (n : Nat) (line : List Token) :
    stripLine (line.map (shift n)) = (stripLine line).map (shift n) := by
  have hstandalone : isStandalone (line.map (shift n)) = isStandalone line := by
    simp [isStandalone, List.any_map, Function.comp_def]
  rw [stripLine, stripLine, hstandalone]
  split
  · simp [List.filter_map, Function.comp_def]
  · rfl

theorem strip_shift (n : Nat) (ts : List Token) :
    strip (ts.map (shift n)) = (strip ts).map (shift n) := by
  simp only [strip, lines_shift, List.flatMap_map, stripLine_shift, List.map_flatMap]

theorem squash_shift (n : Nat) (ts : List Token) :
    squash (ts.map (shift n)) = (squash ts).map (shift n) := by
  induction ts with
  | nil => rfl
  | cons t ts ih =>
    rw [List.map_cons, squash_cons, squash_cons, ih]
    cases squash ts with
    | nil => rfl
    | cons u us =>
      rw [List.map_cons, joinHead, joinHead, Token.shift_kind, Token.shift_kind]
      split <;> rfl

end Template

namespace Node

/-- An open section further back. -/
def Open.shift (n : Nat) (o : Open) : Open := ⟨o.tag.shift n, o.before.map (Node.shift n)⟩

theorem nestFrom_shift (n : Nat) (done : List Node) (around : List Open) (ts : List Token) :
    nestFrom (done.map (shift n)) (around.map (Open.shift n)) (ts.map (Token.shift n)) =
      ((nestFrom done around ts).map (List.map (shift n))).mapError (·.shift n) := by
  induction ts generalizing done around with
  | nil =>
    cases around with
    | nil => simp [nestFrom, Except.map, Except.mapError]
    | cons o outer => rfl
  | cons t ts ih =>
    by_cases ho : t.kind.opensSection = true
    · rw [nestFrom_open ho, ← ih]
      exact nestFrom_open (t := t.shift n) ho _ _ _
    · rw [Bool.not_eq_true] at ho
      by_cases hc : t.kind = .closeTag
      · cases around with
        | nil =>
          rw [nestFrom_unopened hc]
          exact nestFrom_unopened (c := t.shift n) hc _ _
        | cons o outer =>
          by_cases hv : t.value = o.tag.value
          · rw [nestFrom_close hc hv, ← ih, List.map_cons, List.map_cons, List.map_cons,
              shift_block, List.map_reverse]
            exact nestFrom_close (c := t.shift n) (o := o.shift n) hc hv _ _ _
          · rw [nestFrom_mismatch hc hv]
            exact nestFrom_mismatch (c := t.shift n) (o := o.shift n) hc hv _ _ _
      · rw [nestFrom_leaf ho hc, ← ih, List.map_cons, List.map_cons, shift]
        exact nestFrom_leaf (t := t.shift n) ho hc _ _ _

/-- Tokens further back stand for the same tree, further back. -/
theorem nest_shift (n : Nat) (ts : List Token) :
    nest (ts.map (Token.shift n)) = ((nest ts).map (shiftAll n)).mapError (·.shift n) := by
  have := nestFrom_shift n [] [] ts
  rw [show shiftAll n = List.map (shift n) from funext (shiftAll_eq_map n)]
  exact this

end Node

end Mustache
