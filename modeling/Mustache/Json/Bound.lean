import Mustache.Json.Reader

/-!
# The bound of the JSON reader

Reading counts down steps, and every character pays for two of them. `EndsWithin n` says of an
answer that it was not cut short by the count and leaves fewer than `n` characters. It holds of
every reading function that is given enough steps, by induction on the steps; hence
`readChars_ne_outOfSteps`.
-/

namespace Mustache.Json

/-- The answer was not cut short, and what it leaves has fewer than `n` characters. -/
def EndsWithin {α : Type} (n : Nat) : Except Stop (Read α) → Prop
  | .ok r => r.rest.length < n
  | .error .outOfSteps => False
  | .error _ => True

theorem EndsWithin.mono {α : Type} {m n : Nat} {x : Except Stop (Read α)} (h : EndsWithin m x)
    (hmn : m ≤ n) : EndsWithin n x := by
  match x, h with
  | .ok r, h => exact Nat.lt_of_lt_of_le h hmn
  | .error (.fault _ _), _ => trivial
  | .error (.digits _), _ => trivial
  | .error .loneHalf, _ => trivial

theorem EndsWithin.map {α β : Type} {n : Nat} {x : Except Stop (Read α)} (h : EndsWithin n x)
    (f : α → β) : EndsWithin n (x.map (·.map f)) := by
  match x, h with
  | .ok r, h => exact h
  | .error (.fault _ _), _ => trivial
  | .error (.digits _), _ => trivial
  | .error .loneHalf, _ => trivial

/-- One answer after another: the second starts where the first ends. -/
theorem EndsWithin.bind {α β : Type} {m n : Nat} {x : Except Stop (Read α)} (h : EndsWithin m x)
    {f : Read α → Except Stop (Read β)} (hf : ∀ r, r.rest.length < m → EndsWithin n (f r)) :
    EndsWithin n (x >>= f) := by
  match x, h with
  | .ok r, h => exact hf r h
  | .error (.fault _ _), _ => trivial
  | .error (.digits _), _ => trivial
  | .error .loneHalf, _ => trivial

/-! ## Parts -/

theorem length_skipSpace_le (offset : Nat) (s : List Char) :
    (skipSpace offset s).2.length ≤ s.length :=
  (List.dropWhile_sublist _).length_le

theorem endsWithin_readString (start offset : Nat) (s : List Char) :
    EndsWithin s.length (readString start offset s) := by
  fun_induction readString start offset s with
  | case1 | case3 | case4 | case5 | case7 | case8 | case9 | case11 | case12 | case14 => trivial
  | case2 => exact Nat.lt_succ_self _
  | _ => exact (EndsWithin.mono (by assumption) (by simp; try omega)).map _

theorem length_readDigits_le (offset : Nat) (s : List Char) :
    (readDigits offset s).rest.length ≤ s.length :=
  (List.dropWhile_sublist _).length_le

theorem length_readMinus_le (offset : Nat) (s : List Char) :
    (readMinus offset s).rest.length ≤ s.length := by
  unfold readMinus
  split <;> simp

theorem length_readWhole_lt {offset : Nat} {s : List Char}
    (h : (readWhole offset s).result ≠ []) : (readWhole offset s).rest.length < s.length := by
  unfold readWhole at h ⊢
  split at h
  · simp
  · have h1 := congrArg List.length (@List.takeWhile_append_dropWhile _ Char.isDigit s)
    have h2 : 0 < (s.takeWhile Char.isDigit).length := List.length_pos_iff.2 h
    show (s.dropWhile Char.isDigit).length < s.length
    rw [List.length_append] at h1
    omega

theorem length_readFraction_le (offset : Nat) (s : List Char) :
    (readFraction offset s).rest.length ≤ s.length := by
  unfold readFraction
  split
  · split
    · exact Nat.le_trans (length_readDigits_le _ _) (by simp)
    · simp
  · simp

theorem length_readSign_le (offset : Nat) (s : List Char) :
    (readSign offset s).rest.length ≤ s.length := by
  unfold readSign
  split
  · simp
  · exact length_readMinus_le offset s

theorem length_readExponent_le (offset : Nat) (s : List Char) :
    (readExponent offset s).rest.length ≤ s.length := by
  unfold readExponent
  split
  · simp
  · next e r =>
    have h1 := length_readSign_le (offset + 1) r
    have h2 := length_readDigits_le (readSign (offset + 1) r).offset (readSign (offset + 1) r).rest
    split
    · dsimp only
      split
      · simp
      · exact Nat.le_succ_of_le (Nat.le_trans h2 h1)
    · simp

theorem endsWithin_readNumber (offset : Nat) (s : List Char) :
    EndsWithin s.length (readNumber offset s) := by
  have h1 := length_readMinus_le offset s
  unfold readNumber
  dsimp only
  split
  · trivial
  · next hw =>
    have h2 := length_readWhole_lt hw
    have h3 := length_readFraction_le (readWhole (readMinus offset s).offset
      (readMinus offset s).rest).offset (readWhole (readMinus offset s).offset
      (readMinus offset s).rest).rest
    have h4 := length_readExponent_le (readFraction (readWhole (readMinus offset s).offset
      (readMinus offset s).rest).offset (readWhole (readMinus offset s).offset
      (readMinus offset s).rest).rest).offset (readFraction (readWhole (readMinus offset s).offset
      (readMinus offset s).rest).offset (readWhole (readMinus offset s).offset
      (readMinus offset s).rest).rest).rest
    split
    · split
      · trivial
      · dsimp only [EndsWithin, Read.map]
        omega
    · dsimp only [EndsWithin, Read.map]
      omega

theorem endsWithin_readLeaf (offset : Nat) (c : Char) (r : List Char) :
    EndsWithin (c :: r).length (readLeaf offset (c :: r)) := by
  unfold readLeaf
  split
  · next word j h =>
    have hne : ∀ w ∈ wordDocuments, 0 < w.1.length := by
      intro w hw
      simp only [wordDocuments, List.mem_cons, List.not_mem_nil, or_false] at hw
      rcases hw with rfl | rfl | rfl | rfl | rfl | rfl <;> decide
    have : 0 < word.length := hne _ (List.mem_of_find?_eq_some h)
    show (List.drop word.length (c :: r)).length < _
    rw [List.length_drop, List.length_cons]
    omega
  · exact endsWithin_readNumber offset (c :: r)

/-! ## Documents -/

/-- A document after a colon starts behind it. -/
theorem EndsWithin.afterColon {α : Type} {n offset : Nat} {s : List Char}
    {f : Nat × List Char → Except Stop (Read α)}
    (hf : ∀ t, t.2.length < s.length → EndsWithin n (f t)) :
    EndsWithin n (readColon offset s >>= f) := by
  unfold readColon
  split
  · next after r hs =>
    have h := length_skipSpace_le offset s
    rw [hs, List.length_cons] at h
    exact hf _ (Nat.lt_of_le_of_lt (length_skipSpace_le (after + 1) r) h)
  · trivial

/-- Reading with enough steps: two for each character that is left, and one or two to start with. -/
theorem endsWithin_read (steps : Nat) :
    (∀ offset s, 2 * s.length + 1 ≤ steps → EndsWithin s.length (readValue steps offset s)) ∧
    (∀ offset s, 2 * s.length + 2 ≤ steps → EndsWithin s.length (readItems steps offset s)) ∧
    (∀ offset s, 2 * s.length + 2 ≤ steps → EndsWithin s.length (readMembers steps offset s)) := by
  induction steps with
  | zero => exact ⟨fun _ _ h => by omega, fun _ _ h => by omega, fun _ _ h => by omega⟩
  | succ steps ih =>
    obtain ⟨ihValue, ihItems, ihMembers⟩ := ih
    refine ⟨fun offset s h => ?_, fun offset s h => ?_, fun offset s h => ?_⟩
    · cases s with
      | nil => trivial
      | cons c r =>
        rw [List.length_cons] at h
        have hskip := length_skipSpace_le (offset + 1) r
        rw [readValue]
        split
        · exact ((endsWithin_readString _ _ r).mono (Nat.le_succ _)).map _
        · split
          · split
            · next hs =>
              rw [hs, List.length_cons] at hskip
              dsimp only [EndsWithin]
              rw [List.length_cons]
              omega
            · next hs =>
              rw [hs] at hskip
              dsimp only at hskip
              exact ((ihItems _ _ (by omega)).mono (by rw [List.length_cons]; omega)).map _
          · split
            · split
              · next hs =>
                rw [hs, List.length_cons] at hskip
                dsimp only [EndsWithin]
                rw [List.length_cons]
                omega
              · next hs =>
                rw [hs] at hskip
                dsimp only at hskip
                exact ((ihMembers _ _ (by omega)).mono (by rw [List.length_cons]; omega)).map _
            · exact endsWithin_readLeaf offset c r
    · rw [readItems]
      refine (ihValue offset s (by omega)).bind fun first hfirst => ?_
      have hskip := length_skipSpace_le first.offset first.rest
      dsimp only
      split
      · next hs =>
        rw [hs, List.length_cons] at hskip
        exact Nat.lt_trans (Nat.lt_of_succ_le hskip) hfirst
      · next after r hs =>
        rw [hs, List.length_cons] at hskip
        have hnext := length_skipSpace_le (after + 1) r
        exact ((ihItems _ _ (by omega)).mono (by omega)).bind fun x hx => hx
      · trivial
    · cases s with
      | nil => trivial
      | cons c r =>
        rw [List.length_cons] at h
        rw [readMembers]
        split
        · refine (endsWithin_readString _ _ r).bind fun name hname => ?_
          refine EndsWithin.afterColon fun t ht => ?_
          refine (ihValue t.1 t.2 (by omega)).bind fun first hfirst => ?_
          have hskip := length_skipSpace_le first.offset first.rest
          dsimp only
          split
          · next hs =>
            rw [hs, List.length_cons] at hskip
            dsimp only [EndsWithin, pure, Except.pure]
            rw [List.length_cons]
            omega
          · next after r' hs =>
            rw [hs, List.length_cons] at hskip
            have hnext := length_skipSpace_le (after + 1) r'
            refine ((ihMembers _ _ (by omega)).mono ?_).bind fun x hx => hx
            rw [List.length_cons]
            omega
          · trivial
        · trivial

/-- The count of steps never cuts reading short. -/
theorem readChars_ne_outOfSteps (s : List Char) : readChars s ≠ .error .outOfSteps := by
  unfold readChars
  split
  · simp
  · have hskip := length_skipSpace_le 0 s
    have h := (endsWithin_read (2 * s.length + 1)).1 (skipSpace 0 s).1 (skipSpace 0 s).2 (by omega)
    intro hs
    dsimp only [bind, Except.bind] at hs
    split at hs
    · next e he =>
      cases hs
      rw [he] at h
      exact h
    · split at hs <;> cases hs

end Mustache.Json
